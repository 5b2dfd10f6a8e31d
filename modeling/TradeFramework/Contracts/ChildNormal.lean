import TradeFramework.Contracts.Nesting

/-!
# Normal forms of child schemas

The schema resolved for a named child is in normal form again, and the path that is passed
along only shows up in error messages.
-/

namespace TradeFramework

section Paths

/-- A DataKey schema is valid under every path or under none. -/
lemma validateDataKeySchema_path {s : Schema} {path : String}
    (h : validateDataKeySchema s path = .ok ()) (other : String) :
    validateDataKeySchema s other = .ok () := by
  induction s using Schema.childInduction generalizing path other with
  | never => rw [validateDataKeySchema]; rfl
  | object kw ih =>
    rw [validateDataKeySchema] at h ⊢
    simp only [Raising.bind_eq_ok, Raising.raiseIf_eq_ok, Raising.forM_eq_ok, List.forall_mem_cons,
      List.not_mem_nil, false_imp_iff, implies_true, and_true] at h ⊢
    obtain ⟨⟨⟩, hne, ⟨⟩, hbranches, ⟨⟩, harray, ⟨⟩, hconcrete, ⟨⟩, hliterals, hobject⟩ := h
    refine ⟨(), hne, (), ?_, (), harray, (), hconcrete, (), hliterals, ?_⟩
    · exact ⟨fun x hx => ih x.1.1 x.1.2 (hbranches.1 x hx) _,
        fun x hx => ih x.1.1 x.1.2 (hbranches.2.1 x hx) _,
        fun x hx => ih x.1.1 x.1.2 (hbranches.2.2 x hx) _⟩
    · split_ifs at hobject ⊢ with hshape
      · simp only [Raising.bind_eq_ok, Raising.raiseIf_eq_ok, Raising.forM_eq_ok] at hobject ⊢
        obtain ⟨⟨⟩, hclosed, ⟨⟩, hproperties, hextra⟩ := hobject
        exact ⟨(), hclosed, (), fun e he => ih e.2.1 e.2.2 (hproperties e he) _,
          fun s hs => ih s.1 s.2 (hextra s hs) _⟩
      · rfl

lemma normalizeDataKeySchema_path {value : Json} {path : String} {s : Schema}
    (h : normalizeDataKeySchema value path = .ok s) (other : String) :
    normalizeDataKeySchema value other = .ok s := by
  rw [normalizeDataKeySchema_eq_ok] at h ⊢
  exact ⟨h.1, validateDataKeySchema_path h.2 other⟩

variable {options : List Schema} {path : String} {t : Schema}

lemma schemaUnion_path (h : schemaUnion options path = .ok t) (other : String) :
    schemaUnion options other = .ok t := by
  unfold schemaUnion at h ⊢
  split at h
  case h_3 => exact normalizeDataKeySchema_path h other
  all_goals exact h

lemma schemaIntersection_path (h : schemaIntersection options path = .ok t) (other : String) :
    schemaIntersection options other = .ok t := by
  unfold schemaIntersection at h ⊢
  dsimp only at h ⊢
  split_ifs at h ⊢
  · exact h
  · split at h
    case h_3 => exact normalizeDataKeySchema_path h other
    all_goals exact h

variable {children constraint : Option (List Schema)}

lemma unionConstraint_path (h : unionConstraint path children = .ok constraint) (other : String) :
    unionConstraint other children = .ok constraint := by
  cases children with
  | none => exact h
  | some children =>
    unfold unionConstraint at h ⊢
    dsimp only at h ⊢
    split_ifs at h ⊢
    · exact h
    · rw [Raising.map_eq_ok] at h ⊢
      obtain ⟨s, hs, hsome⟩ := h
      exact ⟨s, schemaUnion_path hs other, hsome⟩

lemma intersectionConstraint_path (h : intersectionConstraint path children = .ok constraint)
    (other : String) : intersectionConstraint other children = .ok constraint := by
  cases children with
  | none => exact h
  | some children =>
    unfold intersectionConstraint at h ⊢
    dsimp only at h ⊢
    split_ifs at h ⊢
    · exact h
    · rw [Raising.map_eq_ok] at h ⊢
      obtain ⟨s, hs, hsome⟩ := h
      exact ⟨s, schemaIntersection_path hs other, hsome⟩

lemma orNever_mono {next next' : List Schema → Except PyError Schema}
    (hnext : ∀ schemas, next schemas = .ok t → next' schemas = .ok t)
    (h : orNever constraint next = .ok t) : orNever constraint next' = .ok t := by
  cases constraint with
  | none => exact h
  | some schemas => exact hnext schemas h

/-- The child schema does not depend on the path, which only names it in errors. -/
theorem schemaChildSchema_path {schema child : Schema} {name : String}
    (h : schemaChildSchema schema name path = .ok child) (other : String) :
    schemaChildSchema schema name other = .ok child := by
  induction schema using Schema.childInduction generalizing child path other with
  | never =>
    rw [schemaChildSchema] at h ⊢
    exact h
  | object kw ih =>
    have hbranches : ∀ {branches : Option (List {s // s ∈ kw.children})} {here there : String}
        {children : Option (List Schema)},
        (branches.mapM fun bs => bs.mapM fun branch => schemaChildSchema branch.1 name here) =
          .ok children →
        (branches.mapM fun bs => bs.mapM fun branch => schemaChildSchema branch.1 name there) =
          .ok children := by
      intro branches here there children hchildren
      rw [Raising.option_mapM_eq_ok] at hchildren ⊢
      refine Related.rel_mono (fun bs cs hbs => ?_) hchildren
      rw [Raising.mapM_eq_ok] at hbs ⊢
      exact hbs.imp fun branch c hc => ih branch.1 branch.2 hc there
    rw [schemaChildSchema] at h ⊢
    refine orNever_mono (fun direct h => ?_) h
    refine orNever_mono (fun literal h => ?_) h
    simp only [Raising.bind_eq_ok] at h ⊢
    obtain ⟨listed, hlisted, h⟩ := h
    refine ⟨listed, unionConstraint_path hlisted _, orNever_mono (fun _ h => ?_) h⟩
    simp only [Raising.bind_eq_ok] at h ⊢
    obtain ⟨anyOf, hanyOf, any, hany, h⟩ := h
    refine ⟨anyOf, hbranches hanyOf, any, unionConstraint_path hany _, orNever_mono (fun _ h => ?_) h⟩
    simp only [Raising.bind_eq_ok] at h ⊢
    obtain ⟨oneOf, honeOf, one, hone, h⟩ := h
    refine ⟨oneOf, hbranches honeOf, one, unionConstraint_path hone _, orNever_mono (fun _ h => ?_) h⟩
    simp only [Raising.bind_eq_ok] at h ⊢
    obtain ⟨allOf, hallOf, all, hall, h⟩ := h
    refine ⟨allOf, hbranches hallOf, all, intersectionConstraint_path hall _,
      orNever_mono (fun _ h => ?_) h⟩
    exact schemaIntersection_path h _

end Paths

section Normality

lemma compiledValidationFailure_wildcard (v : Json) (trusted : Bool) :
    compiledValidationFailure v (.wildcard trusted) = none := by
  rw [compiledValidationFailure]

/-- A literal passes the check of its own `const` keyword. -/
lemma compiledValidationFailure_const (c : Json) : compiledValidationFailure c
    (compileValidationPlan (.object { const := some c }) false) = none := by
  have hplan : compileValidationPlan (.object { const := some c }) false = .object {
      allowedTypes := jsonTypes, typeLabel := Keywords.label ({ const := some c } : Keywords Schema)
      const := some c, enum := none, allOf := [], anyOf := [], oneOf := [], properties := []
      required := [], additional := some (.wildcard false), items := .wildcard false } := by
    rw [compileValidationPlan, Schema.fold_object]
    rfl
  have htype : TypeAllowed jsonTypes (jsonType c) := Or.inl (mem_jsonTypes _)
  rw [hplan, compiledValidationFailure.eq_def]
  cases c with
  | arr xs =>
    simp only [List.attach_nil, List.findSome?_nil, Option.isSome_none, Bool.false_eq_true, if_false,
      List.isEmpty_nil, not_true_eq_false, false_and, htype, Option.any_some, jsonValuesEqual_refl,
      Bool.not_true, Option.any_none, List.findSome?_eq_none_iff]
    intro e _
    rw [compiledValidationFailure_wildcard]
    rfl
  | obj d =>
    simp only [List.attach_nil, List.findSome?_nil, Option.isSome_none, Bool.false_eq_true, if_false,
      List.isEmpty_nil, not_true_eq_false, false_and, htype, Option.any_some, jsonValuesEqual_refl,
      Bool.not_true, Option.any_none, List.find?_nil, List.findSome?_eq_none_iff]
    intro e _
    simp only [CompiledKeywords.memberPlan, List.lookup_nil]
    rw [compiledValidationFailure_wildcard]
    rfl
  | _ => simp [htype]

lemma normal_const (c : Json) : (Schema.object { const := some c }).Normal := by
  refine Schema.normal_object.mpr ⟨⟨?_, ?_, ?_, ?_, ?_, ?_, ?_, ?_⟩, ?_⟩
  · simp
  · simp
  · simp
  · simp
  · simp
  · simp
  · simp
  · simp [checkLiterals, Raising.raiseIf, compiledValidationFailure_const]
  · simp [Keywords.children, Keywords.propertyMap, Keywords.extra]

lemma normal_objectSchema {properties : List (String × Schema)} {required : List String}
    {extra : Option Schema} (hkeys : (properties.map Prod.fst).Nodup) (hrequired : required.Nodup)
    (hproperties : ∀ e ∈ properties, e.2.Normal) (hextra : ∀ s, extra = some s → s.Normal) :
    (objectSchema properties required extra).Normal := by
  refine Schema.normal_object.mpr ⟨⟨?_, ?_, ?_, ?_, ?_, ?_, ?_, rfl⟩, ?_⟩
  · simp [objectKeywords]
  · rintro _ ⟨⟩
    exact Dict.items_of_nodup hkeys
  · simp [objectKeywords, Keywords.declaredTypes]
  · rintro _ ⟨⟩
    exact hrequired
  · simp [objectKeywords]
  · simp [objectKeywords]
  · simp [objectKeywords]
  · refine Keywords.forall_children ?_ ?_ ?_ ?_
    · rintro _ ⟨⟩
      exact hproperties
    · rintro s ⟨⟩
      exact hextra s rfl
    · simp [objectKeywords]
    · simp [objectKeywords]

lemma nodup_sortedStrings {names : List String} (h : names.Nodup) : (sortedStrings names).Nodup :=
  (List.perm_insertionSort _ names).nodup_iff.mpr h

lemma literalDataKeySchema_normal (literal : Json) : (literalDataKeySchema literal).Normal := by
  induction literal using Json.visibleInduction with
  | scalar c _ hobj =>
    cases c with
    | obj d => exact absurd rfl (hobj d)
    | _ => rw [literalDataKeySchema]; exact normal_const _; all_goals simp
  | arr xs _ => rw [literalDataKeySchema]; exact normal_const _; simp
  | obj d ih =>
    rw [literalDataKeySchema_obj]
    refine normal_objectSchema ?_ (nodup_sortedStrings (Dict.nodup_keys d)) ?_ ?_
    · have hkeys := Dict.nodup_keys d
      unfold Dict.keys at hkeys
      simpa [Dict.mapValues, Function.comp_def] using hkeys
    · intro e he
      obtain ⟨⟨k, x⟩, hx, rfl⟩ := List.mem_map.mp he
      exact ih k x (Dict.mem_items.mp hx)
    · rintro _ ⟨⟩
      exact Schema.normal_never

lemma normalizeDataKeySchema_normal {value : Json} {path : String} {s : Schema}
    (h : normalizeDataKeySchema value path = .ok s) : s.Normal :=
  normalizeSchema_normal (normalizeDataKeySchema_eq_ok.mp h).1

section Combination

variable {options : List Schema} {path : String} {t : Schema}

lemma uniqueSchemas_normal (h : ∀ s ∈ options, s.Normal) : ∀ s ∈ uniqueSchemas options, s.Normal :=
  fun s hs => h s (Related.distinct_subset options hs)

lemma schemaUnion_normal (h : ∀ s ∈ options, s.Normal) (ht : schemaUnion options path = .ok t) :
    t.Normal := by
  have hunique := uniqueSchemas_normal h
  unfold schemaUnion at ht
  split at ht
  case h_1 =>
    cases ht
    exact Schema.normal_never
  case h_2 hs =>
    cases ht
    exact hunique t (by simp [hs])
  case h_3 => exact normalizeDataKeySchema_normal ht

lemma schemaIntersection_normal (h : ∀ s ∈ options, s.Normal)
    (ht : schemaIntersection options path = .ok t) : t.Normal := by
  have hunique := uniqueSchemas_normal fun s hs =>
    h s (List.mem_of_mem_filter (p := fun option => !option.isWildcard) hs)
  unfold schemaIntersection at ht
  dsimp only at ht
  split_ifs at ht
  · cases ht
    exact Schema.normal_never
  · split at ht
    case h_1 =>
      cases ht
      exact wildcard_normal
    case h_2 hs =>
      cases ht
      exact hunique t (by simp [hs])
    case h_3 => exact normalizeDataKeySchema_normal ht

end Combination

end Normality

section Closure

/-- What a property of schemas needs so that it passes on to a property of the named children. -/
structure ChildClosed (name : String) (P C : Schema → Prop) : Prop where
  never : C .never
  wildcard : C .wildcard
  member : ∀ {kw s}, P (.object kw) → kw.child name = some s → C s
  literal : ∀ {kw d x}, P (.object kw) → .obj d ∈ kw.listedLiterals → d.lookup name = some x →
    C (literalDataKeySchema x)
  branch : ∀ {kw s}, P (.object kw) → s ∈ kw.branches → P s
  union : ∀ {options path t}, (∀ s ∈ options, C s) → schemaUnion options path = .ok t → C t
  intersection : ∀ {options path t}, (∀ s ∈ options, C s) →
    schemaIntersection options path = .ok t → C t

namespace ChildClosed

variable {name path : String} {P C : Schema → Prop} {kw : Keywords Schema}

lemma directConstraint (hclosed : ChildClosed name P C) (h : P (.object kw)) {schemas : List Schema}
    (hs : kw.directConstraint name = some schemas) : ∀ s ∈ schemas, C s := by
  unfold Keywords.directConstraint at hs
  split_ifs at hs
  · cases hs
    simp
  · split at hs
    case h_1 s hlookup =>
      cases hs
      exact List.forall_mem_singleton.mpr (hclosed.member h (by simp [Keywords.child, hlookup]))
    case h_2 hlookup =>
      have hextra : kw.child name = kw.extra := by simp [Keywords.child, hlookup]
      split at hs
      case h_1 =>
        cases hs
        simp
      case h_2 => cases hs
      case h_3 s _ hsome =>
        cases hs
        exact List.forall_mem_singleton.mpr (hclosed.member h (hextra.trans hsome))

lemma constConstraint (hclosed : ChildClosed name P C) (h : P (.object kw)) {schemas : List Schema}
    (hs : kw.constConstraint name = some schemas) : ∀ s ∈ schemas, C s := by
  unfold Keywords.constConstraint at hs
  split at hs
  case h_1 =>
    cases hs
    simp
  case h_2 d hconst =>
    obtain ⟨x, hx, rfl⟩ := Option.map_eq_some_iff.mp hs
    have hmem : Json.obj d ∈ kw.listedLiterals := by simp [Keywords.listedLiterals, hconst]
    exact List.forall_mem_singleton.mpr (hclosed.literal h hmem hx)
  case h_3 => cases hs

lemma enumChildren (hclosed : ChildClosed name P C) (h : P (.object kw)) {children : List Schema}
    (hs : kw.enum.map (Keywords.enumChildren name) = some children) : ∀ s ∈ children, C s := by
  obtain ⟨values, hvalues, rfl⟩ := Option.map_eq_some_iff.mp hs
  intro s hs
  obtain ⟨value, hvalue, hs⟩ := List.mem_filterMap.mp hs
  have hmem : value ∈ kw.listedLiterals := by simp [Keywords.listedLiterals, hvalues, hvalue]
  split at hs
  · obtain ⟨x, hx, rfl⟩ := Option.map_eq_some_iff.mp hs
    exact hclosed.literal h hmem hx
  · cases hs

lemma unionConstraint (hclosed : ChildClosed name P C) {children : Option (List Schema)}
    {schemas : List Schema} (hchildren : ∀ cs, children = some cs → ∀ c ∈ cs, C c)
    (h : TradeFramework.unionConstraint path children = .ok (some schemas)) :
    ∀ s ∈ schemas, C s := by
  cases children with
  | none =>
    cases h
    simp
  | some cs =>
    unfold TradeFramework.unionConstraint at h
    dsimp only at h
    split_ifs at h
    · cases h
    · obtain ⟨s, hs, hsome⟩ := Raising.map_eq_ok.mp h
      cases hsome
      refine List.forall_mem_singleton.mpr (hclosed.union (fun c hc => ?_) hs)
      exact hchildren cs rfl c (List.mem_of_mem_filter hc)

lemma intersectionConstraint (hclosed : ChildClosed name P C) {children : Option (List Schema)}
    {schemas : List Schema} (hchildren : ∀ cs, children = some cs → ∀ c ∈ cs, C c)
    (h : TradeFramework.intersectionConstraint path children = .ok (some schemas)) :
    ∀ s ∈ schemas, C s := by
  cases children with
  | none =>
    cases h
    simp
  | some cs =>
    unfold TradeFramework.intersectionConstraint at h
    dsimp only at h
    split_ifs at h
    · cases h
    · obtain ⟨s, hs, hsome⟩ := Raising.map_eq_ok.mp h
      cases hsome
      exact List.forall_mem_singleton.mpr (hclosed.intersection (hchildren cs rfl) hs)

lemma orNever (hclosed : ChildClosed name P C) {constraint : Option (List Schema)} {t : Schema}
    {next : List Schema → Except PyError Schema}
    (hnext : ∀ schemas, constraint = some schemas → next schemas = .ok t → C t)
    (h : TradeFramework.orNever constraint next = .ok t) : C t := by
  cases constraint with
  | none =>
    cases h
    exact hclosed.never
  | some schemas => exact hnext schemas rfl h

/-- The rule: a child schema is assembled from members, literals and branches only. -/
theorem child (hclosed : ChildClosed name P C) {schema t : Schema}
    (h : schemaChildSchema schema name path = .ok t) (hschema : P schema) : C t := by
  induction schema using Schema.childInduction generalizing t path with
  | never =>
    rw [schemaChildSchema] at h
    cases h
    exact hclosed.never
  | object kw ih =>
    have hbranches : ∀ {branches : Option (List {s // s ∈ kw.children})} {here : String}
        {children : Option (List Schema)}, (∀ bs, branches = some bs → ∀ b ∈ bs, P b.1) →
        (branches.mapM fun bs => bs.mapM fun branch => schemaChildSchema branch.1 name here) =
          .ok children → ∀ cs, children = some cs → ∀ c ∈ cs, C c := by
      rintro branches here children hP hchildren cs rfl c hc
      obtain ⟨bs, hbs, hrel⟩ := Related.exists_of_rel_some (Raising.option_mapM_eq_ok.mp hchildren)
      obtain ⟨b, hb, hbc⟩ := Related.exists_mem_left (Raising.mapM_eq_ok.mp hrel) hc
      exact ih b.1 b.2 hbc (hP bs hbs b hb)
    have hattach : ∀ {branches : Option (List {s // s ∈ kw.children})},
        branches.map (List.map Subtype.val) ∈ [kw.anyOf, kw.oneOf, kw.allOf] →
          ∀ bs, branches = some bs → ∀ b ∈ bs, P b.1 := by
      rintro branches hmem bs rfl b hb
      exact hclosed.branch hschema (Keywords.mem_branches hmem rfl (List.mem_map_of_mem hb))
    have hany : kw.attach.anyOf.map (List.map Subtype.val) = kw.anyOf := kw.union_attach .anyOf
    have hone : kw.attach.oneOf.map (List.map Subtype.val) = kw.oneOf := kw.union_attach .oneOf
    have hall : kw.attach.allOf.map (List.map Subtype.val) = kw.allOf := by
      conv_rhs => rw [← kw.attach_map_val]
      rfl
    rw [schemaChildSchema] at h
    refine hclosed.orNever (fun direct hdirect h => ?_) h
    refine hclosed.orNever (fun literal hliteral h => ?_) h
    obtain ⟨listed, hlisted, h⟩ := Raising.bind_eq_ok.mp h
    refine hclosed.orNever (fun listed' hlisted' h => ?_) h
    obtain ⟨anyOf, hanyOf, h⟩ := Raising.bind_eq_ok.mp h
    obtain ⟨any, hanyC, h⟩ := Raising.bind_eq_ok.mp h
    refine hclosed.orNever (fun any' hany' h => ?_) h
    obtain ⟨oneOf, honeOf, h⟩ := Raising.bind_eq_ok.mp h
    obtain ⟨one, honeC, h⟩ := Raising.bind_eq_ok.mp h
    refine hclosed.orNever (fun one' hone' h => ?_) h
    obtain ⟨allOf, hallOf, h⟩ := Raising.bind_eq_ok.mp h
    obtain ⟨all, hallC, h⟩ := Raising.bind_eq_ok.mp h
    refine hclosed.orNever (fun all' hall' h => ?_) h
    refine hclosed.intersection ?_ h
    simp only [List.mem_append]
    rintro s (((((hs | hs) | hs) | hs) | hs) | hs)
    · exact hclosed.directConstraint hschema hdirect s hs
    · exact hclosed.constConstraint hschema hliteral s hs
    · exact hclosed.unionConstraint (fun cs hcs => hclosed.enumChildren hschema hcs)
        (hlisted' ▸ hlisted) s hs
    · exact hclosed.unionConstraint (hbranches (hattach (by simp [hany])) hanyOf)
        (hany' ▸ hanyC) s hs
    · exact hclosed.unionConstraint (hbranches (hattach (by simp [hone])) honeOf)
        (hone' ▸ honeC) s hs
    · exact hclosed.intersectionConstraint (hbranches (hattach (by simp [hall])) hallOf)
        (hall' ▸ hallC) s hs

end ChildClosed

lemma childClosed_normal (name : String) : ChildClosed name Schema.Normal Schema.Normal where
  never := Schema.normal_never
  wildcard := wildcard_normal
  member h hs := (Schema.normal_object.mp h).2 _ (Keywords.mem_children_child hs)
  literal _ _ _ := literalDataKeySchema_normal _
  branch h hs := (Schema.normal_object.mp h).2 _ (Keywords.branches_subset hs)
  union h ht := schemaUnion_normal h ht
  intersection h ht := schemaIntersection_normal h ht

/-- The child of a normalized schema is normalized. -/
theorem schemaChildSchema_normal {schema child : Schema} {name path : String}
    (h : schemaChildSchema schema name path = .ok child) (hschema : schema.Normal) :
    child.Normal :=
  (childClosed_normal name).child h hschema

section Depth

lemma Json.nesting_obj (d : List (String × Json)) :
    (Json.obj d).nesting = peak (2 :: (Dict.items d).map fun e => e.2.nesting + 1) := by
  rw [Json.nesting]
  conv_rhs => rw [← List.attach_map_subtype_val (Dict.items d), List.map_map]
  rfl

lemma Json.nesting_lt_obj {d : List (String × Json)} {k : String} {x : Json}
    (h : d.lookup k = some x) : x.nesting < (Json.obj d).nesting := by
  rw [Json.nesting_obj]
  refine Nat.lt_of_succ_le (le_peak (List.mem_cons_of_mem _ ?_))
  exact List.mem_map.mpr ⟨(k, x), Dict.mem_items.mpr h, rfl⟩

lemma Json.one_le_nesting (value : Json) : 1 ≤ value.nesting := by
  cases value with
  | obj d =>
    rw [nesting_obj]
    exact one_le_peak _
  | _ => simp [nesting]

lemma nesting_literalDataKeySchema_le (literal : Json) :
    (literalDataKeySchema literal).nesting ≤ literal.nesting := by
  have hconst : ∀ c : Json, 1 ≤ c.nesting → (Schema.object { const := some c }).nesting ≤ c.nesting := by
    intro c hc
    refine Keywords.nesting_le_iff.mpr ⟨hc, ?_, ?_, ?_⟩ <;>
      simp [Keywords.descents, Keywords.branches, Keywords.listedLiterals, Keywords.propertyMap,
        Keywords.extra]
  induction literal using Json.visibleInduction with
  | scalar c _ hobj =>
    cases c with
    | obj d => exact absurd rfl (hobj d)
    | _ => rw [literalDataKeySchema] <;> first | exact hconst _ (by simp [Json.nesting]) | simp
  | arr xs _ =>
    rw [literalDataKeySchema]
    · exact hconst _ (by simp [Json.nesting])
    · simp
  | obj d ih =>
    rw [literalDataKeySchema_obj, Json.nesting_obj]
    refine Keywords.nesting_le_iff.mpr ⟨one_le_peak _, ?_, ?_, ?_⟩
    · intro s hs
      simp only [Keywords.descents, objectKeywords, Keywords.propertyMap, Keywords.extra,
        Option.getD_some, Option.toList_some, Option.toList_none, List.append_nil, List.mem_append,
        List.mem_map, List.mem_singleton, Dict.mapValues] at hs
      rcases hs with ⟨_, ⟨⟨k, x⟩, hx, rfl⟩, rfl⟩ | rfl
      · have hle := ih k x (Dict.mem_items.mp hx)
        have hpeak := Json.nesting_lt_obj (Dict.mem_items.mp hx)
        rw [Json.nesting_obj] at hpeak
        dsimp only
        omega
      · rw [Schema.nesting_never]
        exact le_peak (by simp)
    · simp [Keywords.branches, objectKeywords]
    · simp [Keywords.listedLiterals, objectKeywords]

variable {n : ℕ} {options : List Schema} {path : String} {t : Schema}

lemma nesting_normalizeDataKeySchema_le {s : Schema}
    (h : normalizeDataKeySchema s.toJson path = .ok t) : t.nesting ≤ s.nesting :=
  nesting_normalizeSchema_le (normalizeDataKeySchema_eq_ok.mp h).1

lemma nesting_schemaUnion_le (hn : 1 ≤ n) (h : ∀ s ∈ options, s.nesting ≤ n)
    (ht : schemaUnion options path = .ok t) : t.nesting ≤ n := by
  have hunique : ∀ s ∈ uniqueSchemas options, s.nesting ≤ n :=
    fun s hs => h s (Related.distinct_subset options hs)
  unfold schemaUnion at ht
  split at ht
  case h_1 =>
    cases ht
    rw [Schema.nesting_never]
    omega
  case h_2 hs =>
    cases ht
    exact hunique t (by simp [hs])
  case h_3 =>
    refine (nesting_normalizeDataKeySchema_le ht).trans (Keywords.nesting_le_iff.mpr ⟨hn, ?_, ?_, ?_⟩)
    · simp [Keywords.descents, Keywords.propertyMap, Keywords.extra]
    · simpa [Keywords.branches] using hunique
    · simp [Keywords.listedLiterals]

lemma nesting_schemaIntersection_le (hn : 1 ≤ n) (h : ∀ s ∈ options, s.nesting ≤ n)
    (ht : schemaIntersection options path = .ok t) : t.nesting ≤ n := by
  have hunique : ∀ s ∈ uniqueSchemas (options.filter fun option => !option.isWildcard),
      s.nesting ≤ n :=
    fun s hs => h s (List.mem_of_mem_filter (Related.distinct_subset _ hs))
  unfold schemaIntersection at ht
  dsimp only at ht
  split_ifs at ht
  · cases ht
    rw [Schema.nesting_never]
    omega
  · split at ht
    case h_1 =>
      cases ht
      exact Keywords.nesting_le_iff.mpr ⟨hn, by simp [Keywords.descents, Keywords.propertyMap,
        Keywords.extra], by simp [Keywords.branches], by simp [Keywords.listedLiterals]⟩
    case h_2 hs =>
      cases ht
      exact hunique t (by simp [hs])
    case h_3 =>
      refine (nesting_normalizeDataKeySchema_le ht).trans
        (Keywords.nesting_le_iff.mpr ⟨hn, ?_, ?_, ?_⟩)
      · simp [Keywords.descents, Keywords.propertyMap, Keywords.extra]
      · simpa [Keywords.branches] using hunique
      · simp [Keywords.listedLiterals]

lemma mem_descents_of_child {kw : Keywords Schema} {name : String} {s : Schema}
    (h : kw.child name = some s) : s ∈ kw.descents := by
  rcases Keywords.child_eq_some h with hl | ⟨-, hextra⟩
  · have hmem : s ∈ kw.propertyMap.map Prod.snd := List.mem_map_of_mem (Dict.lookup_mem hl)
    simp [Keywords.descents, hmem]
  · simp [Keywords.descents, hextra]

lemma childClosed_nesting (name : String) (hn : 1 ≤ n) :
    ChildClosed name (fun s => s.nesting ≤ n + 1) (fun c => c.nesting ≤ n) where
  never := by
    rw [Schema.nesting_never]
    omega
  wildcard := Keywords.nesting_le_iff.mpr ⟨hn, by simp [Keywords.descents, Keywords.propertyMap,
    Keywords.extra], by simp [Keywords.branches], by simp [Keywords.listedLiterals]⟩
  member h hs := by
    have hlt := Keywords.nesting_descent_lt (mem_descents_of_child hs)
    omega
  literal {kw d x} h hd hx := by
    have hobj := Keywords.nesting_literal_le hd
    have hle := nesting_literalDataKeySchema_le x
    have hlt := Json.nesting_lt_obj hx
    omega
  branch h hs := (Keywords.nesting_branch_le hs).trans h
  union h ht := nesting_schemaUnion_le hn h ht
  intersection h ht := nesting_schemaIntersection_le hn h ht

lemma schemaExplicitChildNames_object (kw : Keywords Schema) :
    schemaExplicitChildNames (.object kw) =
      Dict.keys kw.propertyMap ++ kw.listedLiterals.flatMap literalNames ++
        kw.branches.flatMap schemaExplicitChildNames := by
  have hproperties : Dict.keys (kw.map schemaExplicitChildNames).propertyMap =
      Dict.keys kw.propertyMap := by
    cases hp : kw.properties with
    | none =>
      simp only [Keywords.propertyMap, Keywords.map, hp]
      rfl
    | some d =>
      have hitems := Dict.items_mapValues (fun _ s => schemaExplicitChildNames s) d
      unfold Dict.mapValues at hitems
      simp [Keywords.propertyMap, Keywords.map, hp, Dict.keys, hitems, Function.comp_def]
  have hlist : ∀ o : Option (List Schema), (o.map (List.map schemaExplicitChildNames)).getD [] =
      (o.getD []).map schemaExplicitChildNames := by
    rintro (_ | bs) <;> rfl
  have hfold : schemaExplicitChildNames (.object kw) =
      (kw.map schemaExplicitChildNames).explicitNames := Schema.fold_object _ _ kw
  rw [hfold, Keywords.explicitNames, hproperties]
  simp only [Keywords.map, hlist, Keywords.listedLiterals, Keywords.branches, List.flatMap_def,
    List.map_append]

/-- A schema with a named member nests at least twice. -/
lemma two_le_nesting {s : Schema} {name : String} (h : name ∈ schemaExplicitChildNames s) :
    2 ≤ s.nesting := by
  induction s using Schema.childInduction with
  | never =>
    have hnil : schemaExplicitChildNames .never = [] := Schema.fold_never _ _
    simp [hnil] at h
  | object kw ih =>
    rw [schemaExplicitChildNames_object, List.mem_append, List.mem_append] at h
    rcases h with (h | h) | h
    · obtain ⟨s, hs⟩ := Option.isSome_iff_exists.mp (Dict.mem_keys.mp h)
      have hchild : kw.child name = some s := by simp [Keywords.child, hs]
      have hlt := Keywords.nesting_descent_lt (mem_descents_of_child hchild)
      have hone := s.one_le_nesting
      omega
    · obtain ⟨c, hc, hname⟩ := List.mem_flatMap.mp h
      have hle := Keywords.nesting_literal_le hc
      cases c with
      | obj d =>
        obtain ⟨x, hx⟩ := Option.isSome_iff_exists.mp (Dict.mem_keys.mp hname)
        have hlt := Json.nesting_lt_obj hx
        have hone := x.one_le_nesting
        omega
      | _ => simp [literalNames] at hname
    · obtain ⟨b, hb, hname⟩ := List.mem_flatMap.mp h
      have hle := Keywords.nesting_branch_le hb
      have htwo := ih b (Keywords.branches_subset hb) hname
      omega

/-- A named child nests strictly less than its schema. -/
theorem nesting_schemaChildSchema_lt {schema child : Schema} {name path : String}
    (hname : name ∈ schemaExplicitChildNames schema)
    (h : schemaChildSchema schema name path = .ok child) : child.nesting < schema.nesting := by
  have htwo := two_le_nesting hname
  have hn : 1 ≤ schema.nesting - 1 := by omega
  have hle := (childClosed_nesting name hn).child h (by omega)
  omega

end Depth

end Closure

end TradeFramework
