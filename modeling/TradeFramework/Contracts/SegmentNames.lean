import TradeFramework.Contracts.Reducer
import TradeFramework.Contracts.Reexpansion

/-!
# Schemas whose members are DataKey segments

A schema that only names members by DataKey segments, in its properties and in its literals, lists only
such members, and the symbolic writes keep it so.
-/

namespace TradeFramework

section Definitions

/-- Every member name in a literal is a DataKey segment. -/
def Json.SegmentKeys : Json → Prop
  | .obj d => ∀ e : {e // e ∈ Dict.items d}, isPathSegment e.1.1 = true ∧ Json.SegmentKeys e.1.2
  | _ => True
termination_by value => sizeOf value
decreasing_by exact Json.sizeOf_lt_obj e.2

lemma Json.segmentKeys_obj {d : List (String × Json)} : (Json.obj d).SegmentKeys ↔
    ∀ name x, d.lookup name = some x → isPathSegment name = true ∧ x.SegmentKeys := by
  rw [SegmentKeys, Subtype.forall]
  constructor
  · intro h name x hx
    exact h (name, x) (Dict.mem_items.mpr hx)
  · rintro h ⟨name, x⟩ he
    exact h name x (Dict.mem_items.mp he)

/-- The schemas that say what is below a member of an object: the properties, the value schema and the
branches. -/
def Keywords.memberSchemas (kw : Keywords Schema) : List Schema :=
  (Dict.items kw.propertyMap).map Prod.snd ++ kw.extra.toList ++ kw.branches

lemma Keywords.mem_memberSchemas {kw : Keywords Schema} {s : Schema} : s ∈ kw.memberSchemas ↔
    (∃ name, kw.propertyMap.lookup name = some s) ∨ kw.extra = some s ∨ s ∈ kw.branches := by
  simp only [memberSchemas, List.mem_append, List.mem_map, Option.mem_toList, or_assoc, Prod.exists,
    Dict.mem_items, exists_eq_right]

lemma Keywords.memberSchemas_subset {kw : Keywords Schema} {s : Schema} (h : s ∈ kw.memberSchemas) :
    s ∈ kw.children := by
  rcases mem_memberSchemas.mp h with ⟨name, hs⟩ | hs | hs
  · exact @mem_children_child _ _ name _ (by simp [child, hs])
  · simp [children, hs]
  · exact branches_subset hs

/-- Every member name in a schema is a DataKey segment; array items have no members. -/
def Schema.SegmentNamed : Schema → Prop
  | .never => True
  | .object kw => (∀ name ∈ Dict.keys kw.propertyMap, isPathSegment name = true) ∧
    (∀ literal ∈ kw.listedLiterals, literal.SegmentKeys) ∧
      ∀ s : {s // s ∈ kw.memberSchemas}, s.1.SegmentNamed
termination_by s => sizeOf s
decreasing_by exact Schema.sizeOf_lt_object (Keywords.memberSchemas_subset s.2)

lemma Schema.segmentNamed_never : Schema.never.SegmentNamed := by
  rw [SegmentNamed]
  trivial

lemma Schema.segmentNamed_object {kw : Keywords Schema} : (Schema.object kw).SegmentNamed ↔
    (∀ name ∈ Dict.keys kw.propertyMap, isPathSegment name = true) ∧
      (∀ literal ∈ kw.listedLiterals, literal.SegmentKeys) ∧ ∀ s ∈ kw.memberSchemas, s.SegmentNamed := by
  rw [SegmentNamed, Subtype.forall]

end Definitions

section Members

variable {kw : Keywords Schema}

lemma Schema.SegmentNamed.member (h : (Schema.object kw).SegmentNamed) {s : Schema}
    (hs : s ∈ kw.memberSchemas) : s.SegmentNamed :=
  (Schema.segmentNamed_object.mp h).2.2 s hs

lemma Schema.SegmentNamed.branch (h : (Schema.object kw).SegmentNamed) {s : Schema} (hs : s ∈ kw.branches) :
    s.SegmentNamed :=
  h.member (Keywords.mem_memberSchemas.mpr (.inr (.inr hs)))

lemma Schema.SegmentNamed.property (h : (Schema.object kw).SegmentNamed) {name : String} {s : Schema}
    (hs : kw.propertyMap.lookup name = some s) : isPathSegment name = true ∧ s.SegmentNamed := by
  have hsome : (kw.propertyMap.lookup name).isSome := by simp [hs]
  exact ⟨(Schema.segmentNamed_object.mp h).1 name (Dict.mem_keys.mpr hsome),
    h.member (Keywords.mem_memberSchemas.mpr (.inl ⟨name, hs⟩))⟩

lemma Schema.SegmentNamed.extra (h : (Schema.object kw).SegmentNamed) {s : Schema} (hs : kw.extra = some s) :
    s.SegmentNamed :=
  h.member (Keywords.mem_memberSchemas.mpr (.inr (.inl hs)))

/-- What a schema object needs, keyword by keyword. -/
lemma Schema.segmentNamed_of_keywords
    (hproperties : ∀ name s, kw.propertyMap.lookup name = some s → isPathSegment name = true ∧ s.SegmentNamed)
    (hextra : ∀ s, kw.extra = some s → s.SegmentNamed)
    (hliterals : ∀ literal ∈ kw.listedLiterals, literal.SegmentKeys)
    (hbranches : ∀ s ∈ kw.branches, s.SegmentNamed) : (Schema.object kw).SegmentNamed := by
  refine Schema.segmentNamed_object.mpr ⟨?_, hliterals, ?_⟩
  · intro name hname
    obtain ⟨s, hs⟩ := Option.isSome_iff_exists.mp (Dict.mem_keys.mp hname)
    exact (hproperties name s hs).1
  · intro s hs
    rcases Keywords.mem_memberSchemas.mp hs with ⟨name, hs⟩ | hs | hs
    · exact (hproperties name s hs).2
    · exact hextra s hs
    · exact hbranches s hs

lemma Schema.segmentNamed_wildcard : Schema.wildcard.SegmentNamed := by
  apply Schema.segmentNamed_of_keywords
  all_goals simp [Keywords.propertyMap, Keywords.listedLiterals, Keywords.branches, Keywords.extra]

/-- Normalizing a schema again names nothing new. -/
lemma segmentNamed_normalizeSchema {s t : Schema} (h : normalizeSchema s.toJson = .ok t)
    (hs : s.SegmentNamed) : t.SegmentNamed := by
  induction s using Schema.childInduction generalizing t with
  | never =>
    rw [Schema.toJson_never, normalizeSchema] at h
    cases h
    exact hs
  | object kw ih =>
    rw [Schema.toJson_object] at h
    obtain ⟨other, rfl, hread⟩ := normalizeSchema_obj_eq_ok.mp h
    apply Schema.segmentNamed_of_keywords
    · intro name t ht
      have hproperties := hread.matches.properties
      unfold Keywords.propertyMap at ht
      generalize hleft : kw.properties = left at hproperties
      generalize hright : other.properties = right at hproperties ht
      cases hproperties with
      | none => simp at ht
      | some hlookup =>
        have hrel := hlookup name
        rw [Option.getD_some] at ht
        rw [ht] at hrel
        obtain ⟨s, hlookup, hst⟩ := Related.exists_of_rel_some hrel
        have hmap : kw.propertyMap.lookup name = some s := by
          rw [Keywords.propertyMap, hleft]
          exact hlookup
        obtain ⟨hname, hnamed⟩ := hs.property hmap
        refine ⟨hname, ih s ?_ hst hnamed⟩
        exact @Keywords.mem_children_child _ _ name _ (by simp [Keywords.child, hmap])
    · intro t ht
      have hextra := hread.matches.extra
      rw [ht] at hextra
      obtain ⟨s, hsome, hst⟩ := Related.exists_of_rel_some hextra
      exact ih s (by simp [Keywords.children, hsome]) hst (hs.extra hsome)
    · rw [hread.listedLiterals_eq]
      exact (Schema.segmentNamed_object.mp hs).2.1
    · intro t ht
      obtain ⟨s, hbranch, hst⟩ := hread.exists_branch ht
      exact ih s (Keywords.branches_subset hbranch) hst (hs.branch hbranch)

lemma segmentNamed_normalizeDataKeySchema {s t : Schema} {path : String}
    (h : normalizeDataKeySchema s.toJson path = .ok t) (hs : s.SegmentNamed) : t.SegmentNamed :=
  segmentNamed_normalizeSchema (normalizeDataKeySchema_eq_ok.mp h).1 hs

/-- An object schema of named properties. -/
lemma segmentNamed_objectSchema {properties : List (String × Schema)} {required : List String}
    {extra : Option Schema}
    (hproperties : ∀ e ∈ properties, isPathSegment e.1 = true ∧ e.2.SegmentNamed)
    (hextra : ∀ s, extra = some s → s.SegmentNamed) :
    (objectSchema properties required extra).SegmentNamed := by
  apply Schema.segmentNamed_of_keywords
  · intro name s hs
    exact hproperties _ (Dict.lookup_mem hs)
  · exact hextra
  · simp [Keywords.listedLiterals, objectKeywords]
  · simp [Keywords.branches, objectKeywords]

/-- A composition of named schemas. -/
lemma segmentNamed_composition {options : List Schema} (h : ∀ s ∈ options, s.SegmentNamed)
    {keywords : Keywords Schema}
    (hkeywords : keywords ∈ [({ anyOf := some options } : Keywords Schema), { allOf := some options }]) :
    (Schema.object keywords).SegmentNamed := by
  simp only [List.mem_cons, List.not_mem_nil, or_false] at hkeywords
  rcases hkeywords with rfl | rfl
  all_goals
    apply Schema.segmentNamed_of_keywords
    · simp [Keywords.propertyMap]
    · simp [Keywords.extra]
    · simp [Keywords.listedLiterals]
    · simpa [Keywords.branches] using h

lemma segmentNamed_literal {literal : Json} (h : literal.SegmentKeys) :
    (literalDataKeySchema literal).SegmentNamed := by
  have hconst : ∀ c : Json, c.SegmentKeys → (Schema.object { const := some c }).SegmentNamed := by
    intro c hc
    apply Schema.segmentNamed_of_keywords
    · simp [Keywords.propertyMap]
    · simp [Keywords.extra]
    · simpa [Keywords.listedLiterals] using hc
    · simp [Keywords.branches]
  induction literal using Json.visibleInduction with
  | scalar c _ hobj =>
    cases c with
    | obj d => exact absurd rfl (hobj d)
    | _ =>
      rw [literalDataKeySchema]
      · exact hconst _ h
      · simp
  | arr xs =>
    rw [literalDataKeySchema]
    · exact hconst _ h
    · simp
  | obj d ih =>
    rw [literalDataKeySchema]
    apply segmentNamed_objectSchema
    · intro e he
      obtain ⟨⟨⟨name, x⟩, hmem⟩, -, rfl⟩ := List.mem_map.mp he
      have hx := Dict.mem_items.mp hmem
      obtain ⟨hname, hkeys⟩ := Json.segmentKeys_obj.mp h name x hx
      exact ⟨hname, ih name x hx hkeys⟩
    · rintro s ⟨⟩
      exact Schema.segmentNamed_never

lemma segmentNamed_uniqueSchemas {options : List Schema} (h : ∀ s ∈ options, s.SegmentNamed) :
    ∀ s ∈ uniqueSchemas options, s.SegmentNamed :=
  fun s hs => h s (Related.distinct_subset options hs)

lemma childClosed_segmentNamed (name : String) :
    ChildClosed name Schema.SegmentNamed Schema.SegmentNamed where
  never := Schema.segmentNamed_never
  wildcard := Schema.segmentNamed_wildcard
  member {kw s} h hs := by
    unfold Keywords.child at hs
    split at hs
    case h_1 t ht =>
      cases hs
      exact (h.property ht).2
    case h_2 => exact h.extra hs
  literal h hd hx := by
    have hkeys := (Schema.segmentNamed_object.mp h).2.1 _ hd
    exact segmentNamed_literal (Json.segmentKeys_obj.mp hkeys _ _ hx).2
  branch h hs := h.branch hs
  union {options path t} h ht := by
    have hunique := segmentNamed_uniqueSchemas h
    unfold schemaUnion at ht
    split at ht
    · cases ht
      exact Schema.segmentNamed_never
    · next option hoptions =>
      cases ht
      exact hunique _ (by simp [hoptions])
    · exact segmentNamed_normalizeDataKeySchema ht (segmentNamed_composition hunique (by simp))
  intersection {options path t} h ht := by
    have hunique := segmentNamed_uniqueSchemas fun s hs =>
      h s (List.mem_of_mem_filter (p := fun option => !option.isWildcard) hs)
    unfold schemaIntersection at ht
    dsimp only at ht
    split_ifs at ht
    · cases ht
      exact Schema.segmentNamed_never
    · split at ht
      · cases ht
        exact Schema.segmentNamed_wildcard
      · next option hoptions =>
        cases ht
        exact hunique _ (by simp [hoptions])
      · exact segmentNamed_normalizeDataKeySchema ht (segmentNamed_composition hunique (by simp))

/-- The names of a schema are those of its properties, its literals and its branches. -/
lemma isPathSegment_of_explicitName {s : Schema} (hs : s.SegmentNamed) {name : String}
    (h : name ∈ schemaExplicitChildNames s) : isPathSegment name = true := by
  induction s using Schema.childInduction with
  | never =>
    have hnil : schemaExplicitChildNames .never = [] := Schema.fold_never _ _
    simp [hnil] at h
  | object kw ih =>
    obtain ⟨hnames, hliterals, -⟩ := Schema.segmentNamed_object.mp hs
    rw [schemaExplicitChildNames_object, List.mem_append, List.mem_append] at h
    rcases h with (h | h) | h
    · exact hnames name h
    · obtain ⟨literal, hliteral, hname⟩ := List.mem_flatMap.mp h
      cases literal with
      | obj d =>
        obtain ⟨x, hx⟩ := Option.isSome_iff_exists.mp (Dict.mem_keys.mp hname)
        exact (Json.segmentKeys_obj.mp (hliterals _ hliteral) name x hx).1
      | _ => simp [literalNames] at hname
    · obtain ⟨b, hb, hname⟩ := List.mem_flatMap.mp h
      exact ih b (Keywords.branches_subset hb) (hs.branch hb) hname

/-- Everything listed below such a schema is named by a DataKey segment. -/
theorem Schema.SegmentNamed.namedBySegments {s : Schema} (h : s.SegmentNamed) : NamedBySegments s := by
  induction hn : s.nesting using Nat.strong_induction_on generalizing s with
  | _ n ih =>
    subst hn
    refine ⟨fun name child hmember => isPathSegment_of_explicitName h hmember.1, ?_⟩
    rintro name child ⟨hname, -, path, hchild⟩
    have hlt := nesting_schemaChildSchema_lt hname hchild
    exact ih _ hlt ((childClosed_segmentNamed name).child hchild h) rfl

end Members

section Merge

variable {n : ℕ} {merge : {s : Schema // s.nesting < n} → Schema → String → Except PyError Schema}
  {path : String} {t : Schema}

lemma renormalizeSchema_eq_ok {s : Schema} {u : {t : Schema // t.nesting ≤ s.nesting}}
    (h : renormalizeSchema s = .ok u) : normalizeSchema s.toJson = .ok u.1 := by
  unfold renormalizeSchema at h
  split at h
  case h_1 t ht =>
    cases h
    exact ht
  case h_2 => cases h

/-- A merge of properties names nothing new as long as the merge below it does not. -/
lemma segmentNamed_mergeProperty
    (hmerge : ∀ s right t path, merge s right path = .ok t → s.1.SegmentNamed → right.SegmentNamed →
      t.SegmentNamed)
    {own : Option {s : Schema // s.nesting < n}} (hown : ∀ s ∈ own, s.1.SegmentNamed) {child : Schema}
    (hchild : child.SegmentNamed) (h : mergeProperty merge path own child = .ok t) : t.SegmentNamed := by
  cases own with
  | none =>
    cases h
    exact hchild
  | some own =>
    have hnamed := hown own rfl
    unfold mergeProperty at h
    dsimp only at h
    split_ifs at h with hequal hobjects
    · cases h
      exact hchild
    · exact hmerge _ _ _ _ h hnamed hchild
    · simp only [Raising.bind_eq_ok, Raising.pure_eq_ok] at h
      obtain ⟨_, _, _, _, rfl⟩ := h
      exact hnamed

lemma segmentNamed_mergeExtra
    (hmerge : ∀ s right t path, merge s right path = .ok t → s.1.SegmentNamed → right.SegmentNamed →
      t.SegmentNamed)
    {left : Option {s : Schema // s.nesting < n}} (hleft : ∀ s ∈ left, s.1.SegmentNamed)
    {right extra : Option Schema} (hright : ∀ s ∈ right, s.SegmentNamed)
    (h : mergeExtra merge path left right = .ok extra) : ∀ s ∈ extra, s.SegmentNamed := by
  intro s hs
  unfold mergeExtra at h
  split at h
  case h_1 =>
    cases h
    cases hs
  case h_2 =>
    cases h
    cases hs
  case h_3 right _ =>
    cases h
    cases hs
    exact hright s rfl
  case h_4 left _ =>
    cases h
    cases hs
    exact hleft left rfl
  case h_5 left right _ _ =>
    split_ifs at h with hequal hobjects
    · cases h
      cases hs
      exact hleft left rfl
    · obtain ⟨merged, hmerged, rfl⟩ := Raising.map_eq_ok.mp h
      cases hs
      exact hmerge _ _ _ _ hmerged (hleft left rfl) (hright right rfl)

lemma mem_of_mem_foldl_set {changed d : List (String × Schema)} {name : String} {s : Schema}
    (h : (changed.foldl (fun d e => Dict.set d e.1 e.2) d).lookup name = some s) :
    (name, s) ∈ changed ∨ d.lookup name = some s := by
  induction changed generalizing d with
  | nil => exact .inr h
  | cons e changed ih =>
    rcases ih h with hmem | hlookup
    · exact .inl (List.mem_cons_of_mem _ hmem)
    · by_cases hname : name = e.1
      · subst hname
        rw [Dict.lookup_set_self] at hlookup
        cases hlookup
        exact .inl List.mem_cons_self
      · rw [Dict.lookup_set_ne _ _ hname] at hlookup
        exact .inr hlookup

lemma mem_getD_of_or {α : Type} {left right : Option (List α)} {x : α} (h : x ∈ (left.or right).getD []) :
    x ∈ left.getD [] ∨ x ∈ right.getD [] := by
  cases left with
  | none => exact .inr h
  | some xs => exact .inl h

/-- The merge of two schemas names what one of them names. -/
lemma segmentNamed_mergeObjectSchemas {left right : Schema}
    (h : mergeObjectSchemas left right path = .ok t) (hleft : left.SegmentNamed)
    (hright : right.SegmentNamed) : t.SegmentNamed := by
  induction hn : left.nesting using Nat.strong_induction_on generalizing left right t path with
  | _ n ih =>
    subst hn
    rw [mergeObjectSchemas] at h
    obtain ⟨⟨l, hl⟩, hleftNormal, h⟩ := Raising.bind_eq_ok.mp h
    obtain ⟨⟨r, hr⟩, hrightNormal, h⟩ := Raising.bind_eq_ok.mp h
    have hlnamed := segmentNamed_normalizeSchema (renormalizeSchema_eq_ok hleftNormal) hleft
    have hrnamed := segmentNamed_normalizeSchema (renormalizeSchema_eq_ok hrightNormal) hright
    cases l with
    | never => cases h
    | object l =>
      cases r with
      | never => cases h
      | object r =>
        simp only [Raising.bind_eq_ok] at h
        obtain ⟨-, -, -, -, -, -, changed, hchanged, -, -, -, -, extra, hextra, h⟩ := h
        have hmerge : ∀ (s : {s : Schema // s.nesting < left.nesting}) right t path,
            mergeObjectSchemas s.1 right path = .ok t → s.1.SegmentNamed → right.SegmentNamed →
              t.SegmentNamed := fun s right t path hmerged hs hr => ih _ s.2 hmerged hs hr rfl
        have hpmap : ∀ {own : Option Schema} {hown : ∀ s ∈ own, s.nesting < left.nesting},
            (∀ s ∈ own, s.SegmentNamed) → ∀ s ∈ own.pmap Subtype.mk hown, s.1.SegmentNamed := by
          intro own hown hnamed s hs
          cases own with
          | none => cases hs
          | some a =>
            cases hs
            exact hnamed a rfl
        have hproperty : ∀ e ∈ changed, isPathSegment e.1 = true ∧ e.2.SegmentNamed := by
          intro e he
          obtain ⟨⟨name, child⟩, hmem, hchild⟩ := Related.exists_mem_left (Raising.mapM_eq_ok.mp hchanged) he
          obtain ⟨hname, hnamed⟩ := hrnamed.property (Dict.mem_items.mp hmem)
          obtain ⟨merged, hmerged, rfl⟩ := Raising.map_eq_ok.mp (by simpa using hchild)
          refine ⟨hname, segmentNamed_mergeProperty hmerge ?_ hnamed hmerged⟩
          exact hpmap fun s hs => (hlnamed.property hs).2
        apply segmentNamed_normalizeSchema h
        apply Schema.segmentNamed_of_keywords
        · intro name s hs
          rcases mem_of_mem_foldl_set hs with hmem | hlookup
          · exact hproperty _ hmem
          · rw [Dict.lookup_items] at hlookup
            exact hlnamed.property hlookup
        · intro s hs
          refine segmentNamed_mergeExtra hmerge ?_ (fun s hs => hrnamed.extra hs) hextra s hs
          exact hpmap fun s hs => hlnamed.extra hs
        · intro literal hliteral
          have hl := (Schema.segmentNamed_object.mp hlnamed).2.1 literal
          have hr := (Schema.segmentNamed_object.mp hrnamed).2.1 literal
          simp only [Keywords.listedLiterals, List.mem_append, Option.mem_toList] at hl hr hliteral
          rcases hliteral with hconst | henum
          · rcases Option.or_eq_some_iff.mp hconst with hconst | ⟨-, hconst⟩
            · exact hl (.inl hconst)
            · exact hr (.inl hconst)
          · rcases mem_getD_of_or henum with henum | henum
            · exact hl (.inr henum)
            · exact hr (.inr henum)
        · intro s hs
          have hl := hlnamed.branch (s := s)
          have hr := hrnamed.branch (s := s)
          simp only [Keywords.branches, List.mem_append] at hs hl hr
          have hbranch : ∀ {left right : Option (List Schema)}, (s ∈ left.getD [] → s.SegmentNamed) →
              (s ∈ right.getD [] → s.SegmentNamed) → s ∈ (left.or right).getD [] → s.SegmentNamed :=
            fun hleft hright hmem => (mem_getD_of_or hmem).elim hleft hright
          rcases hs with (hs | hs) | hs
          · exact hbranch (fun h => hl (.inl (.inl h))) (fun h => hr (.inl (.inl h))) hs
          · exact hbranch (fun h => hl (.inl (.inr h))) (fun h => hr (.inl (.inr h))) hs
          · exact hbranch (fun h => hl (.inr h)) (fun h => hr (.inr h)) hs

/-- Declarations name what the schema of their tree node names. -/
lemma segmentNamed_buildSchema {entries : List (List String × Schema)} {parts : List String}
    (hentries : ∀ e ∈ entries, (∀ part ∈ e.1, isPathSegment part = true) ∧ e.2.SegmentNamed)
    (h : buildSchema entries parts = .ok t) : t.SegmentNamed := by
  induction hn : treeSize entries using Nat.strong_induction_on generalizing entries parts t with
  | _ n ih =>
    subst hn
    rw [buildSchema] at h
    obtain ⟨children, hchildren, h⟩ := Raising.bind_eq_ok.mp h
    obtain ⟨independent, hindependent, h⟩ := Raising.bind_eq_ok.mp h
    obtain ⟨merged, hmerged, h⟩ := Raising.bind_eq_ok.mp h
    refine segmentNamed_normalizeDataKeySchema h ?_
    have hown : ∀ s ∈ Dict.get entries [], s.SegmentNamed :=
      fun s hs => (hentries _ (Dict.lookup_mem hs)).2
    have hchild : ∀ e ∈ children, isPathSegment e.1 = true ∧ e.2.SegmentNamed := by
      intro e he
      obtain ⟨name, -, hread⟩ := Related.exists_mem_left (Raising.mapM_eq_ok.mp hchildren) he
      obtain ⟨child, hbuilt, rfl⟩ := Raising.map_eq_ok.mp (by simpa using hread)
      obtain ⟨rest, value, hmem⟩ := mem_childNames.mp name.2
      refine ⟨(hentries _ hmem).1 name (by simp), ih _ (treeSize_entriesBelow_lt name.2) ?_ hbuilt rfl⟩
      rintro ⟨rest, value⟩ he
      obtain ⟨hparts, hnamed⟩ := hentries _ (mem_entriesBelow.mp he)
      exact ⟨fun part hpart => hparts part (by simp [hpart]), hnamed⟩
    have hobject : ∀ required, (objectSchema independent required (some .never)).SegmentNamed := by
      intro required
      apply segmentNamed_objectSchema
      · exact fun e he => hchild e (Raising.filterM_subset hindependent e he)
      · rintro s ⟨⟩
        exact Schema.segmentNamed_never
    unfold withChildren at hmerged
    dsimp only at hmerged
    split_ifs at hmerged
    · cases hmerged
      cases hget : Dict.get entries [] with
      | none => exact Schema.segmentNamed_wildcard
      | some own => exact hown own hget
    · split at hmerged
      case h_1 =>
        cases hmerged
        exact hobject _
      case h_2 own hget => exact segmentNamed_mergeObjectSchemas hmerged (hown own hget) (hobject _)

end Merge

section Expansion

variable {contracts : List (String × Json)} {expanded : Contracts}

lemma segmentNamed_declared {explicit : List (List String × Schema)}
    (h : (Dict.items contracts).foldlM declareContract [] = .ok explicit)
    (hnamed : ∀ e ∈ Dict.items contracts, ∀ s, normalizeSchema e.2 = .ok s → s.SegmentNamed) :
    ∀ e ∈ explicit, (∀ part ∈ e.1, isPathSegment part = true) ∧ e.2.SegmentNamed := by
  refine Raising.foldlM_invariant (fun explicit : List (List String × Schema) =>
    ∀ e ∈ explicit, (∀ part ∈ e.1, isPathSegment part = true) ∧ e.2.SegmentNamed) ?_ (by simp) h
  intro before after entry hentry hbefore hstep e he
  simp only [declareContract, Raising.bind_eq_ok, Raising.pure_eq_ok] at hstep
  obtain ⟨path, -, normalized, hnormalized, ⟨⟩, -, rfl⟩ := hstep
  rcases Dict.mem_set he with rfl | he
  · exact ⟨path.valid, hnamed entry hentry _ (normalizeDataKeySchema_eq_ok.mp hnormalized).1⟩
  · exact hbefore e he

/-- The roots of an expansion name what its declarations name. -/
lemma segmentNamed_expandContracts (h : expandContracts contracts = .ok expanded)
    (hnamed : ∀ e ∈ Dict.items contracts, ∀ s, normalizeSchema e.2 = .ok s → s.SegmentNamed) {root : String}
    {schema : Schema} (hroot : isPathSegment root = true) (hschema : expanded.lookup root = some schema) :
    schema.SegmentNamed := by
  obtain ⟨explicit, hexplicit, hbuilt, hnone⟩ := expandContracts_roots h
  have hdeclared := segmentNamed_declared hexplicit hnamed
  by_cases hchild : root ∈ childNames explicit
  · obtain ⟨built, final, hbuild, hfinal, hlookup⟩ := hbuilt root hchild
    rw [hschema, Option.some_inj] at hlookup
    subst hlookup
    refine segmentNamed_normalizeDataKeySchema hfinal (segmentNamed_buildSchema ?_ hbuild)
    rintro ⟨rest, value⟩ he
    obtain ⟨hparts, hvalue⟩ := hdeclared _ (mem_entriesBelow.mp he)
    exact ⟨fun part hpart => hparts part (by simp [hpart]), hvalue⟩
  · have hlookup := hnone root (dot_notMem_of_isPathSegment hroot) hchild
    simp [hlookup] at hschema

/-- Contract expansion is idempotent when every member it lists is named by a DataKey segment, and, as long
as the listed names hold no dot and no blanks around them, only then. -/
theorem expandContracts_idempotent (h : expandContracts contracts = .ok expanded) :
    (ListsOnly (fun name => isPathSegment name = true) contracts →
        expandContracts (Contracts.toDocuments expanded) = .ok expanded) ∧
      (ListsOnly PlainName contracts →
        expandContracts (Contracts.toDocuments expanded) = .ok expanded →
          ListsOnly (fun name => isPathSegment name = true) contracts) :=
  ⟨expandContracts_again h, fun hplain hagain => listsOnly_of_again h hplain hagain⟩

/-- Nested declarations, with a typed map whose values have a member that is never listed. -/
theorem expandContracts_idempotent_nested :
    let integer : Schema := .object { type := some [.integer] }
    let contracts := Contracts.toDocuments
      [("a.b", integer), ("a", objectSchema [("c", objectSchema [("d", integer)] [] (some .never))] []
        (some .never)), ("m", objectSchema [] [] (some (objectSchema [("b c", integer)] [] (some .never))))]
    ∃ expanded, expandContracts contracts = .ok expanded ∧
      expandContracts (Contracts.toDocuments expanded) = .ok expanded := by
  intro integer contracts
  obtain ⟨expanded, hexpanded⟩ := Raising.exists_ok_of_toBool (x := expandContracts contracts)
    (by with_unfolding_all decide)
  have hnamed : (match expandContracts contracts with
      | .ok expanded => rootsNamed isPathSegment expanded
      | .error _ => false) = true := by with_unfolding_all decide
  rw [hexpanded] at hnamed
  refine ⟨expanded, hexpanded, (expandContracts_idempotent hexpanded).1 ?_⟩
  exact (listsOnly_iff hexpanded).mpr (rootsNamedBy_of_rootsNamed hnamed)

/-- A member named outside the DataKey grammar is listed under a path that no map can declare. -/
theorem expandContracts_not_idempotent :
    ¬∀ contracts expanded, expandContracts contracts = .ok expanded →
      expandContracts (Contracts.toDocuments expanded) = .ok expanded := by
  intro h
  let integer : Schema := .object { type := some [.integer] }
  let contracts := Contracts.toDocuments [("a", objectSchema [("b c", integer)] [] (some .never))]
  obtain ⟨expanded, hexpanded⟩ := Raising.exists_ok_of_toBool (x := expandContracts contracts)
    (by with_unfolding_all decide)
  have hagain : (do expandContracts (Contracts.toDocuments (← expandContracts contracts))) = .ok expanded := by
    rw [hexpanded]
    exact h contracts expanded hexpanded
  have hraises : (do expandContracts (Contracts.toDocuments (← expandContracts contracts))).toBool = false := by
    with_unfolding_all decide
  rw [hagain] at hraises
  cases hraises

end Expansion

end TradeFramework
