import TradeFramework.Data.Compatibility

/-!
# Soundness of compatibility

A positive answer of `normalized_schemas_compatible` is an inclusion of value sets. The
proof follows the recursion: it is an induction on the target, with one lemma for each
function, and the splitting on source unions is `bySplitting_sound`.
-/

namespace TradeFramework

/-- Every value of `source` is a value of `target`. -/
def Schema.Within (source target : Schema) : Prop := ∀ v, source.Accepts v → target.Accepts v

/-- A value of a schema object equals one of its literals. -/
lemma Keywords.Admits.exists_literal {kw : Keywords Schema} {v : Json} {values : List Json}
    (hv : kw.Admits Schema.Accepts v) (h : kw.literals = some values) :
    ∃ c ∈ values, jsonValuesEqual v c = true := by
  unfold Keywords.literals at h
  cases hconst : kw.const with
  | some c =>
    simp only [hconst, Option.some.injEq] at h
    subst h
    exact ⟨c, by simp, hv.const c hconst⟩
  | none =>
    simp only [hconst] at h
    exact jsonValueIn_iff.mp (hv.enum values h)

namespace SchemaContext

variable {ctx : SchemaContext} {v : Json}

/-- A value of the context equals one of its literals. -/
lemma exists_literal {values : List Json} (h : ctx.literals = some values) (hv : ctx.Accepts v) :
    ∃ c ∈ values, jsonValuesEqual v c = true := by
  obtain ⟨candidates, hcandidates, rfl⟩ := Option.map_eq_some_iff.mp h
  obtain ⟨a, ha, hlisted⟩ := List.exists_of_findSome?_eq_some hcandidates
  have hacc := hv.atoms a ha
  obtain ⟨c, hc, hvc⟩ : ∃ c ∈ candidates, jsonValuesEqual v c = true := by
    cases a with
    | never => exact absurd hacc (Schema.accepts_never v)
    | object kw => exact (Schema.accepts_object.mp hacc).exists_literal hlisted
  refine ⟨c, List.mem_filter.mpr ⟨hc, ?_⟩, hvc⟩
  rw [Bool.and_eq_true, List.all_eq_true, List.all_eq_true]
  constructor
  · intro b hb
    exact schemaAcceptsNormalizedValue_iff.mpr (Schema.accepts_of_equal hvc (hv.atoms b hb))
  · intro u hu
    have hunion := Schema.accepts_ofUnion.mpr (hv.unions u hu)
    exact schemaAcceptsNormalizedValue_iff.mpr (Schema.accepts_of_equal hvc hunion)

/-- Checking the literals of a context checks all its values. -/
lemma accepts_of_literals {values : List Json} {target : Schema} (h : ctx.literals = some values)
    (hall : values.all (schemaAcceptsNormalizedValue target) = true) (hv : ctx.Accepts v) :
    target.Accepts v := by
  obtain ⟨c, hc, hvc⟩ := exists_literal h hv
  have hacc := schemaAcceptsNormalizedValue_iff.mp (List.all_eq_true.mp hall c hc)
  exact (Schema.accepts_congr hvc).mpr hacc

/-- An empty context has no value. -/
lemma isEmpty_sound (h : ctx.isEmpty = true) : ¬ctx.Accepts v := by
  intro hv
  unfold isEmpty at h
  split at h
  case isTrue hnever =>
    obtain ⟨a, ha, hisNever⟩ := List.any_eq_true.mp hnever
    exact Schema.not_accepts_of_isNever hisNever v (hv.atoms a ha)
  case isFalse =>
    split at h
    case h_1 values hvalues =>
      obtain ⟨c, hc, -⟩ := exists_literal hvalues hv
      rw [List.isEmpty_iff.mp h] at hc
      cases hc
    case h_2 =>
      rw [Bool.not_eq_true', decide_eq_false_iff_not] at h
      apply h
      refine List.pairwise_iff_forall_sublist.mpr fun {left right} hsub hdisjoint => ?_
      refine normalizedSchemasDisjoint_sound hdisjoint (hv.atoms left ?_) (hv.atoms right ?_)
      · exact hsub.subset (by simp)
      · exact hsub.subset (by simp)

end SchemaContext

/-- A context proved disjoint from a schema shares no value with it. -/
theorem sourceContextDisjointSchema_sound {ctx : SchemaContext} {target : Schema}
    (h : sourceContextDisjointSchema ctx target = .ok true) {v : Json} (hv : ctx.Accepts v) :
    ¬target.Accepts v := by
  refine bySplitting_sound (p := fun v => ¬target.Accepts v) (fun ctx htest v hv => ?_) h hv
  rw [Raising.pure_eq_ok] at htest
  split at htest
  case isTrue hempty => exact absurd hv (SchemaContext.isEmpty_sound hempty)
  case isFalse =>
    split at htest
    case h_1 values hvalues =>
      rw [Option.some.injEq, List.all_eq_true] at htest
      obtain ⟨c, hc, hvc⟩ := SchemaContext.exists_literal hvalues hv
      have hnot := htest c hc
      rw [Bool.not_eq_true', schemaAcceptsNormalizedValue_eq_false] at hnot
      exact fun hacc => hnot (Schema.accepts_of_equal hvc hacc)
    case h_2 =>
      split at htest
      case isTrue hany =>
        obtain ⟨a, ha, hdisjoint⟩ := List.any_eq_true.mp hany
        exact normalizedSchemasDisjoint_sound hdisjoint (hv.atoms a ha)
      case isFalse => cases htest

section Narrowing

lemma typeAllowed_iff_widened {types : Finset JsonType} {actual : JsonType} :
    TypeAllowed types actual ↔ actual ∈ widenedTypes types := by
  unfold TypeAllowed widenedTypes
  split_ifs with h
  · simp [h, or_comm]
  · simp [h]

lemma Schema.Accepts.type_widened {s : Schema} {v : Json} (h : s.Accepts v) :
    jsonType v ∈ widenedTypes (normalizedSchemaTypes s) := by
  cases s with
  | never => exact absurd h (Schema.accepts_never v)
  | object kw => exact typeAllowed_iff_widened.mp (Schema.accepts_object.mp h).type

lemma mem_foldl_inter {types : List Schema} {possible : Finset JsonType} {actual : JsonType}
    (hpossible : actual ∈ possible)
    (h : ∀ a ∈ types, actual ∈ widenedTypes (normalizedSchemaTypes a)) :
    actual ∈ types.foldl (fun possible a => possible ∩ widenedTypes (normalizedSchemaTypes a))
      possible := by
  induction types generalizing possible with
  | nil => exact hpossible
  | cons a types ih =>
    rw [List.foldl_cons]
    refine ih (Finset.mem_inter.mpr ⟨hpossible, h a (by simp)⟩) fun b hb => h b (by simp [hb])

/-- A schema object that only constrains the type accepts every value of its types. -/
lemma accepts_of_constrainsTypeOnly {kw : Keywords Schema} (h : kw.constrainsTypeOnly = true)
    {v : Json} (hv : TypeAllowed kw.schemaTypes (jsonType v)) : (Schema.object kw).Accepts v := by
  have heq := Keywords.isEmpty_iff.mp h
  rcases kw with ⟨_, _, _, _, _, _, _, _, _, _, _, _, _⟩
  simp only [Keywords.mk.injEq, true_and, and_true] at heq
  obtain ⟨rfl, rfl, rfl, rfl, rfl, rfl, rfl, rfl, rfl⟩ := heq
  refine Schema.accepts_object.mpr ⟨by simp, ?_, hv, by simp, by simp, ?_, ?_, by simp⟩
  · rintro (_ | _) bs hbs <;> simp [Keywords.union] at hbs
  · simp [Keywords.requiredNames]
  · simp [Keywords.child, Keywords.propertyMap, Keywords.extra]

lemma narrowedBy_sound {ctx : SchemaContext} {target : Schema}
    (h : narrowedBy ctx.atoms target = .ok true) {v : Json} (hv : ctx.Accepts v) :
    target.Accepts v := by
  cases target with
  | never => simp [narrowedBy] at h
  | object kw =>
    rw [narrowedBy, Raising.pure_eq_ok, Bool.and_eq_true, decide_eq_true_eq] at h
    refine accepts_of_constrainsTypeOnly h.1 (typeAllowed_iff_widened.mpr (h.2 ?_))
    exact mem_foldl_inter (by simp) fun a ha => (hv.atoms a ha).type_widened

end Narrowing

section Subset

variable {target : Schema}

/-- The literals of a plain source check all its values. -/
lemma Keywords.within_of_literals {kw : Keywords Schema} {values : List Json}
    (h : kw.literals = some values)
    (hall : values.all (schemaAcceptsNormalizedValue target) = true) :
    (Schema.object kw).Within target := by
  intro v hv
  obtain ⟨c, hc, hvc⟩ := (Schema.accepts_object.mp hv).exists_literal h
  have hacc := schemaAcceptsNormalizedValue_iff.mp (List.all_eq_true.mp hall c hc)
  exact (Schema.accepts_congr hvc).mpr hacc

/-- A plain schema object is left with its types, literals, members and items. -/
lemma accepts_of_plain {kw : Keywords Schema} (hplain : (Schema.object kw).Plain)
    (hconst : kw.const = none) (henum : kw.enum = none) {v : Json}
    (htype : TypeAllowed kw.schemaTypes (jsonType v))
    (hrequired : ∀ d, v = .obj d → ∀ name ∈ kw.requiredNames, Dict.has d name = true)
    (hmember : ∀ d, v = .obj d → ∀ name x, d.lookup name = some x →
      ∀ s, kw.child name = some s → s.Accepts x)
    (hitems : ∀ xs, v = .arr xs → ∀ s, kw.items = some s → ∀ x ∈ xs, s.Accepts x) :
    (Schema.object kw).Accepts v := by
  have hbase : kw.base = kw := hplain
  refine Schema.accepts_object.mpr ⟨?_, ?_, htype, by simp [hconst], by simp [henum], hrequired,
    hmember, hitems⟩
  · rw [← hbase]
    simp [Keywords.base]
  · rw [← hbase]
    rintro (_ | _) bs hbs <;> simp [Keywords.union, Keywords.base] at hbs

lemma typeAllowed_object {types : Finset JsonType} : TypeAllowed types .object ↔ .object ∈ types := by
  simp [TypeAllowed]

lemma typeAllowed_array {types : Finset JsonType} : TypeAllowed types .array ↔ .array ∈ types := by
  simp [TypeAllowed]

/-- The comparison of two composition-free schemas, if the comparisons of the children of the
target are sound. -/
theorem plainSchemaSubset_sound {source target : Schema} (hplain : target.Plain)
    (ih : ∀ s t, sizeOf t < sizeOf target → normalizedSchemasCompatible s t = .ok true → s.Within t)
    (h : plainSchemaSubset source target = .ok true) : source.Within target := by
  rw [plainSchemaSubset.eq_def] at h
  split at h
  case isTrue heq => exact fun v => (accepts_of_schemaValuesEqual heq v).mp
  split at h
  case h_1 => exact fun v hv => absurd hv (Schema.accepts_never v)
  case h_2 => simp at h
  case h_3 s t _ =>
    split at h
    case isTrue hempty =>
      rw [Keywords.isEmpty_iff.mp hempty]
      exact fun v _ => Schema.accepts_wildcard v
    split at h
    case isTrue => simp at h
    split at h
    case h_1 values hvalues => exact Keywords.within_of_literals hvalues (by simpa using h)
    split at h
    case isTrue => simp at h
    case isFalse hliterals =>
    split at h
    case isTrue => simp at h
    case isFalse htypes =>
    rw [not_not] at htypes
    rw [Bool.or_eq_true, not_or, Option.not_isSome_iff_eq_none, Option.not_isSome_iff_eq_none]
      at hliterals
    rw [Raising.andM_eq_true] at h
    obtain ⟨hobjects, harrays⟩ := h
    have hsmaller : ∀ child : {c // c ∈ t.children}, ∀ property,
        normalizedSchemasCompatible property child.1 = .ok true → property.Within child.1 :=
      fun child property hcompat => ih property child.1 (Schema.sizeOf_lt_object child.2) hcompat
    intro v hv
    have hvk := Schema.accepts_object.mp hv
    have hallowed : TypeAllowed t.schemaTypes (jsonType v) := by
      rcases hvk.type with hmem | ⟨hinteger, hnumber⟩
      · exact htypes _ hmem
      · rcases htypes _ hnumber with hmem | ⟨habsurd, -⟩
        · exact Or.inr ⟨hinteger, hmem⟩
        · cases habsurd
    refine accepts_of_plain hplain hliterals.1 hliterals.2 hallowed ?_ ?_ ?_
    · rintro d rfl name hname
      have hboth := And.intro (typeAllowed_object.mp hvk.type) (typeAllowed_object.mp hallowed)
      rw [if_neg (not_not.mpr hboth), Raising.andM_eq_true, Raising.allM_eq_true] at hobjects
      have hchecked := hobjects.1 name hname
      split at hchecked
      case isTrue => simp at hchecked
      case isFalse hnot => exact hvk.required d rfl name (not_not.mp hnot)
    · rintro d rfl name x hx child hchild
      have hboth := And.intro (typeAllowed_object.mp hvk.type) (typeAllowed_object.mp hallowed)
      rw [if_neg (not_not.mpr hboth), Raising.andM_eq_true, Raising.andM_eq_true] at hobjects
      obtain ⟨-, hlisted, hextra⟩ := hobjects
      rw [Raising.allM_eq_true] at hlisted
      have hattach := t.child_attach name
      rw [hchild, Option.map_eq_some_iff] at hattach
      obtain ⟨child', hchild', rfl⟩ := hattach
      cases hproperty : s.propertyMap.lookup name with
      | some property =>
        have hsource := hvk.member d rfl name x hx property (by simp [Keywords.child, hproperty])
        have hchecked := hlisted (name, property) (Dict.mem_items.mpr hproperty)
        rw [hchild'] at hchecked
        split at hchecked
        case h_1 heq => cases heq
        case h_2 => simp at hchecked
        case h_3 heq =>
          cases heq
          exact hsmaller child' property hchecked x hsource
      | none =>
        have hschild : s.child name = s.extra := by simp [Keywords.child, hproperty]
        have hunlisted : Dict.has s.propertyMap name = false := Dict.has_eq_false_iff.mpr hproperty
        have hsource := hvk.member d rfl name x hx
        rw [hschild] at hsource
        split at hextra
        case h_1 hnever => exact absurd (hsource .never hnever) (Schema.accepts_never x)
        case h_2 extra _ =>
          rw [Raising.andM_eq_true, Raising.allM_eq_true] at hextra
          obtain ⟨hproperties, hrest⟩ := hextra
          rcases Keywords.child_eq_some hchild' with hlookup | ⟨-, hopen⟩
          · have hchecked := hproperties (name, child') (Dict.mem_items.mpr hlookup)
            rw [hunlisted, if_neg Bool.false_ne_true] at hchecked
            split at hchecked
            case h_1 => simp at hchecked
            case h_2 source heq => exact hsmaller child' source hchecked x (hsource source heq)
          · rw [hopen] at hrest
            split at hrest
            case h_1 => simp at hrest
            case h_2 heq => cases heq
            case h_3 => simp at hrest
            case h_4 source _ _ hsome heq =>
              cases heq
              exact hsmaller child' source hrest x (hsource source hsome)
    · rintro xs rfl child hchild x hx
      have hboth := And.intro (typeAllowed_array.mp hvk.type) (typeAllowed_array.mp hallowed)
      have hattach := t.items_attach
      rw [hchild, Option.map_eq_some_iff] at hattach
      obtain ⟨child', hchild', rfl⟩ := hattach
      rw [hchild'] at harrays
      cases hitem : s.items with
      | none =>
        rw [hitem] at harrays
        simp [hboth] at harrays
      | some item =>
        rw [hitem] at harrays
        simp only [if_pos hboth] at harrays
        exact hsmaller child' item harrays x (hvk.items xs rfl item hitem x hx)

/-- The comparison with one atom of the target. -/
lemma sourceContextSubsetAtom_sound (hplain : target.Plain)
    (ih : ∀ s t, sizeOf t < sizeOf target → normalizedSchemasCompatible s t = .ok true → s.Within t)
    {ctx : SchemaContext} (h : sourceContextSubsetAtom ctx target = .ok true) {v : Json}
    (hv : ctx.Accepts v) : target.Accepts v := by
  rw [sourceContextSubsetAtom.eq_def] at h
  refine bySplitting_sound (p := fun v => target.Accepts v) (fun ctx htest v hv => ?_) h hv
  split at htest
  case isTrue hempty => exact absurd hv (SchemaContext.isEmpty_sound hempty)
  case isFalse =>
    split at htest
    case h_1 values hvalues =>
      have hall : values.all (schemaAcceptsNormalizedValue target) = true := by simpa using htest
      exact SchemaContext.accepts_of_literals hvalues hall hv
    case h_2 =>
      obtain ⟨proved, hproved, htest⟩ := Raising.bind_eq_ok.mp htest
      cases proved with
      | false => simp at htest
      | true =>
        rcases Raising.orM_eq_true.mp hproved with hatom | ⟨-, hnarrowed⟩
        · obtain ⟨source, hsource, hsubset⟩ := Raising.anyM_eq_true hatom
          exact plainSchemaSubset_sound hplain ih hsubset v (hv.atoms source hsource)
        · exact narrowedBy_sound hnarrowed hv

/-- The comparison with one union of the target. -/
lemma sourceContextSubsetUnion_sound {keyword : UnionKeyword} {branches : List Schema}
    (ih : ∀ ctx, ∀ b ∈ branches, sourceContextSubsetSchema ctx b = .ok true →
      ∀ v, ctx.Accepts v → b.Accepts v)
    {ctx : SchemaContext} (h : sourceContextSubsetUnion ctx keyword branches = .ok true) {v : Json}
    (hv : ctx.Accepts v) : keyword.Satisfied (fun b => b.Accepts v) branches := by
  rw [sourceContextSubsetUnion.eq_def] at h
  refine bySplitting_sound (p := fun v => keyword.Satisfied (fun b => b.Accepts v) branches)
    (fun ctx htest v hv => ?_) h hv
  split at htest
  case h_1 values hvalues =>
    have hall : values.all
        (schemaAcceptsNormalizedValue (.object (Keywords.ofUnion keyword branches))) = true := by
      simpa using htest
    exact Schema.accepts_ofUnion.mp (SchemaContext.accepts_of_literals hvalues hall hv)
  case h_2 =>
    obtain ⟨proved, hproved, htest⟩ := Raising.bind_eq_ok.mp htest
    cases proved with
    | false => simp at htest
    | true =>
      cases keyword with
      | anyOf =>
        obtain ⟨b, -, hb⟩ := Raising.anyM_eq_true hproved
        exact ⟨b.1, b.2, ih ctx b.1 b.2 hb v hv⟩
      | oneOf =>
        obtain ⟨⟨b, index⟩, hmem, hb⟩ := Raising.anyM_eq_true hproved
        rw [Raising.andM_eq_true, Raising.allM_eq_true] at hb
        obtain ⟨hb, hothers⟩ := hb
        refine ⟨index, b.1, ?_, ih ctx b.1 b.2 hb v hv, fun j other hother hne => ?_⟩
        · have hget := congrArg (Option.map Subtype.val) (List.mem_zipIdx_iff_getElem?.mp hmem)
          rwa [← List.getElem?_map, List.attach_map_subtype_val] at hget
        · have hdisjoint := hothers (other, j) (List.mem_zipIdx_iff_getElem?.mpr hother)
          rw [if_neg hne] at hdisjoint
          exact sourceContextDisjointSchema_sound hdisjoint hv

/-- Every function of the compatibility proof is sound, by induction on the target. -/
lemma compatibility_sound (target : Schema) :
    (∀ ctx, sourceContextSubsetSchema ctx target = .ok true →
      ∀ v, ctx.Accepts v → target.Accepts v) ∧
    ∀ source, normalizedSchemasCompatible source target = .ok true → source.Within target := by
  induction hn : sizeOf target using Nat.strong_induction_on generalizing target with
  | _ n ih =>
    subst hn
    have hschema : ∀ ctx, sourceContextSubsetSchema ctx target = .ok true →
        ∀ v, ctx.Accepts v → target.Accepts v := by
      intro ctx h v hv
      rw [sourceContextSubsetSchema.eq_def, Raising.andM_eq_true, Raising.allM_eq_true,
        Raising.allM_eq_true] at h
      refine targetContext_accepts.mp ⟨fun a ha => ?_, fun u hu => ?_⟩
      · obtain ⟨hplain, hle⟩ := targetContext_atoms ha
        refine sourceContextSubsetAtom_sound hplain (fun s t ht => ?_)
          (h.1 ⟨a, ha⟩ (List.mem_attach _ _)) hv
        exact (ih _ (by omega) t rfl).2 s
      · have hlt := targetContext_unions hu
        refine sourceContextSubsetUnion_sound (fun ctx b hb => ?_)
          (h.2 ⟨u, hu⟩ (List.mem_attach _ _)) hv
        have hb' : sizeOf b < sizeOf u.2 := List.sizeOf_lt_of_mem hb
        exact (ih _ (by omega) b rfl).1 ctx
    refine ⟨hschema, fun source h => ?_⟩
    rw [normalizedSchemasCompatible.eq_def] at h
    split at h
    case isTrue heq => exact fun v => (accepts_of_schemaValuesEqual heq v).mp
    split at h
    case h_1 => exact fun v hv => absurd hv (Schema.accepts_never v)
    case h_2 => simp at h
    case h_3 s t _ =>
      split at h
      case isTrue hempty =>
        rw [Keywords.isEmpty_iff.mp hempty]
        exact fun v _ => Schema.accepts_wildcard v
      split at h
      case isTrue => simp at h
      exact fun v hv => hschema _ h v (sourceContext_accepts.mpr hv)

/-- `normalized_schemas_compatible` only approves inclusions. -/
lemma normalizedSchemasCompatible_sound {source target : Schema}
    (h : normalizedSchemasCompatible source target = .ok true) : source.Within target :=
  (compatibility_sound target).2 source h

end Subset

/-- Soundness of structural schema subtyping: compatible documents normalize to schemas such
that the runtime validator accepts for the required schema every value it accepts for the
provided one. -/
theorem schemasCompatible_sound {provided required : Json}
    (h : schemasCompatible provided required = .ok true) :
    ∃ source target, normalizeSchema provided = .ok source ∧
      normalizeSchema required = .ok target ∧ ∀ trusted value path,
        validateNormalizedJsonValue trusted value source path = .ok () →
          validateNormalizedJsonValue trusted value target path = .ok () := by
  simp only [schemasCompatible, Raising.bind_eq_ok] at h
  obtain ⟨source, hsource, target, htarget, hcompatible⟩ := h
  refine ⟨source, target, hsource, htarget, fun trusted value path hvalue => ?_⟩
  rw [validateNormalizedJsonValue_eq_ok] at hvalue ⊢
  exact normalizedSchemasCompatible_sound hcompatible value hvalue


theorem schemasCompatible_sound_nullable :
    let closed := fun type => Json.obj [("type", .str "object"), ("required", .arr [.str "price"]),
      ("properties", .obj [("price", .obj [("type", .str type)])]),
      ("additionalProperties", .bool false)]
    let nullable := Json.obj [("anyOf", .arr [closed "number", .obj [("type", .str "null")]])]
    ∃ source target, normalizeSchema (closed "integer") = .ok source ∧
      normalizeSchema nullable = .ok target ∧ ∀ trusted value path,
        validateNormalizedJsonValue trusted value source path = .ok () →
          validateNormalizedJsonValue trusted value target path = .ok () :=
  schemasCompatible_sound (by with_unfolding_all decide)

end TradeFramework
