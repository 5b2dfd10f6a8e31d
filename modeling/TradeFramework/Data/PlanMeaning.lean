import TradeFramework.Data.Isolation

/-!
# What a compiled plan accepts

The plan of a normalized schema finds nothing to report in a strict JSON value exactly when the schema
accepts the value.
-/

namespace TradeFramework

open PythonValue (compiledFields compileValidationPlan_never compileValidationPlan_wildcard
  compileValidationPlan_object memberPlan_spec length_filter_attach findSome?_attach)

section Plans

variable {kw : Keywords Schema} {value : Json}

/-- The plan of a schema decides whether the schema accepts a value. -/
def Decides (value : Json) (s : Schema) : Prop :=
  compiledValidationFailure value (compileValidationPlan s false) = none ↔ s.Accepts value

lemma decides_never (value : Json) : Decides value .never := by
  unfold Decides
  rw [compileValidationPlan_never, compiledValidationFailure]
  simp

lemma decides_wildcard (value : Json) : Decides value .wildcard := by
  unfold Decides
  rw [compileValidationPlan_wildcard, compiledValidationFailure]
  simp

/-- The conjoined branches. -/
lemma conjoined_eq_none (hbranch : ∀ s ∈ kw.children, Decides value s) :
    ((compiledFields false kw).allOf.findSome? fun b => compiledValidationFailure value b) = none ↔
      ∀ b ∈ kw.allOf.getD [], b.Accepts value := by
  simp only [compiledFields, List.findSome?_eq_none_iff, List.forall_mem_map]
  exact forall₂_congr fun b hb => hbranch b (Keywords.mem_children_getD_allOf hb)

/-- A union keyword: enough of the plans of its branches accept the value. -/
lemma union_satisfied (keyword : UnionKeyword) (hbranch : ∀ s ∈ kw.children, Decides value s)
    {bs : List Schema} (hbs : kw.union keyword = some bs) :
    keyword.satisfiedBy ((bs.map fun s => compileValidationPlan s false).filter fun plan =>
      (compiledValidationFailure value plan).isNone).length ↔
        keyword.Satisfied (fun b => b.Accepts value) bs := by
  rw [UnionKeyword.satisfiedBy_filter, UnionKeyword.Satisfied.map]
  refine UnionKeyword.Satisfied.congr fun b hb => ?_
  rw [Option.isNone_iff_eq_none]
  exact hbranch b (Keywords.mem_children_union hbs hb)

lemma anyOf_clause (hbranch : ∀ s ∈ kw.children, Decides value s) (hne : kw.anyOf ≠ some []) :
    (¬(compiledFields false kw).anyOf.isEmpty = true ∧ ((compiledFields false kw).anyOf.filter fun plan =>
      (compiledValidationFailure value plan).isNone).length = 0) ↔
        ¬∀ bs, kw.union .anyOf = some bs → UnionKeyword.anyOf.Satisfied (fun b => b.Accepts value) bs := by
  cases hbs : kw.anyOf with
  | none => simp [compiledFields, hbs, Keywords.union]
  | some bs =>
    have hnonempty : bs ≠ [] := fun heq => hne (heq ▸ hbs)
    have hunion : kw.union .anyOf = some bs := hbs
    simp only [hunion, Option.some.injEq, forall_eq', ← union_satisfied .anyOf hbranch hunion,
      UnionKeyword.satisfiedBy, compiledFields, hbs, Option.getD_some, List.isEmpty_map, List.isEmpty_iff,
      hnonempty, not_false_eq_true, true_and, ne_eq, not_not]

lemma oneOf_clause (hbranch : ∀ s ∈ kw.children, Decides value s) (hne : kw.oneOf ≠ some []) :
    (¬(compiledFields false kw).oneOf.isEmpty = true ∧ ((compiledFields false kw).oneOf.filter fun plan =>
      (compiledValidationFailure value plan).isNone).length ≠ 1) ↔
        ¬∀ bs, kw.union .oneOf = some bs → UnionKeyword.oneOf.Satisfied (fun b => b.Accepts value) bs := by
  cases hbs : kw.oneOf with
  | none => simp [compiledFields, hbs, Keywords.union]
  | some bs =>
    have hnonempty : bs ≠ [] := fun heq => hne (heq ▸ hbs)
    have hunion : kw.union .oneOf = some bs := hbs
    simp only [hunion, Option.some.injEq, forall_eq', ← union_satisfied .oneOf hbranch hunion,
      UnionKeyword.satisfiedBy, compiledFields, hbs, Option.getD_some, List.isEmpty_map, List.isEmpty_iff,
      hnonempty, not_false_eq_true, true_and, ne_eq]

/-- The member of an object is allowed, and its plan finds nothing. -/
lemma member_accepted {name : String} {x : Json}
    (hbelow : ∀ s : Schema, s ∈ kw.children ∨ s = .wildcard → Decides x s) :
    (∃ child, (compiledFields false kw).memberPlan name = some child ∧
      compiledValidationFailure x child.1 = none) ↔ ∀ s, kw.child name = some s → s.Accepts x := by
  rw [← @Keywords.memberSchema_accepts _ ""]
  rcases memberPlan_spec kw "" name with ⟨s, hs, hschema, hplan⟩ | ⟨herror, hplan⟩
  · obtain ⟨plan, hsome, hval⟩ := Option.map_eq_some_iff.mp hplan
    have hdecides := hbelow s.1 hschema
    unfold Decides at hdecides
    rw [hsome, hs]
    simp only [Option.some.injEq, exists_eq_left', hval, hdecides, Except.ok.injEq]
  · rw [hplan, herror]
    simp

/-- A schema object, if the plans decide its branches and every schema below. -/
lemma decides_object (hs : (Schema.object kw).Normal) (hbranch : ∀ s ∈ kw.children, Decides value s)
    (hobj : ∀ d, value = .obj d → ∀ e ∈ Dict.items d, ∀ s : Schema, s.Normal → Decides e.2 s)
    (harr : ∀ xs, value = .arr xs → ∀ x ∈ xs, ∀ s : Schema, s.Normal → Decides x s) :
    Decides value (.object kw) := by
  cases hempty : kw.isEmpty with
  | true =>
    rw [Keywords.isEmpty_iff.mp hempty]
    exact decides_wildcard value
  | false =>
    obtain ⟨hwell, hchildren⟩ := Schema.normal_object.mp hs
    have hbelow : ∀ s : Schema, s ∈ kw.children ∨ s = .wildcard → s.Normal := by
      rintro s (hs | rfl)
      · exact hchildren s hs
      · exact wildcard_normal
    have hconjoined := conjoined_eq_none hbranch
    unfold Decides
    rw [compileValidationPlan_object hempty, compiledValidationFailure.eq_def, Schema.accepts_object]
    dsimp only
    rw [findSome?_attach, length_filter_attach (fun b => (compiledValidationFailure value b).isNone),
      length_filter_attach (fun b => (compiledValidationFailure value b).isNone)]
    have hallOf : ((compiledFields false kw).allOf.findSome? fun b => compiledValidationFailure value b).isSome =
        true ↔ ¬∀ b ∈ kw.allOf.getD [], b.Accepts value := by
      rw [← hconjoined, Option.isSome_iff_ne_none]
    have hconst : ((compiledFields false kw).const.any fun c => !jsonValuesEqual value c) = true ↔
        ¬∀ c, kw.const = some c → jsonValuesEqual value c = true := by
      cases hc : kw.const <;> simp [compiledFields, hc]
    have henum : ((compiledFields false kw).enum.any fun cs => !jsonValueIn value cs) = true ↔
        ¬∀ cs, kw.enum = some cs → jsonValueIn value cs = true := by
      cases hcs : kw.enum <;> simp [compiledFields, hcs]
    have hany := anyOf_clause hbranch (hwell.branches _ (by simp))
    have hone := oneOf_clause hbranch (hwell.branches _ (by simp))
    split_ifs with h1 h2 h3 h4 h5 h6
    · exact iff_of_false (fun h => by simp [h] at h1) fun h => hallOf.mp h1 h.allOf
    · exact iff_of_false (by simp) fun h => hany.mp h2 (h.union .anyOf)
    · exact iff_of_false (by simp) fun h => hone.mp h3 (h.union .oneOf)
    · exact iff_of_false (by simp) fun h => hconst.mp h5 h.const
    · exact iff_of_false (by simp) fun h => henum.mp h6 h.enum
    · rw [not_iff_comm.mp hallOf.symm] at h1
      have hkeywords : (∀ d, value = .obj d → ∀ name ∈ kw.requiredNames, Dict.has d name = true) →
          (∀ d, value = .obj d → ∀ name x, d.lookup name = some x → ∀ s, kw.child name = some s →
            s.Accepts x) →
          (∀ xs, value = .arr xs → ∀ s, kw.items = some s → ∀ x ∈ xs, s.Accepts x) →
            kw.Admits Schema.Accepts value := by
        intro hrequired hmember hitems
        refine ⟨h1, ?_, h4, ?_, ?_, hrequired, hmember, hitems⟩
        · rintro (_ | _)
          · exact not_not.mp fun h => h2 (hany.mpr h)
          · exact not_not.mp fun h => h3 (hone.mpr h)
        · exact not_not.mp fun h => h5 (hconst.mpr h)
        · exact not_not.mp fun h => h6 (henum.mpr h)
      cases value with
      | obj d =>
        have hmember : ∀ name x, d.lookup name = some x → _ := fun name x hx =>
          @member_accepted _ name _ fun s hs => hobj d rfl _ (Dict.mem_items.mpr hx) s (hbelow s hs)
        dsimp only
        split
        case h_1 name hname =>
          have hmissing := List.find?_some hname
          have hrequired : name ∈ kw.requiredNames := List.mem_of_find?_eq_some hname
          refine iff_of_false (by simp) fun h => ?_
          simp [h.required d rfl name hrequired] at hmissing
        case h_2 hrequired =>
          rw [List.findSome?_eq_none_iff]
          constructor
          · intro h
            refine hkeywords ?_ ?_ (by simp)
            · rintro _ ⟨⟩ name hname
              simpa using List.find?_eq_none.mp hrequired name hname
            · rintro _ ⟨⟩ name x hx
              have hnone := h ⟨(name, x), Dict.mem_items.mpr hx⟩ (List.mem_attach _ _)
              apply (hmember name x hx).mp
              dsimp only at hnone
              split at hnone
              case h_1 child hchild => exact ⟨child, hchild, Option.map_eq_none_iff.mp hnone⟩
              case h_2 => cases hnone
          · rintro h ⟨⟨name, x⟩, he⟩ -
            have hx := Dict.mem_items.mp he
            obtain ⟨child, hchild, hnone⟩ := (hmember name x hx).mpr (h.member d rfl name x hx)
            dsimp only
            rw [hchild]
            exact Option.map_eq_none_iff.mpr hnone
      | arr xs =>
        have hitems : ∀ x ∈ xs, Decides x (kw.items.getD .wildcard) := by
          intro x hx
          cases hitem : kw.items with
          | none => exact decides_wildcard x
          | some s => exact harr xs rfl x hx s (hchildren s (Keywords.mem_children_items hitem))
        dsimp only
        rw [List.findSome?_eq_none_iff]
        constructor
        · intro h
          refine hkeywords (by simp) (by simp) ?_
          rintro _ ⟨⟩ s hs x hx
          obtain ⟨i, hi⟩ := List.mem_iff_getElem?.mp (List.mem_attach xs ⟨x, hx⟩)
          have hnone := h (⟨x, hx⟩, i) (List.mem_zipIdx_iff_getElem?.mpr hi)
          have haccepts := (hitems x hx).mp (Option.map_eq_none_iff.mp hnone)
          rw [hs] at haccepts
          exact haccepts
        · rintro h ⟨⟨x, hx⟩, index⟩ -
          refine Option.map_eq_none_iff.mpr ((hitems x hx).mpr ?_)
          cases hitem : kw.items with
          | none => exact Schema.accepts_wildcard x
          | some s => exact h.items xs rfl s hitem x hx
      | _ => exact iff_of_true rfl (hkeywords (by simp) (by simp) (by simp))
    · exact iff_of_false (by simp) fun h => h4 h.type

/-- The plan of a normalized schema finds nothing exactly in the values that the schema accepts. -/
theorem compiledValidationFailure_eq_none {s : Schema} (hs : s.Normal) (value : Json) :
    compiledValidationFailure value (compileValidationPlan s false) = none ↔ s.Accepts value := by
  change Decides value s
  induction value using Json.visibleInduction generalizing s with
  | scalar v harr hobj =>
    induction s using Schema.childInduction with
    | never => exact decides_never v
    | object kw ih =>
      obtain ⟨-, hchildren⟩ := Schema.normal_object.mp hs
      exact decides_object hs (fun s hs => ih s hs (hchildren s hs)) (fun d hd => absurd hd (hobj d))
        fun xs hxs => absurd hxs (harr xs)
  | arr xs hxs =>
    induction s using Schema.childInduction with
    | never => exact decides_never _
    | object kw ih =>
      obtain ⟨-, hchildren⟩ := Schema.normal_object.mp hs
      refine decides_object hs (fun s hs => ih s hs (hchildren s hs)) (by simp) ?_
      rintro ys ⟨⟩ x hx s hs
      exact hxs x hx hs
  | obj d hd =>
    induction s using Schema.childInduction with
    | never => exact decides_never _
    | object kw ih =>
      obtain ⟨-, hchildren⟩ := Schema.normal_object.mp hs
      refine decides_object hs (fun s hs => ih s hs (hchildren s hs)) ?_ (by simp)
      rintro entries ⟨⟩ e he s hs
      exact hd e.1 e.2 (Dict.mem_items.mp he) hs

end Plans

end TradeFramework
