import TradeFramework.Data.FastValidation

/-!
# The Python values a schema accepts

What the plan of a schema asks of a Python value, keyword by keyword. The validator with its fast path
accepts exactly what the plan accepts.
-/

namespace TradeFramework.PythonValue

/-- The plan of a schema finds nothing in a value. -/
def Passes (s : Schema) (value : PythonValue) : Prop :=
  compiledValidationFailure value (compileValidationPlan s false) = none

/-- What the keywords of a schema object ask of a value. -/
structure Meets (kw : Keywords Schema) (value : PythonValue) : Prop where
  type : ∃ actual, value.runtimeType = some actual ∧ TypeAllowed kw.schemaTypes actual
  const : ∀ c, kw.const = some c → valuesEqual value c.toPython = true
  enum : ∀ cs, kw.enum = some cs → valueIn value (cs.map Json.toPython) = true
  required : ∀ entries, value = .dict entries → ∀ name ∈ kw.requiredNames,
    Dict.has entries (.text name) = true
  allOf : ∀ b ∈ kw.allOf.getD [], Passes b value
  union : ∀ keyword bs, kw.union keyword = some bs → bs ≠ [] →
    keyword.Satisfied (fun b => Passes b value) bs
  member : ∀ entries, value = .dict entries → ∀ e ∈ Dict.items entries,
    ∃ name, e.1 = .text name ∧ Passes ((kw.child name).getD .wildcard) e.2
  items : ∀ elements, value = .list elements → ∀ x ∈ elements, Passes (kw.items.getD .wildcard) x

section Plans

variable {fields : CompiledKeywords CompiledValidationPlan} {value : PythonValue}

/-- What a plan asks of a value, from the clauses about the value itself and its members. -/
lemma compiledValidationFailure_object_iff :
    compiledValidationFailure value (.object fields) = none ↔
      (∃ actual, value.runtimeType = some actual ∧
        keywordFailure fields value actual (fields.allOf.findSome? (compiledValidationFailure value))
          (fields.anyOf.filter fun b => (compiledValidationFailure value b).isNone).length
          (fields.oneOf.filter fun b => (compiledValidationFailure value b).isNone).length = none) ∧
      (∀ entries, value = .dict entries → requiredFailure fields entries = none ∧
        ∀ e ∈ Dict.items entries, ∃ name plan, e.1 = .text name ∧
          fields.memberPlan name = some plan ∧ compiledValidationFailure e.2 plan.1 = none) ∧
      ∀ elements, value = .list elements →
        ∀ x ∈ elements, compiledValidationFailure x fields.items = none := by
  rw [compiledValidationFailure.eq_def]
  dsimp only
  rw [findSome?_attach, length_filter_attach (fun b => (compiledValidationFailure value b).isNone),
    length_filter_attach (fun b => (compiledValidationFailure value b).isNone)]
  cases htype : value.runtimeType with
  | none => simp
  | some actual =>
    dsimp only
    cases hkeyword : keywordFailure fields value actual
        (fields.allOf.findSome? (compiledValidationFailure value))
        (fields.anyOf.filter fun b => (compiledValidationFailure value b).isNone).length
        (fields.oneOf.filter fun b => (compiledValidationFailure value b).isNone).length with
    | some failure => simp [hkeyword]
    | none =>
      have hown : ∃ actual', some actual = some actual' ∧ keywordFailure fields value actual'
          (fields.allOf.findSome? (compiledValidationFailure value))
          (fields.anyOf.filter fun b => (compiledValidationFailure value b).isNone).length
          (fields.oneOf.filter fun b => (compiledValidationFailure value b).isNone).length = none :=
        ⟨actual, rfl, hkeyword⟩
      simp only [Option.isSome_none, Bool.false_eq_true, if_false, hown, true_and]
      cases value with
      | dict entries =>
        dsimp only
        cases hrequired : requiredFailure fields entries with
        | some failure => simp [hrequired]
        | none =>
          simp only [Option.isSome_none, Bool.false_eq_true, if_false]
          rw [members_pass_iff]
          constructor
          · intro h
            refine ⟨?_, by simp⟩
            rintro _ ⟨⟩
            exact ⟨hrequired, h⟩
          · rintro ⟨h, -⟩
            exact (h entries rfl).2
      | list elements =>
        dsimp only
        rw [elements_pass_iff]
        constructor
        · intro h
          refine ⟨by simp, ?_⟩
          rintro _ ⟨⟩
          exact h
        · rintro ⟨-, h⟩
          exact h elements rfl
      | _ => simp

lemma keywordFailure_eq_none_iff {actual : JsonType} {conjoined : Option ValidationFailure}
    {anyMatched oneMatched : ℕ} :
    keywordFailure fields value actual conjoined anyMatched oneMatched = none ↔
      conjoined = none ∧ (fields.anyOf ≠ [] → anyMatched ≠ 0) ∧ (fields.oneOf ≠ [] → oneMatched = 1) ∧
        TypeAllowed fields.allowedTypes actual ∧
        (∀ c, fields.const = some c → valuesEqual value c.toPython = true) ∧
        ∀ cs, fields.enum = some cs → valueIn value (cs.map Json.toPython) = true := by
  have hconst : (fields.const.any fun c => !valuesEqual value c.toPython) = true ↔
      ¬∀ c, fields.const = some c → valuesEqual value c.toPython = true := by
    cases fields.const <;> simp
  have henum : (fields.enum.any fun cs => !valueIn value (cs.map Json.toPython)) = true ↔
      ¬∀ cs, fields.enum = some cs → valueIn value (cs.map Json.toPython) = true := by
    cases fields.enum <;> simp
  have hne (plans : List CompiledValidationPlan) : ¬plans.isEmpty = true ↔ plans ≠ [] :=
    not_congr List.isEmpty_iff
  unfold keywordFailure
  split_ifs with h1 h2 h3 h4 h5 h6
  · exact iff_of_false (Option.isSome_iff_ne_none.mp h1) fun h => Option.isSome_iff_ne_none.mp h1 h.1
  · exact iff_of_false (by simp) fun h => h.2.1 ((hne _).mp h2.1) h2.2
  · exact iff_of_false (by simp) fun h => h3.2 (h.2.2.1 ((hne _).mp h3.1))
  · exact iff_of_false (by simp) fun h => hconst.mp h5 h.2.2.2.2.1
  · exact iff_of_false (by simp) fun h => henum.mp h6 h.2.2.2.2.2
  · refine iff_of_true rfl ⟨?_, ?_, ?_, h4, ?_, ?_⟩
    · exact Option.not_isSome_iff_eq_none.mp h1
    · exact fun hany hzero => h2 ⟨(hne _).mpr hany, hzero⟩
    · exact fun hone => not_not.mp fun hcount => h3 ⟨(hne _).mpr hone, hcount⟩
    · exact not_not.mp fun h => h5 (hconst.mpr h)
    · exact not_not.mp fun h => h6 (henum.mpr h)
  · exact iff_of_false (by simp) fun h => h4 h.2.2.2.1

end Plans

section Schemas

variable {kw : Keywords Schema} {value : PythonValue}

lemma union_satisfied (keyword : UnionKeyword) (bs : List Schema) :
    keyword.satisfiedBy ((bs.map fun s => compileValidationPlan s false).filter fun plan =>
      (compiledValidationFailure value plan).isNone).length ↔
        keyword.Satisfied (fun b => Passes b value) bs := by
  rw [UnionKeyword.satisfiedBy_filter, UnionKeyword.Satisfied.map]
  apply UnionKeyword.Satisfied.congr
  intro b _
  rw [Option.isNone_iff_eq_none]
  rfl

lemma passes_never : ¬ Passes .never value := by
  unfold Passes
  rw [compileValidationPlan_never, compiledValidationFailure.eq_def]
  simp

lemma passes_wildcard_iff : Passes .wildcard value ↔ (∃ actual, value.runtimeType = some actual) ∧
    (∀ entries, value = .dict entries → ∀ e ∈ Dict.items entries,
      ∃ name, e.1 = .text name ∧ Passes .wildcard e.2) ∧
    ∀ elements, value = .list elements → ∀ x ∈ elements, Passes .wildcard x := by
  unfold Passes
  rw [compileValidationPlan_wildcard, compiledValidationFailure.eq_def]
  dsimp only
  cases htype : value.runtimeType with
  | none => simp
  | some actual =>
    dsimp only
    cases value with
    | dict entries =>
      dsimp only
      rw [wildcard_members_pass_iff]
      constructor
      · intro h
        refine ⟨⟨actual, rfl⟩, ?_, by simp⟩
        rintro _ ⟨⟩
        exact h
      · rintro ⟨-, h, -⟩
        exact h entries rfl
    | list elements =>
      dsimp only
      rw [elements_pass_iff]
      constructor
      · intro h
        refine ⟨⟨actual, rfl⟩, by simp, ?_⟩
        rintro _ ⟨⟩
        exact h
      · rintro ⟨-, -, h⟩
        exact h elements rfl
    | _ => simp

lemma member_passes (name : String) (x : PythonValue) :
    (∃ plan, (compiledFields false kw).memberPlan name = some plan ∧
      compiledValidationFailure x plan.1 = none) ↔ Passes ((kw.child name).getD .wildcard) x := by
  have hval := memberPlan_val (compiledFields false kw) name
  have hlookup : (compiledFields false kw).properties.lookup name =
      (kw.propertyMap.lookup name).map fun s => compileValidationPlan s false := by
    unfold compiledFields
    rw [Dict.lookup_mapValues, Dict.lookup_items]
  have hplan (plan : CompiledValidationPlan)
      (h : ((compiledFields false kw).memberPlan name).map Subtype.val = some plan) :
      (∃ plan, (compiledFields false kw).memberPlan name = some plan ∧
        compiledValidationFailure x plan.1 = none) ↔ compiledValidationFailure x plan = none := by
    obtain ⟨child, hchild, rfl⟩ := Option.map_eq_some_iff.mp h
    simp [hchild]
  rw [hlookup] at hval
  unfold Keywords.child
  cases hproperty : kw.propertyMap.lookup name with
  | some s =>
    rw [hproperty] at hval
    exact hplan _ hval
  | none =>
    rw [hproperty] at hval
    rw [Option.map_none] at hval
    dsimp only at hval ⊢
    cases hextra : kw.extra with
    | none =>
      have hadditional : (compiledFields false kw).additional = some (.wildcard false) := by
        rw [compiledFields, hextra]
      rw [hadditional] at hval
      rw [hplan _ hval, Option.getD_none, Passes, compileValidationPlan_wildcard]
    | some s =>
      cases s with
      | never =>
        have hadditional : (compiledFields false kw).additional = none := by rw [compiledFields, hextra]
        rw [hadditional] at hval
        have hnone : (compiledFields false kw).memberPlan name = none := Option.map_eq_none_iff.mp hval
        rw [hnone, Option.getD_some]
        exact iff_of_false (by simp) passes_never
      | object kw' =>
        have hadditional : (compiledFields false kw).additional =
            some (compileValidationPlan (.object kw') false) := by rw [compiledFields, hextra]
        rw [hadditional] at hval
        exact hplan _ hval

lemma required_iff {entries : List (DictKey × PythonValue)} :
    requiredFailure (compiledFields false kw) entries = none ↔
      ∀ name ∈ kw.requiredNames, Dict.has entries (.text name) = true := by
  unfold requiredFailure
  rw [List.findSome?_eq_none_iff]
  apply forall₂_congr
  intro name _
  by_cases h : Dict.has entries (.text name) = true <;> simp [h]

lemma anyOf_iff : ((compiledFields false kw).anyOf ≠ [] → ((compiledFields false kw).anyOf.filter fun plan =>
      (compiledValidationFailure value plan).isNone).length ≠ 0) ↔
    ∀ bs, kw.union .anyOf = some bs → bs ≠ [] →
      UnionKeyword.anyOf.Satisfied (fun b => Passes b value) bs := by
  cases hbs : kw.anyOf with
  | none => simp [compiledFields, hbs, Keywords.union]
  | some bs =>
    have hunion : kw.union .anyOf = some bs := hbs
    simp only [hunion, Option.some.injEq, forall_eq', ← union_satisfied .anyOf bs,
      UnionKeyword.satisfiedBy, compiledFields, hbs, Option.getD_some, ne_eq, List.map_eq_nil_iff]

lemma oneOf_iff : ((compiledFields false kw).oneOf ≠ [] → ((compiledFields false kw).oneOf.filter fun plan =>
      (compiledValidationFailure value plan).isNone).length = 1) ↔
    ∀ bs, kw.union .oneOf = some bs → bs ≠ [] →
      UnionKeyword.oneOf.Satisfied (fun b => Passes b value) bs := by
  cases hbs : kw.oneOf with
  | none => simp [compiledFields, hbs, Keywords.union]
  | some bs =>
    have hunion : kw.union .oneOf = some bs := hbs
    simp only [hunion, Option.some.injEq, forall_eq', ← union_satisfied .oneOf bs,
      UnionKeyword.satisfiedBy, compiledFields, hbs, Option.getD_some, ne_eq, List.map_eq_nil_iff]

lemma members_iff {entries : List (DictKey × PythonValue)} :
    (∀ e ∈ Dict.items entries, ∃ name plan, e.1 = .text name ∧
      (compiledFields false kw).memberPlan name = some plan ∧ compiledValidationFailure e.2 plan.1 = none) ↔
    ∀ e ∈ Dict.items entries, ∃ name, e.1 = .text name ∧
      Passes ((kw.child name).getD .wildcard) e.2 := by
  apply forall₂_congr
  intro e _
  apply exists_congr
  intro name
  rw [← member_passes, exists_and_left]

lemma passes_empty : Passes .wildcard value ↔ Meets {} value := by
  rw [passes_wildcard_iff]
  constructor
  · rintro ⟨⟨actual, hactual⟩, hdict, hlist⟩
    refine ⟨⟨actual, hactual, Or.inl (mem_jsonTypes actual)⟩, by simp, by simp, by simp [Keywords.requiredNames],
      by simp, ?_, hdict, hlist⟩
    rintro (_ | _) bs hbs <;> cases hbs
  · rintro ⟨⟨actual, hactual, -⟩, -, -, -, -, -, hdict, hlist⟩
    exact ⟨⟨actual, hactual⟩, hdict, hlist⟩

/-- A value passes a schema object when it meets its keywords. -/
theorem passes_object_iff : Passes (.object kw) value ↔ Meets kw value := by
  cases hempty : kw.isEmpty with
  | true =>
    rw [Keywords.isEmpty_iff.mp hempty]
    exact passes_empty
  | false =>
    have hconjoined : (compiledFields false kw).allOf.findSome? (compiledValidationFailure value) = none ↔
        ∀ b ∈ kw.allOf.getD [], Passes b value := by
      unfold compiledFields
      rw [List.findSome?_eq_none_iff, List.forall_mem_map]
      rfl
    unfold Passes
    rw [compileValidationPlan_object hempty, compiledValidationFailure_object_iff]
    simp only [keywordFailure_eq_none_iff, hconjoined, required_iff, members_iff, anyOf_iff, oneOf_iff]
    constructor
    · rintro ⟨⟨actual, hactual, hallOf, hany, hone, htype, hconst, henum⟩, hdict, hlist⟩
      refine ⟨⟨actual, hactual, htype⟩, hconst, henum, ?_, hallOf, ?_, ?_, hlist⟩
      · exact fun entries hvalue => (hdict entries hvalue).1
      · rintro (_ | _) bs hbs hne
        · exact hany bs hbs hne
        · exact hone bs hbs hne
      · exact fun entries hvalue => (hdict entries hvalue).2
    · rintro ⟨⟨actual, hactual, htype⟩, hconst, henum, hrequired, hallOf, hunion, hmember, hitems⟩
      refine ⟨⟨actual, hactual, hallOf, ?_, ?_, htype, hconst, henum⟩, ?_, hitems⟩
      · exact fun bs hbs hne => hunion .anyOf bs hbs hne
      · exact fun bs hbs hne => hunion .oneOf bs hbs hne
      · exact fun entries hvalue => ⟨hrequired entries hvalue, hmember entries hvalue⟩

/-- The validator with its fast path accepts what the schema passes. -/
theorem compileNormalizedJsonValidator_eq_ok {s : Schema} {path : String} :
    compileNormalizedJsonValidator s path false value = .ok () ↔ Passes s value := by
  rw [compileNormalizedJsonValidator_eq]
  exact Raising.report_eq_ok

end Schemas

end TradeFramework.PythonValue
