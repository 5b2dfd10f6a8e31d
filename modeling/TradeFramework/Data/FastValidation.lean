import TradeFramework.Data.Isolation

/-!
# Generated validators

The success paths of the generated validator and the generated isolator. They are no authority on
errors: every mismatch goes to the complete plan.
-/

namespace TradeFramework

open Raising (report settle)

namespace PythonValue

section Generated

variable (fields : CompiledKeywords CompiledValidationPlan)

/-- The constant of a plan, for a generated function. -/
def constAccepts (value : PythonValue) : Bool := fields.const.all fun c => valuesEqual value c.toPython

/-- A plan with keywords that no generated function supports. -/
def unsupported : Bool :=
  !fields.allOf.isEmpty || !fields.anyOf.isEmpty || !fields.oneOf.isEmpty || fields.enum.isSome

/-- The types of a plan are one container type, and maybe null. -/
def onlyContainer (container : JsonType) : Bool :=
  container ∈ fields.allowedTypes && fields.allowedTypes ⊆ {container, .null}

/-- A scalar of an allowed type. -/
def scalarAccepts : PythonValue → Bool
  | null => .null ∈ fields.allowedTypes
  | bool _ => .boolean ∈ fields.allowedTypes
  | int _ => .integer ∈ fields.allowedTypes || .number ∈ fields.allowedTypes
  | float _ => .number ∈ fields.allowedTypes
  | str _ => .string ∈ fields.allowedTypes
  | nonFinite _ | list _ | dict _ | object _ => false

/-- `validate_wildcard`. -/
def validateWildcard : PythonValue → Bool
  | null | str _ | bool _ | int _ | float _ => true
  | dict entries => (Dict.items entries).attach.all fun e =>
    match e.1.1 with
    | .other _ => false
    | .text _ => validateWildcard e.1.2
  | list xs => xs.attach.all fun x => validateWildcard x.1
  | nonFinite _ | object _ => false
termination_by value => sizeOf value
decreasing_by
  · exact sizeOf_lt_dict e.2
  · exact sizeOf_lt_list x.2

/-- `validate_object`. -/
def validateObject (properties : List (String × (PythonValue → Bool)))
    (additional : Option (PythonValue → Bool)) (value : PythonValue) : Bool :=
  match value with
  | null => .null ∈ fields.allowedTypes && constAccepts fields value
  | dict entries => constAccepts fields value &&
    fields.required.all (fun name => Dict.has entries (.text name)) &&
    (Dict.items entries).all fun e =>
      match e.1 with
      | .other _ => false
      | .text name =>
        match properties.lookup name, additional with
        | some child, _ => child e.2
        | none, some extra => extra e.2
        | none, none => false
  | _ => false

/-- `validate_array`. -/
def validateArray (item : PythonValue → Bool) (value : PythonValue) : Bool :=
  match value with
  | null => .null ∈ fields.allowedTypes && constAccepts fields value
  | list elements => constAccepts fields value && elements.all item
  | _ => false

/-- `validate_scalar`. -/
def validateScalar (value : PythonValue) : Bool := scalarAccepts fields value && constAccepts fields value

lemma sizeOf_property_lt {e : String × CompiledValidationPlan} (h : e ∈ fields.properties) :
    sizeOf e.2 < sizeOf (CompiledValidationPlan.object fields) := by
  have hlt := Dict.sizeOf_mem_lt h
  cases fields
  simp only [CompiledValidationPlan.object.sizeOf_spec, CompiledKeywords.mk.sizeOf_spec] at hlt ⊢
  omega

lemma sizeOf_additional_lt {extra : CompiledValidationPlan} (h : fields.additional = some extra) :
    sizeOf extra < sizeOf (CompiledValidationPlan.object fields) := by
  cases fields
  simp only at h
  simp only [CompiledValidationPlan.object.sizeOf_spec, CompiledKeywords.mk.sizeOf_spec, h,
    Option.some.sizeOf_spec]
  omega

lemma sizeOf_items_lt : sizeOf fields.items < sizeOf (CompiledValidationPlan.object fields) := by
  cases fields
  simp only [CompiledValidationPlan.object.sizeOf_spec, CompiledKeywords.mk.sizeOf_spec]
  omega

/-- `_compile_fast_normalized_json_validator`. -/
def compileFastNormalizedJsonValidator (plan : CompiledValidationPlan) :
    Option (PythonValue → Bool) :=
  match plan with
  | .schemaFalse => some fun _ => false
  | .wildcard trusted => if trusted then none else some validateWildcard
  | .object fields =>
    if unsupported fields then none
    else if onlyContainer fields .object then do
      let properties ← fields.properties.attach.mapM fun e => do
        let child ← compileFastNormalizedJsonValidator e.1.2
        pure (e.1.1, child)
      match _h : fields.additional with
      | none => pure (validateObject fields properties none)
      | some extra => do
        let additional ← compileFastNormalizedJsonValidator extra
        pure (validateObject fields properties (some additional))
    else if onlyContainer fields .array then do
      let item ← compileFastNormalizedJsonValidator fields.items
      pure (validateArray fields item)
    else if .object ∈ fields.allowedTypes ∨ .array ∈ fields.allowedTypes then none
    else some (validateScalar fields)
termination_by sizeOf plan
decreasing_by
  · exact sizeOf_property_lt fields e.2
  · exact sizeOf_additional_lt fields _h
  · exact sizeOf_items_lt fields

end Generated

section Entry

/-- `compile_normalized_json_validator`. -/
def compileNormalizedJsonValidator (schema : Schema) (path : String) (trustedJson : Bool)
    (value : PythonValue) : Except PyError Unit :=
  let plan := compileValidationPlan schema trustedJson
  let fast := if trustedJson then none else compileFastNormalizedJsonValidator plan
  if fast.any fun accepts => accepts value then pure ()
  else report (ValidationFailure.error path) (compiledValidationFailure value plan)

end Entry

section Sound

variable {fields : CompiledKeywords CompiledValidationPlan} {value : PythonValue}

lemma unsupported_eq_false (h : unsupported fields = false) :
    fields.allOf = [] ∧ fields.anyOf = [] ∧ fields.oneOf = [] ∧ fields.enum = none := by
  simpa [unsupported, and_assoc] using h

/-- The clauses of a supported plan about the value itself. -/
lemma keywordFailure_eq_none {actual : JsonType} (hsupported : unsupported fields = false)
    (hallowed : TypeAllowed fields.allowedTypes actual) (hconst : constAccepts fields value = true) :
    keywordFailure fields value actual (fields.allOf.findSome? (compiledValidationFailure value))
      (fields.anyOf.filter fun b => (compiledValidationFailure value b).isNone).length
      (fields.oneOf.filter fun b => (compiledValidationFailure value b).isNone).length = none := by
  obtain ⟨hallOf, hanyOf, honeOf, henum⟩ := unsupported_eq_false hsupported
  have hequal : (fields.const.any fun c => !valuesEqual value c.toPython) = false := by
    unfold constAccepts at hconst
    cases hc : fields.const with
    | none => rfl
    | some c =>
      rw [hc] at hconst
      simpa using hconst
  simp [keywordFailure, hallOf, hanyOf, honeOf, henum, hallowed, hequal]

/-- What is left of a supported plan for a value that meets its clauses. -/
lemma compiledValidationFailure_object {actual : JsonType} (hsupported : unsupported fields = false)
    (htype : value.runtimeType = some actual) (hallowed : TypeAllowed fields.allowedTypes actual)
    (hconst : constAccepts fields value = true)
    (hdict : ∀ entries, value = .dict entries → requiredFailure fields entries = none ∧
      ∀ e ∈ Dict.items entries, ∃ name plan, e.1 = .text name ∧ fields.memberPlan name = some plan ∧
        compiledValidationFailure e.2 plan.1 = none)
    (hlist : ∀ elements, value = .list elements →
      ∀ x ∈ elements, compiledValidationFailure x fields.items = none) :
    compiledValidationFailure value (.object fields) = none := by
  rw [compiledValidationFailure.eq_def]
  dsimp only
  rw [findSome?_attach, length_filter_attach (fun b => (compiledValidationFailure value b).isNone),
    length_filter_attach (fun b => (compiledValidationFailure value b).isNone), htype]
  dsimp only
  rw [keywordFailure_eq_none hsupported hallowed hconst]
  simp only [Option.isSome_none, Bool.false_eq_true, if_false]
  cases value with
  | dict entries =>
    obtain ⟨hrequired, hmembers⟩ := hdict entries rfl
    dsimp only
    rw [hrequired]
    simp only [Option.isSome_none, Bool.false_eq_true, if_false]
    rw [List.findSome?_eq_none_iff]
    rintro ⟨⟨key, child⟩, hmem⟩ -
    obtain ⟨name, plan, hkey, hplan, hchild⟩ := hmembers _ hmem
    dsimp only at hkey hchild ⊢
    subst hkey
    simp only [hplan, hchild, Option.map_none]
  | list elements =>
    dsimp only
    rw [List.findSome?_eq_none_iff]
    rintro ⟨⟨x, hx⟩, i⟩ -
    rw [hlist elements rfl x hx]
    rfl
  | _ => rfl

lemma validateWildcard_sound (h : validateWildcard value = true) :
    compiledValidationFailure value (.wildcard false) = none := by
  induction value using PythonValue.visibleInduction with
  | scalar v hlist hdict =>
    rw [compiledValidationFailure.eq_def]
    cases v with
    | list xs => exact absurd rfl (hlist xs)
    | dict d => exact absurd rfl (hdict d)
    | nonFinite name => simp [validateWildcard] at h
    | object identity => simp [validateWildcard] at h
    | _ => rfl
  | list xs ih =>
    rw [validateWildcard, List.all_eq_true] at h
    rw [compiledValidationFailure.eq_def]
    simp only [runtimeType]
    rw [List.findSome?_eq_none_iff]
    rintro ⟨⟨x, hx⟩, i⟩ -
    rw [ih x hx (h ⟨x, hx⟩ (List.mem_attach _ _))]
    rfl
  | dict d ih =>
    rw [validateWildcard, List.all_eq_true] at h
    rw [compiledValidationFailure.eq_def]
    simp only [runtimeType]
    rw [List.findSome?_eq_none_iff]
    rintro ⟨⟨key, child⟩, hmem⟩ -
    have hchild := h ⟨⟨key, child⟩, hmem⟩ (List.mem_attach _ _)
    cases key with
    | other identity => cases hchild
    | text name =>
      dsimp only at hchild ⊢
      rw [ih _ hmem hchild]
      rfl

lemma allowed_of_onlyContainer {container : JsonType} (h : onlyContainer fields container = true) :
    TypeAllowed fields.allowedTypes container := by
  simp only [onlyContainer, Bool.and_eq_true, decide_eq_true_eq] at h
  exact .inl h.1

lemma allowed_of_scalarAccepts (h : scalarAccepts fields value = true) :
    ∃ actual, value.runtimeType = some actual ∧ TypeAllowed fields.allowedTypes actual ∧
      (∀ d, value ≠ .dict d) ∧ ∀ xs, value ≠ .list xs := by
  cases value <;> simp_all [scalarAccepts, runtimeType, TypeAllowed]

/-- The generated functions of the members of an object, by name. -/
lemma generated_member {α : Type} {compile : CompiledValidationPlan → Option α}
    {properties : List (String × α)} {additional : Option α} (name : String)
    (hproperties : (fields.properties.attach.mapM fun e => do
      let child ← compile e.1.2
      pure (e.1.1, child)) = some properties)
    (hadditional : Option.Rel (fun plan a => compile plan = some a) fields.additional additional) :
    Option.Rel (fun plan a => compile plan.1 = some a) (fields.memberPlan name)
      ((properties.lookup name).or additional) := by
  have hrel : Option.Rel (fun plan a => compile plan = some a) (fields.properties.lookup name)
      (properties.lookup name) := by
    refine Dict.rel_lookup ?_ name
    have hall := Related.forall₂_of_mapM_eq_some hproperties
    rw [← List.attach_map_subtype_val fields.properties, List.forall₂_map_left_iff]
    refine Related.forall₂_mono (fun e _ f _ h => ?_) hall
    obtain ⟨child, hchild, hpair⟩ := Option.bind_eq_some_iff.mp h
    cases hpair
    exact ⟨rfl, hchild⟩
  have hplan := memberPlan_val fields name
  have hval : Option.Rel (fun plan a => compile plan = some a)
      ((fields.memberPlan name).map Subtype.val) ((properties.lookup name).or additional) := by
    rw [hplan]
    revert hrel
    generalize fields.properties.lookup name = plan
    generalize properties.lookup name = function
    intro hrel
    cases hrel with
    | none => exact hadditional
    | some h => exact .some h
  revert hval
  generalize (properties.lookup name).or additional = function
  cases fields.memberPlan name with
  | none =>
    intro hval
    cases hval
    exact .none
  | some plan =>
    intro hval
    cases hval with
    | some h => exact .some h

lemma null_allowed (h : (.null ∈ fields.allowedTypes && constAccepts fields null) = true) :
    TypeAllowed fields.allowedTypes .null ∧ constAccepts fields null = true := by
  simp only [Bool.and_eq_true, decide_eq_true_eq] at h
  exact ⟨.inl h.1, h.2⟩

lemma requiredFailure_eq_none {entries : List (DictKey × PythonValue)}
    (h : fields.required.all (fun name => Dict.has entries (.text name)) = true) :
    requiredFailure fields entries = none := by
  unfold requiredFailure
  rw [List.findSome?_eq_none_iff]
  intro name hname
  rw [if_pos (List.all_eq_true.mp h name hname)]

lemma validateObject_sound {properties : List (String × (PythonValue → Bool))}
    {additional : Option (PythonValue → Bool)} (hsupported : unsupported fields = false)
    (hcontainer : onlyContainer fields .object = true)
    (hmember : ∀ name, Option.Rel
      (fun plan accepts => ∀ x, accepts x = true → compiledValidationFailure x plan.1 = none)
      (fields.memberPlan name) ((properties.lookup name).or additional))
    (h : validateObject fields properties additional value = true) :
    compiledValidationFailure value (.object fields) = none := by
  cases value with
  | null =>
    obtain ⟨hallowed, hconst⟩ := null_allowed h
    exact compiledValidationFailure_object hsupported rfl hallowed hconst (by simp) (by simp)
  | dict entries =>
    simp only [validateObject, Bool.and_eq_true] at h
    obtain ⟨⟨hconst, hrequired⟩, hmembers⟩ := h
    refine compiledValidationFailure_object hsupported rfl (allowed_of_onlyContainer hcontainer) hconst
      ?_ (by simp)
    rintro d ⟨⟩
    refine ⟨requiredFailure_eq_none hrequired, fun e he => ?_⟩
    have haccepts := List.all_eq_true.mp hmembers e he
    obtain ⟨key, x⟩ := e
    cases key with
    | other identity => cases haccepts
    | text name =>
      have hrel := hmember name
      dsimp only at haccepts
      cases hplan : fields.memberPlan name with
      | none =>
        rw [hplan] at hrel
        cases hlookup : properties.lookup name with
        | some child => simp [hlookup] at hrel
        | none =>
          cases hadditional : additional with
          | some extra => simp [hlookup, hadditional] at hrel
          | none => simp [hlookup, hadditional] at haccepts
      | some plan =>
        rw [hplan] at hrel
        refine ⟨name, plan, rfl, hplan, ?_⟩
        cases hlookup : properties.lookup name with
        | some child =>
          rw [hlookup] at hrel haccepts
          cases hrel with
          | some hsound => exact hsound x haccepts
        | none =>
          cases hadditional : additional with
          | some extra =>
            rw [hlookup, hadditional] at hrel haccepts
            cases hrel with
            | some hsound => exact hsound x haccepts
          | none => simp [hlookup, hadditional] at haccepts
  | _ => cases h

lemma validateArray_sound {item : PythonValue → Bool} (hsupported : unsupported fields = false)
    (hcontainer : onlyContainer fields .array = true)
    (hitem : ∀ x, item x = true → compiledValidationFailure x fields.items = none)
    (h : validateArray fields item value = true) :
    compiledValidationFailure value (.object fields) = none := by
  cases value with
  | null =>
    obtain ⟨hallowed, hconst⟩ := null_allowed h
    exact compiledValidationFailure_object hsupported rfl hallowed hconst (by simp) (by simp)
  | list elements =>
    simp only [validateArray, Bool.and_eq_true] at h
    refine compiledValidationFailure_object hsupported rfl (allowed_of_onlyContainer hcontainer) h.1
      (by simp) ?_
    rintro xs ⟨⟩ x hx
    exact hitem x (List.all_eq_true.mp h.2 x hx)
  | _ => cases h

/-- A generated validator accepts only what the plan accepts. -/
theorem compileFastNormalizedJsonValidator_sound {plan : CompiledValidationPlan}
    {accepts : PythonValue → Bool} (h : compileFastNormalizedJsonValidator plan = some accepts)
    (value : PythonValue) (hvalue : accepts value = true) :
    compiledValidationFailure value plan = none := by
  induction hsize : sizeOf plan using Nat.strong_induction_on generalizing plan accepts value with
  | _ n ih =>
    subst hsize
    rw [compileFastNormalizedJsonValidator.eq_def] at h
    cases plan with
    | schemaFalse =>
      cases h
      cases hvalue
    | wildcard trusted =>
      cases trusted with
      | true => cases h
      | false =>
        cases h
        exact validateWildcard_sound hvalue
    | object fields =>
      dsimp only at h
      split_ifs at h with hunsupported hobject harray hmixed
      · have hsupported := Bool.eq_false_of_not_eq_true hunsupported
        obtain ⟨properties, hproperties, h⟩ := Option.bind_eq_some_iff.mp h
        have hsound : ∀ additional, Option.Rel
            (fun plan a => compileFastNormalizedJsonValidator plan = some a) fields.additional additional →
            validateObject fields properties additional value = true →
            compiledValidationFailure value (.object fields) = none := by
          intro additional hadditional hvalue
          refine validateObject_sound hsupported hobject (fun name => ?_) hvalue
          refine Related.rel_mono (fun plan accepts hplan x hx => ?_)
            (generated_member name hproperties hadditional)
          exact ih _ plan.2 hplan x hx rfl
        split at h
        · next hnone =>
          cases h
          exact hsound none (hnone ▸ .none) hvalue
        · next extra hextra =>
          obtain ⟨additional, hadditional, h⟩ := Option.bind_eq_some_iff.mp h
          cases h
          exact hsound (some additional) (hextra ▸ .some hadditional) hvalue
      · obtain ⟨item, hitem, h⟩ := Option.bind_eq_some_iff.mp h
        cases h
        refine validateArray_sound (Bool.eq_false_of_not_eq_true hunsupported) harray ?_ hvalue
        exact fun x hx => ih _ (sizeOf_items_lt fields) hitem x hx rfl
      · cases h
        simp only [validateScalar, Bool.and_eq_true] at hvalue
        obtain ⟨actual, htype, hallowed, hdict, hlist⟩ := allowed_of_scalarAccepts hvalue.1
        exact compiledValidationFailure_object (Bool.eq_false_of_not_eq_true hunsupported) htype hallowed
          hvalue.2 (fun d hd => absurd hd (hdict d)) fun xs hxs => absurd hxs (hlist xs)

end Sound

section Entry

variable {document : Json} {schema : Schema}

/-- A generated validator changes nothing: it accepts only what the plan accepts. -/
lemma compileNormalizedJsonValidator_eq (schema : Schema) (path : String) (trustedJson : Bool)
    (value : PythonValue) : compileNormalizedJsonValidator schema path trustedJson value =
      report (ValidationFailure.error path)
        (compiledValidationFailure value (compileValidationPlan schema trustedJson)) := by
  unfold compileNormalizedJsonValidator
  cases trustedJson with
  | true => rfl
  | false =>
    dsimp only
    rw [if_neg Bool.false_ne_true]
    cases hcompiled : compileFastNormalizedJsonValidator (compileValidationPlan schema false) with
    | none => rfl
    | some accepts =>
      rw [Option.any_some]
      split
      · next hfast =>
        rw [compileFastNormalizedJsonValidator_sound hcompiled value hfast]
        rfl
      · rfl

end Entry

end PythonValue

end TradeFramework
