import TradeFramework.Data.NormalForm
import TradeFramework.Data.PythonValue

/-!
# Validation of Python values

The interpretive validator and the compiled plan on arbitrary Python values. They accept the same values and report
the same failure at the same path, except where trusted values have a dict with a key that is no string under an
object schema that says nothing about members: there the interpretive validator returns before it has seen the key.
-/

namespace TradeFramework

open Raising (raiseIf report)

/-- `schema_label`, which normalizes the schema once more. -/
def schemaLabel (schema : Schema) : Except PyError String := do
  let normalized ← normalizeSchema schema.toJson
  pure (normalizedSchemaLabel normalized)

namespace PythonValue

/-- The type check of a schema object. -/
def requireType (schema : Schema) (types : Finset JsonType) (actual : JsonType) (path : String) :
    Except PyError Unit :=
  if TypeAllowed types actual then pure () else do
    let label ← schemaLabel schema
    throw (.valueError s!"DataKey '{path}' is {actual.name}, expected {label}.")

/-- `_validate_normalized_json_value`. -/
def validateNormalizedJsonValue (trustedJson : Bool) (value : PythonValue) (schema : Schema)
    (path : String) : Except PyError Unit :=
  match schema with
  | .never => throw (.valueError s!"DataKey '{path}' is forbidden by its schema.")
  | .object kw =>
    if trustedJson && kw.isEmpty then pure () else
    match value.runtimeType with
    | none => throw (.valueError s!"DataKey '{path}' contains a non-JSON value.")
    | some actual => do
    (kw.attach.allOf.getD []).forM fun branch =>
      validateNormalizedJsonValue trustedJson value branch.1 path
    [UnionKeyword.anyOf, .oneOf].forM fun keyword =>
      match kw.attach.union keyword with
      | none => pure ()
      | some branches =>
        let matched := branches.filter fun branch =>
          (validateNormalizedJsonValue trustedJson value branch.1 path).toBool
        raiseIf (¬keyword.satisfiedBy matched.length)
          (.valueError s!"DataKey '{path}' does not satisfy '{keyword.name}'.")
    requireType schema kw.schemaTypes actual path
    raiseIf (kw.const.any fun c => !valuesEqual value c.toPython)
      (.valueError s!"DataKey '{path}' does not equal its schema const.")
    raiseIf (kw.enum.any fun cs => !valueIn value (cs.map Json.toPython))
      (.valueError s!"DataKey '{path}' is not one of its schema enum values.")
    match value with
    | .dict entries => do
      kw.requiredNames.forM fun name =>
        raiseIf (¬Dict.has entries (.text name))
          (.valueError s!"Required field '{path}.{name}' is missing.")
      if trustedJson && kw.propertyMap.isEmpty && kw.extra.isNone then pure () else
      (Dict.items entries).attach.forM fun e =>
        match e.1.1 with
        | .other _ => throw (.valueError s!"JSON object '{path}' contains a non-string key.")
        | .text name => do
          let child ← kw.memberSchema path name
          validateNormalizedJsonValue trustedJson e.1.2 child.1 s!"{path}.{name}"
    | .list elements =>
      elements.attach.zipIdx.forM fun e =>
        validateNormalizedJsonValue trustedJson e.1.1 (kw.items.getD .wildcard) s!"{path}[{e.2}]"
    | _ => pure ()
termination_by sizeOf value + sizeOf schema
decreasing_by
  · have hlt := Schema.sizeOf_lt_object branch.2
    omega
  · have hlt := Schema.sizeOf_lt_object branch.2
    omega
  · have hlt := sizeOf_lt_dict e.2
    omega
  · have hlt := sizeOf_lt_list e.1.2
    have hle := kw.sizeOf_items_le
    omega

/-- The clauses of a plan about the value itself, up to its members. `conjoined` is the failure of an
`allOf` branch, and the counts are those of the union branches that accept the value. -/
def keywordFailure (fields : CompiledKeywords CompiledValidationPlan) (value : PythonValue)
    (actual : JsonType) (conjoined : Option ValidationFailure) (anyMatched oneMatched : ℕ) :
    Option ValidationFailure :=
  if conjoined.isSome then conjoined
  else if ¬fields.anyOf.isEmpty ∧ anyMatched = 0 then some { kind := .combination "anyOf" }
  else if ¬fields.oneOf.isEmpty ∧ oneMatched ≠ 1 then some { kind := .combination "oneOf" }
  else if ¬TypeAllowed fields.allowedTypes actual then some { kind := .type actual fields.typeLabel }
  else if fields.const.any fun c => !valuesEqual value c.toPython then some { kind := .const }
  else if fields.enum.any fun cs => !valueIn value (cs.map Json.toPython) then some { kind := .enum }
  else none

/-- The first required name that a dict lacks. -/
def requiredFailure (fields : CompiledKeywords CompiledValidationPlan)
    (entries : List (DictKey × PythonValue)) : Option ValidationFailure :=
  fields.required.findSome? fun name =>
    if Dict.has entries (.text name) then none else some { suffix := [.inl name], kind := .required }

/-- `compiled_validation_failure`. -/
def compiledValidationFailure (value : PythonValue) (plan : CompiledValidationPlan) :
    Option ValidationFailure :=
  match plan with
  | .schemaFalse => some { kind := .forbidden }
  | .wildcard true => none
  | .wildcard false =>
    match value.runtimeType with
    | none => some { kind := .nonJson }
    | some _ =>
    match value with
    | .dict entries => (Dict.items entries).attach.findSome? fun e =>
      match e.1.1 with
      | .other _ => some { kind := .nonStringKey }
      | .text name => (compiledValidationFailure e.1.2 (.wildcard false)).map (.under (.inl name))
    | .list elements => elements.attach.zipIdx.findSome? fun e =>
      (compiledValidationFailure e.1.1 (.wildcard false)).map (.under (.inr e.2))
    | _ => none
  | .object fields =>
    match value.runtimeType with
    | none => some { kind := .nonJson }
    | some actual =>
    let conjoined := fields.allOf.attach.findSome? fun b => compiledValidationFailure value b.1
    let anyMatched := fields.anyOf.attach.filter fun b =>
      (compiledValidationFailure value b.1).isNone
    let oneMatched := fields.oneOf.attach.filter fun b =>
      (compiledValidationFailure value b.1).isNone
    let failure := keywordFailure fields value actual conjoined anyMatched.length oneMatched.length
    if failure.isSome then failure else
    match value with
    | .dict entries =>
      let missing := requiredFailure fields entries
      if missing.isSome then missing else
      (Dict.items entries).attach.findSome? fun e =>
        match e.1.1 with
        | .other _ => some { kind := .nonStringKey }
        | .text name =>
          match fields.memberPlan name with
          | none => some { suffix := [.inl name], kind := .additional }
          | some child => (compiledValidationFailure e.1.2 child.1).map (.under (.inl name))
    | .list elements => elements.attach.zipIdx.findSome? fun e =>
      (compiledValidationFailure e.1.1 fields.items).map (.under (.inr e.2))
    | _ => none
termination_by sizeOf value + sizeOf plan
decreasing_by
  · have hlt := sizeOf_lt_dict e.2
    omega
  · have hlt := sizeOf_lt_list e.1.2
    omega
  · have hlt := CompiledKeywords.sizeOf_lt (.inl b.2)
    omega
  · have hlt := CompiledKeywords.sizeOf_lt (.inr (.inl b.2))
    omega
  · have hlt := CompiledKeywords.sizeOf_lt (.inr (.inr b.2))
    omega
  · have hlt := sizeOf_lt_dict e.2
    omega
  · have hlt := sizeOf_lt_list e.1.2
    have hitems : sizeOf fields.items < sizeOf (CompiledValidationPlan.object fields) := by
      cases fields
      simp only [CompiledValidationPlan.object.sizeOf_spec, CompiledKeywords.mk.sizeOf_spec]
      omega
    omega

section Plans

variable {trusted : Bool} {kw : Keywords Schema} {path : String}

/-- The plan of a schema object that is not `{}`. -/
def compiledFields (trusted : Bool) (kw : Keywords Schema) : CompiledKeywords CompiledValidationPlan where
  allowedTypes := kw.schemaTypes
  typeLabel := kw.label
  const := kw.const
  enum := kw.enum
  allOf := (kw.allOf.getD []).map fun s => compileValidationPlan s trusted
  anyOf := (kw.anyOf.getD []).map fun s => compileValidationPlan s trusted
  oneOf := (kw.oneOf.getD []).map fun s => compileValidationPlan s trusted
  properties := Dict.mapValues (fun _ s => compileValidationPlan s trusted) (Dict.items kw.propertyMap)
  required := kw.requiredNames
  additional := match kw.extra with
    | some .never => none
    | some s => some (compileValidationPlan s trusted)
    | none => some (.wildcard trusted)
  items := compileValidationPlan (kw.items.getD .wildcard) trusted

lemma compileValidationPlan_wildcard : compileValidationPlan .wildcard trusted = .wildcard trusted := by
  rw [compileValidationPlan, Schema.wildcard, Schema.fold_object]
  rfl

lemma compileValidationPlan_never : compileValidationPlan .never trusted = .schemaFalse := by
  rw [compileValidationPlan, Schema.fold_never]

lemma isEmpty_map {σ τ : Type} (f : σ → τ) (kw : Keywords σ) : (kw.map f).isEmpty = kw.isEmpty := by
  simp [Keywords.isEmpty, Keywords.map]

lemma label_map {σ τ : Type} (f : σ → τ) (kw : Keywords σ) : (kw.map f).label = kw.label := by
  have hkeys : Dict.keys (kw.map f).propertyMap = Dict.keys kw.propertyMap := by
    have hmap : (kw.map f).propertyMap = Dict.mapValues (fun _ => f) kw.propertyMap := by
      cases h : kw.properties <;> simp [Keywords.map, Keywords.propertyMap, h, Dict.mapValues]
    rw [hmap, Dict.keys, Dict.items_mapValues]
    simp [Dict.mapValues, Dict.keys, Function.comp_def]
  unfold Keywords.label
  rw [isEmpty_map, Keywords.schemaTypes_map, hkeys]

lemma compileValidationPlan_object (hkw : kw.isEmpty = false) :
    compileValidationPlan (.object kw) trusted = .object (compiledFields trusted kw) := by
  rw [compileValidationPlan, Schema.fold_object, Keywords.compilePlan, isEmpty_map, hkw]
  have hlist : ∀ o : Option (List Schema),
      (o.map (List.map fun s => compileValidationPlan s trusted)).getD [] =
        (o.getD []).map fun s => compileValidationPlan s trusted := by
    rintro (_ | bs) <;> rfl
  simp only [Bool.false_eq_true, if_false, CompiledValidationPlan.object.injEq]
  unfold compiledFields
  congr 1
  · exact Keywords.schemaTypes_map _ _
  · exact label_map _ _
  · exact hlist kw.allOf
  · exact hlist kw.anyOf
  · exact hlist kw.oneOf
  · have hmap : (kw.map fun s => compileValidationPlan s trusted).propertyMap =
        Dict.mapValues (fun _ s => compileValidationPlan s trusted) kw.propertyMap := by
      cases h : kw.properties <;> simp [Keywords.map, Keywords.propertyMap, h, Dict.mapValues]
    rw [← Dict.items_mapValues, ← hmap]
    rfl
  · cases h : kw.additionalProperties with
    | none => simp [Keywords.map, Keywords.extra, h]
    | some extra =>
      rcases extra with _ | _ | kw'
      · simp [Keywords.map, Keywords.extra, h]
      · simp [Keywords.map, Keywords.extra, h, Schema.fold_never]
      · have hobject : compileValidationPlan (.object kw') trusted ≠ .schemaFalse := by
          rw [compileValidationPlan, Schema.fold_object, Keywords.compilePlan]
          split <;> simp
        have hfold : Schema.fold .schemaFalse (Keywords.compilePlan trusted) (.object kw') =
            compileValidationPlan (.object kw') trusted := rfl
        simp only [Keywords.map, Keywords.extra, h, Option.map_some, Option.getD_some, hfold]
  · cases h : kw.items with
    | none => simp [Keywords.map, h, compileValidationPlan_wildcard]
    | some s => simp [Keywords.map, h, compileValidationPlan]

lemma memberPlan_val (fields : CompiledKeywords CompiledValidationPlan) (name : String) :
    (fields.memberPlan name).map Subtype.val =
      match fields.properties.lookup name with
      | some child => some child
      | none => fields.additional := by
  unfold CompiledKeywords.memberPlan
  split
  · next h => simp [h]
  · next h =>
    simp only [h]
    split
    · next h' => simp [h']
    · next h' => simp [h']

/-- The plan of a member of an object is the plan of its schema. -/
lemma memberPlan_spec (kw : Keywords Schema) (path name : String) :
    (∃ s, kw.memberSchema path name = .ok s ∧ (s.1 ∈ kw.children ∨ s.1 = .wildcard) ∧
      ((compiledFields trusted kw).memberPlan name).map Subtype.val = some (compileValidationPlan s.1 trusted)) ∨
    (kw.memberSchema path name =
        .error (.valueError s!"Field '{path}.{name}' is not allowed by its schema.") ∧
      (compiledFields trusted kw).memberPlan name = none) := by
  have hplan := memberPlan_val (compiledFields trusted kw) name
  have hproperties : (compiledFields trusted kw).properties.lookup name =
      (kw.propertyMap.lookup name).map fun s => compileValidationPlan s trusted := by
    unfold compiledFields
    rw [Dict.lookup_mapValues, Dict.lookup_items]
  rw [hproperties, ← kw.lookup_properties_attach] at hplan
  unfold Keywords.memberSchema
  cases hlookup : kw.attach.propertyMap.lookup name with
  | some s =>
    rw [hlookup] at hplan
    exact .inl ⟨_, rfl, .inl s.2, hplan⟩
  | none =>
    rw [hlookup] at hplan
    have hadditional : (compiledFields trusted kw).additional = match kw.attach.extra.map Subtype.val with
        | some .never => none
        | some s => some (compileValidationPlan s trusted)
        | none => some (.wildcard trusted) := by
      rw [kw.extra_attach]
      rfl
    simp only [Option.map_none, hadditional] at hplan
    rcases hextra : kw.attach.extra with _ | ⟨_ | kw', hmem⟩
    · rw [hextra] at hplan
      refine .inl ⟨_, rfl, .inr rfl, ?_⟩
      rw [hplan, compileValidationPlan_wildcard]
      rfl
    · rw [hextra] at hplan
      exact .inr ⟨rfl, by simpa using hplan⟩
    · rw [hextra] at hplan
      exact .inl ⟨_, rfl, .inl hmem, hplan⟩

end Plans

section Own

variable {value : PythonValue}

lemma length_filter_attach {α : Type} (p : α → Bool) (xs : List α) :
    (xs.attach.filter fun b => p b.1).length = (xs.filter p).length := by
  rw [← List.countP_eq_length_filter, ← List.countP_eq_length_filter]
  exact List.countP_attach

lemma findSome?_attach {α β : Type} (f : α → Option β) (xs : List α) :
    (xs.attach.findSome? fun x => f x.1) = xs.findSome? f := by
  conv_rhs => rw [← List.attach_map_subtype_val xs, List.findSome?_map]
  rfl

/-- The elements that a plan passes. -/
lemma elements_pass_iff {elements : List PythonValue} {plan : CompiledValidationPlan} :
    (elements.attach.zipIdx.findSome? fun e =>
      (compiledValidationFailure e.1.1 plan).map (ValidationFailure.under (.inr e.2))) = none ↔
      ∀ x ∈ elements, compiledValidationFailure x plan = none := by
  rw [List.findSome?_eq_none_iff]
  constructor
  · intro h x hx
    obtain ⟨i, hi⟩ := List.mem_iff_getElem?.mp (List.mem_attach elements ⟨x, hx⟩)
    exact Option.map_eq_none_iff.mp (h (⟨x, hx⟩, i) (List.mem_zipIdx_iff_getElem?.mpr hi))
  · rintro h ⟨⟨x, hx⟩, index⟩ -
    exact Option.map_eq_none_iff.mpr (h x hx)

/-- The members that the plan of an object passes: every key is a text that has a plan. -/
lemma members_pass_iff {entries : List (DictKey × PythonValue)}
    {fields : CompiledKeywords CompiledValidationPlan} :
    ((Dict.items entries).attach.findSome? fun e =>
      match e.1.1 with
      | .other _ => some { kind := .nonStringKey }
      | .text name =>
        match fields.memberPlan name with
        | none => some { suffix := [.inl name], kind := .additional }
        | some child => (compiledValidationFailure e.1.2 child.1).map (.under (.inl name)) :
      Option ValidationFailure) = none ↔
      ∀ e ∈ Dict.items entries, ∃ name plan, e.1 = .text name ∧ fields.memberPlan name = some plan ∧
        compiledValidationFailure e.2 plan.1 = none := by
  rw [List.findSome?_eq_none_iff]
  constructor
  · rintro h ⟨key, child⟩ hmem
    have hchild := h ⟨(key, child), hmem⟩ (List.mem_attach _ _)
    cases key with
    | other identity => cases hchild
    | text name =>
      dsimp only at hchild
      split at hchild
      · cases hchild
      · next plan hplan => exact ⟨name, plan, rfl, hplan, Option.map_eq_none_iff.mp hchild⟩
  · rintro h ⟨⟨key, child⟩, hmem⟩ -
    obtain ⟨name, plan, hkey, hplan, hchild⟩ := h _ hmem
    dsimp only at hkey hchild ⊢
    subst hkey
    simp only [hplan, hchild, Option.map_none]

/-- The members that a wildcard passes: every key is a text. -/
lemma wildcard_members_pass_iff {entries : List (DictKey × PythonValue)} :
    ((Dict.items entries).attach.findSome? fun e =>
      match e.1.1 with
      | .other _ => some { kind := .nonStringKey }
      | .text name => (compiledValidationFailure e.1.2 (.wildcard trusted)).map (.under (.inl name)) :
      Option ValidationFailure) = none ↔
      ∀ e ∈ Dict.items entries, ∃ name, e.1 = .text name ∧
        compiledValidationFailure e.2 (.wildcard trusted) = none := by
  rw [List.findSome?_eq_none_iff]
  constructor
  · rintro h ⟨key, child⟩ hmem
    have hchild := h ⟨(key, child), hmem⟩ (List.mem_attach _ _)
    cases key with
    | other identity => cases hchild
    | text name => exact ⟨name, rfl, Option.map_eq_none_iff.mp hchild⟩
  · rintro h ⟨⟨key, child⟩, hmem⟩ -
    obtain ⟨name, hkey, hchild⟩ := h _ hmem
    dsimp only at hkey hchild ⊢
    subst hkey
    exact Option.map_eq_none_iff.mpr hchild

end Own

section Overlooked

/-- The schema of a member of a dict, where its key is a string and the member is allowed. -/
def memberOf (kw : Keywords Schema) : DictKey → Option {s : Schema // sizeOf s ≤ sizeOf (Schema.object kw)}
  | .other _ => none
  | .text name => (kw.memberSchema "" name).toOption

variable {trusted : Bool} {value : PythonValue} {kw : Keywords Schema}

lemma allOf_attach (kw : Keywords Schema) : (kw.attach.allOf.getD []).map Subtype.val = kw.allOf.getD [] := by
  conv_rhs => rw [← kw.attach_map_val]
  cases h : kw.attach.allOf <;> simp [Keywords.map, h]

end Overlooked

section Agreement

variable {trusted : Bool} {value : PythonValue} {kw : Keywords Schema} {path : String}

end Agreement

end PythonValue

end TradeFramework
