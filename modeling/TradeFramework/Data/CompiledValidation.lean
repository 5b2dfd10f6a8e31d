import TradeFramework.Data.Validate

/-!
# Compiled validation plans

`compile_validation_plan` precomputes what a schema asks of a value;
`compiled_validation_failure` runs the plan and names the first failure.
-/

namespace TradeFramework

/-- The executable shape of one schema object; `additional = none` closes the object. -/
structure CompiledKeywords (π : Type) where
  allowedTypes : Finset JsonType
  typeLabel : String
  const : Option Json
  enum : Option (List Json)
  allOf : List π
  anyOf : List π
  oneOf : List π
  properties : List (String × π)
  required : List String
  additional : Option π
  items : π

/-- `CompiledValidationPlan`. -/
inductive CompiledValidationPlan
  | schemaFalse
  | wildcard (trusted : Bool)
  | object (fields : CompiledKeywords CompiledValidationPlan)

inductive ValidationFailureKind
  | forbidden
  | nonJson
  | nonStringKey
  | combination (keyword : String)
  | type (actual : JsonType) (expected : String)
  | const
  | enum
  | required
  | additional
deriving DecidableEq, Repr

/-- The path below the validated value and the kind of a failure. -/
structure ValidationFailure where
  suffix : List (String ⊕ ℕ) := []
  kind : ValidationFailureKind
deriving DecidableEq, Repr

/-- `_validation_path`, one segment of it. -/
def validationPathUnder (path : String) : String ⊕ ℕ → String
  | .inl name => s!"{path}.{name}"
  | .inr index => s!"{path}[{index}]"

/-- `_validation_path`. -/
def validationPath (root : String) (suffix : List (String ⊕ ℕ)) : String :=
  suffix.foldl validationPathUnder root

/-- The exception of `raise_compiled_validation_failure`. -/
def ValidationFailure.error (path : String) (failure : ValidationFailure) : PyError :=
  let label := validationPath path failure.suffix
  match failure.kind with
  | .required => .valueError s!"Required field '{label}' is missing."
  | .additional => .valueError s!"Field '{label}' is not allowed by its schema."
  | .nonStringKey => .valueError s!"JSON object '{label}' contains a non-string key."
  | .forbidden => .valueError s!"DataKey '{label}' is forbidden by its schema."
  | .nonJson => .valueError s!"DataKey '{label}' contains a non-JSON value."
  | .type actual expected => .valueError s!"DataKey '{label}' is {actual.name}, expected {expected}."
  | .const => .valueError s!"DataKey '{label}' does not equal its schema const."
  | .enum => .valueError s!"DataKey '{label}' is not one of its schema enum values."
  | .combination keyword => .valueError s!"DataKey '{label}' does not satisfy '{keyword}'."

/-- One level of `compile_validation_plan`, from the plans of the child schemas. -/
def Keywords.compilePlan (trustedJson : Bool) (kw : Keywords CompiledValidationPlan) :
    CompiledValidationPlan :=
  if kw.isEmpty then .wildcard trustedJson else .object {
    allowedTypes := kw.schemaTypes
    typeLabel := kw.label
    const := kw.const
    enum := kw.enum
    allOf := kw.allOf.getD []
    anyOf := kw.anyOf.getD []
    oneOf := kw.oneOf.getD []
    properties := Dict.items kw.propertyMap
    required := kw.requiredNames
    additional := match kw.extra with
      | some .schemaFalse => none
      | some plan => some plan
      | none => some (.wildcard trustedJson)
    items := kw.items.getD (.wildcard trustedJson) }

/-- `compile_validation_plan`. -/
def compileValidationPlan (schema : Schema) (trustedJson : Bool) : CompiledValidationPlan :=
  Schema.fold .schemaFalse (Keywords.compilePlan trustedJson) schema

def ValidationFailure.under (segment : String ⊕ ℕ) (failure : ValidationFailure) :
    ValidationFailure :=
  { failure with suffix := segment :: failure.suffix }

lemma CompiledKeywords.sizeOf_lt {fields : CompiledKeywords CompiledValidationPlan}
    {plan : CompiledValidationPlan}
    (h : plan ∈ fields.allOf ∨ plan ∈ fields.anyOf ∨ plan ∈ fields.oneOf) :
    sizeOf plan < sizeOf (CompiledValidationPlan.object fields) := by
  cases fields
  simp only [CompiledValidationPlan.object.sizeOf_spec, mk.sizeOf_spec]
  rcases h with h | h | h <;>
    · have hlt := List.sizeOf_lt_of_mem h
      dsimp only at hlt
      omega

/-- The plan applied to the member `name` of an object; `none` when it is not allowed. -/
def CompiledKeywords.memberPlan (fields : CompiledKeywords CompiledValidationPlan) (name : String) :
    Option {plan : CompiledValidationPlan //
      sizeOf plan < sizeOf (CompiledValidationPlan.object fields)} :=
  match h : fields.properties.lookup name with
  | some child => some ⟨child, by
      have hlt := Dict.sizeOf_lookup_lt h
      cases fields
      simp only [CompiledValidationPlan.object.sizeOf_spec, mk.sizeOf_spec] at hlt ⊢
      omega⟩
  | none => match h : fields.additional with
    | some extra => some ⟨extra, by
        cases fields
        simp only at h
        simp only [CompiledValidationPlan.object.sizeOf_spec, mk.sizeOf_spec, h,
          Option.some.sizeOf_spec]
        omega⟩
    | none => none

/-- `compiled_validation_failure`. Strict JSON never fails a wildcard. -/
def compiledValidationFailure (value : Json) (plan : CompiledValidationPlan) :
    Option ValidationFailure :=
  match plan with
  | .schemaFalse => some { kind := .forbidden }
  | .wildcard _ => none
  | .object fields =>
    let conjoined := fields.allOf.attach.findSome? fun b => compiledValidationFailure value b.1
    let anyMatched := fields.anyOf.attach.filter fun b =>
      (compiledValidationFailure value b.1).isNone
    let oneMatched := fields.oneOf.attach.filter fun b =>
      (compiledValidationFailure value b.1).isNone
    if conjoined.isSome then conjoined
    else if ¬fields.anyOf.isEmpty ∧ anyMatched.length = 0 then
      some { kind := .combination "anyOf" }
    else if ¬fields.oneOf.isEmpty ∧ oneMatched.length ≠ 1 then
      some { kind := .combination "oneOf" }
    else if ¬TypeAllowed fields.allowedTypes (jsonType value) then
      some { kind := .type (jsonType value) fields.typeLabel }
    else if fields.const.any fun c => !jsonValuesEqual value c then some { kind := .const }
    else if fields.enum.any fun cs => !jsonValueIn value cs then some { kind := .enum }
    else match value with
    | .obj members =>
      match fields.required.find? fun name => !Dict.has members name with
      | some name => some { suffix := [.inl name], kind := .required }
      | none => (Dict.items members).attach.findSome? fun e =>
        match fields.memberPlan e.1.1 with
        | some child => (compiledValidationFailure e.1.2 child.1).map (.under (.inl e.1.1))
        | none => some { suffix := [.inl e.1.1], kind := .additional }
    | .arr elements => elements.attach.zipIdx.findSome? fun e =>
        (compiledValidationFailure e.1.1 fields.items).map (.under (.inr e.2))
    | _ => none
termination_by sizeOf value + sizeOf plan
decreasing_by
  · have hlt := CompiledKeywords.sizeOf_lt (.inl b.2)
    omega
  · have hlt := CompiledKeywords.sizeOf_lt (.inr (.inl b.2))
    omega
  · have hlt := CompiledKeywords.sizeOf_lt (.inr (.inr b.2))
    omega
  · have hlt := Json.sizeOf_lt_obj e.2
    omega
  · have hlt := Json.sizeOf_lt_arr e.1.2
    have hitems : sizeOf fields.items < sizeOf (CompiledValidationPlan.object fields) := by
      cases fields
      simp only [CompiledValidationPlan.object.sizeOf_spec, CompiledKeywords.mk.sizeOf_spec]
      omega
    omega

end TradeFramework
