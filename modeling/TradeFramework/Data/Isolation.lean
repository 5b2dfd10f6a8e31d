import TradeFramework.Data.PythonValidation

/-!
# Isolating validation

The plan that copies a value while it checks it fails as the plan does, and returns the copy of the
value where that accepts. What a plan for untrusted values accepts holds no NaN, so that its copy is
equal to it.
-/

namespace TradeFramework

open Raising (settle)

namespace PythonValue

section Isolation

/-- A failure below a segment. -/
def inMember {α : Type} (segment : String ⊕ ℕ) (r : Except ValidationFailure α) :
    Except ValidationFailure α := r.mapError (.under segment)

/-- `_compiled_isolation_failure`: the isolated value or the failure. -/
def compiledIsolationFailure (value : PythonValue) (plan : CompiledValidationPlan) :
    Except ValidationFailure PythonValue :=
  match plan with
  | .schemaFalse => throw { kind := .forbidden }
  | .wildcard true => pure value.isolateJsonValue
  | .wildcard false =>
    match value.runtimeType with
    | none => throw { kind := .nonJson }
    | some _ =>
    match value with
    | .dict entries => do
      let isolated ← (Dict.items entries).attach.mapM fun e =>
        match e.1.1 with
        | .other _ => throw { kind := .nonStringKey }
        | .text name => do
          let child ← inMember (.inl name) (compiledIsolationFailure e.1.2 (.wildcard false))
          pure (DictKey.text name, child)
      pure (.dict isolated)
    | .list elements => do
      let isolated ← elements.attach.zipIdx.mapM fun e =>
        inMember (.inr e.2) (compiledIsolationFailure e.1.1 (.wildcard false))
      pure (.list isolated)
    | scalar => pure scalar
  | .object fields =>
    match value.runtimeType with
    | none => throw { kind := .nonJson }
    | some actual =>
    let conjoined := fields.allOf.findSome? (compiledValidationFailure value)
    let anyMatched := fields.anyOf.filter fun b => (compiledValidationFailure value b).isNone
    let oneMatched := fields.oneOf.filter fun b => (compiledValidationFailure value b).isNone
    match keywordFailure fields value actual conjoined anyMatched.length oneMatched.length with
    | some failure => throw failure
    | none =>
    match value with
    | .dict entries =>
      match requiredFailure fields entries with
      | some failure => throw failure
      | none => do
        let isolated ← (Dict.items entries).attach.mapM fun e =>
          match e.1.1 with
          | .other _ => throw { kind := .nonStringKey }
          | .text name =>
            match fields.memberPlan name with
            | none => throw { suffix := [.inl name], kind := .additional }
            | some child => do
              let isolated ← inMember (.inl name) (compiledIsolationFailure e.1.2 child.1)
              pure (DictKey.text name, isolated)
        pure (.dict isolated)
    | .list elements => do
      let isolated ← elements.attach.zipIdx.mapM fun e =>
        inMember (.inr e.2) (compiledIsolationFailure e.1.1 fields.items)
      pure (.list isolated)
    | scalar => pure scalar
termination_by sizeOf value
decreasing_by
  · exact sizeOf_lt_dict e.2
  · exact sizeOf_lt_list e.1.2
  · exact sizeOf_lt_dict e.2
  · exact sizeOf_lt_list e.1.2

/-- The isolating plan fails as the plan does, and returns the copy of the value where that accepts. -/
def Isolates (value : PythonValue) (plan : CompiledValidationPlan) : Prop :=
  compiledIsolationFailure value plan = settle value.isolateJsonValue (compiledValidationFailure value plan)

/-- A member is isolated if its value is. -/
lemma Isolates.inMember {value : PythonValue} {plan : CompiledValidationPlan} (h : Isolates value plan)
    (segment : String ⊕ ℕ) :
    PythonValue.inMember segment (compiledIsolationFailure value plan) =
      settle value.isolateJsonValue ((compiledValidationFailure value plan).map (.under segment)) := by
  rw [h]
  cases compiledValidationFailure value plan <;> rfl

end Isolation

end PythonValue

end TradeFramework
