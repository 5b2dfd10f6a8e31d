import TradeFramework.Data.CompiledValidation
import TradeFramework.Data.DataPath
import TradeFramework.Data.PythonEqual
import TradeFramework.Jobs.Request
import TradeFramework.Library.Substitution

/-!
# Result cycles

`require_cycle` checks one cycle of a result and claims its identity. The index it names in its
messages is a text: the place of the cycle, or a placeholder that is replaced by it later.
-/

namespace TradeFramework.Results

open Raising (raiseIf report)

/-- What encoding a text for a table raises. A Python text may hold a lone surrogate, which has no encoding and is
no character of a text here: which texts stand for such ones is left open. -/
abbrev TextEncoder := String → Except PyError Unit

section Cycle

/-- The fields of a cycle. -/
def cycleFields : List String := ["schemaVersion", "cycleId", "decisionTime", "data"]

/-- `require_exact_fields`. -/
def requireExactFields (value : Json) (allowed required : List String) (label : String) :
    Except PyError (List (String × Json)) :=
  (Jobs.requireExactFields value allowed required label).mapError fun e => .valueError e.text

lemma requireExactFields_eq_ok {value : Json} {allowed required : List String} {label : String}
    {fields : List (String × Json)} (h : requireExactFields value allowed required label = .ok fields) :
    value = .obj fields := by
  unfold requireExactFields at h
  cases hrun : Jobs.requireExactFields value allowed required label with
  | error e =>
    rw [hrun] at h
    cases h
  | ok found =>
    rw [hrun] at h
    have hfound : found = fields := Except.ok.inj h
    cases value with
    | obj d =>
      simp only [Jobs.requireExactFields, Raising.bind_eq_ok, Raising.pure_eq_ok] at hrun
      obtain ⟨-, -, -, -, rfl⟩ := hrun
      rw [hfound]
    | _ => cases hrun

/-- `cycle[name]`, after the fields have been checked. -/
def field (fields : List (String × Json)) (name : String) : Json := (fields.lookup name).getD .null

/-- A text that is not empty. -/
def textOf : Json → Option String
  | .str text => if text = "" then none else some text
  | _ => none

def identityError : PyError := .valueError "Result cycleId values must be unique non-empty strings."

/-- The checks of `require_cycle` up to the claim of the identity. -/
def cycleIdentity (cycle : Json) (index : String) : Except PyError String := do
  let fields ← requireExactFields cycle cycleFields cycleFields s!"Result cycles[{index}]"
  raiseIf (pythonEqual (field fields "schemaVersion") (.int 3) = false)
    (.valueError s!"Result cycles[{index}] schemaVersion 3 is required.")
  (textOf (field fields "cycleId")).elim (throw identityError) pure

/-- The members of a cycle. -/
def membersOf : Json → List (String × Json)
  | .obj fields => fields
  | _ => []

variable (validateCycleData : Json → Except PyError Unit)

/-- The checks of `require_cycle` after the claim of the identity. -/
def cycleContent (cycle : Json) (index : String) : Except PyError Unit := do
  raiseIf (textOf (field (membersOf cycle) "decisionTime") = none)
    (.valueError s!"Result cycles[{index}].decisionTime is required.")
  validateCycleData (field (membersOf cycle) "data")

variable {σ : Type}

/-- `require_cycle`; the identities claimed so far stay claimed when it raises. Where the store of identities has
to encode a text, claiming a text with a lone surrogate raises. -/
def requireCycle (claim : σ → String → Except PyError Bool × σ) (cycle : Json) (index : String) (cycleIds : σ) :
    Except PyError String × σ :=
  match cycleIdentity cycle index with
  | .error e => (.error e, cycleIds)
  | .ok cycleId =>
    let claimed := claim cycleIds cycleId
    let checked := do
      raiseIf ((← claimed.1) = false) identityError
      cycleContent validateCycleData cycle index
      pure cycleId
    (checked, claimed.2)

end Cycle

section Data

/-- The plans of the roots and the required paths of `compile_data_json_validator`. -/
structure DataJsonValidator where
  rootPlans : List (String × CompiledValidationPlan)
  requiredPlan : List (String × DataPath)

/-- `compile_data_json_validator` of expanded contracts. -/
def compileDataJsonValidator (expanded : List (String × Schema)) (requiredPaths : List String) :
    Except PyError DataJsonValidator := do
  let paths ← (Dict.items expanded).mapM fun e => splitDataPath e.1
  let roots := ((Dict.items expanded).zip paths).filter fun e => e.2.rest.isEmpty
  let required ← requiredPaths.mapM splitDataPath
  pure {
    rootPlans := roots.map fun e => (e.1.1, compileValidationPlan e.1.2 false)
    requiredPlan := requiredPaths.zip required }

/-- The member of a Data Dict against the plan of its root. -/
def DataJsonValidator.validateRoot (validator : DataJsonValidator) (e : String × Json) :
    Except PyError Unit :=
  match validator.rootPlans.lookup e.1 with
  | none => throw (.valueError s!"DataKey '{e.1}' is not declared by its contract.")
  | some plan => report (ValidationFailure.error e.1) (compiledValidationFailure e.2 plan)

/-- `require_data_segments`. -/
def requireDataSegments (data : Json) (path : String × DataPath) : Except PyError Unit :=
  raiseIf (getDataSegments data path.2.parts).isNone
    (.valueError s!"Required DataKey path '{path.1}' is missing from the data JSON.")

/-- The function that `compile_data_json_validator` returns. -/
def DataJsonValidator.validate (validator : DataJsonValidator) (data : Json) : Except PyError Unit :=
  match data with
  | .obj members => do
    (Dict.items members).forM validator.validateRoot
    validator.requiredPlan.forM (requireDataSegments data)
  | _ => throw (.valueError "Pipeline data must be a JSON object.")

end Data

end TradeFramework.Results
