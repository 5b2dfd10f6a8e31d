import TradeFramework.Library.UniqueScan
import TradeFramework.Results.Cycle
import TradeFramework.Results.Frames

/-!
# Verifying a result archive in shards

Each byte range of a framed archive is verified by its own process, which writes an outcome and a
ledger of the identities it claimed. The parent reads the outcomes in order, merges the ledgers and
raises the earliest error. The reference is one pass over all cycles with one set of identities.
-/

namespace TradeFramework.Results

open Raising (raiseIf)
open Lines (slice lines Ended)
open UniqueScan (Ledger addLedger)

/-- `_CYCLE_INDEX_TOKEN`. -/
def cycleIndexToken : String := "__ENGINE_RESULT_CYCLE_INDEX__"

/-- `message.replace(_CYCLE_INDEX_TOKEN, str(index))`. -/
def replaceIndexToken (message : String) (index : ℕ) : String :=
  String.ofList (Substitution.replaceAll cycleIndexToken.toList (toString index).toList message.toList)

section Verifier

/-- `ResultCycleIdentityLedger`. -/
structure CycleIdentityLedger where
  identities : Ledger String := []
  localIndex : Option ℕ := none

/-- `select_cycle`. -/
def CycleIdentityLedger.selectCycle (ledger : CycleIdentityLedger) (localIndex : ℕ) :
    CycleIdentityLedger :=
  { ledger with localIndex := some localIndex }

/-- `claim`: a text that cannot be encoded raises, and a row that would break a constraint of the table is not
inserted. -/
def CycleIdentityLedger.claim (encodeText : TextEncoder) (ledger : CycleIdentityLedger) (value : String) :
    Except PyError Bool × CycleIdentityLedger :=
  match ledger.localIndex, encodeText value with
  | none, _ => (throw (.runtimeError "Result cycle identity ledger has no selected cycle."), ledger)
  | some _, .error e => (throw e, ledger)
  | some index, .ok () =>
    if ledger.identities.any fun e => e.1 = value ∨ e.2 = index then (pure false, ledger)
    else (pure true, { ledger with identities := ledger.identities ++ [(value, index)] })

/-- The local variables of `verify_specification`. -/
structure VerifierState where
  ledger : CycleIdentityLedger := {}
  validatedCount : ℕ := 0
  firstCycleId : Option String := none
  lastCycleId : Option String := none

inductive VerifierStatus
  | verified
  | rejected
deriving DecidableEq, Repr

/-- The outcome a verifier writes. -/
structure VerifierOutcome where
  status : VerifierStatus
  shardIndex : ℕ
  lineCount : ℕ
  validatedCount : ℕ
  firstCycleId : Option String
  lastCycleId : Option String
  errorLocalIndex : Option ℕ := none
  errorType : Option String := none
  errorMessage : Option String := none

variable (encodeText : TextEncoder) (validateCycleData : Json → Except PyError Unit)

/-- The cycle loop of `verify_specification`, with the exception that ends it. -/
def verifyCycles : List (Except PyError Json) → ℕ → VerifierState → VerifierState × Option PyError
  | [], _, s => (s, none)
  | .error e :: _, _, s => (s, some e)
  | .ok cycle :: rest, localIndex, s =>
    match requireCycle validateCycleData (CycleIdentityLedger.claim encodeText) cycle cycleIndexToken
      (s.ledger.selectCycle localIndex) with
    | (.error e, ledger) => ({ s with ledger := ledger }, some e)
    | (.ok cycleId, ledger) => verifyCycles rest (localIndex + 1) {
        ledger := ledger
        validatedCount := s.validatedCount + 1
        firstCycleId := s.firstCycleId <|> some cycleId
        lastCycleId := some cycleId }

variable (loads : Bytes → Except PyError Json)

/-- What a verifier leaves behind: its outcome and its ledger. -/
abbrev VerifierEvidence := VerifierOutcome × Ledger String

/-- `verify_specification`; an exception is the traceback of a process that failed. -/
def verifySpecification (file : Bytes) (shardIndex : ℕ) (range : ByteRange) :
    Except PyError VerifierEvidence := do
  raiseIf (maxResultVerificationShards ≤ shardIndex)
    (.valueError "Result verifier shardIndex is invalid.")
  let lineCount ← countFramedCycleLines file range.start range.stop
  let (s, raised) := verifyCycles encodeText validateCycleData
    (iterFramedCycleValues loads file range.start range.stop range.final) 0 {}
  let outcome : VerifierOutcome := {
    status := .verified, shardIndex := shardIndex, lineCount := lineCount
    validatedCount := s.validatedCount, firstCycleId := s.firstCycleId, lastCycleId := s.lastCycleId }
  match raised with
  | none => do
    raiseIf (s.validatedCount ≠ lineCount)
      (.runtimeError "Result verifier did not consume every physical cycle line.")
    pure (outcome, s.ledger.identities)
  | some (.valueError message) => pure ({ outcome with
      status := .rejected, errorLocalIndex := some s.validatedCount
      errorType := some "ValueError", errorMessage := some message }, s.ledger.identities)
  | some e => throw e

end Verifier

section Parent

/-- `_require_verifier_outcome`, for the outcome of one shard. -/
def requireVerifierOutcome (shardIndex : ℕ) (outcome : VerifierOutcome) : Except PyError Unit := do
  raiseIf (outcome.shardIndex ≠ shardIndex ∨ outcome.lineCount < 1 ∨
      outcome.lineCount < outcome.validatedCount)
    (.runtimeError "Result verifier emitted invalid cycle counts.")
  raiseIf (outcome.firstCycleId = some "" ∨ outcome.lastCycleId = some "")
    (.runtimeError "Result verifier emitted an invalid cycle boundary.")
  match outcome.status with
  | .verified =>
    raiseIf (outcome.validatedCount ≠ outcome.lineCount ∨ outcome.errorLocalIndex.isSome ∨
        outcome.errorType.isSome ∨ outcome.errorMessage.isSome ∨ outcome.validatedCount = 0 ∨
        outcome.firstCycleId = none ∨ outcome.lastCycleId = none)
      (.runtimeError "Result verifier success evidence is incomplete.")
  | .rejected =>
    raiseIf (outcome.errorLocalIndex.all (fun index => outcome.lineCount ≤ index) ∨
        outcome.errorType ≠ some "ValueError" ∨ outcome.errorMessage.all (fun message => message = ""))
      (.runtimeError "Result verifier rejection evidence is invalid.")

/-- `merge_cycle_identity_ledgers`: the position of the earliest duplicate between shards. -/
def mergeCycleIdentityLedgers (entries : List (Ledger String × ℕ)) : Option ℕ :=
  match entries.foldlM (fun identities e => addLedger identities e.1 e.2) [] with
  | .error position => some position
  | .ok _ => none

/-- How a verification fails: at a cycle, or because a verifier process failed. -/
inductive Failure
  | cycle (index : ℕ) (error : PyError)
  | process (error : PyError)
deriving DecidableEq, Repr

/-- `_raise_earliest_cycle_domain_error`. -/
def raiseEarliestCycleDomainError (entries : List (Ledger String × ℕ))
    (rejection : Option (ℕ × String)) : Except Failure Unit :=
  match mergeCycleIdentityLedgers entries, rejection with
  | some duplicate, some (index, message) =>
    if duplicate ≤ index then throw (.cycle duplicate identityError)
    else throw (.cycle index (.valueError message))
  | some duplicate, none => throw (.cycle duplicate identityError)
  | none, some (index, message) => throw (.cycle index (.valueError message))
  | none, none => pure ()

/-- What the cycles of an archive say about its metadata. -/
structure CycleSummary where
  cycleCount : ℕ := 0
  firstCycleId : Option String := none
  lastCycleId : Option String := none
deriving DecidableEq, Repr

/-- The local variables of the outcome loop of `verify_result_archive_in_runtimes`. -/
structure ParentState where
  summary : CycleSummary := {}
  ledgerEntries : List (Ledger String × ℕ) := []

variable (stderrText : PyError → String)

/-- The outcome loop of `verify_result_archive_in_runtimes`. -/
def readOutcomes : List (Except PyError VerifierEvidence) → ℕ → ParentState → Except Failure CycleSummary
  | [], _, s => do
    raiseEarliestCycleDomainError s.ledgerEntries none
    pure s.summary
  | .error e :: _, _, s => do
    raiseEarliestCycleDomainError s.ledgerEntries none
    throw (.process (.runtimeError (stderrText e)))
  | .ok (outcome, ledger) :: rest, shardIndex, s =>
    match requireVerifierOutcome shardIndex outcome with
    | .error e => do
      raiseEarliestCycleDomainError s.ledgerEntries none
      throw (.process e)
    | .ok () => do
      let baseIndex := s.summary.cycleCount
      let ledgerEntries := s.ledgerEntries ++ [(ledger, baseIndex)]
      match outcome.status, outcome.errorLocalIndex, outcome.errorMessage with
      | .rejected, some localIndex, some message =>
        let absoluteIndex := baseIndex + localIndex
        raiseEarliestCycleDomainError ledgerEntries
          (some (absoluteIndex, replaceIndexToken message absoluteIndex))
      | _, _, _ => pure ()
      let validated := outcome.validatedCount ≠ 0
      readOutcomes rest (shardIndex + 1) {
        summary := {
          cycleCount := baseIndex + outcome.lineCount
          firstCycleId := if validated then s.summary.firstCycleId <|> outcome.firstCycleId
            else s.summary.firstCycleId
          lastCycleId := if validated then outcome.lastCycleId else s.summary.lastCycleId }
        ledgerEntries := ledgerEntries }

variable (encodeText : TextEncoder) (validateCycleData : Json → Except PyError Unit)
variable (loads : Bytes → Except PyError Json)

/-- The cycle part of `verify_result_archive_in_runtimes`. -/
def verifyResultArchiveInRuntimes (file : Bytes) (plan : FramePlan) : Except Failure CycleSummary :=
  readOutcomes stderrText (plan.ranges.zipIdx.map fun r =>
    verifySpecification encodeText validateCycleData loads file r.2 r.1) 0 {}

end Parent

section Sequential

variable (validateCycleData : Json → Except PyError Unit) (loads : Bytes → Except PyError Json)

/-- A shared set of identities, which holds any text. -/
def claimShared (identities : List String) (value : String) : Except PyError Bool × List String :=
  if value ∈ identities then (pure false, identities) else (pure true, identities ++ [value])

/-- Every cycle in order through `require_cycle`, with one set of identities. -/
def requireCycles : List (Except PyError Json) → List String → CycleSummary → Except Failure CycleSummary
  | [], _, s => pure s
  | .error e :: _, _, s => throw (.cycle s.cycleCount e)
  | .ok cycle :: rest, identities, s =>
    match requireCycle validateCycleData claimShared cycle (toString s.cycleCount) identities with
    | (.error e, _) => throw (.cycle s.cycleCount e)
    | (.ok cycleId, identities) => requireCycles rest identities {
        cycleCount := s.cycleCount + 1
        firstCycleId := s.firstCycleId <|> some cycleId
        lastCycleId := some cycleId }

/-- The reference: all cycle lines of the archive, read and validated in one pass. -/
def verifySequentially (file : Bytes) (plan : FramePlan) : Except Failure CycleSummary :=
  requireCycles validateCycleData
    (if plan.ranges.isEmpty then []
      else iterFramedCycleValues loads file plan.cycleStart plan.metadataStart true) [] {}

end Sequential

end TradeFramework.Results
