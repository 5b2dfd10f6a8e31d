import TradeFramework.Jobs.Request
import TradeFramework.Library.Table
import Mathlib.Logic.Relation
import Mathlib.Algebra.Group.Int.Defs

/-!
# The job repository

The rows of `backtest_jobs` and the transactions of `BacktestJobRepository`. The columns are NOT NULL
and of one type, so the type checks of the row check hold by construction.
-/

namespace TradeFramework.Jobs

open Raising (raiseIf)

section Rows

inductive JobStatus
  | queued | running | completed | failed
deriving DecidableEq, Repr

namespace JobStatus

/-- `ACTIVE_STATUSES`. -/
def isActive : JobStatus → Bool
  | queued | running => true
  | completed | failed => false

def name : JobStatus → String
  | queued => "queued"
  | running => "running"
  | completed => "completed"
  | failed => "failed"

/-- One step of the lifecycle. -/
inductive Next : JobStatus → JobStatus → Prop
  | start : Next queued running
  | refuse : Next queued failed
  | complete : Next running completed
  | fail : Next running failed

end JobStatus

/-- A row of `backtest_jobs`. -/
structure JobRow where
  jobId : String
  status : JobStatus
  phase : String
  pipelineId : String
  datasetId : String
  request : Json
  submittedAt : String
  startedAt : String
  completedAt : String
  totalCycles : ℤ
  completedCycles : ℤ
  backtestId : String
  errorText : String
  snapshotHash : String

/-- What `_public_job` returns. -/
structure PublicJob where
  jobId : String
  status : JobStatus
  phase : String
  pipelineId : String
  datasetId : String
  submittedAt : String
  startedAt : String
  completedAt : String
  totalCycles : ℤ
  completedCycles : ℤ
  progress : ℚ
  backtestId : String
  error : String
  snapshotHash : String

/-- The fields a status asks for. -/
def JobRow.lifecycleInvalid (row : JobRow) : Prop :=
  match row.status with
  | .queued => row.phase ≠ "queued" ∨ row.startedAt ≠ "" ∨ row.completedAt ≠ "" ∨
      row.errorText ≠ "" ∨ row.totalCycles ≠ 0 ∨ row.completedCycles ≠ 0
  | .running => row.startedAt = "" ∨ row.completedAt ≠ "" ∨ row.errorText ≠ ""
  | .completed => row.phase ≠ "completed" ∨ row.startedAt = "" ∨ row.completedAt = "" ∨
      row.errorText ≠ "" ∨ row.completedCycles ≠ row.totalCycles
  | .failed => (row.phase ≠ "failed" ∧ row.phase ≠ "interrupted") ∨ row.completedAt = "" ∨
      row.errorText = ""

instance (row : JobRow) : Decidable row.lifecycleInvalid := by
  unfold JobRow.lifecycleInvalid
  cases row.status <;> infer_instance

/-- The label of a status in the messages of the row check. -/
def JobStatus.label : JobStatus → String
  | queued => "Queued"
  | running => "Running"
  | completed => "Completed"
  | failed => "Failed"

/-- `_public_job`. -/
def publicJob (row : JobRow) : Except Raised PublicJob := do
  raiseIf (row.totalCycles < 0 ∨ row.completedCycles < 0 ∨
      (0 < row.totalCycles ∧ row.totalCycles < row.completedCycles))
    (.valueError "Backtest Job index contains invalid cycle counts.")
  raiseIf (row.jobId = "" ∨ row.pipelineId = "" ∨ row.datasetId = "" ∨ row.submittedAt = "")
    (.valueError "Backtest Job index identity and submission time are required.")
  raiseIf (!isSha256Digest row.snapshotHash) (.valueError "Backtest Job index snapshot hash is invalid.")
  raiseIf row.lifecycleInvalid
    (.valueError s!"{row.status.label} Backtest Job index lifecycle state is invalid.")
  pure {
    jobId := row.jobId, status := row.status, phase := row.phase, pipelineId := row.pipelineId
    datasetId := row.datasetId, submittedAt := row.submittedAt, startedAt := row.startedAt
    completedAt := row.completedAt, totalCycles := row.totalCycles
    completedCycles := row.completedCycles
    progress := if row.status = .completed then 1
      else if row.totalCycles ≠ 0 then row.completedCycles / row.totalCycles else 0
    backtestId := row.backtestId, error := row.errorText, snapshotHash := row.snapshotHash }

end Rows

section Transactions

variable (rows : List JobRow)

def hasId (jobId : String) (row : JobRow) : Bool := row.jobId == jobId

/-- `WHERE job_id = ? AND status = ?`. -/
def hasStatus (jobId : String) (status : JobStatus) (row : JobRow) : Bool :=
  row.jobId == jobId && row.status == status

/-- `get`. -/
def get (jobId : String) : Except Raised PublicJob :=
  match rows.find? (hasId jobId) with
  | none => throw (.valueError s!"Unknown Backtest job: {jobId}")
  | some row => publicJob row

/-- An integer column holds 64 bits. -/
def fitsInteger (n : ℤ) : Prop := -2 ^ 63 ≤ n ∧ n < 2 ^ 63

instance (n : ℤ) : Decidable (fitsInteger n) := inferInstanceAs (Decidable (_ ∧ _))

def integerOverflow : Raised := .overflowError "Python int too large to convert to SQLite INTEGER"

/-- The arguments of `insert_queued`. -/
structure Insertion where
  jobId : String
  backtestId : String
  pipelineId : String
  datasetId : String
  request : Json
  submittedAt : String
  snapshotHash : Json

/-- The row of an insertion whose snapshot hash is a text. -/
def Insertion.row (insertion : Insertion) (snapshotHash : String) : JobRow where
  jobId := insertion.jobId
  status := .queued
  phase := "queued"
  pipelineId := insertion.pipelineId
  datasetId := insertion.datasetId
  request := insertion.request
  submittedAt := insertion.submittedAt
  startedAt := ""
  completedAt := ""
  totalCycles := 0
  completedCycles := 0
  backtestId := insertion.backtestId
  errorText := ""
  snapshotHash := snapshotHash

variable (evidenceDigest : Json → Sha256Digest)

/-- `insert_queued`, with the primary key and the unique Backtest identity of the table. -/
def insertQueued (insertion : Insertion) : Except Raised (List JobRow) := do
  raiseIf (stripText insertion.backtestId.toList = [])
    (.valueError "Backtest Job backtest_id must be a non-empty string.")
  requireRequestEvidence evidenceDigest insertion.request insertion.pipelineId insertion.datasetId
    insertion.snapshotHash
  raiseIf (rows.any (hasId insertion.jobId)) (.integrityError "UNIQUE constraint failed: backtest_jobs.job_id")
  raiseIf (rows.any fun row => row.backtestId == insertion.backtestId)
    (.integrityError "UNIQUE constraint failed: backtest_jobs.backtest_id")
  match insertion.snapshotHash with
  | .str text => pure (rows ++ [insertion.row text])
  | _ => throw (.typeError "type is not supported")

/-- `mark_running`. -/
def markRunning (jobId startedAt : String) : Except Raised (List JobRow) := do
  raiseIf (Table.changed (hasStatus jobId .queued) rows ≠ 1)
    (.runtimeError "Backtest Job did not start from queued state.")
  pure (Table.update (hasStatus jobId .queued) (fun row => { row with
    status := .running, phase := "preparing", startedAt := startedAt, errorText := "" }) rows)

/-- `record_progress`. -/
def recordProgress (jobId phase : String) (totalCycles completedCycles : ℤ) :
    Except Raised (List JobRow) := do
  raiseIf (¬(fitsInteger totalCycles ∧ fitsInteger completedCycles)) integerOverflow
  raiseIf (Table.changed (hasStatus jobId .running) rows ≠ 1)
    (.runtimeError "Backtest Job progress state changed concurrently.")
  pure (Table.update (hasStatus jobId .running) (fun row => { row with
    phase := phase, totalCycles := totalCycles, completedCycles := completedCycles }) rows)

/-- The update of `mark_completed`. -/
def complete (completedAt : String) (cycleCount : ℤ) (row : JobRow) : JobRow :=
  { row with
    status := .completed, phase := "completed", completedAt := completedAt
    totalCycles := cycleCount, completedCycles := cycleCount, errorText := "" }

/-- `mark_completed`. -/
def markCompleted (jobId completedAt : String) (cycleCount : ℤ) : Except Raised (Bool × List JobRow) :=
  match rows.find? (hasId jobId) with
  | none => throw (.valueError s!"Unknown Backtest Job: {jobId}")
  | some row =>
    if row.status = .completed then pure (false, rows)
    else if row.status ≠ .running then
      throw (.valueError s!"Backtest Job '{jobId}' cannot complete from status '{row.status.name}'.")
    else do
      raiseIf (¬fitsInteger cycleCount) integerOverflow
      raiseIf (Table.changed (hasStatus jobId .running) rows ≠ 1)
        (.runtimeError "Backtest Job completion state changed concurrently.")
      pure (true, Table.update (hasStatus jobId .running) (complete completedAt cycleCount) rows)

/-- The update of every statement that ends a job without a result. -/
def fail (phase completedAt error : String) (row : JobRow) : JobRow :=
  { row with status := .failed, phase := phase, completedAt := completedAt, errorText := error }

/-- `fail_active`. -/
def failActive (jobId phase completedAt error : String) : Bool × List JobRow :=
  let active := fun row : JobRow => hasId jobId row && row.status.isActive
  (Table.changed active rows == 1, Table.update active
    (fail phase completedAt (String.ofList (error.toList.take 4000))) rows)

/-- `interrupt_active`. -/
def interruptActive (completedAt : String) : List JobRow :=
  Table.update (fun row => row.status.isActive)
    (fail "interrupted" completedAt "Engine stopped before this Backtest job completed.") rows

/-- `interrupt_queued`. -/
def interruptQueued (completedAt : String) : List JobRow :=
  Table.update (fun row => row.status == .queued)
    (fail "interrupted" completedAt "Engine stopped before this Backtest job started.") rows

/-- `ORDER BY submitted_at, job_id`. -/
def submittedBefore (a b : JobRow) : Prop :=
  a.submittedAt < b.submittedAt ∨ (a.submittedAt = b.submittedAt ∧ a.jobId ≤ b.jobId)

instance : DecidableRel submittedBefore := fun _ _ => inferInstanceAs (Decidable (_ ∨ _))

/-- `active_references`. -/
def activeReferences : List (String × String × JobStatus) :=
  ((rows.filter fun row => row.status.isActive).insertionSort submittedBefore).map fun row =>
    (row.jobId, row.backtestId, row.status)

/-- `active_request_for_job`. -/
def activeRequestForJob (jobId backtestId : String) : Except Raised (Option Json) :=
  match rows.find? fun row => hasId jobId row && row.backtestId == backtestId && row.status.isActive with
  | none => pure none
  | some row => do
    requireRequestEvidence evidenceDigest row.request row.pipelineId row.datasetId (.str row.snapshotHash)
    pure (some row.request)

end Transactions

end TradeFramework.Jobs
