import TradeFramework.Data.Json
import TradeFramework.Library.Raising
import TradeFramework.Library.Table
import Mathlib.Data.Rat.Floor

/-!
# The mining database

The tables of `mining-state.sqlite` that the job and refill operations read and write. A
transaction either returns the next state or raises, in which case SQLite rolls it back.
Times are exact rationals, and one transaction reads the clock once.
-/

namespace TradeFramework.Mining

section Rows

/-- The `status` of a job. -/
inductive JobStatus
  | queued | leased | fetching | committing | retryWait | blocked | paused | succeeded
deriving DecidableEq, Repr

/-- `ACTIVE_STATUSES`. -/
def JobStatus.isActive : JobStatus → Bool
  | leased | fetching | committing => true
  | _ => false

inductive RefillStatus
  | queued | leased | succeeded | failed
deriving DecidableEq, Repr

inductive GapStatus
  | «open» | backfillQueued | resolved
deriving DecidableEq, Repr

/-- The lane of a page: the schedule of the job, or the repair of a gap. -/
inductive Lane
  | main | refill
deriving DecidableEq, Repr

/-- A row of `jobs`. The JSON columns hold values, not their canonical text. -/
structure JobRow where
  jobId : String
  name : String
  provider : String
  providerConfig : Json
  scheduleSeconds : ℤ
  overlapRecords : ℤ
  continuityStep : Option ℚ
  status : JobStatus
  cursor : Option Json
  activeCursor : Option Json := none
  activeLane : Option Lane := none
  activeRefillId : Option String := none
  nextRunAt : ℚ
  leaseOwner : Option String := none
  leaseExpiresAt : Option ℚ := none
  heartbeatAt : Option ℚ := none
  pauseRequested : Bool := false
  attemptCount : ℕ := 0
  consecutiveFailures : ℕ := 0
  lastSuccessAt : Option String := none
  lastError : Option String := none
  blockedReason : Option String := none
  createdAt : String
  updatedAt : String
deriving Repr

/-- A row of `refill_tasks`. -/
structure RefillRow where
  refillId : String
  jobId : String
  gapId : Option String
  cursor : Json
  status : RefillStatus
  leaseOwner : Option String := none
  createdAt : String
  updatedAt : String
  lastError : Option String := none
deriving Repr

/-- A row of `gaps`. -/
structure GapRow where
  gapId : String
  jobId : String
  previousEventTime : ℚ
  nextEventTime : ℚ
  missingStart : ℚ
  missingEnd : ℚ
  estimatedMissing : ℤ
  status : GapStatus
  firstDetectedAt : String
  lastCheckedAt : String
  resolvedAt : Option String := none
deriving Repr

/-- A row of `pages`. -/
structure PageRow where
  pageId : String
  jobId : String
  lane : Lane
  refillId : Option String
  requestCursor : Json
  nextCursor : Option Json
  rawSha256 : String
  rawBytes : ℕ
  recordCount : ℕ
  responseStatus : ℤ
  responseHeaders : Json
  source : String
  committedAt : String
deriving Repr

/-- A row of `record_versions`. -/
structure VersionRow where
  jobId : String
  identityHash : String
  revision : ℕ
  identity : Json
  eventTime : Json
  eventTimeSort : Option ℚ
  recordHash : String
  isFinal : Bool
  lineNumber : ℕ
  pageId : String
  observedAt : String
  isCurrent : Bool
deriving Repr

/-- A row of `record_observations`. -/
structure ObservationRow where
  pageId : String
  lineNumber : ℕ
  jobId : String
  identityHash : String
  recordHash : String
  observedAt : String
deriving Repr

/-- A row of `events`, without its generated number. -/
structure EventRow where
  eventType : String
  jobId : String
  payload : Json
  createdAt : String
deriving Repr

end Rows

/-- The database. -/
structure MiningState where
  jobs : List JobRow := []
  refills : List RefillRow := []
  gaps : List GapRow := []
  pages : List PageRow := []
  versions : List VersionRow := []
  observations : List ObservationRow := []
  events : List EventRow := []
  metrics : List (String × ℤ) := []

/-- A reading of `time.time()` and `utc_now()`. -/
structure Clock where
  now : ℚ
  text : String

/-- `sqlite3.IntegrityError`, which rolls the transaction back. -/
def integrityError (constraint : String) : PyError :=
  .runtimeError s!"UNIQUE constraint failed: {constraint}"

namespace MiningState

variable (s : MiningState)

/-- `SELECT * FROM jobs WHERE job_id=?`. -/
def job? (jobId : String) : Option JobRow := s.jobs.find? fun j => j.jobId == jobId

/-- `SELECT * FROM jobs WHERE job_id=? AND lease_owner=?`. -/
def ownedJob? (jobId owner : String) : Option JobRow :=
  s.jobs.find? fun j => j.jobId == jobId && j.leaseOwner == some owner

def updateJobs (hit : JobRow → Bool) (change : JobRow → JobRow) : MiningState :=
  { s with jobs := Table.update hit change s.jobs }

def updateRefills (hit : RefillRow → Bool) (change : RefillRow → RefillRow) : MiningState :=
  { s with refills := Table.update hit change s.refills }

def updateGaps (hit : GapRow → Bool) (change : GapRow → GapRow) : MiningState :=
  { s with gaps := Table.update hit change s.gaps }

/-- `_event`. -/
def event (clock : Clock) (eventType jobId : String) (payload : List (String × Json)) : MiningState :=
  { s with events := s.events ++ [⟨eventType, jobId, .obj payload, clock.text⟩] }

/-- `_metric`. -/
def metric (key : String) (amount : ℤ) : MiningState :=
  { s with metrics := Dict.set s.metrics key ((s.metrics.lookup key).getD 0 + amount) }

/-- The refills of a job with a status. -/
def refillsOf (jobId : String) (status : RefillStatus) (r : RefillRow) : Bool :=
  r.jobId == jobId && r.status == status

section Frame

variable (hit : JobRow → Bool) (change : JobRow → JobRow) (hitRefill : RefillRow → Bool)
  (changeRefill : RefillRow → RefillRow) (clock : Clock) (text jobId : String)
  (payload : List (String × Json)) (amount : ℤ)

@[simp] lemma updateJobs_jobs : (s.updateJobs hit change).jobs = Table.update hit change s.jobs := rfl
@[simp] lemma updateJobs_refills : (s.updateJobs hit change).refills = s.refills := rfl
@[simp] lemma updateRefills_jobs : (s.updateRefills hitRefill changeRefill).jobs = s.jobs := rfl
@[simp] lemma updateRefills_refills : (s.updateRefills hitRefill changeRefill).refills =
    Table.update hitRefill changeRefill s.refills := rfl
@[simp] lemma event_jobs : (s.event clock text jobId payload).jobs = s.jobs := rfl
@[simp] lemma event_refills : (s.event clock text jobId payload).refills = s.refills := rfl
@[simp] lemma metric_jobs : (s.metric text amount).jobs = s.jobs := rfl
@[simp] lemma metric_refills : (s.metric text amount).refills = s.refills := rfl

end Frame

end MiningState

end TradeFramework.Mining
