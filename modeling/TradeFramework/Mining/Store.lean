import TradeFramework.Data.DataPath
import TradeFramework.Library.Transitions
import TradeFramework.Mining.Pages

/-!
# The mining store

The transactions of `MiningStore` that the API and the workers call. `MiningCall` is one call
with its arguments; a run is any sequence of calls, each of which commits or is rolled back.
-/

namespace TradeFramework.Mining

open Raising (raiseIf)

/-- `MiningResourceNotFound`. -/
def jobNotFound (jobId : String) : PyError := .valueError s!"Mining job does not exist: {jobId}"

section Control

/-- The arguments of `create_job`. -/
structure JobRequest where
  jobId : String
  name : String
  provider : String
  providerConfig : Json
  initialCursor : Json
  scheduleSeconds : ℤ
  overlapRecords : ℤ
  continuityStep : Option ℚ

/-- A full match of `SAFE_ID`. -/
def isSafeId (jobId : String) : Bool :=
  let letter := fun c : Char => ('a' ≤ c && c ≤ 'z') || ('0' ≤ c && c ≤ '9')
  3 ≤ jobId.length && jobId.length ≤ 80 && (jobId.toList.head?.any letter) &&
    jobId.toList.all fun c => letter c || c == '-'

/-- The job row of a request. -/
def JobRequest.row (request : JobRequest) (name : String) (clock : Clock) : JobRow where
  jobId := request.jobId
  name := name
  provider := request.provider
  providerConfig := request.providerConfig
  scheduleSeconds := request.scheduleSeconds
  overlapRecords := request.overlapRecords
  continuityStep := request.continuityStep
  status := .queued
  cursor := some request.initialCursor
  nextRunAt := clock.now
  createdAt := clock.text
  updatedAt := clock.text

/-- `create_job`. -/
def createJob (request : JobRequest) (clock : Clock) (s : MiningState) :
    Except PyError MiningState := do
  raiseIf (!isSafeId request.jobId)
    (.valueError "Mining jobId must be 3-80 lowercase letters, digits, or hyphens.")
  let name := String.ofList (stripText request.name.toList)
  raiseIf (name = "" ∨ 160 < name.length)
    (.valueError "Mining job name must contain 1-160 characters.")
  raiseIf (¬(1 ≤ request.provider.length ∧ request.provider.length ≤ 80))
    (.valueError "Mining provider ID must be a 1-80 character string.")
  raiseIf (¬(1 ≤ request.scheduleSeconds ∧ request.scheduleSeconds ≤ 31536000))
    (.valueError "Mining scheduleSeconds must be between 1 and 31536000.")
  raiseIf (¬(0 ≤ request.overlapRecords ∧ request.overlapRecords ≤ 1000000))
    (.valueError "Mining overlapRecords must be between 0 and 1000000.")
  raiseIf (request.continuityStep.any fun step => decide (¬(0 < step ∧ step ≤ 10 ^ 15)))
    (.valueError "Mining continuityStep must be finite and between 0 and 1e15.")
  raiseIf (s.job? request.jobId).isSome (.valueError s!"Mining job already exists: {request.jobId}")
  let inserted := { s with jobs := s.jobs ++ [request.row name clock] }
  pure (inserted.event clock "job.created" request.jobId [("provider", .str request.provider)])

variable (jobId : String) (clock : Clock) (s : MiningState)

/-- The columns every statement that gives a lease up clears. -/
def JobRow.withoutLease (j : JobRow) : JobRow :=
  { j with leaseOwner := none, leaseExpiresAt := none, heartbeatAt := none }

/-- The columns of the fetch in flight. -/
def JobRow.withoutFetch (j : JobRow) : JobRow :=
  { j with activeCursor := none, activeLane := none, activeRefillId := none }

def hasId (j : JobRow) : Bool := j.jobId == jobId

/-- `pause_job`. -/
def pauseJob : Except PyError MiningState :=
  match s.job? jobId with
  | none => throw (jobNotFound jobId)
  | some row =>
    let updated := if row.status.isActive then
        s.updateJobs (hasId jobId) fun j => { j with pauseRequested := true, updatedAt := clock.text }
      else s.updateJobs (hasId jobId) fun j => { j.withoutLease with
        status := .paused, pauseRequested := false, nextRunAt := clock.now, updatedAt := clock.text }
    pure (updated.event clock "job.pause-requested" jobId [])

/-- `resume_job`. -/
def resumeJob : Except PyError MiningState := do
  let updated := s.updateJobs (hasId jobId) fun j => { j.withoutLease with
    status := .queued, pauseRequested := false, nextRunAt := clock.now, blockedReason := none
    lastError := none, updatedAt := clock.text }
  raiseIf (Table.changed (hasId jobId) s.jobs = 0) (jobNotFound jobId)
  pure (updated.event clock "job.resumed" jobId [])

/-- `run_now`. -/
def runNow : Except PyError MiningState :=
  match s.job? jobId with
  | none => throw (jobNotFound jobId)
  | some row =>
    if row.status.isActive then pure s
    else if row.status = .paused then
      throw (.valueError "Resume the paused mining job before running it.")
    else
      let updated := s.updateJobs (hasId jobId) fun j => { j with
        status := .queued, nextRunAt := clock.now, blockedReason := none, lastError := none
        updatedAt := clock.text }
      pure (updated.event clock "job.run-now" jobId [])

end Control

section Leases

variable (clock : Clock) (s : MiningState)

/-- The leases `recover_expired_leases` takes back. -/
def isExpired (now : ℚ) (j : JobRow) : Bool :=
  j.status.isActive && match j.leaseExpiresAt with
    | none => true
    | some expiry => decide (expiry < now)

/-- One row of `recover_expired_leases`. -/
def recoverLease (s : MiningState) (row : JobRow) : MiningState :=
  let jobs := s.updateJobs (hasId row.jobId) fun j => { j.withoutLease.withoutFetch with
    status := if row.pauseRequested then .paused else .retryWait, nextRunAt := clock.now
    pauseRequested := false, lastError := some "Worker lease expired; work was recovered."
    updatedAt := clock.text }
  let refills := jobs.updateRefills (MiningState.refillsOf row.jobId .leased) fun r => { r with
    status := .queued, leaseOwner := none, updatedAt := clock.text }
  refills.event clock "lease.recovered" row.jobId []

/-- `recover_expired_leases`. -/
def recoverExpiredLeases : MiningState :=
  let rows := s.jobs.filter (isExpired clock.now)
  let recovered := rows.foldl (recoverLease clock) s
  if rows = [] then recovered else recovered.metric "lease_recoveries" rows.length

/-- The jobs `claim_next` selects from. -/
def isDue (now : ℚ) (j : JobRow) : Bool :=
  (j.status == .queued || j.status == .retryWait || j.status == .succeeded) &&
    decide (j.nextRunAt ≤ now) && !j.pauseRequested

/-- `ORDER BY next_run_at,created_at`. -/
def runsBefore (a b : JobRow) : Bool :=
  decide (a.nextRunAt < b.nextRunAt) || (decide (a.nextRunAt = b.nextRunAt) &&
    decide (a.createdAt < b.createdAt))

/-- The first of some jobs in the order of their schedule. -/
def earliest : List JobRow → Option JobRow
  | [] => none
  | j :: rest => some (rest.foldl (fun best k => if runsBefore k best then k else best) j)

/-- `claim_next` on a job whose provider the worker does not admit. -/
def blockUnadmitted (row : JobRow) : MiningState :=
  let reason := s!"Mining provider is not enabled for worker admission: {row.provider}"
  let jobs := s.updateJobs (hasId row.jobId) fun j => { j.withoutLease.withoutFetch with
    status := .blocked, blockedReason := some reason, lastError := some reason
    updatedAt := clock.text }
  let refills := jobs.updateRefills (MiningState.refillsOf row.jobId .queued) fun r => { r with
    status := .failed, leaseOwner := none, lastError := some reason, updatedAt := clock.text }
  (refills.event clock "job.blocked" row.jobId [("reason", .str reason)]).metric "blocked_failures" 1

lemma mem_of_earliest {jobs : List JobRow} {row : JobRow} (h : earliest jobs = some row) :
    row ∈ jobs := by
  cases jobs with
  | nil => cases h
  | cons j rest =>
    have hfold : ∀ (rest : List JobRow) (best : JobRow),
        rest.foldl (fun best k => if runsBefore k best then k else best) best ∈ best :: rest := by
      intro rest
      induction rest with
      | nil => simp
      | cons k rest ih =>
        intro best
        rw [List.foldl_cons]
        have hmem := ih (if runsBefore k best then k else best)
        split_ifs at hmem ⊢ <;> simp only [List.mem_cons] at hmem ⊢ <;> tauto
    cases h
    exact hfold rest j

/-- A blocked job is no longer due. -/
lemma due_blockUnadmitted_lt {row : JobRow} (h : earliest (s.jobs.filter (isDue clock.now)) = some row) :
    ((blockUnadmitted clock s row).jobs.filter (isDue clock.now)).length <
      (s.jobs.filter (isDue clock.now)).length := by
  obtain ⟨hmem, hdue⟩ := List.mem_filter.mp (mem_of_earliest h)
  rw [← List.countP_eq_length_filter, ← List.countP_eq_length_filter]
  refine Table.countP_update_lt ?_ hmem ?_ hdue
  · intro j _
    rfl
  · simp [hasId]

/-- The loop of `claim_next`: the job to lease, after the jobs it blocks. -/
def admitNext (allowed : List String) (s : MiningState) : Option JobRow × MiningState :=
  match _hrow : earliest (s.jobs.filter (isDue clock.now)) with
  | none => (none, s)
  | some row =>
    if row.provider ∈ allowed then (some row, s) else admitNext allowed (blockUnadmitted clock s row)
termination_by (s.jobs.filter (isDue clock.now)).length
decreasing_by exact due_blockUnadmitted_lt clock s _hrow

/-- The oldest queued refill of a job. -/
def nextRefill (jobId : String) : Option RefillRow :=
  match s.refills.filter (MiningState.refillsOf jobId .queued) with
  | [] => none
  | r :: rest => some (rest.foldl (fun best k => if k.createdAt < best.createdAt then k else best) r)

/-- The lease `claim_next` takes out. -/
def leaseJob (owner : String) (leaseSeconds : ℚ) (row : JobRow) : MiningState :=
  let leased := s.updateJobs (hasId row.jobId) fun j => { j.withoutFetch with
    status := .leased, leaseOwner := some owner, leaseExpiresAt := some (clock.now + leaseSeconds)
    heartbeatAt := some clock.now, attemptCount := row.attemptCount + 1, updatedAt := clock.text }
  let held := match nextRefill leased row.jobId with
    | none => leased
    | some refill => leased.updateRefills (fun r => r.refillId == refill.refillId) fun r => { r with
        status := .leased, leaseOwner := some owner, updatedAt := clock.text }
  held.event clock "job.leased" row.jobId
    [("owner", .str owner), ("attempt", .int (row.attemptCount + 1))]

/-- `claim_next`: the claimed job with its refill, and the next state. -/
def claimNext (owner : String) (leaseSeconds : ℚ) (allowed : List String) :
    Option (String × Option RefillRow) × MiningState :=
  match admitNext clock allowed s with
  | (none, admitted) => (none, admitted)
  | (some row, admitted) =>
    (some (row.jobId, nextRefill admitted row.jobId), leaseJob clock admitted owner leaseSeconds row)

end Leases

section Worker

variable (jobId owner : String) (clock : Clock) (s : MiningState)

/-- `job_id=? AND lease_owner=?`. -/
def isOwned (j : JobRow) : Bool := j.jobId == jobId && j.leaseOwner == some owner

/-- `begin_active`. -/
def beginActive (lane : Lane) (cursor : Json) (refillId : Option String) (leaseSeconds : ℚ) :
    Except PyError MiningState := do
  let hit := fun j : JobRow => isOwned jobId owner j && j.status == .leased
  raiseIf (Table.changed hit s.jobs = 0) (.runtimeError "Mining lease was lost before fetch began.")
  pure (s.updateJobs hit fun j => { j with
    activeCursor := some cursor, activeLane := some lane, activeRefillId := refillId
    leaseExpiresAt := some (clock.now + leaseSeconds), heartbeatAt := some clock.now
    updatedAt := clock.text })

/-- `transition`. -/
def transition (status : JobStatus) (leaseSeconds : ℚ) : Except PyError MiningState := do
  raiseIf (!status.isActive) (.valueError "Invalid active transition")
  let hit := fun j : JobRow => isOwned jobId owner j && j.status.isActive
  raiseIf (Table.changed hit s.jobs = 0)
    (.runtimeError "Mining worker no longer owns this job lease.")
  pure (s.updateJobs hit fun j => { j with
    status := status, heartbeatAt := some clock.now
    leaseExpiresAt := some (clock.now + leaseSeconds), updatedAt := clock.text })

/-- `heartbeat`. -/
def heartbeat (leaseSeconds : ℚ) : MiningState :=
  s.updateJobs (fun j => isOwned jobId owner j && j.status.isActive) fun j => { j with
    heartbeatAt := some clock.now, leaseExpiresAt := some (clock.now + leaseSeconds)
    updatedAt := clock.text }

/-- The first characters of a text. -/
def truncated (text : String) (length : ℕ) : String := String.ofList (text.toList.take length)

/-- `retry_job`. -/
def retryJob (error : String) (retryAfter : Option ℚ) (jitter : ℚ) : MiningState :=
  match s.ownedJob? jobId owner with
  | none => s
  | some row =>
    let failures := row.consecutiveFailures + 1
    let delay := max 0 (retryAfter.getD (min 900 (2 ^ min failures 9))) + max 0 jitter
    let jobs := s.updateJobs (hasId jobId) fun j => { j.withoutLease.withoutFetch with
      status := if row.pauseRequested then .paused else .retryWait
      nextRunAt := clock.now + delay, pauseRequested := false, consecutiveFailures := failures
      lastError := some (truncated error 1000), updatedAt := clock.text }
    let refills := jobs.updateRefills (MiningState.refillsOf jobId .leased) fun r => { r with
      status := .queued, leaseOwner := none, lastError := some (truncated error 1000)
      updatedAt := clock.text }
    (refills.event clock "job.retry-wait" jobId
      [("delaySeconds", .num delay), ("error", .str (truncated error 300))]).metric "retries" 1

/-- `block_job`. Its refill statement and its event do not ask for the owner. -/
def blockJob (reason : String) : MiningState :=
  let jobs := s.updateJobs (isOwned jobId owner) fun j => { j.withoutLease.withoutFetch with
    status := .blocked, blockedReason := some (truncated reason 1000)
    lastError := some (truncated reason 1000), updatedAt := clock.text }
  let refills := jobs.updateRefills (MiningState.refillsOf jobId .leased) fun r => { r with
    status := .failed, leaseOwner := none, lastError := some (truncated reason 1000)
    updatedAt := clock.text }
  (refills.event clock "job.blocked" jobId [("reason", .str (truncated reason 300))]).metric
    "blocked_failures" 1

/-- `release_job`. -/
def releaseJob : MiningState :=
  match s.ownedJob? jobId owner with
  | none => s
  | some row =>
    let jobs := s.updateJobs (hasId jobId) fun j => { j.withoutLease.withoutFetch with
      status := if row.pauseRequested then .paused else .queued
      nextRunAt := clock.now, pauseRequested := false, updatedAt := clock.text }
    jobs.updateRefills (MiningState.refillsOf jobId .leased) fun r => { r with
      status := .queued, leaseOwner := none, updatedAt := clock.text }

end Worker

section Commit

variable (gapIdentifier : String → ℚ → ℚ → String)

/-- The arguments of `commit_page`, with the identity of the page it makes up. -/
structure PageCommit where
  pageId : String
  jobId : String
  owner : String
  lane : Lane
  refillId : Option String
  requestCursor : Json
  nextCursor : Option Json
  rawSha256 : String
  rawBytes : ℕ
  recordBytes : ℕ
  responseStatus : ℤ
  responseHeaders : Json
  source : String
  entries : List Entry
  continueFetch : Option Bool
  leaseSeconds : ℚ

namespace PageCommit

variable (commit : PageCommit) (clock : Clock) (lease : JobRow) (s : MiningState)

/-- Whether the worker goes on with the next page. -/
def continues : Bool :=
  commit.continueFetch.getD commit.nextCursor.isSome && commit.nextCursor.isSome

/-- The status after the page, and whether the lease is kept; `none` keeps `next_run_at`. -/
def outcome (queuedRefill : Bool) : JobStatus × Option ℚ × Bool :=
  if lease.pauseRequested then (.paused, some clock.now, false)
  else if commit.lane = .main ∧ queuedRefill then (.queued, some clock.now, false)
  else if commit.continues then (.leased, none, true)
  else if commit.lane = .refill then (.queued, some clock.now, false)
  else (.succeeded, some (clock.now + lease.scheduleSeconds), false)

/-- The refill of a page of the refill lane. -/
def refillTarget : Option String :=
  if commit.lane = .refill then commit.refillId.filter (· != "") else none

/-- What a page of the refill lane does to its refill. -/
def updateRefill (refillId : String) : MiningState :=
  s.updateRefills (fun r => r.refillId == refillId) fun r =>
    if commit.continues then { r with cursor := commit.nextCursor.getD r.cursor, updatedAt := clock.text }
    else { r with status := .succeeded, leaseOwner := none, updatedAt := clock.text, lastError := none }

/-- The page row. -/
def row : PageRow where
  pageId := commit.pageId
  jobId := commit.jobId
  lane := commit.lane
  refillId := commit.refillId
  requestCursor := commit.requestCursor
  nextCursor := commit.nextCursor
  rawSha256 := commit.rawSha256
  rawBytes := commit.rawBytes
  recordCount := commit.entries.length
  responseStatus := commit.responseStatus
  responseHeaders := commit.responseHeaders
  source := commit.source
  committedAt := clock.text

/-- The page, its records and the gaps they open or close; and the number of revisions. -/
def storePage : Except PyError (MiningState × ℕ) := do
  raiseIf (s.pages.any fun p => p.pageId == commit.pageId) (integrityError "pages.page_id")
  let paged := { s with pages := s.pages ++ [commit.row clock] }
  let key : PageKey := ⟨commit.jobId, commit.pageId, clock.text⟩
  let stored ← commit.entries.zipIdx.foldlM (storeEntry key)
    ⟨paged, 0, commit.entries.filterMap Entry.eventTimeSort⟩
  let indexed ← recomputeGapsIncremental gapIdentifier commit.jobId lease.continuityStep
    stored.eventTimes clock.text stored.state
  pure (indexed, stored.revisions)

/-- The job and refill rows after a stored page. -/
def settle : MiningState :=
  let (status, nextRunAt, keepsLease) := commit.outcome clock lease
    (s.refills.any (MiningState.refillsOf commit.jobId .queued))
  let positioned := if commit.lane = .main ∧ commit.nextCursor.isSome then
      s.updateJobs (hasId commit.jobId) fun j => { j with cursor := commit.nextCursor } else s
  let refilled := match commit.refillTarget with
    | none => positioned
    | some refillId => commit.updateRefill clock positioned refillId
  refilled.updateJobs (hasId commit.jobId) fun j => { j with
    status := status, nextRunAt := nextRunAt.getD lease.nextRunAt
    leaseOwner := if keepsLease then some commit.owner else none
    leaseExpiresAt := if keepsLease then some (clock.now + commit.leaseSeconds) else none
    heartbeatAt := if keepsLease then some clock.now else none
    activeCursor := if keepsLease then commit.nextCursor else none
    activeLane := if keepsLease then some commit.lane else none
    activeRefillId := if keepsLease then commit.refillId else none
    pauseRequested := false, consecutiveFailures := 0, lastError := none, blockedReason := none
    lastSuccessAt := some clock.text, updatedAt := clock.text }

/-- The counters of a stored page. -/
def record (revisions : ℕ) : MiningState :=
  ((((s.metric "pages_committed" 1).metric "bytes_stored" (commit.rawBytes + commit.recordBytes)).metric
    "records_observed" commit.entries.length).metric "revisions_detected" revisions).event clock
      "page.committed" commit.jobId [("pageId", .str commit.pageId),
        ("lane", .str (if commit.lane = .main then "main" else "refill")),
        ("records", .int commit.entries.length), ("revisions", .int revisions),
        ("rawSha256", .str commit.rawSha256)]

end PageCommit

/-- The lease a page is committed under. -/
def committingJob? (commit : PageCommit) (s : MiningState) : Option JobRow :=
  s.jobs.find? fun j => isOwned commit.jobId commit.owner j && j.status == .committing

/-- The database part of `commit_page`. -/
def commitPage (commit : PageCommit) (clock : Clock) (s : MiningState) : Except PyError MiningState := do
  raiseIf (commit.leaseSeconds < 5)
    (.valueError "Mining leaseSeconds must be finite and at least 5 seconds.")
  match committingJob? commit s with
  | none => throw (.runtimeError "Mining lease was lost before page commit.")
  | some lease => do
    let (stored, revisions) ← commit.storePage gapIdentifier clock lease s
    pure (commit.record clock (commit.settle clock lease stored) revisions)

end Commit

section Refill

/-- The row of a new refill. -/
def queuedRefill (refillId jobId gapId : String) (cursor : Json) (clock : Clock) : RefillRow where
  refillId := refillId
  jobId := jobId
  gapId := some gapId
  cursor := cursor
  status := .queued
  createdAt := clock.text
  updatedAt := clock.text

/-- `queue_refill`. -/
def queueRefill (refillId jobId gapId : String) (cursor : Json) (clock : Clock) (s : MiningState) :
    Except PyError MiningState := do
  raiseIf (s.job? jobId).isNone (jobNotFound jobId)
  raiseIf (!s.gaps.any fun g => g.jobId == jobId && g.gapId == gapId && g.status != .resolved)
    (.valueError s!"Open mining gap does not exist: {gapId}")
  if s.refills.any fun r => r.gapId == some gapId && (r.status == .queued || r.status == .leased) then
    pure s
  else do
    raiseIf (s.refills.any fun r => r.refillId == refillId) (integrityError "refill_tasks.refill_id")
    let inserted : MiningState :=
      { s with refills := s.refills ++ [queuedRefill refillId jobId gapId cursor clock] }
    let marked := inserted.updateGaps (fun g => g.gapId == gapId) fun g => { g with
      status := .backfillQueued, lastCheckedAt := clock.text }
    let requeued := marked.updateJobs (hasId jobId) fun j => { j with
      status := if j.status = .paused ∨ j.status.isActive then j.status else .queued
      nextRunAt := clock.now, updatedAt := clock.text }
    pure (requeued.event clock "gap.refill-queued" jobId
      [("gapId", .str gapId), ("refillId", .str refillId)])

end Refill

section Runs

/-- A call of the API or of a worker, with the clock it reads. -/
inductive MiningCall
  | createJob (request : JobRequest) (clock : Clock)
  | pauseJob (jobId : String) (clock : Clock)
  | resumeJob (jobId : String) (clock : Clock)
  | runNow (jobId : String) (clock : Clock)
  | queueRefill (refillId jobId gapId : String) (cursor : Json) (clock : Clock)
  | recoverExpiredLeases (clock : Clock)
  | claimNext (owner : String) (leaseSeconds : ℚ) (allowed : List String) (clock : Clock)
  | beginActive (jobId owner : String) (lane : Lane) (cursor : Json) (refillId : Option String)
      (leaseSeconds : ℚ) (clock : Clock)
  | transition (jobId owner : String) (status : JobStatus) (leaseSeconds : ℚ) (clock : Clock)
  | heartbeat (jobId owner : String) (leaseSeconds : ℚ) (clock : Clock)
  | retryJob (jobId owner error : String) (retryAfter : Option ℚ) (jitter : ℚ) (clock : Clock)
  | releaseJob (jobId owner : String) (clock : Clock)
  | blockJob (jobId owner reason : String) (clock : Clock)
  | commitPage (commit : PageCommit) (clock : Clock)

variable (gapIdentifier : String → ℚ → ℚ → String)

/-- The transaction of a call. -/
def MiningCall.transact (s : MiningState) : MiningCall → Except PyError MiningState
  | createJob request clock => Mining.createJob request clock s
  | pauseJob jobId clock => Mining.pauseJob jobId clock s
  | resumeJob jobId clock => Mining.resumeJob jobId clock s
  | runNow jobId clock => Mining.runNow jobId clock s
  | queueRefill refillId jobId gapId cursor clock =>
    Mining.queueRefill refillId jobId gapId cursor clock s
  | recoverExpiredLeases clock => pure (Mining.recoverExpiredLeases clock s)
  | claimNext owner leaseSeconds allowed clock =>
    pure (Mining.claimNext clock s owner leaseSeconds allowed).2
  | beginActive jobId owner lane cursor refillId leaseSeconds clock =>
    Mining.beginActive jobId owner clock s lane cursor refillId leaseSeconds
  | transition jobId owner status leaseSeconds clock =>
    Mining.transition jobId owner clock s status leaseSeconds
  | heartbeat jobId owner leaseSeconds clock => pure (Mining.heartbeat jobId owner clock s leaseSeconds)
  | retryJob jobId owner error retryAfter jitter clock =>
    pure (Mining.retryJob jobId owner clock s error retryAfter jitter)
  | releaseJob jobId owner clock => pure (Mining.releaseJob jobId owner clock s)
  | blockJob jobId owner reason clock => pure (Mining.blockJob jobId owner clock s reason)
  | commitPage commit clock => Mining.commitPage gapIdentifier commit clock s

/-- A call commits, or raises and is rolled back. -/
def step (s : MiningState) (call : MiningCall) : MiningState :=
  match call.transact gapIdentifier s with
  | .ok next => next
  | .error _ => s

end Runs

end TradeFramework.Mining
