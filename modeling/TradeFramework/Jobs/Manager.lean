import TradeFramework.Data.PythonEqual
import TradeFramework.Jobs.Repository
import TradeFramework.Library.Program

/-!
# The job manager

`BacktestJobManager` as scripts over the repository, the services it is built from and its own
memory. What a service returns, and when the database fails, is up to the environment.
-/

namespace TradeFramework.Jobs

open Program (Script)
open Program.Script (attempt finally_ thread)
open Raising (raiseIf)

section Interface

/-- A time that `utc_now` returns. -/
abbrev Timestamp := { text : String // text ≠ "" }

/-- An identifier that `new_resource_id` returns. -/
abbrev ResourceId := { text : String // text ≠ "" }

/-- The transactions of the repository. -/
inductive RepositoryCall
  | get (jobId : String)
  | insertQueued (insertion : Insertion)
  | markRunning (jobId startedAt : String)
  | recordProgress (jobId phase : String) (totalCycles completedCycles : ℤ)
  | markCompleted (jobId completedAt : String) (cycleCount : ℤ)
  | failActive (jobId phase completedAt error : String)
  | activeReferences
  | interruptActive (completedAt : String)
  | interruptQueued (completedAt : String)
  | activeRequestForJob (jobId backtestId : String)

def RepositoryCall.Result : RepositoryCall → Type
  | get _ => PublicJob
  | insertQueued _ | markRunning .. | recordProgress .. | interruptActive _ | interruptQueued _ => Unit
  | markCompleted .. | failActive .. => Bool
  | activeReferences => List (String × String × JobStatus)
  | activeRequestForJob .. => Option Json

/-- The transaction of a call: its result and the rows it leaves. -/
def RepositoryCall.transact (evidenceDigest : Json → Sha256Digest) (rows : List JobRow) :
    (call : RepositoryCall) → Except Raised (call.Result × List JobRow)
  | get jobId => do pure (← Jobs.get rows jobId, rows)
  | insertQueued insertion => do pure ((), ← Jobs.insertQueued rows evidenceDigest insertion)
  | markRunning jobId startedAt => do pure ((), ← Jobs.markRunning rows jobId startedAt)
  | recordProgress jobId phase totalCycles completedCycles => do
    pure ((), ← Jobs.recordProgress rows jobId phase totalCycles completedCycles)
  | markCompleted jobId completedAt cycleCount => Jobs.markCompleted rows jobId completedAt cycleCount
  | failActive jobId phase completedAt error =>
    pure (Jobs.failActive rows jobId phase completedAt error)
  | activeReferences => pure (Jobs.activeReferences rows, rows)
  | interruptActive completedAt => pure ((), Jobs.interruptActive rows completedAt)
  | interruptQueued completedAt => pure ((), Jobs.interruptQueued rows completedAt)
  | activeRequestForJob jobId backtestId => do
    pure (← Jobs.activeRequestForJob rows evidenceDigest jobId backtestId, rows)

/-- A row of `backtests`; `metrics` is `none` when the text is not strict JSON. -/
structure CatalogRow where
  status : String
  completedAt : String
  metrics : Option Json

/-- The capabilities that may raise and leave the job rows alone. -/
inductive ServiceCall
  | prepareDatabase
  | reconcileResultStaging
  | resultCatalogRow (backtestId : String)
  | recoverResultCatalog (backtestId : String) (request : Json)
  | validateResultArchive (backtestId : String)
  | freezeRequest (request : Json)
  | consumePreparedRequest (token : String) (request : Json) (sessionIdentity : String)
  | validateFrozenAdmission (request : Json)
  | makeExecutionRoot (jobId : String)
  | executorShutdown
  | shutdownRuntimes

def ServiceCall.Result : ServiceCall → Type
  | prepareDatabase | reconcileResultStaging | makeExecutionRoot _ | executorShutdown
  | shutdownRuntimes => Unit
  | resultCatalogRow _ => Option CatalogRow
  | recoverResultCatalog .. => Option Json
  | validateResultArchive _ | freezeRequest _ | consumePreparedRequest .. | validateFrozenAdmission _ =>
    Json

/-- What a runtime does with its progress callback until it returns or raises. -/
inductive Launch
  | returns
  | raises (e : Raised)
  | progress (completedCycles totalCycles phase : Json) (next : Except Raised Unit → Launch)

/-- A job handed to the executor. -/
structure Task where
  jobId : String
  backtestId : String
  request : Json

/-- The calls of the manager. -/
inductive JobOp
  | repository (call : RepositoryCall)
  | service (call : ServiceCall)
  | utcNow
  | monotonic
  | newResourceId (kind : String)
  | launchRuntime (task : Task)
  | processAuthority (jobId : String)
  | submitTask (task : Task)
  | cancelTasks
  | isStopping
  | setStopping
  | setConstructed
  | retain (jobId : String)
  | retained
  | release (jobId : String)
  | emit (eventType : String) (job : PublicJob)

def JobOp.Res : JobOp → Type
  | repository call => Except Raised call.Result
  | service call => Except Raised call.Result
  | utcNow => Timestamp
  | monotonic => ℚ
  | newResourceId _ => ResourceId
  | launchRuntime _ => Launch
  | processAuthority _ | isStopping => Bool
  | submitTask _ => Except Raised Unit
  | retained => List String
  | cancelTasks | setStopping | setConstructed | retain _ | release _ | emit .. => Unit

abbrev JobScript := Script JobOp JobOp.Res Raised

def perform (op : JobOp) : JobScript op.Res := liftM (Program.perform op)

def repository (call : RepositoryCall) : JobScript call.Result :=
  ExceptT.mk (Program.perform (JobOp.repository call))

def service (call : ServiceCall) : JobScript call.Result :=
  ExceptT.mk (Program.perform (JobOp.service call))

def isStopping : JobScript Bool := perform .isStopping

def processAuthority (jobId : String) : JobScript Bool := perform (.processAuthority jobId)

def utcNow : JobScript Timestamp := perform .utcNow

def newResourceId (kind : String) : JobScript ResourceId := perform (.newResourceId kind)

def check {α : Type} (r : Except Raised α) : JobScript α := ExceptT.mk (pure r)

end Interface

section Evidence

/-- The catalog row of a result, recovered from the result itself where there is none. -/
def catalogEvidence (backtestId : String) (request : Json) :
    JobScript (Option (CatalogRow × Option Json)) := do
  match ← service (.resultCatalogRow backtestId) with
  | some row => do
    let _ ← service (.recoverResultCatalog backtestId request)
    pure (some (row, none))
  | none => do
    match ← service (.recoverResultCatalog backtestId request) with
    | none => pure none
    | some recovered => do
      match ← service (.resultCatalogRow backtestId) with
      | none => throw (.runtimeError "Recovered Backtest Result has no catalog row.")
      | some row => pure (some (row, some recovered))

/-- The metrics of the result: of the recovery, or of an ordinary validation. -/
def resultMetrics (backtestId : String) (recovered : Option Json) : JobScript Json :=
  match recovered with
  | some recovered => check (item recovered "metrics")
  | none => do
    let validation ← service (.validateResultArchive backtestId)
    check (item validation "metrics")

/-- The completion time and the cycle count of a catalog row, checked against the sealed result. -/
def requireCycleCount (row : CatalogRow) (cycleCount : Json) : Except Raised (String × ℤ) := do
  match row.metrics with
  | some (.obj metrics) => do
    raiseIf (!pythonEqual ((metrics.lookup "cycleCount").getD .null) cycleCount)
      (.valueError "Recovered Backtest metrics do not match its sealed Result.")
    match cycleCount with
    | .int n => do
      raiseIf (n < 0) (.valueError "Recovered Backtest cycleCount is invalid.")
      pure (row.completedAt, n)
    | _ => throw (.valueError "Recovered Backtest cycleCount is invalid.")
  | _ => throw (.valueError "Recovered Backtest metrics are invalid.")

/-- `_completed_evidence`. -/
def completedEvidence (jobId backtestId : String) : JobScript (Option (String × ℤ)) := do
  match ← repository (.activeRequestForJob jobId backtestId) with
  | none => pure none
  | some expectedRequest => do
    match ← catalogEvidence backtestId expectedRequest with
    | none => pure none
    | some (row, recovered) => do
      check (raiseIf ((row.status ≠ "completed" ∧ row.status ≠ "archived") ∨ row.completedAt = "")
        (.valueError "Recovered Backtest catalog state is invalid."))
      let metrics ← resultMetrics backtestId recovered
      check (raiseIf row.metrics.isNone (.valueError "Recovered Backtest metrics are invalid."))
      check (raiseIf (!isObject row.metrics) (.valueError "Recovered Backtest metrics are invalid."))
      let cycleCount ← check (item metrics "cycleCount")
      let evidence ← check (requireCycleCount row cycleCount)
      pure (some evidence)

end Evidence

section Startup

/-- The evidence of one active job at startup. -/
def collectEvidence (completed : List (String × String × ℤ))
    (reference : String × String × JobStatus) : JobScript (List (String × String × ℤ)) := do
  let (jobId, backtestId, status) := reference
  if status ≠ .running then pure completed
  else do
    match ← completedEvidence jobId backtestId with
    | none => pure completed
    | some evidence => pure (completed ++ [(jobId, evidence)])

def completeRecovered (_ : Unit) (completed : String × String × ℤ) : JobScript Unit := do
  let _ ← repository (.markCompleted completed.1 completed.2.1 completed.2.2)
  pure ()

/-- `_fail_interrupted_jobs`. -/
def failInterruptedJobs : JobScript Unit := do
  let references : List (String × String × JobStatus) ← repository .activeReferences
  let completed ← references.foldlM collectEvidence []
  completed.foldlM completeRecovered ()
  let now ← utcNow
  repository (.interruptActive now.1)

/-- The constructor. -/
def construct : JobScript Unit := do
  service .prepareDatabase
  service .reconcileResultStaging
  failInterruptedJobs
  perform .setConstructed

end Startup

section Submission

/-- `_fail_job`. -/
def failJob (jobId error phase : String) : JobScript Bool := do
  let now ← utcNow
  let changed : Bool ← repository (.failActive jobId phase now.1 error)
  if changed then do
    let job ← repository (.get jobId)
    perform (.emit "backtest.job.failed" job)
    pure changed
  else pure changed

/-- The arguments of `submit`: a prepared submission has a token and a session identity. -/
structure Submission where
  request : Json
  prepared : Option (Json × Json)

/-- Which optional capabilities the services have. -/
structure Capabilities where
  consumePreparedRequest : Bool
  validateFrozenAdmission : Bool

/-- A field that must be a non-empty string. -/
def requireFilled (value : Json) (message : String) : Except Raised String :=
  match value with
  | .str text => do
    raiseIf (text = "") (.valueError message)
    pure text
  | _ => throw (.valueError message)

/-- The checks of a prepared submission. -/
def requirePrepared (capabilities : Capabilities) (token sessionIdentity : Json) :
    Except Raised (String × String) := do
  let token ← requireFilled token "Prepared Backtest submission token must be a non-empty string."
  let sessionIdentity ← requireFilled sessionIdentity
    "Prepared Backtest submission session identity is required."
  raiseIf (!capabilities.consumePreparedRequest)
    (.runtimeError "Prepared Backtest submissions are not configured.")
  raiseIf (!capabilities.validateFrozenAdmission)
    (.runtimeError "Prepared Backtest admission validation is not configured.")
  pure (token, sessionIdentity)

/-- The frozen request of a submission. -/
def admittedRequest (capabilities : Capabilities) (submission : Submission) : JobScript Json :=
  match submission.prepared with
  | none => service (.freezeRequest submission.request)
  | some (token, sessionIdentity) => do
    let (token, sessionIdentity) ← check (requirePrepared capabilities token sessionIdentity)
    let request ← service (.consumePreparedRequest token submission.request sessionIdentity)
    service (.validateFrozenAdmission request)

/-- What a failed insertion of a prepared submission raises. -/
def consumedBeforeQueued (submission : Submission) (e : Raised) : Raised :=
  if submission.prepared.isSome then .runtimeError
    "Prepared Backtest submission was consumed before the Job could be durably queued."
  else e

/-- `submit`. -/
def submit (capabilities : Capabilities) (submission : Submission) : JobScript PublicJob := do
  let stopping ← isStopping
  check (raiseIf stopping (.runtimeError "Backtest job service is stopping."))
  check (raiseIf (!isObject (some submission.request))
    (.valueError "Backtest request must be an object."))
  let request ← admittedRequest capabilities submission
  let pipeline ← check (item request "pipeline")
  let pipelineId ← check (item pipeline "pipelineId")
  let datasetId ← check (item request "datasetId")
  let pipelineId ← check (requireFilled pipelineId "pipeline.pipelineId must be a non-empty string.")
  let datasetId ← check (requireFilled datasetId "datasetId must be a non-empty string.")
  let jobId ← newResourceId "job"
  let backtestId ← newResourceId "backtest"
  tryCatch (do
      let now ← utcNow
      let snapshot ← check (item request "executionSnapshot")
      let snapshotHash ← check (item snapshot "snapshotHash")
      repository (.insertQueued ⟨jobId.1, backtestId.1, pipelineId, datasetId, request, now.1,
        snapshotHash⟩))
    fun e => throw (consumedBeforeQueued submission e)
  let job ← repository (.get jobId.1)
  perform (.emit "backtest.job.submitted" job)
  tryCatch (ExceptT.mk (Program.perform (JobOp.submitTask ⟨jobId.1, backtestId.1, request⟩)))
    fun e => do
      let _ ← failJob jobId.1 e.describe "failed"
      throw e
  pure job

end Submission

section Execution

/-- `last_write`. -/
structure LastWrite where
  at_ : ℚ := 0
  completed : ℤ := -1
  phase : String := ""

/-- The numbers and the phase of a progress update. -/
def progressUpdate (completedCycles totalCycles phase : Json) : Except Raised (ℤ × ℤ × String) :=
  let invalid := Raised.valueError "Backtest progress update is invalid."
  match completedCycles, totalCycles, phase with
  | .int completed, .int total, .str phase => do
    raiseIf (completed < 0 ∨ total < 0 ∨ (0 < total ∧ total < completed) ∨ phase = "") invalid
    pure (completed, total, phase)
  | _, _, _ => throw invalid

/-- `progress`, with the last write after it. -/
def progress (jobId : String) (last : LastWrite) (completedCycles totalCycles phase : Json) :
    JobScript LastWrite := do
  let stopping ← isStopping
  check (raiseIf stopping (.runtimeError "Engine stopped while this Backtest job was running."))
  let (completed, total, phase) ← check (progressUpdate completedCycles totalCycles phase)
  let now : ℚ ← perform .monotonic
  let force := phase ≠ last.phase ∨ (total ≤ completed ∧ 0 < total) ∨ 1 ≤ now - last.at_
  if ¬force ∨ (completed = last.completed ∧ phase = last.phase) then pure last
  else do
    repository (.recordProgress jobId phase total completed)
    pure ⟨now, completed, phase⟩

/-- The runtime, with its calls of the progress callback. -/
def runLaunch (jobId : String) : Launch → LastWrite → JobScript Unit
  | .returns, _ => pure ()
  | .raises e, _ => throw e
  | .progress completedCycles totalCycles phase next, last => do
    match ← attempt (progress jobId last completedCycles totalCycles phase) with
    | .ok written => runLaunch jobId (next (.ok ())) written
    | .error e => runLaunch jobId (next (.error e)) last

/-- `mark_completed` and its event. -/
def completeJob (jobId : String) (evidence : String × ℤ) : JobScript Unit := do
  let _ ← repository (.markCompleted jobId evidence.1 evidence.2)
  let job ← repository (.get jobId)
  perform (.emit "backtest.job.completed" job)

/-- The `try` part of `_execute`. -/
def runTask (task : Task) : JobScript Unit := do
  let stopping ← isStopping
  check (raiseIf stopping (.runtimeError "Engine stopped before this Backtest job started."))
  let now ← utcNow
  repository (.markRunning task.jobId now.1)
  let job ← repository (.get task.jobId)
  perform (.emit "backtest.job.started" job)
  service (.makeExecutionRoot task.jobId)
  let launch ← perform (.launchRuntime task)
  runLaunch task.jobId launch {}
  match ← completedEvidence task.jobId task.backtestId with
  | none => throw (.runtimeError "Backtest Runtime returned without committing its sealed Result.")
  | some evidence => completeJob task.jobId evidence

/-- The error of a job that failed, with what went wrong when its result was looked for. -/
def failureText (e : Raised) (verification : Option Raised) : String :=
  match verification with
  | none => e.describe
  | some secondary =>
    if secondary.describe = e.describe then e.describe
    else s!"Backtest Result completion verification failed: {secondary.describe}; " ++
      s!"Runtime failure: {e.describe}"

/-- The `except` part of `_execute`. -/
def settleFailure (task : Task) (e : Raised) : JobScript Unit := do
  let authority ← processAuthority task.jobId
  if authority then pure ()
  else do
    match ← attempt (completedEvidence task.jobId task.backtestId) with
    | .ok (some evidence) => completeJob task.jobId evidence
    | .ok none => do
      let stopping ← isStopping
      let _ ← failJob task.jobId (failureText e none) (if stopping then "interrupted" else "failed")
      pure ()
    | .error secondary => do
      let stopping ← isStopping
      let _ ← failJob task.jobId (failureText e (some secondary))
        (if stopping then "interrupted" else "failed")
      pure ()

/-- The `finally` part of `_execute`. -/
def retainAuthority (task : Task) : JobScript Unit := do
  let authority ← processAuthority task.jobId
  if authority then perform (.retain task.jobId) else pure ()

/-- `_execute`. -/
def execute (task : Task) : JobScript Unit :=
  finally_ (tryCatch (runTask task) (settleFailure task)) (retainAuthority task)

end Execution

section Shutdown

/-- A first error, kept over later ones. -/
def keepError {α : Type} (first : Option Raised) (r : Except Raised α) : Option Raised :=
  match r with
  | .ok _ => first
  | .error e => some (first.getD e)

/-- The outcome of a retained job: completed if its result is there, interrupted otherwise. -/
def settleRetained (jobId : String) (evidence : Option (String × ℤ)) : JobScript Unit :=
  match evidence with
  | some evidence => completeJob jobId evidence
  | none => do
    let _ ← failJob jobId "Engine stopped before this Backtest job completed." "interrupted"
    pure ()

/-- The evidence of a retained job. -/
def retainedEvidence (jobId : String) : JobScript (Option (String × ℤ)) := do
  let job ← repository (.get jobId)
  completedEvidence jobId job.backtestId

def foundEvidence (found : Except Raised (Option (String × ℤ))) : Option (String × ℤ) :=
  match found with
  | .ok evidence => evidence
  | .error _ => none

/-- One retained job of `shutdown`, with the first error so far. -/
def shutdownRetained (first : Option Raised) (jobId : String) : JobScript (Option Raised) := do
  let authority ← processAuthority jobId
  if authority then pure first
  else do
    let found ← attempt (retainedEvidence jobId)
    match ← attempt (settleRetained jobId (foundEvidence found)) with
    | .ok _ => do
      perform (.release jobId)
      pure (keepError first found)
    | .error e => pure (some ((keepError first found).getD e))

/-- The executor is shut down, and once more if that raises. -/
def stopExecutor : JobScript (Option Raised) := do
  match ← attempt (service .executorShutdown) with
  | .ok _ => pure none
  | .error e => do
    let retried ← attempt (service .executorShutdown)
    pure (keepError (some e) retried)

/-- `shutdown`. That the executor waits for its threads only leaves out interleavings. -/
def shutdown : JobScript Unit := do
  perform .setStopping
  perform .cancelTasks
  let stopped ← stopExecutor
  let runtimes ← attempt (service .shutdownRuntimes)
  let retained : List String ← perform .retained
  let now ← utcNow
  let first ← retained.foldlM shutdownRetained (keepError stopped runtimes)
  repository (.interruptQueued now.1)
  check (match first with
    | none => pure ()
    | some e => throw e)

end Shutdown

section Engine

/-- The database, and the memory of the process that owns it. -/
structure JobMemory where
  rows : List JobRow := []
  started : Bool := false
  constructed : Bool := false
  stopping : Bool := false
  pending : List Task := []
  retained : List String := []

/-- What the environment decides about a call: a failure of the database, or the result. -/
def JobOp.Answer : JobOp → Type
  | repository _ => Option Raised
  | service call => Except Raised call.Result
  | utcNow => Timestamp
  | monotonic => ℚ
  | newResourceId _ => ResourceId
  | launchRuntime _ => Launch
  | processAuthority _ => Bool
  | submitTask _ => Except Raised Unit
  | cancelTasks | isStopping | setStopping | setConstructed | retain _ | retained | release _
  | emit .. => Unit

variable (evidenceDigest : Json → Sha256Digest)

/-- A transaction commits, or it raises and is rolled back. -/
def commitCall (call : RepositoryCall) (failure : Option Raised) (s : JobMemory) :
    Except Raised call.Result × JobMemory :=
  match failure, call.transact evidenceDigest s.rows with
  | some e, _ => (.error e, s)
  | none, .ok (result, rows) => (.ok result, { s with rows := rows })
  | none, .error e => (.error e, s)

def JobOp.exec : (op : JobOp) → op.Answer → JobMemory → op.Res × JobMemory
  | repository call, failure, s => commitCall evidenceDigest call failure s
  | service _, answer, s => (answer, s)
  | utcNow, now, s => (now, s)
  | monotonic, now, s => (now, s)
  | newResourceId _, id, s => (id, s)
  | launchRuntime _, launch, s => (launch, s)
  | processAuthority _, authority, s => (authority, s)
  | submitTask task, .ok (), s => (.ok (), { s with pending := s.pending ++ [task] })
  | submitTask _, .error e, s => (.error e, s)
  | cancelTasks, _, s => ((), { s with pending := [] })
  | isStopping, _, s => (s.stopping, s)
  | setStopping, _, s => ((), { s with stopping := true })
  | setConstructed, _, s => ((), { s with constructed := true })
  | retain jobId, _, s => ((), { s with retained := s.retained ++ [jobId] })
  | retained, _, s => (s.retained, s)
  | release jobId, _, s => ((), { s with retained := s.retained.filter (· != jobId) })
  | emit .., _, s => ((), s)

/-- What starts a thread. -/
inductive JobRequest
  | construct
  | submit (submission : Submission)
  | work
  | shutdown

variable (capabilities : Capabilities)

/-- A process builds one manager, whose methods are called once it is built; a worker takes the
oldest pending task. -/
def JobRequest.spawn (request : JobRequest) (s : JobMemory) :
    Option (Program JobOp JobOp.Res Unit × JobMemory) :=
  match request with
  | construct => if s.started then none else some (thread Jobs.construct, { s with started := true })
  | submit submission =>
    if s.constructed then some (thread (Jobs.submit capabilities submission), s) else none
  | work =>
    match s.pending with
    | [] => none
    | task :: rest => some (thread (execute task), { s with pending := rest })
  | shutdown => if s.constructed then some (thread Jobs.shutdown, s) else none

/-- The engine: a crash leaves only the database. -/
def engine : Machine JobOp JobOp.Res JobMemory JobRequest where
  Answer := JobOp.Answer
  exec := JobOp.exec evidenceDigest
  spawn := JobRequest.spawn capabilities
  crash s := { rows := s.rows }

end Engine

end TradeFramework.Jobs
