import TradeFramework.Jobs.Manager

/-!
# The job lifecycle

Whatever the requests, the services, the failures of the database and the crashes: every row passes
the row check, and its status moves forward only.
-/

namespace TradeFramework.Jobs

open Program (Script)
open Program.Script (attempt finally_ thread)

section Rows

/-- A row the row check accepts. -/
structure JobRow.Valid (row : JobRow) : Prop where
  counts : 0 ≤ row.totalCycles ∧ 0 ≤ row.completedCycles ∧
    (0 < row.totalCycles → row.completedCycles ≤ row.totalCycles)
  identity : row.jobId ≠ "" ∧ row.pipelineId ≠ "" ∧ row.datasetId ≠ "" ∧ row.submittedAt ≠ ""
  digest : isSha256Digest row.snapshotHash = true
  lifecycle : ¬row.lifecycleInvalid

lemma exists_publicJob {row : JobRow} (h : row.Valid) : ∃ job, publicJob row = .ok job := by
  unfold publicJob
  obtain ⟨htotal, hcompleted, hle⟩ := h.counts
  obtain ⟨hjob, hpipeline, hdataset, hsubmitted⟩ := h.identity
  have hcounts : ¬(row.totalCycles < 0 ∨ row.completedCycles < 0 ∨
      (0 < row.totalCycles ∧ row.totalCycles < row.completedCycles)) := by
    omega
  simp [Raising.raiseIf, hcounts, hjob, hpipeline, hdataset, hsubmitted, h.digest, h.lifecycle]

/-- One statement moves a row at most one step, and leaves a finished row alone. -/
def JobRow.MovesTo (row row' : JobRow) : Prop :=
  row'.jobId = row.jobId ∧ (row' = row ∨
    row.status.isActive = true ∧ (row'.status = row.status ∨ row.status.Next row'.status))

/-- The rows after a statement: the rows before it, moved, and new queued rows. -/
structure RowsMove (rows rows' : List JobRow) : Prop where
  kept : ∀ row ∈ rows, ∃ row' ∈ rows', row.MovesTo row'
  origin : ∀ row' ∈ rows', (∃ row ∈ rows, row.MovesTo row') ∨ row'.status = .queued

/-- The table: one row for each identifier, and only rows the row check accepts. -/
structure RowsValid (rows : List JobRow) : Prop where
  keys : (rows.map JobRow.jobId).Nodup
  valid : ∀ row ∈ rows, row.Valid

lemma JobRow.MovesTo.refl (row : JobRow) : row.MovesTo row := ⟨rfl, .inl rfl⟩

lemma RowsMove.refl (rows : List JobRow) : RowsMove rows rows :=
  ⟨fun row hrow => ⟨row, hrow, .refl row⟩, fun row hrow => .inl ⟨row, hrow, .refl row⟩⟩

variable {rows : List JobRow} {hit : JobRow → Bool} {change : JobRow → JobRow}

/-- An update that keeps the rows it hits valid and moves them. -/
lemma RowsValid.update (h : RowsValid rows) (hid : ∀ row, (change row).jobId = row.jobId)
    (hchange : ∀ row, row.Valid → hit row = true → (change row).Valid ∧ row.MovesTo (change row)) :
    RowsValid (Table.update hit change rows) ∧ RowsMove rows (Table.update hit change rows) := by
  refine ⟨⟨(Table.map_update JobRow.jobId hid).symm ▸ h.keys, Table.forall_update fun row hrow => ?_⟩,
    fun row hrow => ?_, Table.forall_update fun row hrow => .inl ⟨row, hrow, ?_⟩⟩
  · split_ifs with hhit
    · exact (hchange row (h.valid row hrow) hhit).1
    · exact h.valid row hrow
  · by_cases hhit : hit row = true
    · exact ⟨change row, Table.mem_update_of_hit hrow hhit, (hchange row (h.valid row hrow) hhit).2⟩
    · exact ⟨row, Table.mem_update_of_not hrow (by simpa using hhit), .refl row⟩
  · split_ifs with hhit
    · exact (hchange row (h.valid row hrow) hhit).2
    · exact .refl row

lemma RowsValid.insert (h : RowsValid rows) {row : JobRow} (hrow : row.Valid)
    (hqueued : row.status = .queued) (hnew : ∀ old ∈ rows, old.jobId ≠ row.jobId) :
    RowsValid (rows ++ [row]) ∧ RowsMove rows (rows ++ [row]) := by
  refine ⟨⟨Table.nodup_insert h.keys hnew, fun r hr => ?_⟩, fun r hr => ?_, fun r hr => ?_⟩
  · rcases List.mem_append.mp hr with hr | hr
    · exact h.valid r hr
    · exact List.mem_singleton.mp hr ▸ hrow
  · exact ⟨r, List.mem_append_left _ hr, .refl r⟩
  · rcases List.mem_append.mp hr with hr | hr
    · exact .inl ⟨r, hr, .refl r⟩
    · exact .inr (List.mem_singleton.mp hr ▸ hqueued)

end Rows

section Transactions

/-- What the callers of the repository promise about the arguments of a call. -/
def RepositoryCall.Valid : RepositoryCall → Prop
  | insertQueued insertion => insertion.jobId ≠ "" ∧ insertion.pipelineId ≠ "" ∧
      insertion.datasetId ≠ "" ∧ insertion.submittedAt ≠ ""
  | markRunning _ startedAt => startedAt ≠ ""
  | recordProgress _ _ totalCycles completedCycles => 0 ≤ totalCycles ∧ 0 ≤ completedCycles ∧
      (0 < totalCycles → completedCycles ≤ totalCycles)
  | markCompleted _ completedAt cycleCount => completedAt ≠ "" ∧ 0 ≤ cycleCount
  | failActive _ phase completedAt error =>
      (phase = "failed" ∨ phase = "interrupted") ∧ completedAt ≠ "" ∧ error ≠ ""
  | interruptActive completedAt => completedAt ≠ ""
  | interruptQueued completedAt => completedAt ≠ ""
  | get _ | activeReferences | activeRequestForJob .. => True

lemma hasStatus_iff {jobId : String} {status : JobStatus} {row : JobRow} :
    hasStatus jobId status row = true ↔ row.jobId = jobId ∧ row.status = status := by
  simp [hasStatus]

/-- A job that ends without a result. -/
lemma JobRow.Valid.fail {row : JobRow} (h : row.Valid) {phase completedAt error : String}
    (hactive : row.status.isActive = true) (hphase : phase = "failed" ∨ phase = "interrupted")
    (hcompletedAt : completedAt ≠ "") (herror : error ≠ "") :
    (Jobs.fail phase completedAt error row).Valid ∧
      row.MovesTo (Jobs.fail phase completedAt error row) := by
  refine ⟨⟨h.counts, h.identity, h.digest, ?_⟩, rfl, .inr ⟨hactive, .inr ?_⟩⟩
  · rintro (⟨hfailed, hinterrupted⟩ | hempty | hempty)
    · exact hphase.elim hfailed hinterrupted
    · exact hcompletedAt hempty
    · exact herror hempty
  · cases hstatus : row.status with
    | queued => exact .refuse
    | running => exact .fail
    | completed => simp [hstatus, JobStatus.isActive] at hactive
    | failed => simp [hstatus, JobStatus.isActive] at hactive

lemma truncated_ne {error : String} (h : error ≠ "") : String.ofList (error.toList.take 4000) ≠ "" := by
  intro hempty
  have hlist : error.toList.take 4000 = [] := by simpa using congrArg String.toList hempty
  rcases List.take_eq_nil_iff.mp hlist with hzero | hnil
  · cases hzero
  · exact h (String.toList_eq_nil_iff.mp hnil)

variable {evidenceDigest : Json → Sha256Digest} {rows rows' : List JobRow}

lemma RowsValid.markCompleted (h : RowsValid rows) {jobId completedAt : String} {cycleCount : ℤ}
    (hcompletedAt : completedAt ≠ "") (hcount : 0 ≤ cycleCount) {outcome : Bool × List JobRow}
    (hcall : markCompleted rows jobId completedAt cycleCount = .ok outcome) :
    RowsValid outcome.2 ∧ RowsMove rows outcome.2 := by
  unfold Jobs.markCompleted at hcall
  split at hcall
  · cases hcall
  · split_ifs at hcall
    · cases hcall
      exact ⟨h, .refl rows⟩
    · simp only [Raising.bind_eq_ok, Raising.raiseIf_eq_ok, Raising.pure_eq_ok] at hcall
      obtain ⟨⟨⟩, -, ⟨⟩, -, rfl⟩ := hcall
      refine h.update (fun _ => rfl) fun row hrow hhit => ?_
      obtain ⟨-, hrunning⟩ := hasStatus_iff.mp hhit
      have hlifecycle := hrow.lifecycle
      simp only [JobRow.lifecycleInvalid, hrunning, not_or, not_not] at hlifecycle
      obtain ⟨hstartedAt, -, -⟩ := hlifecycle
      refine ⟨⟨⟨hcount, hcount, fun _ => le_rfl⟩, hrow.identity, hrow.digest, ?_⟩, rfl,
        .inr ⟨by simp [hrunning, JobStatus.isActive], .inr ?_⟩⟩
      · rintro (hphase | hempty | hempty | herror | hcycles)
        · exact hphase rfl
        · exact hstartedAt hempty
        · exact hcompletedAt hempty
        · exact herror rfl
        · exact hcycles rfl
      · rw [hrunning]
        exact .complete

/-- A transaction with valid arguments keeps the rows valid and moves them forward. -/
theorem RowsValid.transact (h : RowsValid rows) {call : RepositoryCall} (hvalid : call.Valid)
    {result : call.Result} (hcall : call.transact evidenceDigest rows = .ok (result, rows')) :
    RowsValid rows' ∧ RowsMove rows rows' := by
  cases call with
  | get jobId =>
    simp only [RepositoryCall.transact, Raising.bind_eq_ok, Raising.pure_eq_ok] at hcall
    obtain ⟨job, -, heq⟩ := hcall
    cases heq
    exact ⟨h, .refl rows⟩
  | activeReferences =>
    cases hcall
    exact ⟨h, .refl rows⟩
  | activeRequestForJob jobId backtestId =>
    simp only [RepositoryCall.transact, Raising.bind_eq_ok, Raising.pure_eq_ok] at hcall
    obtain ⟨request, -, heq⟩ := hcall
    cases heq
    exact ⟨h, .refl rows⟩
  | insertQueued insertion =>
    simp only [RepositoryCall.transact, insertQueued, Raising.bind_eq_ok, Raising.raiseIf_eq_ok,
      Raising.pure_eq_ok] at hcall
    obtain ⟨inserted, ⟨⟨⟩, -, ⟨⟩, hevidence, ⟨⟩, hnew, ⟨⟩, -, hinsert⟩, heq⟩ := hcall
    cases heq
    obtain ⟨digest, hdigest⟩ := requireRequestEvidence_eq_ok evidenceDigest hevidence
    rw [hdigest] at hinsert
    cases hinsert
    refine h.insert ⟨by simp [Insertion.row], hvalid, digest.2, ?_⟩ rfl ?_
    · simp [JobRow.lifecycleInvalid, Insertion.row]
    · intro old hold hid
      exact hnew (List.any_eq_true.mpr ⟨old, hold, by simpa [hasId, Insertion.row] using hid⟩)
  | markRunning jobId startedAt =>
    simp only [RepositoryCall.transact, markRunning, Raising.bind_eq_ok, Raising.raiseIf_eq_ok,
      Raising.pure_eq_ok] at hcall
    obtain ⟨marked, ⟨⟨⟩, -, rfl⟩, heq⟩ := hcall
    cases heq
    refine h.update (fun _ => rfl) fun row hrow hhit => ?_
    obtain ⟨-, hqueued⟩ := hasStatus_iff.mp hhit
    have hlifecycle := hrow.lifecycle
    simp only [JobRow.lifecycleInvalid, hqueued, not_or, not_not] at hlifecycle
    obtain ⟨-, -, hcompletedAt, -, -, -⟩ := hlifecycle
    refine ⟨⟨hrow.counts, hrow.identity, hrow.digest, ?_⟩, rfl,
      .inr ⟨by simp [hqueued, JobStatus.isActive], .inr ?_⟩⟩
    · rintro (hempty | hfilled | herror)
      · exact hvalid hempty
      · exact hfilled hcompletedAt
      · exact herror rfl
    · rw [hqueued]
      exact .start
  | recordProgress jobId phase totalCycles completedCycles =>
    simp only [RepositoryCall.transact, recordProgress, Raising.bind_eq_ok, Raising.raiseIf_eq_ok,
      Raising.pure_eq_ok] at hcall
    obtain ⟨recorded, ⟨⟨⟩, -, ⟨⟩, -, rfl⟩, heq⟩ := hcall
    cases heq
    refine h.update (fun _ => rfl) fun row hrow hhit => ?_
    obtain ⟨-, hrunning⟩ := hasStatus_iff.mp hhit
    have hlifecycle := hrow.lifecycle
    refine ⟨⟨hvalid, hrow.identity, hrow.digest, ?_⟩, rfl,
      .inr ⟨by simp [hrunning, JobStatus.isActive], .inl rfl⟩⟩
    simpa only [JobRow.lifecycleInvalid, hrunning] using hlifecycle
  | markCompleted jobId completedAt cycleCount =>
    exact h.markCompleted hvalid.1 hvalid.2 hcall
  | failActive jobId phase completedAt error =>
    obtain ⟨hphase, hcompletedAt, herror⟩ := hvalid
    cases hcall
    refine h.update (fun _ => rfl) fun row hrow hhit => ?_
    obtain ⟨-, hactive⟩ : hasId jobId row = true ∧ row.status.isActive = true := by simpa using hhit
    exact hrow.fail hactive hphase hcompletedAt (truncated_ne herror)
  | interruptActive completedAt =>
    cases hcall
    refine h.update (fun _ => rfl) fun row hrow hactive => ?_
    exact hrow.fail hactive (.inr rfl) hvalid (by decide)
  | interruptQueued completedAt =>
    cases hcall
    refine h.update (fun _ => rfl) fun row hrow hhit => ?_
    have hqueued : row.status = .queued := by simpa using hhit
    exact hrow.fail (by simp [hqueued, JobStatus.isActive]) (.inr rfl) hvalid (by decide)

end Transactions

section Scripts

/-- The precondition of a call of the manager. -/
def JobOp.Valid : JobOp → Prop
  | repository call => call.Valid
  | _ => True

/-- A script that only makes calls with valid arguments. -/
abbrev Careful {α : Type} (post : α → Prop) (p : JobScript α) : Prop :=
  Program.Script.Safe JobOp.Valid post p

variable {α : Type} {post : α → Prop}

lemma careful_repository {call : RepositoryCall} (h : call.Valid) :
    Careful (fun _ => True) (repository call) :=
  ⟨h, fun _ _ _ => trivial⟩

lemma careful_service (call : ServiceCall) : Careful (fun _ => True) (service call) :=
  ⟨trivial, fun _ _ _ => trivial⟩

lemma careful_check {r : Except Raised α} (h : ∀ a, r = .ok a → post a) : Careful post (check r) := h

lemma careful_check_true (r : Except Raised α) : Careful (fun _ => True) (check r) :=
  fun _ _ => trivial

lemma careful_perform {op : JobOp} (h : op.Valid) : Careful (fun _ => True) (perform op) :=
  .perform h

lemma careful_seq {β : Type} {post' : β → Prop} {p : JobScript α} {f : α → JobScript β}
    (h : Careful post p) (hf : ∀ a, Careful post' (f a)) : Careful post' (p >>= f) :=
  h.bind _ fun a _ => hf a

/-- What a completion is recorded with. -/
def IsEvidence (evidence : String × ℤ) : Prop := evidence.1 ≠ "" ∧ 0 ≤ evidence.2

/-- Evidence, where there is some. -/
def MaybeEvidence (evidence : Option (String × ℤ)) : Prop := ∀ e, evidence = some e → IsEvidence e

lemma careful_catalogEvidence (backtestId : String) (request : Json) :
    Careful (fun _ => True) (catalogEvidence backtestId request) := by
  refine careful_seq (careful_service _) fun row => ?_
  cases row with
  | some row => exact careful_seq (careful_service _) fun _ => .pure trivial
  | none =>
    refine careful_seq (careful_service _) fun recovered => ?_
    cases recovered with
    | none => exact .pure trivial
    | some recovered =>
      refine careful_seq (careful_service _) fun row => ?_
      cases row with
      | none => exact .throw
      | some row => exact .pure trivial

lemma careful_resultMetrics (backtestId : String) (recovered : Option Json) :
    Careful (fun _ => True) (resultMetrics backtestId recovered) := by
  cases recovered with
  | some recovered => exact careful_check_true _
  | none => exact careful_seq (careful_service _) fun _ => careful_check_true _

lemma requireCycleCount_eq_ok {row : CatalogRow} {cycleCount : Json} {evidence : String × ℤ}
    (h : requireCycleCount row cycleCount = .ok evidence) :
    evidence.1 = row.completedAt ∧ 0 ≤ evidence.2 := by
  unfold requireCycleCount at h
  split at h
  · simp only [Raising.bind_eq_ok] at h
    obtain ⟨⟨⟩, -, h⟩ := h
    split at h
    · simp only [Raising.bind_eq_ok, Raising.raiseIf_eq_ok, Raising.pure_eq_ok] at h
      obtain ⟨⟨⟩, hcount, rfl⟩ := h
      exact ⟨rfl, by simpa using hcount⟩
    · cases h
  · cases h

lemma careful_completedEvidence (jobId backtestId : String) :
    Careful MaybeEvidence (completedEvidence jobId backtestId) := by
  refine careful_seq (careful_repository trivial) fun request => ?_
  cases request with
  | none => exact .pure fun e he => nomatch he
  | some request =>
    refine careful_seq (careful_catalogEvidence _ _) fun found => ?_
    match found with
    | none => exact .pure fun e he => nomatch he
    | some (row, recovered) =>
      have hcompleted : Careful (fun _ => row.completedAt ≠ "") (check (Raising.raiseIf
          ((row.status ≠ "completed" ∧ row.status ≠ "archived") ∨ row.completedAt = "")
          (.valueError "Recovered Backtest catalog state is invalid."))) := by
        refine careful_check fun _ h => ?_
        exact fun hempty => (Raising.raiseIf_eq_ok.mp h) (.inr hempty)
      refine hcompleted.bind _ fun _ hfilled => ?_
      refine careful_seq (careful_resultMetrics _ _) fun metrics => ?_
      refine careful_seq (careful_check_true _) fun _ => careful_seq (careful_check_true _) fun _ => ?_
      refine careful_seq (careful_check_true _) fun cycleCount => ?_
      refine Program.Script.Safe.bind IsEvidence (careful_check fun evidence h => ?_) ?_
      · obtain ⟨hcompletedAt, hcount⟩ := requireCycleCount_eq_ok h
        exact ⟨hcompletedAt ▸ hfilled, hcount⟩
      · intro evidence hevidence
        refine .pure fun e he => ?_
        cases he
        exact hevidence

/-- Completions, each with its evidence. -/
def AllEvidence (completed : List (String × String × ℤ)) : Prop := ∀ c ∈ completed, IsEvidence c.2

lemma careful_collectEvidence {completed : List (String × String × ℤ)} (h : AllEvidence completed)
    (reference : String × String × JobStatus) :
    Careful AllEvidence (collectEvidence completed reference) := by
  obtain ⟨jobId, backtestId, status⟩ := reference
  refine .ite (fun _ => .pure h) fun _ => ?_
  refine (careful_completedEvidence _ _).bind _ fun evidence hevidence => ?_
  cases evidence with
  | none => exact .pure h
  | some evidence =>
    refine .pure fun c hc => ?_
    rcases List.mem_append.mp hc with hc | hc
    · exact h c hc
    · exact List.mem_singleton.mp hc ▸ hevidence evidence rfl

lemma careful_failInterruptedJobs : Careful (fun _ => True) failInterruptedJobs := by
  refine careful_seq (careful_repository trivial) fun references => ?_
  refine Program.Script.Safe.bind AllEvidence
    (.foldlM (by simp [AllEvidence]) fun completed h reference _ => careful_collectEvidence h reference) ?_
  intro completed hcompleted
  have hmark : ∀ c ∈ completed, Careful (fun _ => True) (completeRecovered () c) := by
    intro c hc
    exact careful_seq (careful_repository (hcompleted c hc)) fun _ => .pure trivial
  refine careful_seq (Program.Script.Safe.foldlM (I := fun _ => True) trivial fun _ _ c hc => hmark c hc) fun _ => ?_
  exact careful_seq (careful_perform trivial) fun now => careful_repository now.2

lemma careful_construct : Careful (fun _ => True) construct := by
  refine careful_seq (careful_service _) fun _ => careful_seq (careful_service _) fun _ => ?_
  exact careful_seq careful_failInterruptedJobs fun _ => careful_perform trivial

lemma careful_failJob {jobId error phase : String} (hphase : phase = "failed" ∨ phase = "interrupted")
    (herror : error ≠ "") : Careful (fun _ => True) (failJob jobId error phase) := by
  refine careful_seq (careful_perform trivial) fun now => ?_
  refine careful_seq (careful_repository ⟨hphase, now.2, herror⟩) fun changed => ?_
  refine .ite (fun _ => ?_) fun _ => .pure trivial
  refine careful_seq (careful_repository trivial) fun job => ?_
  exact careful_seq (careful_perform trivial) fun _ => .pure trivial

lemma careful_admittedRequest (capabilities : Capabilities) (submission : Submission) :
    Careful (fun _ => True) (admittedRequest capabilities submission) := by
  unfold admittedRequest
  split
  · exact careful_service _
  · refine careful_seq (careful_check_true _) fun identity => ?_
    exact careful_seq (careful_service _) fun _ => careful_service _

lemma requireFilled_eq_ok {value : Json} {message text : String}
    (h : requireFilled value message = .ok text) : text ≠ "" := by
  unfold requireFilled at h
  split at h
  · simp only [Raising.bind_eq_ok, Raising.raiseIf_eq_ok, Raising.pure_eq_ok] at h
    obtain ⟨⟨⟩, hfilled, rfl⟩ := h
    exact hfilled
  · cases h

lemma careful_submit (capabilities : Capabilities) (submission : Submission) :
    Careful (fun _ => True) (submit capabilities submission) := by
  refine careful_seq (careful_perform trivial) fun stopping => ?_
  refine careful_seq (careful_check_true _) fun _ => careful_seq (careful_check_true _) fun _ => ?_
  refine careful_seq (careful_admittedRequest _ _) fun request => ?_
  refine careful_seq (careful_check_true _) fun pipeline => careful_seq (careful_check_true _) fun pipelineId => ?_
  refine careful_seq (careful_check_true _) fun datasetId => ?_
  refine Program.Script.Safe.bind (· ≠ "") (careful_check fun _ => requireFilled_eq_ok) ?_
  intro pipelineId hpipeline
  refine Program.Script.Safe.bind (· ≠ "") (careful_check fun _ => requireFilled_eq_ok) ?_
  intro datasetId hdataset
  refine careful_seq (careful_perform trivial) fun jobId => careful_seq (careful_perform trivial) fun backtestId => ?_
  have hinsert : Careful (fun _ => True) (do
      let now ← utcNow
      let snapshot ← check (item request "executionSnapshot")
      let snapshotHash ← check (item snapshot "snapshotHash")
      repository (.insertQueued ⟨jobId.1, backtestId.1, pipelineId, datasetId, request, now.1,
        snapshotHash⟩)) := by
    refine careful_seq (careful_perform trivial) fun now => careful_seq (careful_check_true _) fun snapshot => ?_
    refine careful_seq (careful_check_true _) fun snapshotHash => ?_
    exact careful_repository ⟨jobId.2, hpipeline, hdataset, now.2⟩
  refine careful_seq (hinsert.tryCatch fun e => .throw) fun _ => ?_
  refine careful_seq (careful_repository trivial) fun job => careful_seq (careful_perform trivial) fun _ => ?_
  have hsubmit : Careful (fun _ => True)
      (ExceptT.mk (Program.perform (JobOp.submitTask ⟨jobId.1, backtestId.1, request⟩))) :=
    ⟨trivial, fun _ _ _ => trivial⟩
  refine careful_seq (hsubmit.tryCatch fun e => ?_) fun _ => .pure trivial
  exact careful_seq (careful_failJob (.inl rfl) e.describe_ne) fun _ => .throw

lemma progressUpdate_eq_ok {completedCycles totalCycles phase : Json} {update : ℤ × ℤ × String}
    (h : progressUpdate completedCycles totalCycles phase = .ok update) :
    0 ≤ update.2.1 ∧ 0 ≤ update.1 ∧ (0 < update.2.1 → update.1 ≤ update.2.1) := by
  unfold progressUpdate at h
  dsimp only at h
  split at h
  · simp only [Raising.bind_eq_ok, Raising.raiseIf_eq_ok, Raising.pure_eq_ok] at h
    obtain ⟨⟨⟩, hvalid, rfl⟩ := h
    dsimp only
    omega
  · cases h

lemma careful_progress (jobId : String) (last : LastWrite) (completedCycles totalCycles phase : Json) :
    Careful (fun _ => True) (progress jobId last completedCycles totalCycles phase) := by
  refine careful_seq (careful_perform trivial) fun stopping => careful_seq (careful_check_true _) fun _ => ?_
  refine Program.Script.Safe.bind
    (fun update : ℤ × ℤ × String => 0 ≤ update.2.1 ∧ 0 ≤ update.1 ∧
      (0 < update.2.1 → update.1 ≤ update.2.1))
    (careful_check fun _ => progressUpdate_eq_ok) ?_
  rintro ⟨completed, total, phase⟩ hcounts
  refine careful_seq (careful_perform trivial) fun now => .ite (fun _ => .pure trivial) fun _ => ?_
  exact careful_seq (careful_repository hcounts) fun _ => .pure trivial

lemma careful_runLaunch (jobId : String) (launch : Launch) (last : LastWrite) :
    Careful (fun _ => True) (runLaunch jobId launch last) := by
  induction launch generalizing last with
  | returns => exact .pure trivial
  | raises e => exact .throw
  | progress completedCycles totalCycles phase next ih =>
    unfold runLaunch
    refine careful_seq (careful_progress _ _ _ _ _).attempt fun written => ?_
    cases written with
    | ok written => exact ih _ written
    | error e => exact ih _ last

lemma careful_completeJob {jobId : String} {evidence : String × ℤ} (h : IsEvidence evidence) :
    Careful (fun _ => True) (completeJob jobId evidence) := by
  refine careful_seq (careful_repository h) fun _ => careful_seq (careful_repository trivial) fun job => ?_
  exact careful_perform trivial

lemma careful_runTask (task : Task) : Careful (fun _ => True) (runTask task) := by
  refine careful_seq (careful_perform trivial) fun stopping => careful_seq (careful_check_true _) fun _ => ?_
  refine careful_seq (careful_perform trivial) fun now => careful_seq (careful_repository now.2) fun _ => ?_
  refine careful_seq (careful_repository trivial) fun job => careful_seq (careful_perform trivial) fun _ => ?_
  refine careful_seq (careful_service _) fun _ => careful_seq (careful_perform trivial) fun launch => ?_
  refine careful_seq (careful_runLaunch _ _ _) fun _ => ?_
  refine (careful_completedEvidence _ _).bind _ fun evidence hevidence => ?_
  cases evidence with
  | none => exact .throw
  | some evidence => exact careful_completeJob (hevidence evidence rfl)

lemma failureText_ne (e : Raised) (verification : Option Raised) : failureText e verification ≠ "" := by
  unfold failureText
  split
  · exact e.describe_ne
  · split_ifs
    · exact e.describe_ne
    · intro hempty
      obtain ⟨⟨⟨htext, -⟩, -⟩, -⟩ := by simpa using hempty
      exact absurd htext (by decide)

lemma careful_settleFailure (task : Task) (e : Raised) :
    Careful (fun _ => True) (settleFailure task e) := by
  refine careful_seq (careful_perform trivial) fun authority => .ite (fun _ => .pure trivial) fun _ => ?_
  refine (careful_completedEvidence _ _).attempt.bind _ fun found hfound => ?_
  have hphase : ∀ stopping : Bool, (if stopping then "interrupted" else "failed") = "failed" ∨
      (if stopping then "interrupted" else "failed") = "interrupted" := by
    decide
  match found with
  | .ok (some evidence) => exact careful_completeJob (hfound _ rfl evidence rfl)
  | .ok none =>
    refine careful_seq (careful_perform trivial) fun stopping => ?_
    exact careful_seq (careful_failJob (hphase stopping) (failureText_ne _ _)) fun _ => .pure trivial
  | .error secondary =>
    refine careful_seq (careful_perform trivial) fun stopping => ?_
    exact careful_seq (careful_failJob (hphase stopping) (failureText_ne _ _)) fun _ => .pure trivial

lemma careful_execute (task : Task) : Careful (fun _ => True) (execute task) := by
  refine ((careful_runTask task).tryCatch (careful_settleFailure task)).finally_ ?_
  refine careful_seq (careful_perform trivial) fun authority => .ite (fun _ => ?_) fun _ => .pure trivial
  exact careful_perform trivial

lemma careful_settleRetained {jobId : String} {evidence : Option (String × ℤ)}
    (h : MaybeEvidence evidence) : Careful (fun _ => True) (settleRetained jobId evidence) := by
  cases evidence with
  | some evidence => exact careful_completeJob (h evidence rfl)
  | none => exact careful_seq (careful_failJob (.inr rfl) (by decide)) fun _ => .pure trivial

lemma careful_shutdownRetained (first : Option Raised) (jobId : String) :
    Careful (fun _ => True) (shutdownRetained first jobId) := by
  refine careful_seq (careful_perform trivial) fun authority => .ite (fun _ => .pure trivial) fun _ => ?_
  have hretained : Careful MaybeEvidence (retainedEvidence jobId) :=
    careful_seq (careful_repository trivial) fun job => careful_completedEvidence _ _
  refine hretained.attempt.bind _ fun found hfound => ?_
  have hevidence : MaybeEvidence (foundEvidence found) := by
    cases found with
    | ok evidence => exact hfound evidence rfl
    | error e => exact fun e he => nomatch he
  refine careful_seq (careful_settleRetained hevidence).attempt fun settled => ?_
  cases settled with
  | ok _ => exact careful_seq (careful_perform trivial) fun _ => .pure trivial
  | error e => exact .pure trivial

lemma careful_stopExecutor : Careful (fun _ => True) stopExecutor := by
  refine careful_seq (careful_service _).attempt fun stopped => ?_
  cases stopped with
  | ok _ => exact .pure trivial
  | error e => exact careful_seq (careful_service _).attempt fun retried => .pure trivial

lemma careful_shutdown : Careful (fun _ => True) shutdown := by
  refine careful_seq (careful_perform trivial) fun _ => careful_seq (careful_perform trivial) fun _ => ?_
  refine careful_seq careful_stopExecutor fun stopped => ?_
  refine careful_seq (careful_service _).attempt fun runtimes => ?_
  refine careful_seq (careful_perform trivial) fun retained => ?_
  refine careful_seq (careful_perform trivial) fun now => ?_
  refine careful_seq (Program.Script.Safe.foldlM (I := fun _ => True) trivial
    fun first _ jobId _ => careful_shutdownRetained first jobId) fun first => ?_
  exact careful_seq (careful_repository now.2) fun _ => careful_check_true _

end Scripts

section Engine

variable (evidenceDigest : Json → Sha256Digest) (capabilities : Capabilities)

/-- A call of the manager keeps the rows valid and moves them forward. -/
lemma exec_rows {op : JobOp} (answer : op.Answer) {s : JobMemory} (hop : op.Valid)
    (h : RowsValid s.rows) : RowsValid (op.exec evidenceDigest answer s).2.rows ∧
      RowsMove s.rows (op.exec evidenceDigest answer s).2.rows := by
  have hsame : RowsValid s.rows ∧ RowsMove s.rows s.rows := ⟨h, .refl s.rows⟩
  cases op with
  | repository call =>
    change RowsValid (commitCall evidenceDigest call answer s).2.rows ∧
      RowsMove s.rows (commitCall evidenceDigest call answer s).2.rows
    unfold commitCall
    split
    · exact hsame
    · next hcall => exact h.transact hop hcall
    · exact hsame
  | submitTask task =>
    cases answer with
    | ok _ => exact hsame
    | error e => exact hsame
  | _ => exact hsame

lemma spawn_rows {request : JobRequest} {s s' : JobMemory} {program : Program JobOp JobOp.Res Unit}
    (h : request.spawn capabilities s = some (program, s')) :
    s'.rows = s.rows ∧ program.Safe JobOp.Valid fun _ => True := by
  cases request with
  | construct =>
    simp only [JobRequest.spawn, Option.ite_none_left_eq_some, Option.some.injEq, Prod.mk.injEq] at h
    obtain ⟨-, rfl, rfl⟩ := h
    exact ⟨rfl, careful_construct.thread⟩
  | submit submission =>
    simp only [JobRequest.spawn, Option.ite_none_right_eq_some, Option.some.injEq, Prod.mk.injEq] at h
    obtain ⟨-, rfl, rfl⟩ := h
    exact ⟨rfl, (careful_submit _ _).thread⟩
  | work =>
    unfold JobRequest.spawn at h
    dsimp only at h
    split at h
    · cases h
    · cases h
      exact ⟨rfl, (careful_execute _).thread⟩
  | shutdown =>
    simp only [JobRequest.spawn, Option.ite_none_right_eq_some, Option.some.injEq, Prod.mk.injEq] at h
    obtain ⟨-, rfl, rfl⟩ := h
    exact ⟨rfl, careful_shutdown.thread⟩

/-- Calls, requests and crashes keep the rows valid. -/
lemma engine_keeps :
    (engine evidenceDigest capabilities).Keeps (fun s => RowsValid s.rows) JobOp.Valid where
  exec op answer s hop h := (exec_rows evidenceDigest answer hop h).1
  spawn request s program s' h hspawn := by
    obtain ⟨hrows, hsafe⟩ := spawn_rows capabilities hspawn
    exact ⟨hrows.symm ▸ h, hsafe⟩
  crash s h := h

/-- An event moves the rows at most one step. -/
lemma engine_moves {c : Machine.Config JobOp JobOp.Res JobMemory}
    (h : Machine.Sound (fun s : JobMemory => RowsValid s.rows) JobOp.Valid c)
    (e : (engine evidenceDigest capabilities).Event) :
    RowsMove c.memory.rows ((engine evidenceDigest capabilities).step c e).memory.rows := by
  refine h.relates (R := fun s s' : JobMemory => RowsMove s.rows s'.rows) (fun s => .refl s.rows)
    ?_ ?_ (fun s _ => .refl s.rows) e
  · exact fun op answer s hop hs => (exec_rows evidenceDigest answer hop hs).2
  · intro request s program s' _ hspawn
    rw [(spawn_rows capabilities hspawn).1]
    exact .refl s.rows

/-- A job keeps its identifier, follows the lifecycle, and never changes once it is done. -/
def JobRow.Evolves (row row' : JobRow) : Prop :=
  row'.jobId = row.jobId ∧ Relation.ReflTransGen JobStatus.Next row.status row'.status ∧
    (row.status.isActive = false → row' = row)

/-- The jobs at the end of a run: those at its beginning, evolved, and jobs that were queued on the
way. -/
structure RowsEvolve (rows rows' : List JobRow) : Prop where
  kept : ∀ row ∈ rows, ∃ row' ∈ rows', row.Evolves row'
  origin : ∀ row' ∈ rows', (∃ row ∈ rows, row.Evolves row') ∨
    Relation.ReflTransGen JobStatus.Next .queued row'.status

lemma JobRow.MovesTo.evolves {row row' : JobRow} (h : row.MovesTo row') : row.Evolves row' := by
  obtain ⟨hid, hsame | ⟨hactive, hstatus⟩⟩ := h
  · exact ⟨hid, hsame ▸ .refl, fun _ => hsame⟩
  · refine ⟨hid, ?_, fun hidle => ?_⟩
    · rcases hstatus with hstatus | hstatus
      · rw [hstatus]
      · exact .single hstatus
    · rw [hactive] at hidle
      cases hidle

lemma JobRow.Evolves.trans {a b c : JobRow} (hab : a.Evolves b) (hbc : b.Evolves c) : a.Evolves c := by
  refine ⟨hbc.1.trans hab.1, hab.2.1.trans hbc.2.1, fun hidle => ?_⟩
  have hb := hab.2.2 hidle
  rw [hb] at hbc
  exact hbc.2.2 hidle

lemma RowsMove.evolve {rows rows' : List JobRow} (h : RowsMove rows rows') : RowsEvolve rows rows' := by
  refine ⟨fun row hrow => ?_, fun row' hrow' => ?_⟩
  · obtain ⟨row', hrow', hmoves⟩ := h.kept row hrow
    exact ⟨row', hrow', hmoves.evolves⟩
  · rcases h.origin row' hrow' with ⟨row, hrow, hmoves⟩ | hqueued
    · exact .inl ⟨row, hrow, hmoves.evolves⟩
    · exact .inr (hqueued ▸ .refl)

lemma RowsEvolve.trans {a b c : List JobRow} (hab : RowsEvolve a b) (hbc : RowsEvolve b c) :
    RowsEvolve a c := by
  refine ⟨fun row hrow => ?_, fun row'' hrow'' => ?_⟩
  · obtain ⟨row', hrow', hrow⟩ := hab.kept row hrow
    obtain ⟨row'', hrow'', hrow'⟩ := hbc.kept row' hrow'
    exact ⟨row'', hrow'', hrow.trans hrow'⟩
  · rcases hbc.origin row'' hrow'' with ⟨row', hrow', hevolves⟩ | hqueued
    · rcases hab.origin row' hrow' with ⟨row, hrow, hrow'⟩ | hqueued
      · exact .inl ⟨row, hrow, hrow'.trans hevolves⟩
      · exact .inr (hqueued.trans hevolves.2.1)
    · exact .inr hqueued

open Transitions

/-- In every run of the engine, with crashes anywhere: the row check accepts every row, one event
moves a job at most one step of the lifecycle, and over any longer run a job follows the lifecycle
and no longer changes once it is completed or failed. -/
theorem jobLifecycle (earlier later : List (engine evidenceDigest capabilities).Event)
    (event : (engine evidenceDigest capabilities).Event) :
    let engine := engine evidenceDigest capabilities
    let before := run engine.step ⟨{}, []⟩ earlier
    let after := run engine.step before later
    (before.memory.rows.map JobRow.jobId).Nodup ∧
      (∀ row ∈ before.memory.rows, ∃ job, publicJob row = .ok job) ∧
      RowsMove before.memory.rows (engine.step before event).memory.rows ∧
      RowsEvolve before.memory.rows after.memory.rows := by
  intro engine before after
  have hempty : Machine.Sound (fun s : JobMemory => RowsValid s.rows) JobOp.Valid
      (⟨{}, []⟩ : Machine.Config JobOp JobOp.Res JobMemory) :=
    ⟨⟨List.nodup_nil, by simp⟩, by simp⟩
  have hbefore : Machine.Sound (fun s : JobMemory => RowsValid s.rows) JobOp.Valid before :=
    hempty.run (engine_keeps evidenceDigest capabilities) earlier
  refine ⟨hbefore.memory.keys, fun row hrow => exists_publicJob (hbefore.memory.valid row hrow),
    engine_moves evidenceDigest capabilities hbefore event, ?_⟩
  refine hbefore.run_relates (R := fun s s' : JobMemory => RowsEvolve s.rows s'.rows)
    (engine_keeps evidenceDigest capabilities) ?_ ?_ ?_ later
  · exact fun s => (RowsMove.refl s.rows).evolve
  · exact fun a b c hab hbc => hab.trans hbc
  · exact fun c e hc => (engine_moves evidenceDigest capabilities hc e).evolve

end Engine

end TradeFramework.Jobs
