import TradeFramework.Mining.Leases

/-!
# Calls beside the record index

The record versions and the gaps are written by page commits alone; a refill request marks a gap,
and a new job brings its continuity step along. Every other call leaves the three as they are.
-/

namespace TradeFramework.Mining

variable {s s' t : MiningState}

/-- The column of a job that the gap index reads. -/
def JobRow.continuity (j : JobRow) : String × Option ℚ := (j.jobId, j.continuityStep)

/-- The record versions, the gaps and the continuity steps are the same. -/
structure IndexKept (s s' : MiningState) : Prop where
  versions : s'.versions = s.versions
  gaps : s'.gaps = s.gaps
  steps : s'.jobs.map JobRow.continuity = s.jobs.map JobRow.continuity

namespace IndexKept

lemma refl (s : MiningState) : IndexKept s s := ⟨rfl, rfl, rfl⟩

lemma trans (h : IndexKept s s') (h' : IndexKept s' t) : IndexKept s t :=
  ⟨h'.versions.trans h.versions, h'.gaps.trans h.gaps, h'.steps.trans h.steps⟩

lemma event (h : IndexKept s s') (clock : Clock) (text jobId : String)
    (payload : List (String × Json)) : IndexKept s (s'.event clock text jobId payload) :=
  ⟨h.versions, h.gaps, h.steps⟩

lemma metric (h : IndexKept s s') (text : String) (amount : ℤ) :
    IndexKept s (s'.metric text amount) :=
  ⟨h.versions, h.gaps, h.steps⟩

lemma updateRefills (h : IndexKept s s') (hit : RefillRow → Bool) (change : RefillRow → RefillRow) :
    IndexKept s (s'.updateRefills hit change) :=
  ⟨h.versions, h.gaps, h.steps⟩

lemma updateJobs (h : IndexKept s s') (hit : JobRow → Bool) {change : JobRow → JobRow}
    (hchange : ∀ j, (change j).continuity = j.continuity) :
    IndexKept s (s'.updateJobs hit change) :=
  ⟨h.versions, h.gaps, (Table.map_update JobRow.continuity hchange).trans h.steps⟩

lemma recoverLease (h : IndexKept s s') (clock : Clock) (row : JobRow) :
    IndexKept s (recoverLease clock s' row) := by
  unfold Mining.recoverLease
  refine event (updateRefills (updateJobs h _ ?_) _ _) _ _ _ _
  exact fun _ => rfl

lemma blockUnadmitted (h : IndexKept s s') (clock : Clock) (row : JobRow) :
    IndexKept s (blockUnadmitted clock s' row) := by
  unfold Mining.blockUnadmitted
  refine metric (event (updateRefills (updateJobs h _ ?_) _ _) _ _ _ _) _ _
  exact fun _ => rfl

lemma leaseJob (h : IndexKept s s') (clock : Clock) (owner : String) (leaseSeconds : ℚ)
    (row : JobRow) : IndexKept s (leaseJob clock s' owner leaseSeconds row) := by
  unfold Mining.leaseJob
  dsimp only
  split
  · exact event (h.updateJobs _ (by intro; rfl)) _ _ _ _
  · exact event (updateRefills (h.updateJobs _ (by intro; rfl)) _ _) _ _ _ _

lemma settle (h : IndexKept s s') (commit : PageCommit) (clock : Clock) (lease : JobRow) :
    IndexKept s (commit.settle clock lease s') := by
  unfold PageCommit.settle
  dsimp only
  refine updateJobs ?_ _ fun _ => rfl
  have hpositioned : IndexKept s (if commit.lane = .main ∧ commit.nextCursor.isSome then
      s'.updateJobs (hasId commit.jobId) fun j => { j with cursor := commit.nextCursor } else s') := by
    split_ifs
    · exact h.updateJobs _ (by intro; rfl)
    · exact h
  split
  · exact hpositioned
  · exact hpositioned.updateRefills _ _

end IndexKept

/-- The calls that may write the versions, the gaps or the continuity steps. -/
def MiningCall.isIndexing : MiningCall → Bool
  | createJob .. | queueRefill .. | commitPage .. => true
  | _ => false

variable {gapIdentifier : String → ℚ → ℚ → String}

/-- A call that is no indexing call leaves the record index as it is. -/
theorem transact_indexKept {call : MiningCall} (hindexing : call.isIndexing = false)
    (hcall : call.transact gapIdentifier s = .ok s') : IndexKept s s' := by
  have hself : IndexKept s s := .refl s
  cases call with
  | createJob request clock => cases hindexing
  | queueRefill refillId jobId gapId cursor clock => cases hindexing
  | commitPage commit clock => cases hindexing
  | pauseJob jobId clock =>
    simp only [MiningCall.transact, pauseJob] at hcall
    split at hcall
    · cases hcall
    · cases hcall
      split_ifs
      · exact (hself.updateJobs _ (by intro; rfl)).event _ _ _ _
      · exact (hself.updateJobs _ (by intro; rfl)).event _ _ _ _
  | resumeJob jobId clock =>
    simp only [MiningCall.transact, resumeJob, Raising.bind_eq_ok, Raising.raiseIf_eq_ok,
      Raising.pure_eq_ok] at hcall
    obtain ⟨⟨⟩, -, rfl⟩ := hcall
    exact (hself.updateJobs _ (by intro; rfl)).event _ _ _ _
  | runNow jobId clock =>
    simp only [MiningCall.transact, runNow] at hcall
    split at hcall
    · cases hcall
    · split_ifs at hcall
      · cases hcall
        exact hself
      · cases hcall
        exact (hself.updateJobs _ (by intro; rfl)).event _ _ _ _
  | recoverExpiredLeases clock =>
    cases hcall
    unfold recoverExpiredLeases
    dsimp only
    have hrows : ∀ (rows : List JobRow) (t : MiningState), IndexKept s t →
        IndexKept s (rows.foldl (recoverLease clock) t) := by
      intro rows
      induction rows with
      | nil => exact fun t ht => ht
      | cons row rows ih => exact fun t ht => ih _ (ht.recoverLease clock row)
    split_ifs
    · exact hrows _ s hself
    · exact (hrows _ s hself).metric _ _
  | claimNext owner leaseSeconds allowed clock =>
    cases hcall
    have hadmitted : IndexKept s (admitNext clock allowed s).2 :=
      admitNext_invariant (fun t row ht _ => ht.blockUnadmitted clock row) hself
    unfold claimNext
    split
    · next heq => simpa [heq] using hadmitted
    · next heq =>
      rw [heq] at hadmitted
      exact hadmitted.leaseJob _ _ _ _
  | beginActive jobId owner lane cursor refillId leaseSeconds clock =>
    simp only [MiningCall.transact, beginActive, Raising.bind_eq_ok, Raising.raiseIf_eq_ok,
      Raising.pure_eq_ok] at hcall
    obtain ⟨⟨⟩, -, rfl⟩ := hcall
    exact hself.updateJobs _ (by intro; rfl)
  | transition jobId owner status leaseSeconds clock =>
    simp only [MiningCall.transact, transition, Raising.bind_eq_ok, Raising.raiseIf_eq_ok,
      Raising.pure_eq_ok] at hcall
    obtain ⟨⟨⟩, -, ⟨⟩, -, rfl⟩ := hcall
    exact hself.updateJobs _ (by intro; rfl)
  | heartbeat jobId owner leaseSeconds clock =>
    cases hcall
    exact hself.updateJobs _ (by intro; rfl)
  | retryJob jobId owner error retryAfter jitter clock =>
    cases hcall
    unfold retryJob
    split
    · exact hself
    · exact (((hself.updateJobs _ (by intro; rfl)).updateRefills _ _).event _ _ _ _).metric _ _
  | releaseJob jobId owner clock =>
    cases hcall
    unfold releaseJob
    split
    · exact hself
    · exact (hself.updateJobs _ (by intro; rfl)).updateRefills _ _
  | blockJob jobId owner reason clock =>
    cases hcall
    exact (((hself.updateJobs _ (by intro; rfl)).updateRefills _ _).event _ _ _ _).metric _ _

/-- A new job is the last row, under an id of its own. -/
lemma createJob_eq_ok {request : JobRequest} {clock : Clock}
    (h : createJob request clock s = .ok s') :
    s'.versions = s.versions ∧ s'.gaps = s.gaps ∧
      (∃ row : JobRow, s'.jobs = s.jobs ++ [row] ∧ row.jobId = request.jobId ∧
        row.continuityStep = request.continuityStep) ∧ s.job? request.jobId = none ∧
      ∀ step ∈ request.continuityStep, 0 < step := by
  simp only [createJob, Raising.bind_eq_ok, Raising.raiseIf_eq_ok, Raising.pure_eq_ok] at h
  obtain ⟨⟨⟩, -, ⟨⟩, -, ⟨⟩, -, ⟨⟩, -, ⟨⟩, -, ⟨⟩, hstep, ⟨⟩, hnew, rfl⟩ := h
  refine ⟨rfl, rfl, ⟨_, rfl, rfl, rfl⟩, by simpa using hnew, ?_⟩
  intro step hsome
  rw [Option.mem_def.mp hsome] at hstep
  have hbounds : 0 < step ∧ step ≤ 10 ^ 15 := by simpa using hstep
  exact hbounds.1

/-- A gap of a refill request. -/
def GapRow.queued (text : String) (g : GapRow) : GapRow :=
  { g with status := .backfillQueued, lastCheckedAt := text }

/-- A refill request marks at most the gap it names, which is not resolved. -/
lemma queueRefill_eq_ok {refillId jobId gapId : String} {cursor : Json} {clock : Clock}
    (h : queueRefill refillId jobId gapId cursor clock s = .ok s') :
    s'.versions = s.versions ∧ s'.jobs.map JobRow.continuity = s.jobs.map JobRow.continuity ∧
      (s'.gaps = s.gaps ∨
        s'.gaps = Table.update (fun g => g.gapId == gapId) (GapRow.queued clock.text) s.gaps) ∧
      ∃ g ∈ s.gaps, g.gapId = gapId ∧ g.status ≠ .resolved := by
  simp only [queueRefill, Raising.bind_eq_ok, Raising.raiseIf_eq_ok] at h
  obtain ⟨⟨⟩, -, ⟨⟩, hopen, h⟩ := h
  have hgap : ∃ g ∈ s.gaps, g.gapId = gapId ∧ g.status ≠ .resolved := by
    have hopen : ∃ g ∈ s.gaps, g.jobId = jobId ∧ g.gapId = gapId ∧ ¬g.status = .resolved := by
      simpa using hopen
    obtain ⟨g, hg, -, hid, hstatus⟩ := hopen
    exact ⟨g, hg, hid, hstatus⟩
  split_ifs at h
  · cases h
    exact ⟨rfl, rfl, .inl rfl, hgap⟩
  · simp only [Raising.bind_eq_ok, Raising.raiseIf_eq_ok, Raising.pure_eq_ok] at h
    obtain ⟨⟨⟩, -, rfl⟩ := h
    refine ⟨rfl, ?_, .inr rfl, hgap⟩
    exact Table.map_update JobRow.continuity fun _ => rfl

/-- A committed page, between the record loop and the job row. -/
lemma commitPage_eq_ok {commit : PageCommit} {clock : Clock}
    (h : commitPage gapIdentifier commit clock s = .ok s') :
    ∃ lease ∈ s.jobs, lease.jobId = commit.jobId ∧
      ∃ stored, commit.storePage gapIdentifier clock lease s = .ok stored ∧ IndexKept stored.1 s' := by
  simp only [commitPage, Raising.bind_eq_ok, Raising.raiseIf_eq_ok] at h
  obtain ⟨⟨⟩, -, h⟩ := h
  split at h
  · cases h
  · next lease hlease =>
    simp only [Raising.bind_eq_ok, Raising.pure_eq_ok] at h
    obtain ⟨stored, hstored, rfl⟩ := h
    obtain ⟨hmem, hid, -⟩ := committingJob?_eq_some hlease
    refine ⟨lease, hmem, hid, stored, hstored, ?_⟩
    have hsettled : IndexKept stored.1 (commit.settle clock lease stored.1) :=
      (IndexKept.refl stored.1).settle commit clock lease
    exact ⟨hsettled.versions, hsettled.gaps, hsettled.steps⟩

end TradeFramework.Mining
