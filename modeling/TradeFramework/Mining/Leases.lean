import TradeFramework.Mining.Store

/-!
# Job leases

A job is active exactly while somebody holds its lease, and a pause request waits only for an
active job. Every call of the store keeps this except `block_job` on a job with a pause request,
which takes the lease and leaves the request behind.
-/

namespace TradeFramework.Mining

section Rows

variable {s : MiningState}

/-- The primary keys of `jobs` and `refill_tasks`. -/
structure Keyed (s : MiningState) : Prop where
  jobs : (s.jobs.map JobRow.jobId).Nodup
  refills : (s.refills.map RefillRow.refillId).Nodup

lemma hasId_iff {jobId : String} {j : JobRow} : hasId jobId j = true ↔ j.jobId = jobId := by
  simp [hasId]

lemma isOwned_iff {jobId owner : String} {j : JobRow} :
    isOwned jobId owner j = true ↔ j.jobId = jobId ∧ j.leaseOwner = some owner := by
  simp [isOwned]

lemma job?_eq_some {jobId : String} {row : JobRow} (h : s.job? jobId = some row) :
    row ∈ s.jobs ∧ row.jobId = jobId := by
  have hid := List.find?_some h
  exact ⟨List.mem_of_find?_eq_some h, by simpa using hid⟩

lemma ownedJob?_eq_some {jobId owner : String} {row : JobRow}
    (h : s.ownedJob? jobId owner = some row) :
    row ∈ s.jobs ∧ row.jobId = jobId ∧ row.leaseOwner = some owner := by
  have hid := List.find?_some h
  exact ⟨List.mem_of_find?_eq_some h, by simpa using hid⟩

lemma committingJob?_eq_some {commit : PageCommit} {row : JobRow}
    (h : committingJob? commit s = some row) : row ∈ s.jobs ∧ row.jobId = commit.jobId ∧
      row.leaseOwner = some commit.owner ∧ row.status = .committing := by
  have hid := List.find?_some h
  exact ⟨List.mem_of_find?_eq_some h, by simpa [isOwned, and_assoc] using hid⟩

/-- The row with the id of another row is that row. -/
lemma Keyed.eq_job (h : Keyed s) {row j : JobRow} (hrow : row ∈ s.jobs) (hj : j ∈ s.jobs)
    (hid : j.jobId = row.jobId) : j = row :=
  Table.eq_of_key h.jobs hj hrow hid

end Rows

section Frame

variable {s : MiningState} {gapIdentifier : String → ℚ → ℚ → String}

lemma storeVersion_frame {page : PageKey} {entry : Entry} {lineNumber : ℕ}
    {current : Option VersionRow} {s' : MiningState}
    (h : storeVersion page entry lineNumber current s = .ok s') :
    s'.jobs = s.jobs ∧ s'.refills = s.refills := by
  have hinsert : ∀ {revision : ℕ} {s s' : MiningState},
      insertVersion page entry lineNumber revision s = .ok s' →
        s'.jobs = s.jobs ∧ s'.refills = s.refills := by
    intro revision s s' h
    simp only [insertVersion, Raising.bind_eq_ok, Raising.raiseIf_eq_ok, Raising.pure_eq_ok] at h
    obtain ⟨⟨⟩, -, ⟨⟩, -, rfl⟩ := h
    exact ⟨rfl, rfl⟩
  unfold storeVersion at h
  split at h
  · exact hinsert h
  · split_ifs at h
    · cases h
      exact ⟨rfl, rfl⟩
    · cases h
      exact ⟨rfl, rfl⟩
    · obtain ⟨hjobs, hrefills⟩ := hinsert h
      exact ⟨hjobs, hrefills⟩

lemma storeEntry_frame {page : PageKey} {loop loop' : RecordLoop} {numbered : Entry × ℕ}
    (h : storeEntry page loop numbered = .ok loop') :
    loop'.state.jobs = loop.state.jobs ∧ loop'.state.refills = loop.state.refills := by
  simp only [storeEntry, Raising.bind_eq_ok, Raising.raiseIf_eq_ok, Raising.pure_eq_ok] at h
  obtain ⟨state, hstate, ⟨⟩, -, rfl⟩ := h
  obtain ⟨hjobs, hrefills⟩ := storeVersion_frame hstate
  exact ⟨hjobs, hrefills⟩

lemma upsertGap_frame {jobId checkedAt : String} {step : ℚ} {pair : ℚ × ℚ} {s' : MiningState}
    (h : upsertGap gapIdentifier jobId step checkedAt s pair = .ok s') :
    s'.jobs = s.jobs ∧ s'.refills = s.refills := by
  unfold upsertGap at h
  dsimp only at h
  split_ifs at h
  · cases h
    exact ⟨rfl, rfl⟩
  · cases h
    exact ⟨rfl, rfl⟩
  · simp only [Raising.bind_eq_ok, Raising.raiseIf_eq_ok, Raising.pure_eq_ok] at h
    obtain ⟨⟨⟩, -, rfl⟩ := h
    exact ⟨rfl, rfl⟩

/-- The gap index touches neither jobs nor refills. -/
lemma recomputeGapsIncremental_frame {jobId checkedAt : String} {step : Option ℚ}
    {eventTimes : List ℚ} {s' : MiningState}
    (h : recomputeGapsIncremental gapIdentifier jobId step eventTimes checkedAt s = .ok s') :
    s'.jobs = s.jobs ∧ s'.refills = s.refills := by
  unfold recomputeGapsIncremental at h
  split at h
  · cases h
    exact ⟨rfl, rfl⟩
  · split_ifs at h
    · cases h
      exact ⟨rfl, rfl⟩
    · simp only [Raising.bind_eq_ok, Raising.pure_eq_ok] at h
      obtain ⟨updated, hupdated, rfl⟩ := h
      have hframe : updated.jobs = s.jobs ∧ updated.refills = s.refills := by
        refine Raising.foldlM_invariant
          (fun t : MiningState => t.jobs = s.jobs ∧ t.refills = s.refills) ?_ ⟨rfl, rfl⟩ hupdated
        intro t t' pair _ ht hstep
        obtain ⟨hjobs, hrefills⟩ := upsertGap_frame hstep
        exact ⟨hjobs.trans ht.1, hrefills.trans ht.2⟩
      have hresolve : ∀ (stale : List GapRow) (t : MiningState),
          (stale.foldl (fun s g => resolveGap checkedAt g.gapId s) t).jobs = t.jobs ∧
            (stale.foldl (fun s g => resolveGap checkedAt g.gapId s) t).refills = t.refills := by
        intro stale
        induction stale with
        | nil => exact fun t => ⟨rfl, rfl⟩
        | cons g stale ih => exact fun t => ih (resolveGap checkedAt g.gapId t)
      obtain ⟨hjobs, hrefills⟩ := hresolve _ updated
      exact ⟨hjobs.trans hframe.1, hrefills.trans hframe.2⟩

/-- A stored page touches neither jobs nor refills. -/
lemma storePage_frame {commit : PageCommit} {clock : Clock} {lease : JobRow}
    {stored : MiningState × ℕ} (h : commit.storePage gapIdentifier clock lease s = .ok stored) :
    stored.1.jobs = s.jobs ∧ stored.1.refills = s.refills := by
  simp only [PageCommit.storePage, Raising.bind_eq_ok, Raising.raiseIf_eq_ok, Raising.pure_eq_ok] at h
  obtain ⟨⟨⟩, -, loop, hloop, indexed, hindexed, rfl⟩ := h
  have hframe : loop.state.jobs = s.jobs ∧ loop.state.refills = s.refills := by
    refine Raising.foldlM_invariant
      (fun t : RecordLoop => t.state.jobs = s.jobs ∧ t.state.refills = s.refills) ?_ ⟨rfl, rfl⟩ hloop
    intro t t' numbered _ ht hstep
    obtain ⟨hjobs, hrefills⟩ := storeEntry_frame hstep
    exact ⟨hjobs.trans ht.1, hrefills.trans ht.2⟩
  obtain ⟨hjobs, hrefills⟩ := recomputeGapsIncremental_frame hindexed
  exact ⟨hjobs.trans hframe.1, hrefills.trans hframe.2⟩

end Frame

section Keys

variable {s : MiningState}

lemma Keyed.of_eq (h : Keyed s) {s' : MiningState} (hjobs : s'.jobs = s.jobs)
    (hrefills : s'.refills = s.refills) : Keyed s' :=
  ⟨hjobs ▸ h.jobs, hrefills ▸ h.refills⟩

lemma Keyed.event (h : Keyed s) (clock : Clock) (text jobId : String)
    (payload : List (String × Json)) : Keyed (s.event clock text jobId payload) :=
  h.of_eq rfl rfl

lemma Keyed.metric (h : Keyed s) (text : String) (amount : ℤ) : Keyed (s.metric text amount) :=
  h.of_eq rfl rfl

lemma Keyed.updateJobs (h : Keyed s) (hit : JobRow → Bool) {change : JobRow → JobRow}
    (hchange : ∀ j, (change j).jobId = j.jobId) : Keyed (s.updateJobs hit change) :=
  ⟨(Table.map_update JobRow.jobId hchange).symm ▸ h.jobs, h.refills⟩

lemma Keyed.updateRefills (h : Keyed s) (hit : RefillRow → Bool) {change : RefillRow → RefillRow}
    (hchange : ∀ r, (change r).refillId = r.refillId) : Keyed (s.updateRefills hit change) :=
  ⟨h.jobs, (Table.map_update RefillRow.refillId hchange).symm ▸ h.refills⟩

lemma Keyed.recoverLease (h : Keyed s) (clock : Clock) (row : JobRow) :
    Keyed (recoverLease clock s row) := by
  unfold Mining.recoverLease
  refine Keyed.event (Keyed.updateRefills (Keyed.updateJobs h _ ?_) _ ?_) _ _ _ _
  · exact fun _ => rfl
  · exact fun _ => rfl

lemma Keyed.blockUnadmitted (h : Keyed s) (clock : Clock) (row : JobRow) :
    Keyed (blockUnadmitted clock s row) := by
  unfold Mining.blockUnadmitted
  refine Keyed.metric (Keyed.event (Keyed.updateRefills (Keyed.updateJobs h _ ?_) _ ?_) _ _ _ _) _ _
  · exact fun _ => rfl
  · exact fun _ => rfl

/-- What blocking a due job keeps, the admission loop keeps. -/
lemma admitNext_invariant {P : MiningState → Prop} {clock : Clock} {allowed : List String}
    (hblock : ∀ s row, P s → earliest (s.jobs.filter (isDue clock.now)) = some row →
      P (blockUnadmitted clock s row)) (h : P s) : P (admitNext clock allowed s).2 := by
  induction s using admitNext.induct clock allowed with
  | case1 s hnone =>
    rw [admitNext]
    split
    · exact h
    · simp_all
  | case2 s row hrow hallowed =>
    rw [admitNext]
    split
    · simp_all
    · next row' hrow' =>
      rw [hrow] at hrow'
      cases hrow'
      rw [if_pos hallowed]
      exact h
  | case3 s row hrow hallowed ih =>
    rw [admitNext]
    split
    · simp_all
    · next row' hrow' =>
      rw [hrow] at hrow'
      cases hrow'
      rw [if_neg hallowed]
      exact ih (hblock s row h hrow)

/-- An admitted job is due in the state it is admitted from. -/
lemma admitNext_eq_some {clock : Clock} {allowed : List String} {row : JobRow} {s' : MiningState}
    (h : admitNext clock allowed s = (some row, s')) :
    row ∈ s'.jobs ∧ isDue clock.now row = true ∧ row.provider ∈ allowed := by
  induction s using admitNext.induct clock allowed with
  | case1 s hnone =>
    rw [admitNext] at h
    split at h
    · cases h
    · simp_all
  | case2 s row' hrow hallowed =>
    rw [admitNext] at h
    split at h
    · simp_all
    · next row'' hrow' =>
      rw [hrow] at hrow'
      cases hrow'
      rw [if_pos hallowed] at h
      cases h
      obtain ⟨hmem, hdue⟩ := List.mem_filter.mp (mem_of_earliest hrow)
      exact ⟨hmem, hdue, hallowed⟩
  | case3 s row' hrow hallowed ih =>
    rw [admitNext] at h
    split at h
    · simp_all
    · next row'' hrow' =>
      rw [hrow] at hrow'
      cases hrow'
      rw [if_neg hallowed] at h
      exact ih h

lemma Keyed.leaseJob (h : Keyed s) (clock : Clock) (owner : String) (leaseSeconds : ℚ)
    (row : JobRow) : Keyed (leaseJob clock s owner leaseSeconds row) := by
  unfold TradeFramework.Mining.leaseJob
  have hleased : Keyed (s.updateJobs (hasId row.jobId) fun j => { j.withoutFetch with
      status := .leased, leaseOwner := some owner, leaseExpiresAt := some (clock.now + leaseSeconds)
      heartbeatAt := some clock.now, attemptCount := row.attemptCount + 1, updatedAt := clock.text }) :=
    h.updateJobs _ fun _ => rfl
  dsimp only
  split
  · exact hleased.event _ _ _ _
  · exact (hleased.updateRefills _ (by intro; rfl)).event _ _ _ _

lemma Keyed.settle (h : Keyed s) (commit : PageCommit) (clock : Clock) (lease : JobRow) :
    Keyed (commit.settle clock lease s) := by
  unfold PageCommit.settle
  dsimp only
  refine Keyed.updateJobs ?_ _ fun _ => rfl
  have hpositioned : Keyed (if commit.lane = .main ∧ commit.nextCursor.isSome then
      s.updateJobs (hasId commit.jobId) fun j => { j with cursor := commit.nextCursor } else s) := by
    split_ifs
    · exact h.updateJobs _ (by intro; rfl)
    · exact h
  split
  · exact hpositioned
  · refine hpositioned.updateRefills _ fun r => ?_
    split_ifs <;> rfl

variable {gapIdentifier : String → ℚ → ℚ → String}

/-- Every call keeps the primary keys. -/
theorem Keyed.transact (h : Keyed s) {call : MiningCall} {s' : MiningState}
    (hcall : call.transact gapIdentifier s = .ok s') : Keyed s' := by
  cases call with
  | createJob request clock =>
    simp only [MiningCall.transact, createJob, Raising.bind_eq_ok, Raising.raiseIf_eq_ok,
      Raising.pure_eq_ok] at hcall
    obtain ⟨⟨⟩, -, ⟨⟩, -, ⟨⟩, -, ⟨⟩, -, ⟨⟩, -, ⟨⟩, -, ⟨⟩, hnew, rfl⟩ := hcall
    refine Keyed.event (s := { s with jobs := s.jobs ++ [_] }) ⟨?_, h.refills⟩ _ _ _ _
    refine Table.nodup_insert h.jobs fun j hj hid => ?_
    have hnone : ∀ j ∈ s.jobs, ¬j.jobId = request.jobId := by
      simpa [MiningState.job?] using hnew
    exact hnone j hj hid
  | pauseJob jobId clock =>
    simp only [MiningCall.transact, pauseJob] at hcall
    split at hcall
    · cases hcall
    · cases hcall
      split_ifs
      · exact (h.updateJobs _ (by intro; rfl)).event _ _ _ _
      · exact (h.updateJobs _ (by intro; rfl)).event _ _ _ _
  | resumeJob jobId clock =>
    simp only [MiningCall.transact, resumeJob, Raising.bind_eq_ok, Raising.raiseIf_eq_ok,
      Raising.pure_eq_ok] at hcall
    obtain ⟨⟨⟩, -, rfl⟩ := hcall
    exact (h.updateJobs _ (by intro; rfl)).event _ _ _ _
  | runNow jobId clock =>
    simp only [MiningCall.transact, runNow] at hcall
    split at hcall
    · cases hcall
    · split_ifs at hcall
      · cases hcall
        exact h
      · cases hcall
        exact (h.updateJobs _ (by intro; rfl)).event _ _ _ _
  | queueRefill refillId jobId gapId cursor clock =>
    simp only [MiningCall.transact, queueRefill, Raising.bind_eq_ok, Raising.raiseIf_eq_ok] at hcall
    obtain ⟨⟨⟩, -, ⟨⟩, -, hcall⟩ := hcall
    split_ifs at hcall
    · cases hcall
      exact h
    · simp only [Raising.bind_eq_ok, Raising.raiseIf_eq_ok, Raising.pure_eq_ok] at hcall
      obtain ⟨⟨⟩, hnew, rfl⟩ := hcall
      have hinserted : Keyed { s with
          refills := s.refills ++ [queuedRefill refillId jobId gapId cursor clock] } := by
        refine ⟨h.jobs, Table.nodup_insert h.refills fun r hr hid => ?_⟩
        exact hnew (List.any_eq_true.mpr ⟨r, hr, by simpa [queuedRefill] using hid⟩)
      have hmarked : Keyed ({ s with
          refills := s.refills ++ [queuedRefill refillId jobId gapId cursor clock] }.updateGaps
            (fun g => g.gapId == gapId) fun g => { g with
              status := .backfillQueued, lastCheckedAt := clock.text }) :=
        hinserted.of_eq rfl rfl
      exact (hmarked.updateJobs _ (by intro; rfl)).event _ _ _ _
  | recoverExpiredLeases clock =>
    cases hcall
    unfold recoverExpiredLeases
    dsimp only
    have hrows : ∀ (rows : List JobRow) (t : MiningState), Keyed t →
        Keyed (rows.foldl (Mining.recoverLease clock) t) := by
      intro rows
      induction rows with
      | nil => exact fun t ht => ht
      | cons row rows ih => exact fun t ht => ih _ (ht.recoverLease clock row)
    split_ifs
    · exact hrows _ s h
    · exact (hrows _ s h).metric _ _
  | claimNext owner leaseSeconds allowed clock =>
    cases hcall
    have hadmitted : Keyed (admitNext clock allowed s).2 :=
      admitNext_invariant (fun s row hs _ => hs.blockUnadmitted clock row) h
    unfold claimNext
    split
    · next heq => simpa [heq] using hadmitted
    · next heq =>
      rw [heq] at hadmitted
      exact Keyed.leaseJob hadmitted _ _ _ _
  | beginActive jobId owner lane cursor refillId leaseSeconds clock =>
    simp only [MiningCall.transact, beginActive, Raising.bind_eq_ok, Raising.raiseIf_eq_ok,
      Raising.pure_eq_ok] at hcall
    obtain ⟨⟨⟩, -, rfl⟩ := hcall
    exact h.updateJobs _ (by intro; rfl)
  | transition jobId owner status leaseSeconds clock =>
    simp only [MiningCall.transact, transition, Raising.bind_eq_ok, Raising.raiseIf_eq_ok,
      Raising.pure_eq_ok] at hcall
    obtain ⟨⟨⟩, -, ⟨⟩, -, rfl⟩ := hcall
    exact h.updateJobs _ (by intro; rfl)
  | heartbeat jobId owner leaseSeconds clock =>
    cases hcall
    exact h.updateJobs _ (by intro; rfl)
  | retryJob jobId owner error retryAfter jitter clock =>
    cases hcall
    unfold retryJob
    split
    · exact h
    · exact (((h.updateJobs _ (by intro; rfl)).updateRefills _ (by intro; rfl)).event _ _ _ _).metric _ _
  | releaseJob jobId owner clock =>
    cases hcall
    unfold releaseJob
    split
    · exact h
    · exact (h.updateJobs _ (by intro; rfl)).updateRefills _ (by intro; rfl)
  | blockJob jobId owner reason clock =>
    cases hcall
    exact (((h.updateJobs _ (by intro; rfl)).updateRefills _ (by intro; rfl)).event _ _ _ _).metric _ _
  | commitPage commit clock =>
    simp only [MiningCall.transact, commitPage, Raising.bind_eq_ok, Raising.raiseIf_eq_ok] at hcall
    obtain ⟨⟨⟩, -, hcall⟩ := hcall
    split at hcall
    · cases hcall
    · simp only [Raising.bind_eq_ok, Raising.pure_eq_ok] at hcall
      obtain ⟨stored, hstored, rfl⟩ := hcall
      obtain ⟨hjobs, hrefills⟩ := storePage_frame hstored
      exact Keyed.of_eq (Keyed.settle (h.of_eq hjobs hrefills) commit clock _) rfl rfl

end Keys

section Consistency

/-- The lease and pause columns of a job agree with its status. -/
structure JobRow.LeaseConsistent (j : JobRow) : Prop where
  owner : j.status.isActive = true ↔ j.leaseOwner.isSome = true
  pause : j.pauseRequested = true → j.status.isActive = true

variable {s : MiningState}

/-- A statement that takes the lease away and clears the pause request. -/
lemma JobRow.LeaseConsistent.of_idle {j : JobRow} (hstatus : j.status.isActive = false)
    (howner : j.leaseOwner = none) (hpause : j.pauseRequested = false) : j.LeaseConsistent :=
  ⟨by simp [hstatus, howner], by simp [hpause]⟩

lemma JobRow.LeaseConsistent.owner_none {j : JobRow} (h : j.LeaseConsistent)
    (hstatus : j.status.isActive = false) : j.leaseOwner = none := by
  have howner := h.owner
  simpa [hstatus] using howner

lemma JobRow.LeaseConsistent.pause_false {j : JobRow} (h : j.LeaseConsistent)
    (hstatus : j.status.isActive = false) : j.pauseRequested = false := by
  have hpause := h.pause
  simpa [hstatus] using hpause

/-- Every job of the store is consistent, and so are its keys. -/
structure LeasesConsistent (s : MiningState) : Prop extends Keyed s where
  consistent : ∀ j ∈ s.jobs, j.LeaseConsistent

/-- A block takes the lease of no job that waits to be paused. -/
def MiningCall.blocksNoPause (s : MiningState) : MiningCall → Prop
  | blockJob jobId owner _ _ => ∀ j ∈ s.jobs, isOwned jobId owner j = true → j.pauseRequested = false
  | _ => True

lemma isDue_isActive {now : ℚ} {j : JobRow} (h : isDue now j = true) : j.status.isActive = false := by
  unfold isDue at h
  cases hstatus : j.status <;> simp_all [JobStatus.isActive]

lemma LeasesConsistent.blockUnadmitted (h : LeasesConsistent s) {clock : Clock} {row : JobRow}
    (hrow : earliest (s.jobs.filter (isDue clock.now)) = some row) :
    LeasesConsistent (blockUnadmitted clock s row) := by
  obtain ⟨hmem, hdue⟩ := List.mem_filter.mp (mem_of_earliest hrow)
  refine ⟨h.toKeyed.blockUnadmitted clock row, Table.forall_update fun j hj => ?_⟩
  split_ifs with hhit
  · have heq : j = row := h.eq_job hmem hj (hasId_iff.mp hhit)
    have hpause := (h.consistent row hmem).pause_false (isDue_isActive hdue)
    exact .of_idle rfl rfl (heq ▸ hpause)
  · exact h.consistent j hj

lemma leaseJob_jobs (clock : Clock) (s : MiningState) (owner : String) (leaseSeconds : ℚ)
    (row : JobRow) : (leaseJob clock s owner leaseSeconds row).jobs =
      Table.update (hasId row.jobId) (fun j => { j.withoutFetch with
        status := .leased, leaseOwner := some owner
        leaseExpiresAt := some (clock.now + leaseSeconds), heartbeatAt := some clock.now
        attemptCount := row.attemptCount + 1, updatedAt := clock.text }) s.jobs := by
  unfold leaseJob
  dsimp only
  split <;> rfl

lemma LeasesConsistent.leaseJob (h : LeasesConsistent s) (clock : Clock) (owner : String)
    (leaseSeconds : ℚ) (row : JobRow) : LeasesConsistent (leaseJob clock s owner leaseSeconds row) := by
  refine ⟨h.toKeyed.leaseJob clock owner leaseSeconds row, ?_⟩
  rw [leaseJob_jobs]
  refine Table.forall_update fun j hj => ?_
  split_ifs
  · exact ⟨by simp [JobStatus.isActive], by simp [JobStatus.isActive]⟩
  · exact h.consistent j hj

lemma outcome_isActive (commit : PageCommit) (clock : Clock) (lease : JobRow) (queued : Bool) :
    (commit.outcome clock lease queued).1.isActive = (commit.outcome clock lease queued).2.2 := by
  unfold PageCommit.outcome
  split_ifs <;> rfl

lemma LeasesConsistent.settle (h : LeasesConsistent s) (commit : PageCommit) (clock : Clock)
    (lease : JobRow) : LeasesConsistent (commit.settle clock lease s) := by
  refine ⟨h.toKeyed.settle commit clock lease, ?_⟩
  have hpositioned : ∀ j ∈ (if commit.lane = .main ∧ commit.nextCursor.isSome then
      s.updateJobs (hasId commit.jobId) fun j => { j with cursor := commit.nextCursor }
      else s).jobs, j.LeaseConsistent := by
    split_ifs
    · refine Table.forall_update fun j hj => ?_
      split_ifs
      · exact ⟨(h.consistent j hj).owner, (h.consistent j hj).pause⟩
      · exact h.consistent j hj
    · exact h.consistent
  have hactive := outcome_isActive commit clock lease
    (s.refills.any (MiningState.refillsOf commit.jobId .queued))
  unfold PageCommit.settle
  dsimp only
  refine Table.forall_update fun j hj => ?_
  split_ifs with hhit hkeep
  · exact ⟨by simp [hactive, hkeep], by simp⟩
  · exact .of_idle (by simpa [hkeep] using hactive) rfl rfl
  · refine hpositioned j ?_
    split at hj
    · exact hj
    · exact hj

variable {gapIdentifier : String → ℚ → ℚ → String}

/-- Every call but a block of a job that waits to be paused keeps the jobs consistent. -/
theorem LeasesConsistent.transact (h : LeasesConsistent s) {call : MiningCall} {s' : MiningState}
    (hallowed : call.blocksNoPause s) (hcall : call.transact gapIdentifier s = .ok s') :
    LeasesConsistent s' := by
  refine ⟨h.toKeyed.transact hcall, ?_⟩
  cases call with
  | createJob request clock =>
    simp only [MiningCall.transact, createJob, Raising.bind_eq_ok, Raising.raiseIf_eq_ok,
      Raising.pure_eq_ok] at hcall
    obtain ⟨⟨⟩, -, ⟨⟩, -, ⟨⟩, -, ⟨⟩, -, ⟨⟩, -, ⟨⟩, -, ⟨⟩, -, rfl⟩ := hcall
    intro j hj
    rcases List.mem_append.mp hj with hj | hj
    · exact h.consistent j hj
    · rw [List.mem_singleton.mp hj]
      exact .of_idle rfl rfl rfl
  | pauseJob jobId clock =>
    simp only [MiningCall.transact, pauseJob] at hcall
    split at hcall
    · cases hcall
    · next row hrow =>
      obtain ⟨hmem, hid⟩ := job?_eq_some hrow
      cases hcall
      split_ifs with hactive
      · refine Table.forall_update fun j hj => ?_
        split_ifs with hhit
        · have heq : j = row := h.eq_job hmem hj ((hasId_iff.mp hhit).trans hid.symm)
          exact ⟨(h.consistent j hj).owner, fun _ => heq ▸ hactive⟩
        · exact h.consistent j hj
      · refine Table.forall_update fun j hj => ?_
        split_ifs
        · exact .of_idle rfl rfl rfl
        · exact h.consistent j hj
  | resumeJob jobId clock =>
    simp only [MiningCall.transact, resumeJob, Raising.bind_eq_ok, Raising.raiseIf_eq_ok,
      Raising.pure_eq_ok] at hcall
    obtain ⟨⟨⟩, -, rfl⟩ := hcall
    refine Table.forall_update fun j hj => ?_
    split_ifs
    · exact .of_idle rfl rfl rfl
    · exact h.consistent j hj
  | runNow jobId clock =>
    simp only [MiningCall.transact, runNow] at hcall
    split at hcall
    · cases hcall
    · next row hrow =>
      obtain ⟨hmem, hid⟩ := job?_eq_some hrow
      split_ifs at hcall with hactive
      · cases hcall
        exact h.consistent
      · cases hcall
        have hidle : row.status.isActive = false := by simpa using hactive
        refine Table.forall_update fun j hj => ?_
        split_ifs with hhit
        · have heq : j = row := h.eq_job hmem hj ((hasId_iff.mp hhit).trans hid.symm)
          rw [heq]
          exact .of_idle rfl ((h.consistent row hmem).owner_none hidle)
            ((h.consistent row hmem).pause_false hidle)
        · exact h.consistent j hj
  | queueRefill refillId jobId gapId cursor clock =>
    simp only [MiningCall.transact, queueRefill, Raising.bind_eq_ok, Raising.raiseIf_eq_ok] at hcall
    obtain ⟨⟨⟩, -, ⟨⟩, -, hcall⟩ := hcall
    split_ifs at hcall
    · cases hcall
      exact h.consistent
    · simp only [Raising.bind_eq_ok, Raising.raiseIf_eq_ok, Raising.pure_eq_ok] at hcall
      obtain ⟨⟨⟩, -, rfl⟩ := hcall
      refine Table.forall_update fun j hj => ?_
      split_ifs with hhit hkeep
      · exact ⟨(h.consistent j hj).owner, (h.consistent j hj).pause⟩
      · -- a job that is neither paused nor active goes back to the queue
        have hidle : j.status.isActive = false := by
          simpa using fun hactive => hkeep (.inr hactive)
        exact .of_idle rfl ((h.consistent j hj).owner_none hidle)
          ((h.consistent j hj).pause_false hidle)
      · exact h.consistent j hj
  | recoverExpiredLeases clock =>
    cases hcall
    have hrows : ∀ (rows : List JobRow) (t : MiningState), (∀ j ∈ t.jobs, j.LeaseConsistent) →
        ∀ j ∈ (rows.foldl (recoverLease clock) t).jobs, j.LeaseConsistent := by
      intro rows
      induction rows with
      | nil => exact fun t ht => ht
      | cons row rows ih =>
        intro t ht
        refine ih _ (Table.forall_update fun j hj => ?_)
        split_ifs
        · exact .of_idle rfl rfl rfl
        · exact .of_idle rfl rfl rfl
        · exact ht j hj
    unfold recoverExpiredLeases
    dsimp only
    split_ifs
    · exact hrows _ s h.consistent
    · exact hrows _ s h.consistent
  | claimNext owner leaseSeconds allowed clock =>
    cases hcall
    have hadmitted : LeasesConsistent (admitNext clock allowed s).2 :=
      admitNext_invariant (fun s row hs hrow => hs.blockUnadmitted hrow) h
    unfold claimNext
    split
    · next heq =>
      rw [heq] at hadmitted
      exact hadmitted.consistent
    · next heq =>
      rw [heq] at hadmitted
      exact (hadmitted.leaseJob _ _ _ _).consistent
  | beginActive jobId owner lane cursor refillId leaseSeconds clock =>
    simp only [MiningCall.transact, beginActive, Raising.bind_eq_ok, Raising.raiseIf_eq_ok,
      Raising.pure_eq_ok] at hcall
    obtain ⟨⟨⟩, -, rfl⟩ := hcall
    refine Table.forall_update fun j hj => ?_
    split_ifs
    · exact ⟨(h.consistent j hj).owner, (h.consistent j hj).pause⟩
    · exact h.consistent j hj
  | transition jobId owner status leaseSeconds clock =>
    simp only [MiningCall.transact, transition, Raising.bind_eq_ok, Raising.raiseIf_eq_ok,
      Raising.pure_eq_ok] at hcall
    obtain ⟨⟨⟩, hactive, ⟨⟩, -, rfl⟩ := hcall
    have hactive : status.isActive = true := by simpa using hactive
    refine Table.forall_update fun j hj => ?_
    split_ifs with hhit
    · obtain ⟨howned, -⟩ : isOwned jobId owner j = true ∧ j.status.isActive = true := by
        simpa using hhit
      have howner : j.leaseOwner = some owner := (isOwned_iff.mp howned).2
      exact ⟨by simp [hactive, howner], fun _ => hactive⟩
    · exact h.consistent j hj
  | heartbeat jobId owner leaseSeconds clock =>
    cases hcall
    refine Table.forall_update fun j hj => ?_
    split_ifs
    · exact ⟨(h.consistent j hj).owner, (h.consistent j hj).pause⟩
    · exact h.consistent j hj
  | retryJob jobId owner error retryAfter jitter clock =>
    cases hcall
    unfold retryJob
    split
    · exact h.consistent
    · refine Table.forall_update fun j hj => ?_
      split_ifs
      · exact .of_idle rfl rfl rfl
      · exact .of_idle rfl rfl rfl
      · exact h.consistent j hj
  | releaseJob jobId owner clock =>
    cases hcall
    unfold releaseJob
    split
    · exact h.consistent
    · refine Table.forall_update fun j hj => ?_
      split_ifs
      · exact .of_idle rfl rfl rfl
      · exact .of_idle rfl rfl rfl
      · exact h.consistent j hj
  | blockJob jobId owner reason clock =>
    cases hcall
    refine Table.forall_update fun j hj => ?_
    split_ifs with hhit
    · exact .of_idle rfl rfl (hallowed j hj hhit)
    · exact h.consistent j hj
  | commitPage commit clock =>
    simp only [MiningCall.transact, commitPage, Raising.bind_eq_ok, Raising.raiseIf_eq_ok] at hcall
    obtain ⟨⟨⟩, -, hcall⟩ := hcall
    split at hcall
    · cases hcall
    · simp only [Raising.bind_eq_ok, Raising.pure_eq_ok] at hcall
      obtain ⟨stored, hstored, rfl⟩ := hcall
      obtain ⟨hjobs, hrefills⟩ := storePage_frame hstored
      have hsame : LeasesConsistent stored.1 :=
        ⟨h.toKeyed.of_eq hjobs hrefills, hjobs.symm ▸ h.consistent⟩
      exact (hsame.settle commit clock _).consistent

/-- A step keeps the jobs consistent exactly if it is no block of a job that waits to be paused. -/
lemma leasesConsistent_step_iff (h : LeasesConsistent s) (call : MiningCall) :
    LeasesConsistent (step gapIdentifier s call) ↔ call.blocksNoPause s := by
  constructor
  · intro hnext
    cases call with
    | blockJob jobId owner reason clock =>
      intro j hj hhit
      have hblocked := hnext.consistent _ (Table.mem_update_of_hit hj hhit)
      exact hblocked.pause_false rfl
    | _ => trivial
  · intro hallowed
    unfold step
    split
    · next hcall => exact h.transact hallowed hcall
    · exact h

end Consistency

section Claiming

variable {s : MiningState} {clock : Clock} {allowed : List String}

/-- The number of jobs that wait for a worker. -/
def dueCount (clock : Clock) (s : MiningState) : ℕ := (s.jobs.filter (isDue clock.now)).length

/-- Admission passes over a due job of an admitted provider only to lease another. -/
lemma admitNext_keeps {j : JobRow} (h : Keyed s) (hj : j ∈ s.jobs) (hdue : isDue clock.now j = true)
    (hprovider : j.provider ∈ allowed) : ∃ row s', admitNext clock allowed s = (some row, s') ∧
      Keyed s' ∧ j ∈ s'.jobs ∧ dueCount clock s' ≤ dueCount clock s := by
  induction s using admitNext.induct clock allowed with
  | case1 s hnone =>
    have hmem : j ∈ s.jobs.filter (isDue clock.now) := List.mem_filter.mpr ⟨hj, hdue⟩
    cases hdues : s.jobs.filter (isDue clock.now) with
    | nil => simp [hdues] at hmem
    | cons first rest => simp [hdues, earliest] at hnone
  | case2 s row hrow hallowed =>
    refine ⟨row, s, ?_, h, hj, le_rfl⟩
    rw [admitNext]
    split
    · simp_all
    · next row' hrow' =>
      rw [hrow] at hrow'
      cases hrow'
      rw [if_pos hallowed]
  | case3 s row hrow hallowed ih =>
    obtain ⟨hmem, -⟩ := List.mem_filter.mp (mem_of_earliest hrow)
    have hother : hasId row.jobId j = false := by
      rw [Bool.eq_false_iff]
      intro hhit
      exact hallowed (h.eq_job hmem hj (hasId_iff.mp hhit) ▸ hprovider)
    obtain ⟨row', s', heq, hkeyed, hkept, hcount⟩ := ih (h.blockUnadmitted clock row)
      (Table.mem_update_of_not hj hother)
    refine ⟨row', s', ?_, hkeyed, hkept, hcount.trans (due_blockUnadmitted_lt clock s hrow).le⟩
    rw [admitNext]
    split
    · simp_all
    · next row'' hrow'' =>
      rw [hrow] at hrow''
      cases hrow''
      rw [if_neg hallowed]
      exact heq

/-- A worker that admits the provider of a due job claims that job, after at most as many other
claims as there are other due jobs. -/
def Claimable (gapIdentifier : String → ℚ → ℚ → String) (clock : Clock) (s : MiningState)
    (j : JobRow) : Prop :=
  ∀ owner leaseSeconds allowed, j.provider ∈ allowed → ∃ n < dueCount clock s,
    (claimNext clock (Transitions.run (step gapIdentifier) s
      (List.replicate n (.claimNext owner leaseSeconds allowed clock))) owner leaseSeconds allowed).1.map
        Prod.fst = some j.jobId

variable {gapIdentifier : String → ℚ → ℚ → String}

lemma claimable_of_due {j : JobRow} (h : Keyed s) (hj : j ∈ s.jobs) (hdue : isDue clock.now j = true) :
    Claimable gapIdentifier clock s j := by
  intro owner leaseSeconds allowed hprovider
  -- every claim before the one of `j` leases another due job
  induction hcount : dueCount clock s using Nat.strong_induction_on generalizing s with
  | _ count ih =>
    obtain ⟨row, admitted, hadmitted, hkeyed, hkept, hle⟩ := admitNext_keeps h hj hdue hprovider
    have hclaim : claimNext clock s owner leaseSeconds allowed =
        (some (row.jobId, nextRefill admitted row.jobId),
          leaseJob clock admitted owner leaseSeconds row) := by
      unfold claimNext
      rw [hadmitted]
    obtain ⟨hrow, hrowDue, -⟩ := admitNext_eq_some hadmitted
    have hlt : dueCount clock (leaseJob clock admitted owner leaseSeconds row) < count := by
      refine lt_of_lt_of_le ?_ (hcount ▸ hle)
      unfold dueCount
      rw [leaseJob_jobs, ← List.countP_eq_length_filter, ← List.countP_eq_length_filter]
      refine Table.countP_update_lt ?_ hrow ?_ hrowDue
      · intro k _
        simp [isDue]
      · simp [hasId]
    by_cases hid : row.jobId = j.jobId
    · exact ⟨0, by omega, by simp [hclaim, hid]⟩
    · have hother : hasId row.jobId j = false := by
        simpa [hasId] using fun heq => hid heq.symm
      have hstays : j ∈ (leaseJob clock admitted owner leaseSeconds row).jobs := by
        rw [leaseJob_jobs]
        exact Table.mem_update_of_not hkept hother
      obtain ⟨n, hn, hclaimed⟩ := ih _ hlt (hkeyed.leaseJob clock owner leaseSeconds row) hstays rfl
      refine ⟨n + 1, by omega, ?_⟩
      have hstep : step gapIdentifier s (.claimNext owner leaseSeconds allowed clock) =
          leaseJob clock admitted owner leaseSeconds row := by
        change (claimNext clock s owner leaseSeconds allowed).2 = _
        rw [hclaim]
      rw [List.replicate_succ, Transitions.run_cons, hstep]
      exact hclaimed

end Claiming

section Lifecycle

open Transitions

/-- Jobs and leases agree in every state of a run, and every due queued job can be claimed, exactly
if the run blocks no job that waits to be paused. -/
theorem jobLeases_exact (gapIdentifier : String → ℚ → ℚ → String) (calls : List MiningCall) :
    Along (step gapIdentifier) MiningCall.blocksNoPause {} calls ↔
      ∀ reached, reached <+: calls →
        (∀ j ∈ (run (step gapIdentifier) {} reached).jobs,
          (j.status.isActive = true ↔ j.leaseOwner.isSome = true) ∧
          (j.pauseRequested = true → j.status.isActive = true)) ∧
        ∀ clock : Clock, ∀ j ∈ (run (step gapIdentifier) {} reached).jobs,
          j.status = .queued → j.nextRunAt ≤ clock.now →
            isDue clock.now j = true ∧
            Claimable gapIdentifier clock (run (step gapIdentifier) {} reached) j := by
  have hempty : LeasesConsistent {} := ⟨⟨List.nodup_nil, List.nodup_nil⟩, by simp⟩
  have hstep : ∀ s call, LeasesConsistent s →
      (LeasesConsistent (step gapIdentifier s call) ↔ MiningCall.blocksNoPause s call) :=
    fun s call hs => leasesConsistent_step_iff hs call
  have hexact := along_iff hstep hempty calls
  rw [hexact]
  have hkeyed : ∀ reached : List MiningCall, Keyed (run (step gapIdentifier) {} reached) := by
    intro reached
    have hall : Along (step gapIdentifier) (fun _ _ => True) {} reached := along_true _ _
    refine run_invariant ?_ hempty.toKeyed hall
    intro s call hs _
    unfold step
    split
    · next hcall => exact hs.transact hcall
    · exact hs
  constructor
  · intro h reached hreached
    have hconsistent := h reached hreached
    refine ⟨fun j hj => ⟨(hconsistent.consistent j hj).owner, (hconsistent.consistent j hj).pause⟩, ?_⟩
    intro clock j hj hqueued htime
    have hpause := (hconsistent.consistent j hj).pause_false (by simp [hqueued, JobStatus.isActive])
    have hdue : isDue clock.now j = true := by simp [isDue, hqueued, htime, hpause]
    exact ⟨hdue, claimable_of_due (hkeyed reached) hj hdue⟩
  · intro h reached hreached
    obtain ⟨hjobs, -⟩ := h reached hreached
    exact ⟨hkeyed reached, fun j hj => ⟨(hjobs j hj).1, (hjobs j hj).2⟩⟩

/-- A job that is paused while it runs, then blocked and run again. -/
def leftPaused : List MiningCall :=
  let clock : Clock := ⟨10, "1970-01-01T00:00:10Z"⟩
  [ .createJob ⟨"job-a", "Job", "feed", .null, .null, 60, 0, none⟩ clock,
    .claimNext "worker" 45 ["feed"] clock,
    .pauseJob "job-a" clock,
    .blockJob "job-a" "worker" "credentials were rejected" clock,
    .runNow "job-a" clock ]

/-- The pause request outlives the lease, and the queued job is never claimed. -/
theorem jobLeases_leftPaused :
    (run (step fun jobId _ _ => jobId) {} leftPaused).jobs.any (fun j => j.status == .queued &&
      decide (j.nextRunAt ≤ 10) && j.pauseRequested && !j.status.isActive) = true ∧
    (claimNext ⟨10, "1970-01-01T00:00:10Z"⟩ (run (step fun jobId _ _ => jobId) {} leftPaused)
      "worker" 45 ["feed"]).1.isNone = true := by
  with_unfolding_all decide

end Lifecycle

end TradeFramework.Mining
