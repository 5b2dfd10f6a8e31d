import TradeFramework.Mining.Leases

/-!
# Leased refills

A leased refill belongs to an active job of the same owner. Two calls can strand one: resuming a
job that holds it, and a page that gives the lease up without finishing it.
-/

namespace TradeFramework.Mining

open Transitions

section Held

variable {jobs : List JobRow} {r : RefillRow}

/-- A job of the refill is active under the owner of the refill. -/
def RefillRow.Held (jobs : List JobRow) (r : RefillRow) : Prop :=
  ∃ j ∈ jobs, j.jobId = r.jobId ∧ j.status.isActive = true ∧ j.leaseOwner.isSome = true ∧
    r.leaseOwner = j.leaseOwner

/-- An update that leaves the holder active under its owner. -/
lemma RefillRow.Held.update {hit : JobRow → Bool} {change : JobRow → JobRow} (h : r.Held jobs)
    (hchange : ∀ j ∈ jobs, hit j = true → j.jobId = r.jobId → j.status.isActive = true →
      (change j).jobId = j.jobId ∧ (change j).status.isActive = true ∧
        (change j).leaseOwner = j.leaseOwner) : r.Held (Table.update hit change jobs) := by
  obtain ⟨j, hj, hid, hactive, howner, hsame⟩ := h
  by_cases hhit : hit j = true
  · obtain ⟨hid', hactive', howner'⟩ := hchange j hj hhit hid hactive
    exact ⟨change j, Table.mem_update_of_hit hj hhit, hid'.trans hid, hactive',
      howner'.symm ▸ howner, hsame.trans howner'.symm⟩
  · exact ⟨j, Table.mem_update_of_not hj (by simpa using hhit), hid, hactive, howner, hsame⟩

/-- An update of other jobs. -/
lemma RefillRow.Held.update_of_ne {hit : JobRow → Bool} {change : JobRow → JobRow} {jobId : String}
    (h : r.Held jobs) (hhit : ∀ j, hit j = true → j.jobId = jobId) (hne : r.jobId ≠ jobId) :
    r.Held (Table.update hit change jobs) :=
  h.update fun j _ hj hid _ => absurd (hid.symm.trans (hhit j hj)) hne

lemma refillsOf_iff {jobId : String} {status : RefillStatus} :
    MiningState.refillsOf jobId status r = true ↔ r.jobId = jobId ∧ r.status = status := by
  simp [MiningState.refillsOf]

/-- Every leased refill is held. -/
structure RefillsHeld (s : MiningState) : Prop extends Keyed s where
  held : ∀ r ∈ s.refills, r.status = .leased → r.Held s.jobs

variable {s : MiningState}

/-- An idle job holds no refill. -/
lemma RefillsHeld.ne_of_idle (h : RefillsHeld s) {row : JobRow} (hrow : row ∈ s.jobs)
    (hidle : row.status.isActive = false) (hr : r ∈ s.refills) (hleased : r.status = .leased) :
    r.jobId ≠ row.jobId := by
  intro hid
  obtain ⟨j, hj, hjid, hactive, -⟩ := h.held r hr hleased
  rw [h.eq_job hrow hj (hjid.trans hid), hidle] at hactive
  cases hactive

/-- Statements that end the leases of a job together with those of its refills. -/
lemma RefillsHeld.releasing (h : RefillsHeld s) {jobId : String} {hit : JobRow → Bool}
    {change : JobRow → JobRow} {changeRefill : RefillRow → RefillRow}
    (hhit : ∀ j, hit j = true → j.jobId = jobId)
    (hrelease : ∀ r, (changeRefill r).status ≠ .leased) :
    ∀ r ∈ Table.update (MiningState.refillsOf jobId .leased) changeRefill s.refills,
      r.status = .leased → r.Held (Table.update hit change s.jobs) := by
  refine Table.forall_update fun r hr => ?_
  split_ifs with hof
  · exact fun hleased => absurd hleased (hrelease r)
  · intro hleased
    have hne : r.jobId ≠ jobId := fun hid => hof (refillsOf_iff.mpr ⟨hid, hleased⟩)
    exact (h.held r hr hleased).update_of_ne hhit hne

end Held

section Calls

variable {s : MiningState}

/-- The lease is kept after a page. -/
def PageCommit.keepsLease (commit : PageCommit) (lease : JobRow) (s : MiningState) : Prop :=
  lease.pauseRequested = false ∧ commit.continues = true ∧
    (commit.lane = .main → s.refills.any (MiningState.refillsOf commit.jobId .queued) = false)

/-- The page is the last one of a refill. -/
def PageCommit.finishes (commit : PageCommit) (r : RefillRow) : Prop :=
  commit.continues = false ∧ commit.refillTarget = some r.refillId

/-- The call ends no lease of a job without its leased refills: no resume of a job with a leased
refill, and no page that gives the lease up before the refill of the job is finished. -/
def MiningCall.keepsRefills (s : MiningState) : MiningCall → Prop
  | resumeJob jobId _ => ∀ r ∈ s.refills, r.status = .leased → r.jobId ≠ jobId
  | commitPage commit _ => ∀ lease ∈ committingJob? commit s, commit.keepsLease lease s ∨
      ∀ r ∈ s.refills, r.jobId = commit.jobId → r.status = .leased → commit.finishes r
  | _ => True

instance PageCommit.decidableKeepsLease (commit : PageCommit) (lease : JobRow) (s : MiningState) :
    Decidable (commit.keepsLease lease s) :=
  inferInstanceAs (Decidable (_ ∧ _ ∧ _))

instance PageCommit.decidableFinishes (commit : PageCommit) (r : RefillRow) :
    Decidable (commit.finishes r) :=
  inferInstanceAs (Decidable (_ ∧ _))

instance MiningCall.decidableKeepsRefills (s : MiningState) : (call : MiningCall) →
    Decidable (call.keepsRefills s)
  | resumeJob jobId _ => inferInstanceAs (Decidable (∀ r ∈ s.refills, r.status = .leased → r.jobId ≠ jobId))
  | commitPage commit _ => inferInstanceAs (Decidable (∀ lease ∈ committingJob? commit s,
      commit.keepsLease lease s ∨
        ∀ r ∈ s.refills, r.jobId = commit.jobId → r.status = .leased → commit.finishes r))
  | createJob .. | pauseJob .. | runNow .. | queueRefill .. | recoverExpiredLeases .. | claimNext ..
  | beginActive .. | transition .. | heartbeat .. | retryJob .. | releaseJob .. | blockJob .. =>
    inferInstanceAs (Decidable True)

lemma RefillsHeld.blockUnadmitted (h : RefillsHeld s) {clock : Clock} {row : JobRow}
    (hrow : earliest (s.jobs.filter (isDue clock.now)) = some row) :
    RefillsHeld (blockUnadmitted clock s row) := by
  obtain ⟨hmem, hdue⟩ := List.mem_filter.mp (mem_of_earliest hrow)
  refine ⟨h.toKeyed.blockUnadmitted clock row, Table.forall_update fun r hr => ?_⟩
  split_ifs with hof
  · exact fun hleased => nomatch hleased
  · intro hleased
    have hne := h.ne_of_idle hmem (isDue_isActive hdue) hr hleased
    exact (h.held r hr hleased).update_of_ne (fun j => hasId_iff.mp) hne

lemma nextRefill_eq_some {jobId : String} {refill : RefillRow}
    (h : nextRefill s jobId = some refill) : refill ∈ s.refills ∧ refill.jobId = jobId := by
  have hfold : ∀ (rest : List RefillRow) (best : RefillRow),
      rest.foldl (fun best k => if k.createdAt < best.createdAt then k else best) best
        ∈ best :: rest := by
    intro rest
    induction rest with
    | nil => simp
    | cons k rest ih =>
      intro best
      rw [List.foldl_cons]
      have hmem := ih (if k.createdAt < best.createdAt then k else best)
      split_ifs at hmem ⊢ <;> simp only [List.mem_cons] at hmem ⊢ <;> tauto
  unfold nextRefill at h
  cases hqueued : s.refills.filter (MiningState.refillsOf jobId .queued) with
  | nil => simp [hqueued] at h
  | cons first rest =>
    simp only [hqueued, Option.some.injEq] at h
    have hmem : refill ∈ s.refills.filter (MiningState.refillsOf jobId .queued) := by
      rw [hqueued, ← h]
      exact hfold rest first
    obtain ⟨hrefill, hof⟩ := List.mem_filter.mp hmem
    exact ⟨hrefill, (refillsOf_iff.mp hof).1⟩

/-- The claim of an idle job holds the refill it takes along. -/
lemma RefillsHeld.leaseJob (h : RefillsHeld s) (clock : Clock) (owner : String) (leaseSeconds : ℚ)
    {row : JobRow} (hrow : row ∈ s.jobs) (hidle : row.status.isActive = false) :
    RefillsHeld (leaseJob clock s owner leaseSeconds row) := by
  refine ⟨h.toKeyed.leaseJob clock owner leaseSeconds row, ?_⟩
  have hothers : ∀ r ∈ s.refills, r.status = .leased →
      r.Held (Mining.leaseJob clock s owner leaseSeconds row).jobs := by
    intro r hr hleased
    rw [leaseJob_jobs]
    exact (h.held r hr hleased).update_of_ne (fun j => hasId_iff.mp)
      (h.ne_of_idle hrow hidle hr hleased)
  have htaken : ∀ r : RefillRow, r.jobId = row.jobId → r.leaseOwner = some owner →
      r.Held (Mining.leaseJob clock s owner leaseSeconds row).jobs := by
    intro r hid howner
    rw [leaseJob_jobs]
    refine ⟨_, Table.mem_update_of_hit hrow (by simp [hasId]), hid.symm, rfl, rfl, howner⟩
  unfold Mining.leaseJob at hothers htaken ⊢
  dsimp only at hothers htaken ⊢
  split at hothers
  · next hnone =>
    simp only [hnone] at htaken ⊢
    exact hothers
  · next refill hrefill =>
    simp only [hrefill] at htaken ⊢
    obtain ⟨hmem, hid⟩ := nextRefill_eq_some hrefill
    refine Table.forall_update fun r hr => ?_
    split_ifs with hhit
    · intro _
      have heq : r = refill := Table.eq_of_key h.refills hr hmem (by simpa using hhit)
      exact htaken _ (heq ▸ hid) rfl
    · exact hothers r hr

lemma outcome_keepsLease {commit : PageCommit} (clock : Clock) {lease : JobRow} :
    (commit.outcome clock lease (s.refills.any (MiningState.refillsOf commit.jobId .queued))).2.2 = true ↔
      commit.keepsLease lease s := by
  unfold PageCommit.outcome PageCommit.keepsLease
  split_ifs with hpause hyield hcontinues
  · simp [hpause]
  · simp [hyield]
  · simp_all
  · simp_all
  · simp_all

/-- The job rows of `settle` before the outcome is written. -/
def PageCommit.positioned (commit : PageCommit) (s : MiningState) : MiningState :=
  if commit.lane = .main ∧ commit.nextCursor.isSome then
    s.updateJobs (hasId commit.jobId) fun j => { j with cursor := commit.nextCursor } else s

/-- The last statement of a page writes the outcome over the rows of the job. -/
lemma settle_jobs (commit : PageCommit) (clock : Clock) (lease : JobRow) (s : MiningState) :
    ∃ change : JobRow → JobRow, (commit.settle clock lease s).jobs =
      Table.update (hasId commit.jobId) change (commit.positioned s).jobs ∧
      ∀ j, (change j).jobId = j.jobId ∧
        (commit.keepsLease lease s →
          (change j).status.isActive = true ∧ (change j).leaseOwner = some commit.owner) := by
  have hactive := outcome_isActive commit clock lease
    (s.refills.any (MiningState.refillsOf commit.jobId .queued))
  unfold PageCommit.settle
  dsimp only
  split
  all_goals
    refine ⟨_, rfl, fun j => ⟨rfl, fun hkeeps => ?_⟩⟩
    have hkeep := (outcome_keepsLease clock).mpr hkeeps
    exact ⟨hactive.trans hkeep, if_pos hkeep⟩

/-- A refill that is still leased after a page was leased before it and is not finished by it. -/
lemma settle_leased {commit : PageCommit} {clock : Clock} {lease : JobRow} {r : RefillRow}
    (hr : r ∈ (commit.settle clock lease s).refills) (hleased : r.status = .leased) :
    ∃ old ∈ s.refills, old.status = .leased ∧ old.jobId = r.jobId ∧ old.leaseOwner = r.leaseOwner ∧
      ¬commit.finishes old := by
  have hpositioned : (commit.positioned s).refills = s.refills := by
    unfold PageCommit.positioned
    split_ifs <;> rfl
  unfold PageCommit.settle at hr
  dsimp only at hr
  split at hr
  · next hnone =>
    refine ⟨r, hpositioned ▸ hr, hleased, rfl, rfl, ?_⟩
    rintro ⟨-, htarget⟩
    rw [hnone] at htarget
    cases htarget
  · next refillId htarget =>
    obtain ⟨old, hold, rfl⟩ := Table.mem_update.mp hr
    have hold : old ∈ s.refills := hpositioned ▸ hold
    unfold PageCommit.finishes
    rw [htarget]
    split_ifs at hleased ⊢ with hhit hcontinues
    · exact ⟨old, hold, hleased, rfl, rfl, by simp [hcontinues]⟩
    · refine ⟨old, hold, hleased, rfl, rfl, ?_⟩
      rintro ⟨-, hid⟩
      exact hhit (by simpa using (Option.some.inj hid).symm)

lemma RefillsHeld.settle (h : RefillsHeld s) {commit : PageCommit} {lease : JobRow} (clock : Clock)
    (hlease : lease ∈ s.jobs ∧ lease.jobId = commit.jobId ∧ lease.leaseOwner = some commit.owner)
    (hallowed : commit.keepsLease lease s ∨
      ∀ r ∈ s.refills, r.jobId = commit.jobId → r.status = .leased → commit.finishes r) :
    RefillsHeld (commit.settle clock lease s) := by
  obtain ⟨hmem, hid, howner⟩ := hlease
  refine ⟨h.toKeyed.settle commit clock lease, fun r hr hleased => ?_⟩
  obtain ⟨old, hold, holdLeased, hjob, hsame, hunfinished⟩ := settle_leased hr hleased
  have hheld : r.Held (commit.positioned s).jobs := by
    have hheld : r.Held s.jobs := by
      obtain ⟨j, hj, hjid, hactive, hsome, howned⟩ := h.held old hold holdLeased
      exact ⟨j, hj, hjid.trans hjob, hactive, hsome, hsame ▸ howned⟩
    unfold PageCommit.positioned
    split_ifs
    · exact hheld.update fun j _ _ _ hj => ⟨rfl, hj, rfl⟩
    · exact hheld
  obtain ⟨change, hjobs, hchange⟩ := settle_jobs commit clock lease s
  rw [hjobs]
  by_cases hother : r.jobId = commit.jobId
  · have hkeep : commit.keepsLease lease s := by
      rcases hallowed with hkeep | hfinishes
      · exact hkeep
      · exact absurd (hfinishes old hold (hjob.trans hother) holdLeased) hunfinished
    have howned : ∀ j ∈ (commit.positioned s).jobs, j.jobId = commit.jobId →
        j.leaseOwner = some commit.owner := by
      have hstored : ∀ j ∈ s.jobs, j.jobId = commit.jobId → j.leaseOwner = some commit.owner := by
        intro j hj hjid
        rw [h.eq_job hmem hj (hjid.trans hid.symm)]
        exact howner
      unfold PageCommit.positioned
      split_ifs
      · refine Table.forall_update fun j hj => ?_
        split_ifs
        · exact hstored j hj
        · exact hstored j hj
      · exact hstored
    refine hheld.update fun j hj hhit _ _ => ?_
    obtain ⟨hjid, houtcome⟩ := hchange j
    obtain ⟨hactive, hjowner⟩ := houtcome hkeep
    exact ⟨hjid, hactive, hjowner.trans (howned j hj (hasId_iff.mp hhit)).symm⟩
  · exact hheld.update_of_ne (fun j => hasId_iff.mp) hother

variable {gapIdentifier : String → ℚ → ℚ → String}

/-- Every call that ends no lease apart from its refills keeps the refills held. -/
theorem RefillsHeld.transact (h : RefillsHeld s) {call : MiningCall} {s' : MiningState}
    (hallowed : call.keepsRefills s) (hcall : call.transact gapIdentifier s = .ok s') :
    RefillsHeld s' := by
  refine ⟨h.toKeyed.transact hcall, ?_⟩
  cases call with
  | createJob request clock =>
    simp only [MiningCall.transact, createJob, Raising.bind_eq_ok, Raising.raiseIf_eq_ok,
      Raising.pure_eq_ok] at hcall
    obtain ⟨⟨⟩, -, ⟨⟩, -, ⟨⟩, -, ⟨⟩, -, ⟨⟩, -, ⟨⟩, -, ⟨⟩, -, rfl⟩ := hcall
    intro r hr hleased
    obtain ⟨j, hj, hheld⟩ := h.held r hr hleased
    exact ⟨j, List.mem_append_left _ hj, hheld⟩
  | pauseJob jobId clock =>
    simp only [MiningCall.transact, pauseJob] at hcall
    split at hcall
    · cases hcall
    · next row hrow =>
      obtain ⟨hmem, hid⟩ := job?_eq_some hrow
      cases hcall
      split_ifs with hactive
      · exact fun r hr hleased => (h.held r hr hleased).update fun j _ _ _ hj => ⟨rfl, hj, rfl⟩
      · intro r hr hleased
        have hne := h.ne_of_idle hmem (by simpa using hactive) hr hleased
        exact (h.held r hr hleased).update_of_ne (fun j => hasId_iff.mp) (hid ▸ hne)
  | resumeJob jobId clock =>
    simp only [MiningCall.transact, resumeJob, Raising.bind_eq_ok, Raising.raiseIf_eq_ok,
      Raising.pure_eq_ok] at hcall
    obtain ⟨⟨⟩, -, rfl⟩ := hcall
    exact fun r hr hleased => (h.held r hr hleased).update_of_ne (fun j => hasId_iff.mp)
      (hallowed r hr hleased)
  | runNow jobId clock =>
    simp only [MiningCall.transact, runNow] at hcall
    split at hcall
    · cases hcall
    · next row hrow =>
      obtain ⟨hmem, hid⟩ := job?_eq_some hrow
      split_ifs at hcall with hactive
      · cases hcall
        exact h.held
      · cases hcall
        intro r hr hleased
        have hne := h.ne_of_idle hmem (by simpa using hactive) hr hleased
        exact (h.held r hr hleased).update_of_ne (fun j => hasId_iff.mp) (hid ▸ hne)
  | queueRefill refillId jobId gapId cursor clock =>
    simp only [MiningCall.transact, queueRefill, Raising.bind_eq_ok, Raising.raiseIf_eq_ok] at hcall
    obtain ⟨⟨⟩, -, ⟨⟩, -, hcall⟩ := hcall
    split_ifs at hcall
    · cases hcall
      exact h.held
    · simp only [Raising.bind_eq_ok, Raising.raiseIf_eq_ok, Raising.pure_eq_ok] at hcall
      obtain ⟨⟨⟩, -, rfl⟩ := hcall
      intro r hr hleased
      rcases List.mem_append.mp hr with hr | hr
      · refine (h.held r hr hleased).update fun j _ _ _ hj => ⟨rfl, ?_, rfl⟩
        simp [hj]
      · rw [List.mem_singleton.mp hr] at hleased
        cases hleased
  | recoverExpiredLeases clock =>
    cases hcall
    have hrows : ∀ (rows : List JobRow) (t : MiningState), RefillsHeld t →
        RefillsHeld (rows.foldl (recoverLease clock) t) := by
      intro rows
      induction rows with
      | nil => exact fun t ht => ht
      | cons row rows ih =>
        refine fun t ht => ih _ ⟨ht.toKeyed.recoverLease clock row, ?_⟩
        exact ht.releasing (fun j => hasId_iff.mp) fun r => by simp
    unfold recoverExpiredLeases
    dsimp only
    split_ifs
    · exact (hrows _ s h).held
    · exact (hrows _ s h).held
  | claimNext owner leaseSeconds allowed clock =>
    cases hcall
    have hadmitted : RefillsHeld (admitNext clock allowed s).2 :=
      admitNext_invariant (fun s row hs hrow => hs.blockUnadmitted hrow) h
    unfold claimNext
    split
    · next heq =>
      rw [heq] at hadmitted
      exact hadmitted.held
    · next heq =>
      obtain ⟨hrow, hdue, -⟩ := admitNext_eq_some heq
      rw [heq] at hadmitted
      exact (hadmitted.leaseJob _ _ _ hrow (isDue_isActive hdue)).held
  | beginActive jobId owner lane cursor refillId leaseSeconds clock =>
    simp only [MiningCall.transact, beginActive, Raising.bind_eq_ok, Raising.raiseIf_eq_ok,
      Raising.pure_eq_ok] at hcall
    obtain ⟨⟨⟩, -, rfl⟩ := hcall
    exact fun r hr hleased => (h.held r hr hleased).update fun j _ _ _ hj => ⟨rfl, hj, rfl⟩
  | transition jobId owner status leaseSeconds clock =>
    simp only [MiningCall.transact, transition, Raising.bind_eq_ok, Raising.raiseIf_eq_ok,
      Raising.pure_eq_ok] at hcall
    obtain ⟨⟨⟩, hactive, ⟨⟩, -, rfl⟩ := hcall
    have hactive : status.isActive = true := by simpa using hactive
    exact fun r hr hleased => (h.held r hr hleased).update fun j _ _ _ _ => ⟨rfl, hactive, rfl⟩
  | heartbeat jobId owner leaseSeconds clock =>
    cases hcall
    exact fun r hr hleased => (h.held r hr hleased).update fun j _ _ _ hj => ⟨rfl, hj, rfl⟩
  | retryJob jobId owner error retryAfter jitter clock =>
    cases hcall
    unfold retryJob
    split
    · exact h.held
    · exact h.releasing (fun j => hasId_iff.mp) fun r => by simp
  | releaseJob jobId owner clock =>
    cases hcall
    unfold releaseJob
    split
    · exact h.held
    · exact h.releasing (fun j => hasId_iff.mp) fun r => by simp
  | blockJob jobId owner reason clock =>
    cases hcall
    exact h.releasing (fun j hj => (isOwned_iff.mp hj).1) fun r => by simp
  | commitPage commit clock =>
    simp only [MiningCall.transact, commitPage, Raising.bind_eq_ok, Raising.raiseIf_eq_ok] at hcall
    obtain ⟨⟨⟩, -, hcall⟩ := hcall
    split at hcall
    · cases hcall
    · next lease hlease =>
      simp only [Raising.bind_eq_ok, Raising.pure_eq_ok] at hcall
      obtain ⟨stored, hstored, rfl⟩ := hcall
      obtain ⟨hjobs, hrefills⟩ := storePage_frame hstored
      have hsame : RefillsHeld stored.1 :=
        ⟨h.toKeyed.of_eq hjobs hrefills, by rw [hjobs, hrefills]; exact h.held⟩
      obtain ⟨hmem, hid, howner, -⟩ := committingJob?_eq_some hlease
      refine (hsame.settle clock ⟨hjobs ▸ hmem, hid, howner⟩ ?_).held
      unfold PageCommit.keepsLease
      rw [hrefills]
      exact hallowed lease hlease

end Calls

section Lifecycle

/-- Every refill is queued, held by the owner of its active job, or done. -/
theorem refills_neverStranded (gapIdentifier : String → ℚ → ℚ → String) (calls : List MiningCall)
    (h : Along (step gapIdentifier) MiningCall.keepsRefills {} calls) :
    ∀ r ∈ (run (step gapIdentifier) {} calls).refills, r.status = .leased →
      ∃ j ∈ (run (step gapIdentifier) {} calls).jobs, j.jobId = r.jobId ∧
        j.status.isActive = true ∧ j.leaseOwner.isSome = true ∧ r.leaseOwner = j.leaseOwner := by
  have hempty : RefillsHeld {} := ⟨⟨List.nodup_nil, List.nodup_nil⟩, by simp⟩
  have hrun : RefillsHeld (run (step gapIdentifier) {} calls) := by
    refine run_invariant ?_ hempty h
    intro s call hs hallowed
    unfold step
    split
    · next hcall => exact hs.transact hallowed hcall
    · exact hs
  exact hrun.held

def gapName (_ : String) (previous _ : ℚ) : String := if previous = 1 then "gap-1" else "gap-2"

/-- A page of `job-a` with records at some event times. -/
def pageOf (pageId : String) (lane : Lane) (refillId : Option String) (eventTimes : List ℕ)
    (nextCursor : Option Json) : PageCommit where
  pageId := pageId
  jobId := "job-a"
  owner := "worker"
  lane := lane
  refillId := refillId
  requestCursor := .null
  nextCursor := nextCursor
  rawSha256 := pageId
  rawBytes := 0
  recordBytes := 0
  responseStatus := 200
  responseHeaders := .obj []
  source := "feed"
  entries := eventTimes.map fun t => ⟨toString t, .int t, .int t, some t, toString t, true⟩
  continueFetch := none
  leaseSeconds := 45

/-- A job finds a gap, and claims the refill of that gap. -/
def claimedRefill : List MiningCall :=
  let clock : Clock := ⟨10, "1970-01-01T00:00:10Z"⟩
  let later : Clock := ⟨100, "1970-01-01T00:01:40Z"⟩
  [ .createJob ⟨"job-a", "Job", "feed", .null, .null, 60, 0, some 1⟩ clock,
    .claimNext "worker" 45 ["feed"] clock,
    .transition "job-a" "worker" .committing 45 clock,
    .commitPage (pageOf "page-1" .main none [1, 5] none) clock,
    .queueRefill "refill-1" "job-a" "gap-1" (.int 2) clock,
    .claimNext "worker" 45 ["feed"] later,
    .transition "job-a" "worker" .committing 45 later ]

/-- The first page of the refill keeps the lease, and the refill stays with its worker. -/
theorem refills_neverStranded_firstPage : ∃ calls,
    Along (step gapName) MiningCall.keepsRefills {} calls ∧
    (run (step gapName) {} calls).pages.length = 2 ∧
    (run (step gapName) {} calls).refills.any (fun r => r.status == .leased) = true ∧
    ∀ r ∈ (run (step gapName) {} calls).refills, r.status = .leased →
      ∃ j ∈ (run (step gapName) {} calls).jobs, j.jobId = r.jobId ∧
        j.status.isActive = true ∧ j.leaseOwner.isSome = true ∧ r.leaseOwner = j.leaseOwner := by
  have halong : Along (step gapName) MiningCall.keepsRefills {} (claimedRefill ++
      [.commitPage (pageOf "page-2" .refill (some "refill-1") [2] (some (.int 3))) ⟨110, ""⟩]) := by
    with_unfolding_all decide
  exact ⟨_, halong, by with_unfolding_all decide, by with_unfolding_all decide,
    refills_neverStranded _ _ halong⟩

/-- A refill that no job works on. -/
def hasStrandedRefill (s : MiningState) : Bool :=
  s.refills.any fun r => r.status == .leased && !s.jobs.any fun j =>
    j.jobId == r.jobId && (j.status.isActive && j.leaseOwner == r.leaseOwner)

/-- A pause between two pages of a refill strands it, and so does resuming a job that runs one. -/
theorem refills_stranded :
    hasStrandedRefill (run (step gapName) {} (claimedRefill ++
      [ .pauseJob "job-a" ⟨105, ""⟩,
        .commitPage (pageOf "page-2" .refill (some "refill-1") [2] (some (.int 3))) ⟨110, ""⟩ ])) = true ∧
    hasStrandedRefill (run (step gapName) {} (claimedRefill ++
      [.resumeJob "job-a" ⟨105, ""⟩])) = true := by
  with_unfolding_all decide

end Lifecycle

end TradeFramework.Mining
