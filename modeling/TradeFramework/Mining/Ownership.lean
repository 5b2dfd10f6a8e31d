import TradeFramework.Mining.Refills

/-!
# Stale workers

A worker whose lease was taken back may go on calling the store under its old token. Six of the
seven calls of a worker find no row with that token and change nothing; `block_job` asks for the
token in the statement on the job alone.
-/

namespace TradeFramework.Mining

open Transitions

section Guards

variable {s : MiningState} {jobId owner : String}

/-- The job and the owner token of a call that a worker makes under its lease. -/
def MiningCall.worker? : MiningCall → Option (String × String)
  | beginActive jobId owner _ _ _ _ _ => some (jobId, owner)
  | transition jobId owner _ _ _ => some (jobId, owner)
  | heartbeat jobId owner _ _ => some (jobId, owner)
  | retryJob jobId owner _ _ _ _ => some (jobId, owner)
  | releaseJob jobId owner _ => some (jobId, owner)
  | blockJob jobId owner _ _ => some (jobId, owner)
  | commitPage commit _ => some (commit.jobId, commit.owner)
  | _ => none

def MiningCall.isBlockJob : MiningCall → Bool
  | blockJob _ _ _ _ => true
  | _ => false

/-- The token is not the lease owner of the job. -/
def NotOwner (s : MiningState) (jobId owner : String) : Prop :=
  ∀ j ∈ s.jobs, j.jobId = jobId → j.leaseOwner ≠ some owner

lemma NotOwner.isOwned (h : NotOwner s jobId owner) {j : JobRow} (hj : j ∈ s.jobs) :
    isOwned jobId owner j = false := by
  rw [Bool.eq_false_iff]
  intro howned
  obtain ⟨hid, howner⟩ := isOwned_iff.mp howned
  exact h j hj hid howner

lemma NotOwner.ownedJob? (h : NotOwner s jobId owner) : s.ownedJob? jobId owner = none := by
  cases hrow : s.ownedJob? jobId owner with
  | none => rfl
  | some row =>
    obtain ⟨hmem, hid, howner⟩ := ownedJob?_eq_some hrow
    exact absurd howner (h row hmem hid)

/-- A statement that asks for the token and more changes no row. -/
lemma NotOwner.changed (h : NotOwner s jobId owner) (also : JobRow → Bool) :
    Table.changed (fun j => Mining.isOwned jobId owner j && also j) s.jobs = 0 := by
  unfold Table.changed
  rw [List.countP_eq_zero]
  intro j hj
  simp [h.isOwned hj]

lemma NotOwner.updateJobs (h : NotOwner s jobId owner) (also : JobRow → Bool)
    (change : JobRow → JobRow) :
    s.updateJobs (fun j => Mining.isOwned jobId owner j && also j) change = s := by
  have hjobs : Table.update (fun j => Mining.isOwned jobId owner j && also j) change s.jobs =
      s.jobs := by
    apply Table.update_of_forall_not
    intro j hj
    simp [h.isOwned hj]
  unfold MiningState.updateJobs
  rw [hjobs]

lemma NotOwner.committingJob? {commit : PageCommit} (h : NotOwner s commit.jobId commit.owner) :
    Mining.committingJob? commit s = none := by
  cases hrow : Mining.committingJob? commit s with
  | none => rfl
  | some row =>
    obtain ⟨hmem, hid, howner, -⟩ := committingJob?_eq_some hrow
    exact absurd howner (h row hmem hid)

end Guards

section Calls

variable {s : MiningState} {jobId owner : String} {gapIdentifier : String → ℚ → ℚ → String}

/-- A guarded call of a non-owner that commits leaves the state as it is. -/
lemma NotOwner.transact (h : NotOwner s jobId owner) {call : MiningCall}
    (hworker : call.worker? = some (jobId, owner)) (hblock : call.isBlockJob = false)
    {s' : MiningState} (hcall : call.transact gapIdentifier s = .ok s') : s' = s := by
  cases call with
  | beginActive id token lane cursor refillId leaseSeconds clock =>
    cases hworker
    simp only [MiningCall.transact, beginActive, Raising.bind_eq_ok, Raising.raiseIf_eq_ok] at hcall
    obtain ⟨-, hchanged, -⟩ := hcall
    exact absurd (h.changed _) hchanged
  | transition id token status leaseSeconds clock =>
    cases hworker
    simp only [MiningCall.transact, transition, Raising.bind_eq_ok, Raising.raiseIf_eq_ok] at hcall
    obtain ⟨-, -, -, hchanged, -⟩ := hcall
    exact absurd (h.changed _) hchanged
  | heartbeat id token leaseSeconds clock =>
    cases hworker
    simp only [MiningCall.transact, heartbeat, Raising.pure_eq_ok] at hcall
    rw [← hcall]
    exact h.updateJobs _ _
  | retryJob id token error retryAfter jitter clock =>
    cases hworker
    simp only [MiningCall.transact, retryJob, h.ownedJob?, Raising.pure_eq_ok] at hcall
    exact hcall.symm
  | releaseJob id token clock =>
    cases hworker
    simp only [MiningCall.transact, releaseJob, h.ownedJob?, Raising.pure_eq_ok] at hcall
    exact hcall.symm
  | blockJob id token reason clock => cases hblock
  | commitPage commit clock =>
    cases hworker
    simp only [MiningCall.transact, commitPage, h.committingJob?, Raising.bind_eq_ok,
      Raising.throw_eq_ok] at hcall
    obtain ⟨-, -, hnone⟩ := hcall
    exact hnone.elim
  | _ => cases hworker

/-- `block_job` always leaves its event. -/
lemma blockJob_ne (jobId owner reason : String) (clock : Clock) (s : MiningState) :
    blockJob jobId owner clock s reason ≠ s := by
  intro h
  have hevents := congrArg (fun t => t.events.length) h
  simp [blockJob, MiningState.event, MiningState.metric, MiningState.updateRefills,
    MiningState.updateJobs] at hevents

/-- A call of a worker that does not own the job is a no-op exactly when it is not `block_job`. -/
theorem step_notOwner_iff (gapIdentifier : String → ℚ → ℚ → String) (s : MiningState)
    (call : MiningCall) (jobId owner : String) (hworker : call.worker? = some (jobId, owner))
    (howner : NotOwner s jobId owner) :
    step gapIdentifier s call = s ↔ call.isBlockJob = false := by
  constructor
  · intro hstep
    by_contra hblock
    cases call with
    | blockJob id token reason clock => exact blockJob_ne id token reason clock s hstep
    | _ => exact hblock rfl
  · intro hblock
    unfold step
    split
    · next hcall => exact howner.transact hworker hblock hcall
    · rfl

/-- The lease of `claimedRefill` runs out, and another worker takes the job and its refill. -/
def reclaimedRefill : MiningState :=
  let clock : Clock := ⟨200, "1970-01-01T00:03:20Z"⟩
  run (step gapName) {} (claimedRefill ++
    [.recoverExpiredLeases clock, .claimNext "other" 45 ["feed"] clock])

lemma reclaimedRefill_notOwner : NotOwner reclaimedRefill "job-a" "worker" := by
  unfold NotOwner
  with_unfolding_all decide

/-- The stale worker's heartbeat does not reach the new lease. -/
theorem step_notOwner_heartbeat : step gapName reclaimedRefill
    (.heartbeat "job-a" "worker" 45 ⟨201, "1970-01-01T00:03:21Z"⟩) = reclaimedRefill :=
  (step_notOwner_iff gapName reclaimedRefill _ "job-a" "worker" rfl reclaimedRefill_notOwner).mpr rfl

/-- The stale worker's `block_job` fails the refill under the new worker's hands. -/
theorem blockJob_notOwner :
    NotOwner reclaimedRefill "job-a" "worker" ∧
    reclaimedRefill.refills.map (fun r => (r.status, r.leaseOwner)) = [(.leased, some "other")] ∧
    (step gapName reclaimedRefill (.blockJob "job-a" "worker" "The feed rejected the cursor."
      ⟨201, "1970-01-01T00:03:21Z"⟩)).refills.map (fun r => (r.status, r.leaseOwner)) =
        [(.failed, none)] := by
  exact ⟨reclaimedRefill_notOwner, by with_unfolding_all decide, by with_unfolding_all decide⟩

end Calls

end TradeFramework.Mining
