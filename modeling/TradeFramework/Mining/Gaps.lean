import TradeFramework.Library.AdjacentPairs
import TradeFramework.Mining.Versions

/-!
# The gap index

A commit looks only at the neighbours of the event times it touches. The unresolved gaps are
nevertheless all adjacent pairs of current event times that leave records out, after every run.
-/

namespace TradeFramework.Mining

open Transitions AdjacentPairs

section Neighborhoods

variable {s : MiningState} {jobId : String} {times : List ℚ} {eventTime lower upper t : ℚ}

/-- The event times of the current records of a job. -/
def eventTimeSet (s : MiningState) (jobId : String) : Set ℚ :=
  {t | ∃ v ∈ s.versions, v.jobId = jobId ∧ v.isCurrent = true ∧ v.eventTimeSort = some t}

lemma mem_currentEventTimes : t ∈ currentEventTimes s jobId ↔ t ∈ eventTimeSet s jobId := by
  unfold currentEventTimes eventTimeSet
  rw [List.mem_insertionSort, List.mem_dedup, List.mem_filterMap]
  simp only [List.mem_filter, Bool.and_eq_true, beq_iff_eq, Set.mem_ofPred_eq, and_assoc]

/-- Sorting without repetitions is strictly ascending. -/
lemma pairwise_lt_sorted (times : List ℚ) :
    ((times.dedup).insertionSort (· ≤ ·)).Pairwise (· < ·) := by
  have hsorted := List.pairwise_insertionSort (· ≤ ·) times.dedup
  have hnodup : ((times.dedup).insertionSort (· ≤ ·)).Nodup :=
    (List.perm_insertionSort _ _).nodup_iff.mpr times.nodup_dedup
  exact (hsorted.and hnodup).imp fun h => lt_of_le_of_ne h.1 h.2

lemma mem_neighborhood : t ∈ neighborhood times eventTime ↔
    t ∈ (times.filter (· ≤ eventTime)).reverse.take 2 ∨
      t ∈ (times.filter (eventTime ≤ ·)).take 2 := by
  unfold neighborhood
  rw [List.mem_insertionSort, List.mem_dedup, List.mem_append]

/-- The neighborhood of an event time leaves no event time out. -/
lemma neighborhood_window (htimes : times.Pairwise (· < ·)) :
    Window {t | t ∈ neighborhood times eventTime} {t | t ∈ times} := by
  have hbefore : (times.filter (· ≤ eventTime)).reverse.Pairwise (· > ·) :=
    List.pairwise_reverse.mpr (htimes.filter _)
  have hafter : (times.filter (eventTime ≤ ·)).Pairwise (· < ·) := htimes.filter _
  refine ⟨?_, ?_⟩
  · intro t ht
    rcases mem_neighborhood.mp ht with ht | ht
    · exact (List.mem_filter.mp (List.mem_reverse.mp (List.mem_of_mem_take ht))).1
    · exact (List.mem_filter.mp (List.mem_of_mem_take ht)).1
  · intro lower hlower upper hupper t ht hlt hgt
    apply mem_neighborhood.mpr
    rcases le_total t eventTime with hle | hle
    · left
      rcases mem_neighborhood.mp hlower with hlower | hlower
      · refine mem_take_of_not hbefore hlower ?_ (not_lt.mpr hlt.le)
        rw [List.mem_reverse, List.mem_filter]
        exact ⟨ht, by simpa using hle⟩
      · have hge := (List.mem_filter.mp (List.mem_of_mem_take hlower)).2
        have hge : eventTime ≤ lower := by simpa using hge
        exact absurd (hge.trans_lt hlt) (not_lt.mpr hle)
    · right
      rcases mem_neighborhood.mp hupper with hupper | hupper
      · have hge := (List.mem_filter.mp (List.mem_reverse.mp (List.mem_of_mem_take hupper))).2
        have hge : upper ≤ eventTime := by simpa using hge
        exact absurd (hgt.trans_le hge) (not_lt.mpr hle)
      · refine mem_take_of_not hafter hupper ?_ (not_lt.mpr hgt.le)
        rw [List.mem_filter]
        exact ⟨ht, by simpa using hle⟩

/-- An adjacent pair around an event time lies in its neighborhood. -/
lemma adjacent_neighborhood (htimes : times.Pairwise (· < ·))
    (h : Adjacent {t | t ∈ times} lower upper) (hlower : lower ≤ eventTime)
    (hupper : eventTime ≤ upper) :
    lower ∈ neighborhood times eventTime ∧ upper ∈ neighborhood times eventTime := by
  have hbefore : (times.filter (· ≤ eventTime)).reverse.Pairwise (· > ·) :=
    List.pairwise_reverse.mpr (htimes.filter _)
  have hafter : (times.filter (eventTime ≤ ·)).Pairwise (· < ·) := htimes.filter _
  constructor
  · apply mem_neighborhood.mpr
    left
    have habove : ∀ t ∈ (times.filter (· ≤ eventTime)).reverse, t > lower → t = upper := by
      intro t ht hgt
      obtain ⟨ht, hle⟩ := List.mem_filter.mp (List.mem_reverse.mp ht)
      have hle : t ≤ eventTime := by simpa using hle
      by_contra hne
      exact h.empty t ht ⟨hgt, lt_of_le_of_ne (hle.trans hupper) hne⟩
    refine mem_take_two hbefore (fun t => lt_irrefl t) ?_ ?_
    · rw [List.mem_reverse, List.mem_filter]
      exact ⟨h.lower_mem, by simpa using hlower⟩
    · intro a ha b hb hagt hbgt
      rw [habove a ha hagt, habove b hb hbgt]
  · apply mem_neighborhood.mpr
    right
    have hbelow : ∀ t ∈ times.filter (eventTime ≤ ·), t < upper → t = lower := by
      intro t ht hlt
      obtain ⟨ht, hle⟩ := List.mem_filter.mp ht
      have hle : eventTime ≤ t := by simpa using hle
      by_contra hne
      exact h.empty t ht ⟨lt_of_le_of_ne (hlower.trans hle) (Ne.symm hne), hlt⟩
    refine mem_take_two hafter (fun t => lt_irrefl t) ?_ ?_
    · rw [List.mem_filter]
      exact ⟨h.upper_mem, by simpa using hupper⟩
    · intro a ha b hb halt hblt
      rw [hbelow a ha halt, hbelow b hb hblt]

/-- The pairs around some event times of a job. -/
def localPairs (s : MiningState) (jobId : String) (eventTimes : List ℚ) : List (ℚ × ℚ) :=
  (eventTimes.flatMap fun t => (neighborhood (currentEventTimes s jobId) t).zip
    (neighborhood (currentEventTimes s jobId) t).tail).dedup

/-- The local pairs are adjacent, and every adjacent pair around a touched time is local. -/
lemma localPairs_adjacent {eventTimes : List ℚ} {pair : ℚ × ℚ}
    (h : pair ∈ localPairs s jobId eventTimes) :
    Adjacent (eventTimeSet s jobId) pair.1 pair.2 := by
  unfold localPairs at h
  rw [List.mem_dedup, List.mem_flatMap] at h
  obtain ⟨t, -, hpair⟩ := h
  have htimes : (currentEventTimes s jobId).Pairwise (· < ·) := pairwise_lt_sorted _
  have hwindow := (mem_zip_tail_iff (pairwise_lt_sorted _)).mp hpair
  have hadjacent := ((neighborhood_window htimes).adjacent_iff.mp hwindow).1
  refine (adjacent_congr ?_).mp hadjacent
  exact fun x _ _ => mem_currentEventTimes

lemma mem_localPairs {eventTimes : List ℚ} (h : Adjacent (eventTimeSet s jobId) lower upper)
    (hmem : eventTime ∈ eventTimes) (hlower : lower ≤ eventTime) (hupper : eventTime ≤ upper) :
    (lower, upper) ∈ localPairs s jobId eventTimes := by
  have htimes : (currentEventTimes s jobId).Pairwise (· < ·) := pairwise_lt_sorted _
  have hadjacent : Adjacent {t | t ∈ currentEventTimes s jobId} lower upper := by
    refine (adjacent_congr ?_).mp h
    exact fun x _ _ => mem_currentEventTimes.symm
  unfold localPairs
  rw [List.mem_dedup, List.mem_flatMap]
  refine ⟨eventTime, hmem, (mem_zip_tail_iff (pairwise_lt_sorted _)).mpr ?_⟩
  exact (neighborhood_window htimes).adjacent_iff.mpr
    ⟨hadjacent, adjacent_neighborhood htimes hadjacent hlower hupper⟩

end Neighborhoods

section Rows

variable {gapIdentifier : String → ℚ → ℚ → String} {s s' t : MiningState}
  {jobId checkedAt : String} {step lower upper : ℚ}

/-- The pair of event times a gap row stands for, with its job. -/
def GapRow.key (g : GapRow) : String × ℚ × ℚ := (g.jobId, g.previousEventTime, g.nextEventTime)

/-- A pair of event times of a job is an unresolved gap. -/
def UnresolvedGap (s : MiningState) (jobId : String) (lower upper : ℚ) : Prop :=
  ∃ g ∈ s.gaps, g.key = (jobId, lower, upper) ∧ g.status ≠ .resolved

/-- The primary key of `gaps`, which is computed from the pair. -/
structure GapsKeyed (gapIdentifier : String → ℚ → ℚ → String) (s : MiningState) : Prop where
  ids : (s.gaps.map GapRow.gapId).Nodup
  named : ∀ g ∈ s.gaps, g.gapId = gapIdentifier g.jobId g.previousEventTime g.nextEventTime

lemma GapsKeyed.gapId_eq (h : GapsKeyed gapIdentifier s) {g : GapRow} (hg : g ∈ s.gaps)
    (hkey : g.key = (jobId, lower, upper)) : g.gapId = gapIdentifier jobId lower upper := by
  rw [h.named g hg]
  unfold GapRow.key at hkey
  rw [Prod.mk.injEq, Prod.mk.injEq] at hkey
  rw [hkey.1, hkey.2.1, hkey.2.2]

/-- Rows of one identifier stand for one pair. -/
lemma GapsKeyed.eq_of_gapId (h : GapsKeyed gapIdentifier s) {g g' : GapRow} (hg : g ∈ s.gaps)
    (hg' : g' ∈ s.gaps) (hid : g.gapId = g'.gapId) : g = g' :=
  Table.eq_of_key h.ids hg hg' hid

/-- A change of gap rows that keeps their keys. -/
lemma GapsKeyed.update (h : GapsKeyed gapIdentifier s) {hit : GapRow → Bool}
    {change : GapRow → GapRow}
    (hchange : ∀ g, (change g).gapId = g.gapId ∧ (change g).key = g.key) :
    GapsKeyed gapIdentifier (s.updateGaps hit change) := by
  refine ⟨?_, ?_⟩
  · unfold MiningState.updateGaps
    dsimp only
    rw [Table.map_update GapRow.gapId fun g => (hchange g).1]
    exact h.ids
  · refine Table.forall_update fun g hg => ?_
    split_ifs
    · obtain ⟨hid, hkey⟩ := hchange g
      unfold GapRow.key at hkey
      rw [Prod.mk.injEq, Prod.mk.injEq] at hkey
      rw [hid, hkey.1, hkey.2.1, hkey.2.2]
      exact h.named g hg
    · exact h.named g hg

lemma unresolvedGap_update {hit : GapRow → Bool} {change : GapRow → GapRow}
    (hchange : ∀ g, (change g).key = g.key) :
    UnresolvedGap (s.updateGaps hit change) jobId lower upper ↔
      ∃ g ∈ s.gaps, g.key = (jobId, lower, upper) ∧
        (if hit g then (change g).status else g.status) ≠ .resolved := by
  unfold UnresolvedGap MiningState.updateGaps
  constructor
  · rintro ⟨g, hg, hkey, hstatus⟩
    obtain ⟨old, hold, rfl⟩ := Table.mem_update.mp hg
    refine ⟨old, hold, ?_, ?_⟩
    · split_ifs at hkey
      · exact (hchange old).symm.trans hkey
      · exact hkey
    · split_ifs at hstatus ⊢
      · exact hstatus
      · exact hstatus
  · rintro ⟨g, hg, hkey, hstatus⟩
    refine ⟨if hit g then change g else g, Table.mem_update.mpr ⟨g, hg, rfl⟩, ?_, ?_⟩
    · split_ifs
      · exact (hchange g).trans hkey
      · exact hkey
    · split_ifs at hstatus ⊢
      · exact hstatus
      · exact hstatus

/-- What one pair of the insertion loop may do: pass, reopen its row, or insert it. -/
lemma upsertGap_cases {pair : ℚ × ℚ}
    (h : upsertGap gapIdentifier jobId step checkedAt t pair = .ok s') :
    (isGapPair step pair = false ∧ s' = t) ∨
    (isGapPair step pair = true ∧ (∃ g ∈ t.gaps, g.key = (jobId, pair)) ∧
      ∃ hit change, s' = t.updateGaps hit change ∧ (∀ g, hit g = true ↔ g.key = (jobId, pair)) ∧
        ∀ g, (change g).gapId = g.gapId ∧ (change g).key = g.key ∧ (change g).status ≠ .resolved) ∨
    (isGapPair step pair = true ∧ (∀ g ∈ t.gaps, g.gapId ≠ gapIdentifier jobId pair.1 pair.2) ∧
      ∃ row : GapRow, s' = { t with gaps := t.gaps ++ [row] } ∧ row.key = (jobId, pair) ∧
        row.gapId = gapIdentifier jobId pair.1 pair.2 ∧ row.status ≠ .resolved) := by
  have hsame : ∀ g : GapRow, (g.jobId == jobId &&
      decide (g.previousEventTime = pair.1 ∧ g.nextEventTime = pair.2)) = true ↔
        g.key = (jobId, pair) := by
    intro g
    simp only [GapRow.key, Bool.and_eq_true, beq_iff_eq, decide_eq_true_eq, Prod.ext_iff]
  unfold upsertGap at h
  dsimp only at h
  by_cases hgap : isGapPair step pair = true
  · rw [if_neg (by simpa using hgap)] at h
    right
    split_ifs at h with hany
    · cases h
      obtain ⟨known, hknown, hkey⟩ := List.any_eq_true.mp hany
      left
      refine ⟨hgap, ⟨known, hknown, (hsame known).mp hkey⟩, _, _, rfl, hsame, ?_⟩
      intro g
      refine ⟨rfl, rfl, ?_⟩
      by_cases hqueued : g.status = .backfillQueued
      · simp [hqueued]
      · simp [hqueued]
    · simp only [Raising.bind_eq_ok, Raising.raiseIf_eq_ok, Raising.pure_eq_ok] at h
      obtain ⟨⟨⟩, hfresh, rfl⟩ := h
      right
      exact ⟨hgap, by simpa using hfresh, _, rfl, rfl, rfl, by simp⟩
  · rw [if_pos (by simpa using hgap)] at h
    cases h
    exact .inl ⟨by simpa using hgap, rfl⟩

/-- What the insertion loop has done after some pairs. -/
structure Upserted (gapIdentifier : String → ℚ → ℚ → String) (s : MiningState) (jobId : String)
    (step : ℚ) (seen : List (ℚ × ℚ)) (t : MiningState) : Prop where
  keyed : GapsKeyed gapIdentifier t
  kept : ∀ g ∈ s.gaps, ∃ g' ∈ t.gaps, g'.key = g.key
  owned : ∀ g ∈ t.gaps, (∃ pair ∈ seen, g.key = (jobId, pair)) ∨ ∃ g' ∈ s.gaps, g'.key = g.key
  unresolved : ∀ job lower upper, UnresolvedGap t job lower upper ↔
    UnresolvedGap s job lower upper ∨
      job = jobId ∧ (lower, upper) ∈ seen ∧ isGapPair step (lower, upper) = true

lemma Upserted.start (h : GapsKeyed gapIdentifier s) : Upserted gapIdentifier s jobId step [] s := by
  refine ⟨h, fun g hg => ⟨g, hg, rfl⟩, fun g hg => .inr ⟨g, hg, rfl⟩, fun job lower upper => ?_⟩
  simp

/-- A pair that opens its gap joins the pairs that are open. -/
lemma Upserted.opened {seen : List (ℚ × ℚ)} {pair : ℚ × ℚ}
    (h : Upserted gapIdentifier s jobId step seen t) (hgap : isGapPair step pair = true)
    (hopened : ∀ job lower upper, UnresolvedGap s' job lower upper ↔
      UnresolvedGap t job lower upper ∨ (job, lower, upper) = (jobId, pair)) (job : String)
    (lower upper : ℚ) : UnresolvedGap s' job lower upper ↔ UnresolvedGap s job lower upper ∨
      job = jobId ∧ (lower, upper) ∈ seen ++ [pair] ∧ isGapPair step (lower, upper) = true := by
  rw [hopened, h.unresolved, List.mem_append, List.mem_singleton, Prod.mk.injEq]
  constructor
  · rintro ((hold | ⟨hjob, hmem, hisGap⟩) | ⟨hjob, heq⟩)
    · exact .inl hold
    · exact .inr ⟨hjob, .inl hmem, hisGap⟩
    · exact .inr ⟨hjob, .inr heq, heq ▸ hgap⟩
  · rintro (hold | ⟨hjob, hmem | heq, hisGap⟩)
    · exact .inl (.inl hold)
    · exact .inl (.inr ⟨hjob, hmem, hisGap⟩)
    · exact .inr ⟨hjob, heq⟩

/-- A pair that is no gap is passed over, one that has a row reopens it, and another gets one. -/
lemma Upserted.upsertGap {seen : List (ℚ × ℚ)} {pair : ℚ × ℚ}
    (h : Upserted gapIdentifier s jobId step seen t)
    (hpair : Mining.upsertGap gapIdentifier jobId step checkedAt t pair = .ok s') :
    Upserted gapIdentifier s jobId step (seen ++ [pair]) s' := by
  have hseen : ∀ g ∈ t.gaps,
      (∃ known ∈ seen ++ [pair], g.key = (jobId, known)) ∨ ∃ g' ∈ s.gaps, g'.key = g.key := by
    intro g hg
    rcases h.owned g hg with ⟨known, hknown, hkey⟩ | hold
    · exact .inl ⟨known, List.mem_append_left _ hknown, hkey⟩
    · exact .inr hold
  rcases upsertGap_cases hpair with ⟨hgap, rfl⟩ |
    ⟨hgap, ⟨known, hknown, hknownKey⟩, hit, change, rfl, hhit, hchange⟩ |
    ⟨hgap, hfresh, row, rfl, hkey, hid, hstatus⟩
  · refine ⟨h.keyed, h.kept, hseen, fun job lower upper => ?_⟩
    rw [h.unresolved job lower upper, List.mem_append, List.mem_singleton]
    constructor
    · rintro (hold | ⟨hjob, hmem, hisGap⟩)
      · exact .inl hold
      · exact .inr ⟨hjob, .inl hmem, hisGap⟩
    · rintro (hold | ⟨hjob, hmem | heq, hisGap⟩)
      · exact .inl hold
      · exact .inr ⟨hjob, hmem, hisGap⟩
      · rw [heq, hgap] at hisGap
        cases hisGap
  · have hkeys : ∀ g, (if hit g then change g else g).key = g.key := by
      intro g
      split_ifs
      · exact (hchange g).2.1
      · rfl
    refine ⟨h.keyed.update fun g => ⟨(hchange g).1, (hchange g).2.1⟩, ?_, ?_, h.opened hgap ?_⟩
    · intro g hg
      obtain ⟨g', hg', hkey⟩ := h.kept g hg
      exact ⟨_, Table.mem_update.mpr ⟨g', hg', rfl⟩, (hkeys g').trans hkey⟩
    · refine Table.forall_update fun g hg => ?_
      rw [hkeys g]
      exact hseen g hg
    · intro job lower upper
      rw [unresolvedGap_update fun g => (hchange g).2.1]
      constructor
      · rintro ⟨g, hg, hkey, hstatus⟩
        by_cases hhitg : hit g = true
        · exact .inr (hkey.symm.trans ((hhit g).mp hhitg))
        · rw [if_neg hhitg] at hstatus
          exact .inl ⟨g, hg, hkey, hstatus⟩
      · rintro (⟨g, hg, hkey, hstatus⟩ | hkey)
        · refine ⟨g, hg, hkey, ?_⟩
          split_ifs
          · exact (hchange g).2.2
          · exact hstatus
        · refine ⟨known, hknown, hknownKey.trans hkey.symm, ?_⟩
          rw [if_pos ((hhit known).mpr hknownKey)]
          exact (hchange known).2.2
  · refine ⟨⟨?_, ?_⟩, ?_, ?_, h.opened hgap ?_⟩
    · refine Table.nodup_insert h.keyed.ids ?_
      rw [hid]
      exact hfresh
    · rw [List.forall_mem_append, List.forall_mem_singleton]
      refine ⟨h.keyed.named, ?_⟩
      obtain ⟨lower, upper⟩ := pair
      unfold GapRow.key at hkey
      rw [Prod.mk.injEq, Prod.mk.injEq] at hkey
      rw [hid, hkey.1, hkey.2.1, hkey.2.2]
    · intro g hg
      obtain ⟨g', hg', hkey⟩ := h.kept g hg
      exact ⟨g', List.mem_append_left _ hg', hkey⟩
    · rw [List.forall_mem_append, List.forall_mem_singleton]
      exact ⟨hseen, .inl ⟨pair, by simp, hkey⟩⟩
    · intro job lower upper
      unfold UnresolvedGap
      simp only [List.mem_append, List.mem_singleton, or_and_right, exists_or, exists_eq_left]
      rw [hkey]
      exact or_congr_right ⟨fun h => h.1.symm, fun h => ⟨h.symm, hstatus⟩⟩

/-- Resolving by identifier closes the pair of that identifier. -/
lemma GapsKeyed.resolveGap (h : GapsKeyed gapIdentifier s) (gapId : String) :
    GapsKeyed gapIdentifier (resolveGap checkedAt gapId s) :=
  h.update fun _ => ⟨rfl, rfl⟩

lemma unresolvedGap_resolveGap (h : GapsKeyed gapIdentifier s) (gapId : String) :
    UnresolvedGap (resolveGap checkedAt gapId s) jobId lower upper ↔
      UnresolvedGap s jobId lower upper ∧ gapIdentifier jobId lower upper ≠ gapId := by
  unfold resolveGap
  rw [unresolvedGap_update (by intro; rfl)]
  constructor
  · rintro ⟨g, hg, hkey, hstatus⟩
    have hid : g.gapId = gapIdentifier jobId lower upper := h.gapId_eq hg hkey
    by_cases hhit : (g.gapId == gapId) = true
    · rw [if_pos hhit] at hstatus
      exact absurd rfl hstatus
    · rw [if_neg hhit] at hstatus
      refine ⟨⟨g, hg, hkey, hstatus⟩, ?_⟩
      rw [← hid]
      simpa using hhit
  · rintro ⟨⟨g, hg, hkey, hstatus⟩, hne⟩
    refine ⟨g, hg, hkey, ?_⟩
    rw [← h.gapId_eq hg hkey] at hne
    rw [if_neg (by simpa using hne)]
    exact hstatus

/-- After the stale gaps are resolved, the other unresolved pairs are left. -/
lemma unresolvedGap_resolved (h : GapsKeyed gapIdentifier s) (stale : List GapRow) :
    UnresolvedGap (stale.foldl (fun s g => resolveGap checkedAt g.gapId s) s) jobId lower upper ↔
      UnresolvedGap s jobId lower upper ∧
        ∀ g ∈ stale, gapIdentifier jobId lower upper ≠ g.gapId := by
  induction stale generalizing s with
  | nil => simp
  | cons g stale ih =>
    rw [List.foldl_cons, ih (h.resolveGap g.gapId), unresolvedGap_resolveGap h, List.forall_mem_cons,
      and_assoc]

lemma GapsKeyed.resolved (h : GapsKeyed gapIdentifier s) (stale : List GapRow) :
    GapsKeyed gapIdentifier (stale.foldl (fun s g => Mining.resolveGap checkedAt g.gapId s) s) := by
  induction stale generalizing s with
  | nil => exact h
  | cons g stale ih => exact ih (h.resolveGap g.gapId)

lemma resolved_rows (stale : List GapRow) (t : MiningState) :
    (stale.foldl (fun s g => resolveGap checkedAt g.gapId s) t).gaps.map GapRow.key =
      t.gaps.map GapRow.key := by
  induction stale generalizing t with
  | nil => rfl
  | cons g stale ih =>
    rw [List.foldl_cons, ih]
    exact Table.map_update GapRow.key fun _ => rfl

/-- The gaps around a touched event time that are no local gaps any more. -/
def staleGaps (s : MiningState) (jobId : String) (step : ℚ) (eventTimes : List ℚ) : List GapRow :=
  (s.gaps.filter fun g => eventTimes.any fun t => g.covers jobId t).filter fun g =>
    (g.previousEventTime, g.nextEventTime) ∉ (localPairs s jobId eventTimes).filter (isGapPair step)

lemma mem_staleGaps {eventTimes : List ℚ} {g : GapRow} : g ∈ staleGaps s jobId step eventTimes ↔
    g ∈ s.gaps ∧ (g.jobId = jobId ∧ g.status ≠ .resolved ∧
        ∃ t ∈ eventTimes, g.previousEventTime ≤ t ∧ t ≤ g.nextEventTime) ∧
      ¬((g.previousEventTime, g.nextEventTime) ∈ localPairs s jobId eventTimes ∧
        isGapPair step (g.previousEventTime, g.nextEventTime) = true) := by
  simp only [staleGaps, GapRow.covers, List.mem_filter, List.any_eq_true, Bool.and_eq_true,
    beq_iff_eq, bne_iff_ne, decide_eq_true_eq]
  constructor
  · rintro ⟨⟨hg, t, ht, ⟨⟨hjob, hstatus⟩, hlower⟩, hupper⟩, hnot⟩
    exact ⟨hg, ⟨hjob, hstatus, t, ht, hlower, hupper⟩, hnot⟩
  · rintro ⟨hg, ⟨hjob, hstatus, t, ht, hlower, hupper⟩, hnot⟩
    exact ⟨⟨hg, t, ht, ⟨⟨hjob, hstatus⟩, hlower⟩, hupper⟩, hnot⟩

lemma recomputeGapsIncremental_eq_ok {eventTimes : List ℚ} (hstep : 0 < step)
    (h : recomputeGapsIncremental gapIdentifier jobId (some step) eventTimes checkedAt s = .ok s') :
    ∃ updated, (localPairs s jobId eventTimes).foldlM
        (upsertGap gapIdentifier jobId step checkedAt) s = .ok updated ∧
      s' = (staleGaps s jobId step eventTimes).foldl
        (fun s g => resolveGap checkedAt g.gapId s) updated := by
  unfold recomputeGapsIncremental at h
  dsimp only at h
  split_ifs at h with hnone
  · cases h
    have hempty : eventTimes = [] := hnone.resolve_left (not_le.mpr hstep)
    subst hempty
    refine ⟨s, rfl, ?_⟩
    have hstale : staleGaps s jobId step [] = [] := by simp [staleGaps]
    rw [hstale, List.foldl_nil]
  · simp only [Raising.bind_eq_ok, Raising.pure_eq_ok] at h
    obtain ⟨updated, hupdated, rfl⟩ := h
    exact ⟨updated, hupdated, rfl⟩

/-- `_recompute_gaps_incremental`: the unresolved pairs are the local ones that are gaps, and the
earlier ones that no touched event time lies in. -/
lemma recomputeGapsIncremental_unresolved (h : GapsKeyed gapIdentifier s) {eventTimes : List ℚ}
    (hstep : 0 < step)
    (hindexed : recomputeGapsIncremental gapIdentifier jobId (some step) eventTimes checkedAt s =
      .ok s') :
    GapsKeyed gapIdentifier s' ∧
    (∀ g ∈ s'.gaps, (∃ pair ∈ localPairs s jobId eventTimes, g.key = (jobId, pair)) ∨
      ∃ g' ∈ s.gaps, g'.key = g.key) ∧
    ∀ job lower upper, UnresolvedGap s' job lower upper ↔
      (job = jobId ∧ (lower, upper) ∈ localPairs s jobId eventTimes ∧
          isGapPair step (lower, upper) = true) ∨
        UnresolvedGap s job lower upper ∧
          ¬(job = jobId ∧ ∃ t ∈ eventTimes, lower ≤ t ∧ t ≤ upper) := by
  obtain ⟨updated, hupdated, rfl⟩ := recomputeGapsIncremental_eq_ok hstep hindexed
  have hupserted := Raising.foldlM_relation (Upserted gapIdentifier s jobId step)
    (fun seen t t' pair ht hpair => ht.upsertGap hpair) [] (Upserted.start h) hupdated
  rw [List.nil_append] at hupserted
  obtain ⟨hkeyed, hkept, howned, hunresolved⟩ := hupserted
  refine ⟨hkeyed.resolved _, ?_, ?_⟩
  · intro g hg
    have hmem : g.key ∈ updated.gaps.map GapRow.key := by
      rw [← resolved_rows (staleGaps s jobId step eventTimes) updated]
      exact List.mem_map_of_mem hg
    obtain ⟨old, hold, hkey⟩ := List.mem_map.mp hmem
    rw [← hkey]
    exact howned old hold
  · intro job lower upper
    rw [unresolvedGap_resolved hkeyed]
    -- Identifiers are unique among the rows, so a stale row closes its own pair only.
    have hown : UnresolvedGap updated job lower upper →
        ((∀ g ∈ staleGaps s jobId step eventTimes, gapIdentifier job lower upper ≠ g.gapId) ↔
          ∀ g ∈ staleGaps s jobId step eventTimes, g.key ≠ (job, lower, upper)) := by
      rintro ⟨row, hrow, hrowKey, -⟩
      constructor
      · intro hids g hg hkey
        exact hids g hg (h.gapId_eq (mem_staleGaps.mp hg).1 hkey).symm
      · intro hkeys g hg hid
        obtain ⟨hgs, -⟩ := mem_staleGaps.mp hg
        obtain ⟨g', hg', hkey⟩ := hkept g hgs
        have hgapId : g'.gapId = g.gapId := by
          rw [hkeyed.gapId_eq hg' hkey]
          exact (h.named g hgs).symm
        have hsame : g' = row := by
          apply hkeyed.eq_of_gapId hg' hrow
          rw [hgapId, ← hid, hkeyed.gapId_eq hrow hrowKey]
        exact hkeys g hg (by rw [← hkey, hsame, hrowKey])
    have hstaleKey : ∀ g ∈ staleGaps s jobId step eventTimes, g.key = (job, lower, upper) →
        (job = jobId ∧ ∃ t ∈ eventTimes, lower ≤ t ∧ t ≤ upper) ∧
          ¬((lower, upper) ∈ localPairs s jobId eventTimes ∧
            isGapPair step (lower, upper) = true) := by
      intro g hg hkey
      obtain ⟨-, ⟨hjob, -, htouched⟩, hnot⟩ := mem_staleGaps.mp hg
      unfold GapRow.key at hkey
      rw [Prod.mk.injEq, Prod.mk.injEq] at hkey
      obtain ⟨rfl, rfl, rfl⟩ := hkey
      exact ⟨⟨hjob, htouched⟩, hnot⟩
    constructor
    · rintro ⟨hopen, hids⟩
      have hkeys := (hown hopen).mp hids
      rcases (hunresolved job lower upper).mp hopen with hold | hlocal
      · by_cases htouched : job = jobId ∧ ∃ t ∈ eventTimes, lower ≤ t ∧ t ≤ upper
        · left
          obtain ⟨g, hg, hkey, hstatus⟩ := hold
          by_contra hnot
          refine hkeys g (mem_staleGaps.mpr ?_) hkey
          unfold GapRow.key at hkey
          rw [Prod.mk.injEq, Prod.mk.injEq] at hkey
          obtain ⟨rfl, rfl, rfl⟩ := hkey
          exact ⟨hg, ⟨htouched.1, hstatus, htouched.2⟩, fun hpair => hnot ⟨htouched.1, hpair⟩⟩
        · exact .inr ⟨hold, htouched⟩
      · exact .inl hlocal
    · rintro (hlocal | ⟨hold, huntouched⟩)
      · have hopen := (hunresolved job lower upper).mpr (.inr hlocal)
        refine ⟨hopen, (hown hopen).mpr fun g hg hkey => ?_⟩
        exact (hstaleKey g hg hkey).2 hlocal.2
      · have hopen := (hunresolved job lower upper).mpr (.inl hold)
        refine ⟨hopen, (hown hopen).mpr fun g hg hkey => ?_⟩
        exact huntouched (hstaleKey g hg hkey).1

end Rows

section Records

variable {s s' : MiningState} {page : PageKey} {entry : Entry} {jobId : String} {t : ℚ}
  {history : List Entry}

lemma mem_eventTimeSet_insertVersion {lineNumber revision : ℕ}
    (h : insertVersion page entry lineNumber revision s = .ok s') :
    t ∈ eventTimeSet s' jobId ↔ t ∈ eventTimeSet s jobId ∨
      page.jobId = jobId ∧ entry.eventTimeSort = some t := by
  obtain ⟨row, hrows, hjob, -, -, -, hcurrent, -, htime⟩ := insertVersion_eq_ok h
  have hrow : (row.jobId = jobId ∧ row.isCurrent = true ∧ row.eventTimeSort = some t) ↔
      page.jobId = jobId ∧ entry.eventTimeSort = some t := by
    rw [hjob, hcurrent, htime]
    simp
  unfold eventTimeSet
  rw [hrows]
  simp only [List.mem_append, List.mem_singleton, or_and_right, exists_or, exists_eq_left,
    Set.mem_ofPred_eq]
  rw [hrow]

/-- A change of versions that keeps their event times and their currency. -/
lemma mem_eventTimeSet_updateCurrent {change : VersionRow → VersionRow}
    (hchange : ∀ v, (change v).jobId = v.jobId ∧ (change v).isCurrent = v.isCurrent ∧
      (change v).eventTimeSort = v.eventTimeSort) :
    t ∈ eventTimeSet (updateCurrent page entry change s) jobId ↔ t ∈ eventTimeSet s jobId := by
  unfold eventTimeSet updateCurrent
  constructor
  · rintro ⟨v, hv, hjob, hcurrent, htime⟩
    obtain ⟨old, hold, rfl⟩ := Table.mem_update.mp hv
    refine ⟨old, hold, ?_⟩
    split_ifs at hjob hcurrent htime
    · obtain ⟨hj, hc, ht⟩ := hchange old
      exact ⟨hj ▸ hjob, hc ▸ hcurrent, ht ▸ htime⟩
    · exact ⟨hjob, hcurrent, htime⟩
  · rintro ⟨v, hv, hjob, hcurrent, htime⟩
    refine ⟨_, Table.mem_update.mpr ⟨v, hv, rfl⟩, ?_⟩
    obtain ⟨hj, hc, ht⟩ := hchange v
    split_ifs
    · exact ⟨hj.trans hjob, hc.trans hcurrent, ht.trans htime⟩
    · exact ⟨hjob, hcurrent, htime⟩

/-- Retiring the current version of a record takes its event time out, unless another record has it. -/
lemma mem_eventTimeSet_retire
    (h : Destuttered history (versionsOf s page.jobId entry.identityHash)) {version : VersionRow}
    (hfound : s.versions.find? (isCurrentVersion page.jobId entry.identityHash) = some version)
    (ht : ¬(jobId = page.jobId ∧ version.eventTimeSort = some t)) :
    t ∈ eventTimeSet (updateCurrent page entry (fun v => { v with isCurrent := false }) s) jobId ↔
      t ∈ eventTimeSet s jobId := by
  unfold eventTimeSet updateCurrent
  constructor
  · rintro ⟨v, hv, hjob, hcurrent, htime⟩
    obtain ⟨old, hold, rfl⟩ := Table.mem_update.mp hv
    by_cases hhit : isCurrentVersion page.jobId entry.identityHash old = true
    · rw [if_pos hhit] at hcurrent
      cases hcurrent
    · rw [if_neg hhit] at hjob hcurrent htime
      exact ⟨old, hold, hjob, hcurrent, htime⟩
  · rintro ⟨v, hv, hjob, hcurrent, htime⟩
    have hmiss : isCurrentVersion page.jobId entry.identityHash v = false := by
      rw [Bool.eq_false_iff]
      intro hhit
      have hrows : v ∈ (versionsOf s page.jobId entry.identityHash).filter VersionRow.isCurrent := by
        unfold versionsOf
        simp only [isCurrentVersion, Bool.and_eq_true] at hhit
        simp [List.mem_filter, hv, hhit.1.1, hhit.1.2, hcurrent]
      rw [h.current, ← h.find, hfound, Option.toList_some, List.mem_singleton] at hrows
      simp only [isCurrentVersion, Bool.and_eq_true, beq_iff_eq] at hhit
      exact ht ⟨hjob.symm.trans hhit.1.1, hrows ▸ htime⟩
    refine ⟨v, Table.mem_update.mpr ⟨v, hv, ?_⟩, hjob, hcurrent, htime⟩
    rw [hmiss]
    rfl

/-- Storing an observation changes the event times only at its own and at the one it replaces. -/
lemma storeVersion_eventTimes
    (h : Destuttered history (versionsOf s page.jobId entry.identityHash)) {lineNumber : ℕ}
    (hstore : storeVersion page entry lineNumber
      (s.versions.find? (isCurrentVersion page.jobId entry.identityHash)) s = .ok s')
    (hentry : ¬(jobId = page.jobId ∧ entry.eventTimeSort = some t))
    (hcurrent : ¬(jobId = page.jobId ∧ (s.versions.find?
      (isCurrentVersion page.jobId entry.identityHash)).bind VersionRow.eventTimeSort = some t)) :
    t ∈ eventTimeSet s' jobId ↔ t ∈ eventTimeSet s jobId := by
  have hinsert : ∀ {revision : ℕ} {u : MiningState},
      insertVersion page entry lineNumber revision u = .ok s' →
        (t ∈ eventTimeSet s' jobId ↔ t ∈ eventTimeSet u jobId) := by
    intro revision u hu
    rw [mem_eventTimeSet_insertVersion hu]
    exact or_iff_left fun hnew => hentry ⟨hnew.1.symm, hnew.2⟩
  unfold storeVersion at hstore
  split at hstore
  · exact hinsert hstore
  · next version hfound =>
    rw [hfound, Option.bind_some] at hcurrent
    split_ifs at hstore
    · cases hstore
      exact mem_eventTimeSet_updateCurrent fun v => ⟨rfl, rfl, rfl⟩
    · cases hstore
      rfl
    · exact (hinsert hstore).trans (mem_eventTimeSet_retire h hfound hcurrent)

lemma storeVersion_jobs {lineNumber : ℕ} {current : Option VersionRow}
    (hstore : storeVersion page entry lineNumber current s = .ok s') :
    s'.gaps = s.gaps ∧
      ∀ v ∈ s'.versions, v.jobId = page.jobId ∨ ∃ v' ∈ s.versions, v'.jobId = v.jobId := by
  have hself : ∀ v ∈ s.versions, v.jobId = page.jobId ∨ ∃ v' ∈ s.versions, v'.jobId = v.jobId :=
    fun v hv => .inr ⟨v, hv, rfl⟩
  have hinsert : ∀ {revision : ℕ} {u : MiningState}, u.gaps = s.gaps →
      (∀ v ∈ u.versions, v.jobId = page.jobId ∨ ∃ v' ∈ s.versions, v'.jobId = v.jobId) →
      insertVersion page entry lineNumber revision u = .ok s' → s'.gaps = s.gaps ∧
        ∀ v ∈ s'.versions, v.jobId = page.jobId ∨ ∃ v' ∈ s.versions, v'.jobId = v.jobId := by
    intro revision u hgaps hu hinserted
    simp only [insertVersion, Raising.bind_eq_ok, Raising.raiseIf_eq_ok, Raising.pure_eq_ok]
      at hinserted
    obtain ⟨⟨⟩, -, ⟨⟩, -, rfl⟩ := hinserted
    refine ⟨hgaps, ?_⟩
    rw [List.forall_mem_append, List.forall_mem_singleton]
    exact ⟨hu, .inl rfl⟩
  have hupdate : ∀ change : VersionRow → VersionRow, (∀ v, (change v).jobId = v.jobId) →
      ∀ v ∈ (updateCurrent page entry change s).versions,
        v.jobId = page.jobId ∨ ∃ v' ∈ s.versions, v'.jobId = v.jobId := by
    intro change hchange
    refine Table.forall_update fun v hv => ?_
    split_ifs
    · rw [hchange v]
      exact hself v hv
    · exact hself v hv
  unfold storeVersion at hstore
  split at hstore
  · exact hinsert rfl hself hstore
  · split_ifs at hstore
    · cases hstore
      exact ⟨rfl, hupdate _ fun v => rfl⟩
    · cases hstore
      exact ⟨rfl, hself⟩
    · refine hinsert ?_ ?_ hstore
      · rfl
      · exact hupdate _ fun v => rfl

/-- The record loop of a page, from the state it started in. -/
structure Touched (page : PageKey) (start : List ℚ) (s : MiningState) (loop : RecordLoop) : Prop where
  gaps : loop.state.gaps = s.gaps
  jobs : loop.state.jobs = s.jobs
  destuttered : ∀ jobId identityHash, ∃ history,
    Destuttered history (versionsOf loop.state jobId identityHash)
  owned : ∀ v ∈ loop.state.versions, v.jobId = page.jobId ∨ ∃ v' ∈ s.versions, v'.jobId = v.jobId
  start : ∀ t ∈ start, t ∈ loop.eventTimes
  agree : ∀ jobId t, ¬(jobId = page.jobId ∧ t ∈ loop.eventTimes) →
    (t ∈ eventTimeSet loop.state jobId ↔ t ∈ eventTimeSet s jobId)

lemma Touched.storeEntry {start : List ℚ} {loop loop' : RecordLoop} {numbered : Entry × ℕ}
    (h : Touched page start s loop) (hentry : ∀ t ∈ numbered.1.eventTimeSort, t ∈ start)
    (hstore : Mining.storeEntry page loop numbered = .ok loop') : Touched page start s loop' := by
  obtain ⟨hjobs, -⟩ := storeEntry_frame hstore
  have hdestuttered : ∀ jobId identityHash, ∃ history,
      Destuttered history (versionsOf loop'.state jobId identityHash) := by
    intro jobId identityHash
    obtain ⟨history, hhistory⟩ := h.destuttered jobId identityHash
    exact ⟨_, storeEntry_destuttered hhistory hstore⟩
  simp only [Mining.storeEntry, Raising.bind_eq_ok, Raising.raiseIf_eq_ok, Raising.pure_eq_ok]
    at hstore
  obtain ⟨state, hstate, ⟨⟩, -, rfl⟩ := hstore
  obtain ⟨hgaps, howned⟩ := storeVersion_jobs hstate
  refine ⟨hgaps.trans h.gaps, hjobs.trans h.jobs, hdestuttered, ?_, ?_, ?_⟩
  · intro v hv
    rcases howned v hv with hv | ⟨v', hv', hjob⟩
    · exact .inl hv
    · rw [← hjob]
      exact h.owned v' hv'
  · exact fun t ht => List.mem_append_left _ (h.start t ht)
  · intro jobId t ht
    have hbefore : ¬(jobId = page.jobId ∧ t ∈ loop.eventTimes) :=
      fun hin => ht ⟨hin.1, List.mem_append_left _ hin.2⟩
    rw [← h.agree jobId t hbefore]
    obtain ⟨history, hhistory⟩ := h.destuttered page.jobId numbered.1.identityHash
    have hsame : t ∈ eventTimeSet state jobId ↔ t ∈ eventTimeSet loop.state jobId := ?_
    · exact hsame
    refine storeVersion_eventTimes hhistory hstate ?_ ?_
    · exact fun hin => hbefore ⟨hin.1, h.start t (hentry t hin.2)⟩
    · rintro ⟨hjob, hfound⟩
      refine ht ⟨hjob, List.mem_append_right _ ?_⟩
      rw [hfound]
      simp

end Records

section Runs

variable {gapIdentifier : String → ℚ → ℚ → String} {s s' : MiningState}

/-- A pair of adjacent event times of a job that leaves records out at its step. -/
structure IsGap (s : MiningState) (jobId : String) (step : ℚ) (lower upper : ℚ) : Prop where
  adjacent : Adjacent (eventTimeSet s jobId) lower upper
  wide : step * (3 / 2) < upper - lower
  missing : 0 < estimatedMissing step (lower, upper)

lemma isGapPair_iff {step lower upper : ℚ} : isGapPair step (lower, upper) = true ↔
    step * (3 / 2) < upper - lower ∧ 0 < estimatedMissing step (lower, upper) := by
  unfold isGapPair
  rw [Bool.not_eq_true', Bool.or_eq_false_iff, decide_eq_false_iff_not, decide_eq_false_iff_not,
    not_le, not_le, and_comm]

/-- The gap index holds, with the keys and owners that its statements rely on. -/
structure GapsIndexed (gapIdentifier : String → ℚ → ℚ → String) (s : MiningState) : Prop where
  jobs : ((s.jobs.map JobRow.continuity).map Prod.fst).Nodup
  positive : ∀ job ∈ s.jobs.map JobRow.continuity, ∀ step ∈ job.2, 0 < step
  destuttered : ∀ jobId identityHash, ∃ history,
    Destuttered history (versionsOf s jobId identityHash)
  versionJobs : ∀ v ∈ s.versions, v.jobId ∈ (s.jobs.map JobRow.continuity).map Prod.fst
  gapJobs : ∀ g ∈ s.gaps, g.jobId ∈ (s.jobs.map JobRow.continuity).map Prod.fst
  keyed : GapsKeyed gapIdentifier s
  indexed : ∀ job ∈ s.jobs.map JobRow.continuity, ∀ lower upper,
    UnresolvedGap s job.1 lower upper ↔ ∃ step ∈ job.2, IsGap s job.1 step lower upper

lemma unresolvedGap_congr (hgaps : s'.gaps = s.gaps) {jobId : String} {lower upper : ℚ} :
    UnresolvedGap s' jobId lower upper ↔ UnresolvedGap s jobId lower upper := by
  unfold UnresolvedGap
  rw [hgaps]

lemma eventTimeSet_congr (hversions : s'.versions = s.versions) (jobId : String) :
    eventTimeSet s' jobId = eventTimeSet s jobId := by
  unfold eventTimeSet
  rw [hversions]

lemma isGap_congr {jobId : String} {step lower upper : ℚ}
    (hadjacent : Adjacent (eventTimeSet s' jobId) lower upper ↔
      Adjacent (eventTimeSet s jobId) lower upper) :
    IsGap s' jobId step lower upper ↔ IsGap s jobId step lower upper := by
  constructor
  · exact fun h => ⟨hadjacent.mp h.adjacent, h.wide, h.missing⟩
  · exact fun h => ⟨hadjacent.mpr h.adjacent, h.wide, h.missing⟩

/-- Calls that write no versions and no gaps keep the index of the jobs they find. -/
lemma GapsIndexed.indexed_of_same (h : GapsIndexed gapIdentifier s)
    (hversions : s'.versions = s.versions)
    (hgaps : ∀ job lower upper, UnresolvedGap s' job lower upper ↔ UnresolvedGap s job lower upper) :
    ∀ job ∈ s.jobs.map JobRow.continuity, ∀ lower upper,
      UnresolvedGap s' job.1 lower upper ↔ ∃ step ∈ job.2, IsGap s' job.1 step lower upper := by
  intro job hjob lower upper
  rw [hgaps, h.indexed job hjob lower upper]
  have hadjacent : Adjacent (eventTimeSet s' job.1) lower upper ↔
      Adjacent (eventTimeSet s job.1) lower upper := by
    rw [eventTimeSet_congr hversions]
  constructor
  · rintro ⟨step, hstep, hgap⟩
    exact ⟨step, hstep, (isGap_congr hadjacent).mpr hgap⟩
  · rintro ⟨step, hstep, hgap⟩
    exact ⟨step, hstep, (isGap_congr hadjacent).mp hgap⟩

lemma GapsIndexed.of_kept (h : GapsIndexed gapIdentifier s) (hkept : IndexKept s s') :
    GapsIndexed gapIdentifier s' := by
  obtain ⟨hversions, hgaps, hsteps⟩ := hkept
  refine ⟨?_, ?_, ?_, ?_, ?_, ⟨?_, ?_⟩, ?_⟩
  · rw [hsteps]
    exact h.jobs
  · rw [hsteps]
    exact h.positive
  · unfold versionsOf
    rw [hversions]
    exact h.destuttered
  · rw [hsteps, hversions]
    exact h.versionJobs
  · rw [hsteps, hgaps]
    exact h.gapJobs
  · rw [hgaps]
    exact h.keyed.ids
  · rw [hgaps]
    exact h.keyed.named
  · rw [hsteps]
    exact h.indexed_of_same hversions fun job lower upper => unresolvedGap_congr hgaps

/-- A refill request keeps the gap it marks unresolved. -/
lemma GapsIndexed.queueRefill (h : GapsIndexed gapIdentifier s) {refillId jobId gapId : String}
    {cursor : Json} {clock : Clock}
    (hcall : Mining.queueRefill refillId jobId gapId cursor clock s = .ok s') :
    GapsIndexed gapIdentifier s' := by
  obtain ⟨hversions, hsteps, hgaps, gap, hgap, hid, hopen⟩ := queueRefill_eq_ok hcall
  rcases hgaps with hgaps | hgaps
  · exact h.of_kept ⟨hversions, hgaps, hsteps⟩
  have hkeyed : GapsKeyed gapIdentifier
      (s.updateGaps (fun g => g.gapId == gapId) (GapRow.queued clock.text)) :=
    h.keyed.update fun _ => ⟨rfl, rfl⟩
  refine ⟨?_, ?_, ?_, ?_, ?_, ⟨?_, ?_⟩, ?_⟩
  · rw [hsteps]
    exact h.jobs
  · rw [hsteps]
    exact h.positive
  · unfold versionsOf
    rw [hversions]
    exact h.destuttered
  · rw [hsteps, hversions]
    exact h.versionJobs
  · rw [hsteps, hgaps]
    refine Table.forall_update fun g hg => ?_
    split_ifs
    · exact h.gapJobs g hg
    · exact h.gapJobs g hg
  · rw [hgaps]
    exact hkeyed.ids
  · rw [hgaps]
    exact hkeyed.named
  · rw [hsteps]
    refine h.indexed_of_same hversions fun job lower upper => ?_
    have hmarked : UnresolvedGap s' job lower upper ↔ UnresolvedGap
        (s.updateGaps (fun g => g.gapId == gapId) (GapRow.queued clock.text)) job lower upper :=
      unresolvedGap_congr hgaps
    rw [hmarked, unresolvedGap_update (by intro; rfl)]
    unfold UnresolvedGap
    constructor
    · rintro ⟨g, hg, hkey, hstatus⟩
      refine ⟨g, hg, hkey, ?_⟩
      split_ifs at hstatus with hhit
      · have hsame : g = gap := h.keyed.eq_of_gapId hg hgap ((by simpa using hhit : g.gapId = gapId).trans hid.symm)
        rw [hsame]
        exact hopen
      · exact hstatus
    · rintro ⟨g, hg, hkey, hstatus⟩
      refine ⟨g, hg, hkey, ?_⟩
      split_ifs
      · exact GapStatus.noConfusion
      · exact hstatus

/-- A new job has no versions yet. -/
lemma GapsIndexed.createJob (h : GapsIndexed gapIdentifier s) {request : JobRequest} {clock : Clock}
    (hcall : Mining.createJob request clock s = .ok s') : GapsIndexed gapIdentifier s' := by
  obtain ⟨hversions, hgaps, ⟨row, hjobs, hid, hstep⟩, hnew, hpositive⟩ := createJob_eq_ok hcall
  have hsteps : s'.jobs.map JobRow.continuity =
      s.jobs.map JobRow.continuity ++ [(request.jobId, request.continuityStep)] := by
    rw [hjobs, List.map_append, List.map_singleton, ← hid, ← hstep]
    rfl
  have hfresh : request.jobId ∉ (s.jobs.map JobRow.continuity).map Prod.fst := by
    rw [List.map_map, List.mem_map]
    rintro ⟨j, hj, hjid⟩
    have hnone := List.find?_eq_none.mp hnew j hj
    exact hnone (by simpa [JobRow.continuity] using hjid)
  refine ⟨?_, ?_, ?_, ?_, ?_, ⟨?_, ?_⟩, ?_⟩
  · rw [hsteps, List.map_append, List.map_singleton]
    refine List.nodup_append.mpr ⟨h.jobs, List.nodup_singleton _, ?_⟩
    intro a ha b hb hab
    rw [hab, List.mem_singleton.mp hb] at ha
    exact hfresh ha
  · rw [hsteps, List.forall_mem_append, List.forall_mem_singleton]
    exact ⟨h.positive, hpositive⟩
  · unfold versionsOf
    rw [hversions]
    exact h.destuttered
  · rw [hsteps, hversions, List.map_append]
    exact fun v hv => List.mem_append_left _ (h.versionJobs v hv)
  · rw [hsteps, hgaps, List.map_append]
    exact fun g hg => List.mem_append_left _ (h.gapJobs g hg)
  · rw [hgaps]
    exact h.keyed.ids
  · rw [hgaps]
    exact h.keyed.named
  · rw [hsteps, List.forall_mem_append, List.forall_mem_singleton]
    refine ⟨h.indexed_of_same hversions fun job lower upper => unresolvedGap_congr hgaps, ?_⟩
    intro lower upper
    constructor
    · rintro ⟨g, hg, hkey, -⟩
      have hjob : g.jobId = request.jobId := congrArg Prod.fst hkey
      rw [hgaps] at hg
      have hmem := h.gapJobs g hg
      rw [hjob] at hmem
      exact absurd hmem hfresh
    · rintro ⟨step, -, hgap⟩
      obtain ⟨v, hv, hjob, -⟩ := hgap.adjacent.lower_mem
      rw [hversions] at hv
      have hmem := h.versionJobs v hv
      rw [hjob] at hmem
      exact absurd hmem hfresh

/-- The record loop of a page leaves the gaps alone and touches the event times it changes. -/
lemma GapsIndexed.touched (h : GapsIndexed gapIdentifier s) {commit : PageCommit} {clock : Clock}
    {key : PageKey} {loop : RecordLoop}
    (hloop : commit.entries.zipIdx.foldlM (storeEntry key)
      ⟨{ s with pages := s.pages ++ [commit.row clock] }, 0,
        commit.entries.filterMap Entry.eventTimeSort⟩ = .ok loop) :
    Touched key (commit.entries.filterMap Entry.eventTimeSort) s loop := by
  refine Raising.foldlM_invariant (Touched key (commit.entries.filterMap Entry.eventTimeSort) s)
    ?_ ?_ hloop
  · intro t t' numbered hnumbered ht hstep
    refine ht.storeEntry ?_ hstep
    intro x hx
    exact List.mem_filterMap.mpr ⟨numbered.1, List.fst_mem_of_mem_zipIdx hnumbered, hx⟩
  · exact ⟨rfl, rfl, h.destuttered, fun v hv => .inr ⟨v, hv, rfl⟩, fun t ht => ht,
      fun jobId t _ => Iff.rfl⟩

/-- An adjacent pair with no touched event time was adjacent before. -/
lemma Touched.adjacent_iff {page : PageKey} {start : List ℚ} {loop : RecordLoop}
    (h : Touched page start s loop) {jobId : String} {lower upper : ℚ}
    (huntouched : ¬(jobId = page.jobId ∧ ∃ t ∈ loop.eventTimes, lower ≤ t ∧ t ≤ upper)) :
    Adjacent (eventTimeSet loop.state jobId) lower upper ↔
      Adjacent (eventTimeSet s jobId) lower upper := by
  apply adjacent_congr
  intro t hlower hupper
  apply h.agree
  exact fun hin => huntouched ⟨hin.1, t, hin.2, hlower, hupper⟩

/-- A committed page keeps the index: it looks at every pair that its event times can have changed. -/
lemma GapsIndexed.commitPage (h : GapsIndexed gapIdentifier s) {commit : PageCommit} {clock : Clock}
    (hcall : Mining.commitPage gapIdentifier commit clock s = .ok s') :
    GapsIndexed gapIdentifier s' := by
  obtain ⟨lease, hlease, hid, stored, hstored, hkept⟩ := commitPage_eq_ok hcall
  refine GapsIndexed.of_kept ?_ hkept
  have hlease : (commit.jobId, lease.continuityStep) ∈ s.jobs.map JobRow.continuity :=
    List.mem_map.mpr ⟨lease, hlease, by rw [JobRow.continuity, hid]⟩
  simp only [PageCommit.storePage, Raising.bind_eq_ok, Raising.raiseIf_eq_ok,
    Raising.pure_eq_ok] at hstored
  obtain ⟨⟨⟩, -, loop, hloop, indexed, hindexed, rfl⟩ := hstored
  have htouched := h.touched hloop
  have hversions := recomputeGapsIncremental_versions hindexed
  obtain ⟨hjobs, -⟩ := recomputeGapsIncremental_frame hindexed
  have hsteps : indexed.jobs.map JobRow.continuity = s.jobs.map JobRow.continuity := by
    rw [hjobs, htouched.jobs]
  have hkeyed : GapsKeyed gapIdentifier loop.state := by
    refine ⟨?_, ?_⟩
    · rw [htouched.gaps]
      exact h.keyed.ids
    · rw [htouched.gaps]
      exact h.keyed.named
  have hbefore : ∀ job lower upper, UnresolvedGap loop.state job lower upper ↔
      UnresolvedGap s job lower upper :=
    fun job lower upper => unresolvedGap_congr htouched.gaps
  have hgap : ∀ job lower upper step, IsGap indexed job step lower upper ↔
      IsGap loop.state job step lower upper := by
    intro job lower upper step
    apply isGap_congr
    rw [eventTimeSet_congr hversions]
  have hsame : ∀ job ∈ s.jobs.map JobRow.continuity, job.1 = commit.jobId →
      job = (commit.jobId, lease.continuityStep) := by
    intro job hjob heq
    exact Table.eq_of_key h.jobs hjob hlease heq
  have hrows : GapsKeyed gapIdentifier indexed ∧
      (∀ g ∈ indexed.gaps, g.jobId = commit.jobId ∨ ∃ g' ∈ loop.state.gaps, g'.key = g.key) ∧
      ∀ job ∈ s.jobs.map JobRow.continuity, ∀ lower upper, UnresolvedGap indexed job.1 lower upper ↔
        ∃ step ∈ job.2, IsGap indexed job.1 step lower upper := by
    cases hstep : lease.continuityStep with
    | none =>
      rw [hstep] at hindexed
      cases hindexed
      refine ⟨hkeyed, fun g hg => .inr ⟨g, hg, rfl⟩, ?_⟩
      intro job hjob lower upper
      rw [hbefore, h.indexed job hjob lower upper]
      by_cases hown : job.1 = commit.jobId
      · rw [hsame job hjob hown, hstep]
        simp
      · have hadjacent : Adjacent (eventTimeSet loop.state job.1) lower upper ↔
            Adjacent (eventTimeSet s job.1) lower upper :=
          htouched.adjacent_iff fun hin => hown hin.1
        simp only [isGap_congr hadjacent]
    | some step =>
      rw [hstep] at hindexed hlease hsame
      have hpositive : 0 < step := h.positive _ hlease step rfl
      obtain ⟨hkeyed', howned, hunresolved⟩ :=
        recomputeGapsIncremental_unresolved hkeyed hpositive hindexed
      refine ⟨hkeyed', ?_, ?_⟩
      · intro g hg
        rcases howned g hg with ⟨pair, -, hkey⟩ | hold
        · exact .inl (congrArg Prod.fst hkey)
        · exact .inr hold
      intro job hjob lower upper
      rw [hunresolved, hbefore, h.indexed job hjob lower upper]
      by_cases hin : job.1 = commit.jobId ∧ ∃ t ∈ loop.eventTimes, lower ≤ t ∧ t ≤ upper
      · obtain ⟨hown, t, ht, hlower, hupper⟩ := hin
        rw [hsame job hjob hown]
        constructor
        · rintro (⟨-, hlocal, hpair⟩ | ⟨-, hnot⟩)
          · obtain ⟨hwide, hmissing⟩ := isGapPair_iff.mp hpair
            exact ⟨step, rfl, (hgap _ _ _ _).mpr ⟨localPairs_adjacent hlocal, hwide, hmissing⟩⟩
          · exact absurd ⟨rfl, t, ht, hlower, hupper⟩ hnot
        · rintro ⟨_, ⟨⟩, hisGap⟩
          have hisGap := (hgap _ _ _ _).mp hisGap
          left
          exact ⟨rfl, mem_localPairs hisGap.adjacent ht hlower hupper,
            isGapPair_iff.mpr ⟨hisGap.wide, hisGap.missing⟩⟩
      · have hadjacent : Adjacent (eventTimeSet loop.state job.1) lower upper ↔
            Adjacent (eventTimeSet s job.1) lower upper := htouched.adjacent_iff hin
        simp only [hgap, isGap_congr hadjacent]
        constructor
        · rintro (⟨hown, hlocal, hpair⟩ | ⟨hold, -⟩)
          · obtain ⟨hwide, hmissing⟩ := isGapPair_iff.mp hpair
            rw [hsame job hjob hown]
            refine ⟨step, rfl, ?_, hwide, hmissing⟩
            rw [← hown, ← hadjacent, hown]
            exact localPairs_adjacent hlocal
          · exact hold
        · exact fun hold => .inr ⟨hold, hin⟩
  obtain ⟨hkeyed', howned, hindex⟩ := hrows
  have hcommitJob : commit.jobId ∈ (s.jobs.map JobRow.continuity).map Prod.fst :=
    List.mem_map_of_mem hlease
  refine ⟨?_, ?_, ?_, ?_, ?_, hkeyed', ?_⟩
  · rw [hsteps]
    exact h.jobs
  · rw [hsteps]
    exact h.positive
  · unfold versionsOf
    rw [hversions]
    exact htouched.destuttered
  · rw [hsteps, hversions]
    intro v hv
    rcases htouched.owned v hv with hv | ⟨v', hv', hjob⟩
    · rw [hv]
      exact hcommitJob
    · rw [← hjob]
      exact h.versionJobs v' hv'
  · rw [hsteps]
    intro g hg
    rcases howned g hg with hg | ⟨g', hg', hkey⟩
    · rw [hg]
      exact hcommitJob
    · have hjob : g'.jobId = g.jobId := congrArg Prod.fst hkey
      rw [htouched.gaps] at hg'
      rw [← hjob]
      exact h.gapJobs g' hg'
  · rw [hsteps]
    exact hindex

/-- Every call keeps the index. -/
lemma GapsIndexed.step (h : GapsIndexed gapIdentifier s) (call : MiningCall) :
    GapsIndexed gapIdentifier (Mining.step gapIdentifier s call) := by
  unfold Mining.step
  split
  · next next hcall =>
    cases call with
    | commitPage commit clock => exact h.commitPage hcall
    | createJob request clock => exact h.createJob hcall
    | queueRefill refillId job gapId cursor clock => exact h.queueRefill hcall
    | _ => exact h.of_kept (transact_indexKept rfl hcall)
  · exact h

lemma gapsIndexed_run (gapIdentifier : String → ℚ → ℚ → String) (calls : List MiningCall) :
    GapsIndexed gapIdentifier (run (Mining.step gapIdentifier) {} calls) := by
  have hempty : GapsIndexed gapIdentifier {} := by
    refine ⟨List.nodup_nil, ?_, fun _ _ => ⟨[], destuttered_nil⟩, ?_, ?_, ⟨List.nodup_nil, ?_⟩, ?_⟩
    · simp
    · simp
    · simp
    · simp
    · simp
  have hstep : ∀ (s : MiningState) (call : MiningCall), GapsIndexed gapIdentifier s → True →
      GapsIndexed gapIdentifier (Mining.step gapIdentifier s call) := fun s call h _ => h.step call
  exact run_invariant hstep hempty (along_true _ _)

/-- After every run the unresolved gaps of a job are the adjacent pairs of its current event times
that lie more than one and a half steps apart and leave records out. -/
theorem unresolvedGaps_iff (gapIdentifier : String → ℚ → ℚ → String) (calls : List MiningCall)
    (j : JobRow) (hj : j ∈ (run (step gapIdentifier) {} calls).jobs) (lower upper : ℚ) :
    (∃ g ∈ (run (step gapIdentifier) {} calls).gaps, g.jobId = j.jobId ∧
        g.previousEventTime = lower ∧ g.nextEventTime = upper ∧ g.status ≠ .resolved) ↔
      ∃ step, j.continuityStep = some step ∧
        Adjacent (eventTimeSet (run (Mining.step gapIdentifier) {} calls) j.jobId) lower upper ∧
        step * (3 / 2) < upper - lower ∧ 0 < estimatedMissing step (lower, upper) := by
  have hindexed := (gapsIndexed_run gapIdentifier calls).indexed j.continuity
    (List.mem_map_of_mem hj) lower upper
  unfold UnresolvedGap GapRow.key JobRow.continuity at hindexed
  simp only [Prod.mk.injEq, and_assoc] at hindexed
  rw [hindexed]
  constructor
  · rintro ⟨step, hstep, hgap⟩
    exact ⟨step, hstep, hgap.adjacent, hgap.wide, hgap.missing⟩
  · rintro ⟨step, hstep, hadjacent, hwide, hmissing⟩
    exact ⟨step, hstep, hadjacent, hwide, hmissing⟩

/-- A page with the event times 1 and 5 at step 1 leaves the gap between them, also while its
refill is under way. -/
theorem unresolvedGaps_claimedRefill : ∃ j ∈ (run (step gapName) {} claimedRefill).jobs,
    (run (step gapName) {} claimedRefill).gaps.map (fun g => (g.previousEventTime, g.nextEventTime)) =
      [(1, 5)] ∧
    ∀ lower upper : ℚ,
      (∃ g ∈ (run (step gapName) {} claimedRefill).gaps, g.jobId = j.jobId ∧
          g.previousEventTime = lower ∧ g.nextEventTime = upper ∧ g.status ≠ .resolved) ↔
        ∃ step, j.continuityStep = some step ∧
          Adjacent (eventTimeSet (run (Mining.step gapName) {} claimedRefill) j.jobId) lower upper ∧
          step * (3 / 2) < upper - lower ∧ 0 < estimatedMissing step (lower, upper) := by
  have hjobs : (run (step gapName) {} claimedRefill).jobs ≠ [] :=
    List.ne_nil_of_length_pos (by with_unfolding_all decide)
  refine ⟨_, List.head_mem hjobs, by with_unfolding_all decide, fun lower upper => ?_⟩
  exact unresolvedGaps_iff gapName claimedRefill _ (List.head_mem hjobs) lower upper

end Runs

end TradeFramework.Mining
