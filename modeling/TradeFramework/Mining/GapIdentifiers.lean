import TradeFramework.Library.GeneralFormat
import TradeFramework.Mining.Gaps

/-!
# Gap identifiers

A gap is named after a digest of its job and of its two event times, printed with twelve
significant digits. Epochs in milliseconds have thirteen: two gaps of one job may then get one
name, and the page that finds the second is rolled back.
-/

namespace TradeFramework.Mining

open Transitions AdjacentPairs SignificantDigits GeneralFormat

section Rounding

lemma roundHalfEven_mono : Monotone roundHalfEven := by
  intro p q hpq
  have hfloor : ⌊p⌋ ≤ ⌊q⌋ := Int.floor_mono hpq
  have hhigh : roundHalfEven p ≤ ⌊p⌋ + 1 := by
    unfold roundHalfEven
    dsimp only
    split_ifs <;> omega
  have hlow : ⌊q⌋ ≤ roundHalfEven q := by
    unfold roundHalfEven
    dsimp only
    split_ifs <;> omega
  rcases hfloor.eq_or_lt with heq | hlt
  · unfold roundHalfEven
    dsimp only
    rw [heq]
    split_ifs <;> first | omega | (exfalso; linarith)
  · omega

lemma roundHalfEven_int (n : ℤ) : roundHalfEven n = n := by
  unfold roundHalfEven
  simp

/-- The rounding of `format` and of `round`. -/
def halfEven : Rounding := ⟨roundHalfEven, roundHalfEven_mono, roundHalfEven_int⟩

end Rounding

section Identifiers

/-- `f"{x:.12g}"`. -/
def format12g (x : ℚ) : String := format halfEven 11 x

/-- A number as `format12g` prints it. -/
def twelveDigits (x : ℚ) : ℚ := significant halfEven 11 x

/-- `hashlib.sha256(f"{job_id}:{previous:.12g}:{following:.12g}".encode("utf-8")).hexdigest()[:24]`. -/
def gapIdentifier (digest : String → String) (jobId : String) (previous following : ℚ) : String :=
  digest (jobId ++ ":" ++ format12g previous ++ ":" ++ format12g following)

lemma colon_notMem_format12g (x : ℚ) : ':' ∉ (format12g x).toList := by
  intro h
  rcases mem_format h with hdigit | hmem
  · exact absurd hdigit (by decide)
  · exact absurd hmem (by decide)

/-- Two texts with a colon after a front that has none. -/
lemma colon_inj {front front' rest rest' : List Char} (hfront : ':' ∉ front) (hfront' : ':' ∉ front')
    (h : front ++ ':' :: rest = front' ++ ':' :: rest') : front = front' ∧ rest = rest' := by
  have hkeep : ∀ {row : List Char}, ':' ∉ row → ∀ c ∈ row, (c != ':') = true := by
    intro row hrow c hc
    rw [bne_iff_ne]
    rintro rfl
    exact hrow hc
  obtain ⟨hsame, hrests⟩ := append_inj_of_stop (hkeep hfront) (hkeep hfront') (by simp) (by simp) h
  exact ⟨hsame, List.tail_eq_of_cons_eq hrests⟩

variable {digest : String → String} {jobId jobId' : String} {p p' n n' : ℚ}

/-- Under an injective digest an identifier stands for a job and two numbers of twelve digits. -/
lemma gapIdentifier_eq_iff (hdigest : Function.Injective digest) (hjob : ':' ∉ jobId.toList)
    (hjob' : ':' ∉ jobId'.toList) :
    gapIdentifier digest jobId p n = gapIdentifier digest jobId' p' n' ↔
      jobId = jobId' ∧ twelveDigits p = twelveDigits p' ∧ twelveDigits n = twelveDigits n' := by
  unfold gapIdentifier
  rw [hdigest.eq_iff]
  constructor
  · intro h
    have hlists := congrArg String.toList h
    simp only [String.toList_append, List.append_assoc] at hlists
    obtain ⟨hjobs, hrest⟩ := colon_inj hjob hjob' hlists
    obtain ⟨hprevious, hfollowing⟩ := colon_inj (colon_notMem_format12g p)
      (colon_notMem_format12g p') hrest
    exact ⟨String.toList_inj.mp hjobs, (format_eq_iff p p').mp (String.toList_inj.mp hprevious),
      (format_eq_iff n n').mp (String.toList_inj.mp hfollowing)⟩
  · rintro ⟨rfl, hp, hn⟩
    have hprevious : format12g p = format12g p' := (format_eq_iff p p').mpr hp
    have hfollowing : format12g n = format12g n' := (format_eq_iff n n').mpr hn
    rw [hprevious, hfollowing]

/-- Two identifiers of one job, whatever its name. -/
lemma gapIdentifier_sameJob_iff (hdigest : Function.Injective digest) :
    gapIdentifier digest jobId p n = gapIdentifier digest jobId p' n' ↔
      twelveDigits p = twelveDigits p' ∧ twelveDigits n = twelveDigits n' := by
  unfold gapIdentifier
  rw [hdigest.eq_iff]
  constructor
  · intro h
    have hlists := congrArg String.toList h
    simp only [String.toList_append, List.append_assoc] at hlists
    obtain ⟨hprevious, hfollowing⟩ := colon_inj (colon_notMem_format12g p)
      (colon_notMem_format12g p') (List.append_cancel_left (List.append_cancel_left hlists))
    exact ⟨(format_eq_iff p p').mp (String.toList_inj.mp hprevious),
      (format_eq_iff n n').mp (String.toList_inj.mp hfollowing)⟩
  · rintro ⟨hp, hn⟩
    have hprevious : format12g p = format12g p' := (format_eq_iff p p').mpr hp
    have hfollowing : format12g n = format12g n' := (format_eq_iff n n').mpr hn
    rw [hprevious, hfollowing]

end Identifiers

section Ends

variable {s s' : MiningState} {jobId : String} {page : PageKey} {entry : Entry} {t : ℚ}
  {naming : String → ℚ → ℚ → String}

/-- The event times of all versions of a job, current or not. -/
def observedTimes (s : MiningState) (jobId : String) : Set ℚ :=
  {t | ∃ v ∈ s.versions, v.jobId = jobId ∧ v.eventTimeSort = some t}

lemma eventTimeSet_subset (s : MiningState) (jobId : String) :
    eventTimeSet s jobId ⊆ observedTimes s jobId := by
  rintro t ⟨v, hv, hjob, -, htime⟩
  exact ⟨v, hv, hjob, htime⟩

/-- Storing an observation adds at most its own event time. -/
lemma storeVersion_observedTimes {lineNumber : ℕ} {current : Option VersionRow}
    (h : storeVersion page entry lineNumber current s = .ok s') :
    (t ∈ observedTimes s' jobId →
        t ∈ observedTimes s jobId ∨ jobId = page.jobId ∧ entry.eventTimeSort = some t) ∧
      (t ∈ observedTimes s jobId → t ∈ observedTimes s' jobId) := by
  have hinsert : ∀ {revision : ℕ} {u : MiningState},
      (t ∈ observedTimes u jobId ↔ t ∈ observedTimes s jobId) →
      insertVersion page entry lineNumber revision u = .ok s' →
        (t ∈ observedTimes s' jobId →
            t ∈ observedTimes s jobId ∨ jobId = page.jobId ∧ entry.eventTimeSort = some t) ∧
          (t ∈ observedTimes s jobId → t ∈ observedTimes s' jobId) := by
    intro revision u hu hinserted
    obtain ⟨row, hrows, hjob, -, -, -, -, -, htime⟩ := insertVersion_eq_ok hinserted
    constructor
    · rintro ⟨v, hv, hvjob, hvtime⟩
      rw [hrows] at hv
      rcases List.mem_append.mp hv with hv | hv
      · exact .inl (hu.mp ⟨v, hv, hvjob, hvtime⟩)
      · rw [List.mem_singleton.mp hv] at hvjob hvtime
        exact .inr ⟨hvjob.symm.trans hjob, htime.symm.trans hvtime⟩
    · intro ht
      obtain ⟨v, hv, hvjob, hvtime⟩ := hu.mpr ht
      exact ⟨v, by rw [hrows]; exact List.mem_append_left _ hv, hvjob, hvtime⟩
  have hupdate : ∀ change : VersionRow → VersionRow,
      (∀ v, (change v).jobId = v.jobId ∧ (change v).eventTimeSort = v.eventTimeSort) →
        (t ∈ observedTimes (updateCurrent page entry change s) jobId ↔ t ∈ observedTimes s jobId) := by
    intro change hchange
    have hrow : ∀ v : VersionRow,
        (if isCurrentVersion page.jobId entry.identityHash v then change v else v).jobId = v.jobId ∧
        (if isCurrentVersion page.jobId entry.identityHash v then change v else v).eventTimeSort =
          v.eventTimeSort := by
      intro v
      split_ifs
      · exact hchange v
      · exact ⟨rfl, rfl⟩
    constructor
    · rintro ⟨v, hv, hjob, htime⟩
      obtain ⟨old, hold, rfl⟩ := Table.mem_update.mp hv
      exact ⟨old, hold, (hrow old).1.symm.trans hjob, (hrow old).2.symm.trans htime⟩
    · rintro ⟨v, hv, hjob, htime⟩
      exact ⟨_, Table.mem_update.mpr ⟨v, hv, rfl⟩, (hrow v).1.trans hjob, (hrow v).2.trans htime⟩
  unfold storeVersion at h
  split at h
  · exact hinsert Iff.rfl h
  · split_ifs at h
    · cases h
      rw [hupdate _ (by exact fun v => ⟨rfl, rfl⟩)]
      exact ⟨.inl, id⟩
    · cases h
      exact ⟨.inl, id⟩
    · refine hinsert (hupdate _ ?_) h
      exact fun v => ⟨rfl, rfl⟩

/-- The record loop adds at most the event times of the page. -/
structure TimesAdded (page : PageKey) (start : List ℚ) (s : MiningState) (loop : RecordLoop) :
    Prop where
  added : ∀ jobId t, t ∈ observedTimes loop.state jobId →
    t ∈ observedTimes s jobId ∨ jobId = page.jobId ∧ t ∈ start
  kept : ∀ jobId t, t ∈ observedTimes s jobId → t ∈ observedTimes loop.state jobId

lemma TimesAdded.storeEntry {start : List ℚ} {loop loop' : RecordLoop} {numbered : Entry × ℕ}
    (h : TimesAdded page start s loop) (hentry : ∀ t ∈ numbered.1.eventTimeSort, t ∈ start)
    (hstore : Mining.storeEntry page loop numbered = .ok loop') : TimesAdded page start s loop' := by
  simp only [Mining.storeEntry, Raising.bind_eq_ok, Raising.raiseIf_eq_ok, Raising.pure_eq_ok]
    at hstore
  obtain ⟨state, hstate, ⟨⟩, -, rfl⟩ := hstore
  refine ⟨fun jobId t ht => ?_, fun jobId t ht => ?_⟩
  · rcases (storeVersion_observedTimes hstate).1 ht with hold | ⟨hjob, hnew⟩
    · exact h.added jobId t hold
    · exact .inr ⟨hjob, hentry t hnew⟩
  · exact (storeVersion_observedTimes hstate).2 (h.kept jobId t ht)

lemma timesAdded_of_loop {commit : PageCommit} {clock : Clock} {loop : RecordLoop}
    (hloop : commit.entries.zipIdx.foldlM (storeEntry page)
      ⟨{ s with pages := s.pages ++ [commit.row clock] }, 0,
        commit.entries.filterMap Entry.eventTimeSort⟩ = .ok loop) :
    TimesAdded page (commit.entries.filterMap Entry.eventTimeSort) s loop := by
  refine Raising.foldlM_invariant
    (TimesAdded page (commit.entries.filterMap Entry.eventTimeSort) s) ?_ ?_ hloop
  · intro u u' numbered hnumbered hu hstep
    refine hu.storeEntry ?_ hstep
    intro x hx
    exact List.mem_filterMap.mpr ⟨numbered.1, List.fst_mem_of_mem_zipIdx hnumbered, hx⟩
  · exact ⟨fun jobId t ht => .inl ht, fun jobId t ht => ht⟩

/-- The ends of every gap are observed event times, and no job name has a colon. -/
structure GapEnds (s : MiningState) : Prop where
  ends : ∀ g ∈ s.gaps, g.previousEventTime ∈ observedTimes s g.jobId ∧
    g.nextEventTime ∈ observedTimes s g.jobId ∧ g.previousEventTime < g.nextEventTime
  names : ∀ job ∈ s.jobs.map JobRow.continuity, ':' ∉ job.1.toList

lemma colon_notMem_of_isSafeId (h : isSafeId jobId = true) : ':' ∉ jobId.toList := by
  unfold isSafeId at h
  simp only [Bool.and_eq_true] at h
  intro hmem
  have hletter := List.all_eq_true.mp h.2 ':' hmem
  exact absurd hletter (by decide)

lemma GapEnds.of_keys (h : GapEnds s) (hversions : s'.versions = s.versions)
    (hkeys : s'.gaps.map GapRow.key = s.gaps.map GapRow.key)
    (hnames : ∀ job ∈ s'.jobs.map JobRow.continuity, ':' ∉ job.1.toList) : GapEnds s' := by
  refine ⟨fun g hg => ?_, hnames⟩
  have hmem : g.key ∈ s.gaps.map GapRow.key := hkeys ▸ List.mem_map_of_mem hg
  obtain ⟨old, hold, hkey⟩ := List.mem_map.mp hmem
  have hends := h.ends old hold
  unfold GapRow.key at hkey
  rw [Prod.mk.injEq, Prod.mk.injEq] at hkey
  rw [hkey.1, hkey.2.1, hkey.2.2] at hends
  have htimes : observedTimes s' g.jobId = observedTimes s g.jobId := by
    unfold observedTimes
    rw [hversions]
  rw [htimes]
  exact hends

lemma GapEnds.commitPage (h : GapEnds s) (hindexed : GapsIndexed naming s) {commit : PageCommit}
    {clock : Clock} (hcall : Mining.commitPage naming commit clock s = .ok s') : GapEnds s' := by
  obtain ⟨lease, hlease, hid, stored, hstored, hkept⟩ := commitPage_eq_ok hcall
  simp only [PageCommit.storePage, Raising.bind_eq_ok, Raising.raiseIf_eq_ok,
    Raising.pure_eq_ok] at hstored
  obtain ⟨⟨⟩, -, loop, hloop, indexed, hrecomputed, rfl⟩ := hstored
  have htouched := hindexed.touched hloop
  have htimes := timesAdded_of_loop hloop
  have hversions := recomputeGapsIncremental_versions hrecomputed
  obtain ⟨hjobs, -⟩ := recomputeGapsIncremental_frame hrecomputed
  have hlooped : ∀ g ∈ s.gaps, g.previousEventTime ∈ observedTimes loop.state g.jobId ∧
      g.nextEventTime ∈ observedTimes loop.state g.jobId ∧ g.previousEventTime < g.nextEventTime := by
    intro g hg
    obtain ⟨hprevious, hnext, hlt⟩ := h.ends g hg
    exact ⟨htimes.kept _ _ hprevious, htimes.kept _ _ hnext, hlt⟩
  have hstate : GapEnds loop.state := by
    refine ⟨?_, ?_⟩
    · rw [htouched.gaps]
      exact hlooped
    · rw [htouched.jobs]
      exact h.names
  have hkeyed : GapsKeyed naming loop.state := by
    refine ⟨?_, ?_⟩
    · rw [htouched.gaps]
      exact hindexed.keyed.ids
    · rw [htouched.gaps]
      exact hindexed.keyed.named
  have hends : GapEnds indexed := by
    refine ⟨?_, ?_⟩
    · have hsame : ∀ job, observedTimes indexed job = observedTimes loop.state job := by
        intro job
        unfold observedTimes
        rw [hversions]
      cases hstep : lease.continuityStep with
      | none =>
        rw [hstep] at hrecomputed
        cases hrecomputed
        exact hstate.ends
      | some step =>
        rw [hstep] at hrecomputed
        have hpositive : 0 < step := by
          refine hindexed.positive lease.continuity (List.mem_map_of_mem hlease) step ?_
          exact hstep
        obtain ⟨-, howned, -⟩ := recomputeGapsIncremental_unresolved hkeyed hpositive hrecomputed
        intro g hg
        rw [hsame]
        rcases howned g hg with ⟨pair, hpair, hkey⟩ | ⟨g', hg', hkey⟩
        · have hadjacent := localPairs_adjacent hpair
          obtain ⟨lower, upper⟩ := pair
          unfold GapRow.key at hkey
          rw [Prod.mk.injEq, Prod.mk.injEq] at hkey
          rw [hkey.1, hkey.2.1, hkey.2.2]
          exact ⟨eventTimeSet_subset _ _ hadjacent.lower_mem,
            eventTimeSet_subset _ _ hadjacent.upper_mem, hadjacent.lt⟩
        · have hold := hstate.ends g' hg'
          unfold GapRow.key at hkey
          rw [Prod.mk.injEq, Prod.mk.injEq] at hkey
          rw [hkey.1, hkey.2.1, hkey.2.2] at hold
          exact hold
    · rw [hjobs, htouched.jobs]
      exact h.names
  exact hends.of_keys hkept.versions (by rw [hkept.gaps]) (hkept.steps ▸ hends.names)

lemma gapEnds_run (naming : String → ℚ → ℚ → String) (calls : List MiningCall) :
    GapEnds (run (step naming) {} calls) := by
  have hempty : GapsIndexed naming {} ∧ GapEnds {} :=
    ⟨gapsIndexed_run naming [], ⟨by simp, by simp⟩⟩
  have hstep : ∀ (s : MiningState) (call : MiningCall), GapsIndexed naming s ∧ GapEnds s → True →
      GapsIndexed naming (step naming s call) ∧ GapEnds (step naming s call) := by
    rintro s call ⟨hindexed, hends⟩ -
    refine ⟨hindexed.step call, ?_⟩
    unfold step
    split
    · next next hcall =>
      cases call with
      | commitPage commit clock => exact hends.commitPage hindexed hcall
      | createJob request clock =>
        obtain ⟨hversions, hgaps, ⟨row, hjobs, hid, -⟩, -⟩ := createJob_eq_ok hcall
        refine hends.of_keys hversions (by rw [hgaps]) ?_
        rw [hjobs, List.map_append, List.forall_mem_append]
        refine ⟨hends.names, ?_⟩
        rw [List.map_singleton, List.forall_mem_singleton, JobRow.continuity, hid]
        simp only [MiningCall.transact, createJob, Raising.bind_eq_ok, Raising.raiseIf_eq_ok] at hcall
        obtain ⟨⟨⟩, hsafe, -⟩ := hcall
        exact colon_notMem_of_isSafeId (by simpa using hsafe)
      | queueRefill refillId job gapId cursor clock =>
        obtain ⟨hversions, hsteps, hgaps, -⟩ := queueRefill_eq_ok hcall
        refine hends.of_keys hversions ?_ (hsteps ▸ hends.names)
        rcases hgaps with hgaps | hgaps
        · rw [hgaps]
        · rw [hgaps]
          exact Table.map_update GapRow.key fun _ => rfl
      | _ =>
        have hkept := transact_indexKept rfl hcall
        exact hends.of_keys hkept.versions (by rw [hkept.gaps]) (hkept.steps ▸ hends.names)
    · exact hends
  exact (run_invariant hstep hempty (along_true _ _)).2

end Ends

section Commits

open Raising (Avoids avoids_pure avoids_throw avoids_raiseIf)

/-- The constraint on the identifiers of gaps. -/
def gapIdTaken : PyError := integrityError "gaps.gap_id"

/-- The event times of a page. -/
def PageCommit.eventTimes (commit : PageCommit) : Set ℚ :=
  {t | ∃ entry ∈ commit.entries, entry.eventTimeSort = some t}

variable {digest : String → String} {s : MiningState} {jobId checkedAt : String} {stepSize : ℚ}

/-- Pairs of times that are told apart by their digits get identifiers of their own. -/
lemma upsertGap_avoids (hdigest : Function.Injective digest) {times : Set ℚ}
    (hapart : PairsApart twelveDigits times) (hjob : ':' ∉ jobId.toList)
    {seen : List (ℚ × ℚ)} {pair : ℚ × ℚ} {t : MiningState}
    (h : Upserted (gapIdentifier digest) s jobId stepSize seen t)
    (hseen : ∀ p ∈ pair :: seen, p.1 ∈ times ∧ p.2 ∈ times ∧ p.1 < p.2)
    (hends : ∀ g ∈ s.gaps, g.jobId = jobId → g.previousEventTime ∈ times ∧
      g.nextEventTime ∈ times ∧ g.previousEventTime < g.nextEventTime)
    (hnames : ∀ g ∈ s.gaps, ':' ∉ g.jobId.toList) :
    Avoids gapIdTaken (upsertGap (gapIdentifier digest) jobId stepSize checkedAt t pair) := by
  obtain ⟨hpairLower, hpairUpper, hpairLt⟩ := hseen pair (by simp)
  unfold upsertGap
  dsimp only
  by_cases hgap : isGapPair stepSize pair = true
  · rw [if_neg (by simpa using hgap)]
    split_ifs with hany
    · exact avoids_pure _
    · refine Avoids.bind (avoids_raiseIf fun htaken => absurd hany ?_) fun _ _ => avoids_pure _
      rw [not_not]
      obtain ⟨g, hg, hid⟩ := List.any_eq_true.mp htaken
      have hid : g.gapId = gapIdentifier digest jobId pair.1 pair.2 := by simpa using hid
      rw [h.keyed.named g hg] at hid
      have hrow : ':' ∉ g.jobId.toList ∧ (g.jobId = jobId → g.previousEventTime ∈ times ∧
          g.nextEventTime ∈ times ∧ g.previousEventTime < g.nextEventTime) := by
        rcases h.owned g hg with ⟨known, hknown, hkey⟩ | ⟨g', hg', hkey⟩
        · obtain ⟨lower, upper⟩ := known
          have hends := hseen (lower, upper) (List.mem_cons_of_mem _ hknown)
          unfold GapRow.key at hkey
          rw [Prod.mk.injEq, Prod.mk.injEq] at hkey
          rw [hkey.1, hkey.2.1, hkey.2.2]
          exact ⟨hjob, fun _ => hends⟩
        · have hname := hnames g' hg'
          have hold := hends g' hg'
          unfold GapRow.key at hkey
          rw [Prod.mk.injEq, Prod.mk.injEq] at hkey
          rw [hkey.1] at hname
          rw [hkey.1, hkey.2.1, hkey.2.2] at hold
          exact ⟨hname, hold⟩
      obtain ⟨hsame, hprevious, hnext⟩ := (gapIdentifier_eq_iff hdigest hrow.1 hjob).mp hid
      obtain ⟨hlower, hupper, hlt⟩ := hrow.2 hsame
      obtain ⟨hp, hn⟩ := hapart _ hlower _ hupper _ hpairLower _ hpairUpper hlt hpairLt hprevious hnext
      refine List.any_eq_true.mpr ⟨g, hg, ?_⟩
      simp [hsame, hp, hn]
  · rw [if_pos (by simpa using hgap)]
    exact avoids_pure _

/-- The record loop raises other errors. -/
lemma storeEntry_avoids (page : PageKey) (loop : RecordLoop) (numbered : Entry × ℕ) :
    Avoids gapIdTaken (storeEntry page loop numbered) := by
  have hinsert : ∀ (revision : ℕ) (t : MiningState),
      Avoids gapIdTaken (insertVersion page numbered.1 numbered.2 revision t) := by
    intro revision t
    unfold insertVersion
    refine Avoids.bind (avoids_raiseIf fun _ => by decide) fun _ _ => ?_
    exact Avoids.bind (avoids_raiseIf fun _ => by decide) fun _ _ => avoids_pure _
  unfold storeEntry
  refine Avoids.bind ?_ fun _ _ => ?_
  · unfold storeVersion
    split
    · exact hinsert _ _
    · split_ifs
      · exact avoids_pure _
      · exact avoids_pure _
      · exact hinsert _ _
  · exact Avoids.bind (avoids_raiseIf fun _ => by decide) fun _ _ => avoids_pure _

/-- A page whose event times, with those of its job, are told apart does not meet a taken identifier. -/
lemma commitPage_avoids (hdigest : Function.Injective digest) (hends : GapEnds s)
    (hindexed : GapsIndexed (gapIdentifier digest) s) {commit : PageCommit} {clock : Clock}
    (hapart : PairsApart twelveDigits (observedTimes s commit.jobId ∪ commit.eventTimes)) :
    Avoids gapIdTaken (commitPage (gapIdentifier digest) commit clock s) := by
  unfold commitPage
  refine Avoids.bind (avoids_raiseIf fun _ => PyError.noConfusion) fun _ _ => ?_
  split
  · exact avoids_throw (by decide)
  · next lease hlease =>
    obtain ⟨hmem, hid, -⟩ := committingJob?_eq_some hlease
    have hjob : ':' ∉ commit.jobId.toList := by
      have hname := hends.names lease.continuity (List.mem_map_of_mem hmem)
      rw [← hid]
      exact hname
    refine Avoids.bind ?_ fun stored _ => avoids_pure _
    unfold PageCommit.storePage
    refine Avoids.bind (avoids_raiseIf fun _ => by decide) fun _ _ => ?_
    refine Avoids.bind ?_ fun loop hloop => Avoids.bind ?_ fun _ _ => avoids_pure _
    · exact Raising.avoids_foldlM (fun _ _ => True) [] trivial (fun _ _ _ _ _ _ _ => trivial)
        fun seen loop numbered _ _ => storeEntry_avoids _ loop numbered
    · have htouched := hindexed.touched hloop
      have htimes := timesAdded_of_loop hloop
      have hkeyed : GapsKeyed (gapIdentifier digest) loop.state := by
        refine ⟨?_, ?_⟩
        · rw [htouched.gaps]
          exact hindexed.keyed.ids
        · rw [htouched.gaps]
          exact hindexed.keyed.named
      have hwithin : ∀ t ∈ eventTimeSet loop.state commit.jobId,
          t ∈ observedTimes s commit.jobId ∪ commit.eventTimes := by
        intro t ht
        rcases htimes.added _ _ (eventTimeSet_subset _ _ ht) with hold | ⟨-, hnew⟩
        · exact .inl hold
        · exact .inr (List.mem_filterMap.mp hnew)
      have hpairs : ∀ p ∈ localPairs loop.state commit.jobId loop.eventTimes,
          p.1 ∈ observedTimes s commit.jobId ∪ commit.eventTimes ∧
          p.2 ∈ observedTimes s commit.jobId ∪ commit.eventTimes ∧ p.1 < p.2 := by
        intro p hp
        have hadjacent := localPairs_adjacent hp
        exact ⟨hwithin _ hadjacent.lower_mem, hwithin _ hadjacent.upper_mem, hadjacent.lt⟩
      unfold recomputeGapsIncremental
      split
      · exact avoids_pure _
      · next stepSize _ =>
        split_ifs
        · exact avoids_pure _
        · refine Avoids.bind ?_ fun _ _ => avoids_pure _
          refine Raising.avoids_foldlM (fun seen t =>
            (∀ p ∈ seen, p ∈ localPairs loop.state commit.jobId loop.eventTimes) ∧
              Upserted (gapIdentifier digest) loop.state commit.jobId stepSize seen t) []
            ⟨by simp, Upserted.start hkeyed⟩ ?_ ?_
          · rintro seen t t' pair hpair ⟨hseen, hupserted⟩ hstep
            refine ⟨?_, hupserted.upsertGap hstep⟩
            rw [List.forall_mem_append, List.forall_mem_singleton]
            exact ⟨hseen, hpair⟩
          · rintro seen t pair hpair ⟨hseen, hupserted⟩
            refine upsertGap_avoids hdigest hapart hjob hupserted ?_ ?_ ?_
            · rw [List.forall_mem_cons]
              exact ⟨hpairs pair hpair, fun p hp => hpairs p (hseen p hp)⟩
            · intro g hg hgjob
              rw [htouched.gaps] at hg
              obtain ⟨hlower, hupper, hlt⟩ := hends.ends g hg
              rw [hgjob] at hlower hupper
              exact ⟨.inl hlower, .inl hupper, hlt⟩
            · intro g hg
              rw [htouched.gaps] at hg
              obtain ⟨job, hjobs, hjobId⟩ := List.mem_map.mp (hindexed.gapJobs g hg)
              rw [← hjobId]
              exact hends.names job hjobs

/-- The pairs of some event times of a job get identifiers of their own exactly if there are at
most two of them or twelve digits tell them apart. Where twelve digits do so for the event times of a
job and of its next page, the page meets no taken identifier. -/
theorem gapIdentifiers_apart_iff (digest : String → String) (hdigest : Function.Injective digest) :
    (∀ (jobId : String) (eventTimes : Set ℚ),
      (∀ p ∈ eventTimes, ∀ n ∈ eventTimes, ∀ p' ∈ eventTimes, ∀ n' ∈ eventTimes, p < n → p' < n' →
          gapIdentifier digest jobId p n = gapIdentifier digest jobId p' n' → p = p' ∧ n = n') ↔
        AtMostTwo eventTimes ∨ Set.InjOn twelveDigits eventTimes) ∧
    ∀ (calls : List MiningCall) (commit : PageCommit) (clock : Clock) (reached : MiningState),
      reached = run (step (gapIdentifier digest)) {} calls →
      AtMostTwo (observedTimes reached commit.jobId ∪ commit.eventTimes) ∨
        Set.InjOn twelveDigits (observedTimes reached commit.jobId ∪ commit.eventTimes) →
      commitPage (gapIdentifier digest) commit clock reached ≠ .error gapIdTaken := by
  have hmono : Monotone twelveDigits := significant_monotone halfEven 11
  constructor
  · intro jobId eventTimes
    rw [← pairsApart_iff hmono]
    constructor
    · intro h a ha b hb c hc d hd hab hcd hac hbd
      exact h a ha b hb c hc d hd hab hcd ((gapIdentifier_sameJob_iff hdigest).mpr ⟨hac, hbd⟩)
    · intro h p hp n hn p' hp' n' hn' hpn hpn' hsame
      obtain ⟨hprevious, hfollowing⟩ := (gapIdentifier_sameJob_iff hdigest).mp hsame
      exact h p hp n hn p' hp' n' hn' hpn hpn' hprevious hfollowing
  · rintro calls commit clock reached rfl hcondition
    exact commitPage_avoids hdigest (gapEnds_run _ calls) (gapsIndexed_run _ calls)
      ((pairsApart_iff hmono).mpr hcondition)

/-- A page at the seconds 1 and 5 meets no taken identifier. -/
theorem gapIdentifiers_apart_seconds :
    commitPage (gapIdentifier id) (pageOf "page-1" .main none [1, 5] none) ⟨10, ""⟩
      (run (step (gapIdentifier id)) {} (createdJob :: scheduled ⟨10, ""⟩)) ≠ .error gapIdTaken := by
  refine (gapIdentifiers_apart_iff id Function.injective_id).2 (createdJob :: scheduled ⟨10, ""⟩) _ _ _
    rfl (.inl ?_)
  have htimes : ∀ t ∈ observedTimes (run (step (gapIdentifier id)) {}
      (createdJob :: scheduled ⟨10, ""⟩)) "job-a" ∪
        (pageOf "page-1" .main none [1, 5] none).eventTimes, t = 1 ∨ t = 5 := by
    rintro t (⟨v, hv, -⟩ | ⟨entry, hentry, htime⟩)
    · have hnone : (run (step (gapIdentifier id)) {}
          (createdJob :: scheduled ⟨10, ""⟩)).versions.length = 0 := by with_unfolding_all decide
      rw [List.length_eq_zero_iff.mp hnone] at hv
      cases hv
    · have hpage : ∀ entry ∈ (pageOf "page-1" .main none [1, 5] none).entries,
          entry.eventTimeSort = some 1 ∨ entry.eventTimeSort = some 5 := by with_unfolding_all decide
      rcases hpage entry hentry with hone | hfive
      · exact .inl (Option.some.inj (htime.symm.trans hone))
      · exact .inr (Option.some.inj (htime.symm.trans hfive))
  intro a ha b hb c hc
  have ha := htimes a ha
  have hb := htimes b hb
  have hc := htimes c hc
  grind

/-- A job whose records carry epochs in milliseconds, a second apart. -/
def millisecondJob : List MiningCall :=
  [.createJob ⟨"job-a", "Job", "feed", .null, .null, 60, 0, some 1000⟩ ⟨10, ""⟩] ++
    scheduled ⟨10, ""⟩ ++
    [.commitPage (pageOf "page-1" .main none [1700000000000, 1700000100000] none) ⟨10, ""⟩] ++
    scheduled ⟨100, ""⟩

def meetsTakenIdentifier (calls : List MiningCall) (commit : PageCommit) (clock : Clock) : Bool :=
  match commitPage (gapIdentifier id) commit clock (run (step (gapIdentifier id)) {} calls) with
  | .error error => error == gapIdTaken
  | .ok _ => false

/-- A record three milliseconds after the first one makes a gap of the same name. The page is
rolled back, and so it is when it is fetched again. -/
theorem gapIdentifiers_milliseconds :
    gapIdentifier id "job-a" 1700000000000 1700000100000 =
      gapIdentifier id "job-a" 1700000000003 1700000100000 ∧
    meetsTakenIdentifier millisecondJob (pageOf "page-2" .main none [1700000000003] none)
      ⟨100, ""⟩ = true ∧
    meetsTakenIdentifier (millisecondJob ++
        [.commitPage (pageOf "page-2" .main none [1700000000003] none) ⟨100, ""⟩,
          .retryJob "job-a" "worker" "UNIQUE constraint failed: gaps.gap_id" none 0 ⟨100, ""⟩] ++
        scheduled ⟨200, ""⟩)
      (pageOf "page-3" .main none [1700000000003] none) ⟨200, ""⟩ = true := by
  decide +kernel

end Commits

end TradeFramework.Mining
