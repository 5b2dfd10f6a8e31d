import TradeFramework.Library.ConsecutiveRuns
import TradeFramework.Mining.Frames
import TradeFramework.Mining.Refills

/-!
# Record versions

The versions of a record are the history of its observations without consecutive repetitions. A
page may observe a record more than once, so committing one page twice is not always a repetition.
-/

namespace TradeFramework.Mining

open Transitions ConsecutiveRuns

section Rows

variable {history : List Entry} {rows : List VersionRow} {entry : Entry} {version : VersionRow}

/-- The versions of a record, oldest first. -/
def versionsOf (s : MiningState) (jobId identityHash : String) : List VersionRow :=
  s.versions.filter fun v => v.jobId == jobId && v.identityHash == identityHash

/-- The versions are the runs of the observed record hashes. -/
structure Destuttered (history : List Entry) (rows : List VersionRow) : Prop where
  hashes : rows.map VersionRow.recordHash = (history.map Entry.recordHash).destutter (· ≠ ·)
  revisions : rows.map VersionRow.revision = List.range' 1 rows.length
  current : rows.filter VersionRow.isCurrent = rows.getLast?.toList
  last : rows.getLast?.map VersionRow.recordHash = history.getLast?.map Entry.recordHash
  finals : rows.map VersionRow.isFinal = runFlags Entry.recordHash Entry.isFinal history

lemma destuttered_nil : Destuttered [] [] := ⟨rfl, rfl, rfl, rfl, rfl⟩

/-- Only the last version is current. -/
lemma Destuttered.earlier (h : Destuttered history (rows ++ [version])) :
    rows.filter VersionRow.isCurrent = [] ∧ version.isCurrent = true := by
  have hcurrent := h.current
  rw [List.filter_append, List.getLast?_concat, Option.toList_some] at hcurrent
  cases hversion : version.isCurrent with
  | true =>
    rw [List.filter_singleton, hversion] at hcurrent
    exact ⟨List.append_left_eq_self.mp hcurrent, rfl⟩
  | false =>
    rw [List.filter_singleton, hversion] at hcurrent
    have hmem : version ∈ rows.filter VersionRow.isCurrent := by
      have hall : rows.filter VersionRow.isCurrent = [version] := by simpa using hcurrent
      simp [hall]
    have hfalse := (List.mem_filter.mp hmem).2
    rw [hversion] at hfalse
    cases hfalse

/-- Observing the current hash again may only make the current version final. -/
lemma Destuttered.repeated (h : Destuttered history (rows ++ [version]))
    (hsame : version.recordHash = entry.recordHash) {next : VersionRow}
    (hhash : next.recordHash = version.recordHash) (hrevision : next.revision = version.revision)
    (hcurrent : next.isCurrent = version.isCurrent)
    (hfinal : next.isFinal = (version.isFinal || entry.isFinal)) :
    Destuttered (history ++ [entry]) (rows ++ [next]) := by
  have hlast : history.getLast?.map Entry.recordHash = some entry.recordHash := by
    rw [← h.last, List.getLast?_concat, Option.map_some, hsame]
  obtain ⟨hearlier, hversion⟩ := h.earlier
  refine ⟨?_, ?_, ?_, ?_, ?_⟩
  · rw [List.map_append, List.map_append, List.map_singleton, List.map_singleton, destutter_concat,
      List.getLast?_map, if_pos hlast, ← h.hashes, List.map_append, List.map_singleton, hhash]
  · have hrevisions := h.revisions
    rw [List.map_append, List.map_singleton, List.length_append] at hrevisions ⊢
    rw [hrevision]
    exact hrevisions
  · rw [List.filter_append, hearlier, List.getLast?_concat, List.filter_singleton, hcurrent,
      hversion]
    rfl
  · rw [List.getLast?_concat, List.getLast?_concat, Option.map_some, Option.map_some, hhash, hsame]
  · obtain ⟨earlier, flag, hflags, hmore⟩ :=
      @runFlags_concat_same _ _ _ _ Entry.isFinal _ _ hlast
    have hfinals := h.finals
    rw [hflags, List.map_append, List.map_singleton] at hfinals
    obtain ⟨hrows, hflag⟩ := List.append_inj' hfinals rfl
    rw [hmore, List.map_append, List.map_singleton, hrows, hfinal, List.singleton_inj.mp hflag]

/-- Observing another hash appends a version, and no earlier one stays current. -/
lemma Destuttered.revised (h : Destuttered history rows)
    (hnew : history.getLast?.map Entry.recordHash ≠ some entry.recordHash)
    {earlier : List VersionRow} {next : VersionRow}
    (hhashes : earlier.map VersionRow.recordHash = rows.map VersionRow.recordHash)
    (hrevisions : earlier.map VersionRow.revision = rows.map VersionRow.revision)
    (hfinals : earlier.map VersionRow.isFinal = rows.map VersionRow.isFinal)
    (hstale : earlier.filter VersionRow.isCurrent = [])
    (hhash : next.recordHash = entry.recordHash) (hrevision : next.revision = rows.length + 1)
    (hcurrent : next.isCurrent = true) (hfinal : next.isFinal = entry.isFinal) :
    Destuttered (history ++ [entry]) (earlier ++ [next]) := by
  have hlength : earlier.length = rows.length := by
    have hlengths := congrArg List.length hhashes
    rwa [List.length_map, List.length_map] at hlengths
  refine ⟨?_, ?_, ?_, ?_, ?_⟩
  · rw [List.map_append, List.map_append, List.map_singleton, List.map_singleton, destutter_concat,
      List.getLast?_map, if_neg hnew, ← h.hashes, hhashes, hhash]
  · rw [List.map_append, List.map_singleton, List.length_append, List.length_singleton, hlength,
      List.range'_concat, hrevisions, h.revisions, hrevision, one_mul, Nat.add_comm]
  · rw [List.filter_append, hstale, List.getLast?_concat, List.filter_singleton, hcurrent]
    rfl
  · rw [List.getLast?_concat, List.getLast?_concat, Option.map_some, Option.map_some, hhash]
  · rw [runFlags_concat_new hnew, List.map_append, List.map_singleton, hfinals, h.finals, hfinal]

end Rows

section Store

variable {s s' : MiningState} {page : PageKey} {entry : Entry} {jobId identityHash : String}
  {history : List Entry}

/-- The version an observation finds is the last one. -/
lemma Destuttered.find (h : Destuttered history (versionsOf s jobId identityHash)) :
    s.versions.find? (isCurrentVersion jobId identityHash) =
      (versionsOf s jobId identityHash).getLast? := by
  have hfind : s.versions.find? (isCurrentVersion jobId identityHash) =
      (versionsOf s jobId identityHash).find? VersionRow.isCurrent := by
    unfold versionsOf
    rw [List.find?_filter]
    congr 1
    funext v
    rw [isCurrentVersion, Bool.decide_and, Bool.decide_eq_true, Bool.decide_eq_true]
  rw [hfind, ← List.head?_filter, h.current]
  cases (versionsOf s jobId identityHash).getLast? with
  | none => rfl
  | some version => rfl

lemma isCurrentVersion_of_mem {v : VersionRow} (hv : v ∈ versionsOf s jobId identityHash) :
    isCurrentVersion jobId identityHash v = v.isCurrent := by
  have hof := (List.mem_filter.mp hv).2
  unfold isCurrentVersion
  rw [hof, Bool.true_and]

lemma isCurrentVersion_of_ne {v : VersionRow} {job identity : String}
    (hne : ¬(jobId = job ∧ identityHash = identity)) (hv : v ∈ versionsOf s job identity) :
    isCurrentVersion jobId identityHash v = false := by
  have hof := (List.mem_filter.mp hv).2
  simp only [Bool.and_eq_true, beq_iff_eq] at hof
  rw [Bool.eq_false_iff]
  intro hcurrent
  simp only [isCurrentVersion, Bool.and_eq_true, beq_iff_eq] at hcurrent
  exact hne ⟨hcurrent.1.1.symm.trans hof.1, hcurrent.1.2.symm.trans hof.2⟩

/-- A change that keeps the key of the record. -/
lemma versionsOf_updateCurrent {change : VersionRow → VersionRow}
    (hchange : ∀ v, (change v).jobId = v.jobId ∧ (change v).identityHash = v.identityHash)
    (job identity : String) :
    versionsOf (updateCurrent page entry change s) job identity =
      Table.update (isCurrentVersion page.jobId entry.identityHash) change
        (versionsOf s job identity) := by
  unfold versionsOf updateCurrent
  dsimp only
  apply Table.filter_update
  intro v
  rw [(hchange v).1, (hchange v).2]

lemma versionsOf_updateCurrent_of_ne {change : VersionRow → VersionRow}
    (hchange : ∀ v, (change v).jobId = v.jobId ∧ (change v).identityHash = v.identityHash)
    {job identity : String} (hne : ¬(page.jobId = job ∧ entry.identityHash = identity)) :
    versionsOf (updateCurrent page entry change s) job identity = versionsOf s job identity := by
  rw [versionsOf_updateCurrent hchange]
  apply Table.update_of_forall_not
  exact fun v hv => isCurrentVersion_of_ne hne hv

/-- A change of the current version, where the others are not current. -/
lemma Destuttered.updateCurrent (h : Destuttered history (versionsOf s page.jobId entry.identityHash))
    {change : VersionRow → VersionRow}
    (hchange : ∀ v, (change v).jobId = v.jobId ∧ (change v).identityHash = v.identityHash)
    {rows : List VersionRow} {version : VersionRow}
    (hrows : versionsOf s page.jobId entry.identityHash = rows ++ [version]) :
    versionsOf (Mining.updateCurrent page entry change s) page.jobId entry.identityHash =
      rows ++ [change version] := by
  rw [hrows] at h
  obtain ⟨hearlier, hversion⟩ := h.earlier
  rw [versionsOf_updateCurrent hchange, hrows]
  have hmem : ∀ v ∈ rows ++ [version],
      isCurrentVersion page.jobId entry.identityHash v = v.isCurrent := by
    intro v hv
    rw [← hrows] at hv
    exact isCurrentVersion_of_mem hv
  have hkept : Table.update (isCurrentVersion page.jobId entry.identityHash) change rows = rows := by
    apply Table.update_of_forall_not
    intro v hv
    rw [hmem v (List.mem_append_left _ hv), Bool.eq_false_iff]
    intro hcurrent
    have hin : v ∈ rows.filter VersionRow.isCurrent := List.mem_filter.mpr ⟨hv, hcurrent⟩
    rw [hearlier] at hin
    cases hin
  have hlast := hmem version (by simp)
  rw [Table.update_append, hkept]
  simp [Table.update, hlast, hversion]

/-- The row of a new version. -/
lemma insertVersion_eq_ok {lineNumber revision : ℕ}
    (h : insertVersion page entry lineNumber revision s = .ok s') :
    ∃ row : VersionRow, s'.versions = s.versions ++ [row] ∧ row.jobId = page.jobId ∧
      row.identityHash = entry.identityHash ∧ row.recordHash = entry.recordHash ∧
      row.revision = revision ∧ row.isCurrent = true ∧ row.isFinal = entry.isFinal ∧
      row.eventTimeSort = entry.eventTimeSort := by
  simp only [insertVersion, Raising.bind_eq_ok, Raising.raiseIf_eq_ok, Raising.pure_eq_ok] at h
  obtain ⟨⟨⟩, -, ⟨⟩, -, rfl⟩ := h
  exact ⟨_, rfl, rfl, rfl, rfl, rfl, rfl, rfl, rfl⟩

lemma versionsOf_insertVersion {lineNumber revision : ℕ}
    (h : insertVersion page entry lineNumber revision s = .ok s') :
    ∃ row : VersionRow,
      (∀ job identity, versionsOf s' job identity = versionsOf s job identity ++
        if page.jobId = job ∧ entry.identityHash = identity then [row] else []) ∧
      row.recordHash = entry.recordHash ∧ row.revision = revision ∧ row.isCurrent = true ∧
      row.isFinal = entry.isFinal := by
  obtain ⟨row, hrows, hjob, hidentity, hhash, hrevision, hcurrent, hfinal, -⟩ := insertVersion_eq_ok h
  refine ⟨row, ?_, hhash, hrevision, hcurrent, hfinal⟩
  intro job identity
  unfold versionsOf
  rw [hrows, List.filter_append, List.filter_singleton, hjob, hidentity]
  by_cases hof : page.jobId = job ∧ entry.identityHash = identity
  · simp [hof]
  · rw [if_neg hof, Bool.cond_eq_ite, if_neg (by simpa using hof)]

lemma storeVersion_of_ne {lineNumber : ℕ} {current : Option VersionRow}
    (h : storeVersion page entry lineNumber current s = .ok s')
    (hne : ¬(page.jobId = jobId ∧ entry.identityHash = identityHash)) :
    versionsOf s' jobId identityHash = versionsOf s jobId identityHash := by
  have hinsert : ∀ {revision : ℕ} {t : MiningState},
      insertVersion page entry lineNumber revision t = .ok s' →
        versionsOf s' jobId identityHash = versionsOf t jobId identityHash := by
    intro revision t ht
    obtain ⟨row, hrows, -⟩ := versionsOf_insertVersion ht
    rw [hrows, if_neg hne, List.append_nil]
  unfold storeVersion at h
  split at h
  · exact hinsert h
  · split_ifs at h
    · cases h
      refine versionsOf_updateCurrent_of_ne ?_ hne
      exact fun v => ⟨rfl, rfl⟩
    · cases h
      rfl
    · refine (hinsert h).trans (versionsOf_updateCurrent_of_ne ?_ hne)
      exact fun v => ⟨rfl, rfl⟩

/-- Storing the version of an observation appends the observation to the history. -/
lemma Destuttered.storeVersion
    (h : Destuttered history (versionsOf s page.jobId entry.identityHash)) {lineNumber : ℕ}
    (hstore : Mining.storeVersion page entry lineNumber
      (versionsOf s page.jobId entry.identityHash).getLast? s = .ok s') :
    Destuttered (history ++ [entry]) (versionsOf s' page.jobId entry.identityHash) := by
  have hrecord : page.jobId = page.jobId ∧ entry.identityHash = entry.identityHash := ⟨rfl, rfl⟩
  rcases List.eq_nil_or_concat' (versionsOf s page.jobId entry.identityHash) with hnil | hlast
  · have hnew : history.getLast?.map Entry.recordHash ≠ some entry.recordHash := by
      rw [← h.last, hnil]
      simp
    rw [hnil] at h hstore
    obtain ⟨row, hrows, hhash, hrevision, hcurrent, hfinal⟩ := versionsOf_insertVersion hstore
    rw [hrows, if_pos hrecord, hnil]
    exact h.revised hnew rfl rfl rfl rfl hhash hrevision hcurrent hfinal
  · obtain ⟨rows, version, hrows⟩ := hlast
    rw [hrows, List.getLast?_concat] at hstore
    unfold Mining.storeVersion at hstore
    dsimp only at hstore
    by_cases hsame : version.recordHash = entry.recordHash
    · rw [if_pos hsame] at hstore
      cases hstore
      by_cases hfinal : (entry.isFinal && !version.isFinal) = true
      · have hfinished : versionsOf (Mining.updateCurrent page entry
            (fun v => { v with isFinal := true }) s) page.jobId entry.identityHash =
              rows ++ [{ version with isFinal := true }] := by
          refine h.updateCurrent ?_ hrows
          exact fun v => ⟨rfl, rfl⟩
        rw [if_pos hfinal, hfinished]
        rw [hrows] at h
        refine h.repeated hsame rfl rfl rfl ?_
        simp only [Bool.and_eq_true, Bool.not_eq_true'] at hfinal
        simp [hfinal.1]
      · rw [if_neg hfinal, hrows]
        rw [hrows] at h
        refine h.repeated hsame rfl rfl rfl ?_
        cases hentry : entry.isFinal
        · simp
        · simpa [hentry] using hfinal
    · rw [if_neg hsame] at hstore
      have hrevised : versionsOf (Mining.updateCurrent page entry
          (fun v => { v with isCurrent := false }) s) page.jobId entry.identityHash =
            rows ++ [{ version with isCurrent := false }] := by
        refine h.updateCurrent ?_ hrows
        exact fun v => ⟨rfl, rfl⟩
      obtain ⟨row, hstored, hhash, hrevision, hcurrent, hfinal⟩ := versionsOf_insertVersion hstore
      rw [hstored, if_pos hrecord, hrevised]
      rw [hrows] at h
      have hnew : history.getLast?.map Entry.recordHash ≠ some entry.recordHash := by
        rw [← h.last, List.getLast?_concat, Option.map_some]
        exact fun heq => hsame (Option.some.inj heq)
      have hnumbered : version.revision = rows.length + 1 := by
        have hrevisions := h.revisions
        rw [List.map_append, List.length_append, List.map_singleton, List.length_singleton,
          List.range'_concat, one_mul] at hrevisions
        have hlast := List.append_inj_right' hrevisions rfl
        rw [List.singleton_inj.mp hlast, Nat.add_comm]
      refine h.revised hnew ?_ ?_ ?_ ?_ hhash ?_ hcurrent hfinal
      · simp
      · simp
      · simp
      · rw [List.filter_append, h.earlier.1]
        rfl
      · rw [hrevision, hnumbered, List.length_append, List.length_singleton]

end Store

section Runs

variable (gapIdentifier : String → ℚ → ℚ → String)

/-- The observations of a record on a page. -/
def PageCommit.observed (commit : PageCommit) (jobId identityHash : String) : List Entry :=
  if commit.jobId = jobId then commit.entries.filter (·.identityHash == identityHash) else []

/-- The observations of a record that a call commits. -/
def MiningCall.observed (s : MiningState) (jobId identityHash : String) : MiningCall → List Entry
  | commitPage commit clock =>
    match Mining.commitPage gapIdentifier commit clock s with
    | .ok _ => commit.observed jobId identityHash
    | .error _ => []
  | _ => []

/-- The observations of a record that a run commits. -/
def observedHistory (jobId identityHash : String) : MiningState → List MiningCall → List Entry
  | _, [] => []
  | s, call :: rest => call.observed gapIdentifier s jobId identityHash ++
      observedHistory jobId identityHash (step gapIdentifier s call) rest

variable {gapIdentifier} {s s' : MiningState} {jobId identityHash : String} {history : List Entry}

/-- The gap index writes no versions. -/
lemma recomputeGapsIncremental_versions {checkedAt : String} {step : Option ℚ} {eventTimes : List ℚ}
    (h : recomputeGapsIncremental gapIdentifier jobId step eventTimes checkedAt s = .ok s') :
    s'.versions = s.versions := by
  unfold recomputeGapsIncremental at h
  split at h
  · cases h
    rfl
  · split_ifs at h
    · cases h
      rfl
    · simp only [Raising.bind_eq_ok, Raising.pure_eq_ok] at h
      obtain ⟨updated, hupdated, rfl⟩ := h
      have hupserted : updated.versions = s.versions := by
        refine Raising.foldlM_invariant (fun t : MiningState => t.versions = s.versions) ?_ rfl hupdated
        intro t t' pair _ ht hstep
        unfold upsertGap at hstep
        dsimp only at hstep
        split_ifs at hstep
        · cases hstep
          exact ht
        · cases hstep
          exact ht
        · simp only [Raising.bind_eq_ok, Raising.raiseIf_eq_ok, Raising.pure_eq_ok] at hstep
          obtain ⟨⟨⟩, -, rfl⟩ := hstep
          exact ht
      have hresolved : ∀ (stale : List GapRow) (t : MiningState),
          (stale.foldl (fun s g => resolveGap checkedAt g.gapId s) t).versions = t.versions := by
        intro stale
        induction stale with
        | nil => exact fun t => rfl
        | cons g stale ih => exact fun t => ih (resolveGap checkedAt g.gapId t)
      exact (hresolved _ updated).trans hupserted

/-- One entry of the record loop appends itself to the history of its record. -/
lemma storeEntry_destuttered {page : PageKey} {loop loop' : RecordLoop} {numbered : Entry × ℕ}
    (h : Destuttered history (versionsOf loop.state jobId identityHash))
    (hstore : storeEntry page loop numbered = .ok loop') :
    Destuttered (history ++
        if page.jobId = jobId ∧ numbered.1.identityHash = identityHash then [numbered.1] else [])
      (versionsOf loop'.state jobId identityHash) := by
  simp only [storeEntry, Raising.bind_eq_ok, Raising.raiseIf_eq_ok, Raising.pure_eq_ok] at hstore
  obtain ⟨state, hstate, ⟨⟩, -, rfl⟩ := hstore
  change Destuttered _ (versionsOf state jobId identityHash)
  by_cases hof : page.jobId = jobId ∧ numbered.1.identityHash = identityHash
  · rw [if_pos hof]
    obtain ⟨rfl, rfl⟩ := hof
    rw [h.find] at hstate
    exact h.storeVersion hstate
  · rw [if_neg hof, List.append_nil, storeVersion_of_ne hstate hof]
    exact h

/-- A page appends its observations to the histories of its records. -/
lemma commitPage_destuttered {commit : PageCommit} {clock : Clock}
    (h : Destuttered history (versionsOf s jobId identityHash))
    (hcommit : commitPage gapIdentifier commit clock s = .ok s') :
    Destuttered (history ++ commit.observed jobId identityHash) (versionsOf s' jobId identityHash) := by
  obtain ⟨lease, -, -, stored, hstored, hkept⟩ := commitPage_eq_ok hcommit
  simp only [PageCommit.storePage, Raising.bind_eq_ok, Raising.raiseIf_eq_ok,
    Raising.pure_eq_ok] at hstored
  obtain ⟨⟨⟩, -, loop, hloop, indexed, hindexed, rfl⟩ := hstored
  have hobserved : ∀ numbered : List (Entry × ℕ),
      (numbered.flatMap fun e => if commit.jobId = jobId ∧ e.1.identityHash = identityHash
        then [e.1] else []) = if commit.jobId = jobId
          then (numbered.map Prod.fst).filter (·.identityHash == identityHash) else [] := by
    intro numbered
    induction numbered with
    | nil => simp
    | cons e numbered ih =>
      rw [List.flatMap_cons, ih, List.map_cons, List.filter_cons]
      by_cases hjob : commit.jobId = jobId <;> by_cases hentry : e.1.identityHash = identityHash <;>
        simp [hjob, hentry]
  have hstored : Destuttered (history ++ ([] ++ commit.entries.zipIdx).flatMap fun e : Entry × ℕ =>
        if commit.jobId = jobId ∧ e.1.identityHash = identityHash then [e.1] else [])
      (versionsOf loop.state jobId identityHash) := by
    refine Raising.foldlM_relation (fun (seen : List (Entry × ℕ)) (t : RecordLoop) =>
      Destuttered (history ++ seen.flatMap fun e : Entry × ℕ =>
          if commit.jobId = jobId ∧ e.1.identityHash = identityHash then [e.1] else [])
        (versionsOf t.state jobId identityHash)) ?_ [] ?_ hloop
    · intro seen t t' numbered ht hstep
      have hnext := storeEntry_destuttered ht hstep
      rw [List.append_assoc] at hnext
      rw [List.flatMap_append, List.flatMap_singleton]
      exact hnext
    · rw [List.flatMap_nil, List.append_nil]
      exact h
  rw [List.nil_append, hobserved, List.zipIdx_map_fst] at hstored
  have hversions : versionsOf s' jobId identityHash = versionsOf loop.state jobId identityHash := by
    unfold versionsOf
    rw [hkept.versions, recomputeGapsIncremental_versions hindexed]
  rw [hversions]
  exact hstored

/-- Every call appends what it observes. -/
lemma step_destuttered (h : Destuttered history (versionsOf s jobId identityHash)) (call : MiningCall) :
    Destuttered (history ++ call.observed gapIdentifier s jobId identityHash)
      (versionsOf (step gapIdentifier s call) jobId identityHash) := by
  have hsame : ∀ {t : MiningState}, t.versions = s.versions →
      Destuttered (history ++ []) (versionsOf t jobId identityHash) := by
    intro t ht
    unfold versionsOf
    rw [ht, List.append_nil]
    exact h
  unfold step
  split
  · next next hcall =>
    cases call with
    | commitPage commit clock =>
      have hcommit : commitPage gapIdentifier commit clock s = .ok next := hcall
      simp only [MiningCall.observed, hcommit]
      exact commitPage_destuttered h hcommit
    | createJob request clock => exact hsame (createJob_eq_ok hcall).1
    | queueRefill refillId job gapId cursor clock => exact hsame (queueRefill_eq_ok hcall).1
    | _ => exact hsame (transact_indexKept rfl hcall).versions
  · next error hcall =>
    cases call with
    | commitPage commit clock =>
      have hcommit : commitPage gapIdentifier commit clock s = .error error := hcall
      simp only [MiningCall.observed, hcommit]
      exact hsame rfl
    | _ => exact hsame rfl

/-- After a run the versions are the history of what it observed. -/
lemma run_destuttered (h : Destuttered history (versionsOf s jobId identityHash))
    (calls : List MiningCall) :
    Destuttered (history ++ observedHistory gapIdentifier jobId identityHash s calls)
      (versionsOf (run (step gapIdentifier) s calls) jobId identityHash) := by
  induction calls generalizing s history with
  | nil =>
    rw [observedHistory, List.append_nil]
    exact h
  | cons call rest ih =>
    rw [observedHistory, ← List.append_assoc, run_cons]
    exact ih (step_destuttered h call)

/-- A run from the empty database. -/
lemma destuttered_of_run (gapIdentifier : String → ℚ → ℚ → String) (calls : List MiningCall)
    (jobId identityHash : String) :
    Destuttered (observedHistory gapIdentifier jobId identityHash {} calls)
      (versionsOf (run (step gapIdentifier) {} calls) jobId identityHash) := by
  have hempty : Destuttered [] (versionsOf {} jobId identityHash) := destuttered_nil
  exact run_destuttered hempty calls

/-- The observations of a commit that goes through. -/
lemma observed_commitPage {commit : PageCommit} {clock : Clock}
    (h : (commitPage gapIdentifier commit clock s).toBool = true) :
    (MiningCall.commitPage commit clock).observed gapIdentifier s jobId identityHash =
      commit.observed jobId identityHash := by
  obtain ⟨next, hnext⟩ := Raising.exists_ok_of_toBool h
  simp only [MiningCall.observed, hnext]

lemma Destuttered.length {rows : List VersionRow} (h : Destuttered history rows) :
    rows.length = ((history.map Entry.recordHash).destutter (· ≠ ·)).length := by
  rw [← h.hashes, List.length_map]

/-- A page that the history ends with adds a version exactly if it revises a record itself. -/
lemma length_repeated_iff {page : List Entry} {rows rows' : List VersionRow}
    (h : Destuttered (history ++ page) rows) (h' : Destuttered (history ++ page ++ page) rows') :
    rows'.length = rows.length ↔ ∀ a ∈ page, ∀ b ∈ page, a.recordHash = b.recordHash := by
  rw [h.length, h'.length, List.map_append, length_destutter_append_eq_iff]
  constructor
  · intro hall a ha b hb
    have hlast := hall a.recordHash (List.mem_map_of_mem ha)
    rw [hall b.recordHash (List.mem_map_of_mem hb)] at hlast
    exact (Option.some.inj hlast).symm
  · intro hsame hash hhash
    obtain ⟨a, ha, rfl⟩ := List.mem_map.mp hhash
    have hne : page ≠ [] := List.ne_nil_of_mem ha
    rw [List.getLast?_map, List.getLast?_append_of_ne_nil _ hne, List.getLast?_eq_some_getLast hne,
      Option.map_some, hsame _ (List.getLast_mem hne) a ha]

/-- The versions of every record are the runs of its history, and a page that is committed again
adds no version of a record exactly if it observes the record under one hash. -/
theorem versions_destuttered (gapIdentifier : String → ℚ → ℚ → String) :
    (∀ (calls : List MiningCall) (jobId identityHash : String),
      Destuttered (observedHistory gapIdentifier jobId identityHash {} calls)
        (versionsOf (run (step gapIdentifier) {} calls) jobId identityHash)) ∧
    ∀ (calls between : List MiningCall) (commit again : PageCommit) (clock later : Clock)
        (before reached : MiningState) (identityHash : String),
      before = run (step gapIdentifier) {} calls →
      reached = run (step gapIdentifier) before (.commitPage commit clock :: between) →
      (commitPage gapIdentifier commit clock before).toBool = true →
      observedHistory gapIdentifier commit.jobId identityHash
        (step gapIdentifier before (.commitPage commit clock)) between = [] →
      again.jobId = commit.jobId → again.entries = commit.entries →
      (commitPage gapIdentifier again later reached).toBool = true →
      ((versionsOf (step gapIdentifier reached (.commitPage again later)) commit.jobId
          identityHash).length = (versionsOf reached commit.jobId identityHash).length ↔
        ∀ a ∈ commit.entries, ∀ b ∈ commit.entries, a.identityHash = identityHash →
          b.identityHash = identityHash → a.recordHash = b.recordHash) := by
  refine ⟨destuttered_of_run gapIdentifier, ?_⟩
  rintro calls between commit again clock later before reached identityHash rfl rfl hcommit hbetween
    hjob hentries hagain
  have hbefore := destuttered_of_run gapIdentifier calls commit.jobId identityHash
  have hreached := @run_destuttered gapIdentifier _ _ _ _ hbefore (.commitPage commit clock :: between)
  rw [observedHistory, hbetween, List.append_nil, observed_commitPage hcommit] at hreached
  have hnext := @step_destuttered gapIdentifier _ _ _ _ hreached (.commitPage again later)
  have hpage : again.observed commit.jobId identityHash =
      commit.observed commit.jobId identityHash := by
    unfold PageCommit.observed
    rw [hjob, hentries]
  rw [observed_commitPage hagain, hpage] at hnext
  rw [length_repeated_iff hreached hnext]
  unfold PageCommit.observed
  rw [if_pos rfl]
  simp only [List.mem_filter, beq_iff_eq]
  constructor
  · intro h a ha b hb haid hbid
    exact h a ⟨ha, haid⟩ b ⟨hb, hbid⟩
  · intro h a ha b hb
    exact h a ha.1 b hb.1 ha.2 hb.2

/-- A job whose schedule has come to its next page. -/
def scheduled (clock : Clock) : List MiningCall :=
  [.claimNext "worker" 45 ["feed"] clock, .transition "job-a" "worker" .committing 45 clock]

def createdJob : MiningCall :=
  .createJob ⟨"job-a", "Job", "feed", .null, .null, 60, 0, some 1⟩ ⟨10, "1970-01-01T00:00:10Z"⟩

/-- A page whose records are observed once stores the same versions when it is committed again. -/
theorem versions_destuttered_page : ∃ before reached : MiningState, ∃ commit again : PageCommit,
    (versionsOf reached "job-a" "1").length = 1 ∧
    (versionsOf (step gapName reached (.commitPage again ⟨100, ""⟩)) "job-a" "1").length =
      (versionsOf reached "job-a" "1").length ∧
    reached = run (step gapName) before (.commitPage commit ⟨10, ""⟩ :: scheduled ⟨100, ""⟩) := by
  have hsame := (versions_destuttered gapName).2 (createdJob :: scheduled ⟨10, ""⟩) (scheduled ⟨100, ""⟩)
    (pageOf "page-1" .main none [1, 5] none) (pageOf "page-2" .main none [1, 5] none)
    ⟨10, ""⟩ ⟨100, ""⟩ _ _ "1" rfl rfl (by with_unfolding_all decide)
    (List.isEmpty_iff.mp (by with_unfolding_all decide)) rfl rfl (by with_unfolding_all decide)
  exact ⟨run (step gapName) {} (createdJob :: scheduled ⟨10, ""⟩), _, pageOf "page-1" .main none [1, 5] none,
    pageOf "page-2" .main none [1, 5] none, by with_unfolding_all decide,
    hsame.mpr (by with_unfolding_all decide), rfl⟩

/-- A page that observes a record under one hash and then under another. -/
def revisingPage (pageId : String) : PageCommit :=
  { pageOf pageId .main none [] none with
    entries := [⟨"record", .str "record", .int 1, some 1, "first", false⟩,
      ⟨"record", .str "record", .int 1, some 1, "second", true⟩] }

/-- Committed again, such a page brings both of its hashes back as new versions. -/
theorem revisingPage_committedTwice :
    let first := run (step gapName) {}
      (createdJob :: scheduled ⟨10, ""⟩ ++ [.commitPage (revisingPage "page-1") ⟨10, ""⟩])
    let reached := run (step gapName) first
      (scheduled ⟨100, ""⟩ ++ [.commitPage (revisingPage "page-2") ⟨100, ""⟩])
    (versionsOf first "job-a" "record").map VersionRow.recordHash = ["first", "second"] ∧
    (versionsOf reached "job-a" "record").map VersionRow.recordHash =
      ["first", "second", "first", "second"] := by
  with_unfolding_all decide

end Runs

end TradeFramework.Mining
