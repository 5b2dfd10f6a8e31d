import Mathlib.Data.List.Destutter
import Mathlib.Data.List.SplitBy

/-!
# Consecutive runs of a history

A history that grows at its end, read as runs of entries with one key. A run gives one key and one
flag, the disjunction of the flags of its entries.
-/

namespace ConsecutiveRuns

section Destutter

variable {κ : Type*} [DecidableEq κ] {l m : List κ} {a b : κ}

lemma destutter'_concat (l : List κ) (b a : κ) :
    (l ++ [a]).destutter' (· ≠ ·) b =
      if (b :: l).getLast? = some a then l.destutter' (· ≠ ·) b
      else l.destutter' (· ≠ ·) b ++ [a] := by
  induction l generalizing b with
  | nil =>
    rw [List.nil_append, List.destutter'_singleton]
    by_cases hba : b = a
    · simp [hba]
    · simp [hba]
  | cons c l ih =>
    rw [List.cons_append, List.getLast?_cons_cons]
    by_cases hbc : b = c
    · subst hbc
      rw [List.destutter'_cons_neg _ (by simp), List.destutter'_cons_neg _ (by simp), ih]
    · rw [List.destutter'_cons_pos _ hbc, List.destutter'_cons_pos _ hbc, ih]
      split_ifs
      · rfl
      · rfl

/-- One more element either repeats the last one or is kept. -/
theorem destutter_concat (l : List κ) (a : κ) :
    (l ++ [a]).destutter (· ≠ ·) =
      if l.getLast? = some a then l.destutter (· ≠ ·) else l.destutter (· ≠ ·) ++ [a] := by
  cases l with
  | nil => rfl
  | cons b l => exact destutter'_concat l b a

lemma length_destutter_le_append (l m : List κ) :
    (l.destutter (· ≠ ·)).length ≤ ((l ++ m).destutter (· ≠ ·)).length := by
  induction m using List.reverseRecOn with
  | nil => rw [List.append_nil]
  | append_singleton m a ih =>
    rw [← List.append_assoc, destutter_concat]
    split_ifs
    · exact ih
    · rw [List.length_append]
      omega

/-- A continuation adds nothing exactly if it repeats the last element. -/
theorem length_destutter_append_eq_iff :
    ((l ++ m).destutter (· ≠ ·)).length = (l.destutter (· ≠ ·)).length ↔
      ∀ a ∈ m, l.getLast? = some a := by
  induction m generalizing l with
  | nil => simp
  | cons b m ih =>
    have hmore := length_destutter_le_append (l ++ [b]) m
    rw [List.append_cons, List.forall_mem_cons]
    rw [destutter_concat] at hmore
    by_cases hlast : l.getLast? = some b
    · rw [if_pos hlast] at hmore
      have hsame : (l ++ [b]).getLast? = l.getLast? := List.getLast?_concat.trans hlast.symm
      have hrest := ih (l := l ++ [b])
      rw [destutter_concat, if_pos hlast, hsame] at hrest
      rw [hrest]
      exact ⟨fun h => ⟨hlast, h⟩, And.right⟩
    · rw [if_neg hlast, List.length_append, List.length_singleton] at hmore
      constructor
      · intro h
        omega
      · exact fun h => absurd h.1 hlast

end Destutter

section Runs

variable {α κ : Type*} [DecidableEq κ] (key : α → κ) (flag : α → Bool)

/-- Two entries of one run. -/
def sameKey (a b : α) : Bool := key a == key b

/-- The runs of a history, as the lists of their entries. -/
def runs (history : List α) : List (List α) := history.splitBy (sameKey key)

/-- The flag of each run. -/
def runFlags (history : List α) : List Bool := (runs key history).map fun entries => entries.any flag

variable {key flag} {history : List α} {entry : α}

lemma runs_concat_new (h : history.getLast?.map key ≠ some (key entry)) :
    runs key (history ++ [entry]) = runs key history ++ [[entry]] := by
  apply List.splitBy_append_cons []
  intro last hlast
  have hne : key last ≠ key entry := by
    intro heq
    rw [Option.mem_def.mp hlast, Option.map_some, heq] at h
    exact h rfl
  simpa [sameKey] using hne

/-- An entry with the key of the last run joins it. -/
lemma runs_concat_same (h : history.getLast?.map key = some (key entry)) :
    ∃ earlier entries, runs key history = earlier ++ [entries] ∧
      runs key (history ++ [entry]) = earlier ++ [entries ++ [entry]] := by
  have hnonempty : history ≠ [] := by
    rintro rfl
    cases h
  have hruns : runs key history ≠ [] := List.splitBy_ne_nil.mpr hnonempty
  obtain ⟨hflatten, hnotNil, hchain, hseams⟩ := List.splitBy_eq_iff.mp (rfl : runs key history = _)
  set earlier := (runs key history).dropLast
  set entries := (runs key history).getLast hruns with hentries
  have hsplit : runs key history = earlier ++ [entries] := (List.dropLast_concat_getLast hruns).symm
  refine ⟨earlier, entries, hsplit, ?_⟩
  rw [hsplit] at hflatten hnotNil hchain hseams
  have hne : entries ≠ [] := by
    intro hnil
    simp [hnil] at hnotNil
  have hlast : entries.getLast? = history.getLast? := by
    rw [hflatten, List.flatten_append, List.flatten_singleton, List.getLast?_append_of_ne_nil _ hne]
  apply List.splitBy_eq_iff.mpr
  refine ⟨?_, ?_, ?_, ?_⟩
  · rw [hflatten]
    simp
  · simp only [List.mem_append, List.mem_singleton, not_or] at hnotNil ⊢
    exact ⟨hnotNil.1, by simp⟩
  · intro run hrun
    rcases List.mem_append.mp hrun with hrun | hrun
    · exact hchain run (List.mem_append_left _ hrun)
    · rw [List.mem_singleton.mp hrun, List.isChain_append]
      refine ⟨hchain entries (by simp), by simp, ?_⟩
      intro last hmem next hnext
      rw [hlast] at hmem
      rw [Option.mem_def.mp hmem, Option.map_some, Option.some.injEq] at h
      have hnext : next = entry := by simpa using hnext.symm
      simp [sameKey, h, hnext]
  · rw [List.isChain_append] at hseams ⊢
    refine ⟨hseams.1, by simp, ?_⟩
    intro before hbefore run hrun
    obtain ⟨hbeforeNe, hrunNe, hseam⟩ := hseams.2.2 before hbefore entries (by simp)
    have hrun : run = entries ++ [entry] := by simpa using hrun.symm
    subst hrun
    refine ⟨hbeforeNe, by simp, ?_⟩
    rwa [List.head_append_of_ne_nil hrunNe]

lemma runFlags_concat_new (h : history.getLast?.map key ≠ some (key entry)) :
    runFlags key flag (history ++ [entry]) = runFlags key flag history ++ [flag entry] := by
  unfold runFlags
  rw [runs_concat_new h, List.map_append]
  simp

lemma runFlags_concat_same (h : history.getLast?.map key = some (key entry)) :
    ∃ earlier last, runFlags key flag history = earlier ++ [last] ∧
      runFlags key flag (history ++ [entry]) = earlier ++ [last || flag entry] := by
  obtain ⟨earlier, entries, hruns, hmore⟩ := runs_concat_same h
  refine ⟨earlier.map fun entries => entries.any flag, entries.any flag, ?_, ?_⟩
  · unfold runFlags
    rw [hruns, List.map_append]
    rfl
  · unfold runFlags
    rw [hmore, List.map_append]
    simp

end Runs

end ConsecutiveRuns
