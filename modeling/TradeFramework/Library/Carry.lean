import Mathlib.Data.List.Sort
import Mathlib.Order.Basic

/-!
# The last row at or before a time

A series whose times increase is read along a timeline: at each time the last row that is not
later is carried. A cursor that only moves forward finds it.
-/

namespace Carry

variable {α τ : Type*} [LinearOrder τ] {time : α → τ} {rows : List α} {t : τ}

/-- The times increase strictly. -/
def Increasing (time : α → τ) (rows : List α) : Prop := rows.Pairwise fun a b => time a < time b

/-- The rows that are not later than a time. -/
def seen (time : α → τ) (t : τ) (rows : List α) : List α := rows.filter fun row => time row ≤ t

/-- The last row that is not later than a time. -/
def carried (time : α → τ) (t : τ) (rows : List α) : Option α := (seen time t rows).getLast?

/-- Moves a cursor that has passed `next` rows over the rows behind it. -/
def advance (time : α → τ) (t : τ) : ℕ → List α → ℕ
  | next, [] => next
  | next, row :: rest => if time row ≤ t then advance time t (next + 1) rest else next

lemma mem_seen {row : α} : row ∈ seen time t rows ↔ row ∈ rows ∧ time row ≤ t := by
  unfold seen
  simp

lemma seen_cons_of_le {row : α} (h : time row ≤ t) :
    seen time t (row :: rows) = row :: seen time t rows := by
  simp [seen, h]

/-- Once a row is later, all the rows behind it are. -/
lemma seen_cons_of_lt {row : α} (hrows : Increasing time (row :: rows)) (h : t < time row) :
    seen time t (row :: rows) = [] := by
  unfold seen
  rw [List.filter_eq_nil_iff]
  intro other hother
  have hle : time row ≤ time other := by
    obtain rfl | hmem := List.mem_cons.mp hother
    · exact le_rfl
    · exact (List.rel_of_pairwise_cons hrows hmem).le
  simpa using h.trans_le hle

/-- The rows seen are the first rows of the series. -/
lemma seen_eq_take (hrows : Increasing time rows) :
    seen time t rows = rows.take (seen time t rows).length := by
  induction rows with
  | nil => rfl
  | cons row rest ih =>
    by_cases h : time row ≤ t
    · rw [seen_cons_of_le h, List.length_cons, List.take_succ_cons, ← ih hrows.of_cons]
    · rw [seen_cons_of_lt hrows (not_le.mp h)]
      rfl

lemma length_seen_mono {u : τ} (h : t ≤ u) :
    (seen time t rows).length ≤ (seen time u rows).length := by
  apply List.Sublist.length_le
  apply List.monotone_filter_right
  intro row hrow
  simp only [decide_eq_true_eq] at hrow ⊢
  exact hrow.trans h

lemma advance_eq (hrows : Increasing time rows) (next : ℕ) :
    advance time t next rows = next + (seen time t rows).length := by
  induction rows generalizing next with
  | nil => rfl
  | cons row rest ih =>
    rw [advance]
    by_cases h : time row ≤ t
    · rw [if_pos h, ih hrows.of_cons, seen_cons_of_le h, List.length_cons]
      omega
    · rw [if_neg h, seen_cons_of_lt hrows (not_le.mp h)]
      rfl

/-- A cursor that has not passed the time moves exactly to it. -/
theorem advance_drop (hrows : Increasing time rows) {next : ℕ}
    (hnext : next ≤ (seen time t rows).length) :
    advance time t next (rows.drop next) = (seen time t rows).length := by
  have hsplit : rows = rows.take next ++ rows.drop next := (List.take_append_drop next rows).symm
  have hdrop : Increasing time (rows.drop next) := hrows.sublist (List.drop_sublist next rows)
  rw [advance_eq hdrop]
  have htake : seen time t (rows.take next) = rows.take next := by
    apply List.filter_eq_self.mpr
    intro row hrow
    have hleading : rows.take next <+: seen time t rows := by
      rw [seen_eq_take hrows]
      exact List.take_prefix_take_left hnext
    have hmem := hleading.subset hrow
    simpa using (mem_seen.mp hmem).2
  have hboth : seen time t rows = rows.take next ++ seen time t (rows.drop next) := by
    conv_lhs => rw [hsplit]
    unfold seen at htake ⊢
    rw [List.filter_append, htake]
  have hlength : next ≤ rows.length := hnext.trans (List.length_filter_le _ _)
  rw [hboth, List.length_append, List.length_take, min_eq_left hlength]

/-- What the cursor points at is the row carried. -/
theorem carried_eq_getElem? (hrows : Increasing time rows) (h : seen time t rows ≠ []) :
    carried time t rows = rows[(seen time t rows).length - 1]? := by
  have hpos : 0 < (seen time t rows).length := List.length_pos_iff.mpr h
  unfold carried
  rw [List.getLast?_eq_getElem?]
  conv_lhs => rw [seen_eq_take hrows]
  have hle : (seen time t rows).length ≤ rows.length := List.length_filter_le _ _
  rw [List.length_take, min_eq_left hle, List.getElem?_take_of_lt (by omega)]

lemma carried_eq_none_iff : carried time t rows = none ↔ ∀ row ∈ rows, t < time row := by
  unfold carried seen
  rw [List.getLast?_eq_none_iff, List.filter_eq_nil_iff]
  simp

/-- The row carried is the latest of those that are not later. -/
theorem carried_eq_some_iff (hrows : Increasing time rows) {row : α} :
    carried time t rows = some row ↔
      row ∈ rows ∧ time row ≤ t ∧ ∀ other ∈ rows, time other ≤ t → time other ≤ time row := by
  have hseen : Increasing time (seen time t rows) := hrows.filter _
  unfold carried
  constructor
  · intro hrow
    obtain ⟨rest, hrest⟩ := List.getLast?_eq_some_iff.mp hrow
    have hmem : row ∈ seen time t rows := by simp [hrest]
    obtain ⟨hrows, hle⟩ := mem_seen.mp hmem
    refine ⟨hrows, hle, fun other hother ht => ?_⟩
    have hother := mem_seen.mpr ⟨hother, ht⟩
    rw [hrest] at hother hseen
    obtain hmem | hmem := List.mem_append.mp hother
    · exact ((List.pairwise_append.mp hseen).2.2 other hmem row (by simp)).le
    · rw [List.mem_singleton.mp hmem]
  · rintro ⟨hmem, hle, hlast⟩
    have hmem := mem_seen.mpr ⟨hmem, hle⟩
    cases hlatest : (seen time t rows).getLast? with
    | none => simp [List.getLast?_eq_none_iff.mp hlatest] at hmem
    | some latest =>
      obtain ⟨rest, hrest⟩ := List.getLast?_eq_some_iff.mp hlatest
      have hlatestMem : latest ∈ seen time t rows := by simp [hrest]
      obtain ⟨hin, ht⟩ := mem_seen.mp hlatestMem
      have hnot := hlast latest hin ht
      rw [hrest] at hmem hseen
      obtain hbefore | hsame := List.mem_append.mp hmem
      · have hlt := (List.pairwise_append.mp hseen).2.2 row hbefore latest (by simp)
        exact absurd hlt (not_lt.mpr hnot)
      · rw [List.mem_singleton.mp hsame]

end Carry
