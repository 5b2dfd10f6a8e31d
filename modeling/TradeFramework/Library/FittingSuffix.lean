import Mathlib.Algebra.BigOperators.Group.List.Basic
import Mathlib.Data.List.Basic
import Mathlib.Data.Int.Order.Basic
import Mathlib.Tactic.SplitIfs
import Mathlib.Algebra.GroupWithZero.Nat

/-!
# The longest suffix that fits

Elements that each have a weight, scanned from the end until the next one would go over a limit.
-/

namespace FittingSuffix

variable {α : Type*} (weight : α → ℕ) (limit : ℤ)

def total (xs : List α) : ℕ := (xs.map weight).sum

/-- The scan, from the last element on, of what lies before the weight already spent. The result
is the number of elements that are left out. -/
def scan (spent : ℕ) : List α → ℕ
  | [] => 0
  | x :: before =>
    if limit < (spent + weight x : ℕ) then before.length + 1 else scan (spent + weight x) before

/-- Where the longest suffix within the limit starts. -/
def start (xs : List α) : ℕ := scan weight limit 0 xs.reverse

variable {weight limit}

lemma total_append (xs ys : List α) : total weight (xs ++ ys) = total weight xs + total weight ys := by
  unfold total
  rw [List.map_append, List.sum_append]

lemma total_cons (x : α) (xs : List α) : total weight (x :: xs) = weight x + total weight xs := by
  unfold total
  rw [List.map_cons, List.sum_cons]

lemma total_reverse (xs : List α) : total weight xs.reverse = total weight xs := by
  unfold total
  rw [List.map_reverse, List.sum_reverse]

lemma total_drop_le {m n : ℕ} (xs : List α) (h : m ≤ n) :
    total weight (xs.drop n) ≤ total weight (xs.drop m) := by
  have hsplit : xs.drop m = (xs.drop m).take (n - m) ++ xs.drop n := by
    have hdrop : xs.drop n = (xs.drop m).drop (n - m) := by
      rw [List.drop_drop]
      congr 1
      omega
    rw [hdrop, List.take_append_drop]
  rw [hsplit, total_append]
  omega

variable (weight limit) in
lemma scan_le_length (spent : ℕ) (xs : List α) : scan weight limit spent xs ≤ xs.length := by
  induction xs generalizing spent with
  | nil => simp [scan]
  | cons x before ih =>
    unfold scan
    split_ifs with h
    · simp
    · have hle := ih (spent + weight x)
      rw [List.length_cons]
      omega

lemma scan_le_iff (spent : ℕ) (xs : List α) {k : ℕ} (hk : k < xs.length) :
    scan weight limit spent xs ≤ k ↔
      ((spent + total weight (xs.take (xs.length - k)) : ℕ) : ℤ) ≤ limit := by
  induction xs generalizing spent with
  | nil => exact absurd hk (Nat.not_lt_zero k)
  | cons x before ih =>
    have htake : (x :: before).take ((x :: before).length - k) =
        x :: before.take (before.length - k) := by
      have hpos : (x :: before).length - k = (before.length - k) + 1 := by
        rw [List.length_cons] at hk ⊢
        omega
      rw [hpos, List.take_succ_cons]
    rw [htake, total_cons]
    rw [List.length_cons] at hk
    unfold scan
    split_ifs with h
    · constructor
      · intro hle
        omega
      · intro hle
        push_cast at h hle
        omega
    · by_cases hlast : k = before.length
      · subst hlast
        have hle := scan_le_length weight limit (spent + weight x) before
        rw [Nat.sub_self, List.take_zero]
        simp only [total, List.map_nil, List.sum_nil]
        push_cast at h ⊢
        omega
      · rw [ih (spent + weight x) (by omega), Nat.add_assoc]

/-- A suffix lies in the longest one exactly when it fits. -/
theorem start_le_iff (xs : List α) {k : ℕ} (hk : k < xs.length) :
    start weight limit xs ≤ k ↔ (total weight (xs.drop k) : ℤ) ≤ limit := by
  have hrev : k < xs.reverse.length := by rwa [List.length_reverse]
  unfold start
  rw [scan_le_iff 0 xs.reverse hrev, List.length_reverse, List.take_reverse, total_reverse,
    Nat.zero_add]
  have hsub : xs.length - (xs.length - k) = k := by omega
  rw [hsub]

end FittingSuffix
