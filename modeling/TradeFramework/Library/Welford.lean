import Mathlib.Algebra.BigOperators.Group.List.Basic
import Mathlib.Algebra.BigOperators.Ring.List
import Mathlib.Algebra.CharZero.Defs
import Mathlib.Algebra.Field.Basic
import Mathlib.Tactic.FieldSimp
import Mathlib.Tactic.Ring
import Mathlib.Tactic.LinearCombination

/-!
# Mean and centred squares of a growing list

How the mean and the sum of the squared distances from it change when one value is added: the
recurrence that keeps both online.
-/

namespace Welford

variable {K : Type*} [Field K]

/-- The mean of a list, zero for the empty one. -/
def mean (xs : List K) : K := xs.sum / xs.length

/-- The sum of the squared distances from the mean. -/
def centredSquares (xs : List K) : K := (xs.map fun x => (x - mean xs) ^ 2).sum

@[simp] lemma mean_nil : mean ([] : List K) = 0 := by
  simp [mean]

@[simp] lemma centredSquares_nil : centredSquares ([] : List K) = 0 := by
  simp [centredSquares]

/-- The squared distances from any value, as the sums of the values and of their squares give them. -/
lemma sum_sq_sub (xs : List K) (m : K) :
    (xs.map fun x => (x - m) ^ 2).sum = (xs.map fun x => x ^ 2).sum - 2 * m * xs.sum + xs.length * m ^ 2 := by
  induction xs with
  | nil => simp
  | cons x xs ih =>
    simp only [List.map_cons, List.sum_cons, ih, List.length_cons, Nat.cast_add, Nat.cast_one]
    ring

variable [CharZero K]

lemma length_mul_mean (xs : List K) : xs.length * mean xs = xs.sum := by
  unfold mean
  cases xs with
  | nil => simp
  | cons x xs =>
    have hlength : ((x :: xs).length : K) ≠ 0 := by
      rw [List.length_cons]
      exact Nat.cast_ne_zero.mpr (Nat.succ_ne_zero _)
    field_simp

/-- The mean moves by a share of the new value's distance from it. -/
theorem mean_concat (xs : List K) (x : K) :
    mean (xs ++ [x]) = mean xs + (x - mean xs) / ((xs.length + 1 : ℕ) : K) := by
  have hne : ((xs.length + 1 : ℕ) : K) ≠ 0 := Nat.cast_ne_zero.mpr (Nat.succ_ne_zero _)
  have hsum := length_mul_mean xs
  have hlength : (xs ++ [x]).length = xs.length + 1 := by simp
  unfold mean at hsum ⊢
  rw [hlength, List.sum_append, List.sum_singleton]
  rw [div_eq_iff hne, add_mul, div_mul_cancel₀ _ hne]
  push_cast
  linear_combination -hsum

/-- The centred squares grow by the product of the new value's distances from the old mean and from the new. -/
theorem centredSquares_concat (xs : List K) (x : K) :
    centredSquares (xs ++ [x]) = centredSquares xs + (x - mean xs) * (x - mean (xs ++ [x])) := by
  have hold := length_mul_mean xs
  have hnew := length_mul_mean (xs ++ [x])
  have hlength : ((xs ++ [x]).length : K) = xs.length + 1 := by simp
  have hsum : (xs ++ [x]).sum = xs.sum + x := by simp
  have hsquares : ((xs ++ [x]).map fun y => y ^ 2).sum = (xs.map fun y => y ^ 2).sum + x ^ 2 := by simp
  unfold centredSquares
  rw [sum_sq_sub, sum_sq_sub, hlength, hsum, hsquares]
  rw [hlength, hsum] at hnew
  generalize mean (xs ++ [x]) = m at *
  generalize mean xs = n at *
  rw [← hold] at hnew ⊢
  linear_combination (m - n) * hnew

end Welford
