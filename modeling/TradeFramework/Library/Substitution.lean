import Mathlib.Data.List.Infix

/-!
# Replacing a pattern

Replacing the occurrences of a pattern in a sequence, from left to right and without overlap.
-/

namespace Substitution

variable {α : Type*} [DecidableEq α]

/-- Replaces a pattern after dropping the next `skip` elements. -/
def replaceAfter (pattern replacement : List α) : ℕ → List α → List α
  | _, [] => []
  | skip + 1, _ :: xs => replaceAfter pattern replacement skip xs
  | 0, x :: xs =>
    if pattern <+: x :: xs then
      replacement ++ replaceAfter pattern replacement (pattern.length - 1) xs
    else x :: replaceAfter pattern replacement 0 xs

/-- Replaces every occurrence of a pattern. -/
def replaceAll (pattern replacement xs : List α) : List α := replaceAfter pattern replacement 0 xs

variable {pattern replacement : List α} {x : α}

lemma replaceAfter_append (xs ys : List α) :
    replaceAfter pattern replacement xs.length (xs ++ ys) = replaceAll pattern replacement ys := by
  induction xs with
  | nil => rfl
  | cons x xs ih => exact ih

/-- A sequence without the pattern stays as it is. -/
lemma replaceAll_of_not_infix {xs : List α} (h : ¬pattern <:+: xs) :
    replaceAll pattern replacement xs = xs := by
  induction xs with
  | nil => rfl
  | cons x xs ih =>
    have hleading : ¬pattern <+: x :: xs := fun hp => h hp.isInfix
    have hrest : ¬pattern <:+: xs := fun hi => h (hi.trans (List.suffix_cons x xs).isInfix)
    unfold replaceAll
    rw [replaceAfter, if_neg hleading]
    congr 1
    exact ih hrest

/-- What comes before the first possible start of the pattern stays as it is. -/
lemma replaceAll_append_left {xs ys : List α} (h : x ∉ xs) :
    replaceAll (x :: pattern) replacement (xs ++ ys) =
      xs ++ replaceAll (x :: pattern) replacement ys := by
  induction xs with
  | nil => rfl
  | cons y xs ih =>
    simp only [List.mem_cons, not_or] at h
    have hleading : ¬x :: pattern <+: y :: (xs ++ ys) := fun hp => h.1 (List.cons_prefix_cons.mp hp).1
    unfold replaceAll
    rw [List.cons_append, replaceAfter, if_neg hleading]
    congr 1
    exact ih h.2

lemma replaceAll_pattern (ys : List α) :
    replaceAll (x :: pattern) replacement (x :: pattern ++ ys) =
      replacement ++ replaceAll (x :: pattern) replacement ys := by
  have hleading : x :: pattern <+: x :: (pattern ++ ys) := List.prefix_append _ _
  unfold replaceAll
  rw [List.cons_append, replaceAfter, if_pos hleading]
  congr 1
  exact replaceAfter_append pattern ys

omit [DecidableEq α] in
/-- A pattern that one element cannot be part of does not reach across the element. -/
lemma not_infix_append_cons {xs ys : List α} (hx : x ∉ pattern) (hxs : ¬pattern <:+: xs)
    (hys : ¬pattern <:+: ys) : ¬pattern <:+: xs ++ x :: ys := by
  rintro ⟨before, after, heq⟩
  rw [List.append_assoc] at heq
  rcases List.append_eq_append_iff.mp heq with ⟨middle, hleft, hright⟩ | ⟨middle, hleft, hright⟩
  · rcases List.append_eq_append_iff.mp hright with ⟨rest, hmiddle, -⟩ | ⟨rest, hpattern, hafter⟩
    · exact hxs ⟨before, rest, by rw [hleft, hmiddle, List.append_assoc]⟩
    · cases rest with
      | nil => exact hxs ⟨before, [], by rw [hleft, hpattern]; simp⟩
      | cons z rest =>
        have hz : x = z := (List.cons.inj hafter).1
        exact hx (by simp [hpattern, hz])
  · cases middle with
    | nil =>
      cases hpattern : pattern with
      | nil => exact hxs (hpattern ▸ List.nil_infix)
      | cons z rest =>
        rw [hpattern] at hright
        have hz : x = z := (List.cons.inj hright).1
        exact hx (by simp [hpattern, hz])
    | cons z middle =>
      have htail : ys = middle ++ (pattern ++ after) := (List.cons.inj hright).2
      exact hys ⟨middle, after, by rw [htail, List.append_assoc]⟩

end Substitution
