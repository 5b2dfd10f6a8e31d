import Mathlib.Tactic.Linarith

/-!
# Wall clocks

A wall clock shows an instant shifted by an offset that changes now and then. The instants that it shows
as a given wall time are found by correcting a guess by the offset at the guess.
-/

/-- An offset of at most `bound` whose changes are at least `2 * bound` apart. -/
structure WallClock (bound : ℤ) where
  offset : ℤ → ℤ
  bounded : ∀ t, -bound ≤ offset t ∧ offset t ≤ bound
  separated : ∀ s t, offset (s - 1) ≠ offset s → offset (t - 1) ≠ offset t → s < t → 2 * bound ≤ t - s

namespace WallClock

variable {bound : ℤ} (clock : WallClock bound)

/-- What the clock shows at an instant. -/
def shown (t : ℤ) : ℤ := t + clock.offset t

/-- The guess that the offset at a guess leads to. -/
def correct (wall guess : ℤ) : ℤ := wall - clock.offset guess

lemma shown_correct {wall guess : ℤ} (h : clock.offset (clock.correct wall guess) = clock.offset guess) :
    clock.shown (clock.correct wall guess) = wall := by
  unfold shown
  rw [h]
  unfold correct
  omega

lemma correct_of_shown {wall t : ℤ} (h : clock.shown t = wall) : clock.correct wall t = t := by
  unfold shown at h
  unfold correct
  omega

/-- Between instants of different offsets there is a change. -/
lemma exists_change {s t : ℤ} (hst : s < t) (h : clock.offset s ≠ clock.offset t) :
    ∃ c, s < c ∧ c ≤ t ∧ clock.offset (c - 1) ≠ clock.offset c := by
  induction hn : (t - s).toNat generalizing t with
  | zero => omega
  | succ n ih =>
    by_cases hlast : clock.offset (t - 1) = clock.offset t
    · have hs : s ≠ t - 1 := by
        rintro rfl
        exact h hlast
      obtain ⟨c, hlow, hhigh, hchange⟩ := @ih (t - 1) (by omega) (by rwa [hlast]) (by omega)
      exact ⟨c, hlow, by omega, hchange⟩
    · exact ⟨t, hst, le_refl t, hlast⟩

/-- Instants that are at most `2 * bound` apart see one change. -/
lemma offset_eq_or {s t u : ℤ} (hst : s < t) (htu : t < u) (hnear : u - s ≤ 2 * bound) :
    clock.offset s = clock.offset t ∨ clock.offset t = clock.offset u := by
  by_contra hdiffer
  rw [not_or] at hdiffer
  obtain ⟨c, hsc, hct, hfirst⟩ := clock.exists_change hst hdiffer.1
  obtain ⟨d, htd, hdu, hsecond⟩ := clock.exists_change htu hdiffer.2
  have hapart := clock.separated c d hfirst hsecond (by omega)
  omega

/-- The instants around a wall time have two offsets at most. -/
lemma offset_of_three {wall s t u : ℤ} (hs : wall - bound ≤ s ∧ s ≤ wall + bound)
    (ht : wall - bound ≤ t ∧ t ≤ wall + bound) (hu : wall - bound ≤ u ∧ u ≤ wall + bound) :
    clock.offset s = clock.offset t ∨ clock.offset t = clock.offset u ∨ clock.offset s = clock.offset u := by
  by_contra hdiffer
  rw [not_or, not_or] at hdiffer
  obtain ⟨hst, htu, hsu⟩ := hdiffer
  have hnst : s ≠ t := fun h => hst (by rw [h])
  have hntu : t ≠ u := fun h => htu (by rw [h])
  have hnsu : s ≠ u := fun h => hsu (by rw [h])
  -- the instant in the middle shares its offset with one of the others
  rcases lt_or_gt_of_ne hnst with h₁ | h₁ <;> rcases lt_or_gt_of_ne hntu with h₂ | h₂ <;>
    rcases lt_or_gt_of_ne hnsu with h₃ | h₃
  · exact (clock.offset_eq_or h₁ h₂ (by omega)).elim hst htu
  · omega
  · exact (clock.offset_eq_or h₃ h₂ (by omega)).elim hsu (fun h => htu h.symm)
  · exact (clock.offset_eq_or h₃ h₁ (by omega)).elim (fun h => hsu h.symm) hst
  · exact (clock.offset_eq_or h₁ h₃ (by omega)).elim (fun h => hst h.symm) hsu
  · exact (clock.offset_eq_or h₂ h₃ (by omega)).elim htu (fun h => hsu h.symm)
  · omega
  · exact (clock.offset_eq_or h₂ h₁ (by omega)).elim (fun h => htu h.symm) (fun h => hst h.symm)

lemma correct_near (wall guess : ℤ) :
    wall - bound ≤ clock.correct wall guess ∧ clock.correct wall guess ≤ wall + bound := by
  have h := clock.bounded guess
  unfold correct
  omega

/-- Two corrections of the wall time itself find an instant that shows it, wherever there is one. -/
theorem shown_correct_correct {wall t : ℤ} (h : clock.shown t = wall) :
    clock.shown (clock.correct wall (clock.correct wall wall)) = wall := by
  have hbound := clock.bounded wall
  have hself : wall - bound ≤ wall ∧ wall ≤ wall + bound := by omega
  have hfirst := clock.correct_near wall wall
  have ht := clock.correct_near wall t
  have hfixed := clock.correct_of_shown h
  rw [hfixed] at ht
  apply clock.shown_correct
  by_cases hsame : clock.offset (clock.correct wall wall) = clock.offset wall
  · rw [show clock.correct wall (clock.correct wall wall) = clock.correct wall wall by
      unfold correct at hsame ⊢
      rw [hsame]]
  · rcases clock.offset_of_three hself hfirst ht with hoffset | hoffset | hoffset
    · exact (hsame hoffset.symm).elim
    · -- the instant has the offset of the first correction, so the second correction is the instant
      have hsecond : clock.correct wall (clock.correct wall wall) = t := by
        rw [← hfixed]
        unfold correct at hoffset ⊢
        rw [hoffset]
      rw [hsecond, hoffset]
    · -- the instant has the offset of the wall time, so it is the first correction
      have hfound : clock.correct wall wall = t := by
        rw [← hfixed]
        unfold correct
        rw [hoffset]
      rw [hfound, hoffset] at hsame
      exact (hsame rfl).elim

end WallClock
