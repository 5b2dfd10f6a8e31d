import Mathlib.Data.List.Basic
import Mathlib.Data.List.Flatten
import Mathlib.Tactic.SplitIfs

/-!
# Lines

A text over any alphabet with a separator that ends its lines: the lines of a text, reading one
line from a position, and cutting a text at line boundaries.
-/

namespace Lines

variable {α : Type*}

/-- The text from one position to another. -/
def slice (xs : List α) (start stop : ℕ) : List α := (xs.drop start).take (stop - start)

/-- A text that ends at a line boundary. -/
def Ended (sep : α) (xs : List α) : Prop := ∀ x, xs.getLast? = some x → x = sep

instance Ended.decidable [DecidableEq α] (sep : α) (xs : List α) : Decidable (Ended sep xs) :=
  decidable_of_iff (xs.getLast?.all fun x => decide (x = sep)) (by
    unfold Ended
    cases xs.getLast? <;> simp)

section Slices

variable (xs : List α) {p q r : ℕ}

lemma slice_append (hpq : p ≤ q) (hqr : q ≤ r) : slice xs p q ++ slice xs q r = slice xs p r := by
  have hlen : r - p = (q - p) + (r - q) := by omega
  have hdrop : (xs.drop p).drop (q - p) = xs.drop q := by
    rw [List.drop_drop]
    congr 1
    omega
  unfold slice
  rw [hlen, List.take_add, hdrop]

variable {xs} in
lemma length_slice (hq : q ≤ xs.length) : (slice xs p q).length = q - p := by
  rw [slice, List.length_take, List.length_drop]
  omega

variable {xs} in
lemma slice_append_drop (hpq : p ≤ q) : slice xs p q ++ xs.drop q = xs.drop p := by
  have hdrop : (xs.drop p).drop (q - p) = xs.drop q := by
    rw [List.drop_drop]
    congr 1
    omega
  rw [slice, ← hdrop, List.take_append_drop]

lemma take_append_slice (hpq : p ≤ q) : xs.take p ++ slice xs p q = xs.take q := by
  have hzero := slice_append xs (Nat.zero_le p) hpq
  simpa [slice] using hzero

variable {xs} in
lemma slice_add (n : ℕ) : slice xs (p + n) r = (slice xs p r).drop n := by
  unfold slice
  rw [List.drop_take, List.drop_drop]
  congr 1
  omega

end Slices

section Boundaries

variable {sep : α} {xs ys : List α}

@[simp] lemma ended_nil : Ended sep [] := by simp [Ended]

lemma ended_append_right (hys : ys ≠ []) : Ended sep (xs ++ ys) ↔ Ended sep ys := by
  unfold Ended
  rw [List.getLast?_append_of_ne_nil xs hys]

lemma ended_concat : Ended sep (xs ++ [sep]) := by
  intro y hy
  simpa using hy.symm

/-- A text between two line boundaries ends at one. -/
lemma ended_slice {p q : ℕ} (hpq : p ≤ q) (hq : Ended sep (xs.take q)) : Ended sep (slice xs p q) := by
  by_cases hslice : slice xs p q = []
  · simp [hslice]
  · rw [← take_append_slice xs hpq] at hq
    exact (ended_append_right hslice).mp hq

lemma Ended.eq_concat (h : Ended sep xs) (hne : xs ≠ []) : ∃ zs, xs = zs ++ [sep] := by
  have hlast := List.dropLast_append_getLast hne
  have hsep := h _ (List.getLast?_eq_getLast_of_ne_nil hne)
  rw [hsep] at hlast
  exact ⟨_, hlast.symm⟩

/-- Induction over the lines of a text that ends at a line boundary. -/
@[elab_as_elim]
theorem Ended.induction {motive : (xs : List α) → Ended sep xs → Prop} (nil : motive [] ended_nil)
    (line : ∀ body rest hrest h, sep ∉ body → motive rest hrest → motive (body ++ sep :: rest) h)
    {xs : List α} (h : Ended sep xs) : motive xs h := by
  induction hlength : xs.length using Nat.strongRecOn generalizing xs with
  | ind n ih =>
    subst hlength
    by_cases hne : xs = []
    · subst hne
      exact nil
    · obtain ⟨zs, hzs⟩ := h.eq_concat hne
      have hmem : sep ∈ xs := by simp [hzs]
      obtain ⟨body, rest, rfl, hbody⟩ := List.eq_append_cons_of_mem hmem
      have hrest : Ended sep rest := by
        by_cases hempty : rest = []
        · simp [hempty]
        · rw [List.append_cons] at h
          exact (ended_append_right hempty).mp h
      have hshort : rest.length < (body ++ sep :: rest).length := by
        rw [List.length_append, List.length_cons]
        omega
      exact line body rest hrest h hbody (ih _ hshort hrest rfl)

end Boundaries

variable [DecidableEq α] (sep : α)

/-- The lines of a text, each with its separator. -/
def lines : List α → List (List α)
  | [] => []
  | x :: xs =>
    if x = sep then [x] :: lines xs
    else match lines xs with
      | [] => [[x]]
      | line :: rest => (x :: line) :: rest

/-- Reads up to the next separator, and at most `limit` characters. -/
def readLine : ℕ → List α → List α
  | 0, _ => []
  | _, [] => []
  | limit + 1, x :: xs => if x = sep then [x] else x :: readLine limit xs

variable {sep}

section Lines

/-- The first line of a text is what precedes its first separator. -/
lemma lines_body {body : List α} (h : sep ∉ body) (rest : List α) :
    lines sep (body ++ sep :: rest) = (body ++ [sep]) :: lines sep rest := by
  induction body with
  | nil => simp [lines]
  | cons x body ih =>
    simp only [List.mem_cons, not_or] at h
    have hx : x ≠ sep := fun heq => h.1 heq.symm
    rw [List.cons_append, lines, if_neg hx, ih h.2]
    rfl

lemma lines_append {xs : List α} (h : Ended sep xs) (ys : List α) :
    lines sep (xs ++ ys) = lines sep xs ++ lines sep ys := by
  induction h using Ended.induction with
  | nil => rfl
  | line body rest hrest h hbody ih =>
    rw [List.append_assoc, List.cons_append, lines_body hbody, lines_body hbody, ih, List.cons_append]

lemma length_lines {xs : List α} (h : Ended sep xs) : (lines sep xs).length = xs.count sep := by
  induction h using Ended.induction with
  | nil => rfl
  | line body rest hrest h hbody ih =>
    have hcount : body.count sep = 0 := List.count_eq_zero.mpr hbody
    rw [lines_body hbody, List.length_cons, ih, List.count_append, hcount, List.count_cons_self]
    omega

lemma lines_ne_nil {xs : List α} (hne : xs ≠ []) : lines sep xs ≠ [] := by
  cases xs with
  | nil => exact absurd rfl hne
  | cons x xs =>
    unfold lines
    split_ifs with hx
    · simp
    · split <;> simp

end Lines

section Reading

/-- Reading from the start of a line returns the line. -/
lemma readLine_body {body : List α} (h : sep ∉ body) {limit : ℕ} (hlimit : body.length < limit)
    (rest : List α) : readLine sep limit (body ++ sep :: rest) = body ++ [sep] := by
  induction body generalizing limit with
  | nil =>
    obtain ⟨n, rfl⟩ : ∃ n, limit = n + 1 := Nat.exists_eq_add_of_lt hlimit |>.imp fun n hn => by
      simpa using hn
    simp [readLine]
  | cons x body ih =>
    simp only [List.mem_cons, not_or] at h
    have hx : x ≠ sep := fun heq => h.1 heq.symm
    cases limit with
    | zero => simp at hlimit
    | succ n =>
      rw [List.cons_append, readLine, if_neg hx, ih h.2 (by simpa using hlimit)]
      rfl

lemma readLine_of_not_mem {xs : List α} (h : sep ∉ xs) {limit : ℕ} (hlimit : xs.length ≤ limit) :
    readLine sep limit xs = xs := by
  induction xs generalizing limit with
  | nil => cases limit <;> rfl
  | cons x xs ih =>
    simp only [List.mem_cons, not_or] at h
    have hx : x ≠ sep := fun heq => h.1 heq.symm
    cases limit with
    | zero => simp at hlimit
    | succ n => rw [readLine, if_neg hx, ih h.2 (by simpa using hlimit)]

/-- Reading one line from any position ends at a line boundary or at the end of the text. -/
lemma ended_take_readLine {xs : List α} {p : ℕ} (hp : p ≤ xs.length) :
    let stop := p + (readLine sep (xs.drop p).length (xs.drop p)).length
    Ended sep (xs.take stop) ∨ stop = xs.length := by
  intro stop
  by_cases h : sep ∈ xs.drop p
  · left
    obtain ⟨body, rest, heq, hbody⟩ := List.eq_append_cons_of_mem h
    have hlimit : body.length < (xs.drop p).length := by
      rw [heq, List.length_append, List.length_cons]
      omega
    have hline : readLine sep (xs.drop p).length (xs.drop p) = body ++ [sep] := by
      have hread := readLine_body hbody hlimit rest
      rwa [← heq] at hread
    have htake : xs.take stop = xs.take p ++ (body ++ [sep]) := by
      have hdrop : (xs.drop p).take (body ++ [sep]).length = body ++ [sep] := by
        rw [heq, List.append_cons body sep rest]
        exact List.take_left
      calc xs.take stop = xs.take p ++ (xs.drop p).take (body ++ [sep]).length := by
            rw [← List.take_add, ← hline]
        _ = xs.take p ++ (body ++ [sep]) := by rw [hdrop]
    rw [htake, ← List.append_assoc]
    exact ended_concat
  · right
    have hline := readLine_of_not_mem h (Nat.le_refl _)
    change p + (readLine sep (xs.drop p).length (xs.drop p)).length = xs.length
    rw [hline, List.length_drop]
    omega

end Reading

end Lines
