import Mathlib.Data.List.Sort

/-!
# Folding a sorted list

Updates are sorted before they are folded over a state. A new update that commutes with every one
that is sorted behind it can as well be made last, so sorting does not show as long as every update
commutes with the later-sorted ones it was made after.
-/

namespace Reordering

variable {σ α : Type*} {update : σ → α → σ}

/-- Two updates may change places at every state. -/
def Swap (update : σ → α → σ) (a b : α) : Prop :=
  ∀ s, update (update s a) b = update (update s b) a

lemma Swap.symm {a b : α} (h : Swap update a b) : Swap update b a := fun s => (h s).symm

/-- What swaps with every update of a list may be made before or after them. -/
lemma foldl_swap {a : α} {later : List α} (h : ∀ b ∈ later, Swap update a b) (s : σ) :
    later.foldl update (update s a) = update (later.foldl update s) a := by
  induction later generalizing s with
  | nil => rfl
  | cons b later ih =>
    have hb := h b List.mem_cons_self s
    have hlater := ih (fun c hc => h c (List.mem_cons_of_mem _ hc)) (update s b)
    rw [List.foldl_cons, hb, hlater, List.foldl_cons]

section Sorting

variable {r : α → α → Prop} [DecidableRel r] [IsTrans α r]

/-- What a sorted list drops up to the first element above `a` is all above `a`. -/
lemma above_of_mem_dropWhile {a : α} {sorted : List α} (hsorted : sorted.Pairwise r) :
    ∀ b ∈ sorted.dropWhile fun b => ¬ r a b, r a b := by
  induction sorted with
  | nil => simp
  | cons c sorted ih =>
    obtain ⟨habove, hrest⟩ := List.pairwise_cons.mp hsorted
    by_cases hc : r a c
    · have hdrop : (c :: sorted).dropWhile (fun b => ¬ r a b) = c :: sorted := by
        simp [hc]
      rw [hdrop]
      intro b hb
      obtain rfl | hb := List.mem_cons.mp hb
      · exact hc
      · exact IsTrans.trans _ _ _ hc (habove b hb)
    · have hdrop : (c :: sorted).dropWhile (fun b => ¬ r a b) = sorted.dropWhile fun b => ¬ r a b := by
        simp [hc]
      rw [hdrop]
      exact ih hrest

variable [Std.Total r]

/-- An update that swaps with all those sorted behind it may be made after the sorted list. -/
theorem foldl_insertionSort_cons {a : α} {updates : List α}
    (h : ∀ b ∈ updates, r a b → Swap update a b) (s : σ) :
    ((a :: updates).insertionSort r).foldl update s = update ((updates.insertionSort r).foldl update s) a := by
  have hsorted := List.pairwise_insertionSort r updates
  have hsplit := List.takeWhile_append_dropWhile (p := fun b => ¬ r a b) (l := updates.insertionSort r)
  have hswap : ∀ b ∈ (updates.insertionSort r).dropWhile fun b => ¬ r a b, Swap update a b := by
    intro b hb
    have hmem : b ∈ updates := by
      rw [← List.mem_insertionSort r]
      exact (List.dropWhile_sublist _).subset hb
    exact h b hmem (above_of_mem_dropWhile hsorted b hb)
  rw [List.insertionSort_cons_eq_take_drop, List.foldl_append, List.foldl_cons, foldl_swap hswap,
    ← List.foldl_append, hsplit]

/-- Lists of the same elements, no two of which are sorted alike, sort to the same list. -/
lemma insertionSort_eq_of_perm {left right : List α} (hperm : left.Perm right)
    (hdistinct : ∀ a ∈ left, ∀ b ∈ left, r a b → r b a → a = b) :
    left.insertionSort r = right.insertionSort r := by
  have hsame : (left.insertionSort r).Perm (right.insertionSort r) :=
    (List.perm_insertionSort r left).trans (hperm.trans (List.perm_insertionSort r right).symm)
  apply hsame.eq_of_pairwise _ (List.pairwise_insertionSort r left) (List.pairwise_insertionSort r right)
  intro a b ha hb
  apply hdistinct a ((List.mem_insertionSort r).mp ha) b
  exact hperm.mem_iff.mpr ((List.mem_insertionSort r).mp hb)

/-- A new update, put anywhere among the others before they are sorted. -/
theorem foldl_insertionSort_of_perm {a : α} {updates all : List α} (hperm : all.Perm (a :: updates))
    (hdistinct : ∀ b ∈ all, ∀ c ∈ all, r b c → r c b → b = c)
    (h : ∀ b ∈ updates, r a b → Swap update a b) (s : σ) :
    (all.insertionSort r).foldl update s = update ((updates.insertionSort r).foldl update s) a := by
  rw [insertionSort_eq_of_perm hperm hdistinct, foldl_insertionSort_cons h]

/-- A new update stands, in the sorted list, before those it is sorted before. -/
theorem insertionSort_of_perm {a : α} {updates all : List α} (hperm : all.Perm (a :: updates))
    (hdistinct : ∀ b ∈ all, ∀ c ∈ all, r b c → r c b → b = c) :
    ∃ before after, updates.insertionSort r = before ++ after ∧ all.insertionSort r = before ++ a :: after ∧
      (∀ b ∈ before, ¬ r a b) ∧ ∀ b ∈ after, r a b := by
  refine ⟨(updates.insertionSort r).takeWhile fun b => ¬ r a b,
    (updates.insertionSort r).dropWhile fun b => ¬ r a b, ?_, ?_, ?_, ?_⟩
  · exact List.takeWhile_append_dropWhile.symm
  · rw [insertionSort_eq_of_perm hperm hdistinct, List.insertionSort_cons_eq_take_drop]
  · intro b hb
    have hall : ((updates.insertionSort r).takeWhile fun b => ¬ r a b).all fun b => ¬ r a b :=
      List.all_takeWhile
    simpa using List.all_eq_true.mp hall b hb
  · exact above_of_mem_dropWhile (List.pairwise_insertionSort r updates)

end Sorting

end Reordering
