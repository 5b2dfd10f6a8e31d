import Mathlib.Data.List.Sort
import Mathlib.Order.Interval.Set.Basic

/-!
# Adjacent pairs of a set of points

Two points of a set are adjacent when no third point of the set lies between them. Whether they are
depends on the set inside their interval alone, and a window of a set that leaves no point out
between two of its own has the adjacent pairs of the set.
-/

namespace AdjacentPairs

variable {α : Type*} [LinearOrder α] {points points' window : Set α} {lower upper : α}

/-- Two points with none between them. -/
structure Adjacent (points : Set α) (lower upper : α) : Prop where
  lower_mem : lower ∈ points
  upper_mem : upper ∈ points
  lt : lower < upper
  empty : ∀ t ∈ points, ¬(lower < t ∧ t < upper)

section Sets

/-- Sets that agree on the closed interval of a pair agree on its adjacency. -/
theorem Adjacent.of_agree (h : Adjacent points lower upper)
    (hagree : ∀ t, lower ≤ t → t ≤ upper → (t ∈ points' ↔ t ∈ points)) :
    Adjacent points' lower upper := by
  refine ⟨?_, ?_, h.lt, ?_⟩
  · exact (hagree lower le_rfl h.lt.le).mpr h.lower_mem
  · exact (hagree upper h.lt.le le_rfl).mpr h.upper_mem
  · intro t ht hbetween
    exact h.empty t ((hagree t hbetween.1.le hbetween.2.le).mp ht) hbetween

lemma adjacent_congr (hagree : ∀ t, lower ≤ t → t ≤ upper → (t ∈ points' ↔ t ∈ points)) :
    Adjacent points' lower upper ↔ Adjacent points lower upper := by
  constructor
  · exact fun h => h.of_agree fun t hlower hupper => (hagree t hlower hupper).symm
  · exact fun h => h.of_agree hagree

/-- A window of a set that leaves no point out between two of its own. -/
structure Window (window points : Set α) : Prop where
  subset : window ⊆ points
  convex : ∀ lower ∈ window, ∀ upper ∈ window, ∀ t ∈ points, lower < t → t < upper → t ∈ window

/-- The adjacent pairs of a window are the adjacent pairs of the set that lie in it. -/
theorem Window.adjacent_iff (h : Window window points) :
    Adjacent window lower upper ↔
      Adjacent points lower upper ∧ lower ∈ window ∧ upper ∈ window := by
  constructor
  · intro hpair
    refine ⟨⟨h.subset hpair.lower_mem, h.subset hpair.upper_mem, hpair.lt, ?_⟩,
      hpair.lower_mem, hpair.upper_mem⟩
    intro t ht hbetween
    have hin := h.convex lower hpair.lower_mem upper hpair.upper_mem t ht hbetween.1 hbetween.2
    exact hpair.empty t hin hbetween
  · rintro ⟨hpair, hlower, hupper⟩
    exact ⟨hlower, hupper, hpair.lt, fun t ht => hpair.empty t (h.subset ht)⟩

end Sets

section Lists

variable {l : List α}

lemma adjacent_cons_cons {a b : α} (hl : (a :: b :: l).Pairwise (· < ·)) :
    Adjacent {t | t ∈ a :: b :: l} lower upper ↔
      (lower = a ∧ upper = b) ∨ Adjacent {t | t ∈ b :: l} lower upper := by
  obtain ⟨hfirst, hrest⟩ := List.pairwise_cons.mp hl
  have hab : a < b := hfirst b (by simp)
  have hbl : ∀ t ∈ l, b < t := (List.pairwise_cons.mp hrest).1
  constructor
  · intro h
    rcases List.mem_cons.mp h.lower_mem with rfl | hlower
    · left
      refine ⟨rfl, ?_⟩
      rcases List.mem_cons.mp h.upper_mem with rfl | hupper
      · exact absurd h.lt (lt_irrefl _)
      · rcases List.mem_cons.mp hupper with rfl | hupper
        · rfl
        · exact absurd ⟨hab, hbl upper hupper⟩ (h.empty b (by simp))
    · right
      have hupper : upper ∈ b :: l := by
        rcases List.mem_cons.mp h.upper_mem with rfl | hupper
        · exact absurd (h.lt.trans (hfirst lower hlower)) (lt_irrefl _)
        · exact hupper
      exact ⟨hlower, hupper, h.lt, fun t ht => h.empty t (List.mem_cons_of_mem _ ht)⟩
  · rintro (⟨rfl, rfl⟩ | h)
    · refine ⟨by simp, by simp, hab, ?_⟩
      rintro t ht ⟨hlower, hupper⟩
      rcases List.mem_cons.mp ht with rfl | ht
      · exact lt_irrefl _ hlower
      · rcases List.mem_cons.mp ht with rfl | ht
        · exact lt_irrefl _ hupper
        · exact lt_irrefl _ (hupper.trans (hbl t ht))
    · refine ⟨List.mem_cons_of_mem _ h.lower_mem, List.mem_cons_of_mem _ h.upper_mem, h.lt, ?_⟩
      rintro t ht hbetween
      rcases List.mem_cons.mp ht with rfl | ht
      · exact lt_irrefl _ (hbetween.1.trans (hfirst lower h.lower_mem))
      · exact h.empty t ht hbetween

/-- The neighbours of an ascending list are the adjacent pairs of its points. -/
theorem mem_zip_tail_iff (hl : l.Pairwise (· < ·)) :
    (lower, upper) ∈ l.zip l.tail ↔ Adjacent {t | t ∈ l} lower upper := by
  induction l with
  | nil =>
    constructor
    · intro h
      simp at h
    · intro h
      cases h.lower_mem
  | cons a l ih =>
    cases l with
    | nil =>
      constructor
      · intro h
        simp at h
      · intro h
        have hlower := List.mem_singleton.mp h.lower_mem
        have hupper := List.mem_singleton.mp h.upper_mem
        exact absurd h.lt (by rw [hlower, hupper]; exact lt_irrefl a)
    | cons b l =>
      rw [adjacent_cons_cons hl, ← ih (List.pairwise_cons.mp hl).2, List.tail_cons,
        List.zip_cons_cons, List.mem_cons, Prod.mk.injEq]
      rfl

end Lists

section Take

variable {β : Type*} {r : β → β → Prop} {l : List β} {a b : β} {count : ℕ}

/-- The front of an ordered list holds what is not behind one of its elements. -/
lemma mem_take_of_not (hl : l.Pairwise r) (ha : a ∈ l.take count) (hb : b ∈ l) (hnot : ¬r a b) :
    b ∈ l.take count := by
  rw [← List.take_append_drop count l] at hl hb
  rcases List.mem_append.mp hb with hb | hb
  · exact hb
  · exact absurd ((List.pairwise_append.mp hl).2.2 a ha b hb) hnot

/-- An element with at most one element before it is one of the first two. -/
lemma mem_take_two (hl : l.Pairwise r) (hr : ∀ b, ¬r b b) (ha : a ∈ l)
    (hfew : ∀ b ∈ l, ∀ c ∈ l, r b a → r c a → b = c) : a ∈ l.take 2 := by
  match l, hl, ha, hfew with
  | [], _, ha, _ => cases ha
  | [b], _, ha, _ => exact ha
  | b :: c :: rest, hl, ha, hfew =>
    obtain ⟨hb, hrest⟩ := List.pairwise_cons.mp hl
    have hc := (List.pairwise_cons.mp hrest).1
    rcases List.mem_cons.mp ha with rfl | ha
    · simp
    · rcases List.mem_cons.mp ha with rfl | ha
      · simp
      · have hbc : b = c := hfew b (by simp) c (by simp) (hb a (by simp [ha])) (hc a ha)
        exact absurd (hbc ▸ hb c (by simp)) (hr c)

end Take

end AdjacentPairs
