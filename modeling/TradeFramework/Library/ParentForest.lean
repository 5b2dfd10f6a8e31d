import Mathlib.Data.List.Basic
import Mathlib.Logic.Function.Basic
import Mathlib.Logic.Relation

/-!
# Forests given by parent pointers

A forest is a function that gives each node its parent, if it has one. A node lies below its
ancestors and below itself; it is rooted when the climb from it passes known nodes only and
ends. Moving a node to a new parent, adding one and removing one are updates of the function at
one node.
-/

namespace ParentForest

open Relation (ReflTransGen TransGen)

variable {α : Type*}

/-- `a` is `b` or lies below it. -/
def Below (parent : α → Option α) : α → α → Prop := ReflTransGen fun a b => parent a = some b

/-- The climb from a node passes known nodes only and ends. -/
inductive Rooted (parent : α → Option α) (known : α → Prop) : α → Prop
  | intro (a : α) (hknown : known a) (hparent : ∀ b, parent a = some b → Rooted parent known b) :
    Rooted parent known a

section Order

variable {parent : α → Option α} {known : α → Prop} {a b c f : α}

lemma Below.refl (a : α) : Below parent a a := ReflTransGen.refl

lemma Below.trans (hab : Below parent a b) (hbc : Below parent b c) : Below parent a c :=
  ReflTransGen.trans hab hbc

lemma below_of_parent (h : parent a = some b) : Below parent a b := ReflTransGen.single h

lemma below_iff : Below parent a c ↔ a = c ∨ ∃ b, parent a = some b ∧ Below parent b c :=
  ReflTransGen.cases_head_iff

/-- The ancestors of a node lie one below the other. -/
lemma Below.total (hb : Below parent a b) (hc : Below parent a c) :
    Below parent b c ∨ Below parent c b := by
  apply ReflTransGen.total_of_right_unique _ hb hc
  intro x y z hy hz
  exact Option.some.inj (hy.symm.trans hz)

lemma Rooted.isKnown (h : Rooted parent known a) : known a := by
  cases h with
  | intro a hknown _ => exact hknown

lemma Rooted.up (h : Rooted parent known a) (hb : parent a = some b) : Rooted parent known b := by
  cases h with
  | intro a _ hparent => exact hparent b hb

lemma Rooted.of_below (h : Rooted parent known a) (hb : Below parent a b) : Rooted parent known b := by
  induction hb with
  | refl => exact h
  | tail _ hstep ih => exact ih.up hstep

lemma Rooted.mono {more : α → Prop} (hmore : ∀ a, known a → more a) (h : Rooted parent known a) :
    Rooted parent more a := by
  induction h with
  | intro a hknown _ ih => exact .intro a (hmore a hknown) ih

/-- A rooted node is on no cycle. -/
lemma Rooted.not_transGen (h : Rooted parent known a) : ¬TransGen (fun a b => parent a = some b) a a := by
  induction h with
  | intro a _ _ ih =>
    intro hcycle
    obtain ⟨b, hb, hback⟩ := TransGen.head'_iff.mp hcycle
    exact ih b hb (TransGen.tail' hback hb)

/-- A node without a parent lies below itself only. -/
lemma below_of_none (h : parent a = none) : Below parent a b ↔ a = b := by
  rw [below_iff]
  simp [h]

/-- Only itself lies below a node without children. -/
lemma not_below_of_leaf (hleaf : ∀ b, parent b ≠ some f) (ha : a ≠ f) : ¬Below parent a f := by
  intro h
  rcases ReflTransGen.cases_tail h with rfl | ⟨b, _, hb⟩
  · exact ha rfl
  · exact hleaf b hb

end Order

section Climbing

variable [DecidableEq α] (parent : α → Option α) (goal : α)

/-- Climbs to a goal and gives up at a node it has passed before. -/
def climb : ℕ → List α → Option α → Bool
  | 0, _, _ => false
  | _ + 1, _, none => false
  | fuel + 1, passed, some a =>
    if a ∈ passed then false
    else if a = goal then true
    else climb fuel (a :: passed) (parent a)

variable {parent goal}

lemma below_of_climb {fuel : ℕ} {passed : List α} {a : α}
    (h : climb parent goal fuel passed (some a) = true) : Below parent a goal := by
  induction fuel generalizing passed a with
  | zero => cases h
  | succ fuel ih =>
    rw [climb] at h
    split_ifs at h with hpassed hgoal
    · rw [hgoal]
      exact Below.refl goal
    · cases hparent : parent a with
      | none =>
        rw [hparent] at h
        cases fuel <;> cases h
      | some b =>
        rw [hparent] at h
        exact (below_of_parent hparent).trans (ih h)

/-- Passing one more node leaves fewer to pass. -/
lemma length_unpassed_cons_lt {nodes passed : List α} {a : α} (hmem : a ∈ nodes) (ha : a ∉ passed) :
    (nodes.filter (· ∉ a :: passed)).length < (nodes.filter (· ∉ passed)).length := by
  have hsub : (nodes.filter (· ∉ a :: passed)).Sublist (nodes.filter (· ∉ passed)) := by
    apply List.monotone_filter_right
    simp only [List.mem_cons, not_or, decide_eq_true_eq]
    exact fun _ h => h.2
  apply Nat.lt_of_le_of_ne hsub.length_le
  intro hlength
  have heq := hsub.eq_of_length hlength
  have hleft : a ∈ nodes.filter (· ∉ passed) := by simp [hmem, ha]
  rw [← heq] at hleft
  simp at hleft

/-- The climb finds its goal as long as the fuel covers the nodes it has not passed: the nodes it
has passed lead to the one it stands at and none of them is the goal. -/
lemma climb_of_below {nodes : List α} (hnodes : ∀ a b, parent a = some b → a ∈ nodes) {fuel : ℕ}
    {passed : List α} {a : α} (hfuel : (nodes.filter (· ∉ passed)).length < fuel)
    (hpassed : ∀ p ∈ passed, p ≠ goal ∧ ∀ q, parent p = some q → q ∈ passed ∨ q = a)
    (h : Below parent a goal) : climb parent goal fuel passed (some a) = true := by
  induction fuel generalizing passed a with
  | zero => omega
  | succ fuel ih =>
    rw [climb]
    have hnew : a ∉ passed := by
      intro ha
      have hclosed : ∀ b, Below parent a b → b ∈ passed := by
        intro b hb
        induction hb with
        | refl => exact ha
        | tail _ hstep ih => rcases (hpassed _ ih).2 _ hstep with hq | rfl <;> assumption
      exact (hpassed goal (hclosed goal h)).1 rfl
    rw [if_neg hnew]
    by_cases hgoal : a = goal
    · rw [if_pos hgoal]
    · rw [if_neg hgoal]
      rcases below_iff.mp h with hsame | ⟨b, hparent, hbelow⟩
      · exact absurd hsame hgoal
      · rw [hparent]
        apply ih _ _ hbelow
        · have hless := length_unpassed_cons_lt (hnodes a b hparent) hnew
          omega
        · intro p hp
          rcases List.mem_cons.mp hp with rfl | hp
          · refine ⟨hgoal, fun q hq => Or.inr ?_⟩
            exact Option.some.inj (hq.symm.trans hparent)
          · refine ⟨(hpassed p hp).1, fun q hq => Or.inl ?_⟩
            rcases (hpassed p hp).2 q hq with hq | rfl
            · exact List.mem_cons_of_mem _ hq
            · exact List.mem_cons_self

theorem climb_iff {nodes : List α} (hnodes : ∀ a b, parent a = some b → a ∈ nodes) {fuel : ℕ} {a : α}
    (hfuel : nodes.length < fuel) :
    climb parent goal fuel [] (some a) = true ↔ Below parent a goal := by
  constructor
  · exact below_of_climb
  · apply climb_of_below hnodes
    · simpa using hfuel
    · simp

end Climbing

section Updates

variable [DecidableEq α] {parent : α → Option α} {known : α → Prop} {f : α} {target : Option α} {a b : α}

/-- What is not below the updated node keeps its ancestors. -/
lemma below_update_of_not (h : ¬Below parent a f) :
    Below (Function.update parent f target) a b ↔ Below parent a b := by
  constructor
  · intro hbelow
    induction hbelow with
    | refl => exact Below.refl a
    | @tail c d _ hstep ih =>
      have hne : c ≠ f := fun hc => h (hc ▸ ih)
      rw [Function.update_of_ne hne] at hstep
      exact ih.trans (below_of_parent hstep)
  · intro hbelow
    induction hbelow with
    | refl => exact Below.refl a
    | @tail c d hac hstep ih =>
      have hne : c ≠ f := fun hc => h (hc ▸ hac)
      apply ih.trans (below_of_parent _)
      rw [Function.update_of_ne hne]
      exact hstep

/-- An ancestor is kept, unless the climb to it went through the updated node. -/
lemma Below.update (h : Below parent a b) (target : Option α) :
    Below (Function.update parent f target) a b ∨
      Below (Function.update parent f target) a f ∧ Below parent f b := by
  induction h using ReflTransGen.head_induction_on with
  | refl => exact Or.inl (Below.refl b)
  | @head a c hstep hcb ih =>
    by_cases hf : a = f
    · subst hf
      exact Or.inr ⟨Below.refl a, (below_of_parent hstep).trans hcb⟩
    · have hup : Below (Function.update parent f target) a c := by
        apply below_of_parent
        rw [Function.update_of_ne hf]
        exact hstep
      rcases ih with h | ⟨h, hfb⟩
      · exact Or.inl (hup.trans h)
      · exact Or.inr ⟨hup.trans h, hfb⟩

/-- A new ancestor is the updated node or is reached through its new parent. -/
lemma below_of_update (h : Below (Function.update parent f target) a b) :
    Below parent a b ∨ ∃ p, target = some p ∧ Below (Function.update parent f target) p b := by
  induction h using ReflTransGen.head_induction_on with
  | refl => exact Or.inl (Below.refl b)
  | @head a c hstep hcb ih =>
    by_cases hf : a = f
    · subst hf
      rw [Function.update_self] at hstep
      exact Or.inr ⟨c, hstep, hcb⟩
    · rw [Function.update_of_ne hf] at hstep
      rcases ih with h | h
      · exact Or.inl ((below_of_parent hstep).trans h)
      · exact Or.inr h

/-- A climb that does not meet the updated node stays as it was. -/
lemma Rooted.update_of_not (h : Rooted parent known a) (hnot : ¬Below parent a f) :
    Rooted (Function.update parent f target) known a := by
  induction h with
  | intro a hknown _ ih =>
    apply Rooted.intro a hknown
    intro b hb
    have hne : a ≠ f := by
      rintro rfl
      exact hnot (Below.refl a)
    rw [Function.update_of_ne hne] at hb
    exact ih b hb fun hbelow => hnot ((below_of_parent hb).trans hbelow)

/-- Rooted nodes stay rooted when a node goes below a rooted node that is not below it. -/
theorem Rooted.update (h : Rooted parent known a)
    (htarget : ∀ p, target = some p → Rooted parent known p ∧ ¬Below parent p f) :
    Rooted (Function.update parent f target) known a := by
  induction h with
  | intro a hknown _ ih =>
    apply Rooted.intro a hknown
    intro b hb
    by_cases hf : a = f
    · subst hf
      rw [Function.update_self] at hb
      obtain ⟨hrooted, hnot⟩ := htarget b hb
      exact hrooted.update_of_not hnot
    · rw [Function.update_of_ne hf] at hb
      exact ih b hb

/-- A node without children can leave. -/
theorem Rooted.leave (h : Rooted parent known a) (hleaf : ∀ b, parent b ≠ some f) (ha : a ≠ f) :
    Rooted (Function.update parent f target) (fun b => known b ∧ b ≠ f) a := by
  induction h with
  | intro a hknown _ ih =>
    apply Rooted.intro a ⟨hknown, ha⟩
    intro b hb
    rw [Function.update_of_ne ha] at hb
    apply ih b hb
    rintro rfl
    exact hleaf a hb

end Updates

end ParentForest
