import Mathlib.Data.List.Basic
import Mathlib.Logic.Relation

/-!
# Runs of a state machine

A machine takes one call at a time. What every step keeps, a run keeps; `Along` restricts the
runs to those whose every step is allowed at the state it starts from.
-/

namespace Transitions

variable {σ α : Type*} {step : σ → α → σ}

/-- The state after a sequence of calls. -/
def run (step : σ → α → σ) (s : σ) (calls : List α) : σ := calls.foldl step s

/-- Every call of a run is allowed at the state it finds. -/
def Along (step : σ → α → σ) (allowed : σ → α → Prop) : σ → List α → Prop
  | _, [] => True
  | s, call :: rest => allowed s call ∧ Along step allowed (step s call) rest

instance Along.decidable {allowed : σ → α → Prop} [∀ s call, Decidable (allowed s call)] :
    (s : σ) → (calls : List α) → Decidable (Along step allowed s calls)
  | _, [] => inferInstanceAs (Decidable True)
  | s, call :: rest =>
    have : Decidable (Along step allowed (step s call) rest) := Along.decidable (step s call) rest
    inferInstanceAs (Decidable (allowed s call ∧ Along step allowed (step s call) rest))

@[simp] lemma run_nil (s : σ) : run step s [] = s := rfl

@[simp] lemma run_cons (s : σ) (call : α) (rest : List α) :
    run step s (call :: rest) = run step (step s call) rest := rfl

lemma run_append (s : σ) (left right : List α) :
    run step s (left ++ right) = run step (run step s left) right := List.foldl_append

/-- An invariant of the allowed steps holds after every run of allowed steps. -/
theorem run_invariant {P : σ → Prop} {allowed : σ → α → Prop}
    (hstep : ∀ s call, P s → allowed s call → P (step s call)) {s : σ} {calls : List α} (hs : P s)
    (h : Along step allowed s calls) : P (run step s calls) := by
  induction calls generalizing s with
  | nil => exact hs
  | cons call rest ih => exact ih (hstep s call hs h.1) h.2

lemma along_true (s : σ) (calls : List α) : Along step (fun _ _ => True) s calls := by
  induction calls generalizing s with
  | nil => trivial
  | cons call rest ih => exact ⟨trivial, ih _⟩

/-- A run of allowed steps, step by step. -/
theorem along_iff_steps {allowed : σ → α → Prop} {s : σ} {calls : List α} :
    Along step allowed s calls ↔
      ∀ reached call rest, calls = reached ++ call :: rest → allowed (run step s reached) call := by
  induction calls generalizing s with
  | nil => simp [Along]
  | cons call rest ih =>
    unfold Along
    rw [ih]
    constructor
    · rintro ⟨hcall, hrest⟩ reached next later hcalls
      cases reached with
      | nil =>
        obtain ⟨rfl, -⟩ := List.cons.inj hcalls
        exact hcall
      | cons first reached =>
        rw [List.cons_append, List.cons.injEq] at hcalls
        obtain ⟨rfl, hlater⟩ := hcalls
        exact hrest reached next later hlater
    · intro h
      refine ⟨h [] call rest rfl, fun reached next later hrest => ?_⟩
      apply h (call :: reached) next later
      rw [hrest, List.cons_append]

lemma Along.mono {allowed allowed' : σ → α → Prop} (himp : ∀ s call, allowed s call → allowed' s call) {s : σ}
    {calls : List α} (h : Along step allowed s calls) : Along step allowed' s calls := by
  induction calls generalizing s with
  | nil => trivial
  | cons call rest ih => exact ⟨himp s call h.1, ih h.2⟩

lemma Along.prefix {allowed : σ → α → Prop} {s : σ} {left right : List α}
    (h : Along step allowed s (left ++ right)) : Along step allowed s left := by
  induction left generalizing s with
  | nil => trivial
  | cons call rest ih => exact ⟨h.1, ih h.2⟩

/-- Where a possible step that keeps an invariant must have been allowed, the possible runs that
keep it all along are the runs of allowed steps. -/
theorem along_iff_of_possible {P : σ → Prop} {possible allowed : σ → α → Prop}
    (hstep : ∀ s call, P s → possible s call → (P (step s call) ↔ allowed s call)) {s : σ} (hs : P s)
    {calls : List α} (hpossible : Along step possible s calls) :
    Along step allowed s calls ↔ ∀ reached, reached <+: calls → P (run step s reached) := by
  induction calls generalizing s with
  | nil => simpa [Along] using hs
  | cons call rest ih =>
    have hcall := hstep s call hs hpossible.1
    constructor
    · rintro ⟨hallowed, hrest⟩ reached hreached
      cases reached with
      | nil => exact hs
      | cons first reached =>
        obtain ⟨rfl, hrestReached⟩ := List.cons_prefix_cons.mp hreached
        exact (ih (hcall.mpr hallowed) hpossible.2).mp hrest reached hrestReached
    · intro h
      have hnext : P (step s call) := h [call] (by simp)
      refine ⟨hcall.mp hnext, (ih hnext hpossible.2).mpr fun reached hreached => ?_⟩
      exact h (call :: reached) (List.cons_prefix_cons.mpr ⟨rfl, hreached⟩)

/-- Where a step that keeps an invariant must have been allowed, the runs that keep it all along
are the runs of allowed steps. -/
theorem along_iff {P : σ → Prop} {allowed : σ → α → Prop}
    (hstep : ∀ s call, P s → (P (step s call) ↔ allowed s call)) {s : σ} (hs : P s)
    (calls : List α) :
    Along step allowed s calls ↔ ∀ reached, reached <+: calls → P (run step s reached) :=
  along_iff_of_possible (fun s call h _ => hstep s call h) hs (along_true s calls)

/-- A reflexive and transitive relation between the ends of every step relates the ends of a run. -/
theorem run_relation {R : σ → σ → Prop} (hrefl : ∀ s, R s s)
    (htrans : ∀ a b c, R a b → R b c → R a c) (hstep : ∀ s call, R s (step s call)) (s : σ)
    (calls : List α) : R s (run step s calls) := by
  induction calls generalizing s with
  | nil => exact hrefl s
  | cons call rest ih => exact htrans _ _ _ (hstep s call) (ih (step s call))

end Transitions
