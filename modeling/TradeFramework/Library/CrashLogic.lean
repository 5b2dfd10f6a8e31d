import TradeFramework.Library.Program

/-!
# Crash conditions

A program that may be cut off between any two of its calls. `Holds` asks an invariant of every state
the program can be cut off in, and a postcondition of the states it ends in.
-/

namespace Program

variable {Op : Type} {Res : Op → Type} {Answer : Op → Type} {α β ε σ : Type}

/-- A run that is cut off after `limit` calls: the value, if the program got to its end, and the
state. -/
def runUntil (exec : (op : Op) → Answer op → σ → Res op × σ) (answers : ℕ → (op : Op) → Answer op) :
    ℕ → Program Op Res α → σ → Option α × σ
  | _, done value, s => (some value, s)
  | 0, call _ _, s => (none, s)
  | limit + 1, call op next, s =>
    let result := exec op (answers limit op) s
    runUntil exec answers limit (next result.1) result.2

/-- `I` holds before and after every call, and `post` at the end, for all allowed answers. -/
def Holds (exec : (op : Op) → Answer op → σ → Res op × σ) (allowed : (op : Op) → Answer op → Prop)
    (I : σ → Prop) (post : α → σ → Prop) : Program Op Res α → σ → Prop
  | done value, s => I s ∧ post value s
  | call op next, s => I s ∧ ∀ answer, allowed op answer →
      (next (exec op answer s).1).Holds exec allowed I post (exec op answer s).2

variable {exec : (op : Op) → Answer op → σ → Res op × σ} {allowed : (op : Op) → Answer op → Prop}
  {I : σ → Prop} {post : α → σ → Prop}

lemma Holds.mono {I' : σ → Prop} {post' : α → σ → Prop} {p : Program Op Res α} {s : σ}
    (h : p.Holds exec allowed I post s) (hI : ∀ s, I s → I' s)
    (hpost : ∀ a s, I s → post a s → post' a s) : p.Holds exec allowed I' post' s := by
  induction p generalizing s with
  | done value => exact ⟨hI s h.1, hpost value s h.1 h.2⟩
  | call op next ih => exact ⟨hI s h.1, fun answer ha => ih _ (h.2 answer ha)⟩

lemma Holds.bind {mid : α → σ → Prop} {post : β → σ → Prop} {p : Program Op Res α}
    {f : α → Program Op Res β} {s : σ} (h : p.Holds exec allowed I mid s)
    (hf : ∀ a s, I s → mid a s → (f a).Holds exec allowed I post s) :
    (p >>= f).Holds exec allowed I post s := by
  induction p generalizing s with
  | done value => exact hf value s h.1 h.2
  | call op next ih => exact ⟨h.1, fun answer ha => ih _ (h.2 answer ha)⟩

/-- Calls that each keep an invariant. -/
lemma Holds.of_safe {ok : Op → Prop} {post : α → Prop} {p : Program Op Res α} {s : σ}
    (h : p.Safe ok post) (hexec : ∀ op answer s, ok op → I s → I (exec op answer s).2) (hI : I s) :
    p.Holds exec allowed I (fun a s => I s ∧ post a) s := by
  induction p generalizing s with
  | done value => exact ⟨hI, hI, h⟩
  | call op next ih => exact ⟨hI, fun answer _ => ih _ (h.2 _) (hexec op answer s h.1 hI)⟩

/-- A cut-off run satisfies the invariant, and a complete one the postcondition. -/
theorem Holds.runUntil {p : Program Op Res α} {s : σ} (h : p.Holds exec allowed I post s)
    {answers : ℕ → (op : Op) → Answer op} (hanswers : ∀ k op, allowed op (answers k op)) (limit : ℕ) :
    I (runUntil exec answers limit p s).2 ∧
      ∀ a, (runUntil exec answers limit p s).1 = some a → post a (runUntil exec answers limit p s).2 := by
  induction limit generalizing p s with
  | zero =>
    cases p with
    | done value =>
      refine ⟨h.1, fun a ha => ?_⟩
      cases ha
      exact h.2
    | call op next =>
      refine ⟨h.1, fun a ha => ?_⟩
      cases ha
  | succ limit ih =>
    cases p with
    | done value =>
      refine ⟨h.1, fun a ha => ?_⟩
      cases ha
      exact h.2
    | call op next => exact ih (h.2 _ (hanswers limit op))

section Scripts

open Script

variable {post : Except ε α → σ → Prop} {s : σ}

/-- A script keeps the invariant, and ends as the postconditions for a value and for an exception
say. -/
abbrev Script.Holds (exec : (op : Op) → Answer op → σ → Res op × σ)
    (allowed : (op : Op) → Answer op → Prop) (I : σ → Prop) (value : α → σ → Prop)
    (raised : ε → σ → Prop) (p : Script Op Res ε α) (s : σ) : Prop :=
  Program.Holds exec allowed I
    (fun r s => match r with
      | .ok a => value a s
      | .error e => raised e s) p.run s

variable {value : α → σ → Prop} {raised : ε → σ → Prop} {p : Script Op Res ε α}

lemma Script.Holds.pure {a : α} (hI : I s) (h : value a s) :
    Script.Holds exec allowed I value raised (pure a) s := ⟨hI, h⟩

lemma Script.Holds.throw {e : ε} (hI : I s) (h : raised e s) :
    Script.Holds exec allowed I value raised (throw e) s := ⟨hI, h⟩

lemma Script.Holds.bind {value' : β → σ → Prop} {f : α → Script Op Res ε β}
    (h : Script.Holds exec allowed I value raised p s)
    (hf : ∀ a s, I s → value a s → Script.Holds exec allowed I value' raised (f a) s) :
    Script.Holds exec allowed I value' raised (p >>= f) s := by
  refine Program.Holds.bind h fun r s hI hr => ?_
  cases r with
  | ok a => exact hf a s hI hr
  | error e => exact ⟨hI, hr⟩

lemma Script.Holds.mono {value' : α → σ → Prop} {raised' : ε → σ → Prop}
    (h : Script.Holds exec allowed I value raised p s) (hvalue : ∀ a s, I s → value a s → value' a s)
    (hraised : ∀ e s, I s → raised e s → raised' e s) :
    Script.Holds exec allowed I value' raised' p s := by
  refine Program.Holds.mono h (fun s hI => hI) fun r s hI hr => ?_
  cases r with
  | ok a => exact hvalue a s hI hr
  | error e => exact hraised e s hI hr

lemma Script.Holds.tryCatch {raised' : ε → σ → Prop} {handler : ε → Script Op Res ε α}
    (h : Script.Holds exec allowed I value raised p s)
    (hhandler : ∀ e s, I s → raised e s → Script.Holds exec allowed I value raised' (handler e) s) :
    Script.Holds exec allowed I value raised' (tryCatch p handler) s := by
  refine Program.Holds.bind h fun r s hI hr => ?_
  cases r with
  | ok a => exact ⟨hI, hr⟩
  | error e => exact hhandler e s hI hr

lemma Script.Holds.attempt {value' : Except ε α → σ → Prop} {raised' : ε → σ → Prop}
    (h : Script.Holds exec allowed I (fun a s => value' (.ok a) s) (fun e s => value' (.error e) s) p s) :
    Script.Holds exec allowed I value' raised' (attempt p) s := by
  refine Program.Holds.bind h fun r s hI hr => ?_
  cases r with
  | ok a => exact ⟨hI, hr⟩
  | error e => exact ⟨hI, hr⟩


end Scripts

end Program
