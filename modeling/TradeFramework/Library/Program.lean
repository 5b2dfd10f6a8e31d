import TradeFramework.Library.Transitions

/-!
# Programs and crashes

A program calls the operations of an interface one at a time. The threads of a machine run their
programs over one memory in any interleaving, the environment answers what the memory does not
decide, and a crash ends every thread.
-/

/-- A program over an interface; a call of `op` returns a `Res op`. -/
inductive Program (Op : Type) (Res : Op → Type) (α : Type)
  | done (value : α)
  | call (op : Op) (next : Res op → Program Op Res α)

namespace Program

variable {Op : Type} {Res : Op → Type} {α β ε : Type} {ok : Op → Prop}

def bind : Program Op Res α → (α → Program Op Res β) → Program Op Res β
  | done value, f => f value
  | call op next, f => call op fun r => (next r).bind f

instance : Monad (Program Op Res) where
  pure := done
  bind := bind

/-- One call. -/
def perform (op : Op) : Program Op Res (Res op) := call op done

section Safe

/-- Every call meets its precondition, and every result the postcondition. -/
def Safe (ok : Op → Prop) (post : α → Prop) : Program Op Res α → Prop
  | done value => post value
  | call op next => ok op ∧ ∀ r, (next r).Safe ok post

/-- Without preconditions every program is safe. -/
lemma Safe.trivial (p : Program Op Res α) : p.Safe (fun _ => True) fun _ => True := by
  induction p with
  | done value => exact True.intro
  | call op next ih => exact ⟨True.intro, ih⟩

lemma Safe.mono {post post' : α → Prop} {p : Program Op Res α} (h : p.Safe ok post)
    (hpost : ∀ a, post a → post' a) : p.Safe ok post' := by
  induction p with
  | done value => exact hpost value h
  | call op next ih => exact ⟨h.1, fun r => ih r (h.2 r)⟩

lemma Safe.bind {mid : α → Prop} {post : β → Prop} {p : Program Op Res α} {f : α → Program Op Res β}
    (h : p.Safe ok mid) (hf : ∀ a, mid a → (f a).Safe ok post) : (p >>= f).Safe ok post := by
  induction p with
  | done value => exact hf value h
  | call op next ih => exact ⟨h.1, fun r => ih r (h.2 r)⟩

end Safe

section Scripts

/-- A program that can raise. -/
abbrev Script (Op : Type) (Res : Op → Type) (ε : Type) := ExceptT ε (Program Op Res)

namespace Script

/-- Every call of a script meets its precondition, and every result that is not an exception the
postcondition. -/
def Safe (ok : Op → Prop) (post : α → Prop) (p : Script Op Res ε α) : Prop :=
  Program.Safe ok (fun r => ∀ a, r = .ok a → post a) p.run

/-- The outcome of a script, as a value. -/
def attempt (p : Script Op Res ε α) : Script Op Res ε (Except ε α) :=
  ExceptT.mk (p.run >>= fun r => pure (.ok r))

/-- `try … finally`. -/
def finally_ (p : Script Op Res ε α) (cleanup : Script Op Res ε Unit) : Script Op Res ε α :=
  attempt p >>= fun r => cleanup >>= fun _ => ExceptT.mk (pure r)

/-- A script as the program of a thread. -/
def thread (p : Script Op Res ε α) : Program Op Res Unit := p.run >>= fun _ => done ()

variable {post : α → Prop} {p : Script Op Res ε α}

lemma Safe.thread (h : Safe ok post p) : (thread p).Safe ok fun _ => True :=
  Program.Safe.bind h fun _ _ => trivial

lemma Safe.pure {a : α} (h : post a) : Safe ok post (pure a : Script Op Res ε α) := by
  intro b hb
  cases hb
  exact h

lemma Safe.throw {e : ε} : Safe ok post (throw e : Script Op Res ε α) := by
  intro b hb
  cases hb

lemma Safe.ofExcept {r : Except ε α} (h : ∀ a, r = .ok a → post a) :
    Safe ok post (ExceptT.mk (Pure.pure r) : Script Op Res ε α) := h

lemma Safe.mono {post' : α → Prop} (h : Safe ok post p) (hpost : ∀ a, post a → post' a) :
    Safe ok post' p :=
  Program.Safe.mono h fun _ hr a ha => hpost a (hr a ha)

lemma Safe.bind (post : α → Prop) {post' : β → Prop} {f : α → Script Op Res ε β} (h : Safe ok post p)
    (hf : ∀ a, post a → Safe ok post' (f a)) : Safe ok post' (p >>= f) := by
  refine Program.Safe.bind h fun r hr => ?_
  cases r with
  | ok a => exact hf a (hr a rfl)
  | error e =>
    intro b hb
    cases hb

/-- A step whose result the rest does not use. -/
lemma Safe.seq {post' : β → Prop} {f : α → Script Op Res ε β} (h : Safe ok post p)
    (hf : ∀ a, Safe ok post' (f a)) : Safe ok post' (p >>= f) :=
  h.bind _ fun a _ => hf a

lemma Safe.tryCatch {handler : ε → Script Op Res ε α} (h : Safe ok post p)
    (hhandler : ∀ e, Safe ok post (handler e)) : Safe ok post (tryCatch p handler) := by
  refine Program.Safe.bind h fun r hr => ?_
  cases r with
  | ok a => exact hr
  | error e => exact hhandler e

lemma Safe.attempt (h : Safe ok post p) :
    Safe ok (fun r => ∀ a, r = .ok a → post a) (attempt p) := by
  refine Program.Safe.bind h fun r hr => ?_
  intro r' hr'
  cases hr'
  exact hr

lemma Safe.finally_ {cleanup : Script Op Res ε Unit} (h : Safe ok post p)
    (hcleanup : Safe ok (fun _ => True) cleanup) : Safe ok post (finally_ p cleanup) :=
  h.attempt.bind _ fun _ hr => hcleanup.seq fun _ => Safe.ofExcept hr

/-- A call that returns a value. -/
lemma Safe.perform {op : Op} (h : ok op) :
    Safe ok (fun _ => True) (liftM (perform op : Program Op Res (Res op)) : Script Op Res ε (Res op)) :=
  ⟨h, fun _ _ _ => trivial⟩

lemma Safe.ite {c : Prop} [Decidable c] {q : Script Op Res ε α} (hp : c → Safe ok post p)
    (hq : ¬c → Safe ok post q) : Safe ok post (if c then p else q) := by
  split_ifs with h
  · exact hp h
  · exact hq h

lemma Safe.foldlM {γ : Type} {I : β → Prop} {f : β → γ → Script Op Res ε β} {xs : List γ} {b : β}
    (hb : I b) (hf : ∀ b, I b → ∀ x ∈ xs, Safe ok I (f b x)) : Safe ok I (xs.foldlM f b) := by
  induction xs generalizing b with
  | nil => exact Safe.pure hb
  | cons x xs ih =>
    rw [List.foldlM_cons]
    refine (hf b hb x (by simp)).bind _ fun b' hb' => ih hb' ?_
    exact fun b'' hb'' y hy => hf b'' hb'' y (by simp [hy])

end Script

end Scripts

end Program

/-- Threads over a memory. `Answer op` is what the environment decides about a call of `op`, and
`spawn` admits a request as a new thread. -/
structure Machine (Op : Type) (Res : Op → Type) (σ Request : Type) where
  Answer : Op → Type
  exec : (op : Op) → Answer op → σ → Res op × σ
  spawn : Request → σ → Option (Program Op Res Unit × σ)
  crash : σ → σ

namespace Machine

variable {Op : Type} {Res : Op → Type} {σ Request : Type}

/-- The memory and the threads. -/
structure Config (Op : Type) (Res : Op → Type) (σ : Type) where
  memory : σ
  threads : List (Program Op Res Unit) := []

/-- What happens next: a thread takes its next call, a request arrives, or everything stops. -/
inductive Event (m : Machine Op Res σ Request)
  | advance (thread : ℕ) (answers : (op : Op) → m.Answer op)
  | spawn (request : Request)
  | crash

variable (m : Machine Op Res σ Request)

def step (c : Config Op Res σ) : m.Event → Config Op Res σ
  | .advance thread answers =>
    match c.threads[thread]? with
    | some (.call op next) =>
      let result := m.exec op (answers op) c.memory
      ⟨result.2, c.threads.set thread (next result.1)⟩
    | _ => c
  | .spawn request =>
    match m.spawn request c.memory with
    | some (program, memory) => ⟨memory, c.threads ++ [program]⟩
    | none => c
  | .crash => ⟨m.crash c.memory, []⟩

/-- The memory meets the invariant, and no thread calls an operation outside its precondition. -/
structure Sound (I : σ → Prop) (ok : Op → Prop) (c : Config Op Res σ) : Prop where
  memory : I c.memory
  threads : ∀ p ∈ c.threads, p.Safe ok fun _ => True

/-- What the calls, the requests and a crash must keep for an invariant of the memory. -/
structure Keeps (I : σ → Prop) (ok : Op → Prop) : Prop where
  exec : ∀ op answer s, ok op → I s → I (m.exec op answer s).2
  spawn : ∀ request s program s', I s → m.spawn request s = some (program, s') →
    I s' ∧ program.Safe ok fun _ => True
  crash : ∀ s, I s → I (m.crash s)

variable {m} {I : σ → Prop} {ok : Op → Prop}

lemma Sound.step (hkeeps : m.Keeps I ok) {c : Config Op Res σ} (h : Sound I ok c) (e : m.Event) :
    Sound I ok (m.step c e) := by
  cases e with
  | advance thread answers =>
    unfold Machine.step
    dsimp only
    split
    · next op next hthread =>
      obtain ⟨hok, hnext⟩ := h.threads _ (List.mem_of_getElem? hthread)
      refine ⟨hkeeps.exec op _ _ hok h.memory, fun p hp => ?_⟩
      rcases List.mem_or_eq_of_mem_set hp with hp | rfl
      · exact h.threads p hp
      · exact hnext _
    · exact h
  | spawn request =>
    unfold Machine.step
    dsimp only
    split
    · next program memory hspawn =>
      obtain ⟨hmemory, hsafe⟩ := hkeeps.spawn request _ program memory h.memory hspawn
      refine ⟨hmemory, fun p hp => ?_⟩
      rcases List.mem_append.mp hp with hp | hp
      · exact h.threads p hp
      · exact List.mem_singleton.mp hp ▸ hsafe
    · exact h
  | crash => exact ⟨hkeeps.crash _ h.memory, by simp [Machine.step]⟩

/-- The invariant holds after every run. -/
theorem Sound.run (hkeeps : m.Keeps I ok) {c : Config Op Res σ} (h : Sound I ok c)
    (events : List m.Event) : Sound I ok (Transitions.run m.step c events) :=
  Transitions.run_invariant (fun _ e hs _ => hs.step hkeeps e) h (Transitions.along_true c events)

/-- A relation that every call, request and crash makes between the memories before and after. -/
lemma Sound.relates {R : σ → σ → Prop} (hrefl : ∀ s, R s s)
    (hexec : ∀ op answer s, ok op → I s → R s (m.exec op answer s).2)
    (hspawn : ∀ request s program s', I s → m.spawn request s = some (program, s') → R s s')
    (hcrash : ∀ s, I s → R s (m.crash s)) {c : Config Op Res σ} (h : Sound I ok c) (e : m.Event) :
    R c.memory (m.step c e).memory := by
  cases e with
  | advance thread answers =>
    unfold Machine.step
    dsimp only
    split
    · next op next hthread =>
      obtain ⟨hok, -⟩ := h.threads _ (List.mem_of_getElem? hthread)
      exact hexec op _ _ hok h.memory
    · exact hrefl _
  | spawn request =>
    unfold Machine.step
    dsimp only
    split
    · next program memory hspawned => exact hspawn request _ program memory h.memory hspawned
    · exact hrefl _
  | crash => exact hcrash _ h.memory

/-- A reflexive and transitive relation of that kind holds between the ends of a run. -/
theorem Sound.run_relates {R : σ → σ → Prop} (hkeeps : m.Keeps I ok) (hrefl : ∀ s, R s s)
    (htrans : ∀ a b c, R a b → R b c → R a c)
    (hstep : ∀ (c : Config Op Res σ) (e : m.Event), Sound I ok c → R c.memory (m.step c e).memory)
    {c : Config Op Res σ} (h : Sound I ok c) (events : List m.Event) :
    R c.memory (Transitions.run m.step c events).memory := by
  induction events generalizing c with
  | nil => exact hrefl _
  | cons e events ih => exact htrans _ _ _ (hstep c e h) (ih (h.step hkeeps e))

end Machine
