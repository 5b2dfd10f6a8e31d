import TradeFramework.Library.Transitions

/-!
# Transactions with one writer

Calls run statements over one database. Outside a transaction a call reads what was committed last. Its
first write opens a transaction on a copy that nobody else sees, and no other call writes until the copy is
committed or rolled back.
-/

namespace SingleWriter

/-- What a call does next. -/
inductive Statement (D C : Type)
  | select (next : D → C)
  | write (f : D → Option D) (next : C)
  | commit (next : C)
  | finished

/-- The calls of a kind: where a request starts, the next statement of a call, given what the environment
answers, and what becomes of a call whose statement fails. -/
structure Client (D C Request Answer : Type) where
  start : Request → C
  statement : Answer → C → Statement D C
  failed : C

/-- The committed database, the call that writes with its copy, and the calls. -/
structure State (D C : Type) where
  committed : D
  writer : Option (ℕ × D) := none
  calls : List C := []

/-- A request arrives, a call takes its next statement, or that statement fails. -/
inductive Event (Request Answer : Type)
  | arrive (request : Request)
  | advance (call : ℕ) (answer : Answer)
  | fail (call : ℕ) (answer : Answer)

variable {D C Request Answer : Type}

/-- The copy of a call that is in a transaction. -/
def State.copy (s : State D C) (i : ℕ) : Option D :=
  match s.writer with
  | some (j, copy) => if j = i then some copy else none
  | none => none

def State.rollback (s : State D C) (i : ℕ) (next : C) : State D C :=
  ⟨s.committed, if (s.copy i).isSome then none else s.writer, s.calls.set i next⟩

def State.execute (s : State D C) (i : ℕ) (failed : C) : Statement D C → State D C
  | .select next => { s with calls := s.calls.set i (next ((s.copy i).getD s.committed)) }
  | .write f next =>
    -- another writer is waited for
    if s.writer.isSome ∧ s.copy i = none then s
    else
      match f ((s.copy i).getD s.committed) with
      | some copy => ⟨s.committed, some (i, copy), s.calls.set i next⟩
      | none => s.rollback i failed
  | .commit next =>
    match s.copy i with
    | some copy => ⟨copy, none, s.calls.set i next⟩
    | none => { s with calls := s.calls.set i next }
  | .finished => s

/-- A statement fails: the call's transaction is rolled back. -/
def State.raise (s : State D C) (i : ℕ) (failed : C) : Statement D C → State D C
  | .finished => s
  | _ => s.rollback i failed

variable (client : Client D C Request Answer)

def step (s : State D C) : Event Request Answer → State D C
  | .arrive request => { s with calls := s.calls ++ [client.start request] }
  | .advance i answer =>
    match s.calls[i]? with
    | some call => s.execute i client.failed (client.statement answer call)
    | none => s
  | .fail i answer =>
    match s.calls[i]? with
    | some call => s.raise i client.failed (client.statement answer call)
    | none => s

/-- What holds of the committed database, of a call outside a transaction, and of one inside, and why every
statement keeps it. -/
structure Rules (I : D → Prop) (outside : D → C → Prop) (inside : D → D → C → Prop) : Prop where
  start : ∀ d request, I d → outside d (client.start request)
  failed : ∀ d, outside d client.failed
  select_outside : ∀ d call answer next, I d → outside d call →
    client.statement answer call = .select next → outside d (next d)
  select_inside : ∀ d copy call answer next, I d → inside d copy call →
    client.statement answer call = .select next → inside d copy (next copy)
  write_outside : ∀ d copy call answer f next, I d → outside d call →
    client.statement answer call = .write f next → f d = some copy → inside d copy next
  write_inside : ∀ d copy copy' call answer f next, I d → inside d copy call →
    client.statement answer call = .write f next → f copy = some copy' → inside d copy' next
  commit_outside : ∀ d call answer next, I d → outside d call →
    client.statement answer call = .commit next → outside d next
  commit_inside : ∀ d copy call answer next, I d → inside d copy call →
    client.statement answer call = .commit next →
    I copy ∧ outside copy next ∧ ∀ other, outside d other → outside copy other

/-- The state that the rules keep. -/
structure Kept (I : D → Prop) (outside : D → C → Prop) (inside : D → D → C → Prop) (s : State D C) :
    Prop where
  committed : I s.committed
  running : ∀ i copy, s.copy i = some copy → i < s.calls.length
  outside : ∀ i call, s.calls[i]? = some call → s.copy i = none → outside s.committed call
  inside : ∀ i call copy, s.calls[i]? = some call → s.copy i = some copy → inside s.committed copy call

variable {client} {I : D → Prop} {outside : D → C → Prop} {inside : D → D → C → Prop} {s : State D C}

section Copies

lemma copy_eq_some {i : ℕ} {copy : D} : s.copy i = some copy ↔ s.writer = some (i, copy) := by
  unfold State.copy
  split
  · next j other hwriter =>
    rw [hwriter, Option.some.injEq, Prod.mk.injEq]
    by_cases hi : j = i
    · simp [hi]
    · simp [hi]
  · next hwriter => simp [hwriter]

lemma copy_of_other {i j : ℕ} {copy : D} (hcopy : s.copy i = some copy) (hne : j ≠ i) : s.copy j = none := by
  rw [Option.eq_none_iff_forall_ne_some]
  intro other hother
  have hboth := (copy_eq_some.mp hcopy).symm.trans (copy_eq_some.mp hother)
  cases hboth
  exact hne rfl

end Copies

section Steps

lemma Kept.arrive (hrules : Rules client I outside inside) (h : Kept I outside inside s)
    (request : Request) :
    Kept I outside inside { s with calls := s.calls ++ [client.start request] } where
  committed := h.committed
  running i copy hcopy := by
    have := h.running i copy hcopy
    rw [List.length_append]
    exact Nat.lt_add_right _ this
  outside i call hcall hcopy := by
    rcases Nat.lt_or_ge i s.calls.length with hi | hi
    · rw [List.getElem?_append_left hi] at hcall
      exact h.outside i call hcall hcopy
    · rw [List.getElem?_append_right hi] at hcall
      have hnew : call = client.start request := by
        have hmem := List.mem_of_getElem? hcall
        simpa using hmem
      rw [hnew]
      exact hrules.start _ _ h.committed
  inside i call copy hcall hcopy := by
    rw [List.getElem?_append_left (h.running i copy hcopy)] at hcall
    exact h.inside i call copy hcall hcopy

/-- A call that stays outside, with nothing else changed. -/
lemma Kept.setOutside (h : Kept I outside inside s) {i : ℕ} {next : C} (hcopy : s.copy i = none)
    (hnext : outside s.committed next) : Kept I outside inside { s with calls := s.calls.set i next } where
  committed := h.committed
  running j copy hj := by
    rw [List.length_set]
    exact h.running j copy hj
  outside j call hcall hj := by
    rw [List.getElem?_set] at hcall
    split_ifs at hcall with hij
    · cases hcall
      exact hnext
    · exact h.outside j call hcall hj
  inside j call copy hcall hj := by
    have hne : i ≠ j := by
      rintro rfl
      have hboth := hcopy.symm.trans hj
      cases hboth
    rw [List.getElem?_set_ne hne] at hcall
    exact h.inside j call copy hcall hj

/-- A call whose transaction goes on with a copy; nobody else is in one. -/
lemma Kept.setInside (h : Kept I outside inside s) {i : ℕ} {next : C} {copy : D}
    (hlength : i < s.calls.length) (halone : ∀ j, j ≠ i → s.copy j = none)
    (hnext : inside s.committed copy next) :
    Kept I outside inside ⟨s.committed, some (i, copy), s.calls.set i next⟩ where
  committed := h.committed
  running j copy' hj := by
    have hwriter := copy_eq_some.mp hj
    cases hwriter
    rw [List.length_set]
    exact hlength
  outside j call hcall hj := by
    have hne : i ≠ j := by
      rintro rfl
      have hwriter : (⟨s.committed, some (i, copy), s.calls.set i next⟩ : State D C).copy i = some copy :=
        copy_eq_some.mpr rfl
      rw [hj] at hwriter
      cases hwriter
    rw [List.getElem?_set_ne hne] at hcall
    exact h.outside j call hcall (halone j hne.symm)
  inside j call copy' hcall hj := by
    have hwriter := copy_eq_some.mp hj
    cases hwriter
    rw [List.getElem?_set_self hlength] at hcall
    cases hcall
    exact hnext

/-- A transaction ends: the copy, or what was there before, is the database that everyone sees. -/
lemma Kept.close (h : Kept I outside inside s) {i : ℕ} {next : C} {d : D}
    (halone : ∀ j, j ≠ i → s.copy j = none) (hd : I d) (hnext : outside d next)
    (hothers : ∀ other, outside s.committed other → outside d other) :
    Kept I outside inside ⟨d, none, s.calls.set i next⟩ where
  committed := hd
  running j copy hj := by
    have hwriter := copy_eq_some.mp hj
    cases hwriter
  outside j call hcall _ := by
    by_cases hij : i = j
    · rw [List.getElem?_set] at hcall
      rw [if_pos hij] at hcall
      split_ifs at hcall
      cases hcall
      exact hnext
    · rw [List.getElem?_set_ne hij] at hcall
      exact hothers call (h.outside j call hcall (halone j (Ne.symm hij)))
  inside j call copy _ hj := by
    have hwriter := copy_eq_some.mp hj
    cases hwriter

lemma Kept.rollback (h : Kept I outside inside s) {i : ℕ} {next : C} (hnext : outside s.committed next) :
    Kept I outside inside (s.rollback i next) := by
  unfold State.rollback
  cases hcopy : s.copy i with
  | none => exact h.setOutside hcopy hnext
  | some copy =>
    have halone : ∀ j, j ≠ i → s.copy j = none := fun j hj => copy_of_other hcopy hj
    exact h.close halone h.committed hnext fun other hother => hother

lemma Kept.execute (hrules : Rules client I outside inside) (h : Kept I outside inside s) {i : ℕ}
    {call : C} (hcall : s.calls[i]? = some call) (answer : Answer) :
    Kept I outside inside (s.execute i client.failed (client.statement answer call)) := by
  have hlength : i < s.calls.length := (List.getElem?_eq_some_iff.mp hcall).1
  cases hstatement : client.statement answer call with
  | select next =>
    unfold State.execute
    dsimp only
    cases hcopy : s.copy i with
    | none =>
      apply h.setOutside hcopy
      exact hrules.select_outside _ _ _ _ h.committed (h.outside i call hcall hcopy) hstatement
    | some copy =>
      have hwriter := copy_eq_some.mp hcopy
      have hinside := h.inside i call copy hcall hcopy
      have hnext := hrules.select_inside _ _ _ _ _ h.committed hinside hstatement
      have hset := h.setInside hlength (fun j hj => copy_of_other hcopy hj) hnext
      rw [← hwriter] at hset
      exact hset
  | write f next =>
    unfold State.execute
    dsimp only
    split_ifs with hwait
    · exact h
    · cases hcopy : s.copy i with
      | none =>
        have hidle : s.writer = none := by
          rw [← Option.not_isSome_iff_eq_none]
          exact fun hwriter => hwait ⟨hwriter, hcopy⟩
        have halone : ∀ j, j ≠ i → s.copy j = none := by
          intro j _
          unfold State.copy
          rw [hidle]
        split
        · next copy hf =>
          apply h.setInside hlength halone
          exact hrules.write_outside _ _ _ _ _ _ h.committed (h.outside i call hcall hcopy) hstatement hf
        · exact h.rollback (hrules.failed _)
      | some copy =>
        split
        · next copy' hf =>
          apply h.setInside hlength fun j hj => copy_of_other hcopy hj
          exact hrules.write_inside _ _ _ _ _ _ _ h.committed (h.inside i call copy hcall hcopy)
            hstatement hf
        · exact h.rollback (hrules.failed _)
  | commit next =>
    unfold State.execute
    dsimp only
    split
    · next copy hcopy =>
      obtain ⟨hI, hnext, hothers⟩ := hrules.commit_inside _ _ _ _ _ h.committed
        (h.inside i call copy hcall hcopy) hstatement
      exact h.close (fun j hj => copy_of_other hcopy hj) hI hnext hothers
    · next hcopy =>
      apply h.setOutside hcopy
      exact hrules.commit_outside _ _ _ _ h.committed (h.outside i call hcall hcopy) hstatement
  | finished => exact h

lemma Kept.step (hrules : Rules client I outside inside) (h : Kept I outside inside s)
    (e : Event Request Answer) : Kept I outside inside (step client s e) := by
  cases e with
  | arrive request => exact h.arrive hrules request
  | advance i answer =>
    unfold SingleWriter.step
    dsimp only
    split
    · next call hcall => exact h.execute hrules hcall answer
    · exact h
  | fail i answer =>
    unfold SingleWriter.step
    dsimp only
    split
    · unfold State.raise
      split
      · exact h
      · exact h.rollback (hrules.failed _)
    · exact h

lemma kept_start (d : D) (hd : I d) : Kept I outside inside (⟨d, none, []⟩ : State D C) where
  committed := hd
  running i copy hcopy := by
    have hwriter := copy_eq_some.mp hcopy
    cases hwriter
  outside i call hcall := by simp at hcall
  inside i call copy hcall := by simp at hcall

/-- What the rules keep holds after every run. -/
theorem Kept.run (hrules : Rules client I outside inside) (h : Kept I outside inside s)
    (events : List (Event Request Answer)) :
    Kept I outside inside (Transitions.run (SingleWriter.step client) s events) :=
  Transitions.run_invariant (fun _ e hs _ => hs.step hrules e) h (Transitions.along_true s events)

end Steps

section Commits

variable (client)

/-- Every commit of a transaction is one that is permitted of the database it replaces. -/
def Allowed (permits : D → C → Prop) (s : State D C) : Event Request Answer → Prop
  | .advance i answer =>
    ∀ call copy next, s.calls[i]? = some call → s.copy i = some copy →
      client.statement answer call = .commit next → permits s.committed call
  | _ => True

variable {client}

/-- Only a commit changes the database. -/
lemma committed_step (e : Event Request Answer) : (step client s e).committed = s.committed ∨
    ∃ i answer call copy next, e = .advance i answer ∧ s.calls[i]? = some call ∧ s.copy i = some copy ∧
      client.statement answer call = .commit next ∧ (step client s e).committed = copy := by
  cases e with
  | arrive request => exact Or.inl rfl
  | fail i answer =>
    left
    unfold step
    dsimp only
    split
    · unfold State.raise
      split <;> rfl
    · rfl
  | advance i answer =>
    unfold step
    dsimp only
    split
    · next call hcall =>
      cases hstatement : client.statement answer call with
      | select next => exact Or.inl rfl
      | write f next =>
        left
        unfold State.execute
        dsimp only
        split_ifs
        · rfl
        · split <;> rfl
      | commit next =>
        unfold State.execute
        dsimp only
        split
        · next copy hcopy => exact Or.inr ⟨i, answer, call, copy, next, rfl, hcall, hcopy, hstatement, rfl⟩
        · exact Or.inl rfl
      | finished => exact Or.inl rfl
    · exact Or.inl rfl

/-- Where a commit keeps a property of the database if and only if it is permitted, the runs that keep the
property all along are the runs of permitted commits. -/
theorem along_allowed_iff (hrules : Rules client I outside inside) {Good : D → Prop}
    {permits : D → C → Prop}
    (hcommit : ∀ d copy call answer next, I d → inside d copy call →
      client.statement answer call = .commit next → Good d → (Good copy ↔ permits d call))
    {d : D} (hd : I d) (hgood : Good d) (events : List (Event Request Answer)) :
    Transitions.Along (step client) (Allowed client permits) ⟨d, none, []⟩ events ↔
      ∀ reached, reached <+: events →
        Good (Transitions.run (step client) ⟨d, none, []⟩ reached).committed := by
  have hstep : ∀ (s : State D C) (e : Event Request Answer),
      (Kept I outside inside s ∧ Good s.committed) →
      ((Kept I outside inside (step client s e) ∧ Good (step client s e).committed) ↔
        Allowed client permits s e) := by
    rintro s e ⟨hkept, hgood⟩
    constructor
    · rintro ⟨-, hnext⟩
      cases e with
      | advance i answer =>
        intro call copy next hcall hcopy hstatement
        refine (hcommit _ _ _ _ _ hkept.committed (hkept.inside i call copy hcall hcopy) hstatement
          hgood).mp ?_
        unfold step at hnext
        dsimp only at hnext
        rw [hcall] at hnext
        dsimp only at hnext
        rw [hstatement] at hnext
        unfold State.execute at hnext
        dsimp only at hnext
        rw [hcopy] at hnext
        exact hnext
      | arrive request => trivial
      | fail i answer => trivial
    · intro hallowed
      refine ⟨hkept.step hrules e, ?_⟩
      rcases @committed_step _ _ _ _ client s e with
        hsame | ⟨i, answer, call, copy, next, rfl, hcall, hcopy, hstatement, hcommitted⟩
      · rw [hsame]
        exact hgood
      · rw [hcommitted]
        apply (hcommit _ _ _ _ _ hkept.committed (hkept.inside i call copy hcall hcopy) hstatement
          hgood).mpr
        exact hallowed call copy next hcall hcopy hstatement
  have hruns := Transitions.along_iff (P := fun s => Kept I outside inside s ∧ Good s.committed) hstep
    (s := ⟨d, none, []⟩) ⟨kept_start d hd, hgood⟩ events
  rw [hruns]
  constructor
  · exact fun h reached hreached => (h reached hreached).2
  · exact fun h reached hreached => ⟨(kept_start d hd).run hrules reached, h reached hreached⟩

end Commits

end SingleWriter
