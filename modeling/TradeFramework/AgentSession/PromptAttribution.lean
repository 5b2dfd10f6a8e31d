import Mathlib.Data.List.Basic
import TradeFramework.Library.Transitions

/-!
# Attribution of results to prompts

One Claude session answers the prompts it accepted in order. The coordinator attributes a result by
position: it numbers the prompts it sends and takes the oldest pending number for each result. What
awaits in the source is split here, so that other events can come between.
-/

namespace TradeFramework.PromptAttribution

inductive EntryKind
  | result
  | interrupted
deriving DecidableEq

/-- An entry that ends a prompt. -/
structure Entry where
  kind : EntryKind
  isError : Bool

/-- An active turn; `claudePromptSeq` is missing in turns that a background wake-up resumed. -/
structure ActiveTurn where
  turn : ℕ
  claudePromptSeq : Option ℕ
  cancelRequested : Bool
deriving DecidableEq

/-- A prompt in the runtime, with the turn that sent it and the number it was sent under. -/
structure Prompt where
  turn : ℕ
  seq : ℕ
deriving DecidableEq

/-- The session with what the coordinator keeps about its chat. `starting` and `resuming` count the
turns that passed their check and are not active yet, `cancelling` and `refused` hold the turns whose
cancel or failed delivery is under way. The last three fields are about the runtime and the past:
the accepted prompts without an entry, the turns whose prompt has its entry, the turns somebody
cancelled. -/
structure Session where
  nextPromptSeq : ℕ
  pendingPromptSeqs : List ℕ
  cancelledPromptSeqs : List ℕ
  suppressResume : Bool
  active : Option ActiveTurn
  nextTurn : ℕ
  starting : ℕ
  resuming : ℕ
  cancelling : List ℕ
  refused : List ℕ
  unanswered : List Prompt
  answered : List ℕ
  cancelled : List ℕ

/-- A steer is a cancel and the start of a turn. -/
inductive Event
  | startBegins
  | startFails
  | promptSent (accepted : Bool)
  | deliveryFails (turn : ℕ)
  | cancelBegins
  | cancelEnds (turn : ℕ)
  | activity
  | resumeBackgroundTurn
  | promptEntry (entry : Entry)
  | wakeupEntry (entry : Entry)

namespace Session

def initial : Session := ⟨0, [], [], false, none, 0, 0, 0, [], [], [], [], []⟩

/-- `startTurnForChat` with its turn recorded: the turn becomes active and its number pending before
the prompt is delivered. -/
def sendPrompt (s : Session) (accepted : Bool) : Session :=
  let promptSeq := s.nextPromptSeq + 1
  { s with
    nextPromptSeq := promptSeq
    pendingPromptSeqs := s.pendingPromptSeqs ++ [promptSeq]
    suppressResume := false
    active := some ⟨s.nextTurn, some promptSeq, false⟩
    nextTurn := s.nextTurn + 1
    starting := s.starting - 1
    unanswered := if accepted then s.unanswered ++ [⟨s.nextTurn, promptSeq⟩] else s.unanswered
    refused := if accepted then s.refused else s.nextTurn :: s.refused }

/-- The handler of a failed delivery. -/
def deliveryFails (s : Session) (turn : ℕ) : Session :=
  { s with
    refused := s.refused.erase turn
    active := s.active.filter fun active => active.turn ≠ turn }

/-- `cancel`, up to its first write. -/
def beginCancel (s : Session) (active : ActiveTurn) : Session :=
  { s with
    active := some { active with cancelRequested := true }
    suppressResume := true
    cancelledPromptSeqs := active.claudePromptSeq.toList ++ s.cancelledPromptSeqs
    cancelling := active.turn :: s.cancelling
    cancelled := active.turn :: s.cancelled }

/-- The rest of `cancel` makes the chat idle. -/
def endCancel (s : Session) (turn : ℕ) : Session :=
  { s with
    cancelling := s.cancelling.erase turn
    active := none }

/-- `resumeBackgroundTurn`. -/
def resumeBackgroundTurn (s : Session) : Session :=
  { s with
    active := some ⟨s.nextTurn, none, false⟩
    nextTurn := s.nextTurn + 1
    resuming := s.resuming - 1 }

/-- The turn an entry closes: the active one, if the oldest pending number is its own. -/
def closedBy (s : Session) (entry : Entry) : Option ActiveTurn :=
  s.active.filter fun active =>
    entry.kind = .result && s.pendingPromptSeqs.head? = active.claudePromptSeq

/-- The error result of a cancelled prompt is not appended to the transcript. -/
def drops (s : Session) (entry : Entry) : Bool :=
  entry.kind = .result && entry.isError &&
    s.pendingPromptSeqs.head?.any fun seq => s.cancelledPromptSeqs.contains seq

/-- One turn of the loop of `runClaudeSession`. -/
def takeEntry (s : Session) (entry : Entry) : Session :=
  { s with
    suppressResume := false
    pendingPromptSeqs := s.pendingPromptSeqs.tail
    cancelledPromptSeqs := s.cancelledPromptSeqs.filter fun seq =>
      s.pendingPromptSeqs.head? ≠ some seq
    active := if (s.closedBy entry).isSome then none else s.active }

def step (s : Session) : Event → Session
  | .startBegins => if s.active.isSome then s else { s with starting := s.starting + 1 }
  | .startFails => { s with starting := s.starting - 1 }
  | .promptSent accepted => if s.starting = 0 then s else s.sendPrompt accepted
  | .deliveryFails turn => if turn ∈ s.refused then s.deliveryFails turn else s
  | .cancelBegins =>
    match s.active with
    | none => s
    | some active => if active.cancelRequested then s else s.beginCancel active
  | .cancelEnds turn => if turn ∈ s.cancelling then s.endCancel turn else s
  | .activity =>
    if s.active.isSome || s.suppressResume then s else { s with resuming := s.resuming + 1 }
  | .resumeBackgroundTurn => if s.resuming = 0 then s else s.resumeBackgroundTurn
  | .promptEntry entry =>
    match s.unanswered with
    | [] => s
    | prompt :: rest =>
      { s.takeEntry entry with
        unanswered := rest
        answered := prompt.turn :: s.answered }
  | .wakeupEntry entry => s.takeEntry entry

/-- The entry of a prompt closes the turn that sent it, or no turn if somebody cancelled that turn;
the entry of a wake-up closes no turn that sent a prompt. -/
def Attributes (s : Session) : Event → Prop
  | .promptEntry entry => ∀ prompt ∈ s.unanswered.head?,
    (s.closedBy entry).map ActiveTurn.turn = some prompt.turn ∨
      (s.closedBy entry = none ∧ prompt.turn ∈ s.cancelled)
  | .wakeupEntry entry => ∀ active ∈ s.closedBy entry, active.claudePromptSeq = none
  | _ => True

/-- A turn whose prompt has its entry is open only while its cancel is under way. -/
def Settled (s : Session) : Prop :=
  ∀ active ∈ s.active, active.turn ∈ s.answered → active.turn ∈ s.cancelling

/-- A prompt is accepted only while no number of a refused one is pending, an interrupted entry is
about a cancelled turn, a wake-up ends while no number is pending, and no turn takes the place of
another: a turn becomes active in an idle chat, and a cancel ends while its own turn is active or
none is. -/
def Allowed (s : Session) : Event → Prop
  | .promptSent accepted => s.starting ≠ 0 → s.active = none ∧
    (accepted = true → s.pendingPromptSeqs.length = s.unanswered.length)
  | .cancelEnds turn => turn ∈ s.cancelling → ∀ active ∈ s.active, active.turn = turn
  | .resumeBackgroundTurn => s.resuming ≠ 0 → s.active = none
  | .promptEntry entry => entry.kind = .interrupted →
    ∀ prompt ∈ s.unanswered.head?, prompt.turn ∈ s.cancelled
  | .wakeupEntry _ => s.pendingPromptSeqs = []
  | _ => True

/-- The pending numbers are those of the prompts without an entry, in order, and then those of
refused ones; a prompt without an entry was sent by the active turn or by a cancelled one. -/
structure Sound (s : Session) : Prop where
  aligned : ∃ strays, s.pendingPromptSeqs = s.unanswered.map Prompt.seq ++ strays
  sorted : s.pendingPromptSeqs.Pairwise (· < ·)
  bounded : ∀ seq ∈ s.pendingPromptSeqs, seq ≤ s.nextPromptSeq
  sender : ∀ prompt ∈ s.unanswered,
    prompt.turn ∈ s.cancelled ∨ ∃ active ∈ s.active, active.turn = prompt.turn
  sent : ∀ active ∈ s.active, ∀ prompt ∈ s.unanswered,
    active.claudePromptSeq = some prompt.seq ↔ active.turn = prompt.turn
  settled : s.Settled
  cancels : ∀ active ∈ s.active, active.turn ∈ s.cancelled → active.turn ∈ s.cancelling
  requested : ∀ turn ∈ s.cancelling, turn ∈ s.cancelled
  delivered : ∀ prompt ∈ s.unanswered, prompt.turn ∉ s.refused
  activeTurn : ∀ active ∈ s.active, active.turn < s.nextTurn
  promptTurn : ∀ prompt ∈ s.unanswered, prompt.turn < s.nextTurn
  refusedTurn : ∀ turn ∈ s.refused, turn < s.nextTurn
  answeredTurn : ∀ turn ∈ s.answered, turn < s.nextTurn
  cancelledTurn : ∀ turn ∈ s.cancelled, turn < s.nextTurn
  activeSeq : ∀ active ∈ s.active, ∀ seq ∈ active.claudePromptSeq, seq ≤ s.nextPromptSeq
  cancelledSeq : ∀ seq ∈ s.cancelledPromptSeqs, seq ≤ s.nextPromptSeq
  marked : ∀ prompt ∈ s.unanswered,
    prompt.seq ∈ s.cancelledPromptSeqs ↔ prompt.turn ∈ s.cancelled

lemma sound_initial : initial.Sound where
  aligned := ⟨[], rfl⟩
  sorted := List.Pairwise.nil
  bounded := fun _ h => absurd h List.not_mem_nil
  sender := fun _ h => absurd h List.not_mem_nil
  sent := fun _ h => nomatch h
  settled := fun _ h => nomatch h
  cancels := fun _ h => nomatch h
  requested := fun _ h => absurd h List.not_mem_nil
  delivered := fun _ h => absurd h List.not_mem_nil
  activeTurn := fun _ h => nomatch h
  promptTurn := fun _ h => absurd h List.not_mem_nil
  refusedTurn := fun _ h => absurd h List.not_mem_nil
  answeredTurn := fun _ h => absurd h List.not_mem_nil
  cancelledTurn := fun _ h => absurd h List.not_mem_nil
  activeSeq := fun _ h => nomatch h
  cancelledSeq := fun _ h => absurd h List.not_mem_nil
  marked := fun _ h => absurd h List.not_mem_nil

/-- The numbers of the prompts without an entry are pending. -/
lemma Sound.mem_pending {s : Session} (h : s.Sound) {prompt : Prompt} (hprompt : prompt ∈ s.unanswered) :
    prompt.seq ∈ s.pendingPromptSeqs := by
  obtain ⟨strays, hstrays⟩ := h.aligned
  rw [hstrays]
  exact List.mem_append_left _ (List.mem_map_of_mem hprompt)

/-- In an idle chat every prompt without an entry was cancelled. -/
lemma Sound.cancelled_of_idle {s : Session} (h : s.Sound) (hidle : s.active = none) {prompt : Prompt}
    (hprompt : prompt ∈ s.unanswered) : prompt.turn ∈ s.cancelled := by
  rcases h.sender prompt hprompt with hcancelled | ⟨active, hactive, -⟩
  · exact hcancelled
  · rw [hidle] at hactive
    cases hactive

lemma Sound.sendPrompt {s : Session} (h : s.Sound) {accepted : Bool} (hidle : s.active = none)
    (hlength : accepted = true → s.pendingPromptSeqs.length = s.unanswered.length) :
    (s.sendPrompt accepted).Sound := by
  have hnew (prompt : Prompt) (hprompt : prompt ∈ s.unanswered) : s.nextTurn ≠ prompt.turn := by
    have := h.promptTurn prompt hprompt
    omega
  have hseq (prompt : Prompt) (hprompt : prompt ∈ s.unanswered) : s.nextPromptSeq + 1 ≠ prompt.seq := by
    have := h.bounded prompt.seq (h.mem_pending hprompt)
    omega
  have hmem (prompt : Prompt) (hprompt : prompt ∈ (s.sendPrompt accepted).unanswered) :
      prompt ∈ s.unanswered ∨ (accepted = true ∧ prompt = ⟨s.nextTurn, s.nextPromptSeq + 1⟩) := by
    cases accepted with
    | false => exact .inl hprompt
    | true =>
      rcases List.mem_append.mp hprompt with hold | hlast
      · exact .inl hold
      · exact .inr ⟨rfl, List.mem_singleton.mp hlast⟩
  have hrefused (turn : ℕ) (hturn : turn ∈ (s.sendPrompt accepted).refused) :
      turn ∈ s.refused ∨ (accepted = false ∧ turn = s.nextTurn) := by
    cases accepted with
    | true => exact .inl hturn
    | false =>
      rcases List.mem_cons.mp hturn with hhead | hold
      · exact .inr ⟨rfl, hhead⟩
      · exact .inl hold
  constructor
  · obtain ⟨strays, hstrays⟩ := h.aligned
    cases accepted with
    | false =>
      refine ⟨strays ++ [s.nextPromptSeq + 1], ?_⟩
      change s.pendingPromptSeqs ++ [s.nextPromptSeq + 1] = _
      rw [hstrays, List.append_assoc]
      rfl
    | true =>
      have hnone : strays = [] := by
        have hboth := hlength rfl
        rw [hstrays, List.length_append, List.length_map] at hboth
        apply List.eq_nil_of_length_eq_zero
        omega
      refine ⟨[], ?_⟩
      change s.pendingPromptSeqs ++ [s.nextPromptSeq + 1] =
        List.map Prompt.seq (s.unanswered ++ [⟨s.nextTurn, s.nextPromptSeq + 1⟩]) ++ []
      rw [hstrays, hnone, List.append_nil, List.append_nil, List.map_append]
      rfl
  · apply List.pairwise_append.mpr
    refine ⟨h.sorted, List.pairwise_singleton _ _, ?_⟩
    intro seq hpending last hlast
    have hle := h.bounded seq hpending
    rw [List.mem_singleton] at hlast
    omega
  · intro seq hpending
    change seq ≤ s.nextPromptSeq + 1
    rcases List.mem_append.mp hpending with hold | hlast
    · have hle := h.bounded seq hold
      omega
    · rw [List.mem_singleton] at hlast
      omega
  · intro prompt hprompt
    rcases hmem prompt hprompt with hold | ⟨-, rfl⟩
    · exact .inl (h.cancelled_of_idle hidle hold)
    · exact .inr ⟨_, rfl, rfl⟩
  · intro active hactive prompt hprompt
    cases hactive
    rcases hmem prompt hprompt with hold | ⟨-, rfl⟩
    · dsimp only
      rw [Option.some.injEq]
      exact iff_of_false (hseq prompt hold) (hnew prompt hold)
    · exact iff_of_true rfl rfl
  · intro active hactive hanswered
    cases hactive
    exact absurd (h.answeredTurn _ hanswered) (Nat.lt_irrefl _)
  · intro active hactive hcancelled
    cases hactive
    exact absurd (h.cancelledTurn _ hcancelled) (Nat.lt_irrefl _)
  · exact h.requested
  · intro prompt hprompt hturn
    rcases hmem prompt hprompt with hold | ⟨haccepted, rfl⟩
    · rcases hrefused _ hturn with hbefore | ⟨-, hsame⟩
      · exact h.delivered prompt hold hbefore
      · exact hnew prompt hold hsame.symm
    · rcases hrefused _ hturn with hbefore | ⟨hnot, -⟩
      · exact absurd (h.refusedTurn _ hbefore) (Nat.lt_irrefl _)
      · rw [haccepted] at hnot
        cases hnot
  · intro active hactive
    cases hactive
    exact Nat.lt_succ_self _
  · intro prompt hprompt
    rcases hmem prompt hprompt with hold | ⟨-, rfl⟩
    · exact Nat.lt_succ_of_lt (h.promptTurn prompt hold)
    · exact Nat.lt_succ_self _
  · intro turn hturn
    rcases hrefused turn hturn with hold | ⟨-, rfl⟩
    · exact Nat.lt_succ_of_lt (h.refusedTurn turn hold)
    · exact Nat.lt_succ_self _
  · intro turn hturn
    exact Nat.lt_succ_of_lt (h.answeredTurn turn hturn)
  · intro turn hturn
    exact Nat.lt_succ_of_lt (h.cancelledTurn turn hturn)
  · intro active hactive seq hown
    cases hactive
    cases hown
    exact Nat.le_refl _
  · intro seq hcancelled
    exact Nat.le_succ_of_le (h.cancelledSeq seq hcancelled)
  · intro prompt hprompt
    rcases hmem prompt hprompt with hold | ⟨-, rfl⟩
    · exact h.marked prompt hold
    · constructor
      · intro hseqs
        exact absurd (h.cancelledSeq _ hseqs) (by dsimp only; omega)
      · intro hturns
        exact absurd (h.cancelledTurn _ hturns) (Nat.lt_irrefl _)

lemma Sound.deliveryFails {s : Session} (h : s.Sound) {turn : ℕ} (hturn : turn ∈ s.refused) :
    (s.deliveryFails turn).Sound := by
  have hkept (active : ActiveTurn) (hactive : active ∈ (s.deliveryFails turn).active) :
      active ∈ s.active := (Option.mem_filter_iff.mp hactive).1
  exact {
    aligned := h.aligned
    sorted := h.sorted
    bounded := h.bounded
    sender := by
      intro prompt hprompt
      rcases h.sender prompt hprompt with hcancelled | ⟨active, hactive, hsame⟩
      · exact .inl hcancelled
      · have hother : active.turn ≠ turn := by
          rintro rfl
          rw [hsame] at hturn
          exact h.delivered prompt hprompt hturn
        exact .inr ⟨active, Option.mem_filter_iff.mpr ⟨hactive, by simpa using hother⟩, hsame⟩
    sent := fun active hactive => h.sent active (hkept active hactive)
    settled := fun active hactive => h.settled active (hkept active hactive)
    cancels := fun active hactive => h.cancels active (hkept active hactive)
    requested := h.requested
    delivered := fun prompt hprompt hmem => h.delivered prompt hprompt (List.mem_of_mem_erase hmem)
    activeTurn := fun active hactive => h.activeTurn active (hkept active hactive)
    promptTurn := h.promptTurn
    refusedTurn := fun other hother => h.refusedTurn other (List.mem_of_mem_erase hother)
    answeredTurn := h.answeredTurn
    cancelledTurn := h.cancelledTurn
    activeSeq := fun active hactive => h.activeSeq active (hkept active hactive)
    cancelledSeq := h.cancelledSeq
    marked := h.marked }

lemma Sound.beginCancel {s : Session} (h : s.Sound) {active : ActiveTurn}
    (hactive : active ∈ s.active) : (s.beginCancel active).Sound where
  aligned := h.aligned
  sorted := h.sorted
  bounded := h.bounded
  sender := by
    intro prompt hprompt
    rcases h.sender prompt hprompt with hcancelled | ⟨other, hother, hsame⟩
    · exact .inl (List.mem_cons_of_mem _ hcancelled)
    · rw [Option.mem_unique hother hactive] at hsame
      rw [← hsame]
      exact .inl List.mem_cons_self
  sent := by
    intro other hother
    cases hother
    exact h.sent active hactive
  settled := by
    intro other hother _
    cases hother
    exact List.mem_cons_self
  cancels := by
    intro other hother _
    cases hother
    exact List.mem_cons_self
  requested := by
    intro turn hturn
    rcases List.mem_cons.mp hturn with rfl | hold
    · exact List.mem_cons_self
    · exact List.mem_cons_of_mem _ (h.requested turn hold)
  delivered := h.delivered
  activeTurn := by
    intro other hother
    cases hother
    exact h.activeTurn active hactive
  promptTurn := h.promptTurn
  refusedTurn := h.refusedTurn
  answeredTurn := h.answeredTurn
  cancelledTurn := by
    intro turn hturn
    rcases List.mem_cons.mp hturn with rfl | hold
    · exact h.activeTurn active hactive
    · exact h.cancelledTurn turn hold
  activeSeq := by
    intro other hother
    cases hother
    exact h.activeSeq active hactive
  cancelledSeq := by
    intro seq hseq
    rcases List.mem_append.mp hseq with hown | hold
    · exact h.activeSeq active hactive seq (Option.mem_toList.mp hown)
    · exact h.cancelledSeq seq hold
  marked := by
    intro prompt hprompt
    change prompt.seq ∈ active.claudePromptSeq.toList ++ s.cancelledPromptSeqs ↔
      prompt.turn ∈ active.turn :: s.cancelled
    rw [List.mem_append, List.mem_cons, Option.mem_toList, h.marked prompt hprompt,
      h.sent active hactive prompt hprompt]
    constructor
    · rintro (hsame | hold)
      · exact .inl hsame.symm
      · exact .inr hold
    · rintro (hsame | hold)
      · exact .inl hsame.symm
      · exact .inr hold

lemma Sound.endCancel {s : Session} (h : s.Sound) {turn : ℕ} (hturn : turn ∈ s.cancelling)
    (hown : ∀ active ∈ s.active, active.turn = turn) : (s.endCancel turn).Sound where
  aligned := h.aligned
  sorted := h.sorted
  bounded := h.bounded
  sender := by
    intro prompt hprompt
    rcases h.sender prompt hprompt with hcancelled | ⟨active, hactive, hsame⟩
    · exact .inl hcancelled
    · rw [← hsame, hown active hactive]
      exact .inl (h.requested turn hturn)
  sent := fun _ hactive => nomatch hactive
  settled := fun _ hactive => nomatch hactive
  cancels := fun _ hactive => nomatch hactive
  requested := fun other hother => h.requested other (List.mem_of_mem_erase hother)
  delivered := h.delivered
  activeTurn := fun _ hactive => nomatch hactive
  promptTurn := h.promptTurn
  refusedTurn := h.refusedTurn
  answeredTurn := h.answeredTurn
  cancelledTurn := h.cancelledTurn
  activeSeq := fun _ hactive => nomatch hactive
  cancelledSeq := h.cancelledSeq
  marked := h.marked

lemma Sound.resumeBackgroundTurn {s : Session} (h : s.Sound) (hidle : s.active = none) :
    s.resumeBackgroundTurn.Sound where
  aligned := h.aligned
  sorted := h.sorted
  bounded := h.bounded
  sender := fun _ hprompt => .inl (h.cancelled_of_idle hidle hprompt)
  sent := by
    intro active hactive prompt hprompt
    cases hactive
    have hlt := h.promptTurn prompt hprompt
    refine iff_of_false (fun hnone => nomatch hnone) ?_
    dsimp only
    omega
  settled := by
    intro active hactive hanswered
    cases hactive
    exact absurd (h.answeredTurn _ hanswered) (Nat.lt_irrefl _)
  cancels := by
    intro active hactive hcancelled
    cases hactive
    exact absurd (h.cancelledTurn _ hcancelled) (Nat.lt_irrefl _)
  requested := h.requested
  delivered := h.delivered
  activeTurn := by
    intro active hactive
    cases hactive
    exact Nat.lt_succ_self _
  promptTurn := fun prompt hprompt => Nat.lt_succ_of_lt (h.promptTurn prompt hprompt)
  refusedTurn := fun turn hturn => Nat.lt_succ_of_lt (h.refusedTurn turn hturn)
  answeredTurn := fun turn hturn => Nat.lt_succ_of_lt (h.answeredTurn turn hturn)
  cancelledTurn := fun turn hturn => Nat.lt_succ_of_lt (h.cancelledTurn turn hturn)
  activeSeq := by
    intro active hactive seq hown
    cases hactive
    cases hown
  cancelledSeq := h.cancelledSeq
  marked := h.marked

/-- The oldest pending number is that of the oldest prompt without an entry. -/
lemma Sound.pending_cons {s : Session} (h : s.Sound) {prompt : Prompt} {rest : List Prompt}
    (hunanswered : s.unanswered = prompt :: rest) :
    ∃ strays, s.pendingPromptSeqs = prompt.seq :: (rest.map Prompt.seq ++ strays) := by
  obtain ⟨strays, hstrays⟩ := h.aligned
  rw [hunanswered] at hstrays
  exact ⟨strays, hstrays⟩

lemma mem_closedBy {s : Session} {entry : Entry} {active : ActiveTurn} :
    active ∈ s.closedBy entry ↔ active ∈ s.active ∧ entry.kind = .result ∧
      s.pendingPromptSeqs.head? = active.claudePromptSeq := by
  unfold closedBy
  rw [Option.mem_filter_iff]
  simp

/-- A turn that is active after an entry was active before, and the entry closed none. -/
lemma mem_active_takeEntry {s : Session} {entry : Entry} {active : ActiveTurn}
    (h : active ∈ (s.takeEntry entry).active) : active ∈ s.active ∧ s.closedBy entry = none := by
  unfold takeEntry at h
  dsimp only at h
  split_ifs at h with hclosed
  · cases h
  · exact ⟨h, by simpa using hclosed⟩

lemma Sound.attributes_promptEntry {s : Session} (h : s.Sound) {entry : Entry} {prompt : Prompt}
    {rest : List Prompt} (hunanswered : s.unanswered = prompt :: rest)
    (hinterrupted : entry.kind = .interrupted → prompt.turn ∈ s.cancelled) :
    (s.closedBy entry).map ActiveTurn.turn = some prompt.turn ∨
      (s.closedBy entry = none ∧ prompt.turn ∈ s.cancelled) := by
  obtain ⟨strays, hpending⟩ := h.pending_cons hunanswered
  have hprompt : prompt ∈ s.unanswered := by
    rw [hunanswered]
    exact List.mem_cons_self
  cases hclosed : s.closedBy entry with
  | some active =>
    obtain ⟨hactive, -, hhead⟩ := mem_closedBy.mp hclosed
    rw [hpending, List.head?_cons] at hhead
    left
    rw [Option.map_some, (h.sent active hactive prompt hprompt).mp hhead.symm]
  | none =>
    refine .inr ⟨rfl, ?_⟩
    rcases h.sender prompt hprompt with hcancelled | ⟨active, hactive, hsame⟩
    · exact hcancelled
    · cases hkind : entry.kind with
      | interrupted => exact hinterrupted hkind
      | result =>
        have hown := (h.sent active hactive prompt hprompt).mpr hsame
        have hmem : active ∈ s.closedBy entry := by
          apply mem_closedBy.mpr
          rw [hpending, List.head?_cons, hown]
          exact ⟨hactive, hkind, rfl⟩
        rw [hclosed] at hmem
        cases hmem

lemma Sound.promptEntry {s : Session} (h : s.Sound) {entry : Entry} {prompt : Prompt}
    {rest : List Prompt} (hunanswered : s.unanswered = prompt :: rest)
    (hinterrupted : entry.kind = .interrupted → prompt.turn ∈ s.cancelled) :
    Sound { s.takeEntry entry with
      unanswered := rest
      answered := prompt.turn :: s.answered } := by
  obtain ⟨strays, hpending⟩ := h.pending_cons hunanswered
  have hrest (other : Prompt) (hother : other ∈ rest) : other ∈ s.unanswered := by
    rw [hunanswered]
    exact List.mem_cons_of_mem _ hother
  have hprompt : prompt ∈ s.unanswered := by
    rw [hunanswered]
    exact List.mem_cons_self
  have htail : s.pendingPromptSeqs.tail = rest.map Prompt.seq ++ strays := by
    rw [hpending]
    rfl
  have hlater (other : Prompt) (hother : other ∈ rest) : prompt.seq < other.seq := by
    have hsorted := h.sorted
    rw [hpending] at hsorted
    exact List.rel_of_pairwise_cons hsorted
      (List.mem_append_left _ (List.mem_map_of_mem hother))
  exact {
    aligned := ⟨strays, htail⟩
    sorted := h.sorted.tail
    bounded := fun seq hseq => h.bounded seq (List.mem_of_mem_tail hseq)
    sender := by
      intro other hother
      rcases h.sender other (hrest other hother) with hcancelled | ⟨active, hactive, hsame⟩
      · exact .inl hcancelled
      · have hseq := (h.sent active hactive other (hrest other hother)).mpr hsame
        have hopen : s.closedBy entry = none := by
          -- a closed turn sent the oldest prompt, and the numbers grow
          rw [Option.eq_none_iff_forall_not_mem]
          intro closed hclosed
          obtain ⟨hclosedActive, -, hhead⟩ := mem_closedBy.mp hclosed
          rw [Option.mem_unique hclosedActive hactive, hseq, hpending, List.head?_cons,
            Option.some.injEq] at hhead
          have hlt := hlater other hother
          omega
        refine .inr ⟨active, ?_, hsame⟩
        change active ∈ if (s.closedBy entry).isSome then none else s.active
        rw [hopen]
        exact hactive
    sent := fun active hactive other hother =>
      h.sent active (mem_active_takeEntry hactive).1 other (hrest other hother)
    settled := by
      intro active hactive hanswered
      obtain ⟨hbefore, hopen⟩ := mem_active_takeEntry hactive
      rcases List.mem_cons.mp hanswered with hsame | hold
      · apply h.cancels active hbefore
        rw [hsame]
        rcases h.attributes_promptEntry hunanswered hinterrupted with hclosed | ⟨-, hcancelled⟩
        · rw [hopen] at hclosed
          cases hclosed
        · exact hcancelled
      · exact h.settled active hbefore hold
    cancels := fun active hactive => h.cancels active (mem_active_takeEntry hactive).1
    requested := h.requested
    delivered := fun other hother => h.delivered other (hrest other hother)
    activeTurn := fun active hactive => h.activeTurn active (mem_active_takeEntry hactive).1
    promptTurn := fun other hother => h.promptTurn other (hrest other hother)
    refusedTurn := h.refusedTurn
    answeredTurn := by
      intro turn hturn
      rcases List.mem_cons.mp hturn with rfl | hold
      · exact h.promptTurn prompt hprompt
      · exact h.answeredTurn turn hold
    cancelledTurn := h.cancelledTurn
    activeSeq := fun active hactive => h.activeSeq active (mem_active_takeEntry hactive).1
    cancelledSeq := fun seq hseq => h.cancelledSeq seq (List.mem_filter.mp hseq).1
    marked := by
      intro other hother
      have hne : prompt.seq ≠ other.seq := Nat.ne_of_lt (hlater other hother)
      change other.seq ∈ s.cancelledPromptSeqs.filter _ ↔ other.turn ∈ s.cancelled
      rw [List.mem_filter, hpending, List.head?_cons, ← h.marked other (hrest other hother)]
      simp [hne] }

lemma Sound.wakeupEntry {s : Session} (h : s.Sound) {entry : Entry}
    (hpending : s.pendingPromptSeqs = []) : (s.takeEntry entry).Sound := by
  have hnone (prompt : Prompt) : prompt ∉ s.unanswered := by
    intro hprompt
    have hmem := h.mem_pending hprompt
    rw [hpending] at hmem
    cases hmem
  have htail : s.pendingPromptSeqs.tail = s.pendingPromptSeqs := by rw [hpending]; rfl
  exact {
    aligned := by
      change ∃ strays, s.pendingPromptSeqs.tail = _
      rw [htail]
      exact h.aligned
    sorted := h.sorted.tail
    bounded := fun seq hseq => h.bounded seq (List.mem_of_mem_tail hseq)
    sender := fun prompt hprompt => absurd hprompt (hnone prompt)
    sent := fun active hactive => h.sent active (mem_active_takeEntry hactive).1
    settled := fun active hactive => h.settled active (mem_active_takeEntry hactive).1
    cancels := fun active hactive => h.cancels active (mem_active_takeEntry hactive).1
    requested := h.requested
    delivered := h.delivered
    activeTurn := fun active hactive => h.activeTurn active (mem_active_takeEntry hactive).1
    promptTurn := h.promptTurn
    refusedTurn := h.refusedTurn
    answeredTurn := h.answeredTurn
    cancelledTurn := h.cancelledTurn
    activeSeq := fun active hactive => h.activeSeq active (mem_active_takeEntry hactive).1
    cancelledSeq := fun seq hseq => h.cancelledSeq seq (List.mem_filter.mp hseq).1
    marked := fun prompt hprompt => absurd hprompt (hnone prompt) }

/-- The counts of turns that are not active yet do not matter. -/
lemma Sound.counts {s : Session} (h : s.Sound) (starting resuming : ℕ) :
    Sound { s with starting := starting, resuming := resuming } where
  aligned := h.aligned
  sorted := h.sorted
  bounded := h.bounded
  sender := h.sender
  sent := h.sent
  settled := h.settled
  cancels := h.cancels
  requested := h.requested
  delivered := h.delivered
  activeTurn := h.activeTurn
  promptTurn := h.promptTurn
  refusedTurn := h.refusedTurn
  answeredTurn := h.answeredTurn
  cancelledTurn := h.cancelledTurn
  activeSeq := h.activeSeq
  cancelledSeq := h.cancelledSeq
  marked := h.marked

theorem Sound.step {s : Session} (h : s.Sound) (event : Event) (hallowed : s.Allowed event) :
    (s.step event).Sound := by
  cases event with
  | startBegins =>
    unfold Session.step
    dsimp only
    split_ifs
    · exact h
    · exact h.counts _ _
  | startFails => exact h.counts _ _
  | promptSent accepted =>
    unfold Session.step
    dsimp only
    split_ifs with hstarting
    · exact h
    · obtain ⟨hidle, hlength⟩ := hallowed hstarting
      exact h.sendPrompt hidle hlength
  | deliveryFails turn =>
    unfold Session.step
    dsimp only
    split_ifs with hturn
    · exact h.deliveryFails hturn
    · exact h
  | cancelBegins =>
    unfold Session.step
    dsimp only
    split
    · exact h
    · next active hactive =>
      split_ifs
      · exact h
      · exact h.beginCancel hactive
  | cancelEnds turn =>
    unfold Session.step
    dsimp only
    split_ifs with hturn
    · exact h.endCancel hturn (hallowed hturn)
    · exact h
  | activity =>
    unfold Session.step
    dsimp only
    split_ifs
    · exact h
    · exact h.counts _ _
  | resumeBackgroundTurn =>
    unfold Session.step
    dsimp only
    split_ifs with hresuming
    · exact h
    · exact h.resumeBackgroundTurn (hallowed hresuming)
  | promptEntry entry =>
    unfold Session.step
    dsimp only
    split
    · exact h
    · next prompt rest hunanswered =>
      apply h.promptEntry hunanswered
      intro hkind
      apply hallowed hkind
      rw [hunanswered]
      rfl
  | wakeupEntry entry => exact h.wakeupEntry hallowed

theorem Sound.attributes {s : Session} (h : s.Sound) (event : Event) (hallowed : s.Allowed event) :
    s.Attributes event := by
  cases event with
  | promptEntry entry =>
    intro prompt hprompt
    cases hunanswered : s.unanswered with
    | nil =>
      rw [hunanswered] at hprompt
      cases hprompt
    | cons head rest =>
      rw [hunanswered] at hprompt
      cases hprompt
      apply h.attributes_promptEntry hunanswered
      intro hkind
      apply hallowed hkind
      rw [hunanswered]
      rfl
  | wakeupEntry entry =>
    intro active hactive
    obtain ⟨-, -, hhead⟩ := mem_closedBy.mp hactive
    have hpending : s.pendingPromptSeqs = [] := hallowed
    rw [hpending] at hhead
    exact hhead.symm
  | _ => trivial

lemma sound_run {events : List Event} (h : Transitions.Along step Allowed initial events) :
    (Transitions.run step initial events).Sound := by
  have hstep (before : Session) (event : Event) (hbefore : before.Sound)
      (hallowed : before.Allowed event) : (before.step event).Sound := hbefore.step event hallowed
  exact Transitions.run_invariant hstep sound_initial h

/-- In a run of allowed events every entry closes the turn its prompt came from, and no turn stays
open after the entry of its prompt. -/
theorem attributed_run (events : List Event) (h : Transitions.Along step Allowed initial events) :
    (∀ reached event rest, events = reached ++ event :: rest →
      (Transitions.run step initial reached).Attributes event) ∧
      ∀ reached, reached <+: events → (Transitions.run step initial reached).Settled := by
  constructor
  · rintro reached event rest rfl
    exact (sound_run h.prefix).attributes event (Transitions.along_iff_steps.mp h reached event rest rfl)
  · rintro reached ⟨rest, rfl⟩
    exact (sound_run h.prefix).settled

/-- What is kept from the transcript: the entry of a prompt is dropped exactly when it is an error
result and somebody cancelled the turn that sent the prompt. -/
theorem drops_iff_cancelled {events : List Event}
    (h : Transitions.Along step Allowed initial events) (entry : Entry) {prompt : Prompt}
    (hprompt : prompt ∈ (Transitions.run step initial events).unanswered.head?) :
    (Transitions.run step initial events).drops entry = true ↔ entry.kind = .result ∧
      entry.isError = true ∧ prompt.turn ∈ (Transitions.run step initial events).cancelled := by
  have hsound := sound_run h
  generalize Transitions.run step initial events = s at hprompt hsound
  cases hunanswered : s.unanswered with
  | nil =>
    rw [hunanswered] at hprompt
    cases hprompt
  | cons head rest =>
    rw [hunanswered] at hprompt
    cases hprompt
    obtain ⟨strays, hpending⟩ := hsound.pending_cons hunanswered
    have hmem : prompt ∈ s.unanswered := by
      rw [hunanswered]
      exact List.mem_cons_self
    unfold drops
    rw [hpending, List.head?_cons, ← hsound.marked prompt hmem]
    simp [and_assoc]

instance (s : Session) (event : Event) : Decidable (s.Attributes event) :=
  match event with
  | .promptEntry _ | .wakeupEntry _ => by unfold Attributes; infer_instance
  | .startBegins | .startFails | .promptSent _ | .deliveryFails _ | .cancelBegins | .cancelEnds _
  | .activity | .resumeBackgroundTurn => isTrue trivial

instance (s : Session) (event : Event) : Decidable (s.Allowed event) :=
  match event with
  | .promptSent _ | .cancelEnds _ | .resumeBackgroundTurn | .promptEntry _ | .wakeupEntry _ => by
    unfold Allowed; infer_instance
  | .startBegins | .startFails | .deliveryFails _ | .cancelBegins | .activity => isTrue trivial

def success : Entry := ⟨.result, false⟩

/-- The first prompt is not delivered, the second one is. -/
def refusedFirst : List Event :=
  [.startBegins, .promptSent false, .deliveryFails 0, .startBegins, .promptSent true]

/-- The first turn ends while its cancel is under way, which then makes the second one idle. -/
def lateCancel : List Event :=
  [.startBegins, .promptSent true, .cancelBegins, .promptEntry success, .startBegins,
    .promptSent true, .cancelEnds 0]

/-- A steered turn: the first turn is cancelled and its error result arrives after the second prompt
was sent. -/
def steered : List Event :=
  [.startBegins, .promptSent true, .cancelBegins, .cancelEnds 0, .startBegins, .promptSent true,
    .promptEntry ⟨.result, true⟩, .promptEntry success]

theorem attributed_run_steered :
    (∀ reached event rest, steered = reached ++ event :: rest →
      (Transitions.run step initial reached).Attributes event) ∧
      ∀ reached, reached <+: steered → (Transitions.run step initial reached).Settled :=
  attributed_run steered (by with_unfolding_all decide)

theorem refusedFirst_and_lateCancel_misattributed :
    ¬ (Transitions.run step initial refusedFirst).Attributes (.promptEntry success) ∧
      ¬ (Transitions.run step initial lateCancel).Attributes (.promptEntry success) ∧
      ¬ (Transitions.run step initial [.startBegins, .promptSent true]).Attributes
        (.promptEntry ⟨.interrupted, false⟩) := by
  with_unfolding_all decide

end Session

end TradeFramework.PromptAttribution
