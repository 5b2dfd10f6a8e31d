import TradeFramework.EventStore.ActiveTurns
import TradeFramework.Library.CrashLogic

/-!
# Interrupted turns

A process that is shut down, and one that starts, closes every turn that runs: a marker goes to the
transcript of the chat and an event to the log of the turns, and the process may be cut off between
any two appends. A start looks for the marker first.
-/

namespace TradeFramework.EventStore

open Program (perform runUntil)

/-- The files by their lines, over the state of the snapshot. -/
structure Journal where
  snapshot : StoreState
  logs : Fin 4 → List StoreEvent
  transcripts : String → List TranscriptEntry

namespace Journal

variable (j : Journal)

/-- What a start loads. -/
def replayed : StoreState := replayEvents j.snapshot (numbered j.logs)

def append (e : StoreEvent) : Journal := { j with logs := appended j.logs e }

def speak (chatId : String) (entry : TranscriptEntry) : Journal :=
  { j with transcripts := Function.update j.transcripts chatId (j.transcripts chatId ++ [entry]) }

end Journal

/-- A reading of the clock, and an id drawn for an entry. -/
structure Reading where
  now : ℤ
  entryId : String

/-- The entry that marks a turn as interrupted by a restart. -/
def restartMarker (turnId : String) (reading : Reading) : TranscriptEntry where
  members := [("_id", .str reading.entryId), ("createdAt", JsonText.Codec.int.toJson reading.now),
    ("kind", .str "interrupted"), ("reason", .str "service_restart"), ("turnId", .str turnId)]

def isRestartMarker (turnId : String) (entry : TranscriptEntry) : Bool :=
  let text := textAt (JsonText.member entry.members)
  text "kind" = some "interrupted" && text "reason" = some "service_restart" && text "turnId" = some turnId

/-- A process in its start or its shutdown. -/
structure Server where
  journal : Journal
  state : StoreState

inductive RecoveryOp
  | getMessages (chatId : String)
  | appendMarker (chatId turnId : String)
  | recordTurnInterrupted (chatId turnId : String)

abbrev RecoveryOp.Res : RecoveryOp → Type
  | getMessages _ => List TranscriptEntry
  | appendMarker _ _ => Unit
  | recordTurnInterrupted _ _ => Unit

abbrev RecoveryOp.Answer (_ : RecoveryOp) : Type := Reading

namespace RecoveryOp

/-- `recordTurnInterrupted` appends nothing when the turn is not the active one. -/
def exec : (op : RecoveryOp) → Answer op → Server → Res op × Server
  | getMessages chatId, _, s => (s.journal.transcripts chatId, s)
  | appendMarker chatId turnId, reading, s =>
    ((), { s with journal := s.journal.speak chatId (restartMarker turnId reading) })
  | recordTurnInterrupted chatId turnId, reading, s =>
    match (Operation.recordTurnInterrupted chatId turnId).event reading.now s.state with
    | none => ((), s)
    | some e => ((), ⟨s.journal.append e, applyEvent s.state e⟩)

end RecoveryOp

abbrev RecoveryProgram := Program RecoveryOp RecoveryOp.Res Unit

def getMessages (chatId : String) : Program RecoveryOp RecoveryOp.Res (List TranscriptEntry) :=
  perform (RecoveryOp.getMessages chatId)

def appendMarker (chatId turnId : String) : RecoveryProgram :=
  perform (RecoveryOp.appendMarker chatId turnId)

def recordTurnInterrupted (chatId turnId : String) : RecoveryProgram :=
  perform (RecoveryOp.recordTurnInterrupted chatId turnId)

/-- One turn of `recoverInterruptedTurns`. -/
def recoverTurn (turn : String × String) : RecoveryProgram := do
  let messages ← getMessages turn.1
  let _ ← if messages.any (isRestartMarker turn.2) then pure () else appendMarker turn.1 turn.2
  recordTurnInterrupted turn.1 turn.2

def forTurns (body : String × String → RecoveryProgram) : List (String × String) → RecoveryProgram
  | [] => pure ()
  | turn :: rest => do
    let _ ← body turn
    forTurns body rest

def recoverInterruptedTurns : List (String × String) → RecoveryProgram := forTurns recoverTurn

/-- `close` marks a turn that it stops without a look at the transcript. -/
def closeTurn (turn : String × String) : RecoveryProgram := do
  let _ ← appendMarker turn.1 turn.2
  recordTurnInterrupted turn.1 turn.2

def closeTurns : List (String × String) → RecoveryProgram := forTurns closeTurn

/-- What a process draws and reads off the clock, and how many calls it makes before it is cut off. -/
structure Attempt where
  answers : ℕ → (op : RecoveryOp) → op.Answer
  limit : ℕ

/-- A start of the store, to its end or cut off. -/
def Journal.boot (j : Journal) (attempt : Attempt) : Option Unit × Server :=
  runUntil RecoveryOp.exec attempt.answers attempt.limit
    (recoverInterruptedTurns (interruptedTurns j.replayed)) ⟨j, j.replayed⟩

/-- A shutdown of a running process, to its end or cut off; its turns stand in a map by their chats. -/
def Server.shutdown (s : Server) (activeTurns : List (String × String)) (attempt : Attempt) : Journal :=
  (runUntil RecoveryOp.exec attempt.answers attempt.limit (closeTurns (Dict.items activeTurns)) s).2.journal

/-- The starts that are cut off, one after the other. -/
def Journal.crash (j : Journal) (attempts : List Attempt) : Journal :=
  attempts.foldl (fun j attempt => (j.boot attempt).2.journal) j

section Counts

variable (j : Journal) (chatId turnId : String)

def isInterruption : StoreEvent → Bool
  | .turn _ id (.interrupted ended) => id = chatId && ended = turnId
  | _ => false

/-- An interruption that is stamped before a start of a turn of its chat. -/
def isEarly (turns : List StoreEvent) (e : StoreEvent) : Bool :=
  isInterruption chatId turnId e && startsLater turns chatId e.timestamp

namespace Journal

/-- The `turn_interrupted` events of a turn. -/
def interruptions : ℕ := (j.logs 3).countP (isInterruption chatId turnId)

def earlyInterruptions : ℕ := (j.logs 3).countP (isEarly chatId turnId (j.logs 3))

/-- The markers of a turn. -/
def markers : ℕ := (j.transcripts chatId).countP (isRestartMarker turnId)

end Journal

end Counts

section Entries

lemma isRestartMarker_restartMarker (turnId turnId' : String) (reading : Reading) :
    isRestartMarker turnId (restartMarker turnId' reading) = decide (turnId' = turnId) := by
  simp [isRestartMarker, restartMarker, textAt, JsonText.member, JsonText.Codec.string]

lemma mem_interruptedTurns {s : StoreState} {chatId turnId : String} :
    (chatId, turnId) ∈ interruptedTurns s ↔ s.activeTurn chatId = some turnId := by
  unfold interruptedTurns
  rw [List.mem_filterMap]
  unfold StoreState.activeTurn StoreState.requireChat
  constructor
  · rintro ⟨⟨id, chat⟩, hmem, hturn⟩
    rw [Dict.mem_items] at hmem
    dsimp only at hturn
    split_ifs at hturn with hdeleted
    obtain ⟨active, hactive, hpair⟩ := Option.map_eq_some_iff.mp hturn
    cases hpair
    rw [hmem]
    simp [Option.filter, hdeleted] at hactive ⊢
    exact hactive
  · intro hturn
    obtain ⟨chat, hchat, hactive⟩ := Option.bind_eq_some_iff.mp hturn
    obtain ⟨hmem, hdeleted⟩ := Option.filter_eq_some_iff.mp hchat
    refine ⟨(chatId, chat), Dict.mem_items.mpr hmem, ?_⟩
    have hkept : chat.deleted = false := by simpa using hdeleted
    rw [if_neg (by simp [hkept]), hactive]
    rfl

lemma nodup_interruptedTurns (s : StoreState) : ((interruptedTurns s).map Prod.fst).Nodup := by
  have hkeys : ∀ chats : List (String × ChatRecord), ((chats.filterMap fun c =>
      if c.2.deleted then none else (c.2.activeTurnId.filter (· ≠ "")).map fun turnId =>
        (c.1, turnId)).map Prod.fst).Sublist (chats.map Prod.fst) := by
    intro chats
    induction chats with
    | nil => exact List.Sublist.refl _
    | cons c chats ih =>
      rw [List.filterMap_cons]
      split
      next => exact ih.cons _
      next turn hturn =>
        split_ifs at hturn
        obtain ⟨active, -, rfl⟩ := Option.map_eq_some_iff.mp hturn
        exact ih.cons_cons _
  exact (hkeys _).nodup (Dict.nodup_keys s.chatsById)

end Entries

section Appending

variable {j : Journal} {chatId turnId id ended : String} {now : ℤ}

lemma turns_append : (j.append (interruption now id ended)).logs 3 = j.logs 3 ++ [interruption now id ended] := by
  simp [Journal.append, appended, interruption, StoreEvent.source]

lemma startsLater_append (later : ℤ) : startsLater ((j.append (interruption now id ended)).logs 3) chatId later =
    startsLater (j.logs 3) chatId later := by
  rw [turns_append]
  simp [startsLater, interruption, StoreEvent.startsTurn]

lemma interruptions_append : (j.append (interruption now id ended)).interruptions chatId turnId =
    j.interruptions chatId turnId + if id = chatId ∧ ended = turnId then 1 else 0 := by
  unfold Journal.interruptions
  rw [turns_append, List.countP_append]
  simp [interruption, isInterruption, List.countP_cons]

lemma earlyInterruptions_append :
    (j.append (interruption now id ended)).earlyInterruptions chatId turnId =
      j.earlyInterruptions chatId turnId +
        if (id = chatId ∧ ended = turnId) ∧ startsLater (j.logs 3) chatId now = true then 1 else 0 := by
  have hearly : isEarly chatId turnId ((j.append (interruption now id ended)).logs 3) =
      isEarly chatId turnId (j.logs 3) := by
    funext e
    unfold isEarly
    rw [startsLater_append]
  unfold Journal.earlyInterruptions
  rw [hearly, turns_append, List.countP_append]
  simp [isEarly, interruption, isInterruption, List.countP_cons, StoreEvent.timestamp]

lemma activeTurn_interrupted {s : StoreState} (h : s.activeTurn chatId = some turnId) :
    (applyEvent s (interruption now chatId turnId)).activeTurn chatId = none := by
  rw [Option.eq_none_iff_forall_ne_some]
  intro other hother
  rw [activeTurn_eq_some, turnView_applyEvent, onTurn_interruption, (activeTurn_eq_some.mp h).1] at hother
  simp at hother

lemma activeTurn_applyEvent_of_ne {s : StoreState} (h : id ≠ chatId) :
    (applyEvent s (interruption now id ended)).activeTurn chatId = s.activeTurn chatId := by
  apply activeTurn_congr
  rw [turnView_applyEvent, onTurn_interruption_of_ne h]

/-- What an interruption makes of the active turn that a start finds. -/
lemma activeTurn_append (hsorted : Sorted j.logs) (h : j.replayed.activeTurn chatId = some turnId) :
    (j.append (interruption now chatId turnId)).replayed.activeTurn chatId =
      if startsLater (j.logs 3) chatId now then some turnId else none := by
  have hview : (j.append (interruption now chatId turnId)).replayed.turnView chatId = _ :=
    turnView_replayEvents_appended hsorted j.snapshot chatId
  split_ifs with hlater
  · rw [if_neg (by simp [hlater])] at hview
    rw [← h]
    exact activeTurn_congr hview
  · rw [if_pos ⟨rfl, by simpa using hlater⟩, ← turnView_applyEvent] at hview
    exact (activeTurn_congr hview).trans (activeTurn_interrupted h)

lemma activeTurn_append_of_ne (hsorted : Sorted j.logs) (h : id ≠ chatId) :
    (j.append (interruption now id ended)).replayed.activeTurn chatId = j.replayed.activeTurn chatId := by
  apply activeTurn_congr
  have hview : (j.append (interruption now id ended)).replayed.turnView chatId = _ :=
    turnView_replayEvents_appended hsorted j.snapshot chatId
  rwa [if_neg fun hid => h hid.1.symm] at hview

lemma markers_speak (entry : TranscriptEntry) : (j.speak id entry).markers chatId turnId =
    j.markers chatId turnId + if id = chatId ∧ isRestartMarker turnId entry = true then 1 else 0 := by
  unfold Journal.markers Journal.speak
  by_cases hid : id = chatId
  · subst hid
    simp [Function.update_self, List.countP_append, List.countP_cons]
  · simp [Function.update_of_ne (Ne.symm hid), hid]

lemma event_recordTurnInterrupted {s : StoreState} {e : StoreEvent}
    (h : (Operation.recordTurnInterrupted id ended).event now s = some e) :
    e = interruption now id ended ∧ ∃ chat, s.requireChat id = some chat ∧ chat.activeTurnId = some ended := by
  simp only [Operation.event, Operation.ending] at h
  obtain ⟨chat, hchat, h⟩ := Option.bind_eq_some_iff.mp h
  split_ifs at h with hactive
  cases h
  exact ⟨rfl, chat, hchat, hactive⟩

lemma event_of_activeTurn {s : StoreState} (h : s.activeTurn chatId = some turnId) :
    (Operation.recordTurnInterrupted chatId turnId).event now s = some (interruption now chatId turnId) := by
  obtain ⟨chat, hchat, hactive⟩ := Option.bind_eq_some_iff.mp h
  obtain ⟨hactive, -⟩ := Option.filter_eq_some_iff.mp hactive
  simp [Operation.event, Operation.ending, hchat, hactive, interruption]

end Appending

section Elsewhere

/-- Nothing happened to a chat between two states of a process. -/
structure SameChat (chatId : String) (s s' : Server) : Prop where
  active : s'.state.activeTurn chatId = s.state.activeTurn chatId
  replayed : Sorted s.journal.logs →
    s'.journal.replayed.activeTurn chatId = s.journal.replayed.activeTurn chatId
  sorted : Sorted s.journal.logs → Sorted s'.journal.logs
  interruptions : ∀ turnId, s'.journal.interruptions chatId turnId = s.journal.interruptions chatId turnId
  early : ∀ turnId,
    s'.journal.earlyInterruptions chatId turnId = s.journal.earlyInterruptions chatId turnId
  markers : ∀ turnId, s'.journal.markers chatId turnId = s.journal.markers chatId turnId

def RecoveryOp.chat : RecoveryOp → String
  | getMessages chatId => chatId
  | appendMarker chatId _ => chatId
  | recordTurnInterrupted chatId _ => chatId

variable {chatId : String} {s s' s'' : Server}

lemma SameChat.refl (chatId : String) (s : Server) : SameChat chatId s s :=
  ⟨rfl, fun _ => rfl, id, fun _ => rfl, fun _ => rfl, fun _ => rfl⟩

lemma SameChat.trans (h : SameChat chatId s s') (h' : SameChat chatId s' s'') : SameChat chatId s s'' where
  active := h'.active.trans h.active
  replayed hsorted := (h'.replayed (h.sorted hsorted)).trans (h.replayed hsorted)
  sorted hsorted := h'.sorted (h.sorted hsorted)
  interruptions turnId := (h'.interruptions turnId).trans (h.interruptions turnId)
  early turnId := (h'.early turnId).trans (h.early turnId)
  markers turnId := (h'.markers turnId).trans (h.markers turnId)

/-- A call about one chat leaves the others alone. -/
lemma sameChat_exec (op : RecoveryOp) (reading : op.Answer) (s : Server) (h : op.chat ≠ chatId) :
    SameChat chatId s (op.exec reading s).2 := by
  cases op with
  | getMessages id => exact SameChat.refl chatId s
  | appendMarker id ended =>
    refine ⟨rfl, fun _ => rfl, fun hsorted => hsorted, fun _ => rfl, fun _ => rfl, fun turnId => ?_⟩
    have hother : id ≠ chatId := h
    simp [RecoveryOp.exec, markers_speak, hother]
  | recordTurnInterrupted id ended =>
    have hother : id ≠ chatId := h
    simp only [RecoveryOp.exec]
    split
    next => exact SameChat.refl chatId s
    next e he =>
      obtain ⟨rfl, -⟩ := event_recordTurnInterrupted he
      refine ⟨activeTurn_applyEvent_of_ne hother, fun hsorted => activeTurn_append_of_ne hsorted hother,
        fun hsorted => hsorted.appended _, fun turnId => ?_, fun turnId => ?_, fun _ => rfl⟩
      · simp [interruptions_append, hother]
      · simp [earlyInterruptions_append, hother]

/-- A program that is about other chats. -/
lemma holds_sameChat {α : Type} {p : Program RecoveryOp RecoveryOp.Res α}
    (h : p.Safe (fun op => op.chat ≠ chatId) fun _ => True) (s : Server) :
    p.Holds RecoveryOp.exec (fun _ _ => True) (SameChat chatId s) (fun _ => SameChat chatId s) s := by
  have hholds : p.Holds RecoveryOp.exec (fun _ _ => True) (SameChat chatId s)
      (fun _ s' => SameChat chatId s s' ∧ True) s := Program.Holds.of_safe h
    (fun op reading s' hop hs => SameChat.trans hs (sameChat_exec op reading s' hop)) (SameChat.refl chatId s)
  exact hholds.mono (fun _ hs => hs) fun _ _ _ hs => hs.1

lemma safe_recoverTurn {turn : String × String} (h : turn.1 ≠ chatId) :
    (recoverTurn turn).Safe (fun op => op.chat ≠ chatId) fun _ => True := by
  refine ⟨h, fun messages => ?_⟩
  change Program.Safe _ _ (if messages.any (isRestartMarker turn.2) then recordTurnInterrupted turn.1 turn.2
    else appendMarker turn.1 turn.2 >>= fun _ => recordTurnInterrupted turn.1 turn.2)
  split_ifs
  · exact ⟨h, fun _ => trivial⟩
  · exact ⟨h, fun _ => ⟨h, fun _ => trivial⟩⟩

lemma safe_closeTurn {turn : String × String} (h : turn.1 ≠ chatId) :
    (closeTurn turn).Safe (fun op => op.chat ≠ chatId) fun _ => True :=
  ⟨h, fun _ => ⟨h, fun _ => trivial⟩⟩

variable {body : String × String → RecoveryProgram} {turns : List (String × String)}

lemma safe_forTurns (hbody : ∀ turn, turn.1 ≠ chatId → (body turn).Safe (fun op => op.chat ≠ chatId) fun _ => True)
    (h : chatId ∉ turns.map Prod.fst) :
    (forTurns body turns).Safe (fun op => op.chat ≠ chatId) fun _ => True := by
  induction turns with
  | nil => trivial
  | cons turn rest ih =>
    rw [List.map_cons, List.mem_cons, not_or] at h
    exact (hbody turn (Ne.symm h.1)).bind fun _ _ => ih h.2

/-- A loop does to a chat what it does for the one turn of that chat. -/
lemma holds_forTurns {I pre post : Server → Prop} {turnId : String}
    (hbody : ∀ turn, turn.1 ≠ chatId → (body turn).Safe (fun op => op.chat ≠ chatId) fun _ => True)
    (hown : ∀ s, pre s → (body (chatId, turnId)).Holds RecoveryOp.exec (fun _ _ => True) I (fun _ => post) s)
    (hpre : ∀ s s', pre s → SameChat chatId s s' → pre s')
    (hpost : ∀ s s', post s → SameChat chatId s s' → post s')
    (hpreI : ∀ s, pre s → I s) (hpostI : ∀ s, post s → I s) (hnodup : (turns.map Prod.fst).Nodup)
    (hmem : (chatId, turnId) ∈ turns) (hs : pre s) :
    (forTurns body turns).Holds RecoveryOp.exec (fun _ _ => True) I (fun _ => post) s := by
  induction turns generalizing s with
  | nil => cases hmem
  | cons turn rest ih =>
    rw [List.map_cons, List.nodup_cons] at hnodup
    obtain rfl | hrest := List.mem_cons.mp hmem
    · -- The rest of the loop is about other chats.
      apply (hown s hs).bind
      intro _ s₁ _ hs₁
      have hothers := holds_sameChat (safe_forTurns hbody hnodup.1) s₁
      exact hothers.mono (fun s₂ hsame => hpostI s₂ (hpost s₁ s₂ hs₁ hsame)) fun _ s₂ _ hsame =>
        hpost s₁ s₂ hs₁ hsame
    · have hne : turn.1 ≠ chatId := by
        rintro rfl
        exact hnodup.1 (List.mem_map.mpr ⟨_, hrest, rfl⟩)
      have hother := holds_sameChat (hbody turn hne) s
      apply (hother.mono (fun s₁ hsame => hpreI s₁ (hpre s s₁ hs hsame)) fun _ _ _ hsame => hsame).bind
      intro _ s₁ _ hsame
      exact ih hnodup.2 hrest (hpre s s₁ hs hsame)

end Elsewhere

section Turns

variable {chatId turnId : String} {j : Journal} {s s' : Server} {early : ℕ}

/-- How far a turn that was interrupted is closed: a start finds it active until it is ended by an
interruption that is not early, and it is marked once before it is ended. -/
structure Tracked (chatId turnId : String) (j : Journal) : Prop where
  sorted : Sorted j.logs
  active : j.replayed.activeTurn chatId =
    if j.interruptions chatId turnId = j.earlyInterruptions chatId turnId then some turnId else none
  once : j.interruptions chatId turnId ≤ j.earlyInterruptions chatId turnId + 1
  marked : j.markers chatId turnId ≤ 1
  first : 0 < j.interruptions chatId turnId → j.markers chatId turnId = 1

/-- A process that is about to close a turn. -/
structure Pending (chatId turnId : String) (early : ℕ) (s : Server) : Prop where
  tracked : Tracked chatId turnId s.journal
  active : s.state.activeTurn chatId = some turnId
  replayed : s.journal.replayed.activeTurn chatId = some turnId
  early : s.journal.earlyInterruptions chatId turnId = early

/-- A process that has closed a turn. -/
structure Closed (chatId turnId : String) (early : ℕ) (s : Server) : Prop where
  tracked : Tracked chatId turnId s.journal
  active : s.state.activeTurn chatId = none
  interruptions : s.journal.interruptions chatId turnId = early + 1
  markers : s.journal.markers chatId turnId = 1

lemma Tracked.of_same (h : Tracked chatId turnId s.journal) (hsame : SameChat chatId s s') :
    Tracked chatId turnId s'.journal where
  sorted := hsame.sorted h.sorted
  active := by
    rw [hsame.replayed h.sorted, hsame.interruptions, hsame.early]
    exact h.active
  once := by
    rw [hsame.interruptions, hsame.early]
    exact h.once
  marked := by
    rw [hsame.markers]
    exact h.marked
  first := by
    rw [hsame.interruptions, hsame.markers]
    exact h.first

lemma Pending.of_same (h : Pending chatId turnId early s) (hsame : SameChat chatId s s') :
    Pending chatId turnId early s' where
  tracked := h.tracked.of_same hsame
  active := hsame.active.trans h.active
  replayed := (hsame.replayed h.tracked.sorted).trans h.replayed
  early := (hsame.early turnId).trans h.early

lemma Closed.of_same (h : Closed chatId turnId early s) (hsame : SameChat chatId s s') :
    Closed chatId turnId early s' where
  tracked := h.tracked.of_same hsame
  active := hsame.active.trans h.active
  interruptions := (hsame.interruptions turnId).trans h.interruptions
  markers := (hsame.markers turnId).trans h.markers

lemma Pending.interruptions (h : Pending chatId turnId early s) :
    s.journal.interruptions chatId turnId = early := by
  have hactive := h.tracked.active
  rw [h.replayed] at hactive
  split_ifs at hactive with hcount
  exact hcount.trans h.early

/-- Marking a turn that has no marker. -/
lemma Pending.marked (h : Pending chatId turnId early s) (hnone : s.journal.markers chatId turnId = 0)
    (reading : Reading) : Pending chatId turnId early
      { s with journal := s.journal.speak chatId (restartMarker turnId reading) } ∧
      (s.journal.speak chatId (restartMarker turnId reading)).markers chatId turnId = 1 := by
  have hmarkers : (s.journal.speak chatId (restartMarker turnId reading)).markers chatId turnId = 1 := by
    rw [markers_speak, hnone]
    simp [isRestartMarker_restartMarker]
  refine ⟨⟨⟨h.tracked.sorted, h.tracked.active, h.tracked.once, ?_, fun _ => hmarkers⟩, h.active, h.replayed,
    h.early⟩, hmarkers⟩
  rw [hmarkers]

/-- The event of a turn that is marked closes it. -/
lemma Pending.ended (h : Pending chatId turnId early s) (hmarked : s.journal.markers chatId turnId = 1)
    (now : ℤ) : Closed chatId turnId early
      ⟨s.journal.append (interruption now chatId turnId), applyEvent s.state (interruption now chatId turnId)⟩ := by
  have hcount := h.interruptions
  have hinterruptions : (s.journal.append (interruption now chatId turnId)).interruptions chatId turnId =
      early + 1 := by
    rw [interruptions_append, hcount]
    simp
  have hearly : (s.journal.append (interruption now chatId turnId)).earlyInterruptions chatId turnId =
      early + if (chatId = chatId ∧ turnId = turnId) ∧ startsLater (s.journal.logs 3) chatId now = true
        then 1 else 0 := by
    rw [earlyInterruptions_append, h.early]
  refine ⟨⟨h.tracked.sorted.appended _, ?_, ?_, ?_, fun _ => hmarked⟩, activeTurn_interrupted h.active,
    hinterruptions, hmarked⟩
  · rw [activeTurn_append h.tracked.sorted h.replayed, hinterruptions, hearly]
    by_cases hlater : startsLater (s.journal.logs 3) chatId now = true <;> simp [hlater]
  · rw [hinterruptions, hearly]
    omega
  · exact le_of_eq hmarked

lemma exec_of_pending (h : Pending chatId turnId early s) (reading : Reading) :
    (RecoveryOp.exec (.recordTurnInterrupted chatId turnId) reading s).2 =
      ⟨s.journal.append (interruption reading.now chatId turnId),
        applyEvent s.state (interruption reading.now chatId turnId)⟩ := by
  simp only [RecoveryOp.exec, event_of_activeTurn h.active]

/-- Every cut of `recordTurnInterrupted` keeps the turn tracked, and its end closes it. -/
lemma holds_recordTurnInterrupted (h : Pending chatId turnId early s)
    (hmarked : s.journal.markers chatId turnId = 1) :
    (recordTurnInterrupted chatId turnId).Holds RecoveryOp.exec (fun _ _ => True)
      (fun s => Tracked chatId turnId s.journal) (fun _ => Closed chatId turnId early) s := by
  refine ⟨h.tracked, fun reading _ => ?_⟩
  rw [exec_of_pending h]
  exact ⟨(h.ended hmarked reading.now).tracked, h.ended hmarked reading.now⟩

/-- A turn is marked, unless it is, and then ended. -/
lemma holds_recoverTurn (h : Pending chatId turnId early s) :
    (recoverTurn (chatId, turnId)).Holds RecoveryOp.exec (fun _ _ => True)
      (fun s => Tracked chatId turnId s.journal) (fun _ => Closed chatId turnId early) s := by
  refine ⟨h.tracked, fun reading _ => ?_⟩
  change Program.Holds _ _ _ _ (if (s.journal.transcripts chatId).any (isRestartMarker turnId)
    then recordTurnInterrupted chatId turnId
    else appendMarker chatId turnId >>= fun _ => recordTurnInterrupted chatId turnId) s
  split_ifs with hany
  · apply holds_recordTurnInterrupted h
    have hpos : 0 < s.journal.markers chatId turnId := by
      unfold Journal.markers
      rw [List.countP_pos_iff]
      exact List.any_eq_true.mp hany
    have hle := h.tracked.marked
    omega
  · have hnone : s.journal.markers chatId turnId = 0 := by
      unfold Journal.markers
      rw [List.countP_eq_zero]
      intro entry hentry hmarker
      exact hany (List.any_eq_true.mpr ⟨entry, hentry, hmarker⟩)
    refine ⟨h.tracked, fun reading _ => ?_⟩
    obtain ⟨hpending, hmarked⟩ := h.marked hnone reading
    exact holds_recordTurnInterrupted hpending hmarked

/-- A turn is marked and ended at a shutdown, where it has no marker. -/
lemma holds_closeTurn (h : Pending chatId turnId early s) (hnone : s.journal.markers chatId turnId = 0) :
    (closeTurn (chatId, turnId)).Holds RecoveryOp.exec (fun _ _ => True)
      (fun s => Tracked chatId turnId s.journal) (fun _ => Closed chatId turnId early) s := by
  refine ⟨h.tracked, fun reading _ => ?_⟩
  obtain ⟨hpending, hmarked⟩ := h.marked hnone reading
  exact holds_recordTurnInterrupted hpending hmarked

/-- A shutdown that stops another turn of the chat than the active one. -/
lemma holds_closeTurn_of_ne {other : String} (h : Pending chatId turnId early s) (hne : other ≠ turnId) :
    (closeTurn (chatId, other)).Holds RecoveryOp.exec (fun _ _ => True)
      (fun s => Tracked chatId turnId s.journal) (fun _ => Pending chatId turnId early) s := by
  refine ⟨h.tracked, fun reading _ => ?_⟩
  let marked : Server := { s with journal := s.journal.speak chatId (restartMarker other reading) }
  have hmarkers : marked.journal.markers chatId turnId = s.journal.markers chatId turnId := by
    rw [markers_speak]
    simp [isRestartMarker_restartMarker, hne]
  have hpending : Pending chatId turnId early marked := by
    refine ⟨⟨h.tracked.sorted, h.tracked.active, h.tracked.once, ?_, ?_⟩, h.active, h.replayed, h.early⟩
    · rw [hmarkers]
      exact h.tracked.marked
    · rw [hmarkers]
      exact h.tracked.first
  refine ⟨hpending.tracked, fun reading' _ => ?_⟩
  have hidle : (RecoveryOp.exec (.recordTurnInterrupted chatId other) reading' marked).2 = marked := by
    simp only [RecoveryOp.exec]
    split
    next => rfl
    next e he =>
      obtain ⟨-, chat, hchat, hactive⟩ := event_recordTurnInterrupted he
      obtain ⟨chat', hchat', hturn⟩ := Option.bind_eq_some_iff.mp h.active
      obtain ⟨hturn, -⟩ := Option.filter_eq_some_iff.mp hturn
      rw [hchat] at hchat'
      cases hchat'
      rw [hactive] at hturn
      exact absurd (Option.some.inj hturn) hne
  exact ⟨hidle ▸ hpending.tracked, hidle ▸ hpending⟩

/-- Recovering the active turn of a chat ends it in the memory. -/
lemma holds_recoverTurn_active (h : s.state.activeTurn chatId = some turnId) :
    (recoverTurn (chatId, turnId)).Holds RecoveryOp.exec (fun _ _ => True) (fun _ => True)
      (fun _ s => s.state.activeTurn chatId = none) s := by
  have hended : ∀ s : Server, s.state.activeTurn chatId = some turnId →
      (recordTurnInterrupted chatId turnId).Holds RecoveryOp.exec (fun _ _ => True) (fun _ => True)
        (fun _ s => s.state.activeTurn chatId = none) s := by
    intro s hs
    refine ⟨trivial, fun reading _ => ⟨trivial, ?_⟩⟩
    simp only [RecoveryOp.exec, event_of_activeTurn hs]
    exact activeTurn_interrupted hs
  refine ⟨trivial, fun reading _ => ?_⟩
  change Program.Holds _ _ _ _ (if (s.journal.transcripts chatId).any (isRestartMarker turnId)
    then recordTurnInterrupted chatId turnId
    else appendMarker chatId turnId >>= fun _ => recordTurnInterrupted chatId turnId) s
  split_ifs
  · exact hended s h
  · exact ⟨trivial, fun _ _ => hended _ h⟩

end Turns

section Starts

variable {chatId turnId : String} {j : Journal} (attempt : Attempt)

/-- No chat has an active turn in the memory of a process that has started. -/
lemma boot_inactive (hcomplete : (j.boot attempt).1 = some ()) (chatId : String) :
    (j.boot attempt).2.state.activeTurn chatId = none := by
  have hholds : (recoverInterruptedTurns (interruptedTurns j.replayed)).Holds RecoveryOp.exec
      (fun _ _ => True) (fun _ => True) (fun _ s => s.state.activeTurn chatId = none) ⟨j, j.replayed⟩ := by
    cases hactive : j.replayed.activeTurn chatId with
    | some turnId =>
      exact holds_forTurns (fun _ => safe_recoverTurn) (fun s hs => holds_recoverTurn_active hs)
        (fun s s' hs hsame => hsame.active.trans hs) (fun s s' hs hsame => hsame.active.trans hs)
        (fun _ _ => trivial) (fun _ _ => trivial) (nodup_interruptedTurns j.replayed)
        (mem_interruptedTurns.mpr hactive) hactive
    | none =>
      have hout : chatId ∉ (interruptedTurns j.replayed).map Prod.fst := by
        intro hin
        obtain ⟨turn, hturn, rfl⟩ := List.mem_map.mp hin
        rw [mem_interruptedTurns.mp hturn] at hactive
        cases hactive
      have hsame := holds_sameChat (safe_forTurns (fun _ => safe_recoverTurn) hout) ⟨j, j.replayed⟩
      exact hsame.mono (fun _ _ => trivial) fun _ _ _ hsame => hsame.active.trans hactive
  exact (hholds.runUntil (fun _ _ => trivial) attempt.limit).2 () hcomplete

lemma earlyInterruptions_le (j : Journal) (chatId turnId : String) :
    j.earlyInterruptions chatId turnId ≤ j.interruptions chatId turnId := by
  apply List.countP_mono_left
  intro e _ hearly
  exact (Bool.and_eq_true_iff.mp hearly).1

/-- A start keeps a turn tracked where it is cut off, and closes it when it is not. -/
lemma boot_tracked (h : Tracked chatId turnId j) : Tracked chatId turnId (j.boot attempt).2.journal ∧
    ((j.boot attempt).1 = some () →
      (j.boot attempt).2.journal.interruptions chatId turnId = j.earlyInterruptions chatId turnId + 1 ∧
      (j.boot attempt).2.journal.markers chatId turnId = 1) := by
  have hactive := h.active
  by_cases hcount : j.interruptions chatId turnId = j.earlyInterruptions chatId turnId
  · rw [if_pos hcount] at hactive
    have hpending : Pending chatId turnId (j.earlyInterruptions chatId turnId) ⟨j, j.replayed⟩ :=
      ⟨h, hactive, hactive, rfl⟩
    have hholds := holds_forTurns (fun _ => safe_recoverTurn) (fun s hs => holds_recoverTurn hs)
      (fun _ _ hs hsame => hs.of_same hsame) (fun _ _ hs hsame => hs.of_same hsame)
      (fun _ hs => hs.tracked) (fun _ hs => hs.tracked) (nodup_interruptedTurns j.replayed)
      (mem_interruptedTurns.mpr hactive) hpending
    have hrun : Tracked chatId turnId (j.boot attempt).2.journal ∧ ∀ a, (j.boot attempt).1 = some a →
        Closed chatId turnId (j.earlyInterruptions chatId turnId) (j.boot attempt).2 :=
      hholds.runUntil (fun _ _ => trivial) attempt.limit
    refine ⟨hrun.1, fun hcomplete => ?_⟩
    have hclosed := hrun.2 () hcomplete
    exact ⟨hclosed.interruptions, hclosed.markers⟩
  · rw [if_neg hcount] at hactive
    have hout : chatId ∉ (interruptedTurns j.replayed).map Prod.fst := by
      intro hin
      obtain ⟨turn, hturn, rfl⟩ := List.mem_map.mp hin
      rw [mem_interruptedTurns.mp hturn] at hactive
      cases hactive
    have hholds := holds_sameChat (safe_forTurns (fun _ => safe_recoverTurn) hout) ⟨j, j.replayed⟩
    have hsame : SameChat chatId ⟨j, j.replayed⟩ (j.boot attempt).2 :=
      (hholds.runUntil (fun _ _ => trivial) attempt.limit).1
    refine ⟨h.of_same hsame, fun _ => ⟨?_, ?_⟩⟩
    · have hle := earlyInterruptions_le j chatId turnId
      have honce := h.once
      have hsameCount : (j.boot attempt).2.journal.interruptions chatId turnId =
          j.interruptions chatId turnId := hsame.interruptions turnId
      omega
    · have hle := earlyInterruptions_le j chatId turnId
      exact (hsame.markers turnId).trans (h.first (by omega))

lemma crash_tracked (h : Tracked chatId turnId j) (attempts : List Attempt) :
    Tracked chatId turnId (j.crash attempts) := by
  induction attempts generalizing j with
  | nil => exact h
  | cons attempt attempts ih => exact ih (boot_tracked attempt h).1

/-- A running process: its files replay to its active turns, which are neither ended nor marked. -/
structure Server.Running (s : Server) : Prop where
  sorted : Sorted s.journal.logs
  replayed : ∀ chatId, s.journal.replayed.activeTurn chatId = s.state.activeTurn chatId
  fresh : ∀ chatId turnId, s.state.activeTurn chatId = some turnId →
    s.journal.interruptions chatId turnId = 0 ∧ s.journal.markers chatId turnId = 0

lemma shutdown_tracked {s : Server} (h : s.Running) (hactive : s.state.activeTurn chatId = some turnId)
    (activeTurns : List (String × String)) :
    Tracked chatId turnId (s.shutdown activeTurns attempt) := by
  obtain ⟨hinterruptions, hmarkers⟩ := h.fresh chatId turnId hactive
  have hearly : s.journal.earlyInterruptions chatId turnId = 0 := by
    have hle := earlyInterruptions_le s.journal chatId turnId
    omega
  have htracked : Tracked chatId turnId s.journal := by
    refine ⟨h.sorted, ?_, by omega, by omega, by omega⟩
    rw [hinterruptions, hearly, if_pos rfl, h.replayed, hactive]
  have hpending : Pending chatId turnId 0 s := ⟨htracked, hactive, (h.replayed chatId).trans hactive, hearly⟩
  have hholds : (closeTurns (Dict.items activeTurns)).Holds RecoveryOp.exec (fun _ _ => True)
      (fun s => Tracked chatId turnId s.journal) (fun _ _ => True) s := by
    cases hlookup : activeTurns.lookup chatId with
    | none =>
      have hout : chatId ∉ (Dict.items activeTurns).map Prod.fst := by
        intro hin
        rw [← Dict.keys, Dict.mem_keys, hlookup] at hin
        cases hin
      have hothers := holds_sameChat (safe_forTurns (fun _ => safe_closeTurn) hout) s
      exact hothers.mono (fun _ hsame => htracked.of_same hsame) fun _ _ _ _ => trivial
    | some other =>
      have hmem := Dict.mem_items.mpr hlookup
      have hnodup := Dict.nodup_keys activeTurns
      by_cases hown : other = turnId
      · subst hown
        have hclose := holds_forTurns (fun _ => safe_closeTurn)
          (fun s (hs : Pending chatId other 0 s ∧ s.journal.markers chatId other = 0) =>
            holds_closeTurn hs.1 hs.2)
          (fun _ _ hs hsame => ⟨hs.1.of_same hsame, (hsame.markers other).trans hs.2⟩)
          (fun _ _ hs hsame => hs.of_same hsame) (fun _ hs => hs.1.tracked) (fun _ hs => hs.tracked)
          hnodup hmem ⟨hpending, hmarkers⟩
        exact hclose.mono (fun _ hs => hs) fun _ _ _ _ => trivial
      · have hclose := holds_forTurns (fun _ => safe_closeTurn)
          (fun s hs => holds_closeTurn_of_ne hs hown) (fun _ _ hs hsame => hs.of_same hsame)
          (fun _ _ hs hsame => hs.of_same hsame) (fun _ hs => hs.tracked) (fun _ hs => hs.tracked)
          hnodup hmem hpending
        exact hclose.mono (fun _ hs => hs) fun _ _ _ _ => trivial
  exact (hholds.runUntil (fun _ _ => trivial) attempt.limit).1

/-- A start has closed what was running: no chat is active, and every turn is ended and marked once. -/
structure ClosedOnce (s started : Server) : Prop where
  inactive : ∀ chatId, started.state.activeTurn chatId = none
  once : ∀ chatId turnId, s.state.activeTurn chatId = some turnId →
    started.journal.interruptions chatId turnId = 1 ∧ started.journal.markers chatId turnId = 1

/-- After a shutdown and starts that are cut off anywhere, the first start that completes has closed
every turn once, exactly when no interruption that was written before is stamped before the start of a
turn of its chat. -/
theorem recovery_closedOnce_iff {s : Server} (h : s.Running) (activeTurns : List (String × String))
    (shutdown : Attempt) (cutOff : List Attempt) (attempt : Attempt)
    (hcomplete : (((s.shutdown activeTurns shutdown).crash cutOff).boot attempt).1 = some ()) :
    ClosedOnce s (((s.shutdown activeTurns shutdown).crash cutOff).boot attempt).2 ↔
      ∀ chatId turnId, s.state.activeTurn chatId = some turnId →
        ((s.shutdown activeTurns shutdown).crash cutOff).earlyInterruptions chatId turnId = 0 := by
  have hclosed := fun chatId turnId (hactive : s.state.activeTurn chatId = some turnId) =>
    (boot_tracked attempt (crash_tracked (shutdown_tracked shutdown h hactive activeTurns) cutOff)).2 hcomplete
  constructor
  · intro honce chatId turnId hactive
    have hcount := (hclosed chatId turnId hactive).1
    have hone := (honce.once chatId turnId hactive).1
    omega
  · intro hearly
    refine ⟨boot_inactive attempt hcomplete, fun chatId turnId hactive => ?_⟩
    obtain ⟨hcount, hmarkers⟩ := hclosed chatId turnId hactive
    have hzero := hearly chatId turnId hactive
    exact ⟨by omega, hmarkers⟩

lemma user_nonempty : "user" ≠ "" := by
  decide

/-- Two chats of one project, each with a turn that was started at 20. -/
def twoTurns : Server :=
  let created : String → Identity → StoreEvent := fun chatId request =>
    .chat 1 chatId (.created ⟨"user", user_nonempty⟩ request none "p" "New Chat" .claudeDeepseek none)
  let started : String → String → StoreEvent := fun chatId turnId =>
    .turn 20 chatId (.started turnId "model" "request" "digest")
  let journal : Journal :=
    { snapshot := createEmptyState
      logs := fun source =>
        if source = 1 then [created "c1" ⟨"first", by decide⟩, created "c2" ⟨"second", by decide⟩]
        else if source = 3 then [started "c1" "t1", started "c2" "t2"] else []
      transcripts := fun _ => [] }
  ⟨journal, journal.replayed⟩

lemma running_twoTurns : twoTurns.Running where
  sorted := by
    unfold Sorted
    with_unfolding_all decide
  replayed _ := rfl
  fresh chatId turnId hactive := by
    have hall : ∀ turn ∈ interruptedTurns twoTurns.state,
        twoTurns.journal.interruptions turn.1 turn.2 = 0 ∧ twoTurns.journal.markers turn.1 turn.2 = 0 := by
      with_unfolding_all decide
    exact hall _ (mem_interruptedTurns.mpr hactive)

/-- An attempt at one time that makes so many calls. -/
def attemptAt (now : ℤ) (limit : ℕ) : Attempt := ⟨fun _ _ => ⟨now, "entry"⟩, limit⟩

/-- A shutdown that marks the first turn, and a start that ends it and marks the second. -/
theorem recovery_closedOnce_twice : ClosedOnce twoTurns
    (((twoTurns.shutdown [("c1", "t1"), ("c2", "t2")] (attemptAt 30 1)).crash [attemptAt 31 4]).boot
      (attemptAt 32 9)).2 := by
  refine (recovery_closedOnce_iff running_twoTurns _ _ _ _ (by with_unfolding_all decide)).mpr ?_
  intro chatId turnId hactive
  have hall : ∀ turn ∈ interruptedTurns twoTurns.state,
      ((twoTurns.shutdown [("c1", "t1"), ("c2", "t2")] (attemptAt 30 1)).crash
        [attemptAt 31 4]).earlyInterruptions turn.1 turn.2 = 0 := by
    with_unfolding_all decide
  exact hall _ (mem_interruptedTurns.mpr hactive)

/-- A start whose clock was set back ends a turn before it was started: the next start ends it again. -/
theorem recovery_repeats : ¬ ∀ (s : Server) (activeTurns : List (String × String)) (shutdown : Attempt)
    (cutOff : List Attempt) (attempt : Attempt), s.Running →
    (((s.shutdown activeTurns shutdown).crash cutOff).boot attempt).1 = some () →
      ClosedOnce s (((s.shutdown activeTurns shutdown).crash cutOff).boot attempt).2 := by
  intro h
  have honce := (h twoTurns [] (attemptAt 30 0) [attemptAt 10 3] (attemptAt 32 9) running_twoTurns
    (by with_unfolding_all decide)).once "c1" "t1" (by with_unfolding_all decide)
  revert honce
  with_unfolding_all decide

end Starts

end TradeFramework.EventStore
