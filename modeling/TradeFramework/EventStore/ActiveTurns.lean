import TradeFramework.EventStore.Replay

/-!
# Active turns

What the events of a chat make of its active turn. In a replay the end of a turn is lost exactly
when a start of a turn of the chat is sorted behind it.
-/

namespace TradeFramework.EventStore

open Reordering

section Views

/-- Whether a chat is deleted, and its active turn. -/
abbrev TurnView := Option (Bool × Option String)

def ChatRecord.turnView (chat : ChatRecord) : Bool × Option String := (chat.deleted, chat.activeTurnId)

def StoreState.turnView (s : StoreState) (chatId : String) : TurnView :=
  (s.chatsById.lookup chatId).map ChatRecord.turnView

/-- The active turn of a chat that is not deleted. -/
def StoreState.activeTurn (s : StoreState) (chatId : String) : Option String :=
  (s.requireChat chatId).bind fun chat => chat.activeTurnId.filter (· ≠ "")

def TurnEvent.activeAfter : TurnEvent → Option String → Option String
  | .started turnId _ _ _, _ => some turnId
  | .finished turnId, active | .failed turnId _ _ _, active | .cancelled turnId, active
  | .interrupted turnId, active => if active = some turnId then none else active
  | .sessionTokenSet _, active | .pendingForkSessionTokenSet _, active => active

def StoreEvent.onTurn (chatId : String) : TurnView → StoreEvent → TurnView
  | view, .chat t id event =>
    if id ≠ chatId then view
    else match event with
      | .created _ _ _ _ _ _ _ => some (false, none)
      | .deleted => view.map fun v => (truthy (some t), v.2)
      | _ => view
  | view, .turn _ id event =>
    if id ≠ chatId then view else view.map fun v => (v.1, event.activeAfter v.2)
  | view, .queuedMessage _ _ _ | view, .project _ _ _ => view

/-- A turn of the chat is started. -/
def StoreEvent.startsTurn (chatId : String) : StoreEvent → Bool
  | .turn _ id (.started _ _ _ _) => id = chatId
  | _ => false

variable {s : StoreState} {chatId : String}

lemma activeTurn_eq_some {turnId : String} :
    s.activeTurn chatId = some turnId ↔ s.turnView chatId = some (false, some turnId) ∧ turnId ≠ "" := by
  unfold StoreState.activeTurn StoreState.turnView StoreState.requireChat
  cases s.chatsById.lookup chatId with
  | none => simp
  | some chat =>
    cases hdeleted : chat.deleted with
    | true => simp [Option.filter, ChatRecord.turnView, hdeleted]
    | false =>
      cases hactive : chat.activeTurnId with
      | none => simp [Option.filter, ChatRecord.turnView, hdeleted, hactive]
      | some active =>
        by_cases hblank : active = ""
        · simp [Option.filter, ChatRecord.turnView, hdeleted, hactive, hblank]
        · simp [Option.filter, ChatRecord.turnView, hdeleted, hactive, hblank]
          rintro rfl
          exact hblank

lemma activeTurn_congr {s' : StoreState} (h : s'.turnView chatId = s.turnView chatId) :
    s'.activeTurn chatId = s.activeTurn chatId := by
  ext turnId
  simp only [activeTurn_eq_some, h]

lemma TurnEvent.turnView_update (event : TurnEvent) (t : ℤ) (chat : ChatRecord) :
    (event.update t chat).turnView = (chat.deleted, event.activeAfter chat.activeTurnId) := by
  cases event <;> dsimp only [TurnEvent.update, TurnEvent.activeAfter] <;> (try split_ifs) <;>
    simp_all [ChatRecord.turnView, ChatRecord.deleted]

lemma turnView_updateChat {id : String} {f : ChatRecord → ChatRecord}
    {g : Bool × Option String → Bool × Option String} (h : ∀ chat, (f chat).turnView = g chat.turnView) :
    (s.updateChat id f).turnView chatId =
      if id ≠ chatId then s.turnView chatId else (s.turnView chatId).map g := by
  unfold StoreState.turnView
  rw [lookup_updateChat]
  by_cases hid : id = chatId
  · subst hid
    rw [if_pos rfl, if_neg (not_not.mpr rfl), Option.map_map, Option.map_map]
    congr 1
    funext chat
    exact h chat
  · rw [if_neg (Ne.symm hid), if_pos hid]

/-- Events that do not touch the view of a chat. -/
lemma turnView_updateChat_self {id : String} {f : ChatRecord → ChatRecord}
    (h : ∀ chat, (f chat).turnView = chat.turnView) :
    (s.updateChat id f).turnView chatId = s.turnView chatId := by
  rw [turnView_updateChat (g := fun v => v) h]
  split_ifs
  · rfl
  · exact Option.map_id'

lemma turnView_created (t : ℤ) (id : String) (ownerId createRequestId : Identity)
    (sourceChatId : Option String) (projectId title : String) (provider : AgentProvider)
    (lastTurnEndedAt : Option ℤ) :
    (applyEvent s (.chat t id (.created ownerId createRequestId sourceChatId projectId title provider
      lastTurnEndedAt))).turnView chatId = if id ≠ chatId then s.turnView chatId else some (false, none) := by
  unfold StoreState.turnView
  dsimp only [applyEvent]
  rw [Dict.lookup_set]
  by_cases hid : id = chatId
  · subst hid
    rw [if_pos rfl, if_neg (not_not.mpr rfl)]
    rfl
  · rw [if_neg (Ne.symm hid), if_pos hid]

lemma turnView_deleted (t : ℤ) (id : String) :
    (applyEvent s (.chat t id .deleted)).turnView chatId =
      if id ≠ chatId then s.turnView chatId else (s.turnView chatId).map fun v => (truthy (some t), v.2) := by
  have hview : (s.updateChat id fun chat => ChatEvent.deleted.update t chat).turnView chatId =
      if id ≠ chatId then s.turnView chatId else (s.turnView chatId).map fun v => (truthy (some t), v.2) :=
    turnView_updateChat fun _ => rfl
  dsimp only [applyEvent]
  split_ifs with hnone hid hid
  · rfl
  · rw [not_not] at hid
    subst hid
    unfold StoreState.turnView
    rw [Option.isNone_iff_eq_none.mp hnone]
    rfl
  · exact hview.trans (if_pos hid)
  · exact hview.trans (if_neg hid)

/-- An event changes the view of a chat as it says. -/
lemma turnView_applyEvent (e : StoreEvent) :
    (applyEvent s e).turnView chatId = e.onTurn chatId (s.turnView chatId) := by
  cases e with
  | project t projectId event =>
    cases event with
    | opened title kind => rfl
    | _ =>
      unfold StoreState.turnView
      dsimp only [applyEvent]
      rw [(updateProject_rest _ _ _).1]
      rfl
  | queuedMessage t id event =>
    dsimp only [applyEvent]
    rw [turnView_updateChat_self (f := QueuedMessageEvent.update t) fun _ => rfl]
    unfold StoreState.turnView
    rw [(updateQueue_rest s id event).2]
    rfl
  | turn t id event => exact turnView_updateChat fun chat => event.turnView_update t chat
  | chat t id event =>
    cases event with
    | created => exact turnView_created ..
    | deleted => exact turnView_deleted t id
    | _ =>
      dsimp only [applyEvent, StoreEvent.onTurn]
      rw [ite_self]
      exact turnView_updateChat_self fun _ => rfl

end Views

section Replays

variable {chatId turnId : String} {now : ℤ}

lemma turnView_foldl (s : StoreState) (events : List StoreEvent) :
    (events.foldl applyEvent s).turnView chatId =
      events.foldl (fun view e => e.onTurn chatId view) (s.turnView chatId) := by
  induction events generalizing s with
  | nil => rfl
  | cons e events ih => rw [List.foldl_cons, ih, turnView_applyEvent, List.foldl_cons]

/-- `turn_interrupted`. -/
def interruption (now : ℤ) (chatId turnId : String) : StoreEvent :=
  .turn now chatId (.interrupted turnId)

lemma onTurn_interruption (view : TurnView) : (interruption now chatId turnId).onTurn chatId view =
    view.map fun v => (v.1, if v.2 = some turnId then none else v.2) := by
  simp [interruption, StoreEvent.onTurn, TurnEvent.activeAfter]

lemma onTurn_interruption_of_ne {id : String} (h : id ≠ chatId) (view : TurnView) :
    (interruption now id turnId).onTurn chatId view = view := by
  simp [interruption, StoreEvent.onTurn, h]

/-- The end of a turn and what is no start of a turn of the chat may change places. -/
lemma onTurn_swap {d : StoreEvent} (h : d.startsTurn chatId = false) :
    Swap (fun view e => StoreEvent.onTurn chatId view e) (interruption now chatId turnId) d := by
  intro view
  dsimp only
  rw [onTurn_interruption, onTurn_interruption]
  cases d with
  | chat t id event =>
    cases event <;> dsimp only [StoreEvent.onTurn] <;> split_ifs <;> cases view <;> rfl
  | turn t id event =>
    cases event <;> dsimp only [StoreEvent.onTurn] <;> split_ifs with hid <;> cases view <;>
      simp_all [StoreEvent.startsTurn, TurnEvent.activeAfter] <;> grind
  | queuedMessage t id event => rfl
  | project t projectId event => rfl

/-- A start makes the end of a turn before it unseen. -/
lemma onTurn_start {d : StoreEvent} (h : d.startsTurn chatId = true) (view : TurnView) :
    d.onTurn chatId ((interruption now chatId turnId).onTurn chatId view) = d.onTurn chatId view := by
  rw [onTurn_interruption]
  cases d with
  | turn t id event =>
    cases event with
    | started =>
      dsimp only [StoreEvent.onTurn]
      split_ifs
      · simp_all [StoreEvent.startsTurn]
      · cases view <;> rfl
    | _ => cases h
  | _ => cases h

/-- The end of a turn before other events is unseen behind a start, and else shows. -/
lemma foldl_onTurn_interruption (events : List StoreEvent) (view : TurnView) :
    events.foldl (fun view e => StoreEvent.onTurn chatId view e)
        ((interruption now chatId turnId).onTurn chatId view) =
      if events.any (StoreEvent.startsTurn chatId) then
        events.foldl (fun view e => StoreEvent.onTurn chatId view e) view
      else (interruption now chatId turnId).onTurn chatId
        (events.foldl (fun view e => StoreEvent.onTurn chatId view e) view) := by
  induction events generalizing view with
  | nil => rfl
  | cons d events ih =>
    rw [List.foldl_cons, List.foldl_cons, List.any_cons]
    cases hstart : d.startsTurn chatId with
    | true => rw [onTurn_start hstart, Bool.true_or, if_pos rfl]
    | false =>
      have hswap : d.onTurn chatId ((interruption now chatId turnId).onTurn chatId view) =
          (interruption now chatId turnId).onTurn chatId (d.onTurn chatId view) := onTurn_swap hstart view
      rw [hswap, ih, Bool.false_or]

end Replays

section Appended

variable {written : Fin 4 → List StoreEvent} {chatId turnId : String} {now : ℤ}

/-- A turn of the chat is started after a time. -/
def startsLater (turns : List StoreEvent) (chatId : String) (now : ℤ) : Bool :=
  turns.any fun e => e.startsTurn chatId && decide (now < e.timestamp)

/-- Starts are replayed behind the end of a turn exactly when they are later. -/
lemma replayed_behind (hsorted : Sorted written) {d : ParsedReplayEvent} (hd : d ∈ numbered written)
    (hstart : d.event.startsTurn chatId = true) {p : ParsedReplayEvent}
    (hp : p.event = interruption now chatId turnId) (hsource : p.sourceIndex = p.event.source) :
    replayOrder p d ↔ now < d.event.timestamp := by
  rw [replayOrder_iff p d hsource (hsorted.source hd), hp]
  have hevent : ∃ t id turnId model request digest, d.event = .turn t id (.started turnId model request digest) := by
    cases hcase : d.event with
    | turn t id event =>
      cases event with
      | started turnId model request digest => exact ⟨t, id, turnId, model, request, digest, rfl⟩
      | _ =>
        rw [hcase] at hstart
        cases hstart
    | _ =>
      rw [hcase] at hstart
      cases hstart
  obtain ⟨t, id, started, model, request, digest, hevent⟩ := hevent
  rw [hevent]
  unfold StoreEvent.rank interruption
  simp only [Prod.Lex.toLex_lt_toLex, toLex_inj, Prod.mk.injEq, StoreEvent.timestamp,
    getReplayEventPriority, StoreEvent.source]
  omega

lemma source_of_startsTurn {e : StoreEvent} (h : e.startsTurn chatId = true) : e.source = 3 := by
  cases e with
  | turn t id event => rfl
  | _ => cases h

/-- The events of the turn log, as a load numbers them. -/
lemma mem_turns_iff (hsorted : Sorted written) {e : StoreEvent} (hsource : e.source = 3) :
    e ∈ written 3 ↔ ∃ d ∈ numbered written, d.event = e := by
  constructor
  · intro he
    rw [← map_number 3 0 (written 3)] at he
    obtain ⟨d, hd, hevent⟩ := List.mem_map.mp he
    refine ⟨d, ?_, hevent⟩
    unfold numbered
    simp [hd]
  · rintro ⟨d, hd, rfl⟩
    obtain ⟨-, hget⟩ := mem_numbered hd
    rw [hsorted.source hd, hsource] at hget
    exact List.mem_of_getElem? hget

/-- What the end of a turn, put in the turn log, makes of a replay. -/
theorem turnView_replayEvents_appended (hsorted : Sorted written) (base : StoreState) (id : String) :
    (replayEvents base (numbered (appended written (interruption now chatId turnId)))).turnView id =
      if id = chatId ∧ startsLater (written 3) chatId now = false then
        (interruption now chatId turnId).onTurn chatId
          ((replayEvents base (numbered written)).turnView chatId)
      else (replayEvents base (numbered written)).turnView id := by
  obtain ⟨before, after, hold, hnew, hbefore, hafter⟩ :=
    insertionSort_of_perm (perm_appended written (interruption now chatId turnId))
      fun _ hp _ hq => numbered_distinct hp hq
  unfold replayEvents
  rw [hold, hnew]
  simp only [turnView_foldl, turnView_applyEvent, List.map_append, List.map_cons, List.foldl_append,
    List.foldl_cons]
  by_cases hid : id = chatId
  · subst hid
    rw [foldl_onTurn_interruption]
    have hlater : (after.map ParsedReplayEvent.event).any (StoreEvent.startsTurn id) =
        startsLater (written 3) id now := by
      rw [Bool.eq_iff_iff]
      unfold startsLater
      simp only [List.any_eq_true, List.mem_map, Bool.and_eq_true, decide_eq_true_eq]
      constructor
      · rintro ⟨e, ⟨d, hd, rfl⟩, hstart⟩
        have hmem : d ∈ numbered written := by
          rw [← List.mem_insertionSort replayOrder, hold]
          exact List.mem_append_right _ hd
        refine ⟨d.event, (mem_turns_iff hsorted (source_of_startsTurn hstart)).mpr ⟨d, hmem, rfl⟩, hstart, ?_⟩
        exact (replayed_behind hsorted hmem hstart rfl rfl).mp (hafter d hd)
      · rintro ⟨e, he, hstart, htime⟩
        obtain ⟨d, hmem, rfl⟩ := (mem_turns_iff hsorted (source_of_startsTurn hstart)).mp he
        have hbehind : replayOrder ⟨interruption now id turnId, 3, (written 3).length⟩ d :=
          (replayed_behind hsorted hmem hstart rfl rfl).mpr htime
        rw [← List.mem_insertionSort replayOrder, hold] at hmem
        obtain hd | hd := List.mem_append.mp hmem
        · exact absurd hbehind (hbefore d hd)
        · exact ⟨_, ⟨d, hd, rfl⟩, hstart⟩
    rw [hlater]
    cases startsLater (written 3) id now <;> simp
  · rw [onTurn_interruption_of_ne (Ne.symm hid), if_neg fun h => hid h.1]

end Appended

end TradeFramework.EventStore
