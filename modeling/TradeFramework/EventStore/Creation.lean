import TradeFramework.EventStore.Replay

/-!
# Creating chats once

A client repeats `createChat` and `forkChat` under one request id. The lookup for the chat of an
earlier call sees the memory, and a chat is in the memory only when its append has had its turn on
the write chain: a repetition in between makes a second chat.
-/

namespace TradeFramework.EventStore

section Requests

/-- The owner and the request that made a chat. -/
def ChatRecord.request (chat : ChatRecord) : Identity × Identity := (chat.ownerId, chat.createRequestId)

def StoreState.requestOf (s : StoreState) (chatId : String) : Option (Identity × Identity) :=
  (s.chatsById.lookup chatId).map ChatRecord.request

/-- The chat that an event creates, and the request it is created for. -/
def StoreEvent.creates : StoreEvent → Option (String × (Identity × Identity))
  | .chat _ chatId (.created ownerId createRequestId _ _ _ _ _) =>
    some (chatId, (ownerId, createRequestId))
  | _ => none

variable {s : StoreState} {e : StoreEvent} {chatId : String} {request : Identity × Identity}

lemma requestOf_updateChat (id : String) {f : ChatRecord → ChatRecord}
    (h : ∀ chat, (f chat).request = chat.request) :
    (s.updateChat chatId f).requestOf id = s.requestOf id := by
  unfold StoreState.requestOf
  rw [lookup_updateChat]
  by_cases hid : id = chatId
  · subst hid
    rw [if_pos rfl, Option.map_map]
    congr 1
    funext chat
    exact h chat
  · rw [if_neg hid]

lemma ChatEvent.request_update (event : ChatEvent) (t : ℤ) (chat : ChatRecord) :
    (event.update t chat).request = chat.request := by
  cases event <;> rfl

lemma TurnEvent.request_update (event : TurnEvent) (t : ℤ) (chat : ChatRecord) :
    (event.update t chat).request = chat.request := by
  cases event <;>
    first
    | rfl
    | dsimp only [TurnEvent.update]
      split_ifs <;> rfl

/-- A chat keeps the request that made it. -/
lemma requestOf_applyEvent (h : e.creates = none) (id : String) :
    (applyEvent s e).requestOf id = s.requestOf id := by
  cases e with
  | project t projectId event =>
    cases event with
    | opened title kind => rfl
    | _ =>
      unfold StoreState.requestOf
      dsimp only [applyEvent]
      rw [(updateProject_rest _ _ _).1]
  | queuedMessage t chatId event =>
    dsimp only [applyEvent]
    rw [requestOf_updateChat (f := QueuedMessageEvent.update t) id fun _ => rfl]
    unfold StoreState.requestOf
    rw [(updateQueue_rest s chatId event).2]
  | turn t chatId event => exact requestOf_updateChat id fun chat => event.request_update t chat
  | chat t chatId event =>
    cases event with
    | created => cases h
    | deleted =>
      dsimp only [applyEvent]
      split_ifs
      · rfl
      · exact requestOf_updateChat id fun chat => ChatEvent.deleted.request_update t chat
    | _ => exact requestOf_updateChat id fun _ => rfl

lemma requestOf_applyEvent_created (h : e.creates = some (chatId, request)) (id : String) :
    (applyEvent s e).requestOf id = if id = chatId then some request else s.requestOf id := by
  cases e with
  | chat t chatId' event =>
    cases event with
    | created =>
      cases h
      unfold StoreState.requestOf
      dsimp only [applyEvent]
      rw [Dict.lookup_set]
      by_cases hid : id = chatId
      · rw [if_pos hid, if_pos hid]
        rfl
      · rw [if_neg hid, if_neg hid]
    | _ => cases h
  | _ => cases h

lemma requested_eq_false {ownerId createRequestId : Identity}
    (h : s.requested ownerId createRequestId = false) (id : String) :
    s.requestOf id ≠ some (ownerId, createRequestId) := by
  intro hid
  obtain ⟨chat, hchat, hrequest⟩ := Option.map_eq_some_iff.mp hid
  rw [StoreState.requested, List.any_eq_false] at h
  apply h (id, chat) (Dict.mem_items.mpr hchat)
  have hsame := Prod.mk.inj hrequest
  simp [hsame.1, hsame.2]

end Requests

section Answers

/-- What a call asks for, its owner and request apart. -/
inductive CreationInput
  | create (projectId : String) (provider : AgentProvider)
  | fork (sourceChatId : String)

/-- A call that returns, and the chat it returns. -/
structure Answer where
  ownerId : Identity
  createRequestId : Identity
  input : CreationInput
  chatId : String

def Answer.request (a : Answer) : Identity × Identity := (a.ownerId, a.createRequestId)

/-- The chat that `createChat` and `forkChat` find for a request. -/
def StoreState.requestedChat (s : StoreState) (ownerId createRequestId : Identity) :
    Option (String × ChatRecord) :=
  (Dict.items s.chatsById).find? fun c => c.2.ownerId = ownerId ∧ c.2.createRequestId = createRequestId

/-- The answer of a call: the chat that is there, unless it was made from other input, or the chat
it makes; none when it throws. -/
def Operation.answer (s : StoreState) : Operation → Option Answer
  | createChat chatId projectId ownerId clientRequestId provider =>
    (s.getProject projectId).bind fun _ =>
      match s.requestedChat ownerId clientRequestId with
      | some (existing, chat) =>
        if chat.projectId ≠ projectId ∨ chat.provider ≠ some provider ∨ truthyText chat.createSourceChatId
        then none else some ⟨ownerId, clientRequestId, .create projectId provider, existing⟩
      | none => some ⟨ownerId, clientRequestId, .create projectId provider, chatId⟩
  | forkChat chatId sourceChatId createRequestId =>
    (s.requireChat sourceChatId).bind fun source =>
      source.provider.bind fun _ =>
        if (StoreState.forkToken source).isNone then none
        else match s.requestedChat source.ownerId createRequestId with
          | some (existing, chat) =>
            if chat.createSourceChatId ≠ some sourceChatId then none
            else some ⟨source.ownerId, createRequestId, .fork sourceChatId, existing⟩
          | none => some ⟨source.ownerId, createRequestId, .fork sourceChatId, chatId⟩
  | _ => none

/-- The id a call draws for a new chat. -/
def Operation.drawn : Operation → Option String
  | createChat chatId _ _ _ _ => some chatId
  | forkChat chatId _ _ => some chatId
  | _ => none

variable {s : StoreState} {operation : Operation} {now : ℤ}

lemma requestedChat_request {ownerId createRequestId : Identity} {c : String × ChatRecord}
    (h : s.requestedChat ownerId createRequestId = some c) : c.2.request = (ownerId, createRequestId) := by
  have hsame := List.find?_some h
  have hfields : c.2.ownerId = ownerId ∧ c.2.createRequestId = createRequestId := by simpa using hsame
  rw [ChatRecord.request, hfields.1, hfields.2]

lemma requestedChat_eq_some {ownerId createRequestId : Identity} {c : String × ChatRecord}
    (h : s.requestedChat ownerId createRequestId = some c) :
    s.requestOf c.1 = some (ownerId, createRequestId) := by
  unfold StoreState.requestOf
  rw [Dict.mem_items.mp (List.mem_of_find?_eq_some h), Option.map_some, requestedChat_request h]

lemma requestedChat_eq_none {ownerId createRequestId : Identity}
    (h : s.requestedChat ownerId createRequestId = none) :
    s.requested ownerId createRequestId = false := by
  unfold StoreState.requestedChat at h
  rw [List.find?_eq_none] at h
  rw [StoreState.requested, List.any_eq_false]
  exact h

/-- A new chat is made for a request that has none in the memory. -/
lemma creates_of_event {e : StoreEvent} {chatId : String} {request : Identity × Identity}
    (h : operation.event now s = some e) (hcreates : e.creates = some (chatId, request)) :
    operation.drawn = some chatId ∧ ∀ id, s.requestOf id ≠ some request := by
  cases operation with
  | createChat id projectId ownerId clientRequestId provider =>
    simp only [Operation.event] at h
    obtain ⟨project, -, h⟩ := Option.bind_eq_some_iff.mp h
    split_ifs at h with hrequested
    cases h
    cases hcreates
    exact ⟨rfl, requested_eq_false (by simpa using hrequested)⟩
  | forkChat id sourceChatId createRequestId =>
    simp only [Operation.event] at h
    obtain ⟨source, -, h⟩ := Option.bind_eq_some_iff.mp h
    obtain ⟨provider, -, h⟩ := Option.bind_eq_some_iff.mp h
    split_ifs at h with htoken hrequested
    cases h
    cases hcreates
    exact ⟨rfl, requested_eq_false (by simpa using hrequested)⟩
  | _ =>
    exfalso
    simp only [Operation.event, Operation.setting, Operation.ending] at h
    grind [StoreEvent.creates, Option.bind_eq_some_iff, Option.map_eq_some_iff]

end Answers

section Repetitions

/-- The chat was made from this input, as `createChat` and `forkChat` compare it. -/
def ChatRecord.MadeFrom (chat : ChatRecord) : CreationInput → Prop
  | .create projectId provider =>
    chat.projectId = projectId ∧ chat.provider = some provider ∧ truthyText chat.createSourceChatId = false
  | .fork sourceChatId => chat.createSourceChatId = some sourceChatId

/-- The chat of an answer is in the memory, made for its request from its input. -/
def StoreState.Holds (s : StoreState) (a : Answer) : Prop :=
  ∃ chat, s.chatsById.lookup a.chatId = some chat ∧ chat.request = a.request ∧ chat.MadeFrom a.input

/-- The event makes the chat of an answer. -/
def StoreEvent.Makes (e : StoreEvent) (a : Answer) : Prop :=
  e.creates = some (a.chatId, a.request) ∧ ∀ s, (applyEvent s e).Holds a

/-- The project or the source chat that a call asks for is there. -/
def StoreState.Offers (s : StoreState) (a : Answer) : Prop :=
  match a.input with
  | .create projectId _ => ∃ project, s.getProject projectId = some project
  | .fork sourceChatId => ∃ source provider, s.requireChat sourceChatId = some source ∧
      source.ownerId = a.ownerId ∧ source.provider = some provider ∧ (StoreState.forkToken source).isNone = false

/-- A call that repeats another one, its own id apart. -/
def Operation.Repeats (a : Answer) : Operation → Prop
  | createChat _ projectId ownerId clientRequestId provider =>
    a.request = (ownerId, clientRequestId) ∧ a.input = .create projectId provider
  | forkChat _ sourceChatId createRequestId =>
    a.createRequestId = createRequestId ∧ a.input = .fork sourceChatId
  | _ => False

variable {s : StoreState} {operation : Operation} {a : Answer}

/-- A repetition is answered with the chat that was made from its input. -/
lemma answer_of_repeats (hrepeats : operation.Repeats a) (hoffers : s.Offers a) (hholds : s.Holds a)
    (hone : ∀ id, s.requestOf id = some a.request → id = a.chatId) : operation.answer s = some a := by
  obtain ⟨chat, hchat, hrequest, hmade⟩ := hholds
  have hfound : ∀ ownerId createRequestId, a.request = (ownerId, createRequestId) →
      s.requestedChat ownerId createRequestId = some (a.chatId, chat) := by
    intro ownerId createRequestId hsame
    cases hlookup : s.requestedChat ownerId createRequestId with
    | none =>
      have hnone := requested_eq_false (requestedChat_eq_none hlookup) a.chatId
      rw [StoreState.requestOf, hchat, Option.map_some, hrequest, hsame] at hnone
      exact absurd rfl hnone
    | some c =>
      have hid := hone c.1 (hsame ▸ requestedChat_eq_some hlookup)
      have hmem := Dict.mem_items.mp (List.mem_of_find?_eq_some hlookup)
      rw [hid, hchat] at hmem
      rw [Option.some.injEq, Prod.ext_iff]
      exact ⟨hid, (Option.some.inj hmem).symm⟩
  obtain ⟨ownerId, createRequestId, input, chatId⟩ := a
  cases operation with
  | createChat id projectId owner clientRequestId provider =>
    obtain ⟨hsame, hinput⟩ := hrepeats
    cases hsame
    dsimp only at hinput
    subst hinput
    obtain ⟨project, hproject⟩ := hoffers
    obtain ⟨hprojectId, hprovider, hsource⟩ := hmade
    simp only [Operation.answer, hproject, Option.bind_some, hfound _ _ rfl]
    rw [if_neg]
    simp [hprojectId, hprovider, hsource]
  | forkChat id sourceChatId requestId =>
    obtain ⟨hsame, hinput⟩ := hrepeats
    dsimp only at hsame hinput
    subst hsame hinput
    obtain ⟨source, provider, hsource, howner, hprovider, htoken⟩ := hoffers
    dsimp only at howner
    subst howner
    simp only [Operation.answer, hsource, Option.bind_some, hprovider, hfound _ _ rfl, htoken]
    have hforked : chat.createSourceChatId = some sourceChatId := hmade
    rw [if_neg (by simp), if_neg (not_not.mpr hforked)]
  | _ => cases hrepeats

/-- A call returns a chat of its request that was made from its input: one that is there, or the one it makes. -/
lemma answer_made (now : ℤ) (h : operation.answer s = some a) :
    s.Offers a ∧ (s.Holds a ∨ ∃ e, operation.event now s = some e ∧ e.Makes a) := by
  cases operation with
  | createChat id projectId ownerId clientRequestId provider =>
    simp only [Operation.answer] at h
    obtain ⟨project, hproject, h⟩ := Option.bind_eq_some_iff.mp h
    cases hchat : s.requestedChat ownerId clientRequestId with
    | some c =>
      rw [hchat] at h
      dsimp only at h
      split_ifs at h with hother
      cases h
      simp only [not_or, ne_eq, not_not, Bool.not_eq_true] at hother
      exact ⟨⟨project, hproject⟩, Or.inl ⟨c.2, Dict.mem_items.mp (List.mem_of_find?_eq_some hchat),
        requestedChat_request hchat, hother⟩⟩
    | none =>
      rw [hchat] at h
      cases h
      refine ⟨⟨project, hproject⟩, Or.inr
        ⟨.chat now id (.created ownerId clientRequestId none projectId "New Chat" provider none), ?_, rfl, ?_⟩⟩
      · simp [Operation.event, hproject, requestedChat_eq_none hchat]
      · intro s
        exact ⟨_, Dict.lookup_set_self _ _ _, rfl, rfl, rfl, rfl⟩
  | forkChat id sourceChatId createRequestId =>
    simp only [Operation.answer] at h
    obtain ⟨source, hsource, h⟩ := Option.bind_eq_some_iff.mp h
    obtain ⟨provider, hprovider, h⟩ := Option.bind_eq_some_iff.mp h
    split_ifs at h with htoken
    cases hchat : s.requestedChat source.ownerId createRequestId with
    | some c =>
      rw [hchat] at h
      dsimp only at h
      split_ifs at h with hother
      cases h
      rw [not_not] at hother
      exact ⟨⟨source, provider, hsource, rfl, hprovider, Bool.eq_false_iff.mpr htoken⟩, Or.inl
        ⟨c.2, Dict.mem_items.mp (List.mem_of_find?_eq_some hchat), requestedChat_request hchat, hother⟩⟩
    | none =>
      rw [hchat] at h
      cases h
      refine ⟨⟨source, provider, hsource, rfl, hprovider, Bool.eq_false_iff.mpr htoken⟩, Or.inr
        ⟨.chat now id (.created source.ownerId createRequestId (some sourceChatId)
          source.projectId (getForkedChatTitle source.title) provider source.lastTurnEndedAt), ?_, rfl, ?_⟩⟩
      · have hsession := Option.isNone_iff_eq_none.not.mp htoken
        simp [Operation.event, hsource, hprovider, requestedChat_eq_none hchat, hsession]
      · intro s
        exact ⟨_, Dict.lookup_set_self _ _ _, rfl, rfl⟩
  | _ => cases h

/-- A call returns a chat of its request: one that is there, or the one it makes. -/
lemma answer_eq_some (now : ℤ) (h : operation.answer s = some a) :
    s.requestOf a.chatId = some a.request ∨
      ∃ e, operation.event now s = some e ∧ e.creates = some (a.chatId, a.request) := by
  obtain ⟨-, ⟨chat, hchat, hrequest, -⟩ | ⟨e, hevent, hcreates, -⟩⟩ := answer_made now h
  · rw [StoreState.requestOf, hchat, Option.map_some, hrequest]
    exact Or.inl rfl
  · exact Or.inr ⟨e, hevent, hcreates⟩

end Repetitions

/-- A store, and the answers its calls have given or will give. -/
structure Creations where
  store : Store
  answers : List Answer

namespace Creations

variable (c : Creations)

/-- The chats that wait on the write chain. -/
def waiting : List (String × (Identity × Identity)) :=
  c.store.chain.filterMap fun work =>
    match work with
    | .event e => e.creates
    | .copyTranscript _ _ => none

/-- A chat is in the memory, or waits for its append. -/
def Created (chatId : String) (request : Identity × Identity) : Prop :=
  c.store.state.requestOf chatId = some request ∨ (chatId, request) ∈ c.waiting

def step (c : Creations) (call : StoreCall) : Creations where
  store := c.store.step call
  answers := c.answers ++
    match call with
    | .call _ operation => (operation.answer c.store.state).toList
    | _ => []

/-- A request has one chat, a chat one request, and every answer is the chat of its request. -/
structure Idempotent : Prop where
  one : ∀ {id id' request}, c.Created id request → c.Created id' request → id = id'
  kept : ∀ {id request request'}, c.Created id request → c.Created id request' → request = request'
  answered : ∀ a ∈ c.answers, c.Created a.chatId a.request

/-- The calls of one process, which draw ids that no chat has. -/
def Drawn (c : Creations) : StoreCall → Prop
  | .call _ operation => ∀ id ∈ operation.drawn,
    c.store.state.requestOf id = none ∧ ∀ w ∈ c.waiting, w.1 ≠ id
  | .restart => False
  | _ => True

/-- A call makes no chat for a request whose chat waits on the write chain. -/
def Serial (c : Creations) : StoreCall → Prop
  | .call now operation => ∀ made ∈ (operation.event now c.store.state).bind StoreEvent.creates,
    ∀ w ∈ c.waiting, w.2 ≠ made.2
  | _ => True

instance Drawn.decidable (c : Creations) : (call : StoreCall) → Decidable (c.Drawn call)
  | .call _ operation => inferInstanceAs (Decidable (∀ id ∈ operation.drawn,
      c.store.state.requestOf id = none ∧ ∀ w ∈ c.waiting, w.1 ≠ id))
  | .write => isTrue trivial
  | .compact _ => isTrue trivial
  | .restart => isFalse id

instance Serial.decidable (c : Creations) : (call : StoreCall) → Decidable (c.Serial call)
  | .call now operation =>
    inferInstanceAs (Decidable (∀ made ∈ (operation.event now c.store.state).bind StoreEvent.creates,
      ∀ w ∈ c.waiting, w.2 ≠ made.2))
  | .write => isTrue trivial
  | .compact _ => isTrue trivial
  | .restart => isTrue trivial

variable {c}

lemma mem_waiting {w : String × (Identity × Identity)} :
    w ∈ c.waiting ↔ ∃ e, ChainWork.event e ∈ c.store.chain ∧ e.creates = some w := by
  unfold waiting
  rw [List.mem_filterMap]
  constructor
  · rintro ⟨work, hwork, hcreates⟩
    cases work with
    | event e => exact ⟨e, hwork, hcreates⟩
    | copyTranscript chatId sourceChatId => cases hcreates
  · rintro ⟨e, he, hcreates⟩
    exact ⟨.event e, he, hcreates⟩

/-- Two calls of one request are answered with one chat. -/
lemma Idempotent.same (h : c.Idempotent) {a b : Answer} (ha : a ∈ c.answers) (hb : b ∈ c.answers)
    (hrequest : a.request = b.request) : a.chatId = b.chatId := by
  have hcreated := h.answered a ha
  rw [hrequest] at hcreated
  exact h.one hcreated (h.answered b hb)

/-- The event of a call goes to the write chain. -/
lemma event_mem_work {now : ℤ} {operation : Operation} {s : StoreState} {e : StoreEvent} :
    ChainWork.event e ∈ (operation.work now s).toList ↔ operation.event now s = some e := by
  rw [Option.mem_toList]
  cases operation with
  | copyTranscript id sourceChatId => simp [Operation.work, Operation.event]
  | _ => simp [Operation.work]

/-- The chats after a call: those there are, and the one it makes. -/
lemma created_call {now : ℤ} {operation : Operation} {id : String} {request : Identity × Identity} :
    (c.step (.call now operation)).Created id request ↔ c.Created id request ∨
      (operation.event now c.store.state).bind StoreEvent.creates = some (id, request) := by
  unfold Created
  rw [mem_waiting, mem_waiting, Option.bind_eq_some_iff, or_assoc]
  apply or_congr Iff.rfl
  constructor
  · rintro ⟨e, he, hcreates⟩
    obtain he | he := List.mem_append.mp he
    · exact Or.inl ⟨e, he, hcreates⟩
    · exact Or.inr ⟨e, event_mem_work.mp he, hcreates⟩
  · rintro (⟨e, he, hcreates⟩ | ⟨e, he, hcreates⟩)
    · exact ⟨e, List.mem_append_left _ he, hcreates⟩
    · exact ⟨e, List.mem_append_right _ (event_mem_work.mpr he), hcreates⟩

/-- An append neither makes nor loses a chat, where a chat has one request. -/
lemma created_write (h : c.Idempotent) {id : String} {request : Identity × Identity} :
    (c.step .write).Created id request ↔ c.Created id request := by
  unfold Created
  rw [mem_waiting, mem_waiting]
  cases hchain : c.store.chain with
  | nil => simp [step, Store.step, Store.write, hchain]
  | cons work rest =>
    cases work with
    | copyTranscript chatId sourceChatId =>
      have hstate : (c.store.copyTurns chatId sourceChatId).requestOf id =
          c.store.state.requestOf id := by
        unfold Store.copyTurns
        split
        · rfl
        · exact requestOf_updateChat id fun _ => rfl
      simp [step, Store.step, Store.write, hchain, hstate]
    | event e =>
      have hwrite : (c.step .write).store.state = applyEvent c.store.state e ∧
          (c.step .write).store.chain = rest := by
        simp [step, Store.step, Store.write, hchain]
      rw [hwrite.1, hwrite.2]
      cases hcreates : e.creates with
      | none =>
        rw [requestOf_applyEvent hcreates]
        grind
      | some made =>
        -- What the chat had as its request is what it is created for.
        rw [requestOf_applyEvent_created hcreates]
        have hmade : c.Created made.1 made.2 :=
          Or.inr (mem_waiting.mpr ⟨e, by rw [hchain]; exact List.mem_cons_self, hcreates⟩)
        by_cases hid : id = made.1
        · subst hid
          rw [if_pos rfl]
          constructor
          · rintro (hrequest | ⟨d, hd, hcreated⟩)
            · cases hrequest
              exact Or.inr ⟨e, List.mem_cons_self, hcreates⟩
            · exact Or.inr ⟨d, List.mem_cons_of_mem _ hd, hcreated⟩
          · intro hcreated
            rw [← hchain, ← mem_waiting] at hcreated
            rw [h.kept hcreated hmade]
            exact Or.inl rfl
        · rw [if_neg hid]
          grind

/-- A step that leaves the chats and the answers as they are. -/
lemma Idempotent.of_created {c' : Creations} (h : c.Idempotent)
    (hcreated : ∀ id request, c'.Created id request ↔ c.Created id request)
    (hanswers : c'.answers = c.answers) : c'.Idempotent := by
  refine ⟨?_, ?_, ?_⟩
  · intro id id' request hid hid'
    rw [hcreated] at hid hid'
    exact h.one hid hid'
  · intro id request request' hid hid'
    rw [hcreated] at hid hid'
    exact h.kept hid hid'
  · intro a ha
    rw [hanswers] at ha
    rw [hcreated]
    exact h.answered a ha

/-- A new chat keeps the chats of the requests apart exactly when its request has no other. -/
lemma idempotent_call (h : c.Idempotent) {now : ℤ} {operation : Operation}
    (hdrawn : c.Drawn (.call now operation)) :
    (c.step (.call now operation)).Idempotent ↔ c.Serial (.call now operation) := by
  have hnew : ∀ made, (operation.event now c.store.state).bind StoreEvent.creates = some made →
      (∀ request, ¬ c.Created made.1 request) ∧ ∀ id, c.store.state.requestOf id ≠ some made.2 := by
    intro made hmade
    obtain ⟨e, hevent, hcreates⟩ := Option.bind_eq_some_iff.mp hmade
    obtain ⟨hid, hrequest⟩ := creates_of_event hevent hcreates
    obtain ⟨hmemory, hchain⟩ := hdrawn made.1 hid
    refine ⟨fun request hcreated => ?_, hrequest⟩
    obtain hcreated | hcreated := hcreated
    · rw [hmemory] at hcreated
      cases hcreated
    · exact hchain _ hcreated rfl
  constructor
  · intro hafter made hmade w hw hsame
    have hmadeAfter : (c.step (.call now operation)).Created made.1 made.2 :=
      created_call.mpr (Or.inr hmade)
    have hwAfter : (c.step (.call now operation)).Created w.1 made.2 :=
      created_call.mpr (Or.inl (Or.inr (hsame ▸ hw)))
    have hid := hafter.one hwAfter hmadeAfter
    exact (hnew made hmade).1 w.2 (Or.inr (hid ▸ hw))
  · intro hserial
    have halone : ∀ made, (operation.event now c.store.state).bind StoreEvent.creates = some made →
        ∀ id, ¬ c.Created id made.2 := by
      intro made hmade id hcreated
      obtain hcreated | hcreated := hcreated
      · exact (hnew made hmade).2 id hcreated
      · exact hserial made hmade _ hcreated rfl
    refine ⟨?_, ?_, ?_⟩
    · intro id id' request hid hid'
      rw [created_call] at hid hid'
      obtain hid | hmade := hid
      · obtain hid' | hmade' := hid'
        · exact h.one hid hid'
        · exact absurd hid (halone _ hmade' id)
      · obtain hid' | hmade' := hid'
        · exact absurd hid' (halone _ hmade id')
        · have hsame := hmade.symm.trans hmade'
          cases hsame
          rfl
    · intro id request request' hid hid'
      rw [created_call] at hid hid'
      obtain hid | hmade := hid
      · obtain hid' | hmade' := hid'
        · exact h.kept hid hid'
        · exact absurd hid ((hnew _ hmade').1 request)
      · obtain hid' | hmade' := hid'
        · exact absurd hid' ((hnew _ hmade).1 request')
        · have hsame := hmade.symm.trans hmade'
          cases hsame
          rfl
    · intro a ha
      rw [created_call]
      obtain ha | ha := List.mem_append.mp ha
      · exact Or.inl (h.answered a ha)
      · obtain hthere | ⟨e, hevent, hcreates⟩ := answer_eq_some now (Option.mem_toList.mp ha)
        · exact Or.inl (Or.inl hthere)
        · exact Or.inr (Option.bind_eq_some_iff.mpr ⟨e, hevent, hcreates⟩)

/-- A step that draws new ids keeps the chats of the requests exactly when it is serial. -/
lemma idempotent_step (call : StoreCall) (h : c.Idempotent) (hdrawn : c.Drawn call) :
    (c.step call).Idempotent ↔ c.Serial call := by
  cases call with
  | call now operation => exact idempotent_call h hdrawn
  | restart => cases hdrawn
  | write =>
    refine iff_of_true ?_ trivial
    exact h.of_created (fun _ _ => created_write h) (List.append_nil _)
  | compact now =>
    refine iff_of_true ?_ trivial
    apply h.of_created
    · intro id request
      unfold Created waiting step Store.step
      dsimp only
      split_ifs <;> rfl
    · exact List.append_nil _

/-- The calls of a process are idempotent in every state they reach exactly when none makes a chat
while another chat of its request waits to be written. -/
theorem creations_idempotent_iff (h : c.Idempotent) {calls : List StoreCall}
    (hdrawn : Transitions.Along step Drawn c calls) : Transitions.Along step Serial c calls ↔
      ∀ reached, reached <+: calls → (Transitions.run step c reached).Idempotent :=
  Transitions.along_iff_of_possible (fun _ call hs hpossible => idempotent_step call hs hpossible) h hdrawn

section Repeatable

/-- The calls of `createChat` and `forkChat`, with the copies that forks make and the writes. -/
def Creates : StoreCall → Prop
  | .call _ (.createChat ..) | .call _ (.forkChat ..) | .call _ (.copyTranscript ..) | .write => True
  | _ => False

/-- Only new chats wait on the write chain, and every answer names a chat that its input has made. -/
structure Repeatable (c : Creations) : Prop where
  waits : ∀ e, ChainWork.event e ∈ c.store.chain →
    ∃ made, e.creates = some made ∧ c.store.state.chatsById.lookup made.1 = none
  apart : (c.waiting.map Prod.fst).Nodup
  offered : ∀ a ∈ c.answers, c.store.state.Offers a
  made : ∀ a ∈ c.answers, c.store.state.Holds a ∨ ∃ e, ChainWork.event e ∈ c.store.chain ∧ e.Makes a

/-- A new chat changes nothing but its own record. -/
lemma applyEvent_created {s : StoreState} {e : StoreEvent} {made : String × (Identity × Identity)}
    (h : e.creates = some made) : (applyEvent s e).projectsById = s.projectsById ∧
      ∀ id, id ≠ made.1 → (applyEvent s e).chatsById.lookup id = s.chatsById.lookup id := by
  cases e with
  | chat t chatId event =>
    cases event with
    | created =>
      cases h
      exact ⟨rfl, fun id hid => Dict.lookup_set_ne _ _ hid⟩
    | _ => cases h
  | _ => cases h

/-- A state that has the projects of another one, and its chats but for the turn counts, offers what that offers
and holds what that holds. -/
lemma kept_of_chats {s s' : StoreState} {a : Answer} (hprojects : s'.projectsById = s.projectsById)
    (hchats : ∀ id chat, s.chatsById.lookup id = some chat →
      ∃ turns, s'.chatsById.lookup id = some { chat with turnCount := turns }) :
    (s.Offers a → s'.Offers a) ∧ (s.Holds a → s'.Holds a) := by
  constructor
  · intro hoffers
    unfold StoreState.Offers at *
    cases hinput : a.input with
    | create projectId provider =>
      rw [hinput] at hoffers
      obtain ⟨project, hproject⟩ := hoffers
      exact ⟨project, by rw [StoreState.getProject, hprojects]; exact hproject⟩
    | fork sourceChatId =>
      rw [hinput] at hoffers
      obtain ⟨source, provider, hsource, howner, hprovider, htoken⟩ := hoffers
      obtain ⟨hlookup, hkept⟩ := Option.filter_eq_some_iff.mp hsource
      obtain ⟨turns, hturns⟩ := hchats _ _ hlookup
      exact ⟨_, provider, Option.filter_eq_some_iff.mpr ⟨hturns, hkept⟩, howner, hprovider, htoken⟩
  · rintro ⟨chat, hchat, hrequest, hmade⟩
    obtain ⟨turns, hturns⟩ := hchats _ _ hchat
    refine ⟨_, hturns, hrequest, ?_⟩
    cases hinput : a.input with
    | create projectId provider =>
      rw [hinput] at hmade
      exact hmade
    | fork sourceChatId =>
      rw [hinput] at hmade
      exact hmade

/-- Every event of these calls is a new chat. -/
lemma exists_creates {now : ℤ} {operation : Operation} {s : StoreState} {e : StoreEvent}
    (hcreates : Creates (.call now operation)) (h : operation.event now s = some e) :
    ∃ made, e.creates = some made := by
  cases operation with
  | createChat id projectId ownerId clientRequestId provider =>
    simp only [Operation.event] at h
    obtain ⟨project, -, h⟩ := Option.bind_eq_some_iff.mp h
    split_ifs at h
    cases h
    exact ⟨_, rfl⟩
  | forkChat id sourceChatId createRequestId =>
    simp only [Operation.event] at h
    obtain ⟨source, -, h⟩ := Option.bind_eq_some_iff.mp h
    obtain ⟨provider, -, h⟩ := Option.bind_eq_some_iff.mp h
    split_ifs at h
    cases h
    exact ⟨_, rfl⟩
  | copyTranscript id sourceChatId => cases h
  | _ => cases hcreates

lemma waiting_call (c : Creations) (now : ℤ) (operation : Operation) :
    (c.step (.call now operation)).waiting =
      c.waiting ++ ((operation.event now c.store.state).bind StoreEvent.creates).toList := by
  unfold waiting step Store.step
  dsimp only
  rw [List.filterMap_append]
  refine congrArg _ ?_
  cases operation with
  | copyTranscript id sourceChatId => rfl
  | _ =>
    unfold Operation.work
    dsimp only
    generalize Operation.event now c.store.state _ = event
    cases event with
    | none => rfl
    | some e => cases hmade : e.creates <;> simp [hmade]

/-- A call draws an id that is nowhere. -/
lemma repeatable_call (h : c.Repeatable) {now : ℤ} {operation : Operation}
    (hcreates : Creates (.call now operation)) (hdrawn : c.Drawn (.call now operation)) :
    (c.step (.call now operation)).Repeatable := by
  have hstays : ∀ e, ChainWork.event e ∈ c.store.chain →
      ChainWork.event e ∈ (c.step (.call now operation)).store.chain := fun e he => List.mem_append_left _ he
  refine ⟨fun e he => ?_, ?_, fun a ha => ?_, fun a ha => ?_⟩
  · obtain he | he := List.mem_append.mp he
    · exact h.waits e he
    · have hevent := event_mem_work.mp he
      obtain ⟨made, hmade⟩ := exists_creates hcreates hevent
      obtain ⟨hmemory, -⟩ := hdrawn made.1 (creates_of_event hevent hmade).1
      exact ⟨made, hmade, Option.map_eq_none_iff.mp hmemory⟩
  · rw [waiting_call, List.map_append]
    cases hmade : (operation.event now c.store.state).bind StoreEvent.creates with
    | none => simpa using h.apart
    | some made =>
      obtain ⟨e, hevent, hmade⟩ := Option.bind_eq_some_iff.mp hmade
      obtain ⟨-, hchain⟩ := hdrawn made.1 (creates_of_event hevent hmade).1
      refine List.nodup_append.mpr ⟨h.apart, by simp, fun id hid id' hid' => ?_⟩
      obtain ⟨w, hw, rfl⟩ := List.mem_map.mp hid
      rw [Option.toList_some, List.map_singleton, List.mem_singleton] at hid'
      subst hid'
      exact hchain w hw
  · obtain ha | ha := List.mem_append.mp ha
    · exact h.offered a ha
    · exact (answer_made now (Option.mem_toList.mp ha)).1
  · obtain ha | ha := List.mem_append.mp ha
    · exact (h.made a ha).imp id fun ⟨e, he, hmakes⟩ => ⟨e, hstays e he, hmakes⟩
    · refine (answer_made now (Option.mem_toList.mp ha)).2.imp id ?_
      rintro ⟨e, hevent, hmakes⟩
      exact ⟨e, List.mem_append_right _ (event_mem_work.mpr hevent), hmakes⟩

/-- A copied transcript brings its turn count along, and nothing else. -/
lemma copyTurns_kept (store : Store) (chatId sourceChatId : String) :
    (store.copyTurns chatId sourceChatId).projectsById = store.state.projectsById ∧
      ∀ id, ∃ turns : Option ℕ → Option ℕ, (store.copyTurns chatId sourceChatId).chatsById.lookup id =
        (store.state.chatsById.lookup id).map fun chat => { chat with turnCount := turns chat.turnCount } := by
  unfold Store.copyTurns
  split
  · exact ⟨rfl, fun i => ⟨id, by simp⟩⟩
  · next turns _ =>
    refine ⟨(updateChat_rest _ _ _).1, fun id => ?_⟩
    by_cases hid : id = chatId
    · subst hid
      exact ⟨fun _ => some turns, by rw [lookup_updateChat, if_pos rfl]⟩
    · exact ⟨fun before => before, by rw [lookup_updateChat, if_neg hid]; simp⟩

/-- The head of the write chain is done: what it makes is held, and nothing else changes but turn counts. -/
lemma Repeatable.of_done (h : c.Repeatable) {c' : Creations} {work : ChainWork}
    (hchain : c.store.chain = work :: c'.store.chain) (hanswers : c'.answers = c.answers)
    (hprojects : c'.store.state.projectsById = c.store.state.projectsById)
    (hchats : ∀ id chat, c.store.state.chatsById.lookup id = some chat →
      ∃ turns, c'.store.state.chatsById.lookup id = some { chat with turnCount := turns })
    (hnew : ∀ w ∈ c'.waiting, c'.store.state.chatsById.lookup w.1 = none)
    (hdone : ∀ e a, work = .event e → e.Makes a → c'.store.state.Holds a) : c'.Repeatable := by
  have hsub : c'.waiting <:+ c.waiting := by
    unfold waiting
    rw [hchain, List.filterMap_cons]
    split
    · exact List.suffix_rfl
    · exact List.suffix_cons _ _
  refine ⟨fun e he => ?_, h.apart.sublist (hsub.sublist.map _), fun a ha => ?_, fun a ha => ?_⟩
  · obtain ⟨made, hmade, -⟩ := h.waits e (hchain ▸ List.mem_cons_of_mem _ he)
    exact ⟨made, hmade, hnew made (mem_waiting.mpr ⟨e, he, hmade⟩)⟩
  · rw [hanswers] at ha
    exact (kept_of_chats hprojects hchats).1 (h.offered a ha)
  · rw [hanswers] at ha
    obtain hholds | ⟨e, he, hmakes⟩ := h.made a ha
    · exact Or.inl ((kept_of_chats hprojects hchats).2 hholds)
    · rw [hchain] at he
      obtain he | he := List.mem_cons.mp he
      · exact Or.inl (hdone e a he.symm hmakes)
      · exact Or.inr ⟨e, he, hmakes⟩

lemma repeatable_write (h : c.Repeatable) : (c.step .write).Repeatable := by
  have hanswers : (c.step .write).answers = c.answers := List.append_nil _
  have habsent : ∀ w ∈ c.waiting, c.store.state.chatsById.lookup w.1 = none := by
    intro w hw
    obtain ⟨e, he, hcreates⟩ := mem_waiting.mp hw
    obtain ⟨made, hmade, hnone⟩ := h.waits e he
    cases hmade.symm.trans hcreates
    exact hnone
  cases hchain : c.store.chain with
  | nil =>
    have hsame : c.step .write = c := by
      obtain ⟨store, answers⟩ := c
      simp_all [step, Store.step, Store.write]
    rwa [hsame]
  | cons work rest =>
    have hrest : (c.step .write).store.chain = rest := by
      cases work <;> simp [step, Store.step, Store.write, hchain]
    have hwaiting : ∀ w ∈ (c.step .write).waiting, w ∈ c.waiting := by
      intro w hw
      obtain ⟨e, he, hcreates⟩ := mem_waiting.mp hw
      rw [hrest] at he
      exact mem_waiting.mpr ⟨e, hchain ▸ List.mem_cons_of_mem _ he, hcreates⟩
    cases work with
    | copyTranscript chatId sourceChatId =>
      have hstate : (c.step .write).store.state = c.store.copyTurns chatId sourceChatId := by
        simp [step, Store.step, Store.write, hchain]
      obtain ⟨hprojects, hchats⟩ := copyTurns_kept c.store chatId sourceChatId
      refine h.of_done (hrest ▸ hchain) hanswers ?_ ?_ ?_ (fun e a he => (by cases he)) <;> rw [hstate]
      · exact hprojects
      · intro id chat hchat
        obtain ⟨turns, hturns⟩ := hchats id
        rw [hchat] at hturns
        exact ⟨_, hturns⟩
      · intro w hw
        obtain ⟨turns, hturns⟩ := hchats w.1
        rw [hturns, habsent w (hwaiting w hw)]
        rfl
    | event e =>
      have hstate : (c.step .write).store.state = applyEvent c.store.state e := by
        simp [step, Store.step, Store.write, hchain]
      obtain ⟨made, hmade, hnone⟩ := h.waits e (hchain ▸ List.mem_cons_self)
      obtain ⟨hprojects, hchats⟩ := applyEvent_created (s := c.store.state) hmade
      refine h.of_done (hrest ▸ hchain) hanswers ?_ ?_ ?_ ?_ <;> rw [hstate]
      · exact hprojects
      · intro id chat hchat
        have hother : id ≠ made.1 := by
          rintro rfl
          rw [hnone] at hchat
          cases hchat
        exact ⟨chat.turnCount, (hchats id hother).trans hchat⟩
      · intro w hw
        have hother : w.1 ≠ made.1 := by
          intro hsame
          have hapart := h.apart
          have hsplit : c.waiting = made :: (c.step .write).waiting := by
            unfold waiting
            rw [hrest, hchain]
            exact List.filterMap_cons_some hmade
          rw [hsplit, List.map_cons, List.nodup_cons] at hapart
          exact hapart.1 (hsame ▸ List.mem_map_of_mem hw)
        rw [hchats w.1 hother]
        exact habsent w (hwaiting w hw)
      · rintro e' a ⟨⟩ hmakes
        exact hmakes.2 _

theorem repeatable_step (call : StoreCall) (h : c.Repeatable) (hcall : Creates call ∧ c.Drawn call) :
    (c.step call).Repeatable := by
  obtain ⟨hcreates, hdrawn⟩ := hcall
  cases call with
  | call now operation => exact repeatable_call h hcreates hdrawn
  | write => exact repeatable_write h
  | compact now => cases hcreates
  | restart => cases hcreates

lemma repeatable_of_idle (hchain : c.store.chain = []) (hanswers : c.answers = []) : c.Repeatable := by
  refine ⟨?_, ?_, ?_, ?_⟩
  · simp [hchain]
  · simp [waiting, hchain]
  · simp [hanswers]
  · simp [hanswers]

/-- In a run of `createChat` and `forkChat` that keeps one chat a request, a repetition of an answered call is
answered with the same chat, not refused, as soon as that chat is written. -/
theorem repetition_answered (h : c.Idempotent) (hchain : c.store.chain = []) (hanswers : c.answers = [])
    {calls : List StoreCall}
    (hcalls : Transitions.Along step (fun c call => Creates call ∧ c.Drawn call) c calls)
    (hserial : Transitions.Along step Serial c calls) {a : Answer}
    (ha : a ∈ (Transitions.run step c calls).answers)
    (hwritten : ∃ request, (Transitions.run step c calls).store.state.requestOf a.chatId = some request)
    {operation : Operation} (hrepeats : operation.Repeats a) :
    operation.answer (Transitions.run step c calls).store.state = some a := by
  have hdrawn : Transitions.Along step Drawn c calls := hcalls.mono fun _ _ hcall => hcall.2
  have hidempotent := (creations_idempotent_iff h hdrawn).mp hserial calls List.prefix_rfl
  have hreached := Transitions.run_invariant (fun _ call => repeatable_step call)
    (repeatable_of_idle hchain hanswers) hcalls
  obtain ⟨request, hrequest⟩ := hwritten
  have hholds : (Transitions.run step c calls).store.state.Holds a := by
    obtain hholds | ⟨e, he, hmakes⟩ := hreached.made a ha
    · exact hholds
    · obtain ⟨made, hmade, hnone⟩ := hreached.waits e he
      cases hmade.symm.trans hmakes.1
      rw [StoreState.requestOf, hnone] at hrequest
      cases hrequest
  refine answer_of_repeats hrepeats (hreached.offered a ha) hholds fun id hid => ?_
  exact hidempotent.one (Or.inl hid) (hidempotent.answered a ha)

end Repeatable

def fresh : Creations := ⟨.fresh, []⟩

lemma idempotent_fresh : fresh.Idempotent := by
  have hnone : ∀ id request, ¬ fresh.Created id request := by
    rintro id request (hcreated | hcreated)
    · cases hcreated
    · cases hcreated
  refine ⟨?_, ?_, ?_⟩
  · intro id id' request hid
    exact absurd hid (hnone id request)
  · intro id request request' hid
    exact absurd hid (hnone id request)
  · intro a ha
    cases ha

def repeated (chatId : String) : Operation :=
  .createChat chatId "p" ⟨"user", by decide⟩ ⟨"request", by decide⟩ .claudeDeepseek

/-- A repetition after the chat is written, and a fork of it. -/
def repetitions : List StoreCall :=
  [.call 1 (.registerProject "p" "p" "Project" .strategy), .write, .call 2 (repeated "c1"), .write,
    .call 3 (repeated "c2"), .call 4 (.setSessionToken "c1" (some "session")), .write,
    .call 5 (.forkChat "c3" "c1" ⟨"fork", by decide⟩)]

theorem creations_idempotent_repeated : Transitions.Along step Serial fresh repetitions ∧
    ∀ reached, reached <+: repetitions → (Transitions.run step fresh reached).Idempotent := by
  have hserial : Transitions.Along step Serial fresh repetitions := by with_unfolding_all decide
  exact ⟨hserial, (creations_idempotent_iff idempotent_fresh (by with_unfolding_all decide)).mp hserial⟩

/-- A repetition before the chat is written makes a second chat, and returns it. -/
theorem creations_repeat : ¬ ∀ calls, Transitions.Along step Drawn fresh calls →
    (∀ id id' request, (Transitions.run step fresh calls).store.state.requestOf id = some request →
      (Transitions.run step fresh calls).store.state.requestOf id' = some request → id = id') := by
  intro h
  have hsame := h [.call 1 (.registerProject "p" "p" "Project" .strategy), .write,
    .call 2 (repeated "c1"), .call 2 (repeated "c2"), .write, .write] (by with_unfolding_all decide)
    "c1" "c2" (⟨"user", by decide⟩, ⟨"request", by decide⟩) (by with_unfolding_all decide)
    (by with_unfolding_all decide)
  exact absurd hsame (by decide)

end Creations

end TradeFramework.EventStore
