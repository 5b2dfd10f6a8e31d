import TradeFramework.EventStore.Events
import TradeFramework.Library.Reordering

/-!
# Contents of a store

A store is a record for every project id, and for every chat id a record and a queue. An event
acts on the one project or chat it is about, so that only events of one project or chat can stand
in each other's way. `Conflict` names the kinds of events whose order shows.
-/

namespace TradeFramework.EventStore

open Reordering

structure ChatEntry where
  chat : Option ChatRecord
  queue : List QueuedChatMessage

structure Contents where
  projects : String → Option ProjectRecord
  chats : String → ChatEntry

def StoreState.contents (s : StoreState) : Contents where
  projects projectId := s.projectsById.lookup projectId
  chats chatId := ⟨s.chatsById.lookup chatId, s.queuedMessages chatId⟩

section Acting

variable (t : ℤ)

def ProjectEvent.act : ProjectEvent → Option ProjectRecord → Option ProjectRecord
  | .opened title kind, _ => some (ProjectRecord.opened t title kind)
  | event, project => project.map fun project => event.update t project

def ChatEvent.act : ChatEvent → ChatEntry → ChatEntry
  | .created ownerId createRequestId sourceChatId projectId title provider lastTurnEndedAt, entry =>
    { entry with chat := some (ChatRecord.created t ownerId createRequestId sourceChatId projectId title
        provider lastTurnEndedAt) }
  | .deleted, ⟨none, queue⟩ => ⟨none, queue⟩
  | .deleted, ⟨some chat, _⟩ => ⟨some (ChatEvent.deleted.update t chat), []⟩
  | event, entry => { entry with chat := entry.chat.map fun chat => event.update t chat }

def QueuedMessageEvent.queued : QueuedMessageEvent → List QueuedChatMessage → List QueuedChatMessage
  | .enqueued message, queue => queue ++ [message]
  | .removed queuedMessageId, queue => queue.filter fun entry : QueuedChatMessage =>
    entry.id ≠ queuedMessageId

def QueuedMessageEvent.act (event : QueuedMessageEvent) (entry : ChatEntry) : ChatEntry :=
  ⟨entry.chat.map (QueuedMessageEvent.update t), event.queued entry.queue⟩

def TurnEvent.act (event : TurnEvent) (entry : ChatEntry) : ChatEntry :=
  { entry with chat := entry.chat.map fun chat => event.update t chat }

end Acting

namespace Contents

variable (c : Contents)

def onProject (projectId : String) (f : Option ProjectRecord → Option ProjectRecord) : Contents :=
  { c with projects := Function.update c.projects projectId (f (c.projects projectId)) }

def onChat (chatId : String) (f : ChatEntry → ChatEntry) : Contents :=
  { c with chats := Function.update c.chats chatId (f (c.chats chatId)) }

def apply (c : Contents) : StoreEvent → Contents
  | .project t projectId event => c.onProject projectId (event.act t)
  | .chat t chatId event => c.onChat chatId (event.act t)
  | .queuedMessage t chatId event => c.onChat chatId (event.act t)
  | .turn t chatId event => c.onChat chatId (event.act t)

end Contents

section Refinement

variable (s : StoreState)

lemma lookup_updateProject (projectId id : String) (f : ProjectRecord → ProjectRecord) :
    (s.updateProject projectId f).projectsById.lookup id =
      if id = projectId then (s.projectsById.lookup projectId).map f else s.projectsById.lookup id := by
  unfold StoreState.updateProject
  by_cases hid : id = projectId
  · subst hid
    cases hproject : s.projectsById.lookup id <;> simp [hproject]
  · rw [if_neg hid]
    cases hproject : s.projectsById.lookup projectId
    · rfl
    · exact Dict.lookup_set_ne _ _ hid

lemma lookup_updateChat (chatId id : String) (f : ChatRecord → ChatRecord) :
    (s.updateChat chatId f).chatsById.lookup id =
      if id = chatId then (s.chatsById.lookup chatId).map f else s.chatsById.lookup id := by
  unfold StoreState.updateChat
  by_cases hid : id = chatId
  · subst hid
    cases hchat : s.chatsById.lookup id <;> simp [hchat]
  · rw [if_neg hid]
    cases hchat : s.chatsById.lookup chatId
    · rfl
    · exact Dict.lookup_set_ne _ _ hid

@[simp] lemma updateProject_rest (projectId : String) (f : ProjectRecord → ProjectRecord) :
    (s.updateProject projectId f).chatsById = s.chatsById ∧
      (s.updateProject projectId f).queuedMessagesByChatId = s.queuedMessagesByChatId := by
  unfold StoreState.updateProject
  split <;> simp

@[simp] lemma updateChat_rest (chatId : String) (f : ChatRecord → ChatRecord) :
    (s.updateChat chatId f).projectsById = s.projectsById ∧
      (s.updateChat chatId f).queuedMessagesByChatId = s.queuedMessagesByChatId := by
  unfold StoreState.updateChat
  split <;> simp

lemma queuedMessages_setQueue (chatId id : String) (entries : List QueuedChatMessage) :
    (s.setQueue chatId entries).queuedMessages id =
      if id = chatId then entries else s.queuedMessages id := by
  unfold StoreState.queuedMessages StoreState.setQueue
  rw [Dict.lookup_set]
  split_ifs <;> rfl

lemma queuedMessages_deleteQueue (chatId id : String) :
    (s.deleteQueue chatId).queuedMessages id = if id = chatId then [] else s.queuedMessages id := by
  unfold StoreState.queuedMessages StoreState.deleteQueue
  rw [Dict.lookup_erase]
  split_ifs <;> rfl

lemma updateQueue_rest (chatId : String) (event : QueuedMessageEvent) :
    (s.updateQueue chatId event).projectsById = s.projectsById ∧
      (s.updateQueue chatId event).chatsById = s.chatsById := by
  cases event with
  | enqueued message => exact ⟨rfl, rfl⟩
  | removed queuedMessageId =>
    simp only [StoreState.updateQueue]
    split_ifs <;> exact ⟨rfl, rfl⟩

/-- Dropping an empty queue is not seen. -/
lemma queuedMessages_updateQueue (chatId id : String) (event : QueuedMessageEvent) :
    (s.updateQueue chatId event).queuedMessages id =
      if id = chatId then event.queued (s.queuedMessages chatId) else s.queuedMessages id := by
  cases event with
  | enqueued message => exact queuedMessages_setQueue s chatId id _
  | removed queuedMessageId =>
    simp only [StoreState.updateQueue, QueuedMessageEvent.queued]
    by_cases hempty : ((s.queuedMessages chatId).filter fun entry : QueuedChatMessage =>
        entry.id ≠ queuedMessageId).isEmpty = true
    · rw [if_pos hempty, queuedMessages_deleteQueue, List.isEmpty_iff.mp hempty]
    · rw [if_neg hempty, queuedMessages_setQueue]

lemma queuedMessages_congr {s s' : StoreState}
    (h : s'.queuedMessagesByChatId = s.queuedMessagesByChatId) (id : String) :
    s'.queuedMessages id = s.queuedMessages id := by
  unfold StoreState.queuedMessages
  rw [h]

/-- A state that differs in one project. -/
lemma contents_onProject {s s' : StoreState} {projectId : String}
    {f : Option ProjectRecord → Option ProjectRecord}
    (hprojects : ∀ id, s'.projectsById.lookup id =
      if id = projectId then f (s.projectsById.lookup projectId) else s.projectsById.lookup id)
    (hchats : s'.chatsById = s.chatsById)
    (hqueues : s'.queuedMessagesByChatId = s.queuedMessagesByChatId) :
    s'.contents = s.contents.onProject projectId f := by
  have hlookup : s'.contents.projects =
      Function.update s.contents.projects projectId (f (s.contents.projects projectId)) := by
    funext id
    rw [Function.update_apply]
    exact hprojects id
  have hrest : s'.contents.chats = s.contents.chats := by
    funext id
    unfold StoreState.contents
    simp only [hchats, queuedMessages_congr hqueues]
  unfold Contents.onProject
  rw [← hlookup, ← hrest]

/-- A state that differs in one chat and its queue. -/
lemma contents_onChat {s s' : StoreState} {chatId : String} {f : ChatEntry → ChatEntry}
    (hprojects : s'.projectsById = s.projectsById)
    (hchats : ∀ id, s'.chatsById.lookup id =
      if id = chatId then (f (s.contents.chats chatId)).chat else s.chatsById.lookup id)
    (hqueues : ∀ id, s'.queuedMessages id =
      if id = chatId then (f (s.contents.chats chatId)).queue else s.queuedMessages id) :
    s'.contents = s.contents.onChat chatId f := by
  have hentries : s'.contents.chats =
      Function.update s.contents.chats chatId (f (s.contents.chats chatId)) := by
    funext id
    rw [Function.update_apply]
    unfold StoreState.contents at hchats hqueues ⊢
    simp only [hchats, hqueues]
    split_ifs <;> rfl
  have hrest : s'.contents.projects = s.contents.projects := by
    unfold StoreState.contents
    simp only [hprojects]
  unfold Contents.onChat
  rw [← hentries, ← hrest]

/-- Updating one chat's record. -/
lemma contents_updateChat (chatId : String) (f : ChatRecord → ChatRecord) :
    (s.updateChat chatId f).contents =
      s.contents.onChat chatId fun entry => { entry with chat := entry.chat.map f } := by
  apply contents_onChat (updateChat_rest s chatId f).1
  · exact fun id => lookup_updateChat s chatId id f
  · intro id
    rw [queuedMessages_congr (updateChat_rest s chatId f).2]
    split_ifs with hid
    · rw [hid]
      rfl
    · rfl

lemma contents_updateProject (projectId : String) (f : ProjectRecord → ProjectRecord) :
    (s.updateProject projectId f).contents = s.contents.onProject projectId (·.map f) :=
  contents_onProject (fun id => lookup_updateProject s projectId id f) (updateProject_rest s projectId f).1
    (updateProject_rest s projectId f).2

lemma contents_deleted (t : ℤ) (chatId : String) :
    (applyEvent s (.chat t chatId .deleted)).contents =
      s.contents.onChat chatId (ChatEvent.deleted.act t) := by
  cases hchat : s.chatsById.lookup chatId with
  | none =>
    have hsame : applyEvent s (.chat t chatId .deleted) = s := by
      simp [applyEvent, hchat]
    have hentry : s.contents.chats chatId = ⟨none, s.queuedMessages chatId⟩ :=
      congrArg (ChatEntry.mk · (s.queuedMessages chatId)) hchat
    rw [hsame]
    apply contents_onChat rfl
    · intro id
      rw [hentry]
      split_ifs with hid
      · rw [hid, hchat]
        rfl
      · rfl
    · intro id
      rw [hentry]
      split_ifs with hid
      · rw [hid]
        rfl
      · rfl
  | some chat =>
    have hdeleted : applyEvent s (.chat t chatId .deleted) =
        (s.updateChat chatId fun chat => ChatEvent.deleted.update t chat).deleteQueue chatId := by
      simp [applyEvent, hchat]
    have hentry : s.contents.chats chatId = ⟨some chat, s.queuedMessages chatId⟩ :=
      congrArg (ChatEntry.mk · (s.queuedMessages chatId)) hchat
    rw [hdeleted]
    apply contents_onChat
    · exact (updateChat_rest s chatId _).1
    · intro id
      rw [hentry]
      have hlookup := lookup_updateChat s chatId id fun chat => ChatEvent.deleted.update t chat
      rw [hchat] at hlookup
      exact hlookup
    · intro id
      rw [hentry, queuedMessages_deleteQueue]
      split_ifs
      · rfl
      · exact queuedMessages_congr (updateChat_rest s chatId _).2 id

/-- An event acts on the one record it is about. -/
theorem contents_applyEvent (e : StoreEvent) : (applyEvent s e).contents = s.contents.apply e := by
  cases e with
  | project t projectId event =>
    cases event with
    | opened title kind =>
      apply contents_onProject
      · exact fun id => Dict.lookup_set _ _ _ _
      · rfl
      · rfl
    | sidebarRenamed title => exact contents_updateProject s projectId _
    | removed => exact contents_updateProject s projectId _
  | chat t chatId event =>
    cases event with
    | created ownerId createRequestId sourceChatId projectId title provider lastTurnEndedAt =>
      apply contents_onChat
      · rfl
      · exact fun id => Dict.lookup_set _ _ _ _
      · intro id
        split_ifs with hid
        · rw [hid]
          rfl
        · rfl
    | deleted => exact contents_deleted s t chatId
    | _ => exact contents_updateChat s chatId _
  | queuedMessage t chatId event =>
    apply contents_onChat
    · exact ((updateChat_rest _ chatId _).1).trans (updateQueue_rest s chatId event).1
    · intro id
      have hlookup := lookup_updateChat (s.updateQueue chatId event) chatId id
        (QueuedMessageEvent.update t)
      rw [(updateQueue_rest s chatId event).2] at hlookup
      exact hlookup
    · intro id
      have hqueue := queuedMessages_updateQueue s chatId id event
      exact (queuedMessages_congr (updateChat_rest _ chatId _).2 id).trans hqueue
  | turn t chatId event => exact contents_updateChat s chatId _

lemma contents_foldl (events : List StoreEvent) :
    (events.foldl applyEvent s).contents = events.foldl Contents.apply s.contents := by
  induction events generalizing s with
  | nil => rfl
  | cons e events ih => rw [List.foldl_cons, ih, contents_applyEvent, List.foldl_cons]

end Refinement

end TradeFramework.EventStore
