import TradeFramework.EventStore.Contents

/-!
# Events whose order shows

Two events of one chat conflict when they set the same field, or when one sets the time of the
last change and the other sets another time or raises it above. All others may change places.
-/

namespace TradeFramework.EventStore

open Reordering

/-- What an event does to the time of the last change: nothing, set it, or raise it. -/
inductive Stamp
  | kept
  | set (t : ℤ)
  | raised (t : ℤ)

def Stamp.move : Stamp → ℤ → ℤ
  | .kept, u => u
  | .set t, _ => t
  | .raised t, u => max u t

/-- Two changes of the time have the same result in either order. -/
def Stamp.agree : Stamp → Stamp → Bool
  | .set t, .set u => t = u
  | .set t, .raised u => u ≤ t
  | .raised u, .set t => u ≤ t
  | _, _ => true

lemma Stamp.move_comm {a b : Stamp} (h : a.agree b) (u : ℤ) : b.move (a.move u) = a.move (b.move u) := by
  cases a <;> cases b <;> simp_all [agree, move, max_right_comm]

section Kinds

def ChatEvent.stamp (t : ℤ) : ChatEvent → Stamp
  | .created _ _ _ _ _ _ _ => .kept
  | .readAnchorSet _ _ _ _ => .kept
  | .filesTouched _ => .kept
  | .lastMessageAtSet messageAt => .raised messageAt
  | _ => .set t

/-- Two events of a chat set the same field, or one of them creates it. -/
def ChatEvent.overlaps : ChatEvent → ChatEvent → Bool
  | .created _ _ _ _ _ _ _, _ => true
  | _, .created _ _ _ _ _ _ _ => true
  | .renamed _, .renamed _ => true
  | .deleted, .deleted => true
  | .archived, .archived => true
  | .archived, .unarchived => true
  | .unarchived, .archived => true
  | .unarchived, .unarchived => true
  | .planModeSet _, .planModeSet _ => true
  | .autoPlanSet _, .autoPlanSet _ => true
  | .readStateSet _, .readStateSet _ => true
  | .doneStateSet _, .doneStateSet _ => true
  | .readAnchorSet _ _ _ _, .readAnchorSet _ _ _ _ => true
  | .filesTouched _, .filesTouched _ => true
  | _, _ => false

/-- Deleting a chat drops its queue. -/
def ChatEvent.overlapsQueue : ChatEvent → QueuedMessageEvent → Bool
  | .created _ _ _ _ _ _ _, _ => true
  | .deleted, .enqueued _ => true
  | _, _ => false

/-- A start clears that the chat is done, and an end that is no cancellation makes it unread. -/
def ChatEvent.overlapsTurn : ChatEvent → TurnEvent → Bool
  | .created _ _ _ _ _ _ _, _ => true
  | .doneStateSet done, .started _ _ _ _ => done
  | .readStateSet unread, .finished _ => !unread
  | .readStateSet unread, .failed _ _ _ _ => !unread
  | .readStateSet unread, .interrupted _ => !unread
  | _, _ => false

/-- The turn an event ends. -/
def TurnEvent.ended : TurnEvent → Option String
  | .finished turnId => some turnId
  | .failed turnId _ _ _ => some turnId
  | .cancelled turnId => some turnId
  | .interrupted turnId => some turnId
  | _ => none

def TurnEvent.overlaps : TurnEvent → TurnEvent → Bool
  | .started _ _ _ _, .started _ _ _ _ => true
  | .sessionTokenSet _, .sessionTokenSet _ => true
  | .pendingForkSessionTokenSet _, .pendingForkSessionTokenSet _ => true
  | .started _ _ _ _, event => event.ended.isSome
  | event, .started _ _ _ _ => event.ended.isSome
  | event, other => event.ended.isSome && event.ended = other.ended

namespace StoreEvent

/-- The project or the chat an event is about. -/
def about : StoreEvent → String ⊕ String
  | project _ projectId _ => .inl projectId
  | chat _ chatId _ => .inr chatId
  | queuedMessage _ chatId _ => .inr chatId
  | turn _ chatId _ => .inr chatId

def stamp : StoreEvent → Stamp
  | project t _ _ => .set t
  | chat t _ event => event.stamp t
  | queuedMessage t _ _ => .set t
  | turn t _ _ => .set t

def overlaps : StoreEvent → StoreEvent → Bool
  | chat _ _ e, chat _ _ d => e.overlaps d
  | chat _ _ e, queuedMessage _ _ d => e.overlapsQueue d
  | chat _ _ e, turn _ _ d => e.overlapsTurn d
  | queuedMessage _ _ e, chat _ _ d => d.overlapsQueue e
  | queuedMessage _ _ _, queuedMessage _ _ _ => true
  | queuedMessage _ _ _, turn _ _ _ => false
  | turn _ _ e, chat _ _ d => d.overlapsTurn e
  | turn _ _ _, queuedMessage _ _ _ => false
  | turn _ _ e, turn _ _ d => e.overlaps d
  | project _ _ _, _ => true
  | _, project _ _ _ => true

/-- The order of two events shows in what they are about. -/
def Conflict (e d : StoreEvent) : Prop :=
  e.about = d.about ∧ (e.overlaps d = true ∨ e.stamp.agree d.stamp = false)

instance : DecidableRel Conflict := fun e d =>
  inferInstanceAs (Decidable (e.about = d.about ∧ (e.overlaps d = true ∨ e.stamp.agree d.stamp = false)))

end StoreEvent

end Kinds

section Fields

variable {t u : ℤ} {chat : ChatRecord}

def ChatRecord.movedTo (chat : ChatRecord) (updatedAt : ℤ) : ChatRecord :=
  { chat with updatedAt := updatedAt }

lemma ChatRecord.eq_of_movedTo {chat chat' : ChatRecord} (h : chat.movedTo 0 = chat'.movedTo 0)
    (hupdatedAt : chat.updatedAt = chat'.updatedAt) : chat = chat' := by
  have hback := congrArg (fun c : ChatRecord => c.movedTo chat.updatedAt) h
  have hright : (chat'.movedTo 0).movedTo chat.updatedAt = chat' := by
    rw [hupdatedAt]
    rfl
  exact hback.trans hright

lemma ChatEvent.updatedAt_update (e : ChatEvent) :
    (e.update t chat).updatedAt = (e.stamp t).move chat.updatedAt := by
  cases e <;> rfl

lemma ChatEvent.activeTurnId_update (e : ChatEvent) :
    (e.update t chat).activeTurnId = chat.activeTurnId := by
  cases e <;> rfl

lemma ChatEvent.update_movedTo (e : ChatEvent) :
    e.update t (chat.movedTo u) = (e.update t chat).movedTo ((e.stamp t).move u) := by
  cases e <;> rfl

/-- The end of a turn that is not the active one does not count. -/
lemma TurnEvent.updatedAt_update (d : TurnEvent) : (d.update t chat).updatedAt =
    if d.ended.isSome ∧ chat.activeTurnId ≠ d.ended then chat.updatedAt else t := by
  cases d <;> simp only [update, ended] <;> split_ifs <;> simp_all

/-- Apart from the time of the last change, events that do not overlap set different fields. -/
lemma ChatEvent.fields_comm {e d : ChatEvent} (h : e.overlaps d = false) :
    (d.update u (e.update t chat)).movedTo 0 = (e.update t (d.update u chat)).movedTo 0 := by
  cases e <;> cases d <;>
    first
    | exact Bool.noConfusion h
    | rfl
    | simp [update, ChatRecord.movedTo, max_right_comm]

lemma ChatEvent.update_comm {e d : ChatEvent} (h : e.overlaps d = false)
    (hstamp : (e.stamp t).agree (d.stamp u)) :
    d.update u (e.update t chat) = e.update t (d.update u chat) := by
  apply ChatRecord.eq_of_movedTo (fields_comm h)
  simp only [updatedAt_update]
  exact Stamp.move_comm hstamp _

lemma ChatEvent.fields_turn_comm {e : ChatEvent} {d : TurnEvent} (h : e.overlapsTurn d = false) :
    (d.update u (e.update t chat)).movedTo 0 = (e.update t (d.update u chat)).movedTo 0 := by
  cases d <;> cases e <;>
    first
    | exact Bool.noConfusion h
    | rfl
    | dsimp only [ChatEvent.update, TurnEvent.update]
      split_ifs <;> simp_all [overlapsTurn, ChatRecord.movedTo]

lemma ChatEvent.update_turn_comm {e : ChatEvent} {d : TurnEvent} (h : e.overlapsTurn d = false)
    (hstamp : (e.stamp t).agree (.set u)) :
    d.update u (e.update t chat) = e.update t (d.update u chat) := by
  apply ChatRecord.eq_of_movedTo (fields_turn_comm h)
  have hmove := Stamp.move_comm hstamp chat.updatedAt
  rw [TurnEvent.updatedAt_update, updatedAt_update, updatedAt_update, activeTurnId_update,
    TurnEvent.updatedAt_update]
  split_ifs
  · rfl
  · exact hmove

/-- At most one of two different turns is the active one. -/
lemma TurnEvent.update_comm {e d : TurnEvent} (h : e.overlaps d = false) :
    d.update t (e.update t chat) = e.update t (d.update t chat) := by
  cases e <;> cases d <;>
    first
    | exact Bool.noConfusion h
    | rfl
    | dsimp only [update]
      split_ifs <;> simp_all [overlaps, ended]

lemma Stamp.move_of_agree {a : Stamp} (h : a.agree (.set u)) : a.move u = u := by
  cases a <;> simp_all [agree, move]

lemma TurnEvent.update_movedTo (d : TurnEvent) :
    d.update t (chat.movedTo t) = (d.update t chat).movedTo t := by
  cases d <;>
    first
    | rfl
    | dsimp only [update, ChatRecord.movedTo]
      split_ifs <;> rfl

end Fields

section Swapping

namespace StoreEvent

/-- What an event does to the record of its chat. -/
def record : StoreEvent → ChatRecord → ChatRecord
  | project _ _ _, record => record
  | chat t _ event, record => event.update t record
  | queuedMessage t _ _, record => QueuedMessageEvent.update t record
  | turn t _ event, record => event.update t record

/-- What an event does to the queue of its chat, the chat being there or not. -/
def queue : StoreEvent → Bool → List QueuedChatMessage → List QueuedChatMessage
  | chat _ _ .deleted, true, _ => []
  | queuedMessage _ _ event, _, entries => event.queued entries
  | _, _, entries => entries

/-- An event that creates no chat changes the record and the queue apart. -/
def act : StoreEvent → ChatEntry → ChatEntry
  | project _ _ _, entry => entry
  | chat t _ event, entry => event.act t entry
  | queuedMessage t _ event, entry => event.act t entry
  | turn t _ event, entry => event.act t entry

variable {e d : StoreEvent}

lemma act_eq (h : e.overlaps d = false) (entry : ChatEntry) :
    e.act entry = ⟨entry.chat.map e.record, e.queue entry.chat.isSome entry.queue⟩ := by
  obtain ⟨chat, entries⟩ := entry
  cases e with
  | project t projectId event => cases h
  | chat t chatId event =>
    cases event with
    | created => cases d <;> exact Bool.noConfusion h
    | deleted => cases chat <;> rfl
    | _ => rfl
  | queuedMessage t chatId event => rfl
  | turn t chatId event => rfl

lemma overlaps_comm (e d : StoreEvent) : e.overlaps d = d.overlaps e := by
  cases e with
  | chat t chatId event =>
    cases d with
    | chat u chatId' other => cases event <;> cases other <;> rfl
    | _ => rfl
  | turn t chatId event =>
    cases d with
    | turn u chatId' other =>
      cases event <;> cases other <;> simp [overlaps, TurnEvent.overlaps, TurnEvent.ended, eq_comm]
    | _ => rfl
  | _ => cases d <;> rfl

lemma queue_eq_of_chat {t : ℤ} {chatId : String} {event : ChatEvent} (h : event ≠ .deleted)
    (present : Bool) (entries : List QueuedChatMessage) :
    (chat t chatId event).queue present entries = entries := by
  cases event with
  | deleted => exact absurd rfl h
  | _ => rfl

lemma queue_comm (h : e.overlaps d = false) (present : Bool) (entries : List QueuedChatMessage) :
    d.queue present (e.queue present entries) = e.queue present (d.queue present entries) := by
  cases e with
  | project => cases h
  | turn => rfl
  | chat t chatId event =>
    by_cases hdeleted : event = .deleted
    · subst hdeleted
      cases d with
      | project => cases h
      | turn => rfl
      | chat u chatId' other =>
        have hother : other ≠ .deleted := by
          rintro rfl
          cases h
        rw [queue_eq_of_chat hother, queue_eq_of_chat hother]
      | queuedMessage u chatId' other =>
        cases other with
        | enqueued message => cases h
        | removed queuedMessageId => cases present <;> rfl
    · rw [queue_eq_of_chat hdeleted, queue_eq_of_chat hdeleted]
  | queuedMessage t chatId event =>
    cases d with
    | project => cases h
    | turn => rfl
    | queuedMessage => cases h
    | chat u chatId' other =>
      by_cases hdeleted : other = .deleted
      · subst hdeleted
        cases event with
        | enqueued message => cases h
        | removed queuedMessageId => cases present <;> rfl
      · rw [queue_eq_of_chat hdeleted, queue_eq_of_chat hdeleted]

lemma agree_comm (a b : Stamp) : a.agree b = b.agree a := by
  cases a <;> cases b <;> simp [Stamp.agree, eq_comm]

/-- A chat's event and a queue's. -/
lemma record_queue_comm {t u : ℤ} {event : ChatEvent} (hstamp : (event.stamp t).agree (.set u))
    (chat : ChatRecord) :
    QueuedMessageEvent.update u (event.update t chat) = event.update t (QueuedMessageEvent.update u chat) := by
  have hmoved : event.update t (chat.movedTo u) = (event.update t chat).movedTo ((event.stamp t).move u) :=
    event.update_movedTo
  rw [Stamp.move_of_agree hstamp] at hmoved
  exact hmoved.symm

lemma record_comm (h : e.overlaps d = false) (hstamp : e.stamp.agree d.stamp) (record : ChatRecord) :
    d.record (e.record record) = e.record (d.record record) := by
  cases e with
  | project => cases h
  | chat t chatId event =>
    cases d with
    | project => cases h
    | chat u chatId' other => exact ChatEvent.update_comm h hstamp
    | queuedMessage u chatId' other => exact record_queue_comm hstamp record
    | turn u chatId' other => exact ChatEvent.update_turn_comm h hstamp
  | queuedMessage t chatId event =>
    cases d with
    | project => cases h
    | chat u chatId' other =>
      rw [agree_comm] at hstamp
      exact (record_queue_comm hstamp record).symm
    | queuedMessage => cases h
    | turn u chatId' other =>
      obtain rfl : t = u := of_decide_eq_true hstamp
      exact other.update_movedTo
  | turn t chatId event =>
    cases d with
    | project => cases h
    | chat u chatId' other =>
      rw [agree_comm] at hstamp
      exact (ChatEvent.update_turn_comm h hstamp).symm
    | queuedMessage u chatId' other =>
      obtain rfl : t = u := of_decide_eq_true hstamp
      exact event.update_movedTo.symm
    | turn u chatId' other =>
      obtain rfl : t = u := of_decide_eq_true hstamp
      exact TurnEvent.update_comm h

/-- Events that do not conflict change an entry alike in either order. -/
lemma act_comm (h : e.overlaps d = false) (hstamp : e.stamp.agree d.stamp) (entry : ChatEntry) :
    d.act (e.act entry) = e.act (d.act entry) := by
  have h' : d.overlaps e = false := by rwa [overlaps_comm]
  rw [act_eq h, act_eq h', act_eq h', act_eq h]
  simp only [Option.map_map, Option.isSome_map, queue_comm h]
  congr 2
  funext record
  exact record_comm h hstamp record

end StoreEvent

namespace Contents

variable (c : Contents)

lemma apply_project (t : ℤ) (projectId : String) (event : ProjectEvent) :
    c.apply (.project t projectId event) = c.onProject projectId (event.act t) := rfl

lemma apply_chat {e : StoreEvent} {chatId : String} (h : e.about = .inr chatId) :
    c.apply e = c.onChat chatId e.act := by
  cases e with
  | project => cases h
  | _ => cases h; rfl

lemma onProject_comm {projectId projectId' : String} (hne : projectId ≠ projectId')
    (f g : Option ProjectRecord → Option ProjectRecord) :
    (c.onProject projectId f).onProject projectId' g = (c.onProject projectId' g).onProject projectId f := by
  unfold onProject
  simp only [Function.update_of_ne hne, Function.update_of_ne hne.symm, Function.update_comm hne]

lemma onChat_comm {chatId chatId' : String} (hne : chatId ≠ chatId') (f g : ChatEntry → ChatEntry) :
    (c.onChat chatId f).onChat chatId' g = (c.onChat chatId' g).onChat chatId f := by
  unfold onChat
  simp only [Function.update_of_ne hne, Function.update_of_ne hne.symm, Function.update_comm hne]

lemma onChat_onChat (chatId : String) (f g : ChatEntry → ChatEntry) :
    (c.onChat chatId f).onChat chatId g = c.onChat chatId fun entry => g (f entry) := by
  unfold onChat
  simp only [Function.update_self, Function.update_idem]

/-- What does not conflict may change places. -/
theorem swap_of_not_conflict {e d : StoreEvent} (h : ¬ e.Conflict d) : Swap apply e d := by
  intro c
  cases he : e.about with
  | inl projectId =>
    cases e with
    | project t _ event =>
      cases he
      cases d with
      | project u projectId' other =>
        have hne : projectId ≠ projectId' := by
          rintro rfl
          exact h ⟨rfl, Or.inl rfl⟩
        exact onProject_comm c hne _ _
      | _ => rfl
    | _ => cases he
  | inr chatId =>
    cases hd : d.about with
    | inl projectId =>
      cases d with
      | project u _ other =>
        cases e with
        | project => cases he
        | _ => rfl
      | _ => cases hd
    | inr chatId' =>
      rw [apply_chat _ he, apply_chat _ hd, apply_chat _ hd, apply_chat _ he]
      by_cases hsame : chatId = chatId'
      · subst hsame
        have hnot : ¬ (e.overlaps d = true ∨ e.stamp.agree d.stamp = false) := fun hor =>
          h ⟨he.trans hd.symm, hor⟩
        have hoverlaps : e.overlaps d = false := by simpa using fun hor => hnot (Or.inl hor)
        have hstamp : e.stamp.agree d.stamp = true := by simpa using fun hor => hnot (Or.inr hor)
        rw [onChat_onChat, onChat_onChat]
        congr 1
        funext entry
        exact StoreEvent.act_comm hoverlaps hstamp entry
      · exact onChat_comm c hsame _ _

end Contents

end Swapping

end TradeFramework.EventStore
