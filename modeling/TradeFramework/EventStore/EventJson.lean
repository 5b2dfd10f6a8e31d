import TradeFramework.EventStore.Events
import TradeFramework.Library.JsonCodec

/-!
# Events and records as JSON

Every event and every record of a snapshot is written with the keys of its source type, and what
is written is read back.
-/

namespace TradeFramework.EventStore

open JsonText (Value Numeral Codec Member member)
open JsonText.Member (required optional)

/-- `STORE_VERSION`. -/
def storeVersion : ℤ := 4

def versionJson : Value := .num (.ofInt storeVersion)

section Values

def AgentProvider.name : AgentProvider → String
  | claudeDeepseek => "claude-deepseek"
  | codexOpenai => "codex-openai"

def AgentProvider.ofName (name : String) : Option AgentProvider :=
  [claudeDeepseek, codexOpenai].find? fun p => p.name = name

def ProjectKind.name : ProjectKind → String
  | tradeEngine => "trade-engine"
  | strategy => "strategy"

def ProjectKind.ofName (name : String) : Option ProjectKind :=
  [tradeEngine, strategy].find? fun k => k.name = name

def TurnOutcome.name : TurnOutcome → String
  | success => "success"
  | failed => "failed"
  | cancelled => "cancelled"
  | interrupted => "interrupted"

def TurnOutcome.ofName (name : String) : Option TurnOutcome :=
  [success, failed, cancelled, interrupted].find? fun o => o.name = name

def providerJson : Codec AgentProvider :=
  Codec.named AgentProvider.name AgentProvider.ofName fun p => by cases p <;> decide

def kindJson : Codec ProjectKind :=
  Codec.named ProjectKind.name ProjectKind.ofName fun k => by cases k <;> decide

def outcomeJson : Codec TurnOutcome :=
  Codec.named TurnOutcome.name TurnOutcome.ofName fun o => by cases o <;> decide

def identityJson : Codec Identity :=
  Codec.string.refine Identity.text (fun s => if h : s ≠ "" then some ⟨s, h⟩ else none) fun i => by
    simp [i.nonempty]

def nullableString : Codec (Option String) := Codec.nullable Codec.string fun _ => by
  simp [Codec.string]

def turnRequestJson : Codec TurnRequest :=
  ((required "clientRequestId" Codec.string).both ((required "inputDigest" Codec.string).both
    (required "turnId" Codec.string))).map (fun r => (r.clientRequestId, r.inputDigest, r.turnId))
    (fun (c, d, t) => ⟨c, d, t⟩) (fun _ => rfl) |>.object

def touchedFileMember : Member (String × TouchedFile) :=
  ((required "path" Codec.string).both ((optional "baseBlob" nullableString).both
    ((optional "additions" Codec.nat).both (optional "deletions" Codec.nat)))).map
    (fun f => (f.1, f.2.baseBlob, f.2.additions, f.2.deletions))
    (fun (p, b, a, d) => (p, ⟨b, a, d⟩)) fun _ => rfl

def touchedFilesJson : Codec (List (String × TouchedFile)) := touchedFileMember.object.list

def queuedMessageMember : Member QueuedChatMessage :=
  ((required "id" Codec.string).both ((required "content" Codec.string).both
    ((required "attachments" Codec.value.list).both ((required "createdAt" Codec.int).both
    ((optional "provider" providerJson).both ((optional "model" Codec.string).both
    ((optional "modelOptions" Codec.value).both ((optional "planMode" Codec.bool).both
    ((optional "autoPlan" Codec.bool).both ((optional "clientRequestId" Codec.string).both
    ((optional "inputDigest" Codec.string).both ((optional "context" Codec.value).both
    ((optional "uiContext" Codec.value).both
      (optional "uiContextDigest" Codec.string)))))))))))))).map
    (fun m => (m.id, m.content, m.attachments, m.createdAt, m.provider, m.model, m.modelOptions,
      m.planMode, m.autoPlan, m.clientRequestId, m.inputDigest, m.context, m.uiContext,
      m.uiContextDigest))
    (fun (i, c, a, t, p, m, o, pm, ap, r, d, x, u, ud) => ⟨i, c, a, t, p, m, o, pm, ap, r, d, x, u, ud⟩)
    fun _ => rfl

def queuedMessageJson : Codec QueuedChatMessage := queuedMessageMember.object

end Values

section Payloads

def openedMember : Member (String × String × ProjectKind) :=
  (required "workspaceKey" Codec.string).both ((required "title" Codec.string).both
    (required "kind" kindJson))

def createdMember : Member (Identity × Identity × Option String × String × String × AgentProvider ×
    Option ℤ) :=
  (required "ownerId" identityJson).both ((required "createRequestId" identityJson).both
    ((required "sourceChatId" nullableString).both ((required "projectId" Codec.string).both
    ((required "title" Codec.string).both ((required "provider" providerJson).both
      (optional "lastTurnEndedAt" Codec.int))))))

def anchorMember : Member (String × Bool × Option Numeral × Option Numeral) :=
  (required "messageId" Codec.string).both ((required "atEnd" Codec.bool).both
    ((optional "transcriptWidth" Codec.numeral).both (optional "offsetFromMessage" Codec.numeral)))

def startedMember : Member (String × String × String × String) :=
  (required "turnId" Codec.string).both ((required "model" Codec.string).both
    ((required "clientRequestId" Codec.string).both (required "inputDigest" Codec.string)))

def failedMember : Member (String × String × String × Bool) :=
  (required "turnId" Codec.string).both ((required "error" Codec.string).both
    ((required "errorCode" Codec.string).both (required "retryable" Codec.bool)))

def interruptedMember : Member (String × Unit) :=
  (required "turnId" Codec.string).both (Member.constant "reason" (.str "service_restart"))

variable (look : String → Option Value)

def ProjectEvent.type : ProjectEvent → String
  | opened _ _ => "project_opened"
  | sidebarRenamed _ => "project_sidebar_renamed"
  | removed => "project_removed"

/-- The keys of a project event; the workspace key is the project's id. -/
def ProjectEvent.payload (projectId : String) : ProjectEvent → List (String × Value)
  | opened title kind => openedMember.write (projectId, title, kind)
  | sidebarRenamed title => (required "title" nullableString).write title
  | removed => []

def ProjectEvent.read : String → Option ProjectEvent
  | "project_opened" => (openedMember.read look).map fun (_, title, kind) => opened title kind
  | "project_sidebar_renamed" => ((required "title" nullableString).read look).map sidebarRenamed
  | "project_removed" => some removed
  | _ => none

def ChatEvent.type : ChatEvent → String
  | created _ _ _ _ _ _ _ => "chat_created"
  | renamed _ => "chat_renamed"
  | deleted => "chat_deleted"
  | archived => "chat_archived"
  | unarchived => "chat_unarchived"
  | planModeSet _ => "chat_plan_mode_set"
  | autoPlanSet _ => "chat_auto_plan_set"
  | readStateSet _ => "chat_read_state_set"
  | doneStateSet _ => "chat_done_state_set"
  | readAnchorSet _ _ _ _ => "chat_read_anchor_set"
  | lastMessageAtSet _ => "chat_last_message_at_set"
  | filesTouched _ => "chat_files_touched"

def ChatEvent.payload : ChatEvent → List (String × Value)
  | created ownerId createRequestId sourceChatId projectId title provider lastTurnEndedAt =>
    createdMember.write
      (ownerId, createRequestId, sourceChatId, projectId, title, provider, lastTurnEndedAt)
  | renamed title => (required "title" Codec.string).write title
  | deleted => []
  | archived => []
  | unarchived => []
  | planModeSet planMode => (required "planMode" Codec.bool).write planMode
  | autoPlanSet autoPlan => (required "autoPlan" Codec.bool).write autoPlan
  | readStateSet unread => (required "unread" Codec.bool).write unread
  | doneStateSet done => (required "done" Codec.bool).write done
  | readAnchorSet messageId atEnd width offset => anchorMember.write (messageId, atEnd, width, offset)
  | lastMessageAtSet messageAt => (required "at" Codec.int).write messageAt
  | filesTouched files => (required "files" touchedFilesJson).write files

def ChatEvent.read : String → Option ChatEvent
  | "chat_created" => (createdMember.read look).map
    fun (ownerId, createRequestId, sourceChatId, projectId, title, provider, lastTurnEndedAt) =>
      created ownerId createRequestId sourceChatId projectId title provider lastTurnEndedAt
  | "chat_renamed" => ((required "title" Codec.string).read look).map renamed
  | "chat_deleted" => some deleted
  | "chat_archived" => some archived
  | "chat_unarchived" => some unarchived
  | "chat_plan_mode_set" => ((required "planMode" Codec.bool).read look).map planModeSet
  | "chat_auto_plan_set" => ((required "autoPlan" Codec.bool).read look).map autoPlanSet
  | "chat_read_state_set" => ((required "unread" Codec.bool).read look).map readStateSet
  | "chat_done_state_set" => ((required "done" Codec.bool).read look).map doneStateSet
  | "chat_read_anchor_set" => (anchorMember.read look).map
    fun (messageId, atEnd, width, offset) => readAnchorSet messageId atEnd width offset
  | "chat_last_message_at_set" => ((required "at" Codec.int).read look).map lastMessageAtSet
  | "chat_files_touched" => ((required "files" touchedFilesJson).read look).map filesTouched
  | _ => none

def QueuedMessageEvent.type : QueuedMessageEvent → String
  | enqueued _ => "queued_message_enqueued"
  | removed _ => "queued_message_removed"

def QueuedMessageEvent.payload : QueuedMessageEvent → List (String × Value)
  | enqueued message => (required "message" queuedMessageJson).write message
  | removed queuedMessageId => (required "queuedMessageId" Codec.string).write queuedMessageId

def QueuedMessageEvent.read : String → Option QueuedMessageEvent
  | "queued_message_enqueued" => ((required "message" queuedMessageJson).read look).map enqueued
  | "queued_message_removed" => ((required "queuedMessageId" Codec.string).read look).map removed
  | _ => none

def TurnEvent.type : TurnEvent → String
  | started _ _ _ _ => "turn_started"
  | finished _ => "turn_finished"
  | failed _ _ _ _ => "turn_failed"
  | cancelled _ => "turn_cancelled"
  | interrupted _ => "turn_interrupted"
  | sessionTokenSet _ => "session_token_set"
  | pendingForkSessionTokenSet _ => "pending_fork_session_token_set"

def TurnEvent.payload : TurnEvent → List (String × Value)
  | started turnId model clientRequestId inputDigest =>
    startedMember.write (turnId, model, clientRequestId, inputDigest)
  | finished turnId => (required "turnId" Codec.string).write turnId
  | failed turnId error errorCode retryable => failedMember.write (turnId, error, errorCode, retryable)
  | cancelled turnId => (required "turnId" Codec.string).write turnId
  | interrupted turnId => interruptedMember.write (turnId, ())
  | sessionTokenSet token => (required "sessionToken" nullableString).write token
  | pendingForkSessionTokenSet token =>
    (required "pendingForkSessionToken" nullableString).write token

def TurnEvent.read : String → Option TurnEvent
  | "turn_started" => (startedMember.read look).map
    fun (turnId, model, clientRequestId, inputDigest) => started turnId model clientRequestId inputDigest
  | "turn_finished" => ((required "turnId" Codec.string).read look).map finished
  | "turn_failed" => (failedMember.read look).map
    fun (turnId, error, errorCode, retryable) => failed turnId error errorCode retryable
  | "turn_cancelled" => ((required "turnId" Codec.string).read look).map cancelled
  | "turn_interrupted" => (interruptedMember.read look).map fun (turnId, _) => interrupted turnId
  | "session_token_set" => ((required "sessionToken" nullableString).read look).map sessionTokenSet
  | "pending_fork_session_token_set" =>
    ((required "pendingForkSessionToken" nullableString).read look).map pendingForkSessionTokenSet
  | _ => none

def header (type : String) (timestamp : ℤ) (key id : String) : List (String × Value) :=
  [("v", versionJson), ("type", .str type), ("timestamp", .num (.ofInt timestamp)), (key, .str id)]

def StoreEvent.members : StoreEvent → List (String × Value)
  | project t projectId event => header event.type t "projectId" projectId ++ event.payload projectId
  | chat t chatId event => header event.type t "chatId" chatId ++ event.payload
  | queuedMessage t chatId event => header event.type t "chatId" chatId ++ event.payload
  | turn t chatId event => header event.type t "chatId" chatId ++ event.payload

def StoreEvent.toJson (event : StoreEvent) : Value := .obj event.members

def textAt (key : String) : Option String := (look key).bind Codec.string.ofJson

/-- The event of an object, by its type. -/
def StoreEvent.read : Option StoreEvent :=
  (textAt look "type").bind fun type => ((look "timestamp").bind Codec.int.ofJson).bind fun t =>
    ((ProjectEvent.read look type).bind fun event =>
      (textAt look "projectId").map fun id => project t id event)
    <|> ((ChatEvent.read look type).bind fun event =>
      (textAt look "chatId").map fun id => chat t id event)
    <|> ((QueuedMessageEvent.read look type).bind fun event =>
      (textAt look "chatId").map fun id => queuedMessage t id event)
    <|> ((TurnEvent.read look type).bind fun event =>
      (textAt look "chatId").map fun id => turn t id event)

/-- An object that is no event the store writes is read as none. -/
def StoreEvent.ofJson : Value → Option StoreEvent
  | .obj members => StoreEvent.read (member members)
  | _ => none

end Payloads

section RoundTrips

variable {look : String → Option Value}

/-- The payload's keys are read past the header. -/
def Reads (look : String → Option Value) (key : String) (payload : List (String × Value)) : Prop :=
  ∀ k, k ∉ ["v", "type", "timestamp", key] → look k = member payload k

lemma Reads.read {α : Type*} {key : String} {m : Member α} {a : α} (h : Reads look key (m.write a))
    (hkeys : ∀ k ∈ m.keys, k ∉ ["v", "type", "timestamp", key]) :
    m.read look = some a :=
  m.read_write a look fun k hk => h k (hkeys k hk)

lemma ProjectEvent.read_payload (event : ProjectEvent) (projectId : String)
    (h : Reads look "projectId" (event.payload projectId)) :
    ProjectEvent.read look event.type = some event := by
  cases event with
  | opened title kind =>
    have hread : openedMember.read look = some (projectId, title, kind) := h.read (by decide)
    simp [type, ProjectEvent.read, hread]
  | sidebarRenamed title =>
    have hread : (required "title" nullableString).read look = some title := h.read (by decide)
    simp [type, ProjectEvent.read, hread]
  | removed => rfl

lemma ChatEvent.read_payload (event : ChatEvent) (h : Reads look "chatId" event.payload) :
    ChatEvent.read look event.type = some event := by
  cases event with
  | created ownerId createRequestId sourceChatId projectId title provider lastTurnEndedAt =>
    have hread : createdMember.read look = some
        (ownerId, createRequestId, sourceChatId, projectId, title, provider, lastTurnEndedAt) :=
      h.read (by decide)
    simp [type, ChatEvent.read, hread]
  | renamed title =>
    have hread : (required "title" Codec.string).read look = some title := h.read (by decide)
    simp [type, ChatEvent.read, hread]
  | planModeSet planMode =>
    have hread : (required "planMode" Codec.bool).read look = some planMode := h.read (by decide)
    simp [type, ChatEvent.read, hread]
  | autoPlanSet autoPlan =>
    have hread : (required "autoPlan" Codec.bool).read look = some autoPlan := h.read (by decide)
    simp [type, ChatEvent.read, hread]
  | readStateSet unread =>
    have hread : (required "unread" Codec.bool).read look = some unread := h.read (by decide)
    simp [type, ChatEvent.read, hread]
  | doneStateSet done =>
    have hread : (required "done" Codec.bool).read look = some done := h.read (by decide)
    simp [type, ChatEvent.read, hread]
  | readAnchorSet messageId atEnd width offset =>
    have hread : anchorMember.read look = some (messageId, atEnd, width, offset) := h.read (by decide)
    simp [type, ChatEvent.read, hread]
  | lastMessageAtSet messageAt =>
    have hread : (required "at" Codec.int).read look = some messageAt := h.read (by decide)
    simp [type, ChatEvent.read, hread]
  | filesTouched files =>
    have hread : (required "files" touchedFilesJson).read look = some files := h.read (by decide)
    simp [type, ChatEvent.read, hread]
  | deleted => rfl
  | archived => rfl
  | unarchived => rfl

lemma QueuedMessageEvent.read_payload (event : QueuedMessageEvent)
    (h : Reads look "chatId" event.payload) :
    QueuedMessageEvent.read look event.type = some event := by
  cases event with
  | enqueued message =>
    have hread : (required "message" queuedMessageJson).read look = some message := h.read (by decide)
    simp [type, QueuedMessageEvent.read, hread]
  | removed queuedMessageId =>
    have hread : (required "queuedMessageId" Codec.string).read look = some queuedMessageId :=
      h.read (by decide)
    simp [type, QueuedMessageEvent.read, hread]

lemma TurnEvent.read_payload (event : TurnEvent) (h : Reads look "chatId" event.payload) :
    TurnEvent.read look event.type = some event := by
  cases event with
  | started turnId model clientRequestId inputDigest =>
    have hread : startedMember.read look = some (turnId, model, clientRequestId, inputDigest) :=
      h.read (by decide)
    simp [type, TurnEvent.read, hread]
  | failed turnId error errorCode retryable =>
    have hread : failedMember.read look = some (turnId, error, errorCode, retryable) := h.read (by decide)
    simp [type, TurnEvent.read, hread]
  | interrupted turnId =>
    have hread : interruptedMember.read look = some (turnId, ()) := h.read (by decide)
    simp [type, TurnEvent.read, hread]
  | finished turnId =>
    have hread : (required "turnId" Codec.string).read look = some turnId := h.read (by decide)
    simp [type, TurnEvent.read, hread]
  | cancelled turnId =>
    have hread : (required "turnId" Codec.string).read look = some turnId := h.read (by decide)
    simp [type, TurnEvent.read, hread]
  | sessionTokenSet token =>
    have hread : (required "sessionToken" nullableString).read look = some token := h.read (by decide)
    simp [type, TurnEvent.read, hread]
  | pendingForkSessionTokenSet token =>
    have hread : (required "pendingForkSessionToken" nullableString).read look = some token :=
      h.read (by decide)
    simp [type, TurnEvent.read, hread]

/-- The four kinds of events have different types. -/
lemma read_type_chat (event : ChatEvent) : ProjectEvent.read look event.type = none := by
  cases event <;> rfl

lemma read_type_queuedMessage (event : QueuedMessageEvent) :
    ProjectEvent.read look event.type = none ∧ ChatEvent.read look event.type = none := by
  cases event <;> exact ⟨rfl, rfl⟩

lemma read_type_turn (event : TurnEvent) : ProjectEvent.read look event.type = none ∧
    ChatEvent.read look event.type = none ∧ QueuedMessageEvent.read look event.type = none := by
  cases event <;> exact ⟨rfl, rfl, rfl⟩

section Headers

variable (type : String) (t : ℤ) (id : String) {key : String} {payload : List (String × Value)}

/-- What a payload has to leave alone for the header to be read. -/
def Headless (key : String) (payload : List (String × Value)) : Prop :=
  ∀ p ∈ payload, p.1 ∉ ["v", "type", "timestamp", key]

lemma member_header (h : Headless key payload) {k : String} (hk : k ∈ ["v", "type", "timestamp", key]) :
    member (header type t key id ++ payload) k = member (header type t key id) k := by
  apply JsonText.member_append_left
  rintro p hp rfl
  exact h p hp hk

lemma reads_header : Reads (member (header type t key id ++ payload)) key payload := by
  intro k hk
  apply JsonText.member_append_right
  rintro p hp rfl
  apply hk
  have hkeys : (header type t key id).map Prod.fst = ["v", "type", "timestamp", key] := rfl
  rw [← hkeys]
  exact List.mem_map_of_mem hp

/-- The parts of a header, as they are read. -/
lemma read_header (h : Headless key payload) (hkey : key ∉ ["v", "type", "timestamp"]) :
    let look := member (header type t key id ++ payload)
    textAt look "type" = some type ∧ (look "timestamp").bind Codec.int.ofJson = some t ∧
      textAt look key = some id := by
  intro look
  simp only [List.mem_cons, List.not_mem_nil, or_false, not_or] at hkey
  obtain ⟨-, htype, htime⟩ := hkey
  have hint : Codec.int.ofJson (.num (.ofInt t)) = some t := Codec.int.ofJson_toJson t
  have hlookType : look "type" = some (.str type) := by
    refine (member_header type t id h (by simp)).trans ?_
    simp [header, member, Ne.symm htype]
  have hlookTime : look "timestamp" = some (.num (.ofInt t)) := by
    refine (member_header type t id h (by simp)).trans ?_
    simp [header, member, Ne.symm htime]
  have hlookId : look key = some (.str id) := by
    refine (member_header type t id h (by simp)).trans ?_
    simp [header, member]
  unfold textAt
  rw [hlookType, hlookTime, hlookId]
  exact ⟨rfl, hint, rfl⟩

lemma headless_nil : Headless key [] := by simp [Headless]

lemma headless_write {α : Type*} (m : Member α) (a : α)
    (hkeys : ∀ k ∈ m.keys, k ∉ ["v", "type", "timestamp", key]) :
    Headless key (m.write a) := fun p hp => hkeys p.1 (m.key_mem a p hp)

lemma ProjectEvent.headless (projectId : String) (event : ProjectEvent) :
    Headless "projectId" (event.payload projectId) := by
  cases event with
  | opened title kind => exact headless_write openedMember _ (by decide)
  | sidebarRenamed title => exact headless_write (required "title" nullableString) _ (by decide)
  | removed => exact headless_nil

lemma ChatEvent.headless (event : ChatEvent) : Headless "chatId" event.payload := by
  cases event with
  | created _ _ _ _ _ _ _ => exact headless_write createdMember _ (by decide)
  | renamed title => exact headless_write (required "title" Codec.string) _ (by decide)
  | planModeSet planMode => exact headless_write (required "planMode" Codec.bool) _ (by decide)
  | autoPlanSet autoPlan => exact headless_write (required "autoPlan" Codec.bool) _ (by decide)
  | readStateSet unread => exact headless_write (required "unread" Codec.bool) _ (by decide)
  | doneStateSet done => exact headless_write (required "done" Codec.bool) _ (by decide)
  | readAnchorSet _ _ _ _ => exact headless_write anchorMember _ (by decide)
  | lastMessageAtSet messageAt => exact headless_write (required "at" Codec.int) _ (by decide)
  | filesTouched files => exact headless_write (required "files" touchedFilesJson) _ (by decide)
  | deleted => exact headless_nil
  | archived => exact headless_nil
  | unarchived => exact headless_nil

lemma QueuedMessageEvent.headless (event : QueuedMessageEvent) : Headless "chatId" event.payload := by
  cases event with
  | enqueued message => exact headless_write (required "message" queuedMessageJson) _ (by decide)
  | removed queuedMessageId =>
    exact headless_write (required "queuedMessageId" Codec.string) _ (by decide)

lemma TurnEvent.headless (event : TurnEvent) : Headless "chatId" event.payload := by
  cases event with
  | started _ _ _ _ => exact headless_write startedMember _ (by decide)
  | failed _ _ _ _ => exact headless_write failedMember _ (by decide)
  | interrupted turnId => exact headless_write interruptedMember _ (by decide)
  | finished turnId => exact headless_write (required "turnId" Codec.string) _ (by decide)
  | cancelled turnId => exact headless_write (required "turnId" Codec.string) _ (by decide)
  | sessionTokenSet token => exact headless_write (required "sessionToken" nullableString) _ (by decide)
  | pendingForkSessionTokenSet token =>
    exact headless_write (required "pendingForkSessionToken" nullableString) _ (by decide)

end Headers

/-- An event is read back from its object. -/
theorem StoreEvent.ofJson_toJson (event : StoreEvent) : ofJson event.toJson = some event := by
  unfold toJson ofJson StoreEvent.read
  cases event with
  | project t projectId event =>
    obtain ⟨htype, htime, hid⟩ :=
      read_header event.type t projectId (event.headless projectId) (by decide)
    have hread := ProjectEvent.read_payload event projectId
      (reads_header event.type t projectId)
    simp [members, htype, htime, hid, hread]
  | chat t chatId event =>
    obtain ⟨htype, htime, hid⟩ := read_header event.type t chatId event.headless (by decide)
    have hread := event.read_payload (reads_header event.type t chatId)
    simp [members, htype, htime, hid, hread, read_type_chat]
  | queuedMessage t chatId event =>
    obtain ⟨htype, htime, hid⟩ := read_header event.type t chatId event.headless (by decide)
    have hread := event.read_payload (reads_header event.type t chatId)
    simp [members, htype, htime, hid, hread, read_type_queuedMessage]
  | turn t chatId event =>
    obtain ⟨htype, htime, hid⟩ := read_header event.type t chatId event.headless (by decide)
    have hread := event.read_payload (reads_header event.type t chatId)
    simp [members, htype, htime, hid, hread, read_type_turn]

end RoundTrips

section Records

/-- Loading merges the files once more, into none. -/
def mergedFilesJson : Codec TouchedFiles :=
  touchedFilesJson.refine TouchedFiles.byPath (fun files => some (mergeTouchedFiles .empty files))
    fun t => by rw [mergeTouchedFiles_empty]

def anchorJson : Codec ChatReadAnchor :=
  ((required "messageId" Codec.string).both ((required "atEnd" Codec.bool).both
    ((required "updatedAt" Codec.int).both ((optional "transcriptWidth" Codec.numeral).both
      (optional "offsetFromMessage" Codec.numeral))))).map
    (fun r => (r.messageId, r.atEnd, r.updatedAt, r.transcriptWidth, r.offsetFromMessage))
    (fun (m, e, t, w, o) => ⟨m, e, t, w, o⟩) (fun _ => rfl) |>.object

/-- The value under a key that may be absent or `null`. -/
def absentOrNull {α : Type} (key : String) (c : Codec α) (h : ∀ a, c.toJson a ≠ .null) :
    Member (Option α) :=
  (optional key (c.nullable h)).map (fun a => a.map some) Option.join fun a => by cases a <;> rfl

/-- The value under a key, where an absent key stands for a value. -/
def defaulting {α : Type} (key : String) (c : Codec α) (absent : α) : Member α :=
  (optional key c).map some (fun a => a.getD absent) fun _ => rfl

def projectJson : Codec (String × ProjectRecord) :=
  ((required "id" Codec.string).both ((required "workspaceKey" Codec.string).both
    ((required "title" Codec.string).both ((required "kind" kindJson).both
    ((required "createdAt" Codec.int).both ((required "updatedAt" Codec.int).both
    ((optional "sidebarTitle" Codec.string).both (optional "deletedAt" Codec.int)))))))).object.refine
    (fun (id, p) => (id, id, p.title, p.kind, p.createdAt, p.updatedAt, p.sidebarTitle, p.deletedAt))
    (fun (id, workspaceKey, t, k, c, u, s, d) =>
      if id = workspaceKey then some (id, ⟨t, k, c, u, s, d⟩) else none)
    fun _ => by simp

def chatJson : Codec (String × ChatRecord) :=
  ((required "id" Codec.string).both ((required "ownerId" identityJson).both
    ((required "createRequestId" identityJson).both
    ((absentOrNull "createSourceChatId" Codec.string (by simp [Codec.string])).both
    ((required "projectId" Codec.string).both ((required "title" Codec.string).both
    ((required "createdAt" Codec.int).both ((required "updatedAt" Codec.int).both
    ((optional "deletedAt" Codec.int).both ((optional "archivedAt" Codec.int).both
    ((optional "doneAt" Codec.int).both ((defaulting "unread" Codec.bool false).both
    ((absentOrNull "readAnchor" anchorJson (by simp [anchorJson, Member.object])).both
    ((required "provider" (providerJson.nullable (by simp [providerJson, Codec.named]))).both
    ((required "planMode" Codec.bool).both ((required "autoPlan" Codec.bool).both
    ((required "sessionToken" nullableString).both
    ((absentOrNull "pendingForkSessionToken" Codec.string (by simp [Codec.string])).both
    ((defaulting "hasMessages" Codec.bool false).both ((optional "lastMessageAt" Codec.int).both
    ((optional "lastTurnStartedAt" Codec.int).both ((optional "lastModel" Codec.string).both
    ((optional "lastTurnEndedAt" Codec.int).both ((optional "turnCount" Codec.nat).both
    ((required "lastTurnOutcome" (outcomeJson.nullable (by simp [outcomeJson, Codec.named]))).both
    ((optional "lastErrorCode" Codec.string).both ((optional "lastErrorRetryable" Codec.bool).both
    ((optional "lastErrorMessage" Codec.string).both ((optional "activeTurnId" Codec.string).both
    ((defaulting "turnRequests" turnRequestJson.list []).both
      (defaulting "touchedFiles" mergedFilesJson .empty))))))))))))))))))))))))))))))).map
    (fun (id, c) => (id, c.ownerId, c.createRequestId, c.createSourceChatId, c.projectId, c.title,
      c.createdAt, c.updatedAt, c.deletedAt, c.archivedAt, c.doneAt, c.unread, c.readAnchor,
      c.provider, c.planMode, c.autoPlan, c.sessionToken, c.pendingForkSessionToken, c.hasMessages,
      c.lastMessageAt, c.lastTurnStartedAt, c.lastModel, c.lastTurnEndedAt, c.turnCount,
      c.lastTurnOutcome, c.lastErrorCode, c.lastErrorRetryable, c.lastErrorMessage, c.activeTurnId,
      c.turnRequests, c.touchedFiles))
    (fun (id, o, r, s, p, t, ca, ua, da, aa, dn, un, ra, pr, pm, ap, st, pf, hm, lm, ls, md, le, tc,
        oc, ec, er, em, at', tr, tf) =>
      (id, ⟨o, r, s, p, t, ca, ua, da, aa, dn, un, ra, pr, pm, ap, st, pf, hm, lm, ls, md, le, tc, oc,
        ec, er, em, at', tr, tf⟩))
    (fun _ => rfl) |>.object

def queueJson : Codec (String × List QueuedChatMessage) :=
  ((required "chatId" Codec.string).both (required "entries" queuedMessageJson.list)).object

structure SnapshotFile where
  generatedAt : ℤ
  projects : List (String × ProjectRecord)
  chats : List (String × ChatRecord)
  queuedMessages : List (String × List QueuedChatMessage)

/-- A snapshot is read after its version. -/
def snapshotMember : Member SnapshotFile :=
  ((required "generatedAt" Codec.int).both ((required "projects" projectJson.list).both
    ((required "chats" chatJson.list).both (defaulting "queuedMessages" queueJson.list [])))).map
    (fun s => (s.generatedAt, s.projects, s.chats, s.queuedMessages))
    (fun (g, p, c, q) => ⟨g, p, c, q⟩) fun _ => rfl

def SnapshotFile.toJson (snapshot : SnapshotFile) : Value :=
  .obj (("v", versionJson) :: snapshotMember.write snapshot)

end Records

end TradeFramework.EventStore
