import TradeFramework.Library.Dictionary
import TradeFramework.Library.JsonText
import Mathlib.Data.Int.Basic
import Mathlib.Logic.Function.Basic
import Mathlib.Algebra.GroupWithZero.Nat

/-!
# Store events

The records of the agent store and the events that change them. A record's id is the key it
stands under, and a project's workspace key is its id. Times are milliseconds.
-/

namespace TradeFramework.EventStore

open JsonText (Value Numeral)

inductive AgentProvider
  | claudeDeepseek
  | codexOpenai
deriving DecidableEq

inductive ProjectKind
  | tradeEngine
  | strategy
deriving DecidableEq

inductive TurnOutcome
  | success
  | failed
  | cancelled
  | interrupted
deriving DecidableEq

/-- A user's id or a request's UUID; callers pass none that is empty. -/
structure Identity where
  text : String
  nonempty : text ≠ ""
deriving DecidableEq

structure ProjectRecord where
  title : String
  kind : ProjectKind
  createdAt : ℤ
  updatedAt : ℤ
  sidebarTitle : Option String
  deletedAt : Option ℤ
deriving DecidableEq

/-- Widths and offsets are kept as they are written. -/
structure ChatReadAnchor where
  messageId : String
  atEnd : Bool
  updatedAt : ℤ
  transcriptWidth : Option Numeral
  offsetFromMessage : Option Numeral
deriving DecidableEq

/-- `baseBlob` is absent when unknown and `null` when the path was not committed. -/
structure TouchedFile where
  baseBlob : Option (Option String)
  additions : Option ℕ
  deletions : Option ℕ
deriving DecidableEq

structure TurnRequest where
  clientRequestId : String
  inputDigest : String
  turnId : String
deriving DecidableEq

/-- Attachments, options and contexts pass through the store as they came. -/
structure QueuedChatMessage where
  id : String
  content : String
  attachments : List Value
  createdAt : ℤ
  provider : Option AgentProvider
  model : Option String
  modelOptions : Option Value
  planMode : Option Bool
  autoPlan : Option Bool
  clientRequestId : Option String
  inputDigest : Option String
  context : Option Value
  uiContext : Option Value
  uiContextDigest : Option String

section TouchedFiles

/-- `TOUCHED_PATHS_LIMIT`. -/
def touchedPathsLimit : ℕ := 500

/-- Touched files by path, each path once and no more of them than the limit. -/
structure TouchedFiles where
  byPath : List (String × TouchedFile)
  distinct : (byPath.map Prod.fst).Nodup
  bounded : byPath.length ≤ touchedPathsLimit
deriving DecidableEq

def TouchedFiles.empty : TouchedFiles := ⟨[], List.nodup_nil, Nat.zero_le _⟩

/-- One count, carried forward and added to; absent when neither side has one. -/
def addCounts : Option ℕ → Option ℕ → Option ℕ
  | none, none => none
  | previous, incoming => some (previous.getD 0 + incoming.getD 0)

/-- The newest base blob, and the sum of the counts. -/
def TouchedFile.after (file : TouchedFile) (previous : Option TouchedFile) : TouchedFile :=
  { file with
    additions := addCounts (previous.bind (·.additions)) file.additions
    deletions := addCounts (previous.bind (·.deletions)) file.deletions }

lemma keys_set {α : Type*} {d : List (String × α)} {key : String} (v : α) (h : (d.lookup key).isSome) :
    (Dict.set d key v).map Prod.fst = d.map Prod.fst := by
  unfold Dict.set Dict.has
  rw [if_pos h, List.map_map]
  apply List.map_congr_left
  intro e _
  by_cases he : e.1 = key <;> simp [he]

namespace TouchedFiles

/-- A path already there is updated; a new one is taken while there is room. -/
def add (merged : TouchedFiles) (file : String × TouchedFile) : TouchedFiles :=
  match h : merged.byPath.lookup file.1 with
  | some previous =>
    ⟨Dict.set merged.byPath file.1 (file.2.after (some previous)), by
      rw [keys_set _ (by rw [h]; rfl)]
      exact merged.distinct, by
      have hlength := congrArg List.length (keys_set (file.2.after (some previous)) (by rw [h]; rfl))
      rw [List.length_map, List.length_map] at hlength
      rw [hlength]
      exact merged.bounded⟩
  | none =>
    if hroom : merged.byPath.length < touchedPathsLimit then
      ⟨Dict.set merged.byPath file.1 (file.2.after none), by
        rw [Dict.set_eq_append _ h]
        exact Dict.nodup_append _ merged.distinct h, by
        rw [Dict.set_eq_append _ h, List.length_append]
        exact hroom⟩
    else merged

end TouchedFiles

def mergeTouchedFiles (existing : TouchedFiles) (incoming : List (String × TouchedFile)) : TouchedFiles :=
  incoming.foldl TouchedFiles.add existing

lemma TouchedFile.after_none (file : TouchedFile) : file.after none = file := by
  obtain ⟨base, additions, deletions⟩ := file
  cases additions <;> cases deletions <;> simp [after, addCounts]

/-- Taking the files of a merged list once more gives the same list. -/
lemma mergeTouchedFiles_append (files : List (String × TouchedFile)) (t whole : TouchedFiles)
    (h : whole.byPath = t.byPath ++ files) : mergeTouchedFiles t files = whole := by
  induction files generalizing t with
  | nil =>
    rw [List.append_nil] at h
    cases t
    cases whole
    simp only at h
    subst h
    rfl
  | cons file files ih =>
    have hdistinct := whole.distinct
    have hbounded := whole.bounded
    rw [h] at hdistinct hbounded
    have hnew : t.byPath.lookup file.1 = none := by
      rw [Dict.lookup_eq_none_iff]
      intro v hv
      rw [List.map_append, List.map_cons, List.nodup_append] at hdistinct
      have hmem : file.1 ∈ t.byPath.map Prod.fst := List.mem_map.mpr ⟨_, hv, rfl⟩
      exact hdistinct.2.2 file.1 hmem file.1 List.mem_cons_self rfl
    have hroom : t.byPath.length < touchedPathsLimit := by
      rw [List.length_append, List.length_cons] at hbounded
      omega
    have hadd : (t.add file).byPath = t.byPath ++ [file] := by
      unfold TouchedFiles.add
      split
      next previous hprevious =>
        rw [hnew] at hprevious
        exact absurd hprevious (by simp)
      next hnone =>
        have hset := Dict.set_eq_append (file.2.after none) hnew
        rw [file.2.after_none] at hset
        rw [dif_pos hroom]
        simpa only [file.2.after_none] using hset
    exact ih (t.add file) (by rw [h, hadd, List.append_assoc]; rfl)

lemma mergeTouchedFiles_empty (t : TouchedFiles) : mergeTouchedFiles .empty t.byPath = t :=
  mergeTouchedFiles_append t.byPath .empty t rfl

end TouchedFiles

/-- `hasMessages`, `turnRequests` and `touchedFiles` are `false` and empty where the source leaves
them out. -/
structure ChatRecord where
  ownerId : Identity
  createRequestId : Identity
  createSourceChatId : Option String
  projectId : String
  title : String
  createdAt : ℤ
  updatedAt : ℤ
  deletedAt : Option ℤ
  archivedAt : Option ℤ
  doneAt : Option ℤ
  unread : Bool
  readAnchor : Option ChatReadAnchor
  provider : Option AgentProvider
  planMode : Bool
  autoPlan : Bool
  sessionToken : Option String
  pendingForkSessionToken : Option String
  hasMessages : Bool
  lastMessageAt : Option ℤ
  lastTurnStartedAt : Option ℤ
  lastModel : Option String
  lastTurnEndedAt : Option ℤ
  turnCount : Option ℕ
  lastTurnOutcome : Option TurnOutcome
  lastErrorCode : Option String
  lastErrorRetryable : Option Bool
  lastErrorMessage : Option String
  activeTurnId : Option String
  turnRequests : List TurnRequest
  touchedFiles : TouchedFiles
deriving DecidableEq

/-- A number that JavaScript takes for true. -/
def truthy (n : Option ℤ) : Bool := n.any (· ≠ 0)

def truthyText (s : Option String) : Bool := s.any (· ≠ "")

def ProjectRecord.deleted (project : ProjectRecord) : Bool := truthy project.deletedAt

def ChatRecord.deleted (chat : ChatRecord) : Bool := truthy chat.deletedAt

inductive ProjectEvent
  | opened (title : String) (kind : ProjectKind)
  | sidebarRenamed (title : Option String)
  | removed

inductive ChatEvent
  | created (ownerId createRequestId : Identity) (sourceChatId : Option String)
      (projectId title : String) (provider : AgentProvider) (lastTurnEndedAt : Option ℤ)
  | renamed (title : String)
  | deleted
  | archived
  | unarchived
  | planModeSet (planMode : Bool)
  | autoPlanSet (autoPlan : Bool)
  | readStateSet (unread : Bool)
  | doneStateSet (done : Bool)
  | readAnchorSet (messageId : String) (atEnd : Bool) (transcriptWidth offsetFromMessage : Option Numeral)
  | lastMessageAtSet (messageAt : ℤ)
  | filesTouched (files : List (String × TouchedFile))

inductive QueuedMessageEvent
  | enqueued (message : QueuedChatMessage)
  | removed (queuedMessageId : String)

inductive TurnEvent
  | started (turnId model clientRequestId inputDigest : String)
  | finished (turnId : String)
  | failed (turnId error errorCode : String) (retryable : Bool)
  | cancelled (turnId : String)
  | interrupted (turnId : String)
  | sessionTokenSet (sessionToken : Option String)
  | pendingForkSessionTokenSet (pendingForkSessionToken : Option String)

/-- An event with its time and the project or chat it is about. -/
inductive StoreEvent
  | project (timestamp : ℤ) (projectId : String) (event : ProjectEvent)
  | chat (timestamp : ℤ) (chatId : String) (event : ChatEvent)
  | queuedMessage (timestamp : ℤ) (chatId : String) (event : QueuedMessageEvent)
  | turn (timestamp : ℤ) (chatId : String) (event : TurnEvent)

namespace StoreEvent

def timestamp : StoreEvent → ℤ
  | project t _ _ => t
  | chat t _ _ => t
  | queuedMessage t _ _ => t
  | turn t _ _ => t

/-- There are four logs. -/
instance fourLogs : NeZero 4 := ⟨Nat.succ_ne_zero 3⟩

/-- The log an event is appended to: projects, chats, queued messages, turns. -/
def source : StoreEvent → Fin 4
  | project _ _ _ => 0
  | chat _ _ _ => 1
  | queuedMessage _ _ _ => 2
  | turn _ _ _ => 3

end StoreEvent

def getReplayEventPriority : StoreEvent → ℕ
  | .project _ _ _ => 0
  | .chat _ _ event =>
    match event with
    | .created _ _ _ _ _ _ _ => 1
    | .renamed _ | .planModeSet _ | .autoPlanSet _ => 2
    | .readStateSet _ | .doneStateSet _ | .readAnchorSet _ _ _ _ | .filesTouched _
    | .lastMessageAtSet _ => 9
    | .deleted | .archived | .unarchived => 10
  | .queuedMessage _ _ _ => 4
  | .turn _ _ event =>
    match event with
    | .started _ _ _ _ => 5
    | .sessionTokenSet _ => 6
    | .pendingForkSessionTokenSet _ => 6
    | .cancelled _ => 7
    | .finished _ | .failed _ _ _ _ | .interrupted _ => 8

structure StoreState where
  projectsById : List (String × ProjectRecord)
  chatsById : List (String × ChatRecord)
  queuedMessagesByChatId : List (String × List QueuedChatMessage)

def createEmptyState : StoreState := ⟨[], [], []⟩

section Records

variable (timestamp : ℤ)

def ProjectEvent.update (project : ProjectRecord) : ProjectEvent → ProjectRecord
  | .opened _ _ => project
  | .removed => { project with deletedAt := some timestamp, updatedAt := timestamp }
  | .sidebarRenamed title =>
    { project with
      sidebarTitle := if truthyText title then title else none
      updatedAt := timestamp }

def ChatEvent.update (chat : ChatRecord) : ChatEvent → ChatRecord
  | .created _ _ _ _ _ _ _ => chat
  | .renamed title => { chat with title := title, updatedAt := timestamp }
  | .deleted => { chat with deletedAt := some timestamp, updatedAt := timestamp }
  | .archived => { chat with archivedAt := some timestamp, updatedAt := timestamp }
  | .unarchived => { chat with archivedAt := none, updatedAt := timestamp }
  | .planModeSet planMode => { chat with planMode := planMode, updatedAt := timestamp }
  | .autoPlanSet autoPlan => { chat with autoPlan := autoPlan, updatedAt := timestamp }
  | .readStateSet unread => { chat with unread := unread, updatedAt := timestamp }
  | .doneStateSet done =>
    { chat with doneAt := if done then some timestamp else none, updatedAt := timestamp }
  -- A scroll does not touch `updatedAt`, and neither do touched files.
  | .readAnchorSet messageId atEnd transcriptWidth offsetFromMessage =>
    { chat with readAnchor := some ⟨messageId, atEnd, timestamp, transcriptWidth, offsetFromMessage⟩ }
  | .lastMessageAtSet messageAt =>
    { chat with
      lastMessageAt := some (max (chat.lastMessageAt.getD 0) messageAt)
      hasMessages := true
      updatedAt := max chat.updatedAt messageAt }
  | .filesTouched files => { chat with touchedFiles := mergeTouchedFiles chat.touchedFiles files }

def QueuedMessageEvent.update (chat : ChatRecord) : ChatRecord := { chat with updatedAt := timestamp }

/-- The end of a turn changes the chat only while the turn is its active one. -/
def TurnEvent.update (chat : ChatRecord) : TurnEvent → ChatRecord
  | .started turnId model clientRequestId inputDigest =>
    { chat with
      updatedAt := timestamp
      lastTurnStartedAt := some timestamp
      activeTurnId := some turnId
      turnRequests := chat.turnRequests ++ [⟨clientRequestId, inputDigest, turnId⟩]
      lastTurnOutcome := none
      lastErrorCode := none
      lastErrorRetryable := none
      lastErrorMessage := none
      turnCount := some (chat.turnCount.getD 0 + 1)
      lastModel := if model ≠ "" then some model else chat.lastModel
      doneAt := none }
  | .finished turnId =>
    if chat.activeTurnId ≠ some turnId then chat
    else { chat with
      updatedAt := timestamp
      unread := true
      lastTurnOutcome := some .success
      lastTurnEndedAt := some timestamp
      activeTurnId := none }
  | .failed turnId error errorCode retryable =>
    if chat.activeTurnId ≠ some turnId then chat
    else { chat with
      updatedAt := timestamp
      unread := true
      lastTurnOutcome := some .failed
      lastErrorCode := some errorCode
      lastErrorRetryable := some retryable
      lastErrorMessage := some error
      lastTurnEndedAt := some timestamp
      activeTurnId := none }
  | .cancelled turnId =>
    if chat.activeTurnId ≠ some turnId then chat
    else { chat with
      updatedAt := timestamp
      lastTurnOutcome := some .cancelled
      lastTurnEndedAt := some timestamp
      activeTurnId := none }
  | .interrupted turnId =>
    if chat.activeTurnId ≠ some turnId then chat
    else { chat with
      updatedAt := timestamp
      unread := true
      lastTurnOutcome := some .interrupted
      lastTurnEndedAt := some timestamp
      activeTurnId := none }
  | .sessionTokenSet sessionToken => { chat with sessionToken := sessionToken, updatedAt := timestamp }
  | .pendingForkSessionTokenSet token =>
    { chat with pendingForkSessionToken := token, updatedAt := timestamp }

def ProjectRecord.opened (title : String) (kind : ProjectKind) : ProjectRecord :=
  { title := title, kind := kind, createdAt := timestamp, updatedAt := timestamp, sidebarTitle := none,
    deletedAt := none }

/-- The record of a new chat. -/
def ChatRecord.created (ownerId createRequestId : Identity) (sourceChatId : Option String)
    (projectId title : String) (provider : AgentProvider) (lastTurnEndedAt : Option ℤ) : ChatRecord :=
  { ownerId := ownerId, createRequestId := createRequestId, createSourceChatId := sourceChatId,
    projectId := projectId, title := title, createdAt := timestamp, updatedAt := timestamp,
    deletedAt := none, archivedAt := none, doneAt := none, unread := false, readAnchor := none,
    provider := some provider, planMode := false, autoPlan := false, sessionToken := none,
    pendingForkSessionToken := none, hasMessages := false, lastMessageAt := none,
    lastTurnStartedAt := none, lastModel := none, lastTurnEndedAt := lastTurnEndedAt,
    turnCount := none, lastTurnOutcome := none, lastErrorCode := none, lastErrorRetryable := none,
    lastErrorMessage := none, activeTurnId := none, turnRequests := [], touchedFiles := .empty }

end Records

namespace StoreState

variable (s : StoreState)

def updateProject (projectId : String) (f : ProjectRecord → ProjectRecord) : StoreState :=
  match s.projectsById.lookup projectId with
  | none => s
  | some project => { s with projectsById := Dict.set s.projectsById projectId (f project) }

def updateChat (chatId : String) (f : ChatRecord → ChatRecord) : StoreState :=
  match s.chatsById.lookup chatId with
  | none => s
  | some chat => { s with chatsById := Dict.set s.chatsById chatId (f chat) }

def queuedMessages (chatId : String) : List QueuedChatMessage :=
  (s.queuedMessagesByChatId.lookup chatId).getD []

def setQueue (chatId : String) (entries : List QueuedChatMessage) : StoreState :=
  { s with queuedMessagesByChatId := Dict.set s.queuedMessagesByChatId chatId entries }

def deleteQueue (chatId : String) : StoreState :=
  { s with queuedMessagesByChatId := Dict.erase s.queuedMessagesByChatId chatId }

/-- A queue that becomes empty is dropped. -/
def updateQueue (chatId : String) : QueuedMessageEvent → StoreState
  | .enqueued message => s.setQueue chatId (s.queuedMessages chatId ++ [message])
  | .removed queuedMessageId =>
    let next := (s.queuedMessages chatId).filter fun entry : QueuedChatMessage =>
      entry.id ≠ queuedMessageId
    if next.isEmpty then s.deleteQueue chatId else s.setQueue chatId next

end StoreState

def applyEvent (s : StoreState) : StoreEvent → StoreState
  | .project t projectId event =>
    match event with
    | .opened title kind =>
      { s with projectsById := Dict.set s.projectsById projectId (ProjectRecord.opened t title kind) }
    | event => s.updateProject projectId fun project => event.update t project
  | .chat t chatId event =>
    match event with
    | .created ownerId createRequestId sourceChatId projectId title provider lastTurnEndedAt =>
      { s with chatsById := Dict.set s.chatsById chatId (ChatRecord.created t ownerId createRequestId
          sourceChatId projectId title provider lastTurnEndedAt) }
    | .deleted =>
      if (s.chatsById.lookup chatId).isNone then s
      else (s.updateChat chatId fun chat => ChatEvent.deleted.update t chat).deleteQueue chatId
    | event => s.updateChat chatId fun chat => event.update t chat
  | .queuedMessage t chatId event =>
    (s.updateQueue chatId event).updateChat chatId (QueuedMessageEvent.update t)
  | .turn t chatId event => s.updateChat chatId fun chat => event.update t chat

end TradeFramework.EventStore
