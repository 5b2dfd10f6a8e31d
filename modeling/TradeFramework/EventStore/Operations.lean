import TradeFramework.EventStore.Disk

/-!
# Operations of the store

What an operation writes is decided by the state it finds: an event for one of the logs, or
nothing when it is refused or has nothing to say. Identities that are drawn at random, and what the
sweeps pick out, are inputs.
-/

namespace TradeFramework.EventStore

open JsonText (Numeral)

inductive Operation
  | registerProject (projectId workspaceKey title : String) (kind : ProjectKind)
  | removeProject (projectId : String)
  | renameProjectSidebarTitle (projectId title : String)
  | createChat (chatId projectId : String) (ownerId clientRequestId : Identity) (provider : AgentProvider)
  | forkChat (chatId sourceChatId : String) (createRequestId : Identity)
  | copyTranscript (chatId sourceChatId : String)
  | renameChat (chatId title : String)
  | deleteChat (chatId : String)
  | archiveChat (chatId : String)
  | unarchiveChat (chatId : String)
  | sweepDeleting (chatId : String) (sweptAt : ℤ)
  | sweepArchiving (chatId : String) (sweptAt : ℤ)
  | setPlanMode (chatId : String) (planMode : Bool)
  | setAutoPlan (chatId : String) (autoPlan : Bool)
  | setChatReadState (chatId : String) (unread : Bool)
  | setChatDoneState (chatId : String) (done : Bool)
  | setChatReadAnchor (chatId messageId : String) (atEnd : Bool)
      (transcriptWidth offsetFromMessage : Option Numeral)
  | recordLastMessageAt (chatId : String) (messageAt : ℤ)
  | recordFilesTouched (chatId : String) (files : List (String × TouchedFile))
  | enqueueMessage (chatId : String) (message : QueuedChatMessage) (createdAt : Option ℤ)
  | removeQueuedMessage (chatId queuedMessageId : String)
  | recordTurnStarted (chatId model clientRequestId inputDigest turnId : String)
  | recordTurnFinished (chatId turnId : String)
  | recordTurnFailed (chatId turnId error errorCode : String) (retryable : Bool)
  | recordTurnCancelled (chatId turnId : String)
  | recordTurnInterrupted (chatId turnId : String)
  | setSessionToken (chatId : String) (sessionToken : Option String)
  | setPendingForkSessionToken (chatId : String) (pendingForkSessionToken : Option String)

/-- What waits on the write chain. -/
inductive ChainWork
  | event (e : StoreEvent)
  | copyTranscript (chatId sourceChatId : String)

def trimmed (text : String) : String := String.ofList (trim text.toList)

def getForkedChatTitle (title : String) : String :=
  if trimmed title = "" then "Fork: New Chat"
  else if "Fork: ".toList <+: (trimmed title).toList then trimmed title
  else "Fork: " ++ trimmed title

namespace StoreState

variable (s : StoreState)

def getProject (projectId : String) : Option ProjectRecord :=
  (s.projectsById.lookup projectId).filter fun project => !project.deleted

def requireChat (chatId : String) : Option ChatRecord :=
  (s.chatsById.lookup chatId).filter fun chat => !chat.deleted

/-- A chat of the owner that the request made already. -/
def requested (ownerId createRequestId : Identity) : Bool :=
  (Dict.items s.chatsById).any fun c => c.2.ownerId = ownerId ∧ c.2.createRequestId = createRequestId

/-- Files that say nothing new: the base blob is the known one and no lines are counted. -/
def knowsFiles (chat : ChatRecord) (files : List (String × TouchedFile)) : Bool :=
  files.all fun file =>
    match chat.touchedFiles.byPath.lookup file.1 with
    | none => false
    | some previous =>
      previous.baseBlob = file.2.baseBlob ∧ file.2.additions.getD 0 = 0 ∧ file.2.deletions.getD 0 = 0

/-- The session a fork goes on from. -/
def forkToken (chat : ChatRecord) : Option String :=
  (chat.sessionToken.or chat.pendingForkSessionToken).filter (· ≠ "")

/-- The turns a fork of the chat has behind it. -/
def turnsOf (chatId : String) : Option ℕ :=
  ((s.chatsById.lookup chatId).bind ChatRecord.turnCount).filter (· ≠ 0)

end StoreState

namespace Operation

variable (now : ℤ) (s : StoreState)

/-- An event that ends the active turn of a chat. -/
def ending (chatId turnId : String) (event : TurnEvent) : Option StoreEvent :=
  (s.requireChat chatId).bind fun chat =>
    if chat.activeTurnId = some turnId then some (.turn now chatId event) else none

/-- An event about a chat, unless the chat is already as it should be. -/
def setting (chatId : String) (already : ChatRecord → Bool) (event : ChatEvent) : Option StoreEvent :=
  (s.requireChat chatId).bind fun chat =>
    if already chat then none else some (.chat now chatId event)

/-- The event an operation appends; none when it throws or has nothing to do. -/
def event : Operation → Option StoreEvent
  | registerProject projectId workspaceKey title kind =>
    if trimmed projectId = "" ∨ trimmed projectId ≠ trimmed workspaceKey then none
    else if (s.getProject (trimmed projectId)).isSome then none
    else some (.project now (trimmed projectId)
      (.opened (if trimmed title = "" then trimmed projectId else trimmed title) kind))
  | removeProject projectId =>
    (s.getProject projectId).map fun _ => .project now projectId .removed
  | renameProjectSidebarTitle projectId title =>
    (s.getProject projectId).bind fun project =>
      let next := (some (trimmed title)).filter (· ≠ "")
      if project.sidebarTitle = next then none else some (.project now projectId (.sidebarRenamed next))
  | createChat chatId projectId ownerId clientRequestId provider =>
    (s.getProject projectId).bind fun _ =>
      if s.requested ownerId clientRequestId then none
      else some (.chat now chatId
        (.created ownerId clientRequestId none projectId "New Chat" provider none))
  | forkChat chatId sourceChatId createRequestId =>
    (s.requireChat sourceChatId).bind fun source =>
      source.provider.bind fun provider =>
        if (StoreState.forkToken source).isNone then none
        else if s.requested source.ownerId createRequestId then none
        else some (.chat now chatId (.created source.ownerId createRequestId (some sourceChatId)
          source.projectId (getForkedChatTitle source.title) provider source.lastTurnEndedAt))
  | copyTranscript _ _ => none
  | renameChat chatId title =>
    if trimmed title = "" then none
    else setting now s chatId (·.title = trimmed title) (.renamed (trimmed title))
  | deleteChat chatId => setting now s chatId (fun _ => false) .deleted
  | archiveChat chatId => setting now s chatId (fun _ => false) .archived
  | unarchiveChat chatId => setting now s chatId (fun _ => false) .unarchived
  | sweepDeleting chatId sweptAt => setting sweptAt s chatId (fun _ => false) .deleted
  | sweepArchiving chatId sweptAt => setting sweptAt s chatId (fun chat => truthy chat.archivedAt) .archived
  | setPlanMode chatId planMode => setting now s chatId (·.planMode = planMode) (.planModeSet planMode)
  | setAutoPlan chatId autoPlan => setting now s chatId (·.autoPlan = autoPlan) (.autoPlanSet autoPlan)
  | setChatReadState chatId unread => setting now s chatId (·.unread = unread) (.readStateSet unread)
  | setChatDoneState chatId done =>
    setting now s chatId (fun chat => truthy chat.doneAt = done) (.doneStateSet done)
  | setChatReadAnchor chatId messageId atEnd transcriptWidth offsetFromMessage =>
    setting now s chatId
      (fun chat => chat.readAnchor.any fun anchor => anchor.messageId = messageId ∧ anchor.atEnd = atEnd ∧
        anchor.offsetFromMessage = offsetFromMessage ∧ anchor.transcriptWidth = transcriptWidth)
      (.readAnchorSet messageId atEnd transcriptWidth offsetFromMessage)
  | recordLastMessageAt chatId messageAt =>
    (s.chatsById.lookup chatId).bind fun chat =>
      if messageAt ≤ chat.lastMessageAt.getD 0 then none
      else some (.chat now chatId (.lastMessageAtSet messageAt))
  | recordFilesTouched chatId files =>
    if files.isEmpty then none
    else (s.chatsById.lookup chatId).bind fun chat =>
      if StoreState.knowsFiles chat files then none else some (.chat now chatId (.filesTouched files))
  | enqueueMessage chatId message createdAt =>
    (s.requireChat chatId).map fun _ =>
      .queuedMessage (createdAt.getD now) chatId (.enqueued { message with createdAt := createdAt.getD now })
  | removeQueuedMessage chatId queuedMessageId =>
    (s.requireChat chatId).bind fun _ =>
      if (s.queuedMessages chatId).any (·.id = queuedMessageId)
      then some (.queuedMessage now chatId (.removed queuedMessageId)) else none
  | recordTurnStarted chatId model clientRequestId inputDigest turnId =>
    (s.requireChat chatId).bind fun chat =>
      if truthyText chat.activeTurnId then none
      else some (.turn now chatId (.started turnId model clientRequestId inputDigest))
  | recordTurnFinished chatId turnId => ending now s chatId turnId (.finished turnId)
  | recordTurnFailed chatId turnId error errorCode retryable =>
    ending now s chatId turnId (.failed turnId error errorCode retryable)
  | recordTurnCancelled chatId turnId => ending now s chatId turnId (.cancelled turnId)
  | recordTurnInterrupted chatId turnId => ending now s chatId turnId (.interrupted turnId)
  | setSessionToken chatId sessionToken =>
    (s.requireChat chatId).bind fun chat =>
      if chat.sessionToken = sessionToken then none
      else some (.turn now chatId (.sessionTokenSet sessionToken))
  | setPendingForkSessionToken chatId token =>
    (s.requireChat chatId).bind fun chat =>
      if chat.pendingForkSessionToken = token then none
      else some (.turn now chatId (.pendingForkSessionTokenSet token))

/-- What an operation puts on the write chain. -/
def work : Operation → Option ChainWork
  | copyTranscript chatId sourceChatId => some (.copyTranscript chatId sourceChatId)
  | operation => (operation.event now s).map .event

end Operation

end TradeFramework.EventStore
