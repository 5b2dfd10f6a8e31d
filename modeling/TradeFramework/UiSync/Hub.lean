import TradeFramework.UiSync.Protocol
import Mathlib.Data.List.Sort

/-!
# The ui-sync hub

The registry of browser tabs and the document operations an agent asks of them. A handler runs to
its end before the next event, so a run is a sequence of events. A promise is its number in the
order of creation; its settlements are every call of its `resolve` and `reject`.
-/

namespace TradeFramework.UiSync

open Raising (raiseIf)

abbrev SocketId := ℕ

structure InternalTab where
  socket : Option SocketId
  tabId : String
  clientKind : UiClientKind
  capabilities : List UiCapability
  connected : Bool
  visible : Bool
  focused : Bool
  openedAt : ℤ
  lastSeenAt : ℤ
  lastInteractionAt : ℤ
  context : Option UiContextState
  documents : List (String × UiDocumentState)

inductive RequestKind
  | snapshot
  | patch
deriving DecidableEq, Repr

/-- The request an operation identifier stands for; the source compares its JSON text. -/
inductive Signature
  | snapshot (documentId : String) (includeContent : Bool)
  | patch (documentId : String) (baseRevision : ℕ) (baseDigest : String) (patch : UiTextPatch)
      (save : Bool)
deriving DecidableEq, Repr

/-- `UiDocumentSnapshotResult` and `UiDocumentPatchResult`. -/
inductive OperationResult
  | snapshot (operationId documentId : String) (revision : ℕ) (contentDigest : String)
      (content : Option String)
  | patch (operationId documentId : String) (revision savedRevision : ℕ) (contentDigest : String)
      (dirty : Bool)
deriving DecidableEq, Repr

structure PendingDocumentRequest where
  kind : RequestKind
  tabId : String
  documentId : String
  signature : Signature
  timer : ℕ
  promise : ℕ
deriving DecidableEq, Repr

structure CompletedOperation where
  signature : Signature
  result : OperationResult
deriving DecidableEq, Repr

/-- What the callback of a `setTimeout` has captured. -/
structure TimerTask where
  operationId : String
  promise : ℕ
deriving DecidableEq, Repr

/-- A request that was sent to an editor, and whose caller waits for the promise. -/
structure AcceptedRequest where
  operationId : String
  kind : RequestKind
  tabId : String
  documentId : String
  signature : Signature
deriving DecidableEq, Repr

inductive Settlement
  | fulfilled (result : OperationResult)
  | rejected (error : UiSyncError)
deriving DecidableEq, Repr

/-- The hub, the `data.tabId` of its sockets, the armed timers and the promises. -/
structure UiSyncHub where
  staleTtlMs : ℤ := 45000
  sockets : List SocketId := []
  socketTab : List (SocketId × String) := []
  tabs : List (String × InternalTab) := []
  pending : List (String × PendingDocumentRequest) := []
  completedOperations : List (String × CompletedOperation) := []
  recentResources : List (String × UiResourceChange) := []
  operations : List (String × UiOperationState) := []
  serverSeq : ℕ := 0
  timers : List (ℕ × TimerTask) := []
  accepted : List AcceptedRequest := []
  settlements : List (ℕ × Settlement) := []

namespace UiSyncHub

/-- A hub before the first connection. -/
def fresh (staleTtlMs : ℤ) : UiSyncHub := { staleTtlMs := staleTtlMs }

/-- `bumpAndBroadcast`. -/
def bump (hub : UiSyncHub) : UiSyncHub := { hub with serverSeq := hub.serverSeq + 1 }

def setTab (hub : UiSyncHub) (tabId : String) (tab : InternalTab) : UiSyncHub :=
  { hub with tabs := Dict.set hub.tabs tabId tab }

/-- `this.tabs.values()`. -/
def tabValues (hub : UiSyncHub) : List InternalTab := (Dict.items hub.tabs).map Prod.snd

section Registry

def handleOpen (hub : UiSyncHub) (socket : SocketId) : UiSyncHub :=
  { hub with sockets := hub.sockets.insert socket }

/-- The tab of a socket, where the tab still belongs to it. -/
def ownTab (hub : UiSyncHub) (socket : SocketId) : Option (String × InternalTab) :=
  match hub.socketTab.lookup socket with
  | none => none
  | some tabId => match hub.tabs.lookup tabId with
    | some tab => if tab.socket = some socket then some (tabId, tab) else none
    | none => none

def handleClose (hub : UiSyncHub) (socket : SocketId) (now : ℤ) : UiSyncHub :=
  let hub := { hub with sockets := hub.sockets.filter (· ≠ socket) }
  match hub.ownTab socket with
  | none => hub
  | some (tabId, tab) => (hub.setTab tabId { tab with
      socket := none, connected := false, focused := false, visible := false,
      lastSeenAt := now }).bump

/-- The fields of a registration, checked. -/
def checkRegistration (tabId clientKind : String) (requested : List String) :
    Except UiSyncError (UiClientKind × List UiCapability) := do
  raiseIf (isIdentifier tabId = false) (invalidRequest "tabId is invalid.")
  let kind ← memberOf clientKinds clientKind (invalidRequest "clientKind is invalid.")
  let unsupported := invalidRequest "capabilities contain an unsupported value."
  raiseIf (capabilities.length < requested.length) unsupported
  let granted ← requested.mapM fun capability => memberOf capabilities capability unsupported
  pure (kind, granted.eraseDups)

/-- `register`. The socket that held the tab is asked to close; its close event comes later. -/
def register (hub : UiSyncHub) (socket : SocketId) (tabId clientKind : String)
    (requested : List String) (now : ℤ) : Except UiSyncError UiSyncHub := do
  let (kind, granted) ← checkRegistration tabId clientKind requested
  let tab := (hub.tabs.lookup tabId).getD
    ⟨some socket, tabId, kind, granted, true, false, false, now, now, now, none, []⟩
  let hub := { hub with socketTab := Dict.set hub.socketTab socket tabId }
  pure (hub.setTab tabId { tab with
    socket := some socket, clientKind := kind, capabilities := granted, connected := true,
    lastSeenAt := now }).bump

def requireRegistered (hub : UiSyncHub) (socket : SocketId) :
    Except UiSyncError (String × InternalTab) :=
  match hub.ownTab socket with
  | some (tabId, tab) => if tab.connected then pure (tabId, tab)
    else throw ⟨"registration_required", "Register this ui-sync connection first.", false⟩
  | none => throw ⟨"registration_required", "Register this ui-sync connection first.", false⟩

def requireCapability (tab : InternalTab) (capability : UiCapability) : Except UiSyncError Unit :=
  let name := match capabilities.find? fun entry => entry.2 = capability with
    | some entry => entry.1
    | none => ""
  raiseIf (capability ∉ tab.capabilities)
    ⟨"capability_required", s!"The tab did not register '{name}' capability.", false⟩

/-- A tab the sweep removes. -/
def isStale (hub : UiSyncHub) (now : ℤ) (tab : InternalTab) : Bool :=
  !tab.connected && tab.lastSeenAt ≤ now - hub.staleTtlMs

def pruneStaleTabs (hub : UiSyncHub) (now : ℤ) : UiSyncHub :=
  let kept := (Dict.items hub.tabs).filter fun entry => !hub.isStale now entry.2
  let pruned := { hub with tabs := kept }
  if hub.tabValues.any (hub.isStale now) then pruned.bump else pruned

/-- The tab whose context is the active one: the tab of the latest interaction among the connected
tabs that have a context. -/
def activeTab (hub : UiSyncHub) : Option InternalTab :=
  (hub.tabValues.insertionSort fun left right => right.lastInteractionAt ≤ left.lastInteractionAt).find?
    fun tab => tab.connected && tab.context.isSome

/-- The order of the candidates for a document: focused first, then visible, then the latest
interaction. -/
def prefers (left right : InternalTab) : Prop :=
  if left.focused ≠ right.focused then left.focused = true
  else if left.visible ≠ right.visible then left.visible = true
  else right.lastInteractionAt ≤ left.lastInteractionAt

instance (left right : InternalTab) : Decidable (prefers left right) := by
  unfold prefers
  infer_instance

/-- The connected tabs that hold a document and registered a capability. -/
def documentCandidates (hub : UiSyncHub) (documentId : String) (capability : UiCapability) :
    List InternalTab :=
  hub.tabValues.filter fun tab => tab.connected && tab.socket.isSome &&
    tab.capabilities.contains capability && Dict.has tab.documents documentId

def resolveDocumentTarget (hub : UiSyncHub) (documentId : String) (capability : UiCapability) :
    Except UiSyncError InternalTab := do
  let _ ← boundedString (.string documentId) "documentId"
  let candidates := hub.documentCandidates documentId capability
  let dirty := candidates.filter fun tab => (tab.documents.lookup documentId).any (·.dirty)
  match dirty with
  | _ :: _ :: _ => throw ⟨"editor_ambiguous",
      "More than one editor has unsaved changes for this document.", false⟩
  | [tab] => pure tab
  | [] => match candidates.insertionSort prefers with
    | tab :: _ => pure tab
    | [] => throw ⟨"document_not_open", "The document is not open in a capable frontend.", false⟩

end Registry

section Operations

def requireOperationId (value : String) : Except UiSyncError Unit :=
  raiseIf (isIdentifier value = false) (invalidRequest "operationId is invalid.")

/-- The number of completed operations the hub remembers. -/
def completedLimit : ℕ := 512

/-- A table that drops its oldest entries down to a limit. -/
def dropOldest {α : Type} (limit : ℕ) (table : List (String × α)) : List (String × α) :=
  table.drop (table.length - limit)

def settle (hub : UiSyncHub) (promise : ℕ) (settlement : Settlement) : UiSyncHub :=
  { hub with settlements := hub.settlements ++ [(promise, settlement)] }

def clearTimeout (hub : UiSyncHub) (timer : ℕ) : UiSyncHub :=
  { hub with timers := Dict.erase hub.timers timer }

def completePending (hub : UiSyncHub) (operationId : String) (pending : PendingDocumentRequest)
    (result : OperationResult) : UiSyncHub :=
  let hub := hub.clearTimeout pending.timer
  let hub := { hub with
    pending := Dict.erase hub.pending operationId
    completedOperations := dropOldest completedLimit
      (Dict.set hub.completedOperations operationId ⟨pending.signature, result⟩) }
  hub.settle pending.promise (.fulfilled result)

def rejectPending (hub : UiSyncHub) (operationId : String) (pending : PendingDocumentRequest)
    (error : UiSyncError) : UiSyncHub :=
  let hub := hub.clearTimeout pending.timer
  let hub := { hub with pending := Dict.erase hub.pending operationId }
  hub.settle pending.promise (.rejected error)

def completedOperation (hub : UiSyncHub) (operationId : String) (signature : Signature) :
    Except UiSyncError (Option OperationResult) :=
  match hub.completedOperations.lookup operationId with
  | none => pure none
  | some completed => do
    raiseIf (completed.signature ≠ signature) ⟨"idempotency_conflict",
      "operationId was already used for a different document request.", false⟩
    pure (some completed.result)

/-- What the caller of a document request gets. -/
inductive Reply
  | stored (result : OperationResult)
  | promised (promise : ℕ)
deriving DecidableEq, Repr

/-- `dispatchDocumentRequest`, up to the sending of the request. -/
def dispatchDocumentRequest (hub : UiSyncHub) (kind : RequestKind) (operationId documentId : String)
    (signature : Signature) (target : InternalTab) : Except UiSyncError (UiSyncHub × Reply) := do
  raiseIf (Dict.has hub.pending operationId = true)
    ⟨"operation_in_progress", "This operation is already in progress.", true⟩
  raiseIf (target.socket = none) ⟨"page_gone", "The selected editor disconnected.", true⟩
  let promise := hub.accepted.length
  let pending := ⟨kind, target.tabId, documentId, signature, promise, promise⟩
  pure ({ hub with
    timers := Dict.set hub.timers promise ⟨operationId, promise⟩
    pending := Dict.set hub.pending operationId pending
    accepted := hub.accepted ++ [⟨operationId, kind, target.tabId, documentId, signature⟩] },
    .promised promise)

def requestDocumentSnapshot (hub : UiSyncHub) (operationId documentId : String)
    (includeContent : Bool) : Except UiSyncError (UiSyncHub × Reply) := do
  requireOperationId operationId
  let signature := Signature.snapshot documentId includeContent
  match ← hub.completedOperation operationId signature with
  | some result => pure (hub, .stored result)
  | none => do
    let target ← hub.resolveDocumentTarget documentId .documentRead
    hub.dispatchDocumentRequest .snapshot operationId documentId signature target

/-- What a patch needs of the document it is for. -/
def checkPatchBase (target : InternalTab) (documentId : String) (baseRevision : ℕ)
    (baseDigest : String) : Except UiSyncError Unit :=
  match target.documents.lookup documentId with
  | none => throw ⟨"internal_error", "The selected document is not open.", false⟩
  | some document => do
    raiseIf (document.readOnly = true) ⟨"read_only", "The selected document is read-only.", false⟩
    raiseIf (document.revision ≠ baseRevision ∨ document.contentDigest ≠ baseDigest)
      ⟨"revision_conflict", "The selected document changed; read it again before applying a patch.",
        false⟩

def requestDocumentPatch (hub : UiSyncHub) (operationId documentId : String) (baseRevision : ℕ)
    (baseDigest : String) (patch : JsValue) (save : Bool) :
    Except UiSyncError (UiSyncHub × Reply) := do
  requireOperationId operationId
  let textPatch ← sanitizeTextPatch patch
  let signature := Signature.patch documentId baseRevision baseDigest textPatch save
  match ← hub.completedOperation operationId signature with
  | some result => pure (hub, .stored result)
  | none => do
    let target ← hub.resolveDocumentTarget documentId .documentWrite
    checkPatchBase target documentId baseRevision baseDigest
    let _ ← boundedString (.string baseDigest) "baseDigest" 128
    hub.dispatchDocumentRequest .patch operationId documentId signature target

/-- The callback of a request's timer. -/
def requestTimedOut (hub : UiSyncHub) (timer : ℕ) : UiSyncHub :=
  match hub.timers.lookup timer with
  | none => hub
  | some task =>
    let hub := hub.clearTimeout timer
    let hub := { hub with pending := Dict.erase hub.pending task.operationId }
    hub.settle task.promise (.rejected
      ⟨"operation_timeout", "The selected editor did not answer in time.", true⟩)

def requirePendingResponse (hub : UiSyncHub) (tab : InternalTab) (operationId documentId : String)
    (kind : RequestKind) : Except UiSyncError PendingDocumentRequest := do
  requireOperationId operationId
  let _ ← boundedString (.string documentId) "documentId"
  match hub.pending.lookup operationId with
  | none => throw ⟨"operation_unknown", "The document operation is not active.", false⟩
  | some pending => do
    raiseIf (pending.kind ≠ kind ∨ pending.tabId ≠ tab.tabId ∨ pending.documentId ≠ documentId)
      ⟨"operation_mismatch", "The document response does not match its request.", false⟩
    pure pending

/-- `if (command.errorCode)`. -/
def truthy : JsValue → Bool
  | .undefined | .null => false
  | .boolean value => value
  | .number value => value ≠ 0
  | .string text => !text.isEmpty
  | .infinity | .array _ | .object _ => true

/-- `MAX_DOCUMENT_CONTENT`. -/
def maxDocumentContent : ℕ := 1024 * 1024

/-- The content of a snapshot response. -/
def optionalContent (value : JsValue) : Except UiSyncError (Option String) :=
  match value with
  | .undefined => pure none
  | value => some <$> boundedText true value "content" maxDocumentContent

def resolveSnapshotResponse (hub : UiSyncHub) (tab : InternalTab) (operationId documentId : String)
    (revision contentDigest content errorCode : JsValue) : Except UiSyncError UiSyncHub := do
  let pending ← hub.requirePendingResponse tab operationId documentId .snapshot
  if truthy errorCode then do
    let code ← boundedString errorCode "errorCode" 96
    pure (hub.rejectPending operationId pending
      ⟨code, "The editor rejected the snapshot request.", false⟩)
  else do
    let revision ← nonNegativeInteger revision "revision"
    let contentDigest ← boundedString contentDigest "contentDigest" 128
    let content ← optionalContent content
    pure (hub.completePending operationId pending
      (.snapshot operationId documentId revision contentDigest content))

/-- The error of a patch that the editor did not apply. -/
def patchRejection (status : PatchStatus) (errorCode message : JsValue) :
    Except UiSyncError UiSyncError := do
  let code ← if truthy errorCode then boundedString errorCode "errorCode" 96
    else pure (if status = .unknown then "operation_unknown" else "revision_conflict")
  let text ← optionalString message "message" 512
  pure ⟨code, text.getD "The editor rejected the patch.", status = .unknown⟩

/-- The tab after an applied patch: its document, and the revision its context shows. -/
def patchTab (tab : InternalTab) (documentId : String) (document : UiDocumentState) : InternalTab :=
  { tab with
    documents := Dict.set tab.documents documentId document
    context := tab.context.map fun context =>
      if context.documentId = some documentId then
        { context with documentRevision := some document.revision }
      else context }

def resolvePatchResponse (hub : UiSyncHub) (tabId : String) (tab : InternalTab)
    (operationId documentId : String) (status : PatchStatus)
    (revision savedRevision contentDigest dirty errorCode message : JsValue) :
    Except UiSyncError UiSyncHub := do
  let pending ← hub.requirePendingResponse tab operationId documentId .patch
  if status ≠ .applied then do
    let error ← patchRejection status errorCode message
    pure (hub.rejectPending operationId pending error)
  else do
    let revision ← nonNegativeInteger revision "revision"
    let savedRevision ← nonNegativeInteger savedRevision "savedRevision"
    let contentDigest ← boundedString contentDigest "contentDigest" 128
    match dirty with
    | .boolean dirty =>
      if hsaved : savedRevision ≤ revision then
        match tab.documents.lookup documentId with
        | none => pure (hub.rejectPending operationId pending
            ⟨"document_not_open", "The document closed during the patch.", false⟩)
        | some document =>
          let document := { document with
            revision := revision, savedRevision := savedRevision, contentDigest := contentDigest,
            dirty := dirty, saved_le := hsaved }
          let hub := hub.setTab tabId (patchTab tab documentId document)
          pure (hub.completePending operationId pending
            (.patch operationId documentId revision savedRevision contentDigest dirty)).bump
      else pure (hub.rejectPending operationId pending
        (invalidRequest "The editor returned invalid savedRevision/dirty state."))
    | _ => pure (hub.rejectPending operationId pending
        (invalidRequest "The editor returned invalid savedRevision/dirty state."))

/-- `dispose`. -/
def dispose (hub : UiSyncHub) : UiSyncHub :=
  let interrupted := hub.pending.map fun entry => (entry.2.promise, Settlement.rejected
    ⟨"operation_interrupted", "ui-sync is shutting down.", true⟩)
  { hub with
    timers := hub.timers.filter fun timer => hub.pending.all fun entry => entry.2.timer ≠ timer.1
    settlements := hub.settlements ++ interrupted
    pending := []
    sockets := []
    tabs := [] }

end Operations

section Commands

variable (dateParse : String → Option ℤ)

/-- The tab after an interaction with its page. -/
def interact (tab : InternalTab) (now : ℤ) : InternalTab :=
  if tab.focused && tab.visible then { tab with lastInteractionAt := now } else tab

/-- The part of a command that acts on the tab itself. -/
def updateTab (tab : InternalTab) (command : UiClientCommand) (now : ℤ) :
    Except UiSyncError InternalTab :=
  match command with
  | .presenceUpdate visible focused interacted => do
    let booleans := invalidRequest "Presence fields must be booleans."
    let visible ← requireBoolean visible booleans
    let focused ← requireBoolean focused booleans
    match interacted with
    | .undefined | .boolean false => pure { tab with visible := visible, focused := focused }
    | .boolean true =>
      pure { tab with visible := visible, focused := focused, lastInteractionAt := now }
    | _ => throw booleans
  | .contextReplace context => do
    requireCapability tab .context
    let context ← sanitizeUiContext context
    pure (interact { tab with context := some context } now)
  | .documentOpen document => do
    requireCapability tab .documentRead
    let document ← sanitizeUiDocument document
    pure { tab with documents := Dict.set tab.documents document.documentId document }
  | .documentUpdate document baseRevision => do
    requireCapability tab .documentRead
    let document ← sanitizeUiDocument document
    match tab.documents.lookup document.documentId with
    | none => throw ⟨"document_not_open", "The document is not open in this tab.", false⟩
    | some existing => do
      let baseRevision ← nonNegativeInteger baseRevision "baseRevision"
      raiseIf (existing.revision ≠ baseRevision ∨ document.revision ≠ baseRevision + 1)
        ⟨"revision_conflict", "Document update does not match the current revision.", false⟩
      pure (interact (patchTab tab document.documentId document) now)
  | .documentClose documentId => do
    let documentId ← boundedString documentId "documentId"
    pure { tab with documents := Dict.erase tab.documents documentId }
  | _ => pure tab

/-- `MAX_RECENT_RESOURCES` and `MAX_RECENT_OPERATIONS`. -/
def maxRecent : ℕ := 128

def resourceChanged (hub : UiSyncHub) (tab : InternalTab) (change : JsValue) :
    Except UiSyncError UiSyncHub := do
  requireCapability tab .resourceEvents
  let change ← sanitizeResourceChange dateParse change
  if Dict.has hub.recentResources change.eventId then pure hub
  else pure { hub with
    recentResources := dropOldest maxRecent
      (Dict.set hub.recentResources change.eventId change) }.bump

def operationChanged (hub : UiSyncHub) (tab : InternalTab) (operation : JsValue) :
    Except UiSyncError UiSyncHub := do
  requireCapability tab .operationEvents
  let operation ← sanitizeOperation dateParse operation
  raiseIf ((hub.operations.lookup operation.operationId).any fun previous =>
      operation.updatedAt < previous.updatedAt)
    ⟨"revision_conflict", "Operation update is older than the current state.", false⟩
  pure { hub with
    operations := dropOldest maxRecent
      (Dict.set hub.operations operation.operationId operation) }.bump

/-- A command of a registered tab. -/
def tabCommand (hub : UiSyncHub) (tabId : String) (tab : InternalTab) (command : UiClientCommand)
    (now : ℤ) : Except UiSyncError UiSyncHub :=
  match command with
  | .register .. | .ping => pure hub
  | .presenceUpdate .. | .contextReplace .. | .documentOpen .. | .documentUpdate ..
  | .documentClose .. => do
    let tab ← updateTab tab command now
    pure (hub.setTab tabId tab).bump
  | .documentSnapshotRespond operationId documentId revision contentDigest content errorCode =>
    hub.resolveSnapshotResponse tab operationId documentId revision contentDigest content errorCode
  | .documentPatchRespond operationId documentId status revision savedRevision contentDigest dirty
      errorCode message =>
    hub.resolvePatchResponse tabId tab operationId documentId status revision savedRevision
      contentDigest dirty errorCode message
  | .resourceChanged change => hub.resourceChanged dateParse tab change
  | .operationChanged operation => hub.operationChanged dateParse tab operation

/-- The hub after a call that changes nothing when it throws. -/
def orKeep {ε : Type} (hub : UiSyncHub) : Except ε UiSyncHub → UiSyncHub
  | .ok hub' => hub'
  | .error _ => hub

/-- `handleCommand`. The time a tab was last seen is set before its command is looked at. -/
def handleCommand (hub : UiSyncHub) (socket : SocketId) (command : UiClientCommand) (now : ℤ) :
    UiSyncHub :=
  match command with
  | .register tabId clientKind requested =>
    hub.orKeep (hub.register socket tabId clientKind requested now)
  | command => match hub.requireRegistered socket with
    | .error _ => hub
    | .ok (tabId, tab) =>
      let tab := { tab with lastSeenAt := now }
      let hub := hub.setTab tabId tab
      hub.orKeep (hub.tabCommand dateParse tabId tab command now)

/-- What happens to the hub. -/
inductive Event
  | opened (socket : SocketId)
  | closed (socket : SocketId) (now : ℤ)
  | command (socket : SocketId) (command : UiClientCommand) (now : ℤ)
  | sweep (now : ℤ)
  | snapshotRequest (operationId documentId : String) (includeContent : Bool)
  | patchRequest (operationId documentId : String) (baseRevision : ℕ) (baseDigest : String)
      (patch : JsValue) (save : Bool)
  | timer (timer : ℕ)
  | disposed

/-- The outcome of a document request, when an event is one. -/
def request (hub : UiSyncHub) : Event → Option (Except UiSyncError (UiSyncHub × Reply))
  | .snapshotRequest operationId documentId includeContent =>
    some (hub.requestDocumentSnapshot operationId documentId includeContent)
  | .patchRequest operationId documentId baseRevision baseDigest patch save =>
    some (hub.requestDocumentPatch operationId documentId baseRevision baseDigest patch save)
  | _ => none

def step (hub : UiSyncHub) (event : Event) : UiSyncHub :=
  match event with
  | .opened socket => hub.handleOpen socket
  | .closed socket now => hub.handleClose socket now
  | .command socket command now => hub.handleCommand dateParse socket command now
  | .sweep now => hub.pruneStaleTabs now
  | .snapshotRequest operationId documentId includeContent =>
    hub.orKeep (Prod.fst <$> hub.requestDocumentSnapshot operationId documentId includeContent)
  | .patchRequest operationId documentId baseRevision baseDigest patch save =>
    hub.orKeep (Prod.fst <$>
      hub.requestDocumentPatch operationId documentId baseRevision baseDigest patch save)
  | .timer timer => hub.requestTimedOut timer
  | .disposed => hub.dispose

end Commands

end UiSyncHub

end TradeFramework.UiSync
