import TradeFramework.Library.Raising
import TradeFramework.Library.Dictionary
import Mathlib.Data.Rat.Defs
import Mathlib.Algebra.GroupWithZero.Nat

/-!
# The ui-sync protocol

The messages of a browser tab and the checks a value passes before the hub keeps it. A field that
the source tests with `typeof` is a JavaScript value here.
-/

namespace TradeFramework.UiSync

open Raising (raiseIf)

/-- A JavaScript value, as `JSON.parse` returns it. -/
inductive JsValue
  | undefined
  | null
  | boolean (value : Bool)
  | number (value : ℚ)
  | infinity
  | string (value : String)
  | array (items : List JsValue)
  | object (fields : List (String × JsValue))

structure UiSyncError where
  code : String
  message : String
  retryable : Bool := false
deriving DecidableEq, Repr

def invalidRequest (message : String) : UiSyncError := ⟨"invalid_request", message, false⟩

inductive UiClientKind
  | engineSpa
  | jupyter
deriving DecidableEq, Repr

inductive UiCapability
  | presence
  | context
  | documentRead
  | documentWrite
  | resourceEvents
  | operationEvents
deriving DecidableEq, Repr

inductive DocumentKind
  | pipelineDraft
  | environmentDraft
  | analysisDraft
  | backtestDraft
  | visualizationDraft
  | datasetDraft
  | miningDraft
  | jupyterText
  | jupyterNotebook
deriving DecidableEq, Repr

inductive ChangeKind
  | changed
  | published
  | archived
  | deleted
  | validationChanged
deriving DecidableEq, Repr

inductive OperationStatus
  | started
  | progress
  | waiting
  | completed
  | failed
  | interrupted
deriving DecidableEq, Repr

/-- `CLIENT_KINDS`. -/
def clientKinds : List (String × UiClientKind) :=
  [("engine-spa", .engineSpa), ("jupyter", .jupyter)]

/-- `CAPABILITIES`. -/
def capabilities : List (String × UiCapability) :=
  [("presence", .presence), ("context", .context), ("document-read", .documentRead),
    ("document-write", .documentWrite), ("resource-events", .resourceEvents),
    ("operation-events", .operationEvents)]

/-- `DOCUMENT_KINDS`. -/
def documentKinds : List (String × DocumentKind) :=
  [("pipeline-draft", .pipelineDraft), ("environment-draft", .environmentDraft),
    ("analysis-draft", .analysisDraft), ("backtest-draft", .backtestDraft),
    ("visualization-draft", .visualizationDraft), ("dataset-draft", .datasetDraft),
    ("mining-draft", .miningDraft), ("jupyter-text", .jupyterText),
    ("jupyter-notebook", .jupyterNotebook)]

/-- `RESOURCE_CHANGES`. -/
def resourceChanges : List (String × ChangeKind) :=
  [("changed", .changed), ("published", .published), ("archived", .archived),
    ("deleted", .deleted), ("validation-changed", .validationChanged)]

/-- `OPERATION_STATUSES`. -/
def operationStatuses : List (String × OperationStatus) :=
  [("started", .started), ("progress", .progress), ("waiting", .waiting),
    ("completed", .completed), ("failed", .failed), ("interrupted", .interrupted)]

structure UiResourceRef where
  kind : String
  id : String
  version : Option String
  digest : Option String
  label : Option String
deriving DecidableEq, Repr

structure UiSelection where
  kind : String
  id : String
  label : Option String
deriving DecidableEq, Repr

structure UiContextState where
  route : String
  view : String
  subview : Option String
  projectId : Option String
  resourceRefs : List UiResourceRef
  selection : Option UiSelection
  documentId : Option String
  documentRevision : Option ℕ
deriving DecidableEq, Repr

/-- An open document; what is saved is never ahead of what is shown. -/
structure UiDocumentState where
  documentId : String
  kind : DocumentKind
  label : String
  projectId : Option String
  workspaceId : Option String
  relativePath : Option String
  language : Option String
  revision : ℕ
  savedRevision : ℕ
  contentDigest : String
  dirty : Bool
  readOnly : Bool
  saved_le : savedRevision ≤ revision
deriving DecidableEq, Repr

/-- A resource change; `occurredAt` is the instant of its ISO text, in milliseconds. -/
structure UiResourceChange where
  eventId : String
  kind : String
  id : String
  change : ChangeKind
  version : Option String
  digest : Option String
  occurredAt : ℤ
deriving DecidableEq, Repr

/-- The state of an operation; `updatedAt` is the instant of its ISO text, in milliseconds. -/
structure UiOperationState where
  operationId : String
  kind : String
  resourceId : Option String
  status : OperationStatus
  progress : Option ℚ
  message : Option String
  errorCode : Option String
  updatedAt : ℤ
deriving DecidableEq, Repr

structure UiTextPatch where
  start : ℕ
  stop : ℕ
  text : String
deriving DecidableEq, Repr

section Checks

/-- `String.prototype.length`, in UTF-16 code units. -/
def utf16Length (text : String) : ℕ :=
  (text.toList.map fun c => if c.val < 0x10000 then 1 else 2).sum

def isAsciiAlphanumeric (c : Char) : Bool :=
  ('A' ≤ c && c ≤ 'Z') || ('a' ≤ c && c ≤ 'z') || ('0' ≤ c && c ≤ '9')

/-- `/^[A-Za-z0-9][A-Za-z0-9._:-]{7,127}$/`, the pattern of `TAB_ID_RE` and `OPERATION_ID_RE`. -/
def isIdentifier (text : String) : Bool :=
  match text.toList with
  | [] => false
  | first :: rest => isAsciiAlphanumeric first && decide (7 ≤ rest.length ∧ rest.length ≤ 127) &&
      rest.all fun c => isAsciiAlphanumeric c || c = '.' || c = '_' || c = ':' || c = '-'

abbrev Fields := List (String × JsValue)

/-- `record[field]`. -/
def Fields.read (record : Fields) (field : String) : JsValue := (record.lookup field).getD .undefined

def exactObject (value : JsValue) (field : String) : Except UiSyncError Fields :=
  match value with
  | .object fields => pure fields
  | _ => throw (invalidRequest s!"{field} must be an object.")

def exactKeys (record : Fields) (allowed : List String) (field : String) : Except UiSyncError Unit :=
  match (record.map Prod.fst).find? fun key => !allowed.contains key with
  | some key => throw (invalidRequest s!"{field} contains unknown field '{key}'.")
  | none => pure ()

/-- `MAX_ID`. -/
def maxId : ℕ := 256

/-- `boundedString`. -/
def boundedText (allowEmpty : Bool) (value : JsValue) (field : String) (maxLength : ℕ := maxId) :
    Except UiSyncError String :=
  let error := if allowEmpty then invalidRequest s!"{field} must be a bounded string."
    else invalidRequest s!"{field} must be a bounded non-empty string."
  match value with
  | .string text => do
    raiseIf ((!allowEmpty && text.isEmpty) = true ∨ maxLength < utf16Length text) error
    pure text
  | _ => throw error

/-- `boundedString` of a text that may not be empty. -/
def boundedString (value : JsValue) (field : String) (maxLength : ℕ := maxId) :
    Except UiSyncError String :=
  boundedText false value field maxLength

def optionalString (value : JsValue) (field : String) (maxLength : ℕ := maxId) :
    Except UiSyncError (Option String) :=
  match value with
  | .undefined => pure none
  | value => some <$> boundedString value field maxLength

/-- `Number.MAX_SAFE_INTEGER`. -/
def maxSafeInteger : ℚ := 9007199254740991

def nonNegativeInteger (value : JsValue) (field : String) : Except UiSyncError ℕ :=
  let error := invalidRequest s!"{field} must be a non-negative integer."
  match value with
  | .number value => do
    raiseIf (value.den ≠ 1 ∨ maxSafeInteger < value ∨ value < 0) error
    pure value.num.toNat
  | _ => throw error

def optionalInteger (value : JsValue) (field : String) : Except UiSyncError (Option ℕ) :=
  match value with
  | .undefined => pure none
  | value => some <$> nonNegativeInteger value field

/-- A field that must be a Boolean. -/
def requireBoolean (value : JsValue) (error : UiSyncError) : Except UiSyncError Bool :=
  match value with
  | .boolean value => pure value
  | _ => throw error

/-- The value of a bounded text in one of the source's sets of allowed texts. -/
def memberOf {α : Type} (table : List (String × α)) (text : String) (error : UiSyncError) :
    Except UiSyncError α :=
  match table.lookup text with
  | some value => pure value
  | none => throw error

def sanitizeRelativePath (value : JsValue) : Except UiSyncError (Option String) :=
  match value with
  | .undefined => pure none
  | value => do
    let relativePath ← boundedString value "document.relativePath" 512
    let isSeparator := fun c : Char => c = '/' || c = '\\'
    let parts := relativePath.toList.splitOnP isSeparator
    raiseIf (parts.head? = some [] ∨ parts.any (fun part => part = ['.', '.'] || part.isEmpty))
      (invalidRequest "document.relativePath must be a normalized relative path.")
    pure (some (relativePath.map fun c => if c = '\\' then '/' else c))

def sanitizeResourceRef (value : JsValue) (index : ℕ) : Except UiSyncError UiResourceRef := do
  let field := s!"context.resourceRefs[{index}]"
  let record ← exactObject value field
  exactKeys record ["kind", "id", "version", "digest", "label"] field
  let kind ← boundedString (record.read "kind") s!"{field}.kind" 96
  let id ← boundedString (record.read "id") s!"{field}.id"
  let version ← optionalString (record.read "version") s!"{field}.version" 128
  let digest ← optionalString (record.read "digest") s!"{field}.digest" 128
  let label ← optionalString (record.read "label") s!"{field}.label" 256
  pure ⟨kind, id, version, digest, label⟩

def sanitizeSelection (value : JsValue) : Except UiSyncError (Option UiSelection) :=
  match value with
  | .undefined => pure none
  | value => do
    let record ← exactObject value "context.selection"
    exactKeys record ["kind", "id", "label"] "context.selection"
    let kind ← boundedString (record.read "kind") "context.selection.kind" 96
    let id ← boundedString (record.read "id") "context.selection.id"
    let label ← optionalString (record.read "label") "context.selection.label" 256
    pure (some ⟨kind, id, label⟩)

/-- `MAX_REFS`. -/
def maxRefs : ℕ := 32

/-- The references of a context: an array of at most `MAX_REFS` items. -/
def resourceRefItems (value : JsValue) : Except UiSyncError (List JsValue) :=
  let error := invalidRequest "context.resourceRefs must contain at most 32 references."
  match value with
  | .array items => do
    raiseIf (maxRefs < items.length) error
    pure items
  | _ => throw error

def sanitizeUiContext (value : JsValue) : Except UiSyncError UiContextState := do
  let record ← exactObject value "context"
  exactKeys record ["route", "view", "subview", "projectId", "resourceRefs", "selection",
    "documentId", "documentRevision"] "context"
  let items ← resourceRefItems (record.read "resourceRefs")
  let route ← boundedString (record.read "route") "context.route" 1024
  raiseIf (route.startsWith "/" = false ∨ route.startsWith "//" = true)
    (invalidRequest "context.route must be a relative application URL.")
  let view ← boundedString (record.read "view") "context.view" 96
  let subview ← optionalString (record.read "subview") "context.subview" 96
  let projectId ← optionalString (record.read "projectId") "context.projectId" 128
  let resourceRefs ← items.zipIdx.mapM fun item => sanitizeResourceRef item.1 item.2
  let selection ← sanitizeSelection (record.read "selection")
  let documentId ← optionalString (record.read "documentId") "context.documentId"
  let documentRevision ← optionalInteger (record.read "documentRevision") "context.documentRevision"
  pure ⟨route, view, subview, projectId, resourceRefs, selection, documentId, documentRevision⟩

def sanitizeUiDocument (value : JsValue) : Except UiSyncError UiDocumentState := do
  let record ← exactObject value "document"
  exactKeys record ["documentId", "kind", "label", "projectId", "workspaceId", "relativePath",
    "language", "revision", "savedRevision", "contentDigest", "dirty", "readOnly"] "document"
  let kindText ← boundedString (record.read "kind") "document.kind" 64
  let kind ← memberOf documentKinds kindText
    ⟨"unsupported_document_type", s!"Unsupported document kind '{kindText}'.", false⟩
  let booleans := invalidRequest "document dirty/readOnly fields must be booleans."
  let dirty ← requireBoolean (record.read "dirty") booleans
  let readOnly ← requireBoolean (record.read "readOnly") booleans
  let revision ← nonNegativeInteger (record.read "revision") "document.revision"
  let savedRevision ← nonNegativeInteger (record.read "savedRevision") "document.savedRevision"
  if hsaved : savedRevision ≤ revision then do
    let documentId ← boundedString (record.read "documentId") "document.documentId"
    let label ← boundedString (record.read "label") "document.label" 256
    let projectId ← optionalString (record.read "projectId") "document.projectId" 128
    let workspaceId ← optionalString (record.read "workspaceId") "document.workspaceId" 128
    let relativePath ← sanitizeRelativePath (record.read "relativePath")
    let language ← optionalString (record.read "language") "document.language" 64
    let contentDigest ← boundedString (record.read "contentDigest") "document.contentDigest" 128
    pure ⟨documentId, kind, label, projectId, workspaceId, relativePath, language, revision,
      savedRevision, contentDigest, dirty, readOnly, hsaved⟩
  else throw (invalidRequest "document.savedRevision cannot exceed revision.")

/-- An instant: a bounded text that `Date.parse` accepts. -/
def requireInstant (dateParse : String → Option ℤ) (value : JsValue) (field : String) :
    Except UiSyncError ℤ := do
  let text ← boundedString value field 64
  match dateParse text with
  | some instant => pure instant
  | none => throw (invalidRequest s!"{field} is invalid.")

def sanitizeResourceChange (dateParse : String → Option ℤ) (value : JsValue) :
    Except UiSyncError UiResourceChange := do
  let record ← exactObject value "change"
  exactKeys record ["eventId", "kind", "id", "change", "version", "digest", "occurredAt"] "change"
  let changeText ← boundedString (record.read "change") "change.change" 64
  let change ← memberOf resourceChanges changeText
    (invalidRequest s!"Unknown resource change '{changeText}'.")
  let occurredAt ← requireInstant dateParse (record.read "occurredAt") "change.occurredAt"
  let eventId ← boundedString (record.read "eventId") "change.eventId" 128
  let kind ← boundedString (record.read "kind") "change.kind" 96
  let id ← boundedString (record.read "id") "change.id"
  let version ← optionalString (record.read "version") "change.version" 128
  let digest ← optionalString (record.read "digest") "change.digest" 128
  pure ⟨eventId, kind, id, change, version, digest, occurredAt⟩

/-- A progress: absent, or a number between 0 and 1. -/
def optionalProgress (value : JsValue) : Except UiSyncError (Option ℚ) :=
  let error := invalidRequest "operation.progress must be between 0 and 1."
  match value with
  | .undefined => pure none
  | .number progress => do
    raiseIf (progress < 0 ∨ 1 < progress) error
    pure (some progress)
  | _ => throw error

def sanitizeOperation (dateParse : String → Option ℤ) (value : JsValue) :
    Except UiSyncError UiOperationState := do
  let record ← exactObject value "operation"
  exactKeys record ["operationId", "kind", "resourceId", "status", "progress", "message",
    "errorCode", "updatedAt"] "operation"
  let statusText ← boundedString (record.read "status") "operation.status" 32
  let status ← memberOf operationStatuses statusText
    (invalidRequest s!"Unknown operation status '{statusText}'.")
  let progress ← optionalProgress (record.read "progress")
  let updatedAt ← requireInstant dateParse (record.read "updatedAt") "operation.updatedAt"
  let operationId ← boundedString (record.read "operationId") "operation.operationId" 128
  let kind ← boundedString (record.read "kind") "operation.kind" 96
  let resourceId ← optionalString (record.read "resourceId") "operation.resourceId"
  let message ← optionalString (record.read "message") "operation.message" 512
  let errorCode ← optionalString (record.read "errorCode") "operation.errorCode" 96
  pure ⟨operationId, kind, resourceId, status, progress, message, errorCode, updatedAt⟩

/-- `MAX_PATCH_TEXT`. -/
def maxPatchText : ℕ := 256 * 1024

def sanitizeTextPatch (value : JsValue) : Except UiSyncError UiTextPatch := do
  let record ← exactObject value "patch"
  exactKeys record ["type", "start", "end", "text"] "patch"
  let unsupported := invalidRequest "Only bounded replace patches are supported."
  let isReplace := match record.read "type" with
    | .string text => text = "replace"
    | _ => false
  raiseIf (isReplace = false) unsupported
  let start ← nonNegativeInteger (record.read "start") "patch.start"
  let stop ← nonNegativeInteger (record.read "end") "patch.end"
  raiseIf (stop < start) (invalidRequest "patch.end cannot be before patch.start.")
  let text ← boundedText true (record.read "text") "patch.text" maxPatchText
  pure ⟨start, stop, text⟩

end Checks

inductive PatchStatus
  | applied
  | rejected
  | unknown
deriving DecidableEq, Repr

/-- `UiClientCommand`. -/
inductive UiClientCommand
  | register (tabId : String) (clientKind : String) (capabilities : List String)
  | ping
  | presenceUpdate (visible focused interacted : JsValue)
  | contextReplace (context : JsValue)
  | documentOpen (document : JsValue)
  | documentUpdate (document baseRevision : JsValue)
  | documentClose (documentId : JsValue)
  | documentSnapshotRespond (operationId documentId : String)
      (revision contentDigest content errorCode : JsValue)
  | documentPatchRespond (operationId documentId : String) (status : PatchStatus)
      (revision savedRevision contentDigest dirty errorCode message : JsValue)
  | resourceChanged (change : JsValue)
  | operationChanged (operation : JsValue)

end TradeFramework.UiSync
