import TradeFramework.EventStore.EventJson
import Mathlib.Data.List.DropRight
import Mathlib.Data.List.Sort
import Mathlib.Data.Prod.Lex

/-!
# The files of the event store

One snapshot, four logs of one event to a line, and a transcript for each chat. Loading reads the
snapshot and replays the logs over it in the order of their events' times; what it cannot read
makes it clear the storage.
-/

namespace TradeFramework.EventStore

open JsonText (Value isSpace parse stringify member)

abbrev Text := List Char

/-- The files, decoded. A file that does not exist reads like an empty one, but for the snapshot. -/
structure Disk where
  snapshot : Option Text
  log : Fin 4 → Text
  transcript : String → Text

def Disk.empty : Disk := ⟨none, fun _ => [], fun _ => []⟩

section Lines

/-- The characters `trim` removes. -/
def isBlank (c : Char) : Bool :=
  isSpace c || c.toNat ∈ [0x0B, 0x0C, 0xA0, 0x1680, 0x2028, 0x2029, 0x202F, 0x205F, 0x3000, 0xFEFF] ||
    (0x2000 ≤ c.toNat && c.toNat ≤ 0x200A)

def trim (text : Text) : Text := (text.dropWhile isBlank).rdropWhile isBlank

def splitLines : Text → List Text
  | [] => [[]]
  | c :: text =>
    if c = '\n' then [] :: splitLines text
    else match splitLines text with
      | [] => [[c]]
      | line :: rest => (c :: line) :: rest

/-- `JSON.stringify(event)`. -/
def eventText (event : StoreEvent) : Text := stringify 0 event.toJson

def eventLine (event : StoreEvent) : Text := eventText event ++ ['\n']

end Lines

section Snapshots

/-- The `v` of an object, when it is an integer. -/
def versionOf : Value → Option ℤ
  | .obj members => (member members "v").bind JsonText.Codec.int.ofJson
  | _ => none

def SnapshotFile.ofJson (v : Value) : Option SnapshotFile :=
  if versionOf v ≠ some storeVersion then none
  else match v with
    | .obj members => snapshotMember.read (member members)
    | _ => none

/-- The records of a snapshot, put in their maps. -/
def SnapshotFile.state (snapshot : SnapshotFile) : StoreState :=
  ⟨Dict.ofEntries snapshot.projects, Dict.ofEntries snapshot.chats,
    Dict.ofEntries snapshot.queuedMessages⟩

/-- The state a snapshot file holds; none when it makes the storage be cleared. -/
def loadSnapshot : Option Text → Option StoreState
  | none => some createEmptyState
  | some text =>
    if trim text = [] then some createEmptyState
    else ((parse text).bind SnapshotFile.ofJson).map SnapshotFile.state

/-- Deleted projects and chats are left out. -/
def createSnapshot (generatedAt : ℤ) (s : StoreState) : SnapshotFile :=
  { generatedAt := generatedAt
    projects := (Dict.items s.projectsById).filter fun p => !p.2.deleted
    chats := (Dict.items s.chatsById).filter fun c => !c.2.deleted
    queuedMessages := Dict.items s.queuedMessagesByChatId }

def snapshotText (generatedAt : ℤ) (s : StoreState) : Text :=
  stringify 2 (createSnapshot generatedAt s).toJson

end Snapshots

section Replay

structure ParsedReplayEvent where
  event : StoreEvent
  sourceIndex : Fin 4
  lineIndex : ℕ

/-- What a line of a log turns out to be. -/
inductive LogLine
  | blank
  | event (event : StoreEvent)
  | unknown
  | incompatible
  | corrupt

/-- A project was opened under another id than its workspace key. -/
def openedElsewhere : Value → Bool
  | .obj members =>
    textAt (member members) "type" = some "project_opened" &&
      ((textAt (member members) "projectId").isNone ||
        textAt (member members) "projectId" ≠ textAt (member members) "workspaceKey")
  | _ => false

def readLine (line : Text) : LogLine :=
  if trim line = [] then .blank
  else match parse (trim line) with
    | none => .corrupt
    -- Reading the version of `null` throws, like a syntax error.
    | some .null => .corrupt
    | some v =>
      if versionOf v ≠ some storeVersion then .incompatible
      else if openedElsewhere v then .incompatible
      else match StoreEvent.ofJson v with
        | some event => .event event
        | none => .unknown

def lastNonEmpty (lines : List Text) : Option ℕ :=
  (List.range lines.length).reverse.find? fun index => trim (lines.getD index []) ≠ []

/-- The events of the lines from an index on; none when the storage is cleared. -/
def readLines (sourceIndex : Fin 4) (last : Option ℕ) : ℕ → List Text → Option (List ParsedReplayEvent)
  | _, [] => some []
  | index, line :: rest =>
    match readLine line with
    | .blank => readLines sourceIndex last (index + 1) rest
    | .unknown => readLines sourceIndex last (index + 1) rest
    | .event event => (readLines sourceIndex last (index + 1) rest).map (⟨event, sourceIndex, index⟩ :: ·)
    | .incompatible => none
    | .corrupt => if last = some index then some [] else none

def loadReplayEvents (text : Text) (sourceIndex : Fin 4) : Option (List ParsedReplayEvent) :=
  if trim text = [] then some []
  else readLines sourceIndex (lastNonEmpty (splitLines text)) 0 (splitLines text)

/-- The order of the replay: by time, priority, log and line. -/
def ParsedReplayEvent.key (p : ParsedReplayEvent) : ℤ ×ₗ (ℕ ×ₗ (ℕ ×ₗ ℕ)) :=
  toLex (p.event.timestamp, toLex (getReplayEventPriority p.event,
    toLex (p.sourceIndex.val, p.lineIndex)))

def replayOrder (p q : ParsedReplayEvent) : Prop := p.key ≤ q.key

instance : DecidableRel replayOrder := fun p q => inferInstanceAs (Decidable (p.key ≤ q.key))

def loadAllReplayEvents (log : Fin 4 → Text) : Option (List ParsedReplayEvent) :=
  (loadReplayEvents (log 0) 0).bind fun projects =>
    (loadReplayEvents (log 1) 1).bind fun chats =>
      (loadReplayEvents (log 2) 2).bind fun queuedMessages =>
        (loadReplayEvents (log 3) 3).map fun turns => projects ++ (chats ++ (queuedMessages ++ turns))

def replayEvents (s : StoreState) (events : List ParsedReplayEvent) : StoreState :=
  ((events.insertionSort replayOrder).map ParsedReplayEvent.event).foldl applyEvent s

/-- `loadSnapshot` and `replayLogs`; none when they clear the storage. -/
def load (disk : Disk) : Option StoreState :=
  (loadSnapshot disk.snapshot).bind fun s =>
    (loadAllReplayEvents disk.log).map (replayEvents s)

/-- The storage after `clearStorage`. -/
def clearStorage (disk : Disk) : Disk := { disk with snapshot := some [], log := fun _ => [] }

end Replay

section Transcripts

/-- The entries of the lines of a transcript; none when a line is no JSON, which throws. -/
def readEntries : List Text → Option (List Value)
  | [] => some []
  | line :: rest =>
    if trim line = [] then readEntries rest
    else (parse (trim line)).bind fun entry => (readEntries rest).map (entry :: ·)

def loadTranscriptFromDisk (text : Text) : Option (List Value) :=
  if trim text = [] then some [] else readEntries (splitLines text)

end Transcripts

end TradeFramework.EventStore
