import TradeFramework.Archive.Version
import TradeFramework.Library.CrashLogic

/-!
# The archive transaction

`archive_if_changed` as a script over the file system and the version index of one resource. Any call
may raise, and the process may die between any two calls. A crash inside a callback, or inside the
writing of one file of the staging directory, is a crash after it with whatever it left behind.
-/

namespace TradeFramework.Archive

open Jobs (Raised)
open Raising (raiseIf)
open Program (Script)
open Program.Script (attempt)

variable {δ : Type}

section State

/-- The index, the directories at the destinations of versions, and the staging directory of the call
under way. -/
structure Repository (δ : Type) where
  index : List (Record δ) := []
  directories : List (String × Directory δ) := []
  staging : Option (Directory δ) := none

/-- What `create_record` returns for a version. -/
structure Created where
  fields : List (String × Json)
  createdAt : String

/-- The steps of a transaction. Directories are named by their paths; the staging directory has none. -/
inductive ArchiveOp (δ : Type)
  | readIndex
  | verifyRecords (records : List (Record δ)) (evidence : Bool)
  | exists_ (root : String)
  | readArchive (root : String)
  | verifyRecord (r : Record δ)
  | commitRecord (r : Record δ)
  | readCommitted (r : Record δ)
  | makeStaging
  | prepareStaging (version : ℕ)
  | createRecord (version : ℕ)
  | writeRecord (r : Record δ)
  | writeSnapshot (r : Record δ)
  | readStaging
  | writeManifest (m : Manifest δ)
  | makeReadOnly
  | syncStaging
  | rename (root : String)
  | syncDestination
  | makeWritable (root : Option String)
  | unlink (root : Option String)
  | removeDirectory (root : Option String)

/-- The results; every step may raise. -/
def ArchiveOp.Result : ArchiveOp δ → Type
  | readIndex => List (Record δ)
  | exists_ _ => Bool
  | readArchive _ => Option (Directory δ)
  | readCommitted _ => Option (Record δ)
  | prepareStaging _ => Json
  | createRecord _ => Created
  | readStaging => Directory δ
  | unlink _ => Bool
  | verifyRecords .. | verifyRecord _ | commitRecord _ | makeStaging | writeRecord _ | writeSnapshot _
  | writeManifest _ | makeReadOnly | syncStaging | rename _ | syncDestination | makeWritable _
  | removeDirectory _ => Unit

def ArchiveOp.Res (op : ArchiveOp δ) : Type := Except Raised op.Result

/-- What `commit_record` does: it commits and returns, commits and raises, or raises without having
committed. -/
inductive CommitAnswer
  | committed
  | committedAndRaised (e : Raised)
  | refused (e : Raised)

/-- What the environment decides about a step: whether it raises, what the callbacks return and
leave in the staging directory, and whether the evidence of the caller is accepted. -/
def ArchiveOp.Answer : ArchiveOp δ → Type
  | commitRecord _ => CommitAnswer
  | prepareStaging _ => Except Raised Json × Directory δ
  | createRecord _ => Except Raised Created
  | writeRecord _ => Except Raised Unit × Directory δ
  | _ => Option Raised

abbrev ArchiveScript (δ : Type) := Script (ArchiveOp δ) ArchiveOp.Res Raised

def perform (op : ArchiveOp δ) : ArchiveScript δ op.Result := ExceptT.mk (Program.perform op)

def archiveExists (root : String) : ArchiveScript δ Bool := perform (.exists_ root)

def unlink (root : Option String) : ArchiveScript δ Bool := perform (.unlink root)

def check {α : Type} (r : Except Raised α) : ArchiveScript δ α := ExceptT.mk (pure r)

end State

section Steps

variable [DecidableEq δ] (digests : Digests δ) (isUtcTime : String → Bool) (resource : Resource)

/-- A step that the environment lets happen, or makes raise first. -/
def orRaise {α : Type} (failure : Option Raised) (s : Repository δ) (result : Except Raised α)
    (next : Repository δ) : Except Raised α × Repository δ :=
  match failure with
  | some e => (.error e, s)
  | none => (result, next)

/-- `verify_record` against the directories. -/
def Repository.verifyRecord (s : Repository δ) (r : Record δ) : Except Raised (Manifest δ) :=
  Archive.verifyRecord digests isUtcTime (s.directories.lookup r.archive.root) r

/-- `verify_record_collection`. -/
def Repository.verifyRecords (s : Repository δ) (records : List (Record δ)) : Except Raised Unit := do
  records.forM fun r => do
    let _ ← s.verifyRecord digests isUtcTime r
    pure ()
  validateHistory resource records

/-- The directory a step of `discard_archive` works on. -/
def Repository.target (s : Repository δ) : Option String → Option (Directory δ)
  | none => s.staging
  | some root => s.directories.lookup root

def Repository.replace (s : Repository δ) (root : Option String) (d : Directory δ) : Repository δ :=
  match root with
  | none => { s with staging := some d }
  | some root => { s with directories := Dict.set s.directories root d }

def Repository.remove (s : Repository δ) : Option String → Repository δ
  | none => { s with staging := none }
  | some root => { s with directories := Dict.erase s.directories root }

/-- A directory with one file less; `none` when it is empty. -/
def Directory.unlinkOne (d : Directory δ) : Option (Directory δ) :=
  match d.files, d.record, d.manifest with
  | _ :: rest, _, _ => some { d with files := rest }
  | [], some _, _ => some { d with record := none }
  | [], none, some _ => some { d with manifest := none }
  | [], none, none => none

/-- The effect of a step. -/
def ArchiveOp.exec : (op : ArchiveOp δ) → op.Answer → Repository δ → op.Res × Repository δ
  | readIndex, failure, s => orRaise failure s (.ok s.index) s
  | verifyRecords records evidence, failure, s =>
    orRaise failure s (if evidence then .ok () else s.verifyRecords digests isUtcTime resource records) s
  | exists_ root, failure, s => orRaise failure s (.ok (Dict.has s.directories root)) s
  | readArchive root, failure, s => orRaise failure s (.ok (s.directories.lookup root)) s
  | verifyRecord r, failure, s =>
    orRaise failure s ((s.verifyRecord digests isUtcTime r).map fun _ => ()) s
  | commitRecord r, .committed, s => (.ok (), { s with index := s.index ++ [r] })
  | commitRecord r, .committedAndRaised e, s => (.error e, { s with index := s.index ++ [r] })
  | commitRecord _, .refused e, s => (.error e, s)
  | readCommitted r, failure, s =>
    orRaise failure s (.ok (s.index.find? fun k => k.version == r.version)) s
  | makeStaging, failure, s => orRaise failure s (.ok ()) { s with staging := some {} }
  | prepareStaging _, (result, d), s => (result, { s with staging := some d })
  | createRecord _, result, s => (result, s)
  | writeRecord _, (result, d), s => (result, { s with staging := some d })
  | writeSnapshot r, failure, s =>
    orRaise failure s (.ok ()) { s with staging := s.staging.map fun d => { d with record := some r } }
  | readStaging, failure, s => orRaise failure s (.ok (s.staging.getD {})) s
  | writeManifest m, failure, s =>
    orRaise failure s (.ok ()) { s with staging := s.staging.map fun d => { d with manifest := some m } }
  | makeReadOnly, failure, s =>
    orRaise failure s (.ok ()) { s with staging := s.staging.map fun d => { d with writable := false } }
  | syncStaging, failure, s => orRaise failure s (.ok ()) s
  | rename root, failure, s =>
    match s.staging with
    | none => (.error (.valueError "Archive staging directory does not exist."), s)
    | some d => orRaise failure s (.ok ())
      { s with directories := Dict.set s.directories root d, staging := none }
  | syncDestination, failure, s => orRaise failure s (.ok ()) s
  | makeWritable root, failure, s => orRaise failure s (.ok ())
    ((s.target root).elim s fun d => s.replace root { d with writable := true })
  | unlink root, failure, s =>
    match (s.target root).bind Directory.unlinkOne with
    | none => orRaise failure s (.ok false) s
    | some d => orRaise failure s (.ok true) (s.replace root d)
  | removeDirectory root, failure, s => orRaise failure s (.ok ()) (s.remove root)

end Steps

section Discard

/-- The files of a directory are unlinked one by one. -/
def unlinkAll (root : Option String) : ℕ → ArchiveScript δ Unit
  | 0 => pure ()
  | fuel + 1 => do
    if ← unlink root then unlinkAll root fuel else pure ()

/-- `discard_archive` of a directory of at most `size` files. -/
def discardArchive (size : ℕ) (root : Option String) : ArchiveScript δ Unit := do
  perform (.makeWritable root)
  unlinkAll root size
  perform (.removeDirectory root)

/-- `_discard_after_failure`: a failed cleanup does not replace the first error. -/
def discardAfterFailure (size : ℕ) (root : Option String) : ArchiveScript δ Unit := do
  let _ ← attempt (discardArchive size root)
  pure ()

end Discard

section Commit

variable [DecidableEq δ]

/-- `commit_or_reconcile`. -/
def commitOrReconcile (size : ℕ) (r : Record δ) (discardIfUncommitted : Option String) :
    ArchiveScript δ (Record δ) := do
  match ← attempt (perform (.commitRecord r)) with
  | .ok _ => pure r
  | .error commitError => do
    match ← attempt (perform (.readCommitted r)) with
    | .error _ => throw commitError
    | .ok (some committed) => do
      perform (.verifyRecord committed)
      check (raiseIf (!committed.same r)
        (.valueError "Archived resource index contains a different committed record."))
      pure committed
    | .ok none => do
      match discardIfUncommitted with
      | none => throw commitError
      | some root => do
        discardAfterFailure size (some root)
        throw commitError

end Commit

section Recovery

variable [DecidableEq δ] (digests : Digests δ) (resource : Resource)

/-- The checks of `load_unindexed_record`, up to `verify_record_location`. -/
def unindexedRecord (version : ℕ) (directory : Option (Directory δ)) : Except Raised (Record δ) := do
  let root := resource.root version
  let d ← (match directory with
    | none => throw (.valueError s!"Archived resource is missing {manifestName}: {root}")
    | some d => pure d)
  let sealed_ ← verifyArchive digests root d {
    resourceType := resource.resourceType, resourceId := resource.resourceId, version := version }
  match d.record with
  | none => throw (.valueError s!"Unindexed archive has no valid immutable record: {root}")
  | some r => do
    raiseIf (r.archive ≠ ⟨resource.resourceType, resource.resourceId, root, none⟩)
      (.valueError s!"Unindexed archive descriptor is invalid: {root}")
    raiseIf (r.fieldNames ≠ resource.expectedFields ∨ !r.hasIdentity resource ∨ r.version ≠ version ∨
        r.status ≠ "archived" ∨ r.contentDigest ≠ sealed_.contentDigest)
      (.valueError s!"Unindexed archive record does not match its repository contract: {root}")
    pure { r with archive := { r.archive with manifestDigest := some sealed_.manifestDigest } }

/-- `load_unindexed_record`. -/
def loadUnindexedRecord (version : ℕ) : ArchiveScript δ (Record δ) := do
  let directory ← perform (.readArchive (resource.root version))
  let recovered ← check (unindexedRecord digests resource version directory)
  perform (.verifyRecord recovered)
  pure recovered

/-- The recovery loop: the records after every unindexed version is committed. It goes round at most
`fuel` times. -/
def recoverUnindexed (size : ℕ) : ℕ → List (Record δ) → ArchiveScript δ (List (Record δ))
  | 0, _ => throw (.runtimeError "The recovery has not ended.")
  | fuel + 1, records => do
    let version := nextVersion records
    if ← archiveExists (resource.root version) then do
      let recovered ← loadUnindexedRecord digests resource version
      perform (.verifyRecords (records ++ [recovered]) false)
      let _ ← commitOrReconcile size recovered none
      recoverUnindexed size fuel (records ++ [recovered])
    else pure records

end Recovery

section Publication

variable [DecidableEq δ] (digests : Digests δ) (resource : Resource)

/-- The staging directory must not hold a reserved file. -/
def requireNoReserved (what : String) : ArchiveScript δ Unit := do
  let d ← perform .readStaging
  check (raiseIf d.manifest.isSome
    (.valueError s!"Archived resource {what} may not create reserved file {manifestName}."))
  check (raiseIf d.record.isSome
    (.valueError s!"Archived resource {what} may not create reserved file {recordName}."))

/-- The record of a new version, before its archive is sealed. -/
def newRecord (version : ℕ) (digest : δ) (created : Created) : Record δ where
  version := version
  status := "archived"
  contentDigest := digest
  createdAt := created.createdAt
  archive := ⟨resource.resourceType, resource.resourceId, resource.root version, none⟩
  fields := created.fields.filter fun e => !decide (e.1 ∈ commonRecordFields)

/-- The checks of a new record against its contract and the history. -/
def requireRecord (records : List (Record δ)) (r : Record δ) : Except Raised Unit := do
  let unknown := r.fieldNames.filter (· ∉ resource.expectedFields)
  let missing := resource.expectedFields.filter (· ∉ r.fieldNames)
  let unknownNames := ", ".intercalate unknown
  let missingNames := ", ".intercalate missing
  let details := "; ".intercalate ((if unknown ≠ [] then [s!"unsupported field(s): {unknownNames}"] else []) ++
    if missing ≠ [] then [s!"missing field(s): {missingNames}"] else [])
  raiseIf (r.fieldNames ≠ resource.expectedFields)
    (.valueError s!"Archived resource record schema is invalid: {details}")
  raiseIf (!r.hasIdentity resource) (.valueError
    s!"Archived resource record {resource.identityKey} does not match identity '{resource.identity}'.")
  resource.immutableFields.forM fun field =>
    raiseIf (!keepsField (records ++ [r]) field) (.valueError
      s!"Archived resource identity '{resource.identity}' changes immutable field '{field}'.")

/-- The manifest of a staging directory. -/
def newManifest (version : ℕ) (digest : δ) (d : Directory δ) : Manifest δ :=
  let core : ManifestCore δ := {
    resourceType := resource.resourceType, resourceId := resource.resourceId, version := version
    status := "archived", contentDigest := digest, files := fileManifest digests d
    recordFields := resource.expectedFields }
  { core with manifestDigest := digests.manifest core }

/-- What the seal of a version expects of its archive. -/
def sealedAs (version : ℕ) (digest : δ) : Expected δ where
  resourceType := resource.resourceType
  resourceId := resource.resourceId
  version := version
  contentDigest := some digest

/-- `publish_staging_directory` and the verification of what it published. -/
def publish (version : ℕ) (digest : δ) : ArchiveScript δ (Manifest δ) := do
  let root := resource.root version
  let taken ← archiveExists root
  check (raiseIf taken (.valueError s!"Archived version directory already exists: {root}"))
  perform .syncStaging
  perform (.rename root)
  perform .syncDestination
  let published ← perform (.readArchive root)
  check (match published with
    | none => throw (.valueError s!"Archived resource is missing {manifestName}: {root}")
    | some d => verifyArchive digests root d (sealedAs resource version digest))

/-- `seal_directory`. -/
def sealDirectory (size version : ℕ) (digest : δ) : ArchiveScript δ (Manifest δ) := do
  let root := resource.root version
  let taken ← archiveExists root
  check (raiseIf taken (.valueError s!"Archived version directory already exists: {root}"))
  let d ← perform .readStaging
  check (raiseIf d.manifest.isSome
    (.valueError s!"Archive staging may not contain reserved file {manifestName}."))
  check (raiseIf d.record.isNone (.valueError s!"Archived record transaction is missing {recordName}."))
  perform (.writeManifest (newManifest digests resource version digest d))
  perform .makeReadOnly
  let staged ← perform .readStaging
  let _ ← check (verifyArchive digests "staging" staged (sealedAs resource version digest))
  tryCatch (publish digests resource version digest) fun e => do
    if ← archiveExists root then discardArchive size (some root) else pure ()
    throw e

/-- What `archive_if_changed` returns. -/
structure Outcome (δ : Type) where
  record : Record δ
  unchanged : Bool

/-- Whether a record has the fields of a draft; the common fields are not the draft's. -/
def Record.agrees (r : Record δ) (created : Created) : Bool :=
  created.fields.all fun e => decide (e.1 ∈ commonRecordFields) ||
    pythonEqual ((r.fields.lookup e.1).getD .null) e.2

/-- The leftover archive at the destination of the new version, which must be the publication asked
for. -/
def adoptExisting (size version : ℕ) (digest : δ) (created : Created) :
    ArchiveScript δ (Outcome δ) := do
  let recovered ← loadUnindexedRecord digests resource version
  check (raiseIf (recovered.contentDigest ≠ digest ∨ !recovered.agrees created)
    (.valueError
      s!"Unindexed archive does not match the requested publication: {resource.root version}"))
  let committed ← commitOrReconcile size recovered none
  discardArchive size none
  pure ⟨committed, false⟩

/-- The new version is written, sealed and committed. -/
def publishNew (size version : ℕ) (r : Record δ) : ArchiveScript δ (Outcome δ) := do
  perform (.writeRecord r)
  requireNoReserved "writer"
  perform (.writeSnapshot r)
  let sealed_ ← sealDirectory digests resource size version r.contentDigest
  let record := { r with archive := { r.archive with manifestDigest := some sealed_.manifestDigest } }
  perform (.verifyRecord record)
  let committed ← commitOrReconcile size record (some (resource.root version))
  pure ⟨committed, false⟩

/-- The draft, once its staging directory is there. -/
def archiveDraft (size : ℕ) (evidence : Bool) (records : List (Record δ)) (version : ℕ) :
    ArchiveScript δ (Outcome δ) := do
  let semanticContent ← perform (.prepareStaging version)
  requireNoReserved "implementation"
  let digest := digests.content semanticContent
  match unchangedVersion records digest with
  | some unchanged => do
    if evidence then pure () else perform (.verifyRecord unchanged)
    discardArchive size none
    pure ⟨unchanged, true⟩
  | none => do
    let created ← perform (.createRecord version)
    let r := newRecord resource version digest created
    check (requireRecord resource records r)
    if ← archiveExists (resource.root version) then
      adoptExisting digests resource size version digest created
    else publishNew digests resource size version r

/-- `archive_if_changed`, on the records its caller reads from the index; `evidence` says whether the
caller hands over evidence that they are verified. `size` bounds the files of a directory. -/
def archiveIfChanged (size : ℕ) (evidence : Bool) : ArchiveScript δ (Outcome δ) := do
  let index ← perform .readIndex
  perform (.verifyRecords index evidence)
  check (raiseIf (resource.immutableFields.any (· ∉ resource.expectedFields)) (.valueError
    (s!"Archived resource immutable field(s) are outside its record contract: " ++ ", ".intercalate
      ((resource.immutableFields.filter (· ∉ resource.expectedFields)).insertionSort (· ≤ ·)))))
  let records ← recoverUnindexed digests resource size (size + 2) index
  let version := nextVersion records
  perform .makeStaging
  tryCatch (archiveDraft digests resource size evidence records version) fun e => do
    discardAfterFailure size none
    throw e

end Publication

end TradeFramework.Archive
