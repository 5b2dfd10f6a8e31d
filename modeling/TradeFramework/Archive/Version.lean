import TradeFramework.Data.PythonEqual
import TradeFramework.Jobs.Request

/-!
# Archived versions

The immutable directory of one version of a resource, its manifest and its record, and the checks of
`archive/version.py`. Digests are values of a type `δ`, versions are numbers, and paths are canonical,
so the checks of their spelling and of symbolic links are left out.
-/

namespace TradeFramework.Archive

open Jobs (Raised)
open Raising (raiseIf)

section Data

variable (δ : Type)

/-- The `archive` field of a record; the snapshot inside the archive has no manifest digest. -/
structure Descriptor where
  resourceType : String
  resourceId : String
  root : String
  manifestDigest : Option δ
deriving DecidableEq

/-- A version record: its common fields, and those of its resource type. -/
structure Record where
  version : ℕ
  status : String
  contentDigest : δ
  createdAt : String
  archive : Descriptor δ
  fields : List (String × Json)

structure ArchivedFile where
  path : String
  content : String
  executable : Bool

/-- An entry of `file_manifest`. -/
structure FileEntry where
  path : String
  size : ℕ
  sha256 : δ
  executable : Bool
deriving DecidableEq

/-- What a manifest digest signs. -/
structure ManifestCore where
  resourceType : String
  resourceId : String
  version : ℕ
  status : String
  contentDigest : δ
  files : List (FileEntry δ)
  recordFields : List String

/-- `.archive-manifest.json`. -/
structure Manifest extends ManifestCore δ where
  manifestDigest : δ

/-- A directory: its files, its two reserved files, and whether anything in it is writable. -/
structure Directory where
  files : List ArchivedFile := []
  record : Option (Record δ) := none
  manifest : Option (Manifest δ) := none
  writable : Bool := true

/-- SHA-256 of what the archive signs. -/
structure Digests where
  content : Json → δ
  file : ArchivedFile → ℕ × δ
  record : Record δ → ℕ × δ
  manifest : ManifestCore δ → δ

/-- What a caller fixes for one versioned resource; every version has its own destination. -/
structure Resource where
  identityKey : String
  identity : String
  resourceType : String
  resourceId : String
  recordFields : List String
  immutableFields : List String
  root : ℕ → String
  root_injective : Function.Injective root

end Data

variable {δ : Type} [DecidableEq δ]

/-- `COMMON_RECORD_FIELDS`. -/
def commonRecordFields : List String := ["version", "status", "contentDigest", "createdAt", "archive"]

def manifestName : String := ".archive-manifest.json"
def recordName : String := ".archive-record.json"

/-- `set(record)`, in alphabetical order. -/
def Record.fieldNames (r : Record δ) : List String :=
  ((commonRecordFields ++ Dict.keys r.fields).dedup).insertionSort (· ≤ ·)

/-- The declared fields of a record, in alphabetical order. -/
def Resource.expectedFields (resource : Resource) : List String :=
  ((commonRecordFields ++ resource.recordFields).dedup).insertionSort (· ≤ ·)

def Record.hasIdentity (resource : Resource) (r : Record δ) : Bool :=
  Jobs.holdsText (r.fields.lookup resource.identityKey) resource.identity

/-- The record as the snapshot in its archive has it. -/
def Record.snapshot (r : Record δ) : Record δ :=
  { r with archive := { r.archive with manifestDigest := none } }

section History

variable (resource : Resource) (records : List (Record δ))

/-- `next_version` of the records of the resource. -/
def nextVersion : ℕ := (records.map Record.version).foldr max 0 + 1

/-- The record of the greatest version. -/
def latest : Option (Record δ) := records.find? fun r => r.version + 1 == nextVersion records

/-- `unchanged_version`. -/
def unchangedVersion (digest : δ) : Option (Record δ) :=
  (latest records).filter fun r => decide (r.contentDigest = digest)

/-- One field has one value in every record. -/
def keepsField (field : String) : Bool :=
  records.all fun a => records.all fun b =>
    pythonEqual ((a.fields.lookup field).getD .null) ((b.fields.lookup field).getD .null)

/-- `validate_record_collection_material` of the records of one resource. -/
def validateHistory : Except Raised Unit := do
  raiseIf (!records.all (Record.hasIdentity resource))
    (.valueError s!"Archived version is missing identity field(s): {resource.identityKey}")
  resource.immutableFields.forM fun field => do
    raiseIf (!records.all fun r => Dict.has r.fields field)
      (.valueError s!"Archived version is missing immutable identity field '{field}'.")
    raiseIf (!keepsField records field) (.valueError
      s!"Archived version history changes immutable field '{field}': {resource.identity}")
  raiseIf ((records.map Record.version).insertionSort (· ≤ ·) ≠ List.range' 1 (nextVersion records - 1))
    (.valueError s!"Archived version history is not complete and monotonic: {resource.identity}")

end History

section Verification

variable (digests : Digests δ) (isUtcTime : String → Bool)

/-- `file_manifest`: every file but the manifest. -/
def fileManifest (d : Directory δ) : List (FileEntry δ) :=
  let entries := d.files.map fun f => FileEntry.mk f.path (digests.file f).1 (digests.file f).2 f.executable
  let record := d.record.toList.map fun r =>
    FileEntry.mk recordName (digests.record r).1 (digests.record r).2 false
  (entries ++ record).insertionSort fun a b => a.path ≤ b.path

/-- The fields a caller of `verify_archive` expects. -/
structure Expected (δ : Type) where
  resourceType : String
  resourceId : String
  version : ℕ
  contentDigest : Option δ := none
  manifestDigest : Option δ := none

/-- The mismatch `verify_archive` reports. -/
def mismatch (field : String) : Raised := .valueError s!"Archived resource {field} mismatch."

/-- `verify_archive`. -/
def verifyArchive (root : String) (d : Directory δ) (expected : Expected δ) :
    Except Raised (Manifest δ) :=
  match d.manifest with
  | none => throw (.valueError s!"Archived resource is missing {manifestName}: {root}")
  | some manifest => do
    raiseIf (manifest.status ≠ "archived") (.valueError s!"Resource archive is not Archived: {root}")
    raiseIf (fileManifest digests d ≠ manifest.files)
      (.valueError s!"Archived resource verification failed: {root}")
    raiseIf (manifest.manifestDigest ≠ digests.manifest manifest.toManifestCore)
      (.valueError s!"Archived resource manifest digest failed: {root}")
    raiseIf d.writable (.valueError s!"Archived resource is writable: {root}")
    raiseIf (manifest.resourceType ≠ expected.resourceType) (mismatch "resourceType")
    raiseIf (manifest.resourceId ≠ expected.resourceId) (mismatch "resourceId")
    raiseIf (manifest.version ≠ expected.version) (mismatch "version")
    raiseIf (expected.contentDigest.any fun digest => decide (manifest.contentDigest ≠ digest))
      (mismatch "contentDigest")
    raiseIf (expected.manifestDigest.any fun digest => decide (manifest.manifestDigest ≠ digest))
      (mismatch "manifestDigest")
    pure manifest

/-- Whether two records are the same JSON. -/
def Record.same (a b : Record δ) : Bool :=
  a.version == b.version && a.status == b.status && decide (a.contentDigest = b.contentDigest) &&
    a.createdAt == b.createdAt && decide (a.archive = b.archive) &&
    jsonValuesEqual (.obj a.fields) (.obj b.fields)

/-- `verify_record`, given the directory its archive names. -/
def verifyRecord (directory : Option (Directory δ)) (r : Record δ) : Except Raised (Manifest δ) := do
  raiseIf (r.status ≠ "archived") (.valueError "Only Archived versions can participate in execution.")
  raiseIf (r.version < 1)
    (.valueError "Archived version must be a positive canonical decimal integer.")
  raiseIf (r.createdAt = "") (.valueError "Archived version createdAt is invalid.")
  raiseIf r.archive.manifestDigest.isNone
    (.valueError "Archived version has an invalid archive descriptor.")
  raiseIf (r.archive.resourceType = "" ∨ r.archive.resourceId = "" ∨ r.archive.root = "")
    (.valueError "Archived version has an invalid archive descriptor.")
  match directory with
  | none => throw (.valueError s!"Archived resource is missing {manifestName}: {r.archive.root}")
  | some d => do
    let manifest ← verifyArchive digests r.archive.root d {
      resourceType := r.archive.resourceType, resourceId := r.archive.resourceId, version := r.version
      contentDigest := some r.contentDigest, manifestDigest := r.archive.manifestDigest }
    raiseIf (r.fieldNames ≠ manifest.recordFields)
      (.valueError "Archived version record does not match its declared exact schema.")
    raiseIf (!isUtcTime r.createdAt)
      (.valueError "Archived version createdAt must be an absolute UTC timestamp.")
    match d.record with
    | none => throw (.valueError s!"Archived resource is missing {recordName}: {r.archive.root}")
    | some archived => do
      raiseIf (!archived.same r.snapshot)
        (.valueError s!"Archived resource index record does not match its archive: {r.archive.root}")
      pure manifest

end Verification

end TradeFramework.Archive
