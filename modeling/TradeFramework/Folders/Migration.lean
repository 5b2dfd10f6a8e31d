import TradeFramework.Folders.Rearrange
import TradeFramework.Library.BestByKey
import Mathlib.Algebra.Order.Monoid.Unbundled.WithTop

/-!
# Migration of the folder state from version 8

Version 8 kept the user folders of a flat module repository in a kind folder and its BuiltIn child, and assigned
versioned items. The migration moves those user folders to the root and keeps one assignment for each item.
-/

namespace TradeFramework.Folders

open ParentForest (Below Rooted)
open Raising (raiseIf raiseIf_eq_ok seq_eq_ok bind_eq_ok pure_eq_ok mapM_eq_ok exists_mapM_iff)

section Versions

/-- What Python knows of the characters of numbers. -/
structure Numerals where
  isDigit : Char → Bool
  decimal : Char → Option ℕ

/-- ASCII text, whose digits are decimals. -/
def asciiNumerals : Numerals where
  isDigit := Char.isDigit
  decimal c := if c.isDigit then some (c.toNat - '0'.toNat) else none

variable (numerals : Numerals)

/-- `str.isdigit`. -/
def isDigitText (text : List Char) : Bool := text ≠ [] && text.all numerals.isDigit

/-- The number of digits that `int` still converts. -/
def maxStrDigits : ℕ := 4300

/-- `int` of a text of digits. A character such as a superscript is a digit, but no decimal. -/
def parseInt (text : List Char) : Except PyError ℕ :=
  let literal := String.ofList text
  let count := text.length
  match text.mapM numerals.decimal with
  | none => throw (.valueError s!"invalid literal for int() with base 10: '{literal}'")
  | some digits =>
    if maxStrDigits < count then
      throw (.valueError s!"Exceeds the limit ({maxStrDigits} digits) for integer string conversion: value has {count} digits; use sys.set_int_max_str_digits() to increase the limit")
    else pure (digits.foldl (fun value digit => 10 * value + digit) 0)

/-- A text up to the first `::`, and what follows it. -/
def splitColons : List Char → Option (List Char × List Char)
  | ':' :: ':' :: rest => some ([], rest)
  | c :: rest => (splitColons rest).map fun parts => (c :: parts.1, parts.2)
  | [] => none

/-- `item_id.rpartition("::")`, where it finds the separator. -/
def rpartitionColons (text : List Char) : Option (List Char × List Char) :=
  (splitColons text.reverse).map fun parts => (parts.2.reverse, parts.1.reverse)

def versionedRepositories : List Repository := [.environments, .analyses]

/-- The identity and the version text of an item id of version 8. -/
def versionText (r : Repository) (itemId : String) : Option (String × List Char) :=
  if r ∈ moduleRepositories then
    match itemId.toList.splitOn '/' with
    | [kind, id, version] =>
      if isDigitText numerals version then some (String.ofList (kind ++ '/' :: id), version) else none
    | _ => none
  else if r ∈ versionedRepositories then
    match rpartitionColons itemId.toList with
    | some (identity, version) =>
      if identity ≠ [] ∧ isDigitText numerals version then some (String.ofList identity, version) else none
    | none => none
  else none

/-- `_migrated_stable_item_id`. -/
def migratedStableItemId (r : Repository) (itemId : String) : Except PyError (String × Option ℕ) :=
  match versionText numerals r itemId with
  | some (identity, version) => do
    let number ← parseInt numerals version
    pure (identity, some number)
  | none => pure (itemId, none)

end Versions

section Migration

variable (unicode : Unicode) (numerals : Numerals)

/-- `flat_kinds`. -/
def flatKind : Repository → String
  | .analysisModules => "Analyzer"
  | _ => "Environment"

/-- The fixed folders that a flat module repository had in version 8. -/
def oldDefaultFolders (r : Repository) : List String :=
  if r ∈ flatModuleRepositories then [fixedFolderId (flatKind r), builtinFolderId (flatKind r)] else []

/-- A folder of a removed fixed folder goes to the root. -/
def migrateFolder (r : Repository) (folder : Folder) : Folder :=
  if folder.parentId ∈ oldDefaultFolders r then { folder with parentId := "" } else folder

/-- One assignment with the item it is about and its priority: `float("inf")` is `⊤`. -/
def candidate (r : Repository) (entry : String × String) : Except PyError (String × WithTop ℕ × String) := do
  let (stableId, version) ← migratedStableItemId numerals r entry.1
  let priority : WithTop ℕ := match version with
    | none => ⊤
    | some number => number
  pure (stableId, priority, entry.2)

/-- The assignments of one repository. An item that was in a removed fixed folder is in its default folder. -/
def migrateAssignments (r : Repository) (assignments : List (String × String)) :
    Except PyError (List (String × String)) := do
  let entries ← (Dict.items assignments).mapM (candidate numerals r)
  let candidates := Dict.items (BestByKey.best entries)
  pure ((candidates.filter fun entry => entry.2.2 ∉ oldDefaultFolders r).map fun entry => (entry.1, entry.2.2))

/-- The folders of a repository after the migration. -/
def migrateFolders (r : Repository) (folders : FolderMap) : FolderMap :=
  Dict.mapValues (fun _ => migrateFolder r) folders

/-- The state that the migration hands to `validate_state`. -/
def State.migrated (payload : State) (assignments : Repository → List (String × String)) : State where
  schemaVersion := Folders.schemaVersion
  folders r := migrateFolders r (payload.folders r)
  assignments := assignments

/-- `_migrate_v8_state`. -/
def migrateState (payload : State) : Except PyError State := do
  raiseIf (payload.schemaVersion ≠ 8) (.valueError "Repository folder state is not schemaVersion 8.")
  let assignments ← repositories.foldlM (fun (done : Repository → List (String × String)) r => do
    let normalized ← migrateAssignments numerals r (payload.assignments r)
    pure (Function.update done r normalized)) payload.assignments
  validateState unicode (payload.migrated assignments)

end Migration

end TradeFramework.Folders
