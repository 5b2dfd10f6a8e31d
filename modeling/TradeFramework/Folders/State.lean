import TradeFramework.Data.DataPath
import TradeFramework.Library.Dictionary
import TradeFramework.Library.ParentForest
import TradeFramework.Library.Raising

/-!
# Repository folder state

User folders are stored as metadata of each repository, next to the folders the Engine defines
itself; an assignment puts a repository item into a folder. `validateState` is the check that every
state passes before it is written and after it is read.
-/

namespace TradeFramework.Folders

open Raising (raiseIf)

section Repositories

/-- `REPOSITORIES`. -/
inductive Repository
  | modules
  | analysisModules
  | environmentModules
  | data
  | backtest
  | datasets
  | samplers
  | pipelines
  | environments
  | analyses
  | backtests
  | scripts
  | workspaces
deriving DecidableEq, Repr

def Repository.name : Repository → String
  | modules => "modules"
  | analysisModules => "analysis-modules"
  | environmentModules => "environment-modules"
  | data => "data"
  | backtest => "backtest"
  | datasets => "datasets"
  | samplers => "samplers"
  | pipelines => "pipelines"
  | environments => "environments"
  | analyses => "analyses"
  | backtests => "backtests"
  | scripts => "scripts"
  | workspaces => "workspaces"

instance : ToString Repository := ⟨Repository.name⟩

def repositories : List Repository :=
  [.modules, .analysisModules, .environmentModules, .data, .backtest, .datasets, .samplers, .pipelines,
    .environments, .analyses, .backtests, .scripts, .workspaces]

@[simp] lemma mem_repositories (r : Repository) : r ∈ repositories := by cases r <;> decide

lemma nodup_repositories : repositories.Nodup := by decide

def moduleFixedFolders : List String := ["Universe", "Signal", "Target", "Constraint"]

/-- `MODULE_KINDS_BY_REPOSITORY.get(repository, ())`. -/
def moduleKinds : Repository → List String
  | .modules => moduleFixedFolders
  | .analysisModules => ["Analyzer"]
  | .environmentModules => ["Environment"]
  | _ => []

def moduleRepositories : List Repository := [.modules, .analysisModules, .environmentModules]

def flatModuleRepositories : List Repository := [.analysisModules, .environmentModules]

end Repositories

structure Folder where
  folderId : String
  name : String
  parentId : String
  fixed : Bool
deriving DecidableEq, Repr

/-- The folders of one repository by their ids. -/
abbrev FolderMap := List (String × Folder)

/-- The contents of the state file: folders, and the folder of each assigned item. -/
structure State where
  schemaVersion : ℕ
  folders : Repository → FolderMap
  assignments : Repository → List (String × String)

def schemaVersion : ℕ := 9

def emptyState : State := ⟨schemaVersion, fun _ => [], fun _ => []⟩

section FixedFolders

def isSlugChar (c : Char) : Bool := ('a' ≤ c && c ≤ 'z') || ('0' ≤ c && c ≤ '9')

/-- Kinds are ASCII text, so that `casefold` is `toLower`. The runs of `[a-z0-9]` are joined by
hyphens: what is between them is replaced, what is around them is stripped. -/
def fixedFolderId (name : String) : String :=
  let runs := (name.toLower.toList.splitOnP fun c => !isSlugChar c).filter (· ≠ [])
  "modules-fixed-" ++ "-".intercalate (runs.map String.ofList)

def builtinFolderId (name : String) : String := fixedFolderId name ++ "-builtin"

def repositoryBuiltinFolderId (r : Repository) : String := s!"{r}-fixed-builtin"

/-- The two folders of a module kind. -/
def kindFolders (name : String) : FolderMap :=
  [(fixedFolderId name, ⟨fixedFolderId name, name, "", true⟩),
    (builtinFolderId name, ⟨builtinFolderId name, "BuiltIn", fixedFolderId name, true⟩)]

def fixedFolders (r : Repository) : FolderMap :=
  if r = .modules then moduleFixedFolders.flatMap kindFolders
  else if r ∈ flatModuleRepositories then
    [(repositoryBuiltinFolderId r, ⟨repositoryBuiltinFolderId r, "BuiltIn", "", true⟩)]
  else []

/-- `{**fixed_folders(repository), **folders}`: a stored folder replaces a fixed one of its id. -/
def withFixed (r : Repository) (folders : FolderMap) : FolderMap := Dict.update (fixedFolders r) folders

end FixedFolders

section Hierarchy

/-- `str(folder.get("parentId") or "")` of a folder, if it has a parent. -/
def Folder.parent (folder : Folder) : Option String :=
  if folder.parentId = "" then none else some folder.parentId

/-- The parent of a folder id. An id without a folder has none. -/
def parentOf (folders : FolderMap) (folderId : String) : Option String :=
  (folders.lookup folderId).bind Folder.parent

/-- `_is_descendant`: a folder is its own descendant. -/
def isDescendant (folderId ancestorId : String) (folders : FolderMap) : Bool :=
  ParentForest.climb (parentOf folders) ancestorId (folders.length + 1) []
    (if folderId = "" then none else some folderId)

def strip (text : String) : String := String.ofList (stripText text.toList)

/-- `resolve` of `_folder_paths`, without its table of the paths found before. The fuel counts the
folders that are not being visited. -/
def resolvePath (folders : FolderMap) : ℕ → List String → String → Except PyError String
  | _, _, "" => pure "/"
  | 0, _, folderId => throw (.valueError s!"Repository folder hierarchy is invalid at '{folderId}'.")
  | fuel + 1, visiting, folderId =>
    match folders.lookup folderId with
    | none => throw (.valueError s!"Repository folder hierarchy is invalid at '{folderId}'.")
    | some folder =>
      if folderId ∈ visiting then
        throw (.valueError s!"Repository folder hierarchy is invalid at '{folderId}'.")
      else do
        let parentPath ← resolvePath folders fuel (folderId :: visiting) folder.parentId
        let name := strip folder.name
        pure (if parentPath = "/" then s!"/{name}" else s!"{parentPath}/{name}")

/-- `_folder_paths`. -/
def folderPaths (folders : FolderMap) : Except PyError (List (String × String)) := do
  let paths ← (Dict.items folders).mapM fun entry => do
    let path ← resolvePath folders folders.length [] entry.1
    pure (entry.1, path)
  pure (("", "/") :: paths)

end Hierarchy

section Validation

/-- `_validate_name`. -/
def validateName (name : String) : Except PyError String := do
  let name := strip name
  raiseIf (name = "") (.valueError "Folder name is required.")
  raiseIf (80 < name.length) (.valueError "Folder name must be 80 characters or fewer.")
  raiseIf ('/' ∈ name.toList ∨ '\\' ∈ name.toList ∨ name = "." ∨ name = "..")
    (.valueError "Folder name cannot contain path separators.")
  pure name

/-- The checks of one stored folder. -/
def checkFolder (r : Repository) (entry : String × Folder) : Except PyError (String × Folder) := do
  let folderId := entry.1
  let folder := entry.2
  raiseIf (folderId = "") (.valueError s!"Repository '{r}' contains an invalid folder ID.")
  raiseIf (folder.folderId ≠ folderId) (.valueError s!"Repository folder identity mismatch: {folderId}")
  raiseIf (folder.fixed = true) (.valueError
    "Fixed repository folders are Engine definitions and cannot be stored as mutable state.")
  let name ← validateName folder.name
  pure (folderId, ⟨folderId, name, folder.parentId, false⟩)

/-- Unicode case mapping. -/
structure Unicode where
  casefold : String → String
  lower : String → String

/-- ASCII text, whose case mappings are those of its letters. -/
def asciiCase : Unicode := ⟨String.toLower, String.toLower⟩

/-- What tells siblings apart. -/
def siblingKey (unicode : Unicode) (folder : Folder) : String × String :=
  (folder.parentId, unicode.casefold folder.name)

/-- The loop over `sibling_names`. -/
def checkSiblings (r : Repository) : List (String × String) → List (String × String) → Except PyError Unit
  | _, [] => pure ()
  | siblingNames, sibling :: rest => do
    raiseIf (sibling ∈ siblingNames)
      (.valueError s!"Repository '{r}' contains duplicate sibling folder names.")
    checkSiblings r (sibling :: siblingNames) rest

/-- Where the stored folders of a module repository may be. -/
def checkTrees (r : Repository) (folderIds : List String) (folders : FolderMap) : Except PyError Unit :=
  if r = .modules then
    folderIds.forM fun folderId =>
      raiseIf (¬∃ rootId ∈ (fixedFolders r).map Prod.fst, isDescendant folderId rootId folders = true)
        (.valueError s!"Module folder '{folderId}' is outside its fixed type tree.")
  else if r ∈ flatModuleRepositories then
    folderIds.forM fun folderId =>
      raiseIf (isDescendant folderId (repositoryBuiltinFolderId r) folders = true)
        (.valueError s!"Module folder '{folderId}' is inside the reserved BuiltIn folder.")
  else pure ()

/-- `item_id.split("/", 1)[0]`. -/
def kindOf (itemId : String) : String := String.ofList (itemId.toList.takeWhile (· ≠ '/'))

/-- The further checks of an assignment in a module repository. -/
def checkModuleAssignment (r : Repository) (folders : FolderMap) (itemId folderId : String) :
    Except PyError Unit := do
  let kind := kindOf itemId
  raiseIf (kind ∉ moduleKinds r ∨ folderId = "")
    (.valueError s!"Module assignment '{itemId}' has no valid type folder.")
  if r = .modules then
    raiseIf (isDescendant folderId (fixedFolderId kind) folders = false)
      (.valueError s!"Module assignment '{itemId}' is outside its {kind} folder.")
  else
    raiseIf (isDescendant folderId (repositoryBuiltinFolderId r) folders = true)
      (.valueError s!"Module assignment '{itemId}' is inside the reserved BuiltIn folder.")

/-- The checks of one assignment. -/
def checkAssignment (r : Repository) (folders : FolderMap) (entry : String × String) :
    Except PyError Unit := do
  let itemId := entry.1
  let folderId := entry.2
  raiseIf (itemId = "") (.valueError s!"Repository '{r}' contains an invalid item assignment.")
  raiseIf (folderId ≠ "" ∧ folders.lookup folderId = none)
    (.valueError s!"Repository item '{itemId}' references missing folder '{folderId}'.")
  if r ∈ moduleRepositories then checkModuleAssignment r folders itemId folderId

variable (unicode : Unicode)

/-- One turn of the loop of `validate_state`: the folders of the repository as they are kept. -/
def validateRepository (r : Repository) (folders : FolderMap) (assignments : List (String × String)) :
    Except PyError FolderMap := do
  let checked ← (Dict.items folders).mapM (checkFolder r)
  let allFolders := withFixed r checked
  let _ ← folderPaths allFolders
  checkSiblings r [] ((Dict.items allFolders).map fun entry => siblingKey unicode entry.2)
  checkTrees r (checked.map Prod.fst) allFolders
  (Dict.items assignments).forM (checkAssignment r allFolders)
  pure checked

/-- `validate_state`. -/
def validateState (payload : State) : Except PyError State := do
  raiseIf (payload.schemaVersion ≠ schemaVersion)
    (.valueError s!"Repository folder state requires schemaVersion {schemaVersion}.")
  repositories.foldlM (fun state r => do
    let checked ← validateRepository unicode r (payload.folders r) (payload.assignments r)
    pure { state with
      folders := Function.update state.folders r checked
      assignments := Function.update state.assignments r (Dict.items (payload.assignments r)) }) emptyState

end Validation

end TradeFramework.Folders
