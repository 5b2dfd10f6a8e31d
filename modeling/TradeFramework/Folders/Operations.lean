import TradeFramework.Folders.State

/-!
# Repository folder operations

Each operation loads the state, checks its own guards and changes the state in memory; `save_state`
validates the changed state before it replaces the file, and the operation reads its reply back.
-/

namespace TradeFramework.Folders

open Raising (raiseIf)

section Reading

variable (unicode : Unicode)

/-- `require_repository`. -/
def requireRepository (repository : String) : Except PyError Repository :=
  let repository := unicode.lower (strip repository)
  match repositories.find? fun r => r.name = repository with
  | some r => pure r
  | none => throw (.valueError s!"Unknown repository: {repository}")

/-- `all_folders`. -/
def allFolders (r : Repository) (store : State) : Except PyError FolderMap := do
  let state ← validateState unicode store
  pure (withFixed r (state.folders r))

/-- `paths[folder_id]`. -/
def pathOf (paths : List (String × String)) (folderId : String) : Except PyError String :=
  match paths.lookup folderId with
  | some path => pure path
  | none => throw (.keyError folderId)

/-- The order of the rows of `repository_tree`. -/
def rowBefore (a b : Folder × String) : Bool :=
  if unicode.casefold a.2 = unicode.casefold b.2 then a.1.folderId ≤ b.1.folderId
  else unicode.casefold a.2 ≤ unicode.casefold b.2

/-- The folders of `repository_tree` with their paths. -/
def repositoryTree (r : Repository) (store : State) : Except PyError (List (Folder × String)) := do
  let state ← validateState unicode store
  let folders := withFixed r (state.folders r)
  let paths ← folderPaths folders
  let rows ← (Dict.items folders).mapM fun entry => do
    let path ← pathOf paths entry.1
    pure (entry.2, path)
  pure (rows.mergeSort (rowBefore unicode))

end Reading

section Changes

/-- What an operation returns. -/
inductive Reply
  | row (folder : Folder) (path : String)
  | removed (folder : Folder)
  | placed (repository : Repository) (itemId folderId folderPath : String)
  | done
deriving DecidableEq

/-- The state an operation hands to `save_state`, if it saves, and what it reads back afterwards. -/
structure Change where
  state : Option State
  reply : State → Except PyError Reply

def State.setFolder (s : State) (r : Repository) (folderId : String) (folder : Folder) : State :=
  { s with folders := Function.update s.folders r (Dict.set (s.folders r) folderId folder) }

def State.dropFolder (s : State) (r : Repository) (folderId : String) : State :=
  { s with folders := Function.update s.folders r (Dict.erase (s.folders r) folderId) }

def State.setAssignment (s : State) (r : Repository) (itemId folderId : String) : State :=
  { s with assignments := Function.update s.assignments r (Dict.set (s.assignments r) itemId folderId) }

def State.dropAssignment (s : State) (r : Repository) (itemId : String) : State :=
  { s with assignments := Function.update s.assignments r (Dict.erase (s.assignments r) itemId) }

end Changes

section Folders

variable (unicode : Unicode)

/-- Whether a folder other than `moved` has this name under the parent. -/
def nameTaken (folders : FolderMap) (moved : Option String) (parentId name : String) : Bool :=
  (Dict.items folders).any fun entry => moved ≠ some entry.1 ∧ entry.2.parentId = parentId ∧
    unicode.casefold entry.2.name = unicode.casefold name

/-- `next(item for item in repository_tree(…)["folders"] if item["folderId"] == folder_id)`. -/
def rowOf (r : Repository) (folderId : String) (store : State) : Except PyError Reply := do
  let rows ← repositoryTree unicode r store
  match rows.find? fun row => row.1.folderId = folderId with
  | some row => pure (.row row.1 row.2)
  | none => throw (.runtimeError "StopIteration")

/-- `create_folder`, with the token that `secrets.token_hex` draws. -/
def createFolder (store : State) (repository name parentId token : String) : Except PyError Change := do
  let r ← requireRepository unicode repository
  let name ← validateName name
  let folders ← allFolders unicode r store
  raiseIf (parentId ≠ "" ∧ folders.lookup parentId = none)
    (.valueError s!"Parent folder does not exist: {parentId}")
  raiseIf (r = .modules ∧ parentId = "") (.valueError
    "Module top-level folders are fixed; create folders inside a module type.")
  raiseIf (r ∈ flatModuleRepositories ∧ parentId ≠ "" ∧
      isDescendant parentId (repositoryBuiltinFolderId r) folders = true)
    (.valueError "User folders cannot be created inside the BuiltIn folder.")
  raiseIf (nameTaken unicode folders none parentId name = true)
    (.valueError s!"Folder '{name}' already exists under the selected parent.")
  let folderId := "folder-" ++ token
  let folder : Folder := ⟨folderId, name, parentId, false⟩
  let state ← validateState unicode store
  pure ⟨some (state.setFolder r folderId folder), fun _ => do
    let paths ← folderPaths (Dict.set folders folderId folder)
    let path ← pathOf paths folderId
    pure (.row folder path)⟩

/-- Why there is no stored folder to rename. -/
def missingForRename (r : Repository) (folderId : String) : PyError :=
  if folderId ∈ (fixedFolders r).map Prod.fst then
    .valueError "Fixed repository folders cannot be renamed."
  else .valueError s!"Folder does not exist: {folderId}"

/-- `rename_folder`. -/
def renameFolder (store : State) (repository folderId name : String) : Except PyError Change := do
  let r ← requireRepository unicode repository
  let name ← validateName name
  let state ← validateState unicode store
  match (state.folders r).lookup folderId with
  | none => throw (missingForRename r folderId)
  | some folder => do
    let folders ← allFolders unicode r store
    raiseIf (nameTaken unicode folders (some folderId) folder.parentId name = true)
      (.valueError s!"Folder '{name}' already exists under the selected parent.")
    pure ⟨some (state.setFolder r folderId { folder with name := name }), rowOf unicode r folderId⟩

/-- The fixed folder whose tree a module folder must not leave: the first one it is in. -/
def currentRoot (folders : FolderMap) (folderId : String) : String :=
  (((fixedFolders .modules).map Prod.fst).find? fun fixedId => isDescendant folderId fixedId folders).getD ""

/-- `move_folder`. -/
def moveFolder (store : State) (repository folderId parentId : String) : Except PyError Change := do
  let r ← requireRepository unicode repository
  raiseIf (folderId ∈ (fixedFolders r).map Prod.fst)
    (.valueError "Fixed repository folders cannot be moved.")
  let state ← validateState unicode store
  match (state.folders r).lookup folderId with
  | none => throw (.valueError s!"Folder does not exist: {folderId}")
  | some folder => do
    let folders ← allFolders unicode r store
    raiseIf (parentId ≠ "" ∧ folders.lookup parentId = none)
      (.valueError s!"Parent folder does not exist: {parentId}")
    raiseIf (parentId = folderId ∨ isDescendant parentId folderId folders = true)
      (.valueError "A folder cannot be moved inside itself or one of its descendants.")
    raiseIf (r = .modules ∧ (currentRoot folders folderId = "" ∨ parentId = "" ∨
        isDescendant parentId (currentRoot folders folderId) folders = false))
      (.valueError "Module folders must remain inside their fixed type folder.")
    raiseIf (r ∈ flatModuleRepositories ∧ parentId ≠ "" ∧
        isDescendant parentId (repositoryBuiltinFolderId r) folders = true)
      (.valueError "User folders cannot be moved inside the BuiltIn folder.")
    let name := folder.name
    raiseIf (nameTaken unicode folders (some folderId) parentId name = true)
      (.valueError s!"Folder '{name}' already exists under the selected parent.")
    pure ⟨some (state.setFolder r folderId { folder with parentId := parentId }), rowOf unicode r folderId⟩

/-- `delete_folder`. -/
def deleteFolder (store : State) (repository folderId : String) : Except PyError Change := do
  let r ← requireRepository unicode repository
  raiseIf (folderId ∈ (fixedFolders r).map Prod.fst)
    (.valueError "Fixed repository folders cannot be deleted.")
  let state ← validateState unicode store
  match (state.folders r).lookup folderId with
  | none => throw (.valueError s!"Folder does not exist: {folderId}")
  | some folder => do
    let folders ← allFolders unicode r store
    raiseIf (∃ entry ∈ Dict.items folders, entry.2.parentId = folderId)
      (.valueError "Folder is not empty; move or delete its child folders first.")
    raiseIf (folderId ∈ (Dict.items (state.assignments r)).map Prod.snd)
      (.valueError "Folder contains repository items; move them before deleting it.")
    pure ⟨some (state.dropFolder r folderId), fun _ => pure (.removed folder)⟩

end Folders

section Items

/-- What the placement of an item asks of its definition. -/
structure ItemDefinition where
  kind : String
  builtin : Bool
deriving DecidableEq

/-- `default_item_folder`. -/
def defaultItemFolder (r : Repository) (item : ItemDefinition) : String :=
  if item.kind ∉ moduleKinds r then ""
  else if r = .modules then
    if item.builtin then builtinFolderId item.kind else fixedFolderId item.kind
  else if item.builtin then repositoryBuiltinFolderId r
  else ""

/-- The guards of `assign_item` in a module repository. -/
def checkModuleItem (r : Repository) (folders : FolderMap) (folderId : String) (item : ItemDefinition) :
    Except PyError Unit := do
  let fixedParent := defaultItemFolder r item
  raiseIf (item.builtin = true ∧ (fixedParent = "" ∨ folderId ≠ fixedParent))
    (.valueError "Built-in Modules are fixed inside their type's BuiltIn folder.")
  raiseIf (r = .modules ∧ (fixedParent = "" ∨ folderId = "" ∨
      isDescendant folderId fixedParent folders = false))
    (.valueError "Modules must remain inside their fixed type folder.")
  raiseIf (r ∈ flatModuleRepositories ∧ item.builtin = false ∧ folderId ≠ "" ∧
      isDescendant folderId (repositoryBuiltinFolderId r) folders = true)
    (.valueError "User Modules cannot be moved inside the BuiltIn folder.")

def checkItem (r : Repository) (folders : FolderMap) (folderId : String) (item : ItemDefinition) :
    Except PyError Unit :=
  if r ∈ moduleRepositories then checkModuleItem r folders folderId item else pure ()

variable (unicode : Unicode)

/-- `assign_item`. -/
def assignItem (store : State) (repository itemId folderId : String) (item : ItemDefinition) :
    Except PyError Change := do
  let r ← requireRepository unicode repository
  let itemId := strip itemId
  raiseIf (itemId = "") (.valueError "Repository itemId is required.")
  let folders ← allFolders unicode r store
  raiseIf (folderId ≠ "" ∧ folders.lookup folderId = none)
    (.valueError s!"Folder does not exist: {folderId}")
  checkItem r folders folderId item
  let state ← validateState unicode store
  -- the default folder of an item is not written down
  let planned :=
    if r ≠ .data ∧ r ≠ .backtest ∧ folderId = defaultItemFolder r item then state.dropAssignment r itemId
    else state.setAssignment r itemId folderId
  pure ⟨some planned, fun _ => do
    let paths ← folderPaths folders
    let path ← pathOf paths folderId
    pure (.placed r itemId folderId path)⟩

/-- `remove_item_assignment`. -/
def removeItemAssignment (store : State) (repository itemId : String) : Except PyError Change := do
  let r ← requireRepository unicode repository
  let state ← validateState unicode store
  pure ⟨if (state.assignments r).lookup itemId = none then none else some (state.dropAssignment r itemId),
    fun _ => pure .done⟩

end Items

section Calls

inductive Call
  | createFolder (repository name parentId token : String)
  | renameFolder (repository folderId name : String)
  | moveFolder (repository folderId parentId : String)
  | deleteFolder (repository folderId : String)
  | assignItem (repository itemId folderId : String) (item : ItemDefinition)
  | removeItemAssignment (repository itemId : String)

variable (unicode : Unicode)

/-- The guards of a call and the change they let through. -/
def change (store : State) : Call → Except PyError Change
  | .createFolder repository name parentId token => createFolder unicode store repository name parentId token
  | .renameFolder repository folderId name => renameFolder unicode store repository folderId name
  | .moveFolder repository folderId parentId => moveFolder unicode store repository folderId parentId
  | .deleteFolder repository folderId => deleteFolder unicode store repository folderId
  | .assignItem repository itemId folderId item => assignItem unicode store repository itemId folderId item
  | .removeItemAssignment repository itemId => removeItemAssignment unicode store repository itemId

/-- Saves a change, unless `save_state` rejects it, and reads the reply. -/
def commit (store : State) (change : Change) : State × Except PyError Reply :=
  match change.state with
  | none => (store, change.reply store)
  | some state =>
    match validateState unicode state with
    | .error e => (store, .error e)
    | .ok saved => (saved, change.reply saved)

/-- A call: the state it leaves and its outcome. -/
def execute (store : State) (call : Call) : State × Except PyError Reply :=
  match change unicode store call with
  | .error e => (store, .error e)
  | .ok change => commit unicode store change

def step (store : State) (call : Call) : State := (execute unicode store call).1

end Calls

end TradeFramework.Folders
