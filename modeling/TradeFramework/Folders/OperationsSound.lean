import TradeFramework.Folders.Operations
import TradeFramework.Folders.Rearrange
import TradeFramework.Library.Transitions

/-!
# The guards of the folder operations suffice

Every state that the guards of an operation let through passes the validation of `save_state`, unless a
stored folder carries the id of a fixed one and puts it elsewhere: `move_folder` then takes the first fixed
folder above a folder for its root, which need not lie in the kind folder of its items.
-/

namespace TradeFramework.Folders

open ParentForest (Below below_of_parent below_update_of_not below_iff)
open Raising (raiseIf raiseIf_eq_ok seq_eq_ok bind_eq_ok pure_eq_ok mapM_eq_ok exists_mapM_iff)

variable {unicode : Unicode} {roots : List String} {r : Repository} {store state : State}

section Replies

variable {folders : FolderMap}

lemma exists_pathOf {paths : List (String × String)} {folderId : String} (h : folderPaths folders = .ok paths)
    (hfolder : folderId = "" ∨ IsFolder folders folderId) : ∃ path, pathOf paths folderId = .ok path := by
  have hfound : ∃ path, paths.lookup folderId = some path := by
    obtain ⟨entries, hentries, hpaths⟩ := bind_eq_ok.mp h
    obtain rfl := pure_eq_ok.mp hpaths
    rw [Dict.lookup_cons]
    split_ifs with hempty
    · exact ⟨"/", rfl⟩
    · rw [← Option.isSome_iff_exists, Dict.lookup_isSome_iff]
      have hkeys : entries.map Prod.fst = Dict.keys folders := by
        apply Raising.map_of_mapM _ hentries
        rintro entry found hfound
        obtain ⟨path, -, hpair⟩ := bind_eq_ok.mp hfound
        obtain rfl := pure_eq_ok.mp hpair
        rfl
      have hmem : folderId ∈ entries.map Prod.fst := by
        rw [hkeys, Dict.mem_keys, Option.isSome_iff_ne_none]
        exact hfolder.resolve_left hempty
      obtain ⟨⟨_, path⟩, hentry, rfl⟩ := List.mem_map.mp hmem
      exact ⟨path, hentry⟩
  obtain ⟨path, hpath⟩ := hfound
  exact ⟨path, by simp [pathOf, hpath]⟩

/-- The tree of a state in place can be read, and every folder has a row. -/
lemma InPlace.repositoryTree (h : InPlace unicode fixedIds state) (r : Repository) :
    ∃ rows, repositoryTree unicode r state = .ok rows ∧ ∀ folderId folder,
      (withFixed r (state.folders r)).lookup folderId = some folder → ∃ path, (folder, path) ∈ rows := by
  have hforest : ∃ paths, folderPaths (withFixed r (state.folders r)) = .ok paths :=
    (exists_folderPaths (not_isFolder_empty (h.normal r))).mpr (h.placed r).forest
  obtain ⟨paths, hpaths⟩ := hforest
  have hrows : ∃ rows, (Dict.items (withFixed r (state.folders r))).mapM (fun entry => do
      let path ← pathOf paths entry.1
      pure (entry.2, path)) = .ok rows := by
    rw [exists_mapM_iff]
    rintro ⟨folderId, folder⟩ hmem
    have hfolder := isFolder_iff.mpr ⟨folder, Dict.mem_items.mp hmem⟩
    obtain ⟨path, hpath⟩ := exists_pathOf hpaths (Or.inr hfolder)
    exact ⟨(folder, path), bind_eq_ok.mpr ⟨path, hpath, rfl⟩⟩
  obtain ⟨rows, hrows⟩ := hrows
  refine ⟨rows.mergeSort (rowBefore unicode), ?_, ?_⟩
  · rw [Folders.repositoryTree, h.validate, Raising.ok_bind]
    dsimp only [State.written]
    rw [withFixed_items, hpaths, Raising.ok_bind, hrows]
    rfl
  · intro folderId folder hfolder
    have hmem := Dict.mem_items.mpr hfolder
    obtain ⟨row, hrow, hentry⟩ := Related.exists_mem_right (mapM_eq_ok.mp hrows) hmem
    obtain ⟨path, -, hpair⟩ := bind_eq_ok.mp hentry
    obtain rfl := pure_eq_ok.mp hpair
    exact ⟨path, List.mem_mergeSort.mpr hrow⟩

/-- A stored folder of a state in place has its row. -/
lemma InPlace.rowOf (h : InPlace unicode fixedIds state) {folderId : String} {folder : Folder}
    (hfolder : (state.folders r).lookup folderId = some folder) :
    ∃ reply, rowOf unicode r folderId state = .ok reply := by
  obtain ⟨rows, hrows, hall⟩ := h.repositoryTree r
  obtain ⟨path, hmem⟩ := hall folderId folder (by rw [lookup_withFixed, hfolder]; rfl)
  rw [Folders.rowOf, hrows, Raising.ok_bind]
  have hfound : (rows.find? fun row => row.1.folderId = folderId).isSome := by
    rw [List.find?_isSome]
    exact ⟨(folder, path), hmem, by simpa using (h.normal r folderId folder hfolder).same⟩
  obtain ⟨row, hrow⟩ := Option.isSome_iff_exists.mp hfound
  rw [hrow]
  exact ⟨_, rfl⟩

end Replies

section KindFolders

/-- The ids of the kind folders of `modules`. -/
def kindIds : List String := moduleFixedFolders.map fixedFolderId

/-- Each BuiltIn folder of `modules` lies in a kind folder. -/
def BuiltInsInKinds (folders : FolderMap) : Prop :=
  ∀ kind ∈ moduleFixedFolders, ∃ owner ∈ moduleFixedFolders,
    isDescendant (builtinFolderId kind) (fixedFolderId owner) folders = true

/-- The current root of a folder lies in every kind folder that the folder lies in. -/
def StaysInKinds (folders : FolderMap) (folderId : String) : Prop :=
  ∀ kind ∈ moduleFixedFolders, isDescendant folderId (fixedFolderId kind) folders = true →
    isDescendant (currentRoot folders folderId) (fixedFolderId kind) folders = true

instance (folders : FolderMap) : Decidable (BuiltInsInKinds folders) :=
  inferInstanceAs (Decidable (∀ kind ∈ moduleFixedFolders, ∃ owner ∈ moduleFixedFolders, _))

instance (folders : FolderMap) (folderId : String) : Decidable (StaysInKinds folders folderId) :=
  inferInstanceAs (Decidable (∀ kind ∈ moduleFixedFolders, _ → _))

variable {folders : FolderMap} {folderId fixedId kind : String}

lemma mem_fixedIds : fixedId ∈ fixedIds ↔
    ∃ kind ∈ moduleFixedFolders, fixedId = fixedFolderId kind ∨ fixedId = builtinFolderId kind := by
  simp [fixedIds, fixedFolders, kindFolders, moduleFixedFolders, or_assoc]

lemma kindId_mem_fixedIds (h : kind ∈ moduleFixedFolders) : fixedFolderId kind ∈ fixedIds :=
  mem_fixedIds.mpr ⟨kind, h, Or.inl rfl⟩

lemma ne_empty_of_mem_fixedIds (h : fixedId ∈ fixedIds) : fixedId ≠ "" := by
  have hall : ∀ id ∈ fixedIds, id ≠ "" := by with_unfolding_all decide
  exact hall fixedId h

/-- A fixed folder lies in a kind folder. -/
lemma BuiltInsInKinds.owner (h : BuiltInsInKinds folders) (hfixed : fixedId ∈ fixedIds) :
    ∃ root ∈ kindIds, Below (parentOf folders) fixedId root := by
  obtain ⟨kind, hkind, rfl | rfl⟩ := mem_fixedIds.mp hfixed
  · exact ⟨fixedFolderId kind, List.mem_map.mpr ⟨kind, hkind, rfl⟩, Below.refl _⟩
  · obtain ⟨owner, howner, hin⟩ := h kind hkind
    exact ⟨fixedFolderId owner, List.mem_map.mpr ⟨owner, howner, rfl⟩, (isDescendant_iff.mp hin).2⟩

/-- The current root is a fixed folder that the folder lies in. -/
lemma find?_of_currentRoot (h : currentRoot folders folderId = fixedId) (hne : fixedId ≠ "") :
    fixedIds.find? (fun root => isDescendant folderId root folders) = some fixedId := by
  unfold currentRoot at h
  cases hfind : fixedIds.find? (fun root => isDescendant folderId root folders) with
  | none =>
    rw [fixedIds] at hfind
    rw [hfind] at h
    exact absurd h.symm hne
  | some found =>
    rw [fixedIds] at hfind
    rw [hfind] at h
    exact congrArg some h

end KindFolders

section Changed

lemma InPlace.setFolder (h : InPlace unicode roots state) {folderId : String} {folder : Folder}
    (hnormal : Normal folderId folder)
    (hplaced : Placed unicode roots r (Dict.set (state.folders r) folderId folder) (state.assignments r)) :
    InPlace unicode roots (state.setFolder r folderId folder) := by
  refine ⟨h.version, fun q => ?_, fun q => ?_⟩
  · by_cases hq : q = r
    · subst hq
      simp only [State.setFolder, Function.update_self]
      intro k other hk
      rw [Dict.lookup_set] at hk
      split_ifs at hk with hsame
      · cases hk
        exact hsame ▸ hnormal
      · exact h.normal q k other hk
    · simp only [State.setFolder, Function.update_of_ne hq]
      exact h.normal q
  · by_cases hq : q = r
    · subst hq
      simp only [State.setFolder, Function.update_self]
      exact hplaced
    · simp only [State.setFolder, Function.update_of_ne hq]
      exact h.placed q

lemma InPlace.dropFolder (h : InPlace unicode roots state) {folderId : String}
    (hplaced : Placed unicode roots r (Dict.erase (state.folders r) folderId) (state.assignments r)) :
    InPlace unicode roots (state.dropFolder r folderId) := by
  refine ⟨h.version, fun q => ?_, fun q => ?_⟩
  · by_cases hq : q = r
    · subst hq
      simp only [State.dropFolder, Function.update_self]
      intro k other hk
      rw [Dict.lookup_erase] at hk
      split_ifs at hk
      exact h.normal q k other hk
    · simp only [State.dropFolder, Function.update_of_ne hq]
      exact h.normal q
  · by_cases hq : q = r
    · subst hq
      simp only [State.dropFolder, Function.update_self]
      exact hplaced
    · simp only [State.dropFolder, Function.update_of_ne hq]
      exact h.placed q

/-- The assignments of one repository change. -/
lemma InPlace.withAssignments (h : InPlace unicode roots state) {assignments : List (String × String)}
    (hplaced : Placed unicode roots r (state.folders r) assignments) :
    InPlace unicode roots { state with assignments := Function.update state.assignments r assignments } := by
  refine ⟨h.version, h.normal, fun q => ?_⟩
  by_cases hq : q = r
  · subst hq
    simp only [Function.update_self]
    exact hplaced
  · simp only [Function.update_of_ne hq]
    exact h.placed q

/-- A kind folder or BuiltIn folder counts as a root. -/
lemma InPlace.fixed (h : InPlace unicode kindIds state) : InPlace unicode fixedIds state := by
  refine ⟨h.version, h.normal, fun r => (h.placed r).of_roots ?_⟩
  intro _ root hroot
  obtain ⟨kind, hkind, rfl⟩ := List.mem_map.mp hroot
  exact ⟨_, kindId_mem_fixedIds hkind, Below.refl _⟩

/-- Where the BuiltIn folders lie in kind folders, every module folder does. -/
lemma InPlace.kinds (h : InPlace unicode fixedIds state)
    (hbuiltins : BuiltInsInKinds (withFixed .modules (state.folders .modules))) : InPlace unicode kindIds state := by
  refine ⟨h.version, h.normal, fun r => (h.placed r).of_roots ?_⟩
  rintro rfl root hroot
  exact hbuiltins.owner hroot

/-- A change whose planned state is in place, and that is answered. -/
structure Sound (unicode : Unicode) (store : State) (change : Change) : Prop where
  planned : ∀ state, change.state = some state → InPlace unicode kindIds state
  answered : ∀ state, change.state = some state → ∃ reply, change.reply state.written = .ok reply
  unsaved : change.state = none → ∃ reply, change.reply store = .ok reply

lemma Sound.of_state {planned : State} {reply : State → Except PyError Reply}
    (hplanned : InPlace unicode kindIds planned) (hreply : ∃ answer, reply planned.written = .ok answer) :
    Sound unicode store ⟨some planned, reply⟩ := by
  constructor
  · rintro _ ⟨⟩
    exact hplanned
  · rintro _ ⟨⟩
    exact hreply
  · intro h
    cases h

lemma allFolders_eq_ok (hstate : validateState unicode store = .ok state) :
    allFolders unicode r store = .ok (withFixed r (state.folders r)) := by
  rw [allFolders, hstate]
  rfl

end Changed

section Guards

variable {folders : FolderMap} {folderId parentId name repository : String} {folder : Folder} {change : Change}

lemma nameTaken_eq_false {moved : Option String} : ¬nameTaken unicode folders moved parentId name = true ↔
    ∀ k other, folders.lookup k = some other → moved ≠ some k → other.parentId = parentId →
      unicode.casefold other.name ≠ unicode.casefold name := by
  rw [nameTaken, Bool.not_eq_true, List.any_eq_false, forall_items]
  simp

/-- Nothing lies below an id without a folder. -/
lemma Placed.not_below {assignments : List (String × String)}
    (h : Placed unicode roots r folders assignments) {p : String}
    (hunknown : (withFixed r folders).lookup folderId = none) (hp : IsFolder (withFixed r folders) p) :
    ¬Below (parentOf (withFixed r folders)) p folderId :=
  fun hbelow => ((h.forest p hp).of_below hbelow).isKnown hunknown

lemma isFolder_builtin (hflat : r ∈ flatModuleRepositories) :
    IsFolder (withFixed r folders) (repositoryBuiltinFolderId r) := by
  have hfixed : (fixedFolders r).lookup (repositoryBuiltinFolderId r) ≠ none := by
    simp only [flatModuleRepositories, List.mem_cons, List.not_mem_nil, or_false] at hflat
    rcases hflat with rfl | rfl <;> with_unfolding_all decide
  rw [IsFolder, lookup_withFixed]
  cases folders.lookup (repositoryBuiltinFolderId r) with
  | none => exact hfixed
  | some folder => simp

/-- In `modules` every folder lies in a kind folder. -/
lemma BuiltInsInKinds.root_of_isFolder {assignments : List (String × String)}
    (h : BuiltInsInKinds (withFixed .modules folders)) (hplaced : Placed unicode kindIds .modules folders assignments)
    (hfolder : IsFolder (withFixed .modules folders) folderId) :
    ∃ root ∈ kindIds, Below (parentOf (withFixed .modules folders)) folderId root := by
  by_cases hstored : IsFolder folders folderId
  · exact hplaced.inTree rfl folderId hstored
  · apply h.owner
    have hnone : folders.lookup folderId = none := not_not.mp hstored
    rw [IsFolder, lookup_withFixed, hnone, Option.none_or] at hfolder
    exact mem_keys_of_isFolder hfolder

end Guards

section Operations

variable {repository folderId parentId name itemId : String} {change : Change} {item : ItemDefinition}

/-- Folder paths look at what a look-up finds only. -/
lemma Forest.congr {folders others : FolderMap} (hsame : ∀ k, folders.lookup k = others.lookup k)
    (h : Forest folders) : Forest others := by
  have hparent : parentOf folders = parentOf others := by
    funext k
    rw [parentOf, parentOf, hsame]
  have hfolder : IsFolder folders = IsFolder others := by
    funext k
    rw [IsFolder, IsFolder, hsame]
  rw [Forest, ← hparent, ← hfolder]
  exact h

/-- The token that `secrets.token_hex` draws names no folder of the state. -/
def Fresh (state : State) (token : String) : Prop :=
  ∀ r ∈ repositories, (state.folders r).lookup ("folder-" ++ token) = none

lemma fixedFolders_lookup_token (r : Repository) (token : String) :
    (fixedFolders r).lookup ("folder-" ++ token) = none := by
  have hfirst : ∀ id ∈ (fixedFolders r).map Prod.fst, id.toList.head? ≠ some 'f' := by
    cases r <;> with_unfolding_all decide
  by_contra hfound
  have hmem : "folder-" ++ token ∈ (fixedFolders r).map Prod.fst := mem_keys_of_isFolder hfound
  apply hfirst _ hmem
  simp

theorem createFolder_sound {token : String} (hstate : validateState unicode store = .ok state)
    (h : InPlace unicode kindIds state)
    (hbuiltins : BuiltInsInKinds (withFixed .modules (state.folders .modules))) (hfresh : Fresh state token)
    (hchange : createFolder unicode store repository name parentId token = .ok change) :
    Sound unicode store change := by
  obtain ⟨r, -, hchange⟩ := bind_eq_ok.mp hchange
  obtain ⟨checked, hname, hchange⟩ := bind_eq_ok.mp hchange
  rw [allFolders_eq_ok hstate, Raising.ok_bind] at hchange
  simp only [seq_eq_ok, raiseIf_eq_ok, hstate, Raising.ok_bind] at hchange
  obtain ⟨hexists, hmodules, hbuiltin, htaken, hchange⟩ := hchange
  obtain rfl := pure_eq_ok.mp hchange
  have hplaced := h.placed r
  have hunknown : (withFixed r (state.folders r)).lookup ("folder-" ++ token) = none := by
    rw [lookup_withFixed, hfresh r (mem_repositories r), fixedFolders_lookup_token]
    rfl
  have hid : "folder-" ++ token ≠ "" := by
    intro hempty
    have hlength := congrArg (fun s : String => s.toList.length) hempty
    simp at hlength
  have hnormal : Normal ("folder-" ++ token) ⟨"folder-" ++ token, checked, parentId, false⟩ :=
    ⟨hid, rfl, rfl, validateName_validateName hname⟩
  have hparentFolder : parentId ≠ "" → IsFolder (withFixed r (state.folders r)) parentId :=
    fun hne hnone => hexists ⟨hne, hnone⟩
  have hset : Placed unicode kindIds r
      (Dict.set (state.folders r) ("folder-" ++ token) ⟨"folder-" ++ token, checked, parentId, false⟩)
      (state.assignments r) := by
    apply hplaced.set
    · intro p hp
      obtain ⟨hne, rfl⟩ := Folder.parent_eq_some.mp hp
      exact ⟨hparentFolder hne, hplaced.not_below hunknown (hparentFolder hne)⟩
    · intro k other hk hne hkey
      obtain ⟨hparent, hfold⟩ := Prod.ext_iff.mp hkey
      exact nameTaken_eq_false.mp htaken k other hk (by simp) hparent hfold
    · rintro rfl
      have hne : parentId ≠ "" := fun hempty => hmodules ⟨rfl, hempty⟩
      obtain ⟨root, hroot, hbelow⟩ := hbuiltins.root_of_isFolder hplaced (hparentFolder hne)
      refine ⟨root, hroot, Below.trans (below_of_parent (b := parentId) ?_) ?_⟩
      · rw [Function.update_self]
        exact Folder.parent_eq_some.mpr ⟨hne, rfl⟩
      · rw [below_update_of_not (hplaced.not_below hunknown (hparentFolder hne))]
        exact hbelow
    · intro hflat
      constructor
      · intro hsame
        exact isFolder_builtin hflat (hsame ▸ hunknown)
      · intro p hp hbelow
        obtain ⟨hne, rfl⟩ := Folder.parent_eq_some.mp hp
        exact hbuiltin ⟨hflat, hne, isDescendant_iff.mpr ⟨hne, hbelow⟩⟩
    · rintro rfl itemId g hg hbelow
      have hitem := hplaced.assigned itemId g hg
      have hfolder := hitem.folder.resolve_left (hitem.kind (by decide)).2
      exact absurd hbelow (hplaced.not_below hunknown hfolder)
  have hplanned := h.setFolder hnormal hset
  apply Sound.of_state hplanned
  -- the path of the new folder is found in the folders with it
  have hlookup : ∀ k, (withFixed r (Dict.set (state.folders r) ("folder-" ++ token)
      ⟨"folder-" ++ token, checked, parentId, false⟩)).lookup k =
      (Dict.set (withFixed r (state.folders r)) ("folder-" ++ token)
        ⟨"folder-" ++ token, checked, parentId, false⟩).lookup k := by
    intro k
    rw [lookup_withFixed_set, Dict.lookup_set]
  have hforest := Forest.congr hlookup hset.forest
  have hempty : ¬IsFolder (Dict.set (withFixed r (state.folders r)) ("folder-" ++ token)
      ⟨"folder-" ++ token, checked, parentId, false⟩) "" := by
    rw [IsFolder, Dict.lookup_set, if_neg hid.symm]
    exact not_isFolder_empty (h.normal r)
  obtain ⟨paths, hpaths⟩ := (exists_folderPaths hempty).mpr hforest
  have hfound : IsFolder (Dict.set (withFixed r (state.folders r)) ("folder-" ++ token)
      ⟨"folder-" ++ token, checked, parentId, false⟩) ("folder-" ++ token) := by
    rw [IsFolder, Dict.lookup_set_self]
    simp
  obtain ⟨path, hpath⟩ := exists_pathOf hpaths (Or.inr hfound)
  exact ⟨_, bind_eq_ok.mpr ⟨paths, hpaths, bind_eq_ok.mpr ⟨path, hpath, rfl⟩⟩⟩

/-- The reply of `rename_folder` and `move_folder`: the row of the folder in the saved tree. -/
lemma InPlace.rowOf_setFolder {folder : Folder} (h : InPlace unicode kindIds (state.setFolder r folderId folder)) :
    ∃ reply, Folders.rowOf unicode r folderId (state.setFolder r folderId folder).written = .ok reply := by
  have hrow : ((state.setFolder r folderId folder).written.folders r).lookup folderId = some folder := by
    simp [State.written, State.setFolder]
  exact h.fixed.written.rowOf hrow

/-- A stored folder is not below its own parent. -/
lemma Placed.mayHold_parent {folders : FolderMap} {assignments : List (String × String)} {folder : Folder} {p : String}
    (h : Placed unicode roots r folders assignments) (hstored : folders.lookup folderId = some folder)
    (hp : folder.parent = some p) : MayHold (withFixed r folders) folderId p := by
  have hlookup : (withFixed r folders).lookup folderId = some folder := by
    rw [lookup_withFixed, hstored]
    rfl
  have hup : parentOf (withFixed r folders) folderId = some p := by
    rw [parentOf, hlookup]
    exact hp
  have hrooted := h.forest folderId (isFolder_iff.mpr ⟨folder, hlookup⟩)
  refine ⟨(hrooted.up hup).isKnown, fun hbelow => ?_⟩
  exact hrooted.not_transGen (Relation.TransGen.head' hup hbelow)

theorem renameFolder_sound (hstate : validateState unicode store = .ok state) (h : InPlace unicode kindIds state)
    (hchange : renameFolder unicode store repository folderId name = .ok change) :
    Sound unicode store change := by
  obtain ⟨r, -, hchange⟩ := bind_eq_ok.mp hchange
  obtain ⟨checked, hname, hchange⟩ := bind_eq_ok.mp hchange
  rw [hstate, Raising.ok_bind] at hchange
  cases hstored : (state.folders r).lookup folderId with
  | none =>
    rw [hstored] at hchange
    cases hchange
  | some folder =>
    rw [hstored] at hchange
    simp only [allFolders_eq_ok hstate, Raising.ok_bind, seq_eq_ok, raiseIf_eq_ok] at hchange
    obtain ⟨htaken, hchange⟩ := hchange
    obtain rfl := pure_eq_ok.mp hchange
    have hplaced := h.placed r
    have hold := h.normal r folderId folder hstored
    have hnormal : Normal folderId { folder with name := checked } :=
      ⟨hold.identified, hold.same, hold.mutable, validateName_validateName hname⟩
    -- the parents stay as they are
    have hsame : Function.update (parentOf (withFixed r (state.folders r))) folderId
        ({ folder with name := checked } : Folder).parent = parentOf (withFixed r (state.folders r)) := by
      apply Function.update_eq_self_iff.mpr
      rw [parentOf, lookup_withFixed, hstored]
      rfl
    have hset : Placed unicode kindIds r
        (Dict.set (state.folders r) folderId { folder with name := checked }) (state.assignments r) := by
      apply hplaced.set
      · exact fun p hp => hplaced.mayHold_parent hstored hp
      · intro k other hk hne hkey
        obtain ⟨hparent, hfold⟩ := Prod.ext_iff.mp hkey
        exact nameTaken_eq_false.mp htaken k other hk (by simpa using hne.symm) hparent hfold
      · intro hmodules
        rw [hsame]
        exact hplaced.inTree hmodules folderId (isFolder_iff.mpr ⟨folder, hstored⟩)
      · intro hflat
        have houtside := hplaced.outside hflat folderId (isFolder_iff.mpr ⟨folder, hstored⟩)
        refine ⟨fun hbuiltin => houtside (hbuiltin ▸ Below.refl _), fun p hp hbelow => houtside ?_⟩
        refine Below.trans (below_of_parent ?_) hbelow
        rw [parentOf, lookup_withFixed, hstored]
        exact hp
      · intro _ itemId g _ _ hbelow
        rw [hsame]
        exact hbelow
    have hplanned := h.setFolder hnormal hset
    exact Sound.of_state hplanned hplanned.rowOf_setFolder

theorem moveFolder_sound (hstate : validateState unicode store = .ok state) (h : InPlace unicode kindIds state)
    (hbuiltins : BuiltInsInKinds (withFixed .modules (state.folders .modules)))
    (hstays : requireRepository unicode repository = .ok .modules →
      StaysInKinds (withFixed .modules (state.folders .modules)) folderId)
    (hchange : moveFolder unicode store repository folderId parentId = .ok change) :
    Sound unicode store change := by
  obtain ⟨r, hr, hchange⟩ := bind_eq_ok.mp hchange
  obtain ⟨hfixed, hchange⟩ := seq_eq_ok.mp hchange
  rw [raiseIf_eq_ok] at hfixed
  rw [hstate, Raising.ok_bind] at hchange
  cases hstored : (state.folders r).lookup folderId with
  | none =>
    rw [hstored] at hchange
    cases hchange
  | some folder =>
    rw [hstored] at hchange
    simp only [allFolders_eq_ok hstate, Raising.ok_bind, seq_eq_ok, raiseIf_eq_ok] at hchange
    obtain ⟨hexists, hinside, hmodules, hbuiltin, htaken, hchange⟩ := hchange
    obtain rfl := pure_eq_ok.mp hchange
    have hplaced := h.placed r
    have hold := h.normal r folderId folder hstored
    have hnormal : Normal folderId { folder with parentId := parentId } :=
      ⟨hold.identified, hold.same, hold.mutable, hold.named⟩
    have hhold : ∀ p, ({ folder with parentId := parentId } : Folder).parent = some p →
        p = parentId ∧ p ≠ "" ∧ MayHold (withFixed r (state.folders r)) folderId p := by
      intro p hp
      obtain ⟨hne, hsame⟩ := Folder.parent_eq_some.mp hp
      obtain rfl : parentId = p := hsame
      refine ⟨rfl, hne, fun hnone => hexists ⟨hne, hnone⟩, fun hbelow => hinside (Or.inr ?_)⟩
      exact isDescendant_iff.mpr ⟨hne, hbelow⟩
    -- in `modules` the folder stays in its current root, and so in the kind folders that it was in
    have hcurrent : r = .modules → ∃ current ∈ fixedIds,
        (∀ kind ∈ moduleFixedFolders, Below (parentOf (withFixed r (state.folders r))) folderId (fixedFolderId kind) →
          Below (parentOf (withFixed r (state.folders r))) current (fixedFolderId kind)) ∧
        ∀ b, Below (parentOf (withFixed r (state.folders r))) current b →
          Below (Function.update (parentOf (withFixed r (state.folders r))) folderId
            ({ folder with parentId := parentId } : Folder).parent) folderId b := by
      rintro rfl
      have hguard : ¬(currentRoot (withFixed .modules (state.folders .modules)) folderId = "" ∨ parentId = "" ∨
          isDescendant parentId (currentRoot (withFixed .modules (state.folders .modules)) folderId)
            (withFixed .modules (state.folders .modules)) = false) := fun hbad => hmodules ⟨rfl, hbad⟩
      rw [not_or, not_or, Bool.not_eq_false] at hguard
      obtain ⟨hroot, hne, hdescendant⟩ := hguard
      have hparent : ({ folder with parentId := parentId } : Folder).parent = some parentId :=
        Folder.parent_eq_some.mpr ⟨hne, rfl⟩
      obtain ⟨-, -, -, hnot⟩ := hhold parentId hparent
      have hup : ∀ b, Below (parentOf (withFixed .modules (state.folders .modules))) parentId b →
          Below (Function.update (parentOf (withFixed .modules (state.folders .modules))) folderId
            ({ folder with parentId := parentId } : Folder).parent) folderId b := by
        intro b hb
        refine Below.trans (below_of_parent (b := parentId) ?_) ((below_update_of_not hnot).mpr hb)
        rw [Function.update_self]
        exact hparent
      have hin := (isDescendant_iff.mp hdescendant).2
      refine ⟨_, List.mem_of_find?_eq_some (find?_of_currentRoot rfl hroot), ?_, ?_⟩
      · intro kind hkind hbelow
        have hin := hstays hr kind hkind (isDescendant_iff.mpr ⟨hold.identified, hbelow⟩)
        exact (isDescendant_iff.mp hin).2
      · exact fun b hb => hup b (hin.trans hb)
    have hset : Placed unicode kindIds r
        (Dict.set (state.folders r) folderId { folder with parentId := parentId }) (state.assignments r) := by
      apply hplaced.set
      · exact fun p hp => (hhold p hp).2.2
      · intro k other hk hne hkey
        obtain ⟨hparent, hfold⟩ := Prod.ext_iff.mp hkey
        exact nameTaken_eq_false.mp htaken k other hk (by simpa using hne.symm) hparent hfold
      · intro hmod
        obtain ⟨current, hmem, -, hreach⟩ := hcurrent hmod
        subst hmod
        obtain ⟨root, hroot, hbelow⟩ := hbuiltins.owner hmem
        exact ⟨root, hroot, hreach root hbelow⟩
      · intro hflat
        have houtside := hplaced.outside hflat folderId (isFolder_iff.mpr ⟨folder, hstored⟩)
        refine ⟨fun hsame => houtside (hsame ▸ Below.refl _), fun p hp hbelow => ?_⟩
        obtain ⟨rfl, hne, -⟩ := hhold p hp
        exact hbuiltin ⟨hflat, hne, isDescendant_iff.mpr ⟨hne, hbelow⟩⟩
      · intro hmod itemId g hg _ hbelow
        obtain ⟨current, -, hkinds, hreach⟩ := hcurrent hmod
        subst hmod
        have hkind := ((hplaced.assigned itemId g hg).kind (by decide)).1
        exact hreach _ (hkinds _ hkind hbelow)
    have hplanned := h.setFolder hnormal hset
    exact Sound.of_state hplanned hplanned.rowOf_setFolder

theorem deleteFolder_sound (hstate : validateState unicode store = .ok state) (h : InPlace unicode kindIds state)
    (hchange : deleteFolder unicode store repository folderId = .ok change) :
    Sound unicode store change := by
  obtain ⟨r, -, hchange⟩ := bind_eq_ok.mp hchange
  obtain ⟨hfixed, hchange⟩ := seq_eq_ok.mp hchange
  rw [raiseIf_eq_ok] at hfixed
  rw [hstate, Raising.ok_bind] at hchange
  cases hstored : (state.folders r).lookup folderId with
  | none =>
    rw [hstored] at hchange
    cases hchange
  | some folder =>
    rw [hstored] at hchange
    simp only [allFolders_eq_ok hstate, Raising.ok_bind, seq_eq_ok, raiseIf_eq_ok] at hchange
    obtain ⟨hchildren, hitems, hchange⟩ := hchange
    obtain rfl := pure_eq_ok.mp hchange
    have hnone : (fixedFolders r).lookup folderId = none := by
      by_contra hfound
      exact hfixed (mem_keys_of_isFolder hfound)
    have herase : Placed unicode kindIds r (Dict.erase (state.folders r) folderId) (state.assignments r) := by
      apply (h.placed r).erase hnone
      · intro k hk
        obtain ⟨child, hchild, hparent⟩ := Option.bind_eq_some_iff.mp hk
        exact hchildren ⟨(k, child), Dict.mem_items.mpr hchild, (Folder.parent_eq_some.mp hparent).2⟩
      · intro itemId hitem
        exact hitems (List.mem_map.mpr ⟨(itemId, folderId), Dict.mem_items.mpr hitem, rfl⟩)
    exact Sound.of_state (h.dropFolder herase) ⟨_, rfl⟩

/-- The item id begins with the kind of the item, where kinds decide placement. -/
def KindPrefixed (unicode : Unicode) (repository itemId : String) (item : ItemDefinition) : Prop :=
  ∀ r ∈ moduleRepositories, requireRepository unicode repository = .ok r → kindOf (strip itemId) = item.kind

/-- A flat module repository is given a folder for items of its own kind only. -/
def OfItsKind (unicode : Unicode) (repository folderId : String) (item : ItemDefinition) : Prop :=
  ∀ r ∈ flatModuleRepositories, requireRepository unicode repository = .ok r → folderId ≠ "" →
    item.kind ∈ moduleKinds r

/-- What the guards of `assign_item` say about an item that is not left in its default folder. -/
lemma assigned_of_checkItem {folders : FolderMap} (hr : r ∈ moduleRepositories)
    (hcheck : checkItem r folders folderId item = .ok ()) (hdefault : folderId ≠ defaultItemFolder r item)
    (hkind : kindOf itemId = item.kind)
    (hown : r ∈ flatModuleRepositories → folderId ≠ "" → item.kind ∈ moduleKinds r) :
    (kindOf itemId ∈ moduleKinds r ∧ folderId ≠ "") ∧
      (r = .modules → Below (parentOf folders) folderId (fixedFolderId (kindOf itemId))) ∧
      (r ∈ flatModuleRepositories → ¬Below (parentOf folders) folderId (repositoryBuiltinFolderId r)) := by
  rw [checkItem, if_pos hr, checkModuleItem] at hcheck
  simp only [seq_eq_ok, raiseIf_eq_ok] at hcheck
  obtain ⟨hbuiltin, hmodules, hflat⟩ := hcheck
  have huser : item.builtin = false := by
    by_contra hitem
    exact hbuiltin ⟨by simpa using hitem, Or.inr hdefault⟩
  rw [hkind]
  rcases mem_moduleRepositories.mp hr with rfl | hr
  · have hguard : ¬(defaultItemFolder .modules item = "" ∨ folderId = "" ∨
        isDescendant folderId (defaultItemFolder .modules item) folders = false) := fun hbad => hmodules ⟨rfl, hbad⟩
    rw [not_or, not_or, Bool.not_eq_false] at hguard
    obtain ⟨hparent, hne, hdescendant⟩ := hguard
    have hmem : item.kind ∈ moduleKinds .modules := by
      by_contra hnot
      exact hparent (by rw [defaultItemFolder, if_pos hnot])
    have hfolder : defaultItemFolder .modules item = fixedFolderId item.kind := by
      simp [defaultItemFolder, hmem, huser]
    rw [hfolder] at hdescendant
    exact ⟨⟨hmem, hne⟩, fun _ => (isDescendant_iff.mp hdescendant).2, fun h => absurd h (by decide)⟩
  · have hnot : r ≠ .modules := by
      rintro rfl
      revert hr
      decide
    have hempty : defaultItemFolder r item = "" := by
      simp [defaultItemFolder, hnot, huser]
    have hne : folderId ≠ "" := hempty ▸ hdefault
    refine ⟨⟨hown hr hne, hne⟩, fun h => absurd h hnot, fun _ hbelow => hflat ⟨hr, huser, hne, ?_⟩⟩
    exact isDescendant_iff.mpr ⟨hne, hbelow⟩

theorem assignItem_sound (hstate : validateState unicode store = .ok state) (h : InPlace unicode kindIds state)
    (hkind : KindPrefixed unicode repository itemId item) (hown : OfItsKind unicode repository folderId item)
    (hchange : assignItem unicode store repository itemId folderId item = .ok change) :
    Sound unicode store change := by
  obtain ⟨r, hr, hchange⟩ := bind_eq_ok.mp hchange
  simp only [allFolders_eq_ok hstate, Raising.ok_bind, seq_eq_ok, raiseIf_eq_ok, hstate] at hchange
  obtain ⟨hnamed, hexists, hcheck, hchange⟩ := hchange
  obtain rfl := pure_eq_ok.mp hchange
  have hfolder : folderId = "" ∨ IsFolder (withFixed r (state.folders r)) folderId := by
    by_cases hempty : folderId = ""
    · exact Or.inl hempty
    · exact Or.inr fun hnone => hexists ⟨hempty, hnone⟩
  have hplaced := h.placed r
  have hreply : ∃ answer, (do
      let paths ← folderPaths (withFixed r (state.folders r))
      let path ← pathOf paths folderId
      pure (Reply.placed r (strip itemId) folderId path) : Except PyError Reply) = .ok answer := by
    obtain ⟨paths, hpaths⟩ := (exists_folderPaths (not_isFolder_empty (h.normal r))).mpr hplaced.forest
    obtain ⟨path, hpath⟩ := exists_pathOf hpaths hfolder
    exact ⟨_, bind_eq_ok.mpr ⟨paths, hpaths, bind_eq_ok.mpr ⟨path, hpath, rfl⟩⟩⟩
  apply Sound.of_state _ hreply
  split_ifs with hdefault
  · exact h.withAssignments (hplaced.dropAssignment _)
  · apply h.withAssignments (hplaced.setAssignment _)
    have hmodule : r ∈ moduleRepositories → _ := fun hmem => by
      have hdata : r ≠ .data ∧ r ≠ .backtest := by
        constructor <;> rintro rfl <;> revert hmem <;> decide
      exact assigned_of_checkItem hmem hcheck (fun hsame => hdefault ⟨hdata.1, hdata.2, hsame⟩) (hkind r hmem hr)
        fun hflat hne => hown r hflat hr hne
    refine ⟨hnamed, hfolder, fun hmem => (hmodule hmem).1, ?_, ?_⟩
    · rintro rfl
      exact (hmodule (by decide)).2.1 rfl
    · intro hflat
      exact (hmodule (mem_moduleRepositories.mpr (Or.inr hflat))).2.2 hflat

theorem removeItemAssignment_sound (hstate : validateState unicode store = .ok state)
    (h : InPlace unicode kindIds state)
    (hchange : removeItemAssignment unicode store repository itemId = .ok change) : Sound unicode store change := by
  obtain ⟨r, -, hchange⟩ := bind_eq_ok.mp hchange
  rw [hstate, Raising.ok_bind] at hchange
  obtain rfl := pure_eq_ok.mp hchange
  have hdropped : InPlace unicode kindIds (state.dropAssignment r itemId) :=
    h.withAssignments ((h.placed r).dropAssignment itemId)
  constructor
  · intro planned hplanned
    dsimp only at hplanned
    split_ifs at hplanned
    obtain rfl := Option.some.inj hplanned
    exact hdropped
  · exact fun _ _ => ⟨.done, rfl⟩
  · exact fun _ => ⟨.done, rfl⟩

end Operations

section Runs

variable {call : Call} {folderId : String}

/-- A loaded folder has the parent of the stored one. -/
lemma parentOf_loaded (hstate : validateState unicode store = .ok state) (r : Repository) :
    parentOf (withFixed r (state.folders r)) = parentOf (withFixed r (store.folders r)) := by
  obtain ⟨-, -, hall⟩ := validateState_eq_ok.mp hstate
  obtain ⟨hchecked, -⟩ := validateRepository_eq_ok.mp (hall r).1
  have hentries : List.Forall₂ (fun stored checked : String × Folder => checked.1 = stored.1 ∧
      checked.2.parentId = stored.2.parentId) (Dict.items (store.folders r)) (state.folders r) := by
    apply (mapM_eq_ok.mp hchecked).imp
    rintro ⟨storedId, stored⟩ entry hentry
    obtain ⟨-, -, -, name, -, rfl⟩ := checkFolder_eq_ok.mp hentry
    exact ⟨rfl, rfl⟩
  funext k
  have hrel := Dict.rel_lookup (r := fun stored checked : Folder => checked.parentId = stored.parentId) hentries k
  rw [Dict.lookup_items] at hrel
  rw [parentOf, parentOf, lookup_withFixed, lookup_withFixed]
  generalize (store.folders r).lookup k = stored at hrel
  generalize (state.folders r).lookup k = loaded at hrel
  cases hrel with
  | none => rfl
  | some hparent => simp [Folder.parent, hparent]

lemma isDescendant_congr {folders others : FolderMap} (h : parentOf folders = parentOf others) (a b : String) :
    isDescendant a b folders = isDescendant a b others := by
  rw [Bool.eq_iff_iff, isDescendant_iff, isDescendant_iff, h]

lemma BuiltInsInKinds.congr {folders others : FolderMap} (hparent : parentOf folders = parentOf others)
    (h : BuiltInsInKinds folders) : BuiltInsInKinds others := by
  intro kind hkind
  obtain ⟨owner, howner, hin⟩ := h kind hkind
  exact ⟨owner, howner, isDescendant_congr hparent _ _ ▸ hin⟩

lemma StaysInKinds.congr {folders others : FolderMap} (hparent : parentOf folders = parentOf others)
    (h : StaysInKinds folders folderId) : StaysInKinds others folderId := by
  have hroot : currentRoot others folderId = currentRoot folders folderId := by
    simp only [currentRoot, isDescendant_congr hparent]
  intro kind hkind hin
  rw [← isDescendant_congr hparent] at hin
  rw [hroot, ← isDescendant_congr hparent]
  exact h kind hkind hin

lemma lookup_loaded_eq_none (hstate : validateState unicode store = .ok state) {k : String}
    (h : (store.folders r).lookup k = none) : (state.folders r).lookup k = none := by
  obtain ⟨-, -, hall⟩ := validateState_eq_ok.mp hstate
  obtain ⟨hchecked, -⟩ := validateRepository_eq_ok.mp (hall r).1
  obtain ⟨-, hkeys⟩ := normal_of_checked hchecked
  by_contra hfound
  have hmem := mem_keys_of_isFolder hfound
  rw [hkeys, Dict.mem_keys, h] at hmem
  cases hmem

lemma Fresh.loaded {token : String} (hstate : validateState unicode store = .ok state) (h : Fresh store token) :
    Fresh state token :=
  fun r hr => lookup_loaded_eq_none hstate (h r hr)

/-- What the caller and the random tokens promise: tokens are new, and the id of an item begins with its kind. -/
def Proper (unicode : Unicode) (store : State) : Call → Prop
  | .createFolder _ _ _ token => Fresh store token
  | .assignItem repository itemId _ item => KindPrefixed unicode repository itemId item
  | _ => True

/-- A folder of `modules` moves within a root that lies in its kind folders, and an item of a flat module
repository is of its kind. -/
def Fitting (unicode : Unicode) (store : State) : Call → Prop
  | .moveFolder repository folderId _ => requireRepository unicode repository = .ok .modules →
      StaysInKinds (withFixed .modules (store.folders .modules)) folderId
  | .assignItem repository _ folderId item => OfItsKind unicode repository folderId item
  | _ => True

/-- What a call asks of the state before it. -/
def Meets (unicode : Unicode) (store : State) (call : Call) : Prop :=
  BuiltInsInKinds (withFixed .modules (store.folders .modules)) ∧ Fitting unicode store call

/-- A call fails and changes nothing, or stores a state in place; `save_state` accepts what the guards let
through. -/
structure Kept (unicode : Unicode) (store : State) (call : Call) : Prop where
  fails : ∀ e, (execute unicode store call).2 = .error e → (execute unicode store call).1 = store
  accepted : ∀ change planned, Folders.change unicode store call = .ok change → change.state = some planned →
    ∃ saved, validateState unicode planned = .ok saved
  stores : ∀ change planned, Folders.change unicode store call = .ok change → change.state = some planned →
    InPlace unicode kindIds (execute unicode store call).1
  unsaved : ∀ change, Folders.change unicode store call = .ok change → change.state = none →
    (execute unicode store call).1 = store

theorem change_sound (hstate : validateState unicode store = .ok state) (hproper : Proper unicode store call)
    (hmeets : Meets unicode store call) {change : Change} (hchange : Folders.change unicode store call = .ok change) :
    Sound unicode store change := by
  obtain ⟨hbuiltins, hcall⟩ := hmeets
  have hparent := (parentOf_loaded hstate .modules).symm
  replace hbuiltins := hbuiltins.congr hparent
  have h := (InPlace.of_validate hstate).kinds hbuiltins
  cases call with
  | createFolder repository name parentId token =>
    exact createFolder_sound hstate h hbuiltins (hproper.loaded hstate) hchange
  | renameFolder repository folderId name => exact renameFolder_sound hstate h hchange
  | moveFolder repository folderId parentId =>
    exact moveFolder_sound hstate h hbuiltins (fun hr => (hcall hr).congr hparent) hchange
  | deleteFolder repository folderId => exact deleteFolder_sound hstate h hchange
  | assignItem repository itemId folderId item => exact assignItem_sound hstate h hproper hcall hchange
  | removeItemAssignment repository itemId => exact removeItemAssignment_sound hstate h hchange

/-- What a call with a sound change does. -/
lemma execute_of_sound {change : Change} (hchange : Folders.change unicode store call = .ok change)
    (h : Sound unicode store change) :
    ∃ reply, execute unicode store call = ((change.state.map State.written).getD store, .ok reply) := by
  rw [execute, hchange]
  dsimp only
  rw [commit]
  cases hsaved : change.state with
  | none =>
    obtain ⟨reply, hreply⟩ := h.unsaved hsaved
    exact ⟨reply, by simp [hreply]⟩
  | some planned =>
    obtain ⟨reply, hreply⟩ := h.answered planned hsaved
    exact ⟨reply, by simp [(h.planned planned hsaved).fixed.validate, hreply]⟩

/-- The step lemma: the call keeps its promise, and what it leaves can be loaded. -/
theorem kept_of_meets (hvalid : ∃ state, validateState unicode store = .ok state)
    (hproper : Proper unicode store call) (hmeets : Meets unicode store call) :
    Kept unicode store call ∧ ∃ state, validateState unicode (step unicode store call) = .ok state := by
  obtain ⟨state, hstate⟩ := hvalid
  cases hchange : change unicode store call with
  | error e =>
    have hexecute : execute unicode store call = (store, .error e) := by rw [execute, hchange]
    have hnone : ∀ other, Folders.change unicode store call ≠ .ok other := by
      intro other hother
      rw [hchange] at hother
      cases hother
    refine ⟨⟨fun _ _ => by rw [hexecute], ?_, ?_, ?_⟩, state, by rw [step, hexecute]; exact hstate⟩
    · exact fun other _ hother => absurd hother (hnone other)
    · exact fun other _ hother => absurd hother (hnone other)
    · exact fun other hother => absurd hother (hnone other)
  | ok change =>
    have hsound := change_sound hstate hproper hmeets hchange
    obtain ⟨reply, hexecute⟩ := execute_of_sound hchange hsound
    have hsame : ∀ {other}, Folders.change unicode store call = .ok other → change = other :=
      fun hother => Except.ok.inj (hchange.symm.trans hother)
    refine ⟨⟨?_, ?_, ?_, ?_⟩, ?_⟩
    · intro e he
      rw [hexecute] at he
      cases he
    · intro other planned hother hplanned
      obtain rfl := hsame hother
      exact ⟨_, (hsound.planned planned hplanned).fixed.validate⟩
    · intro other planned hother hplanned
      obtain rfl := hsame hother
      rw [hexecute, hplanned]
      exact (hsound.planned planned hplanned).written
    · intro other hother hunsaved
      obtain rfl := hsame hother
      rw [hexecute, hunsaved]
      rfl
    · rw [step, hexecute]
      cases hsaved : change.state with
      | none => exact ⟨state, hstate⟩
      | some planned => exact ⟨_, (hsound.planned planned hsaved).written.fixed.validate⟩

/-- Every call of a run that meets the condition at each of its steps keeps the forest. -/
theorem run_kept (hvalid : ∃ state, validateState unicode store = .ok state) {calls : List Call}
    (h : Transitions.Along (step unicode) (fun s call => Proper unicode s call ∧ Meets unicode s call) store calls) :
    ∀ reached call rest, calls = reached ++ call :: rest →
      Kept unicode (Transitions.run (step unicode) store reached) call := by
  intro reached call rest hcalls
  subst hcalls
  have hloads : ∃ state, validateState unicode (Transitions.run (step unicode) store reached) = .ok state :=
    Transitions.run_invariant (P := fun s => ∃ state, validateState unicode s = .ok state)
      (fun s c hs hc => (kept_of_meets hs hc.1 hc.2).2) hvalid h.prefix
  obtain ⟨hproper, hmeets⟩ := Transitions.along_iff_steps.mp h reached call rest rfl
  exact (kept_of_meets hloads hproper hmeets).1

/-- A folder for signals is created, named, filled, moved, emptied and deleted again. -/
def signalCalls : List Call :=
  [.createFolder "modules" "Momentum" "modules-fixed-signal" "a0",
    .createFolder "modules" "Fast" "folder-a0" "a1",
    .assignItem "modules" "Signal/crossover" "folder-a1" ⟨"Signal", false⟩,
    .renameFolder "modules" "folder-a1" "Slow",
    .moveFolder "modules" "folder-a1" "modules-fixed-signal",
    .moveFolder "modules" "folder-a1" "modules-fixed-universe",
    .removeItemAssignment "modules" "Signal/crossover",
    .deleteFolder "modules" "folder-a1"]

instance (state : State) (token : String) : Decidable (Fresh state token) :=
  inferInstanceAs (Decidable (∀ r ∈ repositories, _))

instance (unicode : Unicode) (repository itemId : String) (item : ItemDefinition) :
    Decidable (KindPrefixed unicode repository itemId item) :=
  inferInstanceAs (Decidable (∀ r ∈ moduleRepositories, _ → _))

instance (unicode : Unicode) (repository folderId : String) (item : ItemDefinition) :
    Decidable (OfItsKind unicode repository folderId item) :=
  inferInstanceAs (Decidable (∀ r ∈ flatModuleRepositories, _ → _ → _))

instance Proper.decidable (unicode : Unicode) (store : State) :
    (call : Call) → Decidable (Proper unicode store call)
  | .createFolder _ _ _ token => inferInstanceAs (Decidable (Fresh store token))
  | .assignItem repository itemId _ item => inferInstanceAs (Decidable (KindPrefixed unicode repository itemId item))
  | .renameFolder .. | .moveFolder .. | .deleteFolder .. | .removeItemAssignment .. => inferInstanceAs (Decidable True)

instance Fitting.decidable (unicode : Unicode) (store : State) :
    (call : Call) → Decidable (Fitting unicode store call)
  | .moveFolder repository folderId _ =>
    inferInstanceAs (Decidable (requireRepository unicode repository = .ok .modules →
      StaysInKinds (withFixed .modules (store.folders .modules)) folderId))
  | .assignItem repository _ folderId item => inferInstanceAs (Decidable (OfItsKind unicode repository folderId item))
  | .createFolder .. | .renameFolder .. | .deleteFolder .. | .removeItemAssignment .. =>
    inferInstanceAs (Decidable True)

instance (unicode : Unicode) (store : State) (call : Call) : Decidable (Meets unicode store call) :=
  inferInstanceAs (Decidable (_ ∧ _))

theorem run_kept_signals : (∃ state, validateState asciiCase emptyState = .ok state) ∧
    ∀ reached call rest, signalCalls = reached ++ call :: rest →
      Kept asciiCase (Transitions.run (step asciiCase) emptyState reached) call := by
  have hempty : (validateState asciiCase emptyState).toBool = true := by with_unfolding_all decide
  have hvalid := Raising.exists_ok_of_toBool hempty
  exact ⟨hvalid, run_kept hvalid (by with_unfolding_all decide)⟩

/-- A stored folder has taken the id of the Signal folder, below the Universe folder. -/
def shadowedState : State where
  schemaVersion := schemaVersion
  folders r :=
    if r = .modules then
      [("modules-fixed-signal", ⟨"modules-fixed-signal", "Alpha", "modules-fixed-universe", false⟩),
        ("folder-1", ⟨"folder-1", "Momentum", "modules-fixed-signal", false⟩)]
    else []
  assignments r := if r = .modules then [("Signal/crossover", "folder-1")] else []

/-- The guards let the folder of a signal out of the Signal folder, and `save_state` rejects the state. -/
theorem shadowed_not_kept : (∃ state, validateState asciiCase shadowedState = .ok state) ∧
    Proper asciiCase shadowedState (.moveFolder "modules" "folder-1" "modules-fixed-universe") ∧
    ¬Kept asciiCase shadowedState (.moveFolder "modules" "folder-1" "modules-fixed-universe") := by
  have hvalid : (validateState asciiCase shadowedState).toBool = true := by with_unfolding_all decide
  refine ⟨Raising.exists_ok_of_toBool hvalid, trivial, fun h => ?_⟩
  have hplanned : ((change asciiCase shadowedState
      (.moveFolder "modules" "folder-1" "modules-fixed-universe")).toOption.bind Change.state).any
        (fun planned => !(validateState asciiCase planned).toBool) = true := by with_unfolding_all decide
  cases hchange : change asciiCase shadowedState (.moveFolder "modules" "folder-1" "modules-fixed-universe") with
  | error e =>
    rw [hchange] at hplanned
    cases hplanned
  | ok change =>
    rw [hchange] at hplanned
    obtain ⟨planned, hstate, hrejected⟩ := (Option.any_eq_true _ _).mp hplanned
    obtain ⟨saved, hsaved⟩ := h.accepted change planned hchange hstate
    rw [hsaved] at hrejected
    cases hrejected

end Runs

section Unshadowed

variable {call : Call} {change : Change} {folders : FolderMap} {folderId k : String}

/-- No stored folder of `modules` has the id of a fixed folder. -/
def Unshadowed (folders : FolderMap) : Prop := ∀ id ∈ fixedIds, folders.lookup id = none

lemma Unshadowed.parentOf (h : Unshadowed folders) {id : String} (hid : id ∈ fixedIds) :
    parentOf (withFixed .modules folders) id = parentOf (fixedFolders .modules) id := by
  rw [Folders.parentOf, Folders.parentOf, lookup_withFixed, h id hid, Option.none_or]

/-- A kind folder has no parent. -/
lemma Unshadowed.below_kind (h : Unshadowed folders) {kind b : String} (hkind : kind ∈ moduleFixedFolders) :
    Below (Folders.parentOf (withFixed .modules folders)) (fixedFolderId kind) b ↔ fixedFolderId kind = b := by
  have hroots : ∀ kind ∈ moduleFixedFolders,
      Folders.parentOf (fixedFolders .modules) (fixedFolderId kind) = none := by with_unfolding_all decide
  apply ParentForest.below_of_none
  rw [h.parentOf (kindId_mem_fixedIds hkind)]
  exact hroots kind hkind

lemma Unshadowed.builtin_below (h : Unshadowed folders) {kind : String} (hkind : kind ∈ moduleFixedFolders) :
    Below (Folders.parentOf (withFixed .modules folders)) (builtinFolderId kind) (fixedFolderId kind) := by
  have hparents : ∀ kind ∈ moduleFixedFolders,
      Folders.parentOf (fixedFolders .modules) (builtinFolderId kind) = some (fixedFolderId kind) := by
    with_unfolding_all decide
  apply below_of_parent
  rw [h.parentOf (mem_fixedIds.mpr ⟨kind, hkind, Or.inr rfl⟩)]
  exact hparents kind hkind

lemma Unshadowed.builtInsInKinds (h : Unshadowed folders) : BuiltInsInKinds (withFixed .modules folders) := by
  intro kind hkind
  have hmem := mem_fixedIds.mpr ⟨kind, hkind, Or.inr rfl⟩
  exact ⟨kind, hkind, isDescendant_iff.mpr ⟨ne_empty_of_mem_fixedIds hmem, h.builtin_below hkind⟩⟩

/-- The kind folders are apart, so a folder lies in one of them and its current root does too. -/
lemma Unshadowed.staysInKinds (h : Unshadowed folders) (folderId : String) :
    StaysInKinds (withFixed .modules folders) folderId := by
  intro kind hkind hin
  obtain ⟨hne, hbelow⟩ := isDescendant_iff.mp hin
  have hfound : currentRoot (withFixed .modules folders) folderId ≠ "" := by
    have hsome : (fixedIds.find? fun root => isDescendant folderId root (withFixed .modules folders)).isSome :=
      List.find?_isSome.mpr ⟨fixedFolderId kind, kindId_mem_fixedIds hkind, hin⟩
    obtain ⟨root, hroot⟩ := Option.isSome_iff_exists.mp hsome
    have hcurrent : currentRoot (withFixed .modules folders) folderId = root := by
      rw [fixedIds] at hroot
      rw [currentRoot, hroot]
      rfl
    rw [hcurrent]
    exact ne_empty_of_mem_fixedIds (List.mem_of_find?_eq_some hroot)
  have hfind := find?_of_currentRoot rfl hfound
  have hdescendant := List.find?_some hfind
  obtain ⟨-, hcurrent⟩ := isDescendant_iff.mp hdescendant
  refine isDescendant_iff.mpr ⟨hfound, ?_⟩
  -- the kind folder of the current root is the kind folder of the folder
  obtain ⟨owner, howner, hroot⟩ := mem_fixedIds.mp (List.mem_of_find?_eq_some hfind)
  have hown : Below (Folders.parentOf (withFixed .modules folders))
      (currentRoot (withFixed .modules folders) folderId) (fixedFolderId owner) := by
    rcases hroot with hroot | hroot
    · rw [hroot]
      exact Below.refl _
    · rw [hroot]
      exact h.builtin_below howner
  rcases (hcurrent.trans hown).total hbelow with habove | habove
  · rw [h.below_kind howner] at habove
    exact habove ▸ hown
  · rw [h.below_kind hkind] at habove
    exact habove.symm ▸ hown

lemma Unshadowed.set (h : Unshadowed folders) {folder : Folder} (hid : folderId ∉ fixedIds) :
    Unshadowed (Dict.set folders folderId folder) := by
  intro id hmem
  have hne : id ≠ folderId := by
    rintro rfl
    exact hid hmem
  rw [Dict.lookup_set, if_neg hne]
  exact h id hmem

lemma unshadowed_setFolder {q : Repository} {folder : Folder} (h : Unshadowed (state.folders .modules))
    (hid : q = .modules → folderId ∉ fixedIds) :
    Unshadowed ((state.setFolder q folderId folder).folders .modules) := by
  by_cases hq : q = .modules
  · subst hq
    simp only [State.setFolder, Function.update_self]
    exact h.set (hid rfl)
  · simp only [State.setFolder, Function.update_of_ne (Ne.symm hq)]
    exact h

lemma not_mem_fixedIds_of_stored (h : Unshadowed (state.folders .modules)) {q : Repository} {folder : Folder}
    (hstored : (state.folders q).lookup folderId = some folder) (hq : q = .modules) : folderId ∉ fixedIds := by
  subst hq
  intro hmem
  rw [h folderId hmem] at hstored
  cases hstored

/-- No change puts a folder under a fixed id. -/
lemma unshadowed_of_change (hstate : validateState unicode store = .ok state)
    (h : Unshadowed (state.folders .modules)) (hchange : Folders.change unicode store call = .ok change)
    {planned : State} (hplanned : change.state = some planned) : Unshadowed (planned.folders .modules) := by
  cases call with
  | createFolder repository name parentId token =>
    obtain ⟨r, -, hchange⟩ := bind_eq_ok.mp hchange
    obtain ⟨checked, -, hchange⟩ := bind_eq_ok.mp hchange
    simp only [allFolders_eq_ok hstate, Raising.ok_bind, seq_eq_ok, raiseIf_eq_ok, hstate] at hchange
    obtain ⟨-, -, -, -, hchange⟩ := hchange
    obtain rfl := pure_eq_ok.mp hchange
    obtain rfl := Option.some.inj hplanned
    apply unshadowed_setFolder h
    rintro - hmem
    have hnone := fixedFolders_lookup_token .modules token
    exact isFolder_iff_mem_keys.mpr hmem hnone
  | renameFolder repository folderId name =>
    obtain ⟨r, -, hchange⟩ := bind_eq_ok.mp hchange
    obtain ⟨checked, -, hchange⟩ := bind_eq_ok.mp hchange
    rw [hstate, Raising.ok_bind] at hchange
    cases hstored : (state.folders r).lookup folderId with
    | none =>
      rw [hstored] at hchange
      cases hchange
    | some folder =>
      rw [hstored] at hchange
      simp only [allFolders_eq_ok hstate, Raising.ok_bind, seq_eq_ok, raiseIf_eq_ok] at hchange
      obtain rfl := pure_eq_ok.mp hchange.2
      obtain rfl := Option.some.inj hplanned
      exact unshadowed_setFolder h (not_mem_fixedIds_of_stored h hstored)
  | moveFolder repository folderId parentId =>
    obtain ⟨r, -, hchange⟩ := bind_eq_ok.mp hchange
    rw [seq_eq_ok, hstate, Raising.ok_bind] at hchange
    cases hstored : (state.folders r).lookup folderId with
    | none =>
      rw [hstored] at hchange
      cases hchange.2
    | some folder =>
      rw [hstored] at hchange
      simp only [allFolders_eq_ok hstate, Raising.ok_bind, seq_eq_ok, raiseIf_eq_ok] at hchange
      obtain ⟨-, -, -, -, -, -, hchange⟩ := hchange
      obtain rfl := pure_eq_ok.mp hchange
      obtain rfl := Option.some.inj hplanned
      exact unshadowed_setFolder h (not_mem_fixedIds_of_stored h hstored)
  | deleteFolder repository folderId =>
    obtain ⟨r, -, hchange⟩ := bind_eq_ok.mp hchange
    rw [seq_eq_ok, hstate, Raising.ok_bind] at hchange
    cases hstored : (state.folders r).lookup folderId with
    | none =>
      rw [hstored] at hchange
      cases hchange.2
    | some folder =>
      rw [hstored] at hchange
      simp only [allFolders_eq_ok hstate, Raising.ok_bind, seq_eq_ok, raiseIf_eq_ok] at hchange
      obtain ⟨-, -, -, hchange⟩ := hchange
      obtain rfl := pure_eq_ok.mp hchange
      obtain rfl := Option.some.inj hplanned
      intro id hmem
      by_cases hr : r = .modules
      · subst hr
        simp only [State.dropFolder, Function.update_self]
        rw [Dict.lookup_erase, h id hmem, ite_self]
      · simp only [State.dropFolder, Function.update_of_ne (Ne.symm hr)]
        exact h id hmem
  | assignItem repository itemId folderId item =>
    obtain ⟨r, -, hchange⟩ := bind_eq_ok.mp hchange
    simp only [allFolders_eq_ok hstate, Raising.ok_bind, seq_eq_ok, raiseIf_eq_ok, hstate] at hchange
    obtain ⟨-, -, -, hchange⟩ := hchange
    obtain rfl := pure_eq_ok.mp hchange
    obtain rfl := Option.some.inj hplanned
    split_ifs
    · exact h
    · exact h
  | removeItemAssignment repository itemId =>
    obtain ⟨r, -, hchange⟩ := bind_eq_ok.mp hchange
    rw [hstate, Raising.ok_bind] at hchange
    obtain rfl := pure_eq_ok.mp hchange
    dsimp only at hplanned
    split_ifs at hplanned
    obtain rfl := Option.some.inj hplanned
    exact h

lemma Unshadowed.loaded (hstate : validateState unicode store = .ok state) (h : Unshadowed (store.folders .modules)) :
    Unshadowed (state.folders .modules) :=
  fun id hid => lookup_loaded_eq_none hstate (h id hid)

/-- No call puts a folder under a fixed id. -/
lemma unshadowed_step (hvalid : ∃ state, validateState unicode store = .ok state)
    (h : Unshadowed (store.folders .modules)) (call : Call) :
    Unshadowed ((step unicode store call).folders .modules) := by
  obtain ⟨state, hstate⟩ := hvalid
  rw [step, execute]
  cases hchange : change unicode store call with
  | error e => exact h
  | ok change =>
    dsimp only
    rw [commit]
    cases hplanned : change.state with
    | none => exact h
    | some planned =>
      dsimp only
      cases hsaved : validateState unicode planned with
      | error e => exact h
      | ok saved => exact (unshadowed_of_change hstate (h.loaded hstate) hchange hplanned).loaded hsaved

/-- An item of a flat module repository is of its kind. -/
def OwnKind (unicode : Unicode) : Call → Prop
  | .assignItem repository _ folderId item => OfItsKind unicode repository folderId item
  | _ => True

lemma Unshadowed.meets (h : Unshadowed (store.folders .modules)) (hown : OwnKind unicode call) :
    Meets unicode store call := by
  refine ⟨h.builtInsInKinds, ?_⟩
  cases call with
  | moveFolder repository folderId parentId => exact fun _ => h.staysInKinds folderId
  | assignItem repository itemId folderId item => exact hown
  | createFolder => trivial
  | renameFolder => trivial
  | deleteFolder => trivial
  | removeItemAssignment => trivial

/-- From a state in which no stored folder has a fixed id, every run keeps the forest. -/
theorem run_kept_of_unshadowed (hvalid : ∃ state, validateState unicode store = .ok state)
    (h : Unshadowed (store.folders .modules)) {calls : List Call}
    (hcalls : Transitions.Along (step unicode)
      (fun s call => Proper unicode s call ∧ OwnKind unicode call) store calls) :
    ∀ reached call rest, calls = reached ++ call :: rest →
      Kept unicode (Transitions.run (step unicode) store reached) call := by
  intro reached call rest hsplit
  subst hsplit
  have hreached : (∃ state, validateState unicode (Transitions.run (step unicode) store reached) = .ok state) ∧
      Unshadowed ((Transitions.run (step unicode) store reached).folders .modules) := by
    apply Transitions.run_invariant (P := fun s => (∃ state, validateState unicode s = .ok state) ∧
      Unshadowed (s.folders .modules)) _ ⟨hvalid, h⟩ hcalls.prefix
    rintro s c ⟨hs, hunshadowed⟩ ⟨hproper, hown⟩
    exact ⟨(kept_of_meets hs hproper (hunshadowed.meets hown)).2, unshadowed_step hs hunshadowed c⟩
  obtain ⟨hproper, hown⟩ := Transitions.along_iff_steps.mp hcalls reached call rest rfl
  exact (kept_of_meets hreached.1 hproper (hreached.2.meets hown)).1

end Unshadowed

end TradeFramework.Folders
