import TradeFramework.Folders.State
import TradeFramework.Library.Related
import Mathlib.Data.List.DropRight

/-!
# Placement in a folder forest

What it means for the folders and assignments of a repository to be in place, and what the checks
of `validateState` say in those terms.
-/

namespace TradeFramework.Folders

open ParentForest (Below Rooted climb_iff length_unpassed_cons_lt)
open Raising (raiseIf raiseIf_eq_ok seq_eq_ok bind_eq_ok pure_eq_ok forM_eq_ok mapM_eq_ok exists_mapM_iff)

section Hierarchy

variable {folders : FolderMap} {folderId ancestorId : String}

def IsFolder (folders : FolderMap) (folderId : String) : Prop := folders.lookup folderId ≠ none

/-- Every folder is reached from the root, through its parents. -/
def Forest (folders : FolderMap) : Prop :=
  ∀ folderId, IsFolder folders folderId → Rooted (parentOf folders) (IsFolder folders) folderId

lemma isFolder_iff : IsFolder folders folderId ↔ ∃ folder, folders.lookup folderId = some folder := by
  rw [IsFolder, Option.ne_none_iff_exists']

lemma Folder.parent_eq_some {folder : Folder} {parentId : String} :
    folder.parent = some parentId ↔ parentId ≠ "" ∧ folder.parentId = parentId := by
  unfold Folder.parent
  split_ifs with h
  · simp only [false_iff, not_and]
    rintro hne rfl
    exact hne h
  · constructor
    · rintro ⟨⟩
      exact ⟨h, rfl⟩
    · rintro ⟨_, rfl⟩
      rfl

lemma isFolder_of_parentOf (h : parentOf folders folderId = some ancestorId) : IsFolder folders folderId := by
  intro hnone
  rw [parentOf, hnone] at h
  cases h

lemma mem_keys_of_isFolder (h : IsFolder folders folderId) : folderId ∈ folders.map Prod.fst := by
  obtain ⟨folder, hfolder⟩ := isFolder_iff.mp h
  exact List.mem_map.mpr ⟨(folderId, folder), Dict.lookup_mem hfolder, rfl⟩

lemma isDescendant_empty : isDescendant "" ancestorId folders = false := rfl

/-- The loop over `seen` decides the descendants. -/
theorem isDescendant_iff : isDescendant folderId ancestorId folders = true ↔
    folderId ≠ "" ∧ Below (parentOf folders) folderId ancestorId := by
  by_cases hempty : folderId = ""
  · subst hempty
    simp [isDescendant_empty]
  · rw [isDescendant, if_neg hempty, climb_iff fun a b h => mem_keys_of_isFolder (isFolder_of_parentOf h)]
    · simp [hempty]
    · simp

lemma resolvePath_empty (fuel : ℕ) (visiting : List String) :
    resolvePath folders fuel visiting "" = .ok "/" := by
  cases fuel <;> rfl

/-- One step of the resolution of a path. -/
lemma exists_resolvePath_iff {fuel : ℕ} {visiting : List String} (hempty : folderId ≠ "") :
    (∃ path, resolvePath folders fuel visiting folderId = .ok path) ↔ ∃ rest folder, fuel = rest + 1 ∧
      folders.lookup folderId = some folder ∧ folderId ∉ visiting ∧
      ∃ parentPath, resolvePath folders rest (folderId :: visiting) folder.parentId = .ok parentPath := by
  cases fuel with
  | zero =>
    rw [resolvePath.eq_2 _ _ _ hempty]
    simp
  | succ fuel =>
    rw [resolvePath.eq_3 _ _ _ _ hempty]
    cases hlookup : folders.lookup folderId with
    | none => simp
    | some folder =>
      by_cases hvisiting : folderId ∈ visiting
      · simp [hvisiting]
      · simp [hvisiting]

lemma rooted_of_resolvePath {fuel : ℕ} {visiting : List String} (hempty : folderId ≠ "")
    (h : ∃ path, resolvePath folders fuel visiting folderId = .ok path) :
    Rooted (parentOf folders) (IsFolder folders) folderId := by
  induction fuel generalizing visiting folderId with
  | zero =>
    obtain ⟨rest, _, hfuel, _⟩ := (exists_resolvePath_iff hempty).mp h
    omega
  | succ fuel ih =>
    obtain ⟨rest, folder, hfuel, hlookup, -, hparent⟩ := (exists_resolvePath_iff hempty).mp h
    obtain rfl : fuel = rest := by omega
    apply Rooted.intro _ (isFolder_iff.mpr ⟨folder, hlookup⟩)
    intro parentId hparentId
    rw [parentOf, hlookup] at hparentId
    obtain ⟨hne, rfl⟩ := Folder.parent_eq_some.mp hparentId
    exact ih hne hparent

/-- The climb of a rooted folder never comes back to a folder being visited. -/
lemma exists_resolvePath {fuel : ℕ} {visiting : List String} (hempty : folderId ≠ "")
    (h : Rooted (parentOf folders) (IsFolder folders) folderId)
    (hfuel : ((folders.map Prod.fst).filter (· ∉ visiting)).length ≤ fuel)
    (hvisiting : ∀ v ∈ visiting, Relation.TransGen (fun a b => parentOf folders a = some b) v folderId) :
    ∃ path, resolvePath folders fuel visiting folderId = .ok path := by
  induction h generalizing fuel visiting with
  | intro folderId hknown hparent ih =>
    have hrooted := Rooted.intro folderId hknown hparent
    have hnew : folderId ∉ visiting := fun hmem => hrooted.not_transGen (hvisiting folderId hmem)
    have hless := length_unpassed_cons_lt (mem_keys_of_isFolder hknown) hnew
    obtain ⟨rest, rfl⟩ : ∃ rest, fuel = rest + 1 := ⟨fuel - 1, by omega⟩
    obtain ⟨folder, hlookup⟩ := isFolder_iff.mp hknown
    have hrest : ∃ parentPath,
        resolvePath folders rest (folderId :: visiting) folder.parentId = .ok parentPath := by
      by_cases hroot : folder.parentId = ""
      · rw [hroot, resolvePath_empty]
        exact ⟨"/", rfl⟩
      · have hup : parentOf folders folderId = some folder.parentId := by
          rw [parentOf, hlookup]
          exact Folder.parent_eq_some.mpr ⟨hroot, rfl⟩
        apply ih _ hup hroot (by omega)
        intro v hv
        rcases List.mem_cons.mp hv with rfl | hv
        · exact Relation.TransGen.single hup
        · exact (hvisiting v hv).tail hup
    exact (exists_resolvePath_iff hempty).mpr ⟨rest, folder, rfl, hlookup, hnew, hrest⟩

/-- `_folder_paths` accepts the forests. -/
theorem exists_folderPaths (hempty : ¬IsFolder folders "") :
    (∃ paths, folderPaths folders = .ok paths) ↔ Forest folders := by
  have hloop : (∃ paths, folderPaths folders = .ok paths) ↔ ∀ entry ∈ Dict.items folders,
      ∃ path, resolvePath folders folders.length [] entry.1 = .ok path := by
    simp only [folderPaths, bind_eq_ok, pure_eq_ok]
    rw [← exists_comm]
    simp only [exists_and_left, exists_eq', and_true]
    rw [exists_mapM_iff]
    simp
  rw [hloop]
  constructor
  · intro h folderId hfolder
    obtain ⟨folder, hlookup⟩ := isFolder_iff.mp hfolder
    have hne : folderId ≠ "" := fun h => hempty (h ▸ hfolder)
    exact rooted_of_resolvePath hne (h _ (Dict.mem_items.mpr hlookup))
  · rintro h ⟨folderId, folder⟩ hmem
    have hfolder : IsFolder folders folderId := isFolder_iff.mpr ⟨folder, Dict.mem_items.mp hmem⟩
    have hne : folderId ≠ "" := fun h => hempty (h ▸ hfolder)
    apply exists_resolvePath hne (h folderId hfolder)
    · simp
    · simp

end Hierarchy

section Names

/-- Stripped text is stripped. -/
lemma stripText_stripText (text : List Char) : stripText (stripText text) = stripText text := by
  have hdrop : ∀ t : List Char, (t.dropWhile isSpace).dropWhile isSpace = t.dropWhile isSpace :=
    fun t => List.dropWhile_idempotent isSpace t
  have hfront : (stripText text).dropWhile isSpace = stripText text := by
    have hleading : stripText text <+: text.dropWhile isSpace := by
      rw [stripText, ← List.reverse_suffix, List.reverse_reverse]
      exact List.dropWhile_suffix isSpace
    obtain ⟨rest, hrest⟩ := hleading
    cases hstrip : stripText text with
    | nil => rfl
    | cons c cs =>
      have hself := hdrop text
      rw [hstrip] at hrest
      rw [← hrest, List.cons_append] at hself
      have hc : isSpace c = false := by
        by_contra hspace
        rw [List.dropWhile_cons_of_pos (by simpa using hspace)] at hself
        have hlength := congrArg List.length hself
        have hle := (List.dropWhile_suffix isSpace (l := cs ++ rest)).length_le
        rw [List.length_cons] at hlength
        omega
      exact List.dropWhile_cons_of_neg (by simp [hc])
  rw [stripText, hfront]
  have hback : stripText text = ((text.dropWhile isSpace).reverse.dropWhile isSpace).reverse := rfl
  rw [hback, List.reverse_reverse, hdrop]

lemma strip_strip (text : String) : strip (strip text) = strip text := by
  simp [strip, stripText_stripText]

/-- A name that was validated is valid. -/
lemma validateName_validateName {name checked : String} (h : validateName name = .ok checked) :
    validateName checked = .ok checked := by
  simp only [validateName, bind_eq_ok, pure_eq_ok, raiseIf_eq_ok, exists_const] at h ⊢
  obtain ⟨hempty, hlong, hpath, rfl⟩ := h
  rw [strip_strip]
  exact ⟨hempty, hlong, hpath, rfl⟩

/-- A stored folder that passes its checks and is kept as it is. -/
structure Normal (folderId : String) (folder : Folder) : Prop where
  identified : folderId ≠ ""
  same : folder.folderId = folderId
  mutable : folder.fixed = false
  named : validateName folder.name = .ok folder.name

lemma checkFolder_eq_ok {r : Repository} {folderId : String} {folder : Folder} {entry : String × Folder} :
    checkFolder r (folderId, folder) = .ok entry ↔ folderId ≠ "" ∧ folder.folderId = folderId ∧
      folder.fixed = false ∧ ∃ name, validateName folder.name = .ok name ∧
        (folderId, (⟨folderId, name, folder.parentId, false⟩ : Folder)) = entry := by
  simp only [checkFolder, bind_eq_ok, pure_eq_ok, raiseIf_eq_ok, exists_const]
  simp

lemma Normal.of_checkFolder {r : Repository} {folderId : String} {folder : Folder} {entry : String × Folder}
    (h : checkFolder r (folderId, folder) = .ok entry) : Normal entry.1 entry.2 := by
  obtain ⟨hempty, -, -, name, hname, rfl⟩ := checkFolder_eq_ok.mp h
  exact ⟨hempty, rfl, rfl, validateName_validateName hname⟩

lemma Normal.checkFolder {folderId : String} {folder : Folder} (h : Normal folderId folder) (r : Repository) :
    checkFolder r (folderId, folder) = .ok (folderId, folder) := by
  rw [checkFolder_eq_ok]
  obtain ⟨hempty, hsame, hfixed, hname⟩ := h
  refine ⟨hempty, hsame, hfixed, folder.name, hname, ?_⟩
  rw [← hsame, ← hfixed]

end Names

section Placed

/-- An item may be assigned to a folder. -/
structure Assigned (r : Repository) (folders : FolderMap) (itemId folderId : String) : Prop where
  named : itemId ≠ ""
  folder : folderId = "" ∨ IsFolder folders folderId
  kind : r ∈ moduleRepositories → kindOf itemId ∈ moduleKinds r ∧ folderId ≠ ""
  inTree : r = .modules → Below (parentOf folders) folderId (fixedFolderId (kindOf itemId))
  outside : r ∈ flatModuleRepositories → ¬Below (parentOf folders) folderId (repositoryBuiltinFolderId r)

variable (unicode : Unicode)

/-- The folders and assignments of a repository are in place, the folders of `modules` each in the
tree of one of the given roots. -/
structure Placed (roots : List String) (r : Repository) (folders : FolderMap)
    (assignments : List (String × String)) : Prop where
  forest : Forest (withFixed r folders)
  siblings : ∀ a b folder other, (withFixed r folders).lookup a = some folder →
    (withFixed r folders).lookup b = some other → siblingKey unicode folder = siblingKey unicode other → a = b
  inTree : r = .modules → ∀ folderId, IsFolder folders folderId →
    ∃ root ∈ roots, Below (parentOf (withFixed r folders)) folderId root
  outside : r ∈ flatModuleRepositories → ∀ folderId, IsFolder folders folderId →
    ¬Below (parentOf (withFixed r folders)) folderId (repositoryBuiltinFolderId r)
  assigned : ∀ itemId folderId, assignments.lookup itemId = some folderId →
    Assigned r (withFixed r folders) itemId folderId

/-- The ids of the fixed folders of `modules`. -/
def fixedIds : List String := (fixedFolders .modules).map Prod.fst

variable {unicode} {r : Repository} {folders : FolderMap} {assignments : List (String × String)}

lemma mem_moduleRepositories : r ∈ moduleRepositories ↔ r = .modules ∨ r ∈ flatModuleRepositories := by
  simp [moduleRepositories, flatModuleRepositories]

lemma lookup_withFixed (r : Repository) (folders : FolderMap) (folderId : String) :
    (withFixed r folders).lookup folderId = (folders.lookup folderId).or ((fixedFolders r).lookup folderId) :=
  Dict.lookup_update _ _ _

lemma IsFolder.withFixed {folderId : String} (h : IsFolder folders folderId) (r : Repository) :
    IsFolder (withFixed r folders) folderId := by
  obtain ⟨folder, hfolder⟩ := isFolder_iff.mp h
  exact isFolder_iff.mpr ⟨folder, by rw [lookup_withFixed, hfolder]; rfl⟩

lemma fixedFolders_lookup_empty (r : Repository) : (fixedFolders r).lookup "" = none := by
  cases r <;> with_unfolding_all decide

lemma not_isFolder_empty (hnormal : ∀ folderId folder, folders.lookup folderId = some folder →
    Normal folderId folder) : ¬IsFolder (withFixed r folders) "" := by
  intro h
  obtain ⟨folder, hfolder⟩ := isFolder_iff.mp h
  rw [lookup_withFixed, fixedFolders_lookup_empty, Option.or_none] at hfolder
  exact (hnormal "" folder hfolder).identified rfl

lemma checkSiblings_eq_ok {seen keys : List (String × String)} {u : Unit} :
    checkSiblings r seen keys = .ok u ↔ keys.Nodup ∧ ∀ key ∈ keys, key ∉ seen := by
  induction keys generalizing seen with
  | nil => simp [checkSiblings]
  | cons key keys ih =>
    rw [checkSiblings, seq_eq_ok, raiseIf_eq_ok, ih, List.nodup_cons, List.forall_mem_cons]
    constructor
    · rintro ⟨hkey, hnodup, hseen⟩
      refine ⟨⟨fun hmem => hseen key hmem List.mem_cons_self, hnodup⟩, hkey, fun k hk hmem => ?_⟩
      exact hseen k hk (List.mem_cons_of_mem _ hmem)
    · rintro ⟨⟨hkey, hnodup⟩, hnew, hseen⟩
      refine ⟨hnew, hnodup, fun k hk hmem => ?_⟩
      rcases List.mem_cons.mp hmem with rfl | hmem
      · exact hkey hk
      · exact hseen k hk hmem

/-- The sibling names of a dictionary of folders are distinct when no two folders share one. -/
lemma checkSiblings_items {u : Unit} :
    checkSiblings r [] ((Dict.items folders).map fun entry => siblingKey unicode entry.2) = .ok u ↔
      ∀ a b folder other, folders.lookup a = some folder → folders.lookup b = some other →
        siblingKey unicode folder = siblingKey unicode other → a = b := by
  have hitems : (Dict.items folders).Nodup := List.Nodup.of_map Prod.fst (Dict.nodup_keys folders)
  rw [checkSiblings_eq_ok, List.nodup_map_iff_inj_on hitems]
  simp only [List.not_mem_nil, not_false_eq_true, implies_true, and_true, Prod.forall, Dict.mem_items]
  constructor
  · intro h a b folder other ha hb hkey
    exact congrArg Prod.fst (h a folder ha b other hb hkey)
  · intro h a folder ha b other hb hkey
    obtain rfl := h a b folder other ha hb hkey
    rw [Option.some.inj (ha.symm.trans hb)]

lemma checkTrees_eq_ok {ids : List String} {u : Unit} (hids : ∀ folderId ∈ ids, folderId ≠ "") :
    checkTrees r ids folders = .ok u ↔
      (r = .modules → ∀ folderId ∈ ids, ∃ root ∈ fixedIds, Below (parentOf folders) folderId root) ∧
      (r ∈ flatModuleRepositories → ∀ folderId ∈ ids,
        ¬Below (parentOf folders) folderId (repositoryBuiltinFolderId r)) := by
  unfold checkTrees
  by_cases hmodules : r = .modules
  · subst hmodules
    have hflat : Repository.modules ∉ flatModuleRepositories := by decide
    simp only [if_true, forM_eq_ok, raiseIf_eq_ok, not_not, isDescendant_iff, hflat, false_imp_iff, and_true,
      true_imp_iff]
    refine forall₂_congr fun folderId hmem => ?_
    simp [hids folderId hmem, fixedIds]
  · rw [if_neg hmodules]
    by_cases hflat : r ∈ flatModuleRepositories
    · rw [if_pos hflat]
      simp only [forM_eq_ok, raiseIf_eq_ok, isDescendant_iff, hmodules, false_imp_iff, true_and, hflat,
        true_imp_iff]
      refine forall₂_congr fun folderId hmem => ?_
      simp [hids folderId hmem]
    · simp [hmodules, hflat]

lemma checkModuleAssignment_eq_ok {itemId folderId : String} {u : Unit} (hr : r ∈ moduleRepositories) :
    checkModuleAssignment r folders itemId folderId = .ok u ↔
      (kindOf itemId ∈ moduleKinds r ∧ folderId ≠ "") ∧
      (r = .modules → Below (parentOf folders) folderId (fixedFolderId (kindOf itemId))) ∧
      (r ∈ flatModuleRepositories → ¬Below (parentOf folders) folderId (repositoryBuiltinFolderId r)) := by
  rw [checkModuleAssignment, seq_eq_ok, raiseIf_eq_ok, not_or, not_not]
  apply and_congr_right
  rintro ⟨_, hempty⟩
  rcases mem_moduleRepositories.mp hr with rfl | hflat
  · have hflat : Repository.modules ∉ flatModuleRepositories := by decide
    rw [if_pos rfl, raiseIf_eq_ok, Bool.not_eq_false, isDescendant_iff]
    simp [hempty, hflat]
  · have hmodules : r ≠ .modules := by
      rintro rfl
      revert hflat
      decide
    rw [if_neg hmodules, raiseIf_eq_ok, isDescendant_iff]
    simp [hempty, hflat, hmodules]

lemma checkAssignment_eq_ok {itemId folderId : String} {u : Unit} :
    checkAssignment r folders (itemId, folderId) = .ok u ↔ Assigned r folders itemId folderId := by
  have hfolder : ¬(folderId ≠ "" ∧ folders.lookup folderId = none) ↔
      folderId = "" ∨ IsFolder folders folderId := by
    rw [not_and_or, not_ne_iff, IsFolder]
  rw [checkAssignment, seq_eq_ok, seq_eq_ok, raiseIf_eq_ok, raiseIf_eq_ok, hfolder]
  by_cases hr : r ∈ moduleRepositories
  · rw [if_pos hr, checkModuleAssignment_eq_ok hr]
    constructor
    · rintro ⟨hnamed, hfolder, hkind, htree, houtside⟩
      exact ⟨hnamed, hfolder, fun _ => hkind, htree, houtside⟩
    · intro h
      exact ⟨h.named, h.folder, h.kind hr, h.inTree, h.outside⟩
  · rw [if_neg hr]
    rw [mem_moduleRepositories, not_or] at hr
    constructor
    · rintro ⟨hnamed, hfolder, -⟩
      have hmodule : r ∉ moduleRepositories := by simp [mem_moduleRepositories, hr]
      exact ⟨hnamed, hfolder, fun h => absurd h hmodule, fun h => absurd h hr.1, fun h => absurd h hr.2⟩
    · intro h
      exact ⟨h.named, h.folder, rfl⟩

lemma forall_items {β : Type} {d : List (String × β)} {P : String × β → Prop} :
    (∀ entry ∈ Dict.items d, P entry) ↔ ∀ key value, d.lookup key = some value → P (key, value) := by
  simp only [Prod.forall, Dict.mem_items]

lemma isFolder_iff_mem_keys {folderId : String} : IsFolder folders folderId ↔ folderId ∈ folders.map Prod.fst := by
  constructor
  · exact mem_keys_of_isFolder
  · intro h
    obtain ⟨⟨_, folder⟩, hmem, rfl⟩ := List.mem_map.mp h
    rw [IsFolder, ← Option.isSome_iff_ne_none, Dict.lookup_isSome_iff]
    exact ⟨folder, hmem⟩

/-- The checked folders are normal and have the ids of the stored ones. -/
lemma normal_of_checked {checked : FolderMap} (h : (Dict.items folders).mapM (checkFolder r) = .ok checked) :
    (∀ folderId folder, checked.lookup folderId = some folder → Normal folderId folder) ∧
      checked.map Prod.fst = Dict.keys folders := by
  constructor
  · intro folderId folder hlookup
    obtain ⟨⟨storedId, stored⟩, -, hentry⟩ :=
      Related.exists_mem_left (mapM_eq_ok.mp h) (Dict.lookup_mem hlookup)
    exact Normal.of_checkFolder hentry
  · apply Raising.map_of_mapM _ h
    rintro ⟨storedId, stored⟩ entry hentry
    obtain ⟨-, -, -, name, -, rfl⟩ := checkFolder_eq_ok.mp hentry
    rfl

/-- What `validateState` asks of one repository. -/
theorem validateRepository_eq_ok {checked : FolderMap} :
    validateRepository unicode r folders assignments = .ok checked ↔
      (Dict.items folders).mapM (checkFolder r) = .ok checked ∧
        Placed unicode fixedIds r checked assignments := by
  have hchecks : ∀ stored, (Dict.items folders).mapM (checkFolder r) = .ok stored →
      ((∃ paths, folderPaths (withFixed r stored) = .ok paths) ∧
        checkSiblings r [] ((Dict.items (withFixed r stored)).map fun entry => siblingKey unicode entry.2) = .ok () ∧
        checkTrees r (stored.map Prod.fst) (withFixed r stored) = .ok () ∧
        (Dict.items assignments).forM (checkAssignment r (withFixed r stored)) = .ok () ↔
      Placed unicode fixedIds r stored assignments) := by
    intro stored hstored
    obtain ⟨hnormal, -⟩ := normal_of_checked hstored
    have hids : ∀ folderId ∈ stored.map Prod.fst, folderId ≠ "" := by
      intro folderId hmem
      obtain ⟨folder, hfolder⟩ := isFolder_iff.mp (isFolder_iff_mem_keys.mpr hmem)
      exact (hnormal folderId folder hfolder).identified
    rw [exists_folderPaths (not_isFolder_empty hnormal), checkSiblings_items, checkTrees_eq_ok hids, forM_eq_ok,
      forall_items]
    simp only [checkAssignment_eq_ok, ← isFolder_iff_mem_keys]
    constructor
    · rintro ⟨hforest, hsiblings, ⟨htree, houtside⟩, hassigned⟩
      exact ⟨hforest, hsiblings, htree, houtside, hassigned⟩
    · intro h
      exact ⟨h.forest, h.siblings, ⟨h.inTree, h.outside⟩, h.assigned⟩
  rw [validateRepository, bind_eq_ok]
  constructor
  · rintro ⟨stored, hstored, h⟩
    obtain ⟨paths, hpaths, h⟩ := bind_eq_ok.mp h
    obtain ⟨hsiblings, h⟩ := seq_eq_ok.mp h
    obtain ⟨htrees, h⟩ := seq_eq_ok.mp h
    obtain ⟨hassignments, h⟩ := seq_eq_ok.mp h
    obtain rfl := pure_eq_ok.mp h
    exact ⟨hstored, (hchecks stored hstored).mp ⟨⟨paths, hpaths⟩, hsiblings, htrees, hassignments⟩⟩
  · rintro ⟨hstored, hplaced⟩
    obtain ⟨⟨paths, hpaths⟩, hsiblings, htrees, hassignments⟩ := (hchecks checked hstored).mpr hplaced
    refine ⟨checked, hstored, bind_eq_ok.mpr ⟨paths, hpaths, ?_⟩⟩
    rw [seq_eq_ok, seq_eq_ok, seq_eq_ok]
    exact ⟨hsiblings, htrees, hassignments, rfl⟩

/-- The repositories of the loop are checked and kept, the others stay as they were. -/
lemma validateRepositories_eq_ok {payload start state : State} {rs : List Repository} (hrs : rs.Nodup) :
    rs.foldlM (fun state r => do
      let checked ← validateRepository unicode r (payload.folders r) (payload.assignments r)
      pure { state with
        folders := Function.update state.folders r checked
        assignments := Function.update state.assignments r (Dict.items (payload.assignments r)) }) start =
        .ok state ↔
      state.schemaVersion = start.schemaVersion ∧ ∀ r,
        if r ∈ rs then
          validateRepository unicode r (payload.folders r) (payload.assignments r) = .ok (state.folders r) ∧
            state.assignments r = Dict.items (payload.assignments r)
        else state.folders r = start.folders r ∧ state.assignments r = start.assignments r := by
  induction rs generalizing start with
  | nil =>
    rw [List.foldlM_nil, pure_eq_ok]
    simp only [List.not_mem_nil, if_false]
    constructor
    · rintro rfl
      exact ⟨rfl, fun r => ⟨rfl, rfl⟩⟩
    · rintro ⟨hversion, h⟩
      cases start
      cases state
      simp_all [funext_iff]
  | cons r rs ih =>
    obtain ⟨hr, hnodup⟩ := List.nodup_cons.mp hrs
    rw [List.foldlM_cons, bind_eq_ok]
    simp only [bind_eq_ok, pure_eq_ok]
    constructor
    · rintro ⟨next, ⟨checked, hchecked, rfl⟩, h⟩
      obtain ⟨hversion, hall⟩ := (ih hnodup).mp h
      refine ⟨hversion, fun q => ?_⟩
      have hq := hall q
      dsimp only at hq
      by_cases hqr : q = r
      · subst hqr
        rw [if_neg hr, Function.update_self, Function.update_self] at hq
        rw [if_pos List.mem_cons_self, hq.1, hq.2]
        exact ⟨hchecked, rfl⟩
      · rw [Function.update_of_ne hqr, Function.update_of_ne hqr] at hq
        simpa [hqr] using hq
    · rintro ⟨hversion, hall⟩
      have hhead := hall r
      rw [if_pos List.mem_cons_self] at hhead
      refine ⟨_, ⟨state.folders r, hhead.1, rfl⟩, (ih hnodup).mpr ⟨hversion, fun q => ?_⟩⟩
      have hq := hall q
      dsimp only
      by_cases hqr : q = r
      · subst hqr
        rw [if_neg hr, Function.update_self, Function.update_self]
        exact ⟨rfl, hhead.2⟩
      · rw [Function.update_of_ne hqr, Function.update_of_ne hqr]
        simpa [hqr] using hq

/-- `validateState` checks every repository on its own. -/
theorem validateState_eq_ok {payload state : State} : validateState unicode payload = .ok state ↔
    payload.schemaVersion = schemaVersion ∧ state.schemaVersion = schemaVersion ∧
      ∀ r, validateRepository unicode r (payload.folders r) (payload.assignments r) = .ok (state.folders r) ∧
        state.assignments r = Dict.items (payload.assignments r) := by
  rw [validateState, seq_eq_ok, raiseIf_eq_ok, not_ne_iff, validateRepositories_eq_ok nodup_repositories]
  simp only [mem_repositories, if_true, emptyState]

end Placed

end TradeFramework.Folders
