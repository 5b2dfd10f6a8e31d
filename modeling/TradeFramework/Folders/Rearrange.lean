import TradeFramework.Folders.Placement

/-!
# Rearranging folders

One folder is set or dropped, one assignment is made or dropped: what keeps a repository in place.
-/

namespace TradeFramework.Folders

open ParentForest (Below Rooted below_iff below_of_parent below_update_of_not below_of_update not_below_of_leaf)
open Raising (mapM_eq_ok)

variable {unicode : Unicode} {roots : List String} {r : Repository} {folders : FolderMap}
variable {assignments : List (String × String)} {folderId : String} {folder : Folder}

section Lookups

lemma lookup_withFixed_set (k : String) : (withFixed r (Dict.set folders folderId folder)).lookup k =
    if k = folderId then some folder else (withFixed r folders).lookup k := by
  rw [lookup_withFixed, lookup_withFixed, Dict.lookup_set]
  split_ifs
  · rfl
  · rfl

lemma lookup_withFixed_erase (hfixed : (fixedFolders r).lookup folderId = none) (k : String) :
    (withFixed r (Dict.erase folders folderId)).lookup k =
      if k = folderId then none else (withFixed r folders).lookup k := by
  rw [lookup_withFixed, lookup_withFixed, Dict.lookup_erase]
  split_ifs with hk
  · rw [hk, hfixed]
    rfl
  · rfl

lemma parentOf_set : parentOf (withFixed r (Dict.set folders folderId folder)) =
    Function.update (parentOf (withFixed r folders)) folderId folder.parent := by
  funext k
  rw [parentOf, lookup_withFixed_set]
  by_cases hk : k = folderId
  · subst hk
    simp
  · rw [if_neg hk, Function.update_of_ne hk]
    rfl

lemma parentOf_erase (hfixed : (fixedFolders r).lookup folderId = none) :
    parentOf (withFixed r (Dict.erase folders folderId)) =
      Function.update (parentOf (withFixed r folders)) folderId none := by
  funext k
  rw [parentOf, lookup_withFixed_erase hfixed]
  by_cases hk : k = folderId
  · subst hk
    simp
  · rw [if_neg hk, Function.update_of_ne hk]
    rfl

lemma isFolder_set {k : String} : IsFolder (withFixed r (Dict.set folders folderId folder)) k ↔
    k = folderId ∨ IsFolder (withFixed r folders) k := by
  rw [IsFolder, lookup_withFixed_set]
  split_ifs with hk
  · simp [hk]
  · simp [hk, IsFolder]

lemma isFolder_erase (hfixed : (fixedFolders r).lookup folderId = none) {k : String} :
    IsFolder (withFixed r (Dict.erase folders folderId)) k ↔
      IsFolder (withFixed r folders) k ∧ k ≠ folderId := by
  rw [IsFolder, lookup_withFixed_erase hfixed]
  split_ifs with hk
  · simp [hk]
  · simp [hk, IsFolder]

end Lookups

/-- A parent that a folder may get: it exists and is not below the folder. -/
def MayHold (folders : FolderMap) (folderId parentId : String) : Prop :=
  IsFolder folders parentId ∧ ¬Below (parentOf folders) parentId folderId

/-- A folder is added or changed. Its new parent must exist outside of its own tree, no sibling may have
its name, its own tree must still hold the assignments it held for its ancestors, and it may
not enter the BuiltIn folder. -/
theorem Placed.set (h : Placed unicode roots r folders assignments)
    (hparent : ∀ p, folder.parent = some p → MayHold (withFixed r folders) folderId p)
    (hsibling : ∀ k other, (withFixed r folders).lookup k = some other → k ≠ folderId →
      siblingKey unicode other ≠ siblingKey unicode folder)
    (htree : r = .modules → ∃ root ∈ roots,
      Below (Function.update (parentOf (withFixed r folders)) folderId folder.parent) folderId root)
    (houtside : r ∈ flatModuleRepositories → folderId ≠ repositoryBuiltinFolderId r ∧
      ∀ p, folder.parent = some p → ¬Below (parentOf (withFixed r folders)) p (repositoryBuiltinFolderId r))
    (hassigned : r = .modules → ∀ itemId g, assignments.lookup itemId = some g →
      Below (parentOf (withFixed r folders)) g folderId →
      Below (parentOf (withFixed r folders)) folderId (fixedFolderId (kindOf itemId)) →
      Below (Function.update (parentOf (withFixed r folders)) folderId folder.parent) folderId
        (fixedFolderId (kindOf itemId))) :
    Placed unicode roots r (Dict.set folders folderId folder) assignments := by
  have hnot : ∀ p, folder.parent = some p → ¬Below (parentOf (withFixed r folders)) p folderId :=
    fun p hp => (hparent p hp).2
  -- nothing is below the BuiltIn folder now that was not below it before
  have hstill : r ∈ flatModuleRepositories → ∀ k,
      ¬Below (parentOf (withFixed r folders)) k (repositoryBuiltinFolderId r) →
      ¬Below (Function.update (parentOf (withFixed r folders)) folderId folder.parent) k
        (repositoryBuiltinFolderId r) := by
    intro hflat k hk hbelow
    rcases below_of_update hbelow with hold | ⟨p, hp, hnew⟩
    · exact hk hold
    · exact (houtside hflat).2 p hp ((below_update_of_not (hnot p hp)).mp hnew)
  constructor
  · intro k hk
    rw [parentOf_set]
    have hknown : ∀ a, IsFolder (withFixed r folders) a →
        IsFolder (withFixed r (Dict.set folders folderId folder)) a :=
      fun a ha => isFolder_set.mpr (Or.inr ha)
    have htarget : ∀ p, folder.parent = some p → Rooted (parentOf (withFixed r folders))
        (IsFolder (withFixed r folders)) p ∧ ¬Below (parentOf (withFixed r folders)) p folderId :=
      fun p hp => ⟨h.forest p (hparent p hp).1, hnot p hp⟩
    by_cases hself : k = folderId
    · subst hself
      apply Rooted.intro k hk
      intro p hp
      rw [Function.update_self] at hp
      exact ((htarget p hp).1.update_of_not (htarget p hp).2).mono hknown
    · rcases isFolder_set.mp hk with hsame | hk
      · exact absurd hsame hself
      · exact ((h.forest k hk).update htarget).mono hknown
  · intro a b one two ha hb hkey
    rw [lookup_withFixed_set] at ha hb
    split_ifs at ha hb with haf hbf hbf
    · rw [haf, hbf]
    · obtain rfl := Option.some.inj ha
      exact absurd hkey.symm (hsibling b two hb hbf)
    · obtain rfl := Option.some.inj hb
      exact absurd hkey (hsibling a one ha haf)
    · exact h.siblings a b one two ha hb hkey
  · intro hmodules k hk
    rw [parentOf_set]
    obtain ⟨root, hroot, hself⟩ := htree hmodules
    by_cases hkf : k = folderId
    · rw [hkf]
      exact ⟨root, hroot, hself⟩
    · have hstored : IsFolder folders k := by
        rw [IsFolder, Dict.lookup_set, if_neg hkf] at hk
        exact hk
      obtain ⟨old, hold, hbelow⟩ := h.inTree hmodules k hstored
      rcases hbelow.update folder.parent with hkeep | ⟨hthrough, -⟩
      · exact ⟨old, hold, hkeep⟩
      · exact ⟨root, hroot, hthrough.trans hself⟩
  · intro hflat k hk
    rw [parentOf_set]
    by_cases hkf : k = folderId
    · subst hkf
      obtain ⟨hne, hnew⟩ := houtside hflat
      intro hbelow
      rcases below_iff.mp hbelow with hsame | ⟨p, hp, hpb⟩
      · exact hne hsame
      · rw [Function.update_self] at hp
        exact hstill hflat p (hnew p hp) hpb
    · rw [IsFolder, Dict.lookup_set, if_neg hkf] at hk
      exact hstill hflat k (h.outside hflat k hk)
  · intro itemId g hg
    have hitem := h.assigned itemId g hg
    refine ⟨hitem.named, hitem.folder.imp_right fun hfolder => isFolder_set.mpr (Or.inr hfolder), hitem.kind, ?_, ?_⟩
    · intro hmodules
      rw [parentOf_set]
      have hbelow := hitem.inTree hmodules
      rcases hbelow.update folder.parent with hkeep | ⟨hthrough, hroot⟩
      · exact hkeep
      · apply hthrough.trans
        apply hassigned hmodules itemId g hg _ hroot
        rcases below_of_update hthrough with hold | ⟨p, hp, hback⟩
        · exact hold
        · exact absurd ((below_update_of_not (hnot p hp)).mp hback) (hnot p hp)
    · intro hflat
      rw [parentOf_set]
      exact hstill hflat g (hitem.outside hflat)

/-- A folder without children and items is dropped. -/
theorem Placed.erase (h : Placed unicode roots r folders assignments)
    (hfixed : (fixedFolders r).lookup folderId = none)
    (hleaf : ∀ k, parentOf (withFixed r folders) k ≠ some folderId)
    (hunused : ∀ itemId, assignments.lookup itemId ≠ some folderId) :
    Placed unicode roots r (Dict.erase folders folderId) assignments := by
  have hsame : ∀ k b, k ≠ folderId →
      (Below (Function.update (parentOf (withFixed r folders)) folderId none) k b ↔
        Below (parentOf (withFixed r folders)) k b) :=
    fun k b hk => below_update_of_not (not_below_of_leaf hleaf hk)
  have hstored : ∀ k, IsFolder (Dict.erase folders folderId) k → IsFolder folders k ∧ k ≠ folderId := by
    intro k hk
    rw [IsFolder, Dict.lookup_erase] at hk
    split_ifs at hk with hkf
    · exact absurd rfl hk
    · exact ⟨hk, hkf⟩
  constructor
  · intro k hk
    rw [parentOf_erase hfixed]
    obtain ⟨hfolder, hne⟩ := (isFolder_erase hfixed).mp hk
    exact ((h.forest k hfolder).leave hleaf hne).mono fun a ha => (isFolder_erase hfixed).mpr ha
  · intro a b one two ha hb
    rw [lookup_withFixed_erase hfixed] at ha hb
    split_ifs at ha hb
    exact h.siblings a b one two ha hb
  · intro hmodules k hk
    obtain ⟨hfolder, hne⟩ := hstored k hk
    obtain ⟨root, hroot, hbelow⟩ := h.inTree hmodules k hfolder
    rw [parentOf_erase hfixed]
    exact ⟨root, hroot, (hsame k root hne).mpr hbelow⟩
  · intro hflat k hk
    obtain ⟨hfolder, hne⟩ := hstored k hk
    rw [parentOf_erase hfixed, hsame k _ hne]
    exact h.outside hflat k hfolder
  · intro itemId g hg
    have hitem := h.assigned itemId g hg
    have hne : g ≠ folderId := by
      rintro rfl
      exact hunused itemId hg
    refine ⟨hitem.named, ?_, hitem.kind, ?_, ?_⟩
    · exact hitem.folder.imp_right fun hfolder => (isFolder_erase hfixed).mpr ⟨hfolder, hne⟩
    · rw [parentOf_erase hfixed, hsame g _ hne]
      exact hitem.inTree
    · rw [parentOf_erase hfixed, hsame g _ hne]
      exact hitem.outside

/-- An item is assigned. -/
theorem Placed.setAssignment {itemId : String} (h : Placed unicode roots r folders assignments)
    (hitem : Assigned r (withFixed r folders) itemId folderId) :
    Placed unicode roots r folders (Dict.set assignments itemId folderId) := by
  refine ⟨h.forest, h.siblings, h.inTree, h.outside, ?_⟩
  intro other g hg
  rw [Dict.lookup_set] at hg
  split_ifs at hg with hsame
  · cases hg
    exact hsame ▸ hitem
  · exact h.assigned other g hg

/-- An assignment is dropped. -/
theorem Placed.dropAssignment (h : Placed unicode roots r folders assignments) (itemId : String) :
    Placed unicode roots r folders (Dict.erase assignments itemId) := by
  refine ⟨h.forest, h.siblings, h.inTree, h.outside, ?_⟩
  intro other g hg
  rw [Dict.lookup_erase] at hg
  split_ifs at hg
  exact h.assigned other g hg

/-- Roots give way to roots above them. -/
theorem Placed.of_roots {above : List String} (h : Placed unicode roots r folders assignments)
    (hroots : r = .modules → ∀ root ∈ roots, ∃ root' ∈ above, Below (parentOf (withFixed r folders)) root root') :
    Placed unicode above r folders assignments := by
  refine ⟨h.forest, h.siblings, ?_, h.outside, h.assigned⟩
  intro hmodules k hk
  obtain ⟨root, hroot, hbelow⟩ := h.inTree hmodules k hk
  obtain ⟨root', hroot', habove⟩ := hroots hmodules root hroot
  exact ⟨root', hroot', hbelow.trans habove⟩

/-- Only the visible assignments matter. -/
lemma placed_items : Placed unicode roots r folders (Dict.items assignments) ↔
    Placed unicode roots r folders assignments := by
  constructor
  · intro h
    refine ⟨h.forest, h.siblings, h.inTree, h.outside, fun itemId g hg => h.assigned itemId g ?_⟩
    rwa [Dict.lookup_items]
  · intro h
    refine ⟨h.forest, h.siblings, h.inTree, h.outside, fun itemId g hg => h.assigned itemId g ?_⟩
    rwa [Dict.lookup_items] at hg

lemma withFixed_items (r : Repository) (folders : FolderMap) :
    withFixed r (Dict.items folders) = withFixed r folders := by
  rw [withFixed, withFixed, Dict.update, Dict.update, Dict.items_items]

/-- Only the visible folders matter. -/
lemma placed_items_folders : Placed unicode roots r (Dict.items folders) assignments ↔
    Placed unicode roots r folders assignments := by
  have hstored : ∀ k, IsFolder (Dict.items folders) k ↔ IsFolder folders k := by
    intro k
    rw [IsFolder, IsFolder, Dict.lookup_items]
  constructor
  · rintro ⟨hforest, hsiblings, htree, houtside, hassigned⟩
    rw [withFixed_items] at hforest hsiblings htree houtside hassigned
    exact ⟨hforest, hsiblings, fun hr k hk => htree hr k ((hstored k).mpr hk),
      fun hr k hk => houtside hr k ((hstored k).mpr hk), hassigned⟩
  · rintro ⟨hforest, hsiblings, htree, houtside, hassigned⟩
    constructor
    · rw [withFixed_items]
      exact hforest
    · rw [withFixed_items]
      exact hsiblings
    · rw [withFixed_items]
      exact fun hr k hk => htree hr k ((hstored k).mp hk)
    · rw [withFixed_items]
      exact fun hr k hk => houtside hr k ((hstored k).mp hk)
    · rw [withFixed_items]
      exact hassigned

/-- Only the visible folders and assignments matter. -/
theorem Placed.items (h : Placed unicode roots r folders assignments) :
    Placed unicode roots r (Dict.items folders) (Dict.items assignments) :=
  placed_items_folders.mpr (placed_items.mpr h)

section InPlace

variable {store state : State}

/-- A state whose every repository is in place. -/
structure InPlace (unicode : Unicode) (roots : List String) (state : State) : Prop where
  version : state.schemaVersion = schemaVersion
  normal : ∀ r folderId folder, (state.folders r).lookup folderId = some folder → Normal folderId folder
  placed : ∀ r, Placed unicode roots r (state.folders r) (state.assignments r)

/-- A state that was loaded is in place. -/
lemma InPlace.of_validate (h : validateState unicode store = .ok state) : InPlace unicode fixedIds state := by
  obtain ⟨-, hversion, hall⟩ := validateState_eq_ok.mp h
  refine ⟨hversion, fun r => ?_, fun r => ?_⟩
  · obtain ⟨hchecked, -⟩ := validateRepository_eq_ok.mp (hall r).1
    exact (normal_of_checked hchecked).1
  · obtain ⟨-, hplaced⟩ := validateRepository_eq_ok.mp (hall r).1
    rw [(hall r).2, placed_items]
    exact hplaced

/-- The state that is written: the visible entries of the state in memory. -/
def State.written (state : State) : State :=
  ⟨state.schemaVersion, fun r => Dict.items (state.folders r), fun r => Dict.items (state.assignments r)⟩

lemma mapM_checkFolder {folders : FolderMap}
    (hnormal : ∀ folderId folder, folders.lookup folderId = some folder → Normal folderId folder) :
    (Dict.items folders).mapM (checkFolder r) = .ok (Dict.items folders) := by
  rw [mapM_eq_ok, List.forall₂_same]
  rintro ⟨folderId, folder⟩ hmem
  exact (hnormal folderId folder (Dict.mem_items.mp hmem)).checkFolder r

/-- A state in place is saved as it is. -/
theorem InPlace.validate (h : InPlace unicode fixedIds state) :
    validateState unicode state = .ok state.written := by
  rw [validateState_eq_ok]
  refine ⟨h.version, h.version, fun r => ⟨?_, rfl⟩⟩
  rw [validateRepository_eq_ok]
  exact ⟨mapM_checkFolder (h.normal r), placed_items.mp (h.placed r).items⟩

lemma InPlace.written (h : InPlace unicode roots state) : InPlace unicode roots state.written := by
  refine ⟨h.version, fun r folderId folder hfolder => ?_, fun r => (h.placed r).items⟩
  apply h.normal r folderId folder
  rwa [State.written, Dict.lookup_items] at hfolder

end InPlace

end TradeFramework.Folders
