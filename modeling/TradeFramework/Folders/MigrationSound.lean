import TradeFramework.Folders.Migration

/-!
# What the migration from version 8 keeps

The migration keeps every placement of a valid state of version 8 unless folders of different parents meet at the
root under one name, or an item has two assignments of its highest version.
-/

namespace TradeFramework.Folders

open ParentForest (Below Rooted below_iff below_of_parent)
open Raising (raiseIf raiseIf_eq_ok seq_eq_ok bind_eq_ok pure_eq_ok mapM_eq_ok exists_mapM_iff)

variable {unicode : Unicode} {numerals : Numerals} {r : Repository} {folders : FolderMap}
variable {assignments out : List (String × String)} {itemId folderId : String}

section Assignments

/-- The place of a version in the order of priorities. -/
def rank : Option ℕ → WithTop ℕ
  | none => ⊤
  | some number => number

/-- An assignment of the state is about the item. -/
def Sources (numerals : Numerals) (r : Repository) (assignments : List (String × String)) (itemId folderId : String)
    (version : Option ℕ) : Prop :=
  ∃ source, assignments.lookup source = some folderId ∧
    migratedStableItemId numerals r source = .ok (itemId, version)

/-- The assignment of the unversioned id decides, or else one of the highest version. -/
structure Decides (numerals : Numerals) (r : Repository) (assignments : List (String × String))
    (itemId folderId : String) (version : Option ℕ) : Prop where
  source : Sources numerals r assignments itemId folderId version
  highest : ∀ other number, Sources numerals r assignments itemId other number → rank number ≤ rank version

/-- Where an assigned item is after the migration: items of a removed fixed folder are in their default folder. -/
def placement (r : Repository) (folderId : String) : Option String :=
  if folderId ∈ oldDefaultFolders r then none else some folderId

lemma candidate_eq_ok {source : String} {entry : String × WithTop ℕ × String} :
    candidate numerals r (source, folderId) = .ok entry ↔
      ∃ version, migratedStableItemId numerals r source = .ok (entry.1, version) ∧
        entry.2 = (rank version, folderId) := by
  obtain ⟨key, priority, value⟩ := entry
  rw [candidate, bind_eq_ok]
  constructor
  · rintro ⟨⟨stableId, version⟩, hstable, hentry⟩
    have hpair := pure_eq_ok.mp hentry
    obtain ⟨rfl, rfl, rfl⟩ : stableId = key ∧ _ = priority ∧ folderId = value := by simpa using hpair
    refine ⟨version, hstable, ?_⟩
    cases version <;> rfl
  · rintro ⟨version, hstable, hrest⟩
    cases hrest
    refine ⟨(key, version), hstable, ?_⟩
    cases version <;> rfl

/-- The candidates of a state are the assignments that are about an item. -/
lemma mem_candidates {entries : List (String × WithTop ℕ × String)}
    (h : (Dict.items assignments).mapM (candidate numerals r) = .ok entries) {priority : WithTop ℕ} :
    (itemId, priority, folderId) ∈ entries ↔
      ∃ version, Sources numerals r assignments itemId folderId version ∧ priority = rank version := by
  constructor
  · intro hmem
    obtain ⟨⟨source, stored⟩, hsource, hentry⟩ := Related.exists_mem_left (mapM_eq_ok.mp h) hmem
    obtain ⟨version, hstable, hrest⟩ := candidate_eq_ok.mp hentry
    obtain ⟨rfl, rfl⟩ := Prod.mk.inj hrest
    exact ⟨version, ⟨source, Dict.mem_items.mp hsource, hstable⟩, rfl⟩
  · rintro ⟨version, ⟨source, hsource, hstable⟩, rfl⟩
    obtain ⟨⟨key, rest⟩, hmem, hentry⟩ :=
      Related.exists_mem_right (mapM_eq_ok.mp h) (Dict.mem_items.mpr hsource)
    obtain ⟨number, hnumber, hrest⟩ := candidate_eq_ok.mp hentry
    rw [hstable] at hnumber
    cases hnumber
    dsimp only at hrest
    rw [hrest] at hmem
    exact hmem

lemma lookup_migrateAssignments {entries : List (String × WithTop ℕ × String)} (key : String) :
    (((Dict.items (BestByKey.best entries)).filter fun entry => entry.2.2 ∉ oldDefaultFolders r).map
      fun entry => (entry.1, entry.2.2)).lookup key =
      ((BestByKey.best entries).lookup key).bind fun found => placement r found.2 := by
  have hvalues := Dict.lookup_mapValues (fun (_ : String) (found : WithTop ℕ × String) => found.2)
    ((Dict.items (BestByKey.best entries)).filter fun entry => entry.2.2 ∉ oldDefaultFolders r) key
  have hfilter := Dict.lookup_filter_of_nodup (Dict.nodup_keys (BestByKey.best entries))
    (fun found : WithTop ℕ × String => decide (found.2 ∉ oldDefaultFolders r)) key
  rw [Dict.mapValues, hfilter, Dict.lookup_items] at hvalues
  rw [hvalues]
  cases (BestByKey.best entries).lookup key with
  | none => rfl
  | some found =>
    obtain ⟨priority, folderId⟩ := found
    by_cases hold : folderId ∈ oldDefaultFolders r
    · simp [placement, hold]
    · simp [placement, hold]

/-- Where the assignments of a repository go: nowhere without a source, else where one of the deciding
assignments says. -/
theorem lookup_of_migrateAssignments (h : migrateAssignments numerals r assignments = .ok out) (itemId : String) :
    ((∀ folderId version, ¬Sources numerals r assignments itemId folderId version) ∧ out.lookup itemId = none) ∨
      ∃ folderId version, Decides numerals r assignments itemId folderId version ∧
        out.lookup itemId = placement r folderId := by
  obtain ⟨entries, hentries, hout⟩ := bind_eq_ok.mp h
  obtain rfl := pure_eq_ok.mp hout
  rw [lookup_migrateAssignments]
  cases hbest : (BestByKey.best entries).lookup itemId with
  | none =>
    refine Or.inl ⟨fun folderId version hsource => ?_, rfl⟩
    have hmem := (mem_candidates hentries).mpr ⟨version, hsource, rfl⟩
    exact BestByKey.lookup_best_eq_none.mp hbest _ hmem rfl
  | some found =>
    obtain ⟨priority, folderId⟩ := found
    obtain ⟨hmem, hhighest⟩ := BestByKey.lookup_best hbest
    obtain ⟨version, hsource, rfl⟩ := (mem_candidates hentries).mp hmem
    refine Or.inr ⟨folderId, version, ⟨hsource, fun other number hother => ?_⟩, rfl⟩
    exact hhighest _ ((mem_candidates hentries).mpr ⟨number, hother, rfl⟩) rfl

/-- An assignment that decides and comes first is the one that is taken. -/
theorem lookup_of_first {source : String} {rest : List (String × String)} {version : Option ℕ}
    (hstable : migratedStableItemId numerals r source = .ok (itemId, version))
    (hhighest : ∀ other number, Sources numerals r ((source, folderId) :: rest) itemId other number →
      rank number ≤ rank version)
    (h : migrateAssignments numerals r ((source, folderId) :: rest) = .ok out) :
    out.lookup itemId = placement r folderId := by
  obtain ⟨entries, hentries, hout⟩ := bind_eq_ok.mp h
  obtain rfl := pure_eq_ok.mp hout
  rw [lookup_migrateAssignments]
  have hcons := hentries
  rw [Dict.items, List.mapM_cons, bind_eq_ok] at hcons
  obtain ⟨first, hfirst, hcons⟩ := hcons
  obtain ⟨others, -, hcons⟩ := bind_eq_ok.mp hcons
  obtain rfl := pure_eq_ok.mp hcons
  obtain ⟨number, hnumber, hpair⟩ := candidate_eq_ok.mp hfirst
  rw [hstable] at hnumber
  obtain ⟨key, value⟩ := first
  cases hnumber
  dsimp only at hpair
  subst hpair
  rw [BestByKey.lookup_best_cons]
  · rfl
  · rintro ⟨key, priority, other⟩ hmem rfl
    obtain ⟨version', hsource, rfl⟩ := (mem_candidates hentries).mp (List.mem_cons_of_mem _ hmem)
    exact hhighest other version' hsource

end Assignments

section ItemIds

/-- The version of an item id, if it has one, is a number that `int` converts. -/
def Readable (numerals : Numerals) (r : Repository) (itemId : String) : Prop :=
  ∀ identity version, versionText numerals r itemId = some (identity, version) →
    (∀ c ∈ version, numerals.decimal c ≠ none) ∧ version.length ≤ maxStrDigits

lemma exists_mapM_decimal {text : List Char} :
    (∃ digits, text.mapM numerals.decimal = some digits) ↔ ∀ c ∈ text, numerals.decimal c ≠ none := by
  induction text with
  | nil => simp
  | cons c text ih =>
    rw [List.forall_mem_cons, ← ih]
    cases hc : numerals.decimal c with
    | none => simp [hc]
    | some digit =>
      cases hrest : text.mapM numerals.decimal with
      | none => simp [hc, hrest]
      | some digits => simp [hc, hrest]

lemma exists_parseInt {text : List Char} : (∃ number, parseInt numerals text = .ok number) ↔
    (∀ c ∈ text, numerals.decimal c ≠ none) ∧ text.length ≤ maxStrDigits := by
  rw [← exists_mapM_decimal]
  unfold parseInt
  cases text.mapM numerals.decimal with
  | none => simp
  | some digits =>
    by_cases hlong : maxStrDigits < text.length
    · simp [hlong]
    · simp [hlong, not_lt.mp hlong]

/-- `_migrated_stable_item_id` reads the readable ids. -/
lemma exists_migratedStableItemId : (∃ found, migratedStableItemId numerals r itemId = .ok found) ↔
    Readable numerals r itemId := by
  unfold migratedStableItemId Readable
  cases hversion : versionText numerals r itemId with
  | none => simp
  | some parts =>
    obtain ⟨identity, version⟩ := parts
    simp only [bind_eq_ok, pure_eq_ok, Option.some.injEq, Prod.mk.injEq]
    rw [exists_comm]
    simp only [exists_and_left, exists_eq', and_true, exists_parseInt]
    constructor
    · rintro h _ _ ⟨rfl, rfl⟩
      exact h
    · intro h
      exact h identity version ⟨rfl, rfl⟩

/-- The migration of a repository reads all of its assignments or raises. -/
lemma exists_migrateAssignments : (∃ out, migrateAssignments numerals r assignments = .ok out) ↔
    ∀ source folderId, assignments.lookup source = some folderId → Readable numerals r source := by
  have hcandidate : ∀ entry : String × String,
      (∃ found, candidate numerals r entry = .ok found) ↔ Readable numerals r entry.1 := by
    intro entry
    rw [← exists_migratedStableItemId]
    constructor
    · rintro ⟨found, hfound⟩
      obtain ⟨version, hstable, -⟩ := candidate_eq_ok.mp hfound
      exact ⟨_, hstable⟩
    · rintro ⟨⟨stableId, version⟩, hstable⟩
      exact ⟨(stableId, rank version, entry.2), candidate_eq_ok.mpr ⟨version, hstable, rfl⟩⟩
  unfold migrateAssignments
  simp only [bind_eq_ok, pure_eq_ok]
  rw [exists_comm]
  simp only [exists_and_left, exists_eq', and_true, exists_mapM_iff, hcandidate]
  exact forall_items

/-- The part before the first separator. -/
lemma head?_splitOn (text : List Char) : (text.splitOn '/').head? = some (text.takeWhile (· ≠ '/')) := by
  induction text with
  | nil => rfl
  | cons c text ih =>
    rw [List.splitOn, List.splitOnP_cons_eq_if_modifyHead]
    by_cases hc : c = '/'
    · simp [hc]
    · have hne : (c == '/') = false := by simpa using hc
      rw [List.splitOn] at ih
      rw [if_neg (by simp [hne]), List.takeWhile_cons_of_pos (by simpa using hc)]
      cases hsplit : List.splitOnP (· == '/') text with
      | nil =>
        rw [hsplit] at ih
        cases ih
      | cons first rest =>
        rw [hsplit] at ih
        obtain rfl := Option.some.inj ih
        rfl

/-- The migrated id of a module begins with the kind of the module. -/
lemma kindOf_migrated {source : String} {version : Option ℕ} (hr : r ∈ moduleRepositories)
    (h : migratedStableItemId numerals r source = .ok (itemId, version)) : kindOf itemId = kindOf source := by
  unfold migratedStableItemId at h
  cases hversion : versionText numerals r source with
  | none =>
    rw [hversion] at h
    cases h
    rfl
  | some parts =>
    obtain ⟨identity, text⟩ := parts
    rw [hversion] at h
    obtain ⟨number, -, hpair⟩ := bind_eq_ok.mp h
    have hid : identity = itemId := congrArg Prod.fst (pure_eq_ok.mp hpair)
    subst hid
    rw [versionText, if_pos hr] at hversion
    split at hversion
    · rename_i kind id version' hsplit
      split_ifs at hversion
      have hpartsEq := Prod.mk.inj (Option.some.inj hversion)
      have hkind := head?_splitOn source.toList
      rw [hsplit] at hkind
      have htake : kind = source.toList.takeWhile (· ≠ '/') := Option.some.inj hkind
      rw [← hpartsEq.1, kindOf, kindOf, String.toList_ofList]
      have hall : ∀ c ∈ kind, decide (c ≠ '/') = true := by
        intro c hc
        rw [htake] at hc
        exact @List.mem_takeWhile_imp _ (fun c => decide (c ≠ '/')) _ _ hc
      rw [List.takeWhile_append_of_pos hall, List.takeWhile_cons_of_neg (by simp), List.append_nil, ← htake]
    · cases hversion

/-- The migrated id of an item is not empty. -/
lemma migrated_ne_empty {source : String} {version : Option ℕ} (hsource : source ≠ "")
    (h : migratedStableItemId numerals r source = .ok (itemId, version)) : itemId ≠ "" := by
  unfold migratedStableItemId at h
  cases hversion : versionText numerals r source with
  | none =>
    rw [hversion] at h
    cases h
    exact hsource
  | some parts =>
    obtain ⟨identity, text⟩ := parts
    rw [hversion] at h
    obtain ⟨number, -, hpair⟩ := bind_eq_ok.mp h
    have hid : identity = itemId := congrArg Prod.fst (pure_eq_ok.mp hpair)
    subst hid
    unfold versionText at hversion
    intro hempty
    split_ifs at hversion
    · split at hversion
      · split_ifs at hversion
        have hchars := congrArg String.toList (Prod.mk.inj (Option.some.inj hversion)).1
        rw [hempty] at hchars
        simp at hchars
      · cases hversion
    · split at hversion
      · split_ifs at hversion with hidentity
        have hchars := congrArg String.toList (Prod.mk.inj (Option.some.inj hversion)).1
        rw [hempty] at hchars
        exact hidentity.1 (by simpa using hchars)
      · cases hversion

end ItemIds

section Layout

/-- All folders of a repository in version 8. -/
def withOldFixed (r : Repository) (folders : FolderMap) : FolderMap :=
  Dict.update (if r ∈ flatModuleRepositories then kindFolders (flatKind r) else fixedFolders r) folders

/-- A flat module repository is in place in the layout of version 8: the kind folder and its BuiltIn child are not
stored, the user folders form a forest below them or the root, and items are in existing folders. -/
structure OldPlaced (unicode : Unicode) (r : Repository) (folders : FolderMap)
    (assignments : List (String × String)) : Prop where
  apart : ∀ id ∈ oldDefaultFolders r, folders.lookup id = none
  forest : Forest (withOldFixed r folders)
  siblings : ∀ a b folder other, (withOldFixed r folders).lookup a = some folder →
    (withOldFixed r folders).lookup b = some other → siblingKey unicode folder = siblingKey unicode other → a = b
  assigned : ∀ itemId folderId, assignments.lookup itemId = some folderId →
    itemId ≠ "" ∧ kindOf itemId ∈ moduleKinds r ∧ IsFolder (withOldFixed r folders) folderId

variable {a b : String} {folder other : Folder}

lemma lookup_withOldFixed (hflat : r ∈ flatModuleRepositories) (k : String) :
    (withOldFixed r folders).lookup k = (folders.lookup k).or ((kindFolders (flatKind r)).lookup k) := by
  rw [withOldFixed, if_pos hflat]
  exact Dict.lookup_update _ _ _

lemma mem_oldDefaultFolders (hflat : r ∈ flatModuleRepositories) {id : String} :
    id ∈ oldDefaultFolders r ↔ id = fixedFolderId (flatKind r) ∨ id = builtinFolderId (flatKind r) := by
  simp [oldDefaultFolders, hflat]

/-- The old fixed folders are the ones of the kind. -/
lemma lookup_kindFolders (hflat : r ∈ flatModuleRepositories) {k : String} :
    (kindFolders (flatKind r)).lookup k ≠ none ↔ k ∈ oldDefaultFolders r := by
  rw [mem_oldDefaultFolders hflat, kindFolders, Dict.lookup_cons, Dict.lookup_cons]
  split_ifs with hroot hbuiltin
  · simp [hroot]
  · simp [hbuiltin]
  · simp [hroot, hbuiltin]

lemma lookup_migrateFolders (k : String) :
    (migrateFolders r folders).lookup k = (folders.lookup k).map (migrateFolder r) :=
  Dict.lookup_mapValues _ _ _

lemma isFolder_migrateFolders {k : String} : IsFolder (migrateFolders r folders) k ↔ IsFolder folders k := by
  rw [IsFolder, IsFolder, lookup_migrateFolders]
  simp

lemma migrateFolder_name (r : Repository) (folder : Folder) : (migrateFolder r folder).name = folder.name := by
  unfold migrateFolder
  split_ifs <;> rfl

/-- The parent of a user folder after the migration: a removed parent is no parent. -/
lemma parent_migrateFolder : (migrateFolder r folder).parent = some b ↔
    folder.parent = some b ∧ b ∉ oldDefaultFolders r := by
  rw [Folder.parent_eq_some, Folder.parent_eq_some]
  unfold migrateFolder
  split_ifs with hold
  · constructor
    · rintro ⟨hne, hb⟩
      exact absurd hb.symm hne
    · rintro ⟨⟨-, rfl⟩, hnot⟩
      exact absurd hold hnot
  · constructor
    · rintro ⟨hne, rfl⟩
      exact ⟨⟨hne, rfl⟩, hold⟩
    · exact fun h => h.1

lemma parentOf_old (hflat : r ∈ flatModuleRepositories) (ha : folders.lookup a = some folder) :
    parentOf (withOldFixed r folders) a = folder.parent := by
  rw [parentOf, lookup_withOldFixed hflat, ha]
  rfl

lemma parentOf_new (ha : folders.lookup a = some folder) :
    parentOf (withFixed r (migrateFolders r folders)) a = (migrateFolder r folder).parent := by
  rw [parentOf, lookup_withFixed, lookup_migrateFolders, ha]
  rfl

/-- The removed folders are above no user folder that is above them. -/
lemma OldPlaced.below_removed (h : OldPlaced unicode r folders assignments) (hflat : r ∈ flatModuleRepositories)
    (ha : a ∈ oldDefaultFolders r) (hbelow : Below (parentOf (withOldFixed r folders)) a b) :
    b ∈ oldDefaultFolders r := by
  induction hbelow with
  | refl => exact ha
  | @tail c d _ hstep ih =>
    have hup : ∀ kind, (kindFolders kind).lookup c = none ∨ ∃ folder, (kindFolders kind).lookup c = some folder ∧
        (folder.parentId = "" ∨ folder.parentId = fixedFolderId kind) := by
      intro kind
      rw [kindFolders, Dict.lookup_cons, Dict.lookup_cons]
      split_ifs
      · exact Or.inr ⟨_, rfl, Or.inl rfl⟩
      · exact Or.inr ⟨_, rfl, Or.inr rfl⟩
      · exact Or.inl rfl
    rw [parentOf, lookup_withOldFixed hflat, h.apart c ih, Option.none_or] at hstep
    obtain ⟨folder, hfolder, hparent⟩ := Option.bind_eq_some_iff.mp hstep
    obtain ⟨hne, rfl⟩ := Folder.parent_eq_some.mp hparent
    rcases hup (flatKind r) with hnone | ⟨found, hfound, hroot⟩
    · rw [hnone] at hfolder
      cases hfolder
    · obtain rfl := Option.some.inj (hfound.symm.trans hfolder)
      rw [mem_oldDefaultFolders hflat]
      exact Or.inl (hroot.resolve_left hne)

/-- Above a user folder that stays above it there are user folders only. -/
lemma OldPlaced.up (h : OldPlaced unicode r folders assignments) (hflat : r ∈ flatModuleRepositories)
    (ha : folders.lookup a = some folder) (hup : parentOf (withOldFixed r folders) a = some b) :
    b ∈ oldDefaultFolders r ∨
      IsFolder folders b ∧ parentOf (withFixed r (migrateFolders r folders)) a = some b := by
  by_cases hb : b ∈ oldDefaultFolders r
  · exact Or.inl hb
  · refine Or.inr ⟨?_, ?_⟩
    · have hknown := ((h.forest a (isFolder_of_parentOf hup)).up hup).isKnown
      rw [IsFolder, lookup_withOldFixed hflat] at hknown
      intro hnone
      rw [hnone, Option.none_or, lookup_kindFolders hflat] at hknown
      exact hb hknown
    · rw [parentOf_new ha, parent_migrateFolder]
      rw [parentOf_old hflat ha] at hup
      exact ⟨hup, hb⟩

/-- A parent after the migration is a user folder and was the parent before. -/
lemma OldPlaced.up_new (h : OldPlaced unicode r folders assignments) (hflat : r ∈ flatModuleRepositories)
    (ha : folders.lookup a = some folder)
    (hup : parentOf (withFixed r (migrateFolders r folders)) a = some b) :
    IsFolder folders b ∧ parentOf (withOldFixed r folders) a = some b := by
  rw [parentOf_new ha, parent_migrateFolder] at hup
  have hold : parentOf (withOldFixed r folders) a = some b := (parentOf_old hflat ha).trans hup.1
  exact ⟨((h.up hflat ha hold).resolve_left hup.2).1, hold⟩

/-- A user folder keeps its user-folder ancestors and gets no others. -/
theorem OldPlaced.below_iff (h : OldPlaced unicode r folders assignments) (hflat : r ∈ flatModuleRepositories)
    (ha : IsFolder folders a) :
    Below (parentOf (withFixed r (migrateFolders r folders))) a b ↔
      Below (parentOf (withOldFixed r folders)) a b ∧ IsFolder folders b := by
  constructor
  · intro hbelow
    induction hbelow with
    | refl => exact ⟨Below.refl a, ha⟩
    | tail _ hstep ih =>
      obtain ⟨folder, hfolder⟩ := isFolder_iff.mp ih.2
      obtain ⟨huser, hold⟩ := h.up_new hflat hfolder hstep
      exact ⟨ih.1.trans (below_of_parent hold), huser⟩
  · rintro ⟨hbelow, hb⟩
    induction hbelow using Relation.ReflTransGen.head_induction_on with
    | refl => exact Below.refl b
    | @head a c hstep hcb ih =>
      obtain ⟨folder, hfolder⟩ := isFolder_iff.mp ha
      rcases h.up hflat hfolder hstep with hremoved | ⟨huser, hnew⟩
      · exact absurd (h.apart b (h.below_removed hflat hremoved hcb)) hb
      · exact (below_of_parent hnew).trans (ih huser)

lemma OldPlaced.forest_new (h : OldPlaced unicode r folders assignments) (hflat : r ∈ flatModuleRepositories) :
    Forest (withFixed r (migrateFolders r folders)) := by
  have hrooted : ∀ a, Rooted (parentOf (withOldFixed r folders)) (IsFolder (withOldFixed r folders)) a →
      IsFolder folders a → Rooted (parentOf (withFixed r (migrateFolders r folders)))
        (IsFolder (withFixed r (migrateFolders r folders))) a := by
    intro a hold
    induction hold with
    | intro a _ _ ih =>
      intro ha
      obtain ⟨folder, hfolder⟩ := isFolder_iff.mp ha
      apply Rooted.intro a ((isFolder_migrateFolders.mpr ha).withFixed r)
      intro b hb
      obtain ⟨huser, hup⟩ := h.up_new hflat hfolder hb
      exact ih b hup huser
  intro k hk
  by_cases huser : IsFolder folders k
  · apply hrooted k (h.forest k _) huser
    obtain ⟨folder, hfolder⟩ := isFolder_iff.mp huser
    exact isFolder_iff.mpr ⟨folder, by rw [lookup_withOldFixed hflat, hfolder]; rfl⟩
  · apply Rooted.intro k hk
    intro b hb
    -- what is left is the new BuiltIn folder, at the root
    have hnone : (migrateFolders r folders).lookup k = none :=
      not_not.mp fun hfound => huser (isFolder_migrateFolders.mp hfound)
    rw [parentOf, lookup_withFixed, hnone, Option.none_or] at hb
    obtain ⟨folder, hfolder, hparent⟩ := Option.bind_eq_some_iff.mp hb
    have hfixed : ∀ entry ∈ fixedFolders r, entry.2.parentId = "" := by
      simp only [flatModuleRepositories, List.mem_cons, List.not_mem_nil, or_false] at hflat
      rcases hflat with rfl | rfl <;> with_unfolding_all decide
    exact absurd (hfixed _ (Dict.lookup_mem hfolder)) (by
      obtain ⟨hne, hsame⟩ := Folder.parent_eq_some.mp hparent
      rw [hsame]
      exact hne)

/-- The folder is at the root after the migration. -/
def AtRoot (r : Repository) (folder : Folder) : Prop :=
  folder.parentId = "" ∨ folder.parentId ∈ oldDefaultFolders r

/-- The user folders that meet at the root have different names, none of them is called BuiltIn, and none has
the id of the new BuiltIn folder. -/
structure RootNamesFree (unicode : Unicode) (r : Repository) (folders : FolderMap) : Prop where
  builtin : folders.lookup (repositoryBuiltinFolderId r) = none
  free : ∀ a folder, folders.lookup a = some folder → AtRoot r folder →
    unicode.casefold folder.name ≠ unicode.casefold "BuiltIn"
  distinct : ∀ a b folder other, folders.lookup a = some folder → folders.lookup b = some other →
    AtRoot r folder → AtRoot r other → unicode.casefold folder.name = unicode.casefold other.name → a = b

lemma atRoot_iff : AtRoot r folder ↔ (migrateFolder r folder).parentId = "" := by
  unfold AtRoot migrateFolder
  split_ifs with hold
  · simp [hold]
  · simp [hold]

lemma migrateFolder_of_not_atRoot (h : ¬AtRoot r folder) : migrateFolder r folder = folder := by
  rw [migrateFolder, if_neg fun hold => h (Or.inr hold)]

/-- The folders of a flat module repository: the migrated user folders and the new BuiltIn folder. -/
lemma lookup_new (hflat : r ∈ flatModuleRepositories) (k : String) : (withFixed r (migrateFolders r folders)).lookup k =
    ((folders.lookup k).map (migrateFolder r)).or
      (if k = repositoryBuiltinFolderId r then some ⟨repositoryBuiltinFolderId r, "BuiltIn", "", true⟩
      else none) := by
  have hmodules : r ≠ .modules := by
    rintro rfl
    revert hflat
    decide
  rw [lookup_withFixed, lookup_migrateFolders, fixedFolders, if_neg hmodules, if_pos hflat, Dict.lookup_cons]
  rfl

/-- The migrated folders of a flat module repository are in place when the names at the root are free. -/
theorem OldPlaced.placed_iff (h : OldPlaced unicode r folders assignments) (hflat : r ∈ flatModuleRepositories)
    (hout : ∀ itemId folderId, out.lookup itemId = some folderId →
      itemId ≠ "" ∧ kindOf itemId ∈ moduleKinds r ∧ folderId ≠ "" ∧ IsFolder folders folderId) :
    Placed unicode fixedIds r (migrateFolders r folders) out ↔ RootNamesFree unicode r folders := by
  have hmodules : r ≠ .modules := by
    rintro rfl
    revert hflat
    decide
  constructor
  · intro hplaced
    have hbuiltin : folders.lookup (repositoryBuiltinFolderId r) = none := by
      by_contra hfound
      exact hplaced.outside hflat _ (isFolder_migrateFolders.mpr hfound) (Below.refl _)
    have hsibling : ∀ a folder, folders.lookup a = some folder → AtRoot r folder → ∀ b other,
        (withFixed r (migrateFolders r folders)).lookup b = some other → other.parentId = "" →
        unicode.casefold folder.name = unicode.casefold other.name → a = b := by
      intro a folder ha hroot b other hb hparent hname
      have hnew : (withFixed r (migrateFolders r folders)).lookup a = some (migrateFolder r folder) := by
        rw [lookup_new hflat, ha]
        rfl
      apply hplaced.siblings a b _ other hnew hb
      rw [siblingKey, siblingKey, migrateFolder_name, atRoot_iff.mp hroot, hparent, hname]
    refine ⟨hbuiltin, ?_, ?_⟩
    · intro a folder ha hroot hname
      have hsame := hsibling a folder ha hroot _ ⟨repositoryBuiltinFolderId r, "BuiltIn", "", true⟩
        (by rw [lookup_new hflat, hbuiltin, if_pos rfl]; rfl) rfl hname
      rw [hsame, hbuiltin] at ha
      cases ha
    · intro a b folder other ha hb hroot hother hname
      apply hsibling a folder ha hroot b (migrateFolder r other)
      · rw [lookup_new hflat, hb]
        rfl
      · exact atRoot_iff.mp hother
      · rw [migrateFolder_name, hname]
  · intro hfree
    -- a folder is a user folder or the BuiltIn folder
    have hcases : ∀ a folder, (withFixed r (migrateFolders r folders)).lookup a = some folder →
        (∃ stored, folders.lookup a = some stored ∧ folder = migrateFolder r stored) ∨
          a = repositoryBuiltinFolderId r ∧ folder = ⟨repositoryBuiltinFolderId r, "BuiltIn", "", true⟩ := by
      intro a folder ha
      rw [lookup_new hflat] at ha
      cases hstored : folders.lookup a with
      | some stored =>
        rw [hstored] at ha
        exact Or.inl ⟨stored, rfl, (Option.some.inj ha).symm⟩
      | none =>
        rw [hstored] at ha
        dsimp only [Option.map_none, Option.none_or] at ha
        split_ifs at ha with hsame
        exact Or.inr ⟨hsame, (Option.some.inj ha).symm⟩
    have hnotBuiltin : ∀ a, IsFolder folders a →
        ¬Below (parentOf (withFixed r (migrateFolders r folders))) a (repositoryBuiltinFolderId r) :=
      fun a ha hbelow => ((h.below_iff hflat ha).mp hbelow).2 hfree.builtin
    have hclash : ∀ stored a, folders.lookup a = some stored →
        siblingKey unicode (migrateFolder r stored) ≠ ("", unicode.casefold "BuiltIn") := by
      intro stored a ha hkey
      obtain ⟨hparent, hname⟩ := Prod.mk.inj hkey
      rw [migrateFolder_name] at hname
      exact hfree.free a stored ha (atRoot_iff.mpr hparent) hname
    refine ⟨h.forest_new hflat, ?_, fun hmod => absurd hmod hmodules, ?_, ?_⟩
    · intro a b folder other ha hb hkey
      rcases hcases a folder ha with ⟨one, hone, rfl⟩ | ⟨rfl, rfl⟩
      · rcases hcases b other hb with ⟨two, htwo, rfl⟩ | ⟨rfl, rfl⟩
        · obtain ⟨hparent, hname⟩ := Prod.mk.inj hkey
          rw [migrateFolder_name, migrateFolder_name] at hname
          by_cases hroot : AtRoot r one
          · have hother : AtRoot r two := atRoot_iff.mpr (hparent ▸ atRoot_iff.mp hroot)
            exact hfree.distinct a b one two hone htwo hroot hother hname
          · have hother : ¬AtRoot r two := fun htwo => hroot (atRoot_iff.mpr (hparent ▸ atRoot_iff.mp htwo))
            rw [migrateFolder_of_not_atRoot hroot, migrateFolder_of_not_atRoot hother] at hkey
            apply h.siblings a b one two _ _ hkey
            · rw [lookup_withOldFixed hflat, hone]
              rfl
            · rw [lookup_withOldFixed hflat, htwo]
              rfl
        · exact absurd hkey (hclash one a hone)
      · rcases hcases b other hb with ⟨two, htwo, rfl⟩ | ⟨rfl, rfl⟩
        · exact absurd hkey.symm (hclash two b htwo)
        · rfl
    · exact fun _ k hk => hnotBuiltin k (isFolder_migrateFolders.mp hk)
    · intro itemId folderId hitem
      obtain ⟨hnamed, hkind, hne, hfolder⟩ := hout itemId folderId hitem
      exact ⟨hnamed, Or.inr ((isFolder_migrateFolders.mpr hfolder).withFixed r), fun _ => ⟨hkind, hne⟩,
        fun hmod => absurd hmod hmodules, fun _ => hnotBuiltin folderId hfolder⟩

end Layout

section Whole

variable {payload state : State}

/-- A state of version 8 in its layout: the flat module repositories have their old fixed folders, the others are in
place as they are now. -/
structure ValidV8 (unicode : Unicode) (payload : State) : Prop where
  version : payload.schemaVersion = 8
  normal : ∀ r folderId folder, (payload.folders r).lookup folderId = some folder → Normal folderId folder
  flat : ∀ r ∈ flatModuleRepositories, OldPlaced unicode r (payload.folders r) (payload.assignments r)
  others : ∀ r ∉ flatModuleRepositories, Placed unicode fixedIds r (payload.folders r) (payload.assignments r)

/-- The migration can keep every placement: versions are numbers, names at the root are free, and the deciding
assignments of an item agree. -/
structure Convertible (unicode : Unicode) (numerals : Numerals) (payload : State) : Prop where
  readable : ∀ r source folderId, (payload.assignments r).lookup source = some folderId → Readable numerals r source
  names : ∀ r ∈ flatModuleRepositories, RootNamesFree unicode r (payload.folders r)
  agree : ∀ r itemId folderId other version number,
    Decides numerals r (payload.assignments r) itemId folderId version →
    Decides numerals r (payload.assignments r) itemId other number → placement r folderId = placement r other

/-- What a migrated state keeps of the payload. -/
structure Keeps (unicode : Unicode) (numerals : Numerals) (payload state : State) : Prop where
  valid : ∃ checked, validateState unicode state = .ok checked
  names : ∀ r folderId folder, (payload.folders r).lookup folderId = some folder →
    ∃ kept, (state.folders r).lookup folderId = some kept ∧ kept.name = folder.name
  ancestors : ∀ r folderId ancestorId, IsFolder (payload.folders r) folderId →
    IsFolder (payload.folders r) ancestorId →
    (Below (parentOf (withFixed r (state.folders r))) folderId ancestorId ↔
      Below (parentOf (withOldFixed r (payload.folders r))) folderId ancestorId)
  items : ∀ r itemId, (∃ folderId version, Sources numerals r (payload.assignments r) itemId folderId version) →
    ∃ folderId version, Decides numerals r (payload.assignments r) itemId folderId version ∧
      (state.assignments r).lookup itemId = placement r folderId
  others : ∀ r itemId, (∀ folderId version, ¬Sources numerals r (payload.assignments r) itemId folderId version) →
    (state.assignments r).lookup itemId = none

/-- The same state with its assignments in another order. -/
structure Reordered (payload other : State) : Prop where
  version : other.schemaVersion = payload.schemaVersion
  folders : other.folders = payload.folders
  assignments : ∀ r source, (other.assignments r).lookup source = (payload.assignments r).lookup source

/-- Two states that hold the same folders and assignments. -/
structure SameContents (state other : State) : Prop where
  folders : ∀ r folderId, (other.folders r).lookup folderId = (state.folders r).lookup folderId
  assignments : ∀ r itemId, (other.assignments r).lookup itemId = (state.assignments r).lookup itemId

lemma migrateFolders_of_not_flat (h : r ∉ flatModuleRepositories) (folders : FolderMap) :
    migrateFolders r folders = folders := by
  have hsame : ∀ folder, migrateFolder r folder = folder := by
    intro folder
    rw [migrateFolder, oldDefaultFolders, if_neg h, if_neg List.not_mem_nil]
  rw [migrateFolders, Dict.mapValues]
  conv_rhs => rw [← List.map_id folders]
  exact List.map_congr_left fun entry _ => by rw [hsame]; rfl

lemma withOldFixed_of_not_flat (h : r ∉ flatModuleRepositories) (folders : FolderMap) :
    withOldFixed r folders = withFixed r folders := by
  rw [withOldFixed, withFixed, if_neg h]

lemma migrateState_eq_ok : migrateState unicode numerals payload = .ok state ↔ payload.schemaVersion = 8 ∧
    ∃ assignments, (∀ r, migrateAssignments numerals r (payload.assignments r) = .ok (assignments r)) ∧
      validateState unicode (payload.migrated assignments) = .ok state := by
  rw [migrateState, seq_eq_ok, raiseIf_eq_ok, not_ne_iff, bind_eq_ok]
  simp only [Raising.foldlM_update nodup_repositories, mem_repositories, if_true]

lemma normal_migrated (h : ValidV8 unicode payload) {folder : Folder}
    (hfolder : (migrateFolders r (payload.folders r)).lookup folderId = some folder) : Normal folderId folder := by
  rw [lookup_migrateFolders] at hfolder
  obtain ⟨stored, hstored, rfl⟩ := Option.map_eq_some_iff.mp hfolder
  have hnormal := h.normal r folderId stored hstored
  have hrest : (migrateFolder r stored).folderId = stored.folderId ∧ (migrateFolder r stored).fixed = stored.fixed := by
    unfold migrateFolder
    split_ifs
    · exact ⟨rfl, rfl⟩
    · exact ⟨rfl, rfl⟩
  refine ⟨hnormal.identified, hrest.1.trans hnormal.same, hrest.2.trans hnormal.mutable, ?_⟩
  rw [migrateFolder_name]
  exact hnormal.named

/-- A migrated assignment was made for the item, to a folder that is still there. -/
lemma source_of_lookup (h : migrateAssignments numerals r assignments = .ok out)
    (hitem : out.lookup itemId = some folderId) :
    folderId ∉ oldDefaultFolders r ∧ ∃ version, Decides numerals r assignments itemId folderId version := by
  rcases lookup_of_migrateAssignments h itemId with ⟨-, hnone⟩ | ⟨found, version, hdecides, hplaced⟩
  · rw [hnone] at hitem
    cases hitem
  · rw [hplaced, placement] at hitem
    split_ifs at hitem with hold
    obtain rfl := Option.some.inj hitem
    exact ⟨hold, version, hdecides⟩

/-- Outside the flat module repositories a migrated repository stays in place. -/
lemma placed_of_others (hplaced : Placed unicode fixedIds r folders assignments)
    (hout : migrateAssignments numerals r assignments = .ok out) : Placed unicode fixedIds r folders out := by
  refine ⟨hplaced.forest, hplaced.siblings, hplaced.inTree, hplaced.outside, fun itemId folderId hitem => ?_⟩
  obtain ⟨-, version, ⟨source, hsource, hstable⟩, -⟩ := source_of_lookup hout hitem
  have hold := hplaced.assigned source folderId hsource
  have hkind : r ∈ moduleRepositories → kindOf itemId = kindOf source := fun hr => kindOf_migrated hr hstable
  refine ⟨migrated_ne_empty hold.named hstable, hold.folder, fun hr => ?_, ?_, hold.outside⟩
  · rw [hkind hr]
    exact hold.kind hr
  · intro hmodules
    rw [hkind (mem_moduleRepositories.mpr (Or.inl hmodules))]
    exact hold.inTree hmodules

/-- The migrated state is in place when the names at the root are free. -/
lemma inPlace_migrated (h : ValidV8 unicode payload) {migrated : Repository → List (String × String)}
    (hout : ∀ r, migrateAssignments numerals r (payload.assignments r) = .ok (migrated r)) :
    InPlace unicode fixedIds (payload.migrated migrated) ↔
      ∀ r ∈ flatModuleRepositories, RootNamesFree unicode r (payload.folders r) := by
  have hflat : ∀ r ∈ flatModuleRepositories,
      (Placed unicode fixedIds r (migrateFolders r (payload.folders r)) (migrated r) ↔
        RootNamesFree unicode r (payload.folders r)) := by
    intro r hr
    apply (h.flat r hr).placed_iff hr
    intro itemId folderId hitem
    obtain ⟨hold, version, ⟨source, hsource, hstable⟩, -⟩ := source_of_lookup (hout r) hitem
    obtain ⟨hnamed, hkind, hfolder⟩ := (h.flat r hr).assigned source folderId hsource
    have huser : IsFolder (payload.folders r) folderId := by
      intro hnone
      rw [IsFolder, lookup_withOldFixed hr, hnone, Option.none_or, lookup_kindFolders hr] at hfolder
      exact hold hfolder
    obtain ⟨folder, hstored⟩ := isFolder_iff.mp huser
    refine ⟨migrated_ne_empty hnamed hstable, ?_, (h.normal r folderId folder hstored).identified, huser⟩
    rw [kindOf_migrated (mem_moduleRepositories.mpr (Or.inr hr)) hstable]
    exact hkind
  constructor
  · exact fun hplaced r hr => (hflat r hr).mp (hplaced.placed r)
  · intro hnames
    refine ⟨rfl, fun r folderId folder hfolder => normal_migrated h hfolder, fun r => ?_⟩
    by_cases hr : r ∈ flatModuleRepositories
    · exact (hflat r hr).mpr (hnames r hr)
    · have hplaced := placed_of_others (h.others r hr) (hout r)
      dsimp only [State.migrated]
      rwa [migrateFolders_of_not_flat hr]

/-- When and with what the migration ends. -/
theorem migrateState_iff (h : ValidV8 unicode payload) : migrateState unicode numerals payload = .ok state ↔
    (∀ r ∈ flatModuleRepositories, RootNamesFree unicode r (payload.folders r)) ∧
      ∃ migrated, (∀ r, migrateAssignments numerals r (payload.assignments r) = .ok (migrated r)) ∧
        state = (payload.migrated migrated).written := by
  rw [migrateState_eq_ok]
  constructor
  · rintro ⟨-, migrated, hout, hvalid⟩
    have hinPlace : InPlace unicode fixedIds (payload.migrated migrated) := by
      obtain ⟨-, -, hall⟩ := validateState_eq_ok.mp hvalid
      refine ⟨rfl, fun r folderId folder hfolder => normal_migrated h hfolder, fun r => ?_⟩
      obtain ⟨hchecked, hplaced⟩ := validateRepository_eq_ok.mp (hall r).1
      have hnormal := @mapM_checkFolder r ((payload.migrated migrated).folders r)
        fun folderId folder hfolder => normal_migrated h hfolder
      have hsame := Except.ok.inj (hnormal.symm.trans hchecked)
      rw [← hsame] at hplaced
      exact placed_items_folders.mp hplaced
    refine ⟨(inPlace_migrated h hout).mp hinPlace, migrated, hout, ?_⟩
    exact Except.ok.inj (hvalid.symm.trans hinPlace.validate)
  · rintro ⟨hnames, migrated, hout, rfl⟩
    exact ⟨h.version, migrated, hout, ((inPlace_migrated h hout).mpr hnames).validate⟩

section Orders

variable {others : List (String × String)} {version : Option ℕ}

lemma sources_congr (h : ∀ source, others.lookup source = assignments.lookup source) :
    Sources numerals r others itemId folderId version ↔ Sources numerals r assignments itemId folderId version := by
  simp only [Sources, h]

lemma decides_congr (h : ∀ source, others.lookup source = assignments.lookup source) :
    Decides numerals r others itemId folderId version ↔ Decides numerals r assignments itemId folderId version := by
  constructor
  · intro hdecides
    refine ⟨(sources_congr h).mp hdecides.source, fun other number hother => ?_⟩
    exact hdecides.highest other number ((sources_congr h).mpr hother)
  · intro hdecides
    refine ⟨(sources_congr h).mpr hdecides.source, fun other number hother => ?_⟩
    exact hdecides.highest other number ((sources_congr h).mp hother)

/-- An order of the assignments in which a deciding one comes first. -/
lemma exists_first (h : Decides numerals r assignments itemId folderId version) :
    ∃ others, (∀ source, others.lookup source = assignments.lookup source) ∧
      ∀ out, migrateAssignments numerals r others = .ok out → out.lookup itemId = placement r folderId := by
  obtain ⟨source, hsource, hstable⟩ := h.source
  have hsame : ∀ key, ((source, folderId) :: assignments).lookup key = assignments.lookup key := by
    intro key
    rw [Dict.lookup_cons]
    split_ifs with hkey
    · rw [hkey, hsource]
    · rfl
  refine ⟨(source, folderId) :: assignments, hsame, fun out hout => lookup_of_first hstable ?_ hout⟩
  exact fun other number hother => h.highest other number ((sources_congr hsame).mp hother)

end Orders

lemma ValidV8.reordered {other : State} (h : ValidV8 unicode payload) (hother : Reordered payload other) :
    ValidV8 unicode other := by
  refine ⟨hother.version.trans h.version, ?_, fun r hr => ?_, fun r hr => ?_⟩
  · rw [hother.folders]
    exact h.normal
  · rw [hother.folders]
    have hold := h.flat r hr
    refine ⟨hold.apart, hold.forest, hold.siblings, fun itemId folderId hitem => ?_⟩
    exact hold.assigned itemId folderId ((hother.assignments r itemId).symm.trans hitem)
  · rw [hother.folders]
    have hold := h.others r hr
    refine ⟨hold.forest, hold.siblings, hold.inTree, hold.outside, fun itemId folderId hitem => ?_⟩
    exact hold.assigned itemId folderId ((hother.assignments r itemId).symm.trans hitem)

lemma Convertible.reordered {other : State} (h : Convertible unicode numerals payload)
    (hother : Reordered payload other) : Convertible unicode numerals other := by
  refine ⟨fun r source folderId hsource => ?_, ?_, fun r itemId folderId g version number hf hg => ?_⟩
  · exact h.readable r source folderId ((hother.assignments r source).symm.trans hsource)
  · rw [hother.folders]
    exact h.names
  · rw [decides_congr (hother.assignments r)] at hf hg
    exact h.agree r itemId folderId g version number hf hg

/-- A migration that ends keeps the names, the ancestors and the placements. -/
lemma keeps_of_migrated (h : ValidV8 unicode payload)
    (hnames : ∀ r ∈ flatModuleRepositories, RootNamesFree unicode r (payload.folders r))
    {migrated : Repository → List (String × String)}
    (hout : ∀ r, migrateAssignments numerals r (payload.assignments r) = .ok (migrated r)) :
    Keeps unicode numerals payload (payload.migrated migrated).written := by
  have hall : ∀ r, withFixed r ((payload.migrated migrated).written.folders r) =
      withFixed r (migrateFolders r (payload.folders r)) := fun r => withFixed_items r _
  have hlookup : ∀ r itemId, ((payload.migrated migrated).written.assignments r).lookup itemId =
      (migrated r).lookup itemId := fun r itemId => Dict.lookup_items _ _
  refine ⟨⟨_, ((inPlace_migrated h hout).mpr hnames).written.validate⟩, ?_, ?_, ?_, ?_⟩
  · intro r folderId folder hfolder
    refine ⟨migrateFolder r folder, ?_, migrateFolder_name r folder⟩
    dsimp only [State.written, State.migrated]
    rw [Dict.lookup_items, lookup_migrateFolders, hfolder]
    rfl
  · intro r folderId ancestorId hfolder hancestor
    rw [hall]
    by_cases hr : r ∈ flatModuleRepositories
    · rw [(h.flat r hr).below_iff hr hfolder]
      exact and_iff_left hancestor
    · rw [migrateFolders_of_not_flat hr, withOldFixed_of_not_flat hr]
  · rintro r itemId ⟨folderId, version, hsource⟩
    rw [hlookup]
    rcases lookup_of_migrateAssignments (hout r) itemId with ⟨hnone, -⟩ | hfound
    · exact absurd hsource (hnone folderId version)
    · exact hfound
  · intro r itemId hnone
    rw [hlookup]
    rcases lookup_of_migrateAssignments (hout r) itemId with ⟨-, hlost⟩ | ⟨folderId, version, hdecides, -⟩
    · exact hlost
    · exact absurd hdecides.source (hnone folderId version)

/-- Migrations of two orders of the assignments agree where the deciding assignments do. -/
lemma sameContents_of_agree {other : State} (hother : Reordered payload other)
    (hagree : ∀ r itemId folderId g version number,
      Decides numerals r (payload.assignments r) itemId folderId version →
      Decides numerals r (payload.assignments r) itemId g number → placement r folderId = placement r g)
    {one two : Repository → List (String × String)}
    (hone : ∀ r, migrateAssignments numerals r (payload.assignments r) = .ok (one r))
    (htwo : ∀ r, migrateAssignments numerals r (other.assignments r) = .ok (two r)) :
    SameContents (payload.migrated one).written (other.migrated two).written := by
  constructor
  · intro r folderId
    dsimp only [State.written, State.migrated]
    rw [hother.folders]
  · intro r itemId
    dsimp only [State.written, State.migrated]
    rw [Dict.lookup_items, Dict.lookup_items]
    have hsources := fun folderId version => @sources_congr numerals r (payload.assignments r) itemId folderId
      (other.assignments r) version (hother.assignments r)
    rcases lookup_of_migrateAssignments (hone r) itemId with ⟨hnone, hlost⟩ | ⟨f, version, hf, hplacedF⟩
    · rcases lookup_of_migrateAssignments (htwo r) itemId with ⟨-, hlost'⟩ | ⟨g, number, hg, -⟩
      · rw [hlost, hlost']
      · exact absurd ((hsources g number).mp hg.source) (hnone g number)
    · rcases lookup_of_migrateAssignments (htwo r) itemId with ⟨hnone, -⟩ | ⟨g, number, hg, hplacedG⟩
      · exact absurd ((hsources f version).mpr hf.source) (hnone f version)
      · rw [hplacedF, hplacedG]
        exact (hagree r itemId f g version number hf ((decides_congr (hother.assignments r)).mp hg)).symm

/-- The migration of a valid state keeps every placement, in any order of the assignments, exactly when the state is
convertible. -/
theorem migrateState_keeps_iff (h : ValidV8 unicode payload) :
    (∃ state, migrateState unicode numerals payload = .ok state ∧ Keeps unicode numerals payload state ∧
      ∀ other, Reordered payload other →
        ∃ state', migrateState unicode numerals other = .ok state' ∧ SameContents state state') ↔
      Convertible unicode numerals payload := by
  constructor
  · rintro ⟨state, hstate, -, horders⟩
    obtain ⟨hnames, migrated, hout, rfl⟩ := (migrateState_iff h).mp hstate
    refine ⟨fun r => exists_migrateAssignments.mp ⟨_, hout r⟩, hnames, ?_⟩
    -- with one deciding assignment or the other first, the migration ends with either placement
    have hplaced : ∀ r itemId folderId version,
        Decides numerals r (payload.assignments r) itemId folderId version →
        ((payload.migrated migrated).written.assignments r).lookup itemId = placement r folderId := by
      intro r itemId folderId version hdecides
      obtain ⟨others, hsame, hfirst⟩ := exists_first hdecides
      have hother : Reordered payload
          { payload with assignments := Function.update payload.assignments r others } := by
        refine ⟨rfl, rfl, fun q source => ?_⟩
        dsimp only
        by_cases hq : q = r
        · subst hq
          rw [Function.update_self]
          exact hsame source
        · rw [Function.update_of_ne hq]
      obtain ⟨state', hstate', hcontents⟩ := horders _ hother
      obtain ⟨-, two, htwo, rfl⟩ := (migrateState_iff (h.reordered hother)).mp hstate'
      rw [← hcontents.assignments r itemId]
      have hr := htwo r
      dsimp only at hr
      rw [Function.update_self] at hr
      exact (Dict.lookup_items _ _).trans (hfirst _ hr)
    intro r itemId folderId g version number hf hg
    exact (hplaced r itemId folderId version hf).symm.trans (hplaced r itemId g number hg)
  · intro hconvertible
    choose migrated hout using fun r => exists_migrateAssignments.mpr (hconvertible.readable r)
    refine ⟨_, (migrateState_iff h).mpr ⟨hconvertible.names, migrated, hout, rfl⟩,
      keeps_of_migrated h hconvertible.names hout, fun other hother => ?_⟩
    have hreordered := hconvertible.reordered hother
    choose two htwo using fun r => exists_migrateAssignments.mpr (hreordered.readable r)
    refine ⟨_, (migrateState_iff (h.reordered hother)).mpr ⟨hreordered.names, two, htwo, rfl⟩, ?_⟩
    exact sameContents_of_agree hother hconvertible.agree hout htwo

/-- The layout of version 8 of a flat module repository, check by check. -/
lemma OldPlaced.of_checks (happart : ∀ id ∈ oldDefaultFolders r, folders.lookup id = none)
    (hempty : (withOldFixed r folders).lookup "" = none)
    (hpaths : (folderPaths (withOldFixed r folders)).toBool = true)
    (hsiblings : (checkSiblings r []
      ((Dict.items (withOldFixed r folders)).map fun entry => siblingKey unicode entry.2)).toBool = true)
    (hassigned : ∀ entry ∈ Dict.items assignments, entry.1 ≠ "" ∧ kindOf entry.1 ∈ moduleKinds r ∧
      (withOldFixed r folders).lookup entry.2 ≠ none) : OldPlaced unicode r folders assignments := by
  refine ⟨happart, ?_, checkSiblings_items.mp (Raising.toBool_eq_true.mp hsiblings), ?_⟩
  · exact (exists_folderPaths fun h => h hempty).mp (Raising.exists_ok_of_toBool hpaths)
  · exact fun itemId folderId hitem => hassigned _ (Dict.mem_items.mpr hitem)

/-- A repository without folders and assignments is in place. -/
lemma placed_empty (r : Repository) : Placed asciiCase fixedIds r [] [] := by
  have hvalid : (validateState asciiCase emptyState).toBool = true := by with_unfolding_all decide
  obtain ⟨state, hstate⟩ := Raising.exists_ok_of_toBool hvalid
  obtain ⟨-, -, hall⟩ := validateState_eq_ok.mp hstate
  obtain ⟨hchecked, hplaced⟩ := validateRepository_eq_ok.mp (hall r).1
  have hnone : [] = state.folders r := pure_eq_ok.mp hchecked
  rw [← hnone] at hplaced
  exact hplaced

/-- Folders and assignments of Analyzers in a state of version 8. -/
def analyzerState (folders : FolderMap) (assignments : List (String × String)) : State where
  schemaVersion := 8
  folders r := if r = .analysisModules then folders else []
  assignments r := if r = .analysisModules then assignments else []

lemma validV8_analyzerState (hnormal : ∀ entry ∈ folders, Normal entry.1 entry.2)
    (h : OldPlaced asciiCase .analysisModules folders assignments)
    (henvironment : OldPlaced asciiCase .environmentModules [] []) :
    ValidV8 asciiCase (analyzerState folders assignments) := by
  refine ⟨rfl, fun r => ?_, fun r hr => ?_, fun r hr => ?_⟩
  · by_cases hr : r = .analysisModules
    · simp only [analyzerState, if_pos hr]
      exact fun folderId folder hfolder => hnormal _ (Dict.lookup_mem hfolder)
    · simp [analyzerState, hr]
  · simp only [flatModuleRepositories, List.mem_cons, List.not_mem_nil, or_false] at hr
    rcases hr with rfl | rfl
    · exact h
    · exact henvironment
  · have hne : r ≠ .analysisModules := by
      rintro rfl
      exact hr (by decide)
    simpa [analyzerState, hne] using placed_empty r

lemma oldPlaced_empty : OldPlaced asciiCase .environmentModules [] [] :=
  OldPlaced.of_checks (by with_unfolding_all decide) (by with_unfolding_all decide)
    (by with_unfolding_all decide) (by with_unfolding_all decide)
    (by with_unfolding_all decide)

instance (folderId : String) (folder : Folder) : Decidable (Normal folderId folder) :=
  decidable_of_iff (folderId ≠ "" ∧ folder.folderId = folderId ∧ folder.fixed = false ∧
    validateName folder.name = .ok folder.name)
    ⟨fun ⟨hid, hsame, hfixed, hname⟩ => ⟨hid, hsame, hfixed, hname⟩,
      fun h => ⟨h.identified, h.same, h.mutable, h.named⟩⟩

/-- A research folder with a module of two versions, and a module in the kind folder. -/
def researchState : State := analyzerState
  [("folder-research", ⟨"folder-research", "Research", "modules-fixed-analyzer", false⟩)]
  [("Analyzer/performance/2", "folder-research"), ("Analyzer/performance/10", "folder-research"),
    ("Analyzer/default/1", "modules-fixed-analyzer")]

/-- The two items that the assignments are about, each with its folder. -/
lemma sources_research {version : Option ℕ}
    (h : Sources asciiNumerals r (researchState.assignments r) itemId folderId version) :
    (itemId, folderId) ∈ [("Analyzer/performance", "folder-research"),
      ("Analyzer/default", "modules-fixed-analyzer")] := by
  obtain ⟨source, hsource, hstable⟩ := h
  by_cases hr : r = .analysisModules
  · subst hr
    have hsecond : migratedStableItemId asciiNumerals .analysisModules "Analyzer/performance/2" =
        .ok ("Analyzer/performance", some 2) := by with_unfolding_all decide
    have htenth : migratedStableItemId asciiNumerals .analysisModules "Analyzer/performance/10" =
        .ok ("Analyzer/performance", some 10) := by with_unfolding_all decide
    have hdefault : migratedStableItemId asciiNumerals .analysisModules "Analyzer/default/1" =
        .ok ("Analyzer/default", some 1) := by with_unfolding_all decide
    have hentry := Dict.lookup_mem hsource
    simp only [researchState, analyzerState, if_true, List.mem_cons, List.not_mem_nil, or_false,
      Prod.mk.injEq] at hentry
    rcases hentry with ⟨rfl, rfl⟩ | ⟨rfl, rfl⟩ | ⟨rfl, rfl⟩
    · rw [hsecond] at hstable
      cases hstable
      simp
    · rw [htenth] at hstable
      cases hstable
      simp
    · rw [hdefault] at hstable
      cases hstable
      simp
  · simp [researchState, analyzerState, hr] at hsource

lemma convertible_research : Convertible asciiCase asciiNumerals researchState where
  readable r := by
    refine exists_migrateAssignments.mp (Raising.exists_ok_of_toBool ?_)
    cases r <;> with_unfolding_all decide
  names r hr := by
    simp only [flatModuleRepositories, List.mem_cons, List.not_mem_nil, or_false] at hr
    rcases hr with rfl | rfl
    · have honly : ∀ a folder, (researchState.folders .analysisModules).lookup a = some folder →
          a = "folder-research" ∧ folder = ⟨"folder-research", "Research", "modules-fixed-analyzer", false⟩ := by
        intro a folder hfolder
        simpa [researchState, analyzerState] using Dict.lookup_mem hfolder
      refine ⟨by with_unfolding_all decide, fun a folder hfolder _ => ?_, fun a b folder other ha hb _ _ _ => ?_⟩
      · obtain ⟨-, rfl⟩ := honly a folder hfolder
        with_unfolding_all decide
      · exact (honly a folder ha).1.trans (honly b other hb).1.symm
    · exact ⟨rfl, by simp [researchState, analyzerState], by simp [researchState, analyzerState]⟩
  agree r itemId folderId other version number h hother := by
    have hone := sources_research h.source
    have htwo := sources_research hother.source
    simp only [List.mem_cons, List.not_mem_nil, or_false, Prod.mk.injEq] at hone htwo
    rcases hone with ⟨rfl, rfl⟩ | ⟨rfl, rfl⟩ <;> rcases htwo with ⟨hid, rfl⟩ | ⟨hid, rfl⟩
    · rfl
    · simp at hid
    · simp at hid
    · rfl

theorem migrateState_keeps_research :
    ∃ state, migrateState asciiCase asciiNumerals researchState = .ok state ∧
      Keeps asciiCase asciiNumerals researchState state ∧
      ∀ other, Reordered researchState other →
        ∃ state', migrateState asciiCase asciiNumerals other = .ok state' ∧ SameContents state state' := by
  have hvalid : ValidV8 asciiCase researchState := by
    apply validV8_analyzerState (by with_unfolding_all decide) _ oldPlaced_empty
    exact OldPlaced.of_checks (by with_unfolding_all decide) (by with_unfolding_all decide)
      (by with_unfolding_all decide) (by with_unfolding_all decide)
      (by with_unfolding_all decide)
  exact (migrateState_keeps_iff hvalid).mpr convertible_research

/-- Folders of one name in the kind folder and in its BuiltIn child. -/
def meetingState : State := analyzerState
  [("folder-1", ⟨"folder-1", "Alpha", "modules-fixed-analyzer", false⟩),
    ("folder-2", ⟨"folder-2", "alpha", "modules-fixed-analyzer-builtin", false⟩)] []

/-- The two folders meet at the root, and the migration raises. -/
theorem meetingState_not_migrated : ValidV8 asciiCase meetingState ∧
    ¬∃ state, migrateState asciiCase asciiNumerals meetingState = .ok state := by
  constructor
  · apply validV8_analyzerState (by with_unfolding_all decide) _ oldPlaced_empty
    exact OldPlaced.of_checks (by with_unfolding_all decide) (by with_unfolding_all decide)
      (by with_unfolding_all decide) (by with_unfolding_all decide)
      (by with_unfolding_all decide)
  · rintro ⟨state, hstate⟩
    have hraises : (migrateState asciiCase asciiNumerals meetingState).toBool = false := by decide +kernel
    rw [hstate] at hraises
    cases hraises

end Whole

end TradeFramework.Folders
