import TradeFramework.Contracts.ExpandedRoots
import TradeFramework.Contracts.MemberTree

/-!
# Expanding an expanded map again

As long as no name holds a dot, an expanded map lists the member trees of its roots under joined paths.
Where every name is a DataKey segment the paths can be declared again: every member is what its parent
already says, so nothing is merged and the same roots are emitted again. A plain name that is no segment
is listed under a path that cannot be declared.
-/

namespace TradeFramework

section Paths

/-- The entries of a tree under joined paths. -/
def joined (parts : List String) (tree : SegmentTree) : Contracts :=
  tree.map fun e => (joinPath (parts ++ e.1), e.2)

/-- A name without a dot stays one segment of the paths it is joined into. -/
def Dotless (name : String) : Prop := '.' ∉ name.toList

/-- A text without blanks around it. -/
def Unpadded (key : String) : Prop := stripText key.toList = key.toList

/-- A name that `split_data_path` leaves as it is. -/
structure PlainName (name : String) : Prop where
  dotless : Dotless name
  unpadded : Unpadded name

/-- A nonempty list of names with the property `p`. -/
structure Segments (p : String → Prop) (parts : List String) : Prop where
  nonempty : parts ≠ []
  valid : ∀ part ∈ parts, p part

variable {p q : String → Prop}

lemma Segments.append {parts rest : List String} (h : Segments p parts) (hrest : ∀ part ∈ rest, p part) :
    Segments p (parts ++ rest) where
  nonempty := by simp [h.nonempty]
  valid part hpart := by
    rcases List.mem_append.mp hpart with hpart | hpart
    · exact h.valid part hpart
    · exact hrest part hpart

lemma Segments.mono {parts : List String} (h : Segments p parts) (hpq : ∀ name, p name → q name) :
    Segments q parts :=
  ⟨h.nonempty, fun part hpart => hpq part (h.valid part hpart)⟩

/-- A nonempty list of DataKey segments. -/
abbrev DataSegments : List String → Prop := Segments fun name => isPathSegment name = true

lemma Segments.exists_path {parts : List String} (h : DataSegments parts) :
    ∃ path : DataPath, path.parts = parts := by
  cases parts with
  | nil => exact absurd rfl h.nonempty
  | cons root rest => exact ⟨⟨root, rest, h.valid⟩, rfl⟩

lemma splitOn_joinPath {parts : List String} (h : Segments Dotless parts) :
    (joinPath parts).toList.splitOn '.' = parts.map String.toList := by
  rw [toList_joinPath, List.splitOn_intercalate '.' ?_ (by simpa using h.nonempty)]
  exact List.forall_mem_map.mpr h.valid

/-- Different names without dots join to different paths. -/
lemma joinPath_injective {left right : List String} (hleft : Segments Dotless left)
    (hright : Segments Dotless right) (h : joinPath left = joinPath right) : left = right := by
  have hsplit := splitOn_joinPath hleft
  rw [h, splitOn_joinPath hright] at hsplit
  exact (List.map_injective_iff.mpr (fun _ _ hsame => String.toList_injective hsame) hsplit).symm

/-- The text of a path without blanks at its ends is its own strip. -/
lemma stripText_of_ends {text : List Char} (hhead : ∀ c ∈ text.head?, isSpace c = false)
    (hlast : ∀ c ∈ text.getLast?, isSpace c = false) : stripText text = text := by
  have hdrop : ∀ chars : List Char, (∀ c ∈ chars.head?, isSpace c = false) →
      chars.dropWhile isSpace = chars := by
    intro chars h
    cases chars with
    | nil => rfl
    | cons c rest =>
      have hc := h c rfl
      rw [List.dropWhile_cons_of_neg (by simp [hc])]
  have hreverse : ∀ c ∈ text.reverse.head?, isSpace c = false := by
    rw [List.head?_reverse]
    exact hlast
  rw [stripText, hdrop text hhead, hdrop text.reverse hreverse, List.reverse_reverse]

lemma Unpadded.last {key : String} (h : Unpadded key) : ∀ c ∈ key.toList.getLast?, isSpace c = false := by
  intro c hc
  rw [← h, stripText, List.getLast?_reverse] at hc
  have hnot := List.head?_dropWhile_not isSpace (key.toList.dropWhile isSpace).reverse
  rw [Option.mem_def.mp hc] at hnot
  simpa using hnot

lemma getLast?_intercalate {sep c : Char} {parts : List (List Char)}
    (h : c ∈ ([sep].intercalate parts).getLast?) : c = sep ∨ ∃ part ∈ parts, c ∈ part.getLast? := by
  induction parts with
  | nil => simp at h
  | cons part rest ih =>
    cases rest with
    | nil => exact .inr ⟨part, by simp, by simpa using h⟩
    | cons next rest =>
      rw [List.intercalate_cons_cons, List.getLast?_append] at h
      cases hrest : ([sep].intercalate (next :: rest)).getLast? with
      | none =>
        rw [hrest, Option.none_or, List.getLast?_append] at h
        exact .inl (by simpa using h.symm)
      | some d =>
        rw [hrest, Option.some_or] at h
        cases h
        rcases ih hrest with heq | ⟨p, hp, hc⟩
        · exact .inl heq
        · exact .inr ⟨p, List.mem_cons_of_mem _ hp, hc⟩

lemma splitDataPath_eq_ok {key : String} {path : DataPath} (h : splitDataPath key = .ok path) :
    ((stripText key.toList).splitOn '.').map String.ofList = path.parts := by
  unfold splitDataPath at h
  dsimp only at h
  split at h
  case h_1 => cases h
  case h_2 root rest hparts =>
    split_ifs at h
    cases h
    exact hparts

lemma isPathSegment.unpadded {name : String} (h : isPathSegment name = true) : Unpadded name :=
  stripText_eq_self fun c hc => isSpace_eq_false (.inr ((isPathSegment_iff.mp h).2 c hc))

lemma isPathSegment.plainName {name : String} (h : isPathSegment name = true) : PlainName name :=
  ⟨dot_notMem_of_isPathSegment h, isPathSegment.unpadded h⟩

/-- A path of plain names that `split_data_path` reads has only DataKey segments. -/
lemma isPathSegment_of_splitDataPath {root : String} {rest : List String} {path : DataPath}
    (hroot : isPathSegment root = true) (hrest : ∀ part ∈ rest, PlainName part)
    (h : splitDataPath (joinPath (root :: rest)) = .ok path) :
    ∀ part ∈ root :: rest, isPathSegment part = true := by
  have hplain : ∀ part ∈ root :: rest, PlainName part :=
    List.forall_mem_cons.mpr ⟨isPathSegment.plainName hroot, hrest⟩
  have hstrip : stripText (joinPath (root :: rest)).toList = (joinPath (root :: rest)).toList := by
    apply stripText_of_ends
    · obtain ⟨hne, hchars⟩ := isPathSegment_iff.mp hroot
      obtain ⟨first, tail, hfirst⟩ := List.exists_cons_of_ne_nil hne
      intro c hc
      have hsame : c = first := by
        rw [toList_joinPath, List.map_cons, hfirst] at hc
        cases rest <;> simpa [List.intercalate_cons_cons, eq_comm] using hc
      exact hsame ▸ isSpace_eq_false (.inr (hchars first (by simp [hfirst])))
    · intro c hc
      rw [toList_joinPath] at hc
      rcases getLast?_intercalate hc with rfl | ⟨part, hpart, hc⟩
      · exact isSpace_eq_false (.inl rfl)
      · obtain ⟨name, hname, rfl⟩ := List.mem_map.mp hpart
        exact (hplain name hname).unpadded.last c hc
  have hparts := splitDataPath_eq_ok h
  rw [hstrip, splitOn_joinPath ⟨by simp, fun part hpart => (hplain part hpart).dotless⟩, List.map_map] at hparts
  have hsame : root :: rest = path.parts := by simpa [Function.comp_def] using hparts
  rw [hsame]
  exact path.valid

lemma joinPath_child {parts : List String} (h : parts ≠ []) (name : String) :
    s!"{joinPath parts}.{name}" = joinPath (parts ++ [name]) := by
  apply String.toList_injective
  have happend : s!"{joinPath parts}.{name}" = joinPath parts ++ "." ++ name := rfl
  rw [happend, String.toList_append, String.toList_append, toList_joinPath, toList_joinPath, List.map_append]
  have hsnoc : ∀ texts : List (List Char), texts ≠ [] →
      ['.'].intercalate (texts ++ [name.toList]) = ['.'].intercalate texts ++ ['.'] ++ name.toList := by
    intro texts
    induction texts with
    | nil => simp
    | cons text texts ih =>
      intro _
      cases texts with
      | nil => simp
      | cons next texts =>
        rw [List.cons_append, List.cons_append, List.intercalate_cons_cons, ← List.cons_append,
          ih (by simp), List.intercalate_cons_cons]
        simp
  rw [List.map_singleton, hsnoc _ (by simpa using h)]
  rfl

lemma joined_cons (parts : List String) (s : Schema) (tree : SegmentTree) :
    joined parts (([], s) :: tree) = (joinPath parts, s) :: joined parts tree := by
  simp [joined]

lemma joined_forest_cons (parts : List String) (t : String × SegmentTree)
    (trees : List (String × SegmentTree)) :
    joined parts (forest (t :: trees)) = joined (parts ++ [t.1]) t.2 ++ joined parts (forest trees) := by
  rw [forest_cons, joined, List.map_append, List.map_map]
  simp [joined, Function.comp_def]

/-- A path outside a tree is not among its entries. -/
lemma lookup_joined_eq_none {parts : List String} {tree : SegmentTree} {path : String}
    (h : ∀ e ∈ tree, path ≠ joinPath (parts ++ e.1)) : (joined parts tree).lookup path = none := by
  rw [Dict.lookup_eq_none_iff]
  intro s hs
  obtain ⟨e, he, heq⟩ := List.mem_map.mp hs
  cases heq
  exact h e he rfl

end Paths

section Emission

/-- A schema in normal form is what the DataKey normalization makes of it. -/
lemma normalizeDataKeySchema_toJson {s t : Schema} {path : String} (hs : s.Normal)
    (h : normalizeDataKeySchema s.toJson path = .ok t) : t = s ∧ validateDataKeySchema s path = .ok () := by
  obtain ⟨hnormalized, hvalid⟩ := normalizeDataKeySchema_eq_ok.mp h
  rw [normalizeSchema_toJson hs] at hnormalized
  cases hnormalized
  exact ⟨rfl, hvalid⟩

/-- The members of a schema in the order of their names, and what is emitted below each. -/
def EmittedBelow (depth : ℕ) (s : Schema) (names : List String) (trees : List (String × SegmentTree)) : Prop :=
  ∃ children, names.mapM (fun name => do pure (name, ← schemaChildSchema s name "")) = .ok children ∧
    List.Forall₂ (fun member t => t.1 = member.1 ∧ memberTree depth member.2 = .ok t.2)
      (children.filter fun child => !child.2.isNever) trees

/-- Nothing is listed under some segments or below them. -/
def Unlisted (expanded : Contracts) (parts : List String) : Prop :=
  ∀ rest : List String, (∀ part ∈ rest, Dotless part) →
    expanded.lookup (joinPath (parts ++ rest)) = none

/-- Emission to a depth lists the member tree under joined paths. -/
def EmitsJoined (depth : ℕ) : Prop :=
  ∀ (expanded expanded' : Contracts) (parts : List String) (s : Schema), Segments Dotless parts → s.Normal →
    NamedBy Dotless s → Unlisted expanded parts →
    emitSchema depth expanded (joinPath parts) s = .ok expanded' →
      ∃ tree, memberTree depth s = .ok tree ∧ expanded' = expanded ++ joined parts tree

lemma Unlisted.child {expanded : Contracts} {parts : List String} {name : String}
    (h : Unlisted expanded parts) (hname : Dotless name) : Unlisted expanded (parts ++ [name]) := by
  intro rest hrest
  rw [List.append_assoc]
  exact h _ (List.forall_mem_cons.mpr ⟨hname, hrest⟩)

/-- The tree of another member lists nothing under a name. -/
lemma Unlisted.append_joined {expanded : Contracts} {parts : List String} {name other : String}
    {tree : SegmentTree} (h : Unlisted expanded (parts ++ [name])) (hne : name ≠ other)
    (hname : Segments Dotless (parts ++ [name])) (hother : Segments Dotless (parts ++ [other]))
    (htree : ∀ e ∈ tree, ∀ part ∈ e.1, Dotless part) :
    Unlisted (expanded ++ joined (parts ++ [other]) tree) (parts ++ [name]) := by
  intro rest hrest
  rw [List.lookup_append, h rest hrest, Option.none_or]
  apply lookup_joined_eq_none
  intro e he heq
  have hsame := joinPath_injective (hname.append hrest) (hother.append (htree e he)) heq
  rw [List.append_assoc, List.append_assoc, List.append_cancel_left_eq] at hsame
  exact hne (List.cons.inj hsame).1

/-- The members of a schema are emitted one after the other. -/
lemma emitMembers_joined {depth : ℕ} (hemit : EmitsJoined depth) {parts : List String} {s : Schema}
    (hparts : Segments Dotless parts) (hs : s.Normal) (hnamed : NamedBy Dotless s) {names : List String}
    {acc acc' : Contracts} (hnodup : names.Nodup) (hlisted : ∀ name ∈ names, name ∈ schemaExplicitChildNames s)
    (hnew : ∀ name ∈ names, Dotless name → Unlisted acc (parts ++ [name]))
    (h : names.foldlM (fun expanded name => do
      let child ← schemaChildSchema s name (joinPath parts)
      if child.isNever then pure expanded
      else emitSchema depth expanded s!"{joinPath parts}.{name}" child) acc = .ok acc') :
    ∃ trees, EmittedBelow depth s names trees ∧ acc' = acc ++ joined parts (forest trees) := by
  induction names generalizing acc with
  | nil =>
    cases h
    exact ⟨[], ⟨[], rfl, .nil⟩, by simp [forest, joined]⟩
  | cons name names ih =>
    obtain ⟨hsegment, hbelow⟩ := hnamed
    rw [List.nodup_cons] at hnodup
    rw [List.foldlM_cons, Raising.bind_eq_ok] at h
    obtain ⟨middle, hstep, h⟩ := h
    obtain ⟨child, hchild, hstep⟩ := Raising.bind_eq_ok.mp hstep
    have hrest := fun hmiddle => @ih middle hnodup.2 (fun n hn => hlisted n (by simp [hn])) hmiddle h
    have hread : ∀ children, names.mapM (fun name => do pure (name, ← schemaChildSchema s name "")) =
        .ok children → (name :: names).mapM (fun name => do pure (name, ← schemaChildSchema s name "")) =
          .ok ((name, child) :: children) := by
      intro children hchildren
      simp only [List.mapM_cons, Raising.bind_eq_ok, Raising.pure_eq_ok]
      exact ⟨_, ⟨child, schemaChildSchema_path hchild "", rfl⟩, children, hchildren, rfl⟩
    by_cases hnever : child.isNever = true
    · rw [if_pos hnever] at hstep
      cases hstep
      obtain ⟨trees, ⟨children, hchildren, htrees⟩, hacc⟩ := hrest fun n hn => hnew n (by simp [hn])
      refine ⟨trees, ⟨(name, child) :: children, hread children hchildren, ?_⟩, hacc⟩
      rw [List.filter_cons, if_neg (by simp [hnever])]
      exact htrees
    · rw [if_neg hnever, joinPath_child hparts.nonempty] at hstep
      have hmember : NamesMember s name child := by
        refine ⟨hlisted name (by simp), ?_, _, hchild⟩
        rintro rfl
        exact hnever rfl
      have hname := hsegment name child hmember
      have hnameParts : Segments Dotless (parts ++ [name]) := hparts.append (by simpa using hname)
      have hnamedChild := hbelow name child hmember
      obtain ⟨tree, htree, rfl⟩ := hemit _ _ _ _ hnameParts (schemaChildSchema_normal hchild hs) hnamedChild
        (hnew name (by simp) hname) hstep
      have hmiddle : ∀ n ∈ names, Dotless n →
          Unlisted (acc ++ joined (parts ++ [name]) tree) (parts ++ [n]) := by
        intro n hn hsegmentN
        have hne : n ≠ name := fun heq => hnodup.1 (heq ▸ hn)
        exact (hnew n (by simp [hn]) hsegmentN).append_joined hne (hparts.append (by simpa using hsegmentN))
          hnameParts (memberTree_names htree hnamedChild)
      obtain ⟨trees, ⟨children, hchildren, htrees⟩, hacc⟩ := hrest hmiddle
      refine ⟨(name, tree) :: trees, ⟨(name, child) :: children, hread children hchildren, ?_⟩, ?_⟩
      · rw [List.filter_cons, if_pos (by simp [hnever])]
        exact .cons ⟨rfl, htree⟩ htrees
      · rw [hacc, joined_forest_cons, List.append_assoc]

/-- Emission lists the member tree under joined paths. -/
theorem emitSchema_joined (depth : ℕ) : EmitsJoined depth := by
  induction depth with
  | zero =>
    intro expanded expanded' parts s _ _ _ _ h
    simp [emitSchema] at h
  | succ depth ih =>
    intro expanded expanded' parts s hparts hs hnamed hnew h
    have hpath : expanded.lookup (joinPath parts) = none := by simpa using hnew [] (by simp)
    simp only [emitSchema, Raising.bind_eq_ok, hpath, reconcileSchema, Raising.pure_eq_ok] at h
    obtain ⟨normalized, hnormalized, _, rfl, h⟩ := h
    obtain ⟨rfl, hvalid⟩ := normalizeDataKeySchema_toJson hs hnormalized
    rw [Dict.set_eq_append _ hpath] at h
    have hstart : ∀ name ∈ sortedStrings (schemaExplicitChildNames normalized).dedup,
        Dotless name →
          Unlisted (expanded ++ [(joinPath parts, normalized)]) (parts ++ [name]) := by
      intro name _ hname rest hrest
      have hbelow := (hparts.append (show ∀ part ∈ [name], Dotless part by simpa using hname)).append hrest
      rw [List.lookup_append, hnew.child hname rest hrest, Option.none_or, Dict.lookup_cons, if_neg]
      · rfl
      · intro heq
        have hsame := joinPath_injective hbelow hparts heq
        simp at hsame
    obtain ⟨trees, ⟨children, hchildren, htrees⟩, hexpanded⟩ := emitMembers_joined ih hparts hs hnamed
      (nodup_sortedStrings (List.nodup_dedup _)) (fun name hname => by simpa [mem_sortedStrings] using hname)
      hstart h
    refine ⟨([], normalized) :: forest trees, ?_, ?_⟩
    · refine memberTree_succ_eq_ok.mpr ⟨_, trees, validateDataKeySchema_path hvalid "", ?_, htrees, rfl⟩
      unfold liveMembers
      simp only [Raising.bind_eq_ok, Raising.pure_eq_ok]
      exact ⟨children, hchildren, rfl⟩
    · rw [hexpanded, joined_cons, List.append_assoc]
      rfl

/-- The roots of an expansion are emitted one after the other. -/
lemma emitRoots_joined {roots : List (String × Schema)} {acc acc' : Contracts}
    (hnodup : (roots.map Prod.fst).Nodup)
    (hroots : ∀ root ∈ roots, Dotless root.1 ∧ root.2.Normal ∧ NamedBy Dotless root.2)
    (hnew : ∀ root ∈ roots, Unlisted acc [root.1])
    (h : roots.foldlM (fun expanded root => emitSchema (emitDepth root.2) expanded root.1 root.2) acc =
      .ok acc') :
    ∃ trees, List.Forall₂ (fun root t => t.1 = root.1 ∧ memberTree (emitDepth root.2) root.2 = .ok t.2)
      roots trees ∧ acc' = acc ++ joined [] (forest trees) := by
  induction roots generalizing acc with
  | nil =>
    cases h
    exact ⟨[], .nil, by simp [forest, joined]⟩
  | cons root roots ih =>
    rw [List.map_cons, List.nodup_cons] at hnodup
    rw [List.foldlM_cons, Raising.bind_eq_ok] at h
    obtain ⟨middle, hstep, h⟩ := h
    obtain ⟨hsegment, hnormal, hnamed⟩ := hroots root (by simp)
    have hparts : ∀ {name : String}, Dotless name → Segments Dotless ([] ++ [name]) :=
      fun hname => ⟨by simp, by simpa using hname⟩
    have hjoin : joinPath [root.1] = root.1 := by simp [joinPath]
    rw [← hjoin] at hstep
    obtain ⟨tree, htree, rfl⟩ := emitSchema_joined _ _ _ [root.1] _ (hparts hsegment) hnormal hnamed
      (hnew root (by simp)) hstep
    have hmiddle : ∀ r ∈ roots, Unlisted (acc ++ joined [root.1] tree) [r.1] := by
      intro r hr
      have hne : r.1 ≠ root.1 := fun heq => hnodup.1 (heq ▸ List.mem_map_of_mem hr)
      exact @Unlisted.append_joined _ [] _ _ _ (hnew r (by simp [hr])) hne
        (hparts (hroots r (by simp [hr])).1) (hparts hsegment) (memberTree_names htree hnamed)
    obtain ⟨trees, htrees, hacc⟩ := ih hnodup.2 (fun r hr => hroots r (by simp [hr])) hmiddle h
    refine ⟨(root.1, tree) :: trees, .cons ⟨rfl, htree⟩ htrees, ?_⟩
    rw [hacc, joined_forest_cons, List.append_assoc]
    rfl

end Emission

section Trees

/-- The segments of a forest are different when those of its trees are. -/
lemma nodup_forest {trees : List (String × SegmentTree)} (hnodup : (trees.map Prod.fst).Nodup)
    (htrees : ∀ t ∈ trees, (t.2.map Prod.fst).Nodup) : ((forest trees).map Prod.fst).Nodup := by
  induction trees with
  | nil => simp [forest]
  | cons t trees ih =>
    rw [List.map_cons, List.nodup_cons] at hnodup
    rw [forest_cons, List.map_append, List.map_map, List.nodup_append]
    refine ⟨?_, ih hnodup.2 fun t' ht' => htrees t' (by simp [ht']), ?_⟩
    · have hcons : (Prod.fst ∘ fun e : List String × Schema => (t.1 :: e.1, e.2)) =
          (fun parts => t.1 :: parts) ∘ Prod.fst := rfl
      rw [hcons, ← List.map_map]
      exact (htrees t (by simp)).map fun a b hab => (List.cons.inj hab).2
    · intro parts hparts other hother heq
      obtain ⟨e, -, rfl⟩ := List.mem_map.mp hparts
      obtain ⟨⟨_, value⟩, hmem, rfl⟩ := List.mem_map.mp hother
      obtain ⟨name, tree, rest, ht, -, hcons⟩ := mem_forest.mp hmem
      have hname := (List.cons.inj (heq.trans hcons)).1
      exact hnodup.1 (hname ▸ List.mem_map_of_mem (f := Prod.fst) ht)

/-- What the entries of a member tree are. -/
structure TreeEntries (tree : SegmentTree) : Prop where
  nodup : (tree.map Prod.fst).Nodup
  normal : ∀ e ∈ tree, e.2.Normal
  valid : ∀ e ∈ tree, validateDataKeySchema e.2 "" = .ok ()

lemma TreeEntries.forest {trees : List (String × SegmentTree)} (hnodup : (trees.map Prod.fst).Nodup)
    (h : ∀ t ∈ trees, TreeEntries t.2) : TreeEntries (forest trees) where
  nodup := nodup_forest hnodup fun t ht => (h t ht).nodup
  normal e he := by
    obtain ⟨name, tree, rest, ht, hrest, -⟩ := mem_forest.mp he
    exact (h _ ht).normal (rest, e.2) hrest
  valid e he := by
    obtain ⟨name, tree, rest, ht, hrest, -⟩ := mem_forest.mp he
    exact (h _ ht).valid (rest, e.2) hrest

lemma map_fst_of_trees {depth : Schema → ℕ} {members : List (String × Schema)}
    {trees : List (String × SegmentTree)}
    (h : List.Forall₂ (fun member t => t.1 = member.1 ∧ memberTree (depth member.2) member.2 = .ok t.2)
      members trees) : trees.map Prod.fst = members.map Prod.fst :=
  map_fst_of_forall₂ (r := fun member t => memberTree (depth member.2) member.2 = .ok t.2) h

lemma memberTree_entries {depth : ℕ} {s : Schema} {tree : SegmentTree}
    (h : memberTree depth s = .ok tree) (hs : s.Normal) : TreeEntries tree := by
  induction depth generalizing s tree with
  | zero => simp [memberTree] at h
  | succ depth ih =>
    obtain ⟨members, trees, hvalid, hmembers, htrees, rfl⟩ := memberTree_succ_eq_ok.mp h
    obtain ⟨hnodup, hchildren⟩ := liveMembers_eq_ok hmembers
    have hforest : TreeEntries (forest trees) := by
      apply TreeEntries.forest
      · rw [@map_fst_of_trees (fun _ => depth) _ _ htrees]
        exact hnodup
      · intro t ht
        obtain ⟨member, hmember, -, htree⟩ := Related.exists_mem_left htrees ht
        exact ih htree (schemaChildSchema_normal (hchildren member hmember).2 hs)
    constructor
    · rw [List.map_cons, List.nodup_cons]
      refine ⟨?_, hforest.nodup⟩
      intro hmem
      obtain ⟨⟨_, value⟩, he, hnil⟩ := List.mem_map.mp hmem
      obtain ⟨name, t, rest, -, -, hcons⟩ := mem_forest.mp he
      dsimp only at hnil
      rw [hcons] at hnil
      cases hnil
    · exact List.forall_mem_cons.mpr ⟨hs, hforest.normal⟩
    · exact List.forall_mem_cons.mpr ⟨hvalid, hforest.valid⟩

lemma memberTree_ne_nil {depth : ℕ} {s : Schema} {tree : SegmentTree} (h : memberTree depth s = .ok tree) :
    tree ≠ [] := by
  cases depth with
  | zero => simp [memberTree] at h
  | succ depth =>
    obtain ⟨members, trees, -, -, -, rfl⟩ := memberTree_succ_eq_ok.mp h
    simp

/-- A member that its parent already names adds nothing. -/
lemma isIndependent_member {s child : Schema} {name path : String}
    (hchild : schemaChildSchema s name "" = .ok child) (hlive : child ≠ .never) :
    isIndependent (some s) path (name, child) = .ok false := by
  unfold isIndependent
  split_ifs with hlisted
  · rfl
  · dsimp only
    rw [schemaChildSchema_path hchild, Raising.ok_bind]
    have hisNever : child.isNever = false := by
      cases child with
      | never => exact absurd rfl hlive
      | object kw => rfl
    rw [hisNever, schemaValuesEqual_refl]
    rfl

/-- The tree of a schema is built back into the schema. -/
theorem buildSchema_memberTree {depth : ℕ} {s : Schema} {tree : SegmentTree}
    (h : memberTree depth s = .ok tree) (hs : s.Normal) (parts : List String) :
    buildSchema tree parts = .ok s := by
  induction depth generalizing s tree parts with
  | zero => simp [memberTree] at h
  | succ depth ih =>
    obtain ⟨members, trees, hvalid, hmembers, htrees, rfl⟩ := memberTree_succ_eq_ok.mp h
    obtain ⟨hnodup, hchildren⟩ := liveMembers_eq_ok hmembers
    have hkeys := @map_fst_of_trees (fun _ => depth) _ _ htrees
    have hnames : childNames (([], s) :: forest trees) = members.map Prod.fst := by
      have hforest := childNames_forest (hkeys ▸ hnodup) fun t ht => by
        obtain ⟨member, -, -, htree⟩ := Related.exists_mem_left htrees ht
        exact memberTree_ne_nil htree
      rw [← hkeys, ← hforest]
      rfl
    have hown : Dict.get (([], s) :: forest trees) [] = some s := by simp
    have hchild : ∀ member ∈ members,
        buildSchema (entriesBelow (([], s) :: forest trees) member.1) (parts ++ [member.1]) =
          .ok member.2 := by
      intro member hmember
      obtain ⟨t, ht, hname, htree⟩ := Related.exists_mem_left htrees.flip hmember
      have hentries : entriesBelow (([], s) :: forest trees) member.1 = t.2 := by
        have hbelow := @entriesBelow_forest _ _ (hkeys ▸ hnodup) t.1 t.2 ht
        rw [← hname]
        exact hbelow
      rw [hentries]
      exact ih htree (schemaChildSchema_normal (hchildren member hmember).2 hs) _
    have hbuilt : ((childNames (([], s) :: forest trees)).attach.mapM fun name => do
        pure (name.1, ← buildSchema (entriesBelow (([], s) :: forest trees) name.1) (parts ++ [name.1]))) =
        .ok members := by
      rw [mapM_attach_eq_ok (fun name => do
        pure (name, ← buildSchema (entriesBelow (([], s) :: forest trees) name) (parts ++ [name]))), hnames,
        List.forall₂_map_left_iff, List.forall₂_same]
      intro member hmember
      rw [hchild member hmember]
      rfl
    have hindependent : members.filterM (isIndependent (some s) (joinPath parts)) = .ok [] := by
      apply Raising.filterM_eq_nil.mpr
      intro member hmember
      obtain ⟨hnames, hread⟩ := hchildren member hmember
      exact isIndependent_member hread hnames.2.1
    have hnormalized : normalizeDataKeySchema s.toJson (joinPath parts) = .ok s :=
      normalizeDataKeySchema_eq_ok.mpr ⟨normalizeSchema_toJson hs, validateDataKeySchema_path hvalid _⟩
    rw [buildSchema]
    rw [hbuilt, Raising.ok_bind, hown, hindependent, Raising.ok_bind]
    exact hnormalized

end Trees

section Again

/-- Entries of a tree are declared as they are. -/
lemma declareContract_joined {declared tree : SegmentTree} (hnodup : ((declared ++ tree).map Prod.fst).Nodup)
    (hsegments : ∀ e ∈ tree, DataSegments e.1) (hentries : ∀ e ∈ tree, e.2.Normal)
    (hvalid : ∀ e ∈ tree, validateDataKeySchema e.2 "" = .ok ()) :
    (Contracts.toDocuments (joined [] tree)).foldlM declareContract declared = .ok (declared ++ tree) := by
  induction tree generalizing declared with
  | nil => simp [joined, Contracts.toDocuments, Dict.mapValues]
  | cons e tree ih =>
    obtain ⟨path, hpath⟩ := (hsegments e (by simp)).exists_path
    have hnew : Dict.get declared e.1 = none := by
      unfold Dict.get
      rw [Dict.lookup_eq_none_iff]
      intro v hv
      rw [List.map_append, List.map_cons, List.nodup_append] at hnodup
      exact hnodup.2.2 e.1 (List.mem_map.mpr ⟨_, hv, rfl⟩) e.1 List.mem_cons_self rfl
    have hnormalized : normalizeDataKeySchema e.2.toJson (joinPath e.1) = .ok e.2 :=
      normalizeDataKeySchema_eq_ok.mpr ⟨normalizeSchema_toJson (hentries e (by simp)),
        validateDataKeySchema_path (hvalid e (by simp)) _⟩
    have hstep : declareContract declared (joinPath e.1, e.2.toJson) = .ok (declared ++ [e]) := by
      unfold declareContract
      dsimp only
      have hsplit : splitDataPath (joinPath e.1) = .ok path := hpath ▸ splitDataPath_joinPath path
      rw [hsplit, Raising.ok_bind, hnormalized, Raising.ok_bind, hpath, hnew, Dict.set_eq_append _ hnew]
      rfl
    have hcons : Contracts.toDocuments (joined [] (e :: tree)) =
        (joinPath e.1, e.2.toJson) :: Contracts.toDocuments (joined [] tree) := rfl
    rw [hcons, List.foldlM_cons, hstep, Raising.ok_bind, ih]
    · rw [List.append_assoc]
      rfl
    · rw [List.append_assoc]
      exact hnodup
    · exact fun e' he' => hsegments e' (by simp [he'])
    · exact fun e' he' => hentries e' (by simp [he'])
    · exact fun e' he' => hvalid e' (by simp [he'])

lemma nodup_joined {tree : SegmentTree} (hnodup : (tree.map Prod.fst).Nodup)
    (hnames : ∀ e ∈ tree, Segments Dotless e.1) : ((joined [] tree).map Prod.fst).Nodup := by
  have hmap : (joined [] tree).map Prod.fst = (tree.map Prod.fst).map joinPath := by
    simp [joined, Function.comp_def]
  rw [hmap]
  apply List.Nodup.map_on _ hnodup
  intro left hleft right hright heq
  obtain ⟨l, hl, rfl⟩ := List.mem_map.mp hleft
  obtain ⟨r, hr, rfl⟩ := List.mem_map.mp hright
  exact joinPath_injective (hnames l hl) (hnames r hr) heq

variable {p : String → Prop} {contracts : List (String × Json)} {expanded : Contracts}

/-- The members that expansion lists below the roots of a map, whose schemas are built of its declarations,
have names with the property `p`. -/
def ListsOnly (p : String → Prop) (contracts : List (String × Json)) : Prop :=
  ∀ explicit, (Dict.items contracts).foldlM declareContract [] = .ok explicit → ∀ root ∈ childNames explicit,
    ∀ schema, buildSchema (entriesBelow explicit root) [root] = .ok schema → NamedBy p schema

lemma ListsOnly.mono {q : String → Prop} (h : ListsOnly p contracts) (hpq : ∀ name, p name → q name) :
    ListsOnly q contracts :=
  fun explicit hexplicit root hroot schema hbuild => (h explicit hexplicit root hroot schema hbuild).mono hpq

lemma buildSchema_normal {entries : List (List String × Schema)} {parts : List String} {schema : Schema}
    (h : buildSchema entries parts = .ok schema) : schema.Normal := by
  rw [buildSchema] at h
  obtain ⟨_, _, h⟩ := Raising.bind_eq_ok.mp h
  obtain ⟨_, _, h⟩ := Raising.bind_eq_ok.mp h
  obtain ⟨_, _, h⟩ := Raising.bind_eq_ok.mp h
  exact normalizeDataKeySchema_normal h

/-- The members that an expanded map lists below its roots have names with the property `p`. -/
def RootsNamedBy (p : String → Prop) (expanded : Contracts) : Prop :=
  ∀ root schema, isPathSegment root = true → expanded.lookup root = some schema → NamedBy p schema

/-- The names listed below the roots of an expanded map, as far as `p` goes. -/
def rootsNamed (p : String → Bool) (expanded : Contracts) : Bool :=
  (Dict.items expanded).all fun e => match memberTree (emitDepth e.2) e.2 with
    | .ok tree => !isPathSegment e.1 || tree.all fun member => member.1.all p
    | .error _ => !isPathSegment e.1

lemma rootsNamedBy_of_rootsNamed {p : String → Bool} (h : rootsNamed p expanded = true) :
    RootsNamedBy (fun name => p name = true) expanded := by
  intro root schema hsegment hlookup
  have hroot := List.all_eq_true.mp h (root, schema) (Dict.mem_items.mpr hlookup)
  dsimp only at hroot
  cases htree : memberTree (emitDepth schema) schema with
  | error e => simp [htree, hsegment] at hroot
  | ok tree =>
    refine namedBy_of_memberTree htree fun e he part hpart => ?_
    rw [htree] at hroot
    simp only [hsegment, Bool.not_true, Bool.false_or, List.all_eq_true] at hroot
    exact hroot e he part hpart

/-- The roots of an expansion are the built schemas. -/
lemma listsOnly_iff (h : expandContracts contracts = .ok expanded) :
    ListsOnly p contracts ↔ RootsNamedBy p expanded := by
  obtain ⟨explicit, hexplicit, hbuilt, hnone⟩ := expandContracts_roots h
  have hroot : ∀ root ∈ childNames explicit, ∃ schema,
      buildSchema (entriesBelow explicit root) [root] = .ok schema ∧ expanded.lookup root = some schema := by
    intro root hroot
    obtain ⟨built, schema, hbuild, hschema, hlookup⟩ := hbuilt root hroot
    obtain ⟨rfl, -⟩ := normalizeDataKeySchema_toJson (buildSchema_normal hbuild) hschema
    exact ⟨_, hbuild, hlookup⟩
  constructor
  · intro hnamed root schema hsegment hlookup
    have hchild : root ∈ childNames explicit := by
      by_contra hnot
      have hmissing := hnone root (dot_notMem_of_isPathSegment hsegment) hnot
      rw [hmissing] at hlookup
      cases hlookup
    obtain ⟨built, hbuild, hfound⟩ := hroot root hchild
    rw [hfound] at hlookup
    cases hlookup
    exact hnamed explicit hexplicit root hchild _ hbuild
  · intro hnamed explicit' hexplicit' root hchild schema hbuild
    rw [hexplicit] at hexplicit'
    cases hexplicit'
    obtain ⟨built, hbuild', hfound⟩ := hroot root hchild
    rw [hbuild] at hbuild'
    cases hbuild'
    exact hnamed root _ (isPathSegment_of_mem_childNames hexplicit hchild) hfound

/-- How an expansion comes about: the roots that are built of the declarations, and the member trees that
are listed below them. -/
structure ExpandedTrees (p : String → Prop) (contracts : List (String × Json)) (expanded : Contracts)
    (roots : List (String × Schema)) (trees : List (String × SegmentTree)) : Prop where
  nodup : (roots.map Prod.fst).Nodup
  root : ∀ root ∈ roots, isPathSegment root.1 = true ∧ root.2.Normal ∧ NamedBy p root.2
  built : ∀ explicit, (Dict.items contracts).foldlM declareContract [] = .ok explicit →
    List.Forall₂ (fun name root => root.1 = name ∧
      buildSchema (entriesBelow explicit name) [name] = .ok root.2) (childNames explicit) roots
  emitted : roots.foldlM (fun expanded root => emitSchema (emitDepth root.2) expanded root.1 root.2) [] =
    .ok expanded
  below : List.Forall₂ (fun root t => t.1 = root.1 ∧ memberTree (emitDepth root.2) root.2 = .ok t.2) roots trees
  expanded : expanded = joined [] (forest trees)

/-- A map that lists names without dots is expanded to the member trees of its roots. -/
lemma expandContracts_trees (h : expandContracts contracts = .ok expanded) (hnamed : ListsOnly p contracts)
    (hp : ∀ name, p name → Dotless name) : ∃ roots trees, ExpandedTrees p contracts expanded roots trees := by
  obtain ⟨explicit, hexplicit, h⟩ := Raising.bind_eq_ok.mp h
  obtain ⟨roots, hroots, hemit⟩ := Raising.bind_eq_ok.mp h
  have hread : List.Forall₂ (fun name root => root.1 = name ∧
      buildSchema (entriesBelow explicit name) [name] = .ok root.2) (childNames explicit) roots := by
    refine (Raising.mapM_eq_ok.mp hroots).imp fun name root hroot => ?_
    obtain ⟨built, hbuilt, rfl⟩ := Raising.map_eq_ok.mp (by simpa using hroot)
    exact ⟨rfl, hbuilt⟩
  have hkeys : roots.map Prod.fst = childNames explicit := by
    refine List.forall₂_eq_eq_eq ▸ ?_
    rw [List.forall₂_map_left_iff]
    exact hread.flip.imp fun _ _ h => h.1
  have hnodup : (roots.map Prod.fst).Nodup := hkeys ▸ Dict.nodup_keys _
  have hroot : ∀ root ∈ roots, isPathSegment root.1 = true ∧ root.2.Normal ∧ NamedBy p root.2 := by
    intro root hmem
    obtain ⟨name, hname, rfl, hbuild⟩ := Related.exists_mem_left hread hmem
    exact ⟨isPathSegment_of_mem_childNames hexplicit hname, buildSchema_normal hbuild,
      hnamed explicit hexplicit _ hname _ hbuild⟩
  have hdotless : ∀ root ∈ roots, Dotless root.1 ∧ root.2.Normal ∧ NamedBy Dotless root.2 := by
    intro root hmem
    obtain ⟨hsegment, hnormal, hnames⟩ := hroot root hmem
    exact ⟨dot_notMem_of_isPathSegment hsegment, hnormal, hnames.mono hp⟩
  obtain ⟨trees, htrees, hexpanded⟩ := emitRoots_joined hnodup hdotless (fun root _ rest _ => rfl) hemit
  refine ⟨roots, trees, hnodup, hroot, fun explicit' hexplicit' => ?_, hemit, htrees, by simpa using hexpanded⟩
  rw [hexplicit] at hexplicit'
  cases hexplicit'
  exact hread

namespace ExpandedTrees

variable {roots : List (String × Schema)} {trees : List (String × SegmentTree)}

lemma keys (h : ExpandedTrees p contracts expanded roots trees) : trees.map Prod.fst = roots.map Prod.fst :=
  @map_fst_of_trees emitDepth _ _ h.below

/-- Every tree is the member tree of a root. -/
lemma tree (h : ExpandedTrees p contracts expanded roots trees) {t : String × SegmentTree} (ht : t ∈ trees) :
    ∃ root ∈ roots, t.1 = root.1 ∧ memberTree (emitDepth root.2) root.2 = .ok t.2 :=
  Related.exists_mem_left h.below ht

lemma entries (h : ExpandedTrees p contracts expanded roots trees) : TreeEntries (forest trees) := by
  apply TreeEntries.forest (h.keys ▸ h.nodup)
  intro t ht
  obtain ⟨root, hmem, -, htree⟩ := h.tree ht
  exact memberTree_entries htree (h.root root hmem).2.1

/-- An entry is listed under the segment of a root and names of members. -/
lemma parts (h : ExpandedTrees p contracts expanded roots trees) {e : List String × Schema}
    (he : e ∈ forest trees) : ∃ root rest, e.1 = root :: rest ∧ isPathSegment root = true ∧
      ∀ part ∈ rest, p part := by
  obtain ⟨parts, schema⟩ := e
  obtain ⟨name, tree, rest, ht, hrest, rfl⟩ := mem_forest.mp he
  obtain ⟨root, hmem, hname, hbelow⟩ := h.tree ht
  obtain ⟨hsegment, -, hnamed⟩ := h.root root hmem
  have hsame : name = root.1 := hname
  exact ⟨name, rest, rfl, hsame ▸ hsegment, memberTree_names hbelow hnamed _ hrest⟩

/-- Every path is listed once. -/
lemma items (h : ExpandedTrees p contracts expanded roots trees) (hp : ∀ name, p name → Dotless name) :
    Dict.items expanded = expanded := by
  apply Dict.items_of_nodup
  rw [h.expanded]
  refine nodup_joined h.entries.nodup fun e he => ?_
  obtain ⟨root, rest, hparts, hsegment, hrest⟩ := h.parts he
  rw [hparts]
  exact ⟨by simp, List.forall_mem_cons.mpr ⟨dot_notMem_of_isPathSegment hsegment,
    fun part hpart => hp part (hrest part hpart)⟩⟩

end ExpandedTrees

/-- Expanding an expanded contract map again gives the map back, as long as every member that is listed is
named by a DataKey segment. -/
theorem expandContracts_again (h : expandContracts contracts = .ok expanded)
    (hnamed : ListsOnly (fun name => isPathSegment name = true) contracts) :
    expandContracts (Contracts.toDocuments expanded) = .ok expanded := by
  obtain ⟨roots, trees, htrees⟩ :=
    expandContracts_trees h hnamed fun name hname => dot_notMem_of_isPathSegment hname
  have hentries := htrees.entries
  have hnodup := htrees.keys ▸ htrees.nodup
  have hsegments : ∀ e ∈ forest trees, DataSegments e.1 := by
    intro e he
    obtain ⟨root, rest, hparts, hsegment, hrest⟩ := htrees.parts he
    rw [hparts]
    exact ⟨by simp, List.forall_mem_cons.mpr ⟨hsegment, hrest⟩⟩
  have hitems : Dict.items (Contracts.toDocuments expanded) = Contracts.toDocuments expanded := by
    rw [Contracts.toDocuments, Dict.items_mapValues,
      htrees.items fun name hname => dot_notMem_of_isPathSegment hname]
  have hdeclared : (Dict.items (Contracts.toDocuments expanded)).foldlM declareContract [] =
      .ok (forest trees) := by
    have hstart : (([] ++ forest trees).map Prod.fst).Nodup := by simpa using hentries.nodup
    rw [hitems, htrees.expanded, declareContract_joined hstart hsegments hentries.normal hentries.valid]
    rfl
  have hnames : childNames (forest trees) = roots.map Prod.fst := by
    rw [← htrees.keys]
    apply childNames_forest hnodup
    intro t ht
    obtain ⟨root, -, -, htree⟩ := htrees.tree ht
    exact memberTree_ne_nil htree
  have hrebuilt : ((childNames (forest trees)).mapM fun name => do
      pure (name, ← buildSchema (entriesBelow (forest trees) name) [name])) = .ok roots := by
    rw [Raising.mapM_eq_ok, hnames, List.forall₂_map_left_iff, List.forall₂_same]
    intro root hmem
    obtain ⟨t, ht, hname, htree⟩ := Related.exists_mem_left htrees.below.flip hmem
    have hbelow := @entriesBelow_forest _ _ hnodup t.1 t.2 ht
    rw [← hname, hbelow, buildSchema_memberTree htree (htrees.root root hmem).2.1, Raising.ok_bind, hname]
    rfl
  unfold expandContracts
  rw [hdeclared, Raising.ok_bind, hrebuilt, Raising.ok_bind]
  exact htrees.emitted

/-- Where the listed names are plain, an expanded map can be declared again only if they are DataKey
segments. -/
theorem listsOnly_of_again (h : expandContracts contracts = .ok expanded) (hplain : ListsOnly PlainName contracts)
    {again : Contracts} (hagain : expandContracts (Contracts.toDocuments expanded) = .ok again) :
    ListsOnly (fun name => isPathSegment name = true) contracts := by
  obtain ⟨roots, trees, htrees⟩ := expandContracts_trees h hplain fun name hname => hname.dotless
  obtain ⟨declared, hdeclared, -⟩ := Raising.bind_eq_ok.mp hagain
  have hsegments : ∀ e ∈ forest trees, ∀ part ∈ e.1, isPathSegment part = true := by
    intro e he
    obtain ⟨root, rest, hparts, hsegment, hrest⟩ := htrees.parts he
    have hentry : (joinPath e.1, e.2) ∈ Dict.items expanded := by
      have hlisted : (joinPath e.1, e.2) ∈ expanded := by
        rw [htrees.expanded]
        exact List.mem_map_of_mem (f := fun e : List String × Schema => (joinPath ([] ++ e.1), e.2)) he
      rwa [htrees.items fun name hname => hname.dotless]
    have hdocument : (joinPath e.1, e.2.toJson) ∈ Dict.items (Contracts.toDocuments expanded) := by
      rw [Contracts.toDocuments, Dict.items_mapValues]
      exact List.mem_map_of_mem (f := fun e : String × Schema => (e.1, e.2.toJson)) hentry
    obtain ⟨path, -, -, hpath, -⟩ := declareContract_declared hdeclared _ hdocument
    rw [hparts] at hpath ⊢
    exact isPathSegment_of_splitDataPath hsegment hrest hpath
  intro explicit hexplicit root hroot schema hbuild
  obtain ⟨⟨name, built⟩, hmem, hsame, hbuild'⟩ :=
    Related.exists_mem_left (htrees.built explicit hexplicit).flip hroot
  cases hsame
  rw [hbuild] at hbuild'
  cases hbuild'
  obtain ⟨⟨name, tree⟩, ht, hsame, htree⟩ := Related.exists_mem_left htrees.below.flip hmem
  cases hsame
  refine namedBy_of_memberTree htree fun e he part hpart => ?_
  have hbelow : (name :: e.1, e.2) ∈ forest trees := mem_forest.mpr ⟨name, tree, e.1, ht, he, rfl⟩
  exact hsegments _ hbelow part (by simp [hpart])

end Again

end TradeFramework
