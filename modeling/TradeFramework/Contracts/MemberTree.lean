import TradeFramework.Contracts.Expansion
import TradeFramework.Contracts.ChildNormal

/-!
# The member tree of a schema

`emit` lists a schema and everything it names below, in depth-first order. `memberTree` is that
list with the segments of every path kept apart, and emission is `memberTree` under joined paths
as long as every name is a DataKey segment.
-/

namespace TradeFramework

/-- Schemas under the segments of their paths. -/
abbrev SegmentTree := List (List String × Schema)

section Forest

variable {α : Type}

/-- Trees under one more segment each. -/
def forest (trees : List (String × List (List String × α))) : List (List String × α) :=
  trees.flatMap fun t => t.2.map fun e => (t.1 :: e.1, e.2)

lemma forest_cons (t : String × List (List String × α))
    (trees : List (String × List (List String × α))) :
    forest (t :: trees) = (t.2.map fun e => (t.1 :: e.1, e.2)) ++ forest trees :=
  List.flatMap_cons

lemma mem_forest {trees : List (String × List (List String × α))} {parts : List String} {value : α} :
    (parts, value) ∈ forest trees ↔
      ∃ name tree rest, (name, tree) ∈ trees ∧ (rest, value) ∈ tree ∧ parts = name :: rest := by
  simp only [forest, List.mem_flatMap, List.mem_map, Prod.mk.injEq]
  constructor
  · rintro ⟨⟨name, tree⟩, ht, ⟨rest, _⟩, he, rfl, rfl⟩
    exact ⟨name, tree, rest, ht, he, rfl⟩
  · rintro ⟨name, tree, rest, ht, he, rfl⟩
    exact ⟨(name, tree), ht, (rest, value), he, rfl, rfl⟩

lemma entriesBelow_append (left right : List (List String × α)) (name : String) :
    entriesBelow (left ++ right) name = entriesBelow left name ++ entriesBelow right name :=
  List.filterMap_append

lemma entriesBelow_prefixed (tree : List (List String × α)) (name other : String) :
    entriesBelow (tree.map fun e => (name :: e.1, e.2)) other = if name = other then tree else [] := by
  induction tree with
  | nil => simp [entriesBelow]
  | cons e tree ih =>
    by_cases hname : name = other <;> simp [entriesBelow, hname]

/-- Below a segment a forest has the tree of the segment. -/
lemma entriesBelow_forest {trees : List (String × List (List String × α))}
    (hnodup : (trees.map Prod.fst).Nodup) {name : String} {tree : List (List String × α)}
    (h : (name, tree) ∈ trees) : entriesBelow (forest trees) name = tree := by
  have hnone : ∀ trees : List (String × List (List String × α)), name ∉ trees.map Prod.fst →
      entriesBelow (forest trees) name = [] := by
    intro trees hnot
    refine List.eq_nil_iff_forall_not_mem.mpr ?_
    rintro ⟨rest, value⟩ he
    obtain ⟨other, tree, _, ht, -, heq⟩ := mem_forest.mp (mem_entriesBelow.mp he)
    have hname : name = other := (List.cons.inj heq).1
    exact hnot (hname ▸ List.mem_map_of_mem (f := Prod.fst) ht)
  induction trees with
  | nil => cases h
  | cons t trees ih =>
    rw [List.map_cons, List.nodup_cons] at hnodup
    rw [forest_cons, entriesBelow_append, entriesBelow_prefixed]
    rcases List.mem_cons.mp h with rfl | h
    · rw [if_pos rfl, hnone trees hnodup.1, List.append_nil]
    · have hne : t.1 ≠ name := fun heq => hnodup.1 (heq ▸ List.mem_map_of_mem (f := Prod.fst) h)
      rw [if_neg hne, ih hnodup.2 h, List.nil_append]

lemma keys_cons {κ β : Type} [DecidableEq κ] (k : κ) (v : β) (d : List (κ × β)) :
    Dict.keys ((k, v) :: d) = k :: (Dict.keys d).filter fun k' => !decide (k' = k) := by
  simp only [Dict.keys, Dict.items, List.map_cons, List.filter_map, Function.comp_def]

/-- The children of a forest are the segments over its trees. -/
lemma childNames_forest {trees : List (String × List (List String × α))}
    (hnodup : (trees.map Prod.fst).Nodup) (hne : ∀ t ∈ trees, t.2 ≠ []) :
    childNames (forest trees) = trees.map Prod.fst := by
  have hleading : ∀ (name : String) (tree : List (List String × α)) (rest : List (String × Unit)),
      tree ≠ [] → name ∉ Dict.keys rest →
        Dict.keys ((tree.map fun e => (name :: e.1, e.2)).filterMap
          (fun e => e.1.head?.map fun name => (name, ())) ++ rest) = name :: Dict.keys rest := by
    intro name tree rest htree hnot
    have hfilter : (Dict.keys rest).filter (fun k => !decide (k = name)) = Dict.keys rest :=
      List.filter_eq_self.mpr fun k hk => by
        have hk : k ≠ name := fun heq => hnot (heq ▸ hk)
        simp [hk]
    induction tree with
    | nil => exact absurd rfl htree
    | cons e tree ih =>
      simp only [List.map_cons, List.filterMap_cons, List.head?_cons, Option.map_some,
        List.cons_append, keys_cons]
      by_cases hnil : tree = []
      · simp [hnil, hfilter]
      · rw [ih hnil, List.filter_cons, hfilter]
        simp
  induction trees with
  | nil => rfl
  | cons t trees ih =>
    rw [List.map_cons, List.nodup_cons] at hnodup
    have hrest := ih hnodup.2 fun t ht => hne t (by simp [ht])
    unfold childNames at hrest ⊢
    rw [forest_cons, List.filterMap_append, hleading _ _ _ (hne t (by simp)) (hrest.symm ▸ hnodup.1), hrest,
      List.map_cons]

end Forest

section Members

/-- The members a schema names whose schema is not `False`, in the order of `emit`. -/
def liveMembers (s : Schema) : Except PyError (List (String × Schema)) := do
  let children ← (sortedStrings (schemaExplicitChildNames s).dedup).mapM fun name => do
    pure (name, ← schemaChildSchema s name "")
  pure (children.filter fun child => !child.2.isNever)

/-- Everything `emit` lists for a schema, with the segments below it. -/
def memberTree : ℕ → Schema → Except PyError SegmentTree
  | 0, _ => throw (.recursionError "maximum recursion depth exceeded")
  | depth + 1, s => do
    validateDataKeySchema s ""
    let members ← liveMembers s
    let trees ← members.mapM fun member => do pure (member.1, ← memberTree depth member.2)
    pure (([], s) :: forest trees)

/-- The schema `emit` lists for a member of a schema. -/
def NamesMember (schema : Schema) (name : String) (child : Schema) : Prop :=
  name ∈ schemaExplicitChildNames schema ∧ child ≠ .never ∧
    ∃ path, schemaChildSchema schema name path = .ok child

/-- Every member listed below a schema has a name with the property `p`. -/
inductive NamedBy (p : String → Prop) : Schema → Prop
  | intro {s : Schema}
      (name : ∀ name child, NamesMember s name child → p name)
      (below : ∀ name child, NamesMember s name child → NamedBy p child) : NamedBy p s

/-- Every member listed below a schema is named by a DataKey segment. -/
abbrev NamedBySegments : Schema → Prop := NamedBy fun name => isPathSegment name = true

lemma NamedBy.mono {p q : String → Prop} (hpq : ∀ name, p name → q name) {s : Schema} (h : NamedBy p s) :
    NamedBy q s := by
  induction h with
  | intro hname _ ih => exact ⟨fun name child hmember => hpq name (hname name child hmember), ih⟩

lemma liveMembers_eq_ok {s : Schema} {members : List (String × Schema)}
    (h : liveMembers s = .ok members) : (members.map Prod.fst).Nodup ∧
      ∀ member ∈ members, NamesMember s member.1 member.2 ∧
        schemaChildSchema s member.1 "" = .ok member.2 := by
  simp only [liveMembers, Raising.bind_eq_ok, Raising.pure_eq_ok] at h
  obtain ⟨children, hchildren, rfl⟩ := h
  have hchildren : List.Forall₂ (fun name child => child.1 = name ∧
      schemaChildSchema s name "" = .ok child.2)
      (sortedStrings (schemaExplicitChildNames s).dedup) children := by
    refine (Raising.mapM_eq_ok.mp hchildren).imp fun name child hchild => ?_
    obtain ⟨c, hc, rfl⟩ := by simpa using hchild
    exact ⟨rfl, hc⟩
  have hnames : children.map Prod.fst = sortedStrings (schemaExplicitChildNames s).dedup := by
    refine List.forall₂_eq_eq_eq ▸ ?_
    rw [List.forall₂_map_left_iff]
    exact hchildren.flip.imp fun child name hchild => hchild.1
  have hnodup : (children.map Prod.fst).Nodup :=
    hnames ▸ nodup_sortedStrings (List.nodup_dedup _)
  refine ⟨hnodup.sublist (List.Sublist.map _ List.filter_sublist), fun member hmember => ?_⟩
  obtain ⟨hmem, hlive⟩ := List.mem_filter.mp hmember
  obtain ⟨name, hname, hchild⟩ := Related.exists_mem_left hchildren hmem
  obtain ⟨rfl, hchild⟩ := hchild
  refine ⟨⟨?_, ?_, "", hchild⟩, hchild⟩
  · simpa [mem_sortedStrings] using hname
  · intro hnever
    simp [hnever, Schema.isNever] at hlive

/-- Every member that is named is among the live ones. -/
lemma mem_liveMembers {s : Schema} {members : List (String × Schema)} (h : liveMembers s = .ok members)
    {name : String} {child : Schema} (hmember : NamesMember s name child) : (name, child) ∈ members := by
  simp only [liveMembers, Raising.bind_eq_ok, Raising.pure_eq_ok] at h
  obtain ⟨children, hchildren, rfl⟩ := h
  obtain ⟨hname, hlive, path, hchild⟩ := hmember
  have hlisted : name ∈ sortedStrings (schemaExplicitChildNames s).dedup := by
    simpa [mem_sortedStrings] using hname
  obtain ⟨entry, hentry, hread⟩ :=
    Related.exists_mem_left (Raising.mapM_eq_ok.mp hchildren).flip hlisted
  obtain ⟨found, hfound, rfl⟩ := by simpa using hread
  rw [schemaChildSchema_path hchild ""] at hfound
  cases hfound
  refine List.mem_filter.mpr ⟨hentry, ?_⟩
  cases child with
  | never => exact absurd rfl hlive
  | object kw => rfl

lemma memberTree_succ_eq_ok {depth : ℕ} {s : Schema} {tree : SegmentTree} :
    memberTree (depth + 1) s = .ok tree ↔ ∃ members trees, validateDataKeySchema s "" = .ok () ∧
      liveMembers s = .ok members ∧
      List.Forall₂ (fun member t => t.1 = member.1 ∧ memberTree depth member.2 = .ok t.2)
        members trees ∧
      tree = ([], s) :: forest trees := by
  simp only [memberTree, Raising.bind_eq_ok, Raising.pure_eq_ok, Raising.mapM_eq_ok]
  have hentry : ∀ (member : String × Schema) (t : String × SegmentTree),
      (∃ a, memberTree depth member.2 = .ok a ∧ (member.1, a) = t) ↔
        (t.1 = member.1 ∧ memberTree depth member.2 = .ok t.2) := by
    rintro member ⟨name, t⟩
    simp only [Prod.mk.injEq]
    constructor
    · rintro ⟨_, ha, rfl, rfl⟩
      exact ⟨rfl, ha⟩
    · rintro ⟨rfl, ht⟩
      exact ⟨t, ht, rfl, rfl⟩
  simp only [hentry]
  constructor
  · rintro ⟨⟨⟩, hvalid, members, hmembers, trees, htrees, rfl⟩
    exact ⟨members, trees, hvalid, hmembers, htrees, rfl⟩
  · rintro ⟨members, trees, hvalid, hmembers, htrees, rfl⟩
    exact ⟨(), hvalid, members, hmembers, trees, htrees, rfl⟩

/-- The segments of a member tree are the names listed below the schema. -/
lemma memberTree_names {p : String → Prop} {depth : ℕ} {s : Schema} {tree : SegmentTree}
    (h : memberTree depth s = .ok tree) (hs : NamedBy p s) : ∀ e ∈ tree, ∀ part ∈ e.1, p part := by
  induction depth generalizing s tree with
  | zero => simp [memberTree] at h
  | succ depth ih =>
    obtain ⟨members, trees, -, hmembers, htrees, rfl⟩ := memberTree_succ_eq_ok.mp h
    obtain ⟨hname, hnamed⟩ := hs
    rintro ⟨parts, value⟩ he
    rcases List.mem_cons.mp he with heq | he
    · cases heq
      simp
    · obtain ⟨name, t, rest, ht, hrest, rfl⟩ := mem_forest.mp he
      obtain ⟨member, hmember, hsame, htree⟩ := Related.exists_mem_left htrees ht
      have hnames := ((liveMembers_eq_ok hmembers).2 member hmember).1
      cases hsame
      exact List.forall_mem_cons.mpr ⟨hname _ _ hnames, ih htree (hnamed _ _ hnames) _ hrest⟩

lemma memberTree_root {depth : ℕ} {s : Schema} {tree : SegmentTree} (h : memberTree depth s = .ok tree) :
    ([], s) ∈ tree := by
  cases depth with
  | zero => simp [memberTree] at h
  | succ depth =>
    obtain ⟨members, trees, -, -, -, rfl⟩ := memberTree_succ_eq_ok.mp h
    exact List.mem_cons_self

/-- A name that is listed below the schema is a segment of its member tree. -/
lemma namedBy_of_memberTree {p : String → Prop} {depth : ℕ} {s : Schema} {tree : SegmentTree}
    (h : memberTree depth s = .ok tree) (hparts : ∀ e ∈ tree, ∀ part ∈ e.1, p part) : NamedBy p s := by
  induction depth generalizing s tree with
  | zero => simp [memberTree] at h
  | succ depth ih =>
    obtain ⟨members, trees, -, hmembers, htrees, rfl⟩ := memberTree_succ_eq_ok.mp h
    have hlisted : ∀ name child, NamesMember s name child → ∃ tree, memberTree depth child = .ok tree ∧
        ∀ e ∈ tree, (name :: e.1, e.2) ∈ forest trees := by
      intro name child hmember
      obtain ⟨t, ht, hname, htree⟩ := Related.exists_mem_left htrees.flip (mem_liveMembers hmembers hmember)
      cases t with
      | mk first t =>
        cases hname
        exact ⟨t, htree, fun e he => mem_forest.mpr ⟨name, t, e.1, ht, he, rfl⟩⟩
    constructor
    · intro name child hmember
      obtain ⟨tree, htree, hbelow⟩ := hlisted name child hmember
      exact hparts _ (List.mem_cons_of_mem _ (hbelow _ (memberTree_root htree))) name (by simp)
    · intro name child hmember
      obtain ⟨tree, htree, hbelow⟩ := hlisted name child hmember
      refine ih htree fun e he part hpart => ?_
      exact hparts _ (List.mem_cons_of_mem _ (hbelow e he)) part (by simp [hpart])

end Members

end TradeFramework
