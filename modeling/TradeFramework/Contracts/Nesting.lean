import TradeFramework.Contracts.ChildSchema

/-!
# Object nesting

How deep the objects of a schema nest. Composition does not count, so a named child nests
strictly less than its schema, however many alternatives it is assembled from.
-/

namespace TradeFramework

section Definitions

/-- The largest of some numbers, at least one. -/
def peak (depths : List ℕ) : ℕ := depths.foldr max 1

lemma peak_le_iff {depths : List ℕ} {n : ℕ} : peak depths ≤ n ↔ 1 ≤ n ∧ ∀ k ∈ depths, k ≤ n := by
  unfold peak
  induction depths with
  | nil => simp
  | cons k rest ih =>
    simp only [List.foldr_cons, max_le_iff, ih, List.mem_cons, forall_eq_or_imp]
    tauto

lemma le_peak {depths : List ℕ} {k : ℕ} (h : k ∈ depths) : k ≤ peak depths :=
  (peak_le_iff.mp le_rfl).2 k h

lemma one_le_peak (depths : List ℕ) : 1 ≤ peak depths := (peak_le_iff.mp le_rfl).1

/-- The nesting of a literal; an object is as deep as its closed object schema. -/
def Json.nesting : Json → ℕ
  | .obj d => peak (2 :: (Dict.items d).attach.map fun e => Json.nesting e.1.2 + 1)
  | _ => 1
termination_by value => sizeOf value
decreasing_by exact Json.sizeOf_lt_obj e.2

/-- The nestings below a schema object, from the nestings of its children. -/
def Keywords.nestings (kw : Keywords ℕ) : List ℕ :=
  (kw.propertyMap.map Prod.snd ++ kw.extra.toList ++ kw.items.toList).map (· + 1) ++
    (kw.anyOf.getD [] ++ kw.oneOf.getD [] ++ kw.allOf.getD []) ++
    (kw.const.toList ++ kw.enum.getD []).map Json.nesting

/-- The nesting of a schema. -/
def Schema.nesting : Schema → ℕ := Schema.fold 1 fun kw => peak kw.nestings

end Definitions

lemma Schema.nesting_never : Schema.never.nesting = 1 := Schema.fold_never _ _

lemma Schema.nesting_object (kw : Keywords Schema) :
    (Schema.object kw).nesting = peak (kw.map Schema.nesting).nestings :=
  Schema.fold_object _ _ kw

lemma Schema.one_le_nesting (s : Schema) : 1 ≤ s.nesting := by
  cases s with
  | never => rw [nesting_never]
  | object kw =>
    rw [nesting_object]
    exact one_le_peak _

namespace Keywords

variable {kw : Keywords Schema}

/-- The children whose nesting counts one more. -/
def descents (kw : Keywords Schema) : List Schema :=
  kw.propertyMap.map Prod.snd ++ kw.extra.toList ++ kw.items.toList

/-- The branches of the composition keywords. -/
def branches (kw : Keywords Schema) : List Schema :=
  kw.anyOf.getD [] ++ kw.oneOf.getD [] ++ kw.allOf.getD []

/-- The literals of a schema object. -/
def listedLiterals {σ : Type} (kw : Keywords σ) : List Json := kw.const.toList ++ kw.enum.getD []

lemma children_eq (kw : Keywords Schema) : kw.children = kw.descents ++ kw.branches := by
  simp [children, descents, branches, List.append_assoc]

lemma descents_subset {kw : Keywords Schema} : kw.descents ⊆ kw.children := by
  rw [children_eq]
  exact List.subset_append_left _ _

lemma branches_subset {kw : Keywords Schema} : kw.branches ⊆ kw.children := by
  rw [children_eq]
  exact List.subset_append_right _ _

lemma mem_branches {kw : Keywords Schema} {branches : Option (List Schema)}
    (h : branches ∈ [kw.anyOf, kw.oneOf, kw.allOf]) {bs : List Schema} (hbs : branches = some bs)
    {s : Schema} (hs : s ∈ bs) : s ∈ kw.branches := by
  simp only [List.mem_cons, List.not_mem_nil, or_false] at h
  rcases h with rfl | rfl | rfl <;> simp [Keywords.branches, hbs, hs]

lemma nestings_map (kw : Keywords Schema) : (kw.map Schema.nesting).nestings =
    kw.descents.map (fun s => s.nesting + 1) ++ kw.branches.map Schema.nesting ++
      kw.listedLiterals.map Json.nesting := by
  have hproperties : (kw.map Schema.nesting).propertyMap =
      kw.propertyMap.map fun e => (e.1, e.2.nesting) := by
    cases h : kw.properties <;> simp [propertyMap, map, h]
  have hextra : (kw.map Schema.nesting).extra = kw.extra.map Schema.nesting := by
    cases h : kw.additionalProperties <;> simp [extra, map, h]
  have hlist : ∀ o : Option (List Schema), (o.map (List.map Schema.nesting)).getD [] =
      (o.getD []).map Schema.nesting := by
    rintro (_ | bs) <;> rfl
  have hoption : ∀ o : Option Schema, (o.map Schema.nesting).toList = o.toList.map Schema.nesting := by
    rintro (_ | s) <;> rfl
  rw [nestings, hproperties, hextra]
  simp only [map, hlist, hoption, descents, branches, listedLiterals, List.map_append, List.map_map]
  rfl

lemma nesting_le_iff {n : ℕ} : (Schema.object kw).nesting ≤ n ↔ 1 ≤ n ∧
    (∀ s ∈ kw.descents, s.nesting < n) ∧ (∀ s ∈ kw.branches, s.nesting ≤ n) ∧
      ∀ c ∈ kw.listedLiterals, c.nesting ≤ n := by
  rw [Schema.nesting_object, nestings_map, peak_le_iff]
  simp only [List.forall_mem_append, List.forall_mem_map, Nat.succ_le_iff, and_assoc]

lemma nesting_descent_lt {s : Schema} (h : s ∈ kw.descents) :
    s.nesting < (Schema.object kw).nesting :=
  (nesting_le_iff.mp le_rfl).2.1 s h

lemma nesting_branch_le {s : Schema} (h : s ∈ kw.branches) :
    s.nesting ≤ (Schema.object kw).nesting :=
  (nesting_le_iff.mp le_rfl).2.2.1 s h

lemma nesting_literal_le {c : Json} (h : c ∈ kw.listedLiterals) :
    c.nesting ≤ (Schema.object kw).nesting :=
  (nesting_le_iff.mp le_rfl).2.2.2 c h

end Keywords

section Renormalization

variable {kw other : Keywords Schema}

lemma ReadAs.exists_descent (h : ReadAs kw.members other) {t : Schema} (ht : t ∈ other.descents) :
    ∃ s ∈ kw.descents, normalizeSchema s.toJson = .ok t := by
  simp only [Keywords.descents, Keywords.propertyMap, List.mem_append, List.mem_map,
    Option.mem_toList] at ht ⊢
  rcases ht with (⟨p, hp, rfl⟩ | ht) | ht
  · have hproperties := h.properties
    rw [Keywords.members_properties, rel_map_left] at hproperties
    generalize hleft : kw.properties = left at hproperties
    generalize hright : other.properties = right at hproperties hp
    cases hproperties with
    | none => cases hp
    | @some d _ hde =>
      obtain ⟨doc, heq, hentries⟩ := hde
      cases heq
      rw [Dict.items_mapValues, Dict.mapValues, List.forall₂_map_left_iff] at hentries
      obtain ⟨e, he, -, hnormal⟩ := Related.exists_mem_left hentries hp
      exact ⟨e.2, Or.inl (Or.inl ⟨e, Dict.items_subset d he, rfl⟩), hnormal⟩
  · have hextra := h.matches.extra
    rw [ht] at hextra
    obtain ⟨s, hs, hst⟩ := Related.exists_of_rel_some hextra
    exact ⟨s, Or.inl (Or.inr hs), hst⟩
  · have hitems := h.matches.items
    rw [ht] at hitems
    obtain ⟨s, hs, hst⟩ := Related.exists_of_rel_some hitems
    exact ⟨s, Or.inr hs, hst⟩

lemma ReadAs.exists_branch (h : ReadAs kw.members other) {t : Schema} (ht : t ∈ other.branches) :
    ∃ s ∈ kw.branches, normalizeSchema s.toJson = .ok t := by
  have hlist : ∀ {left right : Option (List Schema)},
      Option.Rel (List.Forall₂ fun s t => normalizeSchema s.toJson = .ok t) left right →
        t ∈ right.getD [] → ∃ s ∈ left.getD [], normalizeSchema s.toJson = .ok t :=
    fun hrel hmem => Related.exists_mem_left (Related.forall₂_getD hrel) hmem
  have hany := hlist (h.matches.union .anyOf)
  have hone := hlist (h.matches.union .oneOf)
  have hall := hlist h.matches.allOf
  simp only [Keywords.branches, List.mem_append] at ht ⊢
  rcases ht with (ht | ht) | ht
  · obtain ⟨s, hs, hst⟩ := hany ht
    exact ⟨s, Or.inl (Or.inl hs), hst⟩
  · obtain ⟨s, hs, hst⟩ := hone ht
    exact ⟨s, Or.inl (Or.inr hs), hst⟩
  · obtain ⟨s, hs, hst⟩ := hall ht
    exact ⟨s, Or.inr hs, hst⟩

lemma ReadAs.listedLiterals_eq (h : ReadAs kw.members other) :
    other.listedLiterals = kw.listedLiterals := by
  have henum := h.enum
  rw [Keywords.members_enum, rel_map_left] at henum
  have heq : kw.enum = other.enum :=
    Related.eq_of_rel_eq (Related.rel_mono (fun _ _ hab => (readEnum_encode.mp hab).1.symm) henum)
  rw [Keywords.listedLiterals, Keywords.listedLiterals, ← h.const, kw.members_annotations.1, heq]

end Renormalization

/-- Normalizing a schema again does not deepen it. -/
theorem nesting_normalizeSchema_le {s t : Schema} (h : normalizeSchema s.toJson = .ok t) :
    t.nesting ≤ s.nesting := by
  induction s using Schema.childInduction generalizing t with
  | never =>
    rw [Schema.toJson_never, normalizeSchema] at h
    cases h
    exact le_rfl
  | object kw ih =>
    rw [Schema.toJson_object] at h
    obtain ⟨other, rfl, hread⟩ := normalizeSchema_obj_eq_ok.mp h
    refine Keywords.nesting_le_iff.mpr ⟨?_, ?_, ?_, ?_⟩
    · exact Schema.one_le_nesting _
    · intro t ht
      obtain ⟨s, hs, hst⟩ := hread.exists_descent ht
      exact (ih s (Keywords.descents_subset hs) hst).trans_lt (Keywords.nesting_descent_lt hs)
    · intro t ht
      obtain ⟨s, hs, hst⟩ := hread.exists_branch ht
      exact (ih s (Keywords.branches_subset hs) hst).trans (Keywords.nesting_branch_le hs)
    · intro c hc
      rw [hread.listedLiterals_eq] at hc
      exact Keywords.nesting_literal_le hc

end TradeFramework
