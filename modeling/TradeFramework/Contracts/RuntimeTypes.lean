import TradeFramework.Contracts.Nesting

/-!
# Possible runtime types

`possible_runtime_types` over-approximates the runtime types of the accepted values. The
composition rank bounds how often a write can be pushed into the branches and the literals
of a schema before it reaches plain object keywords.
-/

namespace TradeFramework

section PossibleTypes

variable {kw : Keywords Schema} {t : JsonType}

lemma mem_foldl_inter_iff {sets : List (Finset JsonType)} {possible : Finset JsonType} :
    t ∈ sets.foldl (· ∩ ·) possible ↔ t ∈ possible ∧ ∀ set ∈ sets, t ∈ set := by
  induction sets generalizing possible with
  | nil => simp
  | cons set rest ih => simp [ih, and_assoc]

lemma mem_foldl_union_iff {sets : List (Finset JsonType)} {possible : Finset JsonType} :
    t ∈ sets.foldl (· ∪ ·) possible ↔ t ∈ possible ∨ ∃ set ∈ sets, t ∈ set := by
  induction sets generalizing possible with
  | nil => simp
  | cons set rest ih => simp [ih, or_assoc]

/-- The clauses that the possible types of one level must all allow. -/
lemma mem_possibleTypes {kw : Keywords (Finset JsonType)} : t ∈ kw.possibleTypes ↔
    t ∈ widenedTypes kw.schemaTypes ∧ (∀ c, kw.const = some c → t = jsonType c) ∧
      (∀ cs, kw.enum = some cs → ∃ c ∈ cs, jsonType c = t) ∧
      (∀ types ∈ kw.allOf.getD [], t ∈ types) ∧
      (∀ bs, kw.union .anyOf = some bs → ∃ types ∈ bs, t ∈ types) ∧
      ∀ bs, kw.union .oneOf = some bs → ∃ types ∈ bs, t ∈ types := by
  unfold Keywords.possibleTypes
  simp only [List.foldl_cons, List.foldl_nil, mem_restrictTo, mem_foldl_inter_iff, widenedTypes,
    Option.map_eq_some_iff, forall_exists_index, and_imp, forall_apply_eq_imp_iff₂,
    Finset.mem_singleton, List.mem_toFinset, List.mem_map, mem_foldl_union_iff,
    Finset.notMem_empty, false_or, and_assoc]

lemma mem_possibleRuntimeTypes : t ∈ possibleRuntimeTypes (.object kw) ↔
    t ∈ widenedTypes kw.schemaTypes ∧ (∀ c, kw.const = some c → t = jsonType c) ∧
      (∀ cs, kw.enum = some cs → ∃ c ∈ cs, jsonType c = t) ∧
      (∀ b ∈ kw.allOf.getD [], t ∈ possibleRuntimeTypes b) ∧
      ∀ keyword bs, kw.union keyword = some bs → ∃ b ∈ bs, t ∈ possibleRuntimeTypes b := by
  have hall : ((kw.map possibleRuntimeTypes).allOf.getD []) =
      (kw.allOf.getD []).map possibleRuntimeTypes := by
    cases h : kw.allOf <;> simp [Keywords.map, h]
  have hunion : ∀ keyword, (∀ types, (kw.map possibleRuntimeTypes).union keyword = some types →
      ∃ set ∈ types, t ∈ set) ↔
        ∀ bs, kw.union keyword = some bs → ∃ b ∈ bs, t ∈ possibleRuntimeTypes b := by
    intro keyword
    rw [Keywords.union_map]
    cases kw.union keyword <;> simp
  have hfold : possibleRuntimeTypes (.object kw) = (kw.map possibleRuntimeTypes).possibleTypes :=
    Schema.fold_object _ _ kw
  rw [hfold, mem_possibleTypes, Keywords.schemaTypes_map, hall, hunion, hunion]
  simp only [List.forall_mem_map]
  refine and_congr_right fun _ => and_congr_right fun _ => and_congr_right fun _ =>
    and_congr_right fun _ => ⟨?_, fun h => ⟨h .anyOf, h .oneOf⟩⟩
  rintro ⟨hany, hone⟩ (_ | _)
  · exact hany
  · exact hone

/-- Every accepted value has a possible runtime type. -/
theorem Schema.Accepts.mem_possibleRuntimeTypes {s : Schema} {v : Json} (h : s.Accepts v) :
    jsonType v ∈ possibleRuntimeTypes s := by
  induction s using Schema.childInduction with
  | never => exact absurd h (Schema.accepts_never v)
  | object kw ih =>
    have hadmits := Schema.accepts_object.mp h
    refine TradeFramework.mem_possibleRuntimeTypes.mpr ⟨?_, ?_, ?_, ?_, ?_⟩
    · exact h.type_widened
    · exact fun c hc => jsonType_eq_of_equal (hadmits.const c hc)
    · intro cs hcs
      obtain ⟨c, hmem, hequal⟩ := jsonValueIn_iff.mp (hadmits.enum cs hcs)
      exact ⟨c, hmem, (jsonType_eq_of_equal hequal).symm⟩
    · exact fun b hb => ih b (Keywords.mem_children_getD_allOf hb) (hadmits.allOf b hb)
    · intro keyword bs hbs
      obtain ⟨b, hb, hv⟩ := (hadmits.union keyword bs hbs).exists_mem
      exact ⟨b, hb, ih b (Keywords.mem_children_union hbs hb) hv⟩

end PossibleTypes

section Rank

/-- One level of the composition rank: literals count like further branches. -/
def Keywords.rank (kw : Keywords ℕ) : ℕ :=
  1 + peak (kw.anyOf.getD [] ++ kw.oneOf.getD [] ++ kw.allOf.getD []) +
    (if kw.const.isSome then 2 else 0) + (if kw.enum.isSome then 4 else 0)

/-- How often branches and literals can be entered before only object keywords are left. -/
def Schema.compositionRank : Schema → ℕ := Schema.fold 0 Keywords.rank

variable {kw : Keywords Schema}

lemma compositionRank_object (kw : Keywords Schema) : (Schema.object kw).compositionRank =
    1 + peak (kw.branches.map Schema.compositionRank) + (if kw.const.isSome then 2 else 0) +
      (if kw.enum.isSome then 4 else 0) := by
  have hlist : ∀ o : Option (List Schema), (o.map (List.map Schema.compositionRank)).getD [] =
      (o.getD []).map Schema.compositionRank := by
    rintro (_ | bs) <;> rfl
  have hfold : (Schema.object kw).compositionRank = (kw.map Schema.compositionRank).rank :=
    Schema.fold_object _ _ kw
  rw [hfold]
  simp only [Keywords.rank, Keywords.map, hlist, Keywords.branches, List.map_append]
  rfl

lemma compositionRank_branch_lt {s : Schema} (h : s ∈ kw.branches) :
    s.compositionRank < (Schema.object kw).compositionRank := by
  have hle := le_peak (List.mem_map_of_mem (f := Schema.compositionRank) h)
  rw [compositionRank_object]
  omega

/-- Normalizing a schema again does not raise its composition rank. -/
theorem compositionRank_normalizeSchema_le {s t : Schema} (h : normalizeSchema s.toJson = .ok t) :
    t.compositionRank ≤ s.compositionRank := by
  induction s using Schema.childInduction generalizing t with
  | never =>
    rw [Schema.toJson_never, normalizeSchema] at h
    cases h
    exact le_rfl
  | object kw ih =>
    rw [Schema.toJson_object] at h
    obtain ⟨other, rfl, hread⟩ := normalizeSchema_obj_eq_ok.mp h
    have hconst := Related.rel_isSome hread.matches.const
    have henum := Related.rel_isSome hread.matches.enum
    have hpeak : peak (other.branches.map Schema.compositionRank) ≤
        peak (kw.branches.map Schema.compositionRank) := by
      refine peak_le_iff.mpr ⟨one_le_peak _, fun n hn => ?_⟩
      obtain ⟨t, ht, rfl⟩ := List.mem_map.mp hn
      obtain ⟨s, hs, hst⟩ := hread.exists_branch ht
      exact (ih s (Keywords.branches_subset hs) hst).trans (le_peak (List.mem_map_of_mem hs))
    rw [compositionRank_object, compositionRank_object, hconst, henum]
    omega

lemma compositionRank_literal_le (value : Json) : (literalDataKeySchema value).compositionRank ≤ 4 := by
  cases value <;> rw [literalDataKeySchema] <;> try rw [objectSchema]
  all_goals simp [compositionRank_object, Keywords.branches, objectKeywords, peak]

lemma compositionRank_literal_obj (d : List (String × Json)) :
    (literalDataKeySchema (.obj d)).compositionRank = 2 := by
  rw [literalDataKeySchema_obj, objectSchema, compositionRank_object]
  simp [Keywords.branches, objectKeywords, peak]

end Rank

end TradeFramework
