import TradeFramework.Contracts.ChildNormal
import TradeFramework.Contracts.ExpandedRoots

/-!
# Symbolic path resolution

`resolve_expanded_contract_path` walks a contract map along a DataKey path and predicts the
value a conforming Data Dict holds there; `expanded_contract_path_required` predicts that
there is one.
-/

namespace TradeFramework

section Validity

/-- A schema `_validate_data_key_schema` passes, under whatever path. -/
def Schema.DataKeyValid (s : Schema) : Prop := ∀ path, validateDataKeySchema s path = .ok ()

lemma validateDataKeySchema_iff {s : Schema} {path : String} :
    validateDataKeySchema s path = .ok () ↔ s.DataKeyValid :=
  ⟨fun h => validateDataKeySchema_path h, fun h => h path⟩

lemma Schema.dataKeyValid_never : Schema.never.DataKeyValid := by
  intro path
  rw [validateDataKeySchema]
  rfl

variable {kw : Keywords Schema} {path : String}

lemma forall_zipIdx_attach {branches : Option (List {s // s ∈ kw.children})} {p : Schema → Prop} :
    (∀ x ∈ (branches.getD []).zipIdx, p x.1.1) ↔
      ∀ s ∈ (branches.map (List.map Subtype.val)).getD [], p s := by
  have hmap : (branches.map (List.map Subtype.val)).getD [] =
      ((branches.getD []).zipIdx.map Prod.fst).map Subtype.val := by
    rw [List.zipIdx_map_fst]
    cases branches <;> rfl
  rw [hmap, List.forall_mem_map, List.forall_mem_map]

lemma Keywords.allOf_attach (kw : Keywords Schema) :
    kw.attach.allOf.map (List.map Subtype.val) = kw.allOf := by
  conv_rhs => rw [← kw.attach_map_val]
  rfl

/-- What `_validate_data_key_schema` asks of a schema object. -/
lemma Schema.dataKeyValid_object : (Schema.object kw).DataKeyValid ↔
    kw.isEmpty = false ∧ (∀ s ∈ kw.branches, s.DataKeyValid) ∧
    ¬(.array ∈ kw.declaredTypes ∨ kw.items.isSome) ∧
    ¬(kw.declaredTypes = ∅ ∧ kw.anyOf = none ∧ kw.oneOf = none ∧ kw.allOf = none ∧
      kw.const.isNone ∧ kw.enum.isNone) ∧
    (∀ c ∈ kw.listedLiterals, containsRuntimeArray c = false) ∧
    (.object ∈ kw.declaredTypes ∨ kw.properties.isSome → kw.extra.isSome ∧
      (∀ name s, kw.propertyMap.lookup name = some s → s.DataKeyValid) ∧
      ∀ s, kw.extra = some s → s.DataKeyValid) := by
  have hany : kw.attach.anyOf.map (List.map Subtype.val) = kw.anyOf := kw.union_attach .anyOf
  have hone : kw.attach.oneOf.map (List.map Subtype.val) = kw.oneOf := kw.union_attach .oneOf
  have hproperties : (∀ e ∈ Dict.items kw.attach.propertyMap, e.2.1.DataKeyValid) ↔
      ∀ name s, kw.propertyMap.lookup name = some s → s.DataKeyValid := by
    constructor
    · intro h name s hs
      rw [← kw.lookup_properties_attach] at hs
      obtain ⟨t, ht, rfl⟩ := Option.map_eq_some_iff.mp hs
      exact h (name, t) (Dict.mem_items.mpr ht)
    · rintro h ⟨name, t⟩ ht
      refine h name t.1 ?_
      rw [← kw.lookup_properties_attach, Dict.mem_items.mp ht]
      rfl
  have hextra : (∀ s ∈ kw.attach.extra.toList, s.1.DataKeyValid) ↔
      ∀ s, kw.extra = some s → s.DataKeyValid := by
    rw [← kw.extra_attach]
    cases kw.attach.extra <;> simp
  have hbranches : (∀ s ∈ kw.branches, s.DataKeyValid) ↔
      (∀ s ∈ kw.anyOf.getD [], s.DataKeyValid) ∧ (∀ s ∈ kw.oneOf.getD [], s.DataKeyValid) ∧
        ∀ s ∈ kw.allOf.getD [], s.DataKeyValid := by
    simp only [Keywords.branches, List.forall_mem_append, and_assoc]
  have hliterals : (∀ c ∈ kw.listedLiterals, containsRuntimeArray c = false) ↔
      (∀ c ∈ kw.const.toList, containsRuntimeArray c = false) ∧
        ∀ c ∈ kw.enum.getD [], containsRuntimeArray c = false := by
    rw [Keywords.listedLiterals, List.forall_mem_append]
  have hroot : validateDataKeySchema (.object kw) "" = .ok () ↔ _ := validateDataKeySchema_iff
  rw [← hroot, validateDataKeySchema]
  simp only [Raising.bind_eq_ok, Raising.raiseIf_eq_ok, Raising.forM_eq_ok, List.forall_mem_cons,
    List.not_mem_nil, false_imp_iff, implies_true, and_true, exists_const, validateDataKeySchema_iff,
    forall_zipIdx_attach (p := Schema.DataKeyValid), hany, hone, kw.allOf_attach]
  rw [hbranches, hliterals]
  refine and_congr (by simp) (and_congr Iff.rfl (and_congr Iff.rfl (and_congr Iff.rfl
    (and_congr (by simp) ?_))))
  split_ifs with hobject
  · simp only [Raising.bind_eq_ok, Raising.raiseIf_eq_ok, Raising.forM_eq_ok, exists_const,
      validateDataKeySchema_iff, hproperties, hextra, hobject, true_imp_iff]
    exact and_congr (by simp [Option.isSome_iff_ne_none]) Iff.rfl
  · simp [hobject]

/-- Equal literals contain arrays alike. -/
lemma containsRuntimeArray_of_equal {a b : Json} (h : jsonValuesEqual a b = true) :
    containsRuntimeArray a = containsRuntimeArray b := by
  induction a using Json.visibleInduction generalizing b with
  | scalar c hc hobj =>
    cases c with
    | obj d => exact absurd rfl (hobj d)
    | arr xs => exact absurd rfl (hc xs)
    | _ => cases b <;> simp_all [jsonValuesEqual, containsRuntimeArray]
  | arr xs =>
    cases b with
    | arr ys => rw [containsRuntimeArray, containsRuntimeArray]
    | _ => simp [jsonValuesEqual] at h
  | obj d ih =>
    obtain ⟨e, rfl⟩ := eq_obj_of_equal h
    have hmembers := jsonValuesEqual_obj.mp h
    have hany : ∀ f : List (String × Json), containsRuntimeArray (.obj f) = true ↔
        ∃ name x, f.lookup name = some x ∧ containsRuntimeArray x = true := by
      intro f
      rw [containsRuntimeArray, List.any_eq_true]
      constructor
      · rintro ⟨⟨⟨name, x⟩, hmem⟩, -, hx⟩
        exact ⟨name, x, Dict.mem_items.mp hmem, hx⟩
      · rintro ⟨name, x, hlookup, hx⟩
        exact ⟨⟨(name, x), Dict.mem_items.mpr hlookup⟩, List.mem_attach _ _, hx⟩
    rw [Bool.eq_iff_iff, hany, hany]
    constructor
    · rintro ⟨name, x, hx, harray⟩
      have hrel := Related.rel_flip (hmembers name)
      rw [hx] at hrel
      obtain ⟨y, hy, hxy⟩ := Related.exists_of_rel_some hrel
      exact ⟨name, y, hy, (ih name x hx hxy).symm.trans harray⟩
    · rintro ⟨name, y, hy, harray⟩
      have hrel := hmembers name
      rw [hy] at hrel
      obtain ⟨x, hx, hxy⟩ := Related.exists_of_rel_some hrel
      exact ⟨name, x, hx, (ih name x hx hxy).trans harray⟩

/-- A schema with the values of a DataKey schema is one too. -/
lemma Schema.DataKeyValid.of_equal {s t : Schema} (hs : s.DataKeyValid) (h : schemaValuesEqual s t = true) :
    t.DataKeyValid := by
  induction s using Schema.childInduction generalizing t with
  | never =>
    cases t with
    | never => exact hs
    | object other => simp [schemaValuesEqual, Schema.toJson_never, Schema.toJson_object, jsonValuesEqual] at h
  | object kw ih =>
    obtain ⟨other, rfl, hmembers⟩ := schemaValuesEqual_object h
    have hmatches := Keywords.matches_of_equal hmembers
    obtain ⟨-, hbranches, harray, hconcrete, hliterals, hobject⟩ := Schema.dataKeyValid_object.mp hs
    have hdeclared : kw.declaredTypes = other.declaredTypes := by
      rw [Keywords.declaredTypes, Keywords.declaredTypes, hmatches.type]
    have hitems := Related.rel_isSome hmatches.items
    have hproperties := Related.rel_isSome hmatches.properties
    have hextra := Related.rel_isSome hmatches.extra
    have hconst := Related.rel_isSome hmatches.const
    have henum := Related.rel_isSome hmatches.enum
    have hany : kw.anyOf.isSome = other.anyOf.isSome := Related.rel_isSome (hmatches.union .anyOf)
    have hone : kw.oneOf.isSome = other.oneOf.isSome := Related.rel_isSome (hmatches.union .oneOf)
    have hall := Related.rel_isSome hmatches.allOf
    have hnone : ¬(other.declaredTypes = ∅ ∧ other.anyOf = none ∧ other.oneOf = none ∧ other.allOf = none ∧
        other.const.isNone ∧ other.enum.isNone) := by
      simp only [← Option.not_isSome_iff_eq_none, Option.isNone_iff_eq_none] at hconcrete ⊢
      rwa [← hdeclared, ← hany, ← hone, ← hall, ← hconst, ← henum]
    have hchildren : ∀ t, t ∈ other.branches → t.DataKeyValid := by
      have hrel : List.Forall₂ (fun s t => schemaValuesEqual s t = true) kw.branches other.branches :=
        List.rel_append (List.rel_append (Related.forall₂_getD (hmatches.union .anyOf))
          (Related.forall₂_getD (hmatches.union .oneOf))) (Related.forall₂_getD hmatches.allOf)
      intro t ht
      obtain ⟨s, hmem, hst⟩ := Related.exists_mem_left hrel ht
      exact ih s (Keywords.branches_subset hmem) (hbranches s hmem) hst
    refine Schema.dataKeyValid_object.mpr ⟨?_, hchildren, ?_, hnone, ?_, fun hother => ?_⟩
    · by_contra hempty
      have hwild := Keywords.isEmpty_iff.mp (by simpa using hempty)
      apply hnone
      rw [hwild]
      simp [Keywords.declaredTypes]
    · rwa [← hdeclared, ← hitems]
    · intro c hc
      have hrel : List.Forall₂ (fun a b => jsonValuesEqual a b = true) kw.listedLiterals other.listedLiterals := by
        refine List.rel_append ?_ (Related.forall₂_getD hmatches.enum)
        have hconstRel := hmatches.const
        generalize kw.const = left at hconstRel
        generalize other.const = right at hconstRel
        cases hconstRel with
        | none => exact .nil
        | some hab => exact .cons hab .nil
      obtain ⟨a, ha, hac⟩ := Related.exists_mem_left hrel hc
      rw [← containsRuntimeArray_of_equal hac]
      exact hliterals a ha
    · rw [← hdeclared, ← hproperties] at hother
      obtain ⟨hsome, hprops, hvalues⟩ := hobject hother
      refine ⟨hextra ▸ hsome, fun name t ht => ?_, fun t ht => ?_⟩
      · have hrel : Option.Rel (fun s t => schemaValuesEqual s t = true) (kw.propertyMap.lookup name)
            (other.propertyMap.lookup name) := by
          have hp := hmatches.properties
          unfold Keywords.propertyMap
          generalize kw.properties = left at hp
          generalize other.properties = right at hp
          cases hp with
          | none => exact .none
          | some hde => exact hde name
        rw [ht] at hrel
        obtain ⟨s, hs, hst⟩ := Related.exists_of_rel_some hrel
        have hchild : kw.child name = some s := by simp [Keywords.child, hs]
        exact ih s (Keywords.mem_children_child hchild) (hprops name s hs) hst
      · have hrel := hmatches.extra
        rw [ht] at hrel
        obtain ⟨s, hs, hst⟩ := Related.exists_of_rel_some hrel
        exact ih s (by simp [Keywords.children, hs]) (hvalues s hs) hst

end Validity

section Loose

/-- A schema that is neither the wildcard nor a DataKey schema itself. -/
def Schema.isLoose (s : Schema) : Bool := !s.isWildcard && !(validateDataKeySchema s "").toBool

/-- Whether a schema allows no member of a name. -/
def Schema.excludes (name : String) : Schema → Bool
  | .never => true
  | .object kw =>
    (kw.directConstraint name).all (fun schemas => schemas.any Schema.isNever) ||
    (kw.constConstraint name).isNone ||
    kw.enum.any (fun values => (Keywords.enumChildren name values).isEmpty) ||
    kw.attach.anyOf.any (fun branches => branches.all fun b => b.1.excludes name) ||
    kw.attach.oneOf.any (fun branches => branches.all fun b => b.1.excludes name) ||
    kw.attach.allOf.any (fun branches => branches.any fun b => b.1.excludes name)
termination_by s => sizeOf s
decreasing_by all_goals exact Schema.sizeOf_lt_object b.2

/-- Whether the resolution of a named member comes to an `additionalProperties` schema that is loose, at the
schema or in its branches. It stops at the first keyword that excludes the member. -/
def Schema.meetsLoose (name : String) : Schema → Bool
  | .never => false
  | .object kw =>
    match kw.directConstraint name, kw.constConstraint name with
    | some direct, some _ =>
      !kw.enum.any (fun values => (Keywords.enumChildren name values).isEmpty) &&
      ((kw.attach.anyOf.getD []).any (fun b => b.1.meetsLoose name) ||
      !kw.attach.anyOf.any (fun branches => branches.all fun b => b.1.excludes name) &&
      ((kw.attach.oneOf.getD []).any (fun b => b.1.meetsLoose name) ||
      !kw.attach.oneOf.any (fun branches => branches.all fun b => b.1.excludes name) &&
      ((kw.attach.allOf.getD []).any (fun b => b.1.meetsLoose name) ||
      !kw.attach.allOf.any (fun branches => branches.any fun b => b.1.excludes name) &&
      direct.any Schema.isLoose)))
    | _, _ => false
termination_by s => sizeOf s
decreasing_by all_goals exact Schema.sizeOf_lt_object b.2

/-- A normalized DataKey schema. -/
structure Schema.Resolvable (s : Schema) : Prop where
  normal : s.Normal
  valid : s.DataKeyValid

lemma Schema.resolvable_never : Schema.never.Resolvable :=
  ⟨Schema.normal_never, Schema.dataKeyValid_never⟩

lemma Schema.DataKeyValid.ne_wildcard {s : Schema} (h : s.DataKeyValid) : s.isWildcard = false := by
  cases s with
  | never => rfl
  | object kw => exact (Schema.dataKeyValid_object.mp h).1

lemma Schema.isLoose_iff {s : Schema} : s.isLoose = true ↔ s.isWildcard = false ∧ ¬s.DataKeyValid := by
  rw [isLoose, Bool.and_eq_true, Bool.not_eq_true', Bool.not_eq_true', ← validateDataKeySchema_iff,
    ← Raising.toBool_eq_true, Bool.not_eq_true]

namespace Schema.Resolvable

variable {kw : Keywords Schema} {options : List Schema}

lemma child (h : (Schema.object kw).Resolvable) {s : Schema} (hs : s ∈ kw.children)
    (hvalid : s.DataKeyValid) : s.Resolvable :=
  ⟨(Schema.normal_object.mp h.normal).2 s hs, hvalid⟩

lemma branch (h : (Schema.object kw).Resolvable) {s : Schema} (hs : s ∈ kw.branches) :
    s.Resolvable :=
  h.child (Keywords.branches_subset hs) ((Schema.dataKeyValid_object.mp h.valid).2.1 s hs)

/-- A composition of schemas is what it is normalized to, and a DataKey schema if they are. -/
lemma composition (path : String) {keyword : Keywords Schema} (hne : options ≠ []) (h : ∀ s ∈ options, s.Normal)
    (hkeyword : keyword = { anyOf := some options } ∨ keyword = { allOf := some options }) :
    (∀ t, normalizeDataKeySchema (Schema.object keyword).toJson path = .ok t ↔
      t = .object keyword ∧ ∀ s ∈ options, s.DataKeyValid) ∧ (Schema.object keyword).Normal := by
  have hnormal : (Schema.object keyword).Normal := by
    rcases hkeyword with rfl | rfl <;>
      · refine Schema.normal_object.mpr ⟨⟨?_, ?_, ?_, ?_, ?_, ?_, ?_, rfl⟩, ?_⟩
        all_goals simp [Keywords.children, Keywords.propertyMap, Keywords.extra, hne]
        exact h
  have hvalid : (Schema.object keyword).DataKeyValid ↔ ∀ s ∈ options, s.DataKeyValid := by
    rcases hkeyword with rfl | rfl <;>
      · rw [Schema.dataKeyValid_object]
        simp [Keywords.branches, Keywords.declaredTypes, Keywords.listedLiterals, Keywords.isEmpty]
  refine ⟨fun t => ?_, hnormal⟩
  rw [normalizeDataKeySchema_eq_ok, normalizeSchema_toJson hnormal]
  constructor
  · rintro ⟨⟨⟩, ht⟩
    exact ⟨rfl, hvalid.mp (validateDataKeySchema_iff.mp ht)⟩
  · rintro ⟨rfl, hall⟩
    exact ⟨rfl, hvalid.mpr hall path⟩

end Schema.Resolvable

lemma literalDataKeySchema_resolvable {literal : Json} (h : containsRuntimeArray literal = false) :
    (literalDataKeySchema literal).Resolvable := by
  have hconst : ∀ c : Json, containsRuntimeArray c = false →
      (Schema.object { const := some c }).Resolvable := by
    intro c hc
    refine ⟨normal_const c, Schema.dataKeyValid_object.mpr ⟨rfl, ?_, ?_, ?_, ?_, ?_⟩⟩
    all_goals simp [Keywords.branches, Keywords.declaredTypes, Keywords.listedLiterals, hc]
  induction literal using Json.visibleInduction with
  | scalar c _ hobj =>
    cases c with
    | obj d => exact absurd rfl (hobj d)
    | _ => rw [literalDataKeySchema]; exact hconst _ h; all_goals simp
  | arr xs _ => simp [containsRuntimeArray] at h
  | obj d ih =>
    have hmember : ∀ e ∈ Dict.items d, (literalDataKeySchema e.2).Resolvable := by
      rintro ⟨k, x⟩ he
      refine ih k x (Dict.mem_items.mp he) ?_
      rw [containsRuntimeArray] at h
      have hall := List.any_eq_false.mp h ⟨(k, x), he⟩ (List.mem_attach _ _)
      simpa using hall
    have hmapped : ∀ e ∈ Dict.mapValues (fun _ value => literalDataKeySchema value) (Dict.items d),
        e.2.Resolvable := by
      intro e he
      obtain ⟨x, hx, rfl⟩ := List.mem_map.mp he
      exact hmember x hx
    have hnormal := literalDataKeySchema_normal (.obj d)
    rw [literalDataKeySchema_obj] at hnormal ⊢
    refine ⟨hnormal, Schema.dataKeyValid_object.mpr ⟨rfl, ?_, ?_, ?_, ?_, ?_⟩⟩
    · simp [Keywords.branches, objectKeywords]
    · simp [Keywords.declaredTypes, objectKeywords]
    · simp [Keywords.declaredTypes, objectKeywords]
    · simp [Keywords.listedLiterals, objectKeywords]
    · intro _
      refine ⟨rfl, fun name s hs => (hmapped _ (Dict.lookup_mem hs)).valid, ?_⟩
      rintro _ ⟨⟩
      exact Schema.dataKeyValid_never

lemma literalDataKeySchema_isNever (literal : Json) : (literalDataKeySchema literal).isNever = false := by
  cases literal with
  | obj d => rw [literalDataKeySchema_obj]; rfl
  | _ => rw [literalDataKeySchema] <;> first | rfl | simp

end Loose

section Totality

variable {options : List Schema} (path : String)

/-- A schema that a member of an accepted value can have: it resolves and is not `false`. -/
def Schema.Live (s : Schema) : Prop := s.Resolvable ∧ s.isNever = false

/-- A composition of DataKey schemas is returned. -/
lemma Schema.Resolvable.exists_composition {keyword : Keywords Schema} (hne : options ≠ [])
    (h : ∀ s ∈ options, s.Resolvable)
    (hkeyword : keyword = { anyOf := some options } ∨ keyword = { allOf := some options }) :
    ∃ t, normalizeDataKeySchema (Schema.object keyword).toJson path = .ok t ∧ t.Live := by
  obtain ⟨hresult, hnormal⟩ :=
    Schema.Resolvable.composition path hne (fun s hs => (h s hs).normal) hkeyword
  have ht := (hresult _).mpr ⟨rfl, fun s hs => (h s hs).valid⟩
  exact ⟨_, ht, ⟨hnormal, validateDataKeySchema_iff.mp (normalizeDataKeySchema_eq_ok.mp ht).2⟩, rfl⟩

lemma exists_schemaUnion (hne : options ≠ []) (h : ∀ s ∈ options, s.Live) :
    ∃ t, schemaUnion options path = .ok t ∧ t.Live := by
  have hunique : ∀ s ∈ uniqueSchemas options, s.Live :=
    fun s hs => h s (Related.distinct_subset options hs)
  obtain ⟨s, hs⟩ := List.exists_mem_of_ne_nil options hne
  obtain ⟨t, ht, -⟩ := Related.exists_mem_distinct schemaValuesEqual_refl hs
  have hsome : uniqueSchemas options ≠ [] := List.ne_nil_of_mem ht
  unfold schemaUnion
  split
  case h_1 hnil => exact absurd hnil hsome
  case h_2 s hs => exact ⟨s, rfl, hunique s (by simp [hs])⟩
  case h_3 =>
    exact Schema.Resolvable.exists_composition path hsome (fun s hs => (hunique s hs).1) (Or.inl rfl)

/-- Wildcards drop out of a conjunction. -/
lemma exists_schemaIntersection (h : ∀ s ∈ options, s.isWildcard = true ∨ s.Resolvable)
    (hsome : ∃ s ∈ options, s.Resolvable) :
    ∃ t, schemaIntersection options path = .ok t ∧ t.Resolvable ∧ t.isNever = options.any Schema.isNever := by
  obtain ⟨s, hs, hresolvable⟩ := hsome
  have hmaterial : ∀ s ∈ options.filter fun option => !option.isWildcard, s.Resolvable := by
    intro s hs
    obtain ⟨hmem, hwild⟩ := List.mem_filter.mp hs
    exact (h s hmem).resolve_left (by simpa using hwild)
  have hmem : s ∈ options.filter fun option => !option.isWildcard :=
    List.mem_filter.mpr ⟨hs, by simp [hresolvable.valid.ne_wildcard]⟩
  have hnever : (options.filter fun option => !option.isWildcard).any Schema.isNever =
      options.any Schema.isNever := by
    rw [List.any_filter]
    congr 1
    funext s
    cases s <;> simp [Schema.isNever, Schema.isWildcard]
  rw [← hnever]
  unfold schemaIntersection
  dsimp only
  generalize options.filter (fun option => !option.isWildcard) = material at hmaterial hmem ⊢
  have hunique : ∀ s ∈ uniqueSchemas material, s.Resolvable :=
    fun s hs => hmaterial s (Related.distinct_subset material hs)
  obtain ⟨t, ht, -⟩ := Related.exists_mem_distinct schemaValuesEqual_refl hmem
  have hne : uniqueSchemas material ≠ [] := List.ne_nil_of_mem ht
  split_ifs with hfalse
  · exact ⟨.never, rfl, Schema.resolvable_never, hfalse.symm⟩
  · rw [Bool.not_eq_true] at hfalse
    rw [hfalse]
    split
    case h_1 hnil => exact absurd hnil hne
    case h_2 s hs =>
      have hmem : s ∈ uniqueSchemas material := by simp [hs]
      exact ⟨s, rfl, hunique s hmem,
        Bool.eq_false_iff.mpr (List.any_eq_false.mp hfalse s (Related.distinct_subset material hmem))⟩
    case h_3 => exact Schema.Resolvable.exists_composition path hne hunique (Or.inr rfl)

/-- A conjunction with a loose schema beside a DataKey schema is no DataKey schema. -/
lemma raises_schemaIntersection (hnormal : ∀ s ∈ options, s.Normal)
    (hlive : ∀ s ∈ options, s.isNever = false) {loose valid : Schema} (hloose : loose ∈ options)
    (hisLoose : loose.isLoose = true) (hmem : valid ∈ options) (hvalid : valid.DataKeyValid) :
    Raising.Raises (schemaIntersection options path) := by
  obtain ⟨hwild, hinvalid⟩ := Schema.isLoose_iff.mp hisLoose
  have hfirst : loose ∈ options.filter fun option => !option.isWildcard :=
    List.mem_filter.mpr ⟨hloose, by simp [hwild]⟩
  have hsecond : valid ∈ options.filter fun option => !option.isWildcard :=
    List.mem_filter.mpr ⟨hmem, by simp [hvalid.ne_wildcard]⟩
  have hmaterial : ∀ s ∈ options.filter fun option => !option.isWildcard, s.Normal ∧ s.isNever = false :=
    fun s hs => ⟨hnormal s (List.mem_of_mem_filter hs), hlive s (List.mem_of_mem_filter hs)⟩
  unfold schemaIntersection
  dsimp only
  generalize options.filter (fun option => !option.isWildcard) = material at hfirst hsecond hmaterial
  have hfalse : material.any Schema.isNever = false :=
    List.any_eq_false.mpr fun s hs => Bool.eq_false_iff.mp (hmaterial s hs).2
  rw [hfalse, if_neg Bool.false_ne_true]
  obtain ⟨a, ha, hloosea⟩ := Related.exists_mem_distinct schemaValuesEqual_refl hfirst
  obtain ⟨b, hb, hvalidb⟩ := Related.exists_mem_distinct schemaValuesEqual_refl hsecond
  have hbvalid : b.DataKeyValid := hvalid.of_equal hvalidb
  have hainvalid : ¬a.DataKeyValid := fun havalid =>
    hinvalid (havalid.of_equal (jsonValuesEqual_symm hloosea))
  split
  case h_1 hnil =>
    rw [uniqueSchemas] at hnil
    rw [hnil] at ha
    cases ha
  case h_2 s hs =>
    rw [uniqueSchemas] at hs
    rw [hs, List.mem_singleton] at ha hb
    exact absurd (ha.trans hb.symm ▸ hbvalid) hainvalid
  case h_3 =>
    by_contra hok
    obtain ⟨t, ht⟩ := Raising.not_raises_iff.mp hok
    have hunique : ∀ s ∈ uniqueSchemas material, s.Normal :=
      fun s hs => (hmaterial s (Related.distinct_subset material hs)).1
    have hresult := Schema.Resolvable.composition path (List.ne_nil_of_mem ha) hunique (Or.inr rfl)
    exact hainvalid (((hresult.1 t).mp ht).2 a ha)

/-- A conjunction raises where it has a loose schema beside a live one. -/
lemma settles_schemaIntersection {direct rest : List Schema} (hlength : direct.length ≤ 1)
    (hdirect : ∀ s ∈ direct, s.Normal) (hrest : ∀ s ∈ rest, s.Live)
    (hsome : (∃ s ∈ direct, s.Resolvable) ∨ rest ≠ []) :
    Raising.Settles (direct.any Schema.isLoose)
      (fun t => t.Resolvable ∧ t.isNever = direct.any Schema.isNever)
      (schemaIntersection (direct ++ rest) path) := by
  have hnever : (direct ++ rest).any Schema.isNever = direct.any Schema.isNever := by
    rw [List.any_append, List.any_eq_false.mpr fun s hs => Bool.eq_false_iff.mp (hrest s hs).2, Bool.or_false]
  have hexists : (∃ s ∈ direct, s.Resolvable) ∨ rest ≠ [] → ∃ s ∈ direct ++ rest, s.Resolvable := by
    rintro (⟨s, hs, hr⟩ | hne)
    · exact ⟨s, List.mem_append_left _ hs, hr⟩
    · obtain ⟨s, hs⟩ := List.exists_mem_of_ne_nil rest hne
      exact ⟨s, List.mem_append_right _ hs, (hrest s hs).1⟩
  cases hloose : direct.any Schema.isLoose with
  | false =>
    have htight : ∀ s ∈ direct ++ rest, s.isWildcard = true ∨ s.Resolvable := by
      intro s hs
      rcases List.mem_append.mp hs with hs | hs
      · cases hwild : s.isWildcard with
        | true => exact Or.inl rfl
        | false =>
          refine Or.inr ⟨hdirect s hs, ?_⟩
          by_contra hinvalid
          exact List.any_eq_false.mp hloose s hs (Schema.isLoose_iff.mpr ⟨hwild, hinvalid⟩)
      · exact Or.inr (hrest s hs).1
    obtain ⟨t, ht, hresolvable, hisNever⟩ := exists_schemaIntersection path htight (hexists hsome)
    rw [ht]
    exact ⟨rfl, hresolvable, hisNever.trans hnever⟩
  | true =>
    obtain ⟨loose, hmem, hisLoose⟩ := List.any_eq_true.mp hloose
    have honly : direct = [loose] := by
      rcases direct with _ | ⟨s, _ | ⟨s', tail⟩⟩
      · cases hmem
      · rw [List.mem_singleton.mp hmem]
      · simp at hlength
    subst honly
    have hne : rest ≠ [] := by
      refine hsome.resolve_left ?_
      rintro ⟨s, hs, hr⟩
      rw [List.mem_singleton.mp hs] at hr
      exact (Schema.isLoose_iff.mp hisLoose).2 hr.valid
    obtain ⟨valid, hvalid⟩ := List.exists_mem_of_ne_nil rest hne
    have hlive : loose.isNever = false := by
      cases loose with
      | never => exact absurd Schema.dataKeyValid_never (Schema.isLoose_iff.mp hisLoose).2
      | object kw => rfl
    rw [List.singleton_append]
    obtain ⟨e, he⟩ := raises_schemaIntersection path
      (List.forall_mem_cons.mpr ⟨hdirect loose hmem, fun s hs => (hrest s hs).1.normal⟩)
      (List.forall_mem_cons.mpr ⟨hlive, fun s hs => (hrest s hs).2⟩) (by simp) hisLoose
      (List.mem_cons_of_mem _ hvalid) (hrest valid hvalid).1.valid
    rw [he]
    rfl

/-- The schemas a keyword asks of a member: live ones, and some where the keyword is present. -/
def Lives (present : Bool) (schemas : List Schema) : Prop :=
  (∀ s ∈ schemas, s.Live) ∧ (present = true → schemas ≠ [])

/-- A keyword is settled with the schemas it asks of a member, unless it rules the member out. -/
def Constrains (children : Option (List Schema)) (ruledOut : Bool)
    (constraint : Except PyError (Option (List Schema))) : Prop :=
  ∃ found, constraint = .ok found ∧ found.isNone = ruledOut ∧
    ∀ schemas, found = some schemas → Lives children.isSome schemas

lemma constrains_union {children : Option (List Schema)}
    (h : ∀ cs, children = some cs → ∀ c ∈ cs, c.Resolvable) :
    Constrains children (children.any fun cs => cs.all Schema.isNever) (unionConstraint path children) := by
  cases children with
  | none =>
    refine ⟨some [], rfl, rfl, ?_⟩
    rintro _ ⟨⟩
    exact ⟨by simp, by simp⟩
  | some cs =>
    have hall : (cs.filter fun child => !child.isNever) = [] ↔ cs.all Schema.isNever = true := by
      simp [List.filter_eq_nil_iff]
    unfold unionConstraint
    dsimp only
    split_ifs with hlive
    · exact ⟨none, rfl, (hall.mp hlive).symm, fun schemas hs => (by cases hs)⟩
    · obtain ⟨t, ht, hresult⟩ := exists_schemaUnion path hlive fun s hs =>
        ⟨h cs rfl s (List.mem_of_mem_filter hs), by simpa using (List.mem_filter.mp hs).2⟩
      refine ⟨some [t], by rw [ht]; rfl, ?_, ?_⟩
      · exact (Bool.eq_false_iff.mpr fun hnever => hlive (hall.mpr hnever)).symm
      · rintro _ ⟨⟩
        exact ⟨by simpa using hresult, by simp⟩

lemma constrains_intersection {children : Option (List Schema)} (hne : children ≠ some [])
    (h : ∀ cs, children = some cs → ∀ c ∈ cs, c.Resolvable) :
    Constrains children (children.any fun cs => cs.any Schema.isNever)
      (intersectionConstraint path children) := by
  cases children with
  | none =>
    refine ⟨some [], rfl, rfl, ?_⟩
    rintro _ ⟨⟩
    exact ⟨by simp, by simp⟩
  | some cs =>
    unfold intersectionConstraint
    dsimp only
    split_ifs with hnever
    · exact ⟨none, rfl, hnever.symm, fun schemas hs => (by cases hs)⟩
    · obtain ⟨c, hc⟩ := List.exists_mem_of_ne_nil cs fun hnil => hne (by rw [hnil])
      obtain ⟨t, ht, hresolvable, hlive⟩ := exists_schemaIntersection path
        (fun s hs => Or.inr (h cs rfl s hs)) ⟨c, hc, h cs rfl c hc⟩
      rw [Bool.not_eq_true] at hnever
      refine ⟨some [t], by rw [ht]; rfl, hnever.symm, ?_⟩
      rintro _ ⟨⟩
      exact ⟨List.forall_mem_singleton.mpr ⟨hresolvable, hlive.trans hnever⟩, by simp⟩

lemma any_all_of_map {α β : Type} {f : α → Bool} {g : β → Bool} {xs : Option (List α)} {ys : Option (List β)}
    (h : xs.map (List.map f) = ys.map (List.map g)) :
    (xs.any fun l => l.all f) = ys.any (fun l => l.all g) ∧
      (xs.any fun l => l.any f) = ys.any (fun l => l.any g) ∧ xs.isSome = ys.isSome ∧
      (xs = some [] → ys = some []) := by
  cases xs with
  | none => cases ys <;> simp_all
  | some l =>
    cases ys with
    | none => cases h
    | some k =>
      have hlists : l.map f = k.map g := Option.some.inj h
      have hid : ∀ {γ : Type} (p : γ → Bool) (m : List γ),
          m.all p = (m.map p).all id ∧ m.any p = (m.map p).any id :=
        fun p m => ⟨by rw [List.all_map]; rfl, by rw [List.any_map]; rfl⟩
      refine ⟨?_, ?_, rfl, ?_⟩
      · exact (hid f l).1.trans (hlists ▸ (hid g k).1.symm)
      · exact (hid f l).2.trans (hlists ▸ (hid g k).2.symm)
      · rintro ⟨⟩
        rw [List.map_eq_nil_iff.mp hlists.symm]

section Stages

lemma orNever_some (schemas : List Schema) (next : List Schema → Except PyError Schema) :
    orNever (some schemas) next = next schemas := rfl

variable {rest : Bool} {Q : Schema → Prop} {next : List Schema → Except PyError Schema}

/-- A keyword that rules the member out ends the resolution. -/
lemma Constrains.settles {children : Option (List Schema)} {ruledOut : Bool}
    {constraint : Except PyError (Option (List Schema))} (h : Constrains children ruledOut constraint)
    (hnever : ruledOut = true → Q .never)
    (hnext : ruledOut = false → ∀ schemas, Lives children.isSome schemas → Raising.Settles rest Q (next schemas)) :
    Raising.Settles (!ruledOut && rest) Q (constraint >>= fun found => orNever found next) := by
  obtain ⟨found, rfl, hnone, hsome⟩ := h
  rw [Raising.ok_bind]
  cases found with
  | none =>
    subst hnone
    exact ⟨rfl, hnever rfl⟩
  | some schemas =>
    subst hnone
    exact hnext rfl schemas (hsome schemas rfl)

/-- The members of the branches of a keyword. -/
lemma settles_branches {α : Type} {branches : Option (List α)} {member : α → Except PyError Schema}
    {raises excludes : α → Bool}
    (hmember : ∀ b ∈ branches.getD [], Raising.Settles (raises b)
      (fun t => t.Resolvable ∧ t.isNever = excludes b) (member b)) :
    Raising.Settles ((branches.getD []).any raises)
      (fun children => (∀ cs, children = some cs → ∀ c ∈ cs, c.Resolvable) ∧
        children.map (List.map Schema.isNever) = branches.map (List.map excludes))
      (branches.mapM fun bs => bs.mapM member) := by
  cases branches with
  | none => exact ⟨rfl, by simp, rfl⟩
  | some bs =>
    have hrun := (Raising.settles_mapM hmember).bind
      (Q := fun children => (∀ cs, children = some cs → ∀ c ∈ cs, c.Resolvable) ∧
        children.map (List.map Schema.isNever) = (some bs).map (List.map excludes))
      (f := fun cs => pure (some cs)) fun cs hcs => by
        refine Raising.settles_pure.mpr ⟨Eq.refl false, ?_, ?_⟩
        · rintro _ ⟨⟩ c hc
          obtain ⟨b, -, hb⟩ := Related.exists_mem_left hcs hc
          exact hb.1
        · refine congrArg some ?_
          rw [← List.forall₂_eq_eq_eq, List.forall₂_map_left_iff, List.forall₂_map_right_iff]
          exact Related.forall₂_mono (fun c _ b _ hb => hb.2) hcs.flip
    rwa [Bool.or_false] at hrun

section Keyword

variable {α : Type} {branches : Option (List α)} {member : α → Except PyError Schema}
  {raises excludes : α → Bool}

/-- A keyword of alternatives. -/
lemma settles_union
    (hmember : ∀ b ∈ branches.getD [], Raising.Settles (raises b)
      (fun t => t.Resolvable ∧ t.isNever = excludes b) (member b))
    (hnever : (branches.any fun bs => bs.all excludes) = true → Q .never)
    (hnext : (branches.any fun bs => bs.all excludes) = false → ∀ schemas, Lives branches.isSome schemas →
      Raising.Settles rest Q (next schemas)) :
    Raising.Settles ((branches.getD []).any raises || (!(branches.any fun bs => bs.all excludes) && rest)) Q
      (do
        let children ← branches.mapM fun bs => bs.mapM member
        orNever (← unionConstraint path children) next) := by
  refine (settles_branches hmember).bind ?_
  rintro children ⟨hall, hmap⟩
  obtain ⟨hout, -, hsome, -⟩ := any_all_of_map hmap
  have hconstrains := constrains_union path hall
  rw [hout] at hconstrains
  exact hconstrains.settles hnever (hsome ▸ hnext)

/-- A conjunction. -/
lemma settles_conjunction (hne : branches ≠ some [])
    (hmember : ∀ b ∈ branches.getD [], Raising.Settles (raises b)
      (fun t => t.Resolvable ∧ t.isNever = excludes b) (member b))
    (hnever : (branches.any fun bs => bs.any excludes) = true → Q .never)
    (hnext : (branches.any fun bs => bs.any excludes) = false → ∀ schemas, Lives branches.isSome schemas →
      Raising.Settles rest Q (next schemas)) :
    Raising.Settles ((branches.getD []).any raises || (!(branches.any fun bs => bs.any excludes) && rest)) Q
      (do
        let children ← branches.mapM fun bs => bs.mapM member
        orNever (← intersectionConstraint path children) next) := by
  refine (settles_branches hmember).bind ?_
  rintro children ⟨hall, hmap⟩
  obtain ⟨-, hout, hsome, hnil⟩ := any_all_of_map hmap
  have hconstrains := constrains_intersection path (fun h => hne (hnil h)) hall
  rw [hout] at hconstrains
  exact hconstrains.settles hnever (hsome ▸ hnext)

end Keyword

end Stages

section Keywords

variable {kw : Keywords Schema} {name : String} {schemas : List Schema}

/-- Where no type is declared, the object keywords may ask nothing, but then a literal or a
composition keyword is there to name the type. -/
lemma Schema.Resolvable.directConstraint (h : (Schema.object kw).Resolvable)
    (hs : kw.directConstraint name = some schemas) :
    schemas.length ≤ 1 ∧ (∀ s ∈ schemas, s.Normal) ∧ ((∃ s ∈ schemas, s.Resolvable) ∨
      (kw.const.isSome ∨ kw.enum.isSome ∨ kw.anyOf.isSome ∨ kw.oneOf.isSome ∨ kw.allOf.isSome)) := by
  obtain ⟨-, -, -, hconcrete, -, hobject⟩ := Schema.dataKeyValid_object.mp h.valid
  have hchildren := (Schema.normal_object.mp h.normal).2
  have hkeyword : kw.declaredTypes = ∅ →
      (kw.const.isSome ∨ kw.enum.isSome ∨ kw.anyOf.isSome ∨ kw.oneOf.isSome ∨ kw.allOf.isSome) := by
    intro hnone
    by_contra hnot
    simp only [not_or, Option.not_isSome_iff_eq_none] at hnot
    obtain ⟨hconst, henum, hany, hone, hall⟩ := hnot
    exact hconcrete ⟨hnone, hany, hone, hall, by simp [hconst], by simp [henum]⟩
  have hdeclared : JsonType.object ∈ kw.schemaTypes → JsonType.object ∉ kw.declaredTypes →
      kw.declaredTypes = ∅ := by
    intro hmem hnot
    by_contra hne
    rw [Keywords.schemaTypes, if_pos hne] at hmem
    exact hnot hmem
  unfold Keywords.directConstraint at hs
  split_ifs at hs with hshape hin
  · cases hs
    refine ⟨by simp, by simp, Or.inr (hkeyword ?_)⟩
    have hnone : kw.type = none := by simp_all
    simp [Keywords.declaredTypes, hnone]
  · cases hlookup : kw.propertyMap.lookup name with
    | some s =>
      have hproperties : kw.properties.isSome = true := by
        cases hp : kw.properties with
        | none => simp [Keywords.propertyMap, hp] at hlookup
        | some d => rfl
      have hchild : kw.child name = some s := by simp [Keywords.child, hlookup]
      have hresolvable : s.Resolvable :=
        h.child (Keywords.mem_children_child hchild) ((hobject (Or.inr hproperties)).2.1 name s hlookup)
      simp only [hlookup] at hs
      cases hs
      exact ⟨by simp, by simpa using hresolvable.normal, Or.inl ⟨s, by simp, hresolvable⟩⟩
    | none =>
      simp only [hlookup] at hs
      have hsome : ∀ s, kw.extra = some s → s ∈ kw.children := fun s hextra =>
        Keywords.mem_children_child (show kw.child name = some s by simp [Keywords.child, hlookup, hextra])
      by_cases hmust : JsonType.object ∈ kw.declaredTypes ∨ kw.properties.isSome
      · obtain ⟨hextra, -, hvalid⟩ := hobject hmust
        split at hs
        case h_1 hnone => simp [hnone] at hextra
        case h_2 => cases hs
        case h_3 s _ hextra =>
          cases hs
          have hresolvable := h.child (hsome s hextra) (hvalid s hextra)
          exact ⟨by simp, by simpa using hresolvable.normal, Or.inl ⟨s, by simp, hresolvable⟩⟩
      · rw [not_or] at hmust
        have hpresent := hkeyword (hdeclared hin hmust.1)
        split at hs
        case h_1 =>
          cases hs
          exact ⟨by simp, by simp, Or.inr hpresent⟩
        case h_2 => cases hs
        case h_3 s _ hextra =>
          cases hs
          exact ⟨by simp, by simpa using hchildren s (hsome s hextra), Or.inr hpresent⟩

lemma Schema.Resolvable.literal (h : (Schema.object kw).Resolvable) {d : List (String × Json)}
    (hd : .obj d ∈ kw.listedLiterals) {x : Json} (hx : d.lookup name = some x) :
    (literalDataKeySchema x).Live := by
  obtain ⟨-, -, -, -, hliterals, -⟩ := Schema.dataKeyValid_object.mp h.valid
  have hobj := hliterals _ hd
  rw [containsRuntimeArray] at hobj
  have hmember := List.any_eq_false.mp hobj ⟨(name, x), Dict.mem_items.mpr hx⟩ (List.mem_attach _ _)
  exact ⟨literalDataKeySchema_resolvable (by simpa using hmember), literalDataKeySchema_isNever x⟩

lemma Schema.Resolvable.constConstraint (h : (Schema.object kw).Resolvable)
    (hs : kw.constConstraint name = some schemas) : Lives kw.const.isSome schemas := by
  unfold Keywords.constConstraint at hs
  split at hs
  case h_1 hnone =>
    cases hs
    exact ⟨by simp, by simp [hnone]⟩
  case h_2 d hconst =>
    obtain ⟨x, hx, rfl⟩ := Option.map_eq_some_iff.mp hs
    have hmem : Json.obj d ∈ kw.listedLiterals := by simp [Keywords.listedLiterals, hconst]
    exact ⟨List.forall_mem_singleton.mpr (h.literal hmem hx), by simp⟩
  case h_3 => cases hs

lemma Schema.Resolvable.enumChildren (h : (Schema.object kw).Resolvable) (name : String) (cs : List Schema)
    (hcs : kw.enum.map (Keywords.enumChildren name) = some cs) : ∀ c ∈ cs, c.Live := by
  obtain ⟨values, hvalues, rfl⟩ := Option.map_eq_some_iff.mp hcs
  intro c hc
  obtain ⟨value, hvalue, hc⟩ := List.mem_filterMap.mp hc
  have hmem : value ∈ kw.listedLiterals := by simp [Keywords.listedLiterals, hvalues, hvalue]
  split at hc
  · obtain ⟨x, hx, rfl⟩ := Option.map_eq_some_iff.mp hc
    exact h.literal hmem hx
  · cases hc

end Keywords

/-- The listed values that have no member of the name rule it out. -/
lemma Schema.Resolvable.enum_ruledOut {kw : Keywords Schema} (h : (Schema.object kw).Resolvable) (name : String) :
    ((kw.enum.map (Keywords.enumChildren name)).any fun cs => cs.all Schema.isNever) =
      kw.enum.any fun values => (Keywords.enumChildren name values).isEmpty := by
  have hlive := h.enumChildren name
  cases henum : kw.enum with
  | none => rfl
  | some values =>
    rw [henum] at hlive
    have hmembers := hlive _ rfl
    rw [Option.map_some, Option.any_some, Option.any_some]
    cases hcs : Keywords.enumChildren name values with
    | nil => rfl
    | cons c cs =>
      rw [hcs] at hmembers
      rw [List.all_cons, (hmembers c (by simp)).2, Bool.false_and]
      rfl

lemma Keywords.attach_isSome (kw : Keywords Schema) : kw.attach.anyOf.isSome = kw.anyOf.isSome ∧
    kw.attach.oneOf.isSome = kw.oneOf.isSome ∧ kw.attach.allOf.isSome = kw.allOf.isSome := by
  have hany : kw.attach.anyOf.map (List.map Subtype.val) = kw.anyOf := kw.union_attach .anyOf
  have hone : kw.attach.oneOf.map (List.map Subtype.val) = kw.oneOf := kw.union_attach .oneOf
  rw [← hany, ← hone, ← kw.allOf_attach]
  simp

/-- The resolution of a named member raises exactly where it comes to a loose schema, and otherwise
returns a DataKey schema, `false` exactly where the member is excluded. -/
theorem schemaChildSchema_settles {schema : Schema} (h : schema.Resolvable) (name path : String) :
    Raising.Settles (schema.meetsLoose name)
      (fun child => child.Resolvable ∧ child.isNever = schema.excludes name)
      (schemaChildSchema schema name path) := by
  induction schema using Schema.childInduction generalizing path with
  | never =>
    rw [schemaChildSchema, Schema.meetsLoose, Schema.excludes]
    exact ⟨rfl, h, rfl⟩
  | object kw ih =>
    have hbranches : ∀ (branches : Option (List {s // s ∈ kw.children})) (here : String),
        branches.map (List.map Subtype.val) ∈ [kw.anyOf, kw.oneOf, kw.allOf] →
        ∀ b ∈ branches.getD [], Raising.Settles (b.1.meetsLoose name)
          (fun child => child.Resolvable ∧ child.isNever = b.1.excludes name)
          (schemaChildSchema b.1 name here) := by
      rintro (_ | bs) here hmem b hb
      · cases hb
      · exact ih b.1 b.2 (h.branch (Keywords.mem_branches hmem rfl (List.mem_map_of_mem hb))) here
    have hany : kw.attach.anyOf.map (List.map Subtype.val) = kw.anyOf := kw.union_attach .anyOf
    have hone : kw.attach.oneOf.map (List.map Subtype.val) = kw.oneOf := kw.union_attach .oneOf
    have hall := kw.allOf_attach
    have hwell := (Schema.normal_object.mp h.normal).1.branches kw.allOf (by simp)
    rw [schemaChildSchema, Schema.meetsLoose, Schema.excludes]
    cases hdirect : kw.directConstraint name with
    | none => exact ⟨rfl, Schema.resolvable_never, rfl⟩
    | some direct =>
    cases hconst : kw.constConstraint name with
    | none => exact ⟨rfl, Schema.resolvable_never, by simp [Schema.isNever]⟩
    | some literal =>
    simp only [orNever_some, Option.all_some, Option.isNone_some, Bool.or_false]
    have hnever : ∀ b : Bool, b = true → Schema.never.Resolvable ∧ Schema.never.isNever = b :=
      fun b hb => ⟨Schema.resolvable_never, hb.symm⟩
    obtain ⟨hlength, hnormal, hdirectSome⟩ := h.directConstraint hdirect
    have hliteral := h.constConstraint hconst
    have hlisted := constrains_union s!"{path}.{name}" fun cs hcs c hc =>
      (h.enumChildren name cs hcs c hc).1
    rw [h.enum_ruledOut] at hlisted
    -- the keywords in the order of the source, each of which may rule the member out
    refine hlisted.settles (fun hout => hnever _ (by simp only [hout, Bool.or_true, Bool.true_or]))
      fun hlistedOut listed hlisted => ?_
    refine settles_union _ (hbranches _ _ (by simp [hany]))
      (fun hout => hnever _ (by simp only [hout, Bool.or_true, Bool.true_or])) fun hanyOut any hanyLives => ?_
    refine settles_union _ (hbranches _ _ (by simp [hone]))
      (fun hout => hnever _ (by simp only [hout, Bool.or_true, Bool.true_or])) fun honeOut one honeLives => ?_
    refine settles_conjunction _ (fun hnil => hwell ?_) (hbranches _ _ (by simp [hall]))
      (fun hout => hnever _ (by simp only [hout, Bool.or_true])) fun hallOut all hallLives => ?_
    · rw [← hall, hnil]
      rfl
    simp only [hlistedOut, hanyOut, honeOut, hallOut, Bool.or_false, List.append_assoc]
    refine settles_schemaIntersection _ hlength hnormal ?_ (hdirectSome.imp id fun hpresent hnil => ?_)
    · simp only [List.mem_append]
      rintro s (hs | hs | hs | hs | hs)
      · exact hliteral.1 s hs
      · exact hlisted.1 s hs
      · exact hanyLives.1 s hs
      · exact honeLives.1 s hs
      · exact hallLives.1 s hs
    · simp only [List.append_eq_nil_iff] at hnil
      obtain ⟨hliteralNil, hlistedNil, hanyNil, honeNil, hallNil⟩ := hnil
      obtain ⟨hanySome, honeSome, hallSome⟩ := kw.attach_isSome
      rcases hpresent with hp | hp | hp | hp | hp
      · exact hliteral.2 hp hliteralNil
      · exact hlisted.2 (Option.isSome_map.trans hp) hlistedNil
      · exact hanyLives.2 (hanySome.trans hp) hanyNil
      · exact honeLives.2 (honeSome.trans hp) honeNil
      · exact hallLives.2 (hallSome.trans hp) hallNil

end Totality

section Soundness

variable {schema : Schema} {v x : Json}

/-- Whether the resolution of a path comes to a loose schema, at one of the schemas that it meets. -/
def meetsLooseAlong (walked : List String) (schema : Schema) : List String → Bool
  | [] => false
  | segment :: rest =>
    schema.meetsLoose segment ||
      (schemaChildSchema schema segment (joinPath walked)).toOption.any fun child =>
        !child.isNever && meetsLooseAlong (walked ++ [segment]) child rest

/-- The resolution of a path raises exactly where it comes to a loose schema. -/
theorem resolveSegments_settles (h : schema.Resolvable) (walked segments : List String) :
    Raising.Settles (meetsLooseAlong walked schema segments) Schema.Resolvable
      (resolveSegments walked schema segments) := by
  induction segments generalizing schema walked with
  | nil => exact ⟨rfl, h⟩
  | cons segment rest ih =>
    have hchild := schemaChildSchema_settles h segment (joinPath walked)
    rw [resolveSegments, meetsLooseAlong]
    cases hrun : schemaChildSchema schema segment (joinPath walked) with
    | error e =>
      rw [hrun] at hchild
      rw [show schema.meetsLoose segment = true from hchild]
      rfl
    | ok child =>
      rw [hrun] at hchild
      obtain ⟨htight, hresolvable, -⟩ := hchild
      rw [htight, Bool.false_or, Raising.ok_bind, Except.toOption, Option.any_some]
      cases hnever : child.isNever with
      | true => exact ⟨rfl, Schema.resolvable_never⟩
      | false => exact ih hresolvable (walked ++ [segment])

/-- Where a schema is resolved below an accepted value, it accepts what is there. -/
lemma resolveSegments_accepts {t : Schema} {walked segments : List String}
    (h : resolveSegments walked schema segments = .ok t) (hv : schema.Accepts v)
    (hx : getDataSegments v segments = some x) : t.Accepts x := by
  induction segments generalizing schema v walked with
  | nil =>
    cases h
    have heq : v = x := by simpa [getDataSegments] using hx
    exact heq ▸ hv
  | cons segment rest ih =>
    cases v with
    | obj d =>
      obtain ⟨y, hy, hx⟩ := Option.bind_eq_some_iff.mp hx
      rw [resolveSegments] at h
      obtain ⟨child, hchild, h⟩ := Raising.bind_eq_ok.mp h
      have haccepts := schemaChildSchema_accepts hchild hv hy
      have hlive : ¬child.isNever = true := fun hnever => Schema.not_accepts_of_isNever hnever y haccepts
      rw [if_neg hlive] at h
      exact ih h haccepts hx
    | _ => simp [getDataSegments] at hx

/-- A value of the required-path schema has the path. -/
lemma exists_getDataSegments {segments : List String}
    (hv : (requiredPathSchema segments).Accepts v) : ∃ x, getDataSegments v segments = some x := by
  induction segments generalizing v with
  | nil => exact ⟨v, rfl⟩
  | cons segment rest ih =>
    obtain ⟨d, rfl, hrequired, hmember⟩ := objectSchema_accepts.mp hv
    obtain ⟨y, hy⟩ := Dict.has_eq_true_iff.mp (hrequired segment (by simp))
    obtain ⟨x, hx⟩ := ih (hmember segment y hy (requiredPathSchema rest) (by simp))
    exact ⟨x, by simp [getDataSegments, hy, hx]⟩

/-- The root schemas of an expansion are normalized DataKey schemas. -/
lemma expandContracts_root_valid {contracts : List (String × Json)} {expanded : Contracts}
    (h : expandContracts contracts = .ok expanded) {root : String} (hroot : isPathSegment root = true)
    (hschema : expanded.lookup root = some schema) : schema.Normal ∧ schema.DataKeyValid := by
  obtain ⟨explicit, -, hbuilt, hnone⟩ := expandContracts_roots h
  have hname : root ∈ childNames explicit := by
    by_contra hnot
    rw [hnone root (dot_notMem_of_isPathSegment hroot) hnot] at hschema
    cases hschema
  obtain ⟨built, normalized, -, hnormalized, hlookup⟩ := hbuilt root hname
  rw [hlookup] at hschema
  cases hschema
  exact ⟨normalizeDataKeySchema_normal hnormalized,
    validateDataKeySchema_iff.mp (normalizeDataKeySchema_eq_ok.mp hnormalized).2⟩

/-- The schema that a path resolves to accepts the value that is there. -/
lemma accepts_of_resolved {expanded : Contracts} {requiredRoots : List String} {data : DataDict}
    (hdata : Conforms expanded requiredRoots data) {path : String} {parts : DataPath}
    (hpath : splitDataPath path = .ok parts)
    (h : resolveExpandedContractPath expanded path = .ok (some schema))
    (hv : getDataSegments (.obj data) parts.parts = some v) : schema.Accepts v := by
  obtain ⟨x, hx, hbelow⟩ := Option.bind_eq_some_iff.mp hv
  obtain ⟨-, root, hroot, haccepts⟩ := (conforms_iff.mp hdata).1 parts.root x hx
  simp only [resolveExpandedContractPath, hpath, Raising.ok_bind, hroot] at h
  split at h
  case h_1 hrest =>
    cases h
    rw [hrest] at hbelow
    have heq : x = v := by simpa [getDataSegments] using hbelow
    exact heq ▸ haccepts
  case h_2 =>
    obtain ⟨resolved, hresolved, h⟩ := Raising.bind_eq_ok.mp h
    rw [Raising.pure_eq_ok] at h
    split_ifs at h
    cases h
    exact resolveSegments_accepts hresolved haccepts hbelow

/-- A path that the contracts report as required is there. -/
lemma exists_of_pathRequired {expanded : Contracts} {requiredRoots : List String} {data : DataDict}
    (hdata : Conforms expanded requiredRoots data) {path : String} {parts : DataPath}
    (hpath : splitDataPath path = .ok parts)
    (hrequired : expandedContractPathRequired expanded path (some requiredRoots) = .ok true) :
    ∃ value, getDataSegments (.obj data) parts.parts = some value := by
  simp only [expandedContractPathRequired, hpath, Raising.ok_bind] at hrequired
  cases hschema : expanded.lookup parts.root with
  | none => simp [hschema] at hrequired
  | some schema =>
    simp only [hschema] at hrequired
    have hrequired : (if parts.root ∉ requiredRoots then pure false
        else if parts.rest = [] then pure true
        else normalizedSchemasCompatible schema (requiredPathSchema parts.rest)) = Except.ok true :=
      hrequired
    have hmem : parts.root ∈ requiredRoots := by
      by_contra hnot
      simp [hnot] at hrequired
    obtain ⟨x, hx⟩ := Dict.has_eq_true_iff.mp (hdata.required parts.root hmem)
    by_cases hrest : parts.rest = []
    · exact ⟨x, by simp [DataPath.parts, getDataSegments, hx, hrest]⟩
    · rw [if_neg (not_not.mpr hmem), if_neg hrest] at hrequired
      obtain ⟨-, schema', hschema', haccepts⟩ := (conforms_iff.mp hdata).1 parts.root x hx
      cases hschema.symm.trans hschema'
      obtain ⟨value, hvalue⟩ := exists_getDataSegments
        (normalizedSchemasCompatible_sound hrequired x haccepts)
      exact ⟨value, by simp [DataPath.parts, getDataSegments, hx, hvalue]⟩

/-- A conforming Data Dict holds nothing at a path that symbolic resolution does not predict, exactly
where the resolution comes to no loose schema, and everything that is reported as required. -/
theorem pathResolution_sound_iff {contracts : List (String × Json)} {expanded : Contracts}
    (h : expandContracts contracts = .ok expanded)
    {requiredRoots : List String} {given : Option (List String)} {data : DataDict}
    (hroots : given = some requiredRoots ∨
      given = none ∧ expandedContractRootPaths expanded = .ok requiredRoots)
    (hdata : Conforms expanded requiredRoots data) {path : String} {parts : DataPath}
    (hpath : splitDataPath path = .ok parts) :
    ((∀ value, getDataSegments (.obj data) parts.parts = some value → ∃ schema,
        resolveExpandedContractPath expanded path = .ok (some schema) ∧
          validateNormalizedJsonValue false value schema path = .ok ()) ∧
      (expandedContractPathRequired expanded path given = .ok true →
        ∃ value, getDataSegments (.obj data) parts.parts = some value)) ↔
    ∀ value schema, getDataSegments (.obj data) parts.parts = some value →
      expanded.lookup parts.root = some schema → meetsLooseAlong [parts.root] schema parts.rest = false := by
  have hrequired : expandedContractPathRequired expanded path given = .ok true →
      ∃ value, getDataSegments (.obj data) parts.parts = some value := by
    intro hrequired
    apply exists_of_pathRequired hdata hpath
    rcases hroots with rfl | ⟨rfl, hroots⟩
    · exact hrequired
    · rw [← hrequired]
      simp only [expandedContractPathRequired, hpath, hroots, Raising.ok_bind, pure, Except.pure]
  rw [and_iff_left hrequired]
  constructor
  · intro hall value schema hvalue hschema
    obtain ⟨resolved, hresolved, -⟩ := hall value hvalue
    obtain ⟨x, hx, -⟩ := Option.bind_eq_some_iff.mp hvalue
    obtain ⟨hsegment, -⟩ := (conforms_iff.mp hdata).1 parts.root x hx
    obtain ⟨hnormal, hvalid⟩ := expandContracts_root_valid h hsegment hschema
    simp only [resolveExpandedContractPath, hpath, Raising.ok_bind, hschema] at hresolved
    cases hrest : parts.rest with
    | nil => rfl
    | cons next rest =>
      rw [hrest] at hresolved
      obtain ⟨t, ht, -⟩ := Raising.bind_eq_ok.mp hresolved
      exact (resolveSegments_settles ⟨hnormal, hvalid⟩ _ _).not_raises ht
  · intro htight value hvalue
    obtain ⟨x, hx, hbelow⟩ := Option.bind_eq_some_iff.mp hvalue
    obtain ⟨hsegment, schema, hschema, haccepts⟩ := (conforms_iff.mp hdata).1 parts.root x hx
    obtain ⟨hnormal, hvalid⟩ := expandContracts_root_valid h hsegment hschema
    have hresolve := htight value schema hvalue hschema
    simp only [resolveExpandedContractPath, hpath, Raising.ok_bind, hschema]
    cases hrest : parts.rest with
    | nil =>
      rw [hrest] at hbelow
      have heq : x = value := by simpa [getDataSegments] using hbelow
      exact ⟨schema, rfl, validateNormalizedJsonValue_eq_ok.mpr (heq ▸ haccepts)⟩
    | cons next rest =>
      rw [hrest] at hbelow hresolve
      obtain ⟨t, ht, -⟩ := (resolveSegments_settles ⟨hnormal, hvalid⟩ _ _).exists_ok hresolve
      have htx := resolveSegments_accepts ht haccepts hbelow
      have hlive : ¬t.isNever = true := fun hnever => Schema.not_accepts_of_isNever hnever value htx
      refine ⟨t, ?_, validateNormalizedJsonValue_eq_ok.mpr htx⟩
      simp [ht, hlive]

/-- Data whose every root the contracts accept, as a check. -/
lemma conforms_of_all {contracts : Contracts} {requiredRoots : List String} {data : DataDict}
    (hroots : (data.all fun e => isPathSegment e.1 && (contracts.lookup e.1).any fun schema =>
      (validateNormalizedJsonValue false e.2 schema e.1).toBool) = true)
    (hrequired : requiredRoots.all (Dict.has data) = true) : Conforms contracts requiredRoots data := by
  constructor
  · intro root value hvalue
    have hroot := List.all_eq_true.mp hroots _ (Dict.lookup_mem hvalue)
    obtain ⟨hsegment, hany⟩ := Bool.and_eq_true_iff.mp hroot
    obtain ⟨schema, hschema, haccepts⟩ := (Option.any_eq_true _ _).mp hany
    exact ⟨hsegment, schema, hschema, Raising.toBool_eq_true.mp haccepts⟩
  · exact List.all_eq_true.mp hrequired

/-- A typed map, beside a root whose members cannot be resolved. -/
theorem pathResolution_sound_typedMap :
    let map := Json.obj [("type", .str "object"), ("additionalProperties", .obj [("type", .str "integer")])]
    let contracts : List (String × Json) := [("q", map),
      ("r", .obj [("additionalProperties", .obj [("title", .str "note")]), ("anyOf", .arr [map])])]
    let data : DataDict := [("q", .obj [("a", .int 1)]), ("r", .obj [("k", .int 1)])]
    ∃ expanded, expandContracts contracts = .ok expanded ∧
      (∀ value, getDataSegments (.obj data) ["q", "a"] = some value → ∃ schema,
        resolveExpandedContractPath expanded "q.a" = .ok (some schema) ∧
          validateNormalizedJsonValue false value schema "q.a" = .ok ()) ∧
      (expandedContractPathRequired expanded "q.a" (some ["q"]) = .ok true →
        ∃ value, getDataSegments (.obj data) ["q", "a"] = some value) := by
  intro map contracts data
  have hcheck : ((expandContracts contracts).toOption.any fun expanded =>
      ((expanded.lookup "q").any fun schema => !meetsLooseAlong ["q"] schema ["a"]) &&
      data.all fun e => isPathSegment e.1 && (expanded.lookup e.1).any fun schema =>
        (validateNormalizedJsonValue false e.2 schema e.1).toBool) = true := by
    with_unfolding_all decide
  obtain ⟨expanded, hexpanded, hchecks⟩ := Raising.any_toOption.mp hcheck
  obtain ⟨hloose, hroots⟩ := Bool.and_eq_true_iff.mp hchecks
  have hparts : splitDataPath "q.a" = .ok ⟨"q", ["a"], by decide⟩ := by with_unfolding_all decide
  refine ⟨expanded, hexpanded, (pathResolution_sound_iff hexpanded (Or.inl rfl)
    (conforms_of_all hroots (by decide)) hparts).mpr fun value schema _ hschema => ?_⟩
  change expanded.lookup "q" = some schema at hschema
  rw [hschema, Option.any_some, Bool.not_eq_true'] at hloose
  exact hloose

/-- Beside a composition keyword the DataKey rules never look at `additionalProperties`, so a value
can conform although its path cannot be resolved. -/
theorem pathResolution_unsealed :
    let note := Json.obj [("title", .str "note")]
    let map := Json.obj [("type", .str "object"),
      ("additionalProperties", .obj [("type", .str "integer")])]
    let contracts : List (String × Json) :=
      [("r", .obj [("additionalProperties", note), ("anyOf", .arr [map])])]
    let data : DataDict := [("r", .obj [("k", .int 1)])]
    ∃ expanded, expandContracts contracts = .ok expanded ∧ Conforms expanded ["r"] data ∧
      resolveExpandedContractPath expanded "r.k" = .error (.valueError
        "DataKey contract 'r.k.allOf[0]' must declare a concrete runtime type.") ∧
      ¬∀ value, getDataSegments (.obj data) ["r", "k"] = some value → ∃ schema,
        resolveExpandedContractPath expanded "r.k" = .ok (some schema) ∧
          validateNormalizedJsonValue false value schema "r.k" = .ok () := by
  intro note map contracts data
  have hcheck : ((expandContracts contracts).toOption.any fun expanded =>
      decide ((resolveExpandedContractPath expanded "r.k").map (fun _ => ()) = .error (.valueError
        "DataKey contract 'r.k.allOf[0]' must declare a concrete runtime type.")) &&
      data.all fun e => isPathSegment e.1 && (expanded.lookup e.1).any fun schema =>
        (validateNormalizedJsonValue false e.2 schema e.1).toBool) = true := by
    with_unfolding_all decide
  obtain ⟨expanded, hexpanded, hchecks⟩ := Raising.any_toOption.mp hcheck
  obtain ⟨hresolve, hroots⟩ := Bool.and_eq_true_iff.mp hchecks
  have herror : resolveExpandedContractPath expanded "r.k" = .error (.valueError
      "DataKey contract 'r.k.allOf[0]' must declare a concrete runtime type.") := by
    rw [decide_eq_true_eq] at hresolve
    cases hcase : resolveExpandedContractPath expanded "r.k" with
    | error e =>
      rw [hcase] at hresolve
      rw [Except.error.inj hresolve]
    | ok _ =>
      rw [hcase] at hresolve
      cases hresolve
  refine ⟨expanded, hexpanded, conforms_of_all hroots (by decide), herror, fun hall => ?_⟩
  obtain ⟨schema, hschema, -⟩ := hall (.int 1) rfl
  rw [herror] at hschema
  cases hschema

end Soundness

end TradeFramework
