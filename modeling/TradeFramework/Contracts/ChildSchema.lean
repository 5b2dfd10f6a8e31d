import TradeFramework.Data.DataKey
import TradeFramework.Data.CompatibilitySound

/-!
# The contract of a named child

`_schema_child_schema` resolves what an object schema asks of one member, through every
composition keyword and every literal. It is sound: a member of an accepted object is
accepted by the resolved schema.
-/

namespace TradeFramework

section Literals

/-- The object schemas the engine builds, with all four object keywords. -/
def objectKeywords (properties : List (String × Schema)) (required : List String)
    (additionalProperties : Option Schema) : Keywords Schema where
  type := some [.object]
  properties := some properties
  required := some required
  additionalProperties := some additionalProperties

def objectSchema (properties : List (String × Schema)) (required : List String)
    (additionalProperties : Option Schema) : Schema :=
  .object (objectKeywords properties required additionalProperties)

/-- `literal_data_key_schema`. -/
def literalDataKeySchema : Json → Schema
  | .obj d =>
    let properties := (Dict.items d).attach.map fun e => (e.1.1, literalDataKeySchema e.1.2)
    objectSchema properties (sortedStrings (Dict.keys properties)) (some .never)
  | value => .object { const := some value }
termination_by value => sizeOf value
decreasing_by exact Json.sizeOf_lt_obj e.2

/-- The members a literal names. -/
def literalNames : Json → List String
  | .obj d => Dict.keys d
  | _ => []

/-- One level of `_schema_explicit_child_names`, from the names of the branches. -/
def Keywords.explicitNames (kw : Keywords (List String)) : List String :=
  Dict.keys kw.propertyMap ++ (kw.const.toList ++ kw.enum.getD []).flatMap literalNames ++
    (kw.anyOf.getD [] ++ kw.oneOf.getD [] ++ kw.allOf.getD []).flatten

/-- `_schema_explicit_child_names`, in any order. -/
def schemaExplicitChildNames : Schema → List String := Schema.fold [] Keywords.explicitNames

end Literals

section Combination

/-- The distinct schemas, in order. -/
def uniqueSchemas (options : List Schema) : List Schema := Related.distinct schemaValuesEqual options

/-- `_schema_union`. -/
def schemaUnion (options : List Schema) (path : String) : Except PyError Schema :=
  match uniqueSchemas options with
  | [] => pure .never
  | [option] => pure option
  | unique => normalizeDataKeySchema (Schema.object { anyOf := some unique }).toJson path

/-- Whether a schema is the wildcard `{}`. -/
def Schema.isWildcard : Schema → Bool
  | .never => false
  | .object kw => kw.isEmpty

/-- `_schema_intersection`. -/
def schemaIntersection (options : List Schema) (path : String) : Except PyError Schema :=
  let material := options.filter fun option => !option.isWildcard
  if material.any Schema.isNever then pure .never
  else match uniqueSchemas material with
    | [] => pure .wildcard
    | [option] => pure option
    | unique => normalizeDataKeySchema (Schema.object { allOf := some unique }).toJson path

end Combination

namespace Keywords

variable {σ : Type}

/-- The constraint of the object keywords on a member; `none` where it cannot exist. -/
def directConstraint (kw : Keywords Schema) (name : String) : Option (List Schema) :=
  if kw.type.isNone && kw.properties.isNone && kw.required.isNone && kw.additionalProperties.isNone
  then some []
  else if .object ∉ kw.schemaTypes then none
  else match kw.propertyMap.lookup name with
    | some s => some [s]
    | none => match kw.extra with
      | none => some []
      | some .never => none
      | some s => some [s]

/-- The constraint of the `const` keyword on a member. -/
def constConstraint (kw : Keywords σ) (name : String) : Option (List Schema) :=
  match kw.const with
  | none => some []
  | some (.obj d) => (d.lookup name).map fun value => [literalDataKeySchema value]
  | some _ => none

/-- The schemas of a member in the listed values that have it. -/
def enumChildren (name : String) (values : List Json) : List Schema :=
  values.filterMap fun
    | .obj d => (d.lookup name).map literalDataKeySchema
    | _ => none

end Keywords

/-- The constraint of alternatives, given the member schemas of the alternatives. -/
def unionConstraint (path : String) (children : Option (List Schema)) :
    Except PyError (Option (List Schema)) :=
  match children with
  | none => pure (some [])
  | some children =>
    let live := children.filter fun child => !child.isNever
    if live = [] then pure none else (fun s => some [s]) <$> schemaUnion live path

/-- The constraint of a conjunction. -/
def intersectionConstraint (path : String) (children : Option (List Schema)) :
    Except PyError (Option (List Schema)) :=
  match children with
  | none => pure (some [])
  | some children =>
    if children.any Schema.isNever then pure none
    else (fun s => some [s]) <$> schemaIntersection children path

/-- `return False` where a keyword rules the member out. -/
def orNever (constraint : Option (List Schema)) (next : List Schema → Except PyError Schema) :
    Except PyError Schema :=
  match constraint with
  | none => pure .never
  | some schemas => next schemas

/-- `_schema_child_schema`. -/
def schemaChildSchema (schema : Schema) (name path : String) : Except PyError Schema :=
  match schema with
  | .never => pure .never
  | .object kw =>
    let childPath := s!"{path}.{name}"
    orNever (kw.directConstraint name) fun direct =>
    orNever (kw.constConstraint name) fun literal => do
    orNever (← unionConstraint childPath (kw.enum.map (Keywords.enumChildren name))) fun listed => do
    let anyOf ← kw.attach.anyOf.mapM fun branches => branches.mapM fun branch =>
      schemaChildSchema branch.1 name s!"{path}.anyOf"
    orNever (← unionConstraint childPath anyOf) fun any => do
    let oneOf ← kw.attach.oneOf.mapM fun branches => branches.mapM fun branch =>
      schemaChildSchema branch.1 name s!"{path}.oneOf"
    orNever (← unionConstraint childPath oneOf) fun one => do
    let allOf ← kw.attach.allOf.mapM fun branches => branches.mapM fun branch =>
      schemaChildSchema branch.1 name s!"{path}.allOf"
    orNever (← intersectionConstraint childPath allOf) fun all =>
    schemaIntersection (direct ++ literal ++ listed ++ any ++ one ++ all) childPath
termination_by sizeOf schema
decreasing_by all_goals exact Schema.sizeOf_lt_object branch.2

section Soundness

variable {path : String} {v : Json}

lemma schemaValuesEqual_refl (s : Schema) : schemaValuesEqual s s = true := jsonValuesEqual_refl _

lemma exists_uniqueSchemas {options : List Schema} :
    (∃ s ∈ uniqueSchemas options, s.Accepts v) ↔ ∃ s ∈ options, s.Accepts v := by
  constructor
  · rintro ⟨s, hs, hv⟩
    exact ⟨s, Related.distinct_subset options hs, hv⟩
  · rintro ⟨s, hs, hv⟩
    obtain ⟨t, ht, hst⟩ := Related.exists_mem_distinct schemaValuesEqual_refl hs
    exact ⟨t, ht, (accepts_of_schemaValuesEqual hst v).mp hv⟩

lemma forall_uniqueSchemas {options : List Schema} :
    (∀ s ∈ uniqueSchemas options, s.Accepts v) ↔ ∀ s ∈ options, s.Accepts v := by
  constructor
  · intro h s hs
    obtain ⟨t, ht, hst⟩ := Related.exists_mem_distinct schemaValuesEqual_refl hs
    exact (accepts_of_schemaValuesEqual hst v).mpr (h t ht)
  · exact fun h s hs => h s (Related.distinct_subset options hs)

/-- `{"allOf": branches}` asks nothing but its branches. -/
lemma Schema.accepts_allOf {branches : List Schema} :
    (Schema.object { allOf := some branches }).Accepts v ↔ ∀ b ∈ branches, b.Accepts v := by
  have hbase : ({ allOf := some branches } : Keywords Schema).base = {} := rfl
  have hunions : ({ allOf := some branches } : Keywords Schema).unions = [] := rfl
  have hwild : (Schema.object {}).Accepts v := accepts_wildcard v
  rw [accepts_object_iff_base, hbase, hunions]
  simp [hwild]

lemma Schema.accepts_anyOf {branches : List Schema} :
    (Schema.object { anyOf := some branches }).Accepts v ↔ ∃ b ∈ branches, b.Accepts v := by
  have hunion : (Schema.object (Keywords.ofUnion .anyOf branches)).Accepts v ↔ _ :=
    Schema.accepts_ofUnion
  exact hunion

lemma Schema.isWildcard_iff {s : Schema} : s.isWildcard = true ↔ s = .wildcard := by
  cases s with
  | never => simp [isWildcard, wildcard]
  | object kw => simp [isWildcard, wildcard, Keywords.isEmpty_iff]

lemma schemaUnion_accepts {options : List Schema} {t : Schema}
    (h : schemaUnion options path = .ok t) : t.Accepts v ↔ ∃ s ∈ options, s.Accepts v := by
  rw [← exists_uniqueSchemas]
  unfold schemaUnion at h
  split at h
  case h_1 hnil =>
    cases h
    simp [hnil]
  case h_2 s hsingle =>
    cases h
    simp [hsingle]
  case h_3 =>
    rw [← accepts_of_normalizeDataKeySchema h, Schema.accepts_anyOf]

lemma schemaIntersection_accepts {options : List Schema} {t : Schema}
    (h : schemaIntersection options path = .ok t) : t.Accepts v ↔ ∀ s ∈ options, s.Accepts v := by
  have hmaterial : (∀ s ∈ options, s.Accepts v) ↔
      ∀ s ∈ options.filter fun option => !option.isWildcard, s.Accepts v := by
    constructor
    · exact fun hall s hs => hall s (List.mem_of_mem_filter hs)
    · intro hall s hs
      by_cases hwild : s.isWildcard = true
      · rw [Schema.isWildcard_iff.mp hwild]
        exact Schema.accepts_wildcard v
      · exact hall s (List.mem_filter.mpr ⟨hs, by simpa using hwild⟩)
  rw [hmaterial]
  unfold schemaIntersection at h
  dsimp only at h
  generalize options.filter (fun option => !option.isWildcard) = material at h ⊢
  split_ifs at h with hnever
  · obtain ⟨s, hs, hsnever⟩ := List.any_eq_true.mp hnever
    cases h
    refine ⟨fun hv => absurd hv (Schema.accepts_never v), fun hall => ?_⟩
    exact absurd (hall s hs) (Schema.not_accepts_of_isNever hsnever v)
  · rw [← forall_uniqueSchemas]
    split at h
    case h_1 hnil =>
      cases h
      simp [hnil]
    case h_2 s hsingle =>
      cases h
      simp [hsingle]
    case h_3 =>
      rw [← accepts_of_normalizeDataKeySchema h, Schema.accepts_allOf]

lemma mem_sortedStrings {names : List String} {name : String} :
    name ∈ sortedStrings names ↔ name ∈ names :=
  List.mem_insertionSort (· ≤ ·)

lemma objectSchema_accepts {properties : List (String × Schema)} {required : List String}
    {extra : Option Schema} : (objectSchema properties required extra).Accepts v ↔
      ∃ d, v = .obj d ∧ (∀ name ∈ required, Dict.has d name = true) ∧
        ∀ name x, d.lookup name = some x → ∀ s, (properties.lookup name).or extra = some s →
          s.Accepts x := by
  have hchild : ∀ name, (objectKeywords properties required extra).child name =
      (properties.lookup name).or extra := by
    intro name
    simp only [objectKeywords, Keywords.child, Keywords.propertyMap, Keywords.extra,
      Option.getD_some]
    cases properties.lookup name <;> rfl
  rw [objectSchema, Schema.accepts_object]
  constructor
  · intro h
    have htype := h.type
    rw [SchemaContext.schemaTypes_of_type rfl (by simp), TypeAllowed] at htype
    cases v with
    | obj d =>
      refine ⟨d, rfl, h.required d rfl, fun name x hx s hs => ?_⟩
      exact h.member d rfl name x hx s (by rw [hchild, hs])
    | _ => simp [jsonType] at htype
  · rintro ⟨d, rfl, hrequired, hmember⟩
    refine ⟨by simp [objectKeywords], ?_, Or.inl ?_, by simp [objectKeywords],
      by simp [objectKeywords], ?_, ?_, by simp⟩
    · rintro (_ | _) <;> simp [Keywords.union, objectKeywords]
    · rw [SchemaContext.schemaTypes_of_type rfl (by simp)]
      simp [jsonType]
    · rintro _ ⟨⟩
      exact hrequired
    · rintro _ ⟨⟩ name x hx s hs
      exact hmember name x hx s (by rw [← hchild, hs])

lemma literalDataKeySchema_obj (d : List (String × Json)) : literalDataKeySchema (.obj d) =
    objectSchema (Dict.mapValues (fun _ value => literalDataKeySchema value) (Dict.items d))
      (sortedStrings (Dict.keys d)) (some .never) := by
  have hproperties : ((Dict.items d).attach.map fun e => (e.1.1, literalDataKeySchema e.1.2)) =
      Dict.mapValues (fun _ value => literalDataKeySchema value) (Dict.items d) := by
    conv_rhs => rw [Dict.mapValues, ← List.attach_map_subtype_val (Dict.items d), List.map_map]
    rfl
  rw [literalDataKeySchema, hproperties, Dict.keys, Dict.items_mapValues, Dict.items_items]
  simp [Dict.keys, Dict.mapValues, Function.comp_def]

/-- A literal schema accepts exactly the values equal to its literal. -/
theorem literalDataKeySchema_accepts {literal : Json} :
    (literalDataKeySchema literal).Accepts v ↔ jsonValuesEqual v literal = true := by
  have hconst : ∀ c v : Json, (Schema.object { const := some c }).Accepts v ↔
      jsonValuesEqual v c = true := by
    intro c v
    rw [Schema.accepts_object]
    constructor
    · exact fun h => h.const c rfl
    · intro h
      refine ⟨by simp, ?_, Or.inl (mem_jsonTypes _), ?_, by simp, ?_, ?_, by simp⟩
      · rintro (_ | _) <;> simp [Keywords.union]
      · rintro _ ⟨⟩
        exact h
      all_goals simp [Keywords.requiredNames, Keywords.child, Keywords.propertyMap, Keywords.extra]
  induction literal using Json.visibleInduction generalizing v with
  | scalar c _ hobj =>
    cases c with
    | obj d => exact absurd rfl (hobj d)
    | _ => rw [literalDataKeySchema]; exact hconst _ _; all_goals simp
  | arr xs _ => rw [literalDataKeySchema]; exact hconst _ _; simp
  | obj d ih =>
    rw [literalDataKeySchema_obj, objectSchema_accepts]
    constructor
    · rintro ⟨e, rfl, hrequired, hmember⟩
      refine jsonValuesEqual_obj.mpr fun name => ?_
      cases hd : d.lookup name with
      | none =>
        cases he : e.lookup name with
        | none => exact .none
        | some x =>
          have hnever := hmember name x he .never (by simp [Dict.lookup_mapValues, hd])
          exact absurd hnever (Schema.accepts_never x)
      | some c =>
        have hmem : name ∈ sortedStrings (Dict.keys d) :=
          mem_sortedStrings.mpr (Dict.mem_keys.mpr (by simp [hd]))
        obtain ⟨x, hx⟩ := Dict.has_eq_true_iff.mp (hrequired name hmem)
        rw [hx]
        have hs := hmember name x hx (literalDataKeySchema c) (by simp [Dict.lookup_mapValues, hd])
        exact .some ((ih name c hd).mp hs)
    · intro h
      obtain ⟨e, rfl⟩ := eq_obj_of_equal (jsonValuesEqual_symm h)
      have hkey := jsonValuesEqual_obj.mp h
      refine ⟨e, rfl, fun name hname => ?_, fun name x hx s hs => ?_⟩
      · have hrel := hkey name
        have hsome := Dict.mem_keys.mp (mem_sortedStrings.mp hname)
        rw [Dict.has, Related.rel_isSome hrel, hsome]
      · have hrel := hkey name
        rw [hx] at hrel
        generalize hd : d.lookup name = o at hrel
        cases hrel with
        | some hxc =>
          rw [Dict.lookup_mapValues, Dict.lookup_items, hd] at hs
          cases hs
          exact (ih name _ hd).mpr hxc

/-- A constraint a member of an accepted object satisfies. -/
def Allows (constraint : Option (List Schema)) (x : Json) : Prop :=
  ∃ schemas, constraint = some schemas ∧ ∀ s ∈ schemas, s.Accepts x

lemma orNever_allows {constraint : Option (List Schema)} {s : Schema} {x : Json}
    {next : List Schema → Except PyError Schema} (h : orNever constraint next = .ok s)
    (hx : Allows constraint x) :
    ∃ schemas, (∀ t ∈ schemas, t.Accepts x) ∧ next schemas = .ok s := by
  obtain ⟨schemas, rfl, hall⟩ := hx
  exact ⟨schemas, hall, h⟩

lemma unionConstraint_allows {children constraint : Option (List Schema)} {x : Json}
    (h : unionConstraint path children = .ok constraint)
    (hx : ∀ cs, children = some cs → ∃ c ∈ cs, c.Accepts x) : Allows constraint x := by
  cases children with
  | none =>
    cases h
    exact ⟨[], rfl, by simp⟩
  | some cs =>
    obtain ⟨c, hc, hcx⟩ := hx cs rfl
    have hlive : c ∈ cs.filter fun child => !child.isNever := by
      refine List.mem_filter.mpr ⟨hc, ?_⟩
      by_contra hnever
      exact Schema.not_accepts_of_isNever (by simpa using hnever) x hcx
    unfold unionConstraint at h
    dsimp only at h
    rw [if_neg (List.ne_nil_of_mem hlive), Raising.map_eq_ok] at h
    obtain ⟨s, hs, rfl⟩ := h
    refine ⟨[s], rfl, fun t ht => ?_⟩
    rw [List.mem_singleton.mp ht]
    exact (schemaUnion_accepts hs).mpr ⟨c, hlive, hcx⟩

lemma intersectionConstraint_allows {children constraint : Option (List Schema)} {x : Json}
    (h : intersectionConstraint path children = .ok constraint)
    (hx : ∀ cs, children = some cs → ∀ c ∈ cs, c.Accepts x) : Allows constraint x := by
  cases children with
  | none =>
    cases h
    exact ⟨[], rfl, by simp⟩
  | some cs =>
    have hlive : ¬cs.any Schema.isNever = true := by
      intro hany
      obtain ⟨c, hc, hnever⟩ := List.any_eq_true.mp hany
      exact Schema.not_accepts_of_isNever hnever x (hx cs rfl c hc)
    unfold intersectionConstraint at h
    dsimp only at h
    rw [if_neg hlive, Raising.map_eq_ok] at h
    obtain ⟨s, hs, rfl⟩ := h
    refine ⟨[s], rfl, fun t ht => ?_⟩
    rw [List.mem_singleton.mp ht]
    exact (schemaIntersection_accepts hs).mpr (hx cs rfl)

section Member

variable {kw : Keywords Schema} {d : List (String × Json)} {name : String} {x : Json}

lemma Keywords.Admits.directConstraint_allows (h : kw.Admits Schema.Accepts (.obj d))
    (hx : d.lookup name = some x) : Allows (kw.directConstraint name) x := by
  have htype : JsonType.object ∈ kw.schemaTypes := typeAllowed_object.mp h.type
  have hmember := h.member d rfl name x hx
  unfold directConstraint
  split_ifs
  · exact ⟨[], rfl, by simp⟩
  · split
    case h_1 s hs =>
      refine ⟨[s], rfl, fun t ht => ?_⟩
      rw [List.mem_singleton.mp ht]
      exact hmember s (by simp [child, hs])
    case h_2 hnone =>
      have hextra : kw.child name = kw.extra := by simp [child, hnone]
      split
      · exact ⟨[], rfl, by simp⟩
      case h_2 hnever =>
        exact absurd (hmember .never (hextra.trans hnever)) (Schema.accepts_never x)
      case h_3 s _ hs =>
        refine ⟨[s], rfl, fun t ht => ?_⟩
        rw [List.mem_singleton.mp ht]
        exact hmember s (hextra.trans hs)

lemma Keywords.Admits.constConstraint_allows (h : kw.Admits Schema.Accepts (.obj d))
    (hx : d.lookup name = some x) : Allows (kw.constConstraint name) x := by
  unfold constConstraint
  cases hconst : kw.const with
  | none => exact ⟨[], rfl, by simp⟩
  | some c =>
    have hequal := h.const c hconst
    obtain ⟨e, rfl⟩ := eq_obj_of_equal hequal
    have hrel := jsonValuesEqual_obj.mp hequal name
    rw [hx] at hrel
    generalize he : e.lookup name = o at hrel
    cases hrel with
    | some hxy =>
      refine ⟨_, by simp only [he, Option.map_some]; rfl, fun t ht => ?_⟩
      rw [List.mem_singleton.mp ht]
      exact literalDataKeySchema_accepts.mpr hxy

lemma Keywords.Admits.exists_enumChild (h : kw.Admits Schema.Accepts (.obj d))
    (hx : d.lookup name = some x) :
    ∀ cs, kw.enum.map (enumChildren name) = some cs → ∃ c ∈ cs, c.Accepts x := by
  intro cs hcs
  obtain ⟨values, hvalues, rfl⟩ := Option.map_eq_some_iff.mp hcs
  obtain ⟨value, hmem, hequal⟩ := jsonValueIn_iff.mp (h.enum values hvalues)
  obtain ⟨e, rfl⟩ := eq_obj_of_equal hequal
  have hrel := jsonValuesEqual_obj.mp hequal name
  rw [hx] at hrel
  generalize he : e.lookup name = o at hrel
  cases hrel with
  | @some _ y hxy =>
    refine ⟨literalDataKeySchema y, ?_, literalDataKeySchema_accepts.mpr hxy⟩
    exact List.mem_filterMap.mpr ⟨_, hmem, by simp [he]⟩

end Member

/-- A member of an accepted object is accepted by the schema resolved for it. -/
theorem schemaChildSchema_accepts {schema child : Schema} {name path : String}
    {d : List (String × Json)} {x : Json} (h : schemaChildSchema schema name path = .ok child)
    (hv : schema.Accepts (.obj d)) (hx : d.lookup name = some x) : child.Accepts x := by
  induction schema using Schema.childInduction generalizing child path with
  | never => exact absurd hv (Schema.accepts_never _)
  | object kw ih =>
    have hadmits := Schema.accepts_object.mp hv
    have hattach := Schema.accepts_attach.mp hv
    -- the schemas resolved for the branches, related to the branches
    have hbranches : ∀ {branches : Option (List {s // s ∈ kw.children})} {branchPath : String}
        {children : Option (List Schema)},
        (branches.mapM fun bs => bs.mapM fun branch =>
          schemaChildSchema branch.1 name branchPath) = .ok children →
        Option.Rel (List.Forall₂ fun branch child => branch.1.Accepts (.obj d) → child.Accepts x)
          branches children := by
      intro branches branchPath children hchildren
      refine Related.rel_mono (fun bs cs hbs => ?_) (Raising.option_mapM_eq_ok.mp hchildren)
      exact (Raising.mapM_eq_ok.mp hbs).imp fun branch c hc hb => ih branch.1 branch.2 hc hb
    have hunion : ∀ (keyword : UnionKeyword) {children : Option (List Schema)},
        Option.Rel (List.Forall₂ fun branch child => branch.1.Accepts (.obj d) → child.Accepts x)
          (kw.attach.union keyword) children →
        ∀ cs, children = some cs → ∃ c ∈ cs, c.Accepts x := by
      rintro keyword children hrel cs rfl
      obtain ⟨bs, hbs, hall⟩ := Related.exists_of_rel_some hrel
      obtain ⟨b, hb, hbv⟩ := (hattach.union keyword bs hbs).exists_mem
      obtain ⟨c, hc, hbc⟩ := Related.exists_mem_left hall.flip hb
      exact ⟨c, hc, hbc hbv⟩
    rw [schemaChildSchema] at h
    obtain ⟨direct, hdirect, h⟩ := orNever_allows h (hadmits.directConstraint_allows hx)
    obtain ⟨literal, hliteral, h⟩ := orNever_allows h (hadmits.constConstraint_allows hx)
    obtain ⟨enum, henum, h⟩ := Raising.bind_eq_ok.mp h
    obtain ⟨listed, hlisted, h⟩ :=
      orNever_allows h (unionConstraint_allows henum (hadmits.exists_enumChild hx))
    obtain ⟨anyChildren, hany, h⟩ := Raising.bind_eq_ok.mp h
    obtain ⟨anyOf, hanyOf, h⟩ := Raising.bind_eq_ok.mp h
    obtain ⟨any, hanyAll, h⟩ := orNever_allows h
      (unionConstraint_allows hanyOf (hunion .anyOf (hbranches hany)))
    obtain ⟨oneChildren, hone, h⟩ := Raising.bind_eq_ok.mp h
    obtain ⟨oneOf, honeOf, h⟩ := Raising.bind_eq_ok.mp h
    obtain ⟨one, honeAll, h⟩ := orNever_allows h
      (unionConstraint_allows honeOf (hunion .oneOf (hbranches hone)))
    obtain ⟨allChildren, hall, h⟩ := Raising.bind_eq_ok.mp h
    obtain ⟨allOf, hallOf, h⟩ := Raising.bind_eq_ok.mp h
    have hconjuncts : ∀ cs, allChildren = some cs → ∀ c ∈ cs, c.Accepts x := by
      rintro cs rfl c hc
      obtain ⟨bs, hbs, hrel⟩ := Related.exists_of_rel_some (hbranches hall)
      obtain ⟨b, hb, hbc⟩ := Related.exists_mem_left hrel hc
      exact hbc (hattach.allOf b (by simpa [hbs] using hb))
    obtain ⟨all, hallAll, h⟩ := orNever_allows h (intersectionConstraint_allows hallOf hconjuncts)
    rw [schemaIntersection_accepts h]
    simp only [List.mem_append]
    rintro s (((((hs | hs) | hs) | hs) | hs) | hs)
    · exact hdirect s hs
    · exact hliteral s hs
    · exact hlisted s hs
    · exact hanyAll s hs
    · exact honeAll s hs
    · exact hallAll s hs

end Soundness

end TradeFramework
