import TradeFramework.Data.Json
import Mathlib.Data.Finset.Lattice.Basic

/-!
# Data contract schemas

The contract language is a closed subset of JSON Schema. `Keywords` is one schema object
with its children abstracted out, so that every recursion over schemas is a recursion
over `Keywords.attach`. The Boolean schema `True` only survives normalization as an
`additionalProperties` value, where it is `some none`.
-/

namespace TradeFramework

/-- One normalized schema object; an absent keyword is `none`. A `type` list with one
entry stands for the scalar spelling of the keyword. -/
structure Keywords (σ : Type) where
  type : Option (List JsonType) := none
  properties : Option (List (String × σ)) := none
  required : Option (List String) := none
  additionalProperties : Option (Option σ) := none
  items : Option σ := none
  enum : Option (List Json) := none
  const : Option Json := none
  anyOf : Option (List σ) := none
  oneOf : Option (List σ) := none
  allOf : Option (List σ) := none
  title : Option Json := none
  description : Option Json := none
  default : Option Json := none
deriving Repr

/-- A normalized schema: `False`, or an object of keywords. -/
inductive Schema
  | never
  | object (kw : Keywords Schema)
deriving Repr, Inhabited

/-- The wildcard `{}`. -/
def Schema.wildcard : Schema := .object {}

/-- The two keywords that list alternatives. -/
inductive UnionKeyword
  | anyOf | oneOf
deriving DecidableEq, Repr

def UnionKeyword.name : UnionKeyword → String
  | anyOf => "anyOf"
  | oneOf => "oneOf"

namespace Keywords

variable {σ τ υ : Type}

/-- The branches under a union keyword. -/
def union (kw : Keywords σ) : UnionKeyword → Option (List σ)
  | .anyOf => kw.anyOf
  | .oneOf => kw.oneOf

/-- The schema `{keyword: branches}`. -/
def ofUnion (keyword : UnionKeyword) (branches : List σ) : Keywords σ :=
  match keyword with
  | .anyOf => { anyOf := some branches }
  | .oneOf => { oneOf := some branches }

/-- `schema.get("additionalProperties", True)`; `none` is `True`. -/
def extra (kw : Keywords σ) : Option σ := kw.additionalProperties.getD none

/-- `schema.get("properties", {})`. -/
def propertyMap (kw : Keywords σ) : List (String × σ) := kw.properties.getD []

/-- `schema.get("required", [])`. -/
def requiredNames (kw : Keywords σ) : List String := kw.required.getD []

/-- `properties.get(name, additionalProperties)`; `none` is `True`. -/
def child (kw : Keywords σ) (name : String) : Option σ :=
  match kw.propertyMap.lookup name with
  | some s => some s
  | none => kw.extra

/-- Whether the schema object is `{}`. -/
def isEmpty (kw : Keywords σ) : Bool :=
  kw.type.isNone && kw.properties.isNone && kw.required.isNone &&
    kw.additionalProperties.isNone && kw.items.isNone && kw.enum.isNone && kw.const.isNone &&
    kw.anyOf.isNone && kw.oneOf.isNone && kw.allOf.isNone && kw.title.isNone &&
    kw.description.isNone && kw.default.isNone

lemma isEmpty_iff {kw : Keywords σ} : kw.isEmpty = true ↔ kw = {} := by
  cases kw
  simp [isEmpty, and_assoc]

/-- `declared_types`. -/
def declaredTypes (kw : Keywords σ) : Finset JsonType := (kw.type.getD []).toFinset

/-- `normalized_schema_types` of a schema object. -/
def schemaTypes (kw : Keywords σ) : Finset JsonType :=
  if kw.declaredTypes ≠ ∅ then kw.declaredTypes
  else if kw.properties.isSome || kw.required.isSome then {.object}
  else if kw.items.isSome then {.array}
  else jsonTypes

/-- Applies a function to every child schema. -/
def map (f : σ → τ) (kw : Keywords σ) : Keywords τ where
  type := kw.type
  properties := kw.properties.map (List.map fun e => (e.1, f e.2))
  required := kw.required
  additionalProperties := kw.additionalProperties.map (Option.map f)
  items := kw.items.map f
  enum := kw.enum
  const := kw.const
  anyOf := kw.anyOf.map (List.map f)
  oneOf := kw.oneOf.map (List.map f)
  allOf := kw.allOf.map (List.map f)
  title := kw.title
  description := kw.description
  default := kw.default

/-- The child schemas. -/
def children (kw : Keywords σ) : List σ :=
  kw.propertyMap.map Prod.snd ++ kw.extra.toList ++ kw.items.toList ++ kw.anyOf.getD [] ++
    kw.oneOf.getD [] ++ kw.allOf.getD []

lemma map_map (f : σ → τ) (g : τ → υ) (kw : Keywords σ) :
    (kw.map f).map g = kw.map (fun s => g (f s)) := by
  simp [map, Option.map_map, Function.comp_def, List.map_map]

section Children

variable {kw : Keywords σ}

lemma mem_children_property {d : List (String × σ)} (h : kw.properties = some d)
    {e : String × σ} (he : e ∈ d) : e.2 ∈ kw.children := by
  have hmem : e.2 ∈ d.map Prod.snd := List.mem_map_of_mem he
  simp [children, propertyMap, h, hmem]

lemma mem_children_additional {s : σ} (h : kw.additionalProperties = some (some s)) :
    s ∈ kw.children := by
  simp [children, extra, h]

lemma mem_children_items {s : σ} (h : kw.items = some s) : s ∈ kw.children := by
  simp [children, h]

lemma mem_children_anyOf {bs : List σ} (h : kw.anyOf = some bs) {s : σ} (hs : s ∈ bs) :
    s ∈ kw.children := by
  simp [children, h, hs]

lemma mem_children_oneOf {bs : List σ} (h : kw.oneOf = some bs) {s : σ} (hs : s ∈ bs) :
    s ∈ kw.children := by
  simp [children, h, hs]

lemma mem_children_allOf {bs : List σ} (h : kw.allOf = some bs) {s : σ} (hs : s ∈ bs) :
    s ∈ kw.children := by
  simp [children, h, hs]

lemma mem_children_branches {branches : Option (List σ)}
    (h : branches ∈ [kw.anyOf, kw.oneOf, kw.allOf]) {bs : List σ} (hbs : branches = some bs) {s : σ}
    (hs : s ∈ bs) : s ∈ kw.children := by
  simp only [List.mem_cons, List.not_mem_nil, or_false] at h
  rcases h with rfl | rfl | rfl
  · exact mem_children_anyOf hbs hs
  · exact mem_children_oneOf hbs hs
  · exact mem_children_allOf hbs hs

lemma mem_children_getD_allOf {s : σ} (hs : s ∈ kw.allOf.getD []) : s ∈ kw.children := by
  simp [children, hs]

lemma mem_children_union {keyword : UnionKeyword} {bs : List σ} (h : kw.union keyword = some bs)
    {s : σ} (hs : s ∈ bs) : s ∈ kw.children := by
  cases keyword with
  | anyOf => exact mem_children_anyOf h hs
  | oneOf => exact mem_children_oneOf h hs

lemma child_eq_some {name : String} {s : σ} (h : kw.child name = some s) :
    kw.propertyMap.lookup name = some s ∨
      (kw.propertyMap.lookup name = none ∧ kw.extra = some s) := by
  unfold child at h
  cases hl : kw.propertyMap.lookup name with
  | some t => rw [hl] at h; exact Or.inl h
  | none => rw [hl] at h; exact Or.inr ⟨rfl, h⟩

lemma mem_children_child {name : String} {s : σ} (h : kw.child name = some s) :
    s ∈ kw.children := by
  rcases child_eq_some h with hl | ⟨-, hextra⟩
  · have hmem : s ∈ kw.propertyMap.map Prod.snd := List.mem_map_of_mem (Dict.lookup_mem hl)
    simp [children, hmem]
  · simp [children, hextra]

/-- A property of all children, keyword by keyword. -/
lemma forall_children {p : σ → Prop}
    (hproperties : ∀ d, kw.properties = some d → ∀ e ∈ d, p e.2)
    (hadditional : ∀ s, kw.additionalProperties = some (some s) → p s)
    (hitems : ∀ s, kw.items = some s → p s)
    (hbranches : ∀ branches ∈ [kw.anyOf, kw.oneOf, kw.allOf], ∀ bs, branches = some bs →
      ∀ s ∈ bs, p s) (s : σ) (hs : s ∈ kw.children) : p s := by
  have hlist : ∀ branches ∈ [kw.anyOf, kw.oneOf, kw.allOf], s ∈ branches.getD [] → p s := by
    rintro (_ | bs) hmem hs
    · cases hs
    · exact hbranches _ hmem bs rfl s hs
  simp only [children, List.mem_append, List.mem_map, Option.mem_toList, propertyMap, extra] at hs
  rcases hs with ((((⟨e, he, rfl⟩ | hs) | hs) | hs) | hs) | hs
  · cases hp : kw.properties with
    | none => simp [hp] at he
    | some d => exact hproperties d hp e (by simpa [hp] using he)
  · cases ha : kw.additionalProperties with
    | none => simp [ha] at hs
    | some extra => exact hadditional s (by simpa [ha] using hs)
  · exact hitems s hs
  · exact hlist kw.anyOf (by simp) hs
  · exact hlist kw.oneOf (by simp) hs
  · exact hlist kw.allOf (by simp) hs

end Children

/-- Every child schema with the proof that it is one. -/
def attach (kw : Keywords σ) : Keywords {s : σ // s ∈ kw.children} where
  type := kw.type
  properties := match h : kw.properties with
    | none => none
    | some d => some (d.attach.map fun e => (e.1.1, ⟨e.1.2, mem_children_property h e.2⟩))
  required := kw.required
  additionalProperties := match h : kw.additionalProperties with
    | none => none
    | some none => some none
    | some (some s) => some (some ⟨s, mem_children_additional h⟩)
  items := match h : kw.items with
    | none => none
    | some s => some ⟨s, mem_children_items h⟩
  enum := kw.enum
  const := kw.const
  anyOf := match h : kw.anyOf with
    | none => none
    | some bs => some (bs.attach.map fun b => ⟨b.1, mem_children_anyOf h b.2⟩)
  oneOf := match h : kw.oneOf with
    | none => none
    | some bs => some (bs.attach.map fun b => ⟨b.1, mem_children_oneOf h b.2⟩)
  allOf := match h : kw.allOf with
    | none => none
    | some bs => some (bs.attach.map fun b => ⟨b.1, mem_children_allOf h b.2⟩)
  title := kw.title
  description := kw.description
  default := kw.default

lemma attach_map_val (kw : Keywords σ) : kw.attach.map Subtype.val = kw := by
  have hval : ∀ {α : Type} (xs : List α), xs.attach.map (fun x => x.1) = xs :=
    fun xs => List.attach_map_subtype_val xs
  rcases kw with ⟨_, properties, _, additional, items, _, _, anyOf, oneOf, allOf, _, _, _⟩
  simp only [attach, map, mk.injEq, true_and, and_true]
  refine ⟨?_, ?_, ?_, ?_, ?_, ?_⟩
  · cases properties with
    | none => rfl
    | some d =>
      simp only [Option.map_some, List.map_map, Function.comp_def, Option.some.injEq]
      exact hval d
  · rcases additional with _ | _ | s <;> rfl
  · cases items <;> rfl
  · cases anyOf with
    | none => rfl
    | some bs =>
      simp only [Option.map_some, List.map_map, Function.comp_def, Option.some.injEq]
      exact hval bs
  · cases oneOf with
    | none => rfl
    | some bs =>
      simp only [Option.map_some, List.map_map, Function.comp_def, Option.some.injEq]
      exact hval bs
  · cases allOf with
    | none => rfl
    | some bs =>
      simp only [Option.map_some, List.map_map, Function.comp_def, Option.some.injEq]
      exact hval bs

lemma attach_map (kw : Keywords σ) (f : σ → τ) : kw.attach.map (fun s => f s.1) = kw.map f := by
  conv_rhs => rw [← kw.attach_map_val, map_map]

lemma forall_mem_allOf_attach {kw : Keywords σ} {p : σ → Prop} :
    (∀ b ∈ kw.attach.allOf.getD [], p b.1) ↔ ∀ b ∈ kw.allOf.getD [], p b := by
  conv_rhs => rw [← kw.attach_map_val]
  cases h : kw.attach.allOf <;> simp [map, h]

lemma union_attach (kw : Keywords σ) (keyword : UnionKeyword) :
    (kw.attach.union keyword).map (List.map Subtype.val) = kw.union keyword := by
  conv_rhs => rw [← kw.attach_map_val]
  cases keyword <;> rfl

lemma lookup_properties_attach (kw : Keywords σ) (name : String) :
    (kw.attach.propertyMap.lookup name).map Subtype.val = kw.propertyMap.lookup name := by
  conv_rhs => rw [← kw.attach_map_val]
  have hmap := Dict.lookup_mapValues (fun _ s => s.1) kw.attach.propertyMap name
  rw [← hmap]
  cases h : kw.attach.properties <;> simp [map, propertyMap, h, Dict.mapValues]

lemma extra_attach (kw : Keywords σ) : kw.attach.extra.map Subtype.val = kw.extra := by
  conv_rhs => rw [← kw.attach_map_val]
  cases h : kw.attach.additionalProperties <;> simp [map, extra, h]

lemma items_attach (kw : Keywords σ) : kw.attach.items.map Subtype.val = kw.items := by
  conv_rhs => rw [← kw.attach_map_val]
  rfl

lemma sizeOf_lt_of_mem_children {kw : Keywords Schema} {s : Schema} (h : s ∈ kw.children) :
    sizeOf s < sizeOf kw := by
  have hlist : ∀ o : Option (List Schema), s ∈ o.getD [] → sizeOf s < sizeOf o := by
    rintro (_ | bs) hs
    · simp at hs
    · have hlt := List.sizeOf_lt_of_mem hs
      simp only [Option.getD_some] at hlt
      simp only [Option.some.sizeOf_spec]
      omega
  rcases kw with ⟨_, properties, _, additional, items, _, _, _, _, _, _, _, _⟩
  simp only [children, List.mem_append, List.mem_map, Option.mem_toList, propertyMap, extra] at h
  rw [mk.sizeOf_spec]
  rcases h with ((((⟨e, he, rfl⟩ | h) | h) | h) | h) | h
  · cases properties with
    | none => simp at he
    | some d =>
      have hlt := Dict.sizeOf_mem_lt he
      simp only [Option.getD_some, Option.some.sizeOf_spec] at hlt ⊢
      omega
  · cases additional with
    | none => simp at h
    | some o =>
      simp only [Option.getD_some] at h
      subst h
      simp only [Option.some.sizeOf_spec]
      omega
  · subst h
    simp only [Option.some.sizeOf_spec]
    omega
  all_goals
    have hlt := hlist _ h
    omega

end Keywords

lemma Schema.sizeOf_lt_object {kw : Keywords Schema} {s : Schema} (h : s ∈ kw.children) :
    sizeOf s < sizeOf (Schema.object kw) := by
  have hlt := Keywords.sizeOf_lt_of_mem_children h
  rw [Schema.object.sizeOf_spec]
  omega

/-- The wildcard is the smallest schema object. -/
lemma Schema.sizeOf_wildcard_le (kw : Keywords Schema) :
    sizeOf Schema.wildcard ≤ sizeOf (Schema.object kw) := by
  have hle : ∀ {α : Type} [SizeOf α] (o : Option α), sizeOf (none : Option α) ≤ sizeOf o := by
    rintro α _ (_ | a) <;> simp
  rw [Schema.wildcard, Schema.object.sizeOf_spec, Schema.object.sizeOf_spec]
  refine Nat.add_le_add_left ?_ 1
  rcases kw with ⟨_, _, _, _, _, _, _, _, _, _, _, _, _⟩
  rw [Keywords.mk.sizeOf_spec, Keywords.mk.sizeOf_spec]
  repeat' apply Nat.add_le_add
  · exact le_rfl
  all_goals exact hle _

namespace Schema

/-- Induction over the child schemas. -/
theorem childInduction {motive : Schema → Prop} (never : motive .never)
    (object : ∀ kw : Keywords Schema, (∀ s ∈ kw.children, motive s) → motive (.object kw))
    (s : Schema) : motive s := by
  induction h : sizeOf s using Nat.strong_induction_on generalizing s with
  | _ n ih =>
    subst h
    cases s with
    | never => exact never
    | object kw => exact object kw fun s hs => ih _ (sizeOf_lt_object hs) s rfl

/-- Computes bottom-up from the results for the child schemas. -/
def fold {τ : Type} (never : τ) (object : Keywords τ → τ) : Schema → τ
  | .never => never
  | .object kw => object (kw.attach.map fun s => fold never object s.1)
termination_by s => sizeOf s
decreasing_by exact sizeOf_lt_object s.2

lemma fold_never {τ : Type} (never : τ) (object : Keywords τ → τ) :
    fold never object .never = never := by
  rw [fold]

lemma fold_object {τ : Type} (never : τ) (object : Keywords τ → τ) (kw : Keywords Schema) :
    fold never object (.object kw) = object (kw.map (fold never object)) := by
  rw [fold, Keywords.attach_map]

end Schema

/-- `normalized_schema_types`. -/
def normalizedSchemaTypes : Schema → Finset JsonType
  | .never => ∅
  | .object kw => kw.schemaTypes

/-- `possible &= allowed`, where the keyword is present. -/
def restrictTo (possible : Finset JsonType) : Option (Finset JsonType) → Finset JsonType
  | some allowed => possible ∩ allowed
  | none => possible

lemma mem_restrictTo {possible : Finset JsonType} {allowed : Option (Finset JsonType)}
    {t : JsonType} : t ∈ restrictTo possible allowed ↔
      t ∈ possible ∧ ∀ types, allowed = some types → t ∈ types := by
  cases allowed <;> simp [restrictTo]

/-- One level of `possible_runtime_types`, from the results for the branches. -/
def Keywords.possibleTypes (kw : Keywords (Finset JsonType)) : Finset JsonType :=
  let declared := if .number ∈ kw.schemaTypes then insert .integer kw.schemaTypes else kw.schemaTypes
  let constant := restrictTo declared (kw.const.map fun value => {jsonType value})
  let listed := restrictTo constant (kw.enum.map fun values => (values.map jsonType).toFinset)
  let conjoined := (kw.allOf.getD []).foldl (· ∩ ·) listed
  [UnionKeyword.anyOf, .oneOf].foldl (fun possible keyword =>
    restrictTo possible ((kw.union keyword).map fun types => types.foldl (· ∪ ·) ∅)) conjoined

/-- `possible_runtime_types`: the runtime types that every clause of a schema allows. -/
def possibleRuntimeTypes : Schema → Finset JsonType := Schema.fold ∅ Keywords.possibleTypes

/-- The label of a schema object, which only reads its own keywords. -/
def Keywords.label {σ : Type} (kw : Keywords σ) : String :=
  if kw.isEmpty then "any JSON"
  else if kw.schemaTypes = {.object} ∧ Dict.keys kw.propertyMap ≠ [] then
    "object\x7b" ++ ", ".intercalate (Dict.keys kw.propertyMap) ++ "\x7d"
  else " | ".intercalate ((JsonType.sorted kw.schemaTypes).map JsonType.name)

/-- `normalized_schema_label`. -/
def normalizedSchemaLabel : Schema → String
  | .never => "never"
  | .object kw => kw.label

end TradeFramework
