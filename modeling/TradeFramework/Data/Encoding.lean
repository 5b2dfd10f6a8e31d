import TradeFramework.Data.Semantics

/-!
# Schema documents

A normalized schema as the JSON document it was read from. The engine compares schemas as
documents; equal documents denote the same values.
-/

namespace TradeFramework

/-- The JSON spelling of a `type` keyword. -/
def encodeTypes : List JsonType → Json
  | [t] => .str t.name
  | types => .arr (types.map fun t => .str t.name)

/-- Every keyword with its JSON spelling, from the spellings of the child schemas. -/
def Keywords.spellings (kw : Keywords Json) : List (String × Option Json) :=
  [("type", kw.type.map encodeTypes),
   ("properties", kw.properties.map .obj),
   ("required", kw.required.map fun names => .arr (names.map .str)),
   ("additionalProperties", kw.additionalProperties.map fun extra => extra.getD (.bool true)),
   ("items", kw.items),
   ("enum", kw.enum.map .arr),
   ("const", kw.const),
   ("anyOf", kw.anyOf.map .arr),
   ("oneOf", kw.oneOf.map .arr),
   ("allOf", kw.allOf.map .arr),
   ("title", kw.title),
   ("description", kw.description),
   ("default", kw.default)]

/-- The JSON document of a normalized schema. -/
def Schema.toJson : Schema → Json :=
  Schema.fold (.bool false) fun kw => .obj (Dict.present kw.spellings)

/-- The keywords present in a schema document. -/
def Keywords.members (kw : Keywords Schema) : List (String × Json) :=
  Dict.present (kw.map Schema.toJson).spellings

lemma Schema.toJson_never : Schema.never.toJson = .bool false := Schema.fold_never _ _

lemma Schema.toJson_object (kw : Keywords Schema) : (Schema.object kw).toJson = .obj kw.members :=
  Schema.fold_object _ _ kw

lemma Keywords.nodup_spellings (kw : Keywords Json) : (kw.spellings.map Prod.fst).Nodup := by
  simp [spellings]

/-- Reading a keyword back from a schema document. -/
lemma Keywords.lookup_members (kw : Keywords Schema) (keyword : String) :
    kw.members.lookup keyword = ((kw.map Schema.toJson).spellings.lookup keyword).join :=
  Dict.lookup_present (nodup_spellings _) keyword

section Members

variable (kw : Keywords Schema)

lemma Keywords.members_type : kw.members.lookup "type" = kw.type.map encodeTypes := by
  simp [lookup_members, spellings, map]

lemma Keywords.members_properties : kw.members.lookup "properties" =
    kw.properties.map fun d => .obj (Dict.mapValues (fun _ s => Schema.toJson s) d) := by
  simp [lookup_members, spellings, map, Function.comp_def, Dict.mapValues]

lemma Keywords.members_required : kw.members.lookup "required" =
    kw.required.map fun names => .arr (names.map .str) := by
  simp [lookup_members, spellings, map]

lemma Keywords.members_additionalProperties : kw.members.lookup "additionalProperties" =
    kw.additionalProperties.map fun extra => (extra.map Schema.toJson).getD (.bool true) := by
  simp [lookup_members, spellings, map, Function.comp_def]

lemma Keywords.members_items : kw.members.lookup "items" = kw.items.map Schema.toJson := by
  simp [lookup_members, spellings, map]

lemma Keywords.members_enum : kw.members.lookup "enum" = kw.enum.map .arr := by
  simp [lookup_members, spellings, map]

lemma Keywords.members_annotations : kw.members.lookup "const" = kw.const ∧
    kw.members.lookup "title" = kw.title ∧ kw.members.lookup "description" = kw.description ∧
      kw.members.lookup "default" = kw.default := by
  simp [lookup_members, spellings, map]

/-- The composition keywords are spelled as lists of documents. -/
lemma Keywords.members_branches : ∀ entry ∈ [("anyOf", kw.anyOf), ("oneOf", kw.oneOf),
    ("allOf", kw.allOf)],
      kw.members.lookup entry.1 = entry.2.map fun bs => .arr (bs.map Schema.toJson) := by
  simp [lookup_members, spellings, map, Function.comp_def]

end Members

/-- `json_values_equal` on two schema documents. -/
def schemaValuesEqual (left right : Schema) : Bool := jsonValuesEqual left.toJson right.toJson

section Equality

variable {σ τ : Type}

/-- Two schema objects whose asserting keywords correspond; `R` relates the child schemas. -/
structure Keywords.Matches (R : σ → τ → Prop) (kw : Keywords σ) (other : Keywords τ) : Prop where
  type : kw.type = other.type
  required : kw.required = other.required
  properties : Option.Rel (fun d e => ∀ name, Option.Rel R (d.lookup name) (e.lookup name))
    kw.properties other.properties
  extra : Option.Rel R kw.extra other.extra
  items : Option.Rel R kw.items other.items
  enum : Option.Rel (List.Forall₂ fun a b => jsonValuesEqual a b = true) kw.enum other.enum
  const : Option.Rel (fun a b => jsonValuesEqual a b = true) kw.const other.const
  union : ∀ keyword, Option.Rel (List.Forall₂ R) (kw.union keyword) (other.union keyword)
  allOf : Option.Rel (List.Forall₂ R) kw.allOf other.allOf

lemma eq_of_equal_texts {α : Type} {f : α → String} (hf : Function.Injective f) {xs ys : List α}
    (h : jsonValuesEqual (.arr (xs.map fun x => .str (f x))) (.arr (ys.map fun y => .str (f y))) =
      true) : xs = ys := by
  have hall := jsonValuesEqual_arr.mp h
  rw [List.forall₂_map_left_iff, List.forall₂_map_right_iff] at hall
  refine List.forall₂_eq_eq_eq ▸ hall.imp fun x y hxy => hf ?_
  simpa [jsonValuesEqual] using hxy

lemma JsonType.name_injective : Function.Injective JsonType.name := by
  intro a b h
  have hab : JsonType.ofName a.name = JsonType.ofName b.name := congrArg _ h
  simpa using hab

lemma encodeTypes_injective {left right : List JsonType}
    (h : jsonValuesEqual (encodeTypes left) (encodeTypes right) = true) : left = right := by
  rcases left with _ | ⟨a, _ | ⟨b, left⟩⟩ <;> rcases right with _ | ⟨c, _ | ⟨d, right⟩⟩
  · rfl
  · simp [encodeTypes, jsonValuesEqual] at h
  · exact eq_of_equal_texts JsonType.name_injective h
  · simp [encodeTypes, jsonValuesEqual] at h
  · have hname : a.name = c.name := by simpa [encodeTypes, jsonValuesEqual] using h
    rw [JsonType.name_injective hname]
  · simp [encodeTypes, jsonValuesEqual] at h
  · exact eq_of_equal_texts JsonType.name_injective h
  · simp [encodeTypes, jsonValuesEqual] at h
  · exact eq_of_equal_texts JsonType.name_injective h

lemma Schema.toJson_ne_true (s : Schema) : jsonValuesEqual s.toJson (.bool true) = false := by
  cases s with
  | never => simp [Schema.toJson_never, jsonValuesEqual]
  | object kw => simp [Schema.toJson_object, jsonValuesEqual]

lemma rel_toJson_lists {left right : Option (List Schema)}
    (h : Option.Rel (fun a b => jsonValuesEqual a b = true)
      (left.map fun bs => .arr (bs.map Schema.toJson))
      (right.map fun bs => .arr (bs.map Schema.toJson))) :
    Option.Rel (List.Forall₂ fun s t => schemaValuesEqual s t = true) left right := by
  refine Related.rel_mono (fun bs cs hbs => ?_) (Related.rel_map.mp h)
  have hall := jsonValuesEqual_arr.mp hbs
  rwa [List.forall₂_map_left_iff, List.forall₂_map_right_iff] at hall

/-- Equal documents spell corresponding keywords. -/
lemma Keywords.matches_of_equal {kw other : Keywords Schema}
    (h : jsonValuesEqual (.obj kw.members) (.obj other.members) = true) :
    kw.Matches (fun s t => schemaValuesEqual s t = true) other := by
  have hkey := jsonValuesEqual_obj.mp h
  have hbranches : ∀ entry ∈ [("anyOf", kw.anyOf, other.anyOf), ("oneOf", kw.oneOf, other.oneOf),
      ("allOf", kw.allOf, other.allOf)],
        Option.Rel (List.Forall₂ fun s t => schemaValuesEqual s t = true) entry.2.1 entry.2.2 := by
    have hleft := kw.members_branches
    have hright := other.members_branches
    simp only [List.forall_mem_cons, List.not_mem_nil, false_imp_iff, implies_true, and_true]
      at hleft hright ⊢
    refine ⟨?_, ?_, ?_⟩
    · exact rel_toJson_lists (hleft.1 ▸ hright.1 ▸ hkey "anyOf")
    · exact rel_toJson_lists (hleft.2.1 ▸ hright.2.1 ▸ hkey "oneOf")
    · exact rel_toJson_lists (hleft.2.2 ▸ hright.2.2 ▸ hkey "allOf")
  simp only [List.forall_mem_cons, List.not_mem_nil, false_imp_iff, implies_true, and_true]
    at hbranches
  refine ⟨?_, ?_, ?_, ?_, ?_, ?_, ?_, ?_, hbranches.2.2⟩
  · have htype := hkey "type"
    rw [members_type, members_type, Related.rel_map] at htype
    exact Related.eq_of_rel_eq (Related.rel_mono (fun _ _ => encodeTypes_injective) htype)
  · have hrequired := hkey "required"
    rw [members_required, members_required, Related.rel_map] at hrequired
    exact Related.eq_of_rel_eq
      (Related.rel_mono (fun _ _ => eq_of_equal_texts (fun _ _ => id)) hrequired)
  · have hproperties := hkey "properties"
    rw [members_properties, members_properties, Related.rel_map] at hproperties
    refine Related.rel_mono (fun d e hde name => ?_) hproperties
    have hname := jsonValuesEqual_obj.mp hde name
    rw [Dict.lookup_mapValues, Dict.lookup_mapValues] at hname
    exact Related.rel_map.mp hname
  · have hextra := hkey "additionalProperties"
    rw [members_additionalProperties, members_additionalProperties, Related.rel_map] at hextra
    unfold extra
    generalize kw.additionalProperties = left at hextra
    generalize other.additionalProperties = right at hextra
    cases hextra with
    | none => exact .none
    | @some left right hlr =>
      rcases left with _ | s <;> rcases right with _ | t
      · exact .none
      · simp [jsonValuesEqual_comm (.bool true), Schema.toJson_ne_true] at hlr
      · simp [Schema.toJson_ne_true] at hlr
      · exact .some hlr
  · have hitems := hkey "items"
    rw [members_items, members_items] at hitems
    exact Related.rel_map.mp hitems
  · have henum := hkey "enum"
    rw [members_enum, members_enum] at henum
    exact Related.rel_mono (fun _ _ => jsonValuesEqual_arr.mp) (Related.rel_map.mp henum)
  · have hconst := hkey "const"
    rwa [kw.members_annotations.1, other.members_annotations.1] at hconst
  · rintro (_ | _)
    · exact hbranches.1
    · exact hbranches.2.1

namespace Keywords.Matches

variable {R : σ → τ → Prop} {kw : Keywords σ} {other : Keywords τ}

lemma schemaTypes_eq (h : kw.Matches R other) : kw.schemaTypes = other.schemaTypes := by
  unfold schemaTypes declaredTypes
  rw [h.type, h.required, Related.rel_isSome h.properties, Related.rel_isSome h.items]

lemma child_rel (h : kw.Matches R other) (name : String) :
    Option.Rel R (kw.child name) (other.child name) := by
  have hprops : Option.Rel R (kw.propertyMap.lookup name) (other.propertyMap.lookup name) := by
    have hp := h.properties
    unfold propertyMap
    generalize kw.properties = left at hp
    generalize other.properties = right at hp
    cases hp with
    | none => exact .none
    | some hde => exact hde name
  unfold child
  generalize kw.propertyMap.lookup name = left at hprops
  generalize other.propertyMap.lookup name = right at hprops
  cases hprops with
  | none => exact h.extra
  | some hst => exact .some hst

lemma symm (h : kw.Matches R other) : other.Matches (fun t s => R s t) kw where
  type := h.type.symm
  required := h.required.symm
  properties := Related.rel_mono (fun _ _ hed name => Related.rel_flip (hed name))
    (Related.rel_flip h.properties)
  extra := Related.rel_flip h.extra
  items := Related.rel_flip h.items
  enum := Related.rel_mono (fun _ _ hab => hab.flip.imp fun _ _ => jsonValuesEqual_symm)
    (Related.rel_flip h.enum)
  const := Related.rel_mono (fun _ _ => jsonValuesEqual_symm) (Related.rel_flip h.const)
  union keyword := Related.rel_mono (fun _ _ hab => hab.flip) (Related.rel_flip (h.union keyword))
  allOf := Related.rel_mono (fun _ _ hab => hab.flip) (Related.rel_flip h.allOf)

end Keywords.Matches

/-- Corresponding schema objects admit the same values. -/
lemma Keywords.Matches.admits {R : Schema → Schema → Prop} {kw other : Keywords Schema} {v : Json}
    (h : kw.Matches R other)
    (hchild : ∀ s ∈ kw.children, ∀ t ∈ other.children, R s t → ∀ w, s.Accepts w ↔ t.Accepts w)
    (hv : kw.Admits Schema.Accepts v) : other.Admits Schema.Accepts v := by
  refine ⟨?_, ?_, h.schemaTypes_eq ▸ hv.type, ?_, ?_, ?_, ?_, ?_⟩
  · intro t ht
    obtain ⟨s, hs, hst⟩ := Related.exists_mem_left (Related.forall₂_getD h.allOf) ht
    exact (hchild s (mem_children_getD_allOf hs) t (mem_children_getD_allOf ht) hst v).mp (hv.allOf s hs)
  · intro keyword cs hcs
    have hunion := h.union keyword
    rw [hcs] at hunion
    generalize hk : kw.union keyword = o at hunion
    cases hunion with
    | @some bs _ hbs =>
      refine UnionKeyword.Satisfied.of_forall₂ ?_ (hv.union keyword bs hk)
      refine Related.forall₂_mono (fun s hs t ht hst => ?_) hbs
      exact hchild s (mem_children_union hk hs) t (mem_children_union hcs ht) hst v
  · intro c hc
    have hconst := h.const
    rw [hc] at hconst
    generalize hk : kw.const = o at hconst
    cases hconst with
    | some hbc => exact jsonValuesEqual_trans (hv.const _ hk) hbc
  · intro cs hcs
    have henum := h.enum
    rw [hcs] at henum
    generalize hk : kw.enum = o at henum
    cases henum with
    | some hbs =>
      obtain ⟨b, hb, hvb⟩ := jsonValueIn_iff.mp (hv.enum _ hk)
      obtain ⟨c, hc, hbc⟩ := Related.exists_mem_left hbs.flip hb
      exact jsonValueIn_iff.mpr ⟨c, hc, jsonValuesEqual_trans hvb hbc⟩
  · intro d hd name hname
    refine hv.required d hd name ?_
    rwa [requiredNames, h.required]
  · intro d hd name x hx t ht
    have hrel := h.child_rel name
    rw [ht] at hrel
    generalize hk : kw.child name = o at hrel
    cases hrel with
    | some hst =>
      exact (hchild _ (mem_children_child hk) t (mem_children_child ht) hst x).mp
        (hv.member d hd name x hx _ hk)
  · intro xs hxs t ht x hx
    have hrel := h.items
    rw [ht] at hrel
    generalize hk : kw.items = o at hrel
    cases hrel with
    | some hst =>
      exact (hchild _ (mem_children_items hk) t (mem_children_items ht) hst x).mp
        (hv.items xs hxs _ hk x hx)

lemma schemaValuesEqual_symm {s t : Schema} (h : schemaValuesEqual s t = true) :
    schemaValuesEqual t s = true :=
  jsonValuesEqual_symm h

lemma schemaValuesEqual_object {kw : Keywords Schema} {t : Schema}
    (h : schemaValuesEqual (.object kw) t = true) : ∃ other, t = .object other ∧
      jsonValuesEqual (.obj kw.members) (.obj other.members) = true := by
  rw [schemaValuesEqual, Schema.toJson_object] at h
  cases t with
  | never => simp [Schema.toJson_never, jsonValuesEqual] at h
  | object other => exact ⟨other, rfl, by rwa [Schema.toJson_object] at h⟩

/-- Schemas with equal documents accept the same values. -/
theorem accepts_of_schemaValuesEqual {s t : Schema} (h : schemaValuesEqual s t = true) (v : Json) :
    s.Accepts v ↔ t.Accepts v := by
  induction hn : sizeOf s + sizeOf t using Nat.strong_induction_on generalizing s t v with
  | _ n ih =>
    subst hn
    cases s with
    | never =>
      cases t with
      | never => rfl
      | object other => simp [schemaValuesEqual, Schema.toJson_never, Schema.toJson_object,
          jsonValuesEqual] at h
    | object kw =>
      obtain ⟨other, rfl, heq⟩ := schemaValuesEqual_object h
      have hpair : ∀ s ∈ kw.children, ∀ t ∈ other.children,
          sizeOf s + sizeOf t < sizeOf (Schema.object kw) + sizeOf (Schema.object other) := by
        intro s hs t ht
        have hlt := Schema.sizeOf_lt_object hs
        have hlt' := Schema.sizeOf_lt_object ht
        omega
      rw [Schema.accepts_object, Schema.accepts_object]
      constructor
      · refine (Keywords.matches_of_equal heq).admits fun s hs t ht hst w => ?_
        exact ih _ (hpair s hs t ht) hst w rfl
      · refine (Keywords.matches_of_equal (jsonValuesEqual_symm heq)).admits fun t ht s hs hts w => ?_
        exact (ih _ (hpair s hs t ht) (schemaValuesEqual_symm hts) w rfl).symm

end Equality

end TradeFramework
