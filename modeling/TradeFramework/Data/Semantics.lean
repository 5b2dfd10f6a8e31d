import TradeFramework.Data.Schema

/-!
# The meaning of a schema

A schema denotes a set of JSON values. `Schema.Accepts` is that set, by recursion over the
schema alone: `Keywords.Admits` states what each keyword asks of a value. The validators
are proved against it, and the compatibility proofs are about inclusion of such sets.
-/

namespace TradeFramework

/-- A runtime type is allowed: integers are numbers, numbers are not integers. -/
def TypeAllowed (types : Finset JsonType) (actual : JsonType) : Prop :=
  actual ∈ types ∨ (actual = .integer ∧ .number ∈ types)

instance (types : Finset JsonType) (actual : JsonType) : Decidable (TypeAllowed types actual) :=
  inferInstanceAs (Decidable (_ ∨ _))

/-- What a union keyword asks of its branches, where `p` says which of them match. -/
def UnionKeyword.Satisfied {α : Type*} (p : α → Prop) : UnionKeyword → List α → Prop
  | anyOf, branches => ∃ b ∈ branches, p b
  | oneOf, branches => ExactlyOne p branches

namespace UnionKeyword

variable {α β : Type*} {keyword : UnionKeyword}

lemma Satisfied.congr {p q : α → Prop} {branches : List α} (h : ∀ b ∈ branches, p b ↔ q b) :
    keyword.Satisfied p branches ↔ keyword.Satisfied q branches := by
  cases keyword with
  | anyOf => exact exists_congr fun b => and_congr_right fun hb => h b hb
  | oneOf => exact ExactlyOne.congr h

lemma Satisfied.map {f : α → β} {p : β → Prop} {branches : List α} :
    keyword.Satisfied p (branches.map f) ↔ keyword.Satisfied (fun b => p (f b)) branches := by
  cases keyword with
  | anyOf => simp [Satisfied]
  | oneOf => exact ExactlyOne.map

lemma Satisfied.of_forall₂ {p : α → Prop} {q : β → Prop} {branches : List α} {others : List β}
    (h : List.Forall₂ (fun a b => p a ↔ q b) branches others)
    (hp : keyword.Satisfied p branches) : keyword.Satisfied q others := by
  cases keyword with
  | anyOf =>
    obtain ⟨b, hb, hpb⟩ := hp
    obtain ⟨c, hc, hbc⟩ := Related.exists_mem_left h.flip hb
    exact ⟨c, hc, hbc.mp hpb⟩
  | oneOf => exact ExactlyOne.of_forall₂ h hp

/-- Every satisfied union has a matching branch. -/
lemma Satisfied.exists_mem {p : α → Prop} {branches : List α}
    (h : keyword.Satisfied p branches) : ∃ b ∈ branches, p b := by
  cases keyword with
  | anyOf => exact h
  | oneOf =>
    obtain ⟨i, b, hb, hp, -⟩ := h
    exact ⟨b, List.mem_of_getElem? hb, hp⟩

end UnionKeyword

/-- What each keyword of a schema object asks of a value; `sem` is the meaning of the
child schemas. -/
structure Keywords.Admits {σ : Type} (sem : σ → Json → Prop) (kw : Keywords σ) (v : Json) :
    Prop where
  allOf : ∀ b ∈ kw.allOf.getD [], sem b v
  union : ∀ keyword bs, kw.union keyword = some bs → keyword.Satisfied (fun b => sem b v) bs
  type : TypeAllowed kw.schemaTypes (jsonType v)
  const : ∀ c, kw.const = some c → jsonValuesEqual v c = true
  enum : ∀ cs, kw.enum = some cs → jsonValueIn v cs = true
  required : ∀ d, v = .obj d → ∀ name ∈ kw.requiredNames, Dict.has d name = true
  member : ∀ d, v = .obj d → ∀ name x, d.lookup name = some x → ∀ s, kw.child name = some s → sem s x
  items : ∀ xs, v = .arr xs → ∀ s, kw.items = some s → ∀ x ∈ xs, sem s x

namespace Keywords

variable {σ τ : Type}

lemma child_map (f : σ → τ) (kw : Keywords σ) (name : String) :
    (kw.map f).child name = (kw.child name).map f := by
  have hprops : (kw.map f).propertyMap = Dict.mapValues (fun _ s => f s) kw.propertyMap := by
    cases h : kw.properties <;> simp [propertyMap, map, h, Dict.mapValues]
  have hextra : (kw.map f).extra = kw.extra.map f := by
    cases h : kw.additionalProperties <;> simp [extra, map, h]
  rw [child, child, hprops, hextra, Dict.lookup_mapValues]
  cases kw.propertyMap.lookup name <;> rfl

lemma child_attach (kw : Keywords σ) (name : String) :
    (kw.attach.child name).map Subtype.val = kw.child name := by
  rw [← child_map, attach_map_val]

lemma schemaTypes_map (f : σ → τ) (kw : Keywords σ) : (kw.map f).schemaTypes = kw.schemaTypes := by
  simp [schemaTypes, declaredTypes, map]

lemma union_map (f : σ → τ) (kw : Keywords σ) (keyword : UnionKeyword) :
    (kw.map f).union keyword = (kw.union keyword).map (List.map f) := by
  cases keyword <;> rfl

lemma admits_map {f : σ → τ} {sem : τ → Json → Prop} {kw : Keywords σ} {v : Json} :
    (kw.map f).Admits sem v ↔ kw.Admits (fun s => sem (f s)) v := by
  have hall : (∀ b ∈ (kw.map f).allOf.getD [], sem b v) ↔ ∀ b ∈ kw.allOf.getD [], sem (f b) v := by
    cases h : kw.allOf <;> simp [map, h]
  constructor
  · intro h
    refine ⟨hall.mp h.allOf, ?_, ?_, h.const, h.enum, h.required, ?_, ?_⟩
    · intro keyword bs hbs
      exact UnionKeyword.Satisfied.map.mp (h.union keyword (bs.map f) (by rw [union_map, hbs]; rfl))
    · exact schemaTypes_map f kw ▸ h.type
    · intro d hd name x hx s hs
      exact h.member d hd name x hx (f s) (by rw [child_map, hs]; rfl)
    · intro xs hxs s hs x hx
      exact h.items xs hxs (f s) (by simp [map, hs]) x hx
  · intro h
    refine ⟨hall.mpr h.allOf, ?_, ?_, h.const, h.enum, h.required, ?_, ?_⟩
    · intro keyword bs hbs
      rw [union_map, Option.map_eq_some_iff] at hbs
      obtain ⟨cs, hcs, rfl⟩ := hbs
      exact UnionKeyword.Satisfied.map.mpr (h.union keyword cs hcs)
    · rw [schemaTypes_map]
      exact h.type
    · intro d hd name x hx s hs
      rw [child_map, Option.map_eq_some_iff] at hs
      obtain ⟨t, ht, rfl⟩ := hs
      exact h.member d hd name x hx t ht
    · intro xs hxs s hs x hx
      obtain ⟨t, ht, rfl⟩ := Option.map_eq_some_iff.mp hs
      exact h.items xs hxs t ht x hx

end Keywords

/-- The values a schema accepts. -/
def Schema.Accepts : Schema → Json → Prop
  | .never, _ => False
  | .object kw, v => kw.attach.Admits (fun s => s.1.Accepts) v
termination_by s => sizeOf s
decreasing_by exact sizeOf_lt_object s.2

namespace Schema

@[simp] lemma accepts_never (v : Json) : ¬Schema.never.Accepts v := by
  rw [Accepts]
  exact not_false

lemma accepts_attach {kw : Keywords Schema} {v : Json} :
    (Schema.object kw).Accepts v ↔ kw.attach.Admits (fun s => s.1.Accepts) v := by
  rw [Accepts]

lemma accepts_object {kw : Keywords Schema} {v : Json} :
    (Schema.object kw).Accepts v ↔ kw.Admits Accepts v := by
  rw [Accepts, ← Keywords.admits_map (f := Subtype.val), Keywords.attach_map_val]

/-- Equal literals are accepted by the same schemas. -/
theorem accepts_of_equal {s : Schema} {a b : Json} (hab : jsonValuesEqual a b = true)
    (ha : s.Accepts a) : s.Accepts b := by
  induction s using Schema.childInduction generalizing a b with
  | never => exact absurd ha (accepts_never a)
  | object kw ih =>
    have hba := jsonValuesEqual_symm hab
    rw [accepts_object] at ha ⊢
    refine ⟨?_, ?_, ?_, ?_, ?_, ?_, ?_, ?_⟩
    · intro s hs
      exact ih s (Keywords.mem_children_getD_allOf hs) hab (ha.allOf s hs)
    · intro keyword bs hbs
      refine (UnionKeyword.Satisfied.congr fun s hs => ?_).mp (ha.union keyword bs hbs)
      have hchild := Keywords.mem_children_union hbs hs
      exact ⟨ih s hchild hab, ih s hchild hba⟩
    · exact jsonType_eq_of_equal hab ▸ ha.type
    · intro c hc
      exact jsonValuesEqual_trans hba (ha.const c hc)
    · intro cs hcs
      exact jsonValueIn_congr hab cs ▸ ha.enum cs hcs
    · rintro d rfl name hname
      obtain ⟨e, rfl⟩ := eq_obj_of_equal hba
      have hrel := jsonValuesEqual_obj.mp hab name
      obtain ⟨x, hx⟩ := Dict.has_eq_true_iff.mp (ha.required e rfl name hname)
      rw [hx] at hrel
      generalize hd : d.lookup name = o at hrel
      cases hrel with
      | some _ => exact Dict.has_eq_true_iff.mpr ⟨_, hd⟩
    · rintro d rfl name x hx s hs
      obtain ⟨e, rfl⟩ := eq_obj_of_equal hba
      have hrel := jsonValuesEqual_obj.mp hab name
      rw [hx] at hrel
      generalize he : e.lookup name = o at hrel
      cases hrel with
      | some hyx => exact ih s (Keywords.mem_children_child hs) hyx (ha.member e rfl name _ he s hs)
    · rintro ys rfl s hs y hy
      obtain ⟨xs, rfl⟩ := eq_arr_of_equal hba
      obtain ⟨x, hx, hxy⟩ := Related.exists_mem_left (jsonValuesEqual_arr.mp hab) hy
      exact ih s (Keywords.mem_children_items hs) hxy (ha.items xs rfl s hs x hx)

lemma accepts_congr {s : Schema} {a b : Json} (hab : jsonValuesEqual a b = true) :
    s.Accepts a ↔ s.Accepts b :=
  ⟨accepts_of_equal hab, accepts_of_equal (jsonValuesEqual_symm hab)⟩

/-- The wildcard accepts every value. -/
@[simp] lemma accepts_wildcard (v : Json) : Schema.wildcard.Accepts v := by
  refine accepts_object.mpr ⟨?_, ?_, Or.inl ?_, ?_, ?_, ?_, ?_, ?_⟩
  · simp
  · rintro (_ | _) <;> simp [Keywords.union]
  · simp [Keywords.schemaTypes, Keywords.declaredTypes]
  all_goals simp [Keywords.requiredNames, Keywords.child, Keywords.propertyMap, Keywords.extra]

end Schema

end TradeFramework
