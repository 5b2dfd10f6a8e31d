import TradeFramework.Contracts.Reducer
import TradeFramework.Contracts.ExpandedRoots
import TradeFramework.Data.PathShapes

/-!
# Soundness of ordered writes

The reducer simulates the runtime: whatever values the written ports carry, and whichever
optional writes do not happen, the written Data Dict conforms to the reduced contracts.
-/

namespace TradeFramework

section Values

variable {v x : Json} {path : String}

/-- Either alternative survives an optional write. -/
lemma optionalSchemaUnion_accepts {left : Option Schema} {right t : Schema}
    (h : optionalSchemaUnion left right path = .ok t) :
    (right.Accepts v → t.Accepts v) ∧ ∀ l, left = some l → l.Accepts v → t.Accepts v := by
  cases left with
  | none =>
    cases h
    simp
  | some left =>
    unfold optionalSchemaUnion at h
    dsimp only at h
    split_ifs at h with hequal
    · cases h
      refine ⟨id, ?_⟩
      rintro _ ⟨⟩ hl
      exact (accepts_of_schemaValuesEqual hequal v).mp hl
    · simp only [Raising.bind_eq_ok] at h
      obtain ⟨l, hl, r, hr, forward, hforward, h⟩ := h
      have hleft := accepts_of_normalizeDataKeySchema hl v
      have hright := accepts_of_normalizeDataKeySchema hr v
      have hgoal : (r.Accepts v → t.Accepts v) ∧ (l.Accepts v → t.Accepts v) := by
        split_ifs at h with hf
        · cases h
          exact ⟨id, normalizedSchemasCompatible_sound (by rw [hforward, hf]) v⟩
        · simp only [Raising.bind_eq_ok] at h
          obtain ⟨backward, hbackward, h⟩ := h
          split_ifs at h with hb
          · cases h
            exact ⟨normalizedSchemasCompatible_sound (by rw [hbackward, hb]) v, id⟩
          · rw [← accepts_of_normalizeDataKeySchema h, Schema.accepts_anyOf]
            simp +contextual
      refine ⟨fun hv => hgoal.1 (hright.mp hv), ?_⟩
      rintro _ ⟨⟩ hv
      exact hgoal.2 (hleft.mp hv)

lemma isMapping_iff (v : Json) : isMapping v = true ↔ jsonType v = .object := by
  cases v <;> simp [isMapping, jsonType]

/-- Compatible structures replace objects by objects and values by values. -/
lemma isMapping_eq_of_compatible {old new : Schema}
    (h : requireWriteStructureCompatibility old new path = .ok ()) (hx : old.Accepts x)
    (hv : new.Accepts v) : isMapping x = isMapping v := by
  simp only [requireWriteStructureCompatibility, Raising.raiseIf_eq_ok, schemaStructureCategories,
    Bool.or_eq_true, Bool.and_eq_true, decide_eq_true_eq, not_or, not_and] at h
  have hother : ∀ {s : Schema} {y : Json}, s.Accepts y → isMapping y ≠ true →
      possibleRuntimeTypes s \ {.object} ≠ ∅ := by
    intro s y hy hne
    refine Finset.nonempty_iff_ne_empty.mp ⟨jsonType y, ?_⟩
    rw [Finset.mem_sdiff, Finset.mem_singleton]
    exact ⟨hy.mem_possibleRuntimeTypes, fun heq => hne ((isMapping_iff y).mpr heq)⟩
  have hobject : ∀ {s : Schema} {y : Json}, s.Accepts y → isMapping y = true →
      JsonType.object ∈ possibleRuntimeTypes s := by
    intro s y hy htrue
    exact (isMapping_iff y).mp htrue ▸ hy.mem_possibleRuntimeTypes
  by_cases hxm : isMapping x = true <;> by_cases hvm : isMapping v = true
  · rw [hxm, hvm]
  · exact absurd (hother hv hvm) (h.1 (hobject hx hxm))
  · exact absurd (hobject hv hvm) (h.2 (hother hx hxm))
  · simp [hxm, hvm]

lemma createdPathSchema_accepts {parts : List String} {value t : Schema}
    (h : createdPathSchema parts value path = .ok t) (hv : value.Accepts v) :
    t.Accepts (nestedValue parts v) := by
  induction parts generalizing path t with
  | nil =>
    cases h
    exact hv
  | cons name rest ih =>
    obtain ⟨child, hchild, h⟩ := Raising.bind_eq_ok.mp h
    rw [← accepts_of_normalizeDataKeySchema h, objectSchema_accepts]
    refine ⟨_, rfl, by simp [Dict.has], fun k y hk s hs => ?_⟩
    by_cases hname : k = name
    · subst hname
      have hy : nestedValue rest v = y := by simpa using hk
      have hsc : child = s := by simpa using hs
      exact hy ▸ hsc ▸ ih hchild
    · simp [hname] at hk

/-- Writing into an empty object creates the path. -/
lemma setSegmentsBelow_nil (walked : List String) (name : String) (rest : List String) (v : Json) :
    setSegmentsBelow walked [] name rest v = .ok [(name, nestedValue rest v)] := by
  induction rest generalizing walked name with
  | nil => exact setSegmentsBelow_leaf (by simp)
  | cons next rest ih => exact setSegmentsBelow_cons (Or.inr ⟨rfl, rfl⟩) (ih _ _)

end Values

section Writes

/-- A present member is accepted by the schema that a write replaces. -/
lemma Keywords.Admits.oldChild {kw : Keywords Schema} {d : List (String × Json)} {name : String}
    {x : Json} (h : kw.Admits Schema.Accepts (.obj d)) (hx : d.lookup name = some x) :
    ∃ old, kw.oldChild name = some old ∧ old.Accepts x := by
  have hmember := h.member d rfl name x hx
  unfold Keywords.oldChild
  unfold Keywords.child at hmember
  cases hl : kw.propertyMap.lookup name with
  | some s =>
    rw [hl] at hmember
    exact ⟨s, rfl, hmember s rfl⟩
  | none =>
    rw [hl] at hmember
    cases hextra : kw.extra with
    | none => exact ⟨.wildcard, rfl, Schema.accepts_wildcard x⟩
    | some s =>
      rw [hextra] at hmember
      cases s with
      | never => exact absurd (hmember _ rfl) (Schema.accepts_never x)
      | object other => exact ⟨_, rfl, hmember _ rfl⟩

variable {conforming : Prop} {value : Schema} {required : Bool} {v : Json} {path : String}

/-- A symbolic write of `name :: rest` simulates what happens at run time to a value of the old
schema. The value is an object; where the write stores a `conforming` value it succeeds and its
result has the new schema; where the write is optional the new schema keeps the old value. -/
def WriteSound (conforming : Prop) (v : Json) (required : Bool) (name : String)
    (rest : List String) (old new : Schema) : Prop :=
  ∀ x, old.Accepts x → ∃ d, x = .obj d ∧
    (conforming → ∃ d', (∀ walked, setSegmentsBelow walked d name rest v = .ok d') ∧
      new.Accepts (.obj d')) ∧
    (required = false → new.Accepts x)

/-- A symbolic write to the member `name` of an object, whose new schema is `child`. -/
def MemberSound (conforming : Prop) (v : Json) (required : Bool) (d : List (String × Json))
    (name : String) (rest : List String) (child : Schema) : Prop :=
  (conforming → ∃ y, (∀ walked, setSegmentsBelow walked d name rest v = .ok (Dict.set d name y)) ∧
    child.Accepts y) ∧
  (required = false → ∀ x, d.lookup name = some x → child.Accepts x)

section Members

variable {d : List (String × Json)} {name : String} {child old updated : Schema}

lemma MemberSound.leaf
    (hcompat : conforming → ∀ x, d.lookup name = some x → isMapping x = isMapping v)
    (hv : conforming → child.Accepts v)
    (hkeep : required = false → ∀ x, d.lookup name = some x → child.Accepts x) :
    MemberSound conforming v required d name [] child :=
  ⟨fun hc => ⟨v, fun _ => setSegmentsBelow_leaf (hcompat hc), hv hc⟩, hkeep⟩

lemma MemberSound.absent {rest : List String} (hnone : d.lookup name = none)
    (hv : conforming → child.Accepts (nestedValue rest v)) :
    MemberSound conforming v required d name rest child := by
  refine ⟨fun hc => ⟨nestedValue rest v, fun walked => ?_, hv hc⟩, by simp [hnone]⟩
  cases rest with
  | nil => exact setSegmentsBelow_leaf (by simp [hnone])
  | cons next tail =>
    exact setSegmentsBelow_cons (Or.inr ⟨hnone, rfl⟩) (setSegmentsBelow_nil _ next tail v)

lemma MemberSound.present {x : Json} {next : String} {tail : List String}
    (hx : d.lookup name = some x) (hold : old.Accepts x)
    (hwrite : WriteSound conforming v required next tail old updated)
    (hsub : ∀ y, updated.Accepts y → child.Accepts y) :
    MemberSound conforming v required d name (next :: tail) child := by
  obtain ⟨node, rfl, hstore, hkeep⟩ := hwrite x hold
  constructor
  · intro hc
    obtain ⟨node', hset, hnew⟩ := hstore hc
    exact ⟨.obj node', fun walked => setSegmentsBelow_cons (Or.inl hx) (hset _), hsub _ hnew⟩
  · intro hoptional y hy
    rw [hx, Option.some_inj] at hy
    exact hy ▸ hsub _ (hkeep hoptional)

/-- A write of a whole member, over the schema of the values it replaces. -/
lemma MemberSound.replace (hold : ∀ x, d.lookup name = some x → old.Accepts x)
    (hv : conforming → value.Accepts v)
    (h : (do
      requireWriteStructureCompatibility old value path
      if required then pure value else optionalSchemaUnion (some old) value path) = .ok child) :
    MemberSound conforming v required d name [] child := by
  obtain ⟨⟨⟩, hcompat, h⟩ := Raising.bind_eq_ok.mp h
  have hstructure : conforming → ∀ x, d.lookup name = some x → isMapping x = isMapping v :=
    fun hc x hx => isMapping_eq_of_compatible hcompat (hold x hx) (hv hc)
  cases required with
  | true =>
    cases h
    exact .leaf hstructure hv (by simp)
  | false =>
    have hunion : optionalSchemaUnion (some old) value path = .ok child := h
    refine .leaf hstructure (fun hc => (optionalSchemaUnion_accepts hunion).1 (hv hc)) fun _ x hx => ?_
    exact (optionalSchemaUnion_accepts hunion).2 old rfl (hold x hx)

/-- A write below a member that may be missing. -/
lemma MemberSound.update {next : String} {tail : List String} {created : Schema}
    (hold : ∀ x, d.lookup name = some x → old.Accepts x) (hv : conforming → value.Accepts v)
    (hwrite : WriteSound conforming v required next tail old updated)
    (hcreated : createdPathSchema (next :: tail) value path = .ok created)
    (h : optionalSchemaUnion (some updated) created path = .ok child) :
    MemberSound conforming v required d name (next :: tail) child := by
  cases hl : d.lookup name with
  | none =>
    refine .absent hl fun hc => ?_
    exact (optionalSchemaUnion_accepts h).1 (createdPathSchema_accepts hcreated (hv hc))
  | some x =>
    exact .present hl (hold x hl) hwrite fun y => (optionalSchemaUnion_accepts h).2 updated rfl

/-- A write below a member that must exist. -/
lemma MemberSound.descend {next : String} {tail : List String}
    (hold : ∀ x, d.lookup name = some x → old.Accepts x) (hhas : Dict.has d name = true)
    (hwrite : WriteSound conforming v required next tail old child) :
    MemberSound conforming v required d name (next :: tail) child := by
  obtain ⟨x, hx⟩ := Dict.has_eq_true_iff.mp hhas
  exact .present hx (hold x hx) hwrite fun _ => id

end Members

/-- A symbolic write of the path below a member, or of the member itself. -/
lemma writtenChild_sound {descend : Schema → String → Except PyError Schema} {kw : Keywords Schema}
    {name : String} {rest : List String} {child : Schema} {d : List (String × Json)}
    (hdescend : ∀ next tail, rest = next :: tail → ∀ old new childPath,
      descend old childPath = .ok new → WriteSound conforming v required next tail old new)
    (h : writtenChild descend kw name rest value required path = .ok child)
    (hv : conforming → value.Accepts v) (hd : kw.Admits Schema.Accepts (.obj d)) :
    MemberSound conforming v required d name rest child := by
  have hold : ∀ old, kw.oldChild name = some old → ∀ x, d.lookup name = some x → old.Accepts x := by
    intro old hsome x hx
    obtain ⟨o, ho, hox⟩ := hd.oldChild hx
    rw [hsome, Option.some_inj] at ho
    exact ho ▸ hox
  have hnew : kw.oldChild name = none → d.lookup name = none := by
    intro hnone
    by_contra hne
    obtain ⟨x, hx⟩ := Option.ne_none_iff_exists'.mp hne
    obtain ⟨o, ho, -⟩ := hd.oldChild hx
    simp [hnone] at ho
  unfold writtenChild at h
  split at h
  case h_1 hnone =>
    have hchild : child = value := by
      cases required <;> cases h <;> rfl
    exact .absent (hnew hnone) fun hc => hchild ▸ hv hc
  case h_2 old hsome => exact .replace (hold old hsome) hv h
  case h_3 hnone =>
    exact .absent (hnew hnone) fun hc => createdPathSchema_accepts h (hv hc)
  case h_4 old hne hsome =>
    obtain ⟨next, tail, rfl⟩ := List.exists_cons_of_ne_nil hne
    obtain ⟨created, hcreated, h⟩ := Raising.bind_eq_ok.mp h
    obtain ⟨updated, hupdated, h⟩ := Raising.bind_eq_ok.mp h
    have hwrite := hdescend next tail rfl old updated path hupdated
    split_ifs at h with hname
    · cases h
      exact .descend (hold old hsome) (hd.required d rfl name hname) hwrite
    · exact .update (hold old hsome) hv hwrite hcreated h

section Objects

variable {kw : Keywords Schema} {d e : List (String × Json)} {name : String} {child : Schema}

lemma child_withProperty (kw : Keywords Schema) (name : String) (child : Schema) (required : Bool)
    (k : String) : (kw.withProperty name child required).child k =
      if k = name then some child else kw.child k := by
  have hproperties : (kw.withProperty name child required).propertyMap =
      Dict.set kw.propertyMap name child := rfl
  have hextra : (kw.withProperty name child required).extra = kw.extra := rfl
  rw [Keywords.child, Keywords.child, hproperties, hextra, Dict.lookup_set]
  split_ifs <;> rfl

lemma mem_requiredNames_withProperty {k : String} :
    k ∈ (kw.withProperty name child required).requiredNames ↔
      (required = true ∧ k = name) ∨ k ∈ kw.requiredNames := by
  have hnames : (kw.withProperty name child required).requiredNames = sortedStrings
      (if required then name :: kw.requiredNames else kw.requiredNames).dedup := rfl
  rw [hnames, mem_sortedStrings, List.mem_dedup]
  cases required <;> simp

lemma object_mem_schemaTypes_withProperty (h : .object ∈ kw.schemaTypes) :
    .object ∈ (kw.withProperty name child required).schemaTypes := by
  by_cases hdeclared : kw.declaredTypes = ∅
  · have htype : (kw.withProperty name child required).type = some [.object] := by
      simp [Keywords.withProperty, hdeclared]
    rw [SchemaContext.schemaTypes_of_type htype (by simp)]
    simp
  · have hkeep : (kw.withProperty name child required).type = kw.type := if_neg hdeclared
    have htype : (kw.withProperty name child required).declaredTypes = kw.declaredTypes := by
      rw [Keywords.declaredTypes, Keywords.declaredTypes, hkeep]
    have hold : .object ∈ kw.declaredTypes := by
      simpa [Keywords.schemaTypes, hdeclared] using h
    simpa [Keywords.schemaTypes, htype, hdeclared] using hold

/-- What the composition keywords ask of a value. -/
structure Keywords.BranchesAccept (kw : Keywords Schema) (x : Json) : Prop where
  allOf : ∀ b ∈ kw.allOf.getD [], b.Accepts x
  union : ∀ keyword bs, kw.union keyword = some bs → keyword.Satisfied (fun b => b.Accepts x) bs

/-- Keywords with the same object clauses, and no literals. -/
structure Keywords.SameObject (result kw : Keywords Schema) : Prop where
  type : result.type = kw.type
  properties : result.properties = kw.properties
  required : result.required = kw.required
  additionalProperties : result.additionalProperties = kw.additionalProperties
  items : result.items = kw.items
  const : result.const = none
  enum : result.enum = none

variable {result : Keywords Schema}

/-- The keywords after a write accept an object that differs from an accepted one at the
written member only and satisfies the branches. -/
lemma accepts_withProperty (hd : kw.Admits Schema.Accepts (.obj d)) (hresult : result.SameObject kw)
    (hbranches : result.BranchesAccept (.obj e)) (hsame : ∀ k, k ≠ name → e.lookup k = d.lookup k)
    (hchild : ∀ x, e.lookup name = some x → child.Accepts x)
    (hhas : required = true ∨ name ∈ kw.requiredNames → Dict.has e name = true) :
    (Schema.object (result.withProperty name child required)).Accepts (.obj e) := by
  have hnames : result.requiredNames = kw.requiredNames := by
    rw [Keywords.requiredNames, Keywords.requiredNames, hresult.required]
  have hchildren : ∀ k, result.child k = kw.child k := by
    intro k
    simp only [Keywords.child, Keywords.propertyMap, Keywords.extra, hresult.properties,
      hresult.additionalProperties]
  have htypes : result.schemaTypes = kw.schemaTypes := by
    simp only [Keywords.schemaTypes, Keywords.declaredTypes, hresult.type, hresult.properties,
      hresult.required, hresult.items]
    rfl
  refine Schema.accepts_object.mpr ⟨hbranches.allOf, ?_, Or.inl ?_, ?_, ?_, ?_, ?_, by simp⟩
  · rintro (_ | _) bs hbs
    · exact hbranches.union .anyOf bs hbs
    · exact hbranches.union .oneOf bs hbs
  · exact object_mem_schemaTypes_withProperty (htypes ▸ typeAllowed_object.mp hd.type)
  · simp [Keywords.withProperty, hresult.const]
  · simp [Keywords.withProperty, hresult.enum]
  · rintro _ ⟨⟩ k hk
    rw [mem_requiredNames_withProperty, hnames] at hk
    by_cases hname : k = name
    · subst hname
      exact hhas (hk.imp And.left id)
    · have hold := hd.required d rfl k (hk.resolve_left fun h => hname h.2)
      rwa [Dict.has, hsame k hname]
  · rintro _ ⟨⟩ k x hx s hs
    rw [child_withProperty, hchildren] at hs
    split_ifs at hs with hname
    · subst hname
      cases hs
      exact hchild x hx
    · exact hd.member d rfl k x (hsame k hname ▸ hx) s hs

/-- Without object keywords and literals only the branches decide. -/
lemma accepts_of_compositionOnly {x : Json} (h : result.compositionOnly = true)
    (hresult : result.SameObject kw) (hbranches : result.BranchesAccept x) :
    (Schema.object result).Accepts x := by
  simp only [Keywords.compositionOnly, Bool.and_eq_true, Option.isNone_iff_eq_none, and_assoc] at h
  obtain ⟨htype, hproperties, hrequired, hadditional, hitems⟩ := h
  refine Schema.accepts_object.mpr ⟨hbranches.allOf, hbranches.union, Or.inl ?_, ?_, ?_, ?_, ?_, ?_⟩
  · simp [Keywords.schemaTypes, Keywords.declaredTypes, htype, hproperties, hrequired, hitems]
  · simp [hresult.const]
  · simp [hresult.enum]
  · simp [Keywords.requiredNames, hrequired]
  · simp [Keywords.child, Keywords.propertyMap, Keywords.extra, hproperties, hadditional]
  · simp [hitems]

/-- The write to the object keywords simulates the runtime write, when the branches do. -/
lemma writeObject_sound {descend : Schema → String → Except PyError Schema} {rest : List String}
    {new : Schema}
    (hdescend : ∀ next tail, rest = next :: tail → ∀ old new childPath,
      descend old childPath = .ok new → WriteSound conforming v required next tail old new)
    (h : writeObject descend result name rest value required path = .ok new)
    (hv : conforming → value.Accepts v) (hd : kw.Admits Schema.Accepts (.obj d)) (hresult : result.SameObject kw)
    (hwritten : conforming → ∀ d', (∀ walked, setSegmentsBelow walked d name rest v = .ok d') →
      result.BranchesAccept (.obj d'))
    (hkept : required = false → result.BranchesAccept (.obj d))
    (hset : result.compositionOnly = true → conforming →
      ∃ d', ∀ walked, setSegmentsBelow walked d name rest v = .ok d') :
    (conforming → ∃ d', (∀ walked, setSegmentsBelow walked d name rest v = .ok d') ∧
      new.Accepts (.obj d')) ∧ (required = false → new.Accepts (.obj d)) := by
  unfold writeObject at h
  split_ifs at h with honly
  · have hnew : ∀ x, result.BranchesAccept x → new.Accepts x := by
      intro x hx
      exact (accepts_of_normalizeDataKeySchema h x).mp (accepts_of_compositionOnly honly hresult hx)
    refine ⟨fun hc => ?_, fun hoptional => hnew _ (hkept hoptional)⟩
    obtain ⟨d', hd'⟩ := hset honly hc
    exact ⟨d', hd', hnew _ (hwritten hc d' hd')⟩
  · obtain ⟨child, hchild, h⟩ := Raising.bind_eq_ok.mp h
    have hold : result.oldChild name = kw.oldChild name := by
      simp only [Keywords.oldChild, Keywords.propertyMap, Keywords.extra, hresult.properties,
        hresult.additionalProperties]
    have hnames : result.requiredNames = kw.requiredNames := by
      rw [Keywords.requiredNames, Keywords.requiredNames, hresult.required]
    have hsame : ∀ childPath, writtenChild descend result name rest value required childPath =
        writtenChild descend kw name rest value required childPath := by
      intro childPath
      unfold writtenChild
      rw [hold, hnames]
    rw [hsame] at hchild
    have hmember := writtenChild_sound hdescend hchild hv hd
    obtain ⟨hstore, hkeep⟩ := hmember
    refine ⟨fun hc => ?_, fun hoptional => ?_⟩
    · obtain ⟨y, hy, hchildy⟩ := hstore hc
      refine ⟨Dict.set d name y, hy, ?_⟩
      rw [← accepts_of_normalizeDataKeySchema h]
      refine accepts_withProperty hd hresult (hwritten hc _ hy) ?_ ?_ ?_
      · exact fun k hk => Dict.lookup_set_ne d y hk
      · simpa using hchildy
      · simp [Dict.has]
    · rw [← accepts_of_normalizeDataKeySchema h]
      refine accepts_withProperty hd hresult (hkept hoptional) (fun _ _ => rfl) (hkeep hoptional) ?_
      simpa [hoptional] using hd.required d rfl name

end Objects

section Levels

variable {descend : Schema → String → Except PyError Schema} {name : String} {rest : List String}

/-- A value that equals a listed literal is accepted by the alternatives. -/
lemma literalAlternatives_accepts {literals : List Json} {x : Json}
    (h : ∃ c ∈ literals, jsonValuesEqual x c = true) : (literalAlternatives literals).Accepts x := by
  obtain ⟨c, hc, hequal⟩ := h
  have hx := literalDataKeySchema_accepts.mpr hequal
  have hmem := List.mem_map_of_mem (f := literalDataKeySchema) hc
  unfold literalAlternatives
  split
  case h_1 s hs =>
    rw [hs, List.mem_singleton] at hmem
    exact hmem ▸ hx
  case h_2 => exact Schema.accepts_anyOf.mpr ⟨_, hmem, hx⟩

/-- Mapping the branches of a keyword with the proofs that they are branches. -/
lemma mapM_branches_eq_ok {f : Schema → Except PyError Schema} {branches : Option (List Schema)}
    {results : Option (List Schema)}
    (h : (branches.attach.mapM fun bs => bs.1.attach.mapM fun b => f b.1) = .ok results) :
    Option.Rel (List.Forall₂ fun b r => f b = .ok r) branches results := by
  have hrel := Raising.option_mapM_eq_ok.mp h
  have hmap : Option.Rel (fun bs rs => bs.attach.mapM (fun b => f b.1) = .ok rs)
      (branches.attach.map Subtype.val) results := rel_map_left.mpr hrel
  rw [Option.attach_map_subtype_val] at hmap
  exact Related.rel_mono (fun bs rs hbs => (mapM_attach_eq_ok f bs).mp hbs) hmap

lemma renormalizeDataKeySchema_eq_ok {s : Schema}
    {t : {t : Schema // t.compositionRank ≤ s.compositionRank}}
    (h : renormalizeDataKeySchema s path = .ok t) :
    normalizeDataKeySchema s.toJson path = .ok t.1 := by
  unfold renormalizeDataKeySchema at h
  split at h
  case h_1 u hu =>
    cases h
    exact hu
  case h_2 => cases h

/-- A simulated write of an accepted object is the write at run time. -/
lemma WriteSound.accepts {old new : Schema} {d d' : List (String × Json)}
    (h : WriteSound conforming v required name rest old new) (hc : conforming)
    (hd : old.Accepts (.obj d))
    (hset : ∀ walked, setSegmentsBelow walked d name rest v = .ok d') : new.Accepts (.obj d') := by
  obtain ⟨e, heq, hstore, -⟩ := h _ hd
  cases heq
  obtain ⟨e', hset', hnew⟩ := hstore hc
  have hsame : d' = e' := Except.ok.inj ((hset []).symm.trans (hset' []))
  exact hsame ▸ hnew

lemma WriteSound.keeps {old new : Schema} {x : Json} (h : WriteSound conforming v required name rest old new)
    (hx : old.Accepts x) (hoptional : required = false) : new.Accepts x := by
  obtain ⟨-, -, -, hkeep⟩ := h x hx
  exact hkeep hoptional

/-- Where every branch of an accepted object is mapped to a schema that accepts `x`, the
written branches accept `x`. -/
lemma branchesAccept_written {kw : Keywords Schema} {y x : Json}
    {allOf anyOf oneOf : Option (List Schema)} (hy : kw.Admits Schema.Accepts y)
    (hall : Option.Rel (List.Forall₂ fun b r => b.Accepts y → r.Accepts x) kw.allOf allOf)
    (hany : Option.Rel (List.Forall₂ fun b r => b.Accepts y → r.Accepts x) kw.anyOf anyOf)
    (hone : Option.Rel (List.Forall₂ fun b r => b.Accepts y → r.Accepts x) kw.oneOf oneOf) :
    (kw.written allOf anyOf oneOf).BranchesAccept x := by
  have hexists : ∀ (keyword : UnionKeyword) {results : Option (List Schema)},
      Option.Rel (List.Forall₂ fun b r => b.Accepts y → r.Accepts x) (kw.union keyword) results →
        ∀ rs, results = some rs → ∃ r ∈ rs, r.Accepts x := by
    rintro keyword results hrel rs rfl
    obtain ⟨bs, hbs, hpairs⟩ := Related.exists_of_rel_some hrel
    obtain ⟨b, hb, hbv⟩ := (hy.union keyword bs hbs).exists_mem
    obtain ⟨r, hr, hbr⟩ := Related.exists_mem_left hpairs.flip hb
    exact ⟨r, hr, hbr hbv⟩
  constructor
  · intro r hr
    obtain ⟨b, hb, hbr⟩ := Related.exists_mem_left (Related.forall₂_getD hall) hr
    exact hbr (hy.allOf b hb)
  · rintro (_ | _) rs hrs
    · cases oneOf with
      | none => exact hexists .anyOf hany rs hrs
      | some transformed =>
        obtain ⟨r, hr, hrx⟩ := hexists .oneOf hone transformed rfl
        cases hrs
        exact ⟨r, List.mem_append_right _ hr, hrx⟩
    · cases hrs

/-- A DataKey schema without base keywords and literals has a branch that accepts its values. -/
lemma exists_accepted_branch {kw : Keywords Schema} {x : Json} (hwell : kw.WellFormed)
    (hvalid : validateDataKeySchema (.object kw) path = .ok ()) (hliterals : kw.literals = none)
    (honly : kw.compositionOnly = true) (hx : kw.Admits Schema.Accepts x) :
    ∃ branches ∈ [kw.anyOf, kw.oneOf, kw.allOf], ∃ bs, branches = some bs ∧
      ∃ b ∈ bs, b.Accepts x := by
  simp only [Keywords.compositionOnly, Bool.and_eq_true, Option.isNone_iff_eq_none, and_assoc]
    at honly
  have hconst : kw.const = none ∧ kw.enum = none := by
    unfold Keywords.literals at hliterals
    cases hc : kw.const with
    | none => exact ⟨rfl, by simpa [hc] using hliterals⟩
    | some c => simp [hc] at hliterals
  have hdeclared : kw.declaredTypes = ∅ := by simp [Keywords.declaredTypes, honly.1]
  have hconcrete := validateDataKeySchema_concrete hvalid
  simp only [hdeclared, hconst, Option.isNone_none, and_true, true_and, not_and_or] at hconcrete
  have hunion : ∀ keyword, kw.union keyword ≠ none →
      ∃ bs, kw.union keyword = some bs ∧ ∃ b ∈ bs, b.Accepts x := by
    intro keyword hne
    obtain ⟨bs, hbs⟩ := Option.ne_none_iff_exists'.mp hne
    exact ⟨bs, hbs, (hx.union keyword bs hbs).exists_mem⟩
  rcases hconcrete with hne | hne | hne
  · exact ⟨kw.anyOf, by simp, hunion .anyOf hne⟩
  · exact ⟨kw.oneOf, by simp, hunion .oneOf hne⟩
  · obtain ⟨bs, hbs⟩ := Option.ne_none_iff_exists'.mp hne
    have hnonempty : bs ≠ [] := by
      rintro rfl
      exact hwell.branches kw.allOf (by simp) hbs
    obtain ⟨b, hb⟩ := List.exists_mem_of_ne_nil bs hnonempty
    exact ⟨kw.allOf, by simp, bs, hbs, b, hb, hx.allOf b (by simpa [hbs] using hb)⟩

/-- One level of a symbolic write simulates the runtime write. -/
theorem writeLevel_sound
    (hdescend : ∀ next tail, rest = next :: tail → ∀ old new childPath,
      descend old childPath = .ok new → WriteSound conforming v required next tail old new)
    (hv : conforming → value.Accepts v) {old new : Schema}
    (h : writeLevel descend name rest value required path old = .ok new) :
    WriteSound conforming v required name rest old new := by
  induction hn : old.compositionRank using Nat.strong_induction_on generalizing old new with
  | _ n ih =>
    subst hn
    intro x hx
    rw [writeLevel.eq_def, Raising.bind_eq_ok] at h
    obtain ⟨⟨t, ht⟩, hrenormalized, h⟩ := h
    have hnormalized := renormalizeDataKeySchema_eq_ok hrenormalized
    have htx := (accepts_of_normalizeDataKeySchema hnormalized x).mp hx
    cases t with
    | never => exact absurd htx (Schema.accepts_never x)
    | object kw =>
      dsimp only at h
      have hadmits := Schema.accepts_object.mp htx
      have htype := htx.mem_possibleRuntimeTypes
      split_ifs at h with hempty hobject
      · simp [hempty] at htype
      · rw [hobject, Finset.mem_singleton] at htype
        obtain ⟨d, rfl⟩ : ∃ d, x = .obj d := by
          cases x with
          | obj d => exact ⟨d, rfl⟩
          | _ => simp [jsonType] at htype
        split at h
        case h_1 literals hliterals =>
          have hrank := (compositionRank_literals_lt hliterals hobject).trans_le ht
          exact ih _ hrank h rfl _ (literalAlternatives_accepts (hadmits.exists_literal hliterals))
        case h_2 hliterals =>
          obtain ⟨allOf, hall, h⟩ := Raising.bind_eq_ok.mp h
          obtain ⟨anyOf, hany, h⟩ := Raising.bind_eq_ok.mp h
          obtain ⟨oneOf, hone, h⟩ := Raising.bind_eq_ok.mp h
          -- every written branch simulates the write of its branch
          have hbranches : ∀ {branches results : Option (List Schema)},
              branches ∈ [kw.anyOf, kw.oneOf, kw.allOf] →
              (branches.attach.mapM fun bs => bs.1.attach.mapM fun b =>
                writeLevel descend name rest value required path b.1) = .ok results →
              Option.Rel (List.Forall₂ (WriteSound conforming v required name rest)) branches results := by
            intro branches results hmem hresults
            have hrel := mapM_branches_eq_ok hresults
            cases hrel with
            | none => exact .none
            | @some bs rs hbs =>
              refine .some (Related.forall₂_mono (fun b hb r _ hbr => ?_) hbs)
              have hlt := compositionRank_branch_lt (Keywords.mem_branches hmem rfl hb)
              exact ih _ (hlt.trans_le ht) hbr rfl
          have hallOf := hbranches (by simp) hall
          have hanyOf := hbranches (by simp) hany
          have honeOf := hbranches (by simp) hone
          have hwritten := fun (y : Json)
              (hpair : ∀ b r, WriteSound conforming v required name rest b r → b.Accepts (.obj d) →
                r.Accepts y) =>
            branchesAccept_written hadmits
              (Related.rel_mono (fun _ _ hbs => hbs.imp hpair) hallOf)
              (Related.rel_mono (fun _ _ hbs => hbs.imp hpair) hanyOf)
              (Related.rel_mono (fun _ _ hbs => hbs.imp hpair) honeOf)
          have hsame : (kw.written allOf anyOf oneOf).SameObject kw :=
            ⟨rfl, rfl, rfl, rfl, rfl, rfl, rfl⟩
          have hbranch : (kw.written allOf anyOf oneOf).compositionOnly = true → conforming →
              ∃ d', ∀ walked, setSegmentsBelow walked d name rest v = .ok d' := by
            intro honly hc
            obtain ⟨hschema, hvalid⟩ := normalizeDataKeySchema_eq_ok.mp hnormalized
            have hwell := (Schema.normal_object.mp (normalizeSchema_normal hschema)).1
            obtain ⟨branches, hmem, bs, hbs, b, hb, hbx⟩ :=
              exists_accepted_branch hwell hvalid hliterals honly hadmits
            have hresults : ∃ results,
                Option.Rel (List.Forall₂ (WriteSound conforming v required name rest)) branches results := by
              simp only [List.mem_cons, List.not_mem_nil, or_false] at hmem
              rcases hmem with rfl | rfl | rfl
              · exact ⟨anyOf, hanyOf⟩
              · exact ⟨oneOf, honeOf⟩
              · exact ⟨allOf, hallOf⟩
            obtain ⟨results, hresults⟩ := hresults
            rw [hbs] at hresults
            obtain ⟨rs, -, hpairs⟩ := Related.exists_of_rel_some (Related.rel_flip hresults)
            obtain ⟨r, -, hr⟩ := Related.exists_mem_left hpairs.flip hb
            obtain ⟨e, heq, hstore, -⟩ := hr _ hbx
            cases heq
            obtain ⟨e', hset, -⟩ := hstore hc
            exact ⟨e', hset⟩
          exact ⟨d, rfl, writeObject_sound hdescend h hv hadmits hsame
            (fun hc d' hd' => hwritten _ fun b r hbr hb => hbr.accepts hc hb hd')
            (fun hoptional => hwritten _ fun b r hbr hb => hbr.keeps hb hoptional) hbranch⟩

/-- A symbolic write below a schema simulates the runtime write. -/
theorem writeNestedSchema_sound {next : String} {tail : List String} {old new : Schema}
    (hv : conforming → value.Accepts v)
    (h : writeNestedSchema value required (next :: tail) old path = .ok new) :
    WriteSound conforming v required next tail old new := by
  induction tail generalizing next old new path with
  | nil => exact writeLevel_sound (by simp) hv h
  | cons following rest ih =>
    refine writeLevel_sound ?_ hv h
    rintro _ _ ⟨⟩ old new childPath hchild
    exact ih hchild

end Levels

end Writes

section Runs

open ExpandedContractWriteReducer

variable {conforming : Prop} {reducer : ExpandedContractWriteReducer} {data : DataDict} {v : Json}

/-- A symbolic write to a root simulates the runtime write to a conforming Data Dict. -/
lemma updatedRoot_sound {path : DataPath} {value updated : Schema} {required : Bool}
    (h : reducer.updatedRoot path value required = .ok updated) (hv : conforming → value.Accepts v)
    (hdata : Conforms reducer.rootSchemas reducer.requiredRoots data) :
    MemberSound conforming v required data path.root path.rest updated := by
  obtain ⟨hroots, hrequired⟩ := conforms_iff.mp hdata
  have hold : ∀ schema, reducer.rootSchemas.lookup path.root = some schema →
      ∀ x, data.lookup path.root = some x → schema.Accepts x := by
    intro schema hschema x hx
    obtain ⟨-, other, hother, haccepts⟩ := hroots path.root x hx
    rw [hschema, Option.some_inj] at hother
    exact hother ▸ haccepts
  have hnew : reducer.rootSchemas.lookup path.root = none → data.lookup path.root = none := by
    intro hnone
    by_contra hne
    obtain ⟨x, hx⟩ := Option.ne_none_iff_exists'.mp hne
    obtain ⟨-, other, hother, -⟩ := hroots path.root x hx
    simp [hnone] at hother
  unfold updatedRoot at h
  split at h
  case h_1 hrest hnone =>
    cases h
    exact hrest ▸ .absent (hnew hnone) hv
  case h_2 schema hrest hsome => exact hrest ▸ .replace (hold schema hsome) hv h
  case h_3 hnone _ =>
    exact .absent (hnew hnone) fun hc => createdPathSchema_accepts h (hv hc)
  case h_4 schema hsome hne =>
    obtain ⟨next, tail, hrest⟩ := List.exists_cons_of_ne_nil hne
    rw [hrest] at h ⊢
    obtain ⟨written, hwritten, h⟩ := Raising.bind_eq_ok.mp h
    have hwrite := writeNestedSchema_sound hv hwritten
    split_ifs at h with hmem
    · cases h
      exact .descend (hold schema hsome) (hrequired path.root hmem) hwrite
    · obtain ⟨created, hcreated, h⟩ := Raising.bind_eq_ok.mp h
      exact .update (hold schema hsome) hv hwrite hcreated h

lemma lookup_rewritten (contracts : Contracts) (root : String) (schema : Schema) (k : String) :
    (Dict.erase contracts root ++ [(root, schema)]).lookup k =
      if k = root then some schema else contracts.lookup k := by
  rw [Dict.lookup_append_single _ _ _ _ (by simp [Dict.lookup_erase]), Dict.lookup_erase]
  split_ifs <;> rfl

/-- What happens to one write at run time: it stores a value, or it is skipped. -/
def performWrite (data : DataDict) (write : ContractWrite × Option Json) : Except PyError DataDict :=
  match write.2 with
  | none => pure data
  | some value => do
    let path ← splitDataPath write.1.path
    setDataSegmentsCopyOnWrite data path value

/-- The values a write may carry: only an optional write can be skipped. -/
def WriteAllowed (write : ContractWrite × Option Json) : Prop :=
  match write.2 with
  | none => write.1.required = false
  | some value => validateJsonValue value write.1.schema write.1.path = .ok ()

/-- One accepted write keeps the Data Dict conforming. -/
theorem performWrite_sound {write : ContractWrite × Option Json}
    {reducer' : ExpandedContractWriteReducer}
    (hdata : Conforms reducer.rootSchemas reducer.requiredRoots data)
    (happly : reducer.apply write.1 = .ok reducer') (hallowed : WriteAllowed write) :
    ∃ data', performWrite data write = .ok data' ∧
      Conforms reducer'.rootSchemas reducer'.requiredRoots data' := by
  simp only [apply, Raising.bind_eq_ok, Raising.pure_eq_ok] at happly
  obtain ⟨path, hpath, value, hvalue, updated, hupdated, rfl⟩ := happly
  rcases write with ⟨write, stored⟩
  have hnormal := (normalizeDataKeySchema_eq_ok.mp hvalue).1
  obtain ⟨hroots, hrequired⟩ := conforms_iff.mp hdata
  have hconforming : stored.isSome → value.Accepts (stored.getD .null) := by
    intro hsome
    obtain ⟨v, rfl⟩ := Option.isSome_iff_exists.mp hsome
    obtain ⟨schema, hschema, hvalid⟩ := Raising.bind_eq_ok.mp hallowed
    rw [hnormal] at hschema
    cases hschema
    exact validateNormalizedJsonValue_eq_ok.mp hvalid
  obtain ⟨hstore, hkeep⟩ := updatedRoot_sound hupdated hconforming hdata
  cases stored with
  | none =>
    have hoptional : write.required = false := hallowed
    refine ⟨data, rfl, conforms_iff.mpr ⟨fun root v hv => ?_, ?_⟩⟩
    · obtain ⟨hsegment, schema, hschema, haccepts⟩ := hroots root v hv
      refine ⟨hsegment, ?_⟩
      simp only [lookup_rewritten]
      split_ifs with hroot
      · subst hroot
        exact ⟨updated, rfl, hkeep hoptional v hv⟩
      · exact ⟨schema, hschema, haccepts⟩
    · simpa [hoptional] using hrequired
  | some v =>
    obtain ⟨y, hset, hy⟩ := hstore rfl
    have hwritten : performWrite data (write, some v) = .ok (Dict.set data path.root y) := by
      simp only [performWrite, hpath]
      exact hset []
    refine ⟨_, hwritten, conforms_iff.mpr ⟨fun root x hx => ?_, fun root hroot => ?_⟩⟩
    · simp only [lookup_rewritten]
      rw [Dict.lookup_set] at hx
      split_ifs at hx ⊢ with hname
      · cases hx
        exact ⟨hname ▸ path.valid path.root (by simp), updated, rfl, hy⟩
      · exact hroots root x hx
    · by_cases hname : root = path.root
      · simp [Dict.has, hname]
      · have hold : root ∈ reducer.requiredRoots := by
          dsimp only at hroot
          split_ifs at hroot
          · exact (List.mem_insert_iff.mp hroot).resolve_left hname
          · exact hroot
        have hhas := hrequired root hold
        rwa [Dict.has, Dict.lookup_set_ne _ _ hname]

/-- A run of accepted writes keeps the Data Dict conforming, from any conforming state. -/
theorem performWrites_sound {writes : List (ContractWrite × Option Json)}
    {reducer' : ExpandedContractWriteReducer}
    (hdata : Conforms reducer.rootSchemas reducer.requiredRoots data)
    (happly : reducer.applyMany (writes.map Prod.fst) = .ok reducer')
    (hallowed : ∀ write ∈ writes, WriteAllowed write) :
    ∃ data', writes.foldlM performWrite data = .ok data' ∧
      Conforms reducer'.rootSchemas reducer'.requiredRoots data' := by
  unfold applyMany at happly
  induction writes generalizing reducer data with
  | nil =>
    have heq : reducer = reducer' := by simpa using happly
    exact ⟨data, rfl, heq ▸ hdata⟩
  | cons write writes ih =>
    rw [List.map_cons, List.foldlM_cons, Raising.bind_eq_ok] at happly
    obtain ⟨middle, hmiddle, happly⟩ := happly
    obtain ⟨written, hwritten, hconforms⟩ := performWrite_sound hdata hmiddle (hallowed write (by simp))
    obtain ⟨data', hrun, hfinal⟩ := ih hconforms happly fun w hw => hallowed w (by simp [hw])
    refine ⟨data', ?_, hfinal⟩
    rw [List.foldlM_cons, hwritten]
    exact hrun

/-- The keys of a reducer's root schemas are root paths. -/
def RootsOnly (contracts : Contracts) : Prop :=
  ∀ entry ∈ contracts, ∀ path, splitDataPath entry.1 = .ok path → path.rest = []

/-- The root schemas a reducer starts from are the entries of the root paths. -/
lemma init_rootSchemas {contracts : Contracts} {requiredRoots : List String}
    (h : init contracts requiredRoots = .ok reducer) :
    reducer.requiredRoots = requiredRoots ∧ RootsOnly reducer.rootSchemas ∧
      ∀ root schema, isPathSegment root = true → contracts.lookup root = some schema →
        reducer.rootSchemas.lookup root = some schema := by
  simp only [init, Raising.bind_eq_ok, Raising.pure_eq_ok] at h
  obtain ⟨declared, hdeclared, ⟨⟩, -, rfl⟩ := h
  have hsplit : List.Forall₂ (fun (e : String × Schema) (d : (String × Schema) × DataPath) =>
      d.1 = e ∧ splitDataPath e.1 = .ok d.2) (Dict.items contracts) declared := by
    refine (Raising.mapM_eq_ok.mp hdeclared).imp fun e d hd => ?_
    obtain ⟨path, hpath, rfl⟩ := Raising.map_eq_ok.mp (by simpa using hd)
    exact ⟨rfl, hpath⟩
  have hentries : declared.map Prod.fst = Dict.items contracts := by
    refine List.forall₂_eq_eq_eq ▸ ?_
    rw [List.forall₂_map_left_iff]
    exact hsplit.flip.imp fun _ _ hd => hd.1
  have hpath : ∀ d ∈ declared, splitDataPath d.1.1 = .ok d.2 := by
    intro d hd
    obtain ⟨e, -, rfl, he⟩ := Related.exists_mem_left hsplit hd
    exact he
  refine ⟨rfl, fun entry hentry path hsplitted => ?_, fun root schema hroot hschema => ?_⟩
  · obtain ⟨d, hd, rfl⟩ := List.mem_map.mp hentry
    obtain ⟨hmem, hrest⟩ := List.mem_filter.mp hd
    rw [hpath d hmem] at hsplitted
    cases hsplitted
    simpa using hrest
  · have hnodup : (((declared.filter fun d => decide (d.2.rest = [])).map Prod.fst).map
        Prod.fst).Nodup := by
      have hall : ((declared.map Prod.fst).map Prod.fst).Nodup := hentries ▸ Dict.nodup_keys contracts
      exact hall.sublist ((List.filter_sublist.map Prod.fst).map Prod.fst)
    rw [← Dict.mem_items, Dict.items_of_nodup hnodup]
    have hmem : (root, schema) ∈ declared.map Prod.fst := hentries ▸ Dict.mem_items.mpr hschema
    obtain ⟨d, hd, heq⟩ := List.mem_map.mp hmem
    refine List.mem_map.mpr ⟨d, List.mem_filter.mpr ⟨hd, ?_⟩, heq⟩
    have hsplitted := hpath d hd
    rw [heq, splitDataPath_segment hroot] at hsplitted
    have hd2 := Except.ok.inj hsplitted
    simp [← hd2]

/-- A Data Dict that conforms to a contract state conforms to the state a reducer starts from. -/
lemma init_conforms {contracts : Contracts} {requiredRoots : List String}
    (h : init contracts requiredRoots = .ok reducer) (hdata : Conforms contracts requiredRoots data) :
    Conforms reducer.rootSchemas reducer.requiredRoots data := by
  obtain ⟨hsame, -, hlookup⟩ := init_rootSchemas h
  obtain ⟨hvalues, hrequired⟩ := conforms_iff.mp hdata
  refine conforms_iff.mpr ⟨fun root value hvalue => ?_, hsame ▸ hrequired⟩
  obtain ⟨hsegment, schema, hschema, haccepts⟩ := hvalues root value hvalue
  exact ⟨hsegment, schema, hlookup root schema hsegment hschema, haccepts⟩

lemma apply_rootsOnly {write : ContractWrite} {reducer' : ExpandedContractWriteReducer}
    (hroots : RootsOnly reducer.rootSchemas) (h : reducer.apply write = .ok reducer') :
    RootsOnly reducer'.rootSchemas := by
  simp only [apply, Raising.bind_eq_ok, Raising.pure_eq_ok] at h
  obtain ⟨path, -, value, -, updated, -, rfl⟩ := h
  intro entry hentry p hp
  rcases List.mem_append.mp hentry with hentry | hentry
  · exact hroots entry (List.mem_of_mem_filter hentry) p hp
  · rw [List.mem_singleton.mp hentry, splitDataPath_segment (path.valid path.root (by simp))] at hp
    cases hp
    rfl

/-- A state of a reducer conforms to its materialized contracts. -/
lemma materialize_conforms {contracts : Contracts} {requiredRoots : List String}
    (hroots : RootsOnly reducer.rootSchemas)
    (h : reducer.materialize = .ok (contracts, requiredRoots))
    (hdata : Conforms reducer.rootSchemas reducer.requiredRoots data) :
    Conforms contracts requiredRoots data := by
  obtain ⟨expanded, hexpanded, h⟩ := Raising.bind_eq_ok.mp h
  cases h
  obtain ⟨hvalues, hrequired⟩ := conforms_iff.mp hdata
  refine conforms_iff.mpr ⟨fun root value hvalue => ?_, hrequired⟩
  obtain ⟨hsegment, schema, hschema, haccepts⟩ := hvalues root value hvalue
  have hdocuments : ∀ entry ∈ Dict.items (Contracts.toDocuments reducer.rootSchemas), ∀ path,
      splitDataPath entry.1 = .ok path → path.rest = [] := by
    intro entry hentry
    rw [Contracts.toDocuments, Dict.items_mapValues] at hentry
    obtain ⟨e, he, rfl⟩ := List.mem_map.mp hentry
    exact hroots e (Dict.items_subset _ he)
  have hdocument : (Contracts.toDocuments reducer.rootSchemas).lookup root = some schema.toJson := by
    rw [Contracts.toDocuments, Dict.lookup_mapValues, hschema]
    rfl
  obtain ⟨declared, final, hdeclared, hfinal, hsame⟩ :=
    expandContracts_rootMap hdocuments hexpanded hsegment hdocument
  refine ⟨hsegment, final, hfinal, (hsame value).mp ?_⟩
  exact (accepts_of_normalizeSchema_toJson hdeclared value).mp haccepts

/-- Soundness of the symbolic write reducer against runtime writes: from every Data Dict that
conforms to an expanded contract state, the accepted writes succeed, whatever conforming values
they store and whichever optional ones are skipped, and end in a Data Dict that conforms to the
reducer's final contracts. -/
theorem contractWrites_sound {contracts : Contracts} {requiredRoots : List String}
    {start reducer : ExpandedContractWriteReducer} {writes : List (ContractWrite × Option Json)}
    (hinit : init contracts requiredRoots = .ok start)
    (happly : start.applyMany (writes.map Prod.fst) = .ok reducer)
    (hdata : Conforms contracts requiredRoots data)
    (hallowed : ∀ write ∈ writes, WriteAllowed write) :
    ∃ data', writes.foldlM performWrite data = .ok data' ∧
      Conforms reducer.rootSchemas reducer.requiredRoots data' ∧
      ∀ final finalRoots, reducer.materialize = .ok (final, finalRoots) →
        Conforms final finalRoots data' := by
  obtain ⟨-, hroots, -⟩ := init_rootSchemas hinit
  have hinitial := init_conforms hinit hdata
  have hrootsOnly : RootsOnly reducer.rootSchemas :=
    Raising.foldlM_invariant (fun r : ExpandedContractWriteReducer => RootsOnly r.rootSchemas)
      (fun _ _ _ _ hroots hstep => apply_rootsOnly hroots hstep) hroots happly
  obtain ⟨data', hrun, hconforms⟩ := performWrites_sound hinitial happly hallowed
  exact ⟨data', hrun, hconforms, fun final finalRoots hfinal =>
    materialize_conforms hrootsOnly hfinal hconforms⟩

theorem contractWrites_sound_overlapping :
    let integer : Schema := .object { type := some [.integer] }
    let contracts : Contracts :=
      [("a", objectSchema [("b", integer)] ["b"] (some .never)), ("a.b", integer)]
    let text := Json.obj [("type", .str "string")]
    let writes : List (ContractWrite × Option Json) :=
      [(⟨"a.c.d", text, false⟩, none), (⟨"a.c.e", text, true⟩, some (.str "x")),
        (⟨"a.b", .obj [("type", .str "number")], true⟩, some (.num 2))]
    ∃ start reducer data', init contracts ["a"] = .ok start ∧
      start.applyMany (writes.map Prod.fst) = .ok reducer ∧
      writes.foldlM performWrite [("a", .obj [("b", .int 1)])] = .ok data' ∧
      Conforms reducer.rootSchemas reducer.requiredRoots data' := by
  intro integer contracts text writes
  obtain ⟨reducer, hrun⟩ := Raising.exists_ok_of_toBool
    (x := do (← init contracts ["a"]).applyMany (writes.map Prod.fst)) (by with_unfolding_all decide)
  obtain ⟨start, hstart, happly⟩ := Raising.bind_eq_ok.mp hrun
  have hdata : Conforms contracts ["a"] [("a", .obj [("b", .int 1)])] := by
    constructor
    · intro root value hvalue
      obtain ⟨rfl, rfl⟩ : root = "a" ∧ Json.obj [("b", .int 1)] = value := by simpa using hvalue
      exact ⟨by decide, _, rfl, Raising.toBool_eq_true.mp (by with_unfolding_all decide)⟩
    · simp [Dict.has]
  have hallowed : ∀ write ∈ writes, WriteAllowed write := by
    simp only [writes, List.forall_mem_cons, List.not_mem_nil, false_imp_iff, implies_true, and_true]
    exact ⟨rfl, Raising.toBool_eq_true.mp (by with_unfolding_all decide),
      Raising.toBool_eq_true.mp (by with_unfolding_all decide)⟩
  obtain ⟨data', hwritten, hconforms, -⟩ := contractWrites_sound hstart happly hdata hallowed
  exact ⟨start, reducer, data', hstart, happly, hwritten, hconforms⟩

end Runs

end TradeFramework
