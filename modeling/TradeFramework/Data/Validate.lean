import TradeFramework.Data.Semantics
import TradeFramework.Library.Raising

/-!
# Runtime validation

`validate_normalized_json_value` raises on the first keyword a value violates, and the
literal check of `normalize_schema` runs a compiled plan. Both decide `Schema.Accepts`.
-/

namespace TradeFramework

/-- How many branches of a union a value may match. -/
def UnionKeyword.satisfiedBy : UnionKeyword → ℕ → Prop
  | anyOf, matched => matched ≠ 0
  | oneOf, matched => matched = 1

instance : ∀ (keyword : UnionKeyword) (matched : ℕ), Decidable (keyword.satisfiedBy matched)
  | .anyOf, matched => inferInstanceAs (Decidable (matched ≠ 0))
  | .oneOf, matched => inferInstanceAs (Decidable (matched = 1))

open Raising (raiseIf)

/-- The schema the validator applies to the member `name` of an object. -/
def Keywords.memberSchema (kw : Keywords Schema) (path name : String) :
    Except PyError {s : Schema // sizeOf s ≤ sizeOf (Schema.object kw)} :=
  match kw.attach.propertyMap.lookup name, kw.attach.extra with
  | some child, _ => pure ⟨child.1, (Schema.sizeOf_lt_object child.2).le⟩
  | none, some ⟨.never, _⟩ =>
    throw (.valueError s!"Field '{path}.{name}' is not allowed by its schema.")
  | none, some additional => pure ⟨additional.1, (Schema.sizeOf_lt_object additional.2).le⟩
  | none, none => pure ⟨.wildcard, Schema.sizeOf_wildcard_le kw⟩

lemma Keywords.sizeOf_items_le (kw : Keywords Schema) :
    sizeOf (kw.items.getD .wildcard) ≤ sizeOf (Schema.object kw) := by
  cases h : kw.items with
  | none => exact Schema.sizeOf_wildcard_le kw
  | some s => exact (Schema.sizeOf_lt_object (mem_children_items h)).le

/-- `_validate_normalized_json_value`. A branch of a union that raises does not match. -/
def validateNormalizedJsonValue (trustedJson : Bool) (value : Json) (schema : Schema)
    (path : String) : Except PyError Unit :=
  match schema with
  | .never => throw (.valueError s!"DataKey '{path}' is forbidden by its schema.")
  | .object kw =>
    if trustedJson && kw.isEmpty then pure () else do
    (kw.attach.allOf.getD []).forM fun branch =>
      validateNormalizedJsonValue trustedJson value branch.1 path
    [UnionKeyword.anyOf, .oneOf].forM fun keyword =>
      match kw.attach.union keyword with
      | none => pure ()
      | some branches =>
        let matched := branches.filter fun branch =>
          (validateNormalizedJsonValue trustedJson value branch.1 path).toBool
        raiseIf (¬keyword.satisfiedBy matched.length)
          (.valueError s!"DataKey '{path}' does not satisfy '{keyword.name}'.")
    raiseIf (¬TypeAllowed kw.schemaTypes (jsonType value)) (.valueError
      s!"DataKey '{path}' is {(jsonType value).name}, expected {normalizedSchemaLabel schema}.")
    raiseIf (kw.const.any fun c => !jsonValuesEqual value c)
      (.valueError s!"DataKey '{path}' does not equal its schema const.")
    raiseIf (kw.enum.any fun cs => !jsonValueIn value cs)
      (.valueError s!"DataKey '{path}' is not one of its schema enum values.")
    match value with
    | .obj members => do
      kw.requiredNames.forM fun name =>
        raiseIf (¬Dict.has members name)
          (.valueError s!"Required field '{path}.{name}' is missing.")
      if trustedJson && kw.propertyMap.isEmpty && kw.extra.isNone then pure () else
      (Dict.items members).attach.forM fun e => do
        let child ← kw.memberSchema path e.1.1
        validateNormalizedJsonValue trustedJson e.1.2 child.1 s!"{path}.{e.1.1}"
    | .arr elements =>
      elements.attach.zipIdx.forM fun e =>
        validateNormalizedJsonValue trustedJson e.1.1 (kw.items.getD .wildcard) s!"{path}[{e.2}]"
    | _ => pure ()
termination_by sizeOf value + sizeOf schema
decreasing_by
  · have hlt := Schema.sizeOf_lt_object branch.2
    omega
  · have hlt := Schema.sizeOf_lt_object branch.2
    omega
  · have hlt := Json.sizeOf_lt_obj e.2
    omega
  · have hlt := Json.sizeOf_lt_arr e.1.2
    have hle := kw.sizeOf_items_le
    omega

section Refinement

variable {trusted : Bool} {value : Json} {kw : Keywords Schema} {path : String}

lemma UnionKeyword.satisfiedBy_filter {α : Type} {keyword : UnionKeyword} {test : α → Bool}
    {branches : List α} :
    keyword.satisfiedBy (branches.filter test).length ↔
      keyword.Satisfied (fun b => test b = true) branches := by
  cases keyword with
  | anyOf => simp [satisfiedBy, Satisfied]
  | oneOf => simp [satisfiedBy, Satisfied, ExactlyOne.iff_length_filter]

lemma Keywords.memberSchema_accepts {name : String} {x : Json} :
    (∃ s, kw.memberSchema path name = .ok s ∧ s.1.Accepts x) ↔
      ∀ s, kw.child name = some s → s.Accepts x := by
  rw [← kw.child_attach name]
  unfold memberSchema child
  cases kw.attach.propertyMap.lookup name with
  | some s => simp [pure, Except.pure]
  | none => rcases kw.attach.extra with _ | ⟨_ | additional, hadditional⟩ <;> simp [pure, Except.pure]

/-- The union clauses of the validator, if it decides every branch. -/
lemma validateUnion_eq_ok {keyword : UnionKeyword}
    (hbranch : ∀ s ∈ kw.children,
      validateNormalizedJsonValue trusted value s path = .ok () ↔ s.Accepts value) :
    (∀ branches, kw.attach.union keyword = some branches →
      keyword.satisfiedBy (branches.filter fun b =>
        (validateNormalizedJsonValue trusted value b.1 path).toBool).length) ↔
      ∀ bs, kw.union keyword = some bs → keyword.Satisfied (fun b => b.Accepts value) bs := by
  have hattach := kw.union_attach keyword
  cases h : kw.attach.union keyword with
  | none =>
    rw [h, Option.map_none] at hattach
    simp [← hattach]
  | some branches =>
    rw [h, Option.map_some] at hattach
    simp only [← hattach, Option.some.injEq, forall_eq']
    rw [UnionKeyword.satisfiedBy_filter, UnionKeyword.Satisfied.map]
    refine UnionKeyword.Satisfied.congr fun b _ => ?_
    rw [Raising.toBool_eq_true, hbranch b.1 b.2]

/-- The clauses about the members of an object, if the validator decides every member. -/
lemma validateMembers_eq_ok {members : List (String × Json)}
    (hmember : ∀ name x, members.lookup name = some x → ∀ s path,
      validateNormalizedJsonValue trusted x s path = .ok () ↔ s.Accepts x) :
    (if trusted && kw.propertyMap.isEmpty && kw.extra.isNone then pure () else
      (Dict.items members).attach.forM fun e => do
        let child ← kw.memberSchema path e.1.1
        validateNormalizedJsonValue trusted e.1.2 child.1 s!"{path}.{e.1.1}") = .ok () ↔
      ∀ name x, members.lookup name = some x → ∀ s, kw.child name = some s → s.Accepts x := by
  by_cases hopen : (trusted && kw.propertyMap.isEmpty && kw.extra.isNone) = true
  · simp only [if_pos hopen, Raising.pure_eq_ok, true_iff]
    simp only [Bool.and_eq_true, List.isEmpty_iff, Option.isNone_iff_eq_none] at hopen
    intro name x _ s hs
    simp [Keywords.child, hopen] at hs
  rw [if_neg hopen, Raising.forM_eq_ok]
  have hstep : ∀ name x, members.lookup name = some x →
      ((kw.memberSchema path name >>= fun child =>
        validateNormalizedJsonValue trusted x child.1 s!"{path}.{name}") = .ok () ↔
          ∀ s, kw.child name = some s → s.Accepts x) := by
    intro name x hx
    rw [Raising.bind_eq_ok, ← Keywords.memberSchema_accepts]
    exact exists_congr fun s => and_congr_right fun _ => hmember name x hx s.1 _
  constructor
  · intro h name x hx
    exact (hstep name x hx).mp (h ⟨(name, x), Dict.mem_items.mpr hx⟩ (List.mem_attach _ _))
  · rintro h ⟨⟨name, x⟩, hx⟩ -
    have hlookup := Dict.mem_items.mp hx
    exact (hstep name x hlookup).mpr (h name x hlookup)

/-- The clause about the elements of an array, if the validator decides every element. -/
lemma validateElements_eq_ok {elements : List Json}
    (helement : ∀ x ∈ elements, ∀ s path,
      validateNormalizedJsonValue trusted x s path = .ok () ↔ s.Accepts x) :
    (elements.attach.zipIdx.forM fun e => validateNormalizedJsonValue trusted e.1.1
      (kw.items.getD .wildcard) s!"{path}[{e.2}]") = .ok () ↔
        ∀ s, kw.items = some s → ∀ x ∈ elements, s.Accepts x := by
  rw [Raising.forM_eq_ok]
  have hclause : (∀ s, kw.items = some s → ∀ x ∈ elements, s.Accepts x) ↔
      ∀ x ∈ elements, (kw.items.getD .wildcard).Accepts x := by
    cases kw.items <;> simp
  rw [hclause]
  constructor
  · intro h x hx
    obtain ⟨i, hi⟩ := List.mem_iff_getElem?.mp (List.mem_attach elements ⟨x, hx⟩)
    exact (helement x hx _ _).mp (h (⟨x, hx⟩, i) (List.mem_zipIdx_iff_getElem?.mpr hi))
  · rintro h ⟨⟨x, hx⟩, i⟩ -
    exact (helement x hx _ _).mpr (h x hx)

/-- The validator decides a schema object, if it decides the branches on the value itself
and every schema on the members of the value. -/
lemma validateNormalizedJsonValue_object
    (hbranch : ∀ s ∈ kw.children,
      validateNormalizedJsonValue trusted value s path = .ok () ↔ s.Accepts value)
    (hmember : ∀ d, value = .obj d → ∀ name x, d.lookup name = some x → ∀ s path,
      validateNormalizedJsonValue trusted x s path = .ok () ↔ s.Accepts x)
    (helement : ∀ xs, value = .arr xs → ∀ x ∈ xs, ∀ s path,
      validateNormalizedJsonValue trusted x s path = .ok () ↔ s.Accepts x) :
    validateNormalizedJsonValue trusted value (.object kw) path = .ok () ↔
      (Schema.object kw).Accepts value := by
  rw [validateNormalizedJsonValue.eq_def]
  by_cases hempty : (trusted && kw.isEmpty) = true
  · rw [Bool.and_eq_true, Keywords.isEmpty_iff] at hempty
    obtain ⟨rfl, rfl⟩ := hempty
    have hwild : (Schema.object {}).Accepts value := Schema.accepts_wildcard value
    simp [hwild, Keywords.isEmpty]
  have hallOf : (∀ b ∈ kw.attach.allOf.getD [],
      validateNormalizedJsonValue trusted value b.1 path = .ok ()) ↔
        ∀ b ∈ kw.allOf.getD [], b.Accepts value := by
    refine Iff.trans ?_ Keywords.forall_mem_allOf_attach
    exact forall₂_congr fun (b : {s // s ∈ kw.children}) _ => hbranch b.1 b.2
  simp only [if_neg hempty, Raising.seq_eq_ok, Raising.forM_eq_ok, Raising.raiseIf_eq_ok, not_not,
    hallOf, Schema.accepts_object]
  constructor
  · rintro ⟨hall, hunions, htype, hconst, henum, hvalue⟩
    refine ⟨hall, ?_, htype, ?_, ?_, ?_, ?_, ?_⟩
    · intro keyword
      refine (validateUnion_eq_ok hbranch).mp fun branches hbranches => ?_
      have hk := hunions keyword (by cases keyword <;> simp)
      simpa [hbranches] using hk
    · intro c hc
      simpa [hc] using hconst
    · intro cs hcs
      simpa [hcs] using henum
    · rintro d rfl name hname
      simp only [Raising.seq_eq_ok, Raising.forM_eq_ok, Raising.raiseIf_eq_ok, not_not] at hvalue
      exact hvalue.1 name hname
    · rintro d rfl
      simp only [Raising.seq_eq_ok] at hvalue
      exact (validateMembers_eq_ok (hmember d rfl)).mp hvalue.2
    · rintro xs rfl
      exact (validateElements_eq_ok (helement xs rfl)).mp hvalue
  · intro h
    refine ⟨h.allOf, ?_, h.type, ?_, ?_, ?_⟩
    · intro keyword _
      have hk := (validateUnion_eq_ok hbranch).mpr (h.union keyword)
      cases hu : kw.attach.union keyword with
      | none => rfl
      | some branches => simpa using hk branches hu
    · cases hc : kw.const with
      | none => simp
      | some c => simpa using h.const c hc
    · cases hc : kw.enum with
      | none => simp
      | some cs => simpa using h.enum cs hc
    · cases value with
      | obj d =>
        simp only [Raising.seq_eq_ok, Raising.forM_eq_ok, Raising.raiseIf_eq_ok, not_not]
        exact ⟨h.required d rfl, (validateMembers_eq_ok (hmember d rfl)).mpr (h.member d rfl)⟩
      | arr xs => exact (validateElements_eq_ok (helement xs rfl)).mpr (h.items xs rfl)
      | _ => rfl

/-- The validator accepts exactly the values of the schema, whatever path it reports. -/
theorem validateNormalizedJsonValue_eq_ok {s : Schema} :
    validateNormalizedJsonValue trusted value s path = .ok () ↔ s.Accepts value := by
  induction value using Json.visibleInduction generalizing s path with
  | scalar v harr hobj =>
    induction s using Schema.childInduction with
    | never => simp [validateNormalizedJsonValue]
    | object kw ih =>
      exact validateNormalizedJsonValue_object ih (fun d hd => absurd hd (hobj d))
        (fun xs hxs => absurd hxs (harr xs))
  | arr xs hxs =>
    induction s using Schema.childInduction with
    | never => simp [validateNormalizedJsonValue]
    | object kw ih =>
      refine validateNormalizedJsonValue_object ih (by simp) ?_
      rintro ys ⟨⟩ x hx s path
      exact hxs x hx
  | obj d hd =>
    induction s using Schema.childInduction with
    | never => simp [validateNormalizedJsonValue]
    | object kw ih =>
      refine validateNormalizedJsonValue_object ih ?_ (by simp)
      rintro e ⟨⟩ name x hx s path
      exact hd name x hx

end Refinement

end TradeFramework
