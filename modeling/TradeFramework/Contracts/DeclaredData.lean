import TradeFramework.Contracts.Expansion
import TradeFramework.Data.PythonAccepts

/-!
# Declared Data Dicts

A boundary names the paths it reads from a Data Dict. Its validator first asks for every required
path, then checks the values at the declared paths. With root extensions allowed, every closed object
of a declared schema is opened, and a `oneOf` may then count a branch that was closed against the
value.
-/

namespace TradeFramework.DeclaredData

open PythonValue (Passes Meets passes_object_iff passes_never compileNormalizedJsonValidator
  compileNormalizedJsonValidator_eq_ok)
open Raising (raiseIf)

section Opening

/-- The last step of `allow_projection_extensions`, on a schema whose parts are done. -/
def openObject (kw : Keywords Schema) : Keywords Schema :=
  match kw.type, kw.additionalProperties with
  | some [.object], some (some .never) => { kw with additionalProperties := some none }
  | _, _ => kw

/-- `allow_projection_extensions`. -/
def allowProjectionExtensions : Schema → Schema := Schema.fold .never fun kw => .object (openObject kw)

def projectedRootSchema (allowExtensions : Bool) (schema : Schema) : Schema :=
  if allowExtensions then allowProjectionExtensions schema else schema

end Opening

section Compiling

/-- `get_data_segments`; `none` is the missing value. -/
def getDataSegments : PythonValue → List String → Option PythonValue
  | value, [] => some value
  | .dict entries, segment :: rest => (entries.lookup (.text segment)).bind (getDataSegments · rest)
  | _, _ :: _ => none

/-- What a declared Data Dict projection is compiled from, its contracts expanded already. -/
structure Boundary where
  expanded : Contracts
  path : String
  requiredRoots : List String
  boundaryPaths : Option (List String)
  requiredPaths : List String
  conditionalRequiredPaths : List String

/-- A path with its segments. -/
structure PlannedPath where
  path : String
  segments : DataPath

structure ValuePlan extends PlannedPath where
  schema : Schema

/-- What the phases of a validator walk. -/
structure BoundaryPlan where
  values : List ValuePlan
  required : List PlannedPath
  conditional : List PlannedPath

/-- The declared schemas, in the order of their paths. -/
def projectedContracts (boundary : Boundary) : Except PyError (List (String × Schema)) :=
  match boundary.boundaryPaths with
  | none =>
    ((Dict.items boundary.expanded).insertionSort fun a b => a.1 ≤ b.1).filterM fun e => do
      pure (decide ((← splitDataPath e.1).rest = []))
  | some paths => do
    let found ← (sortedStrings paths.dedup).mapM fun path => do
      pure (path, ← resolveExpandedContractPath boundary.expanded path)
    pure (found.filterMap fun e => e.2.map fun schema => (e.1, schema))

/-- The sorted set of some paths, each split. -/
def planPaths (paths : List String) : Except PyError (List PlannedPath) :=
  (sortedStrings paths.dedup).mapM fun path => do pure ⟨path, ← splitDataPath path⟩

def boundaryPlan (boundary : Boundary) : Except PyError BoundaryPlan := do
  let contracts ← projectedContracts boundary
  let values ← contracts.mapM fun e => do pure ⟨⟨e.1, ← splitDataPath e.1⟩, e.2⟩
  let required ← planPaths (boundary.requiredRoots ++ boundary.requiredPaths)
  let conditional ← planPaths boundary.conditionalRequiredPaths
  pure ⟨values, required, conditional⟩

def isMissing (data : PythonValue) (planned : PlannedPath) : Bool :=
  (getDataSegments data planned.segments.parts).isNone

/-- `require_presence`. -/
def requirePresence (boundary : Boundary) (plan : BoundaryPlan) (data : PythonValue) :
    Except PyError Unit :=
  match data with
  | .dict entries => do
    let missing := plan.required.filter (isMissing data) ++ plan.conditional.filter fun planned =>
      Dict.has entries (.text planned.segments.root) && isMissing data planned
    raiseIf (missing ≠ []) (.valueError <|
      s!"{boundary.path} is missing required root DataKey(s): " ++
        ", ".intercalate (missing.map (·.path)) ++ ".")
  | _ => throw (.valueError s!"{boundary.path} must be a Data Dict object.")

/-- `validate_values`. -/
def validateValues (boundary : Boundary) (plan : BoundaryPlan) (allowExtensions : Bool)
    (data : PythonValue) : Except PyError Unit :=
  plan.values.forM fun planned =>
    match getDataSegments data planned.segments.parts with
    | none => pure ()
    | some value =>
      compileNormalizedJsonValidator (projectedRootSchema allowExtensions planned.schema)
        s!"{boundary.path}.{planned.path}" false value

/-- `compile_declared_data_json_validator`, applied to a Data Dict. -/
def declaredDataJsonValidator (boundary : Boundary) (allowExtensions : Bool) (data : PythonValue) :
    Except PyError Unit := do
  let plan ← boundaryPlan boundary
  requirePresence boundary plan data
  validateValues boundary plan allowExtensions data

end Compiling

section Opened

variable {kw : Keywords Schema} {value : PythonValue}

lemma allowProjectionExtensions_object : allowProjectionExtensions (.object kw) =
    .object (openObject (kw.map allowProjectionExtensions)) :=
  Schema.fold_object _ _ kw

/-- Opening an object changes nothing but what is asked of its other members. -/
lemma openObject_cases (kw : Keywords Schema) : openObject kw = kw ∨
    (kw.extra = some .never ∧ openObject kw = { kw with additionalProperties := some none }) := by
  unfold openObject
  split
  · next hextra =>
    right
    refine ⟨?_, rfl⟩
    unfold Keywords.extra
    rw [hextra]
    rfl
  · exact Or.inl rfl

lemma child_openObject (kw : Keywords Schema) (name : String) :
    (openObject kw).child name = kw.child name ∨ kw.child name = some .never := by
  rcases openObject_cases kw with h | ⟨hextra, h⟩
  · rw [h]
    exact Or.inl rfl
  · rw [h]
    have hmap : ({ kw with additionalProperties := some none } : Keywords Schema).propertyMap =
        kw.propertyMap := rfl
    unfold Keywords.child
    rw [hmap]
    cases hlookup : kw.propertyMap.lookup name with
    | some s => exact Or.inl rfl
    | none => exact Or.inr hextra

lemma eq_never_of_opened {s : Schema} (h : allowProjectionExtensions s = .never) : s = .never := by
  cases s with
  | never => rfl
  | object kw =>
    rw [allowProjectionExtensions_object] at h
    cases h

lemma child_opened {name : String} {s : Schema} (hs : kw.child name = some s) (hne : s ≠ .never) :
    (openObject (kw.map allowProjectionExtensions)).child name =
      some (allowProjectionExtensions s) := by
  have hchild : (kw.map allowProjectionExtensions).child name = some (allowProjectionExtensions s) := by
    rw [Keywords.child_map, hs, Option.map_some]
  rw [← hchild]
  apply (child_openObject _ name).resolve_right
  rw [hchild, Option.some.injEq]
  exact fun hnever => hne (eq_never_of_opened hnever)

lemma child_opened_none {name : String} (hs : kw.child name = none) :
    (openObject (kw.map allowProjectionExtensions)).child name = none := by
  have hchild : (kw.map allowProjectionExtensions).child name = none := by
    rw [Keywords.child_map, hs, Option.map_none]
  rw [← hchild]
  apply (child_openObject _ name).resolve_right
  rw [hchild]
  exact Option.some_ne_none _ ∘ Eq.symm

lemma openObject_keeps (kw : Keywords Schema) : (openObject kw).schemaTypes = kw.schemaTypes ∧
    (openObject kw).const = kw.const ∧ (openObject kw).enum = kw.enum ∧
    (openObject kw).requiredNames = kw.requiredNames ∧ (openObject kw).allOf = kw.allOf ∧
    (∀ keyword, (openObject kw).union keyword = kw.union keyword) ∧
    (openObject kw).items = kw.items := by
  rcases openObject_cases kw with h | ⟨-, h⟩
  · rw [h]
    exact ⟨rfl, rfl, rfl, rfl, rfl, fun _ => rfl, rfl⟩
  · rw [h]
    refine ⟨rfl, rfl, rfl, rfl, rfl, ?_, rfl⟩
    rintro (_ | _) <;> rfl

/-- What an opened schema object asks of a value through its parts. -/
structure PartsPass (kw : Keywords Schema) (value : PythonValue) : Prop where
  allOf : ∀ b ∈ kw.allOf.getD [], Passes (allowProjectionExtensions b) value
  union : ∀ keyword bs, kw.union keyword = some bs → bs ≠ [] →
    keyword.Satisfied (fun b => Passes (allowProjectionExtensions b) value) bs
  member : ∀ entries, value = .dict entries → ∀ name x, (.text name, x) ∈ Dict.items entries →
    ∀ s, kw.child name = some s → s ≠ .never → Passes (allowProjectionExtensions s) x
  items : ∀ elements, value = .list elements → ∀ s, kw.items = some s →
    ∀ x ∈ elements, Passes (allowProjectionExtensions s) x

lemma mem_allOf_map {b : Schema} : b ∈ (kw.map allowProjectionExtensions).allOf.getD [] ↔
    ∃ c ∈ kw.allOf.getD [], allowProjectionExtensions c = b := by
  cases hcases : kw.allOf <;> simp [Keywords.map, hcases]

lemma partsPass_of_opened (h : Passes (allowProjectionExtensions (.object kw)) value) :
    PartsPass kw value := by
  rw [allowProjectionExtensions_object, passes_object_iff] at h
  obtain ⟨-, -, -, -, hallOf, hunion, hitems⟩ := openObject_keeps (kw.map allowProjectionExtensions)
  refine ⟨?_, ?_, ?_, ?_⟩
  · intro b hb
    apply h.allOf
    rw [hallOf, mem_allOf_map]
    exact ⟨b, hb, rfl⟩
  · intro keyword bs hbs hne
    have hmapped : (openObject (kw.map allowProjectionExtensions)).union keyword =
        some (bs.map allowProjectionExtensions) := by
      rw [hunion, Keywords.union_map, hbs, Option.map_some]
    exact UnionKeyword.Satisfied.map.mp (h.union keyword _ hmapped (by simpa using hne))
  · intro entries hvalue name x hx s hs hne
    obtain ⟨name', hname', hchild⟩ := h.member entries hvalue _ hx
    rw [DictKey.text.injEq] at hname'
    subst hname'
    rwa [child_opened hs hne] at hchild
  · intro elements hvalue s hs x hx
    have hitem := h.items elements hvalue x hx
    rwa [hitems, Keywords.map, hs] at hitem

/-- Of a value that passes the closed schema, the opened one asks nothing else. -/
lemma passes_opened_of_parts (h : Passes (.object kw) value) (hparts : PartsPass kw value) :
    Passes (allowProjectionExtensions (.object kw)) value := by
  have hmeets := passes_object_iff.mp h
  obtain ⟨htypes, hconst, henum, hrequired, hallOf, hunion, hitems⟩ :=
    openObject_keeps (kw.map allowProjectionExtensions)
  rw [allowProjectionExtensions_object, passes_object_iff]
  refine ⟨?_, ?_, ?_, ?_, ?_, ?_, ?_, ?_⟩
  · rw [htypes, Keywords.schemaTypes_map]
    exact hmeets.type
  · rw [hconst]
    exact hmeets.const
  · rw [henum]
    exact hmeets.enum
  · rw [hrequired]
    exact hmeets.required
  · rw [hallOf]
    intro b hb
    obtain ⟨c, hc, rfl⟩ := mem_allOf_map.mp hb
    exact hparts.allOf c hc
  · intro keyword bs hbs hne
    rw [hunion, Keywords.union_map, Option.map_eq_some_iff] at hbs
    obtain ⟨cs, hcs, rfl⟩ := hbs
    exact UnionKeyword.Satisfied.map.mpr (hparts.union keyword cs hcs (by simpa using hne))
  · rintro entries hvalue ⟨key, x⟩ he
    obtain ⟨name, rfl, hpasses⟩ := hmeets.member entries hvalue _ he
    refine ⟨name, rfl, ?_⟩
    cases hchild : kw.child name with
    | none =>
      rw [hchild] at hpasses
      rwa [child_opened_none hchild]
    | some s =>
      rw [hchild] at hpasses
      have hne : s ≠ .never := by
        rintro rfl
        exact passes_never hpasses
      rw [child_opened hchild hne]
      exact hparts.member entries hvalue name x he s hchild hne
  · intro elements hvalue x hx
    rw [hitems, Keywords.map]
    have hpasses := hmeets.items elements hvalue x hx
    cases hitem : kw.items with
    | none =>
      rw [hitem] at hpasses
      exact hpasses
    | some s => exact hparts.items elements hvalue s hitem x hx

end Opened

section Crowding

/-- A value that passes a schema, and that its opening rejects: some `oneOf` counts a second opened
branch for it or for a part of it. An alternative that is lost in this way matters where no other
opened alternative takes its place. -/
inductive Crowded : Schema → PythonValue → Prop
  | second {kw : Keywords Schema} {value : PythonValue} {bs : List Schema} {i j : ℕ} {b c : Schema}
      (oneOf : kw.oneOf = some bs) (first : bs[i]? = some b) (other : bs[j]? = some c)
      (distinct : j ≠ i) (firstPasses : Passes (allowProjectionExtensions b) value)
      (otherPasses : Passes (allowProjectionExtensions c) value) : Crowded (.object kw) value
  | lost {kw : Keywords Schema} {value : PythonValue} {bs : List Schema} {keyword : UnionKeyword}
      (union : kw.union keyword = some bs) (some : bs ≠ [])
      (passing : ∀ b ∈ bs, Passes b value → Crowded b value)
      (failing : ∀ b ∈ bs, ¬ Passes b value → ¬ Passes (allowProjectionExtensions b) value) :
      Crowded (.object kw) value
  | allOf {kw : Keywords Schema} {value : PythonValue} {b : Schema} (branch : b ∈ kw.allOf.getD [])
      (crowded : Crowded b value) : Crowded (.object kw) value
  | member {kw : Keywords Schema} {entries : List (DictKey × PythonValue)} {name : String}
      {x : PythonValue} {s : Schema} (mem : (.text name, x) ∈ Dict.items entries)
      (child : kw.child name = some s) (crowded : Crowded s x) : Crowded (.object kw) (.dict entries)
  | item {kw : Keywords Schema} {elements : List PythonValue} {x : PythonValue} {s : Schema}
      (mem : x ∈ elements) (items : kw.items = some s) (crowded : Crowded s x) :
      Crowded (.object kw) (.list elements)

lemma Crowded.ne_never {s : Schema} {value : PythonValue} (h : Crowded s value) : s ≠ .never := by
  rintro rfl
  cases h

lemma Crowded.rejected {s : Schema} {value : PythonValue} (h : Crowded s value) :
    ¬ Passes (allowProjectionExtensions s) value := by
  induction h with
  | second honeOf hb hc hij hbPasses hcPasses =>
    intro hopened
    have hne : _ ≠ [] := List.ne_nil_of_mem (List.mem_of_getElem? hb)
    obtain ⟨k, -, -, -, honly⟩ := (partsPass_of_opened hopened).union .oneOf _ honeOf hne
    have hi := not_not.mp fun hik => honly _ _ hb hik hbPasses
    have hj := not_not.mp fun hjk => honly _ _ hc hjk hcPasses
    exact hij (hj.trans hi.symm)
  | @lost kw value bs keyword hunion hne _ hfailing ih =>
    intro hopened
    obtain ⟨b, hb, hpasses⟩ := ((partsPass_of_opened hopened).union _ _ hunion hne).exists_mem
    by_cases hclosed : Passes b value
    · exact ih b hb hclosed hpasses
    · exact hfailing b hb hclosed hpasses
  | allOf hb _ ih =>
    intro hopened
    exact ih ((partsPass_of_opened hopened).allOf _ hb)
  | member hmem hchild hcrowded ih =>
    intro hopened
    exact ih ((partsPass_of_opened hopened).member _ rfl _ _ hmem _ hchild hcrowded.ne_never)
  | item hmem hitems _ ih =>
    intro hopened
    exact ih ((partsPass_of_opened hopened).items _ rfl _ hitems _ hmem)

lemma passes_opened_of_not_crowded {s : Schema} {value : PythonValue} (h : Passes s value)
    (hcrowded : ¬ Crowded s value) : Passes (allowProjectionExtensions s) value := by
  induction s using Schema.childInduction generalizing value with
  | never => exact absurd h passes_never
  | object kw ih =>
    have hmeets := passes_object_iff.mp h
    apply passes_opened_of_parts h
    refine ⟨?_, ?_, ?_, ?_⟩
    · intro b hb
      exact ih b (Keywords.mem_children_getD_allOf hb) (hmeets.allOf b hb)
        fun hb' => hcrowded (.allOf hb hb')
    · intro keyword bs hbs hne
      have hpassing : ∃ b ∈ bs, Passes (allowProjectionExtensions b) value := by
        by_contra hnone
        apply hcrowded
        apply Crowded.lost hbs hne
        · intro b hb hclosed
          by_contra hnot
          exact hnone ⟨b, hb, ih b (Keywords.mem_children_union hbs hb) hclosed hnot⟩
        · intro b hb _ hopened
          exact hnone ⟨b, hb, hopened⟩
      obtain ⟨b, hb, hopened⟩ := hpassing
      cases keyword with
      | anyOf => exact ⟨b, hb, hopened⟩
      | oneOf =>
        obtain ⟨i, hi⟩ := List.mem_iff_getElem?.mp hb
        refine ⟨i, b, hi, hopened, ?_⟩
        intro j c hj hji hc
        exact hcrowded (.second hbs hi hj hji hopened hc)
    · rintro entries rfl name x hx s hs hne
      obtain ⟨name', hname', hpasses⟩ := hmeets.member entries rfl _ hx
      rw [DictKey.text.injEq] at hname'
      subst hname'
      rw [hs] at hpasses
      exact ih s (Keywords.mem_children_child hs) hpasses fun hs' => hcrowded (.member hx hs hs')
    · rintro elements rfl s hs x hx
      have hpasses := hmeets.items elements rfl x hx
      rw [hs] at hpasses
      exact ih s (Keywords.mem_children_items hs) hpasses fun hs' => hcrowded (.item hx hs hs')

/-- A value that passes a schema is rejected by the opened schema exactly when it is crowded. -/
theorem passes_opened_iff {s : Schema} {value : PythonValue} (h : Passes s value) :
    Passes (allowProjectionExtensions s) value ↔ ¬ Crowded s value :=
  ⟨fun hopened hcrowded => hcrowded.rejected hopened, passes_opened_of_not_crowded h⟩

end Crowding

section Boundaries

variable {boundary : Boundary} {data : PythonValue}

lemma declaredDataJsonValidator_eq_ok {allowExtensions : Bool} :
    declaredDataJsonValidator boundary allowExtensions data = .ok () ↔
      ∃ plan, boundaryPlan boundary = .ok plan ∧ requirePresence boundary plan data = .ok () ∧
        ∀ planned ∈ plan.values, ∀ value, getDataSegments data planned.segments.parts = some value →
          Passes (projectedRootSchema allowExtensions planned.schema) value := by
  have hvalues (plan : BoundaryPlan) : validateValues boundary plan allowExtensions data = .ok () ↔
      ∀ planned ∈ plan.values, ∀ value, getDataSegments data planned.segments.parts = some value →
        Passes (projectedRootSchema allowExtensions planned.schema) value := by
    unfold validateValues
    rw [Raising.forM_eq_ok]
    apply forall₂_congr
    intro planned _
    cases getDataSegments data planned.segments.parts with
    | none => simp [pure, Except.pure]
    | some value =>
      dsimp only
      rw [compileNormalizedJsonValidator_eq_ok]
      simp
  unfold declaredDataJsonValidator
  simp only [Raising.bind_eq_ok, ← hvalues]
  constructor
  · rintro ⟨plan, hplan, ⟨⟩, hpresence, hvalid⟩
    exact ⟨plan, hplan, hpresence, hvalid⟩
  · rintro ⟨plan, hplan, hpresence, hvalid⟩
    exact ⟨plan, hplan, (), hpresence, hvalid⟩

/-- The schemas of a boundary with the values it reads for them. -/
def Reads (boundary : Boundary) (data : PythonValue) (schema : Schema) (value : PythonValue) : Prop :=
  ∃ plan, boundaryPlan boundary = .ok plan ∧ ∃ planned ∈ plan.values, planned.schema = schema ∧
    getDataSegments data planned.segments.parts = some value

/-- A Data Dict that is accepted stays accepted when extensions are allowed exactly when none of the
values at the declared paths is crowded. -/
theorem extensions_widen_iff
    (h : declaredDataJsonValidator boundary false data = .ok ()) :
    declaredDataJsonValidator boundary true data = .ok () ↔
      ∀ schema value, Reads boundary data schema value → ¬ Crowded schema value := by
  rw [declaredDataJsonValidator_eq_ok] at h ⊢
  obtain ⟨plan, hplan, hpresence, hclosed⟩ := h
  constructor
  · rintro ⟨plan', hplan', -, hopened⟩ _ value ⟨plan'', hplan'', planned, hplanned, rfl, hvalue⟩
    rw [hplan, Except.ok.injEq] at hplan' hplan''
    subst hplan' hplan''
    exact (passes_opened_iff (hclosed planned hplanned value hvalue)).mp
      (hopened planned hplanned value hvalue)
  · intro hcrowded
    refine ⟨plan, hplan, hpresence, ?_⟩
    intro planned hplanned value hvalue
    apply (passes_opened_iff (hclosed planned hplanned value hvalue)).mpr
    exact hcrowded planned.schema value ⟨plan, hplan, planned, hplanned, rfl, hvalue⟩

/-- A closed object with one integer member. -/
def alternative (name : String) (required : List String) : Schema :=
  .object { type := some [.object], properties := some [(name, .object { type := some [.integer] })],
            required := some required, additionalProperties := some (some .never) }

/-- A root that is one of two closed objects. -/
def alternatives (required : String → List String) : Boundary where
  expanded :=
    [("r", .object { oneOf := some [alternative "a" (required "a"), alternative "b" (required "b")] }),
      ("r.a", .object { type := some [.integer] }), ("r.b", .object { type := some [.integer] })]
  path := "Data input"
  requiredRoots := []
  boundaryPaths := none
  requiredPaths := []
  conditionalRequiredPaths := []

def firstAlternative : PythonValue := .dict [(.text "r", .dict [(.text "a", .int 1)])]

/-- Where each alternative requires its member, opening them keeps them apart. -/
theorem extensions_widen_required :
    declaredDataJsonValidator (alternatives fun name => [name]) true firstAlternative = .ok () ∧
      ∀ schema value, Reads (alternatives fun name => [name]) firstAlternative schema value →
        ¬ Crowded schema value := by
  have hclosed : declaredDataJsonValidator (alternatives fun name => [name]) false firstAlternative =
      .ok () := Raising.toBool_eq_true.mp (by with_unfolding_all decide)
  have hopened : declaredDataJsonValidator (alternatives fun name => [name]) true firstAlternative =
      .ok () := Raising.toBool_eq_true.mp (by with_unfolding_all decide)
  exact ⟨hopened, (extensions_widen_iff hclosed).mp hopened⟩

theorem alternatives_rejected :
    declaredDataJsonValidator (alternatives fun _ => []) false firstAlternative = .ok () ∧
      declaredDataJsonValidator (alternatives fun _ => []) true firstAlternative ≠ .ok () := by
  constructor
  · exact Raising.toBool_eq_true.mp (by with_unfolding_all decide)
  · rw [ne_eq, ← Raising.toBool_eq_true]
    with_unfolding_all decide

end Boundaries

end TradeFramework.DeclaredData
