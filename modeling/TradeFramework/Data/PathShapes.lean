import TradeFramework.Data.DataPath

/-!
# What a Data Dict holds along its paths

A path leads to nothing, to an object, or to a value that no path goes through. Two values
that show the same along every path are equal, and a read, a write and a deletion are
described by what they change there.
-/

namespace TradeFramework

/-- What a path leads to. -/
inductive PathShape
  | object
  | leaf (value : Json)

/-- An object without its members, or the value itself. -/
def shapeOf : Json → PathShape
  | .obj _ => .object
  | value => .leaf value

/-- What the value shows at a path. -/
def shapeAt (value : Json) (path : List String) : Option PathShape :=
  (getDataSegments value path).map shapeOf

section Reading

variable {v w : Json} {d : DataDict} {p q : List String} {name : String}

lemma shapeAt_nil (v : Json) : shapeAt v [] = some (shapeOf v) := by
  simp [shapeAt, getDataSegments]

lemma shapeAt_cons (d : DataDict) (name : String) (q : List String) :
    shapeAt (.obj d) (name :: q) = (d.lookup name).bind (shapeAt · q) := by
  cases h : d.lookup name <;> simp [shapeAt, getDataSegments, h]

lemma shapeOf_eq_object : shapeOf v = .object ↔ ∃ d, v = .obj d := by
  cases v <;> simp [shapeOf]

lemma isMapping_of_shapeOf (h : shapeOf v = shapeOf w) : isMapping v = isMapping w := by
  cases v <;> cases w <;> simp_all [shapeOf, isMapping]

lemma getDataSegments_append (v : Json) (p q : List String) :
    getDataSegments v (p ++ q) = (getDataSegments v p).bind (getDataSegments · q) := by
  induction p generalizing v with
  | nil => simp [getDataSegments]
  | cons name p ih =>
    cases v with
    | obj d =>
      cases h : d.lookup name with
      | none => simp [getDataSegments, h]
      | some x => simp [getDataSegments, h, ih]
    | _ => simp [getDataSegments]

lemma isSome_of_prefix (hpq : p <+: q) (h : (getDataSegments v q).isSome) :
    (getDataSegments v p).isSome := by
  obtain ⟨rest, rfl⟩ := hpq
  rw [getDataSegments_append, Option.isSome_bind] at h
  cases hv : getDataSegments v p with
  | none => simp [hv] at h
  | some w => rfl

/-- Values that show the same along every path are equal. -/
theorem jsonValuesEqual_of_shapes (v w : Json) (h : ∀ q, shapeAt v q = shapeAt w q) :
    jsonValuesEqual v w = true := by
  have hleaf : ∀ v w : Json, (∀ d, v ≠ .obj d) → (∀ q, shapeAt v q = shapeAt w q) →
      jsonValuesEqual v w = true := by
    intro v w hv h
    have htop := h []
    rw [shapeAt_nil, shapeAt_nil, Option.some.injEq] at htop
    have heq : v = w := by
      cases v <;> cases w <;> simp_all [shapeOf]
    rw [heq]
    exact jsonValuesEqual_refl w
  induction v using Json.visibleInduction generalizing w with
  | scalar v _ hobj => exact hleaf v w hobj h
  | arr xs _ => exact hleaf _ w (by simp) h
  | obj d ih =>
    have htop := h []
    rw [shapeAt_nil, shapeAt_nil, Option.some.injEq] at htop
    obtain ⟨e, rfl⟩ := shapeOf_eq_object.mp htop.symm
    rw [jsonValuesEqual_obj]
    intro k
    have hk : ∀ q, (d.lookup k).bind (shapeAt · q) = (e.lookup k).bind (shapeAt · q) := by
      intro q
      rw [← shapeAt_cons, ← shapeAt_cons]
      exact h (k :: q)
    cases hd : d.lookup k with
    | none =>
      cases he : e.lookup k with
      | none => exact .none
      | some y =>
        have hnil := hk []
        simp [hd, he, shapeAt_nil] at hnil
    | some x =>
      cases he : e.lookup k with
      | none =>
        have hnil := hk []
        simp [hd, he, shapeAt_nil] at hnil
      | some y =>
        refine .some (ih k x hd y fun q => ?_)
        have hq := hk q
        simpa [hd, he] using hq

end Reading

section Writing

/-- The value of a path that is created on the way to a written value. -/
def nestedValue : List String → Json → Json
  | [], value => value
  | name :: rest, value => .obj [(name, nestedValue rest value)]

variable {walked rest : List String} {data node updated : DataDict} {name next : String} {v : Json}

lemma setSegmentsBelow_leaf (h : ∀ x, data.lookup name = some x → isMapping x = isMapping v) :
    setSegmentsBelow walked data name [] v = .ok (Dict.set data name v) := by
  have hsafe : ¬((data.lookup name).any fun existing => isMapping existing != isMapping v) = true := by
    cases hl : data.lookup name with
    | none => simp
    | some x => simp [h x hl]
  rw [setSegmentsBelow]
  simp only [Raising.bind_eq_ok, Raising.raiseIf_eq_ok, Raising.pure_eq_ok]
  exact ⟨(), hsafe, trivial⟩

/-- A write descends into the object at its first segment. -/
lemma setSegmentsBelow_cons
    (hnode : data.lookup name = some (.obj node) ∨ (data.lookup name = none ∧ node = []))
    (h : setSegmentsBelow (walked ++ [name]) node next rest v = .ok updated) :
    setSegmentsBelow walked data name (next :: rest) v =
      .ok (Dict.set data name (.obj updated)) := by
  rw [setSegmentsBelow]
  simp only [Raising.bind_eq_ok, Raising.pure_eq_ok]
  refine ⟨node, ?_, updated, h, rfl⟩
  rcases hnode with hnode | ⟨hnode, rfl⟩ <;> rw [objectAt, hnode] <;> rfl

end Writing

section Parts

/-- The dictionary shows the part of the whole at the kept paths, and nothing elsewhere. -/
structure PartOf (whole : DataDict) (kept : List String → Prop) (part : DataDict) : Prop where
  shows : ∀ q, kept q → shapeAt (.obj part) q = shapeAt (.obj whole) q
  hides : ∀ q, ¬kept q → shapeAt (.obj part) q = none

/-- The dictionary shows nothing that the whole does not. -/
def Within (whole part : DataDict) : Prop :=
  ∀ q, shapeAt (.obj part) q = none ∨ shapeAt (.obj part) q = shapeAt (.obj whole) q

variable {whole part : DataDict} {kept kept' : List String → Prop}

lemma PartOf.within (h : PartOf whole kept part) : Within whole part := by
  intro q
  by_cases hq : kept q
  · exact Or.inr (h.shows q hq)
  · exact Or.inl (h.hides q hq)

/-- An empty dictionary shows itself only. -/
lemma partOf_nil (whole : DataDict) : PartOf whole (fun q => q = []) [] where
  shows := by
    rintro q rfl
    rw [shapeAt_nil, shapeAt_nil]
    rfl
  hides := by
    intro q hq
    cases q with
    | nil => exact absurd rfl hq
    | cons name q => rw [shapeAt_cons]; rfl

/-- Where the whole shows nothing, it does not matter what is kept. -/
lemma PartOf.congr (h : PartOf whole kept part)
    (hkept : ∀ q, (getDataSegments (.obj whole) q).isSome → (kept q ↔ kept' q)) :
    PartOf whole kept' part := by
  have hnone : ∀ q, ¬(getDataSegments (.obj whole) q).isSome → shapeAt (.obj whole) q = none := by
    intro q hq
    rw [shapeAt, Option.not_isSome_iff_eq_none.mp hq]
    rfl
  constructor
  · intro q hq
    by_cases hsome : (getDataSegments (.obj whole) q).isSome
    · exact h.shows q ((hkept q hsome).mpr hq)
    · rcases h.within q with hw | hw
      · rw [hw, hnone q hsome]
      · exact hw
  · intro q hq
    by_cases hsome : (getDataSegments (.obj whole) q).isSome
    · exact h.hides q fun hk => hq ((hkept q hsome).mp hk)
    · rcases h.within q with hw | hw
      · exact hw
      · rw [hw, hnone q hsome]

/-- Two parts that keep the same are equal. -/
lemma PartOf.equal {part' : DataDict} (h : PartOf whole kept part) (h' : PartOf whole kept part') :
    jsonValuesEqual (.obj part) (.obj part') = true := by
  apply jsonValuesEqual_of_shapes
  intro q
  by_cases hq : kept q
  · rw [h.shows q hq, h'.shows q hq]
  · rw [h.hides q hq, h'.hides q hq]

end Parts

section Changes

variable {v : Json}

/-- A deletion hides what is at its path and below. -/
lemma shapeAt_delete (data : DataDict) (name : String) (rest q : List String) :
    (name :: rest <+: q → shapeAt (.obj (deleteSegmentsBelow data name rest)) q = none) ∧
      (¬name :: rest <+: q →
        shapeAt (.obj (deleteSegmentsBelow data name rest)) q = shapeAt (.obj data) q) := by
  induction rest generalizing data name q with
  | nil =>
    cases q with
    | nil => simp [shapeAt_nil, shapeOf]
    | cons k q =>
      rw [shapeAt_cons, shapeAt_cons, deleteSegmentsBelow, Dict.lookup_erase]
      by_cases hk : k = name
      · simp [hk]
      · simp [hk, Ne.symm hk]
  | cons next rest ih =>
    cases q with
    | nil => simp [shapeAt_nil, shapeOf]
    | cons k q =>
      rw [shapeAt_cons, shapeAt_cons, deleteSegmentsBelow, List.cons_prefix_cons]
      split
      case h_1 node hnode =>
        rw [Dict.lookup_set]
        by_cases hk : k = name
        · subst hk
          simpa [hnode] using ih node next q
        · simp [hk, Ne.symm hk]
      case h_2 hother =>
        refine ⟨fun ⟨hk, hleading⟩ => ?_, fun _ => rfl⟩
        subst hk
        -- the path goes on below a value that is missing or no object
        cases hx : data.lookup name with
        | none => rfl
        | some x =>
          obtain ⟨below, rfl⟩ := hleading
          cases x with
          | obj node => exact absurd hx (hother node)
          | _ => simp [shapeAt, getDataSegments]

/-- Writing the value that the whole holds at a path succeeds in a part of it, and shows
the way to the path and what is below. -/
lemma exists_set_within {whole part : DataDict} {walked : List String} {name : String}
    {rest : List String} (hwithin : Within whole part)
    (h : getDataSegments (.obj whole) (name :: rest) = some v) :
    ∃ part', setSegmentsBelow walked part name rest v = .ok part' ∧ ∀ q,
      (name :: rest <+: q ∨ q <+: name :: rest →
        shapeAt (.obj part') q = shapeAt (.obj whole) q) ∧
      (¬(name :: rest <+: q ∨ q <+: name :: rest) →
        shapeAt (.obj part') q = shapeAt (.obj part) q) := by
  induction rest generalizing whole part walked name with
  | nil =>
    have hv : whole.lookup name = some v := by
      cases hl : whole.lookup name <;> simp_all [getDataSegments]
    refine ⟨_, setSegmentsBelow_leaf ?_, fun q => ?_⟩
    · intro x hx
      have hshape := hwithin [name]
      simp only [shapeAt_cons, hx, hv, Option.bind_some, shapeAt_nil, reduceCtorEq, false_or,
        Option.some.injEq] at hshape
      exact isMapping_of_shapeOf hshape
    · cases q with
      | nil => simp [shapeAt_nil, shapeOf]
      | cons k q =>
        rw [shapeAt_cons, shapeAt_cons, shapeAt_cons, Dict.lookup_set]
        by_cases hk : k = name
        · subst hk
          simp [hv]
        · simp [hk, Ne.symm hk]
  | cons next rest ih =>
    obtain ⟨node, hnode, hbelow⟩ : ∃ node, whole.lookup name = some (.obj node) ∧
        getDataSegments (.obj node) (next :: rest) = some v := by
      cases hl : whole.lookup name with
      | none => simp [getDataSegments, hl] at h
      | some x =>
        cases x with
        | obj node => exact ⟨node, rfl, by simpa [getDataSegments, hl] using h⟩
        | _ => simp [getDataSegments, hl] at h
    obtain ⟨inner, hinner, hwithin'⟩ : ∃ inner,
        (part.lookup name = some (.obj inner) ∨ (part.lookup name = none ∧ inner = [])) ∧
          Within node inner := by
      cases hl : part.lookup name with
      | none => exact ⟨[], Or.inr ⟨rfl, rfl⟩, (partOf_nil node).within⟩
      | some x =>
        have hshape := hwithin [name]
        simp only [shapeAt_cons, hl, hnode, Option.bind_some, shapeAt_nil, reduceCtorEq, false_or,
          Option.some.injEq] at hshape
        obtain ⟨inner, rfl⟩ := shapeOf_eq_object.mp hshape
        refine ⟨inner, Or.inl rfl, fun q => ?_⟩
        have hq := hwithin (name :: q)
        simpa only [shapeAt_cons, hl, hnode, Option.bind_some] using hq
    obtain ⟨updated, hupdated, hshows⟩ := @ih _ _ (walked ++ [name]) _ hwithin' hbelow
    refine ⟨_, setSegmentsBelow_cons hinner hupdated, fun q => ?_⟩
    cases q with
    | nil => simp [shapeAt_nil, shapeOf]
    | cons k q =>
      rw [shapeAt_cons, shapeAt_cons, shapeAt_cons, Dict.lookup_set, List.cons_prefix_cons,
        List.cons_prefix_cons]
      by_cases hk : k = name
      · subst hk
        obtain ⟨hshow, hkeep⟩ := hshows q
        simp only [hnode, if_true, Option.bind_some, true_and]
        refine ⟨hshow, fun hq => ?_⟩
        rw [hkeep hq]
        rcases hinner with hinner | ⟨hinner, rfl⟩
        · rw [hinner]
          rfl
        · rw [hinner]
          cases q with
          | nil => exact absurd (Or.inr List.nil_prefix) hq
          | cons k' q => rw [shapeAt_cons]; rfl
      · simp [hk, Ne.symm hk]

/-- A projected path adds what is on the way to it and below it. -/
lemma exists_projectDataPath {whole part : DataDict} {kept : List String → Prop}
    (h : PartOf whole kept part) (path : DataPath) :
    ∃ part', projectDataPath whole part path = .ok part' ∧ PartOf whole (fun q => kept q ∨
      (getDataSegments (.obj whole) path.parts).isSome ∧
        (path.parts <+: q ∨ q <+: path.parts)) part' := by
  unfold projectDataPath
  cases hv : getDataSegments (.obj whole) path.parts with
  | none => exact ⟨part, rfl, h.congr fun q _ => by simp⟩
  | some v =>
    obtain ⟨part', hpart', hshows⟩ := @exists_set_within _ _ _ [] _ _ h.within hv
    refine ⟨part', hpart', fun q hq => ?_, fun q hq => ?_⟩
    · by_cases hpath : path.parts <+: q ∨ q <+: path.parts
      · exact (hshows q).1 hpath
      · rw [(hshows q).2 hpath]
        exact h.shows q (hq.resolve_right fun hc => hpath hc.2)
    · rw [(hshows q).2 fun hc => hq (Or.inr ⟨rfl, hc⟩)]
      exact h.hides q fun hc => hq (Or.inl hc)

/-- The paths that a projection shows. -/
def Projected (data : DataDict) (plan : List DataPath) (q : List String) : Prop :=
  q = [] ∨ ∃ path ∈ plan, (getDataSegments (.obj data) path.parts).isSome ∧
    (path.parts <+: q ∨ q <+: path.parts)

/-- A projection never raises, and shows what is on the way to its paths and below them. -/
theorem exists_projectCompiledDataPaths (data : DataDict) (plan : List DataPath) :
    ∃ part, projectCompiledDataPaths data plan = .ok part ∧ PartOf data (Projected data plan) part := by
  have hfold : ∀ (kept : List String → Prop) (part : DataDict), PartOf data kept part →
      ∃ part', plan.foldlM (projectDataPath data) part = .ok part' ∧
        PartOf data (fun q => kept q ∨ ∃ path ∈ plan, (getDataSegments (.obj data) path.parts).isSome ∧
          (path.parts <+: q ∨ q <+: path.parts)) part' := by
    induction plan with
    | nil => exact fun kept part h => ⟨part, rfl, h.congr fun q _ => by simp⟩
    | cons path plan ih =>
      intro kept part h
      obtain ⟨next, hnext, hpart⟩ := exists_projectDataPath h path
      obtain ⟨part', hrun, hpart'⟩ := ih _ next hpart
      refine ⟨part', ?_, hpart'.congr fun q _ => by simp [or_assoc]⟩
      rw [List.foldlM_cons, hnext, Raising.ok_bind]
      exact hrun
  exact hfold _ [] (partOf_nil data)

/-- Deletions hide what is at their paths and below. -/
lemma PartOf.delete {whole part : DataDict} {kept : List String → Prop} (h : PartOf whole kept part)
    (denied : List DataPath) :
    PartOf whole (fun q => kept q ∧ ∀ path ∈ denied, ¬path.parts <+: q)
      (denied.foldl deleteDataSegmentsCopyOnWrite part) := by
  induction denied generalizing part kept with
  | nil => exact h.congr fun q _ => by simp
  | cons path denied ih =>
    have hone : PartOf whole (fun q => kept q ∧ ¬path.parts <+: q)
        (deleteDataSegmentsCopyOnWrite part path) := by
      constructor
      · rintro q ⟨hq, hpath⟩
        exact ((shapeAt_delete part path.root path.rest q).2 hpath).trans (h.shows q hq)
      · intro q hq
        by_cases hpath : path.parts <+: q
        · exact (shapeAt_delete part path.root path.rest q).1 hpath
        · refine ((shapeAt_delete part path.root path.rest q).2 hpath).trans (h.hides q fun hk => ?_)
          exact hq ⟨hk, hpath⟩
    rw [List.foldl_cons]
    exact (ih hone).congr fun q _ => by simp [and_assoc]

end Changes

end TradeFramework
