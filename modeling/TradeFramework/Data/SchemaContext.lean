import TradeFramework.Data.Encoding
import TradeFramework.Data.Validate
import Mathlib.Algebra.Order.BigOperators.Group.List
import Mathlib.Algebra.Order.Group.Nat
import Mathlib.Algebra.GroupWithZero.Nat

/-!
# Conjunction contexts

The compatibility proofs read a schema as a conjunction of plain atoms and pending unions.
Splitting on one union replaces it by a branch and drops the others, which only widens the
set of values, so a property proved on every branch holds on the whole context.
-/

namespace TradeFramework

/-- `_schema_accepts_normalized_value`. -/
def schemaAcceptsNormalizedValue (schema : Schema) (value : Json) : Bool :=
  (validateNormalizedJsonValue false value schema "Schema compatibility").toBool

@[simp] lemma schemaAcceptsNormalizedValue_iff {s : Schema} {v : Json} :
    schemaAcceptsNormalizedValue s v = true ↔ s.Accepts v := by
  rw [schemaAcceptsNormalizedValue, Raising.toBool_eq_true, validateNormalizedJsonValue_eq_ok]

lemma schemaAcceptsNormalizedValue_eq_false {s : Schema} {v : Json} :
    schemaAcceptsNormalizedValue s v = false ↔ ¬s.Accepts v := by
  rw [← schemaAcceptsNormalizedValue_iff, Bool.not_eq_true]

/-- The unions present in a schema object, `anyOf` first. -/
def Keywords.unions {σ : Type} (kw : Keywords σ) : List (UnionKeyword × List σ) :=
  [UnionKeyword.anyOf, .oneOf].filterMap fun keyword => (kw.union keyword).map fun bs => (keyword, bs)

/-- `_schema_base`: the schema object without its composition keywords. -/
def Keywords.base {σ : Type} (kw : Keywords σ) : Keywords σ :=
  { kw with anyOf := none, oneOf := none, allOf := none }

/-- A conjunction of plain atoms and symbolic unions. -/
structure SchemaContext where
  atoms : List Schema := []
  unions : List (UnionKeyword × List Schema) := []

namespace SchemaContext

structure Accepts (ctx : SchemaContext) (v : Json) : Prop where
  atoms : ∀ a ∈ ctx.atoms, a.Accepts v
  unions : ∀ u ∈ ctx.unions, u.1.Satisfied (fun b => b.Accepts v) u.2

def append (left right : SchemaContext) : SchemaContext where
  atoms := left.atoms ++ right.atoms
  unions := left.unions ++ right.unions

/-- Flattens the conjunctions of a schema; `own` reads one schema object without them. -/
def flatten (own : Keywords Schema → SchemaContext) : Schema → SchemaContext
  | .never => { atoms := [.never] }
  | .object kw =>
    let branches := (kw.attach.allOf.getD []).map fun b => flatten own b.1
    { atoms := (own kw.base).atoms ++ branches.flatMap atoms
      unions := (own kw.base).unions ++ branches.flatMap unions ++ kw.unions }
termination_by s => sizeOf s
decreasing_by exact Schema.sizeOf_lt_object b.2

/-- The contribution of a schema object to a source context: a `type` list becomes a union. -/
def ofSource (kw : Keywords Schema) : SchemaContext :=
  match kw.type with
  | some (t₁ :: t₂ :: ts) => {
      atoms := [.wildcard]
      unions := [(.anyOf, (t₁ :: t₂ :: ts).map fun t => .object { kw with type := some [t] })] }
  | _ => { atoms := [.object kw] }

def ofTarget (kw : Keywords Schema) : SchemaContext := { atoms := [.object kw] }

end SchemaContext

/-- `_source_context`. -/
def sourceContext : Schema → SchemaContext := SchemaContext.flatten SchemaContext.ofSource

/-- `_target_context`. -/
def targetContext : Schema → SchemaContext := SchemaContext.flatten SchemaContext.ofTarget

/-- `_context_with_branch`. -/
def SchemaContext.withBranch (ctx : SchemaContext) (branch : Schema) : SchemaContext where
  atoms := ctx.atoms ++ (sourceContext branch).atoms
  unions := (sourceContext branch).unions

section Meaning

variable {kw : Keywords Schema} {v : Json}

lemma Keywords.mem_unions {σ : Type} {kw : Keywords σ} {u : UnionKeyword × List σ} :
    u ∈ kw.unions ↔ kw.union u.1 = some u.2 := by
  rcases u with ⟨_ | _, bs⟩ <;> simp [unions, union]

/-- A schema object is the conjunction of its base, its `allOf` branches and its unions. -/
lemma Schema.accepts_object_iff_base : (Schema.object kw).Accepts v ↔
    (Schema.object kw.base).Accepts v ∧ (∀ b ∈ kw.allOf.getD [], b.Accepts v) ∧
      ∀ u ∈ kw.unions, u.1.Satisfied (fun b => b.Accepts v) u.2 := by
  rw [accepts_object, accepts_object]
  constructor
  · intro h
    refine ⟨⟨by simp [Keywords.base], ?_, h.type, h.const, h.enum, h.required, h.member, h.items⟩,
      h.allOf, fun u hu => h.union u.1 u.2 (Keywords.mem_unions.mp hu)⟩
    rintro (_ | _) bs hbs <;> simp [Keywords.union, Keywords.base] at hbs
  · rintro ⟨h, hall, hunions⟩
    refine ⟨hall, ?_, h.type, h.const, h.enum, h.required, h.member, h.items⟩
    intro keyword bs hbs
    exact hunions (keyword, bs) (Keywords.mem_unions.mpr hbs)

/-- `{keyword: branches}` asks nothing but its union. -/
lemma Schema.accepts_ofUnion {keyword : UnionKeyword} {branches : List Schema} :
    (Schema.object (Keywords.ofUnion keyword branches)).Accepts v ↔
      keyword.Satisfied (fun b => b.Accepts v) branches := by
  have hbase : (Keywords.ofUnion keyword branches).base = {} := by
    cases keyword <;> rfl
  have hallOf : (Keywords.ofUnion keyword branches).allOf = none := by
    cases keyword <;> rfl
  have hunions : (Keywords.ofUnion keyword branches).unions = [(keyword, branches)] := by
    cases keyword <;> rfl
  rw [accepts_object_iff_base, hbase, hallOf, hunions]
  have hwild : (Schema.object {}).Accepts v := accepts_wildcard v
  simp [hwild]

namespace SchemaContext

variable {own : Keywords Schema → SchemaContext}

lemma flatten_never : flatten own .never = { atoms := [.never] } := by
  rw [flatten]

lemma flatten_object : flatten own (.object kw) =
    { atoms := (own kw.base).atoms ++ ((kw.allOf.getD []).map (flatten own)).flatMap atoms
      unions := (own kw.base).unions ++ ((kw.allOf.getD []).map (flatten own)).flatMap unions ++
        kw.unions } := by
  have hattach : (kw.attach.allOf.getD []).map (fun b => flatten own b.1) =
      (kw.allOf.getD []).map (flatten own) := by
    conv_rhs => rw [← kw.attach_map_val]
    cases h : kw.attach.allOf <;> simp [Keywords.map, h]
  rw [flatten, hattach]

lemma accepts_atoms_nil {s : Schema} : ({ atoms := [s] } : SchemaContext).Accepts v ↔ s.Accepts v := by
  constructor
  · intro h
    exact h.atoms s (by simp)
  · intro h
    exact ⟨by simpa using h, by simp⟩

/-- Flattening a schema does not change its values. -/
lemma flatten_accepts
    (hown : ∀ (kw : Keywords Schema) (v : Json), (own kw).Accepts v ↔ (Schema.object kw).Accepts v)
    (s : Schema) (v : Json) : (flatten own s).Accepts v ↔ s.Accepts v := by
  induction s using Schema.childInduction with
  | never =>
    rw [flatten_never]
    exact accepts_atoms_nil
  | object kw ih =>
    rw [flatten_object, Schema.accepts_object_iff_base, ← hown]
    constructor
    · intro h
      refine ⟨⟨fun a ha => h.atoms a ?_, fun u hu => h.unions u ?_⟩, fun b hb => ?_, fun u hu => ?_⟩
      · exact List.mem_append_left _ ha
      · exact List.mem_append_left _ (List.mem_append_left _ hu)
      · refine (ih b (Keywords.mem_children_getD_allOf hb)).mp ⟨fun a ha => ?_, fun u hu => ?_⟩
        · refine h.atoms a (List.mem_append_right _ (List.mem_flatMap.mpr ?_))
          exact ⟨_, List.mem_map_of_mem hb, ha⟩
        · refine h.unions u (List.mem_append_left _ (List.mem_append_right _ ?_))
          exact List.mem_flatMap.mpr ⟨_, List.mem_map_of_mem hb, hu⟩
      · exact h.unions u (List.mem_append_right _ hu)
    · rintro ⟨hbase, hall, hunions⟩
      have hbranch : ∀ c ∈ (kw.allOf.getD []).map (flatten own), c.Accepts v := by
        intro c hc
        obtain ⟨b, hb, rfl⟩ := List.mem_map.mp hc
        exact (ih b (Keywords.mem_children_getD_allOf hb)).mpr (hall b hb)
      refine ⟨fun a ha => ?_, fun u hu => ?_⟩
      · rcases List.mem_append.mp ha with ha | ha
        · exact hbase.atoms a ha
        · obtain ⟨c, hc, ha⟩ := List.mem_flatMap.mp ha
          exact (hbranch c hc).atoms a ha
      · rcases List.mem_append.mp hu with hu | hu
        · rcases List.mem_append.mp hu with hu | hu
          · exact hbase.unions u hu
          · obtain ⟨c, hc, hu⟩ := List.mem_flatMap.mp hu
            exact (hbranch c hc).unions u hu
        · exact hunions u hu

lemma ofTarget_accepts (kw : Keywords Schema) (v : Json) :
    (ofTarget kw).Accepts v ↔ (Schema.object kw).Accepts v :=
  accepts_atoms_nil

lemma schemaTypes_of_type {types : List JsonType} (h : kw.type = some types) (hne : types ≠ []) :
    kw.schemaTypes = types.toFinset := by
  have hdeclared : kw.declaredTypes = types.toFinset := by simp [Keywords.declaredTypes, h]
  have hnonempty : types.toFinset ≠ ∅ := by simpa using hne
  simp [Keywords.schemaTypes, hdeclared, hnonempty]

lemma typeAllowed_iff_exists {types : List JsonType} {actual : JsonType} :
    TypeAllowed types.toFinset actual ↔ ∃ t ∈ types, TypeAllowed [t].toFinset actual := by
  simp only [TypeAllowed, List.mem_toFinset, List.mem_singleton]
  constructor
  · rintro (h | ⟨h, hnumber⟩)
    · exact ⟨actual, h, Or.inl rfl⟩
    · exact ⟨.number, hnumber, Or.inr ⟨h, rfl⟩⟩
  · rintro ⟨t, ht, rfl | ⟨h, rfl⟩⟩
    · exact Or.inl ht
    · exact Or.inr ⟨h, ht⟩

/-- Only the type clause of a schema object depends on its `type` keyword. -/
lemma accepts_retype (h : (Schema.object kw).Accepts v) (types : List JsonType) (hne : types ≠ [])
    (htype : TypeAllowed types.toFinset (jsonType v)) :
    (Schema.object { kw with type := some types }).Accepts v := by
  rw [Schema.accepts_object] at h ⊢
  refine ⟨h.allOf, h.union, ?_, h.const, h.enum, h.required, h.member, h.items⟩
  rwa [schemaTypes_of_type rfl hne]

/-- Distributing a schema object over its declared types does not change its values. -/
lemma ofSource_accepts (kw : Keywords Schema) (v : Json) :
    (ofSource kw).Accepts v ↔ (Schema.object kw).Accepts v := by
  unfold ofSource
  split
  case h_2 => exact accepts_atoms_nil
  case h_1 t₁ t₂ ts htype =>
    constructor
    · intro h
      obtain ⟨b, hb, hacc⟩ := h.unions _ (List.mem_singleton.mpr rfl)
      obtain ⟨t, ht, rfl⟩ := List.mem_map.mp hb
      have hsingle := (Schema.accepts_object.mp hacc).type
      rw [schemaTypes_of_type rfl (by simp)] at hsingle
      have hall := accepts_retype hacc (t₁ :: t₂ :: ts) (by simp)
        (typeAllowed_iff_exists.mpr ⟨t, ht, hsingle⟩)
      rwa [← htype] at hall
    · intro h
      have hallowed := (Schema.accepts_object.mp h).type
      rw [schemaTypes_of_type htype (by simp)] at hallowed
      obtain ⟨t, ht, hsingle⟩ := typeAllowed_iff_exists.mp hallowed
      refine ⟨by simp, ?_⟩
      simp only [List.mem_singleton, forall_eq]
      exact ⟨_, List.mem_map_of_mem ht, accepts_retype h [t] (by simp) hsingle⟩

end SchemaContext

end Meaning

lemma sourceContext_accepts {s : Schema} {v : Json} : (sourceContext s).Accepts v ↔ s.Accepts v :=
  SchemaContext.flatten_accepts SchemaContext.ofSource_accepts s v

lemma targetContext_accepts {s : Schema} {v : Json} : (targetContext s).Accepts v ↔ s.Accepts v :=
  SchemaContext.flatten_accepts SchemaContext.ofTarget_accepts s v

lemma SchemaContext.Accepts.withBranch {ctx : SchemaContext} {branch : Schema} {v : Json}
    (h : ctx.Accepts v) (hbranch : branch.Accepts v) : (ctx.withBranch branch).Accepts v := by
  have hsource := sourceContext_accepts.mpr hbranch
  refine ⟨fun a ha => ?_, hsource.unions⟩
  rcases List.mem_append.mp ha with ha | ha
  · exact h.atoms a ha
  · exact hsource.atoms a ha

section Splitting

/-- One level of `Schema.splitWeight`. -/
def Keywords.splitWeight (kw : Keywords ℕ) : ℕ :=
  (match kw.type with
    | some (_ :: _ :: _) => 1
    | _ => 0) +
    (kw.allOf.getD []).sum + (kw.unions.map fun u => 1 + u.2.sum).sum

/-- How many unions a source context can still split on, nested ones included. -/
def Schema.splitWeight : Schema → ℕ := Schema.fold 0 Keywords.splitWeight

def SchemaContext.splitWeight (ctx : SchemaContext) : ℕ :=
  (ctx.unions.map fun u => 1 + (u.2.map Schema.splitWeight).sum).sum

lemma Schema.splitWeight_object (kw : Keywords Schema) : (Schema.object kw).splitWeight =
    (match kw.type with
      | some (_ :: _ :: _) => 1
      | _ => 0) +
      ((kw.allOf.getD []).map splitWeight).sum +
        (kw.unions.map fun u => 1 + (u.2.map splitWeight).sum).sum := by
  have hunions : (kw.map splitWeight).unions = kw.unions.map fun u => (u.1, u.2.map splitWeight) := by
    cases hany : kw.anyOf <;> cases hone : kw.oneOf <;>
      simp [Keywords.unions, Keywords.union, Keywords.map, hany, hone]
  have hallOf : (kw.map splitWeight).allOf.getD [] = (kw.allOf.getD []).map splitWeight := by
    cases h : kw.allOf <;> simp [Keywords.map, h]
  have hfold : (Schema.object kw).splitWeight = (kw.map splitWeight).splitWeight :=
    fold_object 0 _ kw
  rw [hfold, Keywords.splitWeight, hunions, hallOf, List.map_map]
  rfl

lemma SchemaContext.splitWeight_ofSource (kw : Keywords Schema) :
    (ofSource kw.base).splitWeight = match kw.type with
      | some (_ :: _ :: _) => 1
      | _ => 0 := by
  have hsingle : ∀ t, (Schema.object { kw.base with type := some [t] }).splitWeight = 0 := by
    intro t
    rw [Schema.splitWeight_object]
    rfl
  unfold ofSource
  have htype : kw.base.type = kw.type := rfl
  rw [htype]
  rcases kw.type with _ | _ | ⟨t₁, _ | ⟨t₂, ts⟩⟩
  · rfl
  · rfl
  · rfl
  · have hzero : ((t₁ :: t₂ :: ts).map fun t =>
        Schema.splitWeight (.object { kw.base with type := some [t] })).sum = 0 := by
      refine List.sum_eq_zero fun w hw => ?_
      obtain ⟨t, -, rfl⟩ := List.mem_map.mp hw
      exact hsingle t
    simp only [splitWeight, List.map_cons, List.map_nil, List.sum_cons, List.sum_nil, List.map_map]
    simp only [List.map_cons, List.sum_cons] at hzero
    simp only [Function.comp_def]
    omega

lemma SchemaContext.splitWeight_sourceContext (s : Schema) :
    (sourceContext s).splitWeight = s.splitWeight := by
  induction s using Schema.childInduction with
  | never =>
    rw [sourceContext, flatten_never, Schema.splitWeight, Schema.fold_never]
    rfl
  | object kw ih =>
    have hbase := splitWeight_ofSource kw
    have hbranches : (((kw.allOf.getD []).map sourceContext).flatMap unions |>.map fun u =>
        1 + (u.2.map Schema.splitWeight).sum).sum = ((kw.allOf.getD []).map Schema.splitWeight).sum := by
      have hmem : ∀ b ∈ kw.allOf.getD [], (sourceContext b).splitWeight = b.splitWeight :=
        fun b hb => ih b (Keywords.mem_children_getD_allOf hb)
      generalize kw.allOf.getD [] = branches at hmem
      induction branches with
      | nil => rfl
      | cons b bs ihbs =>
        have hb := hmem b (by simp)
        have hbs := ihbs fun c hc => hmem c (by simp [hc])
        simp only [List.map_cons, List.flatMap_cons, List.map_append, List.sum_append, List.sum_cons]
        rw [hbs, ← hb]
        rfl
    rw [Schema.splitWeight_object, sourceContext, flatten_object]
    simp only [splitWeight, List.map_append, List.sum_append] at hbase ⊢
    rw [hbase, ← hbranches]
    rfl

/-- Splitting on a union strictly decreases the weight of the context. -/
lemma SchemaContext.splitWeight_withBranch {ctx : SchemaContext} {u : UnionKeyword × List Schema}
    (hu : u ∈ ctx.unions) {branch : Schema} (hbranch : branch ∈ u.2) :
    (ctx.withBranch branch).splitWeight < ctx.splitWeight := by
  have hweight : (ctx.withBranch branch).splitWeight = branch.splitWeight :=
    splitWeight_sourceContext branch
  have hsum : branch.splitWeight ≤ (u.2.map Schema.splitWeight).sum :=
    List.le_sum_of_mem (List.mem_map_of_mem hbranch)
  have htotal : 1 + (u.2.map Schema.splitWeight).sum ≤ ctx.splitWeight :=
    List.le_sum_of_mem (List.mem_map.mpr ⟨u, hu, rfl⟩)
  omega

/-- Decides a context by `test`, or splits it: for `A & (B | C)` both `A & B` and `A & C`
must be decided positively for some union. Other sibling unions are omitted, which is a
conservative superset proof without a Cartesian expansion. -/
def bySplitting (test : SchemaContext → Except PyError (Option Bool)) (ctx : SchemaContext) :
    Except PyError Bool := do
  match ← test ctx with
  | some verdict => pure verdict
  | none => ctx.unions.attach.anyM fun u => u.1.2.attach.allM fun branch =>
      bySplitting test (ctx.withBranch branch.1)
termination_by ctx.splitWeight
decreasing_by exact SchemaContext.splitWeight_withBranch u.2 branch.2

/-- A property that the test establishes on every context it accepts holds of all values of
a context that is decided positively. -/
theorem bySplitting_sound {test : SchemaContext → Except PyError (Option Bool)} {p : Json → Prop}
    (htest : ∀ ctx, test ctx = .ok (some true) → ∀ v, ctx.Accepts v → p v) {ctx : SchemaContext}
    (h : bySplitting test ctx = .ok true) {v : Json} (hv : ctx.Accepts v) : p v := by
  induction hn : ctx.splitWeight using Nat.strong_induction_on generalizing ctx with
  | _ n ih =>
    subst hn
    rw [bySplitting, Raising.bind_eq_ok] at h
    obtain ⟨verdict, hverdict, h⟩ := h
    cases verdict with
    | some b =>
      have hb : b = true := by simpa using h
      exact htest ctx (hb ▸ hverdict) v hv
    | none =>
      obtain ⟨⟨u, hu⟩, -, hall⟩ := Raising.anyM_eq_true h
      obtain ⟨branch, hbranch, hacc⟩ := (hv.unions u hu).exists_mem
      have hdecided := Raising.allM_eq_true.mp hall ⟨branch, hbranch⟩ (List.mem_attach _ _)
      exact ih _ (SchemaContext.splitWeight_withBranch hu hbranch) hdecided
        (hv.withBranch hacc) rfl

end Splitting

end TradeFramework
