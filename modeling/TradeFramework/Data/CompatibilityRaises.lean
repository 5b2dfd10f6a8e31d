import TradeFramework.Data.Compatibility
import Mathlib.Data.Prod.Lex
import Mathlib.Logic.Relation
import Mathlib.Order.WellFounded

/-!
# Where a compatibility proof raises

A comparison answers unless the recursion comes to a bare `True` of an open object next to a
schema with keywords, or to a `False` of the required schema that the source is not known to
miss. The comparisons that one comparison comes to are read off the order of its evaluation.
-/

namespace TradeFramework

open Raising (Raises ComesTo raises_andM raises_orM raises_allM raises_anyM raises_bind)

section Parts

/-- The test of `_source_context_subset_atom` before the context is split. -/
def atomTest (target : Schema) (ctx : SchemaContext) : Except PyError (Option Bool) := do
  if ctx.isEmpty then pure (some true) else
  match ctx.literals with
  | some values => pure (some (values.all (schemaAcceptsNormalizedValue target)))
  | none =>
    let proved ← (ctx.atoms.anyM fun source => plainSchemaSubset source target) <||>
      narrowedBy ctx.atoms target
    pure (if proved then some true else none)

/-- A branch of a `oneOf` that holds the source, where the other branches exclude it. -/
def oneOfBranch (ctx : SchemaContext) (branches : List Schema) (b : Schema × ℕ) : Except PyError Bool :=
  sourceContextSubsetSchema ctx b.1 <&&> branches.zipIdx.allM fun other =>
    if other.2 = b.2 then pure true else sourceContextDisjointSchema ctx other.1

/-- The branches of a union, tried in order. -/
def unionBranches (ctx : SchemaContext) (branches : List Schema) : UnionKeyword → Except PyError Bool
  | .anyOf => branches.anyM (sourceContextSubsetSchema ctx)
  | .oneOf => branches.zipIdx.anyM (oneOfBranch ctx branches)

/-- The test of `_source_context_subset_union` before the context is split. -/
def unionTest (keyword : UnionKeyword) (branches : List Schema) (ctx : SchemaContext) :
    Except PyError (Option Bool) := do
  match ctx.literals with
  | some values => pure <| some <| values.all <|
      schemaAcceptsNormalizedValue (.object (Keywords.ofUnion keyword branches))
  | none =>
    let proved ← unionBranches ctx branches keyword
    pure (if proved then some true else none)

/-- The members of a required property on both sides; `none` is the bare `True`. -/
def bareCompatible : Option Schema → Option Schema → Except PyError Bool
  | some .never, _ => pure false
  | _, some .never => pure false
  | none, none => pure true
  | none, some child => trueCompatible child
  | some property, none => compatibleTrue property
  | some property, some child => normalizedSchemasCompatible property child

def requiredMember (s t : Keywords Schema) (name : String) : Except PyError Bool :=
  if name ∉ s.requiredNames then pure false else bareCompatible (s.child name) (t.child name)

def listedMember (t : Keywords Schema) (e : String × Schema) : Except PyError Bool :=
  match t.child e.1 with
  | none => pure true
  | some .never => pure false
  | some child => normalizedSchemasCompatible e.2 child

def unlistedMember (s : Keywords Schema) (extra : Option Schema) (e : String × Schema) :
    Except PyError Bool :=
  if Dict.has s.propertyMap e.1 then pure true
  else match extra with
    | none => pure false
    | some extra => normalizedSchemasCompatible extra e.2

def extraMembers (extra : Option Schema) (child : Option Schema) : Except PyError Bool :=
  match extra, child with
  | _, some .never => pure false
  | _, none => pure true
  | none, some _ => pure false
  | some extra, some child => normalizedSchemasCompatible extra child

/-- The members that the source does not list. -/
def openMembers (s t : Keywords Schema) : Except PyError Bool :=
  match s.extra with
  | some .never => pure true
  | extra => ((Dict.items t.propertyMap).allM (unlistedMember s extra)) <&&> extraMembers extra t.extra

def objectMembers (s t : Keywords Schema) : Except PyError Bool :=
  (t.requiredNames.allM (requiredMember s t)) <&&>
    ((Dict.items s.propertyMap).allM (listedMember t)) <&&> openMembers s t

/-- Both sides allow values of the type. -/
def BothAllow (type : JsonType) (s t : Keywords Schema) : Prop :=
  type ∈ s.schemaTypes ∧ type ∈ t.schemaTypes

instance (type : JsonType) (s t : Keywords Schema) : Decidable (BothAllow type s t) :=
  inferInstanceAs (Decidable (_ ∧ _))

def arrayItems (s t : Keywords Schema) : Except PyError Bool :=
  match s.items, t.items with
  | some item, some child =>
    if BothAllow .array s t then normalizedSchemasCompatible item child else pure true
  | none, some _ => pure (!decide (BothAllow .array s t))
  | _, none => pure true

/-- Two schema objects whose members and items decide the comparison. -/
structure Keywords.ComparesWith (s t : Keywords Schema) : Prop where
  unequal : schemaValuesEqual (.object s) (.object t) = false
  target : t.isEmpty = false
  source : s.isEmpty = false
  literals : s.literals = none
  unlisted : (t.const.isSome || t.enum.isSome) = false
  types : ∀ type ∈ s.schemaTypes, TypeAllowed t.schemaTypes type

end Parts

section Equations

variable {ctx : SchemaContext} {s t : Keywords Schema} {keyword : UnionKeyword} {branches : List Schema}
  {target : Schema}

lemma bySplitting_eq (test : SchemaContext → Except PyError (Option Bool)) (ctx : SchemaContext) :
    bySplitting test ctx = (test ctx >>= fun
      | some verdict => pure verdict
      | none => ctx.unions.anyM fun u => u.2.allM fun branch =>
          bySplitting test (ctx.withBranch branch)) := by
  rw [bySplitting]
  refine bind_congr fun verdict => ?_
  cases verdict with
  | some b => rfl
  | none =>
    have hsplit : ∀ u : {u // u ∈ ctx.unions},
        (u.1.2.attach.allM fun branch => bySplitting test (ctx.withBranch branch.1)) =
          u.1.2.allM fun branch => bySplitting test (ctx.withBranch branch) :=
      fun u => Raising.allM_attach (fun branch => bySplitting test (ctx.withBranch branch)) u.1.2
    dsimp only
    rw [funext hsplit]
    exact Raising.anyM_attach (fun u : UnionKeyword × List Schema =>
      u.2.allM fun branch => bySplitting test (ctx.withBranch branch)) ctx.unions

lemma sourceContextSubsetAtom_eq :
    sourceContextSubsetAtom ctx target = bySplitting (atomTest target) ctx := by
  rw [sourceContextSubsetAtom]
  rfl

lemma sourceContextSubsetUnion_eq :
    sourceContextSubsetUnion ctx keyword branches = bySplitting (unionTest keyword branches) ctx := by
  rw [sourceContextSubsetUnion]
  congr 1
  funext ctx
  unfold unionTest
  cases ctx.literals with
  | some values => rfl
  | none =>
    dsimp only
    refine congrArg (· >>= _) ?_
    cases keyword with
    | anyOf => exact Raising.anyM_attach (sourceContextSubsetSchema ctx) branches
    | oneOf =>
      have hzip : branches.zipIdx = branches.attach.zipIdx.map (Prod.map Subtype.val id) := by
        rw [← List.zipIdx_map, List.attach_map_subtype_val]
      unfold unionBranches
      dsimp only
      conv_rhs => rw [hzip]
      rw [Raising.anyM_map]
      rfl

lemma sourceContextSubsetSchema_eq : sourceContextSubsetSchema ctx target =
    (((targetContext target).atoms.allM (sourceContextSubsetAtom ctx)) <&&>
      (targetContext target).unions.allM fun u => sourceContextSubsetUnion ctx u.1 u.2) := by
  rw [sourceContextSubsetSchema, Raising.allM_attach (sourceContextSubsetAtom ctx),
    Raising.allM_attach (fun u : UnionKeyword × List Schema => sourceContextSubsetUnion ctx u.1 u.2)]

lemma Keywords.items_propertyMap_attach (kw : Keywords Schema) :
    (Dict.items kw.attach.propertyMap).map (fun e => (e.1, e.2.1)) = Dict.items kw.propertyMap := by
  conv_rhs => rw [← kw.attach_map_val]
  have hmap := Dict.items_mapValues (fun _ s => s.1) kw.attach.propertyMap
  refine Eq.trans hmap.symm ?_
  cases h : kw.attach.properties <;> simp [Keywords.map, Keywords.propertyMap, h, Dict.mapValues]

lemma bareCompatible_attach (property : Option Schema) (child : Option {c // c ∈ t.children}) :
    (match property, child with
      | some .never, _ => pure false
      | _, some ⟨.never, _⟩ => pure false
      | none, none => pure true
      | none, some child => trueCompatible child.1
      | some property, none => compatibleTrue property
      | some property, some child => normalizedSchemasCompatible property child.1) =
      bareCompatible property (child.map Subtype.val) := by
  rcases property with _ | _ | _ <;> rcases child with _ | ⟨_ | _, _⟩ <;> rfl

lemma objectMembers_attach :
    ((t.requiredNames.allM fun name =>
        if name ∉ s.requiredNames then pure false
        else match s.child name, t.attach.child name with
          | some .never, _ => pure false
          | _, some ⟨.never, _⟩ => pure false
          | none, none => pure true
          | none, some child => trueCompatible child.1
          | some property, none => compatibleTrue property
          | some property, some child => normalizedSchemasCompatible property child.1) <&&>
      ((Dict.items s.propertyMap).allM fun e => match t.attach.child e.1 with
        | none => pure true
        | some ⟨.never, _⟩ => pure false
        | some child => normalizedSchemasCompatible e.2 child.1) <&&>
      match s.extra with
      | some .never => pure true
      | extra =>
        ((Dict.items t.attach.propertyMap).allM fun e =>
          if Dict.has s.propertyMap e.1 then pure true
          else match extra with
            | none => pure false
            | some extra => normalizedSchemasCompatible extra e.2.1) <&&>
        match extra, t.attach.extra with
        | _, some ⟨.never, _⟩ => pure false
        | _, none => pure true
        | none, some _ => pure false
        | some extra, some child => normalizedSchemasCompatible extra child.1) = objectMembers s t := by
  unfold objectMembers
  refine congrArg₂ andM ?_ (congrArg₂ andM ?_ ?_)
  · congr 1
    funext name
    unfold requiredMember
    rw [← t.child_attach name, ← bareCompatible_attach]
  · congr 1
    funext e
    unfold listedMember
    rw [← t.child_attach e.1]
    rcases t.attach.child e.1 with _ | ⟨_ | _, _⟩ <;> rfl
  · have hextra : ∀ extra : Option Schema,
        (((Dict.items t.attach.propertyMap).allM fun e =>
            if Dict.has s.propertyMap e.1 then pure true
            else match extra with
              | none => pure false
              | some extra => normalizedSchemasCompatible extra e.2.1) <&&>
          match extra, t.attach.extra with
          | _, some ⟨.never, _⟩ => pure false
          | _, none => pure true
          | none, some _ => pure false
          | some extra, some child => normalizedSchemasCompatible extra child.1) =
        (((Dict.items t.propertyMap).allM (unlistedMember s extra)) <&&> extraMembers extra t.extra) := by
      intro extra
      refine congrArg₂ andM ?_ ?_
      · rw [← t.items_propertyMap_attach, Raising.allM_map]
        rfl
      · rw [← t.extra_attach]
        rcases t.attach.extra with _ | ⟨_ | _, _⟩ <;> rcases extra with _ | _ | _ <;> rfl
    unfold openMembers
    rcases s.extra with _ | _ | _
    · exact hextra none
    · rfl
    · exact hextra (some _)

/-- Where members and items decide, the comparison is that of the members and of the items. -/
lemma plainSchemaSubset_eq (h : s.ComparesWith t) : plainSchemaSubset (.object s) (.object t) =
    ((if ¬BothAllow .object s t then pure true else objectMembers s t) <&&> arrayItems s t) := by
  rw [plainSchemaSubset, if_neg (by simp [h.unequal])]
  dsimp only
  rw [if_neg (by simp [h.target]), if_neg (by simp [h.source])]
  simp only [h.literals]
  rw [if_neg (by simp [h.unlisted]), if_neg (not_not.mpr h.types)]
  refine congrArg₂ andM ?_ ?_
  · by_cases hobjects : BothAllow .object s t
    · exact (if_neg (not_not.mpr hobjects)).trans
        (objectMembers_attach.trans (if_neg (not_not.mpr hobjects)).symm)
    · exact (if_pos hobjects).trans (if_pos hobjects).symm
  unfold arrayItems
  rw [← t.items_attach]
  cases s.items <;> cases t.attach.items <;> rfl

/-- Elsewhere the comparison answers at once. -/
lemma not_raises_plain (h : ¬s.ComparesWith t) :
    ¬Raises (plainSchemaSubset (.object s) (.object t)) := by
  rw [plainSchemaSubset]
  by_cases hequal : schemaValuesEqual (.object s) (.object t) = true
  · simp [hequal]
  by_cases htarget : t.isEmpty = true
  · simp [hequal, htarget]
  by_cases hsource : s.isEmpty = true
  · simp [hequal, htarget, hsource]
  cases hliterals : s.literals with
  | some values => simp [hequal, htarget, hsource]
  | none =>
    by_cases hlisted : (t.const.isSome || t.enum.isSome) = true
    · simp [hequal, htarget, hsource, hlisted]
    by_cases htypes : ∀ type ∈ s.schemaTypes, TypeAllowed t.schemaTypes type
    · exact absurd ⟨by simpa using hequal, by simpa using htarget, by simpa using hsource, hliterals,
        by simpa using hlisted, htypes⟩ h
    · rw [if_neg hequal]
      dsimp only
      rw [if_neg htarget, if_neg hsource, if_neg hlisted, if_pos htypes]
      simp

end Equations

section Comparisons

/-- The comparisons that the recursion makes; `none` is the bare `True` of an open object. -/
inductive Comparison
  | schemas (source target : Schema)
  | bare (source target : Option Schema)
  | schema (ctx : SchemaContext) (target : Schema)
  | union (ctx : SchemaContext) (keyword : UnionKeyword) (branches : List Schema)
  | atom (ctx : SchemaContext) (target : Schema)
  | plain (source target : Schema)

def Comparison.run : Comparison → Except PyError Bool
  | .schemas source target => normalizedSchemasCompatible source target
  | .bare source target => bareCompatible source target
  | .schema ctx target => sourceContextSubsetSchema ctx target
  | .union ctx keyword branches => sourceContextSubsetUnion ctx keyword branches
  | .atom ctx target => sourceContextSubsetAtom ctx target
  | .plain source target => plainSchemaSubset source target

/-- The comparisons that raise by themselves: a bare `True` with a schema that has keywords, and
a `False` with a source that is neither empty nor a list of literals. -/
def Comparison.Fails : Comparison → Prop
  | .bare none (some (.object t)) => t.isEmpty = false
  | .bare (some (.object s)) none => s.isEmpty = false
  | .atom ctx .never => ctx.isEmpty = false ∧ ctx.literals = none
  | _ => False

/-- The branches that a context is split into, in the order of their evaluation. -/
def SplitsTo (value : SchemaContext → Except PyError Bool) (ctx : SchemaContext) (b : Schema) : Prop :=
  ∃ u, ComesTo (fun u : UnionKeyword × List Schema => u.2.allM fun b => value (ctx.withBranch b))
      false ctx.unions u ∧
    ComesTo (fun b => value (ctx.withBranch b)) true u.2 b

/-- The comparisons that the evaluation of a comparison comes to. -/
inductive Comes : Comparison → Comparison → Prop
  | context {s t : Keywords Schema} (unequal : schemaValuesEqual (.object s) (.object t) = false)
      (target : t.isEmpty = false) (source : s.isEmpty = false) :
      Comes (.schemas (.object s) (.object t)) (.schema (sourceContext (.object s)) (.object t))
  | targetAtom {ctx : SchemaContext} {target a : Schema}
      (comes : ComesTo (sourceContextSubsetAtom ctx) true (targetContext target).atoms a) :
      Comes (.schema ctx target) (.atom ctx a)
  | targetUnion {ctx : SchemaContext} {target : Schema} {u : UnionKeyword × List Schema}
      (atoms : (targetContext target).atoms.allM (sourceContextSubsetAtom ctx) = .ok true)
      (comes : ComesTo (fun u : UnionKeyword × List Schema => sourceContextSubsetUnion ctx u.1 u.2)
        true (targetContext target).unions u) :
      Comes (.schema ctx target) (.union ctx u.1 u.2)
  | anyOf {ctx : SchemaContext} {branches : List Schema} {b : Schema} (literals : ctx.literals = none)
      (comes : ComesTo (sourceContextSubsetSchema ctx) false branches b) :
      Comes (.union ctx .anyOf branches) (.schema ctx b)
  | oneOf {ctx : SchemaContext} {branches : List Schema} {b : Schema × ℕ}
      (literals : ctx.literals = none)
      (comes : ComesTo (oneOfBranch ctx branches) false branches.zipIdx b) :
      Comes (.union ctx .oneOf branches) (.schema ctx b.1)
  | splitUnion {ctx : SchemaContext} {keyword : UnionKeyword} {branches : List Schema} {b : Schema}
      (undecided : unionTest keyword branches ctx = .ok none)
      (splits : SplitsTo (sourceContextSubsetUnion · keyword branches) ctx b) :
      Comes (.union ctx keyword branches) (.union (ctx.withBranch b) keyword branches)
  | sourceAtom {ctx : SchemaContext} {target a : Schema} (inhabited : ctx.isEmpty = false)
      (literals : ctx.literals = none)
      (comes : ComesTo (plainSchemaSubset · target) false ctx.atoms a) :
      Comes (.atom ctx target) (.plain a target)
  | splitAtom {ctx : SchemaContext} {target b : Schema} (undecided : atomTest target ctx = .ok none)
      (splits : SplitsTo (sourceContextSubsetAtom · target) ctx b) :
      Comes (.atom ctx target) (.atom (ctx.withBranch b) target)
  | required {s t : Keywords Schema} {name : String} (compares : s.ComparesWith t)
      (objects : BothAllow .object s t)
      (comes : ComesTo (requiredMember s t) true t.requiredNames name)
      (provided : name ∈ s.requiredNames) :
      Comes (.plain (.object s) (.object t)) (.bare (s.child name) (t.child name))
  | listed {s t : Keywords Schema} {e : String × Schema} {child : Keywords Schema}
      (compares : s.ComparesWith t) (objects : BothAllow .object s t)
      (required : t.requiredNames.allM (requiredMember s t) = .ok true)
      (comes : ComesTo (listedMember t) true (Dict.items s.propertyMap) e)
      (target : t.child e.1 = some (.object child)) :
      Comes (.plain (.object s) (.object t)) (.schemas e.2 (.object child))
  | unlisted {s t extra : Keywords Schema} {e : String × Schema} (compares : s.ComparesWith t)
      (objects : BothAllow .object s t)
      (required : t.requiredNames.allM (requiredMember s t) = .ok true)
      (listed : (Dict.items s.propertyMap).allM (listedMember t) = .ok true)
      (source : s.extra = some (.object extra))
      (comes : ComesTo (unlistedMember s s.extra) true (Dict.items t.propertyMap) e)
      (hidden : Dict.has s.propertyMap e.1 = false) :
      Comes (.plain (.object s) (.object t)) (.schemas (.object extra) e.2)
  | extra {s t extra child : Keywords Schema} (compares : s.ComparesWith t)
      (objects : BothAllow .object s t)
      (required : t.requiredNames.allM (requiredMember s t) = .ok true)
      (listed : (Dict.items s.propertyMap).allM (listedMember t) = .ok true)
      (unlisted : (Dict.items t.propertyMap).allM (unlistedMember s s.extra) = .ok true)
      (source : s.extra = some (.object extra)) (target : t.extra = some (.object child)) :
      Comes (.plain (.object s) (.object t)) (.schemas (.object extra) (.object child))
  | items {s t : Keywords Schema} {item child : Schema} (compares : s.ComparesWith t)
      (members : BothAllow .object s t → objectMembers s t = .ok true)
      (arrays : BothAllow .array s t) (source : s.items = some item) (target : t.items = some child) :
      Comes (.plain (.object s) (.object t)) (.schemas item child)
  | bare {s t : Keywords Schema} :
      Comes (.bare (some (.object s)) (some (.object t))) (.schemas (.object s) (.object t))

end Comparisons

section Raising

variable {ctx : SchemaContext} {source target : Schema} {s t : Keywords Schema}
  {keyword : UnionKeyword} {branches : List Schema}

lemma not_raises_never_left (target : Schema) : ¬Raises (normalizedSchemasCompatible .never target) := by
  rw [normalizedSchemasCompatible]
  split_ifs <;> simp

lemma not_raises_never_right (source : Schema) : ¬Raises (normalizedSchemasCompatible source .never) := by
  rw [normalizedSchemasCompatible.eq_def]
  split_ifs
  · simp
  · cases source <;> simp

/-- A split context raises where its test does, or one of its branches. -/
lemma raises_bySplitting (test : SchemaContext → Except PyError (Option Bool)) :
    Raises (bySplitting test ctx) ↔ Raises (test ctx) ∨
      test ctx = .ok none ∧ ∃ b, SplitsTo (bySplitting test) ctx b ∧
        Raises (bySplitting test (ctx.withBranch b)) := by
  rw [bySplitting_eq, raises_bind]
  refine or_congr_right ⟨?_, ?_⟩
  · rintro ⟨verdict, hverdict, hraises⟩
    cases verdict with
    | some b => simp at hraises
    | none =>
      obtain ⟨u, hu, hraises⟩ := raises_anyM.mp hraises
      obtain ⟨b, hb, hraises⟩ := raises_allM.mp hraises
      exact ⟨hverdict, b, ⟨u, hu, hb⟩, hraises⟩
  · rintro ⟨hnone, b, ⟨u, hu, hb⟩, hraises⟩
    exact ⟨none, hnone, raises_anyM.mpr ⟨u, hu, raises_allM.mpr ⟨b, hb, hraises⟩⟩⟩

/-- The disjointness proof never raises. -/
lemma not_raises_disjoint (ctx : SchemaContext) (target : Schema) :
    ¬Raises (sourceContextDisjointSchema ctx target) := by
  induction hn : ctx.splitWeight using Nat.strong_induction_on generalizing ctx with
  | _ n ih =>
    subst hn
    unfold sourceContextDisjointSchema at ih ⊢
    rw [raises_bySplitting]
    rintro (hraises | ⟨-, b, ⟨u, hu, hb⟩, hraises⟩)
    · simp at hraises
    · exact ih _ (SchemaContext.splitWeight_withBranch hu.mem hb.mem) _ rfl hraises

lemma raises_oneOfBranch {b : Schema × ℕ} :
    Raises (oneOfBranch ctx branches b) ↔ Raises (sourceContextSubsetSchema ctx b.1) := by
  rw [oneOfBranch, raises_andM]
  refine or_iff_left ?_
  rintro ⟨-, hraises⟩
  obtain ⟨other, -, hraises⟩ := raises_allM.mp hraises
  split_ifs at hraises
  · simp at hraises
  · exact not_raises_disjoint ctx other.1 hraises

lemma raises_narrowedBy {atoms : List Schema} : Raises (narrowedBy atoms target) ↔ target = .never := by
  cases target with
  | never => simp [narrowedBy, Raising.raises_throw]
  | object kw => simp [narrowedBy]

/-- Against `False`, the atoms of an inhabited context fail one after the other. -/
lemma anyM_never (h : ctx.isEmpty = false) :
    (ctx.atoms.anyM fun source => plainSchemaSubset source .never) = .ok false := by
  rw [Raising.anyM_eq_false]
  intro a ha
  cases a with
  | never =>
    have hany : ctx.atoms.any Schema.isNever = true := List.any_eq_true.mpr ⟨_, ha, rfl⟩
    simp [SchemaContext.isEmpty, hany] at h
  | object kw =>
    have hequal : schemaValuesEqual (.object kw) .never = false := by
      simp [schemaValuesEqual, Schema.toJson_object, Schema.toJson_never, jsonValuesEqual]
    rw [plainSchemaSubset.eq_def, hequal]
    rfl

lemma raises_schemas : Raises (normalizedSchemasCompatible source target) ↔
    ∃ c, Comes (.schemas source target) c ∧ Raises c.run := by
  constructor
  · intro h
    cases source with
    | never => exact absurd h (not_raises_never_left target)
    | object s =>
      cases target with
      | never => exact absurd h (not_raises_never_right _)
      | object t =>
        rw [normalizedSchemasCompatible] at h
        split_ifs at h with hequal htarget hsource
        · simp at h
        · simp at h
        · simp at h
        · refine ⟨_, .context ?_ ?_ ?_, h⟩
          · simpa using hequal
          · simpa using htarget
          · simpa using hsource
  · rintro ⟨c, hcomes, hraises⟩
    cases hcomes with
    | context unequal ht hs =>
      rw [normalizedSchemasCompatible, if_neg (by simp [unequal])]
      rw [if_neg (by simp [ht]), if_neg (by simp [hs])]
      exact hraises

lemma raises_bare {source target : Option Schema} : Raises (bareCompatible source target) ↔
    (Comparison.bare source target).Fails ∨
      ∃ c, Comes (.bare source target) c ∧ Raises c.run := by
  constructor
  · intro h
    rcases source with _ | _ | s <;> rcases target with _ | _ | t
    · simp [bareCompatible] at h
    · simp [bareCompatible] at h
    · left
      by_cases ht : t.isEmpty = true
      · simp [bareCompatible, trueCompatible, ht] at h
      · simpa [Comparison.Fails] using ht
    · simp [bareCompatible] at h
    · simp [bareCompatible] at h
    · simp [bareCompatible] at h
    · left
      by_cases hs : s.isEmpty = true
      · simp [bareCompatible, compatibleTrue, hs] at h
      · simpa [Comparison.Fails] using hs
    · simp [bareCompatible] at h
    · exact Or.inr ⟨_, .bare, h⟩
  · rintro (h | ⟨c, hcomes, hraises⟩)
    · rcases source with _ | _ | s <;> rcases target with _ | _ | t <;>
        simp only [Comparison.Fails] at h
      · simp [bareCompatible, trueCompatible, h, Raising.raises_throw]
      · simp [bareCompatible, compatibleTrue, h, Raising.raises_throw]
    · cases hcomes with
      | bare => exact hraises

lemma raises_schema : Raises (sourceContextSubsetSchema ctx target) ↔
    ∃ c, Comes (.schema ctx target) c ∧ Raises c.run := by
  rw [sourceContextSubsetSchema_eq, raises_andM, raises_allM, raises_allM]
  constructor
  · rintro (⟨a, ha, hraises⟩ | ⟨hatoms, u, hu, hraises⟩)
    · exact ⟨_, .targetAtom ha, hraises⟩
    · exact ⟨_, .targetUnion hatoms hu, hraises⟩
  · rintro ⟨c, hcomes, hraises⟩
    cases hcomes with
    | targetAtom ha => exact Or.inl ⟨_, ha, hraises⟩
    | targetUnion hatoms hu => exact Or.inr ⟨hatoms, _, hu, hraises⟩

lemma raises_unionTest : Raises (unionTest keyword branches ctx) ↔
    ctx.literals = none ∧ Raises (unionBranches ctx branches keyword) := by
  unfold unionTest
  cases ctx.literals with
  | some values => simp
  | none =>
    simp only [raises_bind, Raising.not_raises_pure, and_false, exists_false, or_false, true_and]

lemma raises_union : Raises (sourceContextSubsetUnion ctx keyword branches) ↔
    ∃ c, Comes (.union ctx keyword branches) c ∧ Raises c.run := by
  have hvalue : bySplitting (unionTest keyword branches) =
      (sourceContextSubsetUnion · keyword branches) :=
    funext fun ctx => sourceContextSubsetUnion_eq.symm
  rw [sourceContextSubsetUnion_eq, raises_bySplitting, raises_unionTest, hvalue]
  constructor
  · rintro (⟨hliterals, hraises⟩ | ⟨hundecided, b, hsplits, hraises⟩)
    · cases keyword with
      | anyOf =>
        obtain ⟨b, hb, hraises⟩ := raises_anyM.mp hraises
        exact ⟨_, .anyOf hliterals hb, hraises⟩
      | oneOf =>
        obtain ⟨b, hb, hraises⟩ := raises_anyM.mp hraises
        exact ⟨_, .oneOf hliterals hb, raises_oneOfBranch.mp hraises⟩
    · exact ⟨_, .splitUnion hundecided hsplits, hraises⟩
  · rintro ⟨c, hcomes, hraises⟩
    cases hcomes with
    | anyOf hliterals hb => exact Or.inl ⟨hliterals, raises_anyM.mpr ⟨_, hb, hraises⟩⟩
    | oneOf hliterals hb =>
      exact Or.inl ⟨hliterals, raises_anyM.mpr ⟨_, hb, raises_oneOfBranch.mpr hraises⟩⟩
    | splitUnion hundecided hsplits => exact Or.inr ⟨hundecided, _, hsplits, hraises⟩

lemma raises_atomTest : Raises (atomTest target ctx) ↔ ctx.isEmpty = false ∧ ctx.literals = none ∧
    (Raises (ctx.atoms.anyM fun source => plainSchemaSubset source target) ∨ target = .never) := by
  unfold atomTest
  by_cases hempty : ctx.isEmpty = true
  · simp [hempty]
  rw [if_neg hempty]
  cases ctx.literals with
  | some values => simp
  | none =>
    simp only [raises_bind, raises_orM, raises_narrowedBy, Raising.not_raises_pure, and_false,
      exists_false, or_false, Bool.not_eq_true] at hempty ⊢
    simp only [hempty, true_and]
    refine or_congr_right ⟨fun h => h.2, ?_⟩
    rintro rfl
    exact ⟨anyM_never hempty, rfl⟩

lemma raises_atom : Raises (sourceContextSubsetAtom ctx target) ↔
    (Comparison.atom ctx target).Fails ∨ ∃ c, Comes (.atom ctx target) c ∧ Raises c.run := by
  have hvalue : bySplitting (atomTest target) = (sourceContextSubsetAtom · target) :=
    funext fun ctx => sourceContextSubsetAtom_eq.symm
  rw [sourceContextSubsetAtom_eq, raises_bySplitting, raises_atomTest, hvalue]
  constructor
  · rintro (⟨hempty, hliterals, hraises | rfl⟩ | ⟨hundecided, b, hsplits, hraises⟩)
    · obtain ⟨a, ha, hraises⟩ := raises_anyM.mp hraises
      exact Or.inr ⟨_, .sourceAtom hempty hliterals ha, hraises⟩
    · exact Or.inl ⟨hempty, hliterals⟩
    · exact Or.inr ⟨_, .splitAtom hundecided hsplits, hraises⟩
  · rintro (h | ⟨c, hcomes, hraises⟩)
    · cases target with
      | never => exact Or.inl ⟨h.1, h.2, Or.inr rfl⟩
      | object t => exact h.elim
    · cases hcomes with
      | sourceAtom hempty hliterals ha =>
        exact Or.inl ⟨hempty, hliterals, Or.inl (raises_anyM.mpr ⟨_, ha, hraises⟩)⟩
      | splitAtom hundecided hsplits => exact Or.inr ⟨hundecided, _, hsplits, hraises⟩

lemma raises_requiredMember {name : String} : Raises (requiredMember s t name) ↔
    name ∈ s.requiredNames ∧ Raises (bareCompatible (s.child name) (t.child name)) := by
  unfold requiredMember
  by_cases hname : name ∈ s.requiredNames
  · rw [if_neg (not_not.mpr hname)]
    exact (and_iff_right hname).symm
  · rw [if_pos hname]
    simp [hname]

lemma raises_listedMember {e : String × Schema} : Raises (listedMember t e) ↔
    ∃ child, t.child e.1 = some (.object child) ∧
      Raises (normalizedSchemasCompatible e.2 (.object child)) := by
  unfold listedMember
  rcases t.child e.1 with _ | _ | child <;> simp

lemma raises_unlistedMember {extra : Option Schema} {e : String × Schema} :
    Raises (unlistedMember s extra e) ↔ Dict.has s.propertyMap e.1 = false ∧
      ∃ kw, extra = some (.object kw) ∧ Raises (normalizedSchemasCompatible (.object kw) e.2) := by
  unfold unlistedMember
  by_cases hlisted : Dict.has s.propertyMap e.1 = true
  · rw [if_pos hlisted, hlisted]
    simp
  · rw [if_neg hlisted, Bool.not_eq_true] at *
    rcases extra with _ | _ | kw
    · simp
    · simp [hlisted, not_raises_never_left]
    · simp [hlisted]

lemma raises_extraMembers {extra child : Option Schema} : Raises (extraMembers extra child) ↔
    ∃ source target, extra = some (.object source) ∧ child = some (.object target) ∧
      Raises (normalizedSchemasCompatible (.object source) (.object target)) := by
  rcases extra with _ | _ | source <;> rcases child with _ | _ | target <;>
    simp [extraMembers, not_raises_never_left]

/-- The members that the source leaves open raise where both sides give a schema for them. -/
lemma raises_openMembers : Raises (openMembers s t) ↔ ∃ extra, s.extra = some (.object extra) ∧
    ((∃ e, ComesTo (unlistedMember s s.extra) true (Dict.items t.propertyMap) e ∧
        Dict.has s.propertyMap e.1 = false ∧ Raises (normalizedSchemasCompatible (.object extra) e.2)) ∨
      (Dict.items t.propertyMap).allM (unlistedMember s s.extra) = .ok true ∧
        ∃ child, t.extra = some (.object child) ∧
          Raises (normalizedSchemasCompatible (.object extra) (.object child))) := by
  unfold openMembers
  rcases hextra : s.extra with _ | _ | extra
  · simp [raises_andM, raises_allM, raises_unlistedMember, raises_extraMembers]
  · simp
  · simp [raises_andM, raises_allM, raises_unlistedMember, raises_extraMembers]

lemma raises_arrayItems : Raises (arrayItems s t) ↔ BothAllow .array s t ∧
    ∃ item child, s.items = some item ∧ t.items = some child ∧
      Raises (normalizedSchemasCompatible item child) := by
  unfold arrayItems
  by_cases harrays : BothAllow .array s t
  · rcases s.items with _ | item <;> rcases t.items with _ | child <;> simp [harrays]
  · rcases s.items with _ | item <;> rcases t.items with _ | child <;> simp [harrays]

lemma raises_plain : Raises (plainSchemaSubset source target) ↔
    ∃ c, Comes (.plain source target) c ∧ Raises c.run := by
  constructor
  · intro h
    cases source with
    | never =>
      rw [plainSchemaSubset.eq_def] at h
      split_ifs at h <;> simp at h
    | object s =>
    cases target with
    | never =>
      rw [plainSchemaSubset.eq_def] at h
      split_ifs at h <;> simp at h
    | object t =>
    by_cases hcompares : s.ComparesWith t
    swap
    · exact absurd h (not_raises_plain hcompares)
    rw [plainSchemaSubset_eq hcompares, raises_andM] at h
    rcases h with h | ⟨hmembers, h⟩
    · by_cases hobjects : BothAllow .object s t
      swap
      · simp [hobjects] at h
      rw [if_neg (not_not.mpr hobjects), objectMembers, raises_andM, raises_andM, raises_allM,
        raises_allM] at h
      rcases h with ⟨name, hname, h⟩ | ⟨hrequired, ⟨e, he, h⟩ | ⟨hlisted, h⟩⟩
      · obtain ⟨hprovided, h⟩ := raises_requiredMember.mp h
        exact ⟨_, .required hcompares hobjects hname hprovided, h⟩
      · obtain ⟨child, hchild, h⟩ := raises_listedMember.mp h
        exact ⟨_, .listed hcompares hobjects hrequired he hchild, h⟩
      · obtain ⟨extra, hextra, ⟨e, he, hhidden, h⟩ | ⟨hunlisted, child, hchild, h⟩⟩ :=
          raises_openMembers.mp h
        · exact ⟨_, .unlisted hcompares hobjects hrequired hlisted hextra he hhidden, h⟩
        · exact ⟨_, .extra hcompares hobjects hrequired hlisted hunlisted hextra hchild, h⟩
    · obtain ⟨harrays, item, child, hitem, hchild, h⟩ := raises_arrayItems.mp h
      refine ⟨_, .items hcompares (fun hobjects => ?_) harrays hitem hchild, h⟩
      rwa [if_neg (not_not.mpr hobjects)] at hmembers
  · rintro ⟨c, hcomes, hraises⟩
    cases hcomes with
    | required hcompares hobjects hname hprovided =>
      rw [plainSchemaSubset_eq hcompares, raises_andM, if_neg (not_not.mpr hobjects), objectMembers,
        raises_andM, raises_allM]
      exact Or.inl (Or.inl ⟨_, hname, raises_requiredMember.mpr ⟨hprovided, hraises⟩⟩)
    | listed hcompares hobjects hrequired he hchild =>
      rw [plainSchemaSubset_eq hcompares, raises_andM, if_neg (not_not.mpr hobjects), objectMembers,
        raises_andM, raises_andM, raises_allM (f := listedMember _)]
      have hlisted := raises_listedMember.mpr ⟨_, hchild, hraises⟩
      exact Or.inl (Or.inr ⟨hrequired, Or.inl ⟨_, he, hlisted⟩⟩)
    | unlisted hcompares hobjects hrequired hlisted hextra he hhidden =>
      rw [plainSchemaSubset_eq hcompares, raises_andM, if_neg (not_not.mpr hobjects), objectMembers,
        raises_andM, raises_andM, raises_openMembers]
      exact Or.inl (Or.inr ⟨hrequired, Or.inr ⟨hlisted, _, hextra, Or.inl ⟨_, he, hhidden, hraises⟩⟩⟩)
    | extra hcompares hobjects hrequired hlisted hunlisted hextra hchild =>
      rw [plainSchemaSubset_eq hcompares, raises_andM, if_neg (not_not.mpr hobjects), objectMembers,
        raises_andM, raises_andM, raises_openMembers]
      exact Or.inl (Or.inr ⟨hrequired, Or.inr ⟨hlisted, _, hextra,
        Or.inr ⟨hunlisted, _, hchild, hraises⟩⟩⟩)
    | @items s t _ _ hcompares hmembers harrays hitem hchild =>
      rw [plainSchemaSubset_eq hcompares, raises_andM, raises_arrayItems]
      refine Or.inr ⟨?_, harrays, _, _, hitem, hchild, hraises⟩
      by_cases hobjects : BothAllow .object s t
      · exact (if_neg (not_not.mpr hobjects)).trans (hmembers hobjects)
      · exact if_pos hobjects

/-- A comparison raises by itself, or one that it comes to does. -/
theorem raises_run {c : Comparison} :
    Raises c.run ↔ c.Fails ∨ ∃ next, Comes c next ∧ Raises next.run := by
  cases c with
  | schemas source target => exact raises_schemas.trans (iff_of_eq (false_or _).symm)
  | bare source target => exact raises_bare
  | schema ctx target => exact raises_schema.trans (iff_of_eq (false_or _).symm)
  | union ctx keyword branches => exact raises_union.trans (iff_of_eq (false_or _).symm)
  | atom ctx target => exact raises_atom
  | plain source target => exact raises_plain.trans (iff_of_eq (false_or _).symm)

end Raising

section Reaching

/-- What gets smaller from a comparison to those it comes to. -/
noncomputable def Comparison.size : Comparison → ℕ ×ₗ ℕ
  | .schemas _ target => toLex (5 * sizeOf target + 3, 0)
  | .bare _ (some target) => toLex (5 * sizeOf target + 4, 0)
  | .bare _ none => toLex (0, 0)
  | .schema _ target => toLex (5 * sizeOf target + 2, 0)
  | .union ctx _ branches => toLex (5 * sizeOf branches + 2, ctx.splitWeight)
  | .atom ctx target => toLex (5 * sizeOf target + 1, ctx.splitWeight)
  | .plain _ target => toLex (5 * sizeOf target, 0)

lemma SplitsTo.weight_lt {value : SchemaContext → Except PyError Bool} {ctx : SchemaContext} {b : Schema}
    (h : SplitsTo value ctx b) : (ctx.withBranch b).splitWeight < ctx.splitWeight := by
  obtain ⟨u, hu, hb⟩ := h
  exact SchemaContext.splitWeight_withBranch hu.mem hb.mem

lemma child_lt {t : Keywords Schema} {child : Schema} (h : child ∈ t.children) :
    5 * sizeOf child + 4 < 5 * sizeOf (Schema.object t) := by
  have hlt := Schema.sizeOf_lt_object h
  omega

lemma Keywords.mem_children_item {kw : Keywords Schema} {e : String × Schema}
    (h : e ∈ Dict.items kw.propertyMap) : e.2 ∈ kw.children := by
  have hproperty := List.mem_map_of_mem (f := Prod.snd) (Dict.items_subset _ h)
  simp [children, hproperty]

lemma Keywords.mem_children_extra {kw : Keywords Schema} {s : Schema} (h : kw.extra = some s) :
    s ∈ kw.children := by
  simp [children, h]

lemma Comes.size_lt {c next : Comparison} (h : Comes c next) : next.size < c.size := by
  have hlex : ∀ {a b k l : ℕ}, a < b ∨ a = b ∧ k < l → toLex (a, k) < toLex (b, l) :=
    fun h => Prod.Lex.toLex_lt_toLex.mpr h
  cases h with
  | context => exact hlex (by omega)
  | targetAtom ha =>
    have hle := (targetContext_atoms ha.mem).2
    exact hlex (by omega)
  | targetUnion hatoms hu =>
    have hlt := targetContext_unions hu.mem
    exact hlex (by omega)
  | anyOf hliterals hb =>
    have hlt := List.sizeOf_lt_of_mem hb.mem
    exact hlex (by omega)
  | oneOf hliterals hb =>
    have hlt := List.sizeOf_lt_of_mem (List.fst_mem_of_mem_zipIdx hb.mem)
    exact hlex (by omega)
  | splitUnion hundecided hsplits => exact hlex (Or.inr ⟨rfl, hsplits.weight_lt⟩)
  | sourceAtom => exact hlex (by omega)
  | splitAtom hundecided hsplits => exact hlex (Or.inr ⟨rfl, hsplits.weight_lt⟩)
  | @required s t name hcompares hobjects hname hprovided =>
    cases hchild : t.child name with
    | none =>
      have hpos : 0 < sizeOf (Schema.object t) := by simp
      exact hlex (by omega)
    | some child => exact hlex (Or.inl (child_lt (Keywords.mem_children_child hchild)))
  | listed hcompares hobjects hrequired he hchild =>
    have hlt := child_lt (Keywords.mem_children_child hchild)
    exact hlex (by omega)
  | @unlisted s t extra e _ _ _ _ _ he _ =>
    have hlt := child_lt (Keywords.mem_children_item he.mem)
    exact hlex (by omega)
  | @extra s t extra child _ _ _ _ _ _ hchild =>
    have hlt := child_lt (Keywords.mem_children_extra hchild)
    exact hlex (by omega)
  | @items s t item child _ _ _ _ hchild =>
    have hlt := child_lt (Keywords.mem_children_items hchild)
    exact hlex (by omega)
  | bare => exact hlex (by omega)

/-- A comparison raises exactly where it reaches one that raises by itself. -/
theorem raises_iff_reaches (c : Comparison) :
    Raises c.run ↔ ∃ reached, Relation.ReflTransGen Comes c reached ∧ reached.Fails := by
  constructor
  · intro h
    induction hn : c.size using WellFoundedLT.induction generalizing c with
    | ind n ih =>
      subst hn
      rcases raises_run.mp h with hfails | ⟨next, hcomes, hraises⟩
      · exact ⟨c, .refl, hfails⟩
      · obtain ⟨reached, hreached, hfails⟩ := ih _ hcomes.size_lt next hraises rfl
        exact ⟨reached, hreached.head hcomes, hfails⟩
  · rintro ⟨reached, hreached, hfails⟩
    induction hreached using Relation.ReflTransGen.head_induction_on with
    | refl => exact raises_run.mpr (Or.inl hfails)
    | head hcomes _ ih => exact raises_run.mpr (Or.inr ⟨_, hcomes, ih⟩)

/-- `schemas_compatible` answers on two schemas exactly where the comparison reaches neither a bare
`True` next to keywords nor a `False` that the source may not miss. -/
theorem schemasCompatible_answers_iff {provided required : Json} {source target : Schema}
    (hsource : normalizeSchema provided = .ok source) (htarget : normalizeSchema required = .ok target) :
    (∃ answer, schemasCompatible provided required = .ok answer) ↔
      ∀ reached, Relation.ReflTransGen Comes (.schemas source target) reached → ¬reached.Fails := by
  have hvalue : schemasCompatible provided required = (Comparison.schemas source target).run := by
    rw [schemasCompatible, hsource, htarget]
    rfl
  rw [hvalue, ← Raising.not_raises_iff, raises_iff_reaches]
  push Not
  rfl

/-- An object with one required property of this schema, and no other. -/
def recordSchema (property : Json) : Json :=
  .obj [("type", .str "object"), ("properties", .obj [("a", property)]), ("required", .arr [.str "a"]),
    ("additionalProperties", .bool false)]

theorem schemasCompatible_answers_iff_records : ∃ source target,
    normalizeSchema (recordSchema (.obj [("type", .str "integer")])) = .ok source ∧
      normalizeSchema (recordSchema (.obj [("type", .str "number")])) = .ok target ∧
      schemasCompatible (recordSchema (.obj [("type", .str "integer")]))
        (recordSchema (.obj [("type", .str "number")])) = .ok true ∧
      ∀ reached, Relation.ReflTransGen Comes (.schemas source target) reached → ¬reached.Fails := by
  obtain ⟨source, hsource⟩ := Raising.exists_ok_of_toBool
    (x := normalizeSchema (recordSchema (.obj [("type", .str "integer")])))
    (by with_unfolding_all decide)
  obtain ⟨target, htarget⟩ := Raising.exists_ok_of_toBool
    (x := normalizeSchema (recordSchema (.obj [("type", .str "number")])))
    (by with_unfolding_all decide)
  have hanswer : schemasCompatible (recordSchema (.obj [("type", .str "integer")]))
      (recordSchema (.obj [("type", .str "number")])) = .ok true := by with_unfolding_all decide
  exact ⟨source, target, hsource, htarget, hanswer,
    (schemasCompatible_answers_iff hsource htarget).mp ⟨true, hanswer⟩⟩

/-- A property that the required schema names without a schema for it. -/
theorem schemasCompatible_bareTrue :
    let provided := recordSchema (.obj [("type", .str "integer")])
    let required := Json.obj [("type", .str "object"), ("required", .arr [.str "a"])]
    (∃ source, normalizeSchema provided = .ok source) ∧ (∃ target, normalizeSchema required = .ok target) ∧
      schemasCompatible provided required = .error (.attributeError "'bool' object has no attribute 'items'") :=
  ⟨Raising.exists_ok_of_toBool (by with_unfolding_all decide),
    Raising.exists_ok_of_toBool (by with_unfolding_all decide),
    by with_unfolding_all decide⟩

end Reaching

end TradeFramework
