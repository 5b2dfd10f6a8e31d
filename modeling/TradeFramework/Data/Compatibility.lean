import TradeFramework.Data.Disjoint
import TradeFramework.Data.Normalize

/-!
# Compatibility proofs

`schemas_compatible` decides, conservatively, that every value of a provided schema is a
value of a required one. Python's `True` is not a mapping: where an open object reaches
the recursion as a bare `True`, the comparison raises.
-/

namespace TradeFramework

/-- The literals a schema object lists, its `const` first. -/
def Keywords.literals {σ : Type} (kw : Keywords σ) : Option (List Json) :=
  match kw.const with
  | some c => some [c]
  | none => kw.enum

namespace SchemaContext

/-- The literals of the first atom that lists them. -/
def literalCandidates (ctx : SchemaContext) : Option (List Json) :=
  ctx.atoms.findSome? fun
    | .never => some []
    | .object kw => kw.literals

/-- `_source_context_literals`. -/
def literals (ctx : SchemaContext) : Option (List Json) :=
  ctx.literalCandidates.map fun candidates => candidates.filter fun c =>
    ctx.atoms.all (schemaAcceptsNormalizedValue · c) && ctx.unions.all fun u =>
      schemaAcceptsNormalizedValue (.object (Keywords.ofUnion u.1 u.2)) c

/-- `_source_context_is_empty`. -/
def isEmpty (ctx : SchemaContext) : Bool :=
  if ctx.atoms.any Schema.isNever then true
  else match ctx.literals with
    | some values => values.isEmpty
    | none => !decide (ctx.atoms.Pairwise fun left right => ¬normalizedSchemasDisjoint left right)

end SchemaContext

/-- The declared types of an atom, where `number` covers the integers. -/
def widenedTypes (types : Finset JsonType) : Finset JsonType :=
  if .number ∈ types then insert .integer types else types

/-- Whether a schema object has no keyword besides `type` and annotations. -/
def Keywords.constrainsTypeOnly {σ : Type} (kw : Keywords σ) : Bool :=
  { kw with type := none, title := none, description := none, default := none }.isEmpty

/-- Separate type constraints of the atoms can collectively narrow the source. -/
def narrowedBy (atoms : List Schema) : Schema → Except PyError Bool
  | .never => throw (.typeError "'bool' object is not iterable")
  | .object target => pure <| target.constrainsTypeOnly && decide
      (atoms.foldl (fun possible a => possible ∩ widenedTypes (normalizedSchemaTypes a)) jsonTypes ⊆
        widenedTypes target.schemaTypes)

/-- `normalized_schemas_compatible` where the source is a bare `True`. -/
def trueCompatible : Schema → Except PyError Bool
  | .never => pure false
  | .object target =>
    if target.isEmpty then pure true
    else throw (.attributeError "'bool' object has no attribute 'items'")

/-- `normalized_schemas_compatible` where the target is a bare `True`. -/
def compatibleTrue : Schema → Except PyError Bool
  | .never => pure true
  | .object source =>
    if source.isEmpty then pure false
    else throw (.attributeError "'bool' object has no attribute 'items'")

/-- `_source_context_disjoint_schema`. -/
def sourceContextDisjointSchema (ctx : SchemaContext) (target : Schema) : Except PyError Bool :=
  bySplitting (fun ctx => pure <|
    if ctx.isEmpty then some true
    else match ctx.literals with
      | some values => some (values.all fun value => !schemaAcceptsNormalizedValue target value)
      | none => if ctx.atoms.any (normalizedSchemasDisjoint · target) then some true else none) ctx

section TargetContext

/-- A schema without composition keywords. -/
def Schema.Plain : Schema → Prop
  | .never => True
  | .object kw => kw.base = kw

lemma Keywords.sizeOf_base_le (kw : Keywords Schema) : sizeOf kw.base ≤ sizeOf kw := by
  have hlist : ∀ o : Option (List Schema), sizeOf (none : Option (List Schema)) ≤ sizeOf o := by
    rintro (_ | bs) <;> simp
  cases kw
  simp only [base, mk.sizeOf_spec]
  rename_i anyOf oneOf allOf _ _ _
  have h₁ := hlist anyOf
  have h₂ := hlist oneOf
  have h₃ := hlist allOf
  omega

lemma Keywords.sizeOf_union_lt {kw : Keywords Schema} {keyword : UnionKeyword} {bs : List Schema}
    (h : kw.union keyword = some bs) : sizeOf bs < sizeOf kw := by
  cases kw
  cases keyword <;> simp only [union] at h <;> subst h <;>
    simp only [mk.sizeOf_spec, Option.some.sizeOf_spec] <;> omega

/-- The atoms of a target context are plain and no larger than the target. -/
lemma targetContext_atoms {target a : Schema} (h : a ∈ (targetContext target).atoms) :
    a.Plain ∧ sizeOf a ≤ sizeOf target := by
  induction target using Schema.childInduction with
  | never =>
    rw [targetContext, SchemaContext.flatten_never, List.mem_singleton] at h
    subst h
    exact ⟨trivial, le_rfl⟩
  | object kw ih =>
    rw [targetContext, SchemaContext.flatten_object, List.mem_append] at h
    rcases h with h | h
    · rw [SchemaContext.ofTarget, List.mem_singleton] at h
      subst h
      have hle := kw.sizeOf_base_le
      refine ⟨rfl, ?_⟩
      simp only [Schema.object.sizeOf_spec]
      omega
    · obtain ⟨c, hc, ha⟩ := List.mem_flatMap.mp h
      obtain ⟨b, hb, rfl⟩ := List.mem_map.mp hc
      have hchild := Keywords.mem_children_getD_allOf hb
      have hlt := Schema.sizeOf_lt_object hchild
      have hb' := ih b hchild ha
      exact ⟨hb'.1, by omega⟩

/-- The unions of a target context are smaller than the target. -/
lemma targetContext_unions {target : Schema} {u : UnionKeyword × List Schema}
    (h : u ∈ (targetContext target).unions) : sizeOf u.2 < sizeOf target := by
  induction target using Schema.childInduction with
  | never =>
    rw [targetContext, SchemaContext.flatten_never] at h
    cases h
  | object kw ih =>
    rw [targetContext, SchemaContext.flatten_object, List.mem_append, List.mem_append] at h
    rcases h with (h | h) | h
    · cases h
    · obtain ⟨c, hc, hu⟩ := List.mem_flatMap.mp h
      obtain ⟨b, hb, rfl⟩ := List.mem_map.mp hc
      have hchild := Keywords.mem_children_getD_allOf hb
      exact (ih b hchild hu).trans (Schema.sizeOf_lt_object hchild)
    · have hlt := Keywords.sizeOf_union_lt (Keywords.mem_unions.mp h)
      simp only [Schema.object.sizeOf_spec]
      omega

end TargetContext

mutual

/-- `normalized_schemas_compatible`. -/
def normalizedSchemasCompatible (source target : Schema) : Except PyError Bool :=
  if schemaValuesEqual source target then pure true
  else match source, target with
    | .never, _ => pure true
    | .object _, .never => pure false
    | .object s, .object t =>
      if t.isEmpty then pure true
      else if s.isEmpty then pure false
      else sourceContextSubsetSchema (sourceContext (.object s)) (.object t)
termination_by 4 * sizeOf target + 3

/-- `_source_context_subset_schema`. -/
def sourceContextSubsetSchema (ctx : SchemaContext) (target : Schema) : Except PyError Bool :=
  ((targetContext target).atoms.attach.allM fun atom => sourceContextSubsetAtom ctx atom.1) <&&>
    (targetContext target).unions.attach.allM fun u => sourceContextSubsetUnion ctx u.1.1 u.1.2
termination_by 4 * sizeOf target + 2
decreasing_by
  · have hle := (targetContext_atoms atom.2).2
    omega
  · have hlt := targetContext_unions u.2
    omega

/-- `_source_context_subset_union`. -/
def sourceContextSubsetUnion (ctx : SchemaContext) (keyword : UnionKeyword)
    (branches : List Schema) : Except PyError Bool :=
  bySplitting (fun ctx => do
    match ctx.literals with
    | some values => pure <| some <| values.all <|
        schemaAcceptsNormalizedValue (.object (Keywords.ofUnion keyword branches))
    | none =>
      let proved ← (match keyword with
        | .anyOf => branches.attach.anyM fun b => sourceContextSubsetSchema ctx b.1
        | .oneOf => branches.attach.zipIdx.anyM fun b =>
          sourceContextSubsetSchema ctx b.1.1 <&&> branches.zipIdx.allM fun other =>
            if other.2 = b.2 then pure true else sourceContextDisjointSchema ctx other.1)
      pure (if proved then some true else none)) ctx
termination_by 4 * sizeOf branches + 2
decreasing_by
  · have hlt := List.sizeOf_lt_of_mem b.2
    omega
  · have hlt := List.sizeOf_lt_of_mem b.1.2
    omega

/-- `_source_context_subset_atom`. -/
def sourceContextSubsetAtom (ctx : SchemaContext) (target : Schema) : Except PyError Bool :=
  bySplitting (fun ctx => do
    if ctx.isEmpty then pure (some true) else
    match ctx.literals with
    | some values => pure (some (values.all (schemaAcceptsNormalizedValue target)))
    | none =>
      let proved ← (ctx.atoms.anyM fun source => plainSchemaSubset source target) <||>
        narrowedBy ctx.atoms target
      pure (if proved then some true else none)) ctx
termination_by 4 * sizeOf target + 1

/-- `_plain_schema_subset`. -/
def plainSchemaSubset (source target : Schema) : Except PyError Bool :=
  if schemaValuesEqual source target then pure true
  else match source, target with
    | .never, _ => pure true
    | .object _, .never => pure false
    | .object s, .object t =>
      if t.isEmpty then pure true
      else if s.isEmpty then pure false
      else if let some values := s.literals then
        pure (values.all (schemaAcceptsNormalizedValue (.object t)))
      else if t.const.isSome || t.enum.isSome then pure false
      else if ¬∀ type ∈ s.schemaTypes, TypeAllowed t.schemaTypes type then pure false
      else
        let objects := .object ∈ s.schemaTypes ∧ .object ∈ t.schemaTypes
        let arrays := .array ∈ s.schemaTypes ∧ .array ∈ t.schemaTypes
        (if ¬objects then pure true else
          (t.requiredNames.allM fun name =>
            if name ∉ s.requiredNames then pure false
            else match s.child name, t.attach.child name with
              | some .never, _ => pure false
              | _, some ⟨.never, _⟩ => pure false
              | none, none => pure true
              | none, some child => trueCompatible child.1
              | some property, none => compatibleTrue property
              | some property, some child => normalizedSchemasCompatible property child.1) <&&>
          ((Dict.items s.propertyMap).allM fun e => match t.attach.child e.1 with
            | none => pure true
            | some ⟨.never, _⟩ => pure false
            | some child => normalizedSchemasCompatible e.2 child.1) <&&>
          match s.extra with
          | some .never => pure true
          | extra =>
            ((Dict.items t.attach.propertyMap).allM fun e =>
              if Dict.has s.propertyMap e.1 then pure true
              else match extra with
                | none => pure false
                | some extra => normalizedSchemasCompatible extra e.2.1) <&&>
            match extra, t.attach.extra with
            | _, some ⟨.never, _⟩ => pure false
            | _, none => pure true
            | none, some _ => pure false
            | some extra, some child => normalizedSchemasCompatible extra child.1) <&&>
        match s.items, t.attach.items with
        | some item, some child =>
          if arrays then normalizedSchemasCompatible item child.1 else pure true
        | none, some _ => pure (!decide arrays)
        | _, none => pure true
termination_by 4 * sizeOf target
decreasing_by
  · have hlt := Schema.sizeOf_lt_object child.2
    omega
  · have hlt := Schema.sizeOf_lt_object child.2
    omega
  · have hlt := Schema.sizeOf_lt_object e.2.2
    omega
  · have hlt := Schema.sizeOf_lt_object child.2
    omega
  · have hlt := Schema.sizeOf_lt_object child.2
    omega

end

/-- `schemas_compatible`. -/
def schemasCompatible (provided required : Json) : Except PyError Bool := do
  let source ← normalizeSchema provided
  let target ← normalizeSchema required
  normalizedSchemasCompatible source target

end TradeFramework
