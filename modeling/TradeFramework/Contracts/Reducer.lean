import TradeFramework.Contracts.Expansion
import TradeFramework.Contracts.RuntimeTypes

/-!
# Ordered contract writes

`ExpandedContractWriteReducer` predicts what a sequence of DataKey writes does to a
contract state: the schemas of the root keys and the set of roots that must exist.
-/

namespace TradeFramework

open Raising (raiseIf)

section Structure

/-- `_optional_schema_union`. -/
def optionalSchemaUnion (left : Option Schema) (right : Schema) (path : String) :
    Except PyError Schema :=
  match left with
  | none => pure right
  | some left =>
    if schemaValuesEqual left right then pure right
    else do
      let left ← normalizeDataKeySchema left.toJson path
      let right ← normalizeDataKeySchema right.toJson path
      if ← normalizedSchemasCompatible left right then pure right
      else if ← normalizedSchemasCompatible right left then pure left
      else normalizeDataKeySchema (Schema.object { anyOf := some [left, right] }).toJson path

/-- `_schema_structure_categories`: whether objects and whether other values are possible. -/
def schemaStructureCategories (schema : Schema) : Bool × Bool :=
  let types := possibleRuntimeTypes schema
  (decide (.object ∈ types), decide (types \ {.object} ≠ ∅))

/-- `_require_write_structure_compatibility`. -/
def requireWriteStructureCompatibility (oldSchema newSchema : Schema) (path : String) :
    Except PyError Unit :=
  let old := schemaStructureCategories oldSchema
  let new := schemaStructureCategories newSchema
  raiseIf ((old.1 && new.2) || (old.2 && new.1))
    (.valueError s!"DataKey contract write '{path}' changes JSON structure.")

/-- `_created_path_schema`. -/
def createdPathSchema (parts : List String) (value : Schema) (path : String) :
    Except PyError Schema :=
  match parts with
  | [] => pure value
  | name :: rest => do
    let child ← createdPathSchema rest value s!"{path}.{name}"
    normalizeDataKeySchema (objectSchema [(name, child)] [name] (some .never)).toJson path

end Structure

section Write

/-- The schema a write replaces: a listed property, or else the value schema of the map. -/
def Keywords.oldChild (kw : Keywords Schema) (name : String) : Option Schema :=
  match kw.propertyMap.lookup name with
  | some s => some s
  | none => match kw.extra with
    | none => some .wildcard
    | some .never => none
    | some s => some s

/-- The schema of the written property; `descend` writes the remaining path into a child. -/
def writtenChild (descend : Schema → String → Except PyError Schema) (kw : Keywords Schema)
    (name : String) (rest : List String) (value : Schema) (required : Bool) (path : String) :
    Except PyError Schema :=
  match rest, kw.oldChild name with
  | [], none => if required then pure value else optionalSchemaUnion none value path
  | [], some old => do
    requireWriteStructureCompatibility old value path
    if required then pure value else optionalSchemaUnion (some old) value path
  | rest, none => createdPathSchema rest value path
  | rest, some old => do
    let created ← createdPathSchema rest value path
    let updated ← descend old path
    if name ∈ kw.requiredNames then pure updated
    else optionalSchemaUnion (some updated) created path

/-- The object keywords after a write to the property `name`. -/
def Keywords.withProperty (kw : Keywords Schema) (name : String) (child : Schema) (required : Bool) :
    Keywords Schema :=
  { kw with
    type := if kw.declaredTypes = ∅ then some [.object] else kw.type
    properties := some (Dict.set kw.propertyMap name child)
    required := some (sortedStrings
      (if required then name :: kw.requiredNames else kw.requiredNames).dedup) }

/-- Whether a schema object has no base keyword once its literals are gone. -/
def Keywords.compositionOnly {σ : Type} (kw : Keywords σ) : Bool :=
  kw.type.isNone && kw.properties.isNone && kw.required.isNone && kw.additionalProperties.isNone &&
    kw.items.isNone

/-- The write to the object keywords, once the literals are gone and the branches written. -/
def writeObject (descend : Schema → String → Except PyError Schema) (kw : Keywords Schema)
    (name : String) (rest : List String) (value : Schema) (required : Bool) (path : String) :
    Except PyError Schema := do
  if kw.compositionOnly then
    normalizeDataKeySchema (Schema.object kw).toJson path
  else do
    let child ← writtenChild descend kw name rest value required s!"{path}.{name}"
    normalizeDataKeySchema (Schema.object (kw.withProperty name child required)).toJson path

/-- The alternatives a list of literals stands for. -/
def literalAlternatives (literals : List Json) : Schema :=
  match literals.map literalDataKeySchema with
  | [schema] => schema
  | schemas => .object { anyOf := some schemas }

lemma compositionRank_literalAlternatives_le (literals : List Json) :
    (literalAlternatives literals).compositionRank ≤ 5 := by
  have hle : ∀ s ∈ literals.map literalDataKeySchema, s.compositionRank ≤ 4 :=
    List.forall_mem_map.mpr fun c _ => compositionRank_literal_le c
  unfold literalAlternatives
  split
  case h_1 s hs => exact (hle s (by simp [hs])).trans (by omega)
  case h_2 =>
    have hpeak : peak ((literals.map literalDataKeySchema).map Schema.compositionRank) ≤ 4 :=
      peak_le_iff.mpr ⟨by omega, List.forall_mem_map.mpr hle⟩
    rw [compositionRank_object]
    simp only [Keywords.branches, Option.getD_some, Option.getD_none, List.append_nil,
      Option.isSome_none, Bool.false_eq_true, if_false]
    omega

/-- The literals of a schema that can only be an object have a lower composition rank. -/
lemma compositionRank_literals_lt {kw : Keywords Schema} {literals : List Json}
    (h : kw.literals = some literals) (htypes : possibleRuntimeTypes (.object kw) = {.object}) :
    (literalAlternatives literals).compositionRank < (Schema.object kw).compositionRank := by
  rw [compositionRank_object]
  unfold Keywords.literals at h
  cases hconst : kw.const with
  | some c =>
    rw [hconst] at h
    cases h
    have hobject : JsonType.object ∈ possibleRuntimeTypes (.object kw) := by simp [htypes]
    have htype := (mem_possibleRuntimeTypes.mp hobject).2.1 c hconst
    cases c with
    | obj d =>
      have hrank : (literalAlternatives [.obj d]).compositionRank = 2 :=
        compositionRank_literal_obj d
      rw [hrank]
      simp only [Option.isSome_some, if_true]
      omega
    | _ => simp [jsonType] at htype
  | none =>
    rw [hconst] at h
    have hle := compositionRank_literalAlternatives_le literals
    have hone := one_le_peak (kw.branches.map Schema.compositionRank)
    simp only [h, Option.isSome_some, if_true]
    omega

/-- `normalize_data_key_schema` on a normalized schema. -/
def renormalizeDataKeySchema (s : Schema) (path : String) :
    Except PyError {t : Schema // t.compositionRank ≤ s.compositionRank} :=
  match h : normalizeDataKeySchema s.toJson path with
  | .ok t => pure ⟨t, compositionRank_normalizeSchema_le (normalizeDataKeySchema_eq_ok.mp h).1⟩
  | .error e => throw e

/-- The keywords with their branches written: the literals are gone, and the alternatives of both
union keywords are pooled, since exactly one of them may overlap with others after the write. -/
def Keywords.written (kw : Keywords Schema) (allOf anyOf oneOf : Option (List Schema)) :
    Keywords Schema :=
  { kw with
    allOf := allOf
    anyOf := oneOf.elim anyOf fun transformed => some (anyOf.getD [] ++ transformed)
    oneOf := none
    const := none
    enum := none }

/-- `_write_nested_schema`, with the write below the first segment as `descend`. -/
def writeLevel (descend : Schema → String → Except PyError Schema) (name : String)
    (rest : List String) (value : Schema) (required : Bool) (path : String) (schema : Schema) :
    Except PyError Schema := do
  match ← renormalizeDataKeySchema schema path with
  | ⟨.never, _⟩ => writeObject descend (objectKeywords [] [] (some .never)) name rest value required path
  | ⟨.object kw, _hkw⟩ =>
    if possibleRuntimeTypes (.object kw) = ∅ then
      writeObject descend (objectKeywords [] [] (some .never)) name rest value required path
    else if _htypes : possibleRuntimeTypes (.object kw) = {.object} then
      match _hliterals : kw.literals with
      | some literals =>
        writeLevel descend name rest value required path (literalAlternatives literals)
      | none => do
        let allOf ← kw.allOf.attach.mapM fun bs => bs.1.attach.mapM fun b =>
          writeLevel descend name rest value required path b.1
        let anyOf ← kw.anyOf.attach.mapM fun bs => bs.1.attach.mapM fun b =>
          writeLevel descend name rest value required path b.1
        let oneOf ← kw.oneOf.attach.mapM fun bs => bs.1.attach.mapM fun b =>
          writeLevel descend name rest value required path b.1
        writeObject descend (kw.written allOf anyOf oneOf) name rest value required path
    else throw (.valueError <| s!"DataKey contract write '{path}.{joinPath (name :: rest)}' " ++
      "collides with a non-object path.")
termination_by schema.compositionRank
decreasing_by
  · exact (compositionRank_literals_lt _hliterals _htypes).trans_le _hkw
  all_goals
    refine (compositionRank_branch_lt ?_).trans_le _hkw
    simp [Keywords.branches, bs.2, b.2]

/-- `_write_nested_schema`. -/
def writeNestedSchema (value : Schema) (required : Bool) :
    List String → Schema → String → Except PyError Schema
  | [], schema, _ => pure schema
  | name :: rest, schema, path =>
    writeLevel (writeNestedSchema value required rest) name rest value required path schema

end Write

section Reducer

/-- One write of the reducer: a DataKey, the schema of the value and whether it always happens. -/
structure ContractWrite where
  path : String
  schema : Json
  required : Bool

/-- `ExpandedContractWriteReducer`: the root schemas and the roots that must exist. -/
structure ExpandedContractWriteReducer where
  rootSchemas : Contracts
  requiredRoots : List String

namespace ExpandedContractWriteReducer

/-- `ExpandedContractWriteReducer.__init__`. -/
def init (expanded : Contracts) (requiredRoots : List String) :
    Except PyError ExpandedContractWriteReducer := do
  let declared ← (Dict.items expanded).mapM fun e => do pure (e, ← splitDataPath e.1)
  let rootSchemas := (declared.filter fun e => decide (e.2.rest = [])).map Prod.fst
  let missing := (declared.map fun e => e.2.root).filter fun root => !Dict.has rootSchemas root
  raiseIf (missing ≠ []) (.valueError <|
    "Expanded DataKey contracts are missing root declaration(s): " ++
      ", ".intercalate (sortedStrings missing.dedup))
  pure { rootSchemas := rootSchemas, requiredRoots := requiredRoots }

/-- The schema of the written root. -/
def updatedRoot (reducer : ExpandedContractWriteReducer) (path : DataPath) (value : Schema)
    (required : Bool) : Except PyError Schema :=
  match path.rest, reducer.rootSchemas.lookup path.root with
  | [], none => pure value
  | [], some schema => do
    requireWriteStructureCompatibility schema value path.root
    if required then pure value else optionalSchemaUnion (some schema) value path.root
  | rest, none => createdPathSchema rest value path.root
  | rest, some schema => do
    let updated ← writeNestedSchema value required rest schema path.root
    if path.root ∈ reducer.requiredRoots then pure updated
    else do
      let created ← createdPathSchema rest value path.root
      optionalSchemaUnion (some updated) created path.root

/-- `ExpandedContractWriteReducer.apply`. -/
def apply (reducer : ExpandedContractWriteReducer) (write : ContractWrite) :
    Except PyError ExpandedContractWriteReducer := do
  let path ← splitDataPath write.path
  let value ← normalizeDataKeySchema write.schema (joinPath path.parts)
  let updated ← reducer.updatedRoot path value write.required
  pure {
    rootSchemas := Dict.erase reducer.rootSchemas path.root ++ [(path.root, updated)]
    requiredRoots :=
      if write.required then reducer.requiredRoots.insert path.root else reducer.requiredRoots }

/-- `ExpandedContractWriteReducer.apply_many`; a rejected batch leaves the state unchanged. -/
def applyMany (reducer : ExpandedContractWriteReducer) (writes : List ContractWrite) :
    Except PyError ExpandedContractWriteReducer :=
  writes.foldlM apply reducer

/-- `ExpandedContractWriteReducer.materialize`. -/
def materialize (reducer : ExpandedContractWriteReducer) : Except PyError (Contracts × List String) := do
  let expanded ← expandContracts (Contracts.toDocuments reducer.rootSchemas)
  pure (expanded, reducer.requiredRoots)

end ExpandedContractWriteReducer

/-- `apply_expanded_contract_writes`. -/
def applyExpandedContractWrites (expanded : Contracts) (requiredRoots : List String)
    (writes : List ContractWrite) : Except PyError (Contracts × List String) := do
  let reducer ← ExpandedContractWriteReducer.init expanded requiredRoots
  (← reducer.applyMany writes).materialize

end Reducer

end TradeFramework
