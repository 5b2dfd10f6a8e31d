import TradeFramework.BasicWorkflow.Dataset
import TradeFramework.Contracts.NamedWrites
import TradeFramework.Data.PlanMeaning
import TradeFramework.Results.Cycle

/-!
# The row-map sampler

What a row mapping is compiled to, what the archive checks of the records it reads, and what the mapping
makes of a record at run time: two walks over the same DataKeys, one over schemas and one over values.
-/

namespace TradeFramework.RowMap

open Raising (raiseIf report)
open Results (DataJsonValidator compileDataJsonValidator)

section Contract

/-- `write_required_roots` of a write. -/
def writeRequiredRoots (requiredRoots : List String) (path : String) (required : Bool) :
    Except PyError (List String) := do
  let root := (← splitDataPath path).root
  pure (if required then requiredRoots.insert root else requiredRoots)

/-- `write_contract_state`. -/
def writeContractState (contracts : Contracts) (requiredRoots : List String) (path : String)
    (schema : Schema) (required : Bool) : Except PyError (Contracts × List String) := do
  let expanded ← expandContracts contracts.toDocuments
  let updated ← applyExpandedContractWrites expanded requiredRoots [⟨path, schema.toJson, required⟩]
  pure (updated.1, ← writeRequiredRoots requiredRoots path required)

/-- `isinstance(value, Mapping)`, as the members of the mapping. -/
def requireMapping (value : Json) (message : String) : Except PyError (List (String × Json)) :=
  match value with
  | .obj members => pure members
  | _ => throw (.valueError message)

/-- The equality of two sets of names. -/
def sameNames (left right : List String) : Bool := left.all (· ∈ right) && right.all (· ∈ left)

/-- The names of the first list that are not in the second, sorted. -/
def missingNames (names known : List String) : List String :=
  sortedStrings (names.filter fun name => name ∉ known)

/-- The entries of a mapping from DataKeys to fields; `none` where one is not a pair of nonempty texts. -/
def readMapping (members : List (String × Json)) : Option (List (String × String)) :=
  members.mapM fun e =>
    match e.2 with
    | .str field => if e.1 = "" ∨ field = "" then none else some (e.1, field)
    | _ => none

/-- The parts of a row mapping's configuration. -/
structure RowMapConfig where
  mapping : List (String × String)
  includeUnmappedFields : Bool
  unmappedPrefix : String
deriving DecidableEq

/-- The mapping of a configuration, in the order of its DataKeys. -/
def configMapping (value : Json) : Except PyError (List (String × String)) := do
  let members := Dict.items (Results.membersOf value)
  raiseIf (members = []) (.valueError "RowMappingSampler requires a non-empty config.mapping object.")
  match readMapping members with
  | none => throw (.valueError
      "RowMappingSampler config.mapping must map non-empty DataKey strings to field strings.")
  | some mapping => pure (mapping.insertionSort fun a b => a.1 ≤ b.1)

def configFlag : Json → Except PyError Bool
  | .bool flag => pure flag
  | _ => throw (.valueError "RowMappingSampler includeUnmappedFields must be a boolean.")

def configPrefix (value : Json) : Except PyError String :=
  match Results.textOf value with
  | some text => pure text
  | none => throw (.valueError "RowMappingSampler unmappedPrefix must be a non-empty string.")

/-- The checks of the configuration. -/
def readConfig (config : Json) : Except PyError RowMapConfig := do
  let config ← requireMapping config "RowMappingSampler config must be an object."
  raiseIf (sameNames (Dict.keys config) ["mapping", "includeUnmappedFields", "unmappedPrefix"] = false)
    (.valueError <| "RowMappingSampler config must contain exactly mapping, " ++
      "includeUnmappedFields and unmappedPrefix.")
  let mapping ← configMapping (Results.field config "mapping")
  let includeUnmappedFields ← configFlag (Results.field config "includeUnmappedFields")
  let unmappedPrefix ← configPrefix (Results.field config "unmappedPrefix")
  pure ⟨mapping, includeUnmappedFields, unmappedPrefix⟩

/-- The field schemas of the Dataset, normalized in the order of their names. -/
def readSourceSchema (sourceSchema : Json) : Except PyError (List (String × Schema)) := do
  let fields ← requireMapping sourceSchema "RowMappingSampler Dataset field schema must be an object."
  raiseIf ("" ∈ Dict.keys fields)
    (.valueError "RowMappingSampler Dataset field schema contains an invalid field name.")
  (sortedStrings (Dict.keys fields)).mapM fun name => do
    pure (name, ← normalizeSchema (Results.field fields name))

/-- The output schemas must be those of the mapped DataKeys. -/
def requireMappedKeys (mapped declared : List String) : Except PyError Unit :=
  let missing := missingNames mapped declared
  let unsupported := missingNames declared mapped
  let details :=
    (if missing = [] then [] else ["missing DataKey(s): " ++ ", ".intercalate missing]) ++
      (if unsupported = [] then [] else ["unsupported DataKey(s): " ++ ", ".intercalate unsupported])
  raiseIf (sameNames declared mapped = false) (.valueError <|
    "Sampler outputSchema must exactly match config.mapping: " ++ "; ".intercalate details)

/-- The checks of the mapping against the field schemas of the Dataset, when they are there. -/
def requireSourceFields (available : Bool) (source declared : List (String × Schema))
    (mapping : List (String × String)) : Except PyError Unit :=
  if available = false then pure () else do
  let missingFields := missingNames (mapping.map Prod.snd).dedup (Dict.keys source)
  raiseIf (missingFields ≠ []) (.valueError <|
    "RowMappingSampler mapping references unknown Dataset field(s): " ++ ", ".intercalate missingFields)
  let incompatible ← mapping.filterM fun e => do
    let provided := (source.lookup e.2).getD .never
    let required := (declared.lookup e.1).getD .never
    pure (!(← schemasCompatible provided.toJson required.toJson))
  raiseIf (incompatible ≠ []) (.valueError <|
    "RowMappingSampler mapping has incompatible output type(s): " ++
      ", ".intercalate (sortedStrings (incompatible.map Prod.fst)))

/-- The DataKey and the schema of every field that is not mapped. -/
def unmappedFields (config : RowMapConfig) (source : List (String × Schema)) : List (String × Schema) :=
  (source.filter fun e => e.1 ∉ config.mapping.map Prod.snd).map fun e =>
    (config.unmappedPrefix ++ e.1, e.2)

/-- The DataKeys of the unmapped fields must be new. -/
def requireUnmappedKeys (config : RowMapConfig) (source declared : List (String × Schema)) :
    Except PyError Unit :=
  if config.includeUnmappedFields = false then pure () else do
  raiseIf (source = []) (.valueError "includeUnmappedFields requires a typed Dataset field schema.")
  (unmappedFields config source).forM fun e => raiseIf (Dict.has declared e.1)
    (.valueError s!"RowMappingSampler generated duplicate DataKey '{e.1}'.")

/-- One required write of the compiled contract. -/
def writeField (state : Contracts × List String) (e : String × Schema) :
    Except PyError (Contracts × List String) :=
  writeContractState state.1 state.2 e.1 e.2 true

/-- One required write of an unmapped field. -/
def writeUnmappedField (state : Contracts × List String) (e : String × Schema) :
    Except PyError (Contracts × List String) := do
  writeField state (e.1, ← normalizeDataKeySchema e.2.toJson e.1)

/-- The required writes of the unmapped fields. -/
def writeUnmappedFields (config : RowMapConfig) (source : List (String × Schema))
    (state : Contracts × List String) : Except PyError (Contracts × List String) :=
  if config.includeUnmappedFields then (unmappedFields config source).foldlM writeUnmappedField state
  else pure state

/-- What `compile_row_map_contract` returns. -/
structure CompiledRowMap where
  config : RowMapConfig
  sourceSchema : List (String × Schema)
  declaredOutputContracts : Contracts

/-- `compile_row_map_contract`. -/
def compileRowMapContract (definition : Json) (sourceSchema : Option Json) :
    Except PyError CompiledRowMap := do
  let definition ← requireMapping definition "RowMappingSampler definition must be an object."
  raiseIf (Dict.has definition "config" = false ∨ Dict.has definition "outputSchema" = false)
    (.valueError "RowMappingSampler requires config and outputSchema.")
  let config ← readConfig (Results.field definition "config")
  let source ← readSourceSchema (sourceSchema.getD (.obj []))
  let declaredSchema ← requireMapping (Results.field definition "outputSchema")
    "RowMappingSampler requires a typed outputSchema object."
  requireMappedKeys (config.mapping.map Prod.fst) (Dict.keys declaredSchema)
  let declared ← config.mapping.mapM fun e => do
    pure (e.1, ← normalizeDataKeySchema (Results.field declaredSchema e.1) e.1)
  requireSourceFields sourceSchema.isSome source declared config.mapping
  requireUnmappedKeys config source declared
  let mapped ← declared.foldlM writeField ([], [])
  let written ← writeUnmappedFields config source mapped
  pure ⟨config, source, written.1⟩

end Contract

section Records

/-- What the descriptor of the records capability says about the records file; the field schemas are
normalized. -/
structure RecordsDescriptor where
  recordCount : ℕ
  eventTimeField : String
  availableTimeField : String
  fields : List (String × Schema)
  nodup : (fields.map Prod.fst).Nodup
  normal : ∀ e ∈ fields, e.2.Normal

/-- The schema of the values of a record. -/
def RecordsDescriptor.valueSchema (descriptor : RecordsDescriptor) : Schema :=
  .object { type := some [.object], properties := some descriptor.fields,
            additionalProperties := some (some .never) }

/-- `compile_normalized_json_validator`, applied to a strict JSON value: the generated function only
passes what the plan passes. -/
def validateCompiledJson (schema : Schema) (path : String) (value : Json) : Except PyError Unit :=
  report (ValidationFailure.error path) (compiledValidationFailure value (compileValidationPlan schema false))

/-- `dataset_field_schema`. -/
def RecordsDescriptor.fieldSchemas (descriptor : RecordsDescriptor) : Json :=
  .obj (Contracts.toDocuments descriptor.fields)

variable (codec : BasicWorkflow.TextCodec)

/-- `parse_record_instant`. -/
def parseRecordInstant (value : Json) (label : String) : Except PyError Unit := do
  match Results.textOf value with
  | none => throw (.valueError s!"{label} must be a non-empty ISO timestamp.")
  | some value => do
    let long := if value.length = 10 then value ++ "T00:00:00Z" else value
    let text := if long.toList.getLast? = some 'Z' then
        String.ofList (long.toList.dropLast ++ "+00:00".toList)
      else long
    match codec.fromisoformat text with
    | none => throw (.valueError s!"{label} must be an ISO timestamp.")
    | some .naive => raiseIf (value.length ≠ 10) (.valueError s!"{label} must include an absolute timezone.")
    | some (.aware _) => pure ()

def isBool : Json → Bool
  | .bool _ => true
  | _ => false

/-- The check of one line of the records file, after `count` records. -/
def verifyRecord (descriptor : RecordsDescriptor) (count : ℕ) (line : Except PyError Json) :
    Except PyError ℕ := do
  let record ← line.mapError fun _ => .valueError
    s!"Dataset records capability line {count + 1} is invalid JSON."
  let record ← requireMapping record
    s!"Dataset records capability line {count + 1} has an invalid schema."
  raiseIf (sameNames (Dict.keys record)
      ["sequence", descriptor.eventTimeField, descriptor.availableTimeField, "values"] = false)
    (.valueError s!"Dataset records capability line {count + 1} has an invalid schema.")
  raiseIf (isBool (Results.field record "sequence") ∨
      pythonEqual (Results.field record "sequence") (.int count) = false)
    (.valueError "Dataset record sequence must be contiguous from zero.")
  [descriptor.eventTimeField, descriptor.availableTimeField].forM fun name =>
    parseRecordInstant codec (Results.field record name) s!"Dataset record line {count + 1} {name}"
  validateCompiledJson descriptor.valueSchema "Dataset record values" (Results.field record "values")
  pure (count + 1)

/-- `_verify_records_capability`, on what `strict_json.loads` makes of each line. -/
def verifyRecordsCapability (descriptor : RecordsDescriptor) (lines : List (Except PyError Json)) :
    Except PyError Unit := do
  let count ← lines.foldlM (verifyRecord codec descriptor) 0
  raiseIf (count ≠ descriptor.recordCount)
    (.valueError "Dataset records capability count does not match its descriptor.")

end Records

section Runtime

/-- `_set_path` below an object. -/
def setPath (path : String) : DataDict → List String → Json → Except PyError DataDict
  | target, [], _ => pure target
  | target, [part], value => pure (Dict.set target part value)
  | target, part :: next :: rest, value => do
    let child ← match target.lookup part with
      | none | some .null => pure []
      | some (.obj child) => pure child
      | some _ => throw (.valueError
          s!"Sampler DataKey '{path}' collides with scalar path '{part}'.")
    pure (Dict.set target part (.obj (← setPath path child (next :: rest) value)))

/-- `str(path).split(".")`. -/
def splitParts (path : String) : List String := (path.toList.splitOn '.').map String.ofList

/-- Where the value of a DataKey comes from. -/
structure Provenance where
  recordSequence : Json
  sourceField : String
  eventTime : Json
  availableAt : Json

/-- `DatasetRecord`. -/
structure DatasetRecord where
  sequence : Json
  eventTime : Json
  availableAt : Json
  values : List (String × Json)

/-- The record that a line of the records file holds. -/
def RecordsDescriptor.record (descriptor : RecordsDescriptor) (line : List (String × Json)) : DatasetRecord where
  sequence := Results.field line "sequence"
  eventTime := Results.field line descriptor.eventTimeField
  availableAt := Results.field line descriptor.availableTimeField
  values := Results.membersOf (Results.field line "values")

/-- The mapping that is done for one DataKey of the output. -/
def mapField (record : DatasetRecord) (mapped : DataDict × List (String × Provenance))
    (e : String × String) : Except PyError (DataDict × List (String × Provenance)) := do
  let value := Results.field record.values e.2
  let data ← setPath e.1 mapped.1 (splitParts e.1) value
  let provenance : Provenance := ⟨record.sequence, e.2, record.eventTime, record.availableAt⟩
  pure (data, Dict.set mapped.2 e.1 provenance)

/-- The fields of a record that are copied without a mapping. -/
def copiedFields (config : RowMapConfig) (sourceFields : List String) (values : List (String × Json)) :
    List (String × String) :=
  ((sortedStrings sourceFields).filter fun name =>
    name ∉ config.mapping.map Prod.snd ∧ Dict.has values name).map fun name =>
      (config.unmappedPrefix ++ name, name)

/-- `map_record`. -/
def mapRecord (record : DatasetRecord) (config : RowMapConfig) (sourceFields : List String) :
    Except PyError (DataDict × List (String × Provenance)) := do
  let missing := missingNames (config.mapping.map Prod.snd).dedup (Dict.keys record.values)
  raiseIf (missing ≠ [])
    (.valueError ("Dataset record is missing Sampler field(s): " ++ ", ".intercalate missing))
  let mapped ← (config.mapping.insertionSort fun a b => a.1 ≤ b.1).foldlM (mapField record) ([], [])
  if config.includeUnmappedFields then do
    let unknown := missingNames (Dict.keys record.values) sourceFields
    raiseIf (unknown ≠ [])
      (.valueError ("Dataset field(s) have no declared type: " ++ ", ".intercalate unknown))
    (copiedFields config sourceFields record.values).foldlM (mapField record) mapped
  else pure mapped

/-- `contract_root_paths`. -/
def contractRootPaths (contracts : Contracts) : Except PyError (List String) := do
  expandedContractRootPaths (← expandContracts contracts.toDocuments)

/-- `RowMappingSampler`: what it was compiled to, and its output validator. -/
structure RowMappingSampler where
  compiled : CompiledRowMap
  validateOutput : DataJsonValidator

/-- `RowMappingSampler._initialize`. -/
def RowMappingSampler.initialized (definition : Json) (sourceSchema : Option Json) :
    Except PyError RowMappingSampler := do
  let compiled ← compileRowMapContract definition sourceSchema
  let outputSchema ← expandContracts compiled.declaredOutputContracts.toDocuments
  let validateOutput ← compileDataJsonValidator outputSchema (← contractRootPaths outputSchema)
  pure ⟨compiled, validateOutput⟩

end Runtime

end TradeFramework.RowMap
