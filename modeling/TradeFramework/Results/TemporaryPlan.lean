import TradeFramework.Data.PythonValidation
import TradeFramework.Results.Cycle
import TradeFramework.Sampling.WrittenState

/-!
# Temporary modules of a result

Modules that run over the stored cycles of a result. The compiler orders them by the DataKeys that
they read and write and walks the contracts in that order; the processor runs them in it.
-/

namespace TradeFramework.Results

open Raising (raiseIf)
open RowMap (contractRootPaths isBool writeContractState)

section Contracts

/-- `resolve_contract_path`; `none` is the default. -/
def resolveContractPath (contracts : Contracts) (path : String) : Except PyError (Option Schema) := do
  resolveExpandedContractPath (← expandContracts contracts.toDocuments) path

/-- `contract_path_required`. -/
def contractPathRequired (contracts : Contracts) (path : String) (requiredRoots : Option (List String)) :
    Except PyError Bool := do
  expandedContractPathRequired (← expandContracts contracts.toDocuments) path requiredRoots

/-- The truth value of a JSON value. -/
def truthy : Json → Bool
  | .null => false
  | .bool b => b
  | .int n => n ≠ 0
  | .num q => q ≠ 0
  | .str s => s ≠ ""
  | .arr xs => !xs.isEmpty
  | .obj d => !d.isEmpty

/-- The declared DataKeys that are required roots. -/
def requiredRootKeys (dataKeys : List (String × Json)) : Except PyError (List String) := do
  let roots ← (Dict.items dataKeys).filterM fun e => do
    pure (decide ((← splitDataPath e.1).rest = []) && truthy (field (membersOf e.2) "required"))
  pure (roots.map Prod.fst)

end Contracts

section Declarations

def declarationFields : List String := ["label", "schema", "required", "source", "encoding"]

/-- The value of `encoding` in a declaration. -/
def declaredEncoding (dataKey : String) : Json :=
  .obj [("time", .str "decisionTime"), ("value", .str s!"data.{dataKey}")]

/-- The value of `source` in a declaration. -/
def declaredSource (dataKey : String) : Json := .obj [("path", .str s!"cycles.data.{dataKey}")]

/-- `result_data_key_declarations`. -/
def resultDataKeyDeclarations (contracts : Contracts) (requiredRoots : List String) :
    Except PyError (List (String × Json)) := do
  let expanded ← expandContracts contracts.toDocuments
  let roots ← expandedContractRootPaths expanded
  let unknown := sortedStrings (requiredRoots.filter fun root => root ∉ roots)
  raiseIf (unknown ≠ []) (.valueError <|
    "Result required roots are not declared by its contracts: " ++ ", ".intercalate unknown)
  (Dict.items expanded).mapM fun e => do
    let schema ← normalizeDataKeySchema e.2.toJson e.1
    let required ← expandedContractPathRequired expanded e.1 (some requiredRoots)
    pure (e.1, .obj [("label", .str e.1), ("schema", schema.toJson), ("required", .bool required),
      ("source", declaredSource e.1), ("encoding", declaredEncoding e.1)])

/-- The checks of one declaration by `compile_cycle_validator`. -/
def declarationSchema (e : String × Json) : Except PyError (String × Schema) := do
  raiseIf (e.1 = "") (.valueError "Result dataKeys contains an invalid DataKey path.")
  let declaration ← requireExactFields e.2 declarationFields declarationFields s!"Result dataKeys.{e.1}"
  raiseIf (pythonEqual (field declaration "label") (.str e.1) = false)
    (.valueError s!"Result DataKey '{e.1}' label does not match its path.")
  raiseIf (pythonEqual (field declaration "source") (declaredSource e.1) = false)
    (.valueError s!"Result DataKey '{e.1}' has an invalid source.")
  raiseIf (pythonEqual (field declaration "encoding") (declaredEncoding e.1) = false)
    (.valueError s!"Result DataKey '{e.1}' has an invalid encoding.")
  raiseIf (isBool (field declaration "required") = false)
    (.valueError s!"Result DataKey '{e.1}' required must be a boolean.")
  pure (e.1, ← normalizeDataKeySchema (field declaration "schema") e.1)

/-- The presence that a declaration states must be the one that the contracts guarantee. -/
def requireConsistent (expanded : Contracts) (requiredRoots : List String) (e : String × Json) :
    Except PyError Unit := do
  let required ← expandedContractPathRequired expanded e.1 (some requiredRoots)
  raiseIf (truthy (field (membersOf e.2) "required") ≠ required)
    (.valueError s!"Result DataKey '{e.1}' required presence is inconsistent.")

/-- `compile_cycle_validator`. -/
def compileCycleValidator (dataKeys : List (String × Json)) : Except PyError DataJsonValidator := do
  let contracts ← (Dict.items dataKeys).mapM declarationSchema
  let expanded ← expandContracts (Contracts.toDocuments contracts)
  let requiredRoots ← requiredRootKeys dataKeys
  (Dict.items dataKeys).forM (requireConsistent expanded requiredRoots)
  compileDataJsonValidator expanded requiredRoots

end Declarations

section Modules

/-- A port of a module. -/
structure Port where
  schema : Schema
  required : Bool

structure Ports where
  inputs : List (String × Port)
  outputs : List (String × Port)

/-- One port of `normalize_ports`. -/
def normalizePort (label direction : String) (e : String × Json) : Except PyError (String × Port) := do
  raiseIf (e.1 = "") (.valueError s!"ports.{direction} contains an invalid port name.")
  let spec ← requireExactFields e.2 ["schema", "required"] ["schema"] s!"{label}.{direction}.{e.1}"
  let required := (spec.lookup "required").getD (.bool true)
  raiseIf (isBool required = false)
    (.valueError s!"ports.{direction}.{e.1}.required must be a boolean.")
  let schema ← normalizeDataKeySchema (field spec "schema") s!"{label}.{direction}.{e.1}"
  pure (e.1, ⟨schema, truthy required⟩)

/-- One direction of `normalize_ports`. -/
def normalizeDirection (label direction : String) (ports : Json) : Except PyError (List (String × Port)) :=
  match ports with
  | .obj ports => (Dict.items ports).mapM (normalizePort label direction)
  | _ => throw (.valueError s!"ports.{direction} must be an object.")

/-- `normalize_ports`. -/
def normalizePorts (ports : Json) (label : String) : Except PyError Ports := do
  let directions ← requireExactFields ports ["inputs", "outputs"] ["inputs", "outputs"] label
  let inputs ← normalizeDirection label "inputs" (field directions "inputs")
  let outputs ← normalizeDirection label "outputs" (field directions "outputs")
  pure ⟨inputs, outputs⟩

/-- `port_schema`. -/
def portSchema (port : Port) : Except PyError Schema := normalizeDataKeySchema port.schema.toJson "Module port"

/-- What the compiler reads of an archived module definition. -/
structure ModuleDefinition where
  kind : String
  moduleId : String
  version : String
  configSchema : Json
  ports : Json

/-- A module instance that is bound to its definition. -/
structure Binding where
  instanceId : String
  kind : String
  moduleId : String
  version : String
  config : Json
  inputs : List (String × String)
  outputs : List (String × String)

/-- A wire is a text, and not blank or `null`. -/
def isWire : Json → Bool
  | .str text => stripText text.toList ≠ [] && stripText text.toList ≠ "null".toList
  | _ => false

/-- The bound ports of one direction, once they are known to be texts. -/
def wires (bound : List (String × Json)) : List (String × String) :=
  bound.filterMap fun e => match e.2 with
    | .str wire => some (e.1, wire)
    | _ => none

/-- The bound ports of one direction. -/
def boundPorts (direction : String) (bound : Json) : Except PyError (List (String × Json)) :=
  match bound with
  | .obj bound => pure (Dict.items bound)
  | _ => throw (.valueError s!"instance {direction} must be an object.")

/-- Only declared ports can be bound. -/
def requireKnownPorts (instanceId name : String) (bound : List (String × Json))
    (declared : List (String × Port)) : Except PyError Unit :=
  bound.forM fun e => raiseIf (Dict.has declared e.1 = false)
    (.valueError s!"Instance '{instanceId}' binds unknown {name} port '{e.1}'.")

/-- Required ports must be bound to what `usable` accepts. -/
def requireBoundPorts (instanceId name : String) (usable : Json → Bool) (bound : List (String × Json))
    (declared : List (String × Port)) : Except PyError Unit :=
  declared.forM fun e => raiseIf (e.2.required = true ∧ (bound.lookup e.1).any usable = false)
    (.valueError s!"Instance '{instanceId}' requires {name} port '{e.1}'.")

/-- Bound ports must be bound to wires. -/
def requireWires (instanceId direction : String) (bound : List (String × Json)) : Except PyError Unit :=
  bound.forM fun e => raiseIf (isWire e.2 = false)
    (.valueError s!"Instance '{instanceId}' {direction}.{e.1} must be a non-empty wire id.")

/-- `validate_instance_wiring`; returns the wires of the inputs and of the outputs. -/
def validateInstanceWiring (instanceId : String) (inputs outputs : Json) (definition : ModuleDefinition) :
    Except PyError (List (String × String) × List (String × String)) := do
  let ports ← normalizePorts definition.ports "Module ports"
  let inputs ← boundPorts "inputs" inputs
  let outputs ← boundPorts "outputs" outputs
  requireKnownPorts instanceId "input" inputs ports.inputs
  requireKnownPorts instanceId "output" outputs ports.outputs
  requireBoundPorts instanceId "input" isWire inputs ports.inputs
  requireBoundPorts instanceId "output" (fun wire => (textOf wire).isSome) outputs ports.outputs
  requireWires instanceId "inputs" inputs
  requireWires instanceId "outputs" outputs
  pure (wires inputs, wires outputs)

/-- What the compiler asks of the archive: the verified definition of a module, whether a
configuration is one of its schema, and the authority of a bound instance. -/
structure ModuleRepository where
  resolve : Json → String → Json → Except PyError ModuleDefinition
  validateConfig : Json → Json → String → Except PyError Unit
  bindInvocation : Binding → ModuleDefinition → Except PyError Unit

/-- A module of the plan. The plans are the bound ports in the order in which they are read and written. -/
structure TemporaryNode where
  binding : Binding
  ports : Ports
  inputPlan : List (String × String)
  outputPlan : List (String × String)

def TemporaryNode.instanceId (node : TemporaryNode) : String := node.binding.instanceId

/-- The writes in `canonical_data_key_order`. -/
def orderOutputs (outputs : List (String × String)) : Except PyError (List (String × String)) := do
  let keyed ← outputs.mapM fun e => do
    pure ((← splitDataPath e.2).parts, e)
  pure ((keyed.insertionSort fun a b => a.1 < b.1 ∨ (a.1 = b.1 ∧ a.2.1 ≤ b.2.1)).map Prod.snd)

def moduleInstanceFields : List String :=
  ["instanceId", "kind", "moduleId", "version", "config", "inputs", "outputs"]

/-- The checks of one temporary module, after the modules `known`. -/
def bindModule (repository : ModuleRepository) (known : List String) (index : ℕ) (module : Json) :
    Except PyError TemporaryNode := do
  let fields ← requireExactFields module moduleInstanceFields moduleInstanceFields
    s!"Temporary Module[{index}]"
  match textOf (field fields "moduleId"), textOf (field fields "instanceId") with
  | some moduleId, some instanceId => do
    raiseIf (instanceId ∈ known)
      (.valueError s!"Duplicate temporary module instanceId: '{instanceId}'.")
    let definition ← repository.resolve (field fields "kind") moduleId (field fields "version")
    let ports ← normalizePorts definition.ports "Module ports"
    repository.validateConfig (field fields "config") definition.configSchema
      s!"temporaryModule.{instanceId}.config"
    let bound ← validateInstanceWiring instanceId (field fields "inputs") (field fields "outputs") definition
    raiseIf (bound.2 = [])
      (.valueError s!"Temporary Module '{instanceId}' must bind at least one output.")
    let binding : Binding := ⟨instanceId, definition.kind, definition.moduleId, definition.version,
      field fields "config", bound.1, bound.2⟩
    repository.bindInvocation binding definition
    let outputPlan ← orderOutputs bound.2
    pure ⟨binding, ports, bound.1.insertionSort fun a b => a.1 ≤ b.1, outputPlan⟩
  | _, _ => throw (.valueError "Temporary Module instanceId is required.")

/-- A DataKey has one producer. -/
def declareProducer (producers : List String) (e : String × String) : Except PyError (List String) := do
  raiseIf (e.2 ∈ producers)
    (.valueError s!"Temporary Modules contain multiple producers for DataKey '{e.2}'.")
  pure (producers ++ [e.2])

/-- One turn of the loop over the temporary modules, with the nodes and the DataKeys so far. -/
def declareModule (repository : ModuleRepository) (declared : List TemporaryNode × List String)
    (module : Json × ℕ) : Except PyError (List TemporaryNode × List String) := do
  let node ← bindModule repository (declared.1.map TemporaryNode.instanceId) module.2 module.1
  let producers ← node.outputPlan.foldlM declareProducer declared.2
  pure (declared.1 ++ [node], producers)

/-- The nodes of the temporary modules. -/
def declareModules (repository : ModuleRepository) (modules : Json) : Except PyError (List TemporaryNode) :=
  match modules with
  | .arr modules => do
    pure (← modules.zipIdx.foldlM (declareModule repository) ([], [])).1
  | _ => throw (.valueError "Temporary Modules must be an array.")

end Modules

section Order

/-- The port of a plan entry. -/
def portOf (ports : List (String × Port)) (name : String) : Except PyError Port :=
  (ports.lookup name).elim (throw (.keyError name)) pure

/-- The contract state after one output of a module. -/
def writeOutput (node : TemporaryNode) (state : Contracts × List String) (e : String × String) :
    Except PyError (Contracts × List String) := do
  let port ← portOf node.ports.outputs e.1
  writeContractState state.1 state.2 e.2 (← portSchema port) port.required

/-- The contracts of what a module writes alone. -/
def outputContracts (node : TemporaryNode) : Except PyError (String × Contracts) := do
  let state ← node.outputPlan.foldlM (writeOutput node) ([], [])
  pure (node.instanceId, state.1)

def resolves (contracts : Contracts) (dataKey : String) : Except PyError Bool := do
  pure (← resolveContractPath contracts dataKey).isSome

/-- Whether a module replaces an ancestor of the DataKey and may leave the DataKey out. -/
def destroys (producer : TemporaryNode) (contracts : Contracts) (dataKey : String) : Except PyError Bool := do
  let input ← splitDataPath dataKey
  let above ← producer.outputPlan.anyM fun e => do
    let output ← splitDataPath e.2
    pure (decide (output.parts.length < input.parts.length) && output.parts.isPrefixOf input.parts)
  if above then do
    pure !(← contractPathRequired contracts dataKey (some (← contractRootPaths contracts)))
  else pure false

/-- Whether the result or a third module has the DataKey. -/
def availableElsewhere (initial : Contracts) (others : List Contracts) (dataKey : String) :
    Except PyError Bool := do
  if ← resolves initial dataKey then pure true
  else others.anyM fun contracts => resolves contracts dataKey

/-- The dependencies that a read of a module puts between it and another module: pairs of a module and one
that must run before it. -/
def dependencyOf (initial : Contracts) (outputs : List (String × Contracts))
    (read : TemporaryNode × String × TemporaryNode) : Except PyError (List (String × String)) := do
  let (reader, dataKey, producer) := read
  let contracts := (outputs.lookup producer.instanceId).getD []
  let destructive ← destroys producer contracts dataKey
  let elsewhere ← availableElsewhere initial ((outputs.filter fun e =>
    e.1 ≠ reader.instanceId ∧ e.1 ≠ producer.instanceId).map Prod.snd) dataKey
  if destructive && elsewhere then pure [(producer.instanceId, reader.instanceId)]
  else if ← resolves contracts dataKey then pure [(reader.instanceId, producer.instanceId)]
  else pure []

/-- The dependencies of the modules. -/
def moduleDependencies (initial : Contracts) (nodes : List TemporaryNode) :
    Except PyError (List (String × String)) := do
  let outputs ← nodes.mapM outputContracts
  let reads := nodes.flatMap fun reader => reader.inputPlan.flatMap fun e =>
    (nodes.filter fun producer => producer.instanceId ≠ reader.instanceId).map fun producer =>
      (reader, e.2, producer)
  pure (← reads.mapM (dependencyOf initial outputs)).flatten

/-- A module is ready when no remaining module must run before it. -/
def isReady (dependencies : List (String × String)) (remaining : List TemporaryNode) (node : TemporaryNode) :
    Bool :=
  dependencies.all fun e =>
    e.1 ≠ node.instanceId || e.2 ∉ remaining.map TemporaryNode.instanceId

/-- The modules that run next. -/
def readyModules (dependencies : List (String × String)) (remaining : List TemporaryNode) : List TemporaryNode :=
  remaining.filter (isReady dependencies remaining)

/-- The modules that run later. -/
def blockedModules (dependencies : List (String × String)) (remaining : List TemporaryNode) :
    List TemporaryNode :=
  remaining.filter fun node => !isReady dependencies remaining node

lemma length_blockedModules_lt {dependencies : List (String × String)} {remaining : List TemporaryNode}
    (h : readyModules dependencies remaining ≠ []) :
    (blockedModules dependencies remaining).length < remaining.length := by
  obtain ⟨node, hnode⟩ := List.exists_mem_of_ne_nil _ h
  obtain ⟨hmem, hready⟩ := List.mem_filter.mp hnode
  exact List.length_filter_lt_length_iff_exists.mpr ⟨node, hmem, by simp [hready]⟩

/-- The modules in the order of their dependencies, those that are ready together in their own order. -/
def orderModules (dependencies : List (String × String)) (remaining : List TemporaryNode) :
    Except PyError (List TemporaryNode) :=
  if remaining.isEmpty then pure []
  else if _h : (readyModules dependencies remaining).isEmpty then throw (.valueError <|
    "Temporary module dependency graph contains a cycle: " ++
      ", ".intercalate (sortedStrings (remaining.map TemporaryNode.instanceId)))
  else do
    let later ← orderModules dependencies (blockedModules dependencies remaining)
    pure (readyModules dependencies remaining ++ later)
termination_by remaining.length
decreasing_by exact length_blockedModules_lt fun hempty => _h (by rw [hempty]; rfl)

/-- The checks of one input against the contracts so far. -/
def checkInput (node : TemporaryNode) (state : Contracts × List String) (e : String × String) :
    Except PyError Unit := do
  let port ← portOf node.ports.inputs e.1
  let input := s!"'{node.instanceId}.{e.1}'"
  match ← resolveContractPath state.1 e.2 with
  | none => throw (.valueError s!"Temporary module input {input} references unknown DataKey '{e.2}'.")
  | some provided => do
    if port.required then do
      let present ← contractPathRequired state.1 e.2 (some state.2)
      raiseIf (present = false)
        (.valueError s!"Temporary module required input {input} relies on optional DataKey '{e.2}'.")
    let required ← portSchema port
    let compatible ← schemasCompatible provided.toJson required.toJson
    if compatible then pure ()
    else do
      let providedLabel ← schemaLabel provided
      let requiredLabel ← schemaLabel required
      throw (.valueError <| s!"Temporary module input {input} schema mismatch: DataKey '{e.2}' is " ++
        s!"{providedLabel}, requires {requiredLabel}.")

/-- The contract state after a module. -/
def advance (state : Contracts × List String) (node : TemporaryNode) :
    Except PyError (Contracts × List String) := do
  node.inputPlan.forM (checkInput node state)
  node.outputPlan.foldlM (writeOutput node) state

/-- What `compile_temporary_module_plan` returns. -/
structure TemporaryPlan where
  nodes : List TemporaryNode
  contracts : Contracts
  requiredRoots : List String

/-- The contracts of the result that the modules run on. -/
def initialContracts (dataKeys : List (String × Json)) : Except PyError Contracts := do
  let declared ← (Dict.items dataKeys).mapM fun e => do
    pure (e.1, ← normalizeDataKeySchema (field (membersOf e.2) "schema") e.1)
  expandContracts (Contracts.toDocuments declared)

/-- `compile_temporary_module_plan`. -/
def compileTemporaryModulePlan (repository : ModuleRepository) (dataKeys : List (String × Json))
    (modules : Json) : Except PyError TemporaryPlan := do
  let initial ← initialContracts dataKeys
  let requiredRoots ← requiredRootKeys dataKeys
  let nodes ← declareModules repository modules
  let dependencies ← moduleDependencies initial nodes
  let ordered ← orderModules dependencies nodes
  let state ← ordered.foldlM advance (initial, requiredRoots)
  pure ⟨ordered, state.1, state.2⟩

end Order

section Runtime

/-- What a module does with its inputs in one call. -/
abbrev Behaviour := List (String × Json) → Except PyError (List (String × Json))

/-- The checks of one side of a module call. -/
def validatePorts (label direction verb : String) (declared : List (String × Port))
    (values : List (String × Json)) : Except PyError Unit := do
  let unknown := sortedStrings ((Dict.keys values).filter fun name => !Dict.has declared name)
  let unknownNames := ", ".intercalate unknown
  raiseIf (unknown ≠ [])
    (.valueError s!"Module '{label}' {verb} undeclared {direction} port(s): {unknownNames}.")
  let missing := sortedStrings ((declared.filter fun e => e.2.required && !Dict.has values e.1).map Prod.fst)
  let missingNames := ", ".intercalate missing
  raiseIf (missing ≠ [])
    (.valueError s!"Module '{label}' omitted required {direction} port(s): {missingNames}.")
  (Dict.items values).forM fun e => do
    let port ← portOf declared e.1
    validateNormalizedJsonValue false e.2 port.schema s!"{label}.{direction}s.{e.1}"

/-- `ModuleInvoker.invoke`. -/
def invoke (behaviour : Behaviour) (node : TemporaryNode) : Behaviour := fun inputs => do
  validatePorts node.instanceId "input" "received" node.ports.inputs inputs
  let outputs ← behaviour inputs
  validatePorts node.instanceId "output" "returned" node.ports.outputs outputs
  pure outputs

/-- The value of one input, where the cycle has it. -/
def readInput (node : TemporaryNode) (data : DataDict) (current : List (String × Json))
    (e : String × String) : Except PyError (List (String × Json)) := do
  let path ← splitDataPath e.2
  match getDataSegments (.obj data) path.parts with
  | some value => pure (Dict.set current e.1 value)
  | none => do
    let port ← portOf node.ports.inputs e.1
    raiseIf (port.required = true) (.valueError <|
      s!"Temporary Module '{node.instanceId}' input '{e.1}' cannot read DataKey '{e.2}'.")
    pure current

/-- The write of one output, where the module returned it. -/
def storeOutput (outputs : List (String × Json)) (data : DataDict) (e : String × String) :
    Except PyError DataDict :=
  match outputs.lookup e.1 with
  | none => pure data
  | some value => do setDataSegments data (← splitDataPath e.2) value

/-- One module of `prepare_cycle`. -/
def runModule (behaviour : TemporaryNode → Behaviour) (data : DataDict) (node : TemporaryNode) :
    Except PyError DataDict := do
  let inputs ← node.inputPlan.foldlM (readInput node data) []
  let outputs ← invoke (behaviour node) node inputs
  node.outputPlan.foldlM (storeOutput outputs) data

/-- What a processor with a temporary plan works with. -/
structure ResultCycleProcessor where
  baseValidator : DataJsonValidator
  finalValidator : DataJsonValidator
  nodes : List TemporaryNode

/-- `ResultCycleProcessor.__init__` and `__enter__`. -/
def ResultCycleProcessor.entered (dataKeys : List (String × Json)) (plan : TemporaryPlan) :
    Except PyError ResultCycleProcessor := do
  let baseValidator ← compileCycleValidator dataKeys
  let declarations ← resultDataKeyDeclarations plan.contracts plan.requiredRoots
  let finalValidator ← compileCycleValidator declarations
  pure ⟨baseValidator, finalValidator, plan.nodes⟩

/-- `prepare_cycle` on a cycle's data, after `require_cycle`. -/
def ResultCycleProcessor.transform (processor : ResultCycleProcessor) (behaviour : TemporaryNode → Behaviour)
    (data : DataDict) : Except PyError DataDict := do
  let transformed ← processor.nodes.foldlM (runModule behaviour) data
  processor.finalValidator.validate (.obj transformed)
  pure transformed

/-- `prepare_cycle`; returns the cycle with its new data. -/
def ResultCycleProcessor.prepareCycle {σ : Type} (processor : ResultCycleProcessor)
    (behaviour : TemporaryNode → Behaviour) (claim : σ → String → Except PyError Bool × σ) (index : ℕ)
    (cycle : Json) (cycleIds : σ) : Except PyError Json × σ :=
  let required := requireCycle processor.baseValidator.validate claim cycle s!"{index}" cycleIds
  let prepared := do
    let _ ← required.1
    let data ← processor.transform behaviour (membersOf (field (membersOf cycle) "data"))
    pure (.obj (Dict.set (membersOf cycle) "data" (.obj data)))
  (prepared, required.2)

end Runtime

end TradeFramework.Results
