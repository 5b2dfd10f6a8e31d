import TradeFramework.Data.DataPath
import TradeFramework.Library.Dictionary

/-!
# The module graph editor

A graph document names its wires. The editor shows them as links between the slots of its
nodes: `rebuild` finds the producer of every name that is read, and `snapshot` names the links
again after the slots they start from. A plain object is the list of its own properties in the
order of `Object.entries`.
-/

namespace TradeFramework.Editor

section Objects

/-- The names that every plain object inherits from `Object.prototype`. -/
def inheritedNames : List String :=
  ["constructor", "__defineGetter__", "__defineSetter__", "hasOwnProperty", "__lookupGetter__",
    "__lookupSetter__", "isPrototypeOf", "propertyIsEnumerable", "toString", "valueOf", "__proto__",
    "toLocaleString"]

/-- What reading a property of an object of texts gives. -/
inductive JsValue
  | undefined
  | text (value : String)
  | inherited (name : String)
deriving DecidableEq

/-- `object[name]`. -/
def readProperty (object : List (String × String)) (name : String) : JsValue :=
  match object.lookup name with
  | some value => .text value
  | none => if name ∈ inheritedNames then .inherited name else .undefined

/-- `object[name] = value`: an assignment to `__proto__` makes no property. -/
def writeProperty {α : Type} (object : List (String × α)) (name : String) (value : α) :
    List (String × α) :=
  if name = "__proto__" then object else Dict.set object name value

/-- `Boolean(value)`. -/
def JsValue.truthy : JsValue → Bool
  | .undefined => false
  | .text value => value ≠ ""
  | .inherited _ => true

/-- `String(value || "")`; `native` is the text of an inherited member. -/
def JsValue.orEmpty (native : String → String) : JsValue → String
  | .undefined => ""
  | .text value => value
  | .inherited name => native name

/-- The characters that `String.prototype.trim` removes. -/
def isTrimmed (c : Char) : Bool :=
  [0x20, 0xa0, 0x1680, 0x2028, 0x2029, 0x202f, 0x205f, 0x3000, 0xfeff].contains c.toNat ||
    (0x09 ≤ c.toNat && c.toNat ≤ 0x0d) || (0x2000 ≤ c.toNat && c.toNat ≤ 0x200a)

/-- `text.trim()`. -/
def trim (text : String) : String :=
  String.ofList ((text.toList.dropWhile isTrimmed).reverse.dropWhile isTrimmed).reverse

end Objects

section Documents

structure InputBoundary where
  dataKey : String
  wire : String
  source : Option String
deriving DecidableEq

structure OutputBoundary where
  dataKey : String
  wire : String
deriving DecidableEq

/-- A module definition; a port is its name and whether it is required. -/
structure Definition where
  kind : String
  moduleId : String
  version : String
  inputs : List (String × Bool)
  outputs : List (String × Bool)

structure Instance where
  instanceId : String
  kind : String
  moduleId : String
  version : String
  config : Json
  inputs : List (String × String)
  outputs : List (String × String)

structure GraphDocument where
  nodes : List String
  inputs : List (String × InputBoundary)
  outputs : List (String × OutputBoundary)

/-- A graph with the instances of its modules. -/
structure ModuleGraph where
  instances : List (String × Instance)
  document : GraphDocument

/-- `moduleKey`. -/
def moduleKey (kind moduleId version : String) : String := s!"{kind}/{moduleId}/{version}"

/-- `definitionForInstance`; the last definition of a key is the one in the map. -/
def definitionForInstance (palette : List Definition) (inst : Instance) : Option Definition :=
  palette.reverse.find? fun definition =>
    moduleKey definition.kind definition.moduleId definition.version =
      moduleKey inst.kind inst.moduleId inst.version

end Documents

section Loading

/-- What the editor keeps of a node. -/
inductive Item
  | input (id dataKey wire : String) (source : Option String)
  | module (id : String) (definition : Definition) (config : Json)
      (outputWires : List (String × String))
  | output (id dataKey : String)

/-- The slot that a link starts from, and the node it belongs to. -/
structure Slot where
  node : ℕ
  slot : ℕ
deriving DecidableEq

/-- A node with the links of its input slots. -/
structure Node where
  item : Item
  links : List (Option Slot)

/-- `addBoundary` of an input; `named` tells whether the editor has named input sources. -/
def addInput (named : Bool) (id : String) (binding : InputBoundary) : Item :=
  .input id binding.dataKey (if binding.wire = "" then s!"input.{id}" else binding.wire)
    (if named then some (binding.source.getD "") else none)

/-- `addBoundary` of an output. -/
def addOutput (id : String) (binding : OutputBoundary) : Item := .output id binding.dataKey

/-- `addModule`, where the instance and its definition are known. -/
def addModule (palette : List Definition) (graph : ModuleGraph) (instanceId : String) : Option Item := do
  let inst ← graph.instances.lookup instanceId
  let definition ← definitionForInstance palette inst
  pure (.module inst.instanceId definition inst.config inst.outputs)

/-- The nodes of `rebuild`, in the order in which they are added. -/
def addItems (palette : List Definition) (named : Bool) (graph : ModuleGraph) : List Item :=
  graph.document.inputs.map (fun e => addInput named e.1 e.2) ++
    graph.document.nodes.filterMap (addModule palette graph) ++
    graph.document.outputs.map fun e => addOutput e.1 e.2

variable (native : String → String)

/-- The wires that a node puts into the map of producers. -/
def producedWires (node : ℕ) : Item → List (String × Slot)
  | .input _ _ wire _ => [(trim wire, ⟨node, 0⟩)]
  | .module _ definition _ outputWires => definition.outputs.zipIdx.map fun port =>
      (trim ((readProperty outputWires port.1.1).orEmpty native), ⟨node, port.2⟩)
  | .output _ _ => []

/-- `wireProducers`: a later producer of a name replaces an earlier one. -/
def wireProducers (items : List Item) : List (String × Slot) :=
  Dict.ofEntries ((items.zipIdx.flatMap fun e => producedWires native e.2 e.1).filter (·.1 ≠ ""))

/-- `connectWire`: the link to the producer of the wire. -/
def connectWire (producers : List (String × Slot)) (wire : String) : Option Slot :=
  producers.lookup (trim wire)

/-- The links of a node. -/
def connectItem (graph : ModuleGraph) (producers : List (String × Slot)) : Item → List (Option Slot)
  | .input _ _ _ _ => []
  | .module id definition _ _ => definition.inputs.map fun port =>
      let inputs := ((graph.instances.lookup id).map Instance.inputs).getD []
      connectWire producers ((readProperty inputs port.1).orEmpty native)
  | .output id _ =>
      [connectWire producers (((graph.document.outputs.lookup id).map OutputBoundary.wire).getD "")]

/-- `rebuild`. -/
def rebuild (palette : List Definition) (named : Bool) (graph : ModuleGraph) : List Node :=
  let items := addItems palette named graph
  let producers := wireProducers native items
  items.map fun item => ⟨item, connectItem native graph producers item⟩

end Loading

section Saving

/-- A module instance as `snapshot` returns it. -/
structure SavedInstance where
  instanceId : String
  kind : String
  moduleId : String
  version : String
  config : Json
  inputs : List (String × JsValue)
  outputs : List (String × JsValue)

structure SavedOutput where
  dataKey : String
  wire : JsValue
deriving DecidableEq

structure Snapshot where
  instances : List (String × SavedInstance)
  nodes : List String
  inputs : List (String × InputBoundary)
  outputs : List (String × SavedOutput)

/-- The wire that an output without one gets. -/
def defaultWire (id port : String) : String := s!"{id}.{port}"

/-- `outputWire`. -/
def outputWire : Item → ℕ → JsValue
  | .input _ _ wire _, _ => .text (trim wire)
  | .module id definition _ outputWires, slot =>
    match definition.outputs[slot]? with
    | none => .text ""
    | some (port, _) =>
      if port = "" then .text ""
      else if (readProperty outputWires port).truthy then readProperty outputWires port
      else .text (defaultWire id port)
  | .output _ _, _ => .text ""

/-- `inputWire`. -/
def inputWire (nodes : List Node) (node : Node) (slot : ℕ) : JsValue :=
  match (node.links[slot]?).join with
  | none => .text ""
  | some link => match nodes[link.node]? with
    | none => .text ""
    | some source => outputWire source.item link.slot

/-- `graphInputBoundary`. -/
def graphInputBoundary (named : Bool) (dataKey wire : String) (source : Option String) : InputBoundary where
  dataKey := trim dataKey
  wire := trim wire
  source := if named then source.bind fun s => if s = "" then none else some (trim s) else none

/-- The bound inputs of a module node. -/
def savedInputs (nodes : List Node) (node : Node) (definition : Definition) : List (String × JsValue) :=
  definition.inputs.zipIdx.foldl (fun inputs port =>
    let wire := inputWire nodes node port.2
    if wire.truthy then writeProperty inputs port.1.1 wire else inputs) []

/-- The outputs of a module node. The wires of the previous instance are those the node was
loaded with, so they give no other name than `outputWire`. -/
def savedOutputs (node : Node) (definition : Definition) : List (String × JsValue) :=
  definition.outputs.zipIdx.foldl (fun outputs port =>
    writeProperty outputs port.1.1 (outputWire node.item port.2)) []

/-- One node of `snapshot`. -/
def snapshotNode (named : Bool) (nodes : List Node) (saved : Snapshot) (node : Node) : Snapshot :=
  match node.item with
  | .input id dataKey wire source =>
    { saved with inputs := writeProperty saved.inputs id (graphInputBoundary named dataKey wire source) }
  | .output id dataKey =>
    { saved with outputs := writeProperty saved.outputs id ⟨trim dataKey, inputWire nodes node 0⟩ }
  | .module id definition config _ =>
    { saved with
      instances := writeProperty saved.instances id
        ⟨id, definition.kind, definition.moduleId, definition.version, config,
          savedInputs nodes node definition, savedOutputs node definition⟩
      nodes := saved.nodes ++ [id] }

/-- `snapshot`. -/
def snapshot (named : Bool) (nodes : List Node) : Snapshot :=
  nodes.foldl (snapshotNode named nodes) ⟨[], [], [], []⟩

end Saving

section Acceptance

/-- A boundary or a module output writes the wire. -/
def Produced (graph : ModuleGraph) (wire : String) : Prop :=
  (∃ e ∈ graph.document.inputs, e.2.wire = wire) ∨
    ∃ id inst port, graph.instances.lookup id = some inst ∧ inst.outputs.lookup port = some wire

/-- What `compile_module_graph` checks of the identities, ports and wires of a graph whose
definitions are in the palette. The checks of configurations, schemas and cycles come on top. -/
structure Accepted (palette : List Definition) (graph : ModuleGraph) : Prop where
  ids : (graph.document.inputs.map Prod.fst ++ graph.document.outputs.map Prod.fst ++
    graph.document.nodes).Nodup
  inputs : ∀ e ∈ graph.document.inputs, (∃ path : DataPath, e.2.dataKey = joinPath path.parts) ∧
    stripText e.2.wire.toList ≠ [] ∧ e.2.source ≠ some ""
  outputs : ∀ e ∈ graph.document.outputs, (∃ path : DataPath, e.2.dataKey = joinPath path.parts) ∧
    stripText e.2.wire.toList ≠ []
  instances : ∀ id, (graph.instances.lookup id).isSome ↔ id ∈ graph.document.nodes
  definitions : ∀ id inst, graph.instances.lookup id = some inst → inst.instanceId = id ∧
    ∃ definition, definitionForInstance palette inst = some definition ∧
      definition.kind = inst.kind ∧ definition.moduleId = inst.moduleId ∧
      definition.version = inst.version ∧
      (∀ direction ∈ [(definition.inputs, inst.inputs), (definition.outputs, inst.outputs)],
        (∀ port ∈ direction.1, port.1 ≠ "") ∧
        (∀ port wire, direction.2.lookup port = some wire →
          port ∈ direction.1.map Prod.fst ∧ wire ≠ "") ∧
        ∀ port ∈ direction.1, port.2 = true → (direction.2.lookup port.1).isSome)
  boundaryProducers : (graph.document.inputs.map fun e => e.2.wire).Nodup
  producers : ∀ id inst port wire, graph.instances.lookup id = some inst →
    inst.outputs.lookup port = some wire →
    (∀ e ∈ graph.document.inputs, e.2.wire ≠ wire) ∧
      ∀ id' inst' port', graph.instances.lookup id' = some inst' →
        inst'.outputs.lookup port' = some wire → id' = id ∧ port' = port
  reads : ∀ id inst definition, graph.instances.lookup id = some inst →
    definitionForInstance palette inst = some definition → ∀ port wire,
    inst.inputs.lookup port = some wire →
      (∀ other, inst.outputs.lookup other ≠ some wire) ∧
        ((port, true) ∈ definition.inputs → Produced graph wire)
  results : ∀ e ∈ graph.document.outputs, Produced graph e.2.wire

end Acceptance

end TradeFramework.Editor
