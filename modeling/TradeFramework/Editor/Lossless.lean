import TradeFramework.Editor.ModuleGraph

/-!
# Loading and saving a module graph

Loading turns names into links and saving turns links into names again. The document comes
back as it was exactly where every name that is read leads to the producer that is bound to
it, and the wire given to an unbound output is not in use.
-/

namespace TradeFramework.Editor

section Properties

variable {α : Type}

/-- Assigns the properties one after the other. -/
def writeAll (object entries : List (String × α)) : List (String × α) :=
  entries.foldl (fun object e => writeProperty object e.1 e.2) object

lemma lookup_writeProperty (object : List (String × α)) (name key : String) (value : α) :
    (writeProperty object name value).lookup key =
      if key = name ∧ name ≠ "__proto__" then some value else object.lookup key := by
  unfold writeProperty
  by_cases hproto : name = "__proto__"
  · simp [hproto]
  · rw [if_neg hproto, Dict.lookup_set]
    simp [hproto]

/-- Distinct properties are all there, but for `__proto__`. -/
lemma lookup_writeAll {entries : List (String × α)} (h : (entries.map Prod.fst).Nodup)
    (object : List (String × α)) (key : String) :
    (writeAll object entries).lookup key =
      if key = "__proto__" then object.lookup key
      else (entries.lookup key).or (object.lookup key) := by
  induction entries generalizing object with
  | nil => simp [writeAll]
  | cons e entries ih =>
    rcases e with ⟨name, value⟩
    rw [List.map_cons, List.nodup_cons] at h
    have hrest := ih h.2 (writeProperty object name value)
    unfold writeAll at hrest ⊢
    rw [List.foldl_cons, hrest, lookup_writeProperty, Dict.lookup_cons]
    by_cases hname : key = name
    · subst hname
      have hnone : entries.lookup key = none := by
        rw [Dict.lookup_eq_none_iff]
        exact fun v hv => h.1 (List.mem_map.mpr ⟨_, hv, rfl⟩)
      by_cases hproto : key = "__proto__"
      · simp [hproto]
      · simp [hproto, hnone]
    · simp [hname]

/-- Assigns a value that is there. -/
def writePresent (object : List (String × α)) (name : String) : Option α → List (String × α)
  | some value => writeProperty object name value
  | none => object

/-- Assigning values that depend on the names only. -/
lemma lookup_foldl_write (f : String → Option α) (names : List String) (object : List (String × α))
    (key : String) :
    (names.foldl (fun object name => writePresent object name (f name)) object).lookup key =
      if key ∈ names ∧ key ≠ "__proto__" then (f key).or (object.lookup key) else object.lookup key := by
  induction names generalizing object with
  | nil => simp
  | cons name names ih =>
    rw [List.foldl_cons, ih]
    cases hf : f name with
    | none =>
      by_cases hname : key = name
      · subst hname
        simp [writePresent, hf]
      · simp [writePresent, hname]
    | some value =>
      rw [writePresent, lookup_writeProperty]
      by_cases hname : key = name
      · subst hname
        by_cases hproto : key = "__proto__"
        · simp [hproto]
        · simp [hf, hproto]
      · simp [hname]

/-- The last entry of a key is the one that is kept. -/
lemma lookup_ofEntries (entries : List (String × α)) (key : String) :
    (Dict.ofEntries entries).lookup key = (entries.reverse.find? fun e => e.1 = key).map Prod.snd := by
  have hfold : ∀ (object : List (String × α)), (entries.foldl (fun d e => Dict.set d e.1 e.2) object).lookup key =
      ((entries.reverse.find? fun e => e.1 = key).map Prod.snd).or (object.lookup key) := by
    induction entries with
    | nil => exact fun object => rfl
    | cons e entries ih =>
      intro object
      rw [List.foldl_cons, ih, List.reverse_cons, List.find?_append, Dict.lookup_set]
      cases entries.reverse.find? fun e => e.1 = key with
      | some found => rfl
      | none =>
        by_cases hkey : key = e.1
        · simp [hkey]
        · simp [hkey, Ne.symm hkey]
  exact (hfold []).trans (by simp)

end Properties

section Links

variable (native : String → String)

/-- The wire that comes back for a wire that is read. -/
def linkedWire (items : List Item) (wire : String) : JsValue :=
  match connectWire (wireProducers native items) wire with
  | none => .text ""
  | some link => match items[link.node]? with
    | none => .text ""
    | some item => outputWire item link.slot

/-- The wire that comes back for an output port. -/
def portWire (id : String) (outputWires : List (String × String)) (port : String) : JsValue :=
  if port = "" then .text ""
  else if (readProperty outputWires port).truthy then readProperty outputWires port
  else .text (defaultWire id port)

variable {native} {palette : List Definition} {named : Bool} {graph : ModuleGraph} {item : Item}

/-- A link of a loaded node comes back as the wire of its producer. -/
lemma inputWire_rebuild {slot : ℕ} {wire : String}
    (h : (connectItem native graph (wireProducers native (addItems palette named graph)) item)[slot]? =
      some (connectWire (wireProducers native (addItems palette named graph)) wire)) :
    inputWire (rebuild native palette named graph)
      ⟨item, connectItem native graph (wireProducers native (addItems palette named graph)) item⟩ slot =
      linkedWire native (addItems palette named graph) wire := by
  unfold inputWire linkedWire
  rw [h, Option.join_some]
  cases connectWire (wireProducers native (addItems palette named graph)) wire with
  | none => rfl
  | some link =>
    have hnode : (rebuild native palette named graph)[link.node]? =
        ((addItems palette named graph)[link.node]?).map fun item => ⟨item, connectItem native graph
          (wireProducers native (addItems palette named graph)) item⟩ := by
      rw [rebuild, List.getElem?_map]
    dsimp only
    rw [hnode]
    cases (addItems palette named graph)[link.node]? <;> rfl

variable {id : String} {definition : Definition} {config : Json} {outputWires : List (String × String)}
  {inst : Instance}

/-- The inputs of a loaded module node: a port is bound where its wire leads to a link. -/
lemma lookup_savedInputs (hinst : graph.instances.lookup id = some inst) (port : String) :
    (savedInputs (rebuild native palette named graph)
      ⟨.module id definition config outputWires, connectItem native graph
        (wireProducers native (addItems palette named graph))
        (.module id definition config outputWires)⟩ definition).lookup port =
      if port ∈ definition.inputs.map Prod.fst ∧ port ≠ "__proto__" then
        some (linkedWire native (addItems palette named graph)
          ((readProperty inst.inputs port).orEmpty native)) |>.filter JsValue.truthy
      else none := by
  have hslot : ∀ e ∈ definition.inputs.zipIdx, inputWire (rebuild native palette named graph)
      ⟨.module id definition config outputWires, connectItem native graph
        (wireProducers native (addItems palette named graph))
        (.module id definition config outputWires)⟩ e.2 =
      linkedWire native (addItems palette named graph)
        ((readProperty inst.inputs e.1.1).orEmpty native) := by
    intro e he
    apply inputWire_rebuild
    simp only [connectItem, hinst, Option.map_some, Option.getD_some, List.getElem?_map,
      List.mem_zipIdx_iff_getElem?.mp he]
  have hfold : savedInputs (rebuild native palette named graph)
      ⟨.module id definition config outputWires, connectItem native graph
        (wireProducers native (addItems palette named graph))
        (.module id definition config outputWires)⟩ definition =
      (definition.inputs.map Prod.fst).foldl (fun object name => writePresent object name
        ((some (linkedWire native (addItems palette named graph)
          ((readProperty inst.inputs name).orEmpty native))).filter JsValue.truthy)) [] := by
    unfold savedInputs
    rw [List.foldl_map, ← List.zipIdx_map_fst 0 definition.inputs, List.foldl_map]
    rw [List.zipIdx_map_fst]
    refine List.foldl_ext _ _ _ fun object e he => ?_
    rw [hslot e he]
    cases htruthy : (linkedWire native (addItems palette named graph)
      ((readProperty inst.inputs e.1.1).orEmpty native)).truthy <;>
      simp [Option.filter, htruthy, writePresent]
  rw [hfold, lookup_foldl_write fun name => (some (linkedWire native (addItems palette named graph)
    ((readProperty inst.inputs name).orEmpty native))).filter JsValue.truthy]
  simp

/-- The outputs of a loaded module node. -/
lemma lookup_savedOutputs {links : List (Option Slot)} (port : String) :
    (savedOutputs ⟨.module id definition config outputWires, links⟩ definition).lookup port =
      if port ∈ definition.outputs.map Prod.fst ∧ port ≠ "__proto__" then
        some (portWire id outputWires port)
      else none := by
  have hslot : ∀ e ∈ definition.outputs.zipIdx,
      outputWire (.module id definition config outputWires) e.2 = portWire id outputWires e.1.1 := by
    intro e he
    simp only [outputWire, List.mem_zipIdx_iff_getElem?.mp he]
    rfl
  have hfold : savedOutputs ⟨.module id definition config outputWires, links⟩ definition =
      (definition.outputs.map Prod.fst).foldl (fun object name =>
        writePresent object name (some (portWire id outputWires name))) [] := by
    unfold savedOutputs
    rw [List.foldl_map, ← List.zipIdx_map_fst 0 definition.outputs, List.foldl_map]
    rw [List.zipIdx_map_fst]
    refine List.foldl_ext _ _ _ fun object e he => ?_
    rw [hslot e he]
    rfl
  rw [hfold, lookup_foldl_write fun name => some (portWire id outputWires name)]
  simp

end Links

section Snapshots

/-- What `snapshot` records of an input boundary. -/
def inputEntry (named : Bool) (node : Node) : Option (String × InputBoundary) :=
  match node.item with
  | .input id dataKey wire source => some (id, graphInputBoundary named dataKey wire source)
  | _ => none

/-- What `snapshot` records of an output boundary. -/
def outputEntry (nodes : List Node) (node : Node) : Option (String × SavedOutput) :=
  match node.item with
  | .output id dataKey => some (id, ⟨trim dataKey, inputWire nodes node 0⟩)
  | _ => none

/-- What `snapshot` records of a module. -/
def instanceEntry (nodes : List Node) (node : Node) : Option (String × SavedInstance) :=
  match node.item with
  | .module id definition config _ => some (id,
      ⟨id, definition.kind, definition.moduleId, definition.version, config,
        savedInputs nodes node definition, savedOutputs node definition⟩)
  | _ => none

lemma snapshot_eq (named : Bool) (nodes : List Node) : snapshot named nodes =
    ⟨writeAll [] (nodes.filterMap (instanceEntry nodes)),
      (nodes.filterMap (instanceEntry nodes)).map Prod.fst,
      writeAll [] (nodes.filterMap (inputEntry named)),
      writeAll [] (nodes.filterMap (outputEntry nodes))⟩ := by
  have hfold : ∀ (rest : List Node) (saved : Snapshot),
      rest.foldl (snapshotNode named nodes) saved =
        ⟨writeAll saved.instances (rest.filterMap (instanceEntry nodes)),
          saved.nodes ++ (rest.filterMap (instanceEntry nodes)).map Prod.fst,
          writeAll saved.inputs (rest.filterMap (inputEntry named)),
          writeAll saved.outputs (rest.filterMap (outputEntry nodes))⟩ := by
    intro rest
    induction rest with
    | nil => simp [writeAll]
    | cons node rest ih =>
      intro saved
      rw [List.foldl_cons, ih]
      rcases node with ⟨_ | _ | _, links⟩ <;>
        simp [snapshotNode, instanceEntry, inputEntry, outputEntry, writeAll, List.filterMap_cons]
  exact (hfold nodes _).trans (by simp)

/-- Entries made of their own keys. -/
lemma lookup_filterMap_self {β : Type} {F : String → Option (String × β)}
    (hkey : ∀ k e, F k = some e → e.1 = k) (ks : List String) (k : String) :
    (ks.filterMap F).lookup k = if k ∈ ks then (F k).map Prod.snd else none := by
  induction ks with
  | nil => simp
  | cons a ks ih =>
    cases ha : F a with
    | none =>
      rw [List.filterMap_cons_none ha, ih]
      by_cases hka : k = a
      · subst hka
        simp [ha]
      · simp [hka]
    | some e =>
      have he := hkey a e ha
      rcases e with ⟨key, value⟩
      dsimp only at he
      subst he
      rw [List.filterMap_cons_some ha, Dict.lookup_cons, ih]
      by_cases hka : k = key
      · subst hka
        simp [ha]
      · simp [hka]

lemma keys_filterMap_self {β : Type} {F : String → Option (String × β)}
    (hkey : ∀ k e, F k = some e → e.1 = k) {ks : List String} (hsome : ∀ k ∈ ks, (F k).isSome) :
    (ks.filterMap F).map Prod.fst = ks := by
  induction ks with
  | nil => rfl
  | cons a ks ih =>
    obtain ⟨e, he⟩ := Option.isSome_iff_exists.mp (hsome a (by simp))
    rw [List.filterMap_cons_some he, List.map_cons, hkey a e he, ih fun k hk => hsome k (by simp [hk])]

variable {native : String → String} {palette : List Definition} {named : Bool} {graph : ModuleGraph}

/-- A node of a module comes from its instance and its definition. -/
lemma addModule_eq_some {id : String} {item : Item} (h : addModule palette graph id = some item) :
    ∃ inst definition, graph.instances.lookup id = some inst ∧
      definitionForInstance palette inst = some definition ∧
      item = .module inst.instanceId definition inst.config inst.outputs := by
  unfold addModule at h
  cases hinst : graph.instances.lookup id with
  | none => simp [hinst] at h
  | some inst =>
    cases hdefinition : definitionForInstance palette inst with
    | none => simp [hinst, hdefinition] at h
    | some definition =>
      refine ⟨inst, definition, rfl, hdefinition, ?_⟩
      simpa [hinst, hdefinition] using h.symm

/-- The nodes that `rebuild` makes. -/
def loaded (native : String → String) (palette : List Definition) (named : Bool) (graph : ModuleGraph)
    (item : Item) : Node :=
  ⟨item, connectItem native graph (wireProducers native (addItems palette named graph)) item⟩

lemma filterMap_rebuild {β : Type} (F : Node → Option β) :
    (rebuild native palette named graph).filterMap F =
      graph.document.inputs.filterMap (fun e => F (loaded native palette named graph (addInput named e.1 e.2))) ++
        graph.document.nodes.filterMap (fun id =>
          (addModule palette graph id).bind fun item => F (loaded native palette named graph item)) ++
        graph.document.outputs.filterMap fun e =>
          F (loaded native palette named graph (addOutput e.1 e.2)) := by
  unfold rebuild
  simp only [List.filterMap_map]
  conv_lhs => rw [addItems]
  simp only [List.filterMap_append, List.filterMap_map, List.filterMap_filterMap]
  rfl

end Snapshots

section Trimming

lemma isTrimmed_eq_false {c : Char} (h : c = '.' ∨ isSegmentChar c = true) : isTrimmed c = false := by
  have hspace := isSpace_eq_false h
  have hsmall : c.toNat ≤ 0x7a := by
    rcases h with rfl | h
    · decide
    · simp only [isSegmentChar, Bool.or_eq_true, Bool.and_eq_true, decide_eq_true_eq, beq_iff_eq,
        Char.le_def, UInt32.le_iff_toNat_le] at h
      have hcode : c.toNat = c.val.toNat := rfl
      rw [hcode]
      rcases h with ((((⟨-, h⟩ | ⟨-, h⟩) | ⟨-, h⟩) | rfl) | rfl)
      · exact h.trans (by decide)
      · exact h
      · exact h.trans (by decide)
      · decide
      · decide
  simp only [isSpace, isTrimmed, List.contains_cons, List.contains_nil, Bool.or_false,
    Bool.or_eq_false_iff, Bool.and_eq_false_iff, decide_eq_false_iff_not, beq_eq_false_iff_ne]
    at hspace ⊢
  omega

/-- A DataKey has no white space to lose. -/
lemma trim_joinPath (path : DataPath) : trim (joinPath path.parts) = joinPath path.parts := by
  have hnone : ∀ c ∈ (joinPath path.parts).toList, isTrimmed c = false := by
    intro c hc
    rw [toList_joinPath] at hc
    refine isTrimmed_eq_false ((mem_intercalate hc).imp_right ?_)
    rintro ⟨part, hpart, hcpart⟩
    obtain ⟨segment, hmem, rfl⟩ := List.mem_map.mp hpart
    exact (isPathSegment_iff.mp (path.valid segment hmem)).2 c hcpart
  have hdrop : ∀ text : List Char, (∀ c ∈ text, isTrimmed c = false) → text.dropWhile isTrimmed = text := by
    intro text h
    cases text with
    | nil => rfl
    | cons c rest => rw [List.dropWhile_cons_of_neg (by simp [h c])]
  unfold trim
  rw [hdrop _ hnone, hdrop _ fun c hc => hnone c (List.mem_reverse.mp hc), List.reverse_reverse,
    String.ofList_toList]

end Trimming

section Returned

variable {native : String → String} {palette : List Definition} {named : Bool} {graph : ModuleGraph}

/-- What comes back for an input boundary. -/
def returnedInput (named : Bool) (b : InputBoundary) : InputBoundary where
  dataKey := b.dataKey
  wire := trim b.wire
  source := if named then b.source.map trim else none

lemma inputEntries_rebuild (h : Accepted palette graph) :
    (rebuild native palette named graph).filterMap (inputEntry named) =
      graph.document.inputs.map fun e => (e.1, returnedInput named e.2) := by
  rw [filterMap_rebuild]
  have hmodules : (graph.document.nodes.filterMap fun id => (addModule palette graph id).bind
      fun item => inputEntry named (loaded native palette named graph item)) = [] := by
    rw [List.filterMap_eq_nil_iff]
    intro id _
    cases hitem : addModule palette graph id with
    | none => rfl
    | some item =>
      obtain ⟨inst, definition, -, -, rfl⟩ := addModule_eq_some hitem
      rfl
  have houtputs : (graph.document.outputs.filterMap fun e =>
      inputEntry named (loaded native palette named graph (addOutput e.1 e.2))) = [] := by
    rw [List.filterMap_eq_nil_iff]
    exact fun e _ => rfl
  rw [hmodules, houtputs, List.append_nil, List.append_nil, ← List.filterMap_eq_map]
  apply List.filterMap_congr
  rintro ⟨id, dataKey, wire, source⟩ he
  obtain ⟨⟨path, hpath⟩, hwire, hsource⟩ := h.inputs _ he
  dsimp only at hpath hwire hsource
  have hne : wire ≠ "" := by
    rintro rfl
    exact hwire rfl
  subst hpath
  cases named with
  | false => simp [inputEntry, loaded, addInput, graphInputBoundary, returnedInput, trim_joinPath, hne]
  | true =>
    cases source with
    | none => simp [inputEntry, loaded, addInput, graphInputBoundary, returnedInput, trim_joinPath, hne]
    | some source =>
      have hnonempty : source ≠ "" := fun heq => hsource (by rw [heq])
      simp [inputEntry, loaded, addInput, graphInputBoundary, returnedInput, trim_joinPath, hne,
        hnonempty]

lemma nodup_inputs (h : Accepted palette graph) : (graph.document.inputs.map Prod.fst).Nodup :=
  (List.nodup_append.mp (List.nodup_append.mp h.ids).1).1

lemma nodup_outputs (h : Accepted palette graph) : (graph.document.outputs.map Prod.fst).Nodup :=
  (List.nodup_append.mp (List.nodup_append.mp h.ids).1).2.1

lemma nodup_nodes (h : Accepted palette graph) : graph.document.nodes.Nodup :=
  (List.nodup_append.mp h.ids).2.1

/-- The input boundaries that come back. -/
lemma lookup_inputs (h : Accepted palette graph) (id : String) :
    (snapshot named (rebuild native palette named graph)).inputs.lookup id =
      if id = "__proto__" then none
      else (graph.document.inputs.lookup id).map (returnedInput named) := by
  rw [snapshot_eq]
  dsimp only
  rw [inputEntries_rebuild h, lookup_writeAll]
  · simp only [List.lookup_nil, Option.or_none]
    rw [← Dict.lookup_mapValues fun _ b => returnedInput named b]
    rfl
  · rw [List.map_map]
    exact nodup_inputs h

lemma lookup_of_mem {α : Type} {d : List (String × α)} (hd : (d.map Prod.fst).Nodup) {e : String × α}
    (he : e ∈ d) : d.lookup e.1 = some e.2 := by
  have hitems := Dict.items_of_nodup hd
  rw [← hitems] at he
  exact Dict.mem_items.mp he

/-- What comes back for an output boundary. -/
def returnedOutput (native : String → String) (items : List Item) (b : OutputBoundary) : SavedOutput where
  dataKey := b.dataKey
  wire := linkedWire native items b.wire

/-- The output boundaries that come back. -/
lemma lookup_outputs (h : Accepted palette graph) (id : String) :
    (snapshot named (rebuild native palette named graph)).outputs.lookup id =
      if id = "__proto__" then none
      else (graph.document.outputs.lookup id).map
        (returnedOutput native (addItems palette named graph)) := by
  have hentries : (rebuild native palette named graph).filterMap
      (outputEntry (rebuild native palette named graph)) = graph.document.outputs.map fun e =>
        (e.1, returnedOutput native (addItems palette named graph) e.2) := by
    rw [filterMap_rebuild]
    have hinputs : (graph.document.inputs.filterMap fun e => outputEntry (rebuild native palette named graph)
        (loaded native palette named graph (addInput named e.1 e.2))) = [] := by
      rw [List.filterMap_eq_nil_iff]
      exact fun e _ => rfl
    have hmodules : (graph.document.nodes.filterMap fun id => (addModule palette graph id).bind fun item =>
        outputEntry (rebuild native palette named graph) (loaded native palette named graph item)) = [] := by
      rw [List.filterMap_eq_nil_iff]
      intro id _
      cases hitem : addModule palette graph id with
      | none => rfl
      | some item =>
        obtain ⟨inst, definition, -, -, rfl⟩ := addModule_eq_some hitem
        rfl
    rw [hinputs, hmodules, List.nil_append, List.nil_append, ← List.filterMap_eq_map]
    apply List.filterMap_congr
    intro e he
    obtain ⟨⟨path, hpath⟩, -⟩ := h.outputs e he
    have hlink := @inputWire_rebuild native palette named graph (addOutput e.1 e.2) 0 e.2.wire (by
      simp [addOutput, connectItem, lookup_of_mem (nodup_outputs h) he])
    have hkey : trim e.2.dataKey = e.2.dataKey := by rw [hpath, trim_joinPath]
    unfold outputEntry loaded
    dsimp only [addOutput] at hlink ⊢
    rw [hlink, hkey]
    rfl
  rw [snapshot_eq]
  dsimp only
  rw [hentries, lookup_writeAll]
  · simp only [List.lookup_nil, Option.or_none]
    rw [← Dict.lookup_mapValues fun _ b => returnedOutput native (addItems palette named graph) b]
    rfl
  · rw [List.map_map]
    exact nodup_outputs h

/-- What comes back for a module. -/
def returnedInstance (native : String → String) (palette : List Definition) (named : Bool)
    (graph : ModuleGraph) (id : String) : Option SavedInstance := do
  let inst ← graph.instances.lookup id
  let definition ← definitionForInstance palette inst
  let node := loaded native palette named graph (.module id definition inst.config inst.outputs)
  pure ⟨id, definition.kind, definition.moduleId, definition.version, inst.config,
    savedInputs (rebuild native palette named graph) node definition, savedOutputs node definition⟩

lemma returnedInstance_eq {id : String} {inst : Instance} {definition : Definition}
    (hinst : graph.instances.lookup id = some inst)
    (hdefinition : definitionForInstance palette inst = some definition) :
    returnedInstance native palette named graph id = some
      ⟨id, definition.kind, definition.moduleId, definition.version, inst.config,
        savedInputs (rebuild native palette named graph)
          (loaded native palette named graph (.module id definition inst.config inst.outputs)) definition,
        savedOutputs (loaded native palette named graph
          (.module id definition inst.config inst.outputs)) definition⟩ := by
  simp [returnedInstance, hinst, hdefinition]

lemma instanceEntries_rebuild (h : Accepted palette graph) :
    (rebuild native palette named graph).filterMap (instanceEntry (rebuild native palette named graph)) =
      graph.document.nodes.filterMap fun id =>
        (returnedInstance native palette named graph id).map (Prod.mk id) := by
  rw [filterMap_rebuild]
  have hinputs : (graph.document.inputs.filterMap fun e => instanceEntry (rebuild native palette named graph)
      (loaded native palette named graph (addInput named e.1 e.2))) = [] := by
    rw [List.filterMap_eq_nil_iff]
    exact fun e _ => rfl
  have houtputs : (graph.document.outputs.filterMap fun e => instanceEntry (rebuild native palette named graph)
      (loaded native palette named graph (addOutput e.1 e.2))) = [] := by
    rw [List.filterMap_eq_nil_iff]
    exact fun e _ => rfl
  rw [hinputs, houtputs, List.nil_append, List.append_nil]
  apply List.filterMap_congr
  intro id hid
  obtain ⟨inst, hinst⟩ := Option.isSome_iff_exists.mp ((h.instances id).mpr hid)
  obtain ⟨hself, definition, hdefinition, -⟩ := h.definitions id inst hinst
  rw [returnedInstance_eq hinst hdefinition]
  simp [addModule, hinst, hdefinition, hself, loaded, instanceEntry]

lemma nodes_snapshot (h : Accepted palette graph) :
    (snapshot named (rebuild native palette named graph)).nodes = graph.document.nodes := by
  rw [snapshot_eq]
  dsimp only
  rw [instanceEntries_rebuild h]
  refine keys_filterMap_self (fun k e he => ?_) fun id hid => ?_
  · obtain ⟨_, -, rfl⟩ := Option.map_eq_some_iff.mp he
    rfl
  · obtain ⟨inst, hinst⟩ := Option.isSome_iff_exists.mp ((h.instances id).mpr hid)
    obtain ⟨-, definition, hdefinition, -⟩ := h.definitions id inst hinst
    rw [returnedInstance_eq hinst hdefinition]
    rfl

/-- The instances that come back. -/
lemma lookup_instances (h : Accepted palette graph) (id : String) :
    (snapshot named (rebuild native palette named graph)).instances.lookup id =
      if id = "__proto__" then none else returnedInstance native palette named graph id := by
  have hkey : ∀ k e, (returnedInstance native palette named graph k).map (Prod.mk k) = some e → e.1 = k := by
    intro k e he
    obtain ⟨_, -, rfl⟩ := Option.map_eq_some_iff.mp he
    rfl
  have hnodes := @nodes_snapshot native palette named graph h
  rw [snapshot_eq] at hnodes ⊢
  dsimp only at hnodes ⊢
  rw [lookup_writeAll (hnodes ▸ nodup_nodes h), instanceEntries_rebuild h, lookup_filterMap_self hkey]
  by_cases hid : id ∈ graph.document.nodes
  · simp [hid]
  · have hnone : graph.instances.lookup id = none := by
      rw [← Option.not_isSome_iff_eq_none, h.instances id]
      exact hid
    simp [hid, returnedInstance, hnone]

end Returned

section RoundTrip

/-- The instance comes back with its identity, its configuration and its wires. -/
structure SameInstance (inst : Instance) (saved : SavedInstance) : Prop where
  instanceId : saved.instanceId = inst.instanceId
  kind : saved.kind = inst.kind
  moduleId : saved.moduleId = inst.moduleId
  version : saved.version = inst.version
  config : saved.config = inst.config
  inputs : ∀ port, saved.inputs.lookup port = (inst.inputs.lookup port).map .text
  outputs : ∀ port wire, inst.outputs.lookup port = some wire →
    saved.outputs.lookup port = some (.text wire)

/-- The wire of an output port in a snapshot. -/
def savedWire (saved : Snapshot) (id port : String) : Option JsValue :=
  (saved.instances.lookup id).bind fun inst => inst.outputs.lookup port

/-- A module of the graph with its definition. -/
structure HasModule (palette : List Definition) (graph : ModuleGraph) (id : String) (inst : Instance)
    (definition : Definition) : Prop where
  found : graph.instances.lookup id = some inst
  defined : definitionForInstance palette inst = some definition

/-- The snapshot is the graph, and an output without a wire has got one of its own. -/
structure Lossless (palette : List Definition) (graph : ModuleGraph) (saved : Snapshot) : Prop where
  nodes : saved.nodes = graph.document.nodes
  inputs : ∀ id, saved.inputs.lookup id = graph.document.inputs.lookup id
  outputs : ∀ id, saved.outputs.lookup id =
    (graph.document.outputs.lookup id).map fun b => ⟨b.dataKey, .text b.wire⟩
  instances : ∀ id, Option.Rel SameInstance (graph.instances.lookup id) (saved.instances.lookup id)
  declared : ∀ id port wire, savedWire saved id port = some wire → ∃ inst definition,
    HasModule palette graph id inst definition ∧ port ∈ definition.outputs.map Prod.fst
  fresh : ∀ id inst definition, HasModule palette graph id inst definition →
    ∀ port ∈ definition.outputs.map Prod.fst, inst.outputs.lookup port = none →
      ∃ wire, savedWire saved id port = some (.text wire) ∧
        (∀ other b, saved.inputs.lookup other = some b → b.wire ≠ wire) ∧
        ∀ id' port', savedWire saved id' port' = some (.text wire) → id' = id ∧ port' = port

/-- The wires that the module outputs are bound to, in the order in which `rebuild` meets them. -/
def boundOutputs (palette : List Definition) (graph : ModuleGraph) (id : String) : List String :=
  match graph.instances.lookup id with
  | none => []
  | some inst => match definitionForInstance palette inst with
    | none => []
    | some definition => definition.outputs.filterMap fun port => inst.outputs.lookup port.1

/-- The wires of the producers, in the order in which `rebuild` meets them. -/
def producers (palette : List Definition) (graph : ModuleGraph) : List String :=
  graph.document.inputs.map (fun e => e.2.wire) ++ graph.document.nodes.flatMap (boundOutputs palette graph)

/-- The last producer of a name, where white space around it does not count. -/
def lastProducer (palette : List Definition) (graph : ModuleGraph) (name : String) : Option String :=
  (producers palette graph).reverse.find? fun wire => trim wire ≠ "" ∧ trim wire = trim name

/-- Every wire that is read is the last producer of its name, and the default wires are not in
use. The names that every JavaScript object knows are not used where the editor would meet them. -/
structure KeepsWires (native : String → String) (palette : List Definition) (named : Bool)
    (graph : ModuleGraph) : Prop where
  inputs : ∀ e ∈ graph.document.inputs, e.1 ≠ "__proto__" ∧ trim e.2.wire = e.2.wire ∧
    ∀ source, e.2.source = some source → named = true ∧ trim source = source
  outputs : ∀ e ∈ graph.document.outputs, e.1 ≠ "__proto__" ∧
    lastProducer palette graph e.2.wire = some e.2.wire
  nodes : ∀ id ∈ graph.document.nodes, id ≠ "__proto__"
  reads : ∀ id inst, graph.instances.lookup id = some inst → ∀ port wire,
    inst.inputs.lookup port = some wire → port ≠ "__proto__" ∧ lastProducer palette graph wire = some wire
  absent : ∀ id inst definition, HasModule palette graph id inst definition →
    ∀ port ∈ definition.inputs.map Prod.fst, inst.inputs.lookup port = none → port ∈ inheritedNames →
      port ≠ "__proto__" → lastProducer palette graph (native port) = none
  writes : ∀ id inst, graph.instances.lookup id = some inst → ∀ port wire,
    inst.outputs.lookup port = some wire → port ≠ "__proto__"
  defaults : ∀ id inst definition, HasModule palette graph id inst definition →
    ∀ port ∈ definition.outputs.map Prod.fst, inst.outputs.lookup port = none →
      port ∉ inheritedNames ∧ (∀ e ∈ graph.document.inputs, trim e.2.wire ≠ defaultWire id port) ∧
        ∀ id' inst' definition', HasModule palette graph id' inst' definition' →
          ∀ port' ∈ definition'.outputs.map Prod.fst,
            (inst'.outputs.lookup port').getD (defaultWire id' port') = defaultWire id port →
              id' = id ∧ port' = port

variable {native : String → String} {palette : List Definition} {named : Bool} {graph : ModuleGraph}
  {id : String} {inst : Instance} {definition : Definition} {port : String}

lemma portWire_bound (h : Accepted palette graph) (hmodule : HasModule palette graph id inst definition)
    {wire : String} (hwire : inst.outputs.lookup port = some wire) :
    portWire id inst.outputs port = .text wire := by
  obtain ⟨-, other, hother, -, -, -, hports⟩ := h.definitions id inst hmodule.found
  cases hmodule.defined.symm.trans hother
  obtain ⟨hnames, hbound, -⟩ := hports (definition.outputs, inst.outputs) (by simp)
  obtain ⟨hdeclared, hnonempty⟩ := hbound port wire hwire
  obtain ⟨e, he, rfl⟩ := List.mem_map.mp hdeclared
  unfold portWire readProperty
  rw [if_neg (hnames e he), hwire]
  simp [JsValue.truthy, hnonempty]

lemma portWire_unbound (h : Accepted palette graph) (hmodule : HasModule palette graph id inst definition)
    (hdeclared : port ∈ definition.outputs.map Prod.fst) (hnone : inst.outputs.lookup port = none) :
    portWire id inst.outputs port =
      if port ∈ inheritedNames then .inherited port else .text (defaultWire id port) := by
  obtain ⟨-, other, hother, -, -, -, hports⟩ := h.definitions id inst hmodule.found
  cases hmodule.defined.symm.trans hother
  obtain ⟨hnames, -, -⟩ := hports (definition.outputs, inst.outputs) (by simp)
  obtain ⟨e, he, rfl⟩ := List.mem_map.mp hdeclared
  unfold portWire readProperty
  rw [if_neg (hnames e he), hnone]
  by_cases hinherited : e.1 ∈ inheritedNames
  · simp [JsValue.truthy, hinherited]
  · simp [JsValue.truthy, hinherited]

/-- The output wires that come back. -/
lemma savedWire_eq (h : Accepted palette graph) (hmodule : HasModule palette graph id inst definition)
    (hid : id ≠ "__proto__") :
    savedWire (snapshot named (rebuild native palette named graph)) id port =
      if port ∈ definition.outputs.map Prod.fst ∧ port ≠ "__proto__" then
        some (portWire id inst.outputs port)
      else none := by
  rw [savedWire, lookup_instances h, if_neg hid, returnedInstance_eq hmodule.found hmodule.defined,
    Option.bind_some]
  exact lookup_savedOutputs port

lemma exists_module_of_savedWire (h : Accepted palette graph) {wire : JsValue}
    (hwire : savedWire (snapshot named (rebuild native palette named graph)) id port = some wire) :
    ∃ inst definition, HasModule palette graph id inst definition ∧ id ≠ "__proto__" ∧
      port ∈ definition.outputs.map Prod.fst ∧ port ≠ "__proto__" ∧
      wire = portWire id inst.outputs port := by
  have hid : id ≠ "__proto__" := by
    rintro rfl
    simp [savedWire, lookup_instances h] at hwire
  cases hinst : graph.instances.lookup id with
  | none => simp [savedWire, lookup_instances h, returnedInstance, hinst] at hwire
  | some inst =>
    obtain ⟨-, definition, hdefinition, -⟩ := h.definitions id inst hinst
    have hmodule : HasModule palette graph id inst definition := ⟨hinst, hdefinition⟩
    rw [savedWire_eq h hmodule hid] at hwire
    split_ifs at hwire with hport
    exact ⟨inst, definition, hmodule, hid, hport.1, hport.2, (Option.some.inj hwire).symm⟩

/-- The module of an instance that the compiler accepts. -/
lemma exists_module (h : Accepted palette graph) (hinst : graph.instances.lookup id = some inst) :
    ∃ definition, HasModule palette graph id inst definition ∧ inst.instanceId = id ∧
      definition.kind = inst.kind ∧ definition.moduleId = inst.moduleId ∧
      definition.version = inst.version ∧
      (∀ port wire, inst.inputs.lookup port = some wire →
        port ∈ definition.inputs.map Prod.fst ∧ wire ≠ "") ∧
      ∀ port wire, inst.outputs.lookup port = some wire → port ∈ definition.outputs.map Prod.fst := by
  obtain ⟨hself, definition, hdefinition, hkind, hmoduleId, hversion, hports⟩ := h.definitions id inst hinst
  obtain ⟨-, hinputs, -⟩ := hports (definition.inputs, inst.inputs) (by simp)
  obtain ⟨-, houtputs, -⟩ := hports (definition.outputs, inst.outputs) (by simp)
  exact ⟨definition, ⟨hinst, hdefinition⟩, hself, hkind, hmoduleId, hversion, hinputs,
    fun port wire hwire => (houtputs port wire hwire).1⟩

/-- The slot of a link names its wire. -/
def wireAt (items : List Item) (link : Slot) : JsValue :=
  match items[link.node]? with
  | none => .text ""
  | some item => outputWire item link.slot

/-- A producer with the name it is found under. -/
def spelled (wire : String) : Option (String × JsValue) :=
  if trim wire = "" then none else some (trim wire, .text wire)

/-- The producers of a node with the wires that come back for them. -/
def itemWires (native : String → String) (item : Item) : List (String × JsValue) :=
  (producedWires native 0 item).filterMap fun e =>
    if e.1 = "" then none else some (e.1, outputWire item e.2.slot)

lemma producedWires_eq (node : ℕ) (item : Item) : producedWires native node item =
    (producedWires native 0 item).map fun e => (e.1, ⟨node, e.2.slot⟩) := by
  cases item with
  | input => rfl
  | module => simp [producedWires]
  | output => rfl

lemma filterMap_named (items : List Item) (entries : List (String × Slot)) :
    entries.filterMap (fun e => if e.1 = "" then none else some (e.1, wireAt items e.2)) =
      (entries.filter fun e => e.1 ≠ "").map fun e => (e.1, wireAt items e.2) := by
  induction entries with
  | nil => rfl
  | cons e entries ih => by_cases hempty : e.1 = "" <;> simp [hempty, ih]

lemma filterMap_producedWires (items : List Item) :
    (items.zipIdx.flatMap fun e => producedWires native e.2 e.1).filterMap (fun e =>
      if e.1 = "" then none else some (e.1, wireAt items e.2)) = items.flatMap (itemWires native) := by
  conv_rhs => rw [← List.zipIdx_map_fst 0 items, List.flatMap_map]
  rw [List.filterMap_flatMap]
  apply List.flatMap_congr
  intro e he
  have hitem := List.mem_zipIdx_iff_getElem?.mp he
  rw [producedWires_eq, List.filterMap_map, itemWires]
  apply List.filterMap_congr
  intro wire _
  simp only [Function.comp_apply, wireAt, hitem]

lemma itemWires_addInput (h : Accepted palette graph) {e : String × InputBoundary}
    (he : e ∈ graph.document.inputs) (htrim : trim e.2.wire = e.2.wire) :
    itemWires native (addInput named e.1 e.2) = (spelled e.2.wire).toList := by
  obtain ⟨-, hwire, -⟩ := h.inputs e he
  have hne : e.2.wire ≠ "" := by
    intro heq
    rw [heq] at hwire
    exact hwire rfl
  simp [itemWires, producedWires, addInput, outputWire, spelled, hne, htrim]

lemma itemWires_module (h : Accepted palette graph) (hmodule : HasModule palette graph id inst definition)
    (hdefaults : ∀ port ∈ definition.outputs.map Prod.fst, inst.outputs.lookup port = none →
      port ∉ inheritedNames) :
    itemWires native (.module id definition inst.config inst.outputs) =
      (boundOutputs palette graph id).filterMap spelled := by
  have hbound : boundOutputs palette graph id =
      definition.outputs.filterMap fun port => inst.outputs.lookup port.1 := by
    simp only [boundOutputs, hmodule.found, hmodule.defined]
  rw [hbound, List.filterMap_filterMap]
  conv_rhs => rw [← List.zipIdx_map_fst 0 definition.outputs, List.filterMap_map]
  rw [itemWires, producedWires, List.filterMap_map]
  apply List.filterMap_congr
  intro e he
  have hport := List.mem_zipIdx_iff_getElem?.mp he
  have hdeclared : e.1.1 ∈ definition.outputs.map Prod.fst :=
    List.mem_map.mpr ⟨e.1, List.mem_of_getElem? hport, rfl⟩
  have hout : outputWire (.module id definition inst.config inst.outputs) e.2 =
      portWire id inst.outputs e.1.1 := by
    simp only [outputWire, hport]
    rfl
  dsimp only [Function.comp_apply]
  rw [hout]
  cases hwire : inst.outputs.lookup e.1.1 with
  | some wire =>
    rw [portWire_bound h hmodule hwire, readProperty, hwire]
    rfl
  | none =>
    have hread : readProperty inst.outputs e.1.1 = .undefined := by
      rw [readProperty, hwire]
      exact if_neg (hdefaults _ hdeclared hwire)
    rw [hread]
    rfl

/-- The producers of the loaded nodes are the producers of the graph. -/
lemma itemWires_addItems (h : Accepted palette graph)
    (hinputs : ∀ e ∈ graph.document.inputs, trim e.2.wire = e.2.wire)
    (hdefaults : ∀ id inst definition, HasModule palette graph id inst definition →
      ∀ port ∈ definition.outputs.map Prod.fst, inst.outputs.lookup port = none → port ∉ inheritedNames) :
    (addItems palette named graph).flatMap (itemWires native) =
      (producers palette graph).filterMap spelled := by
  have hboundary : (graph.document.inputs.map fun e => addInput named e.1 e.2).flatMap (itemWires native) =
      (graph.document.inputs.map fun e => e.2.wire).filterMap spelled := by
    rw [List.flatMap_map, List.filterMap_map, List.filterMap_eq_flatMap_toList]
    apply List.flatMap_congr
    exact fun e he => itemWires_addInput h he (hinputs e he)
  have hmodules : (graph.document.nodes.filterMap (addModule palette graph)).flatMap (itemWires native) =
      (graph.document.nodes.flatMap (boundOutputs palette graph)).filterMap spelled := by
    rw [List.filterMap_eq_flatMap_toList, List.flatMap_assoc, List.filterMap_flatMap]
    apply List.flatMap_congr
    intro id hid
    obtain ⟨inst, hinst⟩ := Option.isSome_iff_exists.mp ((h.instances id).mpr hid)
    obtain ⟨definition, hmodule, hself, -⟩ := exists_module h hinst
    rw [← @itemWires_module native _ _ _ _ _ h hmodule (hdefaults id inst definition hmodule)]
    simp [addModule, hinst, hmodule.defined, hself]
  have houtputs : (graph.document.outputs.map fun e => addOutput e.1 e.2).flatMap (itemWires native) = [] := by
    rw [List.flatMap_map, List.flatMap_eq_nil_iff]
    exact fun e _ => rfl
  rw [addItems, List.flatMap_append, List.flatMap_append, hboundary, hmodules, houtputs, List.append_nil,
    producers, List.filterMap_append]

/-- A name that is read comes back as the wire of its last producer. -/
lemma linkedWire_eq (h : Accepted palette graph)
    (hinputs : ∀ e ∈ graph.document.inputs, trim e.2.wire = e.2.wire)
    (hdefaults : ∀ id inst definition, HasModule palette graph id inst definition →
      ∀ port ∈ definition.outputs.map Prod.fst, inst.outputs.lookup port = none → port ∉ inheritedNames)
    (name : String) :
    linkedWire native (addItems palette named graph) name =
      .text ((lastProducer palette graph name).getD "") := by
  have hwires := (@filterMap_producedWires native (addItems palette named graph)).trans
    (itemWires_addItems h hinputs hdefaults)
  generalize addItems palette named graph = items at hwires ⊢
  have hlinked : linkedWire native items name = (((items.zipIdx.flatMap fun e =>
      producedWires native e.2 e.1).filterMap (fun e =>
        if e.1 = "" then none else some (e.1, wireAt items e.2))).reverse.find?
          fun e => e.1 = trim name).elim (.text "") Prod.snd := by
    unfold linkedWire connectWire wireProducers
    rw [lookup_ofEntries, filterMap_named, ← List.map_reverse, List.find?_map]
    have hkey : ((fun e : String × JsValue => decide (e.1 = trim name)) ∘
        fun e : String × Slot => (e.1, wireAt items e.2)) = fun e => decide (e.1 = trim name) := rfl
    rw [hkey]
    cases List.find? (fun e => decide (e.1 = trim name)) (List.filter (fun e => decide (e.1 ≠ ""))
      (items.zipIdx.flatMap fun e => producedWires native e.2 e.1)).reverse <;> rfl
  have hspelled : (fun wire => (spelled wire).any fun e => decide (e.1 = trim name)) =
      fun wire => decide (trim wire ≠ "" ∧ trim wire = trim name) := by
    funext wire
    unfold spelled
    by_cases hempty : trim wire = "" <;> simp [hempty]
  rw [hlinked, hwires, ← List.filterMap_reverse, List.find?_filterMap, hspelled, lastProducer]
  cases hfound : List.find? (fun wire => decide (trim wire ≠ "" ∧ trim wire = trim name))
      (producers palette graph).reverse with
  | none => rfl
  | some wire =>
    have hwire := List.find?_some hfound
    simp only [decide_eq_true_eq] at hwire
    simp [spelled, hwire.1]

lemma lastProducer_ne_empty {name wire : String} (h : lastProducer palette graph name = some wire) :
    wire ≠ "" := by
  have hwire := List.find?_some h
  rintro rfl
  have htrim : trim "" = "" := by decide
  simp [htrim] at hwire

lemma lastProducer_empty : lastProducer palette graph "" = none := by
  have htrim : trim "" = "" := by decide
  unfold lastProducer
  rw [List.find?_eq_none]
  intro wire _
  simp [htrim]

/-- The wire that comes back for an input port. -/
lemma lookup_returnedInputs (hmodule : HasModule palette graph id inst definition) (port : String) :
    (savedInputs (rebuild native palette named graph) (loaded native palette named graph
      (.module id definition inst.config inst.outputs)) definition).lookup port =
      if port ∈ definition.inputs.map Prod.fst ∧ port ≠ "__proto__" then
        (some (linkedWire native (addItems palette named graph)
          ((readProperty inst.inputs port).orEmpty native))).filter JsValue.truthy
      else none :=
  lookup_savedInputs hmodule.found port

section Necessity

variable (h : Accepted palette graph)
  (hsaved : Lossless palette graph (snapshot named (rebuild native palette named graph)))
include h hsaved

/-- Every module comes back. -/
lemma Lossless.sameInstance (hmodule : HasModule palette graph id inst definition) : id ≠ "__proto__" ∧
    SameInstance inst ⟨id, definition.kind, definition.moduleId, definition.version, inst.config,
      savedInputs (rebuild native palette named graph) (loaded native palette named graph
        (.module id definition inst.config inst.outputs)) definition,
      savedOutputs (loaded native palette named graph
        (.module id definition inst.config inst.outputs)) definition⟩ := by
  have hrel := hsaved.instances id
  rw [hmodule.found, lookup_instances h, returnedInstance_eq hmodule.found hmodule.defined] at hrel
  by_cases hid : id = "__proto__"
  · rw [if_pos hid] at hrel
    cases hrel
  · rw [if_neg hid] at hrel
    cases hrel with
    | some hsame => exact ⟨hid, hsame⟩

lemma Lossless.keepsInputs : ∀ e ∈ graph.document.inputs, e.1 ≠ "__proto__" ∧ trim e.2.wire = e.2.wire ∧
    ∀ source, e.2.source = some source → named = true ∧ trim source = source := by
  intro e he
  have hlookup := hsaved.inputs e.1
  rw [lookup_inputs h, lookup_of_mem (nodup_inputs h) he] at hlookup
  by_cases hid : e.1 = "__proto__"
  · rw [if_pos hid] at hlookup
    cases hlookup
  · rw [if_neg hid, Option.map_some, Option.some.injEq] at hlookup
    have hwire := congrArg InputBoundary.wire hlookup
    have hsource := congrArg InputBoundary.source hlookup
    dsimp only [returnedInput] at hwire hsource
    refine ⟨hid, hwire, fun source heq => ?_⟩
    rw [heq] at hsource
    cases named with
    | false => simp at hsource
    | true => exact ⟨rfl, by simpa using hsource⟩

/-- An unbound output gets its default wire. -/
lemma Lossless.keepsDefault (hmodule : HasModule palette graph id inst definition)
    (hdeclared : port ∈ definition.outputs.map Prod.fst) (hnone : inst.outputs.lookup port = none) :
    port ∉ inheritedNames ∧ savedWire (snapshot named (rebuild native palette named graph)) id port =
      some (.text (defaultWire id port)) := by
  obtain ⟨wire, hwire, -⟩ := hsaved.fresh id inst definition hmodule port hdeclared hnone
  rw [savedWire_eq h hmodule (hsaved.sameInstance h hmodule).1] at hwire ⊢
  by_cases hport : port ∈ definition.outputs.map Prod.fst ∧ port ≠ "__proto__"
  · rw [if_pos hport, portWire_unbound h hmodule hdeclared hnone] at hwire ⊢
    by_cases hinherited : port ∈ inheritedNames
    · rw [if_pos hinherited] at hwire
      cases hwire
    · exact ⟨hinherited, by rw [if_neg hinherited]⟩
  · rw [if_neg hport] at hwire
    cases hwire

/-- A bound output gets its own wire. -/
lemma Lossless.keepsOutput (hmodule : HasModule palette graph id inst definition) {wire : String}
    (hwire : inst.outputs.lookup port = some wire) :
    port ≠ "__proto__" ∧ savedWire (snapshot named (rebuild native palette named graph)) id port =
      some (.text wire) := by
  obtain ⟨hid, hsame⟩ := hsaved.sameInstance h hmodule
  have hport := hsame.outputs port wire hwire
  dsimp only [loaded] at hport
  rw [savedWire_eq h hmodule hid, ← hport, lookup_savedOutputs]
  refine ⟨?_, rfl⟩
  rintro rfl
  rw [lookup_savedOutputs, if_neg (by simp)] at hport
  cases hport

lemma Lossless.keepsWires : KeepsWires native palette named graph := by
  have hinputs := hsaved.keepsInputs h
  have hlinked := @linkedWire_eq native _ named _ h (fun e he => (hinputs e he).2.1)
    fun id inst definition hmodule port hdeclared hnone =>
      (hsaved.keepsDefault h hmodule hdeclared hnone).1
  have hlast : ∀ {name wire : String}, wire ≠ "" →
      linkedWire native (addItems palette named graph) name = .text wire →
        lastProducer palette graph name = some wire := by
    intro name wire hne hlink
    rw [hlinked] at hlink
    cases hfound : lastProducer palette graph name with
    | none => simp [hfound, Ne.symm hne] at hlink
    | some found => simpa [hfound] using hlink
  constructor
  case inputs => exact hinputs
  case outputs =>
    intro e he
    obtain ⟨-, hwire⟩ := h.outputs e he
    have hlookup := hsaved.outputs e.1
    rw [lookup_outputs h, lookup_of_mem (nodup_outputs h) he] at hlookup
    by_cases hid : e.1 = "__proto__"
    · rw [if_pos hid] at hlookup
      cases hlookup
    · rw [if_neg hid, Option.map_some, Option.map_some, Option.some.injEq] at hlookup
      refine ⟨hid, hlast (fun heq => hwire ?_) (congrArg SavedOutput.wire hlookup)⟩
      rw [heq]
      rfl
  case nodes =>
    intro id hid
    obtain ⟨inst, hinst⟩ := Option.isSome_iff_exists.mp ((h.instances id).mpr hid)
    obtain ⟨definition, hmodule, -⟩ := exists_module h hinst
    exact (hsaved.sameInstance h hmodule).1
  case reads =>
    intro id inst hinst port wire hwire
    obtain ⟨definition, hmodule, -, -, -, -, hbound, -⟩ := exists_module h hinst
    have hread : readProperty inst.inputs port = .text wire := by
      rw [readProperty, hwire]
    have hport := (hsaved.sameInstance h hmodule).2.inputs port
    dsimp only at hport
    rw [hwire, Option.map_some, lookup_returnedInputs hmodule, hread] at hport
    by_cases hcond : port ∈ definition.inputs.map Prod.fst ∧ port ≠ "__proto__"
    · rw [if_pos hcond, Option.filter_eq_some_iff] at hport
      exact ⟨hcond.2, hlast (hbound port wire hwire).2 (Option.some.inj hport.1)⟩
    · rw [if_neg hcond] at hport
      cases hport
  case absent =>
    intro id inst definition hmodule port hdeclared hnone hinherited hproto
    have hread : readProperty inst.inputs port = .inherited port := by
      rw [readProperty, hnone]
      exact if_pos hinherited
    have hport := (hsaved.sameInstance h hmodule).2.inputs port
    dsimp only at hport
    rw [hnone, Option.map_none, lookup_returnedInputs hmodule, hread, if_pos ⟨hdeclared, hproto⟩,
      JsValue.orEmpty, hlinked] at hport
    cases hfound : lastProducer palette graph (native port) with
    | none => rfl
    | some found =>
      simp [hfound, JsValue.truthy, Option.filter, lastProducer_ne_empty hfound] at hport
  case writes =>
    intro id inst hinst port wire hwire
    obtain ⟨definition, hmodule, -⟩ := exists_module h hinst
    exact (hsaved.keepsOutput h hmodule hwire).1
  case defaults =>
    intro id inst definition hmodule port hdeclared hnone
    obtain ⟨hinherited, hdefault⟩ := hsaved.keepsDefault h hmodule hdeclared hnone
    obtain ⟨wire, hwire, hfresh, hothers⟩ := hsaved.fresh id inst definition hmodule port hdeclared hnone
    cases hdefault.symm.trans hwire
    refine ⟨hinherited, fun e he => ?_, ?_⟩
    · have hlookup := @lookup_inputs native _ named _ h e.1
      rw [if_neg (hinputs e he).1, lookup_of_mem (nodup_inputs h) he] at hlookup
      exact hfresh e.1 _ hlookup
    · intro id' inst' definition' hmodule' port' hdeclared' heq
      apply hothers
      cases hbound : inst'.outputs.lookup port' with
      | some wire' =>
        rw [hbound, Option.getD_some] at heq
        rw [← heq]
        exact (hsaved.keepsOutput h hmodule' hbound).2
      | none =>
        rw [hbound, Option.getD_none] at heq
        rw [← heq]
        exact (hsaved.keepsDefault h hmodule' hdeclared' hbound).2

end Necessity

section Sufficiency

variable (h : Accepted palette graph) (hkept : KeepsWires native palette named graph)
include h hkept

lemma KeepsWires.linkedWire_eq (name : String) : linkedWire native (addItems palette named graph) name =
    .text ((lastProducer palette graph name).getD "") :=
  Editor.linkedWire_eq h (fun e he => (hkept.inputs e he).2.1)
    (fun id inst definition hmodule port hdeclared hnone =>
      (hkept.defaults id inst definition hmodule port hdeclared hnone).1) name

lemma KeepsWires.ne_proto (hmodule : HasModule palette graph id inst definition) : id ≠ "__proto__" := by
  apply hkept.nodes id
  rw [← h.instances id, hmodule.found]
  rfl

/-- The name of an output is that of its wire or the default. -/
lemma KeepsWires.savedWire_eq (hmodule : HasModule palette graph id inst definition)
    (hdeclared : port ∈ definition.outputs.map Prod.fst) :
    savedWire (snapshot named (rebuild native palette named graph)) id port =
      some (.text ((inst.outputs.lookup port).getD (defaultWire id port))) := by
  rw [Editor.savedWire_eq h hmodule (hkept.ne_proto h hmodule)]
  cases hwire : inst.outputs.lookup port with
  | some wire =>
    rw [if_pos ⟨hdeclared, hkept.writes id inst hmodule.found port wire hwire⟩, portWire_bound h hmodule hwire]
    rfl
  | none =>
    have hinherited := (hkept.defaults id inst definition hmodule port hdeclared hwire).1
    have hproto : port ≠ "__proto__" := by
      rintro rfl
      exact hinherited (by decide)
    rw [if_pos ⟨hdeclared, hproto⟩, portWire_unbound h hmodule hdeclared hwire, if_neg hinherited]
    rfl

lemma KeepsWires.sameInputs (hmodule : HasModule palette graph id inst definition) (port : String) :
    (savedInputs (rebuild native palette named graph) (loaded native palette named graph
      (.module id definition inst.config inst.outputs)) definition).lookup port =
      (inst.inputs.lookup port).map .text := by
  obtain ⟨other, hother, -, -, -, -, hbound, -⟩ := exists_module h hmodule.found
  cases hmodule.defined.symm.trans hother.defined
  rw [lookup_returnedInputs hmodule]
  cases hwire : inst.inputs.lookup port with
  | some wire =>
    obtain ⟨hdeclared, hne⟩ := hbound port wire hwire
    obtain ⟨hproto, hlast⟩ := hkept.reads id inst hmodule.found port wire hwire
    have hread : readProperty inst.inputs port = .text wire := by
      rw [readProperty, hwire]
    rw [if_pos ⟨hdeclared, hproto⟩, hread, JsValue.orEmpty, hkept.linkedWire_eq h, hlast]
    simp [Option.filter, JsValue.truthy, hne]
  | none =>
    by_cases hport : port ∈ definition.inputs.map Prod.fst ∧ port ≠ "__proto__"
    · have hlast : lastProducer palette graph ((readProperty inst.inputs port).orEmpty native) = none := by
        by_cases hinherited : port ∈ inheritedNames
        · rw [readProperty, hwire]
          simp only [hinherited, if_true, JsValue.orEmpty]
          exact hkept.absent id inst definition hmodule port hport.1 hwire hinherited hport.2
        · rw [readProperty, hwire]
          simp only [hinherited, if_false, JsValue.orEmpty]
          exact lastProducer_empty
      rw [if_pos hport, hkept.linkedWire_eq h, hlast]
      rfl
    · rw [if_neg hport]
      rfl

lemma KeepsWires.lossless : Lossless palette graph (snapshot named (rebuild native palette named graph)) := by
  constructor
  case nodes => exact nodes_snapshot h
  case inputs =>
    intro id
    rw [lookup_inputs h]
    cases hentry : graph.document.inputs.lookup id with
    | none => simp
    | some b =>
      obtain ⟨hproto, htrim, hsource⟩ := hkept.inputs (id, b) (Dict.lookup_mem hentry)
      dsimp only at hproto htrim hsource
      rw [if_neg hproto, Option.map_some]
      rcases b with ⟨dataKey, wire, source⟩
      cases source with
      | none => simp [returnedInput, htrim]
      | some source =>
        obtain ⟨rfl, htrimmed⟩ := hsource source rfl
        simp [returnedInput, htrim, htrimmed]
  case outputs =>
    intro id
    rw [lookup_outputs h]
    cases hentry : graph.document.outputs.lookup id with
    | none => simp
    | some b =>
      obtain ⟨hproto, hlast⟩ := hkept.outputs (id, b) (Dict.lookup_mem hentry)
      dsimp only at hproto hlast
      rw [if_neg hproto, Option.map_some, Option.map_some, returnedOutput, hkept.linkedWire_eq h, hlast]
      rfl
  case instances =>
    intro id
    rw [lookup_instances h]
    cases hinst : graph.instances.lookup id with
    | none =>
      have hreturned : returnedInstance native palette named graph id = none := by
        simp [returnedInstance, hinst]
      rw [hreturned]
      simp
    | some inst =>
      obtain ⟨definition, hmodule, hself, hkind, hmoduleId, hversion, -, hdeclared⟩ := exists_module h hinst
      rw [if_neg (hkept.ne_proto h hmodule), returnedInstance_eq hinst hmodule.defined]
      refine .some ⟨hself.symm, hkind, hmoduleId, hversion, rfl, hkept.sameInputs h hmodule, ?_⟩
      intro port wire hwire
      dsimp only [loaded]
      rw [lookup_savedOutputs, if_pos ⟨hdeclared port wire hwire, hkept.writes id inst hinst port wire hwire⟩,
        portWire_bound h hmodule hwire]
  case declared =>
    intro id port wire hwire
    obtain ⟨inst, definition, hmodule, -, hport, -⟩ := exists_module_of_savedWire h hwire
    exact ⟨inst, definition, hmodule, hport⟩
  case fresh =>
    intro id inst definition hmodule port hdeclared hnone
    obtain ⟨-, hinputs, hothers⟩ := hkept.defaults id inst definition hmodule port hdeclared hnone
    refine ⟨defaultWire id port, ?_, ?_, ?_⟩
    · rw [hkept.savedWire_eq h hmodule hdeclared, hnone]
      rfl
    · intro other b hlookup
      rw [lookup_inputs h] at hlookup
      by_cases hproto : other = "__proto__"
      · rw [if_pos hproto] at hlookup
        cases hlookup
      · rw [if_neg hproto, Option.map_eq_some_iff] at hlookup
        obtain ⟨binding, hbinding, rfl⟩ := hlookup
        dsimp only [returnedInput]
        exact hinputs (other, binding) (Dict.lookup_mem hbinding)
    · intro id' port' hwire
      obtain ⟨inst', definition', hmodule', -, hport', -⟩ := exists_module_of_savedWire h hwire
      rw [hkept.savedWire_eq h hmodule' hport', Option.some.injEq, JsValue.text.injEq] at hwire
      exact hothers id' inst' definition' hmodule' port' hport' hwire

end Sufficiency

/-- A graph that is loaded and saved without an edit is the same graph exactly where every name
that is read is its last producer and no default wire is in use. -/
theorem lossless_iff (h : Accepted palette graph) :
    Lossless palette graph (snapshot named (rebuild native palette named graph)) ↔
      KeepsWires native palette named graph :=
  ⟨fun hsaved => hsaved.keepsWires h, fun hkept => hkept.lossless h⟩

section OneModule

/-- A module with a bound input, a bound output and an optional output. -/
def spreadDefinition : Definition where
  kind := "Signal"
  moduleId := "spread"
  version := "1.0.0"
  inputs := [("close", true)]
  outputs := [("value", true), ("trace", false)]

def spreadInstance (wire : String) : Instance where
  instanceId := "spread"
  kind := "Signal"
  moduleId := "spread"
  version := "1.0.0"
  config := .obj []
  inputs := [("close", wire)]
  outputs := [("value", "signal")]

/-- The module reads the boundary's wire and leaves its optional output unbound. -/
def spreadGraph (wire : String) : ModuleGraph where
  instances := [("spread", spreadInstance wire)]
  document :=
    { nodes := ["spread"]
      inputs := [("bars", ⟨"market", wire, none⟩)]
      outputs := [("result", ⟨"alpha", "signal"⟩)] }

lemma spread_of_lookup {wire id : String} {inst : Instance}
    (h : (spreadGraph wire).instances.lookup id = some inst) : id = "spread" ∧ inst = spreadInstance wire := by
  have hmem := Dict.lookup_mem h
  simpa [spreadGraph] using hmem

lemma definitionForInstance_spread (wire : String) :
    definitionForInstance [spreadDefinition] (spreadInstance wire) = some spreadDefinition := by
  simp [definitionForInstance, spreadDefinition, spreadInstance]

lemma accepted_spreadGraph {wire : String} (hstrip : stripText wire.toList ≠ []) (hsignal : wire ≠ "signal") :
    Accepted [spreadDefinition] (spreadGraph wire) := by
  have hne : wire ≠ "" := by
    rintro rfl
    exact hstrip rfl
  constructor
  case ids =>
    change ["bars", "result", "spread"].Nodup
    decide
  case inputs =>
    intro e he
    cases List.mem_singleton.mp he
    have hkey : "market" = joinPath ["market"] := by decide
    exact ⟨⟨⟨"market", [], by decide⟩, hkey⟩, hstrip, nofun⟩
  case outputs =>
    intro e he
    cases List.mem_singleton.mp he
    have hkey : "alpha" = joinPath ["alpha"] := by decide
    have hwire : stripText "signal".toList ≠ [] := by decide
    exact ⟨⟨⟨"alpha", [], by decide⟩, hkey⟩, hwire⟩
  case instances =>
    intro id
    by_cases hid : id = "spread" <;> simp [spreadGraph, hid]
  case definitions =>
    intro id inst hinst
    obtain ⟨rfl, rfl⟩ := spread_of_lookup hinst
    refine ⟨rfl, spreadDefinition, definitionForInstance_spread wire, rfl, rfl, rfl, ?_⟩
    intro direction hdirection
    rcases List.mem_pair.mp hdirection with rfl | rfl
    · have hnames : ∀ port ∈ spreadDefinition.inputs, port.1 ≠ "" := by decide
      have hclose : "close" ∈ spreadDefinition.inputs.map Prod.fst := by decide
      refine ⟨hnames, fun port name hname => ?_, fun port hport _ => ?_⟩
      · have hmem := Dict.lookup_mem hname
        simp only [spreadInstance, List.mem_singleton, Prod.mk.injEq] at hmem
        obtain ⟨rfl, rfl⟩ := hmem
        exact ⟨hclose, hne⟩
      · cases List.mem_singleton.mp hport
        rfl
    · have hnames : ∀ port ∈ spreadDefinition.outputs, port.1 ≠ "" := by decide
      have hvalue : "value" ∈ spreadDefinition.outputs.map Prod.fst := by decide
      refine ⟨hnames, fun port name hname => ?_, fun port hport hrequired => ?_⟩
      · have hmem := Dict.lookup_mem hname
        simp only [spreadInstance, List.mem_singleton, Prod.mk.injEq] at hmem
        obtain ⟨rfl, rfl⟩ := hmem
        exact ⟨hvalue, by decide⟩
      · rcases List.mem_pair.mp hport with rfl | rfl
        · rfl
        · cases hrequired
  case boundaryProducers => simp [spreadGraph]
  case producers =>
    intro id inst port name hinst hname
    obtain ⟨rfl, rfl⟩ := spread_of_lookup hinst
    have hmem := Dict.lookup_mem hname
    simp only [spreadInstance, List.mem_singleton, Prod.mk.injEq] at hmem
    obtain ⟨rfl, rfl⟩ := hmem
    refine ⟨fun e he => ?_, fun id' inst' port' hinst' hname' => ?_⟩
    · cases List.mem_singleton.mp he
      exact hsignal
    · obtain ⟨rfl, rfl⟩ := spread_of_lookup hinst'
      have hmem' := Dict.lookup_mem hname'
      simp only [spreadInstance, List.mem_singleton, Prod.mk.injEq] at hmem'
      exact ⟨rfl, hmem'.1⟩
  case reads =>
    intro id inst definition hinst _ port name hname
    obtain ⟨rfl, rfl⟩ := spread_of_lookup hinst
    have hmem := Dict.lookup_mem hname
    simp only [spreadInstance, List.mem_singleton, Prod.mk.injEq] at hmem
    obtain ⟨rfl, rfl⟩ := hmem
    refine ⟨fun other hother => ?_, fun _ => ?_⟩
    · have hout := Dict.lookup_mem hother
      simp only [spreadInstance, List.mem_singleton, Prod.mk.injEq] at hout
      exact hsignal hout.2
    · exact .inl ⟨_, List.mem_singleton_self _, rfl⟩
  case results =>
    intro e he
    cases List.mem_singleton.mp he
    exact .inr ⟨"spread", spreadInstance wire, "value", rfl, rfl⟩

/-- The text of an inherited function. -/
def nativeText (name : String) : String := "function " ++ name ++ "() \x7b [native code] \x7d"

lemma keepsWires_spreadGraph : KeepsWires nativeText [spreadDefinition] false (spreadGraph "bars.market") := by
  have hmodule : ∀ {id : String} {inst : Instance} {definition : Definition},
      HasModule [spreadDefinition] (spreadGraph "bars.market") id inst definition →
        id = "spread" ∧ inst = spreadInstance "bars.market" ∧ definition = spreadDefinition := by
    intro id inst definition hmodule
    obtain ⟨hid, rfl⟩ := spread_of_lookup hmodule.found
    cases (definitionForInstance_spread _).symm.trans hmodule.defined
    exact ⟨hid, rfl, rfl⟩
  have hlast : ∀ wire ∈ ["bars.market", "signal"],
      lastProducer [spreadDefinition] (spreadGraph "bars.market") wire = some wire := by with_unfolding_all decide
  constructor
  case inputs =>
    intro e he
    cases List.mem_singleton.mp he
    exact ⟨by decide, by decide, nofun⟩
  case outputs =>
    intro e he
    cases List.mem_singleton.mp he
    exact ⟨by decide, hlast _ (by simp)⟩
  case nodes => decide
  case reads =>
    intro id inst hinst port wire hwire
    obtain ⟨rfl, rfl⟩ := spread_of_lookup hinst
    have hmem := Dict.lookup_mem hwire
    simp only [spreadInstance, List.mem_singleton, Prod.mk.injEq] at hmem
    obtain ⟨rfl, rfl⟩ := hmem
    exact ⟨by decide, hlast _ (by simp)⟩
  case absent =>
    intro id inst definition hloaded port hdeclared hnone hinherited
    obtain ⟨rfl, rfl, rfl⟩ := hmodule hloaded
    cases List.mem_singleton.mp hdeclared
    cases hnone
  case writes =>
    intro id inst hinst port wire hwire
    obtain ⟨rfl, rfl⟩ := spread_of_lookup hinst
    have hmem := Dict.lookup_mem hwire
    simp only [spreadInstance, List.mem_singleton, Prod.mk.injEq] at hmem
    obtain ⟨rfl, rfl⟩ := hmem
    decide
  case defaults =>
    intro id inst definition hloaded port hdeclared hnone
    obtain ⟨rfl, rfl, rfl⟩ := hmodule hloaded
    rcases List.mem_pair.mp hdeclared with rfl | rfl
    · cases hnone
    · refine ⟨by decide, fun e he => ?_, fun id' inst' definition' hloaded' port' hdeclared' heq => ?_⟩
      · cases List.mem_singleton.mp he
        decide
      · obtain ⟨rfl, rfl, rfl⟩ := hmodule hloaded'
        rcases List.mem_pair.mp hdeclared' with rfl | rfl
        · exact absurd heq (by decide)
        · exact ⟨rfl, rfl⟩

/-- A name for the boundary that is not in use. -/
theorem lossless_spreadGraph : Lossless [spreadDefinition] (spreadGraph "bars.market")
    (snapshot false (rebuild nativeText [spreadDefinition] false (spreadGraph "bars.market"))) :=
  (lossless_iff (accepted_spreadGraph (by decide) (by decide))).mpr keepsWires_spreadGraph

/-- The boundary has the name that the editor gives to the unbound output. -/
theorem lossy_spreadGraph : Accepted [spreadDefinition] (spreadGraph "spread.trace") ∧
    ¬ Lossless [spreadDefinition] (spreadGraph "spread.trace")
      (snapshot false (rebuild nativeText [spreadDefinition] false (spreadGraph "spread.trace"))) := by
  have haccepted : Accepted [spreadDefinition] (spreadGraph "spread.trace") :=
    accepted_spreadGraph (by decide) (by decide)
  refine ⟨haccepted, fun hsaved => ?_⟩
  have hdefault := (hsaved.keepsWires haccepted).defaults "spread" (spreadInstance "spread.trace")
    spreadDefinition ⟨rfl, definitionForInstance_spread _⟩ "trace" (by decide) rfl
  have htrim : trim "spread.trace" = defaultWire "spread" "trace" := by decide
  exact hdefault.2.1 _ (List.mem_singleton_self _) htrim

end OneModule

end RoundTrip

end TradeFramework.Editor
