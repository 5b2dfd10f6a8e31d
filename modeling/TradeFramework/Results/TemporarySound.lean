import TradeFramework.Results.TemporaryPlan
import TradeFramework.Sampling.RowMapSound

/-!
# Soundness of temporary plans

The compiler tracks the contracts through the writes of the modules while the processor performs them
on a cycle. As long as the contracts list only members named by DataKey segments both stay in step, so every
required read finds its value and the transformed cycle passes the final validator.
-/

namespace TradeFramework.Results

open Raising (raiseIf)
open RowMap (Tracked ListedWrites ListsSegments NamedState integerSchema integerSchema_named isBool
  writeContractState)

section Expansions

variable {contracts : List (String × Json)} {expanded : Contracts}

lemma mergeObjectSchemas_normal {left right t : Schema} {path : String}
    (h : mergeObjectSchemas left right path = .ok t) : t.Normal := by
  rw [mergeObjectSchemas] at h
  obtain ⟨⟨l, hl⟩, -, h⟩ := Raising.bind_eq_ok.mp h
  obtain ⟨⟨r, hr⟩, -, h⟩ := Raising.bind_eq_ok.mp h
  cases l with
  | never => cases h
  | object l =>
    cases r with
    | never => cases h
    | object r =>
      simp only [Raising.bind_eq_ok] at h
      obtain ⟨-, -, -, -, -, -, changed, -, -, -, -, -, extra, -, h⟩ := h
      exact normalizeSchema_normal h

lemma reconcileSchema_normal {existing : Option Schema} {normalized t : Schema} {path : String}
    (hnormalized : normalized.Normal) (h : reconcileSchema existing normalized path = .ok t) : t.Normal := by
  cases existing with
  | none =>
    cases h
    exact hnormalized
  | some existing =>
    unfold reconcileSchema at h
    dsimp only at h
    split_ifs at h
    · cases h
      exact hnormalized
    · exact mergeObjectSchemas_normal h

lemma emitSchema_normal {depth : ℕ} {before after : Contracts} {path : String} {schema : Schema}
    (h : emitSchema depth before path schema = .ok after) (hbefore : ∀ e ∈ before, e.2.Normal) :
    ∀ e ∈ after, e.2.Normal := by
  induction depth generalizing before after path schema with
  | zero => cases h
  | succ depth ih =>
    rw [emitSchema] at h
    obtain ⟨normalized, hnormalized, h⟩ := Raising.bind_eq_ok.mp h
    obtain ⟨reconciled, hreconciled, h⟩ := Raising.bind_eq_ok.mp h
    have hnormal := reconcileSchema_normal (normalizeDataKeySchema_normal hnormalized) hreconciled
    refine Raising.foldlM_invariant (fun d : Contracts => ∀ e ∈ d, e.2.Normal) ?_ ?_ h
    · intro d d' name _ hd hstep
      obtain ⟨child, -, hstep⟩ := Raising.bind_eq_ok.mp hstep
      split_ifs at hstep
      · cases hstep
        exact hd
      · exact ih hstep hd
    · intro e he
      rcases Dict.mem_set he with rfl | he
      · exact hnormal
      · exact hbefore e he

/-- The entries of an expansion are in normal form. -/
lemma expandContracts_normal (h : expandContracts contracts = .ok expanded) : ∀ e ∈ expanded, e.2.Normal := by
  obtain ⟨_, -, h⟩ := Raising.bind_eq_ok.mp h
  obtain ⟨_, -, h⟩ := Raising.bind_eq_ok.mp h
  exact Raising.foldlM_invariant (fun d : Contracts => ∀ e ∈ d, e.2.Normal)
    (fun _ _ _ _ hd hstep => emitSchema_normal hstep hd) (by simp) h

end Expansions

section Validators

variable {expanded : Contracts} {requiredRoots : List String} {validator : DataJsonValidator} {data : DataDict}

/-- A Data Dict that a compiled validator passes conforms to the contracts. -/
lemma conforms_of_validate (hagain : ∃ contracts, expandContracts contracts = .ok expanded)
    (hroots : ∀ root ∈ requiredRoots, isPathSegment root = true)
    (hcompiled : compileDataJsonValidator expanded requiredRoots = .ok validator)
    (hvalid : validator.validate (.obj data) = .ok ()) : Conforms expanded requiredRoots data := by
  obtain ⟨contracts, hexpand⟩ := hagain
  unfold DataJsonValidator.validate at hvalid
  rw [Raising.seq_eq_ok, Raising.forM_eq_ok, Raising.forM_eq_ok] at hvalid
  obtain ⟨hmembers, hrequired⟩ := hvalid
  obtain ⟨paths, hpaths, h⟩ := Raising.bind_eq_ok.mp hcompiled
  obtain ⟨required, hsplit, h⟩ := Raising.bind_eq_ok.mp h
  rw [Raising.pure_eq_ok] at h
  subst h
  refine conforms_iff.mpr ⟨fun root value hvalue => ?_, fun root hroot => ?_⟩
  · have hmember := hmembers (root, value) (Dict.mem_items.mpr hvalue)
    unfold DataJsonValidator.validateRoot at hmember
    dsimp only at hmember
    split at hmember
    case h_1 => cases hmember
    case h_2 plan hplan =>
      obtain ⟨⟨⟨key, schema⟩, path⟩, hentry, heq⟩ := List.mem_map.mp (Dict.lookup_mem hplan)
      obtain ⟨hzip, hrest⟩ := List.mem_filter.mp hentry
      obtain ⟨rfl, rfl⟩ := Prod.mk.inj heq
      have hlookup := Dict.mem_items.mp (List.of_mem_zip hzip).1
      have hkey := List.forall₂_zip (Raising.mapM_eq_ok.mp hpaths) hzip
      obtain ⟨hsegment, -⟩ := RowMap.isPathSegment_of_root hexpand hlookup hkey (by simpa using hrest)
      have hnormal := (expandContracts_root_valid hexpand hsegment hlookup).1
      exact ⟨hsegment, schema, hlookup,
        (compiledValidationFailure_eq_none hnormal value).mp (Raising.report_eq_ok.mp hmember)⟩
  · have hread := Raising.mapM_eq_ok.mp hsplit
    obtain ⟨path, hmem⟩ : ∃ path, (root, path) ∈ requiredRoots.zip required := by
      rw [← @List.map_fst_zip _ _ requiredRoots required hread.length_eq.le] at hroot
      obtain ⟨e, he, rfl⟩ := List.mem_map.mp hroot
      exact ⟨e.2, he⟩
    have hpath := List.forall₂_zip hread hmem
    rw [splitDataPath_segment (hroots root hroot)] at hpath
    have hparts : path.parts = [root] := by rw [← Except.ok.inj hpath]; rfl
    have hpresent := hrequired (root, path) hmem
    unfold requireDataSegments at hpresent
    rw [Raising.raiseIf_eq_ok] at hpresent
    rw [hparts] at hpresent
    cases hlookup : data.lookup root with
    | none => simp [getDataSegments, hlookup] at hpresent
    | some value => simp [Dict.has, hlookup]

/-- A conforming Data Dict passes the compiled validator, whose required paths it has. -/
lemma validate_of_conforms (hagain : ∃ contracts, expandContracts contracts = .ok expanded)
    {paths : List String} (hdata : Conforms expanded requiredRoots data)
    (hrequired : ∀ path ∈ paths, ∀ parts, splitDataPath path = .ok parts →
      (getDataSegments (.obj data) parts.parts).isSome)
    (hcompiled : compileDataJsonValidator expanded paths = .ok validator) :
    validator.validate (.obj data) = .ok () := by
  obtain ⟨contracts, hexpand⟩ := hagain
  obtain ⟨hvalues, -⟩ := conforms_iff.mp hdata
  unfold DataJsonValidator.validate
  rw [Raising.seq_eq_ok, Raising.forM_eq_ok, Raising.forM_eq_ok]
  constructor
  · intro e he
    obtain ⟨hsegment, schema, hschema, haccepts⟩ := hvalues e.1 e.2 (Dict.mem_items.mp he)
    have hnormal := (expandContracts_root_valid hexpand hsegment hschema).1
    unfold DataJsonValidator.validateRoot
    have hroot : (expanded, requiredRoots).1.lookup e.1 = some schema := hschema
    rw [RowMap.rootPlans_lookup hcompiled hsegment hroot]
    exact Raising.report_eq_ok.mpr ((compiledValidationFailure_eq_none hnormal e.2).mpr haccepts)
  · obtain ⟨_, -, h⟩ := Raising.bind_eq_ok.mp hcompiled
    obtain ⟨required, hsplit, h⟩ := Raising.bind_eq_ok.mp h
    rw [Raising.pure_eq_ok] at h
    subst h
    rintro ⟨path, parts⟩ hmem
    have hparts := List.forall₂_zip (Raising.mapM_eq_ok.mp hsplit) hmem
    obtain ⟨value, hvalue⟩ := Option.isSome_iff_exists.mp
      (hrequired path (List.of_mem_zip hmem).1 parts hparts)
    simp [requireDataSegments, hvalue]

variable {dataKeys : List (String × Json)} {contracts : List (String × Schema)}

lemma declarationSchema_eq_ok {e : String × Json} {d : String × Schema} (h : declarationSchema e = .ok d) :
    d.1 = e.1 ∧ normalizeDataKeySchema (field (membersOf e.2) "schema") e.1 = .ok d.2 := by
  simp only [declarationSchema, Raising.bind_eq_ok, Raising.pure_eq_ok] at h
  obtain ⟨-, -, declaration, hfields, -, -, -, -, -, -, -, -, schema, hschema, rfl⟩ := h
  rw [requireExactFields_eq_ok hfields]
  exact ⟨rfl, hschema⟩

/-- The parts of a compiled cycle validator. -/
lemma compileCycleValidator_eq_ok (h : compileCycleValidator dataKeys = .ok validator) :
    ∃ expanded requiredRoots, initialContracts dataKeys = .ok expanded ∧
      requiredRootKeys dataKeys = .ok requiredRoots ∧
      compileDataJsonValidator expanded requiredRoots = .ok validator := by
  obtain ⟨contracts, hcontracts, h⟩ := Raising.bind_eq_ok.mp h
  obtain ⟨expanded, hexpanded, h⟩ := Raising.bind_eq_ok.mp h
  obtain ⟨requiredRoots, hroots, h⟩ := Raising.bind_eq_ok.mp h
  obtain ⟨-, -, h⟩ := Raising.bind_eq_ok.mp h
  refine ⟨expanded, requiredRoots, ?_, hroots, h⟩
  have hsame : (Dict.items dataKeys).mapM (fun e => do
      pure (e.1, ← normalizeDataKeySchema (field (membersOf e.2) "schema") e.1)) =
        (Except.ok contracts : Except PyError (List (String × Schema))) := by
    rw [Raising.mapM_eq_ok]
    refine (Raising.mapM_eq_ok.mp hcontracts).imp fun e d hd => ?_
    obtain ⟨hkey, hschema⟩ := declarationSchema_eq_ok hd
    rw [hschema, Raising.ok_bind, ← hkey]
    rfl
  rw [initialContracts, hsame, Raising.ok_bind]
  exact hexpanded

end Validators

section Declared

variable {state : Contracts × List String} {data : DataDict} {dataKeys : List (String × Json)}
  {validator : DataJsonValidator}

lemma requiredRootKeys_eq_ok {roots : List String} (h : requiredRootKeys dataKeys = .ok roots) :
    ∀ root ∈ roots, ∃ value path, (root, value) ∈ Dict.items dataKeys ∧ splitDataPath root = .ok path ∧
      path.rest = [] ∧ truthy (field (membersOf value) "required") = true := by
  obtain ⟨found, hfound, hroots⟩ := Raising.bind_eq_ok.mp h
  rw [Raising.pure_eq_ok] at hroots
  subst hroots
  intro root hroot
  obtain ⟨⟨key, value⟩, hmem, rfl⟩ := List.mem_map.mp hroot
  obtain ⟨htests, rfl⟩ := Raising.filterM_eq_ok.mp hfound
  obtain ⟨hitem, hpass⟩ := List.mem_filter.mp hmem
  have htest := htests _ hitem
  rw [hpass] at htest
  obtain ⟨path, hpath, htest⟩ := Raising.bind_eq_ok.mp htest
  simp only [Raising.pure_eq_ok, Bool.and_eq_true, decide_eq_true_eq] at htest
  exact ⟨value, path, hitem, hpath, htest.1, htest.2⟩

lemma isPathSegment_of_mem_rootPaths {contracts : List (String × Json)} {expanded : Contracts}
    (hexpand : expandContracts contracts = .ok expanded) {roots : List String}
    (h : expandedContractRootPaths expanded = .ok roots) {root : String} (hroot : root ∈ roots) :
    isPathSegment root = true := by
  obtain ⟨htests, rfl⟩ := Raising.filterM_eq_ok.mp h
  obtain ⟨hkey, hpass⟩ := List.mem_filter.mp hroot
  have htest := htests root hkey
  rw [hpass] at htest
  obtain ⟨path, hpath, htest⟩ := Raising.bind_eq_ok.mp htest
  obtain ⟨schema, hschema⟩ := Option.isSome_iff_exists.mp (Dict.mem_keys.mp hkey)
  exact (RowMap.isPathSegment_of_root hexpand hschema hpath (by simpa using htest)).1

/-- The required roots of a plan that can be declared are DataKey segments. -/
lemma isPathSegment_of_declared {contracts : Contracts} {requiredRoots : List String}
    (h : resultDataKeyDeclarations contracts requiredRoots = .ok dataKeys) :
    ∀ root ∈ requiredRoots, isPathSegment root = true := by
  obtain ⟨expanded, hexpanded, h⟩ := Raising.bind_eq_ok.mp h
  obtain ⟨roots, hroots, h⟩ := Raising.bind_eq_ok.mp h
  obtain ⟨_, hunknown, -⟩ := Raising.bind_eq_ok.mp h
  intro root hroot
  have hdeclared : root ∈ roots := by
    by_contra hnot
    have hmem : root ∈ sortedStrings (requiredRoots.filter fun root => root ∉ roots) :=
      mem_sortedStrings.mpr (List.mem_filter.mpr ⟨hroot, by simpa using hnot⟩)
    rw [Raising.raiseIf_eq_ok, not_not] at hunknown
    rw [hunknown] at hmem
    cases hmem
  exact isPathSegment_of_mem_rootPaths hexpanded hroots hdeclared

/-- The declarations that the contracts of a plan are turned into. -/
lemma resultDataKeyDeclarations_eq_ok (hagain : expandContracts state.1.toDocuments = .ok state.1)
    (h : resultDataKeyDeclarations state.1 state.2 = .ok dataKeys) :
    initialContracts dataKeys = .ok state.1 ∧
      ∀ key value, (key, value) ∈ Dict.items dataKeys → ∃ required,
        expandedContractPathRequired state.1 key (some state.2) = .ok required ∧
          truthy (field (membersOf value) "required") = required := by
  obtain ⟨expanded, hexpanded, h⟩ := Raising.bind_eq_ok.mp h
  have hsame : state.1 = expanded := Except.ok.inj (hagain.symm.trans hexpanded)
  subst hsame
  obtain ⟨_, -, h⟩ := Raising.bind_eq_ok.mp h
  obtain ⟨_, -, h⟩ := Raising.bind_eq_ok.mp h
  have hread : List.Forall₂ (fun (e : String × Schema) (d : String × Json) => d.1 = e.1 ∧
      normalizeDataKeySchema (field (membersOf d.2) "schema") d.1 = .ok e.2 ∧ ∃ required,
        expandedContractPathRequired state.1 e.1 (some state.2) = .ok required ∧
          truthy (field (membersOf d.2) "required") = required) (Dict.items state.1) dataKeys := by
    refine Related.forall₂_mono (fun e he d _ hd => ?_) (Raising.mapM_eq_ok.mp h)
    obtain ⟨schema, hschema, hd⟩ := Raising.bind_eq_ok.mp hd
    obtain ⟨required, hrequired, hd⟩ := Raising.bind_eq_ok.mp hd
    rw [Raising.pure_eq_ok] at hd
    subst hd
    have hnormal := expandContracts_normal hagain e (Dict.items_subset _ he)
    obtain ⟨rfl, -⟩ := normalizeDataKeySchema_toJson hnormal hschema
    exact ⟨rfl, hschema, required, hrequired, rfl⟩
  have hkeys : dataKeys.map Prod.fst = (Dict.items state.1).map Prod.fst := by
    refine List.forall₂_eq_eq_eq ▸ ?_
    rw [List.forall₂_map_left_iff, List.forall₂_map_right_iff]
    exact hread.flip.imp fun _ _ h => h.1
  have hitems : Dict.items dataKeys = dataKeys := Dict.items_of_nodup (hkeys ▸ Dict.nodup_keys state.1)
  constructor
  · have hdeclared : (Dict.items dataKeys).mapM (fun e => do
        pure (e.1, ← normalizeDataKeySchema (field (membersOf e.2) "schema") e.1)) =
          (Except.ok (Dict.items state.1) : Except PyError (List (String × Schema))) := by
      rw [hitems, Raising.mapM_eq_ok]
      refine hread.flip.imp fun d e hd => ?_
      rw [hd.2.1, Raising.ok_bind, hd.1]
      rfl
    rw [initialContracts, hdeclared, Raising.ok_bind]
    have hdocuments : Dict.items (Contracts.toDocuments (Dict.items state.1)) =
        Dict.items state.1.toDocuments := by
      rw [Contracts.toDocuments, Contracts.toDocuments, Dict.items_mapValues, Dict.items_mapValues,
        Dict.items_items]
    unfold expandContracts at hagain ⊢
    rw [hdocuments]
    exact hagain
  · intro key value hmem
    rw [hitems] at hmem
    obtain ⟨e, -, hkey, -, required, hrequired, hvalue⟩ := Related.exists_mem_left hread hmem
    dsimp only at hkey
    exact ⟨required, hkey ▸ hrequired, hvalue⟩

/-- The schemas of the declared DataKeys name members by DataKey segments. -/
def NamedKeys (dataKeys : List (String × Json)) : Prop :=
  ∀ e ∈ Dict.items dataKeys, ∀ schema,
    normalizeDataKeySchema (field (membersOf e.2) "schema") e.1 = .ok schema → schema.SegmentNamed

/-- The contracts of a result name what its DataKeys name. -/
lemma namedState_of_initial {initial : Contracts} {requiredRoots : List String} (hnamed : NamedKeys dataKeys)
    (hinitial : initialContracts dataKeys = .ok initial) : NamedState (initial, requiredRoots) := by
  obtain ⟨declared, hdeclared, hexpand⟩ := Raising.bind_eq_ok.mp hinitial
  have hdocuments : ∀ e ∈ Dict.items (Contracts.toDocuments declared), ∀ s,
      normalizeSchema e.2 = .ok s → s.SegmentNamed := by
    intro e he s hs
    rw [Contracts.toDocuments, Dict.items_mapValues] at he
    obtain ⟨d, hd, rfl⟩ := List.mem_map.mp he
    obtain ⟨entry, hentry, hread⟩ := Related.exists_mem_left (Raising.mapM_eq_ok.mp hdeclared)
      (Dict.items_subset _ hd)
    obtain ⟨schema, hschema, hread⟩ := Raising.bind_eq_ok.mp hread
    rw [Raising.pure_eq_ok] at hread
    subst hread
    exact segmentNamed_normalizeSchema hs (hnamed entry hentry schema hschema)
  have hmap : NamedMap initial :=
    fun root schema hsegment hschema => segmentNamed_expandContracts hexpand hdocuments hsegment hschema
  exact ⟨expandContracts_again hexpand ((listsOnly_iff hexpand).mpr hmap.rootsNamedBy), hmap⟩

/-- The contracts of a result are tracked from a cycle that the base validator passes. -/
lemma tracked_of_validate {initial : Contracts} {requiredRoots : List String}
    (hlisted : ListsSegments (initial, requiredRoots)) (hinitial : initialContracts dataKeys = .ok initial)
    (hroots : requiredRootKeys dataKeys = .ok requiredRoots)
    (hsegments : ∀ root ∈ requiredRoots, isPathSegment root = true)
    (hcompiled : compileCycleValidator dataKeys = .ok validator)
    (hvalid : validator.validate (.obj data) = .ok ()) : Tracked (initial, requiredRoots) data := by
  obtain ⟨expanded, found, hexpanded, hfound, hcompiled⟩ := compileCycleValidator_eq_ok hcompiled
  have hsame : expanded = initial := Except.ok.inj (hexpanded.symm.trans hinitial)
  have hsameRoots : found = requiredRoots := Except.ok.inj (hfound.symm.trans hroots)
  subst hsame hsameRoots
  obtain ⟨declared, -, hexpand⟩ := Raising.bind_eq_ok.mp hinitial
  exact ⟨expandContracts_again hexpand ((listsOnly_iff hexpand).mpr hlisted),
    conforms_of_validate ⟨_, hexpand⟩ hsegments hcompiled hvalid⟩

/-- A tracked Data Dict passes the validator that is compiled from its contracts. -/
lemma validate_of_tracked (hdata : Tracked state data)
    (hdeclared : resultDataKeyDeclarations state.1 state.2 = .ok dataKeys)
    (hcompiled : compileCycleValidator dataKeys = .ok validator) :
    validator.validate (.obj data) = .ok () := by
  obtain ⟨hinitial, hpresence⟩ := resultDataKeyDeclarations_eq_ok hdata.again hdeclared
  obtain ⟨expanded, roots, hexpanded, hroots, hcompiled⟩ := compileCycleValidator_eq_ok hcompiled
  have hsame : expanded = state.1 := Except.ok.inj (hexpanded.symm.trans hinitial)
  subst hsame
  refine validate_of_conforms ⟨_, hdata.again⟩ hdata.conforms (fun root hroot parts hparts => ?_) hcompiled
  obtain ⟨value, path, hmem, hpath, -, htruthy⟩ := requiredRootKeys_eq_ok hroots root hroot
  obtain ⟨required, hrequired, hsame⟩ := hpresence root value hmem
  rw [htruthy] at hsame
  subst hsame
  obtain ⟨v, hv⟩ := exists_of_pathRequired hdata.conforms hparts hrequired
  rw [hv]
  rfl

end Declared

section Nodes

variable {repository : ModuleRepository} {node : TemporaryNode} {module : Json}

/-- What the compiler has checked of a node. -/
structure TemporaryNode.WellBound (node : TemporaryNode) : Prop where
  normal : ∀ e ∈ node.ports.inputs ++ node.ports.outputs, e.2.schema.Normal
  inputs : (node.ports.inputs.map Prod.fst).Nodup
  outputs : (node.ports.outputs.map Prod.fst).Nodup
  required : ∀ e ∈ node.ports.inputs, e.2.required = true → ∃ dataKey, (e.1, dataKey) ∈ node.inputPlan

lemma normalizeDirection_eq_ok {label direction : String} {ports : Json} {declared : List (String × Port)}
    (h : normalizeDirection label direction ports = .ok declared) :
    (declared.map Prod.fst).Nodup ∧ ∀ e ∈ declared, e.2.schema.Normal := by
  unfold normalizeDirection at h
  split at h
  case h_1 d =>
    have hread : List.Forall₂ (fun (e : String × Json) (p : String × Port) => p.1 = e.1 ∧ p.2.schema.Normal)
        (Dict.items d) declared := by
      refine (Raising.mapM_eq_ok.mp h).imp fun e p hp => ?_
      simp only [normalizePort, Raising.bind_eq_ok, Raising.pure_eq_ok] at hp
      obtain ⟨-, -, spec, -, -, -, schema, hschema, rfl⟩ := hp
      exact ⟨rfl, normalizeDataKeySchema_normal hschema⟩
    constructor
    · have hkeys : declared.map Prod.fst = Dict.keys d := by
        refine List.forall₂_eq_eq_eq ▸ ?_
        rw [Dict.keys, List.forall₂_map_left_iff, List.forall₂_map_right_iff]
        exact hread.flip.imp fun _ _ h => h.1
      exact hkeys ▸ Dict.nodup_keys d
    · intro p hp
      obtain ⟨e, -, -, hnormal⟩ := Related.exists_mem_left hread hp
      exact hnormal
  case h_2 => cases h

lemma normalizePorts_eq_ok {ports : Json} {label : String} {declared : Ports}
    (h : normalizePorts ports label = .ok declared) :
    (declared.inputs.map Prod.fst).Nodup ∧ (declared.outputs.map Prod.fst).Nodup ∧
      ∀ e ∈ declared.inputs ++ declared.outputs, e.2.schema.Normal := by
  simp only [normalizePorts, Raising.bind_eq_ok, Raising.pure_eq_ok] at h
  obtain ⟨directions, -, inputs, hinputs, outputs, houtputs, rfl⟩ := h
  obtain ⟨hin, hinNormal⟩ := normalizeDirection_eq_ok hinputs
  obtain ⟨hout, houtNormal⟩ := normalizeDirection_eq_ok houtputs
  refine ⟨hin, hout, fun e he => ?_⟩
  exact (List.mem_append.mp he).elim (hinNormal e) (houtNormal e)

lemma mem_wires {bound : List (String × Json)} {name wire : String} :
    (name, wire) ∈ wires bound ↔ (name, .str wire) ∈ bound := by
  unfold wires
  rw [List.mem_filterMap]
  constructor
  · rintro ⟨⟨key, value⟩, hmem, hvalue⟩
    cases value <;> simp_all
  · intro hmem
    exact ⟨_, hmem, rfl⟩

lemma boundPorts_eq_ok {direction : String} {bound : Json} {entries : List (String × Json)}
    (h : boundPorts direction bound = .ok entries) : entries = Dict.items (membersOf bound) := by
  unfold boundPorts at h
  split at h
  · exact (Except.ok.inj h).symm
  · cases h

/-- The wires of an instance: the bound ports are declared, and every required input is bound. -/
lemma validateInstanceWiring_eq_ok {instanceId : String} {inputs outputs : Json}
    {definition : ModuleDefinition} {ports : Ports} {bound : List (String × String) × List (String × String)}
    (hports : normalizePorts definition.ports "Module ports" = .ok ports)
    (h : validateInstanceWiring instanceId inputs outputs definition = .ok bound) :
    (∀ e ∈ ports.inputs, e.2.required = true → ∃ dataKey, (e.1, dataKey) ∈ bound.1) ∧
      ∀ e ∈ bound.2, (e.1, .str e.2) ∈ Dict.items (membersOf outputs) := by
  simp only [validateInstanceWiring, hports, Raising.ok_bind, Raising.bind_eq_ok, Raising.pure_eq_ok] at h
  obtain ⟨ins, hins, outs, houts, -, -, -, -, _, hrequired, -, -, -, -, -, -, rfl⟩ := h
  rw [boundPorts_eq_ok houts]
  refine ⟨fun e he hneeded => ?_, fun e he => mem_wires.mp he⟩
  have hcheck := Raising.forM_eq_ok.mp hrequired e he
  rw [Raising.raiseIf_eq_ok, not_and, Bool.not_eq_false, Option.any_eq_true_iff_get] at hcheck
  obtain ⟨hsome, hwire⟩ := hcheck hneeded
  obtain ⟨value, hvalue⟩ := Option.isSome_iff_exists.mp hsome
  simp only [hvalue, Option.get_some] at hwire
  cases value with
  | str wire => exact ⟨wire, mem_wires.mpr (Dict.lookup_mem hvalue)⟩
  | _ => cases hwire

lemma mem_orderOutputs {outputs ordered : List (String × String)} (h : orderOutputs outputs = .ok ordered) :
    ∀ e ∈ ordered, e ∈ outputs := by
  obtain ⟨keyed, hkeyed, h⟩ := Raising.bind_eq_ok.mp h
  rw [Raising.pure_eq_ok] at h
  subst h
  intro e he
  obtain ⟨k, hk, rfl⟩ := List.mem_map.mp he
  obtain ⟨o, ho, hread⟩ := Related.exists_mem_left (Raising.mapM_eq_ok.mp hkeyed) ((List.mem_insertionSort _).mp hk)
  obtain ⟨path, -, hread⟩ := Raising.bind_eq_ok.mp hread
  rw [Raising.pure_eq_ok] at hread
  subst hread
  exact ho

/-- The definition that a temporary module names. -/
def ResolvesTo (repository : ModuleRepository) (module : Json) (definition : ModuleDefinition) : Prop :=
  ∃ moduleId, textOf (field (membersOf module) "moduleId") = some moduleId ∧
    repository.resolve (field (membersOf module) "kind") moduleId (field (membersOf module) "version") =
      .ok definition

lemma bindModule_eq_ok {known : List String} {index : ℕ}
    (h : bindModule repository known index module = .ok node) : node.WellBound ∧
      ∃ definition, ResolvesTo repository module definition ∧
        normalizePorts definition.ports "Module ports" = .ok node.ports ∧
        ∀ e ∈ node.outputPlan,
          (e.1, .str e.2) ∈ Dict.items (membersOf (field (membersOf module) "outputs")) := by
  obtain ⟨fields, hfields, h⟩ := Raising.bind_eq_ok.mp h
  rw [requireExactFields_eq_ok hfields]
  split at h
  case h_1 moduleId instanceId hmodule _ =>
    simp only [Raising.bind_eq_ok, Raising.pure_eq_ok] at h
    obtain ⟨-, -, definition, hdefinition, ports, hports, -, -, bound, hbound, -, -, -, -, outputPlan,
      hplan, rfl⟩ := h
    obtain ⟨hinputs, houtputs, hnormal⟩ := normalizePorts_eq_ok hports
    obtain ⟨hrequired, hwires⟩ := validateInstanceWiring_eq_ok hports hbound
    refine ⟨⟨hnormal, hinputs, houtputs, fun e he hneeded => ?_⟩, definition, ⟨moduleId, hmodule, hdefinition⟩,
      hports, fun e he => hwires e (mem_orderOutputs hplan e he)⟩
    obtain ⟨dataKey, hmem⟩ := hrequired e he hneeded
    exact ⟨dataKey, (List.mem_insertionSort _).mpr hmem⟩
  case h_2 => cases h

/-- The temporary modules as they are listed. -/
def listedModules : Json → List Json
  | .arr modules => modules
  | _ => []

/-- The nodes come from the temporary modules. -/
lemma declareModules_eq_ok {modules : Json} {nodes : List TemporaryNode}
    (h : declareModules repository modules = .ok nodes) :
    ∀ node ∈ nodes, ∃ module ∈ listedModules modules, ∃ known index,
      bindModule repository known index module = .ok node := by
  unfold declareModules at h
  split at h
  case h_1 listed =>
    obtain ⟨declared, hdeclared, h⟩ := Raising.bind_eq_ok.mp h
    rw [Raising.pure_eq_ok] at h
    subst h
    refine Raising.foldlM_invariant (fun declared : List TemporaryNode × List String =>
      ∀ node ∈ declared.1, ∃ module ∈ listed, ∃ known index,
        bindModule repository known index module = .ok node) ?_ (by simp) hdeclared
    intro before after entry hentry hbefore hstep node hnode
    obtain ⟨bound, hbound, hstep⟩ := Raising.bind_eq_ok.mp hstep
    obtain ⟨producers, -, hstep⟩ := Raising.bind_eq_ok.mp hstep
    rw [Raising.pure_eq_ok] at hstep
    subst hstep
    rcases List.mem_append.mp hnode with hnode | hnode
    · exact hbefore node hnode
    · cases List.mem_singleton.mp hnode
      exact ⟨entry.1, List.fst_mem_of_mem_zipIdx hentry, _, _, hbound⟩
  case h_2 => cases h

/-- Ordering drops and adds no module. -/
lemma mem_orderModules {dependencies : List (String × String)} {remaining ordered : List TemporaryNode}
    (h : orderModules dependencies remaining = .ok ordered) (node : TemporaryNode) :
    node ∈ ordered ↔ node ∈ remaining := by
  induction hn : remaining.length using Nat.strong_induction_on generalizing remaining ordered with
  | _ n ih =>
    subst hn
    rw [orderModules] at h
    by_cases hempty : remaining.isEmpty = true
    · rw [if_pos hempty] at h
      cases h
      simp [List.isEmpty_iff.mp hempty]
    · rw [if_neg hempty] at h
      split_ifs at h with hready
      obtain ⟨later, hlater, h⟩ := Raising.bind_eq_ok.mp h
      rw [Raising.pure_eq_ok] at h
      subst h
      have hlength := length_blockedModules_lt fun hnone => hready (by rw [hnone]; rfl)
      rw [List.mem_append, ih _ hlength hlater rfl, readyModules, blockedModules, List.mem_filter,
        List.mem_filter]
      cases isReady dependencies remaining node <;> simp

end Nodes

section Reads

variable {node : TemporaryNode} {state : Contracts × List String} {data : DataDict}
  {declared : List (String × Port)} {values : List (String × Json)}

/-- Every value is one of a declared port and accepted by it. -/
def AcceptedBy (declared : List (String × Port)) (values : List (String × Json)) : Prop :=
  ∀ name value, values.lookup name = some value →
    ∃ port, declared.lookup name = some port ∧ port.schema.Accepts value

lemma portOf_eq_ok {name : String} {port : Port} :
    portOf declared name = .ok port ↔ declared.lookup name = some port := by
  unfold portOf
  cases declared.lookup name with
  | none => simp
  | some found =>
    rw [Option.elim_some, Raising.pure_eq_ok, Option.some.injEq]

lemma validatePorts_eq_ok {label direction verb : String} :
    validatePorts label direction verb declared values = .ok () ↔
      AcceptedBy declared values ∧ ∀ e ∈ declared, e.2.required = true → Dict.has values e.1 = true := by
  have hnone : ∀ names : List String, sortedStrings names = [] ↔ names = [] := fun names => by
    rw [← List.length_eq_zero_iff, sortedStrings, List.length_insertionSort, List.length_eq_zero_iff]
  simp only [validatePorts, Raising.seq_eq_ok, Raising.raiseIf_eq_ok, Raising.forM_eq_ok, not_not, hnone,
    List.map_eq_nil_iff, List.filter_eq_nil_iff, Bool.and_eq_true, Bool.not_eq_true, Bool.not_eq_false',
    not_and]
  constructor
  · rintro ⟨-, hrequired, hvalues⟩
    refine ⟨fun name value hvalue => ?_, fun e he hneeded => by simpa using hrequired e he hneeded⟩
    obtain ⟨port, hport, hvalid⟩ := Raising.bind_eq_ok.mp (hvalues (name, value) (Dict.mem_items.mpr hvalue))
    exact ⟨port, portOf_eq_ok.mp hport, validateNormalizedJsonValue_eq_ok.mp hvalid⟩
  · rintro ⟨haccepted, hrequired⟩
    refine ⟨fun name hname => ?_, fun e he hneeded => by simpa using hrequired e he hneeded, fun e he => ?_⟩
    · obtain ⟨value, hvalue⟩ := Option.isSome_iff_exists.mp (Dict.mem_keys.mp hname)
      obtain ⟨port, hport, -⟩ := haccepted name value hvalue
      simp [Dict.has, hport]
    · obtain ⟨port, hport, haccepts⟩ := haccepted e.1 e.2 (Dict.mem_items.mp he)
      rw [portOf_eq_ok.mpr hport, Raising.ok_bind]
      exact validateNormalizedJsonValue_eq_ok.mpr haccepts

lemma portSchema_eq_ok {port : Port} {schema : Schema} (hnormal : port.schema.Normal)
    (h : portSchema port = .ok schema) : schema = port.schema :=
  (normalizeDataKeySchema_toJson hnormal h).1

/-- The checks that an input has passed. -/
lemma checkInput_eq_ok {e : String × String} (h : checkInput node state e = .ok ()) :
    ∃ port provided required, node.ports.inputs.lookup e.1 = some port ∧
      resolveContractPath state.1 e.2 = .ok (some provided) ∧
      (port.required = true → contractPathRequired state.1 e.2 (some state.2) = .ok true) ∧
      portSchema port = .ok required ∧ schemasCompatible provided.toJson required.toJson = .ok true := by
  obtain ⟨port, hport, h⟩ := Raising.bind_eq_ok.mp h
  obtain ⟨found, hfound, h⟩ := Raising.bind_eq_ok.mp h
  rw [portOf_eq_ok] at hport
  cases found with
  | none => cases h
  | some provided =>
    -- the comparison of the schemas follows the presence check in both branches
    have hcompared : ∀ (checked : Except PyError Unit) (mismatch : Schema → Except PyError Unit),
        (∀ required, mismatch required ≠ .ok ()) →
        (do
          checked
          let required ← portSchema port
          let compatible ← schemasCompatible provided.toJson required.toJson
          if compatible then pure () else mismatch required) = Except.ok () →
        checked = .ok () ∧ ∃ required, portSchema port = .ok required ∧
          schemasCompatible provided.toJson required.toJson = .ok true := by
      intro checked mismatch hmismatch hrun
      obtain ⟨hchecked, hrun⟩ := Raising.seq_eq_ok.mp hrun
      obtain ⟨required, hrequired, hrun⟩ := Raising.bind_eq_ok.mp hrun
      obtain ⟨compatible, hcompatible, hrun⟩ := Raising.bind_eq_ok.mp hrun
      cases compatible with
      | false => exact (hmismatch required hrun).elim
      | true => exact ⟨hchecked, required, hrequired, hcompatible⟩
    have hraises : ∀ (required : Schema) (message : String → String → PyError),
        (do
          let providedLabel ← schemaLabel provided
          let requiredLabel ← schemaLabel required
          throw (message providedLabel requiredLabel) : Except PyError Unit) ≠ .ok () := by
      intro required message hrun
      obtain ⟨_, -, hrun⟩ := Raising.bind_eq_ok.mp hrun
      obtain ⟨_, -, hrun⟩ := Raising.bind_eq_ok.mp hrun
      cases hrun
    dsimp only at h
    by_cases hneeded : port.required = true
    · rw [if_pos hneeded] at h
      obtain ⟨present, hpresent, h⟩ := Raising.bind_eq_ok.mp h
      obtain ⟨hguard, required, hrequired, hcompatible⟩ := hcompared _ _ (fun required => hraises required _) h
      rw [Raising.raiseIf_eq_ok, Bool.not_eq_false] at hguard
      subst hguard
      exact ⟨port, provided, required, hport, hfound, fun _ => hpresent, hrequired, hcompatible⟩
    · rw [if_neg hneeded] at h
      obtain ⟨-, required, hrequired, hcompatible⟩ :=
        hcompared (pure ()) _ (fun required => hraises required _) h
      exact ⟨port, provided, required, hport, hfound, fun hneeded' => (hneeded hneeded').elim, hrequired,
        hcompatible⟩

/-- What a checked input promises of every cycle that conforms to the contracts. -/
lemma checkInput_sound (hdata : Tracked state data) (hnode : node.WellBound) {e : String × String}
    (h : checkInput node state e = .ok ()) : ∃ port path, node.ports.inputs.lookup e.1 = some port ∧
      splitDataPath e.2 = .ok path ∧
      (∀ value, getDataSegments (.obj data) path.parts = some value → port.schema.Accepts value) ∧
      (port.required = true → (getDataSegments (.obj data) path.parts).isSome) := by
  obtain ⟨port, provided, required, hport, hfound, hpresent, hrequired, hcompatible⟩ := checkInput_eq_ok h
  rw [resolveContractPath, hdata.again, Raising.ok_bind] at hfound
  obtain ⟨path, hpath, -⟩ := Raising.bind_eq_ok.mp hfound
  have hnormal := hnode.normal (e.1, port) (List.mem_append_left _ (Dict.lookup_mem hport))
  have hsame := portSchema_eq_ok hnormal hrequired
  subst hsame
  obtain ⟨source, hsource, hcompatible⟩ := Raising.bind_eq_ok.mp hcompatible
  rw [normalizeSchema_toJson hnormal, Raising.ok_bind] at hcompatible
  refine ⟨port, path, hport, hpath, fun value hvalue => ?_, fun hneeded => ?_⟩
  · apply normalizedSchemasCompatible_sound hcompatible value
    apply (accepts_of_normalizeSchema_toJson hsource value).mp
    exact accepts_of_resolved hdata.conforms hpath hfound hvalue
  · have hpathRequired := hpresent hneeded
    rw [contractPathRequired, hdata.again, Raising.ok_bind] at hpathRequired
    obtain ⟨value, hvalue⟩ := exists_of_pathRequired hdata.conforms hpath hpathRequired
    rw [hvalue]
    rfl

/-- One read succeeds, and what it adds is accepted by the port. -/
lemma readInput_step (hdata : Tracked state data) (hnode : node.WellBound) {e : String × String}
    (hchecked : checkInput node state e = .ok ()) {current : List (String × Json)}
    (hcurrent : AcceptedBy node.ports.inputs current) : ∃ after, readInput node data current e = .ok after ∧
      AcceptedBy node.ports.inputs after ∧ (∀ name, Dict.has current name = true → Dict.has after name = true) ∧
      ∀ port, node.ports.inputs.lookup e.1 = some port → port.required = true → Dict.has after e.1 = true := by
  obtain ⟨port, path, hport, hpath, haccepts, hpresent⟩ := checkInput_sound hdata hnode hchecked
  unfold readInput
  rw [hpath, Raising.ok_bind]
  cases hvalue : getDataSegments (.obj data) path.parts with
  | none =>
    have hoptional : port.required = false := by
      by_contra hneeded
      have hsome := hpresent (by simpa using hneeded)
      rw [hvalue] at hsome
      cases hsome
    refine ⟨current, ?_, hcurrent, fun name h => h, fun other hother hneeded => ?_⟩
    · simp [portOf_eq_ok.mpr hport, Raising.ok_bind, hoptional, Raising.raiseIf_eq_ok]
    · rw [hport] at hother
      cases hother
      rw [hoptional] at hneeded
      cases hneeded
  | some value =>
    refine ⟨Dict.set current e.1 value, rfl, fun name x hx => ?_, fun name h => ?_, fun _ _ _ => ?_⟩
    · rw [Dict.lookup_set] at hx
      split_ifs at hx with hname
      · cases hx
        exact ⟨port, hname ▸ hport, haccepts value hvalue⟩
      · exact hcurrent name x hx
    · rw [Dict.has, Dict.lookup_set]
      split_ifs
      · rfl
      · exact h
    · simp [Dict.has]

/-- The reads of a module succeed, and the module accepts what they return. -/
lemma readInputs_sound (hdata : Tracked state data) (hnode : node.WellBound)
    (hchecked : node.inputPlan.forM (checkInput node state) = .ok ()) :
    ∃ inputs, node.inputPlan.foldlM (readInput node data) [] = .ok inputs ∧
      validatePorts node.instanceId "input" "received" node.ports.inputs inputs = .ok () := by
  have hreads : ∀ (plan : List (String × String)) (current : List (String × Json)),
      (∀ e ∈ plan, checkInput node state e = .ok ()) → AcceptedBy node.ports.inputs current →
      ∃ inputs, plan.foldlM (readInput node data) current = .ok inputs ∧
        AcceptedBy node.ports.inputs inputs ∧
        (∀ name, Dict.has current name = true → Dict.has inputs name = true) ∧
        ∀ e ∈ plan, ∀ port, node.ports.inputs.lookup e.1 = some port → port.required = true →
          Dict.has inputs e.1 = true := by
    intro plan
    induction plan with
    | nil => exact fun current _ hcurrent => ⟨current, rfl, hcurrent, fun _ h => h, by simp⟩
    | cons e plan ih =>
      intro current hall hcurrent
      obtain ⟨after, hread, hafter, hkept, hneeded⟩ := readInput_step hdata hnode (hall e (by simp)) hcurrent
      obtain ⟨inputs, hrest, hinputs, hkeptRest, hneededRest⟩ :=
        ih after (fun d hd => hall d (by simp [hd])) hafter
      refine ⟨inputs, ?_, hinputs, fun name h => hkeptRest name (hkept name h), fun d hd port hport hd' => ?_⟩
      · rw [List.foldlM_cons, hread]
        exact hrest
      · rcases List.mem_cons.mp hd with rfl | hd
        · exact hkeptRest _ (hneeded port hport hd')
        · exact hneededRest d hd port hport hd'
  obtain ⟨inputs, hinputs, haccepted, -, hpresent⟩ :=
    hreads node.inputPlan [] (Raising.forM_eq_ok.mp hchecked) (by simp [AcceptedBy])
  refine ⟨inputs, hinputs, validatePorts_eq_ok.mpr ⟨haccepted, fun e he hneeded => ?_⟩⟩
  obtain ⟨dataKey, hbound⟩ := hnode.required e he hneeded
  have hlookup : node.ports.inputs.lookup e.1 = some e.2 := by
    rw [← Dict.mem_items, Dict.items_of_nodup hnode.inputs]
    exact he
  exact hpresent (e.1, dataKey) hbound e.2 hlookup hneeded

end Reads

section Writes

variable {node : TemporaryNode} {state state' : Contracts × List String} {data : DataDict}
  {outputs : List (String × Json)}

/-- The write of one output, or its absence, keeps the contracts in step with the data. -/
lemma storeOutput_step (hdata : Tracked state data) (hnode : node.WellBound) {e : String × String}
    (houtputs : AcceptedBy node.ports.outputs outputs)
    (hrequired : ∀ e ∈ node.ports.outputs, e.2.required = true → Dict.has outputs e.1 = true)
    (hlisted : ListsSegments state') (h : writeOutput node state e = .ok state') :
    ∃ data', storeOutput outputs data e = .ok data' ∧ Tracked state' data' := by
  obtain ⟨port, hport, h⟩ := Raising.bind_eq_ok.mp h
  obtain ⟨schema, hschema, h⟩ := Raising.bind_eq_ok.mp h
  rw [portOf_eq_ok] at hport
  have hmem := Dict.lookup_mem hport
  have hnormal := hnode.normal (e.1, port) (List.mem_append_right _ hmem)
  have hsame := portSchema_eq_ok hnormal hschema
  subst hsame
  have hleft : outputs.lookup e.1 = none → port.required = false := by
    intro hnone
    by_contra hneeded
    have hhas := hrequired (e.1, port) hmem (by simpa using hneeded)
    rw [Dict.has, hnone] at hhas
    cases hhas
  have haccepts : ∀ value, outputs.lookup e.1 = some value → port.schema.Accepts value := by
    intro value hvalue
    obtain ⟨other, hother, haccepts⟩ := houtputs e.1 value hvalue
    rw [hport] at hother
    cases hother
    exact haccepts
  obtain ⟨data', hperform, htracked⟩ :=
    RowMap.writeContractState_step hdata hnormal hleft haccepts hlisted h
  refine ⟨data', ?_, htracked⟩
  unfold storeOutput
  unfold performWrite at hperform
  cases hvalue : outputs.lookup e.1 with
  | none =>
    rw [hvalue] at hperform
    exact hperform
  | some value =>
    rw [hvalue] at hperform
    exact hperform

/-- The writes of a plan, in the order of its modules. -/
def planWrites (nodes : List TemporaryNode) : List (TemporaryNode × String × String) :=
  nodes.flatMap fun node => node.outputPlan.map fun e => (node, e)

def writePort (state : Contracts × List String) (write : TemporaryNode × String × String) :
    Except PyError (Contracts × List String) :=
  writeOutput write.1 state write.2

lemma writePort_foldlM (plan : List (String × String)) :
    (plan.map fun e => (node, e)).foldlM writePort state = plan.foldlM (writeOutput node) state :=
  List.foldlM_map

/-- The writes of a module keep the contracts in step with the data. -/
lemma storeOutputs_sound (hdata : Tracked state data) (hnode : node.WellBound)
    (hvalid : validatePorts node.instanceId "output" "returned" node.ports.outputs outputs = .ok ())
    (hlisted : ListedWrites writePort state (node.outputPlan.map fun e => (node, e)))
    (h : node.outputPlan.foldlM (writeOutput node) state = .ok state') :
    ∃ data', node.outputPlan.foldlM (storeOutput outputs) data = .ok data' ∧ Tracked state' data' := by
  obtain ⟨haccepted, hrequired⟩ := validatePorts_eq_ok.mp hvalid
  generalize node.outputPlan = plan at hlisted h ⊢
  induction plan generalizing state data with
  | nil =>
    cases h
    exact ⟨data, rfl, hdata⟩
  | cons e plan ih =>
    rw [List.foldlM_cons] at h
    obtain ⟨middle, hwrite, h⟩ := Raising.bind_eq_ok.mp h
    rw [List.map_cons] at hlisted
    have hmiddle := hlisted.tail hwrite
    obtain ⟨written, hstore, hwritten⟩ :=
      storeOutput_step hdata hnode haccepted hrequired hmiddle.start hwrite
    obtain ⟨data', hrest, htracked⟩ := ih hwritten hmiddle h
    refine ⟨data', ?_, htracked⟩
    rw [List.foldlM_cons, hstore]
    exact hrest

/-- A module that answers accepted inputs with outputs that its ports accept; optional outputs can be
left out. -/
def Conforming (node : TemporaryNode) (behaviour : Behaviour) : Prop :=
  ∀ inputs, validatePorts node.instanceId "input" "received" node.ports.inputs inputs = .ok () →
    ∃ outputs, behaviour inputs = .ok outputs ∧
      validatePorts node.instanceId "output" "returned" node.ports.outputs outputs = .ok ()

/-- One module runs on a tracked cycle and leaves it tracked by the contracts after the module. -/
theorem runModule_step {behaviour : TemporaryNode → Behaviour} (hdata : Tracked state data)
    (hnode : node.WellBound) (hbehaviour : Conforming node (behaviour node))
    (hlisted : ListedWrites writePort state (node.outputPlan.map fun e => (node, e)))
    (h : advance state node = .ok state') :
    ∃ data', runModule behaviour data node = .ok data' ∧ Tracked state' data' := by
  obtain ⟨hchecked, hwrites⟩ := Raising.seq_eq_ok.mp h
  obtain ⟨inputs, hreads, hinputs⟩ := readInputs_sound hdata hnode hchecked
  obtain ⟨outputs, hcall, houtputs⟩ := hbehaviour inputs hinputs
  obtain ⟨data', hstored, htracked⟩ := storeOutputs_sound hdata hnode houtputs hlisted hwrites
  refine ⟨data', ?_, htracked⟩
  have hinvoke : invoke (behaviour node) node inputs = .ok outputs := by
    rw [invoke, hinputs, Raising.ok_bind, hcall, Raising.ok_bind, houtputs]
    rfl
  rw [runModule, hreads, Raising.ok_bind, hinvoke, Raising.ok_bind]
  exact hstored

/-- The modules of a plan run one after the other. -/
theorem runModules_sound {behaviour : TemporaryNode → Behaviour} {nodes : List TemporaryNode}
    (hdata : Tracked state data) (hnodes : ∀ node ∈ nodes, node.WellBound)
    (hbehaviour : ∀ node ∈ nodes, Conforming node (behaviour node))
    (hlisted : ListedWrites writePort state (planWrites nodes)) (h : nodes.foldlM advance state = .ok state') :
    ∃ data', nodes.foldlM (runModule behaviour) data = .ok data' ∧ Tracked state' data' := by
  induction nodes generalizing state data with
  | nil =>
    cases h
    exact ⟨data, rfl, hdata⟩
  | cons node nodes ih =>
    rw [List.foldlM_cons] at h
    obtain ⟨middle, hadvance, h⟩ := Raising.bind_eq_ok.mp h
    have hwrites := (Raising.seq_eq_ok.mp hadvance).2
    rw [← writePort_foldlM] at hwrites
    have hplan : planWrites (node :: nodes) = (node.outputPlan.map fun e => (node, e)) ++ planWrites nodes :=
      List.flatMap_cons
    obtain ⟨hlistedNode, hlistedRest⟩ := (hplan ▸ hlisted).append hwrites
    obtain ⟨written, hrun, hwritten⟩ :=
      runModule_step hdata (hnodes node (by simp)) (hbehaviour node (by simp)) hlistedNode hadvance
    obtain ⟨data', hrest, htracked⟩ := ih hwritten (fun d hd => hnodes d (by simp [hd]))
      (fun d hd => hbehaviour d (by simp [hd])) hlistedRest h
    refine ⟨data', ?_, htracked⟩
    rw [List.foldlM_cons, hrun]
    exact hrest

lemma requiredRoots_subset_writeOutput {e : String × String} (h : writeOutput node state e = .ok state') :
    state.2 ⊆ state'.2 := by
  obtain ⟨port, -, h⟩ := Raising.bind_eq_ok.mp h
  obtain ⟨schema, -, h⟩ := Raising.bind_eq_ok.mp h
  obtain ⟨-, -, -, -, -, -, -, -, hroots⟩ := RowMap.writeContractState_eq_ok h
  obtain ⟨path, -, hroots⟩ := Raising.bind_eq_ok.mp hroots
  rw [Raising.pure_eq_ok] at hroots
  intro root hroot
  rw [← hroots]
  split_ifs
  · exact List.mem_insert_of_mem hroot
  · exact hroot

/-- A plan keeps the required roots of the result. -/
lemma requiredRoots_subset {nodes : List TemporaryNode} (h : nodes.foldlM advance state = .ok state') :
    state.2 ⊆ state'.2 := by
  refine Raising.foldlM_invariant (fun s : Contracts × List String => state.2 ⊆ s.2) ?_
    (List.Subset.refl _) h
  intro before after node _ hbefore hadvance
  obtain ⟨-, hwrites⟩ := Raising.seq_eq_ok.mp hadvance
  refine Raising.foldlM_invariant (fun s : Contracts × List String => state.2 ⊆ s.2) ?_ hbefore hwrites
  exact fun s s' e _ hs hwrite => List.Subset.trans hs (requiredRoots_subset_writeOutput hwrite)

end Writes

section Soundness

variable {repository : ModuleRepository} {dataKeys : List (String × Json)} {modules : Json}
  {plan : TemporaryPlan} {processor : ResultCycleProcessor}

/-- The contracts of the result, and the contracts after every write of the plan, list only members named by
DataKey segments. -/
def ListedPlan (dataKeys : List (String × Json)) (plan : TemporaryPlan) : Prop :=
  ∀ initial requiredRoots, initialContracts dataKeys = .ok initial →
    requiredRootKeys dataKeys = .ok requiredRoots →
      ListedWrites writePort (initial, requiredRoots) (planWrites plan.nodes)

/-- The parts of a compiled plan. -/
lemma compileTemporaryModulePlan_eq_ok (h : compileTemporaryModulePlan repository dataKeys modules = .ok plan) :
    ∃ initial requiredRoots, initialContracts dataKeys = .ok initial ∧
      requiredRootKeys dataKeys = .ok requiredRoots ∧
      plan.nodes.foldlM advance (initial, requiredRoots) = .ok (plan.contracts, plan.requiredRoots) ∧
      ∀ node ∈ plan.nodes, ∃ module ∈ listedModules modules, ∃ known index,
        bindModule repository known index module = .ok node := by
  obtain ⟨initial, hinitial, h⟩ := Raising.bind_eq_ok.mp h
  obtain ⟨requiredRoots, hroots, h⟩ := Raising.bind_eq_ok.mp h
  obtain ⟨nodes, hnodes, h⟩ := Raising.bind_eq_ok.mp h
  obtain ⟨dependencies, -, h⟩ := Raising.bind_eq_ok.mp h
  obtain ⟨ordered, hordered, h⟩ := Raising.bind_eq_ok.mp h
  obtain ⟨state, hstate, h⟩ := Raising.bind_eq_ok.mp h
  rw [Raising.pure_eq_ok] at h
  subst h
  refine ⟨initial, requiredRoots, hinitial, hroots, hstate, fun node hnode => ?_⟩
  exact declareModules_eq_ok hnodes node ((mem_orderModules hordered node).mp hnode)

/-- The processor transforms every cycle that the base validator passes, and the final validator passes
what it returns. -/
theorem transform_sound (hplan : compileTemporaryModulePlan repository dataKeys modules = .ok plan)
    (hentered : ResultCycleProcessor.entered dataKeys plan = .ok processor)
    (hlisted : ListedPlan dataKeys plan) {behaviour : TemporaryNode → Behaviour}
    (hbehaviour : ∀ node ∈ plan.nodes, Conforming node (behaviour node)) {data : DataDict}
    (hvalid : processor.baseValidator.validate (.obj data) = .ok ()) :
    ∃ transformed, processor.transform behaviour data = .ok transformed ∧
      processor.finalValidator.validate (.obj transformed) = .ok () := by
  obtain ⟨initial, requiredRoots, hinitial, hroots, hnodes, hmodules⟩ :=
    compileTemporaryModulePlan_eq_ok hplan
  obtain ⟨baseValidator, hbase, hentered⟩ := Raising.bind_eq_ok.mp hentered
  obtain ⟨declarations, hdeclared, hentered⟩ := Raising.bind_eq_ok.mp hentered
  obtain ⟨finalValidator, hfinal, hentered⟩ := Raising.bind_eq_ok.mp hentered
  rw [Raising.pure_eq_ok] at hentered
  subst hentered
  have hsegments : ∀ root ∈ requiredRoots, isPathSegment root = true := fun root hroot =>
    isPathSegment_of_declared hdeclared root (requiredRoots_subset hnodes hroot)
  have hwrites := hlisted initial requiredRoots hinitial hroots
  have htracked := tracked_of_validate hwrites.start hinitial hroots hsegments hbase hvalid
  have hbound : ∀ node ∈ plan.nodes, node.WellBound := by
    intro node hnode
    obtain ⟨module, -, known, index, hbind⟩ := hmodules node hnode
    exact (bindModule_eq_ok hbind).1
  obtain ⟨transformed, hrun, hafter⟩ := runModules_sound htracked hbound hbehaviour hwrites hnodes
  have hpassed := validate_of_tracked hafter hdeclared hfinal
  refine ⟨transformed, ?_, hpassed⟩
  rw [ResultCycleProcessor.transform, hrun, Raising.ok_bind, hpassed]
  rfl

/-- The data of a cycle that `require_cycle` lets through. -/
lemma validate_of_requireCycle {σ : Type} {validator : DataJsonValidator} {index cycleId : String}
    {claim : σ → String → Except PyError Bool × σ} {cycle : Json} {cycleIds : σ}
    (h : (requireCycle validator.validate claim cycle index cycleIds).1 = .ok cycleId) :
    validator.validate (.obj (membersOf (field (membersOf cycle) "data"))) = .ok () := by
  unfold requireCycle at h
  cases hidentity : cycleIdentity cycle index with
  | error e =>
    rw [hidentity] at h
    cases h
  | ok found =>
    rw [hidentity] at h
    obtain ⟨_, -, h⟩ := Raising.bind_eq_ok.mp h
    obtain ⟨-, h⟩ := Raising.seq_eq_ok.mp h
    obtain ⟨hcontent, -⟩ := Raising.seq_eq_ok.mp h
    obtain ⟨-, hvalid⟩ := Raising.seq_eq_ok.mp hcontent
    cases hdata : field (membersOf cycle) "data" with
    | obj data =>
      rw [hdata] at hvalid
      exact hvalid
    | _ =>
      rw [hdata] at hvalid
      cases hvalid

/-- A cycle that passes the base result validator is prepared: no required read fails, and the new data
passes the final validator. -/
theorem prepareCycle_sound {σ : Type} (hplan : compileTemporaryModulePlan repository dataKeys modules = .ok plan)
    (hentered : ResultCycleProcessor.entered dataKeys plan = .ok processor)
    (hlisted : ListedPlan dataKeys plan) {behaviour : TemporaryNode → Behaviour}
    (hbehaviour : ∀ node ∈ plan.nodes, Conforming node (behaviour node))
    {claim : σ → String → Except PyError Bool × σ} {index : ℕ} {cycle : Json} {cycleIds : σ} {cycleId : String}
    (hcycle : (requireCycle processor.baseValidator.validate claim cycle s!"{index}" cycleIds).1 = .ok cycleId) :
    ∃ transformed, (processor.prepareCycle behaviour claim index cycle cycleIds).1 =
        .ok (.obj (Dict.set (membersOf cycle) "data" (.obj transformed))) ∧
      processor.finalValidator.validate (.obj transformed) = .ok () := by
  have hbase := validate_of_requireCycle hcycle
  obtain ⟨transformed, htransform, hpassed⟩ := transform_sound hplan hentered hlisted hbehaviour hbase
  refine ⟨transformed, ?_, hpassed⟩
  unfold ResultCycleProcessor.prepareCycle
  dsimp only
  rw [hcycle, Raising.ok_bind, htransform]
  rfl

/-- The schemas of the ports that the outputs of a temporary module are bound to name members by DataKey
segments. -/
def NamedModule (repository : ModuleRepository) (module : Json) : Prop :=
  ∀ definition ports, ResolvesTo repository module definition →
    normalizePorts definition.ports "Module ports" = .ok ports →
    ∀ e ∈ Dict.items (membersOf (field (membersOf module) "outputs")), ∀ port,
      ports.outputs.lookup e.1 = some port → port.schema.SegmentNamed

/-- A plan lists only members named by DataKey segments when the schemas of the result and of the bound outputs
name no others. -/
theorem listedPlan_of_named (hplan : compileTemporaryModulePlan repository dataKeys modules = .ok plan)
    (hkeys : NamedKeys dataKeys) (hmodules : ∀ module ∈ listedModules modules, NamedModule repository module) :
    ListedPlan dataKeys plan := by
  intro initial requiredRoots hinitial _
  obtain ⟨_, _, -, -, -, hnodes⟩ := compileTemporaryModulePlan_eq_ok hplan
  refine RowMap.listedWrites_of_named (namedState_of_initial hkeys hinitial) ?_
  intro write hwrite before after hbefore hstep
  obtain ⟨node, hnode, hbound⟩ := List.mem_flatMap.mp hwrite
  obtain ⟨e, he, rfl⟩ := List.mem_map.mp hbound
  obtain ⟨module, hmodule, known, index, hbind⟩ := hnodes node hnode
  obtain ⟨hnodeBound, definition, hresolves, hports, houtputs⟩ := bindModule_eq_ok hbind
  obtain ⟨port, hport, hstep⟩ := Raising.bind_eq_ok.mp hstep
  obtain ⟨schema, hschema, hstep⟩ := Raising.bind_eq_ok.mp hstep
  rw [portOf_eq_ok] at hport
  have hnormal := hnodeBound.normal (e.1, port) (List.mem_append_right _ (Dict.lookup_mem hport))
  have hsame := portSchema_eq_ok hnormal hschema
  subst hsame
  have hnamed := hmodules module hmodule definition node.ports hresolves hports _ (houtputs e he) port hport
  exact RowMap.writeContractState_named hbefore hnormal hnamed hstep

section Instances

/-- The declaration of one DataKey. -/
def declaredKey (dataKey : String) (schema : Schema) (required : Bool) : String × Json :=
  (dataKey, .obj [("label", .str dataKey), ("schema", schema.toJson), ("required", .bool required),
    ("source", declaredSource dataKey), ("encoding", declaredEncoding dataKey)])

/-- An archive with one module, which reads and writes an integer. -/
def counterArchive : ModuleRepository where
  resolve _ moduleId _ := pure ⟨"Signal", moduleId, "1.0.0", .obj [], .obj [
    ("inputs", .obj [("last", .obj [("schema", integerSchema.toJson), ("required", .bool true)])]),
    ("outputs", .obj [("next", .obj [("schema", integerSchema.toJson), ("required", .bool true)])])]⟩
  validateConfig _ _ _ := pure ()
  bindInvocation _ _ := pure ()

/-- The module reads DataKey "n" and writes DataKey "m". -/
def counterModules : Json := .arr [.obj [("instanceId", .str "counter"), ("kind", .str "Signal"),
  ("moduleId", .str "counter"), ("version", .str "1.0.0"), ("config", .obj []),
  ("inputs", .obj [("last", .str "n")]), ("outputs", .obj [("next", .str "m")])]]

def counterBehaviour : Behaviour := fun _ => pure [("next", .int 1)]

def counterCycle (data : DataDict) : Json := .obj [("schemaVersion", .int 3), ("cycleId", .str "c1"),
  ("decisionTime", .str "2024-01-01T00:00:00Z"), ("data", .obj data)]

def claimOnce (ids : List String) (id : String) : Except PyError Bool × List String :=
  (pure (decide (id ∉ ids)), id :: ids)

/-- What the compiler and the processor make of the module over a result, with the checks of its outputs. -/
def counterRun (dataKeys : List (String × Json)) (check : ResultCycleProcessor → Bool) : Except PyError Bool := do
  let plan ← compileTemporaryModulePlan counterArchive dataKeys counterModules
  let processor ← ResultCycleProcessor.entered dataKeys plan
  pure ((plan.nodes.all fun node =>
    (validatePorts node.instanceId "output" "returned" node.ports.outputs [("next", .int 1)]).toBool) &&
      check processor)

lemma counterRun_eq_true {check : ResultCycleProcessor → Bool} (h : counterRun dataKeys check = .ok true) :
    ∃ plan processor, compileTemporaryModulePlan counterArchive dataKeys counterModules = .ok plan ∧
      ResultCycleProcessor.entered dataKeys plan = .ok processor ∧
      (∀ node ∈ plan.nodes, Conforming node counterBehaviour) ∧ check processor = true := by
  obtain ⟨plan, hplan, h⟩ := Raising.bind_eq_ok.mp h
  obtain ⟨processor, hprocessor, h⟩ := Raising.bind_eq_ok.mp h
  rw [Raising.pure_eq_ok, Bool.and_eq_true, List.all_eq_true] at h
  refine ⟨plan, processor, hplan, hprocessor, fun node hnode inputs _ => ?_, h.2⟩
  exact ⟨_, rfl, Raising.toBool_eq_true.mp (h.1 node hnode)⟩

lemma namedModule_counter : ∀ module ∈ listedModules counterModules, NamedModule counterArchive module := by
  intro module hmodule definition ports hresolves hports e he port hport
  obtain ⟨_, -, hdefinition⟩ := hresolves
  cases hdefinition
  simp only [normalizePorts, Raising.bind_eq_ok, Raising.pure_eq_ok] at hports
  obtain ⟨directions, hfields, inputs, -, outputs, houtputs, rfl⟩ := hports
  have hdirections := requireExactFields_eq_ok hfields
  cases hdirections
  obtain ⟨declared, hdeclared, hread⟩ := Related.exists_mem_left (Raising.mapM_eq_ok.mp houtputs)
    (Dict.lookup_mem hport)
  simp only [normalizePort, Raising.bind_eq_ok, Raising.pure_eq_ok] at hread
  obtain ⟨-, -, spec, hspec, -, -, schema, hschema, heq⟩ := hread
  cases List.mem_singleton.mp (Dict.items_subset _ hdeclared)
  have hfound := requireExactFields_eq_ok hspec
  cases hfound
  obtain ⟨-, rfl⟩ := Prod.mk.inj heq
  exact segmentNamed_normalizeDataKeySchema hschema integerSchema_named

/-- A result with a required integer "n", which the module reads. -/
theorem prepareCycle_sound_counter : ∃ plan processor,
    compileTemporaryModulePlan counterArchive [declaredKey "n" integerSchema true] counterModules = .ok plan ∧
    ResultCycleProcessor.entered [declaredKey "n" integerSchema true] plan = .ok processor ∧
    ∃ transformed, (processor.prepareCycle (fun _ => counterBehaviour) claimOnce 0
        (counterCycle [("n", .int 0)]) []).1 =
        .ok (.obj (Dict.set (membersOf (counterCycle [("n", .int 0)])) "data" (.obj transformed))) ∧
      processor.finalValidator.validate (.obj transformed) = .ok () := by
  have hrun : counterRun [declaredKey "n" integerSchema true] (fun processor => decide
      ((requireCycle processor.baseValidator.validate claimOnce (counterCycle [("n", .int 0)]) "0" []).1 =
        .ok "c1")) = .ok true := by with_unfolding_all decide
  obtain ⟨plan, processor, hplan, hprocessor, hbehaviour, hcycle⟩ := counterRun_eq_true hrun
  have hkeys : NamedKeys [declaredKey "n" integerSchema true] := by
    intro e he schema hschema
    cases List.mem_singleton.mp (Dict.items_subset _ he)
    exact segmentNamed_normalizeDataKeySchema hschema integerSchema_named
  exact ⟨plan, processor, hplan, hprocessor, prepareCycle_sound hplan hprocessor
    (listedPlan_of_named hplan hkeys namedModule_counter) hbehaviour (of_decide_eq_true hcycle)⟩

/-- A member named "x.y" is listed under the path of a member below "x"; the first write re-expands the
contracts and then demands that member of every cycle. -/
theorem prepareCycle_unsound :
    let dataKeys := [declaredKey "n" integerSchema true,
      declaredKey "a" (objectSchema [("x.y", integerSchema)] [] (some .never)) true]
    let cycle := counterCycle [("n", .int 0), ("a", .obj [])]
    ∃ plan processor, compileTemporaryModulePlan counterArchive dataKeys counterModules = .ok plan ∧
      ResultCycleProcessor.entered dataKeys plan = .ok processor ∧
      (∀ node ∈ plan.nodes, Conforming node counterBehaviour) ∧
      (requireCycle processor.baseValidator.validate claimOnce cycle "0" []).1 = .ok "c1" ∧
      (processor.prepareCycle (fun _ => counterBehaviour) claimOnce 0 cycle []).1 =
        .error (.valueError "Required field 'a.x' is missing.") := by
  intro dataKeys cycle
  have hrun : counterRun dataKeys (fun processor =>
      decide ((requireCycle processor.baseValidator.validate claimOnce cycle "0" []).1 = .ok "c1") &&
        decide ((processor.prepareCycle (fun _ => counterBehaviour) claimOnce 0 cycle []).1.map
          (fun _ => ()) = .error (.valueError "Required field 'a.x' is missing."))) = .ok true := by
    with_unfolding_all decide
  obtain ⟨plan, processor, hplan, hprocessor, hbehaviour, hchecks⟩ := counterRun_eq_true hrun
  obtain ⟨hcycle, hraises⟩ := Bool.and_eq_true_iff.mp hchecks
  refine ⟨plan, processor, hplan, hprocessor, hbehaviour, of_decide_eq_true hcycle, ?_⟩
  rw [decide_eq_true_eq] at hraises
  cases hprepared : (processor.prepareCycle (fun _ => counterBehaviour) claimOnce 0 cycle []).1 with
  | error e =>
    rw [hprepared] at hraises
    rw [Except.error.inj hraises]
  | ok _ =>
    rw [hprepared] at hraises
    cases hraises

end Instances

end Soundness

end TradeFramework.Results
