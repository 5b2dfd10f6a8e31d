import TradeFramework.Sampling.RowMap
import Mathlib.Data.List.TakeWhile

/-!
# Contract states written one DataKey at a time

A contract state that is written key by key is expanded again before every write. As long as every map
that is written lists only members named by DataKey segments, the expansion changes nothing, every declared
root is required, and the value that the runtime writes in step conforms.
-/

namespace TradeFramework.RowMap

open ExpandedContractWriteReducer

section Roots

variable {key : String} {path : DataPath}

lemma mem_stripText {text : List Char} {c : Char} (h : c ∈ text) :
    isSpace c = true ∨ c ∈ stripText text := by
  have hdrop : ∀ (chars : List Char), c ∈ chars → isSpace c = true ∨ c ∈ chars.dropWhile isSpace := by
    intro chars hc
    rw [← List.takeWhile_append_dropWhile (p := isSpace) (l := chars), List.mem_append] at hc
    exact hc.imp_left fun hc => by simpa using List.mem_takeWhile_imp hc
  rcases hdrop text h with hspace | hmem
  · exact .inl hspace
  · have hreverse := hdrop _ (List.mem_reverse.mpr hmem)
    unfold stripText
    rw [List.mem_reverse]
    exact hreverse

/-- The path of a root has no dot in its text. -/
lemma dot_notMem_of_root (h : splitDataPath key = .ok path) (hrest : path.rest = []) : '.' ∉ key.toList := by
  intro hdot
  rcases mem_stripText hdot with hspace | hmem
  · have hdotSpace : isSpace '.' = false := by decide
    rw [hdotSpace] at hspace
    cases hspace
  · have hparts := congrArg List.length (splitDataPath_eq_ok h)
    have hlength : path.parts.length = 1 := by simp [DataPath.parts, hrest]
    rw [List.length_map, hlength] at hparts
    have hjoin := @List.intercalate_splitOn _ (stripText key.toList) _ _ '.'
    obtain ⟨part, hpart⟩ := List.length_eq_one_iff.mp hparts
    have hvalid : '.' ∉ part := by
      have hsegment : String.ofList part ∈ path.parts := by
        rw [← splitDataPath_eq_ok h, hpart]
        simp
      have hdotless := dot_notMem_of_isPathSegment (path.valid _ hsegment)
      simpa using hdotless
    rw [hpart] at hjoin
    have hsame : part = stripText key.toList := by simpa using hjoin
    exact hvalid (hsame ▸ hmem)

variable {contracts : List (String × Json)} {expanded : Contracts}

/-- The root entries of an expansion are under the roots themselves. -/
lemma isPathSegment_of_root (h : expandContracts contracts = .ok expanded) {schema : Schema}
    (hlookup : expanded.lookup key = some schema) (hsplit : splitDataPath key = .ok path)
    (hrest : path.rest = []) : isPathSegment key = true ∧ path.root = key := by
  obtain ⟨explicit, hexplicit, -, hnone⟩ := expandContracts_roots h
  have hsegment : isPathSegment key = true := by
    by_cases hname : key ∈ childNames explicit
    · exact isPathSegment_of_mem_childNames hexplicit hname
    · have hmissing := hnone key (dot_notMem_of_root hsplit hrest) hname
      rw [hmissing] at hlookup
      cases hlookup
  refine ⟨hsegment, ?_⟩
  rw [splitDataPath_segment hsegment] at hsplit
  cases hsplit
  rfl

/-- Every root of an expansion is declared by some entry. -/
lemma exists_declaration (h : expandContracts contracts = .ok expanded) {root : String} {schema : Schema}
    (hroot : isPathSegment root = true) (hlookup : expanded.lookup root = some schema) :
    ∃ entry ∈ Dict.items contracts, ∃ path, splitDataPath entry.1 = .ok path ∧ path.root = root := by
  obtain ⟨explicit, hexplicit, -, hnone⟩ := expandContracts_roots h
  have hname : root ∈ childNames explicit := by
    by_contra hname
    have hmissing := hnone root (dot_notMem_of_isPathSegment hroot) hname
    rw [hmissing] at hlookup
    cases hlookup
  have hdeclared : ∀ e ∈ explicit, ∃ entry ∈ Dict.items contracts, ∃ path,
      splitDataPath entry.1 = .ok path ∧ e.1 = path.parts := by
    refine Raising.foldlM_invariant (fun explicit : List (List String × Schema) => ∀ e ∈ explicit,
      ∃ entry ∈ Dict.items contracts, ∃ path, splitDataPath entry.1 = .ok path ∧ e.1 = path.parts)
      ?_ (by simp) hexplicit
    intro before after entry hentry hbefore hstep e he
    simp only [declareContract, Raising.bind_eq_ok, Raising.pure_eq_ok] at hstep
    obtain ⟨path, hpath, normalized, -, ⟨⟩, -, rfl⟩ := hstep
    rcases Dict.mem_set he with rfl | he
    · exact ⟨entry, hentry, path, hpath, rfl⟩
    · exact hbefore e he
  obtain ⟨rest, value, hmem⟩ := mem_childNames.mp hname
  obtain ⟨entry, hentry, path, hpath, hparts⟩ := hdeclared _ hmem
  exact ⟨entry, hentry, path, hpath, (List.cons.inj hparts).1.symm⟩

end Roots

section Paths

lemma splitParts_eq {key : String} {path : DataPath} (h : splitDataPath key = .ok path) (hkey : Unpadded key) :
    splitParts key = path.parts := by
  rw [← splitDataPath_eq_ok h, hkey]
  rfl

/-- Where the write of the engine succeeds, the write of the asset does the same. -/
lemma setPath_of_set {walked rest : List String} {data data' : DataDict} {segment path : String} {value : Json}
    (h : setSegmentsBelow walked data segment rest value = .ok data') :
    setPath path data (segment :: rest) value = .ok data' := by
  induction rest generalizing walked data data' segment with
  | nil =>
    rw [setSegmentsBelow] at h
    obtain ⟨-, -, h⟩ := Raising.bind_eq_ok.mp h
    exact h
  | cons next rest ih =>
    rw [setSegmentsBelow] at h
    simp only [Raising.bind_eq_ok, Raising.pure_eq_ok] at h
    obtain ⟨node, hnode, updated, hupdated, rfl⟩ := h
    unfold objectAt at hnode
    rw [setPath]
    have hwritten := ih hupdated
    split at hnode
    case h_1 hlookup =>
      cases hnode
      simp only [hlookup, Raising.pure_eq_ok, Raising.bind_eq_ok]
      exact ⟨[], rfl, updated, hwritten, rfl⟩
    case h_2 existing hlookup =>
      cases hnode
      simp only [hlookup, Raising.pure_eq_ok, Raising.bind_eq_ok]
      exact ⟨_, rfl, updated, hwritten, rfl⟩
    case h_3 => cases hnode

end Paths

section States

variable {state state' : Contracts × List String} {data : DataDict}

/-- A contract state that its expansion does not change, with a Data Dict that conforms to it. -/
structure Tracked (state : Contracts × List String) (data : DataDict) : Prop where
  again : expandContracts state.1.toDocuments = .ok state.1
  conforms : Conforms state.1 state.2 data

/-- A written contract state with a Data Dict that was written in step. -/
structure Written (state : Contracts × List String) (data : DataDict) : Prop extends Tracked state data where
  required : ∀ root schema, isPathSegment root = true → state.1.lookup root = some schema → root ∈ state.2

lemma written_nil : Written ([], []) [] where
  again := rfl
  conforms := ⟨by simp, by simp⟩
  required := by simp

/-- A contract state whose map lists, below its roots, only members named by DataKey segments. -/
def ListsSegments (state : Contracts × List String) : Prop :=
  RootsNamedBy (fun name => isPathSegment name = true) state.1

/-- A materialized map that lists only DataKey segments expands to itself. -/
lemma again_of_materialize {reducer : ExpandedContractWriteReducer} {contracts : Contracts}
    {requiredRoots : List String} (h : reducer.materialize = .ok (contracts, requiredRoots))
    (hlisted : RootsNamedBy (fun name => isPathSegment name = true) contracts) :
    expandContracts contracts.toDocuments = .ok contracts := by
  obtain ⟨expanded, hexpanded, h⟩ := Raising.bind_eq_ok.mp h
  cases h
  exact expandContracts_again hexpanded ((listsOnly_iff hexpanded).mpr hlisted)

/-- The root schemas a reducer starts from are entries of the map, under the text of a root path. -/
lemma init_lookup {contracts : Contracts} {requiredRoots : List String} {reducer : ExpandedContractWriteReducer}
    (h : init contracts requiredRoots = .ok reducer) {key : String} {schema : Schema}
    (hlookup : reducer.rootSchemas.lookup key = some schema) : contracts.lookup key = some schema ∧
      ∃ path, splitDataPath key = .ok path ∧ path.rest = [] := by
  have hmem := Dict.lookup_mem hlookup
  simp only [init, Raising.bind_eq_ok, Raising.pure_eq_ok] at h
  obtain ⟨declared, hdeclared, ⟨⟩, -, rfl⟩ := h
  obtain ⟨d, hd, heq⟩ := List.mem_map.mp hmem
  obtain ⟨hin, hrest⟩ := List.mem_filter.mp hd
  obtain ⟨e, he, hread⟩ := Related.exists_mem_left (Raising.mapM_eq_ok.mp hdeclared) hin
  obtain ⟨path, hpath, rfl⟩ := Raising.map_eq_ok.mp (by simpa using hread)
  have hentry : e = (key, schema) := heq
  subst hentry
  exact ⟨Dict.mem_items.mp he, path, hpath, by simpa using hrest⟩

variable {key : String} {schema : Schema} {required : Bool}

lemma writeContractState_eq_ok (h : writeContractState state.1 state.2 key schema required = .ok state') :
    ∃ expanded start reducer roots, expandContracts state.1.toDocuments = .ok expanded ∧
      init expanded state.2 = .ok start ∧ start.apply ⟨key, schema.toJson, required⟩ = .ok reducer ∧
      reducer.materialize = .ok (state'.1, roots) ∧ writeRequiredRoots state.2 key required = .ok state'.2 := by
  obtain ⟨expanded, hexpanded, h⟩ := Raising.bind_eq_ok.mp h
  obtain ⟨updated, hupdated, h⟩ := Raising.bind_eq_ok.mp h
  obtain ⟨roots, hroots, h⟩ := Raising.bind_eq_ok.mp h
  obtain ⟨start, hinit, hupdated⟩ := Raising.bind_eq_ok.mp hupdated
  obtain ⟨reducer, happly, hmaterialize⟩ := Raising.bind_eq_ok.mp hupdated
  rw [applyMany, List.foldlM_cons, Raising.bind_eq_ok] at happly
  obtain ⟨written, happly, hnil⟩ := happly
  rw [List.foldlM_nil, Raising.pure_eq_ok] at hnil
  rw [Raising.pure_eq_ok] at h
  subst hnil h
  exact ⟨expanded, start, written, updated.2, hexpanded, hinit, happly, hmaterialize, hroots⟩

lemma writeRequiredRoots_eq {requiredRoots roots : List String} {path : DataPath}
    (hpath : splitDataPath key = .ok path) (h : writeRequiredRoots requiredRoots key required = .ok roots) :
    roots = if required then requiredRoots.insert path.root else requiredRoots := by
  simp only [writeRequiredRoots, hpath, Raising.ok_bind, Raising.pure_eq_ok] at h
  exact h.symm

/-- One write keeps the state tracked, whatever accepted value it stores; an optional write can be
left out. -/
theorem writeContractState_step {stored : Option Json} (hdata : Tracked state data) (hnormal : schema.Normal)
    (hleft : stored = none → required = false) (haccepts : ∀ value, stored = some value → schema.Accepts value)
    (hlisted : ListsSegments state') (h : writeContractState state.1 state.2 key schema required = .ok state') :
    ∃ data', performWrite data (⟨key, schema.toJson, required⟩, stored) = .ok data' ∧ Tracked state' data' := by
  obtain ⟨expanded, start, reducer, roots, hexpanded, hinit, happly, hmaterialize, hroots⟩ :=
    writeContractState_eq_ok h
  have hsameMap : state.1 = expanded := Except.ok.inj (hdata.again.symm.trans hexpanded)
  subst hsameMap
  obtain ⟨hsame, hrootsOnly, -⟩ := init_rootSchemas hinit
  have hread := normalizeSchema_toJson hnormal
  have hallowed : WriteAllowed (⟨key, schema.toJson, required⟩, stored) := by
    unfold WriteAllowed validateJsonValue
    cases stored with
    | none => exact hleft rfl
    | some value =>
      dsimp only
      rw [hread, Raising.ok_bind]
      exact validateNormalizedJsonValue_eq_ok.mpr (haccepts value rfl)
  have hperformed : ∃ data', performWrite data (⟨key, schema.toJson, required⟩, stored) = .ok data' ∧
      Conforms reducer.rootSchemas reducer.requiredRoots data' :=
    performWrite_sound (init_conforms hinit hdata.conforms) happly hallowed
  obtain ⟨data', hperform, hconforms⟩ := hperformed
  have hfinal := materialize_conforms (apply_rootsOnly hrootsOnly happly) hmaterialize hconforms
  have hagain := again_of_materialize hmaterialize hlisted
  simp only [apply, Raising.bind_eq_ok, Raising.pure_eq_ok] at happly
  obtain ⟨path, hpath, value, hvalue, updated, hupdated, rfl⟩ := happly
  obtain ⟨documents, hdocuments, hmaterialized⟩ := Raising.bind_eq_ok.mp hmaterialize
  obtain ⟨rfl, hreducerRoots⟩ := Prod.mk.inj (Raising.pure_eq_ok.mp hmaterialized)
  have hsameRoots : state'.2 = roots := by
    rw [writeRequiredRoots_eq hpath hroots, ← hsame, ← hreducerRoots]
  exact ⟨data', hperform, hagain, hsameRoots ▸ hfinal⟩

/-- A state that its expansion does not change and whose map names members by DataKey segments. -/
structure NamedState (state : Contracts × List String) : Prop where
  again : expandContracts state.1.toDocuments = .ok state.1
  named : NamedMap state.1

/-- A write of a named schema keeps the state named. -/
lemma writeContractState_named (hstate : NamedState state) (hnormal : schema.Normal)
    (hnamed : schema.SegmentNamed) (h : writeContractState state.1 state.2 key schema required = .ok state') :
    NamedState state' := by
  obtain ⟨expanded, start, reducer, roots, hexpanded, hinit, happly, hmaterialize, -⟩ :=
    writeContractState_eq_ok h
  have hsameMap : state.1 = expanded := Except.ok.inj (hstate.again.symm.trans hexpanded)
  subst hsameMap
  have hstart : NamedRoots start.rootSchemas := by
    intro root s hs
    obtain ⟨hlookup, path, hpath, hrest⟩ := init_lookup hinit hs
    obtain ⟨hsegment, -⟩ := isPathSegment_of_root hstate.again hlookup hpath hrest
    exact hstate.named root s hsegment hlookup
  have hwritten : NamedMap state'.1 := by
    refine materialize_named hmaterialize (apply_namedRoots happly hstart fun s hs => ?_)
    rw [normalizeSchema_toJson hnormal] at hs
    exact Except.ok.inj hs ▸ hnamed
  exact ⟨again_of_materialize hmaterialize hwritten.rootsNamedBy, hwritten⟩

/-- A required write to a state whose declared roots are all required. -/
lemma mem_roots_of_write (hagain : expandContracts state.1.toDocuments = .ok state.1)
    (hrequired : ∀ root schema, isPathSegment root = true → state.1.lookup root = some schema → root ∈ state.2)
    (h : writeContractState state.1 state.2 key schema true = .ok state') {root : String} {s : Schema}
    (hsegment : isPathSegment root = true) (hs : state'.1.lookup root = some s) : root ∈ state'.2 := by
  obtain ⟨expanded, start, reducer, roots, hexpanded, hinit, happly, hmaterialize, hroots⟩ :=
    writeContractState_eq_ok h
  have hsameMap : state.1 = expanded := Except.ok.inj (hagain.symm.trans hexpanded)
  subst hsameMap
  simp only [apply, Raising.bind_eq_ok, Raising.pure_eq_ok] at happly
  obtain ⟨path, hpath, -, -, updated, -, rfl⟩ := happly
  obtain ⟨documents, hdocuments, hmaterialized⟩ := Raising.bind_eq_ok.mp hmaterialize
  obtain ⟨rfl, -⟩ := Prod.mk.inj (Raising.pure_eq_ok.mp hmaterialized)
  obtain ⟨entry, hentry, declared, hdeclared, rfl⟩ := exists_declaration hdocuments hsegment hs
  rw [writeRequiredRoots_eq hpath hroots, if_pos rfl, List.mem_insert_iff]
  rw [Contracts.toDocuments, Dict.items_mapValues] at hentry
  obtain ⟨⟨k, v⟩, hmem, rfl⟩ := List.mem_map.mp hentry
  rw [Dict.mem_items, lookup_rewritten] at hmem
  dsimp only at hdeclared
  split_ifs at hmem with hk
  · subst hk
    rw [splitDataPath_segment (path.valid path.root (by simp))] at hdeclared
    cases hdeclared
    exact .inl rfl
  · obtain ⟨hlookup, other, hother, hrest⟩ := init_lookup hinit hmem
    obtain ⟨hk, hroot⟩ := isPathSegment_of_root hagain hlookup hother hrest
    rw [hother] at hdeclared
    cases hdeclared
    exact .inr (hroot ▸ hrequired k v hk hlookup)

/-- One required write keeps the state written in step. -/
theorem writeField_step {value : Json} (hdata : Written state data) (hkey : Unpadded key)
    (hnormal : schema.Normal) (haccepts : schema.Accepts value) (hlisted : ListsSegments state')
    (h : writeField state (key, schema) = .ok state') :
    ∃ data', setPath key data (splitParts key) value = .ok data' ∧ Written state' data' := by
  have hstored : ∀ value', some value = some value' → schema.Accepts value' := by simpa using haccepts
  obtain ⟨data', hperform, htracked⟩ :=
    writeContractState_step hdata.toTracked hnormal (by simp) hstored hlisted h
  obtain ⟨path, hpath, hperform⟩ := Raising.bind_eq_ok.mp hperform
  refine ⟨data', ?_, htracked, ?_⟩
  · rw [splitParts_eq hpath hkey]
    exact setPath_of_set hperform
  · exact fun root s hsegment hs => mem_roots_of_write hdata.again hdata.required h hsegment hs

end States

section Runs

variable {α : Type} {write : Contracts × List String → α → Except PyError (Contracts × List String)}
  {state state' : Contracts × List String}

/-- Before and after every one of the writes the map lists only members named by DataKey segments. -/
def ListedWrites (write : Contracts × List String → α → Except PyError (Contracts × List String))
    (state : Contracts × List String) (writes : List α) : Prop :=
  ∀ written state', written <+: writes → written.foldlM write state = .ok state' → ListsSegments state'

lemma ListedWrites.start {writes : List α} (h : ListedWrites write state writes) : ListsSegments state :=
  h [] state List.nil_prefix rfl

lemma ListedWrites.append {first rest : List α} (h : ListedWrites write state (first ++ rest))
    (hfirst : first.foldlM write state = .ok state') :
    ListedWrites write state first ∧ ListedWrites write state' rest := by
  constructor
  · exact fun written final hleading hwritten =>
      h written final (hleading.trans (List.prefix_append _ _)) hwritten
  · intro written final hleading hwritten
    refine h (first ++ written) final (by simpa using hleading) ?_
    rw [List.foldlM_append, hfirst]
    exact hwritten

lemma ListedWrites.tail {first : α} {rest : List α} (h : ListedWrites write state (first :: rest))
    (hfirst : write state first = .ok state') : ListedWrites write state' rest := by
  have hone : [first].foldlM write state = .ok state' := by
    rw [List.foldlM_cons, hfirst]
    rfl
  exact (@ListedWrites.append _ _ _ _ [first] rest h hone).2

/-- Writes that keep a state named list only DataKey segments. -/
lemma listedWrites_of_named {writes : List α} (hstate : NamedState state)
    (hwrites : ∀ w ∈ writes, ∀ before after, NamedState before → write before w = .ok after →
      NamedState after) : ListedWrites write state writes := by
  intro written final hleading hwritten
  have hfinal : NamedState final := by
    refine Raising.foldlM_invariant NamedState ?_ hstate hwritten
    exact fun before after w hw hbefore hstep => hwrites w (hleading.subset hw) before after hbefore hstep
  exact hfinal.named.rootsNamedBy

end Runs

end TradeFramework.RowMap
