import TradeFramework.Results.TemporaryPlan

/-!
# Result queries of the agent

`trade_result_query` in the mode `cycles` answers with a window of the cycles of a result. Every tool response
passes a redaction that drops what looks like a file system identity of the server.
-/

namespace TradeFramework.AgentBridge

open Raising (raiseIf)
open Results (TextEncoder compileCycleValidator cycleContent cycleIdentity field initialContracts membersOf
  requireCycle requireExactFields resolveContractPath textOf)

section Errors

/-- What a tool can raise: a `ToolCallError`, which is never retryable here, or an exception of the engine. -/
inductive ToolFailure
  | call (code message : String)
  | engine (e : PyError)
deriving DecidableEq

def invalidArguments (message : String) : ToolFailure := .call "invalid_arguments" message

/-- The exceptions that `execute_tool` turns into a `ToolCallError`: `KeyError`, `TypeError` and `ValueError`. -/
def ToolFailure.translated : ToolFailure → ToolFailure
  | .engine (.valueError message) => .call "engine_validation_failed" message
  | .engine (.typeError message) => .call "engine_validation_failed" message
  | .engine (.keyError key) => .call "engine_validation_failed" s!"'{key}'"
  | failure => failure

/-- A step of the engine. -/
def engine {α : Type} (x : Except PyError α) : Except ToolFailure α := x.mapError ToolFailure.engine

end Errors

section Redaction

/-- `_INTERNAL_KEYS`. -/
def internalKeys : List String := ["path", "localPath", "absolutePath", "manifestPath", "workspacePath",
  "controlPath", "archivePath", "storage", "uri"]

/-- `key.lower().endswith("path")`: no other letters than the ASCII ones have p, a, t, h as lower case. -/
def endsWithPath (key : String) : Bool := "path".toList <:+ key.toList.map Char.toLower

/-- Whether `_public` keeps the entries of a key. -/
def shownKey (key : String) : Bool := key ∉ internalKeys && !endsWithPath key

/-- `os.path.isabs`. -/
def isAbs (text : String) : Bool := ['/'] <+: text.toList

/-- `_public`. -/
def publicJson : Json → Json
  | .obj d => .obj ((d.attach.filter fun e => shownKey e.1.1).map fun e => (e.1.1, publicJson e.1.2))
  | .arr xs => .arr (xs.attach.map fun x => publicJson x.1)
  | .str s => if isAbs s then .str "<internal>" else .str s
  | v => v
termination_by v => sizeOf v
decreasing_by
  · have hmem := Dict.sizeOf_mem_lt e.2
    simp only [Json.obj.sizeOf_spec]
    omega
  · exact Json.sizeOf_lt_arr x.2

/-- A value that `_public` leaves as it is: no key that it drops and no absolute path at any depth. -/
def untouched : Json → Bool
  | .obj d => d.attach.all fun e => shownKey e.1.1 && untouched e.1.2
  | .arr xs => xs.attach.all fun x => untouched x.1
  | .str s => !isAbs s
  | _ => true
termination_by v => sizeOf v
decreasing_by
  · have hmem := Dict.sizeOf_mem_lt e.2
    simp only [Json.obj.sizeOf_spec]
    omega
  · exact Json.sizeOf_lt_arr x.2

/-- The entries that `_public` keeps of an object. -/
def publicEntries (d : List (String × Json)) : List (String × Json) :=
  (d.filter fun e => shownKey e.1).map fun e => (e.1, publicJson e.2)

lemma publicJson_obj (d : List (String × Json)) : publicJson (.obj d) = .obj (publicEntries d) := by
  have hfilter : d.filter (fun e => shownKey e.1) =
      (d.attach.filter fun e => shownKey e.1.1).map Subtype.val := by
    conv_lhs => rw [← List.attach_map_subtype_val d]
    rw [List.filter_map]
    rfl
  rw [publicJson, publicEntries, hfilter, List.map_map]
  rfl

lemma publicJson_arr (xs : List Json) : publicJson (.arr xs) = .arr (xs.map publicJson) := by
  rw [publicJson, List.attach_map_val]

lemma untouched_obj {d : List (String × Json)} :
    untouched (.obj d) = true ↔ ∀ e ∈ d, shownKey e.1 = true ∧ untouched e.2 = true := by
  rw [untouched, List.all_eq_true]
  simp only [List.mem_attach, forall_const, Subtype.forall, Bool.and_eq_true]

lemma untouched_arr {xs : List Json} : untouched (.arr xs) = true ↔ ∀ x ∈ xs, untouched x = true := by
  rw [untouched, List.all_eq_true]
  simp only [List.mem_attach, forall_const, Subtype.forall]

lemma map_eq_self_iff {α : Type} {f : α → α} {xs : List α} : xs.map f = xs ↔ ∀ x ∈ xs, f x = x := by
  have h : xs.map f = xs.map id ↔ ∀ x ∈ xs, f x = id x := List.map_inj_left
  rwa [List.map_id] at h

/-- A mapped filter gives the list back only where it keeps and fixes every element. -/
lemma map_filter_eq_self {α : Type} {p : α → Bool} {f : α → α} {xs : List α} :
    (xs.filter p).map f = xs ↔ ∀ x ∈ xs, p x = true ∧ f x = x := by
  constructor
  · intro h
    have hlength : (xs.filter p).length = xs.length := by
      rw [← List.length_map f, h]
    have hall := List.filter_eq_self.mp (List.filter_sublist.eq_of_length hlength)
    rw [List.filter_eq_self.mpr hall] at h
    exact fun x hx => ⟨hall x hx, map_eq_self_iff.mp h x hx⟩
  · intro h
    rw [List.filter_eq_self.mpr fun x hx => (h x hx).1]
    exact map_eq_self_iff.mpr fun x hx => (h x hx).2

/-- Redaction leaves exactly the untouched values as they are. -/
theorem publicJson_eq_self_iff (v : Json) : publicJson v = v ↔ untouched v = true := by
  induction v using publicJson.induct with
  | case1 d ih =>
    rw [publicJson_obj, Json.obj.injEq, publicEntries, map_filter_eq_self, untouched_obj]
    refine forall₂_congr fun e he => and_congr_right fun _ => ?_
    rw [← ih ⟨e, he⟩, Prod.mk.injEq]
    exact and_iff_right rfl
  | case2 xs ih =>
    rw [publicJson_arr, Json.arr.injEq, map_eq_self_iff, untouched_arr]
    exact forall₂_congr fun x hx => ih ⟨x, hx⟩
  | case3 s habs =>
    rw [publicJson, if_pos habs, untouched, habs, Json.str.injEq]
    constructor
    · rintro rfl
      cases habs
    · intro h
      cases h
  | case4 s habs =>
    rw [publicJson, if_neg habs, untouched]
    simpa using habs
  | case5 v hobj harr hstr =>
    cases v with
    | obj d => exact (hobj d rfl).elim
    | arr xs => exact (harr xs rfl).elim
    | str s => exact (hstr s rfl).elim
    | _ => simp [publicJson, untouched]

lemma lookup_publicEntries (d : List (String × Json)) (key : String) :
    (publicEntries d).lookup key = if shownKey key then (d.lookup key).map publicJson else none := by
  have hmap : publicEntries d = Dict.mapValues (fun _ => publicJson) (d.filter fun e => shownKey e.1) := rfl
  rw [hmap, Dict.lookup_mapValues, Dict.lookup_filter_key]
  split_ifs <;> rfl

end Redaction

section Arguments

/-- `_exact`. -/
def exactFields (value : Json) (allowed required : List String) (label : String) :
    Except ToolFailure (List (String × Json)) :=
  match value with
  | .obj fields => do
    let unknown := sortedStrings ((Dict.keys fields).filter fun name => name ∉ allowed)
    let unknownNames := ", ".intercalate unknown
    raiseIf (unknown ≠ []) (invalidArguments s!"{label} has unknown fields: {unknownNames}")
    let missing := sortedStrings (required.filter fun name => !Dict.has fields name)
    let missingNames := ", ".intercalate missing
    raiseIf (missing ≠ []) (invalidArguments s!"{label} is missing fields: {missingNames}")
    pure fields
  | _ => throw (invalidArguments s!"{label} must be an object")

/-- `_text`. -/
def boundedText (value : Json) (label : String) (maximum : ℕ) : Except ToolFailure String :=
  match value with
  | .str text =>
    if text ≠ "" ∧ stripText text.toList = text.toList ∧ text.length ≤ maximum then pure text
    else throw (invalidArguments s!"{label} must be a bounded non-empty string")
  | _ => throw (invalidArguments s!"{label} must be a bounded non-empty string")

/-- `_integer`, of bounds that are not negative. -/
def boundedInteger (value : Option Json) (label : String) (minimum maximum default : ℕ) :
    Except ToolFailure ℕ :=
  match value with
  | none => pure default
  | some .null => pure default
  | some (.int n) =>
    if (minimum : ℤ) ≤ n ∧ n ≤ maximum then pure n.toNat
    else throw (invalidArguments s!"{label} must be between {minimum} and {maximum}")
  | some _ => throw (invalidArguments s!"{label} must be between {minimum} and {maximum}")

def maxResultCycles : ℕ := 25

/-- A value that a Python set can hold. -/
def hashable : Json → Bool
  | .arr _ => false
  | .obj _ => false
  | _ => true

/-- The check of one requested path. -/
def requestedPath (e : Json × ℕ) : Except ToolFailure String := do
  let index := e.2
  let text ← boundedText e.1 s!"paths[{index}]" 256
  raiseIf (¬"cycles.".toList <+: text.toList ∨ text = "cycles.")
    (invalidArguments "cycle query paths must start with cycles.")
  pure text

/-- The paths of a request. -/
def requestedPaths (paths : Option Json) : Except ToolFailure (List String) := do
  let refused := invalidArguments "paths must contain 1-16 unique Result paths"
  match paths.getD (.arr []) with
  | .arr paths => do
    raiseIf (paths.length < 1 ∨ 16 < paths.length) refused
    raiseIf (paths.all hashable = false) (.engine (.typeError "unhashable type"))
    raiseIf (¬paths.Pairwise fun a b => pythonEqual a b = false) refused
    paths.zipIdx.mapM requestedPath
  | _ => throw refused

/-- What a request in the mode `cycles` asks for. -/
structure CyclesQuery where
  paths : List String
  offset : ℕ
  limit : ℕ

/-- The arguments of the mode `cycles`. -/
def cyclesQuery (args : List (String × Json)) : Except ToolFailure CyclesQuery := do
  let paths ← requestedPaths (args.lookup "paths")
  let offset ← boundedInteger (args.lookup "offset") "offset" 0 10000 0
  let limit ← boundedInteger (args.lookup "limit") "limit" 1 maxResultCycles 10
  pure ⟨paths, offset, limit⟩

end Arguments

section Projection

/-- `_RESULT_FIELDS`. -/
def resultFields : List String :=
  ["cycles", "schemaVersion", "dataKeys", "metrics", "executionChain", "sampleFrameContract"]

/-- One path of `normalize_projection_paths`. -/
def normalizeProjectionPath (path : String) : Except PyError (String × DataPath) := do
  let parts ← splitDataPath path
  raiseIf (parts.root ∉ resultFields) (.valueError s!"Result slice references unknown path '{path}'.")
  pure (path, parts)

/-- `normalize_projection_paths`. -/
def normalizeProjectionPaths (paths : List String) : Except PyError (List (String × DataPath)) := do
  raiseIf ((∃ path ∈ paths, stripText path.toList = []) ∨ ¬paths.Nodup)
    (.valueError "Result slice paths must be unique non-empty strings.")
  paths.mapM normalizeProjectionPath

/-- One turn of `require_projection_paths`. -/
def requireProjectionPath (finalContracts : Contracts) (e : String × DataPath) : Except PyError Unit := do
  let (path, parts) := e
  let unknown : PyError := .valueError s!"Result slice references unknown cycle path '{path}'."
  if parts.root ≠ "cycles" then pure ()
  else match parts.rest with
    | [] => pure ()
    | name :: below =>
      if name ∈ ["schemaVersion", "cycleId", "decisionTime"] then raiseIf (below ≠ []) unknown
      else if name ≠ "data" then throw unknown
      else if below = [] then pure ()
      else do
        let dataKey := ".".intercalate below
        raiseIf (← resolveContractPath finalContracts dataKey).isNone
          (.valueError s!"Result slice references unknown DataKey '{dataKey}'.")

/-- `ResultCycleProcessor.require_projection_paths`. -/
def requireProjectionPaths (finalContracts : Contracts) (paths : List String) : Except PyError Unit := do
  (← normalizeProjectionPaths paths).forM (requireProjectionPath finalContracts)

/-- A requested path without its `cycles.`. -/
def relativePath (requested : String) : String := String.ofList (requested.toList.drop "cycles.".length)

/-- The value of one requested path, where the cycle has it. -/
def projectPath (cycle : Json) (values : List (String × Json)) (requested : String) :
    Except PyError (List (String × Json)) := do
  let path ← splitDataPath (relativePath requested)
  match getDataSegments cycle path.parts with
  | some value => pure (Dict.set values requested value)
  | none => pure values

def identityFields : List String := ["schemaVersion", "cycleId", "decisionTime"]

/-- The identity fields that a cycle has. -/
def identityEntries (cycle : Json) : List (String × Json) :=
  identityFields.filterMap fun key => ((membersOf cycle).lookup key).map fun value => (key, value)

/-- `_project_cycle`. -/
def projectCycle (cycle : Json) (paths : List String) : Except PyError Json := do
  let values ← paths.foldlM (projectPath cycle) []
  pure (.obj (Dict.set (identityEntries cycle) "values" (.obj values)))

/-- The stored result that a query reads: its declarations, the cycles that the reader yields and how reading
ends after the last of them. -/
structure ArchiveEvidence where
  dataKeys : List (String × Json)
  cycles : List Json
  sealed : Except PyError Unit

/-- What a query asks of the repository of results. -/
structure ResultRepository where
  view : String → Except PyError (List (String × Json))
  validateArchive : String → Except PyError Json
  evidence : String → Except PyError ArchiveEvidence

/-- What the loop over the cycles carries: the identities claimed so far, the projected cycles, the total. -/
structure WindowState where
  cycleIds : List String
  cycles : List Json
  total : ℕ

/-- `UniqueTextIndex.claim`; the index keeps texts in a table. -/
def claimIdentity (encodeText : TextEncoder) (claimed : List String) (value : String) :
    Except PyError Bool × List String :=
  match encodeText value with
  | .error e => (throw e, claimed)
  | .ok () => if value ∈ claimed then (pure false, claimed) else (pure true, claimed ++ [value])

variable (encodeText : TextEncoder)

/-- The projected cycles, with the cycle at an index of the window. -/
def keepCycle (query : CyclesQuery) (cycles : List Json) (index : ℕ) (cycle : Json) :
    Except PyError (List Json) :=
  if query.offset ≤ index ∧ cycles.length < query.limit then do
    pure (cycles ++ [← projectCycle cycle query.paths])
  else pure cycles

/-- One turn of the loop over the cycles of an archive. -/
def readCycle (validator : Results.DataJsonValidator) (query : CyclesQuery) (state : WindowState)
    (e : Json × ℕ) : Except PyError WindowState := do
  let (cycle, index) := e
  let required := requireCycle validator.validate (claimIdentity encodeText) cycle s!"{index}" state.cycleIds
  let _ ← required.1
  let cycles ← keepCycle query state.cycles index cycle
  pure ⟨required.2, cycles, index + 1⟩

/-- `_result_cycles`. -/
def resultCycles (repository : ResultRepository) (backtestId : String) (query : CyclesQuery) :
    Except PyError Json := do
  let validation ← repository.validateArchive backtestId
  let evidence ← repository.evidence backtestId
  let validator ← compileCycleValidator evidence.dataKeys
  let finalContracts ← initialContracts evidence.dataKeys
  requireProjectionPaths finalContracts query.paths
  let state ← evidence.cycles.zipIdx.foldlM (readCycle encodeText validator query) ⟨[], [], 0⟩
  evidence.sealed
  pure (.obj [("cycles", .arr state.cycles), ("offset", .int query.offset), ("limit", .int query.limit),
    ("total", .int state.total), ("validation", validation)])

/-- `_result_query`. -/
def resultQuery (repository : ResultRepository) (arguments : Json) : Except ToolFailure Json := do
  let args ← exactFields arguments ["backtestId", "mode", "paths", "offset", "limit"] ["backtestId", "mode"]
    "arguments"
  let backtestId ← boundedText (field args "backtestId") "backtestId" 512
  let mode ← boundedText (field args "mode") "mode" 32
  let view ← engine (repository.view backtestId)
  if mode = "describe" then do
    let validation ← engine (repository.validateArchive backtestId)
    pure (.obj [("result", publicJson (.obj view)), ("validation", validation)])
  else if mode = "fields" then
    pure (.obj [("backtestId", .str backtestId),
      ("dataKeys", publicJson ((view.lookup "dataKeys").getD (.obj [])))])
  else do
    raiseIf (mode ≠ "cycles") (invalidArguments "mode must be describe, fields, or cycles")
    let query ← cyclesQuery args
    engine (resultCycles encodeText repository backtestId query)

def maxToolOutputBytes : ℕ := 256 * 1024

/-- `_bounded`; `encodedSize` is the length of the encoded response. -/
def bounded (encodedSize : Json → Except PyError ℕ) (result : Json) : Except ToolFailure Json := do
  let size ← engine (encodedSize result)
  let limit := maxToolOutputBytes
  raiseIf (limit < size) (.call "tool_output_too_large"
    s!"Tool result exceeds the {limit}-byte limit; narrow the query")
  pure result

/-- `execute_tool` with the handler of a tool. -/
def executeTool (encodedSize : Json → Except PyError ℕ) (handler : Json → Except ToolFailure Json)
    (arguments : Json) : Except ToolFailure Json :=
  (do bounded encodedSize (publicJson (← handler arguments))).mapError ToolFailure.translated

end Projection

section Window

variable {encodeText : TextEncoder} {query : CyclesQuery} {cycle : Json} {paths : List String}

/-- The value that a cycle has at a requested path. -/
def requestedValue (cycle : Json) (requested : String) : Option Json :=
  match splitDataPath (relativePath requested) with
  | .ok path => getDataSegments cycle path.parts
  | .error _ => none

/-- The cycles that a query asks for. -/
def window (query : CyclesQuery) (cycles : List Json) : List Json :=
  (cycles.drop query.offset).take query.limit

lemma projectPaths_lookup {values : List (String × Json)} (h : paths.foldlM (projectPath cycle) [] = .ok values)
    (requested : String) :
    values.lookup requested = if requested ∈ paths then requestedValue cycle requested else none := by
  have hall := Raising.foldlM_relation (fun (seen : List String) (values : List (String × Json)) =>
    ∀ r, values.lookup r = if r ∈ seen then requestedValue cycle r else none) ?_ [] (by simp) h
  · rw [List.nil_append] at hall
    exact hall requested
  · intro seen before after x hbefore hstep r
    obtain ⟨path, hpath, hstep⟩ := Raising.bind_eq_ok.mp hstep
    have hvalue : requestedValue cycle x = getDataSegments cycle path.parts := by
      unfold requestedValue
      rw [hpath]
    simp only [List.mem_append, List.mem_singleton]
    cases hfound : getDataSegments cycle path.parts with
    | some value =>
      rw [hfound] at hstep hvalue
      rw [← Except.ok.inj hstep, Dict.lookup_set, hbefore r]
      by_cases hr : r = x
      · rw [if_pos hr, if_pos (.inr hr), hr, hvalue]
      · simp only [hr, if_false, or_false]
    | none =>
      rw [hfound] at hstep hvalue
      rw [← Except.ok.inj hstep, hbefore r]
      by_cases hr : r = x
      · rw [if_pos (Or.inr hr), hr, hvalue, ite_self]
      · simp only [hr, or_false]

/-- A cycle that `require_cycle` lets through as far as its identity goes. -/
structure Identified (cycle : Json) : Prop where
  version : pythonEqual (field (membersOf cycle) "schemaVersion") (.int 3) = true
  cycleId : ∃ text, field (membersOf cycle) "cycleId" = .str text
  decisionTime : ∃ text, field (membersOf cycle) "decisionTime" = .str text

lemma exists_str_of_textOf {value : Json} (h : textOf value ≠ none) : ∃ text, value = .str text := by
  unfold textOf at h
  split at h
  · exact ⟨_, rfl⟩
  · exact absurd rfl h

lemma identified_of_requireCycle {σ : Type} {validate : Json → Except PyError Unit}
    {claim : σ → String → Except PyError Bool × σ} {index cycleId : String} {cycleIds : σ}
    (h : (requireCycle validate claim cycle index cycleIds).1 = .ok cycleId) : Identified cycle := by
  unfold requireCycle at h
  cases hidentity : cycleIdentity cycle index with
  | error e =>
    rw [hidentity] at h
    cases h
  | ok found =>
    rw [hidentity] at h
    obtain ⟨_, -, h⟩ := Raising.bind_eq_ok.mp h
    obtain ⟨-, h⟩ := Raising.seq_eq_ok.mp h
    obtain ⟨hcontent, -⟩ := Raising.seq_eq_ok.mp h
    obtain ⟨htime, -⟩ := Raising.seq_eq_ok.mp hcontent
    obtain ⟨fields, hfields, hidentity⟩ := Raising.bind_eq_ok.mp hidentity
    obtain ⟨hversion, hclaimed⟩ := Raising.seq_eq_ok.mp hidentity
    rw [Raising.raiseIf_eq_ok, Bool.not_eq_false] at hversion
    rw [Raising.raiseIf_eq_ok] at htime
    have hmembers : membersOf cycle = fields := by
      rw [Results.requireExactFields_eq_ok hfields]
      rfl
    rw [← hmembers] at hversion hclaimed
    refine ⟨hversion, exists_str_of_textOf fun hnone => ?_, exists_str_of_textOf htime⟩
    rw [hnone] at hclaimed
    cases hclaimed

/-- The loop projects the cycles of the window and counts all of them. -/
lemma readCycles_eq_ok {validator : Results.DataJsonValidator} {cycles : List Json} {start : ℕ}
    {before after : WindowState} (hstart : before.total = start)
    (h : (cycles.zipIdx start).foldlM (readCycle encodeText validator query) before = .ok after) :
    after.total = start + cycles.length ∧ ∃ projected, after.cycles = before.cycles ++ projected ∧
      List.Forall₂ (fun cycle shown => projectCycle cycle query.paths = .ok shown ∧ Identified cycle)
        ((cycles.drop (query.offset - start)).take (query.limit - before.cycles.length)) projected := by
  induction cycles generalizing start before with
  | nil =>
    cases h
    exact ⟨by simp [hstart], [], by simp, by simp⟩
  | cons cycle cycles ih =>
    rw [List.zipIdx_cons, List.foldlM_cons] at h
    obtain ⟨middle, hstep, h⟩ := Raising.bind_eq_ok.mp h
    obtain ⟨_, hrequired, hstep⟩ := Raising.bind_eq_ok.mp hstep
    obtain ⟨kept, hkept, hstep⟩ := Raising.bind_eq_ok.mp hstep
    rw [Raising.pure_eq_ok] at hstep
    have hnext : middle.total = start + 1 := by rw [← hstep]
    have hmiddle : middle.cycles = kept := by rw [← hstep]
    obtain ⟨htotal, projected, hcycles, hprojected⟩ := ih hnext h
    rw [hmiddle] at hcycles hprojected
    refine ⟨by rw [htotal, List.length_cons]; omega, ?_⟩
    unfold keepCycle at hkept
    by_cases hin : query.offset ≤ start ∧ before.cycles.length < query.limit
    · rw [if_pos hin] at hkept
      obtain ⟨shown, hshown, hkept⟩ := Raising.bind_eq_ok.mp hkept
      rw [Raising.pure_eq_ok] at hkept
      subst hkept
      refine ⟨shown :: projected, by rw [hcycles, List.append_assoc]; rfl, ?_⟩
      have hlimit : query.limit - before.cycles.length = query.limit - (before.cycles ++ [shown]).length + 1 := by
        rw [List.length_append, List.length_singleton]
        omega
      rw [show query.offset - (start + 1) = 0 by omega] at hprojected
      rw [hlimit, show query.offset - start = 0 by omega, List.drop_zero, List.take_succ_cons]
      exact .cons ⟨hshown, identified_of_requireCycle hrequired⟩ hprojected
    · rw [if_neg hin, Raising.pure_eq_ok] at hkept
      subst hkept
      refine ⟨projected, hcycles, ?_⟩
      by_cases hoffset : query.offset ≤ start
      · have hfull : query.limit - before.cycles.length = 0 := by omega
        rw [hfull, List.take_zero] at hprojected ⊢
        exact hprojected
      · rw [show query.offset - start = query.offset - (start + 1) + 1 by omega, List.drop_succ_cons]
        exact hprojected

/-- A cycle of a response that shows a cycle of the result: its identity, at every requested path its value, and
nothing else. -/
structure ShowsCycle (paths : List String) (cycle shown : Json) : Prop where
  identity : ∀ key, key ≠ "values" →
    (membersOf shown).lookup key = if key ∈ identityFields then (membersOf cycle).lookup key else none
  values : ∃ values, field (membersOf shown) "values" = .obj values ∧
    ∀ requested, values.lookup requested = if requested ∈ paths then requestedValue cycle requested else none

/-- A response with the cycles of the window in order and the true total. -/
structure Faithful (query : CyclesQuery) (cycles : List Json) (response : Json) : Prop where
  shown : ∃ shown, field (membersOf response) "cycles" = .arr shown ∧
    List.Forall₂ (ShowsCycle query.paths) (window query cycles) shown
  total : field (membersOf response) "total" = .int cycles.length

/-- A cycle that redaction leaves as it is: no text of its identity is an absolute path, no requested path with a
value is dropped, and nothing of a requested value is redacted. -/
structure Unredacted (paths : List String) (cycle : Json) : Prop where
  identity : ∀ key ∈ ["cycleId", "decisionTime"], ∀ text,
    field (membersOf cycle) key = .str text → isAbs text = false
  values : ∀ requested ∈ paths, ∀ value, requestedValue cycle requested = some value →
    endsWithPath requested = false ∧ untouched value = true

lemma shownKey_of_requested {requested : String} (h : "cycles.".toList <+: requested.toList) :
    shownKey requested = !endsWithPath requested := by
  have hinternal : requested ∉ internalKeys := by
    intro hmem
    have hnone : ∀ key ∈ internalKeys, ¬"cycles.".toList <+: key.toList := by decide
    exact hnone requested hmem h
  unfold shownKey
  rw [decide_eq_true hinternal, Bool.true_and]

lemma lookup_filterMap_keys {β : Type} (f : String → Option β) (keys : List String) (key : String) :
    (keys.filterMap fun name => (f name).map fun value => (name, value)).lookup key =
      if key ∈ keys then f key else none := by
  induction keys with
  | nil => rfl
  | cons name keys ih =>
    rw [List.filterMap_cons]
    by_cases hname : key = name
    · subst hname
      cases hvalue : f key with
      | none =>
        dsimp only [Option.map_none]
        rw [ih, hvalue, ite_self, ite_self]
      | some value => simp
    · have hbeq : (key == name) = false := beq_eq_false_iff_ne.mpr hname
      cases f name with
      | none =>
        dsimp only [Option.map_none]
        rw [ih]
        simp [hname]
      | some value =>
        dsimp only [Option.map_some]
        rw [List.lookup_cons, hbeq, ih]
        simp [hname]

lemma untouched_of_version {value : Json} (h : pythonEqual value (.int 3) = true) : untouched value = true := by
  cases value with
  | str s => simp [pythonEqual, numericValue] at h
  | arr xs => simp [pythonEqual, numericValue] at h
  | obj d => simp [pythonEqual, numericValue] at h
  | _ => simp [untouched]

/-- The identity of a cycle outlives the redaction exactly when no text of it is an absolute path. -/
lemma identity_iff (h : Identified cycle) :
    (∀ key ∈ identityFields, ((membersOf cycle).lookup key).map publicJson = (membersOf cycle).lookup key) ↔
      ∀ key ∈ ["cycleId", "decisionTime"], ∀ text, field (membersOf cycle) key = .str text →
        isAbs text = false := by
  constructor
  · intro hkept key hkey text htext
    have hlookup : (membersOf cycle).lookup key = some (.str text) := by
      unfold Results.field at htext
      cases hfound : (membersOf cycle).lookup key with
      | none =>
        rw [hfound] at htext
        cases htext
      | some value =>
        rw [hfound] at htext
        exact congrArg some htext
    have hsame := hkept key (List.mem_cons_of_mem _ hkey)
    rw [hlookup, Option.map_some, Option.some.injEq, publicJson_eq_self_iff, untouched] at hsame
    simpa using hsame
  · intro hrelative key hkey
    cases hfound : (membersOf cycle).lookup key with
    | none => rfl
    | some value =>
      have hfield : field (membersOf cycle) key = value := by rw [Results.field, hfound, Option.getD_some]
      rw [Option.map_some, Option.some.injEq, publicJson_eq_self_iff]
      rcases List.mem_cons.mp hkey with rfl | hkey
      · exact untouched_of_version (hfield ▸ h.version)
      · have htext : ∃ text, field (membersOf cycle) key = .str text := by
          rcases List.mem_cons.mp hkey with rfl | hkey
          · exact h.cycleId
          · rw [List.mem_singleton.mp hkey]
            exact h.decisionTime
        obtain ⟨text, htext⟩ := htext
        rw [← hfield, htext, untouched, hrelative key hkey text htext]
        rfl

/-- The requested values outlive the redaction exactly when their paths are kept and nothing of them is redacted. -/
lemma values_iff (hpaths : ∀ requested ∈ paths, "cycles.".toList <+: requested.toList)
    {values : List (String × Json)} (hvalues : paths.foldlM (projectPath cycle) [] = .ok values) :
    (∀ requested, (publicEntries values).lookup requested =
        if requested ∈ paths then requestedValue cycle requested else none) ↔
      ∀ requested ∈ paths, ∀ value, requestedValue cycle requested = some value →
        endsWithPath requested = false ∧ untouched value = true := by
  have hlookup := projectPaths_lookup hvalues
  simp only [lookup_publicEntries, hlookup]
  constructor
  · intro hshows requested hrequested value hvalue
    have hentry := hshows requested
    rw [if_pos hrequested, hvalue, shownKey_of_requested (hpaths requested hrequested)] at hentry
    cases hpath : endsWithPath requested with
    | true => simp [hpath] at hentry
    | false =>
      rw [hpath, Bool.not_false, if_pos rfl, Option.map_some, Option.some.injEq] at hentry
      exact ⟨rfl, (publicJson_eq_self_iff value).mp hentry⟩
  · intro hkept requested
    by_cases hrequested : requested ∈ paths
    · rw [if_pos hrequested]
      cases hvalue : requestedValue cycle requested with
      | none => rw [Option.map_none, ite_self]
      | some value =>
        obtain ⟨hpath, huntouched⟩ := hkept requested hrequested value hvalue
        rw [shownKey_of_requested (hpaths requested hrequested), hpath, Bool.not_false, if_pos rfl,
          Option.map_some, (publicJson_eq_self_iff value).mpr huntouched]
    · rw [if_neg hrequested, Option.map_none, ite_self]

/-- A projected cycle shows its cycle after the redaction exactly when nothing of it is redacted. -/
lemma showsCycle_iff (hpaths : ∀ requested ∈ paths, "cycles.".toList <+: requested.toList) {shown : Json}
    (h : projectCycle cycle paths = .ok shown) (hcycle : Identified cycle) :
    ShowsCycle paths cycle (publicJson shown) ↔ Unredacted paths cycle := by
  obtain ⟨values, hvalues, h⟩ := Raising.bind_eq_ok.mp h
  rw [Raising.pure_eq_ok] at h
  subst h
  have hlookup : ∀ key, key ≠ "values" → (membersOf (publicJson (.obj (Dict.set (identityEntries cycle) "values"
      (.obj values))))).lookup key =
        if key ∈ identityFields then ((membersOf cycle).lookup key).map publicJson else none := by
    intro key hkey
    rw [publicJson_obj, membersOf, lookup_publicEntries, Dict.lookup_set, if_neg hkey, identityEntries,
      lookup_filterMap_keys]
    by_cases hfield : key ∈ identityFields
    · have hshown : ∀ name ∈ identityFields, shownKey name = true := by decide
      rw [if_pos (hshown key hfield), if_pos hfield, if_pos hfield]
    · rw [if_neg hfield, if_neg hfield, Option.map_none, ite_self]
  have hfield : field (membersOf (publicJson (.obj (Dict.set (identityEntries cycle) "values" (.obj values)))))
      "values" = .obj (publicEntries values) := by
    rw [publicJson_obj, membersOf, field, lookup_publicEntries, if_pos (by decide), Dict.lookup_set_self,
      Option.map_some, publicJson_obj, Option.getD_some]
  have hidentity : (∀ key, key ≠ "values" → (membersOf (publicJson (.obj (Dict.set (identityEntries cycle)
      "values" (.obj values))))).lookup key =
        if key ∈ identityFields then (membersOf cycle).lookup key else none) ↔ ∀ key ∈ identityFields,
          ((membersOf cycle).lookup key).map publicJson = (membersOf cycle).lookup key := by
    constructor
    · intro hshown key hkey
      have hne : key ≠ "values" := by
        rintro rfl
        exact absurd hkey (by decide)
      have hentry := hshown key hne
      rwa [hlookup key hne, if_pos hkey, if_pos hkey] at hentry
    · intro hkept key hne
      rw [hlookup key hne]
      split_ifs with hkey
      · exact hkept key hkey
      · rfl
  constructor
  · rintro ⟨hshown, _, heq, hentries⟩
    rw [hfield, Json.obj.injEq] at heq
    subst heq
    exact ⟨(identity_iff hcycle).mp (hidentity.mp hshown), (values_iff hpaths hvalues).mp hentries⟩
  · intro hkept
    exact ⟨hidentity.mpr ((identity_iff hcycle).mpr hkept.identity), _, hfield,
      (values_iff hpaths hvalues).mpr hkept.values⟩

lemma requestedPaths_leading {given : Option Json} (h : requestedPaths given = .ok paths) :
    ∀ requested ∈ paths, "cycles.".toList <+: requested.toList := by
  unfold requestedPaths at h
  dsimp only at h
  split at h
  · obtain ⟨-, h⟩ := Raising.seq_eq_ok.mp h
    obtain ⟨-, h⟩ := Raising.seq_eq_ok.mp h
    obtain ⟨-, h⟩ := Raising.seq_eq_ok.mp h
    intro requested hrequested
    obtain ⟨e, -, hread⟩ := Related.exists_mem_left (Raising.mapM_eq_ok.mp h) hrequested
    obtain ⟨text, -, hread⟩ := Raising.bind_eq_ok.mp hread
    obtain ⟨hleading, hread⟩ := Raising.seq_eq_ok.mp hread
    rw [Raising.raiseIf_eq_ok, not_or, not_not] at hleading
    rw [Raising.pure_eq_ok] at hread
    exact hread ▸ hleading.1
  · cases h

lemma cyclesQuery_leading {args : List (String × Json)} (h : cyclesQuery args = .ok query) :
    ∀ requested ∈ query.paths, "cycles.".toList <+: requested.toList := by
  obtain ⟨paths, hpaths, h⟩ := Raising.bind_eq_ok.mp h
  obtain ⟨offset, -, h⟩ := Raising.bind_eq_ok.mp h
  obtain ⟨limit, -, h⟩ := Raising.bind_eq_ok.mp h
  rw [Raising.pure_eq_ok] at h
  subst h
  exact requestedPaths_leading hpaths

lemma engine_eq_ok {α : Type} {x : Except PyError α} {a : α} : engine x = .ok a ↔ x = .ok a := by
  cases x with
  | ok b => simp [engine, Except.mapError]
  | error e => simp [engine, Except.mapError]

/-- The redacted answer of `_result_cycles` is faithful exactly when no requested value is redacted. -/
lemma resultCycles_faithful_iff {repository : ResultRepository} {backtestId : String} {answer : Json}
    (hpaths : ∀ requested ∈ query.paths, "cycles.".toList <+: requested.toList)
    (h : resultCycles encodeText repository backtestId query = .ok answer) : ∃ evidence,
      repository.evidence backtestId = .ok evidence ∧ (Faithful query evidence.cycles (publicJson answer) ↔
        ∀ cycle ∈ window query evidence.cycles, Unredacted query.paths cycle) := by
  obtain ⟨validation, -, h⟩ := Raising.bind_eq_ok.mp h
  obtain ⟨evidence, hevidence, h⟩ := Raising.bind_eq_ok.mp h
  obtain ⟨validator, -, h⟩ := Raising.bind_eq_ok.mp h
  obtain ⟨finalContracts, -, h⟩ := Raising.bind_eq_ok.mp h
  obtain ⟨-, h⟩ := Raising.seq_eq_ok.mp h
  obtain ⟨state, hloop, h⟩ := Raising.bind_eq_ok.mp h
  obtain ⟨-, h⟩ := Raising.seq_eq_ok.mp h
  rw [Raising.pure_eq_ok] at h
  subst h
  obtain ⟨htotal, projected, hcycles, hprojected⟩ := readCycles_eq_ok rfl hloop
  rw [List.nil_append] at hcycles
  rw [Nat.sub_zero, List.length_nil, Nat.sub_zero] at hprojected
  refine ⟨evidence, hevidence, ?_⟩
  have hshown : field (membersOf (publicJson (.obj [("cycles", .arr state.cycles), ("offset", .int query.offset),
      ("limit", .int query.limit), ("total", .int state.total), ("validation", validation)]))) "cycles" =
        .arr (projected.map publicJson) := by
    rw [publicJson_obj, membersOf, field, lookup_publicEntries, if_pos (by decide), hcycles]
    exact publicJson_arr projected
  have hcount : field (membersOf (publicJson (.obj [("cycles", .arr state.cycles), ("offset", .int query.offset),
      ("limit", .int query.limit), ("total", .int state.total), ("validation", validation)]))) "total" =
        .int evidence.cycles.length := by
    rw [publicJson_obj, membersOf, field, lookup_publicEntries, if_pos (by decide), htotal, Nat.zero_add]
    simp [publicJson]
  have hwindow : List.Forall₂ (ShowsCycle query.paths) (window query evidence.cycles) (projected.map publicJson) ↔
      ∀ cycle ∈ window query evidence.cycles, Unredacted query.paths cycle := by
    rw [List.forall₂_map_right_iff]
    exact Related.forall₂_iff_forall hprojected fun cycle shown hread =>
      showsCycle_iff hpaths hread.1 hread.2
  rw [← hwindow]
  constructor
  · rintro ⟨⟨shown, hfield, hvalues⟩, -⟩
    rw [hshown, Json.arr.injEq] at hfield
    exact hfield ▸ hvalues
  · exact fun hvalues => ⟨⟨_, hshown, hvalues⟩, hcount⟩

/-- An answer of `execute_tool` is the redacted answer of the handler. -/
lemma executeTool_eq_ok {encodedSize : Json → Except PyError ℕ} {handler : Json → Except ToolFailure Json}
    {arguments response : Json} (h : executeTool encodedSize handler arguments = .ok response) :
    ∃ answer, handler arguments = .ok answer ∧ response = publicJson answer := by
  unfold executeTool at h
  cases hrun : (do bounded encodedSize (publicJson (← handler arguments))) with
  | error e =>
    rw [hrun] at h
    cases h
  | ok found =>
    rw [hrun] at h
    have hfound : found = response := Except.ok.inj h
    obtain ⟨answer, hanswer, hrun⟩ := Raising.bind_eq_ok.mp hrun
    obtain ⟨size, -, hrun⟩ := Raising.bind_eq_ok.mp hrun
    obtain ⟨-, hrun⟩ := Raising.seq_eq_ok.mp hrun
    rw [Raising.pure_eq_ok] at hrun
    exact ⟨answer, hanswer, by rw [← hfound, hrun]⟩

/-- The parts of an answer in the mode `cycles`. -/
lemma resultQuery_eq_ok {repository : ResultRepository} {arguments answer : Json}
    (h : resultQuery encodeText repository arguments = .ok answer)
    (hmode : field (membersOf arguments) "mode" = .str "cycles") : ∃ backtestId query,
      boundedText (field (membersOf arguments) "backtestId") "backtestId" 512 = .ok backtestId ∧
      cyclesQuery (membersOf arguments) = .ok query ∧
      resultCycles encodeText repository backtestId query = .ok answer := by
  obtain ⟨args, hargs, h⟩ := Raising.bind_eq_ok.mp h
  have hsame : args = membersOf arguments := by
    unfold exactFields at hargs
    split at hargs
    · obtain ⟨-, hargs⟩ := Raising.seq_eq_ok.mp hargs
      obtain ⟨-, hargs⟩ := Raising.seq_eq_ok.mp hargs
      exact (Except.ok.inj hargs).symm
    · cases hargs
  subst hsame
  obtain ⟨backtestId, hbacktest, h⟩ := Raising.bind_eq_ok.mp h
  obtain ⟨mode, hread, h⟩ := Raising.bind_eq_ok.mp h
  obtain ⟨view, -, h⟩ := Raising.bind_eq_ok.mp h
  have hcycles : mode = "cycles" := by
    rw [hmode] at hread
    exact (Except.ok.inj hread).symm
  subst hcycles
  rw [if_neg (by decide), if_neg (by decide)] at h
  obtain ⟨-, h⟩ := Raising.seq_eq_ok.mp h
  obtain ⟨query, hquery, h⟩ := Raising.bind_eq_ok.mp h
  exact ⟨backtestId, query, hbacktest, hquery, engine_eq_ok.mp h⟩

/-- A query in the mode `cycles` returns a faithful window of the result exactly when in every cycle of the window no
text of the identity is an absolute path, no requested path with a value ends with "path" and no requested value
holds a redacted key or an absolute path. -/
theorem resultQuery_faithful_iff {encodeText : TextEncoder} {repository : ResultRepository}
    {encodedSize : Json → Except PyError ℕ} {arguments response : Json}
    (h : executeTool encodedSize (resultQuery encodeText repository) arguments = .ok response)
    (hmode : field (membersOf arguments) "mode" = .str "cycles") : ∃ backtestId query evidence,
      boundedText (field (membersOf arguments) "backtestId") "backtestId" 512 = .ok backtestId ∧
      cyclesQuery (membersOf arguments) = .ok query ∧ repository.evidence backtestId = .ok evidence ∧
      (Faithful query evidence.cycles response ↔
        ∀ cycle ∈ window query evidence.cycles, Unredacted query.paths cycle) := by
  obtain ⟨answer, hanswer, rfl⟩ := executeTool_eq_ok h
  obtain ⟨backtestId, query, hbacktest, hquery, hcycles⟩ := resultQuery_eq_ok hanswer hmode
  obtain ⟨evidence, hevidence, hfaithful⟩ := resultCycles_faithful_iff (cyclesQuery_leading hquery) hcycles
  exact ⟨backtestId, query, evidence, hbacktest, hquery, hevidence, hfaithful⟩

section Instances

/-- A cycle with one text, at its place. -/
def textCycle (dataKey : String) (e : String × ℕ) : Json := .obj [("schemaVersion", .int 3),
  ("cycleId", .str s!"c{e.2}"), ("decisionTime", .str "2024-01-01T00:00:00Z"), ("data", .obj [(dataKey, .str e.1)])]

/-- A repository with one result: one DataKey with texts, and a cycle for each text. -/
def textRepository (dataKey : String) (texts : List String) : ResultRepository where
  view _ := pure []
  validateArchive _ := pure .null
  evidence _ := pure {
    dataKeys := [(dataKey, .obj [("label", .str dataKey), ("schema", .obj [("type", .str "string")]),
      ("required", .bool true), ("source", Results.declaredSource dataKey),
      ("encoding", Results.declaredEncoding dataKey)])]
    cycles := texts.zipIdx.map (textCycle dataKey)
    sealed := pure () }

/-- A request for a DataKey of the second and the third cycle. -/
def windowRequest (dataKey : String) : Json := .obj [("backtestId", .str "b1"), ("mode", .str "cycles"),
  ("paths", .arr [.str s!"cycles.data.{dataKey}"]), ("offset", .int 1), ("limit", .int 2)]

/-- The second and the third of four cycles, shown as they are. -/
theorem resultQuery_faithful_note : ∃ response,
    executeTool (fun _ => pure 0) (resultQuery (fun _ => pure ()) (textRepository "note" ["a", "b", "c", "d"]))
      (windowRequest "note") = .ok response ∧ ∃ query evidence,
      cyclesQuery (membersOf (windowRequest "note")) = .ok query ∧
      (textRepository "note" ["a", "b", "c", "d"]).evidence "b1" = .ok evidence ∧
      Faithful query evidence.cycles response := by
  obtain ⟨response, hresponse⟩ := Raising.exists_ok_of_toBool (x := executeTool (fun _ => pure 0)
    (resultQuery (fun _ => pure ()) (textRepository "note" ["a", "b", "c", "d"])) (windowRequest "note"))
    (by with_unfolding_all decide)
  obtain ⟨backtestId, query, evidence, hbacktest, hquery, hevidence, hfaithful⟩ :=
    resultQuery_faithful_iff hresponse rfl
  have hquery' : cyclesQuery (membersOf (windowRequest "note")) = .ok ⟨["cycles.data.note"], 1, 2⟩ := by rfl
  cases hquery.symm.trans hquery'
  cases hevidence
  refine ⟨response, hresponse, _, _, hquery, rfl, hfaithful.mpr fun cycle hcycle => ?_⟩
  have hwindow : cycle ∈ [textCycle "note" ("b", 1), textCycle "note" ("c", 2)] := hcycle
  have hshown : ∀ cycle ∈ [textCycle "note" ("b", 1), textCycle "note" ("c", 2)],
      ((["cycleId", "decisionTime"].all fun key => untouched (field (membersOf cycle) key)) &&
        (requestedValue cycle "cycles.data.note").all untouched) = true := by
    with_unfolding_all decide
  obtain ⟨hidentity, hvalues⟩ := Bool.and_eq_true_iff.mp (hshown cycle hwindow)
  constructor
  · intro key hkey text htext
    have huntouched := List.all_eq_true.mp hidentity key hkey
    rw [htext, untouched] at huntouched
    simpa using huntouched
  · intro requested hrequested value hvalue
    rw [List.mem_singleton.mp hrequested] at hvalue ⊢
    rw [hvalue] at hvalues
    exact ⟨by decide, hvalues⟩

/-- A DataKey whose name ends with "path" is left out of the answer although the cycles have it. -/
theorem resultQuery_drops_path :
    let repository := textRepository "datasetPath" ["a", "b", "c", "d"]
    ∃ response, executeTool (fun _ => pure 0) (resultQuery (fun _ => pure ()) repository)
        (windowRequest "datasetPath") = .ok response ∧
      ∃ query evidence, cyclesQuery (membersOf (windowRequest "datasetPath")) = .ok query ∧
        repository.evidence "b1" = .ok evidence ∧ ¬Faithful query evidence.cycles response := by
  intro repository
  obtain ⟨response, hresponse⟩ := Raising.exists_ok_of_toBool (x := executeTool (fun _ => pure 0)
    (resultQuery (fun _ => pure ()) repository) (windowRequest "datasetPath")) (by with_unfolding_all decide)
  obtain ⟨answer, hanswer, rfl⟩ := executeTool_eq_ok hresponse
  obtain ⟨backtestId, query, hbacktest, hquery, hcycles⟩ := resultQuery_eq_ok hanswer rfl
  obtain ⟨evidence, hevidence, hfaithful⟩ := resultCycles_faithful_iff (cyclesQuery_leading hquery) hcycles
  refine ⟨_, hresponse, query, evidence, hquery, hevidence, fun hshown => ?_⟩
  have hquery' : cyclesQuery (membersOf (windowRequest "datasetPath")) =
      .ok ⟨["cycles.data.datasetPath"], 1, 2⟩ := by rfl
  cases hquery.symm.trans hquery'
  cases hevidence
  have hkept := (hfaithful.mp hshown _ List.mem_cons_self).values "cycles.data.datasetPath" (by simp) (.str "b") ?_
  · exact absurd hkept.1 (by decide)
  · rfl

end Instances

end Window

end TradeFramework.AgentBridge
