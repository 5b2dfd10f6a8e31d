import TradeFramework.Data.PathShapes
import TradeFramework.Results.Cycle
import Mathlib.Data.List.Lex
import Mathlib.Data.String.Basic

/-!
# The Observation input of a Pipeline

A Pipeline configuration selects Data paths of the Observation and takes some of them out
again. Its projection plan leaves out what another path already decides. Executing the plan
shows the same as selecting every path that is not taken out and then deleting every
blacklisted one. An object whose only selected member is taken out is not kept.
-/

namespace TradeFramework

open Raising (raiseIf)
open Results (requireExactFields field)

section Config

/-- `_path_is_same_or_descendant`. -/
def pathIsSameOrDescendant (path parent : DataPath) : Bool :=
  path.parts.take parent.parts.length == parent.parts

/-- `isinstance(path, str) and path.strip()`. -/
def strippedPath : Json → Option String
  | .str text => if stripText text.toList = [] then none else some (String.ofList (stripText text.toList))
  | _ => none

/-- The checks that `_normalize_observation_paths` makes of one path. -/
def observationPath (label path : String) : Except PyError DataPath := do
  let parts ← splitDataPath path
  raiseIf (parts.root ∈ ["last", "decisionTime"])
    (.valueError s!"{label} cannot select reserved Engine path '{path}'.")
  pure parts

/-- `_normalize_observation_paths`. -/
def normalizeObservationPaths (value : Json) (label : String) : Except PyError (List DataPath) :=
  match value with
  | .arr items => do
    let paths ← (items.mapM strippedPath).elim
      (throw (.valueError s!"{label} must contain non-empty DataKey paths.")) pure
    let parts ← paths.mapM (observationPath label)
    raiseIf (¬paths.Nodup) (.valueError s!"{label} must not contain duplicate paths.")
    pure (parts.insertionSort fun a b => a.parts ≤ b.parts)
  | _ => throw (.valueError s!"{label} must be an array.")

/-- The canonical form of a Pipeline configuration. -/
structure ObservationInput where
  whitelist : List DataPath
  blacklist : List DataPath
  inside : ∀ path ∈ blacklist, ∃ allowed ∈ whitelist, pathIsSameOrDescendant path allowed = true
deriving DecidableEq

lemma inside_of_outside {whitelist blacklist : List DataPath}
    (h : (blacklist.filter fun path => !whitelist.any (pathIsSameOrDescendant path)) = []) :
    ∀ path ∈ blacklist, ∃ allowed ∈ whitelist, pathIsSameOrDescendant path allowed = true := by
  intro path hpath
  have hany := List.filter_eq_nil_iff.mp h path hpath
  simpa using hany

/-- `normalize_pipeline_config`. -/
def normalizePipelineConfig (config : Json) : Except PyError ObservationInput := do
  let fields ← requireExactFields config ["observationInput"] ["observationInput"] "Pipeline config"
  let observationInput ← requireExactFields (field fields "observationInput") ["whitelist", "blacklist"]
    ["whitelist", "blacklist"] "Pipeline config.observationInput"
  let whitelist ← normalizeObservationPaths (field observationInput "whitelist")
    "Pipeline config.observationInput.whitelist"
  let blacklist ← normalizeObservationPaths (field observationInput "blacklist")
    "Pipeline config.observationInput.blacklist"
  let outside := blacklist.filter fun path => !whitelist.any (pathIsSameOrDescendant path)
  if h : outside = [] then pure ⟨whitelist, blacklist, inside_of_outside h⟩
  else
    let names := ", ".intercalate (outside.map fun path => joinPath path.parts)
    throw (.valueError <| "Pipeline config.observationInput.blacklist path(s) are outside the " ++
      s!"whitelist: {names}")

end Config

section Plan

/-- `_minimal_observation_paths`. -/
def minimalObservationPaths (paths : List DataPath) : List DataPath :=
  paths.foldl (fun result path =>
    if result.any (pathIsSameOrDescendant path) then result else result ++ [path]) []

/-- The paths that the runtime projects and the paths that it deletes. -/
structure ProjectionPlan where
  whitelist : List DataPath
  blacklist : List DataPath

/-- The whitelisted paths that no blacklisted path deletes in full. -/
def selectedPaths (whitelist blacklist : List DataPath) : List DataPath :=
  whitelist.filter fun path => !blacklist.any (pathIsSameOrDescendant path)

/-- The blacklisted paths below a selected path. -/
def deniedPaths (selected blacklist : List DataPath) : List DataPath :=
  blacklist.filter fun path =>
    selected.any fun allowed => path != allowed && pathIsSameOrDescendant path allowed

/-- `compile_observation_projection_plan`. -/
def compileObservationProjectionPlan (config : Json) : Except PyError ProjectionPlan := do
  let observationInput ← normalizePipelineConfig config
  let whitelist := minimalObservationPaths observationInput.whitelist
  let blacklist := minimalObservationPaths observationInput.blacklist
  let selected := selectedPaths whitelist blacklist
  pure ⟨selected, deniedPaths selected blacklist⟩

/-- The projection that `execute_observation` makes of an Observation. -/
def projectObservation (plan : ProjectionPlan) (observation : DataDict) : Except PyError DataDict := do
  let data ← projectCompiledDataPaths observation plan.whitelist
  pure (plan.blacklist.foldl deleteDataSegmentsCopyOnWrite data)

/-- Both plans make equal Data Dicts of the Observation. -/
def SameProjection (plan other : ProjectionPlan) (observation : DataDict) : Prop :=
  ∃ data data', projectObservation plan observation = .ok data ∧
    projectObservation other observation = .ok data' ∧
    jsonValuesEqual (.obj data) (.obj data') = true

end Plan

section Covering

variable {path parent other : DataPath} {paths : List DataPath}

lemma pathIsSameOrDescendant_iff :
    pathIsSameOrDescendant path parent = true ↔ parent.parts <+: path.parts := by
  rw [pathIsSameOrDescendant, beq_iff_eq, List.prefix_iff_eq_take]
  exact eq_comm

lemma parts_injective (h : path.parts = other.parts) : path = other := by
  rcases path with ⟨root, rest, valid⟩
  rcases other with ⟨root', rest', valid'⟩
  simp only [DataPath.parts, List.cons.injEq] at h
  obtain ⟨rfl, rfl⟩ := h
  rfl

lemma eq_of_prefixes (h : path.parts <+: other.parts) (h' : other.parts <+: path.parts) :
    path = other :=
  parts_injective (h.eq_of_length (Nat.le_antisymm h.length_le h'.length_le))

/-- The minimal paths are some of the paths, and lead to every one of them. -/
lemma minimalObservationPaths_spec (paths : List DataPath) :
    (∀ path ∈ minimalObservationPaths paths, path ∈ paths) ∧
      ∀ path ∈ paths, ∃ parent ∈ minimalObservationPaths paths, parent.parts <+: path.parts := by
  have hfold : ∀ result : List DataPath,
      let minimal := paths.foldl (fun result path =>
        if result.any (pathIsSameOrDescendant path) then result else result ++ [path]) result
      (∀ path ∈ minimal, path ∈ result ∨ path ∈ paths) ∧ (∀ path ∈ result, path ∈ minimal) ∧
        ∀ path ∈ paths, ∃ parent ∈ minimal, parent.parts <+: path.parts := by
    induction paths with
    | nil => simp
    | cons first paths ih =>
      intro result
      dsimp only at ih ⊢
      rw [List.foldl_cons]
      by_cases hany : result.any (pathIsSameOrDescendant first) = true
      · rw [if_pos hany]
        obtain ⟨hsub, hkeep, hcover⟩ := ih result
        refine ⟨fun path hpath => (hsub path hpath).imp_right (List.mem_cons_of_mem _), hkeep, ?_⟩
        intro path hpath
        rcases List.mem_cons.mp hpath with rfl | hpath
        · obtain ⟨parent, hparent, hleading⟩ := List.any_eq_true.mp hany
          exact ⟨parent, hkeep parent hparent, pathIsSameOrDescendant_iff.mp hleading⟩
        · exact hcover path hpath
      · rw [if_neg hany]
        obtain ⟨hsub, hkeep, hcover⟩ := ih (result ++ [first])
        refine ⟨fun path hpath => ?_, fun path hpath => hkeep path (by simp [hpath]), ?_⟩
        · simpa [or_assoc] using hsub path hpath
        · intro path hpath
          rcases List.mem_cons.mp hpath with rfl | hpath
          · exact ⟨path, hkeep path (by simp), List.prefix_refl _⟩
          · exact hcover path hpath
  obtain ⟨hsub, -, hcover⟩ := hfold []
  exact ⟨fun path hpath => by simpa using hsub path hpath, hcover⟩

/-- Above a path of a list there is one that has no other above it. -/
lemma exists_shortest (hpath : path ∈ paths) : ∃ shortest ∈ paths, shortest.parts <+: path.parts ∧
    ∀ other ∈ paths, other.parts <+: shortest.parts → other = shortest := by
  induction hn : path.parts.length using Nat.strong_induction_on generalizing path with
  | _ n ih =>
    subst hn
    by_cases hmin : ∀ other ∈ paths, other.parts <+: path.parts → other = path
    · exact ⟨path, hpath, List.prefix_refl _, hmin⟩
    · push Not at hmin
      obtain ⟨other, hother, hleading, hne⟩ := hmin
      have hlt : other.parts.length < path.parts.length := by
        refine lt_of_le_of_ne hleading.length_le fun heq => hne ?_
        exact parts_injective (hleading.eq_of_length heq)
      obtain ⟨shortest, hmem, hbelow, hleast⟩ := ih _ hlt hother rfl
      exact ⟨shortest, hmem, hbelow.trans hleading, hleast⟩

lemma mem_selectedPaths {whitelist blacklist : List DataPath} : path ∈ selectedPaths whitelist blacklist ↔
    path ∈ whitelist ∧ ∀ denied ∈ blacklist, ¬denied.parts <+: path.parts := by
  simp [selectedPaths, ← pathIsSameOrDescendant_iff]

lemma mem_deniedPaths {selected blacklist : List DataPath} : path ∈ deniedPaths selected blacklist ↔
    path ∈ blacklist ∧ ∃ allowed ∈ selected, path ≠ allowed ∧ allowed.parts <+: path.parts := by
  simp [deniedPaths, ← pathIsSameOrDescendant_iff]

end Covering

section Execution

variable {plan other : ProjectionPlan} {observation : DataDict}

/-- The paths of an Observation that a plan shows. -/
def ProjectionPlan.Keeps (plan : ProjectionPlan) (observation : DataDict) (q : List String) : Prop :=
  Projected observation plan.whitelist q ∧ ∀ path ∈ plan.blacklist, ¬path.parts <+: q

/-- Executing a plan never raises, and shows what the plan keeps. -/
lemma exists_projectObservation (plan : ProjectionPlan) (observation : DataDict) :
    ∃ data, projectObservation plan observation = .ok data ∧
      PartOf observation (plan.Keeps observation) data := by
  obtain ⟨part, hpart, hshows⟩ := exists_projectCompiledDataPaths observation plan.whitelist
  refine ⟨_, ?_, hshows.delete plan.blacklist⟩
  unfold projectObservation
  rw [hpart]
  rfl

lemma sameProjection_of_keeps (h : ∀ q, (getDataSegments (.obj observation) q).isSome →
    (plan.Keeps observation q ↔ other.Keeps observation q)) :
    SameProjection plan other observation := by
  obtain ⟨data, hdata, hshows⟩ := exists_projectObservation plan observation
  obtain ⟨data', hdata', hshows'⟩ := exists_projectObservation other observation
  exact ⟨data, data', hdata, hdata', (hshows.congr h).equal hshows'⟩

/-- A root that only one of two plans keeps tells their results apart. -/
lemma not_sameProjection {root : String} (hroot : (observation.lookup root).isSome)
    (hkeeps : other.Keeps observation [root]) (hdrops : ¬plan.Keeps observation [root]) :
    ¬SameProjection plan other observation := by
  rintro ⟨data, data', hdata, hdata', hequal⟩
  obtain ⟨_, hrun, hshows⟩ := exists_projectObservation plan observation
  obtain ⟨_, hrun', hshows'⟩ := exists_projectObservation other observation
  cases hdata.symm.trans hrun
  cases hdata'.symm.trans hrun'
  have hnone := hshows.hides [root] hdrops
  have hsome := hshows'.shows [root] hkeeps
  obtain ⟨x, hx⟩ := Option.isSome_iff_exists.mp hroot
  simp only [shapeAt_cons, hx, Option.bind_some, shapeAt_nil] at hnone hsome
  have hlookup := jsonValuesEqual_obj.mp hequal root
  cases hl : data.lookup root with
  | some y => simp [hl] at hnone
  | none =>
    cases hr : data'.lookup root with
    | none => simp [hr] at hsome
    | some y =>
      rw [hl, hr] at hlookup
      cases hlookup

end Execution

section Minimal

variable (input : ObservationInput)

/-- What `compile_observation_projection_plan` makes of a canonical configuration. -/
def ObservationInput.minimalPlan : ProjectionPlan :=
  let selected := selectedPaths (minimalObservationPaths input.whitelist)
    (minimalObservationPaths input.blacklist)
  ⟨selected, deniedPaths selected (minimalObservationPaths input.blacklist)⟩

/-- Projects every whitelisted path and then deletes every blacklisted one. -/
def ObservationInput.fullPlan : ProjectionPlan := ⟨input.whitelist, input.blacklist⟩

/-- Projects the whitelisted paths that are not taken out, and then deletes every blacklisted path. -/
def ObservationInput.remainingPlan : ProjectionPlan :=
  ⟨selectedPaths input.whitelist input.blacklist, input.blacklist⟩

/-- A blacklisted path that is whitelisted too is a root, or another whitelisted path is above it. -/
def ObservationInput.LeavesNoParent : Prop :=
  ∀ path ∈ input.blacklist, path ∈ input.whitelist →
    path.rest = [] ∨ ∃ parent ∈ input.whitelist, parent ≠ path ∧
      pathIsSameOrDescendant path parent = true

variable {input} {observation : DataDict} {q : List String}

lemma mem_minimalPlan {path : DataPath} : path ∈ input.minimalPlan.whitelist ↔
    path ∈ minimalObservationPaths input.whitelist ∧
      ∀ denied ∈ input.blacklist, ¬denied.parts <+: path.parts := by
  obtain ⟨hsub, hcover⟩ := minimalObservationPaths_spec input.blacklist
  rw [ObservationInput.minimalPlan, mem_selectedPaths]
  refine and_congr_right fun _ => ⟨fun h denied hdenied hleading => ?_, fun h denied hdenied => ?_⟩
  · obtain ⟨least, hleast, habove⟩ := hcover denied hdenied
    exact h least hleast (habove.trans hleading)
  · exact h denied (hsub denied hdenied)

/-- The minimal plan keeps what selecting the remaining paths and deleting the others keeps. -/
lemma keeps_minimalPlan :
    input.minimalPlan.Keeps observation q ↔ input.remainingPlan.Keeps observation q := by
  obtain ⟨hsub, hcover⟩ := minimalObservationPaths_spec input.whitelist
  obtain ⟨hsubDenied, hcoverDenied⟩ := minimalObservationPaths_spec input.blacklist
  constructor
  · rintro ⟨hshown, hkept⟩
    rcases hshown with rfl | ⟨path, hpath, hpresent, hway⟩
    · exact ⟨Or.inl rfl, fun denied _ => by simp [DataPath.parts]⟩
    obtain ⟨hminimal, hremains⟩ := mem_minimalPlan.mp hpath
    refine ⟨Or.inr ⟨path, mem_selectedPaths.mpr ⟨hsub path hminimal, hremains⟩, hpresent, hway⟩, ?_⟩
    intro denied hdenied hleading
    obtain ⟨least, hleast, habove⟩ := hcoverDenied denied hdenied
    have hleastq := habove.trans hleading
    have hnot := hremains least (hsubDenied least hleast)
    rcases hway with hbelow | hon
    · rcases List.prefix_or_prefix_of_prefix hleastq hbelow with hle | hle
      · exact hnot hle
      · -- the blacklisted path lies strictly below the selected one, so the plan deletes it
        refine hkept least (mem_deniedPaths.mpr ⟨hleast, path, hpath, ?_, hle⟩) hleastq
        rintro rfl
        exact hnot (List.prefix_refl _)
    · exact hnot (hleastq.trans hon)
  · rintro ⟨hshown, hkept⟩
    refine ⟨?_, fun denied hdenied => hkept denied (hsubDenied denied (mem_deniedPaths.mp hdenied).1)⟩
    refine hshown.imp_right ?_
    rintro ⟨path, hpath, hpresent, hway⟩
    obtain ⟨hwhite, hremains⟩ := mem_selectedPaths.mp hpath
    obtain ⟨least, hleast, habove⟩ := hcover path hwhite
    refine ⟨least, mem_minimalPlan.mpr ⟨hleast, fun denied hdenied hleading => ?_⟩,
      isSome_of_prefix habove hpresent, ?_⟩
    · exact hremains denied hdenied (hleading.trans habove)
    · rcases hway with hbelow | hon
      · exact Or.inl (habove.trans hbelow)
      · exact List.prefix_or_prefix_of_prefix habove hon

/-- A blacklisted path above the topmost whitelisted one is that path. -/
lemma eq_of_denied {denied least : DataPath} (hdenied : denied ∈ input.blacklist)
    (hleading : denied.parts <+: least.parts)
    (hmin : ∀ other ∈ input.whitelist, other.parts <+: least.parts → other = least) :
    denied = least := by
  obtain ⟨allowed, hallowed, hinside⟩ := input.inside denied hdenied
  have habove := pathIsSameOrDescendant_iff.mp hinside
  have heq := hmin allowed hallowed (habove.trans hleading)
  exact eq_of_prefixes hleading (heq ▸ habove)

/-- Selecting the paths that are deleted afterwards shows no more, unless a parent is left behind. -/
lemma keeps_fullPlan (h : input.LeavesNoParent) :
    input.remainingPlan.Keeps observation q ↔ input.fullPlan.Keeps observation q := by
  refine and_congr_left fun hkept => ⟨?_, ?_⟩
  · refine Or.imp_right fun ⟨path, hpath, hshown⟩ => ?_
    exact ⟨path, (mem_selectedPaths.mp hpath).1, hshown⟩
  · rintro (rfl | ⟨path, hpath, hpresent, hway⟩)
    · exact Or.inl rfl
    by_cases hremains : path ∈ selectedPaths input.whitelist input.blacklist
    · exact Or.inr ⟨path, hremains, hpresent, hway⟩
    have hcovered : ∃ denied ∈ input.blacklist, denied.parts <+: path.parts := by
      by_contra hnone
      push Not at hnone
      exact hremains (mem_selectedPaths.mpr ⟨hpath, hnone⟩)
    obtain ⟨denied, hdenied, habove⟩ := hcovered
    have hon : q <+: path.parts :=
      hway.resolve_left fun hbelow => hkept denied hdenied (habove.trans hbelow)
    obtain ⟨allowed, hallowed, hinside⟩ := input.inside denied hdenied
    obtain ⟨least, hleast, hleastAbove, hmin⟩ := exists_shortest hallowed
    have hleastPath : least.parts <+: path.parts :=
      hleastAbove.trans ((pathIsSameOrDescendant_iff.mp hinside).trans habove)
    have hleastWay := List.prefix_or_prefix_of_prefix hleastPath hon
    by_cases hroot : ∃ other ∈ input.blacklist, other.parts <+: least.parts
    · obtain ⟨other, hother, hleading⟩ := hroot
      have heq : other = least := eq_of_denied hother hleading hmin
      subst heq
      rcases h other hother hleast with hrest | ⟨parent, hparent, hne, hbelow⟩
      · left
        rcases hleastWay with hdown | hup
        · exact absurd hdown (hkept other hother)
        · rcases List.prefix_cons_iff.mp hup with hnil | ⟨rest, hq, hnil⟩
          · exact hnil
          · rw [hrest, List.prefix_nil] at hnil
            refine absurd ?_ (hkept other hother)
            rw [hq, hnil, DataPath.parts, hrest]
      · exact absurd (hmin parent hparent (pathIsSameOrDescendant_iff.mp hbelow)) hne
    · push Not at hroot
      exact Or.inr ⟨least, mem_selectedPaths.mpr ⟨hleast, hroot⟩,
        isSome_of_prefix hleastPath hpresent, hleastWay⟩

/-- An Observation with nothing but the value at one path. -/
def onlyPath (path : DataPath) : DataDict := [(path.root, nestedValue path.rest .null)]

lemma getDataSegments_onlyPath (path : DataPath) :
    getDataSegments (.obj (onlyPath path)) path.parts = some .null := by
  have hnested : ∀ rest : List String, getDataSegments (nestedValue rest .null) rest = some .null := by
    intro rest
    induction rest with
    | nil => rfl
    | cons name rest ih => simpa [nestedValue, getDataSegments] using ih
  simpa [onlyPath, DataPath.parts, getDataSegments] using hnested path.rest

lemma prefix_of_onlyPath {path : DataPath} (h : (getDataSegments (.obj (onlyPath path)) q).isSome) :
    q <+: path.parts := by
  have hnested : ∀ rest q : List String, (getDataSegments (nestedValue rest .null) q).isSome →
      q <+: rest := by
    intro rest
    induction rest with
    | nil =>
      intro q h
      cases q with
      | nil => exact List.prefix_refl _
      | cons name q => simp [nestedValue, getDataSegments] at h
    | cons name rest ih =>
      intro q h
      cases q with
      | nil => exact List.nil_prefix
      | cons k q =>
        by_cases hk : k = name
        · subst hk
          exact List.cons_prefix_cons.mpr ⟨rfl, ih q (by simpa [nestedValue, getDataSegments] using h)⟩
        · simp [nestedValue, getDataSegments, hk] at h
  exact hnested path.parts q h

/-- A path that is selected and taken out leaves its parent behind where there is nothing else. -/
lemma leavesNoParent_of_same
    (h : ∀ observation, SameProjection input.minimalPlan input.fullPlan observation) :
    input.LeavesNoParent := by
  intro path hblack hwhite
  by_contra hnot
  push Not at hnot
  obtain ⟨hrest, hparent⟩ := hnot
  have habove : ∀ other ∈ input.whitelist, other.parts <+: path.parts → other = path := by
    intro other hother hleading
    by_contra hne
    exact hparent other hother hne (pathIsSameOrDescendant_iff.mpr hleading)
  refine @not_sameProjection _ _ _ path.root (by simp [onlyPath]) ⟨?_, ?_⟩ ?_ (h (onlyPath path))
  · refine Or.inr ⟨path, hwhite, by rw [getDataSegments_onlyPath]; rfl, Or.inr ?_⟩
    exact List.cons_prefix_cons.mpr ⟨rfl, List.nil_prefix⟩
  · intro denied hdenied hleading
    have hpath : denied.parts <+: path.parts :=
      hleading.trans (List.cons_prefix_cons.mpr ⟨rfl, List.nil_prefix⟩)
    have heq : denied = path := eq_of_denied hdenied hpath habove
    subst heq
    have hlength := hleading.length_le
    simp only [DataPath.parts, List.length_cons, List.length_nil] at hlength
    exact hrest (List.length_eq_zero_iff.mp (by omega))
  · rw [keeps_minimalPlan]
    rintro ⟨hshown, -⟩
    rcases hshown with hnil | ⟨other, hother, hpresent, -⟩
    · cases hnil
    · obtain ⟨hwhiteOther, hremains⟩ := mem_selectedPaths.mp hother
      have heq := habove other hwhiteOther (prefix_of_onlyPath hpresent)
      subst heq
      exact hremains other hblack (List.prefix_refl _)

end Minimal

section Equivalence

variable {config : Json} {input : ObservationInput}

lemma compileObservationProjectionPlan_eq (h : normalizePipelineConfig config = .ok input) :
    compileObservationProjectionPlan config = .ok input.minimalPlan := by
  rw [compileObservationProjectionPlan, h]
  rfl

/-- Executing the compiled plan makes the Data Dict that selecting every remaining path and then
deleting every blacklisted one makes. Selecting the blacklisted paths too changes nothing exactly
where no path that is both selected and taken out leaves an empty parent. -/
theorem compiledPlan_sameProjection (config : Json) (input : ObservationInput)
    (h : normalizePipelineConfig config = .ok input) :
    ∃ plan, compileObservationProjectionPlan config = .ok plan ∧
      (∀ observation, SameProjection plan input.remainingPlan observation) ∧
      ((∀ observation, SameProjection plan input.fullPlan observation) ↔ input.LeavesNoParent) := by
  refine ⟨input.minimalPlan, compileObservationProjectionPlan_eq h, fun observation => ?_, ?_⟩
  · exact sameProjection_of_keeps fun q _ => keeps_minimalPlan
  · refine ⟨leavesNoParent_of_same, fun hparent observation => ?_⟩
    exact sameProjection_of_keeps fun q _ => keeps_minimalPlan.trans (keeps_fullPlan hparent)

/-- A configuration with these paths. -/
def observationConfig (whitelist blacklist : List String) : Json :=
  .obj [("observationInput", .obj [("whitelist", .arr (whitelist.map .str)),
    ("blacklist", .arr (blacklist.map .str))])]

/-- A selected object, a selected member of it, and a member that is taken out. -/
def nestedInput : ObservationInput where
  whitelist := [⟨"a", [], by decide⟩, ⟨"a", ["b"], by decide⟩, ⟨"c", ["d"], by decide⟩]
  blacklist := [⟨"a", ["b"], by decide⟩, ⟨"a", ["b", "x"], by decide⟩]
  inside := by decide

theorem compiledPlan_sameProjection_nested :
    ∃ plan, compileObservationProjectionPlan
        (observationConfig ["c.d", "a.b", " a "] ["a.b.x", "a.b"]) = .ok plan ∧
      (∀ observation, SameProjection plan nestedInput.remainingPlan observation) ∧
      ∀ observation, SameProjection plan nestedInput.fullPlan observation := by
  obtain ⟨plan, hplan, hremaining, hfull⟩ := compiledPlan_sameProjection _ nestedInput
    (show normalizePipelineConfig (observationConfig ["c.d", "a.b", " a "] ["a.b.x", "a.b"]) =
      .ok nestedInput by with_unfolding_all decide)
  have hparent : nestedInput.LeavesNoParent := by
    unfold ObservationInput.LeavesNoParent
    decide
  exact ⟨plan, hplan, hremaining, hfull.mpr hparent⟩

/-- One member that is both selected and taken out. -/
def memberInput : ObservationInput where
  whitelist := [⟨"a", ["b"], by decide⟩]
  blacklist := [⟨"a", ["b"], by decide⟩]
  inside := by decide

/-- The parent of the member is an empty object for one execution and missing for the other. -/
theorem compiledPlan_emptyParent :
    ∃ plan, normalizePipelineConfig (observationConfig ["a.b"] ["a.b"]) = .ok memberInput ∧
      compileObservationProjectionPlan (observationConfig ["a.b"] ["a.b"]) = .ok plan ∧
      ¬SameProjection plan memberInput.fullPlan [("a", .obj [("b", .int 1)])] := by
  have hnormal : normalizePipelineConfig (observationConfig ["a.b"] ["a.b"]) = .ok memberInput := by
    with_unfolding_all decide
  refine ⟨_, hnormal, compileObservationProjectionPlan_eq hnormal, ?_⟩
  rintro ⟨data, data', hdata, hdata', hequal⟩
  cases hdata
  cases hdata'
  revert hequal
  with_unfolding_all decide

end Equivalence

end TradeFramework
