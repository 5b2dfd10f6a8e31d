import Mathlib.Logic.Function.Basic
import TradeFramework.Data.DataPath
import TradeFramework.Library.Transitions
import TradeFramework.Runtime.OutputSnapshots

/-!
# Reusable outputs

A module registers outputs under a slot and returns the handle in later cycles. The SDK numbers the
registrations of each slot within an epoch and remembers the latest handle; the invoker keeps, for
each slot, the encoded outputs it validated with the number they had. A restore begins a new epoch.
-/

namespace TradeFramework.Runtime

/-- The slot, the epoch and the number a registration got. -/
structure Mark where
  slot : String
  epoch : ℕ
  generation : ℕ
deriving DecidableEq

/-- What the invoker rests on. `declares` is the port check of the SDK, `validate` the validation and
isolation of outputs. -/
structure OutputChecks where
  Candidate : Type
  declares : Candidate → Bool
  validate : Candidate → Option PythonOutput
  encoders : Encoders

/-- `_ReusableModuleOutputs`. -/
structure Handle (checks : OutputChecks) where
  mark : Mark
  candidate : checks.Candidate
  registered : Bool

/-- An entry of the owner. -/
structure Entry (checks : OutputChecks) where
  epoch : ℕ
  generation : ℕ
  snapshot : Snapshot checks.encoders

/-- The entry was stored for this registration of its slot. -/
def Entry.isFor {checks : OutputChecks} (entry : Entry checks) (mark : Mark) : Prop :=
  (entry.epoch, entry.generation) = (mark.epoch, mark.generation)

instance {checks : OutputChecks} (entry : Entry checks) (mark : Mark) :
    Decidable (entry.isFor mark) := inferInstanceAs (Decidable (_ = _))

/-- The SDK module, the owner and the handles that were made. `confirmed` remembers which value was
validated under which mark; nothing reads it. -/
structure ModuleState (checks : OutputChecks) where
  epoch : ℕ
  generations : String → ℕ
  handles : String → Option ℕ
  heap : List (Handle checks)
  entries : String → Option (Entry checks)
  finalized : Bool
  confirmed : List (Mark × PythonOutput)

inductive InvokeError
  | notRunning
  | moduleRaised
  | notActive
  | undeclared
  | invalidGeneration
  | invalidOutputs
  | notEncodable
  | stale
  | notDecodable
  | notConfirmed
deriving DecidableEq

/-- What a module does with handles. It may write to the fields of any handle it kept. -/
inductive Move (checks : OutputChecks)
  | register (slot : String) (outputs : checks.Candidate)
  | write (id : ℕ) (contents : Handle checks)

/-- What `update` ends with. A foreign handle belongs to another module. -/
inductive Returned (checks : OutputChecks)
  | raised
  | outputs (candidate : checks.Candidate)
  | handle (id : ℕ)
  | foreign

/-- A restore is refused before anything happens, fails after the owner was invalidated and before
the SDK was, or reaches the hook of the module. -/
inductive Restore (checks : OutputChecks)
  | refused
  | adapterFails
  | hook (moves : List (Move checks))

inductive ModuleCall (checks : OutputChecks)
  | invoke (moves : List (Move checks)) (returned : Returned checks) (confirmFails : Bool)
  | snapshot (moves : List (Move checks))
  | restore (outcome : Restore checks)
  | finalize (moves : List (Move checks))

section Calls

variable {checks : OutputChecks}

namespace ModuleState

def initial (checks : OutputChecks) : ModuleState checks :=
  ⟨0, fun _ => 0, fun _ => none, [], fun _ => none, false, []⟩

/-- A non-empty trimmed slot. -/
def isSlot (slot : String) : Bool := slot ≠ "" && stripText slot.toList = slot.toList

/-- `register_reusable_outputs`, within an invocation by the engine. -/
def register (s : ModuleState checks) (slot : String) (outputs : checks.Candidate) :
    ModuleState checks :=
  let generation := s.generations slot + 1
  { s with
    generations := Function.update s.generations slot generation
    handles := Function.update s.handles slot (some s.heap.length)
    heap := s.heap ++ [⟨⟨slot, s.epoch, generation⟩, outputs, false⟩] }

/-- `inScope` holds within an invocation by the engine only. -/
def move (inScope : Bool) (s : ModuleState checks) : Move checks → ModuleState checks
  | .register slot outputs => if inScope && isSlot slot then s.register slot outputs else s
  | .write id contents => { s with heap := s.heap.set id contents }

def moved (inScope : Bool) (s : ModuleState checks) (moves : List (Move checks)) :
    ModuleState checks := Transitions.run (move inScope) s moves

/-- `_reusable_output_material`: only the latest handle of its slot in this epoch is active. -/
def material (s : ModuleState checks) (id : ℕ) : Option (Handle checks) :=
  s.heap[id]?.filter fun handle =>
    handle.mark.epoch = s.epoch && s.handles handle.mark.slot = some id

/-- `issue_reusable_output_receipt`. -/
def issuesReceipt (handle : Handle checks) : Bool := handle.mark.slot ≠ "" && 1 ≤ handle.mark.generation

/-- `ReusableOutputOwner.resolve`. -/
def resolve (s : ModuleState checks) (handle : Handle checks) : Except InvokeError PythonOutput :=
  if handle.registered then
    match s.entries handle.mark.slot with
    | none => .error .stale
    | some entry =>
      if entry.isFor handle.mark then
        match decodeSnapshot entry.snapshot with
        | none => .error .notDecodable
        | some value => .ok value
      else .error .stale
  else .error .stale

/-- `ReusableOutputOwner.register_validated`, with the encoded outputs. -/
def store (s : ModuleState checks) (mark : Mark) (snapshot : Snapshot checks.encoders) :
    ModuleState checks :=
  { s with
    entries := Function.update s.entries mark.slot (some ⟨mark.epoch, mark.generation, snapshot⟩) }

/-- `ReusableOutputOwner.discard`. -/
def discard (s : ModuleState checks) (mark : Mark) : ModuleState checks :=
  match s.entries mark.slot with
  | none => s
  | some entry =>
    if entry.isFor mark then
      { s with entries := Function.update s.entries mark.slot none }
    else s

def setRegistered (s : ModuleState checks) (id : ℕ) (value : PythonOutput) (handle : Handle checks) :
    ModuleState checks :=
  { s with
    heap := s.heap.set id { handle with registered := true }
    confirmed := (handle.mark, value) :: s.confirmed }

/-- `_confirm_reusable_outputs`. -/
def confirm (s : ModuleState checks) (id : ℕ) (value : PythonOutput) : Option (ModuleState checks) :=
  (s.material id).map (s.setRegistered id value)

/-- The validation and the registration of a handle that was not registered yet. -/
def invokeCandidate (s : ModuleState checks) (id : ℕ) (handle : Handle checks)
    (confirmFails : Bool) : Except InvokeError PythonOutput × ModuleState checks :=
  match checks.validate handle.candidate with
  | none => (.error .invalidOutputs, s)
  | some value =>
    match if value.isDict then encodeSnapshot checks.encoders value else none with
    | none => (.error .notEncodable, s)
    | some snapshot =>
      let stored := s.store handle.mark snapshot
      match if confirmFails then none else stored.confirm id value with
      | none => (.error .notConfirmed, stored.discard handle.mark)
      | some confirmed => (.ok value, confirmed)

/-- An invocation whose module returned a handle: `_invoke` and `_invoke_isolated`. -/
def invokeHandle (s : ModuleState checks) (id : ℕ) (confirmFails : Bool) :
    Except InvokeError PythonOutput × ModuleState checks :=
  match s.material id with
  | none => (.error .notActive, s)
  | some handle =>
    if !handle.registered && !checks.declares handle.candidate then (.error .undeclared, s)
    else if !issuesReceipt handle then (.error .invalidGeneration, s)
    else if handle.registered then (s.resolve handle, s)
    else s.invokeCandidate id handle confirmFails

def invokeOutputs (candidate : checks.Candidate) : Except InvokeError PythonOutput :=
  if checks.declares candidate then
    match checks.validate candidate with
    | none => .error .invalidOutputs
    | some value => .ok value
  else .error .undeclared

/-- `ModuleInvoker.invoke`, with what it returns. -/
def invoke (s : ModuleState checks) (moves : List (Move checks)) (returned : Returned checks)
    (confirmFails : Bool) : Except InvokeError PythonOutput × ModuleState checks :=
  if s.finalized then (.error .notRunning, s)
  else
    match returned with
    | .raised => (.error .moduleRaised, s.moved true moves)
    | .outputs candidate => (invokeOutputs candidate, s.moved true moves)
    | .handle id => (s.moved true moves).invokeHandle id confirmFails
    | .foreign => (.error .notActive, s.moved true moves)

/-- `_invalidate_reusable_outputs`. -/
def invalidateSdk (s : ModuleState checks) : ModuleState checks :=
  { s with
    epoch := s.epoch + 1
    generations := fun _ => 0
    handles := fun _ => none }

/-- `ReusableOutputOwner.invalidate`. -/
def invalidateOwner (s : ModuleState checks) : ModuleState checks := { s with entries := fun _ => none }

def restore (s : ModuleState checks) : Restore checks → ModuleState checks
  | .refused => s
  | .adapterFails => s.invalidateOwner
  | .hook moves => s.invalidateOwner.invalidateSdk.moved false moves

def finalize (s : ModuleState checks) (moves : List (Move checks)) : ModuleState checks :=
  { (s.moved false moves).invalidateSdk.invalidateOwner with finalized := true }

/-- A finalized module refuses every further call. -/
def step (s : ModuleState checks) (call : ModuleCall checks) : ModuleState checks :=
  if s.finalized then s
  else
    match call with
    | .invoke moves returned confirmFails => (s.invoke moves returned confirmFails).2
    | .snapshot moves => s.moved false moves
    | .restore outcome => s.restore outcome
    | .finalize moves => s.finalize moves

end ModuleState

end Calls

section Freshness

variable {checks : OutputChecks}

namespace ModuleState

/-- What the handles that were made are marked with, and whether they are registered. -/
def tags (s : ModuleState checks) : List (Mark × Bool) :=
  s.heap.map fun handle => (handle.mark, handle.registered)

/-- A registered handle that is active has its entry, a handle resolves to nothing but the value that
was confirmed under its mark, and a handle that is not registered has no entry. -/
structure Fresh (s : ModuleState checks) : Prop where
  active : ∀ id handle, s.material id = some handle → handle.registered = true →
    ∃ entry, s.entries handle.mark.slot = some entry ∧ entry.isFor handle.mark
  resolved : ∀ handle ∈ s.heap, ∀ value, s.resolve handle = .ok value →
    (handle.mark, value) ∈ s.confirmed ∧
      ∀ other, (handle.mark, other) ∈ s.confirmed → other = value
  unregistered : ∀ handle ∈ s.heap, handle.registered = false →
    ∀ entry, s.entries handle.mark.slot = some entry → ¬ entry.isFor handle.mark

/-- A write that leaves alone the fields the SDK keeps for itself. -/
def FairMove (s : ModuleState checks) : Move checks → Prop
  | .register _ _ => True
  | .write id contents => ∀ handle, s.heap[id]? = some handle →
    contents.mark = handle.mark ∧ contents.registered = handle.registered

def FairMoves (inScope : Bool) (s : ModuleState checks) (moves : List (Move checks)) : Prop :=
  Transitions.Along (move inScope) FairMove s moves

/-- The module writes only candidates, the outputs it confirms have no split pairs, and no registered
handle is active when a restore fails between the owner and the SDK. -/
def Allowed (s : ModuleState checks) (call : ModuleCall checks) : Prop :=
  s.finalized = false →
    match call with
    | .invoke moves returned _ => FairMoves true s moves ∧
      ∀ id handle value, returned = .handle id → (s.moved true moves).material id = some handle →
        handle.registered = false → checks.validate handle.candidate = some value →
        NoSplitPairs value
    | .snapshot moves => FairMoves false s moves
    | .restore .refused => True
    | .restore .adapterFails =>
      ∀ id handle, s.material id = some handle → handle.registered = false
    | .restore (.hook moves) => FairMoves false s.invalidateOwner.invalidateSdk moves
    | .finalize _ => True

/-- The SDK and the owner agree on the registrations. -/
structure Consistent (s : ModuleState checks) : Prop where
  latest : ∀ slot id, s.handles slot = some id →
    ∃ registered, s.tags[id]? = some (⟨slot, s.epoch, s.generations slot⟩, registered)
  bounded : ∀ tag ∈ s.tags, tag.1.epoch ≤ s.epoch ∧
    (tag.1.epoch = s.epoch → tag.1.generation ≤ s.generations tag.1.slot)
  distinct : (s.tags.map Prod.fst).Nodup
  justified : ∀ slot entry, s.entries slot = some entry →
    ∃ value, (⟨slot, entry.epoch, entry.generation⟩, value) ∈ s.confirmed ∧ NoSplitPairs value ∧
      encodeSnapshot checks.encoders value = some entry.snapshot
  kept : ∀ slot id mark, s.handles slot = some id → s.tags[id]? = some (mark, true) →
    ∃ entry, s.entries slot = some entry ∧ entry.isFor mark
  recorded : ∀ mark value, (mark, value) ∈ s.confirmed → (mark, true) ∈ s.tags
  unique : ∀ mark v w, (mark, v) ∈ s.confirmed → (mark, w) ∈ s.confirmed → v = w

lemma material_eq_some {s : ModuleState checks} {id : ℕ} {handle : Handle checks} :
    s.material id = some handle ↔ s.heap[id]? = some handle ∧ handle.mark.epoch = s.epoch ∧
      s.handles handle.mark.slot = some id := by
  unfold material
  rw [Option.filter_eq_some_iff]
  simp

lemma mem_tags {s : ModuleState checks} {handle : Handle checks} (h : handle ∈ s.heap) :
    (handle.mark, handle.registered) ∈ s.tags := List.mem_map_of_mem h

lemma tags_getElem {s : ModuleState checks} {id : ℕ} {handle : Handle checks}
    (h : s.heap[id]? = some handle) : s.tags[id]? = some (handle.mark, handle.registered) := by
  unfold tags
  rw [List.getElem?_map, h]
  rfl

/-- One mark is not both registered and not. -/
lemma Consistent.registered_unique {s : ModuleState checks} (h : s.Consistent) {mark : Mark}
    {a b : Bool} (ha : (mark, a) ∈ s.tags) (hb : (mark, b) ∈ s.tags) : a = b := by
  have hsame := List.inj_on_of_nodup_map h.distinct ha hb rfl
  exact (Prod.mk.inj hsame).2

lemma Entry.mark_eq {entry : Entry checks} {mark : Mark} (h : entry.isFor mark) :
    (⟨mark.slot, entry.epoch, entry.generation⟩ : Mark) = mark := by
  obtain ⟨hepoch, hgeneration⟩ := Prod.mk.inj h
  rw [hepoch, hgeneration]

theorem Consistent.fresh {s : ModuleState checks} (h : s.Consistent) : s.Fresh where
  active := by
    intro id handle hmaterial hregistered
    obtain ⟨hheap, -, hhandles⟩ := material_eq_some.mp hmaterial
    apply h.kept handle.mark.slot id handle.mark hhandles
    rw [tags_getElem hheap, hregistered]
  resolved := by
    intro handle hhandle value hvalue
    unfold resolve at hvalue
    split_ifs at hvalue with hregistered
    split at hvalue
    · cases hvalue
    · next entry hentry =>
      split_ifs at hvalue with hfor
      split at hvalue
      · cases hvalue
      · next decoded hdecoded =>
        rw [Except.ok.injEq] at hvalue
        subst hvalue
        obtain ⟨confirmed, hconfirmed, hpairs, hencode⟩ := h.justified _ entry hentry
        rw [Entry.mark_eq hfor] at hconfirmed
        have hsame := decodeSnapshot_encodeSnapshot hpairs hencode hdecoded
        subst hsame
        exact ⟨hconfirmed, fun other hother => h.unique _ _ _ hother hconfirmed⟩
  unregistered := by
    intro handle hhandle hregistered entry hentry hfor
    obtain ⟨confirmed, hconfirmed, -, -⟩ := h.justified _ entry hentry
    rw [Entry.mark_eq hfor] at hconfirmed
    have htag := mem_tags hhandle
    rw [hregistered] at htag
    exact absurd (h.registered_unique htag (h.recorded _ _ hconfirmed)) (by decide)

/-- The handles matter through their tags only. -/
lemma Consistent.of_tags {s t : ModuleState checks} (h : s.Consistent) (htags : t.tags = s.tags)
    (hepoch : t.epoch = s.epoch) (hgenerations : t.generations = s.generations)
    (hhandles : t.handles = s.handles) (hentries : t.entries = s.entries)
    (hconfirmed : t.confirmed = s.confirmed) : t.Consistent where
  latest := by
    rw [htags, hepoch, hgenerations, hhandles]
    exact h.latest
  bounded := by
    rw [htags, hepoch, hgenerations]
    exact h.bounded
  distinct := by
    rw [htags]
    exact h.distinct
  justified := by
    rw [hentries, hconfirmed]
    exact h.justified
  kept := by
    rw [htags, hhandles, hentries]
    exact h.kept
  recorded := by
    rw [htags, hconfirmed]
    exact h.recorded
  unique := by
    rw [hconfirmed]
    exact h.unique

lemma tags_register (s : ModuleState checks) (slot : String) (outputs : checks.Candidate) :
    (s.register slot outputs).tags = s.tags ++ [(⟨slot, s.epoch, s.generations slot + 1⟩, false)] := by
  unfold tags register
  rw [List.map_append]
  rfl

lemma length_tags (s : ModuleState checks) : s.tags.length = s.heap.length := List.length_map _

/-- The next number of a slot is new in its epoch. -/
lemma Consistent.next_new {s : ModuleState checks} (h : s.Consistent) (slot : String) :
    (⟨slot, s.epoch, s.generations slot + 1⟩ : Mark) ∉ s.tags.map Prod.fst := by
  intro hmem
  obtain ⟨tag, htag, hmark⟩ := List.mem_map.mp hmem
  have hbound := (h.bounded tag htag).2
  rw [hmark] at hbound
  have hle := hbound rfl
  dsimp only at hle
  omega

/-- The latest handle of a slot is among those that were made. -/
lemma Consistent.handle_lt {s : ModuleState checks} (h : s.Consistent) {slot : String} {id : ℕ}
    (hid : s.handles slot = some id) : id < s.heap.length := by
  obtain ⟨registered, htag⟩ := h.latest slot id hid
  rw [← length_tags]
  exact (List.getElem?_eq_some_iff.mp htag).1

theorem Consistent.register {s : ModuleState checks} (h : s.Consistent) (slot : String)
    (outputs : checks.Candidate) : (s.register slot outputs).Consistent where
  latest := by
    intro other id hid
    rw [tags_register]
    by_cases hother : other = slot
    · subst hother
      have hlast : s.heap.length = id := by
        simpa [ModuleState.register] using hid
      refine ⟨false, ?_⟩
      rw [← hlast, ← length_tags, List.getElem?_concat_length]
      simp [ModuleState.register]
    · have hold : s.handles other = some id := by
        simpa [ModuleState.register, Function.update_of_ne hother] using hid
      obtain ⟨registered, htag⟩ := h.latest other id hold
      refine ⟨registered, ?_⟩
      rw [List.getElem?_append_left (by rw [length_tags]; exact h.handle_lt hold), htag]
      simp [ModuleState.register, Function.update_of_ne hother]
  bounded := by
    intro tag htag
    rw [tags_register, List.mem_append, List.mem_singleton] at htag
    rcases htag with htag | rfl
    · obtain ⟨hepoch, hgeneration⟩ := h.bounded tag htag
      refine ⟨hepoch, fun hsame => (hgeneration hsame).trans ?_⟩
      change _ ≤ Function.update s.generations slot (s.generations slot + 1) tag.1.slot
      by_cases hslot : tag.1.slot = slot
      · rw [hslot, Function.update_self]
        omega
      · rw [Function.update_of_ne hslot]
    · refine ⟨le_refl _, fun _ => ?_⟩
      change _ ≤ Function.update s.generations slot (s.generations slot + 1) slot
      rw [Function.update_self]
  distinct := by
    rw [tags_register, List.map_append, List.nodup_append]
    refine ⟨h.distinct, List.nodup_singleton _, ?_⟩
    intro mark hmark new hnew hsame
    rw [List.map_singleton, List.mem_singleton] at hnew
    rw [hsame, hnew] at hmark
    exact h.next_new slot hmark
  justified := h.justified
  kept := by
    intro other id mark hid htag
    rw [tags_register] at htag
    by_cases hother : other = slot
    · subst hother
      have hlast : s.heap.length = id := by
        simpa [ModuleState.register] using hid
      rw [← hlast, ← length_tags, List.getElem?_concat_length, Option.some.injEq,
        Prod.mk.injEq] at htag
      exact absurd htag.2 (by decide)
    · have hold : s.handles other = some id := by
        simpa [ModuleState.register, Function.update_of_ne hother] using hid
      rw [List.getElem?_append_left (by rw [length_tags]; exact h.handle_lt hold)] at htag
      exact h.kept other id mark hold htag
  recorded := by
    intro mark value hvalue
    rw [tags_register]
    exact List.mem_append_left _ (h.recorded mark value hvalue)
  unique := h.unique

lemma tags_write {s : ModuleState checks} {id : ℕ} {contents : Handle checks}
    (hfair : s.FairMove (.write id contents)) :
    (s.heap.set id contents).map (fun handle => (handle.mark, handle.registered)) = s.tags := by
  rw [List.map_set]
  by_cases hid : id < s.heap.length
  · have hheap : s.heap[id]? = some s.heap[id] := List.getElem?_eq_getElem hid
    obtain ⟨hmark, hregistered⟩ := hfair _ hheap
    rw [hmark, hregistered]
    apply List.ext_getElem?
    intro n
    by_cases hsame : id = n
    · subst hsame
      rw [tags_getElem hheap, List.getElem?_set_self (by rwa [List.length_map])]
    · rw [List.getElem?_set_ne hsame]
      rfl
  · rw [List.set_eq_of_length_le]
    · rfl
    · rw [List.length_map]
      omega

theorem Consistent.move {s : ModuleState checks} (h : s.Consistent) {inScope : Bool}
    {move : Move checks} (hfair : s.FairMove move) : (s.move inScope move).Consistent := by
  cases move with
  | register slot outputs =>
    unfold ModuleState.move
    dsimp only
    split_ifs
    · exact h.register slot outputs
    · exact h
  | write id contents => exact h.of_tags (tags_write hfair) rfl rfl rfl rfl rfl

lemma Consistent.moved {s : ModuleState checks} (h : s.Consistent) {inScope : Bool}
    {moves : List (Move checks)} (hfair : FairMoves inScope s moves) :
    (s.moved inScope moves).Consistent := by
  have hstep (before : ModuleState checks) (move : Move checks) (hbefore : before.Consistent)
      (hmove : before.FairMove move) : (before.move inScope move).Consistent := hbefore.move hmove
  exact Transitions.run_invariant hstep h hfair

/-- The mark of an active handle is the latest of its slot. -/
lemma Consistent.active_tag {s : ModuleState checks} (h : s.Consistent) {slot : String} {id : ℕ}
    {tag : Mark × Bool} (hid : s.handles slot = some id) (htag : s.tags[id]? = some tag) :
    tag.1 = ⟨slot, s.epoch, s.generations slot⟩ := by
  obtain ⟨registered, hlatest⟩ := h.latest slot id hid
  rw [htag, Option.some.injEq] at hlatest
  rw [hlatest]

/-- Setting the flag of a handle keeps its mark. -/
lemma map_fst_set {tags : List (Mark × Bool)} {id : ℕ} {mark : Mark} {before after : Bool}
    (h : tags[id]? = some (mark, before)) :
    (tags.set id (mark, after)).map Prod.fst = tags.map Prod.fst := by
  rw [List.map_set]
  apply List.ext_getElem?
  intro n
  by_cases hsame : id = n
  · subst hsame
    have hlt : id < tags.length := (List.getElem?_eq_some_iff.mp h).1
    rw [List.getElem?_set_self (by rwa [List.length_map]), List.getElem?_map, h]
    rfl
  · rw [List.getElem?_set_ne hsame]

lemma Consistent.confirmed {s : ModuleState checks} (h : s.Consistent) {id : ℕ}
    {handle : Handle checks} (hmaterial : s.material id = some handle)
    (hunregistered : handle.registered = false) {value : PythonOutput} (hpairs : NoSplitPairs value)
    {snapshot : Snapshot checks.encoders}
    (hencode : encodeSnapshot checks.encoders value = some snapshot) :
    Consistent ((s.store handle.mark snapshot).setRegistered id value handle) := by
  obtain ⟨hheap, -, hhandle⟩ := material_eq_some.mp hmaterial
  have htag : s.tags[id]? = some (handle.mark, false) := by
    rw [tags_getElem hheap, hunregistered]
  have hmem : (handle.mark, false) ∈ s.tags := List.mem_of_getElem? htag
  have hlt : id < s.tags.length := (List.getElem?_eq_some_iff.mp htag).1
  have htags : ((s.store handle.mark snapshot).setRegistered id value handle).tags =
      s.tags.set id (handle.mark, true) := List.map_set
  constructor
  · intro slot other hother
    rw [htags]
    by_cases hsame : id = other
    · subst hsame
      have hmark : handle.mark = ⟨slot, s.epoch, s.generations slot⟩ := h.active_tag hother htag
      refine ⟨true, ?_⟩
      rw [List.getElem?_set_self hlt, hmark]
      rfl
    · obtain ⟨registered, hlatest⟩ := h.latest slot other hother
      exact ⟨registered, by rw [List.getElem?_set_ne hsame, hlatest]; rfl⟩
  · intro tag hnew
    rw [htags] at hnew
    rcases List.mem_or_eq_of_mem_set hnew with hold | rfl
    · exact h.bounded tag hold
    · exact h.bounded (handle.mark, false) hmem
  · rw [htags, map_fst_set htag]
    exact h.distinct
  · intro slot entry hentry
    change Function.update s.entries handle.mark.slot _ slot = some entry at hentry
    by_cases hslot : slot = handle.mark.slot
    · subst hslot
      rw [Function.update_self, Option.some.injEq] at hentry
      subst hentry
      exact ⟨value, List.mem_cons_self, hpairs, hencode⟩
    · rw [Function.update_of_ne hslot] at hentry
      obtain ⟨old, hold, hrest⟩ := h.justified slot entry hentry
      exact ⟨old, List.mem_cons_of_mem _ hold, hrest⟩
  · intro slot other mark hother hnew
    change ∃ entry, Function.update s.entries handle.mark.slot _ slot = some entry ∧ _
    rw [htags] at hnew
    by_cases hslot : slot = handle.mark.slot
    · subst hslot
      have hsame : id = other := Option.some.inj (hhandle.symm.trans hother)
      subst hsame
      rw [List.getElem?_set_self hlt, Option.some.injEq, Prod.mk.injEq] at hnew
      rw [Function.update_self, ← hnew.1]
      exact ⟨_, rfl, rfl⟩
    · have hne : id ≠ other := by
        rintro rfl
        have hslots := congrArg Mark.slot (h.active_tag hother htag)
        exact hslot hslots.symm
      rw [List.getElem?_set_ne hne] at hnew
      rw [Function.update_of_ne hslot]
      exact h.kept slot other mark hother hnew
  · intro mark recorded hrecorded
    rw [htags]
    rcases List.mem_cons.mp hrecorded with hnew | hold
    · rw [(Prod.mk.inj hnew).1]
      exact List.mem_set hlt _
    · obtain ⟨other, hother⟩ := List.mem_iff_getElem?.mp (h.recorded mark recorded hold)
      have hne : id ≠ other := by
        rintro rfl
        rw [htag, Option.some.injEq, Prod.mk.injEq] at hother
        exact absurd hother.2 (by decide)
      apply List.mem_of_getElem? (i := other)
      rw [List.getElem?_set_ne hne, hother]
  · intro mark v w hv hw
    have hnone (u : PythonOutput) : (handle.mark, u) ∉ s.confirmed := by
      intro hu
      exact absurd (h.registered_unique hmem (h.recorded _ _ hu)) (by decide)
    rcases List.mem_cons.mp hv with hv | hv
    · rcases List.mem_cons.mp hw with hw | hw
      · rw [(Prod.mk.inj hv).2, (Prod.mk.inj hw).2]
      · rw [(Prod.mk.inj hv).1] at hw
        exact absurd hw (hnone w)
    · rcases List.mem_cons.mp hw with hw | hw
      · rw [(Prod.mk.inj hw).1] at hv
        exact absurd hv (hnone v)
      · exact h.unique mark v w hv hw

lemma discard_store (s : ModuleState checks) (mark : Mark) (snapshot : Snapshot checks.encoders) :
    (s.store mark snapshot).discard mark =
      { s with entries := Function.update s.entries mark.slot none } := by
  have hentry : (s.store mark snapshot).entries mark.slot =
      some ⟨mark.epoch, mark.generation, snapshot⟩ := Function.update_self _ _ _
  have hfor : (⟨mark.epoch, mark.generation, snapshot⟩ : Entry checks).isFor mark := rfl
  unfold discard
  rw [hentry]
  dsimp only
  rw [if_pos hfor]
  unfold store
  rw [Function.update_idem]

lemma Consistent.discarded {s : ModuleState checks} (h : s.Consistent) {id : ℕ}
    {handle : Handle checks} (hmaterial : s.material id = some handle)
    (hunregistered : handle.registered = false) :
    Consistent { s with entries := Function.update s.entries handle.mark.slot none } where
  latest := h.latest
  bounded := h.bounded
  distinct := h.distinct
  justified := by
    intro slot entry hentry
    change Function.update s.entries handle.mark.slot none slot = some entry at hentry
    by_cases hslot : slot = handle.mark.slot
    · subst hslot
      rw [Function.update_self] at hentry
      cases hentry
    · rw [Function.update_of_ne hslot] at hentry
      exact h.justified slot entry hentry
  kept := by
    intro slot other mark hother htag
    obtain ⟨hheap, -, hhandle⟩ := material_eq_some.mp hmaterial
    change ∃ entry, Function.update s.entries handle.mark.slot none slot = some entry ∧ _
    by_cases hslot : slot = handle.mark.slot
    · subst hslot
      have hsame : id = other := Option.some.inj (hhandle.symm.trans hother)
      subst hsame
      have hactive := tags_getElem hheap
      rw [hunregistered] at hactive
      have hflags := (Prod.mk.inj (Option.some.inj (htag.symm.trans hactive))).2
      exact absurd hflags (by decide)
    · rw [Function.update_of_ne hslot]
      exact h.kept slot other mark hother htag
  recorded := h.recorded
  unique := h.unique

/-- A call keeps the invariant, and a failing one registers no handle. -/
def Kept (s : ModuleState checks) (result : Except InvokeError PythonOutput × ModuleState checks) :
    Prop :=
  result.2.Consistent ∧ result.2.finalized = s.finalized ∧
    ∀ failure, result.1 = .error failure → result.2.heap = s.heap

lemma Consistent.kept_self {s : ModuleState checks} (h : s.Consistent)
    (result : Except InvokeError PythonOutput) : s.Kept (result, s) := ⟨h, rfl, fun _ _ => rfl⟩

lemma Consistent.invokeCandidate {s : ModuleState checks} (h : s.Consistent) {id : ℕ}
    {handle : Handle checks} (hmaterial : s.material id = some handle)
    (hunregistered : handle.registered = false)
    (hpairs : ∀ value, checks.validate handle.candidate = some value → NoSplitPairs value)
    (confirmFails : Bool) : s.Kept (s.invokeCandidate id handle confirmFails) := by
  unfold ModuleState.invokeCandidate
  cases hvalidate : checks.validate handle.candidate with
  | none => exact h.kept_self _
  | some value =>
    dsimp only
    split
    · exact h.kept_self _
    · next snapshot hsnapshot =>
      have hencode : encodeSnapshot checks.encoders value = some snapshot := by
        split_ifs at hsnapshot with hdict
        exact hsnapshot
      split
      · rw [discard_store]
        exact ⟨h.discarded hmaterial hunregistered, rfl, fun _ _ => rfl⟩
      · next confirmed hconfirmed =>
        have hactive : (s.store handle.mark snapshot).material id = some handle := hmaterial
        split_ifs at hconfirmed
        rw [confirm, hactive, Option.map_some, Option.some.injEq] at hconfirmed
        subst hconfirmed
        refine ⟨h.confirmed hmaterial hunregistered (hpairs value hvalidate) hencode, rfl, ?_⟩
        intro failure hfailure
        cases hfailure

lemma Consistent.invokeHandle {s : ModuleState checks} (h : s.Consistent) {id : ℕ}
    (hpairs : ∀ handle value, s.material id = some handle → handle.registered = false →
      checks.validate handle.candidate = some value → NoSplitPairs value) (confirmFails : Bool) :
    s.Kept (s.invokeHandle id confirmFails) := by
  unfold ModuleState.invokeHandle
  cases hmaterial : s.material id with
  | none => exact h.kept_self _
  | some handle =>
    dsimp only
    split_ifs with hdeclared hreceipt hregistered
    · exact h.kept_self _
    · exact h.kept_self _
    · exact h.kept_self _
    · have hunregistered : handle.registered = false := by simpa using hregistered
      exact h.invokeCandidate hmaterial hunregistered
        (fun value => hpairs handle value hmaterial hunregistered) confirmFails

lemma moved_finalized (s : ModuleState checks) (inScope : Bool) (moves : List (Move checks)) :
    (s.moved inScope moves).finalized = s.finalized := by
  have hstep (before : ModuleState checks) (next : Move checks) :
      (before.move inScope next).finalized = before.finalized := by
    cases next with
    | register slot outputs =>
      unfold move
      dsimp only
      split_ifs
      · rfl
      · rfl
    | write id contents => rfl
  have htrans (a b c : ModuleState checks) (hab : b.finalized = a.finalized)
      (hbc : c.finalized = b.finalized) : c.finalized = a.finalized := hbc.trans hab
  exact Transitions.run_relation (R := fun a b => b.finalized = a.finalized) (fun _ => rfl) htrans
    hstep s moves

/-- Calls of a running module are about the state its `update` left. -/
lemma Consistent.invoke {s : ModuleState checks} (h : s.Consistent) (hrunning : s.finalized = false)
    {moves : List (Move checks)} {returned : Returned checks} {confirmFails : Bool}
    (hallowed : s.Allowed (.invoke moves returned confirmFails)) :
    (s.moved true moves).Kept (s.invoke moves returned confirmFails) := by
  obtain ⟨hmoves, hpairs⟩ := hallowed hrunning
  have hmoved : (s.moved true moves).Consistent := h.moved hmoves
  have hnot : ¬ s.finalized = true := by rw [hrunning]; decide
  unfold ModuleState.invoke
  rw [if_neg hnot]
  cases returned with
  | raised => exact hmoved.kept_self _
  | outputs candidate => exact hmoved.kept_self _
  | handle id =>
    exact hmoved.invokeHandle (fun handle value => hpairs id handle value rfl) confirmFails
  | foreign => exact hmoved.kept_self _

lemma Consistent.invalidated {s : ModuleState checks} (h : s.Consistent) :
    s.invalidateOwner.invalidateSdk.Consistent where
  latest := by
    intro slot id hid
    cases hid
  bounded := by
    intro tag htag
    have hepoch := (h.bounded tag htag).1
    change tag.1.epoch ≤ s.epoch + 1 ∧ (tag.1.epoch = s.epoch + 1 → _)
    constructor
    · omega
    · omega
  distinct := h.distinct
  justified := by
    intro slot entry hentry
    cases hentry
  kept := by
    intro slot id mark hid
    cases hid
  recorded := h.recorded
  unique := h.unique

/-- A failed restore costs the owner its entries only. -/
lemma Consistent.adapterFails {s : ModuleState checks} (h : s.Consistent)
    (hactive : ∀ id handle, s.material id = some handle → handle.registered = false) :
    s.invalidateOwner.Consistent where
  latest := h.latest
  bounded := h.bounded
  distinct := h.distinct
  justified := by
    intro slot entry hentry
    cases hentry
  kept := by
    intro slot id mark hid htag
    obtain ⟨handle, hheap, htagged⟩ := Option.map_eq_some_iff.mp (List.getElem?_map.symm.trans htag)
    obtain ⟨hmark, hregistered⟩ := Prod.mk.inj htagged
    have hlatest := h.active_tag hid htag
    dsimp only at hlatest
    have hmaterial : s.material id = some handle := by
      apply material_eq_some.mpr
      rw [hmark, hlatest]
      exact ⟨hheap, rfl, hid⟩
    rw [hactive id handle hmaterial] at hregistered
    cases hregistered
  recorded := h.recorded
  unique := h.unique

/-- Nothing is left of a finalized module that a handle could resolve to. -/
def Closed (s : ModuleState checks) : Prop :=
  s.finalized = true ∧ (∀ slot, s.entries slot = none) ∧ ∀ slot, s.handles slot = none

lemma Closed.fresh {s : ModuleState checks} (h : s.Closed) : s.Fresh where
  active := by
    intro id handle hmaterial _
    have hhandle := (material_eq_some.mp hmaterial).2.2
    rw [h.2.2] at hhandle
    cases hhandle
  resolved := by
    intro handle _ value hvalue
    unfold resolve at hvalue
    rw [h.2.1] at hvalue
    split_ifs at hvalue
  unregistered := by
    intro handle _ _ entry hentry
    rw [h.2.1] at hentry
    cases hentry

/-- A running module agrees with its owner. -/
def Sound (s : ModuleState checks) : Prop := s.finalized = false ∧ s.Consistent ∨ s.Closed

lemma Sound.fresh {s : ModuleState checks} (h : s.Sound) : s.Fresh := by
  rcases h with ⟨-, hconsistent⟩ | hclosed
  · exact hconsistent.fresh
  · exact hclosed.fresh

lemma sound_initial : (initial checks).Sound := by
  refine .inl ⟨rfl, ?_⟩
  constructor
  · intro slot id hid
    cases hid
  · intro tag htag
    cases htag
  · exact List.nodup_nil
  · intro slot entry hentry
    cases hentry
  · intro slot id mark hid
    cases hid
  · intro mark value hvalue
    cases hvalue
  · intro mark v w hv
    cases hv

theorem Sound.step {s : ModuleState checks} (h : s.Sound) {call : ModuleCall checks}
    (hallowed : s.Allowed call) : (s.step call).Sound := by
  unfold ModuleState.step
  rcases h with ⟨hrunning, hconsistent⟩ | hclosed
  · have hnot : ¬ s.finalized = true := by rw [hrunning]; decide
    rw [if_neg hnot]
    cases call with
    | invoke moves returned confirmFails =>
      obtain ⟨hafter, hfinalized, -⟩ := hconsistent.invoke hrunning hallowed
      rw [moved_finalized, hrunning] at hfinalized
      exact .inl ⟨hfinalized, hafter⟩
    | snapshot moves =>
      exact .inl ⟨(moved_finalized s false moves).trans hrunning, hconsistent.moved (hallowed hrunning)⟩
    | restore outcome =>
      cases outcome with
      | refused => exact .inl ⟨hrunning, hconsistent⟩
      | adapterFails => exact .inl ⟨hrunning, hconsistent.adapterFails (hallowed hrunning)⟩
      | hook moves =>
        exact .inl ⟨(moved_finalized _ false moves).trans hrunning,
          hconsistent.invalidated.moved (hallowed hrunning)⟩
    | finalize moves => exact .inr ⟨rfl, fun _ => rfl, fun _ => rfl⟩
  · rw [if_pos hclosed.1]
    exact .inr hclosed

/-- A failing call leaves no entry for a registration it did not confirm. -/
def LeavesNoEntry (s : ModuleState checks) : ModuleCall checks → Prop
  | .invoke moves (.handle id) confirmFails => ∀ handle failure,
    (s.moved true moves).material id = some handle → handle.registered = false →
    (s.invoke moves (.handle id) confirmFails).1 = .error failure →
    ∀ entry, (s.step (.invoke moves (.handle id) confirmFails)).entries handle.mark.slot = some entry →
      ¬ entry.isFor handle.mark
  | _ => True

lemma Sound.leavesNoEntry {s : ModuleState checks} (h : s.Sound) {call : ModuleCall checks}
    (hallowed : s.Allowed call) : s.LeavesNoEntry call := by
  cases call with
  | snapshot moves => trivial
  | restore outcome => trivial
  | finalize moves => trivial
  | invoke moves returned confirmFails =>
    cases returned with
    | raised => trivial
    | outputs candidate => trivial
    | foreign => trivial
    | handle id =>
      intro handle failure hmaterial hunregistered hfailure entry hentry
      unfold ModuleState.step at hentry
      rcases h with ⟨hrunning, hconsistent⟩ | hclosed
      · have hnot : ¬ s.finalized = true := by rw [hrunning]; decide
        rw [if_neg hnot] at hentry
        obtain ⟨hafter, -, hheap⟩ := hconsistent.invoke hrunning hallowed
        have hmem : handle ∈ (s.invoke moves (.handle id) confirmFails).2.heap := by
          rw [hheap failure hfailure]
          exact List.mem_of_getElem? (material_eq_some.mp hmaterial).1
        exact hafter.fresh.unregistered handle hmem hunregistered entry hentry
      · rw [if_pos hclosed.1, hclosed.2.1] at hentry
        cases hentry

lemma sound_run {calls : List (ModuleCall checks)}
    (h : Transitions.Along step Allowed (initial checks) calls) :
    (Transitions.run step (initial checks) calls).Sound := by
  have hstep (before : ModuleState checks) (call : ModuleCall checks) (hbefore : before.Sound)
      (hallowed : before.Allowed call) : (before.step call).Sound := hbefore.step hallowed
  exact Transitions.run_invariant hstep sound_initial h

/-- In a run of allowed calls no handle resolves to a stale value, and no failing call leaves an
entry for its registration. -/
theorem fresh_run (checks : OutputChecks) (calls : List (ModuleCall checks))
    (h : Transitions.Along step Allowed (initial checks) calls) :
    (∀ reached, reached <+: calls → (Transitions.run step (initial checks) reached).Fresh) ∧
      ∀ reached call rest, calls = reached ++ call :: rest →
        (Transitions.run step (initial checks) reached).LeavesNoEntry call := by
  constructor
  · rintro reached ⟨rest, rfl⟩
    exact (sound_run h.prefix).fresh
  · rintro reached call rest rfl
    have hallowed := Transitions.along_iff_steps.mp h reached call rest rfl
    exact (sound_run h.prefix).leavesNoEntry hallowed

end ModuleState

end Freshness

section Stale

open SurrogateText (CodePoint)

/-- Outputs that are what the module returned, with the strict codec alone. -/
def strictChecks : OutputChecks where
  Candidate := PythonOutput
  declares := Output.isDict
  validate outputs := if outputs.isDict then some outputs else none
  encoders := ⟨none, fun _ => true, fun _ => true⟩

/-- One output port, `s`. -/
def signal (text : List CodePoint) : strictChecks.Candidate := Output.dict [([SurrogateText.point 115], .text text)]

def signalTexts : PythonOutput → List (List CodePoint)
  | .dict entries => entries.filterMap fun entry =>
    match entry.2 with
    | .text text => some text
    | _ => none
  | _ => []

/-- The module registers an output and returns its handle. -/
def registering (text : List CodePoint) : ModuleCall strictChecks :=
  .invoke [.register "default" (signal text)] (.handle 0) false

namespace ModuleState

/-- A registered handle is active and has no entry. -/
def hasLostEntry {checks : OutputChecks} (s : ModuleState checks) (id : ℕ) : Bool :=
  match s.material id with
  | none => false
  | some handle => handle.registered && (s.entries handle.mark.slot).isNone

lemma not_fresh_of_hasLostEntry {checks : OutputChecks} {s : ModuleState checks} {id : ℕ}
    (h : s.hasLostEntry id = true) : ¬ s.Fresh := by
  intro hfresh
  unfold hasLostEntry at h
  cases hmaterial : s.material id with
  | none =>
    rw [hmaterial] at h
    cases h
  | some handle =>
    rw [hmaterial, Bool.and_eq_true] at h
    obtain ⟨entry, hentry, -⟩ := hfresh.active id handle hmaterial h.1
    rw [hentry] at h
    cases h.2

/-- What the handles that were made resolve to. -/
def resolvedTexts (s : ModuleState strictChecks) : List (List (List CodePoint)) :=
  s.heap.filterMap fun handle =>
    match s.resolve handle with
    | .error _ => none
    | .ok value => some (signalTexts value)

lemma mem_confirmedTexts {s : ModuleState strictChecks} (h : s.Fresh) {texts : List (List CodePoint)}
    (htexts : texts ∈ s.resolvedTexts) :
    texts ∈ s.confirmed.map fun record => signalTexts record.2 := by
  obtain ⟨handle, hhandle, hresolve⟩ := List.mem_filterMap.mp htexts
  cases hvalue : s.resolve handle with
  | error failure =>
    rw [hvalue] at hresolve
    cases hresolve
  | ok value =>
    rw [hvalue] at hresolve
    rw [← Option.some.inj hresolve]
    exact List.mem_map_of_mem (f := fun record => signalTexts record.2)
      (h.resolved handle hhandle value hvalue).1

lemma move_register {checks : OutputChecks} {s : ModuleState checks} {slot : String}
    (h : isSlot slot = true) (outputs : checks.Candidate) :
    s.move true (.register slot outputs) = s.register slot outputs := by
  unfold move
  dsimp only
  rw [Bool.true_and, if_pos h]

/-- The outputs of a registering call are those of the handle it returns. -/
lemma allowed_registering {s : ModuleState strictChecks} {text : List CodePoint}
    (hempty : s.heap = []) (htext : SurrogateText.PairFree text) : s.Allowed (registering text) := by
  intro _
  refine ⟨⟨trivial, trivial⟩, ?_⟩
  intro id handle value _ hmaterial _ hvalue
  have hslot : isSlot "default" = true := by with_unfolding_all decide
  have hheap : (s.move true (.register "default" (signal text))).heap[id]? = some handle :=
    (material_eq_some.mp hmaterial).1
  rw [move_register hslot, register, hempty] at hheap
  have hmem := List.mem_of_getElem? hheap
  rw [List.nil_append, List.mem_singleton] at hmem
  subst hmem
  dsimp only [strictChecks] at hvalue
  split_ifs at hvalue
  rw [← Option.some.inj hvalue]
  have hname : SurrogateText.PairFree [115] := List.isChain_singleton _
  exact ⟨⟨hname, htext⟩, trivial⟩

/-- A module that registers an output, returns its handle again and is restored. -/
theorem fresh_run_restored :
    (∀ reached, reached <+: [registering [97], .invoke [] (.handle 0) false, .restore (.hook [])] →
      (Transitions.run step (initial strictChecks) reached).Fresh) ∧
      ∀ reached call rest, [registering [97], .invoke [] (.handle 0) false, .restore (.hook [])] =
        reached ++ call :: rest →
        (Transitions.run step (initial strictChecks) reached).LeavesNoEntry call := by
  have hregistering : (initial strictChecks).Allowed (registering [97]) :=
    allowed_registering rfl (List.isChain_singleton _)
  have hregistered : (Transitions.run step (initial strictChecks) [registering [97]]).heap.all
      Handle.registered = true := by with_unfolding_all decide
  apply fresh_run strictChecks
  refine ⟨hregistering, fun _ => ⟨trivial, ?_⟩, fun _ => trivial, trivial⟩
  intro id handle value _ hmaterial hunregistered _
  have hmem := List.mem_of_getElem? (material_eq_some.mp hmaterial).1
  rw [List.all_eq_true.mp hregistered handle hmem] at hunregistered
  cases hunregistered

theorem failedRestore_and_splitPair_not_fresh :
    ¬ (Transitions.run step (initial strictChecks)
        [registering [97], .restore .adapterFails]).Fresh ∧
      ¬ (Transitions.run step (initial strictChecks) [registering [55296, 56320]]).Fresh := by
  constructor
  · have hlost : (Transitions.run step (initial strictChecks)
        [registering [97], .restore .adapterFails]).hasLostEntry 0 = true := by with_unfolding_all decide
    exact not_fresh_of_hasLostEntry hlost
  · intro hfresh
    have hresolved : [[65536]] ∈ (Transitions.run step (initial strictChecks)
        [registering [55296, 56320]]).resolvedTexts := by with_unfolding_all decide
    exact absurd (mem_confirmedTexts hfresh hresolved) (by with_unfolding_all decide)

end ModuleState

end Stale

end TradeFramework.Runtime
