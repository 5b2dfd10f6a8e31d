import TradeFramework.EventStore.Replay

/-!
# Writes that fail

All writes of a process wait on one promise chain: events, transcript entries, the transcript of a
fork, the order of the sidebar. A write that fails rejects the chain, and what is chained behind a
rejected promise does not run.
-/

namespace TradeFramework.EventStore

/-- A write on the chain. -/
inductive PendingWrite
  | event (e : StoreEvent)
  | copyTranscript (chatId sourceChatId : String) (entries : List TranscriptEntry)
  | message (chatId : String) (entry : TranscriptEntry)
  | sidebarProjectOrder (projectIds : List String)

/-- What a write is to the logs and the records. -/
def PendingWrite.work : PendingWrite → Option ChainWork
  | event e => some (.event e)
  | copyTranscript chatId sourceChatId _ => some (.copyTranscript chatId sourceChatId)
  | message _ _ => none
  | sidebarProjectOrder _ => none

section Transcripts

abbrev TranscriptCache := List (String × List TranscriptEntry)

/-- `TRANSCRIPT_CACHE_LIMIT`. -/
def transcriptCacheLimit : ℕ := 8

/-- The newest transcript stands last, and the oldest makes room. -/
def setCachedTranscript (cache : TranscriptCache) (chatId : String) (entries : List TranscriptEntry) :
    TranscriptCache :=
  let others := Dict.erase cache chatId
  others.drop (others.length + 1 - transcriptCacheLimit) ++ [(chatId, entries)]

def pushCached (cache : TranscriptCache) (chatId : String) (entry : TranscriptEntry) : TranscriptCache :=
  cache.map fun c => if c.1 = chatId then (c.1, c.2 ++ [entry]) else c

/-- The cached transcripts are those of the files. -/
def Coherent (transcripts : String → List TranscriptEntry) (cache : TranscriptCache) : Prop :=
  ∀ c ∈ cache, c.2 = transcripts c.1

variable {transcripts : String → List TranscriptEntry} {cache : TranscriptCache} {chatId : String}

lemma Coherent.setCached (h : Coherent transcripts cache) (chatId : String)
    (entries : List TranscriptEntry) :
    Coherent (Function.update transcripts chatId entries) (setCachedTranscript cache chatId entries) := by
  intro c hc
  unfold setCachedTranscript at hc
  obtain hc | hc := List.mem_append.mp hc
  · have hmem := List.mem_of_mem_drop hc
    unfold Dict.erase at hmem
    obtain ⟨hmem, hne⟩ := List.mem_filter.mp hmem
    rw [Function.update_of_ne (by simpa using hne)]
    exact h c hmem
  · obtain rfl := List.mem_singleton.mp hc
    exact (Function.update_self chatId entries transcripts).symm

lemma Coherent.push (h : Coherent transcripts cache) (entry : TranscriptEntry) :
    Coherent (Function.update transcripts chatId (transcripts chatId ++ [entry]))
      (pushCached cache chatId entry) := by
  intro c hc
  obtain ⟨old, hold, rfl⟩ := List.mem_map.mp hc
  have hsame := h old hold
  split_ifs with hid
  · subst hid
    rw [Function.update_self, hsame]
  · rw [Function.update_of_ne hid]
    exact hsame

end Transcripts

/-- What a process holds in memory. -/
structure Memory where
  state : StoreState
  sidebarProjectOrder : List String
  transcriptCache : TranscriptCache

/-- The files: the snapshot with the logs, the transcripts, and the order of the sidebar. -/
structure Files where
  disk : Disk
  transcripts : String → List TranscriptEntry
  sidebarOrder : List String

/-- A process with its files. The chain holds what waits to be written, or is rejected. -/
structure LiveStore where
  files : Files
  memory : Memory
  chain : List PendingWrite
  rejected : Bool
  clock : ℤ

inductive LiveCall
  | call (now : ℤ) (operation : Operation)
  | appendMessage (chatId : String) (entry : TranscriptEntry)
  | setSidebarProjectOrder (projectIds : List String)
  | getMessages (chatId : String)
  | settle (fails : Bool)
  | compact (now : ℤ)
  | restart

/-- How the promise of a write is settled. -/
inductive Outcome
  | fulfilled
  | rejected
deriving DecidableEq

/-- `normalizeSidebarProjectOrder`, for a list of texts. -/
def normalizeSidebarProjectOrder (projectIds : List String) : List String :=
  ((projectIds.map trimmed).filter (· ≠ "")).eraseDups

namespace LiveStore

def fresh : LiveStore :=
  ⟨⟨Disk.empty, fun _ => [], []⟩, ⟨createEmptyState, [], []⟩, [], false, 0⟩

variable (s : LiveStore)

/-- `getTranscriptEntries`: the cached entries, or those of the file, which are cached. -/
def getTranscriptEntries (chatId : String) : List TranscriptEntry :=
  (s.memory.transcriptCache.lookup chatId).getD (s.files.transcripts chatId)

def cacheTranscript (chatId : String) : LiveStore :=
  { s with
    memory := { s.memory with
      transcriptCache := setCachedTranscript s.memory.transcriptCache chatId
        (s.getTranscriptEntries chatId) } }

def enqueue (write : Option PendingWrite) : LiveStore := { s with chain := s.chain ++ write.toList }

/-- The order to write: visible projects, once each; none when it is the present one. -/
def newSidebarOrder (projectIds : List String) : Option PendingWrite :=
  let uniqueProjectIds := (projectIds.filter fun id => (s.memory.state.getProject id).isSome).eraseDups
  if uniqueProjectIds = s.memory.sidebarProjectOrder then none
  else some (.sidebarProjectOrder uniqueProjectIds)

/-- The store of events and records, with some work on its chain. -/
def store (chain : List ChainWork) : Store := ⟨s.files.disk, s.memory.state, chain, s.clock⟩

/-- A write that succeeds, and what is done behind it. -/
def perform : PendingWrite → LiveStore
  | .event e =>
    { s with
      files := { s.files with disk := s.files.disk.appendLog e.source (eventLine e) }
      memory := { s.memory with state := applyEvent s.memory.state e } }
  | .copyTranscript chatId sourceChatId entries =>
    { s with
      files := { s.files with transcripts := Function.update s.files.transcripts chatId entries }
      memory := { s.memory with
        state := (s.store []).copyTurns chatId sourceChatId
        transcriptCache := setCachedTranscript s.memory.transcriptCache chatId entries } }
  | .message chatId entry =>
    { s with
      files := { s.files with
        transcripts := Function.update s.files.transcripts chatId
          (s.files.transcripts chatId ++ [entry]) }
      memory := { s.memory with transcriptCache := pushCached s.memory.transcriptCache chatId entry } }
  | .sidebarProjectOrder projectIds =>
    { s with
      files := { s.files with sidebarOrder := projectIds }
      memory := { s.memory with sidebarProjectOrder := projectIds } }

/-- The next write of the chain, which would fail or succeed. -/
def settle (fails : Bool) : LiveStore :=
  match s.chain with
  | [] => s
  | write :: rest =>
    if s.rejected || fails then { s with chain := rest, rejected := true }
    else { s.perform write with chain := rest }

/-- What the caller of the next write is told. -/
def outcome (fails : Bool) : Option Outcome :=
  s.chain.head?.map fun _ => if s.rejected || fails then .rejected else .fulfilled

/-- `forkChat` reads the transcript of its source before it chains the copy. -/
def step (s : LiveStore) : LiveCall → LiveStore
  | .call now (.copyTranscript chatId sourceChatId) =>
    let entries := s.getTranscriptEntries sourceChatId
    let write := if entries.isEmpty then none else some (.copyTranscript chatId sourceChatId entries)
    { (s.cacheTranscript sourceChatId).enqueue write with clock := now }
  | .call now operation =>
    { s.enqueue ((operation.event now s.memory.state).map .event) with clock := now }
  | .appendMessage chatId entry =>
    s.enqueue ((s.memory.state.requireChat chatId).map fun _ => .message chatId entry)
  | .setSidebarProjectOrder projectIds => s.enqueue (s.newSidebarOrder projectIds)
  | .getMessages chatId => s.cacheTranscript chatId
  | .settle fails => s.settle fails
  | .compact now =>
    if s.chain.isEmpty then
      { s with files := { s.files with disk := s.files.disk.compact now s.memory.state }, clock := now }
    else s
  | .restart =>
    { s with
      memory := ⟨(load s.files.disk).getD createEmptyState,
        normalizeSidebarProjectOrder s.files.sidebarOrder, []⟩
      chain := []
      rejected := false }

/-- A write that fails is reported and leaves the memory alone; one that would succeed is performed,
applied and reported so. -/
def Reported (s : LiveStore) : LiveCall → Prop
  | .settle fails => ∀ write rest, s.chain = write :: rest →
    if fails then s.outcome fails = some .rejected ∧ (s.step (.settle fails)).memory = s.memory
    else s.outcome fails = some .fulfilled ∧
      s.step (.settle fails) = { s.perform write with chain := rest }
  | _ => True

/-- The memory is what the logs replay to, and what the transcripts hold. -/
structure Replays : Prop where
  state : ∃ loaded, load s.files.disk = some loaded ∧ SameContents loaded s.memory.state
  transcripts : Coherent s.files.transcripts s.memory.transcriptCache

/-- No write that would succeed comes behind one that failed. -/
def Unpoisoned (s : LiveStore) : LiveCall → Prop
  | .settle fails => fails = false → s.chain ≠ [] → s.rejected = false
  | _ => True

/-- A write that is performed is in order with the logs. -/
def Ordered (s : LiveStore) : LiveCall → Prop
  | .settle fails => fails = false → s.rejected = false → ∀ write ∈ s.chain.head?,
    (s.store write.work.toList).Ordered .write
  | _ => True

instance Unpoisoned.decidable (s : LiveStore) : (call : LiveCall) → Decidable (s.Unpoisoned call)
  | .settle fails =>
    decidable_of_iff (fails = true ∨ s.chain.isEmpty = true ∨ s.rejected = false) (by
      unfold Unpoisoned
      rw [List.isEmpty_iff]
      cases fails <;> tauto)
  | .call _ _ | .appendMessage _ _ | .setSidebarProjectOrder _ | .getMessages _ | .compact _
  | .restart => isTrue trivial

instance Ordered.decidable (s : LiveStore) : (call : LiveCall) → Decidable (s.Ordered call)
  | .settle fails => inferInstanceAs (Decidable (fails = false → s.rejected = false →
      ∀ write ∈ s.chain.head?, (s.store write.work.toList).Ordered .write))
  | .call _ _ | .appendMessage _ _ | .setSidebarProjectOrder _ | .getMessages _ | .compact _
  | .restart => isTrue trivial

section Reports

variable {s}

/-- A write is dealt with as it should be exactly when the chain is not rejected before it. -/
lemma reported_iff (call : LiveCall) : s.Reported call ↔ s.Unpoisoned call := by
  cases call with
  | settle fails =>
    cases hchain : s.chain with
    | nil => simp [Reported, Unpoisoned, hchain]
    | cons write rest =>
      cases hrejected : s.rejected with
      | false => cases fails <;> simp [Reported, Unpoisoned, outcome, step, settle, hchain, hrejected]
      | true => cases fails <;> simp [Reported, Unpoisoned, outcome, step, settle, hchain, hrejected]
  | _ => exact Iff.rfl

end Reports

section Runs

/-- The store of the events and records that wait. -/
def pending : Store := s.store (s.chain.filterMap PendingWrite.work)

/-- A load recalls the memory, and the cache the transcripts. -/
structure Kept : Prop where
  faithful : ∃ base written, s.pending.Faithful base written
  coherent : Coherent s.files.transcripts s.memory.transcriptCache

variable {s}

lemma Kept.replays (h : s.Kept) : s.Replays := by
  obtain ⟨base, written, hfaithful⟩ := h.faithful
  exact ⟨hfaithful.reproduced, h.coherent⟩

/-- Work that is given up leaves the files as faithful as they were. -/
lemma faithful_drop {store : Store} {base : StoreState} {written : Fin 4 → List StoreEvent}
    {chain : List ChainWork} (h : store.Faithful base written) (hchain : chain ⊆ store.chain) :
    ({ store with chain := chain } : Store).Faithful base written :=
  { h with deletable := fun e he => h.deletable e (hchain he) }

lemma coherent_cacheTranscript (h : Coherent s.files.transcripts s.memory.transcriptCache)
    (chatId : String) : Coherent s.files.transcripts (s.cacheTranscript chatId).memory.transcriptCache := by
  have hentries : s.getTranscriptEntries chatId = s.files.transcripts chatId := by
    unfold getTranscriptEntries
    cases hcached : s.memory.transcriptCache.lookup chatId with
    | none => rfl
    | some entries => exact h _ (Dict.lookup_mem hcached)
  unfold cacheTranscript
  rw [hentries]
  have hset := h.setCached chatId (s.files.transcripts chatId)
  rwa [Function.update_eq_self] at hset

lemma pending_enqueue (write : Option PendingWrite) :
    (s.enqueue write).pending =
      { s.pending with chain := s.pending.chain ++ write.toList.filterMap PendingWrite.work } := by
  unfold pending store enqueue
  rw [List.filterMap_append]

/-- What leaves the logs and the records alone. -/
lemma pending_enqueue_of_none {write : Option PendingWrite} (h : ∀ w ∈ write, w.work = none) :
    (s.enqueue write).pending = s.pending := by
  have hnone : write.toList.filterMap PendingWrite.work = [] := by
    rw [List.filterMap_eq_nil_iff]
    intro w hw
    exact h w (Option.mem_toList.mp hw)
  rw [pending_enqueue, hnone, List.append_nil]

lemma filterMap_work_event (e : Option StoreEvent) :
    (e.map PendingWrite.event).toList.filterMap PendingWrite.work = (e.map ChainWork.event).toList := by
  cases e <;> rfl

/-- An operation puts its work on the chain, or nothing. -/
lemma pending_call (now : ℤ) (operation : Operation) :
    ∃ chain ⊆ (s.pending.step (.call now operation)).chain,
      (s.step (.call now operation)).pending =
        { s.pending.step (.call now operation) with chain := chain } := by
  have hevent : ∀ e : Option StoreEvent, (s.enqueue (e.map .event)).pending =
      { s.pending with chain := s.pending.chain ++ (e.map ChainWork.event).toList } := by
    intro e
    rw [pending_enqueue, filterMap_work_event]
  cases operation with
  | copyTranscript chatId sourceChatId =>
    by_cases hempty : (s.getTranscriptEntries sourceChatId).isEmpty = true
    · refine ⟨s.pending.chain, List.subset_append_left _ _, ?_⟩
      simp [pending, store, step, enqueue, cacheTranscript, Store.step, hempty]
    · refine ⟨_, List.Subset.refl _, ?_⟩
      simp [pending, store, step, enqueue, cacheTranscript, Store.step, hempty, Operation.work,
        PendingWrite.work]
  | _ =>
    refine ⟨_, List.Subset.refl _, ?_⟩
    exact congrArg (fun store : Store => { store with clock := now }) (hevent _)

lemma Kept.call (h : s.Kept) (now : ℤ) (operation : Operation) :
    (s.step (.call now operation)).Kept := by
  obtain ⟨base, written, hfaithful⟩ := h.faithful
  obtain ⟨chain, hchain, hpending⟩ := pending_call (s := s) now operation
  refine ⟨⟨base, written, ?_⟩, ?_⟩
  · rw [hpending]
    exact faithful_drop (hfaithful.call now operation) hchain
  · cases operation with
    | copyTranscript chatId sourceChatId => exact coherent_cacheTranscript h.coherent sourceChatId
    | _ => exact h.coherent

/-- A write is performed in order. -/
lemma Kept.perform (h : s.Kept) {write : PendingWrite} {rest : List PendingWrite}
    (hchain : s.chain = write :: rest) (horder : (s.store write.work.toList).Ordered .write) :
    ({ s.perform write with chain := rest } : LiveStore).Kept := by
  obtain ⟨base, written, hfaithful⟩ := h.faithful
  have hpending : s.pending = s.store (write.work.toList ++ rest.filterMap PendingWrite.work) := by
    unfold pending
    rw [hchain]
    cases write <;> rfl
  cases write with
  | event e =>
    have hnext : s.pending.chain = .event e :: rest.filterMap PendingWrite.work := by
      rw [hpending]
      rfl
    have happend := hfaithful.append hnext (by rw [hpending]; exact horder)
    rw [hpending] at happend
    exact ⟨⟨_, _, happend⟩, h.coherent⟩
  | copyTranscript chatId sourceChatId entries =>
    have hnext : s.pending.chain =
        .copyTranscript chatId sourceChatId :: rest.filterMap PendingWrite.work := by
      rw [hpending]
      rfl
    have hcopy := hfaithful.copy hnext (by rw [hpending]; exact horder)
    rw [hpending] at hcopy
    exact ⟨⟨_, _, hcopy⟩, h.coherent.setCached chatId entries⟩
  | message chatId entry =>
    rw [hpending] at hfaithful
    exact ⟨⟨_, _, hfaithful⟩, h.coherent.push entry⟩
  | sidebarProjectOrder projectIds =>
    rw [hpending] at hfaithful
    exact ⟨⟨_, _, hfaithful⟩, h.coherent⟩

lemma Kept.settle (h : s.Kept) (fails : Bool) (horder : s.Ordered (.settle fails)) :
    (s.settle fails).Kept := by
  unfold LiveStore.settle
  cases hchain : s.chain with
  | nil => exact h
  | cons write rest =>
    dsimp only
    split_ifs with hskipped
    · obtain ⟨base, written, hfaithful⟩ := h.faithful
      refine ⟨⟨base, written, ?_⟩, h.coherent⟩
      apply faithful_drop hfaithful
      unfold pending store
      rw [hchain]
      intro work hwork
      obtain ⟨w, hw, hsame⟩ := List.mem_filterMap.mp hwork
      exact List.mem_filterMap.mpr ⟨w, List.mem_cons_of_mem _ hw, hsame⟩
    · rw [Bool.or_eq_true, not_or, Bool.not_eq_true, Bool.not_eq_true] at hskipped
      apply h.perform hchain
      apply horder hskipped.2 hskipped.1
      rw [hchain]
      rfl

lemma Kept.step (h : s.Kept) (call : LiveCall) (horder : s.Ordered call) : (s.step call).Kept := by
  obtain ⟨base, written, hfaithful⟩ := h.faithful
  cases call with
  | call now operation => exact h.call now operation
  | appendMessage chatId entry =>
    refine ⟨⟨base, written, ?_⟩, h.coherent⟩
    have hnone : ∀ w ∈ (s.memory.state.requireChat chatId).map fun _ => PendingWrite.message chatId entry,
        w.work = none := by
      intro w hw
      obtain ⟨chat, -, rfl⟩ := Option.map_eq_some_iff.mp hw
      rfl
    simp only [LiveStore.step]
    rw [pending_enqueue_of_none hnone]
    exact hfaithful
  | setSidebarProjectOrder projectIds =>
    refine ⟨⟨base, written, ?_⟩, h.coherent⟩
    have hnone : ∀ w ∈ s.newSidebarOrder projectIds, w.work = none := by
      intro w hw
      unfold newSidebarOrder at hw
      simp only at hw
      split_ifs at hw
      · cases hw
      · cases hw
        rfl
    simp only [LiveStore.step]
    rw [pending_enqueue_of_none hnone]
    exact hfaithful
  | getMessages chatId => exact ⟨⟨base, written, hfaithful⟩, coherent_cacheTranscript h.coherent chatId⟩
  | settle fails => exact h.settle fails horder
  | compact now =>
    simp only [LiveStore.step]
    split_ifs with hidle
    · have hchain : s.pending.chain = [] := by
        unfold pending store
        rw [List.isEmpty_iff.mp hidle]
        rfl
      have hcompact := Store.faithful_compact hchain now
      have hpending : ({ s with
          files := { s.files with disk := s.files.disk.compact now s.memory.state }
          clock := now } : LiveStore).pending = s.pending.step (.compact now) := by
        simp only [Store.step, hchain, List.isEmpty_nil, if_true]
        rw [← hchain]
        rfl
      rw [← hpending] at hcompact
      exact ⟨⟨_, _, hcompact⟩, h.coherent⟩
    · exact h
  | restart => exact ⟨⟨base, written, hfaithful.restart⟩, by intro c hc; cases hc⟩

lemma kept_fresh : fresh.Kept :=
  ⟨⟨_, _, Store.faithful_fresh⟩, by intro c hc; cases hc⟩

/-- In the runs whose performed writes are in order, every write is dealt with as it should be and
every state replays, exactly when no write that would succeed comes behind one that failed. -/
theorem writes_reported_iff {calls : List LiveCall} (h : Transitions.Along step Ordered fresh calls) :
    Transitions.Along step Unpoisoned fresh calls ↔ ∀ reached call rest, calls = reached ++ call :: rest →
      (Transitions.run step fresh reached).Reported call ∧
        (Transitions.run step fresh (reached ++ [call])).Replays := by
  have hreplays : ∀ reached call rest, calls = reached ++ call :: rest →
      (Transitions.run step fresh (reached ++ [call])).Replays := by
    intro reached call rest hcalls
    have horder : Transitions.Along step Ordered fresh (reached ++ [call]) := by
      rw [hcalls, ← List.singleton_append, ← List.append_assoc] at h
      exact h.prefix
    have hkept : (Transitions.run step fresh (reached ++ [call])).Kept :=
      Transitions.run_invariant (P := Kept) (fun _ call hs hordered => hs.step call hordered) kept_fresh
        horder
    exact hkept.replays
  rw [Transitions.along_iff_steps]
  constructor
  · intro hclean reached call rest hcalls
    exact ⟨(reported_iff call).mpr (hclean reached call rest hcalls), hreplays reached call rest hcalls⟩
  · intro hsteps reached call rest hcalls
    exact (reported_iff call).mp (hsteps reached call rest hcalls).1

/-- A process whose appends fail from some time on, and the process after it. -/
def failingProcess : List LiveCall :=
  [.call 1 (.registerProject "p" "p" "Project" .strategy), .settle false,
    .call 2 (.renameProjectSidebarTitle "p" "Title"), .setSidebarProjectOrder ["p"], .settle true,
    .settle true, .restart, .setSidebarProjectOrder ["p"], .settle false]

theorem writes_reported_restarted : Transitions.Along step Unpoisoned fresh failingProcess ∧
    ∀ reached call rest, failingProcess = reached ++ call :: rest →
      (Transitions.run step fresh reached).Reported call ∧
        (Transitions.run step fresh (reached ++ [call])).Replays := by
  have hclean : Transitions.Along step Unpoisoned fresh failingProcess := by decide +kernel
  exact ⟨hclean, (writes_reported_iff (by decide +kernel)).mp hclean⟩

/-- A project that is registered after an append failed is refused, and not in the log. -/
theorem writes_poisoned : ¬ ∀ calls reached call rest, calls = reached ++ call :: rest →
    (Transitions.run step fresh reached).Reported call := by
  intro h
  let reached : List LiveCall :=
    [.call 1 (.registerProject "p" "p" "Project" .strategy), .settle true,
      .call 2 (.registerProject "q" "q" "Project" .strategy)]
  have hreported := h _ reached (.settle false) [] rfl
  have hsuccess := (hreported _ _ rfl).1
  revert hsuccess
  with_unfolding_all decide

end Runs

end LiveStore

end TradeFramework.EventStore
