import TradeFramework.EventStore.LogText
import TradeFramework.Library.Lines
import TradeFramework.Library.Transitions
import Mathlib.Algebra.BigOperators.Fin
import Mathlib.Algebra.Order.BigOperators.Group.Finset

/-!
# Process lifetimes

A host runs the store, one process after the other. A process ends at any time, and the append it
was making may leave a part of its line. Beside the files the host records which events the
snapshot and the memory went through, and which appends completed.
-/

namespace TradeFramework.EventStore

open JsonText (Value)

section Starting

/-- The turns that no process owns any more, by their chats: `recoverInterruptedTurns`. -/
def interruptedTurns (s : StoreState) : List (String × String) :=
  (Dict.items s.chatsById).filterMap fun c =>
    if c.2.deleted then none else (c.2.activeTurnId.filter (· ≠ "")).map fun turnId => (c.1, turnId)

/-- How starting the store ends. -/
inductive Boot
  | running (s : StoreState)
  | cleared
  | failed

/-- Loading, and reading the transcripts of the chats whose turn was interrupted. -/
def initializeStore (disk : Disk) : Boot :=
  match load disk with
  | none => .cleared
  | some s =>
    if (interruptedTurns s).all fun t => (loadTranscriptFromDisk (disk.transcript t.1)).isSome
    then .running s
    else .failed

end Starting

namespace Disk

variable (disk : Disk)

def appendLog (source : Fin 4) (text : Text) : Disk :=
  { disk with log := Function.update disk.log source (disk.log source ++ text) }

def appendTranscript (chatId : String) (text : Text) : Disk :=
  { disk with transcript := Function.update disk.transcript chatId (disk.transcript chatId ++ text) }

def compact (generatedAt : ℤ) (s : StoreState) : Disk :=
  { disk with snapshot := some (snapshotText generatedAt s), log := fun _ => [] }

end Disk

/-- The state that some events make, in some order; a snapshot forgets what was deleted. -/
inductive Applied : Multiset StoreEvent → StoreState → Prop
  | empty : Applied 0 createEmptyState
  | event {events : Multiset StoreEvent} {s : StoreState} (e : StoreEvent) (h : Applied events s) :
    Applied (e ::ₘ events) (applyEvent s e)
  | snapshot {events : Multiset StoreEvent} {s : StoreState} (generatedAt : ℤ) (h : Applied events s) :
    Applied events (createSnapshot generatedAt s).state

/-- A state, and the events that made it. -/
structure Process where
  state : StoreState
  applied : Multiset StoreEvent

structure Host where
  disk : Disk
  process : Option Process
  covered : Multiset StoreEvent
  completed : Multiset StoreEvent
  spoken : String → List TranscriptEntry

def Host.fresh : Host := ⟨Disk.empty, none, 0, 0, fun _ => []⟩

inductive HostCall
  | boot
  | append (event : StoreEvent)
  | appendMessage (chatId : String) (entry : TranscriptEntry)
  | compact (generatedAt : ℤ)
  | crash
  | tornAppend (event : StoreEvent) (cut : ℕ) (inside : Bool)
  | tornMessage (chatId : String) (entry : TranscriptEntry) (cut : ℕ) (inside : Bool)

namespace Host

variable (h : Host)

/-- The events a load replays over the snapshot. -/
def replayed : Multiset StoreEvent :=
  (((loadAllReplayEvents h.disk.log).getD []).map ParsedReplayEvent.event : List StoreEvent)

def boot : Host :=
  match initializeStore h.disk with
  | .running s => { h with process := some ⟨s, h.covered + h.replayed⟩ }
  | .cleared =>
    { h with disk := clearStorage h.disk, process := some ⟨createEmptyState, 0⟩, covered := 0 }
  | .failed => h

def appendEvent (p : Process) (event : StoreEvent) : Host :=
  { h with
    disk := h.disk.appendLog event.source (eventLine event)
    process := some ⟨applyEvent p.state event, event ::ₘ p.applied⟩
    completed := event ::ₘ h.completed }

def appendEntry (chatId : String) (entry : TranscriptEntry) : Host :=
  { h with
    disk := h.disk.appendTranscript chatId (entryLine entry)
    spoken := Function.update h.spoken chatId (h.spoken chatId ++ [entry]) }

def compact (p : Process) (generatedAt : ℤ) : Host :=
  { h with disk := h.disk.compact generatedAt p.state, covered := p.applied }

/-- A call is made by a running process, but for the start of one. -/
def step (h : Host) (call : HostCall) : Host :=
  match h.process, call with
  | none, .boot => h.boot
  | some p, .append event => h.appendEvent p event
  | some _, .appendMessage chatId entry => h.appendEntry chatId entry
  | some p, .compact generatedAt => h.compact p generatedAt
  | some _, .crash => { h with process := none }
  | some _, .tornAppend event cut inside =>
    { h with
      disk := h.disk.appendLog event.source (tornText (eventText event) cut inside)
      process := none }
  | some _, .tornMessage chatId entry cut inside =>
    { h with
      disk := h.disk.appendTranscript chatId (tornText (entryText entry) cut inside)
      process := none }
  | _, _ => h

/-- A start now would succeed without clearing the storage, its state would have gone through every
append that completed, and every completed entry would be read. -/
def Recoverable : Prop :=
  (∃ s, initializeStore h.disk = .running s ∧ Applied (h.covered + h.replayed) s ∧
    h.completed ≤ h.covered + h.replayed) ∧
  ∀ chatId, ∃ later, loadTranscriptFromDisk (h.disk.transcript chatId) =
    some ((h.spoken chatId).map TranscriptEntry.toJson ++ later)

end Host

section Loading

variable {events : Multiset StoreEvent} {s : StoreState}

lemma Applied.foldl (h : Applied events s) (more : List StoreEvent) :
    Applied (events + more) (more.foldl applyEvent s) := by
  induction more generalizing events s with
  | nil => simpa using h
  | cons e more ih =>
    have hmore := ih (h.event e)
    rwa [Multiset.cons_add, ← Multiset.add_cons, Multiset.cons_coe] at hmore

lemma map_number (source : Fin 4) (index : ℕ) (es : List StoreEvent) :
    (number source index es).map ParsedReplayEvent.event = es := by
  induction es generalizing index with
  | nil => rfl
  | cons e es ih => rw [number, List.map_cons, ih]

/-- The events of one log. -/
def replayedFrom (text : Text) (source : Fin 4) : Multiset StoreEvent :=
  (((loadReplayEvents text source).getD []).map ParsedReplayEvent.event : List StoreEvent)

/-- The events of logs that are each read. -/
lemma loadAllReplayEvents_of_logs {log : Fin 4 → Text}
    (h : ∀ source, (loadReplayEvents (log source) source).isSome) :
    ∃ parsed, loadAllReplayEvents log = some parsed ∧
      ((parsed.map ParsedReplayEvent.event : List StoreEvent) : Multiset StoreEvent) =
        ∑ source, replayedFrom (log source) source := by
  have hread : ∀ source, ∃ parsed, loadReplayEvents (log source) source = some parsed := fun source =>
    Option.isSome_iff_exists.mp (h source)
  choose parsed hparsed using hread
  refine ⟨parsed 0 ++ (parsed 1 ++ (parsed 2 ++ parsed 3)), ?_, ?_⟩
  · simp [loadAllReplayEvents, hparsed]
  · rw [Fin.sum_univ_four]
    simp only [replayedFrom, hparsed, Option.getD_some, List.map_append, ← Multiset.coe_add, add_assoc]

/-- The state of a load went through the snapshot's events and the replayed ones. -/
lemma Applied.replayEvents (h : Applied events s) (parsed : List ParsedReplayEvent) :
    Applied (events + (parsed.map ParsedReplayEvent.event : List StoreEvent))
      (replayEvents s parsed) := by
  have hperm := (List.perm_insertionSort replayOrder parsed).map ParsedReplayEvent.event
  have hsame : ((parsed.map ParsedReplayEvent.event : List StoreEvent) : Multiset StoreEvent) =
      ((parsed.insertionSort replayOrder).map ParsedReplayEvent.event : List StoreEvent) :=
    Multiset.coe_eq_coe.mpr hperm.symm
  rw [hsame]
  exact h.foldl _

end Loading

section Transcripts

variable {entries : List TranscriptEntry} {tail : Text}

/-- What may stand behind the last whole line of a transcript that is still read. -/
def Readable (tail : Text) : Prop := tail = [] ∨ ∃ entry, tail = entryText entry

lemma Readable.oneLine (h : Readable tail) : '\n' ∉ tail := by
  obtain rfl | ⟨entry, rfl⟩ := h
  · simp
  · exact newline_notMem_entryText entry

lemma Readable.load (h : Readable tail) : ∃ later, loadTranscriptFromDisk (transcriptText entries ++ tail) =
    some (entries.map TranscriptEntry.toJson ++ later) := by
  obtain rfl | ⟨entry, rfl⟩ := h
  · have hnil : trim [] = [] := rfl
    refine ⟨[], ?_⟩
    rw [loadTranscript_transcriptText entries (by simp)]
    simp [readEntries, hnil]
  · refine ⟨[entry.toJson], ?_⟩
    rw [loadTranscript_transcriptText entries (newline_notMem_entryText entry), readEntries_cons]
    rfl

end Transcripts

namespace Host

/-- Whole lines of some events, and what crashes left behind them. -/
def Written (text : Text) (events : List StoreEvent) : Prop :=
  ∃ tail, Dangling tail ∧ text = logText events ++ tail

lemma Written.load {text : Text} {events : List StoreEvent} (h : Written text events) (source : Fin 4) :
    (loadReplayEvents text source).isSome ∧ (events : Multiset StoreEvent) ≤ replayedFrom text source := by
  obtain ⟨tail, hdangling, rfl⟩ := h
  obtain ⟨more, hmore⟩ := Option.isSome_iff_exists.mp hdangling.read
  have hread := loadReplayEvents_logText events source hdangling.oneLine
  rw [hmore, Option.map_some] at hread
  unfold replayedFrom
  rw [hread]
  refine ⟨rfl, ?_⟩
  rw [Option.getD_some, map_number, ← Multiset.coe_add]
  exact Multiset.le_add_right _ _

lemma replayedFrom_logText (events : List StoreEvent) (source : Fin 4) :
    replayedFrom (logText events) source = events := by
  have hnone : '\n' ∉ ([] : Text) := by simp
  have hread := loadReplayEvents_logText events source hnone
  have htail : tailEvents [] = some [] := rfl
  rw [List.append_nil, htail, Option.map_some, List.append_nil] at hread
  rw [replayedFrom, hread, Option.getD_some, map_number]

/-- What the files hold, and that the memory holds what a start now would read. -/
structure Stored (h : Host) : Prop where
  logs : ∃ written : Fin 4 → List StoreEvent, (∀ source, Written (h.disk.log source) (written source)) ∧
    h.completed ≤ h.covered + ∑ source, (written source : Multiset StoreEvent)
  snapshot : ∃ base, loadSnapshot h.disk.snapshot = some base ∧ Applied h.covered base
  process : ∀ p, h.process = some p → Applied p.applied p.state ∧ p.applied = h.covered + h.replayed
  transcripts : ∀ chatId, ∃ tail, Readable tail ∧
    h.disk.transcript chatId = transcriptText (h.spoken chatId) ++ tail

variable {h : Host}

lemma replayed_eq_sum (hread : ∀ source, (loadReplayEvents (h.disk.log source) source).isSome) :
    h.replayed = ∑ source, replayedFrom (h.disk.log source) source := by
  obtain ⟨parsed, hparsed, hevents⟩ := loadAllReplayEvents_of_logs hread
  rw [replayed, hparsed, ← hevents]
  rfl

lemma Stored.read (hs : h.Stored) (source : Fin 4) :
    (loadReplayEvents (h.disk.log source) source).isSome := by
  obtain ⟨written, hwritten, -⟩ := hs.logs
  exact ((hwritten source).load source).1

lemma Stored.load (hs : h.Stored) : ∃ base parsed, loadSnapshot h.disk.snapshot = some base ∧
    loadAllReplayEvents h.disk.log = some parsed ∧ load h.disk = some (replayEvents base parsed) ∧
    Applied (h.covered + h.replayed) (replayEvents base parsed) := by
  obtain ⟨base, hbase, happlied⟩ := hs.snapshot
  obtain ⟨parsed, hparsed, -⟩ := loadAllReplayEvents_of_logs hs.read
  refine ⟨base, parsed, hbase, hparsed, ?_, ?_⟩
  · rw [EventStore.load, hbase, Option.bind_some, hparsed]
    rfl
  · rw [replayed, hparsed]
    exact happlied.replayEvents parsed

lemma Stored.completed_le (hs : h.Stored) : h.completed ≤ h.covered + h.replayed := by
  obtain ⟨written, hwritten, hcompleted⟩ := hs.logs
  apply le_trans hcompleted
  rw [replayed_eq_sum hs.read]
  apply add_le_add_right
  apply Finset.sum_le_sum
  intro source _
  exact ((hwritten source).load source).2

lemma Stored.readable (hs : h.Stored) (chatId : String) : ∃ later,
    loadTranscriptFromDisk (h.disk.transcript chatId) =
      some ((h.spoken chatId).map TranscriptEntry.toJson ++ later) := by
  obtain ⟨tail, htail, htext⟩ := hs.transcripts chatId
  rw [htext]
  exact htail.load

/-- With every transcript readable, a start succeeds when the files load. -/
lemma initializeStore_of_load {disk : Disk} {s : StoreState} (hload : EventStore.load disk = some s)
    (h : ∀ chatId, (loadTranscriptFromDisk (disk.transcript chatId)).isSome) :
    initializeStore disk = .running s := by
  have hall : (interruptedTurns s).all fun t =>
      (loadTranscriptFromDisk (disk.transcript t.1)).isSome := by
    rw [List.all_eq_true]
    exact fun t _ => h t.1
  rw [initializeStore, hload]
  simp [hall]

lemma Stored.initializeStore (hs : h.Stored) : ∃ s, initializeStore h.disk = .running s ∧
    Applied (h.covered + h.replayed) s := by
  obtain ⟨base, parsed, -, -, hload, happlied⟩ := hs.load
  refine ⟨_, initializeStore_of_load hload fun chatId => ?_, happlied⟩
  obtain ⟨later, hlater⟩ := hs.readable chatId
  rw [hlater]
  rfl

lemma Stored.recoverable (hs : h.Stored) : h.Recoverable := by
  obtain ⟨s, hstart, happlied⟩ := hs.initializeStore
  exact ⟨⟨s, hstart, happlied, hs.completed_le⟩, hs.readable⟩

/-- The calls that keep every append: a line is appended behind a whole line, and an entry that a
crash interrupts leaves nothing, or all of it but the line's end. -/
def Safe (h : Host) : HostCall → Prop
  | .append event => h.process.isSome → Lines.Ended '\n' (h.disk.log event.source)
  | .appendMessage chatId _ => h.process.isSome → Lines.Ended '\n' (h.disk.transcript chatId)
  | .tornMessage chatId entry cut inside => h.process.isSome → tornText (entryText entry) cut inside = [] ∨
      tornText (entryText entry) cut inside = entryText entry ∧
        Lines.Ended '\n' (h.disk.transcript chatId)
  | _ => True

instance Safe.decidable (h : Host) : (call : HostCall) → Decidable (h.Safe call)
  | .append event => inferInstanceAs (Decidable (_ → Lines.Ended '\n' (h.disk.log event.source)))
  | .appendMessage chatId _ =>
    inferInstanceAs (Decidable (_ → Lines.Ended '\n' (h.disk.transcript chatId)))
  | .tornMessage chatId entry cut inside =>
    inferInstanceAs (Decidable (_ → tornText (entryText entry) cut inside = [] ∨
      tornText (entryText entry) cut inside = entryText entry ∧
        Lines.Ended '\n' (h.disk.transcript chatId)))
  | .boot | .compact _ | .crash | .tornAppend _ _ _ => inferInstanceAs (Decidable True)

lemma tail_of_ended {text tail : Text} (h : Lines.Ended '\n' (text ++ tail)) (htail : '\n' ∉ tail) :
    tail = [] := by
  by_contra hne
  have hended := (Lines.ended_append_right hne).mp h
  obtain ⟨zs, hzs⟩ := hended.eq_concat hne
  exact htail (by simp [hzs])

/-- One more event in one of the logs. -/
lemma sum_written (written : Fin 4 → List StoreEvent) (source : Fin 4) (e : StoreEvent) :
    ∑ i, ((Function.update written source (written source ++ [e]) i : List StoreEvent) :
      Multiset StoreEvent) = e ::ₘ ∑ i, (written i : Multiset StoreEvent) := by
  have hterm : ∀ i, ((Function.update written source (written source ++ [e]) i : List StoreEvent) :
      Multiset StoreEvent) = written i + if i = source then {e} else 0 := by
    intro i
    by_cases hi : i = source
    · subst hi
      rw [Function.update_self, if_pos rfl, ← Multiset.coe_add]
      rfl
    · rw [Function.update_of_ne hi, if_neg hi, add_zero]
  rw [Finset.sum_congr rfl fun i _ => hterm i, Finset.sum_add_distrib, Finset.sum_ite_eq' Finset.univ]
  rw [if_pos (Finset.mem_univ _), add_comm, Multiset.singleton_add]

lemma Stored.boot (hs : h.Stored) : h.boot.Stored := by
  obtain ⟨s, hstart, happlied⟩ := hs.initializeStore
  unfold Host.boot
  rw [hstart]
  refine ⟨hs.logs, hs.snapshot, ?_, hs.transcripts⟩
  intro p hp
  obtain rfl := Option.some.inj hp
  exact ⟨happlied, rfl⟩

/-- A log that ends at a line holds whole lines only. -/
lemma Written.of_ended {text : Text} {events : List StoreEvent} (h : Written text events)
    (hended : Lines.Ended '\n' text) : text = logText events := by
  obtain ⟨tail, hdangling, rfl⟩ := h
  rw [tail_of_ended hended hdangling.oneLine, List.append_nil]

lemma Stored.appendEvent {p : Process} {e : StoreEvent} (hs : h.Stored) (hp : h.process = some p)
    (hended : Lines.Ended '\n' (h.disk.log e.source)) : (h.appendEvent p e).Stored := by
  obtain ⟨written, hwritten, hcompleted⟩ := hs.logs
  obtain ⟨happlied, haccounted⟩ := hs.process p hp
  have htext := (hwritten e.source).of_ended hended
  have hlog : (h.appendEvent p e).disk.log = Function.update h.disk.log e.source
      (logText (written e.source ++ [e])) := by
    rw [logText_append, ← htext]
    rfl
  have hnew : ∀ source, Written ((h.appendEvent p e).disk.log source)
      (Function.update written e.source (written e.source ++ [e]) source) := by
    intro source
    rw [hlog]
    by_cases hsource : source = e.source
    · subst hsource
      rw [Function.update_self, Function.update_self]
      exact ⟨[], dangling_nil, (List.append_nil _).symm⟩
    · rw [Function.update_of_ne hsource, Function.update_of_ne hsource]
      exact hwritten source
  have hreplayed : (h.appendEvent p e).replayed = e ::ₘ h.replayed := by
    have hterm : ∀ source, replayedFrom ((h.appendEvent p e).disk.log source) source =
        replayedFrom (h.disk.log source) source + if source = e.source then {e} else 0 := by
      intro source
      rw [hlog]
      by_cases hsource : source = e.source
      · subst hsource
        rw [Function.update_self, if_pos rfl, htext, replayedFrom_logText, replayedFrom_logText,
          ← Multiset.coe_add]
        rfl
      · rw [Function.update_of_ne hsource, if_neg hsource, add_zero]
    rw [replayed_eq_sum fun source => ((hnew source).load source).1, replayed_eq_sum hs.read,
      Finset.sum_congr rfl fun i _ => hterm i, Finset.sum_add_distrib,
      Finset.sum_ite_eq' Finset.univ, if_pos (Finset.mem_univ _), add_comm, Multiset.singleton_add]
  refine ⟨⟨_, hnew, ?_⟩, hs.snapshot, ?_, hs.transcripts⟩
  · rw [sum_written, Multiset.add_cons]
    exact Multiset.cons_le_cons e hcompleted
  · intro q hq
    obtain rfl := Option.some.inj hq
    refine ⟨happlied.event e, ?_⟩
    rw [hreplayed, haccounted, ← Multiset.add_cons]
    rfl

lemma Stored.appendEntry {chatId : String} {entry : TranscriptEntry} (hs : h.Stored)
    (hended : Lines.Ended '\n' (h.disk.transcript chatId)) : (h.appendEntry chatId entry).Stored := by
  refine ⟨hs.logs, hs.snapshot, hs.process, ?_⟩
  intro id
  obtain ⟨tail, htail, htext⟩ := hs.transcripts id
  by_cases hid : id = chatId
  · subst hid
    rw [htext] at hended
    obtain rfl := tail_of_ended hended htail.oneLine
    refine ⟨[], Or.inl rfl, ?_⟩
    simp [Host.appendEntry, Disk.appendTranscript, htext, transcriptText]
  · refine ⟨tail, htail, ?_⟩
    simp [Host.appendEntry, Disk.appendTranscript, Function.update_of_ne hid, htext]

/-- A log without events. -/
lemma written_nil : Written [] [] := ⟨[], dangling_nil, rfl⟩

lemma replayedFrom_nil (source : Fin 4) : replayedFrom [] source = 0 := replayedFrom_logText [] source

lemma Stored.compact {p : Process} (hs : h.Stored) (hp : h.process = some p) (generatedAt : ℤ) :
    (h.compact p generatedAt).Stored := by
  obtain ⟨happlied, haccounted⟩ := hs.process p hp
  have hread : ∀ source, (loadReplayEvents ((h.compact p generatedAt).disk.log source) source).isSome :=
    fun source => (written_nil.load source).1
  have hreplayed : (h.compact p generatedAt).replayed = 0 := by
    rw [replayed_eq_sum hread]
    exact Finset.sum_eq_zero fun source _ => replayedFrom_nil source
  refine ⟨⟨fun _ => [], fun _ => written_nil, ?_⟩, ?_, ?_, hs.transcripts⟩
  · have hbelow := hs.completed_le
    rw [← haccounted] at hbelow
    simpa [Host.compact] using hbelow
  · exact ⟨_, loadSnapshot_snapshotText generatedAt p.state, happlied.snapshot generatedAt⟩
  · intro q hq
    obtain rfl := Option.some.inj (hp.symm.trans hq)
    rw [hreplayed, add_zero]
    exact ⟨happlied, rfl⟩

lemma Stored.tornAppend (hs : h.Stored) (e : StoreEvent) (cut : ℕ) (inside : Bool) :
    Stored { h with
      disk := h.disk.appendLog e.source (tornText (eventText e) cut inside), process := none } := by
  obtain ⟨written, hwritten, hcompleted⟩ := hs.logs
  refine ⟨⟨written, ?_, hcompleted⟩, hs.snapshot, by simp, hs.transcripts⟩
  intro source
  obtain ⟨tail, hdangling, htext⟩ := hwritten source
  by_cases hsource : source = e.source
  · subst hsource
    refine ⟨tail ++ tornText (eventText e) cut inside, hdangling.torn e cut inside, ?_⟩
    simp [Disk.appendLog, htext]
  · refine ⟨tail, hdangling, ?_⟩
    simp [Disk.appendLog, Function.update_of_ne hsource, htext]

lemma Stored.tornMessage (hs : h.Stored) {chatId : String} {entry : TranscriptEntry} {cut : ℕ}
    {inside : Bool} (hsafe : tornText (entryText entry) cut inside = [] ∨
      tornText (entryText entry) cut inside = entryText entry ∧
        Lines.Ended '\n' (h.disk.transcript chatId)) :
    Stored { h with
      disk := h.disk.appendTranscript chatId (tornText (entryText entry) cut inside)
      process := none } := by
  refine ⟨hs.logs, hs.snapshot, by simp, ?_⟩
  intro id
  obtain ⟨tail, htail, htext⟩ := hs.transcripts id
  by_cases hid : id = chatId
  · subst hid
    obtain hnil | ⟨hwhole, hended⟩ := hsafe
    · refine ⟨tail, htail, ?_⟩
      simp [Disk.appendTranscript, hnil, htext]
    · rw [htext] at hended
      obtain rfl := tail_of_ended hended htail.oneLine
      refine ⟨entryText entry, Or.inr ⟨entry, rfl⟩, ?_⟩
      simp [Disk.appendTranscript, hwhole, htext]
  · refine ⟨tail, htail, ?_⟩
    simp [Disk.appendTranscript, Function.update_of_ne hid, htext]

/-- A safe call keeps what the files hold. -/
lemma Stored.step (hs : h.Stored) (call : HostCall) (hsafe : h.Safe call) : (h.step call).Stored := by
  cases hprocess : h.process with
  | none =>
    cases call with
    | boot =>
      simp only [Host.step, hprocess]
      exact hs.boot
    | append e | appendMessage chatId entry | compact t | crash | tornAppend e cut inside
    | tornMessage chatId entry cut inside =>
      simp only [Host.step, hprocess]
      exact hs
  | some p =>
    have hsome : h.process.isSome := by rw [hprocess]; rfl
    cases call with
    | boot =>
      simp only [Host.step, hprocess]
      exact hs
    | append e =>
      simp only [Host.step, hprocess]
      exact hs.appendEvent hprocess (hsafe hsome)
    | appendMessage chatId entry =>
      simp only [Host.step, hprocess]
      exact hs.appendEntry (hsafe hsome)
    | compact t =>
      simp only [Host.step, hprocess]
      exact hs.compact hprocess t
    | crash =>
      simp only [Host.step, hprocess]
      exact ⟨hs.logs, hs.snapshot, by simp, hs.transcripts⟩
    | tornAppend e cut inside =>
      simp only [Host.step, hprocess]
      exact hs.tornAppend e cut inside
    | tornMessage chatId entry cut inside =>
      simp only [Host.step, hprocess]
      exact hs.tornMessage (hsafe hsome)

lemma stored_fresh : fresh.Stored := by
  refine ⟨⟨fun _ => [], fun _ => written_nil, ?_⟩, ⟨createEmptyState, rfl, .empty⟩, ?_, ?_⟩
  · simp [fresh]
  · simp [fresh]
  · exact fun _ => ⟨[], Or.inl rfl, rfl⟩

/-- Over any lifetimes whose appends follow whole lines, every start succeeds with all that was
recorded. -/
theorem appends_recoverable (calls : List HostCall) (h : Transitions.Along step Safe fresh calls) :
    (Transitions.run step fresh calls).Recoverable := by
  have hstep : ∀ (h : Host) (call : HostCall), h.Stored → h.Safe call → (h.step call).Stored :=
    fun _ call hs hsafe => hs.step call hsafe
  have hstored : (Transitions.run step fresh calls).Stored :=
    Transitions.run_invariant (P := Stored) hstep stored_fresh h
  exact hstored.recoverable

/-- A process that crashes, one that appends behind whole lines, and a start after it. -/
theorem appends_recoverable_restarted : (Transitions.run step fresh
    [.boot, .append (.project 1 "p" (.opened "Project" .strategy)), .tornAppend (.project 2 "p" .removed) 0 false,
      .boot, .append (.project 3 "p" (.sidebarRenamed none)), .tornAppend (.chat 4 "c" .deleted) 9 false,
      .boot]).Recoverable :=
  appends_recoverable _ (by decide +kernel)

/-- The line of an append behind a torn line is part of that line: the append is lost. -/
theorem appends_merged : ¬ ∀ calls, (Transitions.run step fresh calls).Recoverable := by
  intro h
  obtain ⟨⟨s, -, -, hbelow⟩, -⟩ := h [.boot,
    .tornAppend (.project 1 "p" (.opened "Project" .strategy)) 1 false, .boot,
    .append (.project 2 "p" (.opened "Project" .strategy))]
  have hcard := Multiset.card_le_card hbelow
  revert hcard
  decide +kernel

end Host

end TradeFramework.EventStore
