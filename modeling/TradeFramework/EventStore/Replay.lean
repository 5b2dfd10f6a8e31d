import TradeFramework.EventStore.Compaction
import TradeFramework.EventStore.Conflicts
import TradeFramework.EventStore.Operations

/-!
# Replaying the logs

A store puts its events on a write chain, and each is appended to its log and applied to the memory
when its turn comes. A load sorts the events of the logs by time, kind, log and line. The memory
and a load agree as long as no event is replayed before one that it was written after and that it
conflicts with.
-/

namespace TradeFramework.EventStore

open Reordering

section Order

variable {e d : StoreEvent}

/-- The order of the replay, the lines apart. -/
def StoreEvent.rank (e : StoreEvent) : ℤ ×ₗ (ℕ ×ₗ ℕ) :=
  toLex (e.timestamp, toLex (getReplayEventPriority e, e.source.val))

instance : Std.Total replayOrder := ⟨fun p q => le_total p.key q.key⟩

instance : IsTrans ParsedReplayEvent replayOrder := ⟨fun _ _ _ => le_trans⟩

/-- Of two events, the one of the lower rank is replayed first, and else the one of the lower line. -/
lemma replayOrder_iff (p q : ParsedReplayEvent) (hp : p.sourceIndex = p.event.source)
    (hq : q.sourceIndex = q.event.source) : replayOrder p q ↔
      p.event.rank < q.event.rank ∨ p.event.rank = q.event.rank ∧ p.lineIndex ≤ q.lineIndex := by
  unfold replayOrder ParsedReplayEvent.key StoreEvent.rank
  simp only [Prod.Lex.toLex_le_toLex, Prod.Lex.toLex_lt_toLex, hp, hq, toLex_inj, Prod.mk.injEq]
  tauto

end Order

section Logs

variable {written : Fin 4 → List StoreEvent} {e : StoreEvent}

lemma number_append (source : Fin 4) (index : ℕ) (es : List StoreEvent) (e : StoreEvent) :
    number source index (es ++ [e]) = number source index es ++ [⟨e, source, index + es.length⟩] := by
  induction es generalizing index with
  | nil => rfl
  | cons d es ih =>
    rw [List.cons_append, number, number, ih, List.cons_append, List.length_cons]
    congr 4
    omega

lemma mem_number {source : Fin 4} {index : ℕ} {es : List StoreEvent} {p : ParsedReplayEvent}
    (h : p ∈ number source index es) : p.sourceIndex = source ∧ index ≤ p.lineIndex ∧
      p.lineIndex < index + es.length ∧ es[p.lineIndex - index]? = some p.event := by
  induction es generalizing index with
  | nil => cases h
  | cons d es ih =>
    rw [number] at h
    rw [List.length_cons]
    obtain rfl | hrest := List.mem_cons.mp h
    · exact ⟨rfl, le_refl _, by simp, by simp⟩
    · obtain ⟨hsource, hlow, hhigh, hget⟩ := ih hrest
      have hindex : p.lineIndex - index = (p.lineIndex - (index + 1)) + 1 := by omega
      refine ⟨hsource, by omega, by omega, ?_⟩
      rw [hindex, List.getElem?_cons_succ]
      exact hget

/-- The events of the four logs, numbered by their lines. -/
def numbered (written : Fin 4 → List StoreEvent) : List ParsedReplayEvent :=
  number 0 0 (written 0) ++ (number 1 0 (written 1) ++ (number 2 0 (written 2) ++ number 3 0 (written 3)))

lemma mem_numbered {p : ParsedReplayEvent} (h : p ∈ numbered written) :
    p.lineIndex < (written p.sourceIndex).length ∧
      (written p.sourceIndex)[p.lineIndex]? = some p.event := by
  have hsource : ∃ source, p ∈ number source 0 (written source) := by
    unfold numbered at h
    simp only [List.mem_append] at h
    obtain h | h | h | h := h
    · exact ⟨0, h⟩
    · exact ⟨1, h⟩
    · exact ⟨2, h⟩
    · exact ⟨3, h⟩
  obtain ⟨source, hmem⟩ := hsource
  obtain ⟨rfl, -, hlength, hget⟩ := mem_number hmem
  rw [Nat.zero_add] at hlength
  exact ⟨hlength, hget⟩

lemma loadAllReplayEvents_logText (written : Fin 4 → List StoreEvent) :
    loadAllReplayEvents (fun source => logText (written source)) = some (numbered written) := by
  have hlog : ∀ source, loadReplayEvents (logText (written source)) source =
      some (number source 0 (written source)) := by
    intro source
    have hnone : '\n' ∉ ([] : Text) := by simp
    have hread := loadReplayEvents_logText (written source) source hnone
    have htail : tailEvents [] = some [] := rfl
    rw [List.append_nil, htail, Option.map_some, List.append_nil] at hread
    exact hread
  unfold loadAllReplayEvents
  simp only [hlog, Option.bind_some, Option.map_some]
  rfl

/-- The logs with one more event at the end of its log. -/
def appended (written : Fin 4 → List StoreEvent) (e : StoreEvent) : Fin 4 → List StoreEvent :=
  Function.update written e.source (written e.source ++ [e])

lemma coe_numbered (written : Fin 4 → List StoreEvent) :
    (numbered written : Multiset ParsedReplayEvent) =
      ∑ source, (number source 0 (written source) : Multiset ParsedReplayEvent) := by
  rw [Fin.sum_univ_four]
  simp only [numbered, ← Multiset.coe_add, add_assoc]

lemma perm_appended (written : Fin 4 → List StoreEvent) (e : StoreEvent) :
    (numbered (appended written e)).Perm
      (⟨e, e.source, (written e.source).length⟩ :: numbered written) := by
  have hnumber : ∀ source, (number source 0 (appended written e source) : Multiset ParsedReplayEvent) =
      number source 0 (written source) +
        if source = e.source then {⟨e, e.source, (written e.source).length⟩} else 0 := by
    intro source
    unfold appended
    by_cases hsource : source = e.source
    · subst hsource
      rw [Function.update_self, number_append, Nat.zero_add, if_pos rfl, ← Multiset.coe_add,
        Multiset.coe_singleton]
    · rw [Function.update_of_ne hsource, if_neg hsource, add_zero]
  rw [← Multiset.coe_eq_coe, ← Multiset.cons_coe, coe_numbered, coe_numbered]
  simp only [hnumber, Finset.sum_add_distrib, Finset.sum_ite_eq', Finset.mem_univ, if_true]
  rw [add_comm, Multiset.singleton_add]

end Logs

section Appending

variable {written : Fin 4 → List StoreEvent} {e : StoreEvent}

/-- An event is written after no event that is replayed behind it and conflicts with it. -/
def InOrder (logged : List ParsedReplayEvent) (e : StoreEvent) : Prop :=
  ∀ d ∈ logged, e.rank < d.event.rank → ¬ e.Conflict d.event

instance (logged : List ParsedReplayEvent) (e : StoreEvent) : Decidable (InOrder logged e) :=
  inferInstanceAs (Decidable (∀ d ∈ logged, e.rank < d.event.rank → ¬ e.Conflict d.event))

/-- Logs hold the events of their kind. -/
def Sorted (written : Fin 4 → List StoreEvent) : Prop := ∀ source, ∀ e ∈ written source, e.source = source

lemma Sorted.source (h : Sorted written) {p : ParsedReplayEvent} (hp : p ∈ numbered written) :
    p.sourceIndex = p.event.source := by
  obtain ⟨-, hget⟩ := mem_numbered hp
  exact (h p.sourceIndex p.event (List.mem_of_getElem? hget)).symm

lemma Sorted.appended (h : Sorted written) (e : StoreEvent) : Sorted (appended written e) := by
  intro source d hd
  unfold EventStore.appended at hd
  by_cases hsource : source = e.source
  · subst hsource
    rw [Function.update_self, List.mem_append, List.mem_singleton] at hd
    obtain hd | rfl := hd
    · exact h _ d hd
    · rfl
  · rw [Function.update_of_ne hsource] at hd
    exact h source d hd

lemma numbered_distinct {p q : ParsedReplayEvent} (hp : p ∈ numbered written) (hq : q ∈ numbered written)
    (hpq : replayOrder p q) (hqp : replayOrder q p) : p = q := by
  have hkey : p.key = q.key := le_antisymm hpq hqp
  unfold ParsedReplayEvent.key at hkey
  simp only [toLex_inj, Prod.mk.injEq] at hkey
  obtain ⟨-, -, hsource, hline⟩ := hkey
  obtain ⟨-, hget⟩ := mem_numbered hp
  obtain ⟨-, hget'⟩ := mem_numbered hq
  have hsame : p.sourceIndex = q.sourceIndex := Fin.val_injective hsource
  rw [hsame, hline, hget'] at hget
  obtain ⟨event, source, line⟩ := p
  obtain ⟨event', source', line'⟩ := q
  simp only [Option.some.injEq] at hget hsame hline
  rw [hget, hsame, hline]

/-- Replaying the logs with one more event, in order, is applying it last. -/
theorem contents_replayEvents_appended (hsorted : Sorted written) (horder : InOrder (numbered written) e)
    (base : StoreState) : (replayEvents base (numbered (appended written e))).contents =
      (replayEvents base (numbered written)).contents.apply e := by
  have hreplay : ∀ parsed, (replayEvents base parsed).contents =
      (parsed.insertionSort replayOrder).foldl (fun (c : Contents) p => c.apply p.event) base.contents := by
    intro parsed
    unfold replayEvents
    rw [contents_foldl, List.foldl_map]
  rw [hreplay, hreplay]
  have hswap : ∀ d ∈ numbered written, replayOrder ⟨e, e.source, (written e.source).length⟩ d →
      Swap (fun (c : Contents) (p : ParsedReplayEvent) => c.apply p.event)
        ⟨e, e.source, (written e.source).length⟩ d := by
    intro d hd hbefore
    have hsource := hsorted.source hd
    rw [replayOrder_iff _ d rfl hsource] at hbefore
    obtain hlt | ⟨heq, hline⟩ := hbefore
    · exact fun c => Contents.swap_of_not_conflict (horder d hd hlt) c
    · -- A line further down is not replayed first.
      obtain ⟨hlength, -⟩ := mem_numbered hd
      unfold StoreEvent.rank at heq
      simp only [toLex_inj, Prod.mk.injEq] at heq
      have hsame : d.sourceIndex = e.source := hsource.trans (Fin.val_injective heq.2.2).symm
      rw [hsame] at hlength
      exact absurd hline (Nat.not_le.mpr hlength)
  exact foldl_insertionSort_of_perm (perm_appended written e) (fun _ hp _ hq => numbered_distinct hp hq)
    hswap base.contents

end Appending

section Forgetting

/-- A load may miss what is deleted: a snapshot leaves it out. -/
def MissesDeleted {α : Type*} (deleted : α → Bool) (loaded live : Option α) : Prop :=
  loaded = live ∨ loaded = none ∧ ∃ record, live = some record ∧ deleted record

structure ChatEntry.Recalls (loaded live : ChatEntry) : Prop where
  chat : MissesDeleted ChatRecord.deleted loaded.chat live.chat
  queue : loaded.queue = live.queue

/-- A load gives back the memory, but for deleted projects and chats. -/
structure Contents.Recalls (loaded live : Contents) : Prop where
  projects : ∀ projectId, MissesDeleted ProjectRecord.deleted (loaded.projects projectId)
    (live.projects projectId)
  chats : ∀ chatId, (loaded.chats chatId).Recalls (live.chats chatId)

/-- What an event deletes is in the load when it is in the memory. -/
def Contents.Deletable (loaded live : Contents) : StoreEvent → Prop
  | .project _ projectId .removed => loaded.projects projectId = live.projects projectId
  | .chat _ chatId .deleted => (loaded.chats chatId).chat = (live.chats chatId).chat
  | _ => True

variable {loaded live : Contents} {e : StoreEvent}

lemma Contents.Recalls.refl (c : Contents) : c.Recalls c :=
  ⟨fun _ => Or.inl rfl, fun _ => ⟨Or.inl rfl, rfl⟩⟩

lemma ProjectEvent.recalls {t : ℤ} {event : ProjectEvent} {loaded live : Option ProjectRecord}
    (h : MissesDeleted ProjectRecord.deleted loaded live) (hdeletable : event = .removed → loaded = live) :
    MissesDeleted ProjectRecord.deleted (event.act t loaded) (event.act t live) := by
  obtain rfl | ⟨rfl, record, rfl, hdeleted⟩ := h
  · exact Or.inl rfl
  · cases event with
    | opened title kind => exact Or.inl rfl
    | sidebarRenamed title => exact Or.inr ⟨rfl, _, rfl, hdeleted⟩
    | removed => cases hdeletable rfl

/-- Only a deletion changes whether a chat is deleted. -/
lemma ChatEvent.deletedAt_update {t : ℤ} {chat : ChatRecord} {event : ChatEvent} (h : event ≠ .deleted) :
    (event.update t chat).deletedAt = chat.deletedAt := by
  cases event with
  | deleted => exact absurd rfl h
  | _ => rfl

lemma TurnEvent.deletedAt_update {t : ℤ} {chat : ChatRecord} (event : TurnEvent) :
    (event.update t chat).deletedAt = chat.deletedAt := by
  cases event <;>
    first
    | rfl
    | dsimp only [update]
      split_ifs <;> rfl

lemma ChatEntry.Recalls.act {e : StoreEvent} {loaded live : ChatEntry} (h : loaded.Recalls live)
    (hdeletable : ∀ t chatId, e = .chat t chatId .deleted → loaded.chat = live.chat) :
    (e.act loaded).Recalls (e.act live) := by
  obtain ⟨hchat, hqueue⟩ := h
  obtain ⟨chat, queue⟩ := loaded
  obtain ⟨chat', queue'⟩ := live
  simp only at hqueue hchat hdeletable
  subst hqueue
  obtain rfl | ⟨rfl, record, rfl, hdeleted⟩ := hchat
  · exact ⟨Or.inl rfl, rfl⟩
  · cases e with
    | project t projectId event => exact ⟨Or.inr ⟨rfl, record, rfl, hdeleted⟩, rfl⟩
    | queuedMessage t chatId event => exact ⟨Or.inr ⟨rfl, _, rfl, hdeleted⟩, rfl⟩
    | turn t chatId event =>
      refine ⟨Or.inr ⟨rfl, _, rfl, ?_⟩, rfl⟩
      rw [ChatRecord.deleted, event.deletedAt_update]
      exact hdeleted
    | chat t chatId event =>
      by_cases hdeletes : event = .deleted
      · subst hdeletes
        cases hdeletable t chatId rfl
      · cases event with
        | created => exact ⟨Or.inl rfl, rfl⟩
        | deleted => exact absurd rfl hdeletes
        | _ => exact ⟨Or.inr ⟨rfl, _, rfl, hdeleted⟩, rfl⟩

namespace Contents.Recalls

lemma apply (h : loaded.Recalls live) (hdeletable : loaded.Deletable live e) :
    (loaded.apply e).Recalls (live.apply e) := by
  cases he : e.about with
  | inl projectId =>
    cases e with
    | project t projectId' event =>
      refine ⟨fun id => ?_, h.chats⟩
      rw [Contents.apply_project, Contents.apply_project]
      unfold Contents.onProject
      simp only [Function.update_apply]
      split_ifs with hid
      · apply ProjectEvent.recalls (h.projects projectId')
        rintro rfl
        exact hdeletable
      · exact h.projects id
    | _ => cases he
  | inr chatId =>
    rw [Contents.apply_chat _ he, Contents.apply_chat _ he]
    refine ⟨h.projects, fun id => ?_⟩
    unfold Contents.onChat
    simp only [Function.update_apply]
    split_ifs with hid
    · apply (h.chats chatId).act
      rintro t chatId' rfl
      cases he
      exact hdeletable
    · exact h.chats id

/-- What may be deleted still may after another event. -/
lemma deletable_apply (h : loaded.Recalls live) {d : StoreEvent} (hdeletable : loaded.Deletable live d) :
    (loaded.apply e).Deletable (live.apply e) d := by
  cases d with
  | project t projectId event =>
    cases event with
    | removed =>
      cases e with
      | project u projectId' other =>
        unfold Contents.Deletable at hdeletable ⊢
        rw [Contents.apply_project, Contents.apply_project]
        unfold Contents.onProject
        simp only [Function.update_apply]
        split_ifs with hid
        · rw [← hid, hdeletable]
        · exact hdeletable
      | _ => exact hdeletable
    | _ => trivial
  | chat t chatId event =>
    cases event with
    | deleted =>
      cases he : e.about with
      | inl projectId =>
        cases e with
        | project => exact hdeletable
        | _ => cases he
      | inr chatId' =>
        unfold Contents.Deletable at hdeletable ⊢
        rw [Contents.apply_chat _ he, Contents.apply_chat _ he]
        unfold Contents.onChat
        simp only [Function.update_apply]
        split_ifs with hid
        · have hentry : loaded.chats chatId = live.chats chatId := by
            have hqueue := (h.chats chatId).queue
            cases hl : loaded.chats chatId
            cases hr : live.chats chatId
            simp_all
          rw [← hid, hentry]
        · exact hdeletable
    | _ => trivial
  | _ => trivial

end Contents.Recalls

lemma missesDeleted_filter {α : Type*} (deleted : α → Bool) (live : Option α) :
    MissesDeleted deleted (live.filter fun record => !deleted record) live := by
  cases live with
  | none => exact Or.inl rfl
  | some record =>
    cases hdeleted : deleted record
    · exact Or.inl (by simp [Option.filter, hdeleted])
    · exact Or.inr ⟨by simp [Option.filter, hdeleted], record, rfl, hdeleted⟩

lemma MissesDeleted.filter {α : Type*} {deleted : α → Bool} {loaded live : Option α}
    (h : MissesDeleted deleted loaded live) :
    loaded.filter (fun record => !deleted record) = live.filter fun record => !deleted record := by
  obtain rfl | ⟨rfl, record, rfl, hdeleted⟩ := h
  · rfl
  · simp [Option.filter, hdeleted]

/-- What is there and not deleted is in the load. -/
lemma MissesDeleted.eq_of_visible {α : Type*} {deleted : α → Bool} {loaded live : Option α}
    (h : MissesDeleted deleted loaded live) {record : α}
    (hvisible : live.filter (fun record => !deleted record) = some record) : loaded = live := by
  obtain heq | ⟨-, record', rfl, hdeleted⟩ := h
  · exact heq
  · simp [Option.filter, hdeleted] at hvisible

/-- A snapshot leaves out what is deleted, and nothing else. -/
lemma recalls_snapshot (generatedAt : ℤ) (s : StoreState) :
    (createSnapshot generatedAt s).state.contents.Recalls s.contents where
  projects projectId := by
    have hfilter := missesDeleted_filter ProjectRecord.deleted (s.projectsById.lookup projectId)
    have hlookup := lookup_snapshot_project generatedAt s projectId
    unfold visibleProject at hlookup
    rw [← hlookup] at hfilter
    exact hfilter
  chats chatId := by
    have hfilter := missesDeleted_filter ChatRecord.deleted (s.chatsById.lookup chatId)
    have hlookup := lookup_snapshot_chat generatedAt s chatId
    unfold visibleChat at hlookup
    rw [← hlookup] at hfilter
    exact ⟨hfilter, queuedMessages_snapshot generatedAt s chatId⟩

lemma Contents.Recalls.sameContents {s s' : StoreState} (h : s.contents.Recalls s'.contents) :
    SameContents s s' where
  projects projectId := (h.projects projectId).filter
  chats chatId := (h.chats chatId).chat.filter
  queuedMessages chatId := (h.chats chatId).queue

end Forgetting

/-- A store in use: its files, its memory, and what waits to be written. -/
structure Store where
  disk : Disk
  state : StoreState
  chain : List ChainWork
  clock : ℤ

inductive StoreCall
  | call (now : ℤ) (operation : Operation)
  | write
  | compact (now : ℤ)
  | restart

namespace Store

def fresh : Store := ⟨Disk.empty, createEmptyState, [], 0⟩

variable (s : Store)

/-- A fork takes the turn count of its source over, in memory only. -/
def copyTurns (chatId sourceChatId : String) : StoreState :=
  match s.state.turnsOf sourceChatId with
  | none => s.state
  | some turns => s.state.updateChat chatId fun chat => { chat with turnCount := some turns }

/-- The head of the write chain: an append, or the copying of a transcript. -/
def write : Store :=
  match s.chain with
  | [] => s
  | .event e :: rest =>
    { s with
      disk := s.disk.appendLog e.source (eventLine e)
      state := applyEvent s.state e
      chain := rest }
  | .copyTranscript chatId sourceChatId :: rest =>
    { s with state := s.copyTurns chatId sourceChatId, chain := rest }

/-- A start and a shutdown compact, with nothing on the write chain. -/
def step (s : Store) : StoreCall → Store
  | .call now operation =>
    { s with chain := s.chain ++ (operation.work now s.state).toList, clock := now }
  | .write => s.write
  | .compact now =>
    if s.chain.isEmpty then { s with disk := s.disk.compact now s.state, clock := now } else s
  | .restart => { s with state := (load s.disk).getD createEmptyState, chain := [] }

/-- The clock does not go back. -/
def Timely (s : Store) : StoreCall → Prop
  | .call now _ => s.clock ≤ now
  | .compact now => s.clock ≤ now
  | _ => True

instance Timely.decidable (s : Store) : (call : StoreCall) → Decidable (s.Timely call)
  | .call now _ => inferInstanceAs (Decidable (s.clock ≤ now))
  | .compact now => inferInstanceAs (Decidable (s.clock ≤ now))
  | .write => isTrue trivial
  | .restart => isTrue trivial

/-- Loading the files gives what the memory holds. -/
def Reproduced : Prop := ∃ loaded, load s.disk = some loaded ∧ SameContents loaded s.state

/-- An append is in order with the events of the logs, and no fork takes turns over. -/
def Ordered (s : Store) : StoreCall → Prop
  | .write =>
    match s.chain with
    | [] => True
    | .event e :: _ => InOrder ((loadAllReplayEvents s.disk.log).getD []) e
    | .copyTranscript chatId sourceChatId :: _ => ∀ turns ∈ s.state.turnsOf sourceChatId,
      ∀ chat ∈ s.state.chatsById.lookup chatId, chat.turnCount = some turns
  | _ => True

instance Ordered.decidable (s : Store) : (call : StoreCall) → Decidable (s.Ordered call)
  | .call _ _ => isTrue trivial
  | .compact _ => isTrue trivial
  | .restart => isTrue trivial
  | .write =>
    match h : s.chain with
    | [] => isTrue (by simp [Ordered, h])
    | .event e :: _ =>
      decidable_of_iff (InOrder ((loadAllReplayEvents s.disk.log).getD []) e) (by simp [Ordered, h])
    | .copyTranscript chatId sourceChatId :: _ =>
      decidable_of_iff ((s.state.turnsOf sourceChatId).all fun turns =>
        (s.state.chatsById.lookup chatId).all fun chat => chat.turnCount = some turns) (by
          simp [Ordered, h, Option.all_eq_true])

section Guards

variable {operation : Operation} {now : ℤ} {state : StoreState} {e : StoreEvent}

lemma requireChat_of_setting {chatId : String} {already : ChatRecord → Bool} {event : ChatEvent}
    (h : Operation.setting now state chatId already event = some e) :
    (state.requireChat chatId).isSome ∧ e = .chat now chatId event := by
  unfold Operation.setting at h
  obtain ⟨chat, hchat, h⟩ := Option.bind_eq_some_iff.mp h
  split_ifs at h
  exact ⟨by rw [hchat]; rfl, (Option.some.inj h).symm⟩

lemma of_ending {chatId turnId : String} {event : TurnEvent}
    (h : Operation.ending now state chatId turnId event = some e) : e = .turn now chatId event := by
  unfold Operation.ending at h
  obtain ⟨chat, -, h⟩ := Option.bind_eq_some_iff.mp h
  split_ifs at h
  exact (Option.some.inj h).symm

/-- What an operation deletes is there. -/
lemma deletes_of_event (h : operation.event now state = some e) :
    (∀ t projectId, e = .project t projectId .removed → (state.getProject projectId).isSome) ∧
      ∀ t chatId, e = .chat t chatId .deleted → (state.requireChat chatId).isSome := by
  cases operation <;> simp only [Operation.event] at h <;> (try split_ifs at h) <;>
    first
    | obtain ⟨hchat, rfl⟩ := requireChat_of_setting h
      simp_all
    | obtain rfl := of_ending h
      simp
    | grind [Option.bind_eq_some_iff, Option.map_eq_some_iff]

end Guards

section Runs

variable {s : Store}

/-- The files hold a snapshot and whole lines, a load recalls the memory, and what waits on the
write chain deletes nothing that the load misses. -/
structure Faithful (s : Store) (base : StoreState) (written : Fin 4 → List StoreEvent) : Prop where
  snapshot : loadSnapshot s.disk.snapshot = some base
  logs : s.disk.log = fun source => logText (written source)
  sorted : Sorted written
  recalls : (replayEvents base (numbered written)).contents.Recalls s.state.contents
  deletable : ∀ e, ChainWork.event e ∈ s.chain →
    (replayEvents base (numbered written)).contents.Deletable s.state.contents e

variable {base : StoreState} {written : Fin 4 → List StoreEvent}

lemma Faithful.load (h : s.Faithful base written) :
    loadAllReplayEvents s.disk.log = some (numbered written) ∧
      load s.disk = some (replayEvents base (numbered written)) := by
  have hlogs : loadAllReplayEvents s.disk.log = some (numbered written) := by
    rw [h.logs, loadAllReplayEvents_logText]
  refine ⟨hlogs, ?_⟩
  rw [EventStore.load, h.snapshot, Option.bind_some, hlogs, Option.map_some]

lemma Faithful.reproduced (h : s.Faithful base written) : s.Reproduced :=
  ⟨_, h.load.2, h.recalls.sameContents⟩

lemma faithful_fresh : fresh.Faithful createEmptyState fun _ => [] where
  snapshot := rfl
  logs := rfl
  sorted := by
    intro source e he
    cases he
  recalls := Contents.Recalls.refl _
  deletable := by
    intro e he
    cases he

lemma deletable_of_visible {loaded : Contents} (h : loaded.Recalls s.state.contents) {e : StoreEvent}
    (hproject : ∀ t projectId, e = .project t projectId .removed → (s.state.getProject projectId).isSome)
    (hchat : ∀ t chatId, e = .chat t chatId .deleted → (s.state.requireChat chatId).isSome) :
    loaded.Deletable s.state.contents e := by
  cases e with
  | project t projectId event =>
    cases event with
    | removed =>
      obtain ⟨project, hvisible⟩ := Option.isSome_iff_exists.mp (hproject t projectId rfl)
      exact (h.projects projectId).eq_of_visible hvisible
    | _ => trivial
  | chat t chatId event =>
    cases event with
    | deleted =>
      obtain ⟨chat, hvisible⟩ := Option.isSome_iff_exists.mp (hchat t chatId rfl)
      exact (h.chats chatId).chat.eq_of_visible hvisible
    | _ => trivial
  | _ => trivial

lemma Faithful.call (h : s.Faithful base written) (now : ℤ) (operation : Operation) :
    (s.step (.call now operation)).Faithful base written := by
  refine { h with deletable := fun e he => ?_ }
  obtain he | he := List.mem_append.mp he
  · exact h.deletable e he
  · have hevent : operation.event now s.state = some e := by
      rw [Option.mem_toList] at he
      cases operation <;> simp_all [Operation.work]
    obtain ⟨hproject, hchat⟩ := deletes_of_event hevent
    exact deletable_of_visible h.recalls hproject hchat

lemma Faithful.append (h : s.Faithful base written) {e : StoreEvent} {rest : List ChainWork}
    (hchain : s.chain = .event e :: rest) (horder : s.Ordered .write) :
    (s.step .write).Faithful base (appended written e) := by
  have hwrite : s.step .write =
      { s with
        disk := s.disk.appendLog e.source (eventLine e)
        state := applyEvent s.state e
        chain := rest } := by
    simp only [step, write, hchain]
  have hinOrder : InOrder (numbered written) e := by
    simp only [Ordered, hchain, h.load.1, Option.getD_some] at horder
    exact horder
  have hcontents := contents_replayEvents_appended h.sorted hinOrder base
  have hdeletable := h.deletable e (by rw [hchain]; exact List.mem_cons_self)
  rw [hwrite]
  refine ⟨h.snapshot, ?_, h.sorted.appended e, ?_, ?_⟩
  · funext source
    simp only [Disk.appendLog, h.logs, appended, Function.update_apply]
    split_ifs with hsource
    · rw [logText_append]
    · rfl
  · rw [hcontents, contents_applyEvent]
    exact h.recalls.apply hdeletable
  · intro d hd
    have hmem : ChainWork.event d ∈ s.chain := by
      rw [hchain]
      exact List.mem_cons_of_mem _ hd
    rw [hcontents, contents_applyEvent]
    exact h.recalls.deletable_apply (h.deletable d hmem)

/-- Taking a turn count over that is there already. -/
lemma contents_copyTurns {chatId sourceChatId : String} (h : ∀ turns ∈ s.state.turnsOf sourceChatId,
    ∀ chat ∈ s.state.chatsById.lookup chatId, chat.turnCount = some turns) :
    (s.copyTurns chatId sourceChatId).contents = s.state.contents := by
  unfold copyTurns
  cases hturns : s.state.turnsOf sourceChatId with
  | none => rfl
  | some turns =>
    have hentry : ({ s.state.contents.chats chatId with
        chat := (s.state.contents.chats chatId).chat.map fun chat =>
          { chat with turnCount := some turns } } : ChatEntry) = s.state.contents.chats chatId := by
      unfold StoreState.contents
      cases hchat : s.state.chatsById.lookup chatId with
      | none => simp [hchat]
      | some chat =>
        have hsame := h turns hturns chat hchat
        simp [hchat, ← hsame]
    simp only
    rw [contents_updateChat]
    unfold Contents.onChat
    simp only [hentry, Function.update_eq_self]

lemma Faithful.copy (h : s.Faithful base written) {chatId sourceChatId : String} {rest : List ChainWork}
    (hchain : s.chain = .copyTranscript chatId sourceChatId :: rest) (horder : s.Ordered .write) :
    (s.step .write).Faithful base written := by
  have hwrite : s.step .write =
      { s with state := s.copyTurns chatId sourceChatId, chain := rest } := by
    simp only [step, write, hchain]
  simp only [Ordered, hchain] at horder
  have hcontents := contents_copyTurns horder
  rw [hwrite]
  refine ⟨h.snapshot, h.logs, h.sorted, ?_, ?_⟩
  · rw [hcontents]
    exact h.recalls
  · intro e he
    rw [hcontents]
    apply h.deletable e
    rw [hchain]
    exact List.mem_cons_of_mem _ he

lemma faithful_compact (hchain : s.chain = []) (now : ℤ) :
    (s.step (.compact now)).Faithful (createSnapshot now s.state).state fun _ => [] := by
  have hcompact : s.step (.compact now) =
      { s with disk := s.disk.compact now s.state, clock := now } := by
    simp [step, hchain]
  rw [hcompact]
  refine ⟨loadSnapshot_snapshotText now s.state, rfl, ?_, recalls_snapshot now s.state, ?_⟩
  · intro source e he
    cases he
  · intro e he
    rw [hchain] at he
    cases he

lemma Faithful.restart (h : s.Faithful base written) : (s.step .restart).Faithful base written := by
  have hrestart : s.step .restart =
      { s with state := replayEvents base (numbered written), chain := [] } := by
    simp only [step, h.load.2, Option.getD_some]
  rw [hrestart]
  refine ⟨h.snapshot, h.logs, h.sorted, Contents.Recalls.refl _, ?_⟩
  intro e he
  cases he

/-- An ordered step keeps the files faithful. -/
lemma faithful_step {s : Store} (call : StoreCall) (h : ∃ base written, s.Faithful base written)
    (horder : s.Ordered call) : ∃ base written, (s.step call).Faithful base written := by
  obtain ⟨base, written, h⟩ := h
  cases call with
  | call now operation => exact ⟨base, written, h.call now operation⟩
  | write =>
    cases hchain : s.chain with
    | nil =>
      have hidle : s.step .write = s := by simp only [step, write, hchain]
      rw [hidle]
      exact ⟨base, written, h⟩
    | cons work rest =>
      cases work with
      | event e => exact ⟨base, appended written e, h.append hchain horder⟩
      | copyTranscript chatId sourceChatId => exact ⟨base, written, h.copy hchain horder⟩
  | compact now =>
    by_cases hchain : s.chain = []
    · exact ⟨_, _, faithful_compact hchain now⟩
    · have hbusy : s.step (.compact now) = s := by simp [step, hchain]
      rw [hbusy]
      exact ⟨base, written, h⟩
  | restart => exact ⟨base, written, h.restart⟩

/-- In every run whose appends are in order, a load recalls the memory at every time: it misses at most
what is deleted. -/
theorem load_recalls {calls : List StoreCall} (h : Transitions.Along step Ordered fresh calls) :
    ∃ loaded, load (Transitions.run step fresh calls).disk = some loaded ∧
      loaded.contents.Recalls (Transitions.run step fresh calls).state.contents := by
  have hfresh : ∃ base written, fresh.Faithful base written := ⟨_, _, faithful_fresh⟩
  have hrun := Transitions.run_invariant (P := fun s => ∃ base written, s.Faithful base written)
    (fun _ call hs horder => faithful_step call hs horder) hfresh h
  obtain ⟨base, written, hfaithful⟩ := hrun
  exact ⟨_, hfaithful.load.2, hfaithful.recalls⟩

/-- In every run whose appends are in order, a load gives what the memory holds at every time. -/
theorem replay_reproduces {calls : List StoreCall} (h : Transitions.Along step Ordered fresh calls) :
    (Transitions.run step fresh calls).Reproduced := by
  obtain ⟨loaded, hload, hrecalls⟩ := load_recalls h
  exact ⟨loaded, hload, hrecalls.sameContents⟩

/-- A turn that is started in the millisecond after the one in which the turn before it finished. -/
theorem replay_reproduces_apart : (Transitions.run step fresh
    [.call 1 (.registerProject "p" "p" "Project" .strategy), .write,
      .call 1 (.createChat "c" "p" ⟨"user", by decide⟩ ⟨"request", by decide⟩ .claudeDeepseek), .write,
      .call 10 (.recordTurnStarted "c" "" "first" "digest" "t1"), .write,
      .call 20 (.recordTurnFinished "c" "t1"), .write,
      .call 21 (.recordTurnStarted "c" "" "second" "digest" "t2"), .write]).Reproduced :=
  replay_reproduces (by decide +kernel)

/-- In the same millisecond the start is replayed before the end, which then ends nothing. -/
theorem replay_forgets_end : ¬ ∀ calls, Transitions.Along step Timely fresh calls →
    (Transitions.run step fresh calls).Reproduced := by
  intro h
  let calls : List StoreCall :=
    [.call 1 (.registerProject "p" "p" "Project" .strategy), .write,
      .call 1 (.createChat "c" "p" ⟨"user", by decide⟩ ⟨"request", by decide⟩ .claudeDeepseek), .write,
      .call 10 (.recordTurnStarted "c" "" "first" "digest" "t1"), .write,
      .call 20 (.recordTurnFinished "c" "t1"), .write,
      .call 20 (.recordTurnStarted "c" "" "second" "digest" "t2"), .write]
  obtain ⟨loaded, hload, hsame⟩ := h calls (by with_unfolding_all decide)
  have hunread : ((load (Transitions.run step fresh calls).disk).map fun loaded =>
      (visibleChat loaded "c").map ChatRecord.unread,
      (visibleChat (Transitions.run step fresh calls).state "c").map ChatRecord.unread) =
      (some (some false), some true) := by
    decide +kernel
  rw [hload, ← hsame.chats, Option.map_some, Prod.mk.injEq, Option.some.injEq] at hunread
  rw [hunread.1] at hunread
  exact absurd hunread.2 (by decide)

end Runs

end Store

end TradeFramework.EventStore
