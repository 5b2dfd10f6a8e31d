import TradeFramework.EventStore.Lifetimes

/-!
# Crashes during a compaction

A compaction writes the snapshot and then empties the four logs. A crash leaves a part of the
snapshot, or the snapshot and the logs that were not emptied yet.
-/

namespace TradeFramework.EventStore

section Snapshots

def visibleProject (s : StoreState) (projectId : String) : Option ProjectRecord :=
  (s.projectsById.lookup projectId).filter fun project => !project.deleted

def visibleChat (s : StoreState) (chatId : String) : Option ChatRecord :=
  (s.chatsById.lookup chatId).filter fun chat => !chat.deleted

/-- The same projects, chats and queued messages; what is deleted does not count. -/
structure SameContents (s s' : StoreState) : Prop where
  projects : ∀ projectId, visibleProject s projectId = visibleProject s' projectId
  chats : ∀ chatId, visibleChat s chatId = visibleChat s' chatId
  queuedMessages : ∀ chatId, s.queuedMessages chatId = s'.queuedMessages chatId

/-- Records that are written without those that are deleted, and read back. -/
lemma lookup_kept {α : Type*} (d : List (String × α)) (kept : α → Bool) (id : String) :
    (Dict.ofEntries ((Dict.items d).filter fun e => kept e.2)).lookup id = (d.lookup id).filter kept := by
  have hkeys := Dict.nodup_keys d
  have hfilter : (((Dict.items d).filter fun e => kept e.2).map Prod.fst).Nodup :=
    hkeys.sublist (List.filter_sublist.map _)
  have hlookup := Dict.lookup_filter_of_nodup hkeys kept id
  rw [Dict.ofEntries_of_nodup hfilter, hlookup, Dict.lookup_items]

lemma lookup_snapshot_project (generatedAt : ℤ) (s : StoreState) (projectId : String) :
    (createSnapshot generatedAt s).state.projectsById.lookup projectId = visibleProject s projectId :=
  lookup_kept s.projectsById (fun project => !project.deleted) projectId

lemma lookup_snapshot_chat (generatedAt : ℤ) (s : StoreState) (chatId : String) :
    (createSnapshot generatedAt s).state.chatsById.lookup chatId = visibleChat s chatId :=
  lookup_kept s.chatsById (fun chat => !chat.deleted) chatId

lemma queuedMessages_snapshot (generatedAt : ℤ) (s : StoreState) (chatId : String) :
    (createSnapshot generatedAt s).state.queuedMessages chatId = s.queuedMessages chatId := by
  unfold StoreState.queuedMessages SnapshotFile.state createSnapshot
  rw [Dict.ofEntries_of_nodup (Dict.nodup_keys s.queuedMessagesByChatId), Dict.lookup_items]

/-- Loading the snapshot of a state gives the same contents. -/
theorem sameContents_snapshot (generatedAt : ℤ) (s : StoreState) :
    SameContents (createSnapshot generatedAt s).state s where
  projects projectId := by
    rw [visibleProject, lookup_snapshot_project, visibleProject, Option.filter_filter]
    simp
  chats chatId := by
    rw [visibleChat, lookup_snapshot_chat, visibleChat, Option.filter_filter]
    simp
  queuedMessages chatId := queuedMessages_snapshot generatedAt s chatId

end Snapshots

lemma Applied.eq_empty {s : StoreState} (hs : Applied 0 s) : s = createEmptyState := by
  generalize hzero : (0 : Multiset StoreEvent) = events at hs
  induction hs with
  | empty => rfl
  | event e _ _ => exact absurd hzero.symm (Multiset.cons_ne_zero)
  | snapshot generatedAt _ ih =>
    rw [ih hzero]
    rfl

lemma SameContents.refl (s : StoreState) : SameContents s s := ⟨fun _ => rfl, fun _ => rfl, fun _ => rfl⟩

namespace Host

/-- Where a compaction crashes: with a part of the snapshot written, or with some logs emptied. -/
inductive CompactionCrash
  | writing (cut : ℕ) (inside : Bool)
  | truncating (emptied : Fin 4 → Bool)

variable (h : Host) (p : Process) (generatedAt : ℤ)

/-- What a crash of `compact` leaves. A part of a snapshot holds no event. -/
def crashCompacting : CompactionCrash → Host
  | .writing cut inside =>
    { h with
      disk := { h.disk with snapshot := some (tornText (snapshotText generatedAt p.state) cut inside) }
      process := none
      covered := if cut < (snapshotText generatedAt p.state).length then 0 else p.applied }
  | .truncating emptied =>
    { h with
      disk :=
        { h.disk with
          snapshot := some (snapshotText generatedAt p.state)
          log := fun source => if emptied source then [] else h.disk.log source }
      process := none
      covered := p.applied }

/-- The next start gives the same contents, from the same events. -/
def Reconstructs : Prop :=
  ∃ q, h.boot.process = some q ∧ SameContents q.state p.state ∧ q.applied = p.applied

/-- A start now would give the same contents. -/
def Restarts : Prop := ∃ s, load h.disk = some s ∧ SameContents s p.state

def NoEvents (source : Fin 4) : Prop := loadReplayEvents (h.disk.log source) source = some []

/-- The crashes that lose and repeat nothing. -/
def Harmless : CompactionCrash → Prop
  | .writing cut _ =>
    if cut = 0 then h.covered = 0 ∧ h.Restarts p
    else if cut < (snapshotText generatedAt p.state).length then p.applied = 0
    else ∀ source, h.NoEvents source
  | .truncating emptied => ∀ source, emptied source = false → h.NoEvents source

variable {h p}

lemma replayedFrom_eq_zero_iff {text : Text} {source : Fin 4}
    (hread : (loadReplayEvents text source).isSome) :
    replayedFrom text source = 0 ↔ loadReplayEvents text source = some [] := by
  obtain ⟨parsed, hparsed⟩ := Option.isSome_iff_exists.mp hread
  rw [replayedFrom, hparsed]
  simp

/-- The transcripts stay, so a start succeeds when the files load. -/
lemma boot_of_load (hs : h.Stored) (h' : Host) {s : StoreState}
    (htranscript : h'.disk.transcript = h.disk.transcript) (hload : load h'.disk = some s) :
    h'.boot.process = some ⟨s, h'.covered + h'.replayed⟩ := by
  have hstart : initializeStore h'.disk = .running s := by
    apply initializeStore_of_load hload
    intro chatId
    obtain ⟨later, hlater⟩ := hs.readable chatId
    rw [htranscript, hlater]
    rfl
  rw [boot, hstart]

lemma reconstructs_iff {h' : Host} {q : Process} (hq : h'.boot.process = some q) :
    h'.Reconstructs p ↔ SameContents q.state p.state ∧ q.applied = p.applied := by
  unfold Reconstructs
  rw [hq]
  simp

section Crashes

variable {generatedAt : ℤ} {cut : ℕ} {inside : Bool}

/-- With the snapshot written, a start replays the logs that are left over it. -/
lemma reconstructs_truncating (hs : h.Stored) (emptied : Fin 4 → Bool) :
    (h.crashCompacting p generatedAt (.truncating emptied)).Reconstructs p ↔
      ∀ source, emptied source = false → h.NoEvents source := by
  have hlog : ∀ source, (h.crashCompacting p generatedAt (.truncating emptied)).disk.log source =
      if emptied source then [] else h.disk.log source := fun _ => rfl
  have hread : ∀ source, (loadReplayEvents ((h.crashCompacting p generatedAt
      (.truncating emptied)).disk.log source) source).isSome := by
    intro source
    rw [hlog]
    split_ifs
    · exact (written_nil.load source).1
    · exact hs.read source
  have hsum := replayed_eq_sum hread
  obtain ⟨parsed, hparsed, hevents⟩ := loadAllReplayEvents_of_logs hread
  have hload : load (h.crashCompacting p generatedAt (.truncating emptied)).disk =
      some (replayEvents (createSnapshot generatedAt p.state).state parsed) := by
    have hsnapshot := loadSnapshot_snapshotText generatedAt p.state
    unfold load
    rw [hparsed]
    exact congrArg (Option.bind · _) hsnapshot
  have hnone : (h.crashCompacting p generatedAt (.truncating emptied)).replayed = 0 ↔
      ∀ source, emptied source = false → h.NoEvents source := by
    rw [hsum, Finset.sum_eq_zero_iff]
    constructor
    · intro hzero source hleft
      have hsource := hzero source (Finset.mem_univ _)
      rw [hlog, if_neg (by simp [hleft]), replayedFrom_eq_zero_iff (hs.read source)] at hsource
      exact hsource
    · intro hleft source _
      rw [hlog]
      split_ifs with hemptied
      · exact replayedFrom_nil source
      · rw [replayedFrom_eq_zero_iff (hs.read source)]
        exact hleft source (by simpa using hemptied)
  have hcovered : (h.crashCompacting p generatedAt (.truncating emptied)).covered = p.applied := rfl
  rw [reconstructs_iff (boot_of_load hs (h.crashCompacting p generatedAt (.truncating emptied)) rfl hload),
    hcovered, ← hnone]
  constructor
  · rintro ⟨-, happlied⟩
    exact add_eq_left.mp happlied
  · intro hzero
    have hnil : parsed = [] := by
      rw [hsum, ← hevents] at hzero
      simpa using hzero
    refine ⟨?_, by rw [hzero, add_zero]⟩
    subst hnil
    exact sameContents_snapshot generatedAt p.state

lemma length_snapshotText (s : StoreState) : 0 < (snapshotText generatedAt s).length := by
  obtain ⟨inner, htext⟩ := snapshotText_object generatedAt s
  rw [htext]
  exact Nat.succ_pos _

/-- With the snapshot emptied, the logs are replayed over nothing. -/
lemma reconstructs_blank (hs : h.Stored) (hp : h.process = some p) :
    (h.crashCompacting p generatedAt (.writing 0 inside)).Reconstructs p ↔
      h.covered = 0 ∧ h.Restarts p := by
  obtain ⟨base, parsed, hbase, hparsed, hload, happlied⟩ := hs.load
  obtain ⟨-, haccounted⟩ := hs.process p hp
  obtain ⟨base', hbase', hcoveredBase⟩ := hs.snapshot
  have hblank : tornText (snapshotText generatedAt p.state) 0 inside = [] := by
    obtain ⟨inner, htext⟩ := snapshotText_object generatedAt p.state
    rw [htext]
    cases inside <;> rfl
  have hload' : load (h.crashCompacting p generatedAt (.writing 0 inside)).disk =
      some (replayEvents createEmptyState parsed) := by
    simp only [crashCompacting, hblank, load, hparsed]
    rfl
  have hcovered : (h.crashCompacting p generatedAt (.writing 0 inside)).covered = 0 := by
    simp only [crashCompacting]
    rw [if_pos (length_snapshotText p.state)]
  have hreplayed : (h.crashCompacting p generatedAt (.writing 0 inside)).replayed = h.replayed := rfl
  rw [reconstructs_iff (boot_of_load hs (h.crashCompacting p generatedAt (.writing 0 inside)) rfl hload'),
    hcovered, hreplayed, zero_add, haccounted]
  have hzero : h.replayed = h.covered + h.replayed ↔ h.covered = 0 := by
    rw [eq_comm]
    exact add_eq_right
  have hrestart : h.covered = 0 → (h.Restarts p ↔
      SameContents (replayEvents createEmptyState parsed) p.state) := by
    intro hnone
    rw [hnone] at hcoveredBase
    have hempty := hcoveredBase.eq_empty
    have hsame : base = createEmptyState := by
      rw [hbase, hempty] at hbase'
      exact Option.some.inj hbase'
    unfold Restarts
    rw [hload, hsame]
    simp
  rw [hzero]
  constructor
  · rintro ⟨hsame, hnone⟩
    exact ⟨hnone, (hrestart hnone).mpr hsame⟩
  · rintro ⟨hnone, hrestarts⟩
    exact ⟨(hrestart hnone).mp hrestarts, hnone⟩

/-- A part of a snapshot clears the storage. -/
lemma reconstructs_torn (hs : h.Stored) (hp : h.process = some p) (hcut : 0 < cut)
    (hlength : cut < (snapshotText generatedAt p.state).length) :
    (h.crashCompacting p generatedAt (.writing cut inside)).Reconstructs p ↔ p.applied = 0 := by
  obtain ⟨happlied, -⟩ := hs.process p hp
  have htorn := loadSnapshot_torn generatedAt p.state cut inside hcut hlength
  have hstart : initializeStore (h.crashCompacting p generatedAt (.writing cut inside)).disk =
      .cleared := by
    have hload : load (h.crashCompacting p generatedAt (.writing cut inside)).disk = none := by
      unfold load
      exact congrArg (Option.bind · _) htorn
    rw [initializeStore, hload]
  have hboot : (h.crashCompacting p generatedAt (.writing cut inside)).boot.process =
      some ⟨createEmptyState, 0⟩ := by
    rw [boot, hstart]
  rw [reconstructs_iff hboot]
  constructor
  · rintro ⟨-, hzero⟩
    exact hzero.symm
  · intro hzero
    rw [hzero] at happlied
    refine ⟨?_, hzero.symm⟩
    rw [happlied.eq_empty]
    exact SameContents.refl _

/-- The snapshot is written and no log is emptied yet. -/
lemma crashCompacting_whole (hlength : (snapshotText generatedAt p.state).length ≤ cut) :
    h.crashCompacting p generatedAt (.writing cut inside) =
      h.crashCompacting p generatedAt (.truncating fun _ => false) := by
  have htext : tornText (snapshotText generatedAt p.state) cut inside =
      snapshotText generatedAt p.state := by
    have hnone : (snapshotText generatedAt p.state)[cut]? = none := List.getElem?_eq_none hlength
    simp [tornText, hnone, List.take_of_length_le hlength]
  simp only [crashCompacting, htext, if_neg (Nat.not_lt.mpr hlength)]
  simp

end Crashes

/-- After a crash during a compaction the next start gives back what the store held, from the same
events, exactly when the crash is harmless. -/
theorem compaction_reconstructs (hs : h.Stored) (hp : h.process = some p) (generatedAt : ℤ)
    (crash : CompactionCrash) :
    (h.crashCompacting p generatedAt crash).Reconstructs p ↔ h.Harmless p generatedAt crash := by
  cases crash with
  | truncating emptied => exact reconstructs_truncating hs emptied
  | writing cut inside =>
    simp only [Harmless]
    split_ifs with hzero hlength
    · subst hzero
      exact reconstructs_blank hs hp
    · exact reconstructs_torn hs hp (Nat.pos_of_ne_zero hzero) hlength
    · rw [crashCompacting_whole (Nat.not_lt.mp hlength), reconstructs_truncating hs]
      simp

/-- The snapshot is written and every log is emptied but for the one that holds nothing. -/
theorem compaction_reconstructs_emptied : ∃ p,
    (Transitions.run step fresh [.boot, .append (.project 1 "p" (.opened "Project" .strategy))]).process =
      some p ∧
    ((Transitions.run step fresh [.boot, .append (.project 1 "p" (.opened "Project" .strategy))]).crashCompacting
      p 2 (.truncating fun source => source ≠ 3)).Reconstructs p := by
  obtain ⟨p, hp⟩ := Option.isSome_iff_exists.mp (show (Transitions.run step fresh
    [.boot, .append (.project 1 "p" (.opened "Project" .strategy))]).process.isSome by
      with_unfolding_all decide)
  have hsafe : Transitions.Along step Safe fresh
      [.boot, .append (.project 1 "p" (.opened "Project" .strategy))] := by with_unfolding_all decide
  have hstored := (stored_fresh.step _ hsafe.1).step _ hsafe.2.1
  refine ⟨p, hp, (compaction_reconstructs hstored hp 2 _).mpr ?_⟩
  intro source hleft
  obtain rfl : source = 3 := by simpa using hleft
  rfl

/-- A crash between emptying the log of chats and that of turns: the next start counts the turn again. -/
theorem compaction_repeats : ¬ ∀ calls p generatedAt crash,
    (Transitions.run step fresh calls).process = some p →
      ((Transitions.run step fresh calls).crashCompacting p generatedAt crash).Reconstructs p := by
  intro h
  let calls : List HostCall :=
    [.boot, .append (.chat 1 "c" (.created ⟨"user", by decide⟩ ⟨"request", by decide⟩ none "p" "Chat"
      .claudeDeepseek none)), .append (.turn 2 "c" (.started "turn" "" "prompt" "digest"))]
  have hturns : ((Transitions.run step fresh calls).process.map fun p =>
      ((visibleChat p.state "c").map ChatRecord.turnCount,
        ((Transitions.run step fresh calls).crashCompacting p 3 (.truncating (· = 1))).boot.process.map
          fun q => (visibleChat q.state "c").map ChatRecord.turnCount)) =
      some (some (some 1), some (some (some 2))) := by
    decide +kernel
  obtain ⟨p, hp, hcounts⟩ := Option.map_eq_some_iff.mp hturns
  obtain ⟨q, hq, hsame, -⟩ := h calls p 3 (.truncating (· = 1)) hp
  rw [hq, Option.map_some, Prod.mk.injEq, Option.some.injEq, hsame.chats] at hcounts
  rw [hcounts.1] at hcounts
  exact absurd hcounts.2 (by decide)

end Host

end TradeFramework.EventStore
