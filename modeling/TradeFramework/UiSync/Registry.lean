import TradeFramework.UiSync.Hub
import TradeFramework.Library.Transitions

/-!
# The tab registry

A tab is connected exactly while the socket it names is open and registered under it. The registry
keeps this as long as no socket registers a second tab while it still holds the first.
-/

namespace TradeFramework.UiSync

open Raising (raiseIf)
open Transitions (Along run)

namespace UiSyncHub

variable {hub hub' : UiSyncHub} {socket : SocketId} {tabId : String} {tab tab' : InternalTab}

section Seats

/-- What a tab says about its connection. -/
def seat (tab : InternalTab) : Option SocketId × String × Bool :=
  (tab.socket, tab.tabId, tab.connected)

/-- Two hubs with the same sockets, registrations and connections of the tabs. -/
structure SameRegistry (hub hub' : UiSyncHub) : Prop where
  sockets : hub'.sockets = hub.sockets
  socketTab : hub'.socketTab = hub.socketTab
  seats : ∀ tabId, (hub'.tabs.lookup tabId).map seat = (hub.tabs.lookup tabId).map seat

lemma SameRegistry.refl (hub : UiSyncHub) : SameRegistry hub hub := ⟨rfl, rfl, fun _ => rfl⟩

lemma SameRegistry.trans {mid : UiSyncHub} (h : SameRegistry hub mid) (h' : SameRegistry mid hub') :
    SameRegistry hub hub' :=
  ⟨h'.sockets.trans h.sockets, h'.socketTab.trans h.socketTab,
    fun tabId => (h'.seats tabId).trans (h.seats tabId)⟩

lemma sameRegistry_setTab (htab : hub.tabs.lookup tabId = some tab) (hseat : seat tab' = seat tab) :
    SameRegistry hub (hub.setTab tabId tab') := by
  refine ⟨rfl, rfl, fun other => ?_⟩
  change ((Dict.set hub.tabs tabId tab').lookup other).map seat = _
  rw [Dict.lookup_set]
  by_cases hother : other = tabId
  · simp [hother, htab, hseat]
  · simp [hother]

lemma seat_interact (tab : InternalTab) (now : ℤ) : seat (interact tab now) = seat tab := by
  unfold interact
  split_ifs <;> rfl

lemma seat_updateTab {command : UiClientCommand} {now : ℤ}
    (h : updateTab tab command now = .ok tab') : seat tab' = seat tab := by
  unfold updateTab at h
  cases command with
  | presenceUpdate visible focused interacted =>
    simp only [Raising.bind_eq_ok] at h
    obtain ⟨visible', -, focused', -, h⟩ := h
    split at h
    · cases h
      rfl
    · cases h
      rfl
    · cases h
      rfl
    · cases h
  | contextReplace context =>
    simp only [Raising.bind_eq_ok, Raising.pure_eq_ok] at h
    obtain ⟨-, -, context', -, rfl⟩ := h
    exact seat_interact _ now
  | documentOpen document =>
    simp only [Raising.bind_eq_ok, Raising.pure_eq_ok] at h
    obtain ⟨-, -, document', -, rfl⟩ := h
    rfl
  | documentUpdate document baseRevision =>
    simp only [Raising.bind_eq_ok] at h
    obtain ⟨-, -, document', -, h⟩ := h
    split at h
    · cases h
    · simp only [Raising.bind_eq_ok, Raising.pure_eq_ok] at h
      obtain ⟨base, -, -, -, rfl⟩ := h
      exact seat_interact _ now
  | documentClose documentId =>
    simp only [Raising.bind_eq_ok, Raising.pure_eq_ok] at h
    obtain ⟨documentId', -, rfl⟩ := h
    rfl
  | register | ping | documentSnapshotRespond | documentPatchRespond | resourceChanged
  | operationChanged =>
    cases h
    rfl

lemma sameRegistry_completePending (operationId : String) (pending : PendingDocumentRequest)
    (result : OperationResult) : SameRegistry hub (hub.completePending operationId pending result) :=
  ⟨rfl, rfl, fun _ => rfl⟩

lemma sameRegistry_rejectPending (operationId : String) (pending : PendingDocumentRequest)
    (error : UiSyncError) : SameRegistry hub (hub.rejectPending operationId pending error) :=
  ⟨rfl, rfl, fun _ => rfl⟩

lemma sameRegistry_bump : SameRegistry hub hub.bump := ⟨rfl, rfl, fun _ => rfl⟩

lemma sameRegistry_snapshotResponse {operationId documentId : String}
    {revision contentDigest content errorCode : JsValue}
    (h : hub.resolveSnapshotResponse tab operationId documentId revision contentDigest content
      errorCode = .ok hub') : SameRegistry hub hub' := by
  unfold resolveSnapshotResponse at h
  simp only [Raising.bind_eq_ok] at h
  obtain ⟨pending, -, h⟩ := h
  split_ifs at h
  · simp only [Raising.bind_eq_ok, Raising.pure_eq_ok] at h
    obtain ⟨code, -, rfl⟩ := h
    apply sameRegistry_rejectPending
  · simp only [Raising.bind_eq_ok, Raising.pure_eq_ok] at h
    obtain ⟨revision', -, digest, -, content', -, rfl⟩ := h
    apply sameRegistry_completePending

lemma sameRegistry_patchResponse (htab : hub.tabs.lookup tabId = some tab)
    {operationId documentId : String} {status : PatchStatus}
    {revision savedRevision contentDigest dirty errorCode message : JsValue}
    (h : hub.resolvePatchResponse tabId tab operationId documentId status revision savedRevision
      contentDigest dirty errorCode message = .ok hub') : SameRegistry hub hub' := by
  unfold resolvePatchResponse at h
  simp only [Raising.bind_eq_ok] at h
  obtain ⟨pending, -, h⟩ := h
  split_ifs at h
  · simp only [Raising.bind_eq_ok, Raising.pure_eq_ok] at h
    obtain ⟨error, -, rfl⟩ := h
    apply sameRegistry_rejectPending
  · simp only [Raising.bind_eq_ok] at h
    obtain ⟨revision', -, saved, -, digest, -, h⟩ := h
    split at h
    · split_ifs at h
      · split at h
        · cases h
          apply sameRegistry_rejectPending
        · cases h
          refine ((sameRegistry_setTab htab ?_).trans (sameRegistry_completePending _ _ _)).trans
            sameRegistry_bump
          rfl
      · cases h
        apply sameRegistry_rejectPending
    · cases h
      apply sameRegistry_rejectPending

variable {dateParse : String → Option ℤ}

lemma sameRegistry_tabCommand (htab : hub.tabs.lookup tabId = some tab) {command : UiClientCommand}
    {now : ℤ} (h : hub.tabCommand dateParse tabId tab command now = .ok hub') :
    SameRegistry hub hub' := by
  have hupdate : ∀ {updated : InternalTab}, updateTab tab command now = .ok updated →
      SameRegistry hub (hub.setTab tabId updated).bump := fun hok =>
    (sameRegistry_setTab htab (seat_updateTab hok)).trans sameRegistry_bump
  cases command with
  | register | ping =>
    cases h
    exact .refl hub
  | presenceUpdate | contextReplace | documentOpen | documentUpdate | documentClose =>
    simp only [tabCommand, Raising.bind_eq_ok, Raising.pure_eq_ok] at h
    obtain ⟨updated, hok, rfl⟩ := h
    exact hupdate hok
  | documentSnapshotRespond => exact sameRegistry_snapshotResponse h
  | documentPatchRespond => exact sameRegistry_patchResponse htab h
  | resourceChanged change =>
    simp only [tabCommand, UiSyncHub.resourceChanged, Raising.bind_eq_ok] at h
    obtain ⟨-, -, change', -, h⟩ := h
    split_ifs at h
    · cases h
      exact .refl hub
    · cases h
      constructor <;> simp only [bump, implies_true]
  | operationChanged operation =>
    simp only [tabCommand, UiSyncHub.operationChanged, Raising.bind_eq_ok, Raising.pure_eq_ok] at h
    obtain ⟨-, -, operation', -, -, -, rfl⟩ := h
    constructor <;> simp only [bump, implies_true]

lemma sameRegistry_dispatch {kind : RequestKind} {operationId documentId : String}
    {signature : Signature} {target : InternalTab} {outcome : UiSyncHub × Reply}
    (h : hub.dispatchDocumentRequest kind operationId documentId signature target = .ok outcome) :
    SameRegistry hub outcome.1 := by
  simp only [dispatchDocumentRequest, Raising.bind_eq_ok, Raising.pure_eq_ok] at h
  obtain ⟨-, -, -, -, rfl⟩ := h
  exact ⟨rfl, rfl, fun _ => rfl⟩

lemma sameRegistry_snapshotRequest {operationId documentId : String} {includeContent : Bool}
    {outcome : UiSyncHub × Reply}
    (h : hub.requestDocumentSnapshot operationId documentId includeContent = .ok outcome) :
    SameRegistry hub outcome.1 := by
  simp only [requestDocumentSnapshot, Raising.bind_eq_ok] at h
  obtain ⟨-, -, completed, -, h⟩ := h
  cases completed with
  | some result =>
    cases h
    exact .refl hub
  | none =>
    simp only [Raising.bind_eq_ok] at h
    obtain ⟨target, -, h⟩ := h
    exact sameRegistry_dispatch h

lemma sameRegistry_patchRequest {operationId documentId : String} {baseRevision : ℕ}
    {baseDigest : String} {patch : JsValue} {save : Bool} {outcome : UiSyncHub × Reply}
    (h : hub.requestDocumentPatch operationId documentId baseRevision baseDigest patch save =
      .ok outcome) : SameRegistry hub outcome.1 := by
  simp only [requestDocumentPatch, Raising.bind_eq_ok] at h
  obtain ⟨-, -, textPatch, -, completed, -, h⟩ := h
  cases completed with
  | some result =>
    cases h
    exact .refl hub
  | none =>
    simp only [Raising.bind_eq_ok] at h
    obtain ⟨target, -, -, -, -, -, h⟩ := h
    exact sameRegistry_dispatch h

lemma sameRegistry_orKeep {ε : Type} {result : Except ε UiSyncHub}
    (h : ∀ next, result = .ok next → SameRegistry hub next) : SameRegistry hub (hub.orKeep result) := by
  cases result with
  | ok next => exact h next rfl
  | error e => exact .refl hub

lemma sameRegistry_timedOut (timer : ℕ) : SameRegistry hub (hub.requestTimedOut timer) := by
  unfold requestTimedOut
  split
  · exact .refl hub
  · exact ⟨rfl, rfl, fun _ => rfl⟩

lemma ownTab_eq_some : hub.ownTab socket = some (tabId, tab) ↔
    hub.socketTab.lookup socket = some tabId ∧ hub.tabs.lookup tabId = some tab ∧
      tab.socket = some socket := by
  unfold ownTab
  constructor
  · intro h
    split at h
    · cases h
    · split at h
      · split_ifs at h with hsocket
        cases h
        exact ⟨by assumption, by assumption, hsocket⟩
      · cases h
  · rintro ⟨hregistered, htab, hsocket⟩
    simp [hregistered, htab, hsocket]

lemma requireRegistered_eq_ok (h : hub.requireRegistered socket = .ok (tabId, tab)) :
    hub.ownTab socket = some (tabId, tab) ∧ tab.connected = true := by
  unfold requireRegistered at h
  split at h
  · next id own hown =>
    split_ifs at h with hconnected
    cases h
    exact ⟨hown, hconnected⟩
  · cases h

/-- A command that is no registration keeps the registry. -/
lemma sameRegistry_command {command : UiClientCommand} {now : ℤ}
    (hcommand : ∀ id kind requested, command ≠ .register id kind requested) :
    SameRegistry hub (hub.handleCommand dateParse socket command now) := by
  unfold handleCommand
  split
  · next id kind requested => exact absurd rfl (hcommand id kind requested)
  · split
    · exact .refl hub
    · next id own hown =>
      obtain ⟨-, htab, -⟩ := ownTab_eq_some.mp (requireRegistered_eq_ok hown).1
      have hseen : SameRegistry hub (hub.setTab id { own with lastSeenAt := now }) :=
        sameRegistry_setTab htab rfl
      refine hseen.trans (sameRegistry_orKeep fun next hnext => sameRegistry_tabCommand ?_ hnext)
      exact Dict.lookup_set_self hub.tabs id _

end Seats

section Invariant

/-- A tab whose socket is open and registered under it. -/
def Live (hub : UiSyncHub) (tab : InternalTab) : Prop :=
  ∃ socket, tab.socket = some socket ∧ socket ∈ hub.sockets ∧
    hub.socketTab.lookup socket = some tab.tabId

/-- The registry says what the sockets say. -/
structure RegistrySound (hub : UiSyncHub) : Prop where
  keyed : ∀ tabId tab, hub.tabs.lookup tabId = some tab → tab.tabId = tabId
  connected_iff : ∀ tabId tab, hub.tabs.lookup tabId = some tab →
    (tab.connected = true ↔ hub.Live tab)
  /-- An open socket owns at most one connected tab. -/
  unique : ∀ tabId tab tabId' tab' socket, hub.tabs.lookup tabId = some tab →
    hub.tabs.lookup tabId' = some tab' → tab.connected = true → tab'.connected = true →
    tab.socket = some socket → tab'.socket = some socket → tabId = tabId'
  /-- No connected tab refers to a closed socket. -/
  open_socket : ∀ tabId tab socket, hub.tabs.lookup tabId = some tab → tab.connected = true →
    tab.socket = some socket → socket ∈ hub.sockets
  removable : ∀ tabId tab, hub.tabs.lookup tabId = some tab → ¬hub.Live tab →
    ∀ now, tab.lastSeenAt + hub.staleTtlMs ≤ now → (hub.pruneStaleTabs now).tabs.lookup tabId = none
  active : ∀ tab, hub.activeTab = some tab → hub.Live tab
  target : ∀ documentId capability tab, hub.resolveDocumentTarget documentId capability = .ok tab →
    hub.Live tab

/-- The part of the invariant the rest follows from. -/
structure Registered (hub : UiSyncHub) : Prop where
  keyed : ∀ tabId tab, hub.tabs.lookup tabId = some tab → tab.tabId = tabId
  connected_iff : ∀ tabId tab, hub.tabs.lookup tabId = some tab →
    (tab.connected = true ↔ hub.Live tab)

lemma mem_tabValues : tab ∈ hub.tabValues ↔ ∃ tabId, hub.tabs.lookup tabId = some tab := by
  unfold tabValues
  rw [List.mem_map]
  constructor
  · rintro ⟨⟨tabId, found⟩, hmem, rfl⟩
    exact ⟨tabId, Dict.mem_items.mp hmem⟩
  · rintro ⟨tabId, hfound⟩
    exact ⟨(tabId, tab), Dict.mem_items.mpr hfound, rfl⟩

lemma pruneStaleTabs_tabs (hub : UiSyncHub) (now : ℤ) : (hub.pruneStaleTabs now).tabs =
    (Dict.items hub.tabs).filter fun entry => !hub.isStale now entry.2 := by
  unfold pruneStaleTabs
  dsimp only
  split_ifs <;> rfl

/-- The sweep removes the stale tabs and leaves the others. -/
lemma lookup_pruneStaleTabs (now : ℤ) :
    (hub.pruneStaleTabs now).tabs.lookup tabId = some tab ↔
      hub.tabs.lookup tabId = some tab ∧ hub.isStale now tab = false := by
  rw [pruneStaleTabs_tabs]
  have hnodup : (((Dict.items hub.tabs).filter fun entry => !hub.isStale now entry.2).map
      Prod.fst).Nodup :=
    (Dict.nodup_keys hub.tabs).sublist (List.filter_sublist.map Prod.fst)
  rw [← Dict.mem_items, Dict.items_of_nodup hnodup, List.mem_filter, Dict.mem_items]
  simp

/-- Every tab the hub chooses is connected. -/
lemma connected_of_target {documentId : String} {capability : UiCapability}
    (h : hub.resolveDocumentTarget documentId capability = .ok tab) :
    tab ∈ hub.tabValues ∧ tab.connected = true := by
  have hcandidate : ∀ chosen ∈ hub.documentCandidates documentId capability,
      chosen ∈ hub.tabValues ∧ chosen.connected = true := by
    intro chosen hchosen
    have hmem := List.mem_filter.mp hchosen
    simp only [Bool.and_eq_true] at hmem
    exact ⟨hmem.1, hmem.2.1.1.1⟩
  simp only [resolveDocumentTarget, Raising.bind_eq_ok] at h
  obtain ⟨-, -, h⟩ := h
  apply hcandidate
  split at h
  · cases h
  · next only honly =>
    cases h
    have hmem : tab ∈ (hub.documentCandidates documentId capability).filter
        fun tab => (tab.documents.lookup documentId).any (·.dirty) := by
      rw [honly]
      simp
    exact (List.mem_filter.mp hmem).1
  · split at h
    · next first rest hfirst =>
      cases h
      apply (List.mem_insertionSort prefers).mp
      rw [hfirst]
      simp
    · cases h

lemma Registered.sound (h : Registered hub) : RegistrySound hub where
  keyed := h.keyed
  connected_iff := h.connected_iff
  unique := by
    intro tabId tab tabId' tab' socket htab htab' hconnected hconnected' hsocket hsocket'
    obtain ⟨live, hlive, -, hregistered⟩ := (h.connected_iff tabId tab htab).mp hconnected
    obtain ⟨live', hlive', -, hregistered'⟩ := (h.connected_iff tabId' tab' htab').mp hconnected'
    have hsame : live = live' := by
      apply Option.some.inj
      rw [← hlive, ← hlive', hsocket, hsocket']
    have hids : tab.tabId = tab'.tabId := by
      apply Option.some.inj
      rw [← hregistered, ← hregistered', hsame]
    rw [← h.keyed tabId tab htab, ← h.keyed tabId' tab' htab', hids]
  open_socket := by
    intro tabId tab socket htab hconnected hsocket
    obtain ⟨live, hlive, hopen, -⟩ := (h.connected_iff tabId tab htab).mp hconnected
    have hsame : live = socket := Option.some.inj (hlive.symm.trans hsocket)
    rwa [hsame] at hopen
  removable := by
    intro tabId tab htab hdead now hlate
    have hdisconnected : tab.connected = false := by
      by_contra hconnected
      exact hdead ((h.connected_iff tabId tab htab).mp (by simpa using hconnected))
    have hstale : hub.isStale now tab = true := by
      have hcutoff : tab.lastSeenAt ≤ now - hub.staleTtlMs := by omega
      simp [isStale, hdisconnected, hcutoff]
    by_contra hkept
    obtain ⟨kept, hkept⟩ := Option.ne_none_iff_exists'.mp hkept
    obtain ⟨hfound, hfresh⟩ := (lookup_pruneStaleTabs now).mp hkept
    rw [htab] at hfound
    cases hfound
    simp [hstale] at hfresh
  active := by
    intro tab hactive
    obtain ⟨hchosen, -⟩ := List.find?_eq_some_iff_append.mp hactive
    simp only [Bool.and_eq_true] at hchosen
    have hsorted := List.mem_of_find?_eq_some hactive
    have hvalue : tab ∈ hub.tabValues := by rwa [List.mem_insertionSort] at hsorted
    obtain ⟨tabId, htab⟩ := mem_tabValues.mp hvalue
    exact (h.connected_iff tabId tab htab).mp hchosen.1
  target := by
    intro documentId capability tab htarget
    obtain ⟨hvalue, hconnected⟩ := connected_of_target htarget
    obtain ⟨tabId, htab⟩ := mem_tabValues.mp hvalue
    exact (h.connected_iff tabId tab htab).mp hconnected

lemma RegistrySound.registered (h : RegistrySound hub) : Registered hub :=
  ⟨h.keyed, h.connected_iff⟩

/-- The invariant speaks only of the sockets, the registrations and the seats. -/
lemma Registered.of_same (h : Registered hub) (hsame : SameRegistry hub hub') : Registered hub' := by
  have hseat : ∀ tabId tab, hub'.tabs.lookup tabId = some tab →
      ∃ old, hub.tabs.lookup tabId = some old ∧ seat old = seat tab := by
    intro tabId tab htab
    have hseats := hsame.seats tabId
    rw [htab] at hseats
    exact Option.map_eq_some_iff.mp hseats.symm
  constructor
  · intro tabId tab htab
    obtain ⟨old, hold, heq⟩ := hseat tabId tab htab
    simp only [seat, Prod.mk.injEq] at heq
    rw [← heq.2.1]
    exact h.keyed tabId old hold
  · intro tabId tab htab
    obtain ⟨old, hold, heq⟩ := hseat tabId tab htab
    simp only [seat, Prod.mk.injEq] at heq
    have hiff := h.connected_iff tabId old hold
    unfold Live at hiff ⊢
    rwa [heq.1, heq.2.1, heq.2.2, ← hsame.sockets, ← hsame.socketTab] at hiff

end Invariant

section Steps

variable {dateParse : String → Option ℤ}

/-- A socket opens as a new connection, and only an open socket is heard. -/
def Possible (hub : UiSyncHub) : Event → Prop
  | .opened socket => socket ∉ hub.sockets ∧ hub.socketTab.lookup socket = none
  | .command socket .. => socket ∈ hub.sockets
  | .disposed => False
  | .closed .. | .sweep _ | .snapshotRequest .. | .patchRequest .. | .timer _ => True

/-- The tab a socket registers. -/
def registration : Event → Option (SocketId × String)
  | .command socket (.register tabId clientKind requested) _ =>
    if (checkRegistration tabId clientKind requested).toBool then some (socket, tabId) else none
  | _ => none

/-- A socket that still holds a connected tab registers no other one. -/
def KeepsItsTab (hub : UiSyncHub) (event : Event) : Prop :=
  ∀ new ∈ registration event, ∀ held ∈ hub.ownTab new.1, held.2.connected = true → held.1 = new.2

instance Possible.decidable (hub : UiSyncHub) : (event : Event) → Decidable (Possible hub event)
  | .opened socket =>
    inferInstanceAs (Decidable (socket ∉ hub.sockets ∧ hub.socketTab.lookup socket = none))
  | .command socket .. => inferInstanceAs (Decidable (socket ∈ hub.sockets))
  | .disposed => inferInstanceAs (Decidable False)
  | .closed .. | .sweep _ | .snapshotRequest .. | .patchRequest .. | .timer _ =>
    inferInstanceAs (Decidable True)

instance (hub : UiSyncHub) (event : Event) : Decidable (KeepsItsTab hub event) :=
  inferInstanceAs (Decidable (∀ new ∈ registration event, ∀ held ∈ hub.ownTab new.1,
    held.2.connected = true → held.1 = new.2))

lemma Registered.opened (h : Registered hub) (hnew : hub.socketTab.lookup socket = none) :
    Registered (hub.handleOpen socket) := by
  refine ⟨h.keyed, fun tabId tab htab => (h.connected_iff tabId tab htab).trans ?_⟩
  unfold Live handleOpen
  constructor
  · rintro ⟨live, hlive, hopen, hregistered⟩
    exact ⟨live, hlive, List.mem_insert_of_mem hopen, hregistered⟩
  · rintro ⟨live, hlive, hopen, hregistered⟩
    rcases List.mem_insert_iff.mp hopen with rfl | hopen
    · rw [hnew] at hregistered
      cases hregistered
    · exact ⟨live, hlive, hopen, hregistered⟩

lemma Registered.closed (h : Registered hub) (now : ℤ) : Registered (hub.handleClose socket now) := by
  let rest : UiSyncHub := { hub with sockets := hub.sockets.filter (· ≠ socket) }
  -- Of the tabs that are not the socket's own, none loses its connection.
  have hrest : ∀ tabId tab, hub.tabs.lookup tabId = some tab → rest.ownTab socket ≠ some (tabId, tab) →
      (tab.connected = true ↔ rest.Live tab) := by
    intro tabId tab htab hother
    rw [h.connected_iff tabId tab htab]
    constructor
    · rintro ⟨live, hlive, hopen, hregistered⟩
      refine ⟨live, hlive, List.mem_filter.mpr ⟨hopen, ?_⟩, hregistered⟩
      have hne : live ≠ socket := by
        rintro rfl
        rw [h.keyed tabId tab htab] at hregistered
        exact hother (ownTab_eq_some.mpr ⟨hregistered, htab, hlive⟩)
      simpa using hne
    · rintro ⟨live, hlive, hopen, hregistered⟩
      exact ⟨live, hlive, (List.mem_filter.mp hopen).1, hregistered⟩
  unfold handleClose
  dsimp only
  split
  case h_1 hown =>
    change rest.ownTab socket = none at hown
    refine ⟨h.keyed, fun tabId tab htab => hrest tabId tab htab ?_⟩
    simp [hown]
  case h_2 ownId own hown =>
    change rest.ownTab socket = some (ownId, own) at hown
    obtain ⟨-, howned, -⟩ := ownTab_eq_some.mp hown
    have hlookup : ∀ tabId tab, (Dict.set hub.tabs ownId { own with
        socket := none, connected := false, focused := false, visible := false,
        lastSeenAt := now }).lookup tabId = some tab →
        (tabId = ownId ∧ tab.tabId = own.tabId ∧ tab.socket = none ∧ tab.connected = false) ∨
          (tabId ≠ ownId ∧ hub.tabs.lookup tabId = some tab) := by
      intro tabId tab htab
      rw [Dict.lookup_set] at htab
      by_cases hid : tabId = ownId
      · rw [if_pos hid] at htab
        cases htab
        exact .inl ⟨hid, rfl, rfl, rfl⟩
      · rw [if_neg hid] at htab
        exact .inr ⟨hid, htab⟩
    constructor
    · intro tabId tab htab
      rcases hlookup tabId tab htab with ⟨rfl, hkey, -, -⟩ | ⟨-, htab⟩
      · rw [hkey]
        exact h.keyed tabId own howned
      · exact h.keyed tabId tab htab
    · intro tabId tab htab
      rcases hlookup tabId tab htab with ⟨-, -, hsocket, hconnected⟩ | ⟨hid, htab⟩
      · unfold Live
        simp [hsocket, hconnected]
      · apply hrest tabId tab htab
        intro heq
        rw [hown] at heq
        cases heq
        exact hid rfl

lemma Registered.swept (h : Registered hub) (now : ℤ) : Registered (hub.pruneStaleTabs now) := by
  have hlive : ∀ tab, (hub.pruneStaleTabs now).Live tab ↔ hub.Live tab := by
    intro tab
    unfold Live pruneStaleTabs
    dsimp only
    split_ifs <;> rfl
  constructor
  · intro tabId tab htab
    exact h.keyed tabId tab ((lookup_pruneStaleTabs now).mp htab).1
  · intro tabId tab htab
    rw [hlive]
    exact h.connected_iff tabId tab ((lookup_pruneStaleTabs now).mp htab).1

/-- What a registration leaves: the tab is connected to the socket, and the other tabs are as they
were. -/
lemma register_eq_ok {clientKind : String} {requested : List String} {now : ℤ}
    (h : hub.register socket tabId clientKind requested now = .ok hub') :
    hub'.sockets = hub.sockets ∧ hub'.socketTab = Dict.set hub.socketTab socket tabId ∧
      (∀ other, other ≠ tabId → hub'.tabs.lookup other = hub.tabs.lookup other) ∧
      ∃ tab, hub'.tabs.lookup tabId = some tab ∧ tab.socket = some socket ∧ tab.connected = true ∧
        ((∀ old, hub.tabs.lookup tabId = some old → old.tabId = tabId) → tab.tabId = tabId) := by
  simp only [register, Raising.bind_eq_ok, Raising.pure_eq_ok] at h
  obtain ⟨⟨kind, granted⟩, -, rfl⟩ := h
  refine ⟨rfl, rfl, fun other hother => ?_, _, Dict.lookup_set_self _ _ _, rfl, rfl, ?_⟩
  · exact Dict.lookup_set_ne _ _ hother
  · intro hkeyed
    cases hold : hub.tabs.lookup tabId with
    | none => rfl
    | some old => exact hkeyed old hold

lemma Registered.register (h : Registered hub) {clientKind : String} {requested : List String}
    {now : ℤ} (hopen : socket ∈ hub.sockets)
    (hregister : hub.register socket tabId clientKind requested now = .ok hub')
    (hheld : ∀ held tab, hub.ownTab socket = some (held, tab) → tab.connected = true → held = tabId) :
    Registered hub' := by
  obtain ⟨hsockets, hregistered, hothers, new, hnew, hsocket, hconnected, hkey⟩ :=
    register_eq_ok hregister
  have hnewId := hkey (h.keyed tabId)
  constructor
  · intro other tab htab
    by_cases hother : other = tabId
    · subst hother
      rw [hnew] at htab
      cases htab
      exact hnewId
    · rw [hothers other hother] at htab
      exact h.keyed other tab htab
  · intro other tab htab
    by_cases hother : other = tabId
    · subst hother
      rw [hnew] at htab
      cases htab
      rw [hconnected]
      simp only [true_iff]
      refine ⟨socket, hsocket, hsockets ▸ hopen, ?_⟩
      rw [hregistered, hnewId, Dict.lookup_set_self]
    · rw [hothers other hother] at htab
      rw [h.connected_iff other tab htab]
      have htabId := h.keyed other tab htab
      unfold Live
      rw [hsockets, hregistered, htabId]
      constructor
      · rintro ⟨live, hlive, hliveOpen, hliveRegistered⟩
        refine ⟨live, hlive, hliveOpen, ?_⟩
        have hne : live ≠ socket := by
          rintro rfl
          have hown := ownTab_eq_some.mpr ⟨hliveRegistered, htab, hlive⟩
          have hliveTab : hub.Live tab := ⟨live, hlive, hliveOpen, by rw [htabId, hliveRegistered]⟩
          exact hother (hheld other tab hown ((h.connected_iff other tab htab).mpr hliveTab))
        rwa [Dict.lookup_set_ne _ _ hne]
      · rintro ⟨live, hlive, hliveOpen, hliveRegistered⟩
        refine ⟨live, hlive, hliveOpen, ?_⟩
        rw [Dict.lookup_set] at hliveRegistered
        split_ifs at hliveRegistered with hne
        · cases hliveRegistered
          exact absurd rfl hother
        · exact hliveRegistered

/-- A registration under a second tab breaks the registry. -/
lemma Registered.register_second (h : Registered hub) {clientKind : String}
    {requested : List String} {now : ℤ}
    (hregister : hub.register socket tabId clientKind requested now = .ok hub') {held : String}
    (hown : hub.ownTab socket = some (held, tab)) (hconnected : tab.connected = true)
    (hother : held ≠ tabId) : ¬Registered hub' := by
  intro h'
  obtain ⟨-, hregistered, hothers, -⟩ := register_eq_ok hregister
  obtain ⟨-, htab, hsocket⟩ := ownTab_eq_some.mp hown
  have htab' : hub'.tabs.lookup held = some tab := (hothers held hother).trans htab
  obtain ⟨live, hlive, -, hlookup⟩ := (h'.connected_iff held tab htab').mp hconnected
  have hsame : live = socket := Option.some.inj (hlive.symm.trans hsocket)
  rw [hregistered, hsame, Dict.lookup_set_self, h.keyed held tab htab] at hlookup
  exact hother (Option.some.inj hlookup).symm

/-- The registration of an event, when the hub accepts it. -/
lemma register_ok {clientKind : String} {requested : List String} {now : ℤ}
    (h : (checkRegistration tabId clientKind requested).toBool = true) :
    ∃ hub', hub.register socket tabId clientKind requested now = .ok hub' := by
  obtain ⟨⟨kind, granted⟩, hcheck⟩ := Raising.exists_ok_of_toBool h
  exact ⟨_, by simp only [UiSyncHub.register, hcheck, Raising.ok_bind]; rfl⟩

/-- One event keeps the registry exactly when no socket takes a second tab. -/
theorem registered_step (h : Registered hub) {event : Event} (hpossible : Possible hub event) :
    Registered (hub.step dateParse event) ↔ KeepsItsTab hub event := by
  have hkeep : registration event = none → KeepsItsTab hub event := by
    intro hnone new hregistration
    rw [hnone] at hregistration
    cases hregistration
  have hsame : SameRegistry hub (hub.step dateParse event) → registration event = none →
      (Registered (hub.step dateParse event) ↔ KeepsItsTab hub event) := fun hsame hnone =>
    iff_of_true (h.of_same hsame) (hkeep hnone)
  cases event with
  | opened socket => exact iff_of_true (h.opened hpossible.2) (hkeep rfl)
  | closed socket now => exact iff_of_true (h.closed now) (hkeep rfl)
  | sweep now => exact iff_of_true (h.swept now) (hkeep rfl)
  | disposed => exact hpossible.elim
  | timer timer => exact hsame (sameRegistry_timedOut timer) rfl
  | snapshotRequest operationId documentId includeContent =>
    refine hsame (sameRegistry_orKeep fun next hnext => ?_) rfl
    obtain ⟨outcome, houtcome, rfl⟩ := Raising.map_eq_ok.mp hnext
    exact sameRegistry_snapshotRequest houtcome
  | patchRequest operationId documentId baseRevision baseDigest patch save =>
    refine hsame (sameRegistry_orKeep fun next hnext => ?_) rfl
    obtain ⟨outcome, houtcome, rfl⟩ := Raising.map_eq_ok.mp hnext
    exact sameRegistry_patchRequest houtcome
  | command socket command now =>
    by_cases hregister : ∃ tabId clientKind requested, command = .register tabId clientKind requested
    · obtain ⟨tabId, clientKind, requested, rfl⟩ := hregister
      by_cases hvalid : (checkRegistration tabId clientKind requested).toBool = true
      · have hregistration :
            registration (.command socket (.register tabId clientKind requested) now) =
              some (socket, tabId) := if_pos hvalid
        obtain ⟨next, hnext⟩ : ∃ next, hub.register socket tabId clientKind requested now = .ok next :=
          register_ok hvalid
        have hstep : hub.step dateParse (.command socket (.register tabId clientKind requested) now) =
            next := by
          simp only [step, handleCommand, hnext]
          rfl
        rw [hstep]
        constructor
        · intro hkept new hnew held hown hconnected
          rw [hregistration] at hnew
          cases hnew
          by_contra hother
          exact h.register_second hnext hown hconnected hother hkept
        · intro hkeeps
          refine h.register hpossible hnext fun held tab hown hconnected => ?_
          exact hkeeps (socket, tabId) hregistration (held, tab) hown hconnected
      · refine hsame (sameRegistry_orKeep fun next hnext => ?_) (if_neg hvalid)
        simp only [UiSyncHub.register, Raising.bind_eq_ok] at hnext
        obtain ⟨checked, hchecked, -⟩ := hnext
        exact absurd (by rw [hchecked]; rfl) hvalid
    · push Not at hregister
      refine hsame (sameRegistry_command hregister) ?_
      cases command with
      | register tabId clientKind requested => exact absurd rfl (hregister _ _ _)
      | _ => rfl

end Steps

section Runs

lemma registered_fresh (staleTtlMs : ℤ) : Registered (fresh staleTtlMs) := by
  constructor <;> simp [fresh]

/-- The registry is sound all along a run exactly when no socket of the run takes a second tab
while it still holds its first. -/
theorem registry_sound (dateParse : String → Option ℤ) (staleTtlMs : ℤ) (events : List Event)
    (hpossible : Along (step dateParse) Possible (fresh staleTtlMs) events) :
    Along (step dateParse) KeepsItsTab (fresh staleTtlMs) events ↔
      ∀ reached, reached <+: events →
        RegistrySound (run (step dateParse) (fresh staleTtlMs) reached) := by
  have hstep : ∀ hub event, Registered hub → Possible hub event →
      (Registered (hub.step dateParse event) ↔ KeepsItsTab hub event) :=
    fun hub event h hpossible => registered_step h hpossible
  rw [Transitions.along_iff_of_possible hstep (registered_fresh staleTtlMs) hpossible]
  constructor
  · intro h reached hreached
    exact (h reached hreached).sound
  · intro h reached hreached
    exact (h reached hreached).registered

/-- A socket opens, registers one tab after another and closes. -/
def registering (tabIds : List String) : List Event :=
  [.opened 0] ++ tabIds.map (fun tabId => .command 0 (.register tabId "engine-spa" ["presence"]) 0) ++
    [.closed 0 1]

/-- Registered again under its own identifier a tab is disconnected when its socket closes. -/
theorem registry_sound_again :
    RegistrySound (run (step fun _ => none) (fresh 45000) (registering ["tab-alpha", "tab-alpha"])) :=
  (registry_sound (fun _ => none) 45000 _ (by with_unfolding_all decide)).mp (by with_unfolding_all decide) _
    List.prefix_rfl

/-- Registered under a second identifier the socket leaves the first tab connected when it closes. -/
theorem registry_twoTabs :
    Along (step fun _ => none) Possible (fresh 45000) (registering ["tab-alpha", "tab-beta1"]) ∧
      ¬RegistrySound
        (run (step fun _ => none) (fresh 45000) (registering ["tab-alpha", "tab-beta1"])) := by
  refine ⟨by with_unfolding_all decide, fun h => ?_⟩
  have htab : ∃ tab, (run (step fun _ => none) (fresh 45000)
      (registering ["tab-alpha", "tab-beta1"])).tabs.lookup "tab-alpha" = some tab ∧
        tab.connected = true ∧ tab.socket = some 0 := by
    exact ⟨_, rfl, rfl, rfl⟩
  obtain ⟨tab, hlookup, hconnected, hsocket⟩ := htab
  have hopen := h.open_socket "tab-alpha" tab 0 hlookup hconnected hsocket
  revert hopen
  with_unfolding_all decide

end Runs

end UiSyncHub

end TradeFramework.UiSync
