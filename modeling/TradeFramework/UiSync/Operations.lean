import TradeFramework.UiSync.Hub
import TradeFramework.Library.Transitions

/-!
# Document operations

The requests an agent sends to an editor, as a ledger: the pending and the completed tables, the
armed timers, the requests that were accepted and how their promises were settled. Every event
moves the ledger in one of five ways, and each of them keeps it consistent.
-/

namespace TradeFramework.UiSync

open Raising (raiseIf)
open Transitions (run)

/-- The accepted request of a pending entry. -/
def PendingDocumentRequest.request (pending : PendingDocumentRequest) (operationId : String) :
    AcceptedRequest :=
  ⟨operationId, pending.kind, pending.tabId, pending.documentId, pending.signature⟩

namespace UiSyncHub

/-- The part of the hub that document operations use. -/
structure Ledger where
  pending : List (String × PendingDocumentRequest) := []
  completed : List (String × CompletedOperation) := []
  timers : List (ℕ × TimerTask) := []
  accepted : List AcceptedRequest := []
  settlements : List (ℕ × Settlement) := []

def ledger (hub : UiSyncHub) : Ledger :=
  ⟨hub.pending, hub.completedOperations, hub.timers, hub.accepted, hub.settlements⟩

namespace Ledger

def dispatch (l : Ledger) (request : AcceptedRequest) : Ledger :=
  { l with
    timers := Dict.set l.timers l.accepted.length ⟨request.operationId, l.accepted.length⟩
    pending := Dict.set l.pending request.operationId
      ⟨request.kind, request.tabId, request.documentId, request.signature, l.accepted.length,
        l.accepted.length⟩
    accepted := l.accepted ++ [request] }

def complete (l : Ledger) (operationId : String) (pending : PendingDocumentRequest)
    (result : OperationResult) : Ledger :=
  { l with
    timers := Dict.erase l.timers pending.timer
    pending := Dict.erase l.pending operationId
    completed := dropOldest completedLimit
      (Dict.set l.completed operationId ⟨pending.signature, result⟩)
    settlements := l.settlements ++ [(pending.promise, .fulfilled result)] }

def reject (l : Ledger) (operationId : String) (pending : PendingDocumentRequest)
    (error : UiSyncError) : Ledger :=
  { l with
    timers := Dict.erase l.timers pending.timer
    pending := Dict.erase l.pending operationId
    settlements := l.settlements ++ [(pending.promise, .rejected error)] }

def timeOut (l : Ledger) (timer : ℕ) (task : TimerTask) (error : UiSyncError) : Ledger :=
  { l with
    timers := Dict.erase l.timers timer
    pending := Dict.erase l.pending task.operationId
    settlements := l.settlements ++ [(task.promise, .rejected error)] }

def interrupt (l : Ledger) (error : UiSyncError) : Ledger :=
  { l with
    timers := l.timers.filter fun timer => l.pending.all fun entry => entry.2.timer ≠ timer.1
    settlements := l.settlements ++ l.pending.map fun entry => (entry.2.promise, .rejected error)
    pending := [] }

/-- What an event may do to the ledger; only an answer to a request completes it. -/
inductive Moves (answers : AcceptedRequest → Prop) (l : Ledger) : Ledger → Prop
  | stay : Moves answers l l
  | dispatch {request : AcceptedRequest} (hidentifier : isIdentifier request.operationId = true)
      (hpending : l.pending.lookup request.operationId = none)
      (hcompleted : l.completed.lookup request.operationId = none) :
      Moves answers l (l.dispatch request)
  | complete {operationId : String} {pending : PendingDocumentRequest} (result : OperationResult)
      (hpending : l.pending.lookup operationId = some pending)
      (hanswers : answers (pending.request operationId)) :
      Moves answers l (l.complete operationId pending result)
  | reject {operationId : String} {pending : PendingDocumentRequest} (error : UiSyncError)
      (hpending : l.pending.lookup operationId = some pending) :
      Moves answers l (l.reject operationId pending error)
  | timeOut {timer : ℕ} {task : TimerTask} (error : UiSyncError)
      (htimer : l.timers.lookup timer = some task) : Moves answers l (l.timeOut timer task error)
  | interrupt (error : UiSyncError) : Moves answers l (l.interrupt error)

/-- The completed operations, in the order of their completion. -/
def completions (l : Ledger) : List (String × CompletedOperation) :=
  l.settlements.filterMap fun entry => match entry.2, l.accepted[entry.1]? with
    | .fulfilled result, some request => some (request.operationId, ⟨request.signature, result⟩)
    | _, _ => none

/-- A request whose promise is not settled. -/
def Outstanding (l : Ledger) (promise : ℕ) (request : AcceptedRequest) : Prop :=
  l.accepted[promise]? = some request ∧ promise ∉ l.settlements.map Prod.fst

section Consistency

/-- The pending table, the completed table, the timers and the promises agree. -/
structure Consistent (l : Ledger) : Prop where
  identifiers : ∀ request ∈ l.accepted, isIdentifier request.operationId = true
  pending_keys : (l.pending.map Prod.fst).Nodup
  pending_accepted : ∀ operationId pending, l.pending.lookup operationId = some pending →
    l.accepted[pending.promise]? = some (pending.request operationId) ∧
      pending.timer = pending.promise ∧
      l.timers.lookup pending.promise = some ⟨operationId, pending.promise⟩
  timer_pending : ∀ timer task, l.timers.lookup timer = some task → ∃ pending,
    l.pending.lookup task.operationId = some pending ∧ pending.promise = timer ∧ task.promise = timer
  settled_once : (l.settlements.map Prod.fst).Nodup
  settled_accepted : ∀ promise ∈ l.settlements.map Prod.fst, promise < l.accepted.length
  outstanding : ∀ promise, promise < l.accepted.length →
    promise ∉ l.settlements.map Prod.fst →
      ∃ operationId pending, l.pending.lookup operationId = some pending ∧ pending.promise = promise
  pending_unsettled : ∀ operationId pending, l.pending.lookup operationId = some pending →
    pending.promise ∉ l.settlements.map Prod.fst
  completed_keys : (l.completed.map Prod.fst).Nodup
  completed_not_pending : ∀ operationId, l.completed.lookup operationId ≠ none →
    l.pending.lookup operationId = none
  completed_eq : l.completed = dropOldest completedLimit l.completions

variable {l l' : Ledger}

lemma consistent_empty : Consistent {} := by
  constructor <;> simp [completions, dropOldest]

/-- A pending entry is the only one of its promise. -/
lemma Consistent.pending_unique (h : l.Consistent) {operationId operationId' : String}
    {pending pending' : PendingDocumentRequest}
    (hpending : l.pending.lookup operationId = some pending)
    (hpending' : l.pending.lookup operationId' = some pending')
    (hsame : pending.promise = pending'.promise) : operationId = operationId' := by
  have haccepted := (h.pending_accepted operationId pending hpending).1
  have haccepted' := (h.pending_accepted operationId' pending' hpending').1
  rw [hsame, haccepted', Option.some.injEq] at haccepted
  exact (congrArg AcceptedRequest.operationId haccepted).symm

/-- Requests and settlements that come later do not change the completions so far. -/
lemma completions_append (h : ∀ promise ∈ l.settlements.map Prod.fst, promise < l.accepted.length)
    (requests : List AcceptedRequest) :
    ({ l with accepted := l.accepted ++ requests } : Ledger).completions = l.completions := by
  unfold completions
  apply List.filterMap_congr
  intro entry hentry
  have hlt := h entry.1 (List.mem_map_of_mem hentry)
  dsimp only
  rw [List.getElem?_append_left hlt]

lemma completions_settle (settlements : List (ℕ × Settlement)) :
    ({ l with settlements := l.settlements ++ settlements } : Ledger).completions =
      l.completions ++ ({ l with settlements := settlements } : Ledger).completions := by
  unfold completions
  rw [List.filterMap_append]

/-- Dropping the oldest entries before an insertion changes nothing after it. -/
lemma dropOldest_append {α : Type} (limit : ℕ) (table : List (String × α)) (entry : String × α) :
    dropOldest limit (dropOldest limit table ++ [entry]) = dropOldest limit (table ++ [entry]) := by
  unfold dropOldest
  have hlength : (table.drop (table.length - limit)).length = table.length - (table.length - limit) :=
    List.length_drop
  by_cases hle : limit ≤ table.length
  · have hdrop : table.drop (table.length - limit) ++ [entry] =
        (table ++ [entry]).drop (table.length - limit) := by
      rw [List.drop_append_of_le_length (by omega)]
    rw [hdrop, List.drop_drop]
    congr 1
    simp only [List.length_drop, List.length_append, List.length_singleton]
    omega
  · have hzero : table.length - limit = 0 := by omega
    rw [hzero, List.drop_zero]

/-- Settling a pending request, whatever the outcome and the completed table it leaves. -/
lemma Consistent.settle (h : l.Consistent) {operationId : String} {pending : PendingDocumentRequest}
    (hpending : l.pending.lookup operationId = some pending) (settlement : Settlement)
    {completed : List (String × CompletedOperation)} (hkeys : (completed.map Prod.fst).Nodup)
    (hcompleted : ∀ other, completed.lookup other ≠ none →
      other = operationId ∨ l.completed.lookup other ≠ none)
    (heq : completed = dropOldest completedLimit
      ({ l with settlements := l.settlements ++ [(pending.promise, settlement)] } : Ledger).completions) :
    Consistent { l with
      timers := Dict.erase l.timers pending.promise
      pending := Dict.erase l.pending operationId
      completed := completed
      settlements := l.settlements ++ [(pending.promise, settlement)] } where
  identifiers := h.identifiers
  pending_keys := h.pending_keys.sublist (List.filter_sublist.map Prod.fst)
  pending_accepted := by
    intro other pending' hother
    rw [Dict.lookup_erase] at hother
    split_ifs at hother with hne
    obtain ⟨haccepted, htimer, harmed⟩ := h.pending_accepted other pending' hother
    refine ⟨haccepted, htimer, ?_⟩
    have hpromise : pending'.promise ≠ pending.promise := fun hsame =>
      hne (h.pending_unique hother hpending hsame)
    rw [Dict.lookup_erase, if_neg hpromise]
    exact harmed
  timer_pending := by
    intro timer task htimer
    rw [Dict.lookup_erase] at htimer
    split_ifs at htimer with hne
    obtain ⟨pending', hpending', hpromise, htask⟩ := h.timer_pending timer task htimer
    refine ⟨pending', ?_, hpromise, htask⟩
    have hother : task.operationId ≠ operationId := by
      intro hsame
      rw [hsame, hpending] at hpending'
      cases hpending'
      exact hne hpromise.symm
    rw [Dict.lookup_erase, if_neg hother]
    exact hpending'
  settled_once := by
    rw [List.map_append, List.nodup_append]
    refine ⟨h.settled_once, by simp, ?_⟩
    intro promise hpromise new hnew hsame
    have hnew : new = pending.promise := by simpa using hnew
    rw [hsame, hnew] at hpromise
    exact h.pending_unsettled operationId pending hpending hpromise
  settled_accepted := by
    intro promise hpromise
    rw [List.map_append, List.mem_append] at hpromise
    rcases hpromise with hpromise | hpromise
    · exact h.settled_accepted promise hpromise
    · have hpromise : promise = pending.promise := by simpa using hpromise
      have haccepted := (h.pending_accepted operationId pending hpending).1
      rw [hpromise]
      exact (List.getElem?_eq_some_iff.mp haccepted).1
  outstanding := by
    intro promise hlt hunsettled
    rw [List.map_append, List.mem_append, not_or] at hunsettled
    obtain ⟨other, pending', hother, hpromise⟩ := h.outstanding promise hlt hunsettled.1
    refine ⟨other, pending', ?_, hpromise⟩
    have hne : other ≠ operationId := by
      rintro rfl
      rw [hpending] at hother
      cases hother
      exact hunsettled.2 (by simp [hpromise])
    rw [Dict.lookup_erase, if_neg hne]
    exact hother
  pending_unsettled := by
    intro other pending' hother
    rw [Dict.lookup_erase] at hother
    split_ifs at hother with hne
    rw [List.map_append, List.mem_append, not_or]
    refine ⟨h.pending_unsettled other pending' hother, ?_⟩
    have hpromise : pending'.promise ≠ pending.promise := fun hsame =>
      hne (h.pending_unique hother hpending hsame)
    simpa using hpromise
  completed_keys := hkeys
  completed_not_pending := by
    intro other hother
    rw [Dict.lookup_erase]
    split_ifs with hne
    · rfl
    · exact h.completed_not_pending other ((hcompleted other hother).resolve_left hne)
  completed_eq := heq

lemma Consistent.dispatch (h : l.Consistent) {request : AcceptedRequest}
    (hidentifier : isIdentifier request.operationId = true) (hpending : l.pending.lookup request.operationId = none)
    (hcompleted : l.completed.lookup request.operationId = none) :
    (l.dispatch request).Consistent where
  identifiers := by
    intro other hother
    rcases List.mem_append.mp hother with hother | hother
    · exact h.identifiers other hother
    · rwa [List.mem_singleton.mp hother]
  pending_keys := by
    unfold Ledger.dispatch
    rw [Dict.set_eq_append _ hpending]
    exact Dict.nodup_append _ h.pending_keys hpending
  pending_accepted := by
    intro operationId pending hlookup
    unfold Ledger.dispatch at hlookup ⊢
    dsimp only at hlookup ⊢
    rw [Dict.lookup_set] at hlookup
    split_ifs at hlookup with hsame
    · cases hlookup
      refine ⟨?_, rfl, ?_⟩
      · simp [PendingDocumentRequest.request, hsame]
      · rw [Dict.lookup_set_self, hsame]
    · obtain ⟨haccepted, htimer, harmed⟩ := h.pending_accepted operationId pending hlookup
      have hlt := (List.getElem?_eq_some_iff.mp haccepted).1
      refine ⟨?_, htimer, ?_⟩
      · rw [List.getElem?_append_left hlt]
        exact haccepted
      · rw [Dict.lookup_set_ne _ _ (by omega)]
        exact harmed
  timer_pending := by
    intro timer task htimer
    unfold Ledger.dispatch at htimer ⊢
    dsimp only at htimer ⊢
    rw [Dict.lookup_set] at htimer
    split_ifs at htimer with hsame
    · cases htimer
      exact ⟨_, Dict.lookup_set_self _ _ _, hsame.symm, hsame.symm⟩
    · obtain ⟨pending, hlookup, hpromise, htask⟩ := h.timer_pending timer task htimer
      refine ⟨pending, ?_, hpromise, htask⟩
      have hne : task.operationId ≠ request.operationId := by
        intro heq
        rw [heq, hpending] at hlookup
        cases hlookup
      rw [Dict.lookup_set_ne _ _ hne]
      exact hlookup
  settled_once := h.settled_once
  settled_accepted := by
    intro promise hpromise
    have hlt := h.settled_accepted promise hpromise
    simp only [Ledger.dispatch, List.length_append]
    omega
  outstanding := by
    intro promise hlt hunsettled
    unfold Ledger.dispatch at hlt ⊢
    simp only [List.length_append, List.length_singleton] at hlt ⊢
    by_cases hnew : promise = l.accepted.length
    · exact ⟨request.operationId, _, Dict.lookup_set_self _ _ _, hnew.symm⟩
    · obtain ⟨operationId, pending, hlookup, hpromise⟩ :=
        h.outstanding promise (by omega) hunsettled
      refine ⟨operationId, pending, ?_, hpromise⟩
      have hne : operationId ≠ request.operationId := by
        rintro rfl
        rw [hpending] at hlookup
        cases hlookup
      rw [Dict.lookup_set_ne _ _ hne]
      exact hlookup
  pending_unsettled := by
    intro operationId pending hlookup hsettled
    unfold Ledger.dispatch at hlookup hsettled
    dsimp only at hlookup hsettled
    rw [Dict.lookup_set] at hlookup
    split_ifs at hlookup
    · cases hlookup
      exact absurd (h.settled_accepted _ hsettled) (lt_irrefl _)
    · exact h.pending_unsettled operationId pending hlookup hsettled
  completed_keys := h.completed_keys
  completed_not_pending := by
    intro operationId hlookup
    unfold Ledger.dispatch at hlookup ⊢
    dsimp only at hlookup ⊢
    have hne : operationId ≠ request.operationId := by
      rintro rfl
      exact hlookup hcompleted
    rw [Dict.lookup_set_ne _ _ hne]
    exact h.completed_not_pending operationId hlookup
  completed_eq := by
    have happend := completions_append h.settled_accepted [request]
    exact h.completed_eq.trans (congrArg _ happend.symm)

lemma Consistent.complete (h : l.Consistent) {operationId : String}
    {pending : PendingDocumentRequest} (hpending : l.pending.lookup operationId = some pending)
    (result : OperationResult) : (l.complete operationId pending result).Consistent := by
  have hcompleted : l.completed.lookup operationId = none := by
    by_contra hcompleted
    have hnone := h.completed_not_pending operationId hcompleted
    rw [hpending] at hnone
    cases hnone
  obtain ⟨haccepted, htimer, -⟩ := h.pending_accepted operationId pending hpending
  have hset := Dict.set_eq_append (⟨pending.signature, result⟩ : CompletedOperation) hcompleted
  unfold Ledger.complete
  rw [htimer]
  refine h.settle hpending (.fulfilled result) ?_ ?_ ?_
  · rw [hset]
    exact (Dict.nodup_append _ h.completed_keys hcompleted).sublist
      ((List.drop_sublist _ _).map Prod.fst)
  · intro other hother
    rw [hset] at hother
    by_cases hsame : other = operationId
    · exact .inl hsame
    · right
      intro hnone
      apply hother
      rw [Dict.lookup_eq_none_iff]
      intro value hmem
      rcases List.mem_append.mp (List.mem_of_mem_drop hmem) with hold | hnew
      · exact Dict.lookup_eq_none_iff.mp hnone value hold
      · simp only [List.mem_singleton, Prod.mk.injEq] at hnew
        exact hsame hnew.1
  · have hnew : ({ l with settlements := [(pending.promise, .fulfilled result)] } : Ledger).completions =
        [(operationId, ⟨pending.signature, result⟩)] := by
      simp [completions, haccepted, PendingDocumentRequest.request]
    rw [completions_settle, hnew, hset, h.completed_eq, dropOldest_append]

lemma Consistent.reject (h : l.Consistent) {operationId : String}
    {pending : PendingDocumentRequest} (hpending : l.pending.lookup operationId = some pending)
    (error : UiSyncError) : (l.reject operationId pending error).Consistent := by
  obtain ⟨-, htimer, -⟩ := h.pending_accepted operationId pending hpending
  unfold Ledger.reject
  rw [htimer]
  refine h.settle hpending (.rejected error) h.completed_keys (fun _ hother => .inr hother) ?_
  rw [completions_settle, h.completed_eq]
  simp [completions]

/-- A timer that fires rejects its request. -/
lemma Consistent.timeOut_eq (h : l.Consistent) {timer : ℕ} {task : TimerTask}
    (htimer : l.timers.lookup timer = some task) (error : UiSyncError) :
    ∃ pending, l.pending.lookup task.operationId = some pending ∧
      l.timeOut timer task error = l.reject task.operationId pending error := by
  obtain ⟨pending, hpending, hpromise, htask⟩ := h.timer_pending timer task htimer
  obtain ⟨-, hhandle, -⟩ := h.pending_accepted _ pending hpending
  refine ⟨pending, hpending, ?_⟩
  unfold Ledger.timeOut Ledger.reject
  rw [hhandle, hpromise, htask]

lemma Consistent.interrupt (h : l.Consistent) (error : UiSyncError) :
    (l.interrupt error).Consistent := by
  have hpromises : (l.pending.map fun entry => entry.2.promise).Nodup := by
    refine List.Nodup.map_on ?_ (List.Nodup.of_map Prod.fst h.pending_keys)
    rintro ⟨operationId, pending⟩ hmem ⟨operationId', pending'⟩ hmem' hsame
    rw [← Dict.items_of_nodup h.pending_keys, Dict.mem_items] at hmem hmem'
    obtain rfl := h.pending_unique hmem hmem' hsame
    rw [hmem] at hmem'
    cases hmem'
    rfl
  have hsettlements : (l.interrupt error).settlements.map Prod.fst =
      l.settlements.map Prod.fst ++ l.pending.map fun entry => entry.2.promise := by
    simp [Ledger.interrupt, Function.comp_def]
  have hmem : ∀ promise, promise ∈ l.pending.map (fun entry => entry.2.promise) ↔
      ∃ operationId pending, l.pending.lookup operationId = some pending ∧
        pending.promise = promise := by
    intro promise
    constructor
    · intro hmem
      obtain ⟨⟨operationId, pending⟩, hentry, rfl⟩ := List.mem_map.mp hmem
      rw [← Dict.items_of_nodup h.pending_keys, Dict.mem_items] at hentry
      exact ⟨operationId, pending, hentry, rfl⟩
    · rintro ⟨operationId, pending, hlookup, rfl⟩
      exact List.mem_map.mpr ⟨(operationId, pending), Dict.lookup_mem hlookup, rfl⟩
  constructor
  · exact h.identifiers
  · exact List.nodup_nil
  · intro operationId pending hlookup
    cases hlookup
  · intro timer task htimer
    change (l.timers.filter fun timer => l.pending.all fun entry => entry.2.timer ≠ timer.1).lookup
      timer = some task at htimer
    rw [Dict.lookup_filter_key l.timers fun key => l.pending.all fun entry => entry.2.timer ≠ key]
      at htimer
    split_ifs at htimer with hcleared
    obtain ⟨pending, hlookup, hpromise, -⟩ := h.timer_pending timer task htimer
    obtain ⟨-, hhandle, -⟩ := h.pending_accepted _ pending hlookup
    have hne := List.all_eq_true.mp hcleared _ (Dict.lookup_mem hlookup)
    rw [decide_eq_true_iff] at hne
    exact absurd (hhandle.trans hpromise) hne
  · rw [hsettlements, List.nodup_append]
    refine ⟨h.settled_once, hpromises, ?_⟩
    rintro promise hsettled other hother rfl
    obtain ⟨operationId, pending, hlookup, rfl⟩ := (hmem promise).mp hother
    exact h.pending_unsettled operationId pending hlookup hsettled
  · intro promise hpromise
    rw [hsettlements, List.mem_append] at hpromise
    rcases hpromise with hpromise | hpromise
    · exact h.settled_accepted promise hpromise
    · obtain ⟨operationId, pending, hlookup, rfl⟩ := (hmem promise).mp hpromise
      exact (List.getElem?_eq_some_iff.mp (h.pending_accepted operationId pending hlookup).1).1
  · intro promise hlt hunsettled
    rw [hsettlements, List.mem_append, not_or] at hunsettled
    exact absurd ((hmem promise).mpr (h.outstanding promise hlt hunsettled.1)) hunsettled.2
  · intro operationId pending hlookup
    cases hlookup
  · exact h.completed_keys
  · intro operationId _
    rfl
  · have hnone : ({ l with settlements := l.pending.map fun entry =>
        (entry.2.promise, Settlement.rejected error) } : Ledger).completions = [] := by
      unfold completions
      rw [List.filterMap_eq_nil_iff]
      intro entry hentry
      obtain ⟨pending, -, rfl⟩ := List.mem_map.mp hentry
      rfl
    have hsame : (l.interrupt error).completions = l.completions := by
      have happend := completions_settle (l := l)
        (l.pending.map fun entry => (entry.2.promise, Settlement.rejected error))
      rw [hnone, List.append_nil] at happend
      exact happend
    rw [hsame]
    exact h.completed_eq

variable {answers : AcceptedRequest → Prop}

/-- Every move keeps the ledger consistent. -/
theorem Consistent.moves (h : l.Consistent) (hmoves : l.Moves answers l') : l'.Consistent := by
  cases hmoves with
  | stay => exact h
  | dispatch hidentifier hpending hcompleted => exact h.dispatch hidentifier hpending hcompleted
  | complete result hpending => exact h.complete hpending result
  | reject error hpending => exact h.reject hpending error
  | timeOut error htimer =>
    obtain ⟨pending, hpending, heq⟩ := h.timeOut_eq htimer error
    rw [heq]
    exact h.reject hpending error
  | interrupt error => exact h.interrupt error

/-- A promise that a move fulfils is that of a request the move answers. -/
lemma Consistent.fulfilled (h : l.Consistent) (hmoves : l.Moves answers l') {promise : ℕ}
    {result : OperationResult} (hnew : (promise, .fulfilled result) ∈ l'.settlements)
    (hold : (promise, .fulfilled result) ∉ l.settlements) :
    ∃ request, l.accepted[promise]? = some request ∧ answers request := by
  cases hmoves with
  | stay => exact absurd hnew hold
  | dispatch => exact absurd hnew hold
  | @complete operationId pending result' hpending hanswers =>
    have hmem := (List.mem_append.mp hnew).resolve_left hold
    simp only [List.mem_singleton, Prod.mk.injEq] at hmem
    rw [hmem.1]
    exact ⟨_, (h.pending_accepted operationId pending hpending).1, hanswers⟩
  | reject =>
    have hmem := (List.mem_append.mp hnew).resolve_left hold
    simp at hmem
  | timeOut =>
    have hmem := (List.mem_append.mp hnew).resolve_left hold
    simp at hmem
  | interrupt =>
    have hmem := (List.mem_append.mp hnew).resolve_left hold
    simp at hmem

/-- Two outstanding requests have different operation identifiers. -/
lemma Consistent.outstanding_unique (h : l.Consistent) {promise promise' : ℕ}
    {request request' : AcceptedRequest} (hrequest : l.Outstanding promise request)
    (hrequest' : l.Outstanding promise' request')
    (hsame : request.operationId = request'.operationId) : promise = promise' := by
  have hpending : ∀ {n : ℕ} {accepted : AcceptedRequest}, l.Outstanding n accepted →
      ∃ pending, l.pending.lookup accepted.operationId = some pending ∧ pending.promise = n := by
    rintro n accepted ⟨haccepted, hunsettled⟩
    have hlt := (List.getElem?_eq_some_iff.mp haccepted).1
    obtain ⟨operationId, pending, hlookup, rfl⟩ := h.outstanding n hlt hunsettled
    rw [(h.pending_accepted operationId pending hlookup).1, Option.some.injEq] at haccepted
    subst haccepted
    exact ⟨pending, hlookup, rfl⟩
  obtain ⟨pending, hlookup, rfl⟩ := hpending hrequest
  obtain ⟨pending', hlookup', rfl⟩ := hpending hrequest'
  rw [hsame, hlookup', Option.some.injEq] at hlookup
  rw [hlookup]

end Consistency

end Ledger

section Steps

variable {dateParse : String → Option ℤ} {hub hub' : UiSyncHub} {tab : InternalTab}

/-- The request a command answers: its operation, its document and its kind. -/
def answered : UiClientCommand → Option (String × String × RequestKind)
  | .documentSnapshotRespond operationId documentId .. => some (operationId, documentId, .snapshot)
  | .documentPatchRespond operationId documentId .. => some (operationId, documentId, .patch)
  | _ => none

/-- A response of the tab a request was sent to, for the same document and kind. -/
def Answers (hub : UiSyncHub) (event : Event) (request : AcceptedRequest) : Prop :=
  ∃ socket command now tabId tab, event = .command socket command now ∧
    hub.requireRegistered socket = .ok (tabId, tab) ∧ tab.tabId = request.tabId ∧
    answered command = some (request.operationId, request.documentId, request.kind)

lemma requirePendingResponse_eq_ok {operationId documentId : String} {kind : RequestKind}
    {pending : PendingDocumentRequest}
    (h : hub.requirePendingResponse tab operationId documentId kind = .ok pending) :
    hub.ledger.pending.lookup operationId = some pending ∧ pending.tabId = tab.tabId ∧
      (operationId, documentId, kind) = (operationId, pending.documentId, pending.kind) := by
  simp only [requirePendingResponse, Raising.bind_eq_ok] at h
  obtain ⟨-, -, -, -, h⟩ := h
  split at h
  · cases h
  · next found hfound =>
    simp only [Raising.bind_eq_ok, Raising.raiseIf_eq_ok, Raising.pure_eq_ok] at h
    obtain ⟨-, hmatch, rfl⟩ := h
    push Not at hmatch
    obtain ⟨hkind, htab, hdocument⟩ := hmatch
    exact ⟨hfound, htab, by rw [hkind, hdocument]⟩

lemma ledger_setTab (hub : UiSyncHub) (tabId : String) (tab : InternalTab) :
    (hub.setTab tabId tab).ledger = hub.ledger := rfl

lemma ledger_bump : hub.bump.ledger = hub.ledger := rfl

lemma ledger_completePending (operationId : String) (pending : PendingDocumentRequest)
    (result : OperationResult) : (hub.completePending operationId pending result).ledger =
      hub.ledger.complete operationId pending result := by
  simp only [completePending, Ledger.complete, settle, clearTimeout, ledger]

/-- A response of the tab that the answers are read from. -/
lemma moves_snapshotResponse {answers : AcceptedRequest → Prop} {operationId documentId : String}
    {revision contentDigest content errorCode : JsValue}
    (hanswers : ∀ pending : PendingDocumentRequest, pending.tabId = tab.tabId →
      (operationId, documentId, RequestKind.snapshot) =
        (operationId, pending.documentId, pending.kind) → answers (pending.request operationId))
    (h : hub.resolveSnapshotResponse tab operationId documentId revision contentDigest content
      errorCode = .ok hub') : hub.ledger.Moves answers hub'.ledger := by
  unfold resolveSnapshotResponse at h
  simp only [Raising.bind_eq_ok] at h
  obtain ⟨pending, hrequired, h⟩ := h
  obtain ⟨hpending, htab, hsame⟩ := requirePendingResponse_eq_ok hrequired
  split_ifs at h
  · simp only [Raising.bind_eq_ok, Raising.pure_eq_ok] at h
    obtain ⟨code, -, rfl⟩ := h
    exact .reject _ hpending
  · simp only [Raising.bind_eq_ok, Raising.pure_eq_ok] at h
    obtain ⟨revision', -, digest, -, content', -, rfl⟩ := h
    rw [ledger_completePending]
    exact .complete _ hpending (hanswers pending htab hsame)

lemma moves_patchResponse {answers : AcceptedRequest → Prop} {tabId operationId documentId : String}
    {status : PatchStatus}
    {revision savedRevision contentDigest dirty errorCode message : JsValue}
    (hanswers : ∀ pending : PendingDocumentRequest, pending.tabId = tab.tabId →
      (operationId, documentId, RequestKind.patch) =
        (operationId, pending.documentId, pending.kind) → answers (pending.request operationId))
    (h : hub.resolvePatchResponse tabId tab operationId documentId status revision savedRevision
      contentDigest dirty errorCode message = .ok hub') : hub.ledger.Moves answers hub'.ledger := by
  unfold resolvePatchResponse at h
  simp only [Raising.bind_eq_ok] at h
  obtain ⟨pending, hrequired, h⟩ := h
  obtain ⟨hpending, htab, hsame⟩ := requirePendingResponse_eq_ok hrequired
  split_ifs at h
  · simp only [Raising.bind_eq_ok, Raising.pure_eq_ok] at h
    obtain ⟨error, -, rfl⟩ := h
    exact .reject _ hpending
  · simp only [Raising.bind_eq_ok] at h
    obtain ⟨revision', -, saved, -, digest, -, h⟩ := h
    split at h
    · split_ifs at h
      · split at h
        · cases h
          exact .reject _ hpending
        · cases h
          rw [ledger_bump, ledger_completePending, ledger_setTab]
          exact .complete _ hpending (hanswers pending htab hsame)
      · cases h
        exact .reject _ hpending
    · cases h
      exact .reject _ hpending

lemma moves_tabCommand {answers : AcceptedRequest → Prop} {tabId : String}
    {command : UiClientCommand} {now : ℤ}
    (hanswers : ∀ operationId (pending : PendingDocumentRequest), pending.tabId = tab.tabId →
      answered command = some (operationId, pending.documentId, pending.kind) →
        answers (pending.request operationId))
    (h : hub.tabCommand dateParse tabId tab command now = .ok hub') :
    hub.ledger.Moves answers hub'.ledger := by
  cases command with
  | register | ping =>
    cases h
    exact .stay
  | presenceUpdate | contextReplace | documentOpen | documentUpdate | documentClose =>
    simp only [tabCommand, Raising.bind_eq_ok, Raising.pure_eq_ok] at h
    obtain ⟨updated, -, rfl⟩ := h
    rw [ledger_bump, ledger_setTab]
    exact .stay
  | documentSnapshotRespond operationId =>
    exact moves_snapshotResponse (fun pending htab hsame =>
      hanswers operationId pending htab (congrArg some hsame)) h
  | documentPatchRespond operationId =>
    exact moves_patchResponse (fun pending htab hsame =>
      hanswers operationId pending htab (congrArg some hsame)) h
  | resourceChanged change =>
    simp only [tabCommand, UiSyncHub.resourceChanged, Raising.bind_eq_ok] at h
    obtain ⟨-, -, change', -, h⟩ := h
    split_ifs at h
    · cases h
      exact .stay
    · cases h
      dsimp only [bump, ledger]
      exact .stay
  | operationChanged operation =>
    simp only [tabCommand, UiSyncHub.operationChanged, Raising.bind_eq_ok, Raising.pure_eq_ok] at h
    obtain ⟨-, -, operation', -, -, -, rfl⟩ := h
    dsimp only [bump, ledger]
    exact .stay

lemma moves_dispatch {answers : AcceptedRequest → Prop} {kind : RequestKind}
    {operationId documentId : String} {signature : Signature} {target : InternalTab}
    {outcome : UiSyncHub × Reply} (hidentifier : isIdentifier operationId = true)
    (hcompleted : hub.completedOperations.lookup operationId = none)
    (h : hub.dispatchDocumentRequest kind operationId documentId signature target = .ok outcome) :
    hub.ledger.Moves answers outcome.1.ledger := by
  simp only [dispatchDocumentRequest, Raising.bind_eq_ok, Raising.raiseIf_eq_ok,
    Raising.pure_eq_ok] at h
  obtain ⟨-, hpending, -, -, rfl⟩ := h
  rw [Bool.not_eq_true, Dict.has_eq_false_iff] at hpending
  change hub.ledger.Moves answers
    (hub.ledger.dispatch ⟨operationId, kind, target.tabId, documentId, signature⟩)
  exact .dispatch hidentifier hpending hcompleted

lemma completedOperation_eq_none {operationId : String} {signature : Signature}
    (h : hub.completedOperation operationId signature = .ok none) :
    hub.completedOperations.lookup operationId = none := by
  unfold completedOperation at h
  split at h
  · next hnone => exact hnone
  · simp only [Raising.bind_eq_ok, Raising.pure_eq_ok] at h
    obtain ⟨-, -, h⟩ := h
    cases h

lemma moves_snapshotRequest {answers : AcceptedRequest → Prop} {operationId documentId : String}
    {includeContent : Bool} {outcome : UiSyncHub × Reply}
    (h : hub.requestDocumentSnapshot operationId documentId includeContent = .ok outcome) :
    hub.ledger.Moves answers outcome.1.ledger := by
  simp only [requestDocumentSnapshot, requireOperationId, Raising.bind_eq_ok,
    Raising.raiseIf_eq_ok, Bool.not_eq_false] at h
  obtain ⟨-, hidentifier, completed, hcompleted, h⟩ := h
  cases completed with
  | some result =>
    cases h
    exact .stay
  | none =>
    simp only [Raising.bind_eq_ok] at h
    obtain ⟨target, -, h⟩ := h
    exact moves_dispatch hidentifier (completedOperation_eq_none hcompleted) h

lemma moves_patchRequest {answers : AcceptedRequest → Prop} {operationId documentId : String}
    {baseRevision : ℕ} {baseDigest : String} {patch : JsValue} {save : Bool}
    {outcome : UiSyncHub × Reply}
    (h : hub.requestDocumentPatch operationId documentId baseRevision baseDigest patch save =
      .ok outcome) : hub.ledger.Moves answers outcome.1.ledger := by
  simp only [requestDocumentPatch, requireOperationId, Raising.bind_eq_ok, Raising.raiseIf_eq_ok,
    Bool.not_eq_false] at h
  obtain ⟨-, hidentifier, textPatch, -, completed, hcompleted, h⟩ := h
  cases completed with
  | some result =>
    cases h
    exact .stay
  | none =>
    simp only [Raising.bind_eq_ok] at h
    obtain ⟨target, -, -, -, -, -, h⟩ := h
    exact moves_dispatch hidentifier (completedOperation_eq_none hcompleted) h

/-- What an event does to the ledger. -/
theorem moves_step (event : Event) :
    hub.ledger.Moves (Answers hub event) (hub.step dateParse event).ledger := by
  cases event with
  | opened socket => exact .stay
  | closed socket now =>
    have hsame : (hub.handleClose socket now).ledger = hub.ledger := by
      unfold handleClose
      dsimp only
      split <;> rfl
    simp only [step, hsame]
    exact .stay
  | sweep now =>
    have hsame : (hub.pruneStaleTabs now).ledger = hub.ledger := by
      unfold pruneStaleTabs
      dsimp only
      split_ifs <;> rfl
    simp only [step, hsame]
    exact .stay
  | snapshotRequest operationId documentId includeContent =>
    simp only [step]
    cases houtcome : hub.requestDocumentSnapshot operationId documentId includeContent with
    | error e => exact .stay
    | ok outcome => exact moves_snapshotRequest houtcome
  | patchRequest operationId documentId baseRevision baseDigest patch save =>
    simp only [step]
    cases houtcome : hub.requestDocumentPatch operationId documentId baseRevision baseDigest patch
        save with
    | error e => exact .stay
    | ok outcome => exact moves_patchRequest houtcome
  | timer timer =>
    simp only [step, requestTimedOut]
    split
    · exact .stay
    · next task htask => exact .timeOut _ htask
  | disposed => exact .interrupt _
  | command socket command now =>
    simp only [step]
    unfold handleCommand
    split
    · next tabId clientKind requested =>
      cases hregister : hub.register socket tabId clientKind requested now with
      | error e => exact .stay
      | ok next =>
        simp only [register, Raising.bind_eq_ok, Raising.pure_eq_ok] at hregister
        obtain ⟨checked, -, rfl⟩ := hregister
        exact .stay
    · split
      · exact .stay
      · next tabId tab hregistered =>
        dsimp only
        rw [← ledger_setTab hub tabId { tab with lastSeenAt := now }]
        cases hcommand : (hub.setTab tabId { tab with lastSeenAt := now }).tabCommand dateParse tabId
            { tab with lastSeenAt := now } command now with
        | error e => exact .stay
        | ok next =>
          refine moves_tabCommand (fun operationId pending htab hanswered => ?_) hcommand
          exact ⟨socket, command, now, tabId, tab, rfl, hregistered, htab.symm, hanswered⟩

end Steps

section Runs

variable {dateParse : String → Option ℤ} {hub : UiSyncHub}

/-- The operation identifier of a document request and what it asks for; no patch that the checks
refuse asks for anything. -/
def requested : Event → Option (String × Option Signature)
  | .snapshotRequest operationId documentId includeContent =>
    some (operationId, some (.snapshot documentId includeContent))
  | .patchRequest operationId documentId baseRevision baseDigest patch save =>
    some (operationId, (sanitizeTextPatch patch).toOption.map fun textPatch =>
      .patch documentId baseRevision baseDigest textPatch save)
  | _ => none

/-- Document operations are settled exactly once. -/
structure OperationsSound (dateParse : String → Option ℤ) (hub : UiSyncHub) : Prop where
  one_outstanding : ∀ promise promise' request request',
    hub.ledger.Outstanding promise request → hub.ledger.Outstanding promise' request' →
      request.operationId = request'.operationId → promise = promise'
  settled_once : (hub.settlements.map Prod.fst).Nodup ∧
    ∀ promise ∈ hub.settlements.map Prod.fst, promise < hub.accepted.length
  /-- What is not settled yet waits for an armed timer, which rejects it. -/
  timer_settles : ∀ promise request, hub.ledger.Outstanding promise request →
    hub.timers.lookup promise = some ⟨request.operationId, promise⟩ ∧
      ∃ error, (hub.step dateParse (.timer promise)).settlements =
        hub.settlements ++ [(promise, .rejected error)]
  /-- Only the tab a request was sent to fulfils it, for its document and kind. -/
  answered : ∀ event promise result,
    (promise, .fulfilled result) ∈ (hub.step dateParse event).settlements →
      (promise, .fulfilled result) ∉ hub.settlements →
        ∃ request, hub.accepted[promise]? = some request ∧ Answers hub event request
  /-- A recent completion is not sent again: the same request gets the stored result, another one
  is refused. -/
  remembered : ∀ operationId completed,
    (operationId, completed) ∈ dropOldest completedLimit hub.ledger.completions →
      ∀ event signature, requested event = some (operationId, signature) →
        (hub.step dateParse event).accepted = hub.accepted ∧
        (signature = some completed.signature →
          hub.request event = some (.ok (hub, .stored completed.result))) ∧
        (signature ≠ some completed.signature → ∃ error, hub.request event = some (.error error))

lemma completedOperation_of_lookup {operationId : String} {completed : CompletedOperation}
    (h : hub.completedOperations.lookup operationId = some completed) (signature : Signature) :
    (signature = completed.signature →
        hub.completedOperation operationId signature = .ok (some completed.result)) ∧
      (signature ≠ completed.signature →
        ∃ error, hub.completedOperation operationId signature = .error error) := by
  unfold completedOperation
  rw [h]
  constructor
  · rintro rfl
    simp [raiseIf, Pure.pure, Except.pure, Bind.bind, Except.bind]
  · intro hne
    have hother : completed.signature ≠ signature := fun hsame => hne hsame.symm
    exact ⟨_, by simp only [raiseIf, if_pos hother]; rfl⟩

/-- A request for a completed operation. -/
lemma request_of_completed {operationId : String} {completed : CompletedOperation}
    (hidentifier : isIdentifier operationId = true)
    (hlookup : hub.completedOperations.lookup operationId = some completed) {event : Event}
    {signature : Option Signature} (hrequested : requested event = some (operationId, signature)) :
    (signature = some completed.signature →
        hub.request event = some (.ok (hub, .stored completed.result))) ∧
      (signature ≠ some completed.signature → ∃ error, hub.request event = some (.error error)) := by
  have hid : requireOperationId operationId = .ok () := by
    simp [requireOperationId, raiseIf, hidentifier, Pure.pure, Except.pure]
  cases event with
  | snapshotRequest operationId' documentId includeContent =>
    cases hrequested
    obtain ⟨hsame, hother⟩ :=
      completedOperation_of_lookup hlookup (.snapshot documentId includeContent)
    simp only [request, requestDocumentSnapshot, hid, Raising.ok_bind, Option.some.injEq]
    constructor
    · intro heq
      rw [hsame heq]
      rfl
    · intro hne
      obtain ⟨error, herror⟩ := hother fun heq => hne (congrArg some heq)
      rw [herror]
      exact ⟨error, rfl⟩
  | patchRequest operationId' documentId baseRevision baseDigest patch save =>
    cases hrequested
    simp only [request, requestDocumentPatch, hid, Raising.ok_bind, Option.some.injEq]
    cases hpatch : sanitizeTextPatch patch with
    | error e =>
      constructor
      · intro heq
        cases heq
      · intro _
        exact ⟨e, rfl⟩
    | ok textPatch =>
      obtain ⟨hsame, hother⟩ := completedOperation_of_lookup hlookup
        (.patch documentId baseRevision baseDigest textPatch save)
      simp only [Except.toOption, Option.map_some, Option.some.injEq, Raising.ok_bind]
      constructor
      · intro heq
        rw [hsame heq]
        rfl
      · intro hne
        obtain ⟨error, herror⟩ := hother fun heq => hne (congrArg some heq)
        rw [herror]
        exact ⟨error, rfl⟩
  | opened | closed | command | sweep | timer | disposed => cases hrequested

/-- A refused request and a stored result leave the hub as it was. -/
lemma step_of_request {event : Event} {outcome : Except UiSyncError (UiSyncHub × Reply)}
    (h : hub.request event = some outcome)
    (hsame : ∀ next reply, outcome = .ok (next, reply) → next = hub) :
    hub.step dateParse event = hub := by
  have hkeep : hub.orKeep (Prod.fst <$> outcome) = hub := by
    cases outcome with
    | error e => rfl
    | ok next => exact hsame next.1 next.2 rfl
  cases event with
  | snapshotRequest =>
    cases h
    exact hkeep
  | patchRequest =>
    cases h
    exact hkeep
  | opened | closed | command | sweep | timer | disposed => cases h

lemma OperationsSound.of_consistent (h : hub.ledger.Consistent) :
    OperationsSound dateParse hub where
  one_outstanding := fun _ _ _ _ hrequest hrequest' => h.outstanding_unique hrequest hrequest'
  settled_once := ⟨h.settled_once, h.settled_accepted⟩
  timer_settles := by
    rintro promise request ⟨haccepted, hunsettled⟩
    have hlt := (List.getElem?_eq_some_iff.mp haccepted).1
    obtain ⟨operationId, pending, hlookup, rfl⟩ := h.outstanding promise hlt hunsettled
    obtain ⟨haccepted', -, harmed⟩ := h.pending_accepted operationId pending hlookup
    rw [haccepted', Option.some.injEq] at haccepted
    subst haccepted
    have harmed : hub.timers.lookup pending.promise = some ⟨operationId, pending.promise⟩ := harmed
    refine ⟨harmed, ?_⟩
    simp only [step, requestTimedOut, harmed]
    exact ⟨_, rfl⟩
  answered := fun event promise result hnew hold => h.fulfilled (moves_step event) hnew hold
  remembered := by
    intro operationId completed hmem event signature hrequested
    rw [← h.completed_eq, ← Dict.items_of_nodup h.completed_keys, Dict.mem_items] at hmem
    have hidentifier : isIdentifier operationId = true := by
      have hcompletion := Dict.lookup_mem hmem
      rw [h.completed_eq] at hcompletion
      obtain ⟨⟨promise, settlement⟩, -, hsome⟩ :=
        List.mem_filterMap.mp (List.mem_of_mem_drop hcompletion)
      split at hsome
      · next result request hresult hrequest =>
        cases hsome
        exact h.identifiers request (List.mem_of_getElem? hrequest)
      · cases hsome
    obtain ⟨hsame, hother⟩ := request_of_completed hidentifier hmem hrequested
    refine ⟨?_, hsame, hother⟩
    by_cases heq : signature = some completed.signature
    · rw [step_of_request (hsame heq)]
      intro next reply hok
      cases hok
      rfl
    · obtain ⟨error, herror⟩ := hother heq
      rw [step_of_request herror]
      intro next reply hok
      cases hok

/-- In every state of every run document operations are settled exactly once. -/
theorem operations_sound (dateParse : String → Option ℤ) (staleTtlMs : ℤ) (events : List Event) :
    OperationsSound dateParse (run (step dateParse) (fresh staleTtlMs) events) := by
  have hstep : ∀ (hub : UiSyncHub) (event : Event), hub.ledger.Consistent → True →
      (hub.step dateParse event).ledger.Consistent :=
    fun hub event h _ => h.moves (moves_step event)
  have hstart : (fresh staleTtlMs).ledger.Consistent := Ledger.consistent_empty
  exact .of_consistent (Transitions.run_invariant hstep hstart (Transitions.along_true _ _))

end Runs

end UiSyncHub

end TradeFramework.UiSync
