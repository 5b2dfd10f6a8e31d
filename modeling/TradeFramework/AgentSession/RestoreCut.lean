import Mathlib.Data.List.TakeWhile
import Mathlib.Tactic.IntervalCases
import TradeFramework.AgentSession.SessionRestore

/-!
# Where a restored transcript is cut

The budget alone would cut anywhere. The cut is then moved to a prompt, or past the tool results it
stands before, and both moves can still leave a call behind whose result is kept: the prompt may
have been steered into a running turn, and a turn may have several calls open at once.
-/

namespace TradeFramework.AgentSession

section Elision

variable {blocks : List RestoreBlock}

@[simp] lemma elideBody_entry (block : RestoreBlock) : (elideBody block).entry = block.entry := rfl

@[simp] lemma length_elideOlder : (elideOlder blocks).length = blocks.length := List.length_mapIdx

lemma elideOlder_getElem? (i : ℕ) : ∃ f : RestoreBlock → RestoreBlock,
    (∀ block, (f block).entry = block.entry) ∧ (recentStart blocks ≤ i → f = id) ∧
      (elideOlder blocks)[i]? = blocks[i]?.map f := by
  unfold elideOlder
  rw [List.getElem?_mapIdx]
  refine ⟨_, ?_, ?_, rfl⟩
  · intro block
    split_ifs
    · rfl
    · rfl
  · intro hrecent
    funext block
    rw [if_pos (Or.inl hrecent), id]

lemma elideOlder_entries : (elideOlder blocks).map (·.entry) = blocks.map (·.entry) := by
  apply List.ext_getElem?
  intro i
  obtain ⟨f, hentry, -, hget⟩ := @elideOlder_getElem? blocks i
  rw [List.getElem?_map, List.getElem?_map, hget, Option.map_map]
  congr 1
  funext block
  exact hentry block

lemma elideOlder_recent {i : ℕ} (h : recentStart blocks ≤ i) :
    (elideOlder blocks)[i]? = blocks[i]? := by
  obtain ⟨f, -, hrecent, hget⟩ := @elideOlder_getElem? blocks i
  rw [hget, hrecent h, Option.map_id, id]

end Elision

/-- The entry at a place of the transcript is of a kind. -/
def KindAt (kind : Content → Bool) (blocks : List RestoreBlock) (i : ℕ) : Prop :=
  ∃ block, blocks[i]? = some block ∧ kind block.entry.content = true

section Kinds

variable {kind : Content → Bool} {blocks : List RestoreBlock} {i : ℕ}

lemma KindAt.lt_length (h : KindAt kind blocks i) : i < blocks.length := by
  obtain ⟨block, hget, -⟩ := h
  exact (List.getElem?_eq_some_iff.mp hget).1

lemma kindAt_entries {blocks' : List RestoreBlock}
    (h : blocks.map (·.entry) = blocks'.map (·.entry)) :
    KindAt kind blocks i ↔ KindAt kind blocks' i := by
  have hi := congrArg (·[i]?) h
  simp only [List.getElem?_map] at hi
  unfold KindAt
  cases hl : blocks[i]? with
  | none =>
    rw [hl] at hi
    cases hr : blocks'[i]? with
    | none => simp
    | some block' => simp [hr] at hi
  | some block =>
    rw [hl] at hi
    cases hr : blocks'[i]? with
    | none => simp [hr] at hi
    | some block' =>
      rw [hr] at hi
      simp only [Option.map_some, Option.some.injEq] at hi
      simp [hi]

lemma KindAt.not_result (h : KindAt Content.isAssistantText blocks i) :
    ¬ KindAt Content.isToolResult blocks i := by
  rintro ⟨block, hget, hresult⟩
  obtain ⟨block', hget', htext⟩ := h
  rw [hget] at hget'
  cases hget'
  cases hcontent : block.entry.content <;>
    simp [hcontent, Content.isAssistantText, Content.isToolResult] at htext hresult

lemma any_iff_kindAt : (blocks.any fun block => kind block.entry.content) = true ↔
    ∃ i, KindAt kind blocks i := by
  rw [List.any_eq_true]
  constructor
  · rintro ⟨block, hmem, hkind⟩
    obtain ⟨i, hget⟩ := List.mem_iff_getElem?.mp hmem
    exact ⟨i, block, hget, hkind⟩
  · rintro ⟨i, block, hget, hkind⟩
    exact ⟨block, List.mem_of_getElem? hget, hkind⟩

lemma kindAt_or {kind' : Content → Bool} :
    KindAt (fun content => kind content || kind' content) blocks i ↔
      KindAt kind blocks i ∨ KindAt kind' blocks i := by
  unfold KindAt
  simp only [Bool.or_eq_true, and_or_left, exists_or]

lemma kindAt_drop {n : ℕ} : KindAt kind (blocks.drop n) i ↔ KindAt kind blocks (n + i) := by
  unfold KindAt
  rw [List.getElem?_drop]

lemma nextPromptIndex_some {cut p : ℕ} (h : nextPromptIndex blocks cut = some p) :
    cut ≤ p ∧ KindAt Content.isUserPrompt blocks p ∧
      ∀ q, cut ≤ q → q < p → ¬ KindAt Content.isUserPrompt blocks q := by
  unfold nextPromptIndex at h
  obtain ⟨n, hn, rfl⟩ := Option.map_eq_some_iff.mp h
  obtain ⟨hlt, hkind, hfirst⟩ := List.findIdx?_eq_some_iff_getElem.mp hn
  refine ⟨by omega, ?_, ?_⟩
  · rw [← kindAt_drop]
    exact ⟨_, List.getElem?_eq_getElem hlt, hkind⟩
  · intro q hcut hq hprompt
    have hsplit : q = cut + (q - cut) := by omega
    rw [hsplit, ← kindAt_drop] at hprompt
    obtain ⟨block, hget, hyes⟩ := hprompt
    obtain ⟨hlt', rfl⟩ := List.getElem?_eq_some_iff.mp hget
    exact hfirst (q - cut) (by omega) hyes

lemma nextPromptIndex_none {cut : ℕ} (h : nextPromptIndex blocks cut = none) :
    ∀ q, cut ≤ q → ¬ KindAt Content.isUserPrompt blocks q := by
  unfold nextPromptIndex at h
  rw [Option.map_eq_none_iff, List.findIdx?_eq_none_iff] at h
  intro q hcut hprompt
  have hsplit : q = cut + (q - cut) := by omega
  rw [hsplit, ← kindAt_drop] at hprompt
  obtain ⟨block, hget, hyes⟩ := hprompt
  have hno := h block (List.mem_of_getElem? hget)
  rw [hyes] at hno
  exact Bool.noConfusion hno

lemma length_takeWhile_le_iff {α : Type*} (p : α → Bool) (xs : List α) {k : ℕ} (hk : k < xs.length) :
    (xs.takeWhile p).length ≤ k ↔ ∃ j ≤ k, ∃ x, xs[j]? = some x ∧ p x = false := by
  induction xs generalizing k with
  | nil => exact absurd hk (Nat.not_lt_zero k)
  | cons x xs ih =>
    cases hx : p x with
    | false =>
      simp only [List.takeWhile_cons, hx, Bool.false_eq_true, if_false, List.length_nil, Nat.zero_le,
        true_iff]
      exact ⟨0, Nat.zero_le k, x, rfl, hx⟩
    | true =>
      simp only [List.takeWhile_cons, hx, if_true, List.length_cons]
      cases k with
      | zero =>
        constructor
        · intro h
          omega
        · rintro ⟨j, hj, y, hy, hno⟩
          have hzero : j = 0 := by omega
          subst hzero
          simp only [List.getElem?_cons_zero, Option.some.injEq] at hy
          rw [← hy, hx] at hno
          exact Bool.noConfusion hno
      | succ k =>
        rw [Nat.succ_le_succ_iff, ih (by simpa using hk)]
        constructor
        · rintro ⟨j, hj, hno⟩
          exact ⟨j + 1, by omega, by simpa using hno⟩
        · rintro ⟨j, hj, y, hy, hno⟩
          cases j with
          | zero =>
            simp only [List.getElem?_cons_zero, Option.some.injEq] at hy
            rw [← hy, hx] at hno
            exact Bool.noConfusion hno
          | succ j => exact ⟨j, by omega, y, by simpa using hy, hno⟩

/-- The fallback stops at the first entry that is no tool result. -/
lemma skipToolResults_le_iff {cut k : ℕ} (hk : k < blocks.length) : skipToolResults blocks cut ≤ k ↔
    ∃ j, cut ≤ j ∧ j ≤ k ∧ ¬ KindAt Content.isToolResult blocks j := by
  unfold skipToolResults
  by_cases hcut : cut ≤ k
  · have hlt : k - cut < (blocks.drop cut).length := by
      rw [List.length_drop]
      omega
    have hshift (n : ℕ) : cut + n ≤ k ↔ n ≤ k - cut := by omega
    rw [hshift, length_takeWhile_le_iff _ _ hlt]
    constructor
    · rintro ⟨j, hj, block, hget, hno⟩
      refine ⟨cut + j, by omega, by omega, ?_⟩
      rw [← kindAt_drop]
      rintro ⟨block', hget', hyes⟩
      rw [hget] at hget'
      cases hget'
      rw [hno] at hyes
      exact Bool.noConfusion hyes
    · rintro ⟨j, hcutj, hjk, hno⟩
      have hj : j - cut < (blocks.drop cut).length := by
        rw [List.length_drop]
        omega
      refine ⟨j - cut, by omega, _, List.getElem?_eq_getElem hj, ?_⟩
      have hsplit : j = cut + (j - cut) := by omega
      rw [hsplit, ← kindAt_drop] at hno
      rw [← Bool.not_eq_true]
      intro hyes
      exact hno ⟨_, List.getElem?_eq_getElem hj, hyes⟩
  · constructor
    · intro h
      omega
    · rintro ⟨j, hcutj, hjk, -⟩
      omega

lemma snapCut_cases (blocks : List RestoreBlock) (cut : ℕ) :
    (cut = 0 ∧ snapCut blocks cut = 0) ∨
      (cut ≠ 0 ∧ KindAt Content.isUserPrompt blocks (snapCut blocks cut) ∧
        ∀ q, cut ≤ q → q < snapCut blocks cut → ¬ KindAt Content.isUserPrompt blocks q) ∨
      (cut ≠ 0 ∧ (∀ q, cut ≤ q → ¬ KindAt Content.isUserPrompt blocks q) ∧
        snapCut blocks cut = skipToolResults blocks cut) := by
  unfold snapCut
  split_ifs with hzero
  · exact Or.inl ⟨hzero, rfl⟩
  · right
    cases hnext : nextPromptIndex blocks cut with
    | none => exact Or.inr ⟨hzero, nextPromptIndex_none hnext, rfl⟩
    | some p =>
      obtain ⟨-, hprompt, hfirst⟩ := nextPromptIndex_some hnext
      exact Or.inl ⟨hzero, hprompt, hfirst⟩

lemma le_snapCut (blocks : List RestoreBlock) (cut : ℕ) : cut ≤ snapCut blocks cut := by
  unfold snapCut
  split_ifs with hzero
  · omega
  · cases hnext : nextPromptIndex blocks cut with
    | none =>
      simp only [Option.getD_none, skipToolResults]
      omega
    | some p => exact (nextPromptIndex_some hnext).1

end Kinds

section Claims

/-- A tool result belongs to the last call of its tool use before it. -/
def toolCallOf (entry : TranscriptEntry) : Option Text :=
  match entry.content with
  | .toolCall tool => some tool.toolId
  | _ => none

def toolResultOf (entry : TranscriptEntry) : Option Text :=
  match entry.content with
  | .toolResult toolId _ _ => some toolId
  | _ => none

def visibleEntries (entries : List TranscriptEntry) : List TranscriptEntry :=
  (visibleBlocks entries).map (·.entry)

def Belongs (entries : List TranscriptEntry) (call result : ℕ) : Prop :=
  call < result ∧ ∃ toolId, entries[call]?.bind toolCallOf = some toolId ∧
    entries[result]?.bind toolResultOf = some toolId ∧
    ∀ between, call < between → between < result → entries[between]?.bind toolCallOf ≠ some toolId

/-- Each tool result follows its tool call. -/
def ResultsFollowCalls (entries : List TranscriptEntry) : Prop :=
  ∀ result toolId, entries[result]?.bind toolResultOf = some toolId →
    ∃ call, Belongs entries call result

/-- What a selection of entries to restore promises. -/
structure RestoresWell (args : RestoreArgs) (selection : Selection) : Prop where
  suffix : selection.included.map (·.entry) = (visibleEntries args.entries).drop selection.omitted
  fits : ((join "\n\n" (selection.included.map renderBlock)).length : ℤ) ≤ args.budget
  verbatim : ∀ i, (FittingSuffix.total blockLength ((visibleBlocks args.entries).drop
      (selection.omitted + i)) : ℤ) ≤ recentVerbatimChars →
    selection.included[i]? = (visibleBlocks args.entries)[selection.omitted + i]?
  together : ∀ call result, Belongs (visibleEntries args.entries) call result →
    selection.omitted ≤ result → selection.omitted ≤ call

/-- The entries from a place on, with older tool inputs and results elided, are within the budget. -/
def Fits (args : RestoreArgs) (i : ℕ) : Prop :=
  (FittingSuffix.total blockLength ((elideOlder (visibleBlocks args.entries)).drop i) : ℤ) ≤
    args.budget

/-- The two ways a call is left out while its result is kept, for a transcript over the budget: the
first prompt that fits was steered in between the two, or no prompt fits and some entry other than a
tool result lies between the place the budget reaches and the result. -/
inductive Separated (args : RestoreArgs) (call result : ℕ) : Prop
  | steered (prompt : ℕ) (overfull : ¬ Fits args 0) (after : call < prompt) (before : prompt < result)
      (kind : KindAt Content.isUserPrompt (visibleBlocks args.entries) prompt)
      (fits : Fits args prompt)
      (first : ∀ p < call, KindAt Content.isUserPrompt (visibleBlocks args.entries) p → ¬ Fits args p)
  | inTurn (other text prompt : ℕ) (overfull : ¬ Fits args call) (after : call < other)
      (before : other < result)
      (kind : ¬ KindAt Content.isToolResult (visibleBlocks args.entries) other)
      (fits : Fits args other)
      (reply : KindAt Content.isAssistantText (visibleBlocks args.entries) text)
      (replyFits : Fits args text)
      (asked : KindAt Content.isUserPrompt (visibleBlocks args.entries) prompt)
      (noPrompt : ∀ p, KindAt Content.isUserPrompt (visibleBlocks args.entries) p → ¬ Fits args p)

end Claims

section Selecting

variable {args : RestoreArgs} {selection : Selection}

lemma kindAt_elideOlder {kind : Content → Bool} {blocks : List RestoreBlock} {i : ℕ} :
    KindAt kind (elideOlder blocks) i ↔ KindAt kind blocks i :=
  kindAt_entries elideOlder_entries

/-- Where the restored part of the transcript starts. -/
def restoreStart (args : RestoreArgs) : ℕ :=
  snapCut (elideOlder (visibleBlocks args.entries))
    (FittingSuffix.start blockLength args.budget (elideOlder (visibleBlocks args.entries)))

lemma fits_iff {i : ℕ} (hi : i < (visibleBlocks args.entries).length) : Fits args i ↔
    FittingSuffix.start blockLength args.budget (elideOlder (visibleBlocks args.entries)) ≤ i := by
  have hlt : i < (elideOlder (visibleBlocks args.entries)).length := by rwa [length_elideOlder]
  exact (FittingSuffix.start_le_iff _ hlt).symm

lemma Fits.mono {i j : ℕ} (h : Fits args i) (hij : i ≤ j) : Fits args j := by
  have hle := @FittingSuffix.total_drop_le _ blockLength _ _
    (elideOlder (visibleBlocks args.entries)) hij
  unfold Fits at h ⊢
  omega

lemma any_included : (((elideOlder (visibleBlocks args.entries)).drop (restoreStart args)).any
    fun block => block.entry.content.isUserPrompt || block.entry.content.isAssistantText) = true ↔
    ∃ i, restoreStart args ≤ i ∧ (KindAt Content.isUserPrompt (visibleBlocks args.entries) i ∨
      KindAt Content.isAssistantText (visibleBlocks args.entries) i) := by
  rw [@any_iff_kindAt fun content => content.isUserPrompt || content.isAssistantText]
  constructor
  · rintro ⟨i, hi⟩
    rw [kindAt_drop, kindAt_elideOlder, kindAt_or] at hi
    exact ⟨restoreStart args + i, by omega, hi⟩
  · rintro ⟨i, hle, hi⟩
    refine ⟨i - restoreStart args, ?_⟩
    have hsplit : restoreStart args + (i - restoreStart args) = i := by omega
    rwa [kindAt_drop, kindAt_elideOlder, kindAt_or, hsplit]

lemma selectEntries_eq_some_iff : selectEntries args = some selection ↔
    (∃ i, KindAt Content.isUserPrompt (visibleBlocks args.entries) i) ∧
      (∃ i, restoreStart args ≤ i ∧ (KindAt Content.isUserPrompt (visibleBlocks args.entries) i ∨
        KindAt Content.isAssistantText (visibleBlocks args.entries) i)) ∧
      selection = ⟨(visibleBlocks args.entries).length,
        (elideOlder (visibleBlocks args.entries)).countP (·.elided), restoreStart args,
        (elideOlder (visibleBlocks args.entries)).drop (restoreStart args)⟩ := by
  rw [← any_included, ← any_iff_kindAt]
  change (if (!(visibleBlocks args.entries).any fun block => block.entry.content.isUserPrompt) = true
    then none
    else if (((elideOlder (visibleBlocks args.entries)).drop (restoreStart args)).any fun block =>
        block.entry.content.isUserPrompt || block.entry.content.isAssistantText) = true
      then some _ else none) = some selection ↔ _
  by_cases hprompt : ((visibleBlocks args.entries).any
      fun block => block.entry.content.isUserPrompt) = true
  · rw [hprompt, Bool.not_true, if_neg Bool.false_ne_true]
    split_ifs with hreply
    · rw [Option.some.injEq, eq_comm]
      exact ⟨fun h => ⟨rfl, hreply, h⟩, fun h => h.2.2⟩
    · exact ⟨fun h => (nomatch h), fun h => absurd h.2.1 hreply⟩
  · rw [Bool.eq_false_of_not_eq_true hprompt, Bool.not_false, if_pos rfl]
    exact ⟨fun h => (nomatch h), fun h => absurd h.1 Bool.false_ne_true⟩

lemma restoreStart_lt (h : selectEntries args = some selection) :
    restoreStart args < (visibleBlocks args.entries).length := by
  obtain ⟨-, ⟨i, hle, hi⟩, -⟩ := selectEntries_eq_some_iff.mp h
  have hlt : i < (visibleBlocks args.entries).length := hi.elim KindAt.lt_length KindAt.lt_length
  omega

lemma fits_restoreStart (h : selectEntries args = some selection) : Fits args (restoreStart args) := by
  rw [fits_iff (restoreStart_lt h)]
  exact le_snapCut _ _

lemma length_renderBlock (block : RestoreBlock) :
    (renderBlock block).length + 2 = blockLength block := by
  unfold renderBlock blockLength
  split_ifs with hbody
  · rfl
  · have hline : (text "\n").length = 1 := by decide
    simp only [List.length_append, hline]
    omega

lemma length_join_le (blocks : List RestoreBlock) :
    (join "\n\n" (blocks.map renderBlock)).length ≤ FittingSuffix.total blockLength blocks := by
  have hsep : (text "\n\n").length = 2 := by decide
  have hcons (separator : Text) (x y : Text) (xs : List Text) :
      separator.intercalate (x :: y :: xs) = x ++ (separator ++ separator.intercalate (y :: xs)) := by
    simp [List.intercalate, List.intersperse]
  unfold join
  induction blocks with
  | nil => simp [List.intercalate]
  | cons block rest ih =>
    have hblock := length_renderBlock block
    rw [FittingSuffix.total_cons]
    cases rest with
    | nil =>
      simp only [List.map_cons, List.map_nil, List.intercalate, List.intersperse, List.flatten_cons,
        List.flatten_nil, List.append_nil]
      omega
    | cons next rest =>
      rw [List.map_cons, List.map_cons, hcons, List.length_append, List.length_append, hsep]
      rw [List.map_cons] at ih
      omega

end Selecting

section Cuts

variable {args : RestoreArgs} {call result : ℕ}

lemma kindAt_of_entry {kind : Content → Bool} {i : ℕ} {entry : TranscriptEntry}
    (h : (visibleEntries args.entries)[i]? = some entry) :
    KindAt kind (visibleBlocks args.entries) i ↔ kind entry.content = true := by
  unfold visibleEntries at h
  rw [List.getElem?_map] at h
  obtain ⟨block, hget, rfl⟩ := Option.map_eq_some_iff.mp h
  unfold KindAt
  simp [hget]

lemma Belongs.call_kinds (h : Belongs (visibleEntries args.entries) call result) :
    ¬ KindAt Content.isToolResult (visibleBlocks args.entries) call ∧
      ¬ KindAt Content.isUserPrompt (visibleBlocks args.entries) call := by
  obtain ⟨-, toolId, hcall, -⟩ := h
  obtain ⟨entry, hget, hentry⟩ := Option.bind_eq_some_iff.mp hcall
  rw [kindAt_of_entry hget, kindAt_of_entry hget]
  unfold toolCallOf at hentry
  cases hcontent : entry.content <;> simp [hcontent, Content.isToolResult, Content.isUserPrompt] at hentry ⊢

lemma Belongs.result_kinds (h : Belongs (visibleEntries args.entries) call result) :
    KindAt Content.isToolResult (visibleBlocks args.entries) result ∧
      ¬ KindAt Content.isUserPrompt (visibleBlocks args.entries) result := by
  obtain ⟨-, toolId, -, hresult, -⟩ := h
  obtain ⟨entry, hget, hentry⟩ := Option.bind_eq_some_iff.mp hresult
  rw [kindAt_of_entry hget, kindAt_of_entry hget]
  unfold toolResultOf at hentry
  cases hcontent : entry.content <;> simp [hcontent, Content.isToolResult, Content.isUserPrompt] at hentry ⊢

lemma separated_of_cut {selection : Selection}
    (hpair : Belongs (visibleEntries args.entries) call result)
    (hselect : selectEntries args = some selection) (hcall : call < restoreStart args)
    (hresult : restoreStart args ≤ result) : Separated args call result := by
  obtain ⟨hnotResult, hnotPrompt⟩ := hpair.call_kinds
  obtain ⟨hisResult, hresultPrompt⟩ := hpair.result_kinds
  obtain ⟨⟨prompt, hprompt⟩, ⟨reply, hle, hreply⟩, -⟩ := selectEntries_eq_some_iff.mp hselect
  have hlen := hisResult.lt_length
  have hfits := fits_restoreStart hselect
  rcases snapCut_cases (elideOlder (visibleBlocks args.entries)) (FittingSuffix.start blockLength
    args.budget (elideOlder (visibleBlocks args.entries))) with
    ⟨-, hsnap⟩ | ⟨hover, hkind, hfirst⟩ | ⟨hover, hnone, hskip⟩
  · change restoreStart args = 0 at hsnap
    omega
  · change KindAt Content.isUserPrompt _ (restoreStart args) at hkind
    rw [kindAt_elideOlder] at hkind
    have hne : restoreStart args ≠ result := by
      intro heq
      rw [heq] at hkind
      exact hresultPrompt hkind
    apply Separated.steered (restoreStart args) _ hcall (by omega) hkind hfits
    · intro p hp hpPrompt hpFits
      rw [fits_iff hpPrompt.lt_length] at hpFits
      apply hfirst p hpFits _ (kindAt_elideOlder.mpr hpPrompt)
      change p < restoreStart args
      omega
    · rw [fits_iff (by omega)]
      omega
  · change restoreStart args = _ at hskip
    have hlenCall : call < (elideOlder (visibleBlocks args.entries)).length := by
      rw [length_elideOlder]
      omega
    have hlenResult : result < (elideOlder (visibleBlocks args.entries)).length := by
      rwa [length_elideOlder]
    rw [hskip] at hcall hresult
    obtain ⟨other, hcut, hother, hkind⟩ := (skipToolResults_le_iff hlenResult).mp hresult
    have hafter : call < other := by
      by_contra hnot
      have hback := (skipToolResults_le_iff hlenCall).mpr ⟨other, hcut, by omega, hkind⟩
      omega
    rw [kindAt_elideOlder] at hkind
    have hne : other ≠ result := by
      rintro rfl
      exact hkind hisResult
    have hstart := le_snapCut (elideOlder (visibleBlocks args.entries)) (FittingSuffix.start
      blockLength args.budget (elideOlder (visibleBlocks args.entries)))
    change _ ≤ restoreStart args at hstart
    have hnoPrompt : ∀ p, KindAt Content.isUserPrompt (visibleBlocks args.entries) p →
        ¬ Fits args p := by
      intro p hp hpFits
      rw [fits_iff hp.lt_length] at hpFits
      exact hnone p hpFits (kindAt_elideOlder.mpr hp)
    have hreplyFits : Fits args reply := hfits.mono hle
    apply Separated.inTurn other reply prompt _ hafter (by omega) hkind _ _ hreplyFits hprompt
      hnoPrompt
    · intro hcallFits
      rw [fits_iff (by omega)] at hcallFits
      have hback := (skipToolResults_le_iff hlenCall).mpr
        ⟨call, hcallFits, le_rfl, fun h => hnotResult (kindAt_elideOlder.mp h)⟩
      omega
    · rw [fits_iff (by omega)]
      exact hcut
    · exact hreply.resolve_left fun h => hnoPrompt reply h hreplyFits

lemma cut_of_separated (hpair : Belongs (visibleEntries args.entries) call result)
    (h : Separated args call result) : (∃ selection, selectEntries args = some selection) ∧
      call < restoreStart args ∧ restoreStart args ≤ result := by
  obtain ⟨hnotResult, hnotPrompt⟩ := hpair.call_kinds
  obtain ⟨hisResult, hresultPrompt⟩ := hpair.result_kinds
  have hlen := hisResult.lt_length
  have hlt := hpair.1
  have hstart := le_snapCut (elideOlder (visibleBlocks args.entries)) (FittingSuffix.start
    blockLength args.budget (elideOlder (visibleBlocks args.entries)))
  change _ ≤ restoreStart args at hstart
  have hcases := snapCut_cases (elideOlder (visibleBlocks args.entries)) (FittingSuffix.start
    blockLength args.budget (elideOlder (visibleBlocks args.entries)))
  change (_ ∧ restoreStart args = 0) ∨ (_ ∧ KindAt _ _ (restoreStart args) ∧
    ∀ q, _ → q < restoreStart args → _) ∨ (_ ∧ _ ∧ restoreStart args = _) at hcases
  cases h with
  | steered prompt overfull after before kind fits first =>
    rw [fits_iff (by omega)] at overfull
    rw [fits_iff (by omega)] at fits
    rcases hcases with ⟨hzero, -⟩ | ⟨-, hkind, hfirst⟩ | ⟨-, hnone, -⟩
    · omega
    · rw [kindAt_elideOlder] at hkind
      have hle : restoreStart args ≤ prompt := by
        by_contra hnot
        exact hfirst prompt fits (by omega) (kindAt_elideOlder.mpr kind)
      have hcall : call < restoreStart args := by
        by_contra hnot
        have hne : restoreStart args ≠ call := by
          intro heq
          rw [heq] at hkind
          exact hnotPrompt hkind
        apply first (restoreStart args) (by omega) hkind
        rw [fits_iff (by omega)]
        exact hstart
      refine ⟨⟨_, selectEntries_eq_some_iff.mpr ⟨⟨_, kind⟩, ⟨prompt, hle, Or.inl kind⟩, rfl⟩⟩,
        hcall, ?_⟩
      omega
    · exact absurd (kindAt_elideOlder.mpr kind) (hnone prompt fits)
  | inTurn other reply prompt overfull after before kind fits reply_kind replyFits asked noPrompt =>
    rw [fits_iff (by omega)] at overfull
    rw [fits_iff (by omega)] at fits
    rw [fits_iff reply_kind.lt_length] at replyFits
    rcases hcases with ⟨hzero, -⟩ | ⟨-, hkind, -⟩ | ⟨-, -, hskip⟩
    · omega
    · rw [kindAt_elideOlder] at hkind
      exact absurd ((fits_iff hkind.lt_length).mpr hstart) (noPrompt _ hkind)
    · have hlenResult : result < (elideOlder (visibleBlocks args.entries)).length := by
        rwa [length_elideOlder]
      have hlenReply : reply < (elideOlder (visibleBlocks args.entries)).length := by
        rw [length_elideOlder]
        exact reply_kind.lt_length
      have hresult : restoreStart args ≤ result := by
        rw [hskip]
        exact (skipToolResults_le_iff hlenResult).mpr
          ⟨other, fits, by omega, fun h => kind (kindAt_elideOlder.mp h)⟩
      have hreply : restoreStart args ≤ reply := by
        rw [hskip]
        exact (skipToolResults_le_iff hlenReply).mpr
          ⟨reply, replyFits, le_rfl, fun h => reply_kind.not_result (kindAt_elideOlder.mp h)⟩
      refine ⟨⟨_, selectEntries_eq_some_iff.mpr ⟨⟨_, asked⟩, ⟨reply, hreply, Or.inr reply_kind⟩, rfl⟩⟩,
        ?_, hresult⟩
      omega

/-- Everything but the pairing of calls and results holds of every selection. -/
lemma restoresWell_of_together {selection : Selection}
    (hselect : selectEntries args = some selection)
    (htogether : ∀ call result, Belongs (visibleEntries args.entries) call result →
      selection.omitted ≤ result → selection.omitted ≤ call) : RestoresWell args selection where
  suffix := by
    obtain ⟨-, -, rfl⟩ := selectEntries_eq_some_iff.mp hselect
    rw [List.map_drop, elideOlder_entries]
    rfl
  fits := by
    have hfits := fits_restoreStart hselect
    obtain ⟨-, -, rfl⟩ := selectEntries_eq_some_iff.mp hselect
    have hjoin := length_join_le ((elideOlder (visibleBlocks args.entries)).drop (restoreStart args))
    unfold Fits at hfits
    dsimp only
    omega
  verbatim := by
    intro i hrecent
    obtain ⟨-, -, rfl⟩ := selectEntries_eq_some_iff.mp hselect
    dsimp only at hrecent ⊢
    rw [List.getElem?_drop]
    by_cases hlt : restoreStart args + i < (visibleBlocks args.entries).length
    · exact elideOlder_recent ((FittingSuffix.start_le_iff _ hlt).mpr hrecent)
    · rw [List.getElem?_eq_none (by rw [length_elideOlder]; omega), List.getElem?_eq_none (by omega)]
  together := htogether

/-- Restored contexts keep calls and results together exactly when no pair of the transcript is
separated. -/
theorem restoresWell_iff (args : RestoreArgs) :
    (∀ context, buildSessionRestoreContext args = some context →
      ∃ selection, selectEntries args = some selection ∧ context = writeContext args selection ∧
        RestoresWell args selection) ↔
    ∀ call result, Belongs (visibleEntries args.entries) call result →
      ¬ Separated args call result := by
  constructor
  · intro hall call result hpair hseparated
    obtain ⟨⟨selection, hselect⟩, hcall, hresult⟩ := cut_of_separated hpair hseparated
    obtain ⟨_, hselect', -, hwell⟩ := hall (writeContext args selection) (by
      rw [buildSessionRestoreContext, hselect, Option.map_some])
    have homitted := (selectEntries_eq_some_iff.mp hselect').2.2
    have hle := hwell.together call result hpair (by rwa [homitted])
    rw [homitted] at hle
    dsimp only at hle
    omega
  · intro hnone context hbuild
    obtain ⟨selection, hselect, rfl⟩ := Option.map_eq_some_iff.mp hbuild
    refine ⟨selection, hselect, rfl, restoresWell_of_together hselect ?_⟩
    intro call result hpair hresult
    have homitted : selection.omitted = restoreStart args := by
      rw [(selectEntries_eq_some_iff.mp hselect).2.2]
    rw [homitted] at hresult ⊢
    by_contra hcall
    exact hnone call result hpair (separated_of_cut hpair hselect (by omega) hresult)

/-- Two calls are open at once, and the budget ends between them and their results. -/
def parallelCalls : RestoreArgs where
  entries :=
    [⟨text "0", false, .userPrompt (text "go") []⟩,
      ⟨text "1", false, .toolCall ⟨text "run", text "a", none, none⟩⟩,
      ⟨text "2", false, .toolCall ⟨text "run", text "b", none, none⟩⟩,
      ⟨text "3", false, .toolResult (text "a") (some (.str "1")) false⟩,
      ⟨text "4", false, .assistantText (text "ok")⟩,
      ⟨text "5", false, .toolResult (text "b") (some (.str "2")) false⟩]
  provider := .claudeDeepseek
  transcriptPath := text "chat.jsonl"
  charBudget := some 80

lemma visibleEntries_parallelCalls : visibleEntries parallelCalls.entries = parallelCalls.entries := rfl

lemma parallelCalls_belongs {call result : ℕ} (toolId : Text) (hlt : call < result)
    (hcall : parallelCalls.entries[call]?.bind toolCallOf = some toolId)
    (hresult : parallelCalls.entries[result]?.bind toolResultOf = some toolId)
    (hbetween : ∀ between < result, call < between →
      parallelCalls.entries[between]?.bind toolCallOf ≠ some toolId) :
    Belongs (visibleEntries parallelCalls.entries) call result := by
  rw [visibleEntries_parallelCalls]
  exact ⟨hlt, toolId, hcall, hresult, fun between hafter hbefore => hbetween between hbefore hafter⟩

theorem parallelCalls_separated : ResultsFollowCalls (visibleEntries parallelCalls.entries) ∧
    ¬ ∀ context, buildSessionRestoreContext parallelCalls = some context →
      ∃ selection, selectEntries parallelCalls = some selection ∧
        context = writeContext parallelCalls selection ∧ RestoresWell parallelCalls selection := by
  have hfirst : Belongs (visibleEntries parallelCalls.entries) 1 3 :=
    parallelCalls_belongs (text "a") (by decide) (by with_unfolding_all decide)
      (by with_unfolding_all decide)
      (by with_unfolding_all decide)
  have hsecond : Belongs (visibleEntries parallelCalls.entries) 2 5 :=
    parallelCalls_belongs (text "b") (by decide) (by with_unfolding_all decide)
      (by with_unfolding_all decide)
      (by with_unfolding_all decide)
  have homitted : (selectEntries parallelCalls).map (·.omitted) = some 4 := by with_unfolding_all decide
  constructor
  · intro result toolId hresult
    rw [visibleEntries_parallelCalls] at hresult
    have hlt : result < 6 := by
      by_contra hnot
      rw [List.getElem?_eq_none (show parallelCalls.entries.length ≤ result by
        change 6 ≤ result
        omega)] at hresult
      cases hresult
    interval_cases result
    · cases hresult
    · cases hresult
    · cases hresult
    · exact ⟨1, hfirst⟩
    · cases hresult
    · exact ⟨2, hsecond⟩
  · intro hall
    obtain ⟨selection, hselect, homit⟩ := Option.map_eq_some_iff.mp homitted
    obtain ⟨_, hselect', -, hwell⟩ := hall (writeContext parallelCalls selection) (by
      rw [buildSessionRestoreContext, hselect, Option.map_some])
    rw [hselect, Option.some.injEq] at hselect'
    subst hselect'
    have hle := hwell.together 2 5 hsecond (by omega)
    omega

end Cuts

end TradeFramework.AgentSession
