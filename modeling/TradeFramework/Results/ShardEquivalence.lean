import TradeFramework.Results.Verification

/-!
# Sharded verification equals one pass

Every verifier scans its range for identities as one pass over the archive would, so merging the
ledgers finds the first duplicate, and the earliest rejected cycle is the one that one pass rejects.
-/

namespace TradeFramework.Results

open Raising (raiseIf)
open Lines (slice lines Ended)
open UniqueScan (Ledger Cause Scan Follows addLedger scan)

section Messages

/-- A text in which the placeholder of the cycle index does not occur. -/
def TokenFree (text : String) : Prop := ¬cycleIndexToken.toList <:+: text.toList

instance (text : String) : Decidable (TokenFree text) :=
  inferInstanceAs (Decidable (¬cycleIndexToken.toList <:+: text.toList))

/-- A `ValueError` with a text that does not contain the placeholder. -/
def PlainError (e : PyError) : Prop := ∃ message, e = .valueError message ∧ message ≠ "" ∧ TokenFree message

/-- A family of errors in which the index of the cycle can be filled in later. -/
def Relabels (raised : String → PyError) : Prop :=
  ∃ message, message ≠ "" ∧ raised cycleIndexToken = .valueError message ∧
    ∀ index : ℕ, raised (toString index) = .valueError (replaceIndexToken message index)

lemma cycleIndexToken_eq : ∃ rest, cycleIndexToken.toList = '_' :: rest := ⟨_, rfl⟩

lemma replaceIndexToken_of_tokenFree {message : String} (h : TokenFree message) (index : ℕ) :
    replaceIndexToken message index = message := by
  unfold replaceIndexToken
  rw [Substitution.replaceAll_of_not_infix h, String.ofList_toList]

lemma relabels_of_plainError {e : PyError} (h : PlainError e) : Relabels fun _ => e := by
  obtain ⟨message, rfl, hne, hfree⟩ := h
  refine ⟨message, hne, rfl, fun index => ?_⟩
  rw [replaceIndexToken_of_tokenFree hfree]

/-- A message that names the place of the cycle. -/
lemma relabels_label {raised : String → PyError} {tail : String} (hfree : TokenFree tail)
    (h : ∀ label, raised label = .valueError ("Result cycles[" ++ label ++ tail)) : Relabels raised := by
  refine ⟨_, ?_, h cycleIndexToken, fun index => ?_⟩
  · intro hempty
    have hlength := congrArg String.length hempty
    simp [String.length_append] at hlength
  · rw [h]
    rw [PyError.valueError.injEq]
    obtain ⟨rest, htoken⟩ := cycleIndexToken_eq
    unfold TokenFree at hfree
    unfold replaceIndexToken
    apply String.toList_inj.mp
    rw [htoken] at hfree
    simp only [String.toList_append, List.append_assoc, String.toList_ofList, htoken]
    rw [Substitution.replaceAll_append_left (by decide), Substitution.replaceAll_pattern,
      Substitution.replaceAll_of_not_infix hfree]

lemma tokenFree_join {text before after : String} (c : Char) (hc : c ∉ cycleIndexToken.toList)
    (hbefore : TokenFree before) (hafter : TokenFree after)
    (htext : text.toList = before.toList ++ c :: after.toList) : TokenFree text := by
  unfold TokenFree
  rw [htext]
  exact Substitution.not_infix_append_cons hc hbefore hafter

/-- A list of names, after a text that ends with a blank. -/
lemma tokenFree_names {text : String} {names : List String} (htext : TokenFree text)
    (hnames : ∀ name ∈ names, TokenFree name) :
    TokenFree (text ++ " " ++ ", ".intercalate names) := by
  have hlist : TokenFree (", ".intercalate names) := by
    induction names with
    | nil => decide
    | cons name rest ih =>
      have hname : TokenFree name := hnames name (by simp)
      have hrest := ih fun other hother => hnames other (by simp [hother])
      cases rest with
      | nil => simpa [TokenFree] using hname
      | cons next rest =>
        have hblank : TokenFree (" " ++ ", ".intercalate (next :: rest)) :=
          tokenFree_join ' ' (by decide) (by decide : TokenFree "") hrest (by simp)
        apply tokenFree_join ',' (by decide) hname hblank
        simp [String.toList_intercalate]
  exact tokenFree_join ' ' (by decide) htext hlist (by simp)

end Messages

section Items

variable (encodeText : TextEncoder) (validateCycleData : Json → Except PyError Unit)

/-- The identity a line claims, if it gets that far. -/
def itemKey : Except PyError Json → Option String
  | .error _ => none
  | .ok cycle => (cycleIdentity cycle cycleIndexToken).toOption

/-- Whether the content of a cycle is valid. -/
def itemSound : Except PyError Json → Bool
  | .error _ => false
  | .ok cycle => (cycleContent validateCycleData cycle cycleIndexToken).toBool

/-- The exception a rejected line raises, with the text that stands for its index. -/
def itemError (rejected : Cause × Except PyError Json) (index : String) : PyError :=
  match rejected with
  | (.duplicate, _) => identityError
  | (.broken, .error e) => e
  | (.broken, .ok cycle) =>
    match cycleIdentity cycle index, cycleContent validateCycleData cycle index with
    | .error e, _ => e
    | .ok _, .error e => e
    | .ok _, .ok () => identityError

/-- The messages about a line hold no placeholder: neither those of the decoder and of the data
validator, nor the names of the fields. The identity it claims can be encoded. -/
def ItemPlain : Except PyError Json → Prop
  | .error e => PlainError e
  | .ok cycle => (∀ name ∈ Dict.keys (membersOf cycle), TokenFree name) ∧
      (∀ e, validateCycleData (field (membersOf cycle) "data") = .error e → PlainError e) ∧
      ∀ cycleId, itemKey (.ok cycle) = some cycleId → encodeText cycleId = .ok ()

lemma plainError_identityError : PlainError identityError := by
  refine ⟨_, rfl, by decide, ?_⟩
  unfold TokenFree
  decide

def unknownFields (fields : List (String × Json)) (allowed : List String) : List String :=
  ((Dict.keys fields).filter (· ∉ allowed)).insertionSort (· ≤ ·)

def missingFields (fields : List (String × Json)) (required : List String) : List String :=
  (required.filter fun name => !Dict.has fields name).insertionSort (· ≤ ·)

lemma requireExactFields_obj (fields : List (String × Json)) (allowed required : List String)
    (label : String) : requireExactFields (.obj fields) allowed required label =
      if unknownFields fields allowed ≠ [] then .error (.valueError
        (label ++ " contains unsupported field(s): " ++ ", ".intercalate (unknownFields fields allowed)))
      else if missingFields fields required ≠ [] then .error (.valueError
        (label ++ " is missing required field(s): " ++ ", ".intercalate (missingFields fields required)))
      else .ok fields := by
  change (Except.mapError _ (raiseIf (unknownFields fields allowed ≠ []) _ >>= fun _ =>
    raiseIf (missingFields fields required ≠ []) _ >>= fun _ => pure fields)) = _
  unfold Raising.raiseIf
  by_cases hunknown : unknownFields fields allowed ≠ []
  · rw [if_pos hunknown, if_pos hunknown]
    rfl
  · rw [if_neg hunknown, if_neg hunknown]
    by_cases hmissing : missingFields fields required ≠ []
    · rw [if_pos hmissing, if_pos hmissing]
      rfl
    · rw [if_neg hmissing, if_neg hmissing]
      rfl

lemma exactFields_cases (cycle : Json) (hnames : ∀ name ∈ Dict.keys (membersOf cycle), TokenFree name) :
    (∃ fields, ∀ index : String,
      requireExactFields cycle cycleFields cycleFields s!"Result cycles[{index}]" = .ok fields) ∨
    ∃ raised, Relabels raised ∧ ∀ index : String,
      requireExactFields cycle cycleFields cycleFields s!"Result cycles[{index}]" =
        .error (raised index) := by
  by_cases hobject : ∃ fields, cycle = .obj fields
  · obtain ⟨fields, rfl⟩ := hobject
    simp only [requireExactFields_obj]
    by_cases hunknown : unknownFields fields cycleFields ≠ []
    · right
      have hfree : TokenFree ("] contains unsupported field(s):" ++ " " ++
          ", ".intercalate (unknownFields fields cycleFields)) := by
        apply tokenFree_names (by decide)
        intro name hname
        apply hnames
        have hmem := (List.mem_insertionSort _).mp hname
        exact (List.mem_filter.mp hmem).1
      refine ⟨_, relabels_label hfree fun label => rfl, fun index => ?_⟩
      rw [if_pos hunknown]
      congr 2
      apply String.toList_inj.mp
      simp [toString]
    · by_cases hmissing : missingFields fields cycleFields ≠ []
      · right
        have hfree : TokenFree ("] is missing required field(s):" ++ " " ++
            ", ".intercalate (missingFields fields cycleFields)) := by
          apply tokenFree_names (by decide)
          intro name hname
          have hmem := (List.mem_insertionSort _).mp hname
          have hfield := (List.mem_filter.mp hmem).1
          have hfields : ∀ other ∈ cycleFields, TokenFree other := by decide
          exact hfields name hfield
        refine ⟨_, relabels_label hfree fun label => rfl, fun index => ?_⟩
        rw [if_neg hunknown, if_pos hmissing]
        congr 2
        apply String.toList_inj.mp
        simp [toString]
      · left
        refine ⟨fields, fun index => ?_⟩
        rw [if_neg hunknown, if_neg hmissing]
  · right
    have hfree : TokenFree "] must be an object." := by decide
    refine ⟨_, relabels_label hfree fun label => rfl, fun index => ?_⟩
    have hraised : requireExactFields cycle cycleFields cycleFields s!"Result cycles[{index}]" =
        .error (.valueError (s!"Result cycles[{index}]" ++ " must be an object.")) := by
      cases cycle with
      | obj fields => exact absurd ⟨fields, rfl⟩ hobject
      | _ => rfl
    rw [hraised]
    congr 2
    apply String.toList_inj.mp
    simp [toString]

/-- The checks before the claim do not depend on the index, and their messages name it. -/
lemma cycleIdentity_cases (cycle : Json) (hnames : ∀ name ∈ Dict.keys (membersOf cycle), TokenFree name) :
    (∃ cycleId, cycleId ≠ "" ∧ ∀ index, cycleIdentity cycle index = .ok cycleId) ∨
      ∃ raised, Relabels raised ∧ ∀ index, cycleIdentity cycle index = .error (raised index) := by
  unfold cycleIdentity
  rcases exactFields_cases cycle hnames with ⟨fields, hfields⟩ | ⟨raised, hraised, herror⟩
  · simp only [hfields, Raising.ok_bind]
    by_cases hversion : pythonEqual (field fields "schemaVersion") (.int 3) = false
    · right
      have hfree : TokenFree "] schemaVersion 3 is required." := by decide
      refine ⟨_, relabels_label hfree fun label => rfl, fun index => ?_⟩
      rw [Raising.raiseIf, if_pos hversion]
      change Except.error _ = _
      congr 2
    · cases hid : textOf (field fields "cycleId") with
      | none =>
        right
        refine ⟨_, relabels_of_plainError plainError_identityError, fun index => ?_⟩
        rw [Raising.raiseIf, if_neg hversion]
        rfl
      | some cycleId =>
        left
        have hne : cycleId ≠ "" := by
          intro hempty
          unfold textOf at hid
          split at hid
          · split_ifs at hid with htext
            exact htext ((Option.some.inj hid).trans hempty)
          · simp at hid
        refine ⟨cycleId, hne, fun index => ?_⟩
        rw [Raising.raiseIf, if_neg hversion]
        rfl
  · right
    refine ⟨raised, hraised, fun index => ?_⟩
    rw [herror]
    rfl

/-- The checks after the claim do not depend on the index either. -/
lemma cycleContent_cases (cycle : Json)
    (hdata : ∀ e, validateCycleData (field (membersOf cycle) "data") = .error e → PlainError e) :
    (∀ index, cycleContent validateCycleData cycle index = .ok ()) ∨
      ∃ raised, Relabels raised ∧
        ∀ index, cycleContent validateCycleData cycle index = .error (raised index) := by
  unfold cycleContent
  by_cases htime : textOf (field (membersOf cycle) "decisionTime") = none
  · right
    have hfree : TokenFree "].decisionTime is required." := by decide
    refine ⟨_, relabels_label hfree fun label => rfl, fun index => ?_⟩
    rw [Raising.raiseIf, if_pos htime]
    change Except.error _ = _
    congr 2
  · have hchecked : ∀ e : PyError, (raiseIf (textOf (field (membersOf cycle) "decisionTime") = none) e >>=
        fun _ => validateCycleData (field (membersOf cycle) "data")) =
          validateCycleData (field (membersOf cycle) "data") := by
      intro e
      rw [Raising.raiseIf, if_neg htime]
      rfl
    simp only [hchecked]
    cases hvalid : validateCycleData (field (membersOf cycle) "data") with
    | ok u => exact .inl fun _ => rfl
    | error e => exact .inr ⟨_, relabels_of_plainError (hdata e hvalid), fun _ => rfl⟩

/-- A rejected line raises an error in which its index can be filled in later. -/
lemma relabels_itemError {item : Except PyError Json} (hplain : ItemPlain encodeText validateCycleData item)
    {cause : Cause}
    (hcause : cause = .broken → ∀ k, itemKey item = some k → itemSound validateCycleData item = false) :
    Relabels (itemError validateCycleData (cause, item)) := by
  cases cause with
  | duplicate => exact relabels_of_plainError plainError_identityError
  | broken =>
    cases item with
    | error e => exact relabels_of_plainError hplain
    | ok cycle =>
      rcases cycleIdentity_cases cycle hplain.1 with ⟨cycleId, -, hid⟩ | ⟨raised, hraised, hid⟩
      · rcases cycleContent_cases validateCycleData cycle hplain.2.1 with hok | ⟨raised, hraised, herror⟩
        · have hkey : itemKey (.ok cycle) = some cycleId := by simp [itemKey, hid, Except.toOption]
          have hsound := hcause rfl cycleId hkey
          simp [itemSound, hok, Except.toBool] at hsound
        · convert hraised using 1
          funext index
          simp only [itemError, hid, herror]
      · convert hraised using 1
        funext index
        simp only [itemError, hid]

/-- `require_cycle` on a store of identities, for a line whose messages hold no placeholder. -/
lemma requireCycle_eq {σ : Type} (claim : σ → String → Except PyError Bool × σ) {cycle : Json} (index : String)
    (cycleIds : σ) (hplain : ItemPlain encodeText validateCycleData (.ok cycle)) :
    requireCycle validateCycleData claim cycle index cycleIds =
      match itemKey (.ok cycle) with
      | none => (.error (itemError validateCycleData (.broken, .ok cycle) index), cycleIds)
      | some cycleId => match claim cycleIds cycleId with
        | (.error e, claimed) => (.error e, claimed)
        | (.ok false, claimed) => (.error identityError, claimed)
        | (.ok true, claimed) =>
          if itemSound validateCycleData (.ok cycle) then (.ok cycleId, claimed)
          else (.error (itemError validateCycleData (.broken, .ok cycle) index), claimed) := by
  unfold requireCycle
  rcases cycleIdentity_cases cycle hplain.1 with ⟨cycleId, -, hid⟩ | ⟨raised, -, hid⟩
  · have hkey : itemKey (.ok cycle) = some cycleId := by simp [itemKey, hid, Except.toOption]
    rw [hid, hkey]
    dsimp only
    obtain ⟨unique, claimed⟩ := claim cycleIds cycleId
    rcases unique with e | _ | _
    · rfl
    · rfl
    · simp only [Raising.ok_bind, Raising.raiseIf, Bool.true_eq_false, if_false]
      rcases cycleContent_cases validateCycleData cycle hplain.2.1 with hok | ⟨raised, -, herror⟩
      · have hsound : itemSound validateCycleData (.ok cycle) = true := by simp [itemSound, hok, Except.toBool]
        rw [if_pos hsound, hok]
        rfl
      · have hsound : ¬itemSound validateCycleData (.ok cycle) = true := by
          simp [itemSound, herror, Except.toBool]
        have hraised : itemError validateCycleData (.broken, .ok cycle) index = raised index := by
          simp only [itemError, hid, herror]
        rw [if_neg hsound, herror, hraised]
        rfl
  · have hkey : itemKey (.ok cycle) = none := by simp [itemKey, hid, Except.toOption]
    have hraised : itemError validateCycleData (.broken, .ok cycle) index = raised index := by
      simp only [itemError, hid]
    rw [hid, hkey, hraised]

end Items

section Loops

variable {encodeText : TextEncoder} (validateCycleData : Json → Except PyError Unit)

/-- The summary of cycles that claimed the identities of a ledger. -/
def summaryOf (ledger : Ledger String) : CycleSummary where
  cycleCount := ledger.length
  firstCycleId := ledger.head?.map Prod.fst
  lastCycleId := ledger.getLast?.map Prod.fst

/-- The scan of lines for unique identities. -/
def scanItems (ledger : Ledger String) (items : List (Except PyError Json)) :
    Scan (Except PyError Json) String :=
  scan itemKey (itemSound validateCycleData) ledger ledger.length items

/-- How a verification ends whose scan is given. -/
def verdict (s : Scan (Except PyError Json) String) : Except Failure CycleSummary :=
  match s.rejected with
  | some rejected => .error (.cycle s.count (itemError validateCycleData rejected (toString s.count)))
  | none => .ok (summaryOf s.ledger)

variable {validateCycleData} {ledger : Ledger String}

lemma summaryOf_concat (cycleId : String) (position : ℕ) :
    summaryOf (ledger ++ [(cycleId, position)]) = {
      cycleCount := (summaryOf ledger).cycleCount + 1
      firstCycleId := (summaryOf ledger).firstCycleId <|> some cycleId
      lastCycleId := some cycleId } := by
  unfold summaryOf
  rw [List.getLast?_concat, List.length_append]
  cases ledger <;> rfl

lemma scanItems_none {item : Except PyError Json} {items : List (Except PyError Json)}
    (hkey : itemKey item = none) :
    scanItems validateCycleData ledger (item :: items) = ⟨ledger, ledger.length, some (.broken, item)⟩ :=
  UniqueScan.scan_none hkey

lemma scanItems_some {item : Except PyError Json} {items : List (Except PyError Json)} {cycleId : String}
    (hkey : itemKey item = some cycleId) :
    scanItems validateCycleData ledger (item :: items) =
      if UniqueScan.Claimed ledger cycleId then ⟨ledger, ledger.length, some (.duplicate, item)⟩
      else if itemSound validateCycleData item then
        scanItems validateCycleData (ledger ++ [(cycleId, ledger.length)]) items
      else ⟨ledger ++ [(cycleId, ledger.length)], ledger.length, some (.broken, item)⟩ := by
  have hlength : (ledger ++ [(cycleId, ledger.length)]).length = ledger.length + 1 := by simp
  unfold scanItems
  rw [hlength, UniqueScan.scan, hkey]

/-- One pass over all cycles ends as their scan says. -/
lemma requireCycles_eq (ledger : Ledger String) {items : List (Except PyError Json)}
    (hplain : ∀ item ∈ items, ItemPlain encodeText validateCycleData item) :
    requireCycles validateCycleData items (ledger.map Prod.fst) (summaryOf ledger) =
      verdict validateCycleData (scanItems validateCycleData ledger items) := by
  induction items generalizing ledger with
  | nil => rfl
  | cons item items ih =>
    cases item with
    | error e =>
      rw [scanItems_none rfl]
      rfl
    | ok cycle =>
      rw [requireCycles, requireCycle_eq encodeText validateCycleData claimShared _ _ (hplain _ (by simp))]
      cases hkey : itemKey (.ok cycle) with
      | none =>
        rw [scanItems_none hkey]
        rfl
      | some cycleId =>
        rw [scanItems_some hkey]
        by_cases hclaimed : UniqueScan.Claimed ledger cycleId
        · have hclaim : claimShared (ledger.map Prod.fst) cycleId = (.ok false, ledger.map Prod.fst) :=
            if_pos hclaimed
          rw [if_pos hclaimed]
          simp only [hclaim]
          rfl
        · have hclaim : claimShared (ledger.map Prod.fst) cycleId =
              (.ok true, (ledger ++ [(cycleId, ledger.length)]).map Prod.fst) := by
            rw [List.map_append]
            exact if_neg hclaimed
          rw [if_neg hclaimed]
          simp only [hclaim]
          by_cases hsound : itemSound validateCycleData (.ok cycle) = true
          · rw [if_pos hsound, if_pos hsound]
            have hrest := ih (ledger ++ [(cycleId, ledger.length)])
              fun item hitem => hplain item (by simp [hitem])
            rw [summaryOf_concat] at hrest
            exact hrest
          · rw [if_neg hsound, if_neg hsound]
            rfl

/-- The state of a verifier that has validated the cycles of its ledger. -/
structure Passed (ledger : Ledger String) (s : VerifierState) : Prop where
  identities : s.ledger.identities = ledger
  summary : ⟨s.validatedCount, s.firstCycleId, s.lastCycleId⟩ = summaryOf ledger
  positions : ∀ e ∈ ledger, e.2 < ledger.length
  texts : ∀ e ∈ ledger, e.1 ≠ ""

lemma Passed.boundaries {s : VerifierState} (h : Passed ledger s) :
    s.firstCycleId ≠ some "" ∧ s.lastCycleId ≠ some "" := by
  have hsummary := h.summary
  unfold summaryOf at hsummary
  injection hsummary with _ hfirst hlast
  constructor
  · rw [hfirst]
    intro hempty
    obtain ⟨e, he, htext⟩ := Option.map_eq_some_iff.mp hempty
    exact h.texts e (List.mem_of_head? he) htext
  · rw [hlast]
    intro hempty
    obtain ⟨e, he, htext⟩ := Option.map_eq_some_iff.mp hempty
    exact h.texts e (List.mem_of_getLast? he) htext

/-- The table refuses exactly the identities that are claimed already, of those that can be encoded. -/
lemma Passed.claim {s : VerifierState} (h : Passed ledger s) {cycleId : String}
    (hencodes : encodeText cycleId = .ok ()) :
    (s.ledger.selectCycle ledger.length).claim encodeText cycleId =
      if UniqueScan.Claimed ledger cycleId then (.ok false, ⟨ledger, some ledger.length⟩)
      else (.ok true, ⟨ledger ++ [(cycleId, ledger.length)], some ledger.length⟩) := by
  have hselected : s.ledger.selectCycle ledger.length = ⟨ledger, some ledger.length⟩ := by
    rw [← h.identities]
    rfl
  have hany : (ledger.any fun e => e.1 = cycleId ∨ e.2 = ledger.length) =
      decide (UniqueScan.Claimed ledger cycleId) := by
    apply Bool.eq_iff_iff.mpr
    rw [List.any_eq_true, decide_eq_true_eq]
    constructor
    · rintro ⟨e, he, hclash⟩
      rcases of_decide_eq_true hclash with htext | hposition
      · exact List.mem_map.mpr ⟨e, he, htext⟩
      · have hlt := h.positions e he
        omega
    · intro hclaimed
      obtain ⟨e, he, htext⟩ := List.mem_map.mp hclaimed
      exact ⟨e, he, decide_eq_true (.inl htext)⟩
  rw [hselected]
  unfold CycleIdentityLedger.claim
  simp only [hencodes, hany, decide_eq_true_eq]
  rfl

lemma Passed.next {s : VerifierState} (h : Passed ledger s) {cycleId : String} (hne : cycleId ≠ "")
    (identities : CycleIdentityLedger)
    (hidentities : identities.identities = ledger ++ [(cycleId, ledger.length)]) :
    Passed (ledger ++ [(cycleId, ledger.length)]) {
      ledger := identities
      validatedCount := s.validatedCount + 1
      firstCycleId := s.firstCycleId <|> some cycleId
      lastCycleId := some cycleId } := by
  constructor
  · exact hidentities
  · rw [summaryOf_concat, ← h.summary]
  · intro e he
    rw [List.length_append, List.length_singleton]
    rcases List.mem_append.mp he with he | he
    · have hlt := h.positions e he
      omega
    · rw [List.mem_singleton.mp he]
      omega
  · intro e he
    rcases List.mem_append.mp he with he | he
    · exact h.texts e he
    · rw [List.mem_singleton.mp he]
      exact hne

variable (validateCycleData) in
/-- What the cycle loop of a verifier ends with. -/
structure LoopEnd (s : Scan (Except PyError Json) String) (r : VerifierState × Option PyError) : Prop where
  identities : r.1.ledger.identities = s.ledger
  count : r.1.validatedCount = s.count
  raised : r.2 = s.rejected.map fun rejected => itemError validateCycleData rejected cycleIndexToken
  passed : s.rejected = none → Passed s.ledger r.1
  boundaries : r.1.firstCycleId ≠ some "" ∧ r.1.lastCycleId ≠ some ""

/-- The cycle loop of a verifier ends as the scan of its lines says. -/
lemma verifyCycles_end {items : List (Except PyError Json)} {s : VerifierState}
    (hplain : ∀ item ∈ items, ItemPlain encodeText validateCycleData item) (h : Passed ledger s) :
    LoopEnd validateCycleData (scanItems validateCycleData ledger items)
      (verifyCycles encodeText validateCycleData items ledger.length s) := by
  have hcount : s.validatedCount = ledger.length := congrArg CycleSummary.cycleCount h.summary
  induction items generalizing ledger s with
  | nil => exact ⟨h.identities, hcount, rfl, fun _ => h, h.boundaries⟩
  | cons item items ih =>
    cases item with
    | error e =>
      rw [scanItems_none rfl]
      exact ⟨h.identities, hcount, rfl, fun hnone => (by cases hnone), h.boundaries⟩
    | ok cycle =>
      have hcycle := hplain _ List.mem_cons_self
      rw [verifyCycles, requireCycle_eq encodeText validateCycleData _ _ _ hcycle]
      cases hkey : itemKey (.ok cycle) with
      | none =>
        rw [scanItems_none hkey]
        exact ⟨h.identities, hcount, rfl, fun hnone => (by cases hnone), h.boundaries⟩
      | some cycleId =>
        rw [scanItems_some hkey]
        simp only [h.claim (hcycle.2.2 cycleId hkey)]
        by_cases hclaimed : UniqueScan.Claimed ledger cycleId
        · simp only [if_pos hclaimed]
          exact ⟨rfl, hcount, rfl, fun hnone => (by cases hnone), h.boundaries⟩
        · simp only [if_neg hclaimed]
          by_cases hsound : itemSound validateCycleData (.ok cycle) = true
          · have hne : cycleId ≠ "" := by
              rcases cycleIdentity_cases cycle hcycle.1 with ⟨other, hne, hid⟩ | ⟨raised, -, hid⟩
              · simp only [itemKey, hid, Except.toOption, Option.some.injEq] at hkey
                exact hkey ▸ hne
              · simp [itemKey, hid, Except.toOption] at hkey
            have hnext := h.next hne ⟨ledger ++ [(cycleId, ledger.length)], some ledger.length⟩ rfl
            have hrest := ih (fun item hitem => hplain item (by simp [hitem])) hnext (by simp [hcount])
            rw [List.length_append, List.length_singleton] at hrest
            simp only [if_pos hsound]
            exact hrest
          · simp only [if_neg hsound]
            exact ⟨rfl, hcount, rfl, fun hnone => (by cases hnone), h.boundaries⟩

end Loops

section Shards

variable {encodeText : TextEncoder} {validateCycleData : Json → Except PyError Unit}
variable {loads : Bytes → Except PyError Json} {file : Bytes} {ledger : Ledger String}

lemma verifyCycles_untilError (items : List (Except PyError Json)) (localIndex : ℕ) (s : VerifierState) :
    verifyCycles encodeText validateCycleData (untilError items) localIndex s =
      verifyCycles encodeText validateCycleData items localIndex s := by
  induction items generalizing localIndex s with
  | nil => rfl
  | cons item items ih =>
    cases item with
    | error e => rfl
    | ok cycle =>
      rw [untilError, verifyCycles, verifyCycles]
      simp only [ih]

lemma requireCycles_untilError (items : List (Except PyError Json)) (identities : List String)
    (s : CycleSummary) : requireCycles validateCycleData (untilError items) identities s =
      requireCycles validateCycleData items identities s := by
  induction items generalizing identities s with
  | nil => rfl
  | cons item items ih =>
    cases item with
    | error e => rfl
    | ok cycle =>
      rw [untilError, requireCycles, requireCycles]
      simp only [ih]

lemma iterFramedCycleValues_eq (final : Bool) {start stop : ℕ} (hstart : start < stop)
    (hstop : stop ≤ file.length) (hended : Ended newline (slice file start stop)) :
    iterFramedCycleValues loads file start stop final =
      untilError (rangeValues loads final (lines newline (slice file start stop))) := by
  have hrange : requireFileRange start stop = .ok () := by
    unfold requireFileRange
    rw [Raising.raiseIf_eq_ok]
    omega
  unfold iterFramedCycleValues
  rw [hrange]
  exact framedValuesFrom_eq final hstart.le hstop hended

/-- The values on the cycle lines of a range. -/
def rangeItems (loads : Bytes → Except PyError Json) (file : Bytes) (range : ByteRange) :
    List (Except PyError Json) :=
  rangeValues loads range.final (lines newline (slice file range.start range.stop))

/-- A range that starts and ends at line boundaries. -/
structure LineRange (file : Bytes) (range : ByteRange) : Prop where
  start_lt : range.start < range.stop
  stop_le : range.stop ≤ file.length
  ended : Ended newline (slice file range.start range.stop)

/-- The outcome that a verifier writes, and its ledger, are those of the scan of its lines. -/
lemma verifySpecification_eq {range : ByteRange} {shardIndex : ℕ} (hrange : LineRange file range)
    (hshard : shardIndex < maxResultVerificationShards)
    (hplain : ∀ item ∈ rangeItems loads file range, ItemPlain encodeText validateCycleData item) :
    let part := scanItems validateCycleData [] (rangeItems loads file range)
    ∃ outcome, verifySpecification encodeText validateCycleData loads file shardIndex range =
        .ok (outcome, part.ledger) ∧
      requireVerifierOutcome shardIndex outcome = .ok () ∧
      outcome.lineCount = (rangeItems loads file range).length ∧
      match part.rejected with
      | none => outcome.status = .verified ∧
          (outcome.validatedCount = outcome.lineCount ∧ outcome.lineCount ≠ 0) ∧
          ⟨outcome.lineCount, outcome.firstCycleId, outcome.lastCycleId⟩ = summaryOf part.ledger
      | some rejected => outcome.status = .rejected ∧ outcome.errorLocalIndex = some part.count ∧
          ∃ message, outcome.errorMessage = some message ∧ ∀ index : ℕ,
            itemError validateCycleData rejected (toString index) =
              .valueError (replaceIndexToken message index) := by
  intro part
  have hlines := countFramedCycleLines_eq hrange.start_lt hrange.stop_le hrange.ended
  have hlength : (rangeItems loads file range).length = _ := length_rangeValues _ _
  rw [← hlength] at hlines
  have hpos : 0 < (rangeItems loads file range).length := by
    rw [hlength]
    apply List.length_pos_of_ne_nil
    apply Lines.lines_ne_nil
    apply List.ne_nil_of_length_pos
    rw [Lines.length_slice hrange.stop_le]
    have hlt := hrange.start_lt
    omega
  have hvalues : iterFramedCycleValues loads file range.start range.stop range.final = _ :=
    iterFramedCycleValues_eq range.final hrange.start_lt hrange.stop_le hrange.ended
  have hstart : Passed [] ({} : VerifierState) := ⟨rfl, rfl, by simp, by simp⟩
  have hend : LoopEnd validateCycleData part
      (verifyCycles encodeText validateCycleData (rangeItems loads file range) 0 {}) :=
    verifyCycles_end hplain hstart
  have houtcome := UniqueScan.scan_outcome itemKey (itemSound validateCycleData)
    (rangeItems loads file range) [] 0
  rw [← verifyCycles_untilError] at hend
  unfold rangeItems at hend
  rw [← hvalues] at hend
  unfold verifySpecification
  rw [Raising.raiseIf, if_neg (by omega), hlines]
  simp only [Raising.ok_bind, pure_bind]
  generalize verifyCycles encodeText validateCycleData
    (iterFramedCycleValues loads file range.start range.stop range.final) 0 {} = run at hend ⊢
  obtain ⟨s, raised⟩ := run
  cases hrejected : part.rejected with
  | none =>
    have hraised : raised = none := by
      have h := hend.raised
      rwa [hrejected] at h
    have hpassed := hend.passed hrejected
    have hcount : s.validatedCount = (rangeItems loads file range).length := by
      have h := hend.count
      simp only [part, scanItems, List.length_nil] at hrejected
      simp only [hrejected, Nat.zero_add] at houtcome
      exact h.trans houtcome
    have hsummary := hpassed.summary
    have hledger : s.validatedCount = part.ledger.length := congrArg CycleSummary.cycleCount hsummary
    have hfirst : s.firstCycleId = _ := congrArg CycleSummary.firstCycleId hsummary
    have hlast : s.lastCycleId = _ := congrArg CycleSummary.lastCycleId hsummary
    have hne : part.ledger ≠ [] := List.ne_nil_of_length_pos (by omega)
    have hsome : s.firstCycleId ≠ none ∧ s.lastCycleId ≠ none := by
      rw [hfirst, hlast]
      simp [summaryOf, hne]
    subst hraised
    refine ⟨{
      status := .verified, shardIndex := shardIndex, lineCount := (rangeItems loads file range).length
      validatedCount := s.validatedCount, firstCycleId := s.firstCycleId
      lastCycleId := s.lastCycleId }, ?_, ?_, rfl, rfl, ⟨hcount, hpos.ne'⟩, ?_⟩
    · dsimp only
      rw [Raising.raiseIf, if_neg (by omega), hend.identities]
      rfl
    · unfold requireVerifierOutcome
      dsimp only
      have hboundaries := hend.boundaries
      rw [Raising.raiseIf, if_neg (by omega), Raising.raiseIf, if_neg (by tauto), Raising.raiseIf,
        if_neg (by simp [hsome]; omega)]
      rfl
    · rw [← hcount]
      exact hsummary
  | some rejected =>
    obtain ⟨cause, item⟩ := rejected
    simp only [part, scanItems, List.length_nil] at hrejected
    simp only [hrejected, Nat.zero_add] at houtcome
    obtain ⟨hcount, hmem, hcause⟩ := houtcome
    obtain ⟨message, hmessage, herror, hindex⟩ :=
      relabels_itemError encodeText validateCycleData (hplain item hmem) hcause
    have hraised : raised = some (.valueError message) := by
      rw [← herror]
      have h := hend.raised
      rwa [show part.rejected = _ from hrejected] at h
    have hvalidated : s.validatedCount = part.count := hend.count
    have hbefore : part.count < (rangeItems loads file range).length := hcount
    subst hraised
    refine ⟨{
      status := .rejected, shardIndex := shardIndex, lineCount := (rangeItems loads file range).length
      validatedCount := s.validatedCount, firstCycleId := s.firstCycleId
      lastCycleId := s.lastCycleId, errorLocalIndex := some s.validatedCount
      errorType := some "ValueError", errorMessage := some message },
      ?_, ?_, rfl, rfl, ?_, message, rfl, hindex⟩
    · dsimp only
      rw [hend.identities]
      rfl
    · unfold requireVerifierOutcome
      dsimp only
      have hboundaries := hend.boundaries
      rw [Raising.raiseIf, if_neg (by omega), Raising.raiseIf, if_neg (by tauto), Raising.raiseIf,
        if_neg (by simp [hmessage]; omega)]
      rfl
    · rw [hvalidated]

/-- The merged ledgers of the shards that have been read. -/
def mergedLedgers (entries : List (Ledger String × ℕ)) : Except ℕ (Ledger String) :=
  entries.foldlM (fun identities e => addLedger identities e.1 e.2) []

lemma mergedLedgers_concat (entries : List (Ledger String × ℕ)) (ledger : Ledger String) (base : ℕ) :
    mergedLedgers (entries ++ [(ledger, base)]) =
      mergedLedgers entries >>= fun identities => addLedger identities ledger base := by
  unfold mergedLedgers
  rw [List.foldlM_append]
  congr 1
  funext identities
  simp

lemma follows_next {items next : List (Except PyError Json)} {entries : List (Ledger String × ℕ)} {base : ℕ}
    (h : Follows (mergedLedgers entries) base none (scanItems validateCycleData [] items)) :
    let part := scanItems validateCycleData [] next
    Follows (mergedLedgers (entries ++ [(part.ledger, base)])) (base + part.count) part.rejected
      (scanItems validateCycleData [] (items ++ next)) := by
  intro part
  rw [mergedLedgers_concat]
  exact UniqueScan.follows_append h

/-- A duplicate is raised before a rejection that does not precede it. -/
lemma raiseEarliest_duplicate {entries : List (Ledger String × ℕ)} {position : ℕ}
    (hmerged : mergedLedgers entries = .error position) {rejection : Option (ℕ × String)}
    (hle : ∀ index message, rejection = some (index, message) → position ≤ index) :
    raiseEarliestCycleDomainError entries rejection = .error (.cycle position identityError) := by
  have hmerge : mergeCycleIdentityLedgers entries = some position := by
    unfold mergeCycleIdentityLedgers
    unfold mergedLedgers at hmerged
    rw [hmerged]
  unfold raiseEarliestCycleDomainError
  rw [hmerge]
  cases rejection with
  | none => rfl
  | some rejected => exact if_pos (hle rejected.1 rejected.2 rfl)

lemma raiseEarliest_distinct {entries : List (Ledger String × ℕ)} {ledger : Ledger String}
    (hmerged : mergedLedgers entries = .ok ledger) (rejection : Option (ℕ × String)) :
    raiseEarliestCycleDomainError entries rejection =
      match rejection with
      | none => .ok ()
      | some (index, message) => .error (.cycle index (.valueError message)) := by
  have hmerge : mergeCycleIdentityLedgers entries = none := by
    unfold mergeCycleIdentityLedgers
    unfold mergedLedgers at hmerged
    rw [hmerged]
  unfold raiseEarliestCycleDomainError
  rw [hmerge]
  cases rejection <;> rfl

/-- The state of the parent after it has read the outcomes of valid shards with these lines. -/
structure ReadShards (validateCycleData : Json → Except PyError Unit)
    (items : List (Except PyError Json)) (s : ParentState) : Prop where
  follows : Follows (mergedLedgers s.ledgerEntries) s.summary.cycleCount none
    (scanItems validateCycleData [] items)
  summary : ∀ ledger, mergedLedgers s.ledgerEntries = .ok ledger → s.summary = summaryOf ledger

/-- The verdict on a sequence that is rejected early does not depend on its rest. -/
lemma verdict_append {xs ys : List (Except PyError Json)}
    (h : (scanItems validateCycleData [] xs).rejected.isSome = true) :
    verdict validateCycleData (scanItems validateCycleData [] (xs ++ ys)) =
      verdict validateCycleData (scanItems validateCycleData [] xs) := by
  have hsplit : scanItems validateCycleData [] (xs ++ ys) = _ := UniqueScan.scan_append xs ys [] 0
  rw [hsplit]
  congr 1
  exact if_pos h

lemma verdict_duplicate {items : List (Except PyError Json)} {position count : ℕ}
    {rejected : Option (Cause × Except PyError Json)}
    (h : Follows (.error position) count rejected (scanItems validateCycleData [] items)) :
    (scanItems validateCycleData [] items).rejected.isSome = true ∧
      verdict validateCycleData (scanItems validateCycleData [] items) =
        .error (.cycle position identityError) := by
  obtain ⟨hposition, ⟨item, hrejected⟩, -⟩ := h
  unfold verdict
  rw [hrejected, hposition]
  exact ⟨rfl, rfl⟩

lemma summaryOf_append (part : Ledger String) (base : ℕ) (hne : part ≠ []) :
    summaryOf (ledger ++ UniqueScan.shift part base) = {
      cycleCount := (summaryOf ledger).cycleCount + (summaryOf part).cycleCount
      firstCycleId := (summaryOf ledger).firstCycleId <|> (summaryOf part).firstCycleId
      lastCycleId := (summaryOf part).lastCycleId } := by
  have hlast : (ledger ++ UniqueScan.shift part base).getLast? =
      part.getLast?.map fun e => (e.1, base + e.2) := by
    have hshift : UniqueScan.shift part base ≠ [] := by simpa [UniqueScan.shift] using hne
    rw [List.getLast?_append_of_ne_nil _ hshift, UniqueScan.shift, List.getLast?_map]
  unfold summaryOf
  rw [hlast, List.length_append, UniqueScan.shift, List.length_map]
  congr 1
  · cases ledger with
    | nil => cases part <;> rfl
    | cons e rest => rfl
  · cases part.getLast? <;> rfl

/-- The next valid shard extends what the parent has read. -/
lemma ReadShards.next {items next : List (Except PyError Json)} {s : ParentState} {outcome : VerifierOutcome}
    (h : ReadShards validateCycleData items s)
    (hvalid : (scanItems validateCycleData [] next).rejected = none) (hcount : outcome.lineCount = next.length)
    (hvalidated : outcome.validatedCount = outcome.lineCount ∧ outcome.lineCount ≠ 0)
    (hsummary : ⟨outcome.lineCount, outcome.firstCycleId, outcome.lastCycleId⟩ =
      summaryOf (scanItems validateCycleData [] next).ledger) :
    ReadShards validateCycleData (items ++ next) {
      summary := {
        cycleCount := s.summary.cycleCount + outcome.lineCount
        firstCycleId := if outcome.validatedCount ≠ 0 then s.summary.firstCycleId <|> outcome.firstCycleId
          else s.summary.firstCycleId
        lastCycleId := if outcome.validatedCount ≠ 0 then outcome.lastCycleId
          else s.summary.lastCycleId }
      ledgerEntries := s.ledgerEntries ++
        [((scanItems validateCycleData [] next).ledger, s.summary.cycleCount)] } := by
  have houtcome := UniqueScan.scan_outcome itemKey (itemSound validateCycleData) next [] 0
  have hpart : (scanItems validateCycleData [] next).count = outcome.lineCount := by
    unfold scanItems at hvalid ⊢
    rw [List.length_nil] at hvalid ⊢
    simp only [hvalid, Nat.zero_add] at houtcome
    rw [houtcome, hcount]
  have hfollows : Follows _ _ _ (scanItems validateCycleData [] (items ++ next)) := follows_next h.follows
  have hsome : outcome.validatedCount ≠ 0 := hvalidated.1 ▸ hvalidated.2
  constructor
  · change Follows _ (s.summary.cycleCount + outcome.lineCount) none _
    rw [← hpart, ← hvalid]
    exact hfollows
  · intro ledger hledger
    rw [mergedLedgers_concat, Raising.bind_eq_ok] at hledger
    obtain ⟨before, hbefore, hadd⟩ := hledger
    have hmerged : before ++ UniqueScan.shift (scanItems validateCycleData [] next).ledger
        s.summary.cycleCount = ledger := by
      unfold UniqueScan.addLedger at hadd
      split at hadd
      · simp at hadd
      · exact Except.ok.inj hadd
    have hne : (scanItems validateCycleData [] next).ledger ≠ [] := by
      have hlength : outcome.lineCount = (scanItems validateCycleData [] next).ledger.length :=
        congrArg CycleSummary.cycleCount hsummary
      apply List.ne_nil_of_length_pos
      have hlines := hvalidated.2
      omega
    rw [← hmerged, summaryOf_append _ _ hne, ← hsummary, ← h.summary before hbefore]
    simp only [if_pos hsome]

/-- Reading the outcomes of the remaining shards ends as the scan of all lines says. -/
lemma readOutcomes_eq (stderrText : PyError → String) {ranges : List ByteRange} {shardIndex : ℕ}
    {s : ParentState} {items : List (Except PyError Json)}
    (hranges : ∀ range ∈ ranges, LineRange file range)
    (hshards : shardIndex + ranges.length ≤ maxResultVerificationShards)
    (hplain : ∀ range ∈ ranges, ∀ item ∈ rangeItems loads file range,
      ItemPlain encodeText validateCycleData item)
    (h : ReadShards validateCycleData items s) :
    readOutcomes stderrText ((ranges.zipIdx shardIndex).map fun r =>
        verifySpecification encodeText validateCycleData loads file r.2 r.1) shardIndex s =
      verdict validateCycleData
        (scanItems validateCycleData [] (items ++ ranges.flatMap (rangeItems loads file))) := by
  induction ranges generalizing shardIndex s items with
  | nil =>
    rw [List.flatMap_nil, List.append_nil]
    change (raiseEarliestCycleDomainError s.ledgerEntries none >>= fun _ => pure s.summary) = _
    have hfollows := h.follows
    cases hmerged : mergedLedgers s.ledgerEntries with
    | error position =>
      rw [hmerged] at hfollows
      rw [(verdict_duplicate hfollows).2, raiseEarliest_duplicate hmerged (by simp)]
      rfl
    | ok ledger =>
      rw [hmerged] at hfollows
      have hscan : scanItems validateCycleData [] items = ⟨ledger, s.summary.cycleCount, none⟩ := hfollows
      rw [hscan, raiseEarliest_distinct hmerged, h.summary ledger hmerged]
      rfl
  | cons range rest ih =>
    have hitems := hplain range (by simp)
    rw [List.length_cons] at hshards
    have hshard : shardIndex < maxResultVerificationShards := by omega
    obtain ⟨outcome, hverified, hrequired, hlines, hstatus⟩ :=
      verifySpecification_eq (hranges range (by simp)) hshard hitems
    have hfollows : Follows _ _ _ (scanItems validateCycleData [] (items ++ rangeItems loads file range)) :=
      follows_next h.follows
    rw [List.zipIdx_cons, List.map_cons, hverified, readOutcomes, hrequired, List.flatMap_cons,
      ← List.append_assoc]
    dsimp only
    cases hrejected : (scanItems validateCycleData [] (rangeItems loads file range)).rejected with
    | none =>
      rw [hrejected] at hstatus
      obtain ⟨hverified, hvalidated, hsummary⟩ := hstatus
      have hnext := h.next hrejected hlines hvalidated hsummary
      have hlater : shardIndex + 1 + rest.length ≤ maxResultVerificationShards := by omega
      have hrest := ih (fun r hr => hranges r (by simp [hr])) hlater
        (fun r hr => hplain r (by simp [hr])) hnext
      rw [← hrest]
      obtain ⟨status, _⟩ := outcome
      subst hverified
      rfl
    | some rejected =>
      rw [hrejected] at hstatus hfollows
      obtain ⟨hstatus, hindex, message, hmessage, herror⟩ := hstatus
      rw [hstatus, hindex, hmessage]
      dsimp only
      cases hmerged : mergedLedgers (s.ledgerEntries ++
        [((scanItems validateCycleData [] (rangeItems loads file range)).ledger, s.summary.cycleCount)]) with
      | error position =>
        rw [hmerged] at hfollows
        have hle := hfollows.2.2
        obtain ⟨hearly, hverdict⟩ := verdict_duplicate hfollows
        rw [verdict_append hearly, hverdict, raiseEarliest_duplicate hmerged]
        · rfl
        · intro index text heq
          injection heq with heq
          injection heq with hposition _
          omega
      | ok ledger =>
        rw [hmerged] at hfollows
        have hscan : scanItems validateCycleData [] (items ++ rangeItems loads file range) = _ := hfollows
        rw [verdict_append (by rw [hscan]; rfl), hscan, raiseEarliest_distinct hmerged]
        unfold verdict
        dsimp only
        rw [herror]
        rfl

end Shards

section Archive

variable (encodeText : TextEncoder) (validateCycleData : Json → Except PyError Unit)
variable (loads : Bytes → Except PyError Json)

/-- The messages about the given cycle lines hold no placeholder: those of the decoder, those of the
data validator, and the names of the fields. The identities of the cycles can be encoded. -/
structure PlainMessages (cycleLines : List Bytes) : Prop where
  decoder : ∀ line ∈ cycleLines, ∀ last encoded e, framedLine last line = .ok encoded →
    loads encoded = .error e → PlainError e
  cycles : ∀ line ∈ cycleLines, ∀ last encoded cycle, framedLine last line = .ok encoded →
    loads encoded = .ok cycle → ItemPlain encodeText validateCycleData (.ok cycle)

variable {encodeText validateCycleData loads} {file : Bytes}

lemma plainError_of_raiseIf {c : Prop} [Decidable c] {text : String} {e : PyError}
    {next : Unit → Except PyError Bytes} (htext : text ≠ "" ∧ TokenFree text)
    (hnext : next () = .error e → PlainError e)
    (h : (raiseIf c (.valueError text) >>= next) = .error e) : PlainError e := by
  unfold Raising.raiseIf at h
  by_cases hc : c
  · rw [if_pos hc] at h
    cases h
    exact ⟨text, rfl, htext⟩
  · rw [if_neg hc] at h
    exact hnext h

lemma plainError_framedLine {last : Bool} {line : Bytes} {e : PyError}
    (h : framedLine last line = .error e) : PlainError e := by
  cases last with
  | true =>
    apply plainError_of_raiseIf (by decide) _ h
    intro h
    exact plainError_of_raiseIf (by decide) (fun h => by cases h) h
  | false =>
    apply plainError_of_raiseIf (by decide) _ h
    intro h
    exact plainError_of_raiseIf (by decide) (fun h => by cases h) h

lemma PlainMessages.items {cycleLines : List Bytes} (h : PlainMessages encodeText validateCycleData loads cycleLines)
    (final : Bool) : ∀ item ∈ rangeValues loads final cycleLines, ItemPlain encodeText validateCycleData item := by
  induction cycleLines with
  | nil => simp [rangeValues]
  | cons line rest ih =>
    have hrest : PlainMessages encodeText validateCycleData loads rest :=
      ⟨fun line hline => h.decoder line (by simp [hline]), fun line hline => h.cycles line (by simp [hline])⟩
    intro item hitem
    rw [rangeValues, List.mem_cons] at hitem
    rcases hitem with rfl | hitem
    · unfold cycleValue
      cases hline : framedLine (rest.isEmpty && final) line with
      | error e => exact plainError_framedLine hline
      | ok encoded =>
        rw [Raising.ok_bind]
        cases hvalue : loads encoded with
        | error e => exact h.decoder line (by simp) _ _ e hline hvalue
        | ok cycle => exact h.cycles line (by simp) _ _ cycle hline hvalue
    · exact ih hrest item hitem

/-- The ranges of a tiling start and end at line boundaries. -/
lemma Tiles.lineRange {metadataStart start : ℕ} {ranges : List ByteRange}
    (h : Tiles file metadataStart start ranges) (hlength : metadataStart ≤ file.length)
    (hended : Ended newline (file.take metadataStart)) : ∀ range ∈ ranges, LineRange file range := by
  induction h with
  | last hstart =>
    intro range hrange
    rw [List.mem_singleton.mp hrange]
    exact ⟨hstart, hlength, Lines.ended_slice hstart.le hended⟩
  | cons hstart hstop hline hrest ih =>
    intro range hrange
    rcases List.mem_cons.mp hrange with rfl | hrange
    · exact ⟨hstart, by dsimp only; omega, Lines.ended_slice hstart.le hline⟩
    · exact ih range hrange

/-- However an archive is cut into shards, verifying the shards and merging their ledgers ends as one
pass over all cycles does: with the same summary, or at the same cycle with the same error. -/
theorem shardedVerification_eq_sequential {targetBytes expectedSize maxShards : ℕ} {plan : FramePlan}
    (hplan : planFramedCycleRanges targetBytes file expectedSize maxShards = .ok plan)
    (hplain : PlainMessages encodeText validateCycleData loads
      (lines newline (slice file plan.cycleStart plan.metadataStart)))
    (stderrText : PyError → String) :
    verifyResultArchiveInRuntimes stderrText encodeText validateCycleData loads file plan =
      verifySequentially validateCycleData loads file plan := by
  have hcovers := planFramedCycleRanges_covers hplan
  have hitems := hplain.items true
  unfold verifyResultArchiveInRuntimes verifySequentially
  have hempty : ReadShards validateCycleData [] {} :=
    ⟨rfl, fun ledger hledger => by cases hledger; rfl⟩
  rcases hcovers.tiles with ⟨hnone, -⟩ | htiles
  · rw [hnone]
    rfl
  · have hvalues : rangeValues loads true _ = _ := htiles.rangeValues_eq hcovers.metadata_le
    have hlines := htiles.lineRange hcovers.metadata_le hcovers.ended
    have hlt := htiles.start_lt
    rw [hvalues] at hitems
    have hshards : 0 + plan.ranges.length ≤ maxResultVerificationShards := by
      rw [Nat.zero_add]
      exact hcovers.shards
    have hread := readOutcomes_eq stderrText hlines hshards
      (fun range hrange item hitem => hitems item (List.mem_flatMap.mpr ⟨range, hrange, hitem⟩)) hempty
    have hne : plan.ranges.isEmpty = false := by
      cases hranges : plan.ranges with
      | nil =>
        rw [hranges] at htiles
        cases htiles
      | cons range rest => rfl
    have hone := requireCycles_eq [] hitems
    rw [hne, hread]
    simp only [Bool.false_eq_true, if_false]
    rw [iterFramedCycleValues_eq true hlt hcovers.metadata_le
      (Lines.ended_slice hlt.le hcovers.ended), requireCycles_untilError, hvalues]
    exact hone.symm

end Archive

section Witness

/-- A cycle without data. -/
def emptyCycle (cycleId : String) : Json :=
  .obj [("schemaVersion", .int 3), ("cycleId", .str cycleId), ("decisionTime", .str "t"), ("data", .obj [])]

def emptyCycleText (cycleId : String) : Bytes :=
  utf8 "\x7b\"schemaVersion\":3,\"cycleId\":\"" ++ utf8 cycleId ++
    utf8 "\",\"decisionTime\":\"t\",\"data\":\x7b\x7d\x7d"

def loadsEmptyCycle (encoded : Bytes) : Except PyError Json :=
  if encoded = emptyCycleText "a" then .ok (emptyCycle "a")
  else if encoded = emptyCycleText "b" then .ok (emptyCycle "b")
  else .error (.valueError "Expecting value: line 1 column 1 (char 0)")

def archiveOf (cycleBytes : Bytes) : Bytes :=
  framedResultPrefix ++ cycleBytes ++ utf8 "],\"schemaVersion\":8\x7d"

/-- A table that can hold every text. -/
def encodesAll : TextEncoder := fun _ => .ok ()

lemma loadsEmptyCycle_error {encoded : Bytes} {e : PyError} (h : loadsEmptyCycle encoded = .error e) :
    PlainError e := by
  unfold loadsEmptyCycle at h
  split_ifs at h
  exact ⟨_, (Except.error.inj h).symm, by decide⟩

lemma loadsEmptyCycle_ok {encoded : Bytes} {cycle : Json} (h : loadsEmptyCycle encoded = .ok cycle) :
    ∃ cycleId, cycle = emptyCycle cycleId := by
  unfold loadsEmptyCycle at h
  split_ifs at h
  · exact ⟨"a", (Except.ok.inj h).symm⟩
  · exact ⟨"b", (Except.ok.inj h).symm⟩

lemma tokenFree_emptyCycle (cycleId : String) :
    ∀ name ∈ Dict.keys (membersOf (emptyCycle cycleId)), TokenFree name := by
  have hkeys : Dict.keys (membersOf (emptyCycle cycleId)) = cycleFields := by
    unfold emptyCycle membersOf Dict.keys cycleFields
    simp [Dict.items]
  rw [hkeys]
  decide

/-- Three shards, of which the third repeats an identity of the first. -/
theorem shardedVerification_eq_sequential_duplicate :
    let file := archiveOf (emptyCycleText "a" ++ separator ++ emptyCycleText "b" ++ separator ++
      emptyCycleText "a" ++ [newline])
    let validateCycleData : Json → Except PyError Unit := fun _ => .ok ()
    ∃ plan, planFramedCycleRanges 1 file file.length 8 = .ok plan ∧ plan.ranges.length = 3 ∧
      verifySequentially validateCycleData loadsEmptyCycle file plan = .error (.cycle 2 identityError) ∧
      verifyResultArchiveInRuntimes (fun _ => "") encodesAll validateCycleData loadsEmptyCycle file plan =
        verifySequentially validateCycleData loadsEmptyCycle file plan := by
  intro file validateCycleData
  obtain ⟨plan, hplan⟩ := Raising.exists_ok_of_toBool (x := planFramedCycleRanges 1 file file.length 8)
    (by decide +kernel)
  have hcheck : (match planFramedCycleRanges 1 file file.length 8 with
      | .ok plan => decide (plan.ranges.length = 3) && decide (
          verifySequentially validateCycleData loadsEmptyCycle file plan = .error (.cycle 2 identityError))
      | .error _ => false) = true := by decide +kernel
  rw [hplan, Bool.and_eq_true, decide_eq_true_eq, decide_eq_true_eq] at hcheck
  have hplain : ∀ cycleLines, PlainMessages encodesAll validateCycleData loadsEmptyCycle cycleLines := by
    intro cycleLines
    constructor
    · intro line _ last encoded e _ hvalue
      exact loadsEmptyCycle_error hvalue
    · intro line _ last encoded cycle _ hvalue
      obtain ⟨cycleId, rfl⟩ := loadsEmptyCycle_ok hvalue
      exact ⟨tokenFree_emptyCycle cycleId, nofun, fun _ _ => rfl⟩
  exact ⟨plan, hplan, hcheck.1, hcheck.2, shardedVerification_eq_sequential hplan (hplain _) _⟩

/-- The text of a lone surrogate, for which its escape stands. -/
def loneSurrogate : String := "\\ud800"

/-- The encoder of a table, which has no code for a lone surrogate. -/
def encodesText (text : String) : Except PyError Unit :=
  if text = loneSurrogate then
    throw (.valueError "'utf-8' codec can't encode character '\\ud800' in position 0: surrogates not allowed")
  else pure ()

/-- A line of brackets that the decoder does not follow to its end. -/
def nestedText : Bytes := List.replicate 100000 91

def recursionMessage : String := "maximum recursion depth exceeded while decoding a JSON array from a unicode string"

/-- The decoder on cycles with the escape of a lone surrogate and on lines that are nested too deep. -/
def loadsUnusual (encoded : Bytes) : Except PyError Json :=
  if encoded = emptyCycleText loneSurrogate then .ok (emptyCycle loneSurrogate)
  else if encoded = nestedText then .error (.recursionError recursionMessage)
  else loadsEmptyCycle encoded

/-- The last lines that a failed verifier writes to its error stream. -/
def tracebackText : PyError → String
  | .recursionError message => "RecursionError: " ++ message
  | _ => "Traceback (most recent call last):"

/-- How an archive with the given cycle lines is verified in one pass and in shards. -/
def VerifiedAs (encodeText : TextEncoder) (validateCycleData : Json → Except PyError Unit)
    (loads : Bytes → Except PyError Json) (cycleLines : Bytes) (onePass sharded : Except Failure CycleSummary) :
    Prop :=
  let file := archiveOf cycleLines
  ∃ plan, planFramedCycleRanges resultVerificationTargetBytes file file.length maxResultVerificationShards =
      .ok plan ∧
    verifySequentially validateCycleData loads file plan = onePass ∧
    verifyResultArchiveInRuntimes tracebackText encodeText validateCycleData loads file plan = sharded

/-- Both ways of verification, evaluated on an archive. -/
def verifiedAs (encodeText : TextEncoder) (validateCycleData : Json → Except PyError Unit)
    (loads : Bytes → Except PyError Json) (cycleLines : Bytes) (onePass sharded : Except Failure CycleSummary) :
    Bool :=
  let file := archiveOf cycleLines
  (planFramedCycleRanges resultVerificationTargetBytes file file.length
    maxResultVerificationShards).toOption.any fun plan =>
      decide (verifySequentially validateCycleData loads file plan = onePass) &&
      decide (verifyResultArchiveInRuntimes tracebackText encodeText validateCycleData loads file plan = sharded)

lemma verifiedAs_of_eval {encodeText : TextEncoder} {validateCycleData : Json → Except PyError Unit}
    {loads : Bytes → Except PyError Json} {cycleLines : Bytes} {onePass sharded : Except Failure CycleSummary}
    (h : verifiedAs encodeText validateCycleData loads cycleLines onePass sharded = true) :
    VerifiedAs encodeText validateCycleData loads cycleLines onePass sharded := by
  obtain ⟨plan, hplan, hboth⟩ := Raising.any_toOption.mp h
  rw [Bool.and_eq_true, decide_eq_true_eq, decide_eq_true_eq] at hboth
  exact ⟨plan, hplan, hboth⟩

lemma rfind_append {byte : UInt8} {after : Bytes} (h : byte ∉ after) (before : Bytes) :
    rfind byte (before ++ byte :: after) = some before.length := by
  induction before with
  | nil =>
    have hspec := rfind_spec byte after
    cases hfind : rfind byte after with
    | none => simp [rfind, hfind]
    | some position =>
      rw [hfind] at hspec
      obtain ⟨left, right, rfl, -⟩ := hspec
      simp at h
  | cons b before ih => rw [List.cons_append, rfind, ih, List.length_cons]

def singleLinePlan (body : Bytes) : FramePlan :=
  ⟨12, 13 + body.length, [⟨12, 13 + body.length, true⟩]⟩

lemma archiveOf_line (body : Bytes) : archiveOf (body ++ [newline]) =
    (framedResultPrefix ++ body) ++ newline :: utf8 "],\"schemaVersion\":8\x7d" := by
  simp [archiveOf]

/-- The plan of an archive with one cycle line has one range. -/
lemma planFramedCycleRanges_line {body : Bytes} (hsize : body.length < 1000000) :
    planFramedCycleRanges resultVerificationTargetBytes (archiveOf (body ++ [newline]))
      (archiveOf (body ++ [newline])).length maxResultVerificationShards = .ok (singleLinePlan body) := by
  have hleading : framedResultPrefix.length = 12 := by decide
  have hsuffix : (utf8 "],\"schemaVersion\":8\x7d").length = 20 := by decide
  have hlength : (archiveOf (body ++ [newline])).length = body.length + 33 := by
    rw [archiveOf_line, List.length_append, List.length_append, List.length_cons, hleading, hsuffix]
    omega
  have hchunk : (readChunkBytes : ℕ) = 1048576 := rfl
  have hfind : findMetadataSuffixStart readChunkBytes (archiveOf (body ++ [newline])) (body.length + 33) =
      .ok (13 + body.length) := by
    have hstart : body.length + 33 - (readChunkBytes : ℕ) = 0 := by omega
    have hslice : slice (archiveOf (body ++ [newline])) 0 (body.length + 33) = archiveOf (body ++ [newline]) := by
      unfold Lines.slice
      rw [← hlength, Nat.sub_zero, List.drop_zero, List.take_length]
    rw [findMetadataSuffixStart, if_neg (by omega)]
    dsimp only
    rw [hstart, hslice, archiveOf_line, rfind_append (by decide), List.length_append, hleading]
    have hposition : 0 + (12 + body.length) + 1 = 13 + body.length := by omega
    dsimp only
    rw [hposition]
    rfl
  have htake : (archiveOf (body ++ [newline])).take framedResultPrefix.length = framedResultPrefix := by
    unfold archiveOf
    rw [List.append_assoc, List.take_left]
  have hmetadata : ((archiveOf (body ++ [newline])).drop (13 + body.length)).take
      framedResultMetadataPrefix.length = framedResultMetadataPrefix := by
    have hline : (framedResultPrefix ++ (body ++ [newline])).length = 13 + body.length := by
      rw [List.length_append, List.length_append, hleading, List.length_singleton]
      omega
    unfold archiveOf
    rw [← hline, List.drop_left]
    rfl
  have hshards : min maxResultVerificationShards (max 1 ((13 + body.length - 12 +
      resultVerificationTargetBytes - 1) / resultVerificationTargetBytes)) = 1 := by
    have htarget : resultVerificationTargetBytes = 33554432 := rfl
    have hmax : maxResultVerificationShards = 8 := rfl
    rw [htarget, hmax]
    omega
  unfold planFramedCycleRanges
  rw [hlength, hfind, htake]
  simp only [Raising.raiseIf, Raising.ok_bind, hmetadata, hleading, hshards, ne_eq, not_true_eq_false, if_false]
  rw [if_neg (by omega), if_neg (by decide), if_neg (by omega), if_neg (by omega)]
  have hne : 12 ≠ 13 + body.length := by omega
  have hranges : boundaryRanges (13 + body.length) (sortedBoundaries [12, 13 + body.length]) =
      [⟨12, 13 + body.length, true⟩] := by
    have hsorted : sortedBoundaries [12, 13 + body.length] = [12, 13 + body.length] := by
      have hle : 12 ≤ 13 + body.length := by omega
      simp [sortedBoundaries, List.dedup_cons_of_notMem, hne, hle]
    have hlt : 12 < 13 + body.length := by omega
    rw [hsorted]
    simp [boundaryRanges, hlt]
  have hcomplete : rangesIncomplete 12 (13 + body.length) [⟨12, 13 + body.length, true⟩] = false := by
    simp [rangesIncomplete]
  have hinner : List.range' 1 (1 - 1) = [] := rfl
  rw [hinner, List.map_nil, List.filter_nil]
  have hboundaries : (12 :: [] ++ [13 + body.length]) = [12, 13 + body.length] := rfl
  rw [hboundaries, hranges, hcomplete]
  rfl

section Line

variable {encodeText : TextEncoder} {validateCycleData : Json → Except PyError Unit}
variable {loads : Bytes → Except PyError Json} {body : Bytes} {e : PyError}

lemma slice_archiveOf_line (body : Bytes) :
    slice (archiveOf (body ++ [newline])) 12 (13 + body.length) = body ++ [newline] := by
  have hleading : framedResultPrefix.length = 12 := by decide
  have hcount : 13 + body.length - 12 = (body ++ [newline]).length := by
    rw [List.length_append, List.length_singleton]
    omega
  unfold archiveOf Lines.slice
  rw [← hleading, List.append_assoc, List.drop_left, hleading, hcount, List.take_left]

lemma lineRange_archiveOf (body : Bytes) :
    LineRange (archiveOf (body ++ [newline])) ⟨12, 13 + body.length, true⟩ := by
  have hleading : framedResultPrefix.length = 12 := by decide
  refine ⟨by dsimp only; omega, ?_, ?_⟩
  · unfold archiveOf
    simp only [List.length_append, List.length_singleton, hleading]
    omega
  · dsimp only
    rw [slice_archiveOf_line]
    exact Lines.ended_concat

lemma framedLine_last (hne : body ≠ []) (hcomma : body.getLast? ≠ some 44) :
    framedLine true (body ++ [newline]) = .ok body := by
  have hseparator : ¬separator <:+ body ++ [newline] := by
    rintro ⟨before, heq⟩
    have hcut : before ++ [44] = body := by
      apply List.append_cancel_right (show before ++ [44] ++ [newline] = body ++ [newline] from _)
      rw [← heq, List.append_assoc]
      rfl
    rw [← hcut, List.getLast?_concat] at hcomma
    exact hcomma rfl
  unfold framedLine
  rw [if_pos rfl, Raising.raiseIf, if_neg hseparator, List.dropLast_concat, Raising.raiseIf, if_neg hne]
  rfl

/-- The only line of an archive that the decoder refuses. -/
lemma iterFramedCycleValues_line (hbody : newline ∉ body) (hne : body ≠ [])
    (hcomma : body.getLast? ≠ some 44) (h : loads body = .error e) :
    iterFramedCycleValues loads (archiveOf (body ++ [newline])) 12 (13 + body.length) true = [.error e] := by
  have hrange := lineRange_archiveOf body
  have hlines : lines newline (body ++ [newline]) = [body ++ [newline]] := Lines.lines_body hbody []
  rw [iterFramedCycleValues_eq true hrange.start_lt hrange.stop_le hrange.ended, slice_archiveOf_line, hlines]
  simp only [rangeValues, List.isEmpty_nil, Bool.and_self, cycleValue, framedLine_last hne hcomma, Raising.ok_bind,
    h, untilError]

/-- Where the decoder exceeds the recursion limit, one pass ends with its error at the cycle and a shard with the
failure of its process. -/
lemma verifiedAs_recursionError {message : String} (hbody : newline ∉ body) (hne : body ≠ [])
    (hcomma : body.getLast? ≠ some 44) (hsize : body.length < 1000000)
    (h : loads body = .error (.recursionError message)) :
    VerifiedAs encodeText validateCycleData loads (body ++ [newline])
      (.error (.cycle 0 (.recursionError message)))
      (.error (.process (.runtimeError ("RecursionError: " ++ message)))) := by
  have hvalues := iterFramedCycleValues_line hbody hne hcomma h
  refine ⟨singleLinePlan body, planFramedCycleRanges_line hsize, ?_, ?_⟩
  · unfold verifySequentially singleLinePlan
    rw [List.isEmpty_cons, if_neg (by simp), hvalues]
    rfl
  · have hrange := lineRange_archiveOf body
    have hlines : lines newline (body ++ [newline]) = [body ++ [newline]] := Lines.lines_body hbody []
    have hcount := countFramedCycleLines_eq hrange.start_lt hrange.stop_le hrange.ended
    rw [slice_archiveOf_line, hlines] at hcount
    have hshard : verifySpecification encodeText validateCycleData loads (archiveOf (body ++ [newline])) 0
        ⟨12, 13 + body.length, true⟩ = .error (.recursionError message) := by
      unfold verifySpecification
      rw [Raising.raiseIf, if_neg (by decide), hcount]
      simp only [hvalues]
      rfl
    unfold verifyResultArchiveInRuntimes singleLinePlan
    rw [List.zipIdx_singleton, List.map_singleton, hshard]
    rfl

end Line

lemma nestedText_ne_cycle : nestedText ≠ emptyCycleText loneSurrogate := by
  intro heq
  have hmem : (123 : UInt8) ∈ nestedText := by
    rw [heq]
    decide
  exact absurd (List.eq_of_mem_replicate hmem) (by decide)

lemma loadsUnusual_nested : loadsUnusual nestedText = .error (.recursionError recursionMessage) := by
  unfold loadsUnusual
  rw [if_neg nestedText_ne_cycle, if_pos rfl]

lemma newline_notMem_nested : newline ∉ nestedText := by
  intro hmem
  exact absurd (List.eq_of_mem_replicate hmem) (by decide)

lemma getLast?_nested : nestedText.getLast? ≠ some 44 := by
  intro hlast
  exact absurd (List.eq_of_mem_replicate (List.mem_of_getLast? hlast)) (by decide)

/-- Verification in shards and in one pass part where a declared DataKey has the name of the placeholder, where
an identity is a lone surrogate, and where a line is nested too deep. -/
theorem shardedVerification_ne_sequential :
    ¬utf8 cycleIndexToken <:+: emptyCycleText "a" ∧
    (∃ validator, compileDataJsonValidator [(cycleIndexToken, Schema.object { type := some [.integer] })]
        [cycleIndexToken] = .ok validator ∧
      VerifiedAs encodesText validator.validate loadsUnusual (emptyCycleText "a" ++ [newline])
        (.error (.cycle 0 (.valueError
          "Required DataKey path '__ENGINE_RESULT_CYCLE_INDEX__' is missing from the data JSON.")))
        (.error (.cycle 0 (.valueError "Required DataKey path '0' is missing from the data JSON.")))) ∧
    VerifiedAs encodesText (fun _ => .ok ()) loadsUnusual (emptyCycleText loneSurrogate ++ [newline])
      (.ok ⟨1, some loneSurrogate, some loneSurrogate⟩)
      (.error (.cycle 0 (.valueError
        "'utf-8' codec can't encode character '\\ud800' in position 0: surrogates not allowed"))) ∧
    VerifiedAs encodesText (fun _ => .ok ()) loadsUnusual (nestedText ++ [newline])
      (.error (.cycle 0 (.recursionError recursionMessage)))
      (.error (.process (.runtimeError ("RecursionError: " ++ recursionMessage)))) := by
  have hdeclared : ((compileDataJsonValidator [(cycleIndexToken, Schema.object { type := some [.integer] })]
      [cycleIndexToken]).toOption.any fun validator => verifiedAs encodesText validator.validate loadsUnusual
        (emptyCycleText "a" ++ [newline]) (.error (.cycle 0 (.valueError
          "Required DataKey path '__ENGINE_RESULT_CYCLE_INDEX__' is missing from the data JSON.")))
        (.error (.cycle 0 (.valueError "Required DataKey path '0' is missing from the data JSON.")))) = true := by
    with_unfolding_all decide
  have hsurrogate : verifiedAs encodesText (fun _ => .ok ()) loadsUnusual (emptyCycleText loneSurrogate ++ [newline])
      (.ok ⟨1, some loneSurrogate, some loneSurrogate⟩)
      (.error (.cycle 0 (.valueError
        "'utf-8' codec can't encode character '\\ud800' in position 0: surrogates not allowed"))) = true := by
    with_unfolding_all decide
  obtain ⟨validator, hvalidator, hplaceholder⟩ := Raising.any_toOption.mp hdeclared
  refine ⟨by with_unfolding_all decide, ⟨validator, hvalidator, verifiedAs_of_eval hplaceholder⟩,
    verifiedAs_of_eval hsurrogate, ?_⟩
  apply verifiedAs_recursionError newline_notMem_nested _ getLast?_nested _ loadsUnusual_nested
  · rintro hnil
    cases List.replicate_eq_nil_iff _ |>.mp hnil
  · unfold nestedText
    rw [List.length_replicate]
    omega

end Witness

end TradeFramework.Results
