import TradeFramework.BasicWorkflow.Account

/-!
# Fills along the frames of the sampler

The account executes the intent of the previous cycle at the bar the frame carries. Where the execution
period has no new bar between two decision times, that bar is one the decision already saw.
-/

namespace TradeFramework.BasicWorkflow

open Carry (carried)

/-- A bar as a frame holds it. -/
def Bar.toPython (bar : Bar) : PythonValue :=
  .dict [(.text "open", .float bar.opening), (.text "close", .float bar.close), (.text "high", .float bar.high),
    (.text "low", .float bar.low)]

/-- The price map of a frame as the account is handed it. -/
def PriceMap.toPython (price : PriceMap) : PythonValue :=
  .dict (price.map fun period =>
    (.text period.1, .dict (period.2.map fun entry => (.text entry.1, entry.2.toPython))))

/-- The updates of a run: each cycle hands over its frame and the intent approved in the cycle before. -/
def cycleCalls (frames : List Frame) (intents : ℕ → PythonValue) : List AccountCall :=
  frames.zipIdx.map fun p =>
    ⟨.str p.1.data.time, p.1.data.price.toPython, if p.2 = 0 then .null else intents (p.2 - 1)⟩

/-- An intent names an instrument. -/
def Targets (intent : PythonValue) (instrument : String) : Prop :=
  ∃ targets value, intent = .dict targets ∧ targets.lookup (.text instrument) = some value

/-- The instrument has a bar behind one time and not behind the other. -/
def HasBarWithin (series : SeriesMap) (period instrument : String) (after upTo : ℤ) : Prop :=
  ∃ row ∈ series.rows period instrument, after < row.time ∧ row.time ≤ upTo

/-- No update of a run fills at a bar that the decision it executes already saw: every order is at the open
of a bar behind the decision time, and where a targeted instrument has none the update fails. -/
structure UnseenFills (series : SeriesMap) (executionPeriod : String) (times : List ℤ)
    (steps : List (AccountCall × Except PyError AccountReport)) : Prop where
  first : ∀ call report, steps[0]? = some (call, .ok report) → report.orders = []
  fills : ∀ k decided executed call report, times[k]? = some decided → times[k + 1]? = some executed →
    steps[k + 1]? = some (call, .ok report) → ∀ o ∈ report.orders,
      ∃ row ∈ series.rows executionPeriod o.1,
        row.bar.opening = o.2.price ∧ decided < row.time ∧ row.time ≤ executed
  refuses : ∀ k decided executed call result, times[k]? = some decided → times[k + 1]? = some executed →
    steps[k + 1]? = some (call, result) → ∀ instrument, Targets call.previousApprovedIntent instrument →
      ¬HasBarWithin series executionPeriod instrument decided executed → ∃ e, result = .error e

/-- The last bar of an instrument that is not later than the second time is later than the first. -/
def Renewed (series : SeriesMap) (executionPeriod instrument : String) (decided executed : ℤ) : Prop :=
  (∃ row ∈ series.rows executionPeriod instrument, row.time ≤ decided) →
    HasBarWithin series executionPeriod instrument decided executed

/-- Between every decision and the next there is a new bar of every instrument the intent names. -/
def RenewedFor (series : SeriesMap) (executionPeriod : String) (times : List ℤ) (intents : ℕ → PythonValue) :
    Prop :=
  ∀ k decided executed, times[k]? = some decided → times[k + 1]? = some executed →
    ∀ instrument, Targets (intents k) instrument → Renewed series executionPeriod instrument decided executed

section Orders

variable {config : AccountConfig} {state : AccountState} {call : AccountCall} {report : AccountReport}
  {market : Market} {ledger ledger' : Ledger}

lemma executeTarget_priced {entry : String × PythonValue} (h : executeTarget market ledger entry = .ok ledger') :
    ∃ price, priceOf market entry.1 "execution" "open" = .ok price ∧
      ∀ o ∈ ledger'.orders, o ∈ ledger.orders ∨ (o.1 = entry.1 ∧ o.2.price = price) := by
  unfold executeTarget at h
  simp only [Raising.bind_eq_ok, Raising.raiseIf_eq_ok] at h
  obtain ⟨-, -, target, -, price, hprice, h⟩ := h
  refine ⟨price, hprice, fun o ho => ?_⟩
  by_cases hzero : target - positionOf ledger.positions entry.1 = 0
  · rw [if_pos hzero, Raising.pure_eq_ok] at h
    subst h
    exact Or.inl ho
  · rw [if_neg hzero, Raising.pure_eq_ok] at h
    subst h
    obtain rfl | hmem := Dict.mem_set ho
    · exact Or.inr ⟨rfl, rfl⟩
    · exact Or.inl hmem

/-- Every target has an execution price, and every new order is at the one of its instrument. -/
lemma foldlM_executeTarget_priced {targets : List (String × PythonValue)}
    (h : targets.foldlM (executeTarget market) ledger = .ok ledger') :
    (∀ entry ∈ targets, ∃ price, priceOf market entry.1 "execution" "open" = .ok price) ∧
      ∀ o ∈ ledger'.orders, o ∈ ledger.orders ∨
        ((∃ entry ∈ targets, entry.1 = o.1) ∧ priceOf market o.1 "execution" "open" = .ok o.2.price) := by
  induction targets generalizing ledger with
  | nil =>
    rw [List.foldlM_nil, Raising.pure_eq_ok] at h
    subst h
    exact ⟨by simp, fun o ho => Or.inl ho⟩
  | cons entry rest ih =>
    rw [List.foldlM_cons, Raising.bind_eq_ok] at h
    obtain ⟨between, hentry, hrest⟩ := h
    obtain ⟨price, hprice, horders⟩ := executeTarget_priced hentry
    obtain ⟨hprices, hordersRest⟩ := ih hrest
    constructor
    · intro other hother
      obtain rfl | hother := List.mem_cons.mp hother
      · exact ⟨price, hprice⟩
      · exact hprices other hother
    · intro o ho
      obtain hbetween | ⟨⟨other, hother, hname⟩, hpriced⟩ := hordersRest o ho
      · obtain hold | ⟨hname, hpriced⟩ := horders o hbetween
        · exact Or.inl hold
        · refine Or.inr ⟨⟨entry, by simp, hname.symm⟩, ?_⟩
          rw [hname, hpriced]
          exact hprice
      · exact Or.inr ⟨⟨other, by simp [hother], hname⟩, hpriced⟩

lemma targets_iff {intent : PythonValue} {approved : List (DictKey × PythonValue)}
    {items : List (String × PythonValue)} (happroved : approvedIntent intent = .ok approved)
    (hitems : textItems approved = .ok items) (instrument : String) :
    Targets intent instrument ↔ ∃ entry ∈ sortedItems items, entry.1 = instrument := by
  have hlookup : (∃ entry ∈ sortedItems items, entry.1 = instrument) ↔
      ∃ value, approved.lookup (.text instrument) = some value := by
    rw [← lookup_textItems hitems, ← lookup_sortedItems]
    constructor
    · rintro ⟨entry, hentry, rfl⟩
      exact ⟨entry.2, lookup_of_mem (nodup_sortedItems items) hentry⟩
    · rintro ⟨value, hvalue⟩
      exact ⟨(instrument, value), Dict.lookup_mem hvalue, rfl⟩
  rw [hlookup]
  unfold Targets
  cases intent with
  | dict entries =>
    rw [approvedIntent, Raising.pure_eq_ok] at happroved
    subst happroved
    simp
  | null =>
    rw [approvedIntent, Raising.pure_eq_ok] at happroved
    subst happroved
    simp
  | _ => simp [approvedIntent] at happroved

/-- A successful update has an execution price for every instrument the intent names, and its orders are
for those instruments and at those prices. -/
theorem evaluate_orders {period : String} (hperiod : config.lookup "executionPeriod" = some (.str period))
    (h : evaluate config state call = .ok report) :
    ∃ market : Market, barsOf call.price period = .ok market.bars ∧
      (∀ instrument, Targets call.previousApprovedIntent instrument →
        ∃ price, priceOf market instrument "execution" "open" = .ok price) ∧
      ∀ o ∈ report.orders, Targets call.previousApprovedIntent o.1 ∧
        priceOf market o.1 "execution" "open" = .ok o.2.price := by
  have hname : ∀ found, executionPeriod config = .ok found → found = period := by
    intro found hfound
    unfold executionPeriod at hfound
    rw [hperiod, Option.getD_some] at hfound
    simp only [Raising.bind_eq_ok, Raising.pure_eq_ok] at hfound
    exact hfound.choose_spec.2.symm
  unfold evaluate at h
  simp only [Raising.bind_eq_ok, Raising.pure_eq_ok] at h
  obtain ⟨-, -, -, -, approved, happroved, found, hfound, bars, hbars, initial, -, ⟨fixedFee, feeBps⟩, -, targets,
    htargets, ledger, hledger, equity, -, rfl⟩ := h
  obtain rfl := hname found hfound
  obtain ⟨hprices, horders⟩ := foldlM_executeTarget_priced hledger
  refine ⟨⟨found, bars, fixedFee, feeBps⟩, hbars, fun instrument hinstrument => ?_, fun o ho => ?_⟩
  · obtain ⟨entry, hentry, rfl⟩ := (targets_iff happroved htargets instrument).mp hinstrument
    exact hprices entry hentry
  · obtain hnew | ⟨hentry, hprice⟩ := horders o ho
    · simp at hnew
    · exact ⟨(targets_iff happroved htargets o.1).mpr hentry, hprice⟩

end Orders

section Frames

variable {series : SeriesMap} {t : ℤ} {period instrument : String}

lemma lookup_map_text {α : Type} (d : List (String × α)) (f : α → PythonValue) (name : String) :
    (d.map fun e => (DictKey.text e.1, f e.2)).lookup (.text name) = (d.lookup name).map f := by
  induction d with
  | nil => rfl
  | cons e rest ih =>
    rw [List.map_cons, ← Prod.eta e, Dict.lookup_cons, Dict.lookup_cons, ih]
    by_cases h : name = e.1
    · simp [h]
    · simp [h]

/-- What the account finds in a price map under a period and an instrument. -/
lemma barsOf_toPython {price : PriceMap} {bars : List (DictKey × PythonValue)}
    (h : barsOf price.toPython period = .ok bars) (instrument : String) :
    getMember bars instrument = ((price.bar period instrument).map Bar.toPython).getD .null := by
  unfold barsOf PriceMap.toPython getMember at h
  simp only [lookup_map_text _ fun values : List (String × Bar) =>
    PythonValue.dict (values.map fun entry => (.text entry.1, entry.2.toPython))] at h
  unfold PriceMap.bar getMember
  cases hvalues : price.lookup period with
  | none => simp [hvalues] at h
  | some values =>
    simp only [hvalues, Option.map_some, Option.getD_some, Raising.pure_eq_ok] at h
    subst h
    rw [lookup_map_text, Option.bind_some]

/-- The execution price of an instrument is the open of the bar carried. -/
lemma priceOf_priceAt (hseries : series.Valid) {market : Market}
    (hbars : barsOf (priceAt t series).toPython period = .ok market.bars) {price : ℚ}
    (h : priceOf market instrument "execution" "open" = .ok price) :
    ∃ row, carried Row.time t (series.rows period instrument) = some row ∧ row.bar.opening = price := by
  unfold priceOf barOf at h
  simp only [Raising.bind_eq_ok, Raising.pure_eq_ok, barsOf_toPython hbars, bar_priceAt hseries] at h
  obtain ⟨fields, hfields, value, hvalue, -, -, rfl⟩ := h
  cases hcarried : carried Row.time t (series.rows period instrument) with
  | none => simp [hcarried] at hfields
  | some row =>
    simp only [hcarried, Option.map_some, Option.getD_some, Bar.toPython, Raising.pure_eq_ok] at hfields
    subst hfields
    refine ⟨row, rfl, ?_⟩
    have hopen := finite_eq_ok.mp hvalue
    simpa [getMember, numberOf] using hopen

lemma rows_increasing (hseries : series.Valid) (period instrument : String) :
    Carry.Increasing Row.time (series.rows period instrument) ∧
      ∀ row ∈ series.rows period instrument, 0 < row.bar.opening ∧ 0 < row.bar.close := by
  unfold SeriesMap.rows
  cases hperiod : series.lookup period with
  | none => exact ⟨List.Pairwise.nil, by simp⟩
  | some instruments =>
    cases hrows : instruments.lookup instrument with
    | none =>
      rw [Option.getD_some, hrows]
      exact ⟨List.Pairwise.nil, by simp⟩
    | some rows =>
      rw [Option.getD_some, hrows]
      have hmem : (period, instruments) ∈ series := Dict.lookup_mem hperiod
      exact ⟨hseries.increasing _ hmem _ (Dict.lookup_mem hrows), hseries.positive _ hmem _ (Dict.lookup_mem hrows)⟩

/-- The bar carried is a new one where there is a new one, and else there is no bar at all. -/
lemma carried_renewed (hseries : series.Valid) {decided executed : ℤ} {row : Row}
    (hcarried : carried Row.time executed (series.rows period instrument) = some row) :
    Renewed series period instrument decided executed ↔ decided < row.time := by
  obtain ⟨hrow, hle, hlast⟩ := (Carry.carried_eq_some_iff (rows_increasing hseries period instrument).1).mp hcarried
  unfold Renewed HasBarWithin
  constructor
  · intro h
    by_contra hseen
    obtain ⟨new, hnew, hafter, hupTo⟩ := h ⟨row, hrow, not_lt.mp hseen⟩
    have hbefore := hlast new hnew hupTo
    exact absurd (hafter.trans_le hbefore) hseen
  · exact fun hafter _ => ⟨row, hrow, hafter, hle⟩

end Frames

section Cycles

variable {codec : TextCodec} {config : AccountConfig} {series : SeriesMap} {frames : List Frame}
  {intents : ℕ → PythonValue} {times : List ℤ} {executionPeriod : String}

lemma history_getElem? (state : AccountState) (calls : List AccountCall) (k : ℕ) :
    (history config state calls)[k]? = calls[k]?.map fun call =>
      (call, (update config (Transitions.run (fun s c => (update config s c).2) state (calls.take k)) call).1) := by
  induction calls generalizing state k with
  | nil => simp [history]
  | cons first rest ih =>
    cases k with
    | zero => rfl
    | succ k =>
      rw [history, List.getElem?_cons_succ, ih, List.getElem?_cons_succ]
      rfl

/-- The update of a cycle is handed the price map of its decision time and the intent of the cycle before. -/
lemma cycle_spec (hframes : List.Forall₂ (fun u frame => frame.decisionTime = canonical codec u ∧
      frame.data = ⟨canonical codec u, priceAt u series⟩) times frames) {k : ℕ} {call : AccountCall}
    {result : Except PyError AccountReport}
    (h : (history config ⟨none, none⟩ (cycleCalls frames intents))[k]? = some (call, result)) :
    ∃ u, times[k]? = some u ∧
      call = ⟨.str (canonical codec u), (priceAt u series).toPython, if k = 0 then .null else intents (k - 1)⟩ ∧
      result = (update config (stateAfter config ((cycleCalls frames intents).take k)) call).1 := by
  rw [history_getElem?] at h
  obtain ⟨found, hfound, hpair⟩ := Option.map_eq_some_iff.mp h
  cases hpair
  unfold cycleCalls at hfound
  rw [List.getElem?_map, List.getElem?_zipIdx] at hfound
  cases hframe : frames[k]? with
  | none => simp [hframe] at hfound
  | some frame =>
    have hlength := hframes.length_eq
    have hk : k < times.length := by
      rw [hlength]
      exact (List.getElem?_eq_some_iff.mp hframe).choose
    have hrel := hframes.get hk (by omega)
    refine ⟨times[k], List.getElem?_eq_getElem hk, ?_, rfl⟩
    obtain ⟨hlt, hget⟩ := List.getElem?_eq_some_iff.mp hframe
    simp only [List.get_eq_getElem, hget] at hrel
    simp only [hframe, Option.map_some, Option.some.injEq, Nat.zero_add] at hfound
    rw [← hfound, hrel.2]

/-- Where every instrument an intent names has a new bar in the next cycle, nothing is filled at a bar the
decision saw. -/
theorem unseenFills_of_renewed (hseries : series.Valid)
    (hframes : List.Forall₂ (fun u frame => frame.decisionTime = canonical codec u ∧
      frame.data = ⟨canonical codec u, priceAt u series⟩) times frames)
    (hconfig : config.lookup "executionPeriod" = some (.str executionPeriod))
    (h : RenewedFor series executionPeriod times intents) :
    UnseenFills series executionPeriod times (history config ⟨none, none⟩ (cycleCalls frames intents)) := by
  -- The bar an order of a successful cycle is filled at, or would be.
  have hcycle : ∀ k decided executed call report, times[k]? = some decided → times[k + 1]? = some executed →
      (history config ⟨none, none⟩ (cycleCalls frames intents))[k + 1]? = some (call, .ok report) →
      ∃ market : Market, call.previousApprovedIntent = intents k ∧
        (∀ instrument, Targets call.previousApprovedIntent instrument →
          ∃ price, priceOf market instrument "execution" "open" = .ok price) ∧
        (∀ o ∈ report.orders, Targets call.previousApprovedIntent o.1 ∧
          priceOf market o.1 "execution" "open" = .ok o.2.price) ∧
        ∀ instrument price, Targets call.previousApprovedIntent instrument →
          priceOf market instrument "execution" "open" = .ok price →
          ∃ row ∈ series.rows executionPeriod instrument,
            row.bar.opening = price ∧ decided < row.time ∧ row.time ≤ executed := by
    intro k decided executed call report hdecided hexecuted hstep
    obtain ⟨u, hu, hcall, hresult⟩ := cycle_spec hframes hstep
    rw [hexecuted] at hu
    cases hu
    obtain ⟨market, hbars, hprices, horders⟩ := evaluate_orders hconfig (update_eq_ok.mp hresult.symm)
    have hintent : call.previousApprovedIntent = intents k := by
      rw [hcall]
      simp
    refine ⟨market, hintent, hprices, horders, fun instrument price htargets hprice => ?_⟩
    rw [hcall] at hbars
    obtain ⟨row, hcarried, hopening⟩ := priceOf_priceAt hseries hbars hprice
    have hrenewed := h k decided executed hdecided hexecuted instrument (hintent ▸ htargets)
    obtain ⟨hrow, hle, -⟩ :=
      (Carry.carried_eq_some_iff (rows_increasing hseries executionPeriod instrument).1).mp hcarried
    exact ⟨row, hrow, hopening, (carried_renewed hseries hcarried).mp hrenewed, hle⟩
  constructor
  · intro call report hstep
    obtain ⟨u, -, hcall, hresult⟩ := cycle_spec hframes hstep
    obtain ⟨market, -, -, horders⟩ := evaluate_orders hconfig (update_eq_ok.mp hresult.symm)
    rw [List.eq_nil_iff_forall_not_mem]
    intro o ho
    obtain ⟨targets, value, hintent, -⟩ := (horders o ho).1
    simp [hcall] at hintent
  · intro k decided executed call report hdecided hexecuted hstep o ho
    obtain ⟨market, -, -, horders, hfresh⟩ := hcycle k decided executed call report hdecided hexecuted hstep
    exact hfresh o.1 o.2.price (horders o ho).1 (horders o ho).2
  · intro k decided executed call result hdecided hexecuted hstep instrument htargets hnone
    cases result with
    | error e => exact ⟨e, rfl⟩
    | ok report =>
      obtain ⟨market, -, hprices, -, hfresh⟩ := hcycle k decided executed call report hdecided hexecuted hstep
      obtain ⟨price, hprice⟩ := hprices instrument htargets
      obtain ⟨row, hrow, -, hafter, hupTo⟩ := hfresh instrument price htargets hprice
      exact absurd ⟨row, hrow, hafter, hupTo⟩ hnone

end Cycles

/-- Whether the account has a cash and fees to start with. -/
def Usable (config : AccountConfig) : Prop :=
  (∃ initial, initialCash config = .ok initial) ∧ ∃ charges, fees config = .ok charges

section Stale

variable {codec : TextCodec} {config : AccountConfig} {series : SeriesMap} {state : AccountState} {t : ℤ}
  {period instrument : String}

lemma canonical_ne (codec : TextCodec) (t : ℤ) : canonical codec t ≠ "" := by
  have hne : ∀ text : List Char, text ≠ [] → replaceZone text ≠ [] := by
    intro text htext
    unfold replaceZone
    split <;> simp_all
  intro hempty
  unfold canonical at hempty
  rw [← String.toList_inj, String.toList_ofList] at hempty
  apply hne _ _ hempty
  intro htext
  exact codec.isoformat_ne t (String.toList_inj.mp htext)

lemma usable_of_evaluate {call : AccountCall} {report : AccountReport}
    (h : evaluate config state call = .ok report) : Usable config := by
  unfold evaluate at h
  simp only [Raising.bind_eq_ok] at h
  obtain ⟨-, -, -, -, approved, -, period, -, bars, -, initial, hinitial, charges, hcharges, -⟩ := h
  exact ⟨⟨initial, hinitial⟩, charges, hcharges⟩

/-- An account that cannot start never fills. -/
lemma unseenFills_of_unusable (hunusable : ¬Usable config) (times : List ℤ) (calls : List AccountCall) :
    UnseenFills series period times (history config ⟨none, none⟩ calls) := by
  have hfails : ∀ (k : ℕ) (call : AccountCall) (result : Except PyError AccountReport),
      (history config ⟨none, none⟩ calls)[k]? = some (call, result) → ∃ e, result = .error e := by
    intro k call result hstep
    rw [history_getElem?] at hstep
    obtain ⟨found, -, hpair⟩ := Option.map_eq_some_iff.mp hstep
    obtain ⟨-, hresult⟩ := Prod.mk.inj hpair
    cases result with
    | error e => exact ⟨e, rfl⟩
    | ok report => exact absurd (usable_of_evaluate (update_eq_ok.mp hresult)) hunusable
  constructor
  · intro call report hstep
    obtain ⟨e, he⟩ := hfails 0 call _ hstep
    cases he
  · intro k decided executed call report _ _ hstep
    obtain ⟨e, he⟩ := hfails (k + 1) call _ hstep
    cases he
  · exact fun k decided executed call result _ _ hstep _ _ _ => hfails (k + 1) call result hstep

/-- A call without an intent keeps the positions. -/
lemma evaluate_null {call : AccountCall} {report : AccountReport} (hnull : call.previousApprovedIntent = .null)
    (h : evaluate config state call = .ok report) : report.positions = state.positions.getD [] := by
  unfold evaluate at h
  rw [hnull] at h
  simp only [Raising.bind_eq_ok, Raising.pure_eq_ok, approvedIntent] at h
  obtain ⟨-, -, -, -, approved, rfl, period, -, bars, -, initial, -, ⟨fixedFee, feeBps⟩, -, targets,
    htargets, ledger, hledger, equity, -, rfl⟩ := h
  rw [textItems, Raising.pure_eq_ok] at htargets
  subst htargets
  have hloop : ledger = ⟨state.cash.getD initial, state.positions.getD [], []⟩ :=
    (Raising.pure_eq_ok.mp hledger).symm
  rw [hloop]

lemma stateAfter_positions (config : AccountConfig) {calls : List AccountCall}
    (h : ∀ call ∈ calls, call.previousApprovedIntent = .null) :
    (stateAfter config calls).positions.getD [] = [] := by
  induction calls using List.reverseRecOn with
  | nil => rfl
  | append_singleton calls call ih =>
    have hbefore := ih fun other hother => h other (by simp [hother])
    rw [stateAfter_concat]
    unfold update
    cases hresult : evaluate config (stateAfter config calls) call with
    | error e => exact hbefore
    | ok report =>
      rw [Option.getD_some, evaluate_null (h call (by simp)) hresult]
      exact hbefore

/-- The members the account reads of a bar. -/
lemma getMember_toPython (bar : Bar) :
    ∃ fields, bar.toPython = .dict fields ∧ getMember fields "open" = .float bar.opening ∧
      getMember fields "close" = .float bar.close := by
  refine ⟨_, rfl, ?_, ?_⟩
  · simp [getMember]
  · simp [getMember]

/-- An account that holds nothing buys what it is told to, at the bar carried, however old it is. -/
lemma evaluate_first {initial : ℚ} {charges : ℚ × ℚ} {text : String} {row : Row} (hseries : series.Valid)
    (hperiod : executionPeriod config = .ok period) (hinitial : initialCash config = .ok initial)
    (hfees : fees config = .ok charges) (hstate : state.positions.getD [] = [])
    (hcarried : carried Row.time t (series.rows period instrument) = some row)
    (hname : isPathSegment instrument = true) (htext : text ≠ "") :
    ∃ report, evaluate config state
      ⟨.str text, (priceAt t series).toPython, .dict [(.text instrument, .int 1)]⟩ = .ok report := by
  have hrow := (Carry.carried_eq_some_iff (rows_increasing hseries period instrument).1).mp hcarried
  obtain ⟨hopening, hclose⟩ := (rows_increasing hseries period instrument).2 row hrow.1
  have hbar := bar_priceAt (t := t) hseries period instrument
  rw [hcarried, Option.map_some] at hbar
  obtain ⟨bars, hbars⟩ : ∃ bars, barsOf (priceAt t series).toPython period = .ok bars := by
    unfold PriceMap.bar at hbar
    obtain ⟨values, hvalues, -⟩ := Option.bind_eq_some_iff.mp hbar
    unfold barsOf PriceMap.toPython getMember
    simp only [lookup_map_text _ fun values : List (String × Bar) =>
      PythonValue.dict (values.map fun entry => (.text entry.1, entry.2.toPython)), hvalues, Option.map_some,
      Option.getD_some]
    exact ⟨_, rfl⟩
  have hmember := barsOf_toPython hbars instrument
  rw [hbar, Option.map_some, Option.getD_some] at hmember
  obtain ⟨fields, hfields, hopen, hcloseMember⟩ := getMember_toPython row.bar
  rw [hfields] at hmember
  have hprice : ∀ use, priceOf ⟨period, bars, charges.1, charges.2⟩ instrument use "open" = .ok row.bar.opening := by
    intro use
    unfold priceOf barOf
    simp only [hmember, hopen, finite, Raising.ok_bind, Raising.raiseIf, not_le.mpr hopening, if_false,
      pure, Except.pure]
  have hvalue : ∀ use, priceOf ⟨period, bars, charges.1, charges.2⟩ instrument use "close" = .ok row.bar.close := by
    intro use
    unfold priceOf barOf
    simp only [hmember, hcloseMember, finite, Raising.ok_bind, Raising.raiseIf, not_le.mpr hclose, if_false,
      pure, Except.pure]
  have hsorted : ∀ {α : Type} (e : String × α), sortedItems [e] = [e] := fun _ => rfl
  have hset : ∀ {α : Type} (value : α), Dict.set ([] : List (String × α)) instrument value = [(instrument, value)] :=
    fun _ => rfl
  obtain ⟨ledger, hledger, hpositions⟩ : ∃ ledger : Ledger,
      executeTarget ⟨period, bars, charges.1, charges.2⟩ ⟨state.cash.getD initial, [], []⟩
        (instrument, .int 1) = .ok ledger ∧ ledger.positions = [(instrument, 1)] := by
    unfold executeTarget
    simp only [hname, Bool.not_true, Bool.false_eq_true, Raising.raiseIf, if_false, finite, hprice, Raising.ok_bind,
      pure, Except.pure, positionOf, List.lookup_nil, Option.getD_none, sub_zero]
    rw [if_neg (by norm_num)]
    refine ⟨_, rfl, ?_⟩
    simp [hset]
  have hprices : checkPrice (priceAt t series).toPython = .ok () := rfl
  have hvalued : ∃ equity, (sortedItems ledger.positions).foldlM (valuePosition ⟨period, bars, charges.1, charges.2⟩)
      ledger.cash = .ok equity := by
    rw [hpositions, hsorted, List.foldlM_cons]
    unfold valuePosition
    rw [if_neg one_ne_zero, hvalue]
    exact ⟨_, rfl⟩
  obtain ⟨equity, hequity⟩ := hvalued
  unfold evaluate
  simp only [checkTime, hprices, approvedIntent, Raising.raiseIf, htext, if_false, hperiod, hbars, hinitial, hfees,
    Raising.ok_bind, textItems, hstate, hsorted, List.foldlM_cons, List.foldlM_nil, hledger, hequity, pure,
    Except.pure]
  exact ⟨_, rfl⟩

/-- An account that keeps out of the market until a decision and then buys an instrument that has no new bar
by the next fills it at a bar the decision saw. -/
lemma renewed_of_unseenFills {dataset : Dataset} {files : Files} {frames : List Frame} {times : List ℤ}
    {initial : ℚ} {charges : ℚ × ℚ} (h : Accepted codec dataset files series)
    (hframes : List.Forall₂ (fun u frame => frame.decisionTime = canonical codec u ∧
      frame.data = ⟨canonical codec u, priceAt u series⟩) times frames)
    (hincreasing : times.Pairwise (· < ·)) (hperiod : executionPeriod config = .ok period)
    (hinitial : initialCash config = .ok initial) (hfees : fees config = .ok charges)
    (hunseen : ∀ intents, UnseenFills series period times
      (history config ⟨none, none⟩ (cycleCalls frames intents)))
    {k : ℕ} {decided executed : ℤ} (hdecided : times[k]? = some decided)
    (hexecuted : times[k + 1]? = some executed) (instrument : String) :
    Renewed series period instrument decided executed := by
  have hseries := readSeries_valid h.series
  rintro ⟨row, hrow, hle⟩
  by_contra hnone
  have hbefore : decided < executed := by
    obtain ⟨hk, hdecided⟩ := List.getElem?_eq_some_iff.mp hdecided
    obtain ⟨hk', hexecuted⟩ := List.getElem?_eq_some_iff.mp hexecuted
    rw [← hdecided, ← hexecuted]
    exact List.pairwise_iff_getElem.mp hincreasing k (k + 1) hk hk' (by omega)
  obtain ⟨last, hlast⟩ : ∃ last, carried Row.time executed (series.rows period instrument) = some last := by
    cases hcarried : carried Row.time executed (series.rows period instrument) with
    | none =>
      have hlater := Carry.carried_eq_none_iff.mp hcarried row hrow
      omega
    | some last => exact ⟨last, rfl⟩
  let intents : ℕ → PythonValue := fun j => if j = k then .dict [(.text instrument, .int 1)] else .null
  have hstep : ∃ call result,
      (history config ⟨none, none⟩ (cycleCalls frames intents))[k + 1]? = some (call, result) := by
    obtain ⟨hk', -⟩ := List.getElem?_eq_some_iff.mp hexecuted
    have hlength := hframes.length_eq
    rw [history_getElem?]
    have hcalls : k + 1 < (cycleCalls frames intents).length := by
      unfold cycleCalls
      rw [List.length_map, List.length_zipIdx]
      omega
    rw [List.getElem?_eq_getElem hcalls]
    exact ⟨_, _, rfl⟩
  obtain ⟨call, result, hstep⟩ := hstep
  obtain ⟨u, hu, hcall, hresult⟩ := cycle_spec hframes hstep
  rw [hexecuted] at hu
  cases hu
  have hintent : call.previousApprovedIntent = .dict [(.text instrument, .int 1)] := by
    rw [hcall]
    simp [intents]
  obtain ⟨e, he⟩ := (hunseen intents).refuses k decided executed call result hdecided hexecuted hstep instrument
    ⟨_, .int 1, hintent, by simp⟩ hnone
  have hnulls : ∀ before ∈ (cycleCalls frames intents).take (k + 1), before.previousApprovedIntent = .null := by
    intro before hbefore
    obtain ⟨j, hj, hget⟩ := List.getElem_of_mem hbefore
    rw [List.length_take] at hj
    rw [List.getElem_take] at hget
    unfold cycleCalls at hget
    rw [List.getElem_map, List.getElem_zipIdx] at hget
    rw [← hget]
    by_cases hzero : j = 0
    · simp [hzero]
    · have hother : j - 1 ≠ k := by omega
      simp [hzero, intents, hother]
  obtain ⟨report, hreport⟩ := evaluate_first hseries hperiod hinitial hfees (stateAfter_positions config hnulls)
    hlast (isPathSegment_of_rows h hrow) (canonical_ne codec executed)
  have hcall' : call = ⟨.str (canonical codec executed), (priceAt executed series).toPython,
      .dict [(.text instrument, .int 1)]⟩ := by
    rw [hcall]
    simp [intents]
  rw [← hcall', ← update_eq_ok, ← hresult, he] at hreport
  cases hreport

end Stale

/-- A run whose intents only name instruments with a new bar in the next cycle fills nothing at a bar the
decision saw. And no run does, whatever its intents, if and only if every instrument of the execution
period that has a bar by a decision has a new one by the next decision. -/
theorem unseenFills_iff (codec : TextCodec) (dataset : Dataset) (files : Files) (series : SeriesMap)
    (h : Accepted codec dataset files series) (decisionPeriod executionPeriod : String)
    (hdecision : Dict.has files decisionPeriod = true) (hexecution : Dict.has files executionPeriod = true)
    (config : AccountConfig) (hconfig : config.lookup "executionPeriod" = some (.str executionPeriod))
    (frames : List Frame) (hframes : sampleBasicPriceMap codec dataset (parametersFor decisionPeriod) = .ok frames) :
    (∀ intents, RenewedFor series executionPeriod (timeline series decisionPeriod) intents →
      UnseenFills series executionPeriod (timeline series decisionPeriod)
        (history config ⟨none, none⟩ (cycleCalls frames intents))) ∧
    ((∀ intents, UnseenFills series executionPeriod (timeline series decisionPeriod)
        (history config ⟨none, none⟩ (cycleCalls frames intents))) ↔
      (Usable config → ∀ k decided executed, (timeline series decisionPeriod)[k]? = some decided →
        (timeline series decisionPeriod)[k + 1]? = some executed →
        ∀ instrument, Renewed series executionPeriod instrument decided executed)) := by
  have hseries := readSeries_valid h.series
  have hspec : List.Forall₂ (fun u frame => frame.decisionTime = canonical codec u ∧
      frame.data = ⟨canonical codec u, priceAt u series⟩) (timeline series decisionPeriod)
      (sampleFrames codec files series dataset.versionId decisionPeriod 0 (fun _ => 0)
        (timeline series decisionPeriod)) :=
    sampleFrames_spec codec files hseries dataset.versionId decisionPeriod
      (timeline_increasing series decisionPeriod) fun _ _ => behind_zero
  rw [sampleBasicPriceMap_eq h hdecision] at hframes
  cases hframes
  have hperiod : BasicWorkflow.executionPeriod config = .ok executionPeriod := by
    have hsegment := isPathSegment_of_index h.index hexecution
    unfold BasicWorkflow.executionPeriod
    rw [hconfig]
    simp only [Option.getD_some, hsegment, Bool.not_true, Raising.raiseIf, Bool.false_eq_true, if_false]
    rfl
  constructor
  · exact fun intents hrenewed => unseenFills_of_renewed hseries hspec hconfig hrenewed
  constructor
  · rintro hunseen ⟨⟨initial, hinitial⟩, charges, hfees⟩ k decided executed hdecided hexecuted instrument
    exact renewed_of_unseenFills h hspec (timeline_increasing series decisionPeriod) hperiod hinitial hfees hunseen
      hdecided hexecuted instrument
  · intro hrenewed intents
    by_cases husable : Usable config
    · apply unseenFills_of_renewed hseries hspec hconfig
      intro k decided executed hdecided hexecuted instrument _
      exact hrenewed husable k decided executed hdecided hexecuted instrument
    · exact unseenFills_of_unusable husable _ _

/-- The account buys one unit after every decision. -/
def buyOne : ℕ → PythonValue := fun _ => .dict [(.text "A", .int 1)]

theorem unseenFills_minute : ∃ frames,
    sampleBasicPriceMap hourlyCodec hourlyDataset (parametersFor "1m") = .ok frames ∧
      UnseenFills hourlySeries "1m" (timeline hourlySeries "1m")
        (history [("executionPeriod", .str "1m")] ⟨none, none⟩ (cycleCalls frames buyOne)) := by
  have hperiod : Dict.has hourlyFiles "1m" = true := by decide
  refine ⟨_, sampleBasicPriceMap_eq hourly_accepted hperiod, ?_⟩
  apply (unseenFills_iff hourlyCodec hourlyDataset hourlyFiles hourlySeries hourly_accepted "1m" "1m" hperiod hperiod
    [("executionPeriod", .str "1m")] rfl _ (sampleBasicPriceMap_eq hourly_accepted hperiod)).1
  have htimes : timeline hourlySeries "1m" = [1704189600000000, 1704189660000000] := by decide
  rw [htimes]
  intro k decided executed hdecided hexecuted instrument htargets _
  have hinstrument : instrument = "A" := by
    obtain ⟨targets, value, hintent, hlookup⟩ := htargets
    cases hintent
    by_contra hne
    simp [hne] at hlookup
  obtain rfl : k = 0 := by
    obtain ⟨hlt, -⟩ := List.getElem?_eq_some_iff.mp hexecuted
    simp only [List.length_cons, List.length_nil] at hlt
    omega
  cases hdecided
  cases hexecuted
  rw [hinstrument]
  unfold HasBarWithin
  decide

/-- Minute decisions executed on the bars of an hour: the second minute fills at the bar of the first. -/
theorem seen_fill_hour : ∃ frames,
    sampleBasicPriceMap hourlyCodec hourlyDataset (parametersFor "1m") = .ok frames ∧
      ¬UnseenFills hourlySeries "1h" (timeline hourlySeries "1m")
        (history [("executionPeriod", .str "1h")] ⟨none, none⟩ (cycleCalls frames buyOne)) := by
  have hperiod : Dict.has hourlyFiles "1m" = true := by decide
  refine ⟨_, sampleBasicPriceMap_eq hourly_accepted hperiod, fun hunseen => ?_⟩
  have htimes : timeline hourlySeries "1m" = [1704189600000000, 1704189660000000] := by decide
  rw [htimes] at hunseen
  have hsecond : ((history [("executionPeriod", .str "1h")] ⟨none, none⟩
      (cycleCalls (sampleFrames hourlyCodec hourlyFiles hourlySeries hourlyDataset.versionId "1m" 0 (fun _ => 0)
        [1704189600000000, 1704189660000000]) buyOne))[1]?).map Prod.snd =
      some (.ok ⟨99999, [("A", 1)], 100001, [("A", ⟨.buy, 1, 1, 0⟩)]⟩) := by with_unfolding_all decide
  obtain ⟨⟨call, result⟩, hstep, hresult⟩ := Option.map_eq_some_iff.mp hsecond
  cases hresult
  obtain ⟨row, hrow, -, hafter, -⟩ := hunseen.fills 0 _ _ _ _ rfl rfl hstep ("A", ⟨.buy, 1, 1, 0⟩) (by simp)
  revert row
  decide

end TradeFramework.BasicWorkflow
