import TradeFramework.BasicWorkflow.Sampler
import TradeFramework.Data.PythonValue
import TradeFramework.Library.Transitions
import Mathlib.Algebra.BigOperators.Group.List.Basic
import Mathlib.Tactic.Ring
import Mathlib.Tactic.Linarith

/-!
# The multi-asset bar account

The account brings every instrument of the intent approved in the previous cycle to its target, at the
open of the execution period's bar, and values what it holds at the closes. Numbers are exact.
-/

namespace TradeFramework.BasicWorkflow

open Raising (raiseIf)

/-- `_finite`. -/
def finite (value : PythonValue) (label : String) : Except PyError ℚ :=
  match value with
  | .int n => pure n
  | .float q => pure q
  | _ => throw (.valueError ("Basic Workflow " ++ label ++ " must be a finite number."))

/-- `d.get(name)` of a dict. -/
def getMember (d : List (DictKey × PythonValue)) (name : String) : PythonValue :=
  (d.lookup (.text name)).getD .null

/-- The config of an account. -/
abbrev AccountConfig := List (String × PythonValue)

inductive Side
  | buy
  | sell
deriving DecidableEq, Repr

structure Order where
  side : Side
  quantity : ℚ
  price : ℚ
  fee : ℚ
deriving DecidableEq, Repr

/-- What an update returns. -/
structure AccountReport where
  cash : ℚ
  positions : List (String × ℚ)
  equity : ℚ
  orders : List (String × Order)
deriving DecidableEq, Repr

/-- The entries of the module's state, which the update alone writes. -/
structure AccountState where
  cash : Option ℚ
  positions : Option (List (String × ℚ))
deriving DecidableEq, Repr

/-- The values the loop over the targets changes. -/
structure Ledger where
  cash : ℚ
  positions : List (String × ℚ)
  orders : List (String × Order)
deriving DecidableEq, Repr

/-- What an update reads before its loops. -/
structure Market where
  executionPeriod : String
  bars : List (DictKey × PythonValue)
  fixedFee : ℚ
  feeBps : ℚ
deriving Repr

/-- The arguments of an update. -/
structure AccountCall where
  time : PythonValue
  price : PythonValue
  previousApprovedIntent : PythonValue
deriving Repr

/-- The position of an instrument, zero where there is none. -/
def positionOf (positions : List (String × ℚ)) (instrument : String) : ℚ :=
  (positions.lookup instrument).getD 0

section Update

/-- `config.get("initialCash", 100000.0)`, checked. -/
def initialCash (config : AccountConfig) : Except PyError ℚ :=
  finite ((config.lookup "initialCash").getD (.float 100000)) "initialCash"

/-- The fees of a config, checked. -/
def fees (config : AccountConfig) : Except PyError (ℚ × ℚ) := do
  let fixedFee ← finite ((config.lookup "fixedFee").getD (.float 0)) "fixedFee"
  let feeBps ← finite ((config.lookup "feeBps").getD (.float 0)) "feeBps"
  raiseIf (fixedFee < 0 ∨ feeBps < 0) (.valueError "Basic Workflow fees cannot be negative.")
  pure (fixedFee, feeBps)

/-- The execution period of a config, checked. -/
def executionPeriod (config : AccountConfig) : Except PyError String :=
  match (config.lookup "executionPeriod").getD .null with
  | .str period => do
    raiseIf (!isPathSegment period) (.valueError "Basic Workflow executionPeriod is invalid.")
    pure period
  | _ => throw (.valueError "Basic Workflow executionPeriod is invalid.")

def checkTime : PythonValue → Except PyError Unit
  | .str time => raiseIf (time = "") (.valueError "Basic Workflow time must be a non-empty string.")
  | _ => throw (.valueError "Basic Workflow time must be a non-empty string.")

def checkPrice : PythonValue → Except PyError Unit
  | .dict _ => pure ()
  | _ => throw (.valueError "Basic Workflow price must be an object map.")

/-- The approved intent, empty where there is none. -/
def approvedIntent : PythonValue → Except PyError (List (DictKey × PythonValue))
  | .null => pure []
  | .dict approved => pure approved
  | _ => throw (.valueError "Basic Workflow previous approved intent must be an object map.")

/-- The bars of a period. -/
def barsOf (price : PythonValue) (period : String) : Except PyError (List (DictKey × PythonValue)) :=
  match price with
  | .dict periods =>
    match getMember periods period with
    | .dict bars => pure bars
    | _ => throw (.valueError "Basic Workflow executionPeriod is absent from price.")
  | _ => throw (.valueError "Basic Workflow price must be an object map.")

/-- The targets of an intent, whose keys must be strings to be sorted and executed. -/
def textItems : List (DictKey × PythonValue) → Except PyError (List (String × PythonValue))
  | [] => pure []
  | (.text name, value) :: rest => do
    let items ← textItems rest
    pure ((name, value) :: items)
  | (.other _, _) :: _ => throw (.valueError "Basic Workflow approved intent instrument is invalid.")

/-- The bar of an instrument. -/
def barOf (bars : List (DictKey × PythonValue)) (instrument use : String) :
    Except PyError (List (DictKey × PythonValue)) :=
  match getMember bars instrument with
  | .dict bar => pure bar
  | _ => throw (.valueError ("Basic Workflow " ++ use ++ " bar is missing for '" ++ instrument ++ "'."))

/-- The price of a bar under a name, which must be positive. -/
def priceOf (market : Market) (instrument use member : String) : Except PyError ℚ := do
  let bar ← barOf market.bars instrument use
  let price ← finite (getMember bar member)
    ("price." ++ market.executionPeriod ++ "." ++ instrument ++ "." ++ member)
  raiseIf (price ≤ 0) (.valueError ("Basic Workflow " ++ use ++ " price must be positive."))
  pure price

/-- The body of the loop over the targets. -/
def executeTarget (market : Market) (ledger : Ledger) (entry : String × PythonValue) :
    Except PyError Ledger := do
  raiseIf (!isPathSegment entry.1) (.valueError "Basic Workflow approved intent instrument is invalid.")
  let target ← finite entry.2 ("previousApprovedIntent." ++ entry.1)
  let openPrice ← priceOf market entry.1 "execution" "open"
  let quantity := target - positionOf ledger.positions entry.1
  if quantity = 0 then pure ledger
  else
    let notional := quantity * openPrice
    let fee := market.fixedFee + |notional| * market.feeBps / 10000
    pure
      { cash := ledger.cash - (notional + fee)
        positions := Dict.set ledger.positions entry.1 target
        orders := Dict.set ledger.orders entry.1
          ⟨if 0 < quantity then .buy else .sell, |quantity|, openPrice, fee⟩ }

/-- The body of the loop over the positions. -/
def valuePosition (market : Market) (equity : ℚ) (entry : String × ℚ) : Except PyError ℚ :=
  if entry.2 = 0 then pure equity
  else do
    let closePrice ← priceOf market entry.1 "valuation" "close"
    pure (equity + entry.2 * closePrice)

/-- The part of `update` that comes before the state is written. -/
def evaluate (config : AccountConfig) (state : AccountState) (call : AccountCall) :
    Except PyError AccountReport := do
  checkTime call.time
  checkPrice call.price
  let approved ← approvedIntent call.previousApprovedIntent
  let period ← executionPeriod config
  let bars ← barsOf call.price period
  let initial ← initialCash config
  let (fixedFee, feeBps) ← fees config
  let market : Market := ⟨period, bars, fixedFee, feeBps⟩
  let targets ← textItems approved
  let ledger ← (sortedItems targets).foldlM (executeTarget market)
    ⟨state.cash.getD initial, state.positions.getD [], []⟩
  let equity ← (sortedItems ledger.positions).foldlM (valuePosition market) ledger.cash
  pure ⟨ledger.cash, ledger.positions, equity, ledger.orders⟩

/-- `BasicMultiAssetBarAccount.update`, with the state it leaves. -/
def update (config : AccountConfig) (state : AccountState) (call : AccountCall) :
    Except PyError AccountReport × AccountState :=
  match evaluate config state call with
  | .ok report => (.ok report, ⟨some report.cash, some report.positions⟩)
  | .error e => (.error e, state)

end Update

section History

/-- The quantity with its direction. -/
def Order.signedQuantity (order : Order) : ℚ :=
  match order.side with
  | .buy => order.quantity
  | .sell => -order.quantity

/-- What an order takes from the cash. -/
def Order.cost (order : Order) : ℚ := order.signedQuantity * order.price + order.fee

/-- The calls of a run in order, each with what it gave. -/
def history (config : AccountConfig) : AccountState → List AccountCall →
    List (AccountCall × Except PyError AccountReport)
  | _, [] => []
  | state, call :: rest =>
    (call, (update config state call).1) :: history config (update config state call).2 rest

/-- The state behind a run of a new account. -/
def stateAfter (config : AccountConfig) (calls : List AccountCall) : AccountState :=
  Transitions.run (fun state call => (update config state call).2) ⟨none, none⟩ calls

/-- The orders the successful calls emitted. -/
def emitted (trace : List (AccountCall × Except PyError AccountReport)) : List (String × Order) :=
  trace.flatMap fun step => (step.2.toOption.map AccountReport.orders).getD []

def totalCost (orders : List (String × Order)) : ℚ := (orders.map fun o => o.2.cost).sum

def totalQuantity (orders : List (String × Order)) (instrument : String) : ℚ :=
  ((orders.filter fun o => o.1 = instrument).map fun o => o.2.signedQuantity).sum

def numberOf : PythonValue → Option ℚ
  | .int n => some n
  | .float q => some q
  | _ => none

/-- The target an intent has for an instrument. -/
def targetOf (intent : PythonValue) (instrument : String) : Option ℚ :=
  match intent with
  | .dict targets => (targets.lookup (.text instrument)).bind numberOf
  | _ => none

/-- The target of the last successful call that has one for the instrument, zero where none has. -/
def lastTarget (trace : List (AccountCall × Except PyError AccountReport)) (instrument : String) : ℚ :=
  trace.foldl (fun last step =>
    match step.2 with
    | .ok _ => (targetOf step.1.previousApprovedIntent instrument).getD last
    | .error _ => last) 0

/-- The close of an instrument in the execution period of a price map. -/
def closeOf (config : AccountConfig) (price : PythonValue) (instrument : String) : ℚ :=
  match price, config.lookup "executionPeriod" with
  | .dict periods, some (.str period) =>
    match getMember periods period with
    | .dict bars =>
      match getMember bars instrument with
      | .dict bar => (numberOf (getMember bar "close")).getD 0
      | _ => 0
    | _ => 0
  | _, _ => 0

end History

section Orders

variable {market : Market} {ledger ledger' : Ledger} {orders : List (String × Order)} {instrument : String}

lemma finite_eq_ok {value : PythonValue} {label : String} {q : ℚ} :
    finite value label = .ok q ↔ numberOf value = some q := by
  unfold finite numberOf
  cases value <;> simp

lemma totalCost_append (orders more : List (String × Order)) :
    totalCost (orders ++ more) = totalCost orders + totalCost more := by
  simp [totalCost]

lemma totalQuantity_append (orders more : List (String × Order)) (instrument : String) :
    totalQuantity (orders ++ more) instrument = totalQuantity orders instrument + totalQuantity more instrument := by
  simp [totalQuantity]

lemma positionOf_set (positions : List (String × ℚ)) (name : String) (target : ℚ) (instrument : String) :
    positionOf (Dict.set positions name target) instrument =
      if instrument = name then target else positionOf positions instrument := by
  unfold positionOf
  rw [Dict.lookup_set]
  by_cases h : instrument = name
  · rw [if_pos h, if_pos h, Option.getD_some]
  · rw [if_neg h, if_neg h]

/-- An order of a signed quantity, as the account writes it. -/
lemma signedQuantity_order (quantity price fee : ℚ) :
    Order.signedQuantity ⟨if 0 < quantity then .buy else .sell, |quantity|, price, fee⟩ = quantity := by
  unfold Order.signedQuantity
  by_cases h : 0 < quantity
  · simp only [if_pos h]
    exact abs_of_pos h
  · simp only [if_neg h]
    rw [abs_of_nonpos (not_lt.mp h), neg_neg]

/-- One target: nothing is emitted for a position that is there, and one order brings every other
position to its target. -/
lemma executeTarget_spec {entry : String × PythonValue} (hfresh : ledger.orders.lookup entry.1 = none)
    (h : executeTarget market ledger entry = .ok ledger') :
    ∃ more target, ledger'.orders = ledger.orders ++ more ∧ (∀ o ∈ more, o.1 = entry.1) ∧
      ledger'.cash = ledger.cash - totalCost more ∧ numberOf entry.2 = some target ∧
      (∀ instrument, positionOf ledger'.positions instrument =
        if instrument = entry.1 then target else positionOf ledger.positions instrument) ∧
      ∀ instrument, positionOf ledger'.positions instrument =
        positionOf ledger.positions instrument + totalQuantity more instrument := by
  unfold executeTarget at h
  simp only [Raising.bind_eq_ok, Raising.raiseIf_eq_ok] at h
  obtain ⟨-, -, target, htarget, openPrice, -, h⟩ := h
  have htarget := finite_eq_ok.mp htarget
  by_cases hzero : target - positionOf ledger.positions entry.1 = 0
  · rw [if_pos hzero, Raising.pure_eq_ok] at h
    subst h
    refine ⟨[], target, by simp, by simp, by simp [totalCost], htarget, fun instrument => ?_, ?_⟩
    · by_cases hname : instrument = entry.1
      · rw [if_pos hname, hname]
        linarith
      · rw [if_neg hname]
    · simp [totalQuantity]
  · rw [if_neg hzero, Raising.pure_eq_ok] at h
    subst h
    obtain ⟨quantity, hquantity⟩ : ∃ quantity, target - positionOf ledger.positions entry.1 = quantity := ⟨_, rfl⟩
    simp only [hquantity]
    have hsigned := signedQuantity_order quantity openPrice
      (market.fixedFee + |quantity * openPrice| * market.feeBps / 10000)
    refine ⟨_, target, Dict.set_eq_append _ hfresh, by simp, ?_, htarget, fun instrument => ?_,
      fun instrument => ?_⟩
    · simp only [totalCost, List.map_cons, List.map_nil, List.sum_cons, List.sum_nil, Order.cost, hsigned]
      ring
    · exact positionOf_set _ _ _ _
    · rw [positionOf_set]
      by_cases hname : instrument = entry.1
      · simp only [totalQuantity, hname, List.filter_cons, decide_true, if_true, List.filter_nil, List.map_cons,
          List.map_nil, List.sum_cons, List.sum_nil, hsigned]
        linarith
      · simp [totalQuantity, hname, Ne.symm hname]

/-- The loop over the targets. -/
lemma foldlM_executeTarget {targets : List (String × PythonValue)} (hnames : (targets.map Prod.fst).Nodup)
    (hfresh : ∀ entry ∈ targets, ledger.orders.lookup entry.1 = none)
    (h : targets.foldlM (executeTarget market) ledger = .ok ledger') :
    ∃ more, ledger'.orders = ledger.orders ++ more ∧ ledger'.cash = ledger.cash - totalCost more ∧
      (∀ instrument, positionOf ledger'.positions instrument =
        ((targets.lookup instrument).bind numberOf).getD (positionOf ledger.positions instrument)) ∧
      ∀ instrument, positionOf ledger'.positions instrument =
        positionOf ledger.positions instrument + totalQuantity more instrument := by
  induction targets generalizing ledger with
  | nil =>
    rw [List.foldlM_nil, Raising.pure_eq_ok] at h
    subst h
    exact ⟨[], by simp, by simp [totalCost], by simp, by simp [totalQuantity]⟩
  | cons entry rest ih =>
    rw [List.map_cons, List.nodup_cons] at hnames
    rw [List.foldlM_cons, Raising.bind_eq_ok] at h
    obtain ⟨between, hentry, hrest⟩ := h
    obtain ⟨first, target, horders, hmore, hcash, htarget, hpositions, hquantities⟩ :=
      executeTarget_spec (hfresh entry (by simp)) hentry
    have hfreshRest : ∀ other ∈ rest, between.orders.lookup other.1 = none := by
      intro other hother
      rw [horders, List.lookup_append, hfresh other (by simp [hother]), Option.none_or,
        Dict.lookup_eq_none_iff]
      intro order horder
      have hname : other.1 = entry.1 := hmore _ horder
      exact hnames.1 (hname ▸ List.mem_map_of_mem hother)
    obtain ⟨more, hordersRest, hcashRest, hpositionsRest, hquantitiesRest⟩ := ih hnames.2 hfreshRest hrest
    refine ⟨first ++ more, ?_, ?_, fun instrument => ?_, fun instrument => ?_⟩
    · rw [hordersRest, horders, List.append_assoc]
    · rw [hcashRest, hcash, totalCost_append]
      ring
    · rw [hpositionsRest, hpositions, ← Prod.eta entry, Dict.lookup_cons]
      by_cases hname : instrument = entry.1
      · have hnone : rest.lookup instrument = none := by
          rw [Dict.lookup_eq_none_iff]
          intro value hvalue
          exact hnames.1 (hname ▸ List.mem_map_of_mem hvalue)
        simp [hname, htarget, hname ▸ hnone]
      · rw [if_neg hname, if_neg hname]
    · rw [hquantitiesRest, hquantities, totalQuantity_append]
      ring

end Orders

section Evaluation

variable {config : AccountConfig} {state : AccountState} {call : AccountCall} {report : AccountReport}

lemma lookup_sortedItems {α : Type} (d : List (String × α)) (name : String) :
    (sortedItems d).lookup name = d.lookup name := by
  ext value
  have hperm : (sortedItems d).Perm (Dict.items d) := List.perm_insertionSort _ _
  rw [← Dict.mem_items (d := d), ← Dict.mem_items, Dict.items_of_nodup (nodup_sortedItems d)]
  exact hperm.mem_iff

lemma lookup_textItems {entries : List (DictKey × PythonValue)} {items : List (String × PythonValue)}
    (h : textItems entries = .ok items) (name : String) :
    items.lookup name = entries.lookup (.text name) := by
  induction entries generalizing items with
  | nil =>
    rw [textItems, Raising.pure_eq_ok] at h
    subst h
    rfl
  | cons entry rest ih =>
    rcases entry with ⟨key | identity, value⟩
    · rw [textItems, Raising.bind_eq_ok] at h
      obtain ⟨more, hmore, hpure⟩ := h
      rw [← Raising.pure_eq_ok.mp hpure, Dict.lookup_cons, Dict.lookup_cons, ih hmore]
      simp
    · simp [textItems] at h

lemma closeOf_eq {period : String} {bars : List (DictKey × PythonValue)} {market : Market} {instrument : String}
    {price : ℚ} (hperiod : executionPeriod config = .ok period) (hbars : barsOf call.price period = .ok bars)
    (hmarket : market.bars = bars) (h : priceOf market instrument "valuation" "close" = .ok price) :
    closeOf config call.price instrument = price := by
  unfold executionPeriod at hperiod
  split at hperiod
  · rename_i name hname
    simp only [Raising.bind_eq_ok, Raising.pure_eq_ok] at hperiod
    obtain ⟨-, -, rfl⟩ := hperiod
    have hconfig : config.lookup "executionPeriod" = some (.str name) := by
      cases hlookup : config.lookup "executionPeriod" with
      | none => simp [hlookup] at hname
      | some value =>
        rw [hlookup, Option.getD_some] at hname
        rw [hname]
    unfold barsOf at hbars
    split at hbars
    · rename_i periods hprice
      split at hbars
      · rename_i found hfound
        rw [Raising.pure_eq_ok] at hbars
        subst hbars
        unfold priceOf barOf at h
        rw [hmarket] at h
        simp only [Raising.bind_eq_ok, Raising.pure_eq_ok] at h
        obtain ⟨bar, hbar, value, hvalue, -, -, rfl⟩ := h
        split at hbar
        · rename_i fields hfields
          rw [Raising.pure_eq_ok] at hbar
          subst hbar
          unfold closeOf
          simp only [hprice, hconfig, hfound, hfields, finite_eq_ok.mp hvalue, Option.getD_some]
        · simp at hbar
      · simp at hbars
    · simp at hbars
  · simp at hperiod

/-- The loop over the positions adds each position at its close. -/
lemma foldlM_valuePosition {market : Market} {positions : List (String × ℚ)} {equity equity' : ℚ}
    {close : String → ℚ} (hclose : ∀ instrument price, priceOf market instrument "valuation" "close" = .ok price →
      close instrument = price)
    (h : positions.foldlM (valuePosition market) equity = .ok equity') :
    equity' = equity + (positions.map fun p => p.2 * close p.1).sum := by
  induction positions generalizing equity with
  | nil =>
    rw [List.foldlM_nil, Raising.pure_eq_ok] at h
    simp [h]
  | cons entry rest ih =>
    rw [List.foldlM_cons, Raising.bind_eq_ok] at h
    obtain ⟨between, hentry, hrest⟩ := h
    have hbetween : between = equity + entry.2 * close entry.1 := by
      unfold valuePosition at hentry
      by_cases hzero : entry.2 = 0
      · rw [if_pos hzero, Raising.pure_eq_ok] at hentry
        rw [hzero, ← hentry]
        ring
      · rw [if_neg hzero] at hentry
        obtain ⟨price, hprice, hpure⟩ := Raising.bind_eq_ok.mp hentry
        rw [← Raising.pure_eq_ok.mp hpure, hclose entry.1 price hprice]
    rw [ih hrest, hbetween, List.map_cons, List.sum_cons]
    ring

/-- What a successful call computes from the state it finds. -/
theorem evaluate_spec (h : evaluate config state call = .ok report) :
    ∃ initial, initialCash config = .ok initial ∧
      report.cash = state.cash.getD initial - totalCost report.orders ∧
      (∀ instrument, positionOf report.positions instrument =
        (targetOf call.previousApprovedIntent instrument).getD
          (positionOf (state.positions.getD []) instrument)) ∧
      (∀ instrument, positionOf report.positions instrument =
        positionOf (state.positions.getD []) instrument + totalQuantity report.orders instrument) ∧
      report.equity = report.cash +
        ((Dict.items report.positions).map fun p => p.2 * closeOf config call.price p.1).sum := by
  unfold evaluate at h
  simp only [Raising.bind_eq_ok, Raising.pure_eq_ok] at h
  obtain ⟨-, -, -, -, approved, happroved, period, hperiod, bars, hbars, initial, hinitial, ⟨fixedFee, feeBps⟩,
    -, targets, htargets, ledger, hledger, equity, hequity, rfl⟩ := h
  have hloop := foldlM_executeTarget (nodup_sortedItems targets) (fun _ _ => rfl) hledger
  obtain ⟨more, horders, hcash, hpositions, hquantities⟩ := hloop
  rw [List.nil_append] at horders
  refine ⟨initial, hinitial, ?_, fun instrument => ?_, fun instrument => ?_, ?_⟩
  · rw [horders]
    exact hcash
  · rw [hpositions, lookup_sortedItems, lookup_textItems htargets]
    congr 1
    unfold targetOf
    cases hintent : call.previousApprovedIntent with
    | dict entries =>
      rw [hintent] at happroved
      rw [← Raising.pure_eq_ok.mp happroved]
    | null =>
      rw [hintent] at happroved
      rw [← Raising.pure_eq_ok.mp happroved]
      rfl
    | _ => simp [hintent, approvedIntent] at happroved
  · rw [horders]
    exact hquantities instrument
  · have hclose : ∀ instrument price,
        priceOf ⟨period, bars, fixedFee, feeBps⟩ instrument "valuation" "close" = .ok price →
        closeOf config call.price instrument = price :=
      fun instrument price hprice => closeOf_eq hperiod hbars rfl hprice
    rw [foldlM_valuePosition hclose hequity]
    have hperm : (sortedItems ledger.positions).Perm (Dict.items ledger.positions) := List.perm_insertionSort _ _
    rw [(hperm.map fun p => p.2 * closeOf config call.price p.1).sum_eq]

end Evaluation

section Bookkeeping

variable {config : AccountConfig}

lemma update_eq_ok {state : AccountState} {call : AccountCall} {report : AccountReport} :
    (update config state call).1 = .ok report ↔ evaluate config state call = .ok report := by
  unfold update
  cases evaluate config state call with
  | ok other => rfl
  | error e => simp

/-- The books agree with a history: the cash with the orders' costs, every position with its orders and
with its last target. -/
structure Balanced (config : AccountConfig) (trace : List (AccountCall × Except PyError AccountReport))
    (state : AccountState) : Prop where
  cash : ∀ initial, initialCash config = .ok initial → state.cash.getD initial = initial - totalCost (emitted trace)
  quantities : ∀ instrument,
    positionOf (state.positions.getD []) instrument = totalQuantity (emitted trace) instrument
  targets : ∀ instrument, positionOf (state.positions.getD []) instrument = lastTarget trace instrument

lemma emitted_append (trace more : List (AccountCall × Except PyError AccountReport)) :
    emitted (trace ++ more) = emitted trace ++ emitted more := by
  simp [emitted]

/-- One call keeps the books, whether it succeeds or fails. -/
lemma Balanced.step {trace : List (AccountCall × Except PyError AccountReport)} {state : AccountState}
    (h : Balanced config trace state) (call : AccountCall) :
    Balanced config (trace ++ [(call, (update config state call).1)]) (update config state call).2 := by
  unfold update
  cases hreport : evaluate config state call with
  | error e =>
    constructor
    · simpa [emitted_append, emitted, Except.toOption] using h.cash
    · simpa [emitted_append, emitted, Except.toOption] using h.quantities
    · simpa [lastTarget] using h.targets
  | ok report =>
    obtain ⟨initial, hinitial, hcash, htargets, hquantities, -⟩ := evaluate_spec hreport
    have hemitted : emitted [(call, (.ok report : Except PyError AccountReport))] = report.orders := by
      simp [emitted, Except.toOption]
    constructor
    · intro initial' hinitial'
      rw [hinitial] at hinitial'
      cases hinitial'
      rw [emitted_append, totalCost_append, hemitted, Option.getD_some, hcash, h.cash initial hinitial]
      ring
    · intro instrument
      rw [emitted_append, totalQuantity_append, hemitted, Option.getD_some, hquantities, h.quantities]
    · intro instrument
      rw [Option.getD_some, htargets, h.targets]
      simp [lastTarget]

lemma history_concat (state : AccountState) (calls : List AccountCall) (call : AccountCall) :
    history config state (calls ++ [call]) = history config state calls ++
      [(call, (update config (Transitions.run (fun s c => (update config s c).2) state calls) call).1)] := by
  induction calls generalizing state with
  | nil => rfl
  | cons first rest ih => rw [List.cons_append, history, ih, history, List.cons_append, Transitions.run_cons]

lemma stateAfter_concat (calls : List AccountCall) (call : AccountCall) :
    stateAfter config (calls ++ [call]) = (update config (stateAfter config calls) call).2 := by
  unfold stateAfter
  rw [Transitions.run_append]
  rfl

/-- The books of a new account agree with every history. -/
theorem balanced_stateAfter (config : AccountConfig) (calls : List AccountCall) :
    Balanced config (history config ⟨none, none⟩ calls) (stateAfter config calls) := by
  induction calls using List.reverseRecOn with
  | nil =>
    constructor
    · intro initial _
      simp [stateAfter, history, emitted, totalCost]
    · intro instrument
      simp [stateAfter, history, emitted, totalQuantity, positionOf]
    · intro instrument
      simp [stateAfter, history, lastTarget, positionOf]
  | append_singleton calls call ih =>
    rw [history_concat, stateAfter_concat]
    exact ih.step call

/-- In every history of a new account, a successful call reports the cash that the orders emitted so far
leave, positions that are their sums and the last targets, and the equity at the closes; a failing
call leaves the stored state as it is. -/
theorem update_bookkeeping (config : AccountConfig) (calls : List AccountCall) (call : AccountCall) :
    (∀ report, (update config (stateAfter config calls) call).1 = .ok report →
      ∃ initial, initialCash config = .ok initial ∧
        report.cash = initial - totalCost (emitted (history config ⟨none, none⟩ (calls ++ [call]))) ∧
        (∀ instrument,
          positionOf report.positions instrument =
              totalQuantity (emitted (history config ⟨none, none⟩ (calls ++ [call]))) instrument ∧
            positionOf report.positions instrument =
              lastTarget (history config ⟨none, none⟩ (calls ++ [call])) instrument) ∧
        report.equity = report.cash +
          ((Dict.items report.positions).map fun p => p.2 * closeOf config call.price p.1).sum ∧
        stateAfter config (calls ++ [call]) = ⟨some report.cash, some report.positions⟩) ∧
    ∀ e, (update config (stateAfter config calls) call).1 = .error e →
      stateAfter config (calls ++ [call]) = stateAfter config calls := by
  have hbalanced := balanced_stateAfter config (calls ++ [call])
  constructor
  · intro report hreport
    have hevaluate := update_eq_ok.mp hreport
    have hstate : stateAfter config (calls ++ [call]) = ⟨some report.cash, some report.positions⟩ := by
      rw [stateAfter_concat, update, hevaluate]
    obtain ⟨initial, hinitial, -, -, -, hequity⟩ := evaluate_spec hevaluate
    rw [hstate] at hbalanced
    refine ⟨initial, hinitial, ?_, fun instrument => ⟨?_, ?_⟩, hequity, hstate⟩
    · exact hbalanced.cash initial hinitial
    · exact hbalanced.quantities instrument
    · exact hbalanced.targets instrument
  · intro e he
    rw [stateAfter_concat]
    unfold update at he ⊢
    cases hresult : evaluate config (stateAfter config calls) call with
    | ok report => simp [hresult] at he
    | error e => rfl

/-- A price map of one instrument in one period. -/
def priceMapOf (opening close : ℚ) : PythonValue :=
  .dict [(.text "1m", .dict [(.text "A", .dict [(.text "open", .float opening), (.text "close", .float close)])])]

theorem update_bookkeeping_bought : ∃ initial, initialCash [("executionPeriod", .str "1m")] = .ok initial ∧
    (100000 - 2 * 10 : ℚ) = initial - totalCost (emitted (history [("executionPeriod", .str "1m")] ⟨none, none⟩
      ([⟨.str "t0", priceMapOf 9 9, .null⟩] ++
        [⟨.str "t1", priceMapOf 10 11, .dict [(.text "A", .int 2)]⟩]))) := by
  have hreport : (update [("executionPeriod", .str "1m")]
      (stateAfter [("executionPeriod", .str "1m")] [⟨.str "t0", priceMapOf 9 9, .null⟩])
      ⟨.str "t1", priceMapOf 10 11, .dict [(.text "A", .int 2)]⟩).1 =
      .ok ⟨100000 - 2 * 10, [("A", 2)], 100002, [("A", ⟨.buy, 2, 10, 0⟩)]⟩ := by with_unfolding_all decide
  obtain ⟨initial, hinitial, hcash, -⟩ := (update_bookkeeping _ _ _).1 _ hreport
  exact ⟨initial, hinitial, hcash⟩

end Bookkeeping

end TradeFramework.BasicWorkflow
