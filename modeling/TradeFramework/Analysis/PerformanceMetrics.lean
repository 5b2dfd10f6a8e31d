import TradeFramework.BasicWorkflow.Dataset
import TradeFramework.Library.Transitions
import TradeFramework.Library.Welford
import Mathlib.Algebra.Order.Field.Basic
import Mathlib.Tactic.Linarith

/-!
# The performance metrics analyzer

The analyzer keeps count, mean and centred squares of the returns and the deepest drawdown while the
observations come in. Numbers are exact; square roots and powers are those of the platform.
-/

namespace TradeFramework.PerformanceMetrics

open Raising (raiseIf)
open BasicWorkflow (TextCodec FloatReading)
open Welford (mean centredSquares)

/-- `math.sqrt` and `**`; a power that overflows has no value. -/
structure Numerics where
  sqrt : ℚ → ℚ
  sqrt_pos : ∀ x, 0 < sqrt x ↔ 0 < x
  pow : ℚ → ℚ → Option ℚ

/-- The entries of the module's state, which `update` alone writes. -/
structure AnalyzerState where
  observationCount : Option ℕ
  returnCount : Option ℕ
  meanReturn : Option ℚ
  returnM2 : Option ℚ
  startEquity : Option ℚ
  endEquity : Option ℚ
  peakEquity : Option ℚ
  maxDrawdown : Option ℚ
  firstTime : Option String
  lastTime : Option String
  firstEpoch : Option ℚ
  lastEpoch : Option ℚ
deriving DecidableEq, Repr

/-- The state of a new module. -/
def AnalyzerState.empty : AnalyzerState :=
  ⟨none, none, none, none, none, none, none, none, none, none, none, none⟩

structure Metrics where
  observationCount : ℕ
  returnCount : ℕ
  startEquity : Option ℚ
  endEquity : Option ℚ
  totalReturn : Option ℚ
  annualizedReturn : Option ℚ
  annualizedVolatility : Option ℚ
  sharpeRatio : Option ℚ
  maxDrawdown : Option ℚ
  firstTime : Option String
  lastTime : Option String
  observationsPerYear : Option ℚ
deriving DecidableEq, Repr

/-- An observation as it is recorded: the time in seconds and as a text, and the equity. -/
structure Observation where
  epoch : ℚ
  timestamp : String
  equity : ℚ
deriving DecidableEq, Repr

/-- The arguments of an update. -/
structure UpdateCall where
  time : String
  equity : Option FloatReading
deriving DecidableEq, Repr

/-- `SECONDS_PER_YEAR`. -/
def secondsPerYear : ℚ := 3652425 / 10000 * 24 * 60 * 60

section Update

variable (numerics : Numerics) (codec : TextCodec) (riskFreeRate : Option ℚ)

/-- `_instant`. -/
def instant (value : String) : Except PyError (ℚ × String) := do
  let text := String.ofList (stripText value.toList)
  raiseIf (text = "") (.valueError "Performance time must be a non-empty ISO-8601 timestamp.")
  let iso := if text.toList.getLast? = some 'Z' then
      String.ofList (text.toList.dropLast ++ "+00:00".toList)
    else text
  match codec.fromisoformat iso with
  | none => throw (.valueError "Performance time must be a valid ISO-8601 timestamp.")
  | some .naive => throw (.valueError "Performance time must include an explicit timezone offset.")
  | some (.aware microseconds) => pure (microseconds / 1000000, text)

/-- The years between the first and the last observation, when there are any. -/
def elapsedYears (state : AnalyzerState) : Option ℚ :=
  let seconds := state.lastEpoch.getD 0 - state.firstEpoch.getD 0
  if 0 < seconds then some (seconds / secondsPerYear) else none

/-- The Sharpe ratio of a positive deviation. -/
def sharpeRatio (mean deviation periods : ℚ) : Except PyError ℚ := do
  let annualRiskFree := riskFreeRate.getD 0
  raiseIf (annualRiskFree ≤ -1) (.valueError "Performance riskFreeRate must be greater than -1.")
  match numerics.pow (1 + annualRiskFree) (1 / periods) with
  | none => throw (.overflowError "(34, 'Numerical result out of range')")
  | some power => pure ((mean - (power - 1)) / deviation * numerics.sqrt periods)

/-- The volatility and the Sharpe ratio, where two returns or more and the time allow them. -/
def riskMetrics (state : AnalyzerState) (returnCount : ℕ) (periods : Option ℚ) :
    Except PyError (Option ℚ × Option ℚ) :=
  match periods with
  | none => pure (none, none)
  | some periods =>
    if returnCount < 2 then pure (none, none)
    else do
      let variance := state.returnM2.getD 0 / (returnCount - 1)
      let deviation := numerics.sqrt (max variance 0)
      let volatility := deviation * numerics.sqrt periods
      if 0 < deviation then
        let sharpe ← sharpeRatio numerics riskFreeRate (state.meanReturn.getD 0) deviation periods
        pure (some volatility, some sharpe)
      else pure (some volatility, none)

/-- `_metrics`. -/
def metrics (state : AnalyzerState) : Except PyError Metrics :=
  let observationCount := state.observationCount.getD 0
  let returnCount := state.returnCount.getD 0
  if observationCount = 0 then
    pure ⟨0, 0, none, none, none, none, none, none, none, none, none, none⟩
  else do
    let start := state.startEquity.getD 0
    let final := state.endEquity.getD 0
    let totalReturn := if start = 0 then none else some (final / start - 1)
    let years := elapsedYears state
    let periods := years.bind fun years =>
      if years ≠ 0 ∧ returnCount ≠ 0 then some (returnCount / years) else none
    -- A power that overflows leaves the annualized return out.
    let annualizedReturn := totalReturn.bind fun total => years.bind fun years =>
      if years ≠ 0 ∧ 0 ≤ 1 + total then (numerics.pow (1 + total) (1 / years)).map fun power => power - 1
      else none
    let (volatility, sharpe) ← riskMetrics numerics riskFreeRate state returnCount periods
    pure
      { observationCount := observationCount
        returnCount := returnCount
        startEquity := some start
        endEquity := some final
        totalReturn := totalReturn
        annualizedReturn := annualizedReturn
        annualizedVolatility := volatility
        sharpeRatio := sharpe
        maxDrawdown := some (state.maxDrawdown.getD 0)
        firstTime := state.firstTime
        lastTime := state.lastTime
        observationsPerYear := periods }

/-- The checks of an observation, before any of it is written. -/
def checkObservation (state : AnalyzerState) (time : String) (equity : FloatReading) :
    Except PyError Observation := do
  let (epoch, timestamp) ← instant codec time
  match equity with
  | .nonFinite => throw (.valueError "Performance equity must be finite.")
  | .finite equity =>
    raiseIf (∃ previous ∈ state.lastEpoch, epoch ≤ previous)
      (.valueError "Performance observation times must be strictly increasing.")
    pure ⟨epoch, timestamp, equity⟩

/-- The return of an observation behind others. -/
def recordReturn (state : AnalyzerState) (equity : ℚ) : AnalyzerState :=
  let previous := state.endEquity.getD 0
  if state.observationCount.getD 0 ≠ 0 ∧ previous ≠ 0 then
    let value := equity / previous - 1
    let returnCount := state.returnCount.getD 0 + 1
    let previousMean := state.meanReturn.getD 0
    let delta := value - previousMean
    let mean := previousMean + delta / returnCount
    { state with
      returnCount := some returnCount
      meanReturn := some mean
      returnM2 := some (state.returnM2.getD 0 + delta * (value - mean)) }
  else state

/-- The first observation. -/
def recordFirst (state : AnalyzerState) (o : Observation) : AnalyzerState :=
  if state.observationCount.getD 0 = 0 then
    { state with
      startEquity := some o.equity
      peakEquity := some o.equity
      maxDrawdown := some 0
      firstTime := some o.timestamp
      firstEpoch := some o.epoch }
  else state

/-- The peak and the deepest drawdown with one more equity. -/
def recordDrawdown (state : AnalyzerState) (equity : ℚ) : AnalyzerState :=
  let peak := max (state.peakEquity.getD equity) equity
  { state with
    peakEquity := some peak
    maxDrawdown := if peak ≠ 0 then some (min (state.maxDrawdown.getD 0) (equity / peak - 1))
      else state.maxDrawdown }

/-- The writes of an observation. -/
def record (state : AnalyzerState) (o : Observation) : AnalyzerState :=
  { recordDrawdown (recordFirst (recordReturn state o.equity) o) o.equity with
    observationCount := some (state.observationCount.getD 0 + 1)
    endEquity := some o.equity
    lastTime := some o.timestamp
    lastEpoch := some o.epoch }

/-- `PerformanceMetricsAnalyzer.update`, with the state it leaves. -/
def update (state : AnalyzerState) (call : UpdateCall) : Except PyError Metrics × AnalyzerState :=
  match call.equity with
  | none => (metrics numerics riskFreeRate state, state)
  | some equity =>
    match checkObservation codec state call.time equity with
    | .error e => (.error e, state)
    | .ok o => (metrics numerics riskFreeRate (record state o), record state o)

end Update

section Batch

/-- The returns over consecutive equities, leaving out those from an equity of zero. -/
def returns : List ℚ → List ℚ
  | a :: b :: rest => if a = 0 then returns (b :: rest) else (b / a - 1) :: returns (b :: rest)
  | _ => []

/-- The running maximum of the equities up to the one at an index. -/
def peakAt (equities : List ℚ) (i : ℕ) : ℚ := ((equities.take (i + 1)).max?).getD 0

/-- The drawdowns at the indices whose running maximum is not zero. -/
def drawdowns (equities : List ℚ) : List ℚ :=
  (equities.zipIdx).filterMap fun p =>
    if peakAt equities p.2 = 0 then none else some (p.1 / peakAt equities p.2 - 1)

/-- The minimum of zero and the drawdowns. -/
def deepestDrawdown (equities : List ℚ) : ℚ := (drawdowns equities).foldl min 0

end Batch

section Concat

variable {equities : List ℚ}

lemma returns_concat (equities : List ℚ) (e : ℚ) :
    returns (equities ++ [e]) = returns equities ++
      (equities.getLast?.elim [] fun previous => if previous = 0 then [] else [e / previous - 1]) := by
  induction equities with
  | nil => rfl
  | cons a rest ih =>
    cases rest with
    | nil =>
      by_cases ha : a = 0
      · simp [returns, ha]
      · simp [returns, ha]
    | cons b rest =>
      rw [List.cons_append, List.cons_append, returns, returns, ← List.cons_append, ih,
        List.getLast?_cons_cons]
      by_cases ha : a = 0
      · rw [if_pos ha, if_pos ha]
      · rw [if_neg ha, if_neg ha, List.cons_append]

lemma max?_concat (equities : List ℚ) (e : ℚ) :
    (equities ++ [e]).max? = some (max (equities.max?.getD e) e) := by
  cases equities with
  | nil => simp
  | cons a rest =>
    rw [List.cons_append, List.max?_cons', List.max?_cons', List.foldl_append]
    rfl

lemma peakAt_concat_of_lt {i : ℕ} (e : ℚ) (h : i < equities.length) :
    peakAt (equities ++ [e]) i = peakAt equities i := by
  unfold peakAt
  rw [List.take_append_of_le_length (by omega)]

lemma peakAt_concat_length (equities : List ℚ) (e : ℚ) :
    peakAt (equities ++ [e]) equities.length = max (equities.max?.getD e) e := by
  have htake : (equities ++ [e]).take (equities.length + 1) = equities ++ [e] :=
    List.take_of_length_le (by simp)
  unfold peakAt
  rw [htake, max?_concat, Option.getD_some]

lemma drawdowns_concat (equities : List ℚ) (e : ℚ) :
    drawdowns (equities ++ [e]) = drawdowns equities ++
      if max (equities.max?.getD e) e = 0 then [] else [e / max (equities.max?.getD e) e - 1] := by
  unfold drawdowns
  rw [List.zipIdx_append, List.filterMap_append]
  congr 1
  · apply List.filterMap_congr
    intro p hp
    have hlt : p.2 < equities.length := by
      have hindex := List.snd_lt_of_mem_zipIdx hp
      omega
    rw [peakAt_concat_of_lt e hlt]
  · simp only [List.zipIdx_cons, List.zipIdx_nil, Nat.zero_add, List.filterMap_cons, List.filterMap_nil,
      peakAt_concat_length]
    by_cases hzero : max (equities.max?.getD e) e = 0
    · rw [if_pos hzero, if_pos hzero]
    · rw [if_neg hzero, if_neg hzero]

end Concat

section Recurrence

/-- What the state stores is what the observations' history defines. -/
structure Matches (observations : List Observation) (state : AnalyzerState) : Prop where
  observationCount : state.observationCount.getD 0 = observations.length
  returnCount : state.returnCount.getD 0 = (returns (observations.map Observation.equity)).length
  meanReturn : state.meanReturn.getD 0 = mean (returns (observations.map Observation.equity))
  returnM2 : state.returnM2.getD 0 = centredSquares (returns (observations.map Observation.equity))
  maxDrawdown : state.maxDrawdown.getD 0 = deepestDrawdown (observations.map Observation.equity)
  peakEquity : state.peakEquity = (observations.map Observation.equity).max?
  startEquity : state.startEquity = (observations.map Observation.equity).head?
  endEquity : state.endEquity = (observations.map Observation.equity).getLast?
  firstTime : state.firstTime = observations.head?.map Observation.timestamp
  lastTime : state.lastTime = observations.getLast?.map Observation.timestamp
  firstEpoch : state.firstEpoch = observations.head?.map Observation.epoch
  lastEpoch : state.lastEpoch = observations.getLast?.map Observation.epoch

variable {observations : List Observation} {state : AnalyzerState}

lemma matches_empty : Matches [] AnalyzerState.empty := by
  constructor <;> simp [AnalyzerState.empty, returns, deepestDrawdown, drawdowns]

lemma Matches.observationCount_eq_zero (h : Matches observations state) :
    state.observationCount.getD 0 = 0 ↔ observations = [] := by
  rw [h.observationCount, List.length_eq_zero_iff]

/-- The return of an observation enters the mean and the centred squares by the recurrence. -/
lemma Matches.recordReturn (h : Matches observations state) (e : ℚ) :
    (recordReturn state e).returnCount.getD 0 = (returns (observations.map Observation.equity ++ [e])).length ∧
      (recordReturn state e).meanReturn.getD 0 = mean (returns (observations.map Observation.equity ++ [e])) ∧
      (recordReturn state e).returnM2.getD 0 =
        centredSquares (returns (observations.map Observation.equity ++ [e])) := by
  rw [returns_concat]
  unfold PerformanceMetrics.recordReturn
  by_cases hnil : observations = []
  · have hcount := h.observationCount_eq_zero.mpr hnil
    rw [if_neg (by simp [hcount])]
    simp [hnil, h.returnCount, h.meanReturn, h.returnM2, returns]
  · have hcount := mt h.observationCount_eq_zero.mp hnil
    obtain ⟨previous, hprevious⟩ : ∃ previous, (observations.map Observation.equity).getLast? = some previous := by
      rw [← Option.isSome_iff_exists, List.getLast?_isSome]
      simpa using hnil
    rw [hprevious, Option.elim_some, h.endEquity, hprevious, Option.getD_some]
    by_cases hzero : previous = 0
    · simp [hzero, h.returnCount, h.meanReturn, h.returnM2]
    · rw [if_pos ⟨hcount, hzero⟩, if_neg hzero, Welford.centredSquares_concat, Welford.mean_concat,
        Option.getD_some, Option.getD_some, Option.getD_some, h.returnCount, h.meanReturn, h.returnM2,
        List.length_append, List.length_singleton]
      exact ⟨rfl, rfl, rfl⟩

/-- A return changes nothing but its own statistics. -/
lemma recordReturn_frame (state : AnalyzerState) (e : ℚ) : ∃ returnCount meanReturn returnM2,
    recordReturn state e =
      { state with returnCount := returnCount, meanReturn := meanReturn, returnM2 := returnM2 } := by
  unfold recordReturn
  by_cases h : state.observationCount.getD 0 ≠ 0 ∧ state.endEquity.getD 0 ≠ 0
  · exact ⟨_, _, _, if_pos h⟩
  · exact ⟨_, _, _, if_neg h⟩

/-- The drawdown of an observation enters the deepest one. -/
lemma Matches.recordDrawdown (h : Matches observations state) (o : Observation) :
    (recordDrawdown (recordFirst (PerformanceMetrics.recordReturn state o.equity) o) o.equity).peakEquity =
        (observations.map Observation.equity ++ [o.equity]).max? ∧
      (recordDrawdown (recordFirst (PerformanceMetrics.recordReturn state o.equity) o) o.equity).maxDrawdown.getD 0 =
        deepestDrawdown (observations.map Observation.equity ++ [o.equity]) := by
  obtain ⟨returnCount, meanReturn, returnM2, hframe⟩ := recordReturn_frame state o.equity
  have hpeak : (recordFirst (PerformanceMetrics.recordReturn state o.equity) o).peakEquity.getD o.equity =
      (observations.map Observation.equity).max?.getD o.equity := by
    rw [hframe]
    unfold recordFirst
    by_cases hnil : observations = []
    · rw [if_pos (h.observationCount_eq_zero.mpr hnil)]
      simp [hnil]
    · rw [if_neg (mt h.observationCount_eq_zero.mp hnil), h.peakEquity]
  have hdrawdown : (recordFirst (PerformanceMetrics.recordReturn state o.equity) o).maxDrawdown.getD 0 =
      deepestDrawdown (observations.map Observation.equity) := by
    rw [hframe]
    unfold recordFirst
    by_cases hnil : observations = []
    · rw [if_pos (h.observationCount_eq_zero.mpr hnil)]
      simp [hnil, deepestDrawdown, drawdowns]
    · rw [if_neg (mt h.observationCount_eq_zero.mp hnil), h.maxDrawdown]
  unfold PerformanceMetrics.recordDrawdown
  simp only [hpeak, max?_concat, deepestDrawdown, drawdowns_concat, List.foldl_append, true_and]
  unfold deepestDrawdown at hdrawdown
  by_cases hzero : max ((observations.map Observation.equity).max?.getD o.equity) o.equity = 0
  · rw [if_neg (not_not.mpr hzero), if_pos hzero, hdrawdown, List.foldl_nil]
  · rw [if_pos hzero, if_neg hzero, Option.getD_some, hdrawdown, List.foldl_cons, List.foldl_nil]

/-- Writing an observation keeps the state what the history defines. -/
theorem Matches.record (h : Matches observations state) (o : Observation) :
    Matches (observations ++ [o]) (record state o) := by
  obtain ⟨hreturnCount, hmean, hm2⟩ := h.recordReturn o.equity
  obtain ⟨hpeak, hdrawdown⟩ := h.recordDrawdown o
  obtain ⟨returnCount, meanReturn, returnM2, hframe⟩ := recordReturn_frame state o.equity
  have hequities : (observations ++ [o]).map Observation.equity =
      observations.map Observation.equity ++ [o.equity] := by simp
  have hkeeps : ∀ s : AnalyzerState, (recordFirst s o).returnCount = s.returnCount ∧
      (recordFirst s o).meanReturn = s.meanReturn ∧ (recordFirst s o).returnM2 = s.returnM2 := by
    intro s
    unfold recordFirst
    split <;> exact ⟨rfl, rfl, rfl⟩
  obtain ⟨hkeepsCount, hkeepsMean, hkeepsM2⟩ := hkeeps (PerformanceMetrics.recordReturn state o.equity)
  have hfirst : (recordFirst (PerformanceMetrics.recordReturn state o.equity) o).startEquity =
        (observations.map Observation.equity ++ [o.equity]).head? ∧
      (recordFirst (PerformanceMetrics.recordReturn state o.equity) o).firstTime =
        (observations ++ [o]).head?.map Observation.timestamp ∧
      (recordFirst (PerformanceMetrics.recordReturn state o.equity) o).firstEpoch =
        (observations ++ [o]).head?.map Observation.epoch := by
    rw [hframe]
    unfold recordFirst
    cases hobservations : observations with
    | nil =>
      rw [if_pos (h.observationCount_eq_zero.mpr hobservations)]
      exact ⟨rfl, rfl, rfl⟩
    | cons head tail =>
      rw [if_neg (mt h.observationCount_eq_zero.mp (by simp [hobservations]))]
      simp [h.startEquity, h.firstTime, h.firstEpoch, hobservations]
  unfold PerformanceMetrics.record
  constructor
  · simp [h.observationCount]
  · rw [hequities, ← hreturnCount, ← hkeepsCount]
    rfl
  · rw [hequities, ← hmean, ← hkeepsMean]
    rfl
  · rw [hequities, ← hm2, ← hkeepsM2]
    rfl
  · rw [hequities]
    exact hdrawdown
  · rw [hequities]
    exact hpeak
  · rw [hequities]
    exact hfirst.1
  · simp
  · exact hfirst.2.1
  · simp
  · exact hfirst.2.2
  · simp

end Recurrence

section Raising

variable {numerics : Numerics} {codec : TextCodec} {riskFreeRate : Option ℚ}
  {observations : List Observation} {state : AnalyzerState}

/-- The years between the first and the last of the observations. -/
def observedYears (observations : List Observation) : ℚ :=
  (((observations.getLast?.map Observation.epoch).getD 0) - ((observations.head?.map Observation.epoch).getD 0)) /
    secondsPerYear

/-- There are two returns or more, not all equal, over a positive time, and the risk-free rate of a period
cannot be computed: the annual rate is not above -1, or its power overflows. -/
def RiskFreeFails (numerics : Numerics) (riskFreeRate : Option ℚ) (observations : List Observation) : Prop :=
  2 ≤ (returns (observations.map Observation.equity)).length ∧
    0 < centredSquares (returns (observations.map Observation.equity)) ∧ 0 < observedYears observations ∧
    (riskFreeRate.getD 0 ≤ -1 ∨
      numerics.pow (1 + riskFreeRate.getD 0)
        (1 / ((returns (observations.map Observation.equity)).length / observedYears observations)) = none)

lemma sharpeRatio_ok_iff {mean deviation periods : ℚ} :
    (∃ sharpe, sharpeRatio numerics riskFreeRate mean deviation periods = .ok sharpe) ↔
      ¬(riskFreeRate.getD 0 ≤ -1 ∨ numerics.pow (1 + riskFreeRate.getD 0) (1 / periods) = none) := by
  unfold sharpeRatio
  dsimp only
  generalize numerics.pow (1 + riskFreeRate.getD 0) (1 / periods) = power
  cases power with
  | none => simp
  | some power => simp

lemma riskMetrics_ok_iff {returnCount : ℕ} {periods : Option ℚ} :
    (∃ result, riskMetrics numerics riskFreeRate state returnCount periods = .ok result) ↔
      ∀ p ∈ periods, 2 ≤ returnCount → 0 < state.returnM2.getD 0 →
        ¬(riskFreeRate.getD 0 ≤ -1 ∨ numerics.pow (1 + riskFreeRate.getD 0) (1 / p) = none) := by
  unfold riskMetrics
  cases periods with
  | none => simp
  | some p =>
    by_cases hcount : returnCount < 2
    · simp [hcount]
    · have hpos : (0 : ℚ) < returnCount - 1 := by
        have hcast : (2 : ℚ) ≤ returnCount := by exact_mod_cast not_lt.mp hcount
        linarith
      have hdeviation : 0 < numerics.sqrt (max (state.returnM2.getD 0 / (returnCount - 1)) 0) ↔
          0 < state.returnM2.getD 0 := by
        rw [numerics.sqrt_pos, lt_max_iff, or_iff_left (lt_irrefl 0), div_pos_iff_of_pos_right hpos]
      simp only [if_neg hcount, hdeviation]
      by_cases hm2 : 0 < state.returnM2.getD 0
      · simp only [Option.mem_some_iff, forall_eq', not_lt.mp hcount, hm2, true_implies]
        rw [← sharpeRatio_ok_iff]
        constructor
        · rintro ⟨result, hresult⟩
          obtain ⟨sharpe, hsharpe, -⟩ := Raising.bind_eq_ok.mp hresult
          exact ⟨sharpe, hsharpe⟩
        · rintro ⟨sharpe, hsharpe⟩
          rw [hsharpe]
          exact ⟨_, rfl⟩
      · simp [hm2]

lemma secondsPerYear_pos : 0 < secondsPerYear := by
  unfold secondsPerYear
  norm_num

lemma Matches.elapsedYears (h : Matches observations state) :
    elapsedYears state = if 0 < observedYears observations then some (observedYears observations) else none := by
  unfold PerformanceMetrics.elapsedYears observedYears
  simp only [h.lastEpoch, h.firstEpoch, div_pos_iff_of_pos_right secondsPerYear_pos]

/-- The metrics of a history have a value unless the risk-free rate fails. -/
theorem metrics_ok_iff (h : Matches observations state) :
    (∃ result, metrics numerics riskFreeRate state = .ok result) ↔
      ¬RiskFreeFails numerics riskFreeRate observations := by
  have hinner : (∃ result, metrics numerics riskFreeRate state = .ok result) ↔
      state.observationCount.getD 0 = 0 ∨
        ∃ result, riskMetrics numerics riskFreeRate state (state.returnCount.getD 0)
          ((elapsedYears state).bind fun years =>
            if years ≠ 0 ∧ state.returnCount.getD 0 ≠ 0 then some (state.returnCount.getD 0 / years) else none) =
          .ok result := by
    unfold metrics
    by_cases hcount : state.observationCount.getD 0 = 0
    · simp [hcount]
    · simp only [hcount, if_false, false_or]
      constructor
      · rintro ⟨result, hresult⟩
        obtain ⟨risk, hrisk, -⟩ := Raising.bind_eq_ok.mp hresult
        exact ⟨risk, hrisk⟩
      · rintro ⟨risk, hrisk⟩
        rw [hrisk]
        exact ⟨_, rfl⟩
  rw [hinner, riskMetrics_ok_iff, h.elapsedYears, h.returnCount, h.returnM2, h.observationCount_eq_zero]
  unfold RiskFreeFails
  by_cases hyears : 0 < observedYears observations
  · by_cases htwo : 2 ≤ (returns (observations.map Observation.equity)).length
    · have hne : observations ≠ [] := by
        rintro rfl
        simp [returns] at htwo
      have hzero : (returns (observations.map Observation.equity)).length ≠ 0 := by omega
      simp only [hyears, if_true, Option.bind_some, hne, false_or, hyears.ne', ne_eq, not_false_eq_true,
        hzero, and_true, Option.mem_some_iff, forall_eq', htwo, true_implies, true_and]
      tauto
    · simp [htwo]
  · simp [hyears]

end Raising

section Runs

variable (numerics : Numerics) (codec : TextCodec) (riskFreeRate : Option ℚ)

/-- A module in use: its state, the observations of the calls that returned, and whether every call that
raised left the state as it was. -/
structure Session where
  state : AnalyzerState
  accepted : List Observation
  intact : Bool
deriving DecidableEq, Repr

/-- The observation of a call that passes the checks. -/
def observationOf (state : AnalyzerState) (call : UpdateCall) : Option Observation :=
  call.equity.bind fun equity => (checkObservation codec state call.time equity).toOption

/-- One call. -/
def Session.step (s : Session) (call : UpdateCall) : Session :=
  match update numerics codec riskFreeRate s.state call with
  | (.ok _, state) => ⟨state, s.accepted ++ (observationOf codec s.state call).toList, s.intact⟩
  | (.error _, state) => ⟨state, s.accepted, s.intact && decide (state = s.state)⟩

def Session.start : Session := ⟨AnalyzerState.empty, [], true⟩

/-- The state is what the accepted observations define, and no call that raised changed it. -/
structure Session.Faithful (s : Session) : Prop where
  history : Matches s.accepted s.state
  intact : s.intact = true

/-- The observation of the call, if it has one, leaves the risk-free rate computable. -/
def Session.Computable (s : Session) (call : UpdateCall) : Prop :=
  ∀ o, observationOf codec s.state call = some o → ¬RiskFreeFails numerics riskFreeRate (s.accepted ++ [o])

variable {numerics codec riskFreeRate}

lemma record_ne (state : AnalyzerState) (o : Observation) : record state o ≠ state := by
  intro h
  have hcount := congrArg (fun s => s.observationCount.getD 0) h
  simp [record] at hcount

/-- A call keeps the session faithful exactly when its metrics can be computed. -/
theorem Session.step_faithful_iff {s : Session} (h : s.Faithful) (call : UpdateCall) :
    (s.step numerics codec riskFreeRate call).Faithful ↔ s.Computable numerics codec riskFreeRate call := by
  unfold Session.step Session.Computable observationOf update
  cases hequity : call.equity with
  | none =>
    have hsame : ∀ intact, intact = true → (⟨s.state, s.accepted, intact⟩ : Session).Faithful :=
      fun intact hintact => ⟨h.history, hintact⟩
    simp only [Option.bind_none, reduceCtorEq, false_implies, implies_true, iff_true, Option.toList_none,
      List.append_nil]
    cases metrics numerics riskFreeRate s.state with
    | ok result => exact hsame _ h.intact
    | error e => exact hsame _ (by simp [h.intact])
  | some equity =>
    simp only [Option.bind_some]
    cases hcheck : checkObservation codec s.state call.time equity with
    | error e =>
      simp only [Except.toOption, reduceCtorEq, false_implies, implies_true, iff_true]
      exact ⟨h.history, by simp [h.intact]⟩
    | ok o =>
      have hrecorded := h.history.record o
      have hmetrics : (∃ result, metrics numerics riskFreeRate (record s.state o) = .ok result) ↔
          ¬RiskFreeFails numerics riskFreeRate (s.accepted ++ [o]) := metrics_ok_iff hrecorded
      simp only [Except.toOption, Option.some.injEq, forall_eq']
      rw [← hmetrics]
      cases hresult : metrics numerics riskFreeRate (record s.state o) with
      | ok result =>
        simp only [Except.ok.injEq, exists_eq', iff_true]
        exact ⟨hrecorded, h.intact⟩
      | error e =>
        simp only [reduceCtorEq, exists_false, iff_false]
        intro hfaithful
        have hintact := hfaithful.intact
        simp [record_ne] at hintact

/-- In a run, after every call the stored statistics are the batch definitions over the accepted
observations and every call that raised left the state as it was, if and only if no call records an
observation whose risk-free rate cannot be computed. -/
theorem statistics_iff (numerics : Numerics) (codec : TextCodec) (riskFreeRate : Option ℚ)
    (calls : List UpdateCall) :
    Transitions.Along (Session.step numerics codec riskFreeRate) (Session.Computable numerics codec riskFreeRate)
        Session.start calls ↔
      ∀ reached, reached <+: calls →
        (Transitions.run (Session.step numerics codec riskFreeRate) Session.start reached).Faithful := by
  apply Transitions.along_iff (P := Session.Faithful)
  · intro s call h
    exact Session.step_faithful_iff h call
  · exact ⟨matches_empty, rfl⟩

/-- The square roots and powers of `longCalls`: two to the 2401st overflows. -/
def longNumerics : Numerics where
  sqrt x := if x = 1 / 4 then 1 / 2 else if x = 1 / 2401 then 1 / 49 else x
  sqrt_pos x := by
    split_ifs with h h
    · norm_num [h]
    · norm_num [h]
    · rfl
  pow base exponent :=
    if base = 2 ∧ exponent = 2401 then none
    else if exponent = 1 / 9604 then some (100021654 / 100000000)
    else some 2

/-- Reads the times of `longCalls`. -/
def longCodec : TextCodec where
  fromisoformat text := [("0001-01-01T00:00:00+00:00", BasicWorkflow.Moment.aware (-62135596800000000)),
    ("0002-01-01T05:49:12+00:00", BasicWorkflow.Moment.aware (-62104039848000000)),
    ("0003-01-01T11:38:24+00:00", BasicWorkflow.Moment.aware (-62072482896000000)),
    ("0004-01-01T17:27:36+00:00", BasicWorkflow.Moment.aware (-62040925944000000)),
    ("9604-12-31T23:16:48+00:00", BasicWorkflow.Moment.aware 240937370208000000)].lookup text
  isoformat _ := "0001-01-01T00:00:00+00:00"
  isoformat_ne _ := by decide
  float _ := none

/-- An equity that doubles each year, and is still there thousands of years later. -/
def longCalls : List UpdateCall :=
  [⟨"0001-01-01T00:00:00Z", some (.finite 1)⟩, ⟨"0002-01-01T05:49:12Z", some (.finite 2)⟩,
    ⟨"0003-01-01T11:38:24Z", some (.finite 4)⟩, ⟨"0004-01-01T17:27:36Z", some (.finite 8)⟩,
    ⟨"9604-12-31T23:16:48Z", some (.finite 8)⟩]

/-- The last observation is written and then its Sharpe ratio overflows. -/
theorem written_then_raised :
    ¬(Transitions.run (Session.step longNumerics longCodec (some 1)) Session.start longCalls).Faithful := by
  have hintact : (Transitions.run (Session.step longNumerics longCodec (some 1)) Session.start longCalls).intact =
      false := by with_unfolding_all decide
  intro h
  rw [h.intact] at hintact
  cases hintact

end Runs

end TradeFramework.PerformanceMetrics
