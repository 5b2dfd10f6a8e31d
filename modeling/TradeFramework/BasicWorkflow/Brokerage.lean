import TradeFramework.Library.Raising
import Mathlib.Algebra.Order.Field.Basic
import Mathlib.Algebra.Order.Ring.Rat
import Mathlib.Algebra.BigOperators.Group.List.Basic
import Mathlib.Tactic.Linarith
import Mathlib.Tactic.Ring
import Mathlib.Tactic.FieldSimp

/-!
# Brokerage rules of a single instrument

A target goes through the lot, the short and the leverage rules, becomes an order, is filled, charged and
settled, and the account is marked. Numbers are exact.
-/

namespace TradeFramework.BasicWorkflow

open Raising (raiseIf)

/-- `round` to the nearest integer, and to the even one of two. -/
def roundHalfEven (x : ℚ) : ℤ :=
  let below := x.floor
  if x - below < 1 / 2 then below
  else if 1 / 2 < x - below then below + 1
  else if below % 2 = 0 then below
  else below + 1

def roundTargetToLot (target : Option ℚ) (lotSize : ℚ) : Except PyError (Option ℚ) :=
  match target with
  | none => pure none
  | some target => do
    raiseIf (lotSize ≤ 0) (.valueError "lotSize must be positive.")
    pure (some (roundHalfEven (target / lotSize) * lotSize))

def applyShortableRule (target : Option ℚ) (allowShort : Bool) : Option ℚ :=
  target.map fun value => if allowShort then value else max 0 value

/-- The largest position the leverage allows at a price. -/
def leverageBound (accountEquity executionValue maximumLeverage : ℚ) : ℚ :=
  max 0 accountEquity * maximumLeverage / executionValue

def applyLeverageLimit (target : Option ℚ) (accountEquity executionValue maximumLeverage : ℚ) :
    Except PyError (Option ℚ) :=
  match target with
  | none => pure none
  | some value => do
    raiseIf (executionValue = 0) (.valueError "executionValue must be non-zero.")
    let maximum := leverageBound accountEquity executionValue maximumLeverage
    pure (some (max (-maximum) (min maximum value)))

inductive DeltaStatus
  | noIntent
  | approved
  | noChange
deriving DecidableEq, Repr

structure Delta where
  requestedQuantity : ℚ
  approvedQuantity : ℚ
  approvedTarget : ℚ
  status : DeltaStatus
deriving DecidableEq, Repr

def targetDelta (target : Option ℚ) (accountPosition maximumOrderQuantity : ℚ) : Delta :=
  match target with
  | none => ⟨0, 0, accountPosition, .noIntent⟩
  | some target =>
    let requested := target - accountPosition
    let maximum := |maximumOrderQuantity|
    let approved := max (-maximum) (min maximum requested)
    ⟨requested, approved, accountPosition + approved, if approved ≠ 0 then .approved else .noChange⟩

def constantBpsFillPrice (approvedQuantity executionValue slippageBps : ℚ) : Option ℚ :=
  if approvedQuantity = 0 then none
  else
    let direction : ℚ := if 0 < approvedQuantity then 1 else -1
    some (executionValue * (1 + direction * slippageBps / 10000))

inductive FillStatus
  | noIntent
  | unfilled
  | filled
  | partiallyFilled
deriving DecidableEq, Repr

structure Fill where
  filledQuantity : ℚ
  notional : ℚ
  status : FillStatus
deriving DecidableEq, Repr

def proportionalFill (approvedQuantity : ℚ) (fillValue : Option ℚ) (fillRatio : ℚ) : Fill :=
  if approvedQuantity = 0 then ⟨0, 0, .noIntent⟩
  else match fillValue with
    | none => ⟨0, 0, .unfilled⟩
    | some fillValue =>
      let ratio := max 0 (min 1 fillRatio)
      let filled := approvedQuantity * ratio
      ⟨filled, filled * fillValue, if filled = approvedQuantity then .filled else .partiallyFilled⟩

def fixedPlusBpsFee (filledQuantity notional fixedFee feeBps : ℚ) : ℚ :=
  let fixed := if filledQuantity = 0 then 0 else fixedFee
  fixed + |notional| * feeBps / 10000

structure Settlement where
  cashDelta : ℚ
  positionDelta : ℚ
deriving DecidableEq, Repr

def immediateSettlement (notional filledQuantity fee : ℚ) : Option Settlement :=
  if filledQuantity = 0 then none else some ⟨-(notional + fee), filledQuantity⟩

def negativeCashInterest (accountCash rate : ℚ) : ℚ := max 0 (-accountCash) * rate

structure SingleAssetAccount where
  cash : ℚ
  position : ℚ
  markedValue : ℚ
  equity : ℚ
  marginInterest : ℚ
deriving DecidableEq, Repr

def singleAssetAccount (previousAccount : Option SingleAssetAccount) (settlement : Option Settlement)
    (executionValue marginInterest initialCash initialPosition : ℚ) : SingleAssetAccount :=
  let cash := (previousAccount.map SingleAssetAccount.cash).getD initialCash
  let position := (previousAccount.map SingleAssetAccount.position).getD initialPosition
  let cash := cash + (settlement.map Settlement.cashDelta).getD 0
  let position := position + (settlement.map Settlement.positionDelta).getD 0
  let cash := cash - marginInterest
  let marked := position * executionValue
  ⟨cash, position, marked, cash + marked, marginInterest⟩

/-- The configs of the modules of the chain. The execution rule has an initial position of its own. -/
structure ChainConfig where
  lotSize : ℚ
  allowShort : Bool
  maximumLeverage : ℚ
  maximumOrderQuantity : ℚ
  executionInitialPosition : ℚ
  slippageBps : ℚ
  fillRatio : ℚ
  fixedFee : ℚ
  feeBps : ℚ
  marginInterestPerCycle : ℚ
  initialCash : ℚ
  initialPosition : ℚ
deriving DecidableEq, Repr

/-- What one cycle is handed besides the account of the cycle before. -/
structure ChainInput where
  target : Option ℚ
  executionValue : ℚ
  accountEquity : ℚ
  accountCash : ℚ
deriving DecidableEq, Repr

/-- The values on the wires of one cycle. -/
structure ChainCycle where
  input : ChainInput
  previous : Option SingleAssetAccount
  unlimited : Option ℚ
  limited : Option ℚ
  delta : Delta
  fillValue : Option ℚ
  fill : Fill
  fee : ℚ
  marginInterest : ℚ
  account : SingleAssetAccount
deriving DecidableEq, Repr

section Chain

variable (config : ChainConfig)

/-- One cycle of the chain. -/
def chainCycle (previous : Option SingleAssetAccount) (input : ChainInput) : Except PyError ChainCycle := do
  let rounded ← roundTargetToLot input.target config.lotSize
  let unlimited := applyShortableRule rounded config.allowShort
  let limited ← applyLeverageLimit unlimited input.accountEquity input.executionValue config.maximumLeverage
  let accountPosition := (previous.map SingleAssetAccount.position).getD config.executionInitialPosition
  let delta := targetDelta limited accountPosition config.maximumOrderQuantity
  let fillValue := constantBpsFillPrice delta.approvedQuantity input.executionValue config.slippageBps
  let fill := proportionalFill delta.approvedQuantity fillValue config.fillRatio
  let fee := fixedPlusBpsFee fill.filledQuantity fill.notional config.fixedFee config.feeBps
  let settlement := immediateSettlement fill.notional fill.filledQuantity fee
  let marginInterest := negativeCashInterest input.accountCash config.marginInterestPerCycle
  let account := singleAssetAccount previous settlement input.executionValue marginInterest config.initialCash
    config.initialPosition
  pure ⟨input, previous, unlimited, limited, delta, fillValue, fill, fee, marginInterest, account⟩

/-- The cycles of a run behind an account. -/
def chainRun : Option SingleAssetAccount → List ChainInput → Except PyError (List ChainCycle)
  | _, [] => pure []
  | previous, input :: rest => do
    let cycle ← chainCycle config previous input
    let cycles ← chainRun (some cycle.account) rest
    pure (cycle :: cycles)

end Chain

section Limits

variable {value price exposure : ℚ}

/-- A clamp between the negation of a bound that is not negative and the bound. -/
lemma clamp_of_nonneg {bound : ℚ} (h : 0 ≤ bound) (value : ℚ) :
    |max (-bound) (min bound value)| ≤ bound ∧ |max (-bound) (min bound value)| ≤ |value| ∧
      0 ≤ max (-bound) (min bound value) * value := by
  have hle : max (-bound) (min bound value) ≤ bound := max_le (by linarith) (min_le_left _ _)
  have hge : -bound ≤ max (-bound) (min bound value) := le_max_left _ _
  refine ⟨abs_le.mpr ⟨hge, hle⟩, ?_⟩
  by_cases hvalue : 0 ≤ value
  · have hnonneg : 0 ≤ max (-bound) (min bound value) := le_max_of_le_right (le_min h hvalue)
    have hsmall : max (-bound) (min bound value) ≤ value := max_le (by linarith) (min_le_right _ _)
    exact ⟨by rwa [abs_of_nonneg hnonneg, abs_of_nonneg hvalue], mul_nonneg hnonneg hvalue⟩
  · have hneg : value ≤ 0 := (not_le.mp hvalue).le
    have hmin : min bound value = value := min_eq_right (hneg.trans h)
    have hnonpos : max (-bound) (min bound value) ≤ 0 := max_le (by linarith) (hmin.trans_le hneg)
    have hlarge : value ≤ max (-bound) (min bound value) := by
      rw [hmin]
      exact le_max_right _ _
    exact ⟨by rw [abs_of_nonpos hnonpos, abs_of_nonpos hneg]; linarith, mul_nonneg_of_nonpos_of_nonpos hnonpos hneg⟩

/-- A clamp by a negative bound forgets the value. -/
lemma clamp_of_neg {bound : ℚ} (h : bound < 0) (value : ℚ) : max (-bound) (min bound value) = -bound := by
  apply max_eq_left
  have hmin : min bound value ≤ bound := min_le_left _ _
  linarith

/-- The exposure of a limited target is bounded at every price. -/
lemma limited_exposure (hprice : price ≠ 0) (hexposure : 0 ≤ exposure) :
    |max (-(exposure / price)) (min (exposure / price) value) * price| ≤ exposure := by
  have habs : 0 < |price| := abs_pos.mpr hprice
  have hbound : |exposure / price| * |price| = exposure := by
    rw [← abs_mul, div_mul_cancel₀ _ hprice, abs_of_nonneg hexposure]
  have hlimited : |max (-(exposure / price)) (min (exposure / price) value)| ≤ |exposure / price| := by
    by_cases hnonneg : 0 ≤ exposure / price
    · rw [abs_of_nonneg hnonneg]
      exact (clamp_of_nonneg hnonneg value).1
    · rw [clamp_of_neg (not_le.mp hnonneg), abs_neg]
  calc |max (-(exposure / price)) (min (exposure / price) value) * price|
      = |max (-(exposure / price)) (min (exposure / price) value)| * |price| := abs_mul _ _
    _ ≤ |exposure / price| * |price| := mul_le_mul_of_nonneg_right hlimited habs.le
    _ = exposure := hbound

/-- A limited target is no larger than the target and on its side exactly where the price is positive, the
bound is zero, or the target is beyond the bound on the long side. -/
lemma limited_shrinks_iff (hprice : price ≠ 0) (hexposure : 0 ≤ exposure) :
    (|max (-(exposure / price)) (min (exposure / price) value)| ≤ |value| ∧
        0 ≤ max (-(exposure / price)) (min (exposure / price) value) * value) ↔
      0 < price ∨ exposure = 0 ∨ exposure / |price| ≤ value := by
  by_cases hnonneg : 0 ≤ exposure / price
  · have hside : 0 < price ∨ exposure = 0 := by
      by_contra hnot
      rw [not_or, not_lt] at hnot
      have hneg : price < 0 := lt_of_le_of_ne hnot.1 hprice
      have hpos : 0 < exposure := lt_of_le_of_ne hexposure (Ne.symm hnot.2)
      exact absurd (div_neg_of_pos_of_neg hpos hneg) (not_lt.mpr hnonneg)
    have hclamp := (clamp_of_nonneg hnonneg value).2
    constructor
    · intro _
      obtain hpositive | hzero := hside
      · exact Or.inl hpositive
      · exact Or.inr (Or.inl hzero)
    · exact fun _ => hclamp
  · have hbound := not_le.mp hnonneg
    have hneg : price < 0 := by
      by_contra hnot
      exact hnonneg (div_nonneg hexposure (not_lt.mp hnot))
    have hne : exposure ≠ 0 := by
      rintro rfl
      simp at hbound
    have hflip : exposure / |price| = -(exposure / price) := by
      rw [abs_of_neg hneg, div_neg]
    rw [clamp_of_neg hbound, hflip, abs_neg, abs_of_neg hbound]
    constructor
    · rintro ⟨hsmall, hsign⟩
      have hvalue : 0 ≤ value := by
        by_contra hvalue
        have hopposite : -(exposure / price) * value < 0 :=
          mul_neg_of_pos_of_neg (by linarith) (not_le.mp hvalue)
        linarith
      rw [abs_of_nonneg hvalue] at hsmall
      exact Or.inr (Or.inr hsmall)
    · intro hcase
      have hle : -(exposure / price) ≤ value := by
        obtain hpositive | hzero | hle := hcase
        · exact absurd hpositive (not_lt.mpr hneg.le)
        · exact absurd hzero hne
        · exact hle
      have hvalue : 0 ≤ value := by linarith
      exact ⟨by rwa [abs_of_nonneg hvalue], mul_nonneg (by linarith) hvalue⟩

lemma targetDelta_bounded (target : Option ℚ) (accountPosition maximumOrderQuantity : ℚ) :
    |(targetDelta target accountPosition maximumOrderQuantity).approvedQuantity| ≤ |maximumOrderQuantity| := by
  unfold targetDelta
  cases target with
  | none => simp
  | some target => exact (clamp_of_nonneg (abs_nonneg maximumOrderQuantity) (target - accountPosition)).1

lemma proportionalFill_between (approvedQuantity : ℚ) (fillValue : Option ℚ) (fillRatio : ℚ) :
    min 0 approvedQuantity ≤ (proportionalFill approvedQuantity fillValue fillRatio).filledQuantity ∧
      (proportionalFill approvedQuantity fillValue fillRatio).filledQuantity ≤ max 0 approvedQuantity := by
  unfold proportionalFill
  by_cases happroved : approvedQuantity = 0
  · simp [happroved]
  · rw [if_neg happroved]
    cases fillValue with
    | none => simp
    | some fillValue =>
      have hlow : 0 ≤ max 0 (min 1 fillRatio) := le_max_left _ _
      have hhigh : max 0 (min 1 fillRatio) ≤ 1 := max_le zero_le_one (min_le_left _ _)
      by_cases hpos : 0 ≤ approvedQuantity
      · rw [min_eq_left hpos, max_eq_right hpos]
        exact ⟨mul_nonneg hpos hlow, mul_le_of_le_one_right hpos hhigh⟩
      · have hneg : approvedQuantity ≤ 0 := (not_le.mp hpos).le
        rw [min_eq_right hneg, max_eq_left hneg]
        exact ⟨le_mul_of_le_one_right hneg hhigh, mul_nonpos_of_nonpos_of_nonneg hneg hlow⟩

/-- An order that fills nothing costs nothing. -/
lemma proportionalFill_unfilled {approvedQuantity fillRatio : ℚ} {fillValue : Option ℚ}
    (h : (proportionalFill approvedQuantity fillValue fillRatio).filledQuantity = 0) :
    (proportionalFill approvedQuantity fillValue fillRatio).notional = 0 := by
  unfold proportionalFill at h ⊢
  by_cases happroved : approvedQuantity = 0
  · simp [happroved]
  · rw [if_neg happroved] at h ⊢
    cases fillValue with
    | none => rfl
    | some fillValue =>
      simp only at h ⊢
      rw [h, zero_mul]

/-- What a settlement takes from the cash and brings to the position, also where there is none. -/
lemma immediateSettlement_deltas {notional filledQuantity : ℚ} (fixedFee feeBps : ℚ)
    (h : filledQuantity = 0 → notional = 0) :
    ((immediateSettlement notional filledQuantity (fixedPlusBpsFee filledQuantity notional fixedFee feeBps)).map
        Settlement.cashDelta).getD 0 =
      -(notional + fixedPlusBpsFee filledQuantity notional fixedFee feeBps) ∧
    ((immediateSettlement notional filledQuantity (fixedPlusBpsFee filledQuantity notional fixedFee feeBps)).map
        Settlement.positionDelta).getD 0 = filledQuantity := by
  unfold immediateSettlement
  by_cases hzero : filledQuantity = 0
  · simp [hzero, h hzero, fixedPlusBpsFee]
  · simp [hzero]

end Limits

section Runs

variable {config : ChainConfig} {previous : Option SingleAssetAccount}

/-- The exposure the leverage allows in a cycle. -/
def ChainInput.allowedExposure (input : ChainInput) (config : ChainConfig) : ℚ :=
  max 0 input.accountEquity * config.maximumLeverage

def cashBefore (config : ChainConfig) (previous : Option SingleAssetAccount) : ℚ :=
  (previous.map SingleAssetAccount.cash).getD config.initialCash

def positionBefore (config : ChainConfig) (previous : Option SingleAssetAccount) : ℚ :=
  (previous.map SingleAssetAccount.position).getD config.initialPosition

/-- The limits hold in a cycle, and its account moves by what was filled, charged and paid. -/
structure ChainCycle.Sound (config : ChainConfig) (c : ChainCycle) : Prop where
  exposure : ∀ limited ∈ c.limited, |limited * c.input.executionValue| ≤ c.input.allowedExposure config
  shrinks : ∀ limited ∈ c.limited, ∀ unlimited ∈ c.unlimited,
    |limited| ≤ |unlimited| ∧ 0 ≤ limited * unlimited
  order : |c.delta.approvedQuantity| ≤ |config.maximumOrderQuantity|
  filled : min 0 c.delta.approvedQuantity ≤ c.fill.filledQuantity ∧
    c.fill.filledQuantity ≤ max 0 c.delta.approvedQuantity
  cash : c.account.cash = cashBefore config c.previous - (c.fill.notional + c.fee) - c.marginInterest
  position : c.account.position = positionBefore config c.previous + c.fill.filledQuantity

/-- Over the whole run the cash has lost what was filled and charged and paid in interest, and the position
has gained what was filled. -/
def Accounted (config : ChainConfig) (cycles : List ChainCycle) : Prop :=
  cashBefore config (cycles.getLast?.map ChainCycle.account) =
      config.initialCash - (cycles.map fun c => c.fill.notional + c.fee + c.marginInterest).sum ∧
    positionBefore config (cycles.getLast?.map ChainCycle.account) =
      config.initialPosition + (cycles.map fun c => c.fill.filledQuantity).sum

/-- The leverage rule can bound the target: the price is positive, or nothing is allowed, or the target is
long and at least what is allowed. -/
def Bounded (config : ChainConfig) (input : ChainInput) : Prop :=
  ∀ rounded unlimited, roundTargetToLot input.target config.lotSize = .ok rounded →
    applyShortableRule rounded config.allowShort = some unlimited →
    0 < input.executionValue ∨ input.allowedExposure config = 0 ∨
      input.allowedExposure config / |input.executionValue| ≤ unlimited

lemma allowedExposure_nonneg (hleverage : 0 ≤ config.maximumLeverage) (input : ChainInput) :
    0 ≤ input.allowedExposure config := mul_nonneg (le_max_left _ _) hleverage

/-- A cycle always returns, and keeps everything but the direction of a target at a negative price. -/
theorem chainCycle_spec (hlot : 0 < config.lotSize) (hleverage : 0 ≤ config.maximumLeverage)
    (previous : Option SingleAssetAccount) (input : ChainInput) (hprice : input.executionValue ≠ 0) :
    ∃ c, chainCycle config previous input = .ok c ∧ c.previous = previous ∧
      c.account.cash = cashBefore config previous - (c.fill.notional + c.fee) - c.marginInterest ∧
      c.account.position = positionBefore config previous + c.fill.filledQuantity ∧
      (c.Sound config ↔ Bounded config input) := by
  obtain ⟨rounded, hrounded⟩ : ∃ rounded, roundTargetToLot input.target config.lotSize = .ok rounded := by
    unfold roundTargetToLot
    cases input.target with
    | none => exact ⟨none, rfl⟩
    | some target =>
      simp only [raiseIf, not_le.mpr hlot, if_false]
      exact ⟨_, rfl⟩
  obtain ⟨limited, hlimited, hvalue⟩ : ∃ limited,
      applyLeverageLimit (applyShortableRule rounded config.allowShort) input.accountEquity input.executionValue
        config.maximumLeverage = .ok limited ∧
      limited = (applyShortableRule rounded config.allowShort).map fun value =>
        max (-(input.allowedExposure config / input.executionValue))
          (min (input.allowedExposure config / input.executionValue) value) := by
    unfold applyLeverageLimit
    cases applyShortableRule rounded config.allowShort with
    | none => exact ⟨none, rfl, rfl⟩
    | some value =>
      simp only [raiseIf, hprice, if_false]
      exact ⟨_, rfl, rfl⟩
  have hexposure := allowedExposure_nonneg hleverage input
  obtain ⟨c, hc⟩ : ∃ c, chainCycle config previous input = .ok c := by
    unfold chainCycle
    simp only [hrounded, hlimited, Raising.ok_bind]
    exact ⟨_, rfl⟩
  have hfields := hc
  unfold chainCycle at hfields
  simp only [hrounded, hlimited, Raising.ok_bind, Raising.pure_eq_ok] at hfields
  have hunfilled : c.fill.filledQuantity = 0 → c.fill.notional = 0 := by
    rw [← hfields]
    exact proportionalFill_unfilled
  have hdeltas := immediateSettlement_deltas config.fixedFee config.feeBps hunfilled
  have hcash : c.account.cash = cashBefore config previous - (c.fill.notional + c.fee) - c.marginInterest := by
    rw [← hfields] at hdeltas ⊢
    simp only [singleAssetAccount, hdeltas.1]
    unfold cashBefore
    ring
  have hposition : c.account.position = positionBefore config previous + c.fill.filledQuantity := by
    rw [← hfields] at hdeltas ⊢
    simp only [singleAssetAccount, hdeltas.2]
    rfl
  have hprevious : c.previous = previous := by rw [← hfields]
  refine ⟨c, hc, hprevious, hcash, hposition, ?_⟩
  have hinput : c.input = input := by rw [← hfields]
  have hlimits : c.limited = limited ∧ c.unlimited = applyShortableRule rounded config.allowShort := by
    rw [← hfields]
    exact ⟨rfl, rfl⟩
  constructor
  · intro hsound rounded' unlimited hrounded' hunlimited
    rw [hrounded] at hrounded'
    cases hrounded'
    have hshrinks := hsound.shrinks
    rw [hlimits.1, hlimits.2, hvalue, hunlimited] at hshrinks
    exact (limited_shrinks_iff hprice hexposure).mp (hshrinks _ rfl _ rfl)
  · intro hbounded
    constructor
    · intro value hmem
      rw [hlimits.1, hvalue] at hmem
      obtain ⟨unlimited, -, rfl⟩ := Option.map_eq_some_iff.mp hmem
      rw [hinput]
      exact limited_exposure hprice hexposure
    · intro value hmem unlimited hunlimited
      rw [hlimits.2] at hunlimited
      rw [hlimits.1, hvalue, hunlimited] at hmem
      cases hmem
      exact (limited_shrinks_iff hprice hexposure).mpr (hbounded rounded unlimited hrounded hunlimited)
    · rw [← hfields]
      exact targetDelta_bounded _ _ _
    · rw [← hfields]
      exact proportionalFill_between _ _ _
    · rw [hprevious]
      exact hcash
    · rw [hprevious]
      exact hposition

/-- The accounts of a run behind an account. -/
lemma chainRun_spec (hlot : 0 < config.lotSize) (hleverage : 0 ≤ config.maximumLeverage) {inputs : List ChainInput}
    (hprices : ∀ input ∈ inputs, input.executionValue ≠ 0) (previous : Option SingleAssetAccount) :
    ∃ cycles, chainRun config previous inputs = .ok cycles ∧
      cashBefore config ((cycles.getLast?.map ChainCycle.account).or previous) =
        cashBefore config previous - (cycles.map fun c => c.fill.notional + c.fee + c.marginInterest).sum ∧
      positionBefore config ((cycles.getLast?.map ChainCycle.account).or previous) =
        positionBefore config previous + (cycles.map fun c => c.fill.filledQuantity).sum ∧
      ((∀ c ∈ cycles, c.Sound config) ↔ ∀ input ∈ inputs, Bounded config input) := by
  induction inputs generalizing previous with
  | nil => exact ⟨[], rfl, by simp, by simp, by simp⟩
  | cons input rest ih =>
    obtain ⟨c, hc, -, hcash, hposition, hsound⟩ :=
      chainCycle_spec hlot hleverage previous input (hprices input (by simp))
    obtain ⟨cycles, hcycles, hcashes, hpositions, hsounds⟩ :=
      ih (fun other hother => hprices other (by simp [hother])) (some c.account)
    have hlast : (((c :: cycles).getLast?.map ChainCycle.account).or previous) =
        ((cycles.getLast?.map ChainCycle.account).or (some c.account)) := by
      cases cycles with
      | nil => rfl
      | cons next more => simp [List.getLast?_cons]
    refine ⟨c :: cycles, ?_, ?_, ?_, ?_⟩
    · rw [chainRun, hc, Raising.ok_bind, hcycles]
      rfl
    · rw [hlast, hcashes, List.map_cons, List.sum_cons]
      have hbefore : cashBefore config (some c.account) = c.account.cash := rfl
      rw [hbefore, hcash]
      ring
    · rw [hlast, hpositions, List.map_cons, List.sum_cons]
      have hbefore : positionBefore config (some c.account) = c.account.position := rfl
      rw [hbefore, hposition]
      ring
    · rw [List.forall_mem_cons, List.forall_mem_cons, hsound, hsounds]

/-- A run of the chain keeps every limit in every cycle, and its books, if and only if the leverage rule can
bound every target. -/
theorem chainRun_sound_iff (config : ChainConfig) (hlot : 0 < config.lotSize)
    (hleverage : 0 ≤ config.maximumLeverage) (inputs : List ChainInput)
    (hprices : ∀ input ∈ inputs, input.executionValue ≠ 0) :
    ∃ cycles, chainRun config none inputs = .ok cycles ∧
      (((∀ c ∈ cycles, c.Sound config) ∧ Accounted config cycles) ↔
        ∀ input ∈ inputs, Bounded config input) := by
  obtain ⟨cycles, hcycles, hcash, hposition, hsound⟩ := chainRun_spec hlot hleverage hprices none
  rw [Option.or_none] at hcash hposition
  refine ⟨cycles, hcycles, ?_⟩
  rw [← hsound]
  exact ⟨fun h => h.1, fun h => ⟨h, hcash, hposition⟩⟩

/-- A chain without costs and with one unit of everything. -/
def unitConfig : ChainConfig := ⟨1, true, 1, 1000000, 0, 0, 1, 0, 0, 0, 100, 0⟩

theorem chainRun_unit : ∃ cycles, chainRun unitConfig none [⟨some 3, 2, 100, 100⟩] = .ok cycles ∧
    (∀ c ∈ cycles, c.Sound unitConfig) ∧ Accounted unitConfig cycles := by
  obtain ⟨cycles, hcycles, hsound⟩ :=
    chainRun_sound_iff unitConfig (by decide) (by decide) [⟨some 3, 2, 100, 100⟩] (by decide)
  have hprice : ∀ input ∈ [(⟨some 3, 2, 100, 100⟩ : ChainInput)], 0 < input.executionValue := by decide
  exact ⟨cycles, hcycles, hsound.mpr fun input hinput _ _ _ _ => Or.inl (hprice input hinput)⟩

/-- At a price of minus one a short target of one becomes a long one of a hundred. -/
theorem negative_price_reverses : ∃ cycles, chainRun unitConfig none [⟨some (-1), -1, 100, 100⟩] = .ok cycles ∧
    ¬∀ c ∈ cycles, c.Sound unitConfig := by
  have hlot : 0 < unitConfig.lotSize := by decide
  have hprices : ∀ input ∈ [(⟨some (-1), -1, 100, 100⟩ : ChainInput)], input.executionValue ≠ 0 := by decide
  obtain ⟨cycles, hcycles, -, -, hsound⟩ := chainRun_spec hlot (by decide) hprices none
  refine ⟨cycles, hcycles, fun hall => ?_⟩
  have hrounded : roundTargetToLot (some (-1)) 1 = .ok (some (-1)) := by with_unfolding_all decide
  have hbounded := hsound.mp hall ⟨some (-1), -1, 100, 100⟩ (by simp) (some (-1)) (-1) hrounded rfl
  revert hbounded
  with_unfolding_all decide

end Runs

end TradeFramework.BasicWorkflow
