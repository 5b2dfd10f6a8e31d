import Mathlib.Data.Int.Log
import Mathlib.Data.Rat.Floor
import Mathlib.Tactic.Linarith
import Mathlib.Tactic.Ring
import Mathlib.Data.Int.ConditionallyCompleteOrder

/-!
# Rounding to significant digits

A number is cut to its first decimal digits, however large it is. The cut is monotone, so the
numbers it confuses form intervals, and pairs of points are told apart by the cuts of their ends
exactly if the points themselves are.
-/

namespace SignificantDigits

/-- A rounding to integers that keeps the order and the integers. -/
structure Rounding where
  round : ℚ → ℤ
  mono : Monotone round
  round_int : ∀ n : ℤ, round n = n

variable (R : Rounding) (extra : ℕ)

/-- The unit of the last kept digit, when `extra` digits follow the first. -/
def unit (x : ℚ) : ℚ := 10 ^ (Int.log 10 x - extra)

/-- The kept digits of a positive number. -/
def kept (x : ℚ) : ℤ := R.round (x / unit extra x)

def significantPos (x : ℚ) : ℚ := kept R extra x * unit extra x

/-- A number cut to `extra + 1` significant digits. -/
def significant (x : ℚ) : ℚ :=
  if x < 0 then -significantPos R extra (-x)
  else if x = 0 then 0 else significantPos R extra x

section Positive

variable {R extra} {x y : ℚ}

lemma unit_pos (x : ℚ) : 0 < unit extra x := zpow_pos (by norm_num) _

lemma ten_zpow_add (e : ℤ) (n : ℕ) : (10 : ℚ) ^ (e - n) * 10 ^ n = 10 ^ e := by
  rw [← zpow_natCast, ← zpow_add₀ (by norm_num)]
  congr 1
  ring

lemma ten_zpow_succ (e : ℤ) (n : ℕ) : (10 : ℚ) ^ (e - n) * 10 ^ (n + 1) = 10 ^ (e + 1) := by
  rw [← zpow_natCast, ← zpow_add₀ (by norm_num)]
  congr 1
  push_cast
  ring

/-- The kept digits are `extra + 1` digits, or the next power of ten. -/
lemma kept_bounds (hx : 0 < x) : (10 : ℤ) ^ extra ≤ kept R extra x ∧
    kept R extra x ≤ (10 : ℤ) ^ (extra + 1) := by
  have hunit : 0 < unit extra x := unit_pos x
  have hlow : (((10 : ℤ) ^ extra : ℤ) : ℚ) ≤ x / unit extra x := by
    rw [le_div_iff₀ hunit]
    push_cast
    rw [mul_comm, unit, ten_zpow_add]
    exact_mod_cast Int.zpow_log_le_self (b := 10) (by norm_num) hx
  have hhigh : x / unit extra x ≤ (((10 : ℤ) ^ (extra + 1) : ℤ) : ℚ) := by
    rw [div_le_iff₀ hunit]
    push_cast
    rw [mul_comm, unit, ten_zpow_succ]
    exact_mod_cast (Int.lt_zpow_succ_log_self (b := 10) (by norm_num) x).le
  constructor
  · have h := R.mono hlow
    rwa [R.round_int] at h
  · have h := R.mono hhigh
    rwa [R.round_int] at h

/-- The cut stays within the power of ten of the number. -/
lemma significantPos_bounds (hx : 0 < x) : (10 : ℚ) ^ Int.log 10 x ≤ significantPos R extra x ∧
    significantPos R extra x ≤ 10 ^ (Int.log 10 x + 1) := by
  obtain ⟨hlow, hhigh⟩ : (10 : ℤ) ^ extra ≤ kept R extra x ∧
      kept R extra x ≤ (10 : ℤ) ^ (extra + 1) := kept_bounds hx
  have hunit : 0 < unit extra x := unit_pos x
  unfold significantPos
  constructor
  · rw [← ten_zpow_add (Int.log 10 x) extra, mul_comm]
    exact mul_le_mul_of_nonneg_right (by exact_mod_cast hlow) hunit.le
  · rw [← ten_zpow_succ (Int.log 10 x) extra, mul_comm ((10 : ℚ) ^ _)]
    exact mul_le_mul_of_nonneg_right (by exact_mod_cast hhigh) hunit.le

lemma significantPos_pos (hx : 0 < x) : 0 < significantPos R extra x :=
  (zpow_pos (by norm_num) _).trans_le (significantPos_bounds hx).1

lemma significantPos_mono (hx : 0 < x) (hxy : x ≤ y) :
    significantPos R extra x ≤ significantPos R extra y := by
  have hlog : Int.log 10 x ≤ Int.log 10 y := Int.log_mono_right hx hxy
  rcases hlog.eq_or_lt with heq | hlt
  · have hunit : unit extra x = unit extra y := by
      unfold unit
      rw [heq]
    have hkept : kept R extra x ≤ kept R extra y := by
      unfold kept
      rw [hunit]
      exact R.mono (div_le_div_of_nonneg_right hxy (unit_pos y).le)
    unfold significantPos
    rw [hunit]
    exact mul_le_mul_of_nonneg_right (by exact_mod_cast hkept) (unit_pos y).le
  · calc significantPos R extra x ≤ 10 ^ (Int.log 10 x + 1) := (significantPos_bounds hx).2
      _ ≤ 10 ^ Int.log 10 y := zpow_le_zpow_right₀ (by norm_num) (by omega)
      _ ≤ significantPos R extra y := (significantPos_bounds (hx.trans_le hxy)).1

end Positive

variable {R extra} in
lemma significant_of_pos {x : ℚ} (hx : 0 < x) : significant R extra x = significantPos R extra x := by
  unfold significant
  rw [if_neg (not_lt.mpr hx.le), if_neg hx.ne']

variable {R extra} in
lemma significant_of_neg {x : ℚ} (hx : x < 0) :
    significant R extra x = -significantPos R extra (-x) := if_pos hx

variable {R extra} in
@[simp] lemma significant_zero : significant R extra 0 = 0 := by simp [significant]

/-- Cutting keeps the order. -/
theorem significant_monotone : Monotone (significant R extra) := by
  intro x y hxy
  rcases lt_trichotomy x 0 with hx | rfl | hx
  · rw [significant_of_neg hx]
    rcases lt_trichotomy y 0 with hy | rfl | hy
    · rw [significant_of_neg hy]
      exact neg_le_neg (significantPos_mono (neg_pos.mpr hy) (neg_le_neg hxy))
    · rw [significant_zero]
      exact neg_nonpos.mpr (significantPos_pos (neg_pos.mpr hx)).le
    · rw [significant_of_pos hy]
      exact (neg_nonpos.mpr (significantPos_pos (neg_pos.mpr hx)).le).trans
        (significantPos_pos hy).le
  · rcases hxy.eq_or_lt with rfl | hy
    · exact le_rfl
    · rw [significant_zero, significant_of_pos hy]
      exact (significantPos_pos hy).le
  · rw [significant_of_pos hx, significant_of_pos (hx.trans_le hxy)]
    exact significantPos_mono hx hxy

section Mantissa

variable {R extra} {x : ℚ}

/-- A number of `extra + 1` significant digits, the first of which is not zero. -/
def HasDigits (extra : ℕ) (v : ℚ) : Prop :=
  ∃ n : ℕ, 10 ^ extra ≤ n ∧ n < 10 ^ (extra + 1) ∧ v = n * 10 ^ (Int.log 10 v - extra)

lemma log_eq {v : ℚ} {e : ℤ} (hlow : (10 : ℚ) ^ e ≤ v) (hhigh : v < 10 ^ (e + 1)) :
    Int.log 10 v = e := by
  have hv : 0 < v := (zpow_pos (by norm_num) e).trans_le hlow
  have hle : e ≤ Int.log 10 v := by
    have h : ((10 : ℕ) : ℚ) ^ e ≤ v := by exact_mod_cast hlow
    exact (Int.zpow_le_iff_le_log (by norm_num) hv).mp h
  have hlt : Int.log 10 v < e + 1 := by
    have h : v < ((10 : ℕ) : ℚ) ^ (e + 1) := by exact_mod_cast hhigh
    exact (Int.lt_zpow_iff_log_lt (by norm_num) hv).mp h
  omega

lemma hasDigits_of_mul {n : ℕ} {e : ℤ} (hlow : 10 ^ extra ≤ n) (hhigh : n < 10 ^ (extra + 1)) :
    HasDigits extra (n * 10 ^ (e - extra)) := by
  have hpos : (0 : ℚ) < 10 ^ (e - extra) := zpow_pos (by norm_num) _
  have hlog : Int.log 10 ((n : ℚ) * 10 ^ (e - extra)) = e := by
    apply log_eq
    · rw [← ten_zpow_add e extra, mul_comm]
      exact mul_le_mul_of_nonneg_right (by exact_mod_cast hlow) hpos.le
    · rw [← ten_zpow_succ e extra, mul_comm _ ((10 : ℚ) ^ (extra + 1))]
      exact mul_lt_mul_of_pos_right (by exact_mod_cast hhigh) hpos
  exact ⟨n, hlow, hhigh, by rw [hlog]⟩

/-- A cut number has its digits, also where the rounding carries into a new one. -/
lemma hasDigits_significantPos (hx : 0 < x) : HasDigits extra (significantPos R extra x) := by
  obtain ⟨hlow, hhigh⟩ : (10 : ℤ) ^ extra ≤ kept R extra x ∧
      kept R extra x ≤ (10 : ℤ) ^ (extra + 1) := kept_bounds hx
  obtain ⟨n, hn⟩ := Int.eq_ofNat_of_zero_le ((by positivity : (0 : ℤ) ≤ 10 ^ extra).trans hlow)
  have hvalue : significantPos R extra x = n * 10 ^ (Int.log 10 x - extra) := by
    unfold significantPos unit
    rw [hn]
    push_cast
    rfl
  rw [hn] at hlow hhigh
  have hlow : 10 ^ extra ≤ n := by exact_mod_cast hlow
  have hhigh : n ≤ 10 ^ (extra + 1) := by exact_mod_cast hhigh
  rcases hhigh.eq_or_lt with heq | hlt
  · have hcarry : significantPos R extra x =
        ((10 ^ extra : ℕ) : ℚ) * 10 ^ (Int.log 10 x + 1 - extra) := by
      rw [hvalue, heq]
      push_cast
      rw [mul_comm, ten_zpow_succ, mul_comm, ten_zpow_add]
    rw [hcarry]
    exact hasDigits_of_mul le_rfl (Nat.pow_lt_pow_right (by norm_num) (by omega))
  · rw [hvalue]
    exact hasDigits_of_mul hlow hlt

end Mantissa

section Pairs

variable {α β : Type*} [LinearOrder α] [PartialOrder β] {f : α → β} {points : Set α}

/-- The pairs of points in ascending order differ in the images of their ends. -/
def PairsApart (f : α → β) (points : Set α) : Prop :=
  ∀ a ∈ points, ∀ b ∈ points, ∀ c ∈ points, ∀ d ∈ points,
    a < b → c < d → f a = f c → f b = f d → a = c ∧ b = d

/-- Three points of a set are never pairwise different. -/
def AtMostTwo (points : Set α) : Prop :=
  ∀ a ∈ points, ∀ b ∈ points, ∀ c ∈ points, a = b ∨ b = c ∨ a = c

/-- A third point makes two pairs out of two points with one image. -/
lemma PairsApart.eq_of_lt (hf : Monotone f) (h : PairsApart f points) {a b c : α} (ha : a ∈ points)
    (hb : b ∈ points) (hc : c ∈ points) (hab : a < b) (himage : f a = f b) : c = a ∨ c = b := by
  rcases lt_trichotomy c a with hca | rfl | hac
  · have hpair := h c hc a ha c hc b hb hca (hca.trans hab) rfl himage
    exact absurd hpair.2 hab.ne
  · exact .inl rfl
  · rcases lt_trichotomy c b with hcb | rfl | hbc
    · have hlow : f a ≤ f c := hf hac.le
      have hhigh : f c ≤ f a := himage ▸ hf hcb.le
      have hsame : f a = f c := le_antisymm hlow hhigh
      have hpair := h a ha c hc c hc b hb hac hcb hsame (hsame.symm.trans himage)
      exact absurd hpair.1 hac.ne
    · exact .inr rfl
    · have hpair := h a ha c hc b hb c hc (hab.trans hbc) hbc himage rfl
      exact absurd hpair.1 hab.ne

/-- Pairs are told apart exactly if the points are, or there is at most one pair. -/
theorem pairsApart_iff (hf : Monotone f) :
    PairsApart f points ↔ AtMostTwo points ∨ Set.InjOn f points := by
  constructor
  · intro h
    by_cases hinj : Set.InjOn f points
    · exact .inr hinj
    · left
      have hclash : ∃ a ∈ points, ∃ b ∈ points, a < b ∧ f a = f b := by
        by_contra hnone
        apply hinj
        intro a ha b hb himage
        by_contra hne
        rcases lt_or_gt_of_ne hne with hab | hba
        · exact hnone ⟨a, ha, b, hb, hab, himage⟩
        · exact hnone ⟨b, hb, a, ha, hba, himage.symm⟩
      obtain ⟨a, ha, b, hb, hab, himage⟩ := hclash
      intro c hc d hd e he
      have hcs := h.eq_of_lt hf ha hb hc hab himage
      have hds := h.eq_of_lt hf ha hb hd hab himage
      have hes := h.eq_of_lt hf ha hb he hab himage
      grind
  · rintro (htwo | hinj)
    · intro a ha b hb c hc d hd hab hcd _ _
      have hac := htwo a ha b hb c hc
      have had := htwo a ha b hb d hd
      have hcdb := htwo c hc d hd b hb
      have hcda := htwo c hc d hd a ha
      grind
    · intro a ha b hb c hc d hd _ _ hac hbd
      exact ⟨hinj ha hc hac, hinj hb hd hbd⟩

end Pairs

end SignificantDigits
