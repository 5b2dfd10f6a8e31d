import TradeFramework.Library.SignificantDigits

/-!
# The general number format

The text of a number with a precision, `printf`'s `g`: a fixed notation for exponents near zero, a
scientific one for the others, and no trailing zeros. The text determines the number it was cut to.
-/

namespace GeneralFormat

open SignificantDigits

section Parts

/-- A decimal text, as its sign, its two rows of digits and its exponent. -/
structure Parts where
  negative : Bool
  whole : List Char
  fraction : List Char
  exponent : Option ℤ

/-- The digits of an exponent, at least two. -/
def exponentDigits (n : ℕ) : List Char :=
  if (Nat.toDigits 10 n).length < 2 then '0' :: Nat.toDigits 10 n else Nat.toDigits 10 n

def exponentText : Option ℤ → List Char
  | none => []
  | some e => 'e' :: (if e < 0 then '-' else '+') :: exponentDigits e.natAbs

def fractionText (fraction : List Char) : List Char :=
  if fraction = [] then [] else '.' :: fraction

namespace Parts

variable (p q : Parts)

def text : List Char :=
  (if p.negative then ['-'] else []) ++
    (p.whole ++ (fractionText p.fraction ++ exponentText p.exponent))

/-- The number that a text stands for. -/
def value : ℚ :=
  (if p.negative then -1 else 1) * (Nat.ofDigitChars 10 (p.whole ++ p.fraction) 0 : ℚ) *
    10 ^ (p.exponent.getD 0 - p.fraction.length)

/-- The rows hold digits, and there is a digit before the point. -/
structure Plain : Prop where
  ne : p.whole ≠ []
  whole : ∀ c ∈ p.whole, c.isDigit = true
  fraction : ∀ c ∈ p.fraction, c.isDigit = true

end Parts

lemma exponentText_chars {e : Option ℤ} {c : Char} (h : c ∈ exponentText e) :
    c.isDigit = true ∨ c ∈ ['-', '.', 'e', '+'] := by
  have hdigits : ∀ n : ℕ, ∀ c ∈ exponentDigits n, c.isDigit = true := by
    intro n c hc
    have hrow : ∀ c ∈ Nat.toDigits 10 n, c.isDigit = true :=
      fun c hc => Nat.isDigit_of_mem_toDigits (by omega) (by omega) hc
    unfold exponentDigits at hc
    split_ifs at hc
    · rcases List.mem_cons.mp hc with rfl | hc
      · rfl
      · exact hrow c hc
    · exact hrow c hc
  cases e with
  | none => cases h
  | some e =>
    unfold exponentText at h
    rcases List.mem_cons.mp h with rfl | h
    · right
      decide
    · rcases List.mem_cons.mp h with rfl | h
      · right
        split_ifs
        · decide
        · decide
      · exact .inl (hdigits _ c h)

/-- The characters of a text are digits, signs, the point and the `e`. -/
lemma Parts.Plain.mem_text {p : Parts} (h : p.Plain) {c : Char} (hc : c ∈ p.text) :
    c.isDigit = true ∨ c ∈ ['-', '.', 'e', '+'] := by
  unfold text at hc
  rcases List.mem_append.mp hc with hc | hc
  · right
    split_ifs at hc
    · rw [List.mem_singleton.mp hc]
      decide
    · cases hc
  · rcases List.mem_append.mp hc with hc | hc
    · exact .inl (h.whole c hc)
    · rcases List.mem_append.mp hc with hc | hc
      · unfold fractionText at hc
        split_ifs at hc
        · cases hc
        · rcases List.mem_cons.mp hc with rfl | hc
          · right
            decide
          · exact .inl (h.fraction c hc)
      · exact exponentText_chars hc

/-- Two rows of digits that end at the same place are one row. -/
lemma append_inj_of_stop {keep : Char → Bool} {left left' right right' : List Char}
    (hleft : ∀ c ∈ left, keep c = true) (hleft' : ∀ c ∈ left', keep c = true)
    (hright : ∀ c ∈ right.head?, keep c = false) (hright' : ∀ c ∈ right'.head?, keep c = false)
    (h : left ++ right = left' ++ right') : left = left' ∧ right = right' := by
  have hstop : ∀ rest : List Char, (∀ c ∈ rest.head?, keep c = false) →
      rest.takeWhile keep = [] := by
    intro rest hrest
    cases rest with
    | nil => rfl
    | cons c rest => exact List.takeWhile_cons_of_neg (by simpa using hrest c (by simp))
  have hfront : ∀ front rest : List Char, (∀ c ∈ front, keep c = true) →
      (∀ c ∈ rest.head?, keep c = false) → (front ++ rest).takeWhile keep = front := by
    intro front rest hkeep hrest
    rw [List.takeWhile_append_of_pos hkeep, hstop rest hrest, List.append_nil]
  have hsame : left = left' := by
    rw [← hfront left right hleft hright, h, hfront left' right' hleft' hright']
  refine ⟨hsame, ?_⟩
  rw [hsame] at h
  exact List.append_cancel_left h

lemma ofDigitChars_exponentDigits (n : ℕ) : Nat.ofDigitChars 10 (exponentDigits n) 0 = n := by
  unfold exponentDigits
  split_ifs
  · rw [Nat.ofDigitChars_cons]
    exact Nat.ofDigitChars_ten_toDigits
  · exact Nat.ofDigitChars_ten_toDigits

lemma exponentText_injective : Function.Injective exponentText := by
  intro e e' h
  cases e with
  | none =>
    cases e' with
    | none => rfl
    | some e' => cases h
  | some e =>
    cases e' with
    | none => cases h
    | some e' =>
      unfold exponentText at h
      rw [List.cons.injEq, List.cons.injEq] at h
      obtain ⟨-, hsign, hdigits⟩ := h
      have habs : e.natAbs = e'.natAbs := by
        rw [← ofDigitChars_exponentDigits e.natAbs, hdigits, ofDigitChars_exponentDigits]
      have hneg : e < 0 ↔ e' < 0 := by
        by_cases he : e < 0 <;> by_cases he' : e' < 0 <;> simp [he, he'] at hsign ⊢
      congr 1
      omega

lemma exponentText_head (e : Option ℤ) : ∀ c ∈ (exponentText e).head?, c.isDigit = false := by
  cases e with
  | none => simp [exponentText]
  | some e =>
    intro c hc
    have hc : c = 'e' := by simpa [exponentText] using hc.symm
    rw [hc]
    decide

lemma fractionText_head (fraction : List Char) (e : Option ℤ) :
    ∀ c ∈ (fractionText fraction ++ exponentText e).head?, c.isDigit = false := by
  unfold fractionText
  split_ifs
  · exact exponentText_head e
  · intro c hc
    have hc : c = '.' := by simpa using hc.symm
    rw [hc]
    decide

lemma fractionText_inj {fraction fraction' : List Char} {e e' : Option ℤ}
    (hdigits : ∀ c ∈ fraction, c.isDigit = true) (hdigits' : ∀ c ∈ fraction', c.isDigit = true)
    (h : fractionText fraction ++ exponentText e = fractionText fraction' ++ exponentText e') :
    fraction = fraction' ∧ e = e' := by
  have hpoint : ∀ e : Option ℤ, ∀ c ∈ (exponentText e).head?, c ≠ '.' := by
    intro e c hc
    cases e with
    | none => simp [exponentText] at hc
    | some e =>
      have hc : c = 'e' := by simpa [exponentText] using hc.symm
      rw [hc]
      decide
  unfold fractionText at h
  by_cases hnil : fraction = [] <;> by_cases hnil' : fraction' = []
  · rw [if_pos hnil, if_pos hnil'] at h
    exact ⟨hnil.trans hnil'.symm, exponentText_injective h⟩
  · rw [if_pos hnil, if_neg hnil', List.nil_append] at h
    have hhead : '.' ∈ (exponentText e).head? := by rw [h]; rfl
    exact absurd rfl (hpoint e '.' hhead)
  · rw [if_neg hnil, if_pos hnil', List.nil_append] at h
    have hhead : '.' ∈ (exponentText e').head? := by rw [← h]; rfl
    exact absurd rfl (hpoint e' '.' hhead)
  · rw [if_neg hnil, if_neg hnil', List.cons_append, List.cons_append, List.cons.injEq] at h
    obtain ⟨hfraction, hexponent⟩ := append_inj_of_stop hdigits hdigits' (exponentText_head e)
      (exponentText_head e') h.2
    exact ⟨hfraction, exponentText_injective hexponent⟩

/-- The parts are read back from the text. -/
theorem Parts.text_injective {p q : Parts} (hp : p.Plain) (hq : q.Plain) (h : p.text = q.text) :
    p = q := by
  obtain ⟨negative, whole, fraction, e⟩ := p
  obtain ⟨negative', whole', fraction', e'⟩ := q
  obtain ⟨hne, hdigits, hfractionDigits⟩ := hp
  obtain ⟨hne', hdigits', hfractionDigits'⟩ := hq
  dsimp only at hne hdigits hfractionDigits hne' hdigits' hfractionDigits'
  have hdash : ∀ {row rest : List Char}, row ≠ [] → (∀ c ∈ row, c.isDigit = true) →
      (row ++ rest).head? ≠ some '-' := by
    intro row rest hne hdigits hhead
    rw [List.head?_append_of_ne_nil _ hne] at hhead
    have hdigit := hdigits '-' (List.mem_of_mem_head? hhead)
    exact absurd hdigit (by decide)
  unfold text at h
  dsimp only at h
  have hsign : negative = negative' := by
    cases negative <;> cases negative'
    · rfl
    · have hhead : (whole ++ (fractionText fraction ++ exponentText e)).head? = some '-' :=
        congrArg List.head? h
      exact absurd hhead (hdash hne hdigits)
    · have hhead : some '-' = (whole' ++ (fractionText fraction' ++ exponentText e')).head? :=
        congrArg List.head? h
      exact absurd hhead.symm (hdash hne' hdigits')
    · rfl
  rw [hsign] at h
  have hrows := List.append_cancel_left h
  obtain ⟨hwhole, hrest⟩ := append_inj_of_stop hdigits hdigits' (fractionText_head fraction e)
    (fractionText_head fraction' e') hrows
  obtain ⟨hfraction, hexponent⟩ := fractionText_inj hfractionDigits hfractionDigits' hrest
  rw [hsign, hwhole, hfraction, hexponent]

end Parts

section Format

/-- A row of digits without the zeros at its end. -/
def trimZeros : List Char → List Char
  | [] => []
  | c :: rest => if c = '0' ∧ trimZeros rest = [] then [] else c :: trimZeros rest

/-- The digits of a positive number with `extra + 1` significant ones. -/
def significantDigits (extra : ℕ) (v : ℚ) : List Char :=
  Nat.toDigits 10 ⌊v / 10 ^ (Int.log 10 v - extra)⌋₊

/-- The text of a number that is cut already, with the precision `extra + 1`. -/
def parts (extra : ℕ) (v : ℚ) : Parts :=
  let e := Int.log 10 |v|
  let digits := significantDigits extra |v|
  if v = 0 then ⟨false, ['0'], [], none⟩
  else if -4 ≤ e ∧ e < extra + 1 then
    if 0 ≤ e then
      ⟨decide (v < 0), digits.take (e.toNat + 1), trimZeros (digits.drop (e.toNat + 1)), none⟩
    else ⟨decide (v < 0), ['0'], List.replicate (-e - 1).toNat '0' ++ trimZeros digits, none⟩
  else ⟨decide (v < 0), digits.take 1, trimZeros (digits.drop 1), some e⟩

/-- `format(x, '.<extra + 1>g')`. -/
def format (R : Rounding) (extra : ℕ) (x : ℚ) : String :=
  String.ofList (parts extra (significant R extra x)).text

variable {R : Rounding} {extra : ℕ} {v : ℚ}

lemma exists_trimZeros (digits : List Char) :
    ∃ count, digits = trimZeros digits ++ List.replicate count '0' := by
  induction digits with
  | nil => exact ⟨0, rfl⟩
  | cons c rest ih =>
    obtain ⟨count, hrest⟩ := ih
    unfold trimZeros
    split_ifs with hzero
    · obtain ⟨rfl, hnil⟩ := hzero
      rw [hnil, List.nil_append] at hrest
      exact ⟨count + 1, by rw [List.nil_append, List.replicate_succ, ← hrest]⟩
    · exact ⟨count, by rw [List.cons_append, ← hrest]⟩

lemma mem_of_mem_trimZeros {digits : List Char} {c : Char} (h : c ∈ trimZeros digits) :
    c ∈ digits := by
  obtain ⟨count, hdigits⟩ := exists_trimZeros digits
  rw [hdigits]
  exact List.mem_append_left _ h

lemma isDigit_of_mem_significantDigits {c : Char} (h : c ∈ significantDigits extra v) :
    c.isDigit = true :=
  Nat.isDigit_of_mem_toDigits (by omega) (by omega) h

/-- The digits of a number that has them. -/
lemma significantDigits_spec (h : HasDigits extra v) :
    (significantDigits extra v).length = extra + 1 ∧
      (Nat.ofDigitChars 10 (significantDigits extra v) 0 : ℚ) * 10 ^ (Int.log 10 v - extra) = v := by
  obtain ⟨n, hlow, hhigh, hvalue⟩ := h
  have hunit : (0 : ℚ) < 10 ^ (Int.log 10 v - extra) := zpow_pos (by norm_num) _
  have hquotient : v / 10 ^ (Int.log 10 v - extra) = n := by
    rw [div_eq_iff hunit.ne']
    exact hvalue
  have hdigits : significantDigits extra v = Nat.toDigits 10 n := by
    unfold significantDigits
    rw [hquotient, Nat.floor_natCast]
  rw [hdigits]
  constructor
  · have hle : (Nat.toDigits 10 n).length ≤ extra + 1 :=
      (Nat.length_toDigits_le_iff (by omega) (by omega)).mpr hhigh
    have hge : extra < (Nat.toDigits 10 n).length := by
      by_contra hshort
      rcases Nat.eq_zero_or_pos extra with rfl | hpos
      · exact hshort Nat.length_toDigits_pos
      · have hlt := (Nat.length_toDigits_le_iff (by omega) hpos).mp (not_lt.mp hshort)
        omega
    omega
  · rw [Nat.ofDigitChars_ten_toDigits]
    exact hvalue.symm

/-- Cutting zeros off the end of the digits moves the unit of the last one. -/
lemma value_of_zeros {digits kept : List Char} {count : ℕ} {u w : ℤ}
    (hdigits : digits = kept ++ List.replicate count '0') (hunit : w = u + count) :
    (Nat.ofDigitChars 10 kept 0 : ℚ) * 10 ^ w =
      (Nat.ofDigitChars 10 digits 0 : ℚ) * 10 ^ u := by
  have hvalue : Nat.ofDigitChars 10 digits 0 = 10 ^ count * Nat.ofDigitChars 10 kept 0 := by
    rw [hdigits, Nat.ofDigitChars_append, Nat.ofDigitChars_replicate_zero]
  rw [hvalue, hunit, zpow_add₀ (by norm_num), zpow_natCast]
  push_cast
  ring

/-- Zeros before the digits do not count. -/
lemma ofDigitChars_zeros (count : ℕ) (digits : List Char) :
    Nat.ofDigitChars 10 (List.replicate count '0' ++ digits) 0 = Nat.ofDigitChars 10 digits 0 := by
  rw [Nat.ofDigitChars_append, Nat.ofDigitChars_replicate_zero, Nat.mul_zero]

lemma parts_plain (h : HasDigits extra |v|) : (parts extra v).Plain := by
  obtain ⟨hlength, -⟩ := significantDigits_spec h
  have hrow : ∀ c ∈ significantDigits extra |v|, c.isDigit = true :=
    fun c hc => isDigit_of_mem_significantDigits hc
  have htake : ∀ n, (significantDigits extra |v|).take (n + 1) ≠ [] := by
    intro n hnil
    have hzero := congrArg List.length hnil
    rw [List.length_take, hlength, List.length_nil] at hzero
    omega
  have hdrop : ∀ n, ∀ c ∈ trimZeros ((significantDigits extra |v|).drop n), c.isDigit = true :=
    fun n c hc => hrow c (List.mem_of_mem_drop (mem_of_mem_trimZeros hc))
  unfold parts
  dsimp only
  split_ifs
  · exact ⟨by simp, by simp, by simp⟩
  · exact ⟨htake _, fun c hc => hrow c (List.mem_of_mem_take hc), hdrop _⟩
  · refine ⟨by simp, by simp, ?_⟩
    intro c hc
    rcases List.mem_append.mp hc with hc | hc
    · rw [List.eq_of_mem_replicate hc]
      rfl
    · exact hrow c (mem_of_mem_trimZeros hc)
  · exact ⟨htake _, fun c hc => hrow c (List.mem_of_mem_take hc), hdrop _⟩

/-- The text of a cut number stands for that number. -/
theorem value_parts (h : v = 0 ∨ HasDigits extra |v|) : (parts extra v).value = v := by
  by_cases hzero : v = 0
  · subst hzero
    have hparts : parts extra 0 = ⟨false, ['0'], [], none⟩ := by simp [parts]
    have hdigit : Nat.ofDigitChars 10 (['0'] ++ []) 0 = 0 := rfl
    rw [hparts, Parts.value]
    dsimp only
    rw [hdigit, Nat.cast_zero, mul_zero, zero_mul]
  have hdigits := h.resolve_left hzero
  obtain ⟨hlength, hvalue⟩ := significantDigits_spec hdigits
  have hsign : (if decide (v < 0) = true then -1 else 1) * |v| = v := by
    by_cases hneg : v < 0
    · simp [hneg, abs_of_neg hneg]
    · simp [hneg, abs_of_nonneg (not_lt.mp hneg)]
  have hsplit : ∀ n, ∃ count, significantDigits extra |v| =
      ((significantDigits extra |v|).take n ++ trimZeros ((significantDigits extra |v|).drop n)) ++
        List.replicate count '0' := by
    intro n
    obtain ⟨count, hcount⟩ := exists_trimZeros ((significantDigits extra |v|).drop n)
    refine ⟨count, ?_⟩
    rw [List.append_assoc, ← hcount, List.take_append_drop]
  have hfraction : ∀ n count : ℕ, n ≤ extra + 1 → significantDigits extra |v| =
      ((significantDigits extra |v|).take n ++ trimZeros ((significantDigits extra |v|).drop n)) ++
        List.replicate count '0' →
        n + (trimZeros ((significantDigits extra |v|).drop n)).length + count = extra + 1 := by
    intro n count hn hcount
    have hlengths := congrArg List.length hcount
    rw [List.length_append, List.length_append, List.length_replicate, List.length_take, hlength,
      min_eq_left hn] at hlengths
    exact hlengths.symm
  unfold parts
  dsimp only
  rw [if_neg hzero]
  split_ifs with hfixed hwhole
  · obtain ⟨count, hcount⟩ := hsplit ((Int.log 10 |v|).toNat + 1)
    have hplaces := hfraction ((Int.log 10 |v|).toNat + 1) count (by omega) hcount
    unfold Parts.value
    dsimp only
    rw [mul_assoc, value_of_zeros hcount (u := Int.log 10 |v| - extra) (by simp; omega), hvalue, hsign]
  · obtain ⟨count, hcount⟩ := exists_trimZeros (significantDigits extra |v|)
    have hplaces := congrArg List.length hcount
    rw [List.length_append, List.length_replicate, hlength] at hplaces
    have hzeros : Nat.ofDigitChars 10
        (['0'] ++ (List.replicate (-Int.log 10 |v| - 1).toNat '0' ++ trimZeros (significantDigits extra |v|))) 0 =
          Nat.ofDigitChars 10 (trimZeros (significantDigits extra |v|)) 0 := by
      rw [← List.append_assoc, ← List.replicate_one, List.replicate_append_replicate,
        ofDigitChars_zeros]
    unfold Parts.value
    dsimp only
    rw [hzeros, mul_assoc, value_of_zeros hcount (u := Int.log 10 |v| - extra) (by simp; omega), hvalue, hsign]
  · obtain ⟨count, hcount⟩ := hsplit 1
    have hplaces := hfraction 1 count (by omega) hcount
    unfold Parts.value
    dsimp only
    rw [mul_assoc, value_of_zeros hcount (u := Int.log 10 |v| - extra)
      (by rw [Option.getD_some]; omega), hvalue, hsign]

lemma significant_hasDigits (x : ℚ) :
    significant R extra x = 0 ∨ HasDigits extra |significant R extra x| := by
  rcases lt_trichotomy x 0 with hx | rfl | hx
  · right
    rw [significant_of_neg hx, abs_neg, abs_of_pos (significantPos_pos (neg_pos.mpr hx))]
    exact hasDigits_significantPos (neg_pos.mpr hx)
  · exact .inl significant_zero
  · right
    rw [significant_of_pos hx, abs_of_pos (significantPos_pos hx)]
    exact hasDigits_significantPos hx

lemma parts_significant_plain (x : ℚ) : (parts extra (significant R extra x)).Plain := by
  have hdigits : significant R extra x = 0 ∨ HasDigits extra |significant R extra x| :=
    significant_hasDigits x
  rcases hdigits with hzero | hdigits
  · rw [hzero]
    exact ⟨by simp [parts], by simp [parts], by simp [parts]⟩
  · exact parts_plain hdigits

/-- The characters of a text. -/
lemma mem_format {x : ℚ} {c : Char} (h : c ∈ (format R extra x).toList) :
    c.isDigit = true ∨ c ∈ ['-', '.', 'e', '+'] := by
  unfold format at h
  rw [String.toList_ofList] at h
  exact (parts_significant_plain x).mem_text h

/-- Two texts are equal exactly if the numbers are cut to the same number. -/
theorem format_eq_iff (x y : ℚ) :
    format R extra x = format R extra y ↔ significant R extra x = significant R extra y := by
  constructor
  · intro h
    have hparts := Parts.text_injective (parts_significant_plain x) (parts_significant_plain y)
      (String.ofList_injective h)
    rw [← value_parts (significant_hasDigits x), hparts, value_parts (significant_hasDigits y)]
  · intro h
    unfold format
    rw [h]

end Format

end GeneralFormat
