import TradeFramework.Chart.ZonedDateTime
import TradeFramework.EventStore.Disk

/-!
# The inputs of a chart's time range

`formatRangeInput` writes an end of the range into an input, `parseRangeInput` reads it again. An end is a
number of seconds here; the ends that are texts or calendar days go through `Date.parse`.
-/

namespace TradeFramework.Chart

open CivilCalendar EventStore

section Inputs

/-- The options of the inputs. -/
structure RangeOptions where
  showTime : Bool
  timeZone : Option TimeZone

def RangeOptions.displayZone (options : RangeOptions) : TimeZone :=
  if options.showTime then options.timeZone.getD utcZone else utcZone

/-- A number of the formatter in the format `2-digit`. -/
def twoDigit (n : ℤ) : String := if n < 10 then s!"0{n}" else s!"{n}"

/-- `formatRangeInput`. -/
def formatRangeInput (value : Option ℤ) (options : RangeOptions) : String :=
  match value with
  | none => ""
  | some t =>
    let parts := datePartsInZone t options.displayZone
    let date := s!"{parts.year}-{twoDigit parts.month}-{twoDigit parts.day}"
    if options.showTime then s!"{date}T{twoDigit parts.hour}:{twoDigit parts.minute}" else date

/-- What an input is read as: `null`, `NaN` or a second. -/
inductive RangeBound where
  | null
  | nan
  | second (t : ℤ)
deriving DecidableEq, Repr

/-- The pattern of a date without a time. -/
def matchDate (value : String) : Option DateTime :=
  match value.toList with
  | [y₁, y₂, y₃, y₄, '-', m₁, m₂, '-', d₁, d₂] => do
    pure ⟨← digits [y₁, y₂, y₃, y₄], ← digits [m₁, m₂], ← digits [d₁, d₂], 0, 0, 0⟩
  | _ => none

/-- `parseRangeInput`. -/
def parseRangeInput (value : String) (options : RangeOptions) : RangeBound :=
  let text := String.ofList (trim value.toList)
  if text = "" then .null
  else if !options.showTime then
    match matchDate text with
    | none => .nan
    | some desired =>
      let date := civil (dateUtc desired)
      if date.year ≠ desired.year ∨ date.month ≠ desired.month ∨ date.day ≠ desired.day then .nan
      else .second (dateUtc desired)
  else
    match parseZonedDateTime text (options.timeZone.getD utcZone) with
    | none => .nan
    | some t => .second t

end Inputs

section Texts

lemma isDigit_range {c : Char} (h : c.isDigit) : '0' ≤ c ∧ c ≤ '9' := by
  rw [Char.isDigit, Bool.and_eq_true, decide_eq_true_eq, decide_eq_true_eq] at h
  exact h

/-- What a row of digits is read as. -/
lemma digits_eq_some {text : List Char} (h : ∀ c ∈ text, c.isDigit) :
    digits text = some (Nat.ofDigitChars 10 text 0 : ℤ) := by
  have hrange : ∀ c ∈ text, '0' ≤ c ∧ c ≤ '9' := fun c hc => isDigit_range (h c hc)
  have hvalue : ∀ init : ℕ, text.foldl (fun n c => 10 * n + ((c.toNat : ℤ) - 48)) (init : ℤ) =
      (Nat.ofDigitChars 10 text init : ℤ) := by
    induction text with
    | nil => exact fun init => rfl
    | cons c text ih =>
      intro init
      have hlow : 48 ≤ c.toNat := (hrange c (by simp)).1
      have hstep : 10 * (init : ℤ) + ((c.toNat : ℤ) - 48) = ((10 * init + (c.toNat - 48) : ℕ) : ℤ) := by
        omega
      rw [List.foldl_cons, hstep, ih (fun d hd => h d (by simp [hd])) (fun d hd => hrange d (by simp [hd])),
        Nat.ofDigitChars_cons]
      rfl
  unfold digits
  rw [if_pos (List.all_eq_true.mpr fun c hc => decide_eq_true (hrange c hc))]
  exact congrArg some (hvalue 0)

/-- The text of a number, with the digits that it is read from. -/
structure Shows (text : List Char) (n : ℤ) : Prop where
  digit : ∀ c ∈ text, c.isDigit
  value : digits text = some n

lemma toList_toString (k : ℕ) : (toString (k : ℤ)).toList = Nat.toDigits 10 k := Nat.toList_repr

lemma shows_toString {n : ℤ} (h : 0 ≤ n) : Shows (toString n).toList n := by
  obtain ⟨k, rfl⟩ := Int.eq_ofNat_of_zero_le h
  have hdigit : ∀ c ∈ Nat.toDigits 10 k, c.isDigit :=
    fun c hc => Nat.isDigit_of_mem_toDigits (by omega) (by omega) hc
  rw [toList_toString]
  refine ⟨hdigit, ?_⟩
  rw [digits_eq_some hdigit, Nat.ofDigitChars_ten_toDigits]

lemma length_toString {n : ℤ} (h : 0 ≤ n) {k : ℕ} (hk : 0 < k) :
    (toString n).toList.length ≤ k ↔ n < 10 ^ k := by
  obtain ⟨m, rfl⟩ := Int.eq_ofNat_of_zero_le h
  rw [toList_toString, Nat.length_toDigits_le_iff (by omega) hk]
  exact_mod_cast Iff.rfl

lemma toList_twoDigit (n : ℤ) : (twoDigit n).toList =
    (if n < 10 then ['0'] else []) ++ (toString n).toList := by
  unfold twoDigit
  split_ifs
  · exact String.toList_append
  · rfl

lemma shows_twoDigit {n : ℤ} (h : 0 ≤ n) : Shows (twoDigit n).toList n := by
  rw [toList_twoDigit]
  split_ifs with hsmall
  · have hshows := shows_toString h
    have hdigit : ∀ c ∈ '0' :: (toString n).toList, c.isDigit := by
      rintro c (_ | ⟨_, hc⟩)
      · rfl
      · exact hshows.digit c hc
    refine ⟨hdigit, ?_⟩
    rw [List.singleton_append, digits_eq_some hdigit, Nat.ofDigitChars_cons]
    exact (digits_eq_some hshows.digit).symm.trans hshows.value
  · exact shows_toString h

/-- A number below 100 takes two digits. -/
lemma twoDigit_pair {n : ℤ} (h : 0 ≤ n) (hlt : n < 100) :
    ∃ a b, (twoDigit n).toList = [a, b] := by
  refine List.length_eq_two.mp ?_
  rw [toList_twoDigit, List.length_append]
  have hpos : 0 < (toString n).toList.length := by
    obtain ⟨k, rfl⟩ := Int.eq_ofNat_of_zero_le h
    rw [toList_toString]
    exact Nat.length_toDigits_pos
  have hone := @length_toString n h 1 (by omega)
  have htwo := @length_toString n h 2 (by omega)
  split_ifs with hsmall
  · rw [List.length_singleton]
    omega
  · rw [List.length_nil]
    omega

end Texts

section RoundTrips

variable {timeZone : TimeZone} {options : RangeOptions} {t : ℤ}

/-- A year that fills the four digits of the patterns. -/
def FourDigits (year : ℤ) : Prop := 1000 ≤ year ∧ year ≤ 9999

instance (year : ℤ) : Decidable (FourDigits year) := inferInstanceAs (Decidable (_ ∧ _))

lemma parts_bounds (t : ℤ) (timeZone : TimeZone) :
    let parts := datePartsInZone t timeZone
    1 ≤ parts.year ∧ (0 ≤ parts.month ∧ parts.month < 100) ∧ (0 ≤ parts.day ∧ parts.day < 100) ∧
      (0 ≤ parts.hour ∧ parts.hour < 100) ∧ 0 ≤ parts.minute ∧ parts.minute < 100 := by
  have hmonth := month_civil (timeZone.shown t)
  have hday := day_civil (timeZone.shown t)
  have htime := time_civil (timeZone.shown t)
  have hyear : 1 ≤ yearOfEra (civil (timeZone.shown t)).year := by
    unfold yearOfEra
    split_ifs <;> omega
  refine ⟨hyear, ?_, ?_, ?_, ?_⟩ <;> unfold datePartsInZone DateTime.withYear <;> dsimp only <;> omega

/-- The text of a year has four characters exactly for the years of four digits. -/
lemma year_quad_iff {year : ℤ} (h : 0 ≤ year) :
    (toString year).toList.length = 4 ↔ FourDigits year := by
  have hthree := @length_toString year h 3 (by omega)
  have hfour := @length_toString year h 4 (by omega)
  unfold FourDigits
  omega

lemma exists_quad {text : List Char} (h : text.length = 4) : ∃ a b c d, text = [a, b, c, d] := by
  obtain ⟨a, rest, rfl⟩ := List.exists_cons_of_length_eq_add_one h
  obtain ⟨b, c, d, rfl⟩ := List.length_eq_three.mp (by simpa using h)
  exact ⟨a, b, c, d, rfl⟩

/-- The start of the day of a date-time. -/
def atMidnight (d : DateTime) : DateTime := { d with hour := 0, minute := 0, second := 0 }

/-- The start of the minute of a date-time. -/
def atMinute (d : DateTime) : DateTime := { d with second := 0 }

/-- The text of a date. -/
def dateText (parts : DateTime) : List Char :=
  (toString parts.year).toList ++ '-' :: ((twoDigit parts.month).toList ++
    '-' :: (twoDigit parts.day).toList)

lemma toList_formatRangeInput (t : ℤ) (options : RangeOptions) :
    (formatRangeInput (some t) options).toList =
      dateText (datePartsInZone t options.displayZone) ++ if options.showTime then
        'T' :: ((twoDigit (datePartsInZone t options.displayZone).hour).toList ++
          ':' :: (twoDigit (datePartsInZone t options.displayZone).minute).toList) else [] := by
  have hself : ∀ s : String, toString s = s := fun _ => rfl
  unfold formatRangeInput dateText
  dsimp only
  split_ifs <;> simp [hself]

lemma matchDateTime_eq_some {value : String} {d : DateTime} (h : matchDateTime value = some d) :
    value.toList[4]? = some '-' ∧ (value.toList.length = 16 ∨ value.toList.length = 19) := by
  unfold matchDateTime at h
  split at h
  · next heq => simp [heq]
  · next heq => simp [heq]
  · cases h

/-- The text of a time matches the pattern where the year has four digits, and names the shown minute. -/
lemma matchDateTime_formatRangeInput (h : options.showTime = true) (t : ℤ) :
    matchDateTime (formatRangeInput (some t) options) =
      if FourDigits (datePartsInZone t options.displayZone).year then
        some (atMinute (datePartsInZone t options.displayZone)) else none := by
  obtain ⟨hyear, ⟨hmonth, hmonth'⟩, ⟨hday, hday'⟩, ⟨hhour, hhour'⟩, hminute, hminute'⟩ :=
    parts_bounds t options.displayZone
  have htext := toList_formatRangeInput t options
  generalize datePartsInZone t options.displayZone = parts at *
  rw [if_pos h, dateText] at htext
  obtain ⟨m₁, m₂, hm⟩ := twoDigit_pair hmonth hmonth'
  obtain ⟨d₁, d₂, hd⟩ := twoDigit_pair hday hday'
  obtain ⟨h₁, h₂, hh⟩ := twoDigit_pair hhour hhour'
  obtain ⟨n₁, n₂, hn⟩ := twoDigit_pair hminute hminute'
  have hyearText := shows_toString (show 0 ≤ parts.year by omega)
  have hquad := year_quad_iff (show 0 ≤ parts.year by omega)
  generalize (toString parts.year).toList = year at *
  rw [hm, hd, hh, hn] at htext
  split_ifs with hfour
  · obtain ⟨y₁, y₂, y₃, y₄, rfl⟩ := exists_quad (hquad.mpr hfour)
    have hmonthText := shows_twoDigit hmonth
    have hdayText := shows_twoDigit hday
    have hhourText := shows_twoDigit hhour
    have hminuteText := shows_twoDigit hminute
    rw [hm] at hmonthText
    rw [hd] at hdayText
    rw [hh] at hhourText
    rw [hn] at hminuteText
    unfold matchDateTime
    rw [htext]
    simp [hyearText.value, hmonthText.value, hdayText.value, hhourText.value, hminuteText.value, atMinute]
  · by_contra hsome
    obtain ⟨d, hsome⟩ := Option.ne_none_iff_exists'.mp hsome
    obtain ⟨hdash, hlength⟩ := matchDateTime_eq_some hsome
    rw [htext] at hdash hlength
    have hcount : year.length = 4 ∨ year.length = 7 := by
      simp only [List.length_append, List.length_cons, List.length_nil] at hlength
      omega
    rcases hcount with hcount | hcount
    · exact hfour (hquad.mp hcount)
    · -- the fifth character would be a digit of the year
      rw [List.append_assoc, List.getElem?_append_left (by omega)] at hdash
      have hdigit := hyearText.digit '-' (List.mem_of_getElem? hdash)
      cases hdigit

/-- The text of a date matches the pattern where the year has four digits, and names the shown day. -/
lemma matchDate_formatRangeInput (h : options.showTime = false) (t : ℤ) :
    matchDate (formatRangeInput (some t) options) =
      if FourDigits (datePartsInZone t options.displayZone).year then
        some (atMidnight (datePartsInZone t options.displayZone)) else none := by
  obtain ⟨hyear, ⟨hmonth, hmonth'⟩, ⟨hday, hday'⟩, -⟩ := parts_bounds t options.displayZone
  have htext := toList_formatRangeInput t options
  generalize datePartsInZone t options.displayZone = parts at *
  rw [if_neg (by simp [h]), List.append_nil, dateText] at htext
  obtain ⟨m₁, m₂, hm⟩ := twoDigit_pair hmonth hmonth'
  obtain ⟨d₁, d₂, hd⟩ := twoDigit_pair hday hday'
  have hyearText := shows_toString (show 0 ≤ parts.year by omega)
  have hquad := year_quad_iff (show 0 ≤ parts.year by omega)
  generalize (toString parts.year).toList = year at *
  rw [hm, hd] at htext
  split_ifs with hfour
  · obtain ⟨y₁, y₂, y₃, y₄, rfl⟩ := exists_quad (hquad.mpr hfour)
    have hmonthText := shows_twoDigit hmonth
    have hdayText := shows_twoDigit hday
    rw [hm] at hmonthText
    rw [hd] at hdayText
    unfold matchDate
    rw [htext]
    simp [hyearText.value, hmonthText.value, hdayText.value, atMidnight]
  · by_contra hsome
    obtain ⟨d, hsome⟩ := Option.ne_none_iff_exists'.mp hsome
    have hlength : (formatRangeInput (some t) options).toList.length = 10 := by
      unfold matchDate at hsome
      split at hsome
      · next heq => simp [heq]
      · cases hsome
    rw [htext] at hlength
    refine hfour (hquad.mp ?_)
    simp only [List.length_append, List.length_cons, List.length_nil] at hlength
    omega

lemma isBlank_digit {c : Char} (h : c.isDigit) : isBlank c = false := by
  have hrange : 48 ≤ c.toNat ∧ c.toNat ≤ 57 := isDigit_range h
  have hspace : JsonText.isSpace c = false := by
    by_contra hspace
    simp only [JsonText.isSpace, Bool.or_eq_true, decide_eq_true_eq, Bool.not_eq_false] at hspace
    rcases hspace with ((rfl | rfl) | rfl) | rfl <;> exact absurd hrange (by decide)
  simp only [isBlank, hspace, Bool.false_or, Bool.or_eq_false_iff, decide_eq_false_iff_not,
    Bool.and_eq_false_iff]
  simp only [List.mem_cons, List.not_mem_nil, or_false]
  omega

lemma Shows.not_blank {text : List Char} {n : ℤ} (h : Shows text n) : ∀ c ∈ text, isBlank c = false :=
  fun c hc => isBlank_digit (h.digit c hc)

lemma trim_of_not_blank {text : List Char} (h : ∀ c ∈ text, isBlank c = false) : trim text = text := by
  have hleft : text.dropWhile isBlank = text := by
    refine List.dropWhile_eq_self_iff.mpr fun hpos => ?_
    rw [h _ (List.getElem_mem hpos)]
    exact Bool.false_ne_true
  have hright : text.rdropWhile isBlank = text := by
    refine List.rdropWhile_eq_self_iff.mpr fun hne => ?_
    rw [h _ (List.getLast_mem hne)]
    exact Bool.false_ne_true
  rw [trim, hleft, hright]

/-- The input reads the text that was written into it. -/
lemma trim_formatRangeInput (t : ℤ) (options : RangeOptions) :
    String.ofList (trim (formatRangeInput (some t) options).toList) = formatRangeInput (some t) options ∧
      formatRangeInput (some t) options ≠ "" := by
  obtain ⟨hyear, ⟨hmonth, -⟩, ⟨hday, -⟩, ⟨hhour, -⟩, hminute, -⟩ := parts_bounds t options.displayZone
  have htext := toList_formatRangeInput t options
  generalize datePartsInZone t options.displayZone = parts at *
  have hyearText := (shows_toString (show 0 ≤ parts.year by omega)).not_blank
  have hmonthText := (shows_twoDigit hmonth).not_blank
  have hdayText := (shows_twoDigit hday).not_blank
  have hhourText := (shows_twoDigit hhour).not_blank
  have hminuteText := (shows_twoDigit hminute).not_blank
  have hmarks : isBlank '-' = false ∧ isBlank 'T' = false ∧ isBlank ':' = false := ⟨rfl, rfl, rfl⟩
  have hdate : ∀ c ∈ dateText parts, isBlank c = false := by
    simp only [dateText, List.forall_mem_append, List.forall_mem_cons]
    exact ⟨hyearText, hmarks.1, hmonthText, hmarks.1, hdayText⟩
  have hplain : ∀ c ∈ (formatRangeInput (some t) options).toList, isBlank c = false := by
    rw [htext, List.forall_mem_append]
    refine ⟨hdate, ?_⟩
    split_ifs
    · simp only [List.forall_mem_append, List.forall_mem_cons]
      exact ⟨hmarks.2.1, hhourText, hmarks.2.2, hminuteText⟩
    · simp
  constructor
  · rw [trim_of_not_blank hplain, String.ofList_toList]
  · intro hempty
    rw [hempty] at htext
    simp [dateText] at htext

/-- The text shows nothing below its minute. -/
lemma formatRangeInput_congr {s : ℤ} (h : options.showTime = true)
    (hparts : datePartsInZone s options.displayZone = atMinute (datePartsInZone t options.displayZone)) :
    formatRangeInput (some s) options = formatRangeInput (some t) options := by
  unfold formatRangeInput
  dsimp only
  rw [if_pos h, if_pos h, hparts]
  rfl

/-- An end of a range with times comes back from its input, up to its minute, exactly where the shown year has
four digits and an instant is shown as the start of the minute. -/
theorem parseRangeInput_formatRangeInput_time (h : options.showTime = true) (t : ℤ) :
    (∃ found, parseRangeInput (formatRangeInput (some t) options) options = .second found ∧
        formatRangeInput (some found) options = formatRangeInput (some t) options) ↔
      FourDigits (datePartsInZone t options.displayZone).year ∧
        ∃ start, FormatsTo options.displayZone (atMinute (datePartsInZone t options.displayZone)) start := by
  obtain ⟨htrim, hne⟩ := trim_formatRangeInput t options
  have hmatch := matchDateTime_formatRangeInput h t
  have hzone : options.timeZone.getD utcZone = options.displayZone := (if_pos h).symm
  have hparse : parseRangeInput (formatRangeInput (some t) options) options =
      match parseZonedDateTime (formatRangeInput (some t) options) options.displayZone with
      | none => .nan
      | some found => .second found := by
    unfold parseRangeInput
    dsimp only
    rw [htrim, if_neg hne, if_neg (by simp [h]), hzone]
  constructor
  · rintro ⟨found, hfound, -⟩
    rw [hparse] at hfound
    cases hzoned : parseZonedDateTime (formatRangeInput (some t) options) options.displayZone with
    | none =>
      rw [hzoned] at hfound
      cases hfound
    | some instant =>
      unfold parseZonedDateTime at hzoned
      rw [hmatch] at hzoned
      split_ifs at hzoned with hfour
      · exact ⟨hfour, instant, (formatsTo_of_zonedInstant hzoned).1⟩
      · cases hzoned
  · rintro ⟨hfour, start, hstart⟩
    rw [if_pos hfour] at hmatch
    obtain ⟨hsound, hnone⟩ := @parseZonedDateTime_inverts_of_year options.displayZone _ _ hmatch
      (show 101 ≤ (datePartsInZone t options.displayZone).year by unfold FourDigits at hfour; omega)
    cases hzoned : parseZonedDateTime (formatRangeInput (some t) options) options.displayZone with
    | none => exact absurd ⟨start, hstart⟩ (hnone.mp hzoned)
    | some instant =>
      refine ⟨instant, ?_, formatRangeInput_congr h (hsound instant hzoned).1⟩
      rw [hparse, hzoned]

/-- The day of a time, and what its first second is shown as. -/
lemma civil_dayStart (t : ℤ) : civil (86400 * (t / 86400)) = atMidnight (civil t) := by
  have hday : 86400 * (t / 86400) / 86400 = t / 86400 := by omega
  unfold civil atMidnight
  dsimp only
  rw [hday]
  have htime : 86400 * (t / 86400) % 86400 / 3600 = 0 ∧ 86400 * (t / 86400) % 3600 / 60 = 0 ∧
      86400 * (t / 86400) % 60 = 0 := by omega
  rw [htime.1, htime.2.1, htime.2.2]

/-- An end of a range of days comes back from its input as the start of its day, exactly where its year has four
digits. -/
theorem parseRangeInput_formatRangeInput_date (h : options.showTime = false) (t : ℤ) :
    parseRangeInput (formatRangeInput (some t) options) options = .second (86400 * (t / 86400)) ↔
      FourDigits (civil t).year := by
  obtain ⟨htrim, hne⟩ := trim_formatRangeInput t options
  have hmatch := matchDate_formatRangeInput h t
  have hzone : options.displayZone = utcZone := if_neg (by simp [h])
  have hshown : utcZone.shown t = t := Int.add_zero t
  have hparts : datePartsInZone t utcZone = (civil t).withYear (yearOfEra (civil t).year) := by
    unfold datePartsInZone
    rw [hshown]
  rw [hzone, hparts, DateTime.year_withYear] at hmatch
  unfold parseRangeInput
  dsimp only
  rw [htrim, if_neg hne, if_pos (by simp [h]), hmatch]
  constructor
  · intro hfound
    split_ifs at hfound with hfour
    dsimp only at hfound
    split_ifs at hfound with hdate
    have hsecond := RangeBound.second.inj hfound
    rw [hsecond, civil_dayStart] at hdate
    have hyear : (civil t).year = yearOfEra (civil t).year := by
      by_contra hyear
      exact hdate (Or.inl hyear)
    rwa [hyear]
  · intro hfour
    have hera : yearOfEra (civil t).year = (civil t).year := by
      unfold yearOfEra
      rw [if_pos (by unfold FourDigits at hfour; omega)]
    have hmidnight : dateUtc (atMidnight (civil t)) = 86400 * (t / 86400) := by
      rw [dateUtc_of_year (by unfold FourDigits at hfour; exact le_trans (by omega) hfour.1),
        ← civil_dayStart, seconds_civil]
    rw [hera, DateTime.withYear_self, if_pos hfour]
    dsimp only
    rw [hmidnight, civil_dayStart, if_neg (by simp [atMidnight])]

end RoundTrips

end TradeFramework.Chart
