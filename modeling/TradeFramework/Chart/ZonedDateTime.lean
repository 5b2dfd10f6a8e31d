import TradeFramework.Library.CivilCalendar
import TradeFramework.Library.WallClock

/-!
# Date-times in the chart's time zone

`parseZonedDateTime` corrects a guess four times by what the formatter of the zone shows at it. `Date.UTC`
and `Date` count milliseconds; all times here are whole seconds, and the model counts those.
-/

namespace TradeFramework.Chart

open CivilCalendar

section Parsing

/-- The offset of a time zone from UTC: at most 24 hours, with 48 hours between its changes. -/
abbrev TimeZone := WallClock 86400

/-- The year that the formatter shows; it does not show the era. -/
def yearOfEra (year : ℤ) : ℤ := if 1 ≤ year then year else 1 - year

/-- `datePartsInZone` with seconds, as the numbers that its texts name. -/
def datePartsInZone (t : ℤ) (timeZone : TimeZone) : DateTime :=
  let shown := civil (timeZone.shown t)
  shown.withYear (yearOfEra shown.year)

/-- `Date.UTC`, which reads the years 0 to 99 as 1900 to 1999. -/
def dateUtc (d : DateTime) : ℤ :=
  (d.withYear (if 0 ≤ d.year ∧ d.year ≤ 99 then 1900 + d.year else d.year)).seconds

/-- The number of a row of digits. -/
def digits (text : List Char) : Option ℤ :=
  if text.all fun c => '0' ≤ c ∧ c ≤ '9' then
    some (text.foldl (fun n c => 10 * n + ((c.toNat : ℤ) - 48)) 0)
  else none

/-- The pattern of `parseZonedDateTime`, with the second 0 where there is none. -/
def matchDateTime (value : String) : Option DateTime :=
  match value.toList with
  | [y₁, y₂, y₃, y₄, '-', m₁, m₂, '-', d₁, d₂, 'T', h₁, h₂, ':', n₁, n₂] => do
    pure ⟨← digits [y₁, y₂, y₃, y₄], ← digits [m₁, m₂], ← digits [d₁, d₂], ← digits [h₁, h₂],
      ← digits [n₁, n₂], 0⟩
  | [y₁, y₂, y₃, y₄, '-', m₁, m₂, '-', d₁, d₂, 'T', h₁, h₂, ':', n₁, n₂, ':', s₁, s₂] => do
    pure ⟨← digits [y₁, y₂, y₃, y₄], ← digits [m₁, m₂], ← digits [d₁, d₂], ← digits [h₁, h₂],
      ← digits [n₁, n₂], ← digits [s₁, s₂]⟩
  | _ => none

/-- One turn of the correction loop. -/
def correctGuess (timeZone : TimeZone) (desiredUtc guess : ℤ) : ℤ :=
  let represented := dateUtc (datePartsInZone guess timeZone)
  guess + (desiredUtc - represented)

/-- The instant that the loop and the check behind it find for a date-time. -/
def zonedInstant (desired : DateTime) (timeZone : TimeZone) : Option ℤ :=
  let desiredUtc := dateUtc desired
  let guess := (List.range 4).foldl (fun guess _ => correctGuess timeZone desiredUtc guess) desiredUtc
  if datePartsInZone guess timeZone = desired then some guess else none

/-- `parseZonedDateTime`. -/
def parseZonedDateTime (value : String) (timeZone : TimeZone) : Option ℤ := do
  let desired ← matchDateTime value
  zonedInstant desired timeZone

end Parsing

section Corrections

variable {timeZone : TimeZone} {desired : DateTime} {wall guess : ℤ}

/-- The instant is formatted as the date-time, in the current era. -/
def FormatsTo (timeZone : TimeZone) (desired : DateTime) (t : ℤ) : Prop :=
  datePartsInZone t timeZone = desired ∧ 1 ≤ (civil (timeZone.shown t)).year

/-- The first second of the year 100: from then on `Date.UTC` reads a year as it is. -/
def threeDigitYears : ℤ := yearSecond 100

lemma datePartsInZone_eq {t : ℤ} (h : 1 ≤ (civil (timeZone.shown t)).year) :
    datePartsInZone t timeZone = civil (timeZone.shown t) := by
  unfold datePartsInZone yearOfEra
  dsimp only
  rw [if_pos h, DateTime.withYear_self]

lemma formatsTo_iff {t : ℤ} : FormatsTo timeZone desired t ↔
    civil (timeZone.shown t) = desired ∧ 1 ≤ desired.year := by
  constructor
  · rintro ⟨hshown, hyear⟩
    rw [datePartsInZone_eq hyear] at hshown
    exact ⟨hshown, hshown ▸ hyear⟩
  · rintro ⟨hcivil, hyear⟩
    rw [← hcivil] at hyear
    exact ⟨(datePartsInZone_eq hyear).trans hcivil, hyear⟩

lemma dateUtc_of_year {d : DateTime} (h : 100 ≤ d.year) : dateUtc d = d.seconds := by
  unfold dateUtc
  rw [if_neg (by omega), DateTime.withYear_self]

/-- What `Date.UTC` makes of a date-time that is shown from the year 100 on. -/
lemma dateUtc_parts (h : threeDigitYears ≤ timeZone.shown guess) :
    dateUtc (datePartsInZone guess timeZone) = timeZone.shown guess := by
  have hyear : 100 ≤ (civil (timeZone.shown guess)).year := year_civil_le_iff.mpr h
  rw [datePartsInZone_eq (by omega), dateUtc_of_year hyear, seconds_civil]

lemma correctGuess_eq (h : threeDigitYears ≤ timeZone.shown guess) :
    correctGuess timeZone wall guess = timeZone.correct wall guess := by
  unfold correctGuess
  dsimp only
  rw [dateUtc_parts h]
  unfold WallClock.shown WallClock.correct
  omega

/-- The second of a date-time that is shown as such. -/
lemma dateUtc_of_formatsTo {t : ℤ} (h : FormatsTo timeZone desired t) (hyear : 100 ≤ desired.year) :
    dateUtc desired = timeZone.shown t := by
  obtain ⟨hcivil, -⟩ := formatsTo_iff.mp h
  rw [dateUtc_of_year hyear, ← hcivil, seconds_civil]

/-- Where a guess has strayed to: the formatter shows years before the era there, without saying so, and
every further correction moves the guess further back. -/
def Strayed (timeZone : TimeZone) (t : ℤ) : Prop := timeZone.shown t < yearSecond (-999)

/-- A guess as far from the wall time as an offset. -/
def Near (wall t : ℤ) : Prop := wall - 86400 ≤ t ∧ t ≤ wall + 86400

lemma shown_near (timeZone : TimeZone) {t : ℤ} (h : Near wall t) :
    wall - 172800 ≤ timeZone.shown t ∧ timeZone.shown t ≤ wall + 172800 := by
  have hbound := timeZone.bounded t
  unfold Near at h
  unfold WallClock.shown
  omega

/-- A guess is corrected by how far the year that `Date.UTC` reads is from the year that the clock shows. -/
lemma shown_correctGuess_le {year : ℤ}
    (h : dateUtc (datePartsInZone guess timeZone) = ((civil (timeZone.shown guess)).withYear year).seconds) :
    timeZone.shown (correctGuess timeZone wall guess) ≤
      wall + yearSecond (civil (timeZone.shown guess)).year - yearSecond year + 259200 := by
  obtain ⟨d, hlow, hhigh, hseconds⟩ := seconds_otherYear (timeZone.shown guess) year
  have hnext := timeZone.bounded (correctGuess timeZone wall guess)
  have hhere := timeZone.bounded guess
  have hguess : correctGuess timeZone wall guess =
      guess + (wall - dateUtc (datePartsInZone guess timeZone)) := rfl
  rw [h, hseconds] at hguess
  have hshown : timeZone.shown guess = guess + timeZone.offset guess := rfl
  unfold WallClock.shown at hguess ⊢
  omega

lemma strayed_correctGuess (hwall : wall < yearSecond 102) (h : Strayed timeZone guess) :
    Strayed timeZone (correctGuess timeZone wall guess) := by
  have hyear : (civil (timeZone.shown guess)).year ≤ -1000 := by
    by_contra hlater
    have hfrom := year_civil_le_iff.mp (show -999 ≤ (civil (timeZone.shown guess)).year by omega)
    unfold Strayed at h
    omega
  have hutc : dateUtc (datePartsInZone guess timeZone) =
      ((civil (timeZone.shown guess)).withYear (1 - (civil (timeZone.shown guess)).year)).seconds := by
    unfold datePartsInZone yearOfEra
    dsimp only
    rw [if_neg (by omega), dateUtc_of_year (by rw [DateTime.year_withYear]; omega)]
  have hnext : timeZone.shown (correctGuess timeZone wall guess) ≤ _ := shown_correctGuess_le hutc
  have hbefore := yearSecond_le hyear
  have hafter := yearSecond_le (show 1001 ≤ 1 - (civil (timeZone.shown guess)).year by omega)
  have hvalues : yearSecond 102 = -58948387200 ∧ yearSecond (-1000) = -93724128000 ∧
      yearSecond 1001 = -30578688000 ∧ yearSecond (-999) = -93692592000 := by decide
  unfold Strayed
  omega

/-- A guess that is shown in one of the years 97 to 99 strays with the next correction. -/
lemma strays (hwall : wall < yearSecond 102) (hfrom : yearSecond 97 ≤ timeZone.shown guess)
    (h : timeZone.shown guess < threeDigitYears) : Strayed timeZone (correctGuess timeZone wall guess) := by
  have hyear : 97 ≤ (civil (timeZone.shown guess)).year := year_civil_le_iff.mpr hfrom
  have hlast : (civil (timeZone.shown guess)).year ≤ 99 := by
    by_contra hlater
    have hlater := year_civil_le_iff.mp (show 100 ≤ (civil (timeZone.shown guess)).year by omega)
    unfold threeDigitYears at h
    omega
  have hutc : dateUtc (datePartsInZone guess timeZone) =
      ((civil (timeZone.shown guess)).withYear (1900 + (civil (timeZone.shown guess)).year)).seconds := by
    rw [datePartsInZone_eq (by omega)]
    unfold dateUtc
    rw [if_pos (by omega)]
  have hnext : timeZone.shown (correctGuess timeZone wall guess) ≤ _ := shown_correctGuess_le hutc
  have hbefore := yearSecond_le hlast
  have hafter := yearSecond_le (show 1997 ≤ 1900 + (civil (timeZone.shown guess)).year by omega)
  have hvalues : yearSecond 102 = -58948387200 ∧ yearSecond 99 = -59042995200 ∧
      yearSecond 1997 = 852076800 ∧ yearSecond (-999) = -93692592000 := by decide
  unfold Strayed
  omega

/-- Every guess stays near the wall time, or the loop strays from a wall time of the year 101 or before. -/
def Tracked (timeZone : TimeZone) (wall t : ℤ) : Prop :=
  Near wall t ∨ wall < yearSecond 102 ∧ Strayed timeZone t

lemma tracked_correctGuess (hwall : yearSecond 98 ≤ wall) (h : Tracked timeZone wall guess) :
    Tracked timeZone wall (correctGuess timeZone wall guess) := by
  rcases h with hnear | ⟨hearly, hstrayed⟩
  · have hshown := shown_near timeZone hnear
    by_cases hread : threeDigitYears ≤ timeZone.shown guess
    · left
      rw [correctGuess_eq hread]
      exact timeZone.correct_near wall guess
    · have hvalues : yearSecond 102 = -58948387200 ∧ yearSecond 98 = -59074531200 ∧
          yearSecond 97 = -59106067200 ∧ threeDigitYears = -59011459200 := by decide
      have hearly : wall < yearSecond 102 := by omega
      exact .inr ⟨hearly, strays hearly (by omega) (by omega)⟩
  · exact .inr ⟨hearly, strayed_correctGuess hearly hstrayed⟩

/-- The guess after some turns of the loop. -/
def guessAfter (timeZone : TimeZone) (wall : ℤ) : ℕ → ℤ
  | 0 => wall
  | n + 1 => correctGuess timeZone wall (guessAfter timeZone wall n)

lemma tracked_guessAfter (hwall : yearSecond 98 ≤ wall) (n : ℕ) :
    Tracked timeZone wall (guessAfter timeZone wall n) := by
  induction n with
  | zero =>
    left
    unfold Near guessAfter
    omega
  | succ n ih => exact tracked_correctGuess hwall ih

lemma strayed_guessAfter (hwall : wall < yearSecond 102) {m n : ℕ} (hmn : m ≤ n)
    (h : Strayed timeZone (guessAfter timeZone wall m)) : Strayed timeZone (guessAfter timeZone wall n) := by
  induction n, hmn using Nat.le_induction with
  | base => exact h
  | succ n _ ih => exact strayed_correctGuess hwall ih

lemma zonedInstant_eq_some {t : ℤ} : zonedInstant desired timeZone = some t ↔
    t = guessAfter timeZone (dateUtc desired) 4 ∧ datePartsInZone t timeZone = desired := by
  have hloop : (List.range 4).foldl (fun guess _ => correctGuess timeZone (dateUtc desired) guess)
      (dateUtc desired) = guessAfter timeZone (dateUtc desired) 4 := rfl
  unfold zonedInstant
  dsimp only
  rw [hloop]
  split_ifs with hshown
  · rw [Option.some.injEq]
    constructor
    · rintro rfl
      exact ⟨rfl, hshown⟩
    · rintro ⟨rfl, -⟩
      rfl
  · simp only [false_iff, not_and]
    rintro rfl
    exact hshown

end Corrections

section Inversion

variable {timeZone : TimeZone} {desired : DateTime} {value : String}

/-- What the loop finds is formatted as the date-time, whose year has three digits at least. -/
lemma formatsTo_of_zonedInstant {t : ℤ} (h : zonedInstant desired timeZone = some t) :
    FormatsTo timeZone desired t ∧ 100 ≤ desired.year := by
  obtain ⟨ht, hparts⟩ := zonedInstant_eq_some.mp h
  have hdesired : desired = (civil (timeZone.shown t)).withYear desired.year := by
    rw [← hparts]
    rfl
  have hera : desired.year = yearOfEra (civil (timeZone.shown t)).year := by
    rw [← hparts]
    rfl
  obtain ⟨year, hyear, hutc⟩ : ∃ year, year = (if 0 ≤ desired.year ∧ desired.year ≤ 99 then 1900 + desired.year
      else desired.year) ∧ dateUtc desired = ((civil (timeZone.shown t)).withYear year).seconds := by
    refine ⟨_, rfl, ?_⟩
    unfold dateUtc
    rw [hdesired, DateTime.year_withYear, DateTime.withYear_withYear]
  obtain ⟨d, hlow, hhigh, hseconds⟩ := seconds_otherYear (timeZone.shown t) year
  have hfrom := year_civil_le_iff.mp (le_refl (civil (timeZone.shown t)).year)
  have hread : 100 ≤ year := by
    unfold yearOfEra at hera
    split_ifs at hera hyear <;> omega
  have hstart := yearSecond_le hread
  have hvalues : yearSecond 98 = -59074531200 ∧ yearSecond 100 = -59011459200 ∧ yearSecond 97 = -59106067200 ∧
      yearSecond 102 = -58948387200 ∧ yearSecond (-999) = -93692592000 := by decide
  have hwall : yearSecond 98 ≤ dateUtc desired := by omega
  have htracked : Tracked timeZone (dateUtc desired) t := ht ▸ tracked_guessAfter hwall 4
  rcases htracked with hnear | ⟨hearly, hstrayed⟩
  · have hshown := shown_near timeZone hnear
    have hthis : 97 ≤ (civil (timeZone.shown t)).year := by
      rw [year_civil_le_iff]
      omega
    have hsame : desired.year = (civil (timeZone.shown t)).year := by
      rw [hera, yearOfEra, if_pos (by omega)]
    refine ⟨⟨hparts, by omega⟩, ?_⟩
    by_contra hshort
    -- a year of two digits would have been read as one of the twentieth century
    rw [if_pos (by omega)] at hyear
    have hcentury := yearSecond_le (show 1997 ≤ year by omega)
    have hlate : 100 ≤ (civil (timeZone.shown t)).year := by
      rw [year_civil_le_iff]
      have hvalue : yearSecond 1997 = 852076800 := by decide
      omega
    omega
  · have hthis : (civil (timeZone.shown t)).year ≤ -1000 := by
      by_contra hlater
      have hshown := year_civil_le_iff.mp (show -999 ≤ (civil (timeZone.shown t)).year by omega)
      unfold Strayed at hstrayed
      omega
    rw [yearOfEra, if_neg (by omega)] at hera
    rw [if_neg (by omega)] at hyear
    have hlate := yearSecond_le (show 1001 ≤ year by omega)
    have hvalue : yearSecond 1001 = -30578688000 := by decide
    omega

/-- The condition under which the loop reads every year as it is shown: the date-time and the clock at the
two instants that it starts from have years of three digits at least. -/
def ReadAsShown (timeZone : TimeZone) (desired : DateTime) : Prop :=
  100 ≤ desired.year ∧ threeDigitYears ≤ timeZone.shown (dateUtc desired) ∧
    threeDigitYears ≤ timeZone.shown (timeZone.correct (dateUtc desired) (dateUtc desired))

instance : Decidable (ReadAsShown timeZone desired) := inferInstanceAs (Decidable (_ ∧ _ ∧ _))

/-- A date-time that some instant is formatted as is found. -/
lemma zonedInstant_of_formatsTo {t : ℤ} (h : FormatsTo timeZone desired t) (hread : ReadAsShown timeZone desired) :
    ∃ found, zonedInstant desired timeZone = some found := by
  obtain ⟨hyear, hfirst, hsecond⟩ := hread
  have hwall : timeZone.shown t = dateUtc desired := (dateUtc_of_formatsTo h hyear).symm
  have hcivil : civil (dateUtc desired) = desired := by
    rw [← hwall]
    exact (formatsTo_iff.mp h).1
  have hfound := timeZone.shown_correct_correct hwall
  have hshown : threeDigitYears ≤ dateUtc desired := by
    rw [threeDigitYears, ← year_civil_le_iff, hcivil]
    exact hyear
  have hone : guessAfter timeZone (dateUtc desired) 1 = timeZone.correct (dateUtc desired) (dateUtc desired) :=
    correctGuess_eq hfirst
  have htwo : guessAfter timeZone (dateUtc desired) 2 =
      timeZone.correct (dateUtc desired) (timeZone.correct (dateUtc desired) (dateUtc desired)) := by
    rw [guessAfter, hone]
    exact correctGuess_eq hsecond
  -- the second correction has found the instant, and the others keep it
  have hfixed : correctGuess timeZone (dateUtc desired) (guessAfter timeZone (dateUtc desired) 2) =
      guessAfter timeZone (dateUtc desired) 2 := by
    rw [htwo, correctGuess_eq (by rw [hfound]; exact hshown)]
    exact timeZone.correct_of_shown hfound
  have hfour : guessAfter timeZone (dateUtc desired) 4 = guessAfter timeZone (dateUtc desired) 2 := by
    rw [guessAfter, guessAfter, hfixed, hfixed]
  refine ⟨_, zonedInstant_eq_some.mpr ⟨rfl, ?_⟩⟩
  rw [hfour, htwo]
  have hera : 1 ≤ (civil (timeZone.shown (timeZone.correct (dateUtc desired)
      (timeZone.correct (dateUtc desired) (dateUtc desired))))).year := by
    rw [hfound, hcivil]
    omega
  rw [datePartsInZone_eq hera, hfound, hcivil]

/-- Where the loop finds an instant, it has read every year as it is shown. -/
lemma readAsShown_of_zonedInstant {t : ℤ} (h : zonedInstant desired timeZone = some t) :
    ReadAsShown timeZone desired := by
  obtain ⟨hformats, hyear⟩ := formatsTo_of_zonedInstant h
  obtain ⟨ht, -⟩ := zonedInstant_eq_some.mp h
  have hvalues : yearSecond 97 = -59106067200 ∧ yearSecond 102 = -58948387200 ∧
      threeDigitYears = -59011459200 ∧ yearSecond (-999) = -93692592000 := by decide
  have hfrom : threeDigitYears ≤ dateUtc desired := by
    rw [dateUtc_of_formatsTo hformats hyear, threeDigitYears, ← year_civil_le_iff, (formatsTo_iff.mp hformats).1]
    exact hyear
  have hkept : ∀ n ≤ 4, ¬Strayed timeZone (guessAfter timeZone (dateUtc desired) n) ∨
      ¬dateUtc desired < yearSecond 102 := by
    intro n hn
    by_contra hboth
    rw [not_or, not_not, not_not] at hboth
    have hstrayed := strayed_guessAfter hboth.2 hn hboth.1
    rw [← ht] at hstrayed
    have hera := year_civil_le_iff.mp hformats.2
    have hvalue : yearSecond 1 = -62135596800 := by decide
    unfold Strayed at hstrayed
    omega
  have hselfNear : Near (dateUtc desired) (dateUtc desired) := by
    unfold Near
    omega
  have hself := shown_near timeZone hselfNear
  have hcorrected := shown_near timeZone (timeZone.correct_near (dateUtc desired) (dateUtc desired))
  have hfirst : threeDigitYears ≤ timeZone.shown (dateUtc desired) := by
    by_contra hearly
    have hwall : dateUtc desired < yearSecond 102 := by omega
    have hstrayed := strays hwall (by omega) (not_le.mp hearly)
    exact (hkept 1 (by omega)).elim (fun h => h hstrayed) (fun h => h hwall)
  refine ⟨hyear, hfirst, ?_⟩
  by_contra hearly
  have hwall : dateUtc desired < yearSecond 102 := by omega
  have hstrayed := strays hwall (by omega) (not_le.mp hearly)
  have hone : guessAfter timeZone (dateUtc desired) 1 = timeZone.correct (dateUtc desired) (dateUtc desired) :=
    correctGuess_eq hfirst
  rw [← hone] at hstrayed
  exact (hkept 2 (by omega)).elim (fun h => h hstrayed) (fun h => h hwall)

/-- Parsing inverts formatting: what is found is formatted as the date-time, and nothing is found exactly
where no instant is formatted so. -/
def Inverts (timeZone : TimeZone) (desired : DateTime) (found : Option ℤ) : Prop :=
  (∀ t, found = some t → FormatsTo timeZone desired t) ∧
    (found = none ↔ ¬∃ t, FormatsTo timeZone desired t)

lemma zonedInstant_inverts_iff : Inverts timeZone desired (zonedInstant desired timeZone) ↔
    ((∃ t, FormatsTo timeZone desired t) → ReadAsShown timeZone desired) := by
  constructor
  · rintro ⟨-, hnone⟩ hexists
    cases hfound : zonedInstant desired timeZone with
    | none => exact (hnone.mp hfound hexists).elim
    | some t => exact readAsShown_of_zonedInstant hfound
  · intro hread
    refine ⟨fun t h => (formatsTo_of_zonedInstant h).1, fun hnone hexists => ?_, fun hnot => ?_⟩
    · obtain ⟨t, ht⟩ := hexists
      obtain ⟨found, hfound⟩ := zonedInstant_of_formatsTo ht (hread ⟨t, ht⟩)
      rw [hnone] at hfound
      cases hfound
    · cases hfound : zonedInstant desired timeZone with
      | none => rfl
      | some t => exact (hnot ⟨t, (formatsTo_of_zonedInstant hfound).1⟩).elim

/-- Parsing inverts formatting exactly where no instant is formatted as the date-time or the loop reads every
year as it is shown. -/
theorem parseZonedDateTime_inverts_iff (h : matchDateTime value = some desired) :
    Inverts timeZone desired (parseZonedDateTime value timeZone) ↔
      ((∃ t, FormatsTo timeZone desired t) → ReadAsShown timeZone desired) := by
  unfold parseZonedDateTime
  rw [h]
  exact zonedInstant_inverts_iff

/-- From the year 101 on parsing inverts formatting in every time zone. -/
theorem parseZonedDateTime_inverts_of_year (h : matchDateTime value = some desired) (hyear : 101 ≤ desired.year) :
    Inverts timeZone desired (parseZonedDateTime value timeZone) := by
  unfold parseZonedDateTime
  rw [h]
  refine zonedInstant_inverts_iff.mpr fun ⟨t, ht⟩ => ?_
  have hwall : yearSecond 101 ≤ dateUtc desired := by
    rw [dateUtc_of_formatsTo ht (by omega), ← year_civil_le_iff, (formatsTo_iff.mp ht).1]
    exact hyear
  have hvalues : yearSecond 101 = -58979923200 ∧ threeDigitYears = -59011459200 := by decide
  have hselfNear : Near (dateUtc desired) (dateUtc desired) := by
    unfold Near
    omega
  have hself := shown_near timeZone hselfNear
  have hcorrected := shown_near timeZone (timeZone.correct_near (dateUtc desired) (dateUtc desired))
  exact ⟨by omega, by omega, by omega⟩

/-- A clock that is put forward by an hour, from five to four hours behind UTC. -/
def springForward : TimeZone where
  offset t := if t < 1710054000 then -18000 else -14400
  bounded t := by split_ifs <;> omega
  separated s t hs ht hst := by
    split_ifs at hs ht <;> omega

/-- Half past one of the night in which the clock goes forward, and half past two, which it leaves out. -/
theorem parseZonedDateTime_inverts_spring :
    Inverts springForward ⟨2024, 3, 10, 1, 30, 0⟩ (parseZonedDateTime "2024-03-10T01:30" springForward) ∧
      parseZonedDateTime "2024-03-10T01:30" springForward = some 1710052200 ∧
      parseZonedDateTime "2024-03-10T02:30" springForward = none :=
  ⟨(parseZonedDateTime_inverts_iff (by with_unfolding_all decide)).mpr fun _ => by with_unfolding_all decide,
    by with_unfolding_all decide,
    by with_unfolding_all decide⟩

/-- UTC. -/
def utcZone : TimeZone where
  offset _ := 0
  bounded _ := by omega
  separated _ _ hs _ _ := (hs rfl).elim

/-- The first of June of the year 50 has an instant, but it is read as one of 1950 and not found. -/
theorem parseZonedDateTime_loses_year :
    matchDateTime "0050-06-01T00:00" = some ⟨50, 6, 1, 0, 0, 0⟩ ∧
      parseZonedDateTime "0050-06-01T00:00" utcZone = none ∧
      FormatsTo utcZone ⟨50, 6, 1, 0, 0, 0⟩ (-60576249600) ∧
      ¬Inverts utcZone ⟨50, 6, 1, 0, 0, 0⟩ (parseZonedDateTime "0050-06-01T00:00" utcZone) := by
  have hnone : parseZonedDateTime "0050-06-01T00:00" utcZone = none := by with_unfolding_all decide
  have hformats : FormatsTo utcZone ⟨50, 6, 1, 0, 0, 0⟩ (-60576249600) := by
    unfold FormatsTo
    with_unfolding_all decide
  exact ⟨by with_unfolding_all decide, hnone, hformats, fun h => h.2.mp hnone ⟨_, hformats⟩⟩

end Inversion

end TradeFramework.Chart
