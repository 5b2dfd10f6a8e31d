import Mathlib.Tactic.Linarith
import Mathlib.Tactic.IntervalCases

/-!
# The proleptic Gregorian calendar

The days and the seconds since 1970-01-01, and the dates and times that they name.
-/

namespace CivilCalendar

section Days

def isLeap (year : ℤ) : Bool := year % 4 = 0 && (year % 100 ≠ 0 || year % 400 = 0)

/-- The number of leap days before a year, from year 0 on. -/
def leapDays (year : ℤ) : ℤ := (year + 3) / 4 - (year + 99) / 100 + (year + 399) / 400

/-- The day of the first of January. -/
def yearStart (year : ℤ) : ℤ := 365 * year + leapDays year - 719528

/-- The days of a year before the first of a month. -/
def monthStart (leap : Bool) (month : ℤ) : ℤ :=
  (367 * month - 362) / 12 - if month ≤ 2 then 0 else if leap then 1 else 2

example : [1, 2, 3, 4, 5, 6, 7, 8, 9, 10, 11, 12].map (monthStart false) =
    [0, 31, 59, 90, 120, 151, 181, 212, 243, 273, 304, 334] := by decide

/-- The year of a day: a quotient that is off by one year at most. -/
def yearOf (day : ℤ) : ℤ :=
  let year := 400 * (day + 719528) / 146097
  if day < yearStart year then year - 1 else if yearStart (year + 1) ≤ day then year + 1 else year

/-- The month of a day of a year. -/
def monthOf (leap : Bool) (dayOfYear : ℤ) : ℤ :=
  let shifted := dayOfYear + if dayOfYear < (if leap then 60 else 59) then 0 else if leap then 1 else 2
  (12 * shifted + 373) / 367

lemma yearStart_succ (year : ℤ) : yearStart (year + 1) = yearStart year + if isLeap year then 366 else 365 := by
  have hleap : leapDays (year + 1) = leapDays year + if isLeap year then 1 else 0 := by
    unfold leapDays isLeap
    split_ifs with h
    · simp only [Bool.and_eq_true, Bool.or_eq_true, decide_eq_true_eq] at h
      omega
    · simp only [Bool.and_eq_true, Bool.or_eq_true, decide_eq_true_eq, not_and_or, not_or] at h
      omega
  unfold yearStart
  rw [hleap]
  split_ifs <;> omega

lemma yearStart_le {a b : ℤ} (h : a ≤ b) : yearStart a + 365 * (b - a) ≤ yearStart b := by
  unfold yearStart leapDays
  omega

lemma yearOf_spec (day : ℤ) : yearStart (yearOf day) ≤ day ∧ day < yearStart (yearOf day + 1) := by
  unfold yearOf
  dsimp only
  split_ifs with hbelow habove
  · refine ⟨?_, by rwa [Int.sub_add_cancel]⟩
    unfold yearStart leapDays at *
    omega
  · refine ⟨habove, ?_⟩
    unfold yearStart leapDays at *
    omega
  · exact ⟨not_lt.mp hbelow, not_le.mp habove⟩

lemma year_le_iff {day year : ℤ} : year ≤ yearOf day ↔ yearStart year ≤ day := by
  obtain ⟨hstart, hend⟩ := yearOf_spec day
  constructor
  · intro h
    have hle := yearStart_le h
    omega
  · intro h
    by_contra hlt
    have hle := yearStart_le (show yearOf day + 1 ≤ year by omega)
    omega

/-- The month of a day of a year, and the place of the day in the month, which has no more than 31 days. -/
lemma monthOf_spec {leap : Bool} {dayOfYear : ℤ} (h : 0 ≤ dayOfYear)
    (hlt : dayOfYear < if leap then 366 else 365) :
    1 ≤ monthOf leap dayOfYear ∧ monthOf leap dayOfYear ≤ 12 ∧
      monthStart leap (monthOf leap dayOfYear) ≤ dayOfYear ∧
      dayOfYear < monthStart leap (monthOf leap dayOfYear) + 31 := by
  cases leap with
  | false =>
    simp only [monthOf, monthStart, Bool.false_eq_true, if_false] at *
    split_ifs <;> omega
  | true =>
    simp only [monthOf, monthStart, if_true] at *
    split_ifs <;> omega

lemma monthStart_leap (a b : Bool) (month : ℤ) :
    monthStart a month ≤ monthStart b month + 1 := by
  unfold monthStart
  split_ifs <;> omega

end Days

section Seconds

/-- A date and a time of day. -/
structure DateTime where
  year : ℤ
  month : ℤ
  day : ℤ
  hour : ℤ
  minute : ℤ
  second : ℤ
deriving DecidableEq, Repr

/-- The same month, day and time of another year. -/
def DateTime.withYear (d : DateTime) (year : ℤ) : DateTime := { d with year := year }

@[simp] lemma DateTime.withYear_self (d : DateTime) : d.withYear d.year = d := rfl

@[simp] lemma DateTime.year_withYear (d : DateTime) (year : ℤ) : (d.withYear year).year = year := rfl

@[simp] lemma DateTime.withYear_withYear (d : DateTime) (first second : ℤ) :
    (d.withYear first).withYear second = d.withYear second := rfl

/-- The day of a date; months outside of 1 to 12 run into the years around, days into the months. -/
def dayOf (year month day : ℤ) : ℤ :=
  let carried := year + (month - 1) / 12
  yearStart carried + monthStart (isLeap carried) ((month - 1) % 12 + 1) + day - 1

/-- The second that a date and time names. -/
def DateTime.seconds (d : DateTime) : ℤ :=
  86400 * dayOf d.year d.month d.day + 3600 * d.hour + 60 * d.minute + d.second

/-- The date and time of a second. -/
def civil (t : ℤ) : DateTime :=
  let day := t / 86400
  let year := yearOf day
  let dayOfYear := day - yearStart year
  let month := monthOf (isLeap year) dayOfYear
  { year := year
    month := month
    day := dayOfYear - monthStart (isLeap year) month + 1
    hour := t % 86400 / 3600
    minute := t % 3600 / 60
    second := t % 60 }

/-- The second at which a year begins. -/
def yearSecond (year : ℤ) : ℤ := 86400 * yearStart year

lemma year_civil_le_iff {t year : ℤ} : year ≤ (civil t).year ↔ yearSecond year ≤ t := by
  have hday : (civil t).year = yearOf (t / 86400) := rfl
  rw [hday, year_le_iff, yearSecond]
  omega

lemma yearSecond_le {a b : ℤ} (h : a ≤ b) : yearSecond a + 31536000 * (b - a) ≤ yearSecond b := by
  have hle := yearStart_le h
  unfold yearSecond
  omega

/-- The day of the year lies in the year. -/
lemma dayOfYear_bounds (day : ℤ) : 0 ≤ day - yearStart (yearOf day) ∧
    day - yearStart (yearOf day) < if isLeap (yearOf day) then 366 else 365 := by
  obtain ⟨hstart, hend⟩ := yearOf_spec day
  rw [yearStart_succ] at hend
  omega

lemma month_civil (t : ℤ) : 1 ≤ (civil t).month ∧ (civil t).month ≤ 12 := by
  obtain ⟨hfrom, hto⟩ := dayOfYear_bounds (t / 86400)
  obtain ⟨hlow, hhigh, -⟩ := monthOf_spec hfrom hto
  exact ⟨hlow, hhigh⟩

lemma day_civil (t : ℤ) : 1 ≤ (civil t).day ∧ (civil t).day ≤ 31 := by
  obtain ⟨hfrom, hto⟩ := dayOfYear_bounds (t / 86400)
  obtain ⟨-, -, hstart, hend⟩ := monthOf_spec hfrom hto
  unfold civil
  dsimp only
  omega

lemma time_civil (t : ℤ) : 0 ≤ (civil t).hour ∧ (civil t).hour ≤ 23 ∧ 0 ≤ (civil t).minute ∧
    (civil t).minute ≤ 59 := by
  unfold civil
  dsimp only
  omega

/-- A second with its month and day put into another year, up to a day. -/
lemma seconds_otherYear (t year : ℤ) : ∃ d : ℤ, -1 ≤ d ∧ d ≤ 1 ∧
    ((civil t).withYear year).seconds =
      t - yearSecond (civil t).year + yearSecond year + 86400 * d := by
  obtain ⟨hlow, hhigh⟩ := month_civil t
  have hcarry : ((civil t).month - 1) / 12 = 0 ∧ ((civil t).month - 1) % 12 + 1 = (civil t).month := by omega
  refine ⟨monthStart (isLeap year) (civil t).month - monthStart (isLeap (civil t).year) (civil t).month, ?_, ?_, ?_⟩
  · have h := monthStart_leap (isLeap (civil t).year) (isLeap year) (civil t).month
    omega
  · have h := monthStart_leap (isLeap year) (isLeap (civil t).year) (civil t).month
    omega
  · unfold DateTime.seconds dayOf DateTime.withYear
    dsimp only
    rw [hcarry.1, hcarry.2, Int.add_zero]
    unfold yearSecond
    have hday : (civil t).day = t / 86400 - yearStart (civil t).year -
      monthStart (isLeap (civil t).year) (civil t).month + 1 := rfl
    have htime : 3600 * (civil t).hour + 60 * (civil t).minute + (civil t).second = t % 86400 := by
      unfold civil
      dsimp only
      omega
    omega

/-- The date and time of a second names that second. -/
theorem seconds_civil (t : ℤ) : (civil t).seconds = t := by
  obtain ⟨hlow, hhigh⟩ := month_civil t
  have hcarry : ((civil t).month - 1) / 12 = 0 ∧ ((civil t).month - 1) % 12 + 1 = (civil t).month := by omega
  unfold DateTime.seconds dayOf
  rw [hcarry.1, hcarry.2, Int.add_zero]
  unfold civil
  dsimp only
  omega

end Seconds

end CivilCalendar
