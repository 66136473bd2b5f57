/-!
# `ForumModeration.Calendar.Date`: dates and day numbers

Dates are those of the Gregorian calendar, extended to all years; the year
before year 1 is year 0. A date has a day number, counted from 1 January 1970.

Counting starts in March, so that the leap day is the last day of a year. Four
hundred years are an era of 146097 days. Within an era the day number of a
year's first day is `365 * y + y / 4 - y / 100`, and the day number of a month's
first day within its year is `(153 * m + 2) / 5`.

* `ofDayNumber_dayNumber`, `dayNumber_ofDayNumber`: day numbers and existing
  dates correspond to each other.
-/

set_option autoImplicit false

namespace ForumModeration

/-- A year, a month counted from 1 and a day counted from 1. -/
structure Date where
  year : Int
  month : Nat
  day : Nat
deriving DecidableEq, Repr

namespace Date

/-- Years divisible by 4 are leap years, except centuries not divisible by 400. -/
def isLeapYear (year : Int) : Bool :=
  year % 4 = 0 && (year % 100 ≠ 0 || year % 400 = 0)

/-- The number of days of a month, none for a month that does not exist. -/
def daysInMonth (year : Int) (month : Nat) : Nat :=
  match month with
  | 1 | 3 | 5 | 7 | 8 | 10 | 12 => 31
  | 4 | 6 | 9 | 11 => 30
  | 2 => if isLeapYear year then 29 else 28
  | _ => 0

/-- Whether the calendar has the date. -/
def Exists (date : Date) : Prop :=
  1 ≤ date.day ∧ date.day ≤ daysInMonth date.year date.month

instance (date : Date) : Decidable date.Exists :=
  inferInstanceAs (Decidable (_ ∧ _))

/-- The number of days from 1 January 1970 to the date. -/
def dayNumber (date : Date) : Int :=
  -- January and February are months 10 and 11 of the year before.
  let year := if date.month ≤ 2 then date.year - 1 else date.year
  let month : Int := if date.month ≤ 2 then date.month + 9 else date.month - 3
  let ofEra := year % 400
  year / 400 * 146097 + (ofEra * 365 + ofEra / 4 - ofEra / 100) + (153 * month + 2) / 5 +
    (date.day - 1) - 719468

/-- The year within an era, and the day within that year, of a day within an
era. A century has 36524 days, the last of an era one more. Four years have
1461 days, the last of them one more than the others. -/
def yearOfEra (day : Int) : Int × Int :=
  -- The bound keeps the last day of an era in the fourth century.
  let century := min (day / 36524) 3
  let ofCentury := day - century * 36524
  let fourYears := ofCentury / 1461
  let ofFourYears := ofCentury - fourYears * 1461
  -- The bound keeps a leap day in the fourth year.
  let year := min (ofFourYears / 365) 3
  (century * 100 + fourYears * 4 + year, ofFourYears - year * 365)

/-- The date of a day number. -/
def ofDayNumber (number : Int) : Date :=
  -- Day 0 of this count is 1 March of year 0.
  let shifted := number + 719468
  let (year, ofYear) := yearOfEra (shifted % 146097)
  let month := (5 * ofYear + 2) / 153
  let day := ofYear - (153 * month + 2) / 5 + 1
  let calendarYear := year + shifted / 146097 * 400
  if month < 10 then ⟨calendarYear, (month + 3).toNat, day.toNat⟩
  else ⟨calendarYear + 1, (month - 9).toNat, day.toNat⟩

/-- A year counted from March within an era has a day 365 only if it ends with a
leap day. -/
private def IsDayOfYear (year day : Int) : Prop :=
  0 ≤ day ∧ (day ≤ 364 ∨ (day = 365 ∧ year % 4 = 3 ∧ (year % 100 ≠ 99 ∨ year = 399)))

private theorem yearOfEra_dayOfEra {year day : Int} (hy : 0 ≤ year ∧ year < 400)
    (hd : IsDayOfYear year day) :
    yearOfEra (year * 365 + year / 4 - year / 100 + day) = (year, day) := by
  -- A year is made of a century, a group of four years and a year within the group.
  obtain ⟨c, q, k, hc, hq, hk, rfl⟩ : ∃ c q k : Int, (0 ≤ c ∧ c ≤ 3) ∧ (0 ≤ q ∧ q ≤ 24) ∧
      (0 ≤ k ∧ k ≤ 3) ∧ year = c * 100 + q * 4 + k :=
    ⟨year / 100, year % 100 / 4, year % 4, by omega, by omega, by omega, by omega⟩
  obtain ⟨hd0, hd1⟩ := hd
  have quarter : (c * 100 + q * 4 + k) / 4 = c * 25 + q := by omega
  have century : (c * 100 + q * 4 + k) / 100 = c := by omega
  have total : (c * 100 + q * 4 + k) * 365 + (c * 100 + q * 4 + k) / 4
      - (c * 100 + q * 4 + k) / 100 + day = c * 36524 + q * 1461 + k * 365 + day := by omega
  have leap : day ≤ 364 ∨ (day = 365 ∧ k = 3 ∧ (q ≠ 24 ∨ c = 3)) := by omega
  -- Each quotient in `yearOfEra` gives back one of the three.
  have c_eq : min ((c * 36524 + q * 1461 + k * 365 + day) / 36524) 3 = c := by omega
  have q_eq : (c * 36524 + q * 1461 + k * 365 + day - c * 36524) / 1461 = q := by omega
  have k_eq : min ((c * 36524 + q * 1461 + k * 365 + day - c * 36524 - q * 1461) / 365) 3 = k := by
    omega
  rw [total]
  simp only [yearOfEra]
  rw [c_eq, q_eq, k_eq, Prod.mk.injEq]
  omega

private theorem dayOfEra_yearOfEra {day : Int} (h : 0 ≤ day ∧ day < 146097) :
    (0 ≤ (yearOfEra day).1 ∧ (yearOfEra day).1 < 400) ∧
      IsDayOfYear (yearOfEra day).1 (yearOfEra day).2 ∧
      (yearOfEra day).1 * 365 + (yearOfEra day).1 / 4 - (yearOfEra day).1 / 100
        + (yearOfEra day).2 = day := by
  -- With names for the quotients, all that is left is linear arithmetic.
  obtain ⟨c, hc⟩ : ∃ c, c = min (day / 36524) 3 := ⟨_, rfl⟩
  obtain ⟨q, hq⟩ : ∃ q, q = (day - c * 36524) / 1461 := ⟨_, rfl⟩
  obtain ⟨k, hk⟩ : ∃ k, k = min ((day - c * 36524 - q * 1461) / 365) 3 := ⟨_, rfl⟩
  have value : yearOfEra day
      = (c * 100 + q * 4 + k, day - c * 36524 - q * 1461 - k * 365) := by
    simp only [yearOfEra, ← hc, ← hq, ← hk]
  have c_bounds : 0 ≤ c ∧ c ≤ 3 ∧ 0 ≤ day - c * 36524 ∧
      (day - c * 36524 < 36524 ∨ c = 3 ∧ day - c * 36524 = 36524) := by omega
  have q_bounds : 0 ≤ q ∧ q ≤ 24 := by omega
  have k_bounds : 0 ≤ k ∧ k ≤ 3 := by omega
  have quarter : (c * 100 + q * 4 + k) / 4 = c * 25 + q := by omega
  have century : (c * 100 + q * 4 + k) / 100 = c := by omega
  rw [value]
  refine ⟨by omega, ⟨by omega, ?_⟩, by omega⟩
  by_cases h365 : day - c * 36524 - q * 1461 - k * 365 ≤ 364
  · exact .inl h365
  · exact .inr ⟨by omega, by omega, by omega⟩

/-- A month that has days is one of the twelve. -/
theorem month_mem_of_daysInMonth {year : Int} {month : Nat} (h : 1 ≤ daysInMonth year month) :
    1 ≤ month ∧ month ≤ 12 := by
  unfold daysInMonth at h
  split at h <;> omega

private theorem isLeapYear_iff (year : Int) :
    isLeapYear year = true ↔ year % 4 = 0 ∧ (year % 100 ≠ 0 ∨ year % 400 = 0) := by
  simp [isLeapYear]

/-- The month and the day within it of a day of a year counted from March. -/
private theorem monthOfYear {month day : Int}
    (h : 1 ≤ day ∧ day ≤ (153 * (month + 1) + 2) / 5 - (153 * month + 2) / 5) :
    (5 * ((153 * month + 2) / 5 + (day - 1)) + 2) / 153 = month := by
  omega

/-- Dates that the calendar has, counted from March: the year, the month and
the day, and that the day of the year they give is one of that year. -/
private theorem marchForm {year : Int} {month day : Nat} (h1 : 1 ≤ day)
    (h2 : day ≤ daysInMonth year month) :
    ∃ y m : Int, y = (if month ≤ 2 then year - 1 else year) ∧
      m = (if month ≤ 2 then (month : Int) + 9 else month - 3) ∧ (0 ≤ m ∧ m ≤ 11) ∧
      (1 ≤ (day : Int) ∧ (day : Int) ≤ (153 * (m + 1) + 2) / 5 - (153 * m + 2) / 5) ∧
      IsDayOfYear (y % 400) ((153 * m + 2) / 5 + (day - 1)) := by
  refine ⟨_, _, rfl, rfl, ?_⟩
  have hm := month_mem_of_daysInMonth (Nat.le_trans h1 h2)
  -- February ends the year, and it is the only month of varying length.
  by_cases february : month = 2
  · subst february
    have length : (day : Int) ≤ 28 ∨ (day = 29 ∧ isLeapYear year = true) := by
      simp only [daysInMonth] at h2
      split at h2
      · rename_i leap
        by_cases day = 29
        · exact .inr ⟨by omega, leap⟩
        · exact .inl (by omega)
      · exact .inl (by omega)
    simp only [isLeapYear_iff] at length
    refine ⟨by simp, by simp; omega, ?_⟩
    simp only [IsDayOfYear, Nat.le_refl, if_true]
    omega
  · have length : day ≤ if month = 4 ∨ month = 6 ∨ month = 9 ∨ month = 11 then 30 else 31 := by
      unfold daysInMonth at h2
      split at h2 <;> simp_all
    have months : month = 1 ∨ month = 3 ∨ month = 4 ∨ month = 5 ∨ month = 6 ∨ month = 7 ∨
        month = 8 ∨ month = 9 ∨ month = 10 ∨ month = 11 ∨ month = 12 := by omega
    unfold IsDayOfYear
    -- For each of the other months both sides are numerals.
    rcases months with rfl | rfl | rfl | rfl | rfl | rfl | rfl | rfl | rfl | rfl | rfl <;>
      simp at length ⊢ <;> omega

/-- The day number of an existing date leads back to it. -/
theorem ofDayNumber_dayNumber {date : Date} (h : date.Exists) :
    ofDayNumber date.dayNumber = date := by
  obtain ⟨year, month, day⟩ := date
  obtain ⟨h1, h2⟩ : 1 ≤ day ∧ day ≤ daysInMonth year month := h
  have hm := month_mem_of_daysInMonth (Nat.le_trans h1 h2)
  obtain ⟨y, m, hy, hmonth, mBounds, dBounds, inYear⟩ := marchForm h1 h2
  have number : dayNumber ⟨year, month, day⟩ + 719468
      = y / 400 * 146097 + (y % 400 * 365 + y % 400 / 4 - y % 400 / 100
          + ((153 * m + 2) / 5 + (day - 1))) := by
    simp only [dayNumber, ← hy, ← hmonth]
    omega
  have dayBounds : 0 ≤ y % 400 * 365 + y % 400 / 4 - y % 400 / 100 + ((153 * m + 2) / 5 + (day - 1))
      ∧ y % 400 * 365 + y % 400 / 4 - y % 400 / 100 + ((153 * m + 2) / 5 + (day - 1)) < 146097 := by
    unfold IsDayOfYear at inYear
    omega
  have ofEra := yearOfEra_dayOfEra (by omega : 0 ≤ y % 400 ∧ y % 400 < 400) inYear
  simp only [ofDayNumber, number]
  -- From here on it only matters which day of the era it is.
  generalize y % 400 * 365 + y % 400 / 4 - y % 400 / 100 + ((153 * m + 2) / 5 + (day - 1)) = e at *
  have e_mod : (y / 400 * 146097 + e) % 146097 = e := by omega
  have e_div : (y / 400 * 146097 + e) / 146097 = y / 400 := by omega
  rw [e_mod, e_div, ofEra]
  simp only [monthOfYear dBounds]
  split <;> simp only [mk.injEq] <;> omega

/-- Every day number is that of a date the calendar has. -/
theorem dayNumber_ofDayNumber (number : Int) :
    (ofDayNumber number).Exists ∧ (ofDayNumber number).dayNumber = number := by
  obtain ⟨yBounds, inYear, total⟩ :=
    @dayOfEra_yearOfEra ((number + 719468) % 146097) (by omega)
  simp only [ofDayNumber]
  rcases halves : yearOfEra ((number + 719468) % 146097) with ⟨y, d⟩
  simp only [halves] at yBounds inYear total ⊢
  obtain ⟨m, hm⟩ : ∃ m, m = (5 * d + 2) / 153 := ⟨_, rfl⟩
  rw [← hm]
  unfold IsDayOfYear at inYear
  obtain ⟨era, hera⟩ : ∃ era, era = (number + 719468) / 146097 := ⟨_, rfl⟩
  have months : m = 0 ∨ m = 1 ∨ m = 2 ∨ m = 3 ∨ m = 4 ∨ m = 5 ∨ m = 6 ∨ m = 7 ∨ m = 8 ∨ m = 9 ∨
      m = 10 ∨ m = 11 := by omega
  rw [← hera]
  have year_mod : (y + era * 400) % 400 = y := by omega
  have year_div : (y + era * 400) / 400 = era := by omega
  rcases months with rfl | rfl | rfl | rfl | rfl | rfl | rfl | rfl | rfl | rfl | rfl | rfl
  -- February: day 365 of a year is 29 February, which makes the year a leap year.
  case inr.inr.inr.inr.inr.inr.inr.inr.inr.inr.inr =>
    have leap : d = 365 → isLeapYear (y + era * 400 + 1) = true := by
      rw [isLeapYear_iff]; omega
    refine ⟨?_, ?_⟩
    · simp only [Exists, daysInMonth]
      by_cases h365 : d = 365
      · simp [leap h365]; omega
      · have : isLeapYear (y + era * 400 + 1) = true ∨ isLeapYear (y + era * 400 + 1) = false := by
          cases isLeapYear (y + era * 400 + 1) <;> simp
        rcases this with h | h <;> simp [h] <;> omega
    · simp [dayNumber, year_mod, year_div]; omega
  -- The other months have the same length in every year.
  all_goals
    refine ⟨?_, ?_⟩
    · simp [Exists, daysInMonth]; omega
    · simp [dayNumber, year_mod, year_div]; omega

end Date

end ForumModeration
