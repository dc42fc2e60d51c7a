import ColdSigner.Display.Time
/-!
# Dates and days

A date says which day it is: counting the days up to it leads back (`Date.toDays_ofDays`). Years
begin in March here, as they do where dates are computed, so that a leap day ends its year.
-/
namespace ColdSigner.Display

namespace Date

/-- The days from the beginning of the year zero, which is in March, to the beginning of
another year. -/
def daysToYear (year : Nat) : Nat := 365 * year + year / 4 - year / 100 + year / 400

/-- The days from the beginning of a year to the beginning of a month, with March as the month
zero. -/
def daysToMonth (marchMonth : Nat) : Nat := (153 * marchMonth + 2) / 5

/-- Every fourth year has a leap day, but of the years that end a century only every fourth one. -/
def isLeap (year : Nat) : Bool := year % 4 == 0 && (year % 100 != 0 || year % 400 == 0)

theorem daysToYear_succ (year : Nat) :
    daysToYear (year + 1) = daysToYear year + if isLeap (year + 1) then 366 else 365 := by
  have hFours : (year + 1) / 4 = year / 4 + if (year + 1) % 4 = 0 then 1 else 0 := by
    split <;> omega
  have hHundreds : (year + 1) / 100 = year / 100 + if (year + 1) % 100 = 0 then 1 else 0 := by
    split <;> omega
  have hEras : (year + 1) / 400 = year / 400 + if (year + 1) % 400 = 0 then 1 else 0 := by
    split <;> omega
  simp only [daysToYear, isLeap, hFours, hHundreds, hEras, Bool.and_eq_true, Bool.or_eq_true,
    beq_iff_eq, bne_iff_ne]
  grind

/-- The days from the first of January 1970 to a date. -/
def toDays (date : Date) : Nat :=
  if date.month ≤ 2 then
    daysToYear (date.year - 1) + daysToMonth (date.month + 9) + date.day - 1 - 719468
  else
    daysToYear date.year + daysToMonth (date.month - 3) + date.day - 1 - 719468

/-- In a century that begins `24 * century` days late in the count of leap days by four years. -/
theorem year_of_century {century day : Nat} (hCentury : century ≤ 3) (hDay : day < 36524) :
    ∃ year, (day - (24 * century + day) / 1460) / 365 = year ∧ year < 100 ∧
      365 * year + year / 4 ≤ day ∧ day < 365 * (year + 1) + (year + 1) / 4 := by
  generalize hLeap : (24 * century + day) / 1460 = leap
  refine ⟨_, rfl, ?_⟩
  generalize hYear : (day - leap) / 365 = year
  have hLeast : year / 4 ≤ leap := by
    have : 1460 * (year / 4) ≤ 24 * century + day := by omega
    omega
  have hMost : leap ≤ year / 4 + 1 := by omega
  omega

/-- The year of an era of 400 years that a day of it belongs to. -/
theorem year_of_era {day : Nat} (hDay : day < 146097) :
    ∃ year, (day - day / 1460 + day / 36524 - day / 146096) / 365 = year ∧ year < 400 ∧
      365 * year + year / 4 - year / 100 ≤ day ∧ day < daysToYear (year + 1) := by
  by_cases hLast : day = 146096
  · subst hLast
    exact ⟨399, by decide⟩
  · obtain ⟨century, rest, rfl, hRest, hCentury⟩ : ∃ century rest,
        day = 36524 * century + rest ∧ rest < 36524 ∧ century < 4 :=
      ⟨day / 36524, day % 36524, by omega, by omega, by omega⟩
    obtain ⟨year, hYear, hBound, hLeast, hMost⟩ :=
      year_of_century (Nat.le_of_lt_succ hCentury) hRest
    -- Each century has 25 times 1460 days and 24 more.
    have hLeap : (36524 * century + rest) / 1460 = 25 * century + (24 * century + rest) / 1460 := by
      omega
    have hCentury : (36524 * century + rest) / 36524 = century := by omega
    have hEra : (36524 * century + rest) / 146096 = 0 := by omega
    have hFours : (100 * century + year) / 4 = 25 * century + year / 4 := by omega
    have hHundreds : (100 * century + year) / 100 = century := by omega
    have hNextFours : (100 * century + year + 1) / 4 = 25 * century + (year + 1) / 4 := by omega
    have hNext : 36524 * century + rest < daysToYear (100 * century + year + 1) := by
      rw [daysToYear, hNextFours]
      by_cases hFull : year = 99
      · omega
      · have hNextHundreds : (100 * century + year + 1) / 100 = century := by omega
        omega
    refine ⟨100 * century + year, ?_, by omega, by omega, hNext⟩
    rw [hLeap, hCentury, hEra]
    generalize hDays : (24 * century + rest) / 1460 = leap at hYear
    omega

theorem dayOfYear_le {day year : Nat} (hYear : year < 400) (hDay : day < daysToYear (year + 1)) :
    day - (365 * year + year / 4 - year / 100) ≤ 365 := by
  have hStart : daysToYear year = 365 * year + year / 4 - year / 100 := by
    unfold daysToYear
    omega
  rw [daysToYear_succ, hStart] at hDay
  split at hDay <;> omega

/-- The month of a year that begins in March. -/
theorem month_of_year {day : Nat} (hDay : day ≤ 365) :
    ∃ month, (5 * day + 2) / 153 = month ∧ month < 12 ∧ daysToMonth month ≤ day ∧
      day < daysToMonth (month + 1) := by
  refine ⟨_, rfl, ?_⟩
  unfold daysToMonth
  omega

theorem daysToYear_add_eras {year : Nat} (hYear : year ≤ 400) (era : Nat) :
    daysToYear (year + era * 400) = daysToYear year + 146097 * era := by
  unfold daysToYear
  omega

/-- What is behind a date, with the parts named that it is computed from. It is a day of a year that
begins in March, and of a month of that year. -/
theorem exists_ofDays_eq (days : Nat) :
    ∃ marchYear marchMonth dayOfMonth, marchMonth < 12 ∧
      days + 719468 = daysToYear marchYear + daysToMonth marchMonth + dayOfMonth ∧
      days + 719468 < daysToYear (marchYear + 1) ∧
      daysToMonth marchMonth + dayOfMonth < daysToMonth (marchMonth + 1) ∧
      ofDays days =
        { year := marchYear + (if marchMonth < 10 then 0 else 1)
          month := if marchMonth < 10 then marchMonth + 3 else marchMonth - 9
          day := dayOfMonth + 1 } := by
  obtain ⟨yearOfEra, hYear, hYearBound, hYearLeast, hYearMost⟩ :=
    year_of_era (Nat.mod_lt (days + 719468) (show 146097 > 0 by decide))
  have hStart : daysToYear yearOfEra = 365 * yearOfEra + yearOfEra / 4 - yearOfEra / 100 := by
    unfold daysToYear
    omega
  obtain ⟨marchMonth, hMonth, hMonthBound, hMonthLeast, hMonthMost⟩ :=
    month_of_year (dayOfYear_le hYearBound hYearMost)
  refine ⟨yearOfEra + (days + 719468) / 146097 * 400, marchMonth,
    (days + 719468) % 146097 - (365 * yearOfEra + yearOfEra / 4 - yearOfEra / 100) -
      daysToMonth marchMonth, hMonthBound, ?_, ?_, by omega, ?_⟩
  · rw [daysToYear_add_eras (by omega), hStart]
    omega
  · rw [Nat.add_right_comm, daysToYear_add_eras (by omega)]
    omega
  · simp only [ofDays, hYear, hMonth, daysToMonth]
    congr 1
    split <;> split <;> omega

/-- The days to a date lead back to it. -/
theorem toDays_ofDays (days : Nat) : toDays (ofDays days) = days := by
  obtain ⟨marchYear, marchMonth, dayOfMonth, hMonth, hDays, -, -, hDate⟩ := exists_ofDays_eq days
  rw [hDate, toDays]
  by_cases hEarly : marchMonth < 10
  · simp only [if_pos hEarly]
    rw [if_neg (by omega), Nat.add_zero, Nat.add_sub_cancel]
    omega
  · simp only [if_neg hEarly]
    rw [if_pos (by omega), Nat.add_sub_cancel, show marchMonth - 9 + 9 = marchMonth by omega]
    omega

end Date

end ColdSigner.Display
