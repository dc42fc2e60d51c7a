import ColdSigner.Proofs.Calendar
import Mathlib.Tactic.IntervalCases
/-!
# The Gregorian calendar

The date of a day is a date of the Gregorian calendar (`Display.Date.isValid_ofDays`), and counting
the days of the years and months before it gives the day again
(`Display.Date.daysBefore_ofDays`). Dates are computed in years that begin in March, where the
leap day is the last one; here each year begins in January.
-/
namespace ColdSigner.Display.Date

/-- The days of a month of a year. What is no month has none. -/
def daysOfMonth (year : Nat) : Nat → Nat
  | 2 => if isLeap year then 29 else 28
  | 4 | 6 | 9 | 11 => 30
  | 1 | 3 | 5 | 7 | 8 | 10 | 12 => 31
  | _ => 0

def daysOfYear (year : Nat) : Nat := if isLeap year then 366 else 365

/-- A date that the calendar has. -/
structure IsValid (date : Date) : Prop where
  one_le_month : 1 ≤ date.month
  month_le : date.month ≤ 12
  one_le_day : 1 ≤ date.day
  day_le : date.day ≤ daysOfMonth date.year date.month

instance (date : Date) : Decidable date.IsValid :=
  decidable_of_iff
    (1 ≤ date.month ∧ date.month ≤ 12 ∧ 1 ≤ date.day ∧
      date.day ≤ daysOfMonth date.year date.month)
    ⟨fun ⟨hFirst, hLast, hStart, hEnd⟩ => ⟨hFirst, hLast, hStart, hEnd⟩,
      fun h => ⟨h.one_le_month, h.month_le, h.one_le_day, h.day_le⟩⟩

/-- The days from the first of January 1970 to a date that is not before it: those of the years
before, those of the months before in the year, and those before in the month. -/
def daysBefore (date : Date) : Nat :=
  ((List.range' 1970 (date.year - 1970)).map daysOfYear).sum +
    ((List.range' 1 (date.month - 1)).map (daysOfMonth date.year)).sum + (date.day - 1)

/-! ## Months and years -/

/-- The months from March to January are as long as they are when they are counted from March. -/
theorem daysToMonth_succ (year : Nat) {marchMonth : Nat} (hMonth : marchMonth < 11) :
    daysToMonth (marchMonth + 1) = daysToMonth marchMonth +
      daysOfMonth year (if marchMonth < 10 then marchMonth + 3 else marchMonth - 9) := by
  interval_cases marchMonth <;> rfl

/-- A year that begins in March ends with February. -/
theorem daysToYear_succ_eq (year : Nat) :
    daysToYear (year + 1) = daysToYear year + daysToMonth 11 + daysOfMonth (year + 1) 2 := by
  rw [daysToYear_succ, Nat.add_assoc, Nat.add_left_cancel_iff]
  show _ = 337 + if isLeap (year + 1) then 29 else 28
  split <;> rfl

theorem daysOfYear_eq (year : Nat) : daysOfYear year = daysToMonth 11 + daysOfMonth year 2 := by
  show (if isLeap year then 366 else 365) = 337 + if isLeap year then 29 else 28
  split <;> rfl

/-- The days from the first of January 1970 to that of a later year. Counted from March, January
begins after 306 days. -/
theorem sum_daysOfYear (count : Nat) :
    ((List.range' 1970 count).map daysOfYear).sum + 719468 = daysToYear (1969 + count) + 306 := by
  induction count with
  | zero => rfl
  | succ count ih =>
      have hNext : 1969 + count + 1 = 1970 + count := by omega
      have hYear : daysToYear (1969 + (count + 1)) =
          daysToYear (1969 + count) + daysOfYear (1970 + count) := by
        rw [← Nat.add_assoc, daysToYear_succ_eq, hNext, daysOfYear_eq, Nat.add_assoc]
      rw [List.range'_1_concat, List.map_append, List.sum_append, List.map_singleton,
        List.sum_singleton, hYear]
      omega

/-- The days of the months before one of those from March on. -/
theorem sum_daysOfMonth (year : Nat) {marchMonth : Nat} (hMonth : marchMonth < 10) :
    ((List.range' 1 (marchMonth + 2)).map (daysOfMonth year)).sum =
      31 + daysOfMonth year 2 + daysToMonth marchMonth := by
  induction marchMonth with
  | zero => rfl
  | succ marchMonth ih =>
      have hThis : 1 + (marchMonth + 2) = marchMonth + 3 := by omega
      have hLength := daysToMonth_succ year (show marchMonth < 11 by omega)
      rw [if_pos (by omega)] at hLength
      rw [Nat.add_right_comm, List.range'_1_concat, List.map_append, List.sum_append,
        List.map_singleton, List.sum_singleton, ih (by omega), hThis, hLength, Nat.add_assoc]

/-! ## The date of a day -/

theorem daysToYear_mono : Monotone daysToYear :=
  monotone_nat_of_le_succ fun year => by
    rw [daysToYear_succ]
    exact Nat.le_add_right _ _

theorem year_ofDays (days : Nat) : 1970 ≤ (ofDays days).year := by
  obtain ⟨marchYear, marchMonth, dayOfMonth, hMonth, hDays, hYear, hDay, hDate⟩ :=
    exists_ofDays_eq days
  have hFirst : daysToYear 1969 = 719162 := rfl
  rw [hDate]
  show 1970 ≤ marchYear + if marchMonth < 10 then 0 else 1
  refine Nat.le_of_not_lt fun hBefore => ?_
  split at hBefore
  · have hStart : daysToYear marchYear ≤ daysToYear 1969 := daysToYear_mono (by omega)
    have hJanuary : daysToMonth (marchMonth + 1) ≤ 306 := by
      unfold daysToMonth
      omega
    omega
  · have hEnd : daysToYear (marchYear + 1) ≤ daysToYear 1969 := daysToYear_mono (by omega)
    omega

theorem isValid_ofDays (days : Nat) : (ofDays days).IsValid := by
  obtain ⟨marchYear, marchMonth, dayOfMonth, hMonth, hDays, hYear, hDay, hDate⟩ :=
    exists_ofDays_eq days
  have hLength : dayOfMonth + 1 ≤
      daysOfMonth (marchYear + if marchMonth < 10 then 0 else 1)
        (if marchMonth < 10 then marchMonth + 3 else marchMonth - 9) := by
    by_cases hLast : marchMonth = 11
    · subst hLast
      show dayOfMonth + 1 ≤ daysOfMonth (marchYear + 1) 2
      rw [daysToYear_succ_eq] at hYear
      omega
    · rw [daysToMonth_succ (marchYear + if marchMonth < 10 then 0 else 1) (by omega)] at hDay
      omega
  rw [hDate]
  refine ⟨?_, ?_, Nat.le_add_left 1 dayOfMonth, hLength⟩
  · show 1 ≤ if marchMonth < 10 then marchMonth + 3 else marchMonth - 9
    split <;> omega
  · show (if marchMonth < 10 then marchMonth + 3 else marchMonth - 9) ≤ 12
    split <;> omega

/-- Only every fourth century begins with a leap year. -/
example : ofDays 11016 = ⟨2000, 2, 29⟩ ∧ (ofDays 11016).IsValid ∧ ¬ IsValid ⟨1900, 2, 29⟩ := by
  decide

/-- The days before the date of a day are the day. -/
theorem daysBefore_ofDays (days : Nat) : (ofDays days).daysBefore = days := by
  have hFirst := year_ofDays days
  obtain ⟨marchYear, marchMonth, dayOfMonth, hMonth, hDays, -, -, hDate⟩ := exists_ofDays_eq days
  rw [hDate] at hFirst ⊢
  by_cases hEarly : marchMonth < 10
  · simp only [if_pos hEarly, Nat.add_zero] at hFirst ⊢
    obtain ⟨count, rfl⟩ : ∃ count, marchYear = 1969 + count + 1 := ⟨marchYear - 1970, by omega⟩
    have hCount : 1969 + count + 1 - 1970 = count := by omega
    have hYears := sum_daysOfYear count
    have hMonths := sum_daysOfMonth (1969 + count + 1) hEarly
    have hMarch : daysToMonth 11 = 337 := rfl
    rw [daysToYear_succ_eq] at hDays
    simp only [daysBefore, hCount, Nat.succ_sub_one, hMonths]
    omega
  · simp only [if_neg hEarly] at hFirst ⊢
    obtain ⟨count, rfl⟩ : ∃ count, marchYear = 1969 + count := ⟨marchYear - 1969, by omega⟩
    have hCount : 1969 + count + 1 - 1970 = count := by omega
    have hYears := sum_daysOfYear count
    have hMonths : ((List.range' 1 (marchMonth - 9 - 1)).map
        (daysOfMonth (1969 + count + 1))).sum + 306 = daysToMonth marchMonth := by
      obtain rfl | rfl : marchMonth = 10 ∨ marchMonth = 11 := by omega
      · rfl
      · rfl
    simp only [daysBefore, hCount, Nat.add_sub_cancel]
    omega

end ColdSigner.Display.Date
