import ColdSigner.Proofs.CheckedIntegers
import ColdSigner.Proofs.CoinAmounts
import ColdSigner.Proofs.GregorianDates
/-!
# What a point in time says

A point in time is shown as the date and the time of day that it has in UTC, down to the second
(`Display.time_utc`). Computed step by step with integers of limited size, with a check after each
step, it is the same one: `Display.checkedTime?_eq`.
-/
namespace ColdSigner.Display

open Number

/-! ## Integers of limited size -/

namespace Date

def checkedYearOfEra (dayOfEra : Checked) : Checked :=
  (dayOfEra - dayOfEra / 1460 + dayOfEra / 36524 - dayOfEra / 146096) / 365

def checkedDayOfYear (dayOfEra yearOfEra : Checked) : Checked :=
  dayOfEra - (365 * yearOfEra + yearOfEra / 4 - yearOfEra / 100)

def checkedMarchMonth (dayOfYear : Checked) : Checked := (5 * dayOfYear + 2) / 153

def checkedDay (dayOfYear marchMonth : Checked) : Checked :=
  dayOfYear - (153 * marchMonth + 2) / 5 + 1

/-- The date so many days after the first of January 1970, computed with integers of 64 bits with a
sign. Its parts are integers of 32 bits without one. There is no date if a step leaves them. -/
def checkedOfDays? (days : Nat) : Option Date := do
  let shifted := Checked.ofInt days + 719468
  let era := shifted.floorDiv 146097
  let dayOfEra := shifted.floorMod 146097
  let yearOfEra := checkedYearOfEra dayOfEra
  let dayOfYear := checkedDayOfYear dayOfEra yearOfEra
  let marchMonth := checkedMarchMonth dayOfYear
  let day ← (checkedDay dayOfYear marchMonth).toUnsigned? 32
  let march ← marchMonth.value?
  let month ← (if march < 10 then marchMonth + 3 else marchMonth - 9).toUnsigned? 32
  let year ← (yearOfEra + era * 400 + (if month ≤ 2 then 1 else 0)).toUnsigned? 32
  return ⟨year, month, day⟩

section

variable {outcome : Checked}

theorem holds_checkedYearOfEra {day : Nat} (hOutcome : outcome.Holds day) (hDay : day < 146097) :
    (checkedYearOfEra outcome).Holds
      ((day - day / 1460 + day / 36524 - day / 146096) / 365) := by
  have hFours := hOutcome.div (Checked.holds_ofNat (show 1460 < 2 ^ 63 by decide)) (by decide)
  have hCenturies := hOutcome.div (Checked.holds_ofNat (show 36524 < 2 ^ 63 by decide)) (by decide)
  have hLast := hOutcome.div (Checked.holds_ofNat (show 146096 < 2 ^ 63 by decide)) (by decide)
  have hYears := ((hOutcome.sub hFours (by omega)).add hCenturies (by omega)).sub hLast (by omega)
  exact hYears.div (Checked.holds_ofNat (show 365 < 2 ^ 63 by decide)) (by decide)

theorem holds_checkedDayOfYear {yearOutcome : Checked} {day year : Nat}
    (hOutcome : outcome.Holds day) (hYearOutcome : yearOutcome.Holds year) (hYear : year < 400)
    (hStart : 365 * year + year / 4 - year / 100 ≤ day) :
    (checkedDayOfYear outcome yearOutcome).Holds
      (day - (365 * year + year / 4 - year / 100)) := by
  have hDays := (Checked.holds_ofNat (show 365 < 2 ^ 63 by decide)).mul hYearOutcome (by omega)
  have hFours := hYearOutcome.div (Checked.holds_ofNat (show 4 < 2 ^ 63 by decide)) (by decide)
  have hCenturies :=
    hYearOutcome.div (Checked.holds_ofNat (show 100 < 2 ^ 63 by decide)) (by decide)
  exact hOutcome.sub ((hDays.add hFours (by omega)).sub hCenturies (by omega)) hStart

theorem holds_checkedMarchMonth {day : Nat} (hOutcome : outcome.Holds day) (hDay : day ≤ 365) :
    (checkedMarchMonth outcome).Holds ((5 * day + 2) / 153) := by
  have hFives := (Checked.holds_ofNat (show 5 < 2 ^ 63 by decide)).mul hOutcome (by omega)
  have hSum := hFives.add (Checked.holds_ofNat (show 2 < 2 ^ 63 by decide)) (by omega)
  exact hSum.div (Checked.holds_ofNat (show 153 < 2 ^ 63 by decide)) (by decide)

theorem holds_checkedDay {monthOutcome : Checked} {day month : Nat}
    (hOutcome : outcome.Holds day) (hMonthOutcome : monthOutcome.Holds month) (hDay : day ≤ 365)
    (hStart : (153 * month + 2) / 5 ≤ day) :
    (checkedDay outcome monthOutcome).Holds (day - (153 * month + 2) / 5 + 1) := by
  have hMonths := (Checked.holds_ofNat (show 153 < 2 ^ 63 by decide)).mul hMonthOutcome (by omega)
  have hSum := hMonths.add (Checked.holds_ofNat (show 2 < 2 ^ 63 by decide)) (by omega)
  have hDays := hSum.div (Checked.holds_ofNat (show 5 < 2 ^ 63 by decide)) (by decide)
  exact (hOutcome.sub hDays hStart).add (Checked.holds_ofNat (show 1 < 2 ^ 63 by decide)) (by omega)

/-- The month of the calendar is known as soon as the one counted from March is. -/
theorem toUnsigned?_month {month : Nat} (hOutcome : outcome.Holds month) (hMonth : month < 12) :
    (if (month : Int) < 10 then outcome + 3 else outcome - 9).toUnsigned? 32 =
      some (if month < 10 then month + 3 else month - 9) := by
  by_cases hEarly : month < 10
  · have hSum := hOutcome.add (Checked.holds_ofNat (show 3 < 2 ^ 63 by decide)) (by omega)
    rw [if_pos (by omega), if_pos hEarly]
    exact hSum.toUnsigned? (by omega)
  · have hRest := hOutcome.sub (Checked.holds_ofNat (show 9 < 2 ^ 63 by decide)) (by omega)
    rw [if_neg (by omega), if_neg hEarly]
    exact hRest.toUnsigned? (by omega)

/-- January and February belong to the year after the one that began in March. -/
theorem toUnsigned?_year {year : Nat} (hOutcome : outcome.Holds year) (hYear : year < 2 ^ 31)
    (month : Nat) :
    (outcome + if month ≤ 2 then 1 else 0).toUnsigned? 32 =
      some (year + if month ≤ 2 then 1 else 0) := by
  by_cases hEarly : month ≤ 2
  · have hSum := hOutcome.add (Checked.holds_ofNat (show 1 < 2 ^ 63 by decide)) (by omega)
    rw [if_pos hEarly, if_pos hEarly]
    exact hSum.toUnsigned? (by omega)
  · have hSum := hOutcome.add (Checked.holds_ofNat (show 0 < 2 ^ 63 by decide)) (by omega)
    rw [if_neg hEarly, if_neg hEarly]
    exact hSum.toUnsigned? (by omega)

end

/-- A date that is not too far ahead is computed without leaving the integers. -/
theorem checkedOfDays?_eq {days : Nat} (hDays : days < 2 ^ 38) :
    checkedOfDays? days = some (ofDays days) := by
  have hShifted := (Checked.holds_ofInt (show days < 2 ^ 63 by omega)).add
    (Checked.holds_ofNat (show 719468 < 2 ^ 63 by decide)) (by omega)
  have hEra := hShifted.floorDiv (Checked.holds_ofNat (show 146097 < 2 ^ 63 by decide)) (by decide)
  have hDayOfEra :=
    hShifted.floorMod (Checked.holds_ofNat (show 146097 < 2 ^ 63 by decide)) (by decide)
  have hDayBound : (days + 719468) % 146097 < 146097 := Nat.mod_lt _ (by decide)
  have hYearOfEra := holds_checkedYearOfEra hDayOfEra hDayBound
  obtain ⟨yearOfEra, hYear, hYearBound, hYearLeast, hYearMost⟩ := year_of_era hDayBound
  rw [hYear] at hYearOfEra
  have hDayOfYearBound := dayOfYear_le hYearBound hYearMost
  have hDayOfYear := holds_checkedDayOfYear hDayOfEra hYearOfEra hYearBound hYearLeast
  have hMarchMonth := holds_checkedMarchMonth hDayOfYear hDayOfYearBound
  obtain ⟨marchMonth, hMonth, hMonthBound, hMonthLeast, hMonthMost⟩ := month_of_year hDayOfYearBound
  rw [hMonth] at hMarchMonth
  have hDay := holds_checkedDay hDayOfYear hMarchMonth hDayOfYearBound hMonthLeast
  have hYears := hYearOfEra.add
    (hEra.mul (Checked.holds_ofNat (show 400 < 2 ^ 63 by decide)) (by omega)) (by omega)
  have hYearValue := toUnsigned?_year hYears (by omega)
  have hDayValue := hDay.toUnsigned? (show _ < 2 ^ 32 by omega)
  have hMarchValue : (checkedMarchMonth _).value? = some (marchMonth : Int) := hMarchMonth
  simp only [checkedOfDays?, hDayValue, hMarchValue, toUnsigned?_month hMarchMonth hMonthBound,
    hYearValue, Option.bind_eq_bind, Option.bind_some]
  simp only [ofDays, hYear, hMonth]
  rfl

end Date

/-- Two digits of a value, their codes computed with integers of eight bits. -/
def checkedTwoDigits? (value : Nat) : Option (List Char) := do
  let tens ← unsigned? 8 (value / 10 % 10 : Nat)
  let ones ← unsigned? 8 (value % 10 : Nat)
  let first ← unsigned? 8 (0x30 + tens : Nat)
  let second ← unsigned? 8 (0x30 + ones : Nat)
  return [Char.ofNat first, Char.ofNat second]

theorem checkedTwoDigits?_eq (value : Nat) :
    checkedTwoDigits? value = some (twoDigits value) := by
  have hTens := unsigned?_eq (show value / 10 % 10 < 2 ^ 8 by omega)
  have hOnes := unsigned?_eq (show value % 10 < 2 ^ 8 by omega)
  have hFirst := unsigned?_eq (show 0x30 + value / 10 % 10 < 2 ^ 8 by omega)
  have hSecond := unsigned?_eq (show 0x30 + value % 10 < 2 ^ 8 by omega)
  simp only [checkedTwoDigits?, hTens, hOnes, hFirst, hSecond, Option.bind_eq_bind,
    Option.bind_some]
  rfl

/-- A point in time, given in milliseconds, computed with integers of limited size. There is no text
if a step leaves them. -/
def checkedTime? (capacity : Nat) (milliseconds : UInt64) : Option String := do
  let seconds := milliseconds.toNat / 1000
  let rest := seconds % 86400
  let date ← Date.checkedOfDays? (seconds / 86400)
  let month ← checkedTwoDigits? date.month
  let day ← checkedTwoDigits? date.day
  let hour ← unsigned? 32 (rest / 3600 : Nat)
  let hours ← checkedTwoDigits? hour
  let minute ← unsigned? 32 (rest % 3600 / 60 : Nat)
  let minutes ← checkedTwoDigits? minute
  let second ← unsigned? 32 (rest % 60 : Nat)
  let seconds ← checkedTwoDigits? second
  return fit capacity (String.ofList
    (Decimal.chars date.year ++ '-' :: month ++ '-' :: day ++ ' ' :: hours ++ ':' :: minutes ++
      ':' :: seconds ++ " UTC".toList))

/-- No step of a point in time leaves its integers, and what it comes to is what is shown. -/
theorem checkedTime?_eq (capacity : Nat) (milliseconds : UInt64) :
    checkedTime? capacity milliseconds = some (time capacity milliseconds) := by
  have hMilliseconds := milliseconds.toNat_lt
  have hDate := Date.checkedOfDays?_eq
    (show milliseconds.toNat / 1000 / 86400 < 2 ^ 38 by omega)
  generalize hSeconds : milliseconds.toNat / 1000 = seconds at hDate
  have hHour := unsigned?_eq (show seconds % 86400 / 3600 < 2 ^ 32 by omega)
  have hMinute := unsigned?_eq (show seconds % 86400 % 3600 / 60 < 2 ^ 32 by omega)
  have hSecond := unsigned?_eq (show seconds % 86400 % 60 < 2 ^ 32 by omega)
  simp only [checkedTime?, hSeconds, hDate, hHour, hMinute, hSecond, checkedTwoDigits?_eq,
    Option.bind_eq_bind, Option.bind_some, time, timeChars]
  rfl

/-! ## The text -/

/-- Two digits that stand for a number. -/
structure IsTwoDigits (text : List Char) (value : Nat) : Prop where
  length_eq : text.length = 2
  reads : Decimal.ofChars? text = some value

theorem isTwoDigits_twoDigits {value : Nat} (hValue : value < 100) :
    IsTwoDigits (twoDigits value) value where
  length_eq := rfl
  reads := by
    have hDigits : twoDigits value = Decimal.lastChars 2 value := rfl
    rw [hDigits, ← Decimal.zeros_append_chars (by decide) hValue, Decimal.ofChars?_zeros_append]

/-- A date with its year in full, and with two digits for its month and for its day. -/
def IsDateText (text : List Char) (date : Date) : Prop :=
  ∃ year month day, Decimal.IsNumeral year date.year ∧ IsTwoDigits month date.month ∧
    IsTwoDigits day date.day ∧ text = year ++ '-' :: month ++ '-' :: day

structure TimeOfDay where
  hour : Nat
  minute : Nat
  second : Nat
  hour_lt : hour < 24
  minute_lt : minute < 60
  second_lt : second < 60

/-- The seconds since midnight. -/
def TimeOfDay.toSeconds (clock : TimeOfDay) : Nat :=
  3600 * clock.hour + 60 * clock.minute + clock.second

/-- A time of day with two digits for each of its parts. -/
def IsClockText (text : List Char) (clock : TimeOfDay) : Prop :=
  ∃ hour minute second, IsTwoDigits hour clock.hour ∧ IsTwoDigits minute clock.minute ∧
    IsTwoDigits second clock.second ∧ text = hour ++ ':' :: minute ++ ':' :: second

theorem isDateText_ofDays (days : Nat) :
    IsDateText (Decimal.chars (Date.ofDays days).year ++
      '-' :: twoDigits (Date.ofDays days).month ++ '-' :: twoDigits (Date.ofDays days).day)
      (Date.ofDays days) := by
  obtain ⟨hMonth, hDay, -⟩ := Date.ofDays_bounds days
  exact ⟨_, _, _, Decimal.isNumeral_chars _, isTwoDigits_twoDigits hMonth,
    isTwoDigits_twoDigits hDay, rfl⟩

theorem exists_isClockText {seconds : Nat} (hSeconds : seconds < 86400) :
    ∃ clock : TimeOfDay, clock.toSeconds = seconds ∧
      IsClockText (twoDigits (seconds / 3600) ++ ':' :: twoDigits (seconds % 3600 / 60) ++
        ':' :: twoDigits (seconds % 60)) clock := by
  refine ⟨⟨seconds / 3600, seconds % 3600 / 60, seconds % 60, by omega, by omega, by omega⟩, ?_,
    _, _, _, isTwoDigits_twoDigits ?_, isTwoDigits_twoDigits ?_, isTwoDigits_twoDigits ?_, rfl⟩
  · show 3600 * (seconds / 3600) + 60 * (seconds % 3600 / 60) + seconds % 60 = seconds
    omega
  · show seconds / 3600 < 100
    omega
  · show seconds % 3600 / 60 < 100
    omega
  · show seconds % 60 < 100
    omega

/-- Any number of milliseconds is shown, where there is room for 84 bytes, as a date of the calendar
and a time of day. From the beginning of 1970 to the date there are as many days as there are whole
days in the milliseconds, and the time of day is what is left of the whole seconds. No step on the
way leaves the integers of 64 and of 32 bits. Two points in time look alike exactly if they are in
the same second. -/
theorem time_utc {capacity : Nat} (hRoom : 84 ≤ capacity) (milliseconds : UInt64) :
    (∃ date : Date, ∃ clock : TimeOfDay, ∃ dateText clockText,
      date.IsValid ∧ 1970 ≤ date.year ∧ date.daysBefore = milliseconds.toNat / 86400000 ∧
        clock.toSeconds = milliseconds.toNat / 1000 % 86400 ∧
        IsDateText dateText date ∧ IsClockText clockText clock ∧
        time capacity milliseconds =
          String.ofList (dateText ++ ' ' :: clockText ++ " UTC".toList)) ∧
      checkedTime? capacity milliseconds = some (time capacity milliseconds) ∧
      ∀ (otherCapacity : Nat) (other : UInt64), 84 ≤ otherCapacity →
        (time capacity milliseconds = time otherCapacity other ↔
          milliseconds.toNat / 1000 = other.toNat / 1000) := by
  refine ⟨?_, checkedTime?_eq capacity milliseconds, fun otherCapacity other hOther => ?_⟩
  · have hDays : milliseconds.toNat / 86400000 = milliseconds.toNat / 1000 / 86400 := by
      rw [Nat.div_div_eq_div_mul]
    obtain ⟨clock, hClock, hClockText⟩ :=
      exists_isClockText (Nat.mod_lt (milliseconds.toNat / 1000) (show 86400 > 0 by decide))
    refine ⟨_, clock, _, _, Date.isValid_ofDays _, Date.year_ofDays _, ?_, hClock,
      isDateText_ofDays (milliseconds.toNat / 1000 / 86400), hClockText, ?_⟩
    · rw [Date.daysBefore_ofDays, hDays]
    · rw [time_eq_ofList hRoom]
      simp only [timeChars, List.append_assoc, List.cons_append]
  · rw [time_eq_ofList hRoom, time_eq_ofList hOther, String.ofList_inj, timeChars_inj]

/-- The last millisecond that there is a number for. -/
theorem time_utc_last :
    84 ≤ 84 ∧ time 84 18446744073709551615 = "584556019-04-03 14:25:51 UTC" ∧
      (∃ date : Date, date.IsValid ∧ date.daysBefore = 213503982334) ∧
      checkedTime? 84 18446744073709551615 = some "584556019-04-03 14:25:51 UTC" := by
  have hText : time 84 18446744073709551615 = "584556019-04-03 14:25:51 UTC" := by decide +kernel
  obtain ⟨⟨date, -, -, -, hValid, -, hDays, -⟩, hChecked, -⟩ :=
    time_utc (Nat.le_refl 84) 18446744073709551615
  exact ⟨Nat.le_refl 84, hText, ⟨date, hValid, hDays⟩, hText ▸ hChecked⟩

end ColdSigner.Display
