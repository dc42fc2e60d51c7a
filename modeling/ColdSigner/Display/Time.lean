import ColdSigner.Display.Value
/-!
# Points in time

A number of milliseconds since the beginning of 1970 as date and time of day in UTC. Dates are
counted in eras of 400 years that begin on the first of March, so that the leap day is the last
day of a year.
-/
namespace ColdSigner.Display

open Number

structure Date where
  year : Nat
  month : Nat
  day : Nat
  deriving DecidableEq, Repr

/-- The date so many days after the first of January 1970. -/
def Date.ofDays (days : Nat) : Date :=
  let shifted := days + 719468
  let era := shifted / 146097
  let dayOfEra := shifted % 146097
  let yearOfEra := (dayOfEra - dayOfEra / 1460 + dayOfEra / 36524 - dayOfEra / 146096) / 365
  let dayOfYear := dayOfEra - (365 * yearOfEra + yearOfEra / 4 - yearOfEra / 100)
  let marchMonth := (5 * dayOfYear + 2) / 153
  let month := if marchMonth < 10 then marchMonth + 3 else marchMonth - 9
  { year := yearOfEra + era * 400 + (if month ≤ 2 then 1 else 0)
    month
    day := dayOfYear - (153 * marchMonth + 2) / 5 + 1 }

def twoDigits (value : Nat) : List Char :=
  [Decimal.digit (value / 10 % 10), Decimal.digit (value % 10)]

/-- The characters of a point in time, given in seconds. -/
def timeChars (seconds : Nat) : List Char :=
  let date := Date.ofDays (seconds / 86400)
  let rest := seconds % 86400
  Decimal.chars date.year ++ '-' :: twoDigits date.month ++ '-' :: twoDigits date.day ++
    ' ' :: twoDigits (rest / 3600) ++ ':' :: twoDigits (rest % 3600 / 60) ++
    ':' :: twoDigits (rest % 60) ++ " UTC".toList

/-- A point in time, given in milliseconds. -/
def time (capacity : Nat) (milliseconds : UInt64) : String :=
  fit capacity (String.ofList (timeChars (milliseconds.toNat / 1000)))

end ColdSigner.Display
