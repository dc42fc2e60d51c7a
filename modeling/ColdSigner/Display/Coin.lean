import ColdSigner.Display.Value
/-!
# Amounts of the coin

The smallest unit of the coin is 10 ^ -18. An amount is shown with up to six decimals and never
rounded up; what is too small to be seen, though not zero, is shown as less than the smallest
visible amount.
-/
namespace ColdSigner.Display

open Number

def unitsPerCoin : Nat := 10 ^ 18

/-- The units of the last visible decimal. -/
def visibleUnits : Nat := 10 ^ 12

/-- The first six decimals of an amount, without the zeros at their end. -/
def decimals (units : Nat) : List Char :=
  let digits := Decimal.chars (units % unitsPerCoin / visibleUnits)
  let padded := List.replicate (6 - digits.length) '0' ++ digits
  (padded.reverse.dropWhile (· == '0')).reverse

def coinChars (units : Nat) : List Char :=
  if units = 0 then "0 ALPH".toList
  else if units < visibleUnits then "<0.000001 ALPH".toList
  else
    let fraction := decimals units
    Decimal.chars (units / unitsPerCoin) ++
      (if fraction = [] then [] else '.' :: fraction) ++ " ALPH".toList

def coin (capacity : Nat) (value : Uint256) : String :=
  fit capacity (String.ofList (coinChars value.toNat))

/-- A capacity that is enough for any amount. -/
def coinCapacity : Nat := 84

end ColdSigner.Display
