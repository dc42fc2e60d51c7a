import ColdSigner.Number.Decimal
/-!
# Amounts of 256 bits

An amount is a number below 2 ^ 256. Sums and products that do not fit are no amounts.
-/
namespace ColdSigner

/-- A number below 2 ^ 256. -/
structure Uint256 where
  toNat : Nat
  isLt : toNat < 2 ^ 256
  deriving DecidableEq

namespace Uint256

open Number

theorem ext {a b : Uint256} (h : a.toNat = b.toNat) : a = b := by
  cases a; cases b; simp_all

/-- A number as an amount, when it fits. -/
def ofNat? (value : Nat) : Option Uint256 :=
  if h : value < 2 ^ 256 then some ⟨value, h⟩ else none

def zero : Uint256 :=
  ⟨0, by decide⟩

/-- At most 32 bytes, most significant first. -/
def ofBytes? (bytes : Bytes) : Option Uint256 :=
  if 32 < bytes.length then none else ofNat? (Bytes.ofBigEndian bytes)

/-- All 32 bytes, most significant first. -/
def toBytes (value : Uint256) : FixedBytes 32 :=
  FixedBytes.bigEndian 32 value.toNat

/-- The number of bytes without leading zeros; none for zero. -/
def byteLength (value : Uint256) : Nat :=
  (digits 256 value.toNat).length

/-- The amount as a 64-bit number, when it fits. -/
def toUInt64? (value : Uint256) : Option UInt64 :=
  if value.toNat < 2 ^ 64 then some (UInt64.ofNat value.toNat) else none

theorem toUInt64?_of_lt {value : Uint256} (hSmall : value.toNat < 2 ^ 64) :
    value.toUInt64? = some (UInt64.ofNat value.toNat) :=
  if_pos hSmall

theorem toUInt64?_of_le {value : Uint256} (hLarge : 2 ^ 64 ≤ value.toNat) :
    value.toUInt64? = none :=
  if_neg (Nat.not_lt.2 hLarge)

def add? (a b : Uint256) : Option Uint256 :=
  ofNat? (a.toNat + b.toNat)

def mul? (a b : Uint256) : Option Uint256 :=
  ofNat? (a.toNat * b.toNat)

def div (value : Uint256) (divisor : Nat) : Uint256 :=
  ⟨value.toNat / divisor, Nat.lt_of_le_of_lt (Nat.div_le_self _ _) value.isLt⟩

def mod (value : Uint256) (divisor : Nat) : Uint256 :=
  ⟨value.toNat % divisor, Nat.lt_of_le_of_lt (Nat.mod_le _ _) value.isLt⟩

/-- Quotient and remainder; none for a divisor of zero. -/
def divMod? (value : Uint256) (divisor : UInt64) : Option (Uint256 × UInt64) :=
  if divisor = 0 then none
  else (value.mod divisor.toNat).toUInt64?.map fun rest => (value.div divisor.toNat, rest)

/-- A remainder is less than the divisor, so it has no more than 64 bits either. -/
theorem divMod?_eq (value : Uint256) {divisor : UInt64} (hDivisor : divisor ≠ 0) :
    value.divMod? divisor =
      some (value.div divisor.toNat, UInt64.ofNat (value.toNat % divisor.toNat)) := by
  have hPos : 0 < divisor.toNat :=
    Nat.pos_of_ne_zero fun hZero => hDivisor (UInt64.toNat_inj.1 hZero)
  have hRest : (value.mod divisor.toNat).toNat < 2 ^ 64 :=
    Nat.lt_trans (Nat.mod_lt _ hPos) divisor.toNat_lt
  rw [divMod?, if_neg hDivisor, toUInt64?_of_lt hRest, Option.map_some]
  rfl

def text (value : Uint256) : String :=
  Decimal.text value.toNat

/-- Write the decimal digits over the start of a buffer and report how many they are. A buffer
that is too short stays as it is. -/
def writeDecimal (value : Uint256) (buffer : Bytes) : Option Nat × Bytes :=
  let digits := Decimal.ascii value.toNat
  if digits.length ≤ buffer.length then
    (some digits.length, digits ++ buffer.drop digits.length)
  else
    (none, buffer)

/-- The most decimal digits that an amount has. -/
def maxDigits : Nat := 78

theorem length_decimal_le (value : Uint256) :
    (Decimal.chars value.toNat).length ≤ maxDigits :=
  Decimal.length_chars_le (by decide) (Nat.lt_trans value.isLt (by decide))

instance : LT Uint256 := ⟨fun a b => a.toNat < b.toNat⟩

instance (a b : Uint256) : Decidable (a < b) :=
  inferInstanceAs (Decidable (a.toNat < b.toNat))

instance : Ord Uint256 := ⟨fun a b => compare a.toNat b.toNat⟩

end Uint256

end ColdSigner
