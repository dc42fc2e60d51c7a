import ColdSigner.Number.Uint256
/-!
# Compact integers

The two highest bits of the first byte select one of four lengths: 6, 14 or 30 bits in one,
two or four bytes, or a count of bytes that follow. Signed numbers of 32 bits and amounts of
256 bits share the scheme. Each number is written in the shortest way.
-/
namespace ColdSigner.Compact

def lengthOfInt (value : Int32) : Nat :=
  let n := value.toInt
  if -0x20 ≤ n ∧ n < 0x20 then 1
  else if -0x2000 ≤ n ∧ n < 0x2000 then 2
  else if -0x20000000 ≤ n ∧ n < 0x20000000 then 4
  else 5

/-- The lowest bits of a signed number in two's complement. -/
def lowBits (bits : Nat) (value : Int32) : Nat :=
  (value.toInt % 2 ^ bits).toNat

/-- A signed number. -/
def ofInt (value : Int32) : Bytes :=
  match lengthOfInt value with
  | 1 => [UInt8.ofNat (lowBits 6 value)]
  | 2 => Bytes.bigEndian 2 (0x4000 + lowBits 14 value)
  | 4 => Bytes.bigEndian 4 (0x80000000 + lowBits 30 value)
  | _ => 0xc0 :: Bytes.bigEndian 4 (lowBits 32 value)

/-- Only an amount of 64 bits can have one of the short lengths. -/
def lengthOfAmount (value : Uint256) : Nat :=
  let long := 1 + max 4 value.byteLength
  match value.toUInt64? with
  | some word =>
      if word < 0x40 then 1
      else if word < 0x4000 then 2
      else if word < 0x40000000 then 4
      else long
  | none => long

theorem lengthOfAmount_eq (value : Uint256) :
    lengthOfAmount value =
      if value.toNat < 0x40 then 1
      else if value.toNat < 0x4000 then 2
      else if value.toNat < 0x40000000 then 4
      else 1 + max 4 value.byteLength := by
  rcases Nat.lt_or_ge value.toNat (2 ^ 64) with hSmall | hLarge
  · have hWord : (UInt64.ofNat value.toNat).toNat = value.toNat :=
      UInt64.toNat_ofNat_of_lt' hSmall
    simp only [lengthOfAmount, Uint256.toUInt64?_of_lt hSmall, UInt64.lt_iff_toNat_lt, hWord]
    rfl
  · simp only [lengthOfAmount, Uint256.toUInt64?_of_le hLarge]
    rw [if_neg (by omega), if_neg (by omega), if_neg (by omega)]

/-- An amount. -/
def ofAmount (value : Uint256) : Bytes :=
  match lengthOfAmount value with
  | 1 => [UInt8.ofNat value.toNat]
  | 2 => Bytes.bigEndian 2 (0x4000 + value.toNat)
  | 4 => Bytes.bigEndian 4 (0x80000000 + value.toNat)
  | length => UInt8.ofNat (0xc0 + (length - 5)) :: Bytes.bigEndian (length - 1) value.toNat

/-- The length of a list, as the signed number in front of its elements. -/
def ofLength (length : Nat) : Bytes :=
  ofInt (Int32.ofNat length)

end ColdSigner.Compact
