import ColdSigner.Bytes
import ColdSigner.Number.Digits
/-!
# Decimal text

A number in decimal has no leading zero, and zero is the digit `0`. `ofChars?_chars` says
that each number reads back.
-/
namespace ColdSigner.Number.Decimal

def digit (value : Nat) : Char :=
  Char.ofNat (48 + value)

/-- The value of a character that is an ASCII digit. -/
def value? (c : Char) : Option Nat :=
  if 48 ≤ c.toNat ∧ c.toNat ≤ 57 then some (c.toNat - 48) else none

def chars (value : Nat) : List Char :=
  if value = 0 then ['0'] else (digits 10 value).reverse.map digit

def text (value : Nat) : String :=
  String.ofList (chars value)

/-- The decimal digits of a number as ASCII bytes. -/
def ascii (value : Nat) : Bytes :=
  (chars value).map fun c => UInt8.ofNat c.toNat

/-- Read one or more ASCII digits; leading zeros are allowed. -/
def ofChars? (text : List Char) : Option Nat :=
  if text.isEmpty then none
  else (text.mapM value?).map fun values => ofDigits 10 values.reverse

theorem value?_digit {n : Nat} (h : n < 10) : value? (digit n) = some n := by
  have : n = 0 ∨ n = 1 ∨ n = 2 ∨ n = 3 ∨ n = 4 ∨ n = 5 ∨ n = 6 ∨ n = 7 ∨ n = 8 ∨ n = 9 := by
    omega
  rcases this with h | h | h | h | h | h | h | h | h | h <;> subst h <;> decide

theorem chars_ne_nil (value : Nat) : chars value ≠ [] := by
  unfold chars
  split
  · simp
  · next h => simpa [digits_eq_nil_iff] using h

/-- Every number reads back from its digits. -/
theorem ofChars?_chars (value : Nat) : ofChars? (chars value) = some value := by
  unfold ofChars?
  rw [if_neg (by simpa using chars_ne_nil value)]
  unfold chars
  split
  · next h => subst h; decide
  · rw [mapM_map_of_lt fun _ => value?_digit]
    · simp [ofDigits_digits]
    · intro n hn
      exact lt_of_mem_digits (List.mem_reverse.1 hn)

theorem length_chars_le {value width : Nat} (hWidth : 0 < width) (h : value < 10 ^ width) :
    (chars value).length ≤ width := by
  unfold chars
  split
  · simp; omega
  · simpa using length_digits_le (by omega) h

end ColdSigner.Number.Decimal
