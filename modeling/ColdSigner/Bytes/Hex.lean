import ColdSigner.Bytes
import ColdSigner.Text.Blank
import ColdSigner.Text.Quoted
import ColdSigner.Text.Utf8
/-!
# Hexadecimal text

Two lower-case digits for a byte. Reading takes digits of either case and says which
character is wrong. Main statement: `decodePairs_encodeChars`, every byte string reads back.

Positions and lengths count the bytes of the text in UTF-8.
-/
namespace ColdSigner.Hex

/-- Why a text is no byte string in hexadecimal. -/
inductive Error where
  | oddLength
  /-- The text has an even length, though not the one expected. -/
  | unexpectedLength
  /-- The byte at this position is no digit. -/
  | invalidDigit (byte : UInt8) (position : Nat)
  deriving DecidableEq, Repr

/-- What a user is told. -/
def Error.message : Error → String
  | .oddLength => "Odd number of digits"
  | .unexpectedLength => "Invalid string length"
  | .invalidDigit byte position =>
      "Invalid character " ++ Text.quoted byte ++ " at position " ++ toString position

def encodeByte (byte : UInt8) : List Char :=
  [Text.hexDigit (byte.toNat / 16), Text.hexDigit (byte.toNat % 16)]

def encodeChars (bytes : Bytes) : List Char :=
  bytes.flatMap encodeByte

def encode (bytes : Bytes) : String :=
  String.ofList (encodeChars bytes)

/-- The value of a digit, given by its character code. -/
def digitValue? (code : UInt8) : Option Nat :=
  let n := code.toNat
  if 48 ≤ n ∧ n ≤ 57 then some (n - 48)
  else if 65 ≤ n ∧ n ≤ 70 then some (n - 55)
  else if 97 ≤ n ∧ n ≤ 102 then some (n - 87)
  else none

/-- Read pairs of digits, the first of them at the given position. -/
def decodePairs (position : Nat) : Bytes → Except Error Bytes
  | [] => .ok []
  | [_] => .error .oddLength
  | high :: low :: rest =>
      match digitValue? high, digitValue? low with
      | none, _ => .error (.invalidDigit high position)
      | some _, none => .error (.invalidDigit low (position + 1))
      | some h, some l =>
          match decodePairs (position + 2) rest with
          | .error e => .error e
          | .ok bytes => .ok (UInt8.ofNat (16 * h + l) :: bytes)

/-- Read a text, given by its bytes. -/
def decodeBytes (text : Bytes) : Except Error Bytes :=
  if text.length % 2 = 1 then .error .oddLength else decodePairs 0 text

def decode (text : String) : Except Error Bytes :=
  decodeBytes (Text.utf8 text)

/-- Read a text of exactly `size` bytes. The length is checked before the digits. -/
def decodeFixed (size : Nat) (text : String) : Except Error (FixedBytes size) :=
  let bytes := Text.utf8 text
  if bytes.length % 2 = 1 then .error .oddLength
  else if bytes.length / 2 ≠ size then .error .unexpectedLength
  else do
    let decoded ← decodePairs 0 bytes
    match FixedBytes.ofList? size decoded with
    | some value => pure value
    | none => .error .unexpectedLength

/-- A text without the marks `0x` in front of it, however often they are repeated. -/
def stripMarks : List Char → List Char
  | '0' :: 'x' :: rest => stripMarks rest
  | text => text

/-- A command-line argument of exactly `size` bytes. -/
def fixedArgument (size : Nat) (text : String) : Except Error (FixedBytes size) :=
  decodeFixed size (String.ofList (stripMarks text.toList))

/-- A command-line argument of any length; blanks around it are ignored. -/
def argument (text : String) : Except Error Bytes :=
  decode (String.ofList (stripMarks (Text.trim text.toList)))

theorem length_encodeChars (bytes : Bytes) :
    (encodeChars bytes).length = 2 * bytes.length := by
  induction bytes with
  | nil => rfl
  | cons byte rest ih =>
      simp only [encodeChars, List.flatMap_cons, List.length_append, List.length_cons] at ih ⊢
      rw [ih]
      simp [encodeByte]
      omega

theorem digitValue?_hexDigit {value : Nat} (h : value < 16) :
    digitValue? (UInt8.ofNat (Text.hexDigit value).toNat) = some value := by
  have all : ∀ n < 16, digitValue? (UInt8.ofNat (Text.hexDigit n).toNat) = some n := by decide
  exact all value h

/-- Every byte string reads back from its digits. -/
theorem decodePairs_encodeChars (position : Nat) (bytes : Bytes) :
    decodePairs position ((encodeChars bytes).map fun c => UInt8.ofNat c.toNat) = .ok bytes := by
  induction bytes generalizing position with
  | nil => rfl
  | cons byte rest ih =>
      have hByte := byte.toNat_lt
      have hValue : 16 * (byte.toNat / 16) + byte.toNat % 16 = byte.toNat := by omega
      have hHigh := digitValue?_hexDigit (show byte.toNat / 16 < 16 by omega)
      have hLow := digitValue?_hexDigit (show byte.toNat % 16 < 16 by omega)
      simp only [encodeChars] at ih
      simp [encodeChars, encodeByte, decodePairs, hHigh, hLow, ih, hValue]

end ColdSigner.Hex
