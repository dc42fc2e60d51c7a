import ColdSigner.Bytes
import ColdSigner.Number.Digits
/-!
# Base 58 text

A byte string is one number, its first byte the most significant, written with 58 digits that
are hard to confuse. A number has no leading zeros, so each leading zero byte is written as
one more digit `1`.
-/
namespace ColdSigner.Base58

open Number

/-- The digits in the order of their values. -/
def alphabet : List Char :=
  "123456789ABCDEFGHJKLMNPQRSTUVWXYZabcdefghijkmnopqrstuvwxyz".toList

def digit (value : Nat) : Char :=
  alphabet.getD value '1'

/-- The value of a digit; none for any other character. -/
def value? (c : Char) : Option Nat :=
  alphabet.findIdx? (· == c)

def encodeChars (bytes : Bytes) : List Char :=
  List.replicate (bytes.takeWhile (· == 0)).length '1' ++
    (digits 58 (Bytes.ofBigEndian bytes)).reverse.map digit

def encode (bytes : Bytes) : String :=
  String.ofList (encodeChars bytes)

/-- The byte string that these digits stand for. -/
def decodeChars? (text : List Char) : Option Bytes :=
  match (text.dropWhile (· == '1')).mapM value? with
  | none => none
  | some values =>
      some (List.replicate (text.takeWhile (· == '1')).length 0 ++
        (digits 256 (ofDigits 58 values.reverse)).reverse.map UInt8.ofNat)

/-- Read a text; none if a character of it is no digit. -/
def decode? (text : String) : Option Bytes :=
  decodeChars? text.toList

end ColdSigner.Base58
