/-!
# Quoted characters

A single byte shown to a reader as a character between apostrophes. What cannot be seen on a
screen is written as an escape: a short one where there is one, else its code in braces.
-/
namespace ColdSigner.Text

/-- One hexadecimal digit, in lower case. -/
def hexDigit (value : Nat) : Char :=
  if value < 10 then Char.ofNat (48 + value) else Char.ofNat (87 + value)

/-- The characters up to U+00FF that have no visible form: controls, the space without a
break and the soft hyphen. -/
def isInvisible (code : Nat) : Bool :=
  code < 0x20 || (0x7f ≤ code && code ≤ 0xa0) || code = 0xad

/-- The character with this code, as it stands between apostrophes. -/
def escaped (byte : UInt8) : List Char :=
  let code := byte.toNat
  if code = 0 then ['\\', '0']
  else if code = 9 then ['\\', 't']
  else if code = 10 then ['\\', 'n']
  else if code = 13 then ['\\', 'r']
  else if code = 39 then ['\\', '\'']
  else if code = 92 then ['\\', '\\']
  else if isInvisible code then
    let low := [hexDigit (code % 16)]
    let digits := if code < 16 then low else hexDigit (code / 16) :: low
    ['\\', 'u', '\x7b'] ++ digits ++ ['\x7d']
  else [Char.ofNat code]

/-- The character with this code, between apostrophes. -/
def quoted (byte : UInt8) : String :=
  String.ofList (['\''] ++ escaped byte ++ ['\''])

end ColdSigner.Text
