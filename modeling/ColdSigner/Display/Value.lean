import ColdSigner.Bytes.Hex
import ColdSigner.Number.Uint256
/-!
# Values on the screen

Numbers, byte strings and messages as the user of the device reads them. A value is written
into a buffer of some capacity; one that does not fit is replaced by a mark. These texts are what
the bytes in the buffer come to: see `writtenAmount?_eq`, `writtenHex?_eq`, `writtenTime?_eq` and
`writtenCoin?_eq`.
-/
namespace ColdSigner.Display

/-- What stands on the screen for a value that does not fit. -/
def misfit : String := "ENCODE_ERR"

/-- The text, if a buffer of this capacity holds it. There is no other mark, for bytes that are no
text, since what is read from the buffer is the text that was written (`onScreen?_writeTexts`). -/
def fit (capacity : Nat) (text : String) : String :=
  if text.utf8ByteSize ≤ capacity then text else misfit

def amount (capacity : Nat) (value : Uint256) : String :=
  fit capacity value.text

def hex (capacity : Nat) (bytes : Bytes) : String :=
  fit capacity (Hex.encode bytes)

/-- A byte that is a visible ASCII character or a space. -/
def isPrintable (byte : UInt8) : Bool :=
  0x20 ≤ byte && byte < 0x7f

/-- A message: its characters if all of them are printable, else its bytes. -/
def note (bytes : Bytes) : String :=
  if bytes.all isPrintable then String.ofList (bytes.map fun byte => Char.ofNat byte.toNat)
  else Hex.encode bytes

end ColdSigner.Display
