import ColdSigner.Apdu.Basic
/-!
# Status words

Every answer ends with two bytes that say how the command went, the more significant one
first. The errors of the device share an upper byte and have a code in the lower one.
-/
namespace ColdSigner.Status

def ok : UInt16 := 0x9000

/-- The upper byte of every error of the device. -/
def errorBase : UInt16 := 0x6a00

def unknownInstruction : UInt16 := 0x6d00

/-- The status word of an error with this code. -/
def ofCode (code : UInt8) : UInt16 := errorBase ||| code.toUInt16

/-- The code of an error of the device. -/
def code? (word : UInt16) : Option UInt8 :=
  if word &&& 0xff00 = errorBase ∧ word &&& 0x00ff ≠ 0 then some word.toUInt8 else none

def toBytes (word : UInt16) : Bytes := Bytes.bigEndian 2 word.toNat

/-- Write a status word behind the first `count` bytes of a buffer. The answer is the length
with the status word, and the buffer. -/
def append (buffer : Bytes) (count : Nat) (word : UInt16) : Except WireError (Nat × Bytes) :=
  if buffer.length < count + 2 then .error .invalidLength
  else .ok (count + 2, buffer.take count ++ toBytes word ++ buffer.drop (count + 2))

theorem length_toBytes (word : UInt16) : (toBytes word).length = 2 := Bytes.length_bigEndian ..

theorem append_of_short {buffer : Bytes} {count : Nat} (hShort : buffer.length < count + 2)
    (word : UInt16) : append buffer count word = .error .invalidLength :=
  if_pos hShort

/-- The first bytes of the answer are the data and the status word behind them. -/
theorem exists_append {buffer : Bytes} {count : Nat} (hRoom : count + 2 ≤ buffer.length)
    (word : UInt16) :
    ∃ written, append buffer count word = .ok (count + 2, written) ∧
      written.take (count + 2) = buffer.take count ++ toBytes word := by
  have hFront : (buffer.take count ++ toBytes word).length = count + 2 := by
    rw [List.length_append, length_toBytes, List.length_take_of_le (by omega)]
  exact ⟨_, if_neg (Nat.not_lt.2 hRoom), List.take_left' hFront⟩

end ColdSigner.Status
