import ColdSigner.Apdu.Basic
import ColdSigner.Text.Utf8
/-!
# Fields of a message

A message is a sequence of fields, each read from the front of the bytes that remain. A field
that does not fit is an error of length. Numbers have their least significant byte first.
-/
namespace ColdSigner

/-- A reader of fields: the value, and the bytes that remain. -/
abbrev FieldReader := StateT Bytes (Except WireError)

namespace FieldReader

def bytes (size : Nat) : FieldReader (FixedBytes size) := fun rest =>
  if h : size ≤ rest.length then
    .ok (⟨rest.take size, List.length_take_of_le h⟩, rest.drop size)
  else
    .error .invalidLength

def byte : FieldReader UInt8
  | [] => .error .invalidLength
  | b :: rest => .ok (b, rest)

def number (width : Nat) : FieldReader Nat := do
  return Bytes.ofLittleEndian (← bytes width).toList

/-- A byte that has to be the code of something. -/
def coded {α : Type} (ofCode? : UInt8 → Option α) : FieldReader α := do
  match ofCode? (← byte) with
  | some value => return value
  | none => throw .invalidEncoding

/-- A text behind its length. -/
def text : FieldReader String := do
  let size ← byte
  let content ← bytes size.toNat
  match Text.ofUtf8? content.toList with
  | some value => return value
  | none => throw .utf8

/-- Read the front of some bytes, and count those that were taken. -/
def parse {α : Type} (reader : FieldReader α) (input : Bytes) : Except WireError (α × Nat) := do
  let (value, rest) ← reader input
  return (value, input.length - rest.length)

end FieldReader

end ColdSigner
