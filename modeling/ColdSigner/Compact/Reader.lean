import ColdSigner.Compact
import ColdSigner.Transaction.Error
/-!
# Reading bytes one field after the other

A cursor stands between the bytes that were taken and those that remain. A read that fails may
have moved it, though never beyond the end: what a cursor took and what remains are together
always the same number of bytes.
-/
namespace ColdSigner

structure Cursor where
  /-- The number of bytes in front. -/
  position : Nat
  /-- The bytes behind. -/
  rest : Bytes
  deriving DecidableEq

namespace Cursor

def start (bytes : Bytes) : Cursor := ⟨0, bytes⟩

def remaining (cursor : Cursor) : Nat := cursor.rest.length

def advance (cursor : Cursor) (count : Nat) : Cursor :=
  ⟨cursor.position + count, cursor.rest.drop count⟩

end Cursor

/-- A read: it may fail, and leaves the cursor somewhere in either case. -/
abbrev Reader := ExceptT TxError (StateM Cursor)

namespace Reader

def byte : Reader UInt8 := do
  let cursor ← get
  match cursor.rest with
  | [] => throw .truncated
  | b :: _ =>
      set (cursor.advance 1)
      return b

/-- So many bytes, or none of them. -/
def bytes (count : Nat) : Reader Bytes := do
  let cursor ← get
  if cursor.remaining < count then
    throw .truncated
  else
    set (cursor.advance count)
    return cursor.rest.take count

/-- So many bytes as a value of fixed size. -/
def fixed (size : Nat) : Reader (FixedBytes size) := do
  match FixedBytes.ofList? size (← bytes size) with
  | some value => return value
  | none => throw .truncated

/-- A number of so many bytes, most significant first. -/
def number (width : Nat) : Reader Nat := do
  return Bytes.ofBigEndian (← bytes width)

/-- A number written in so many bytes has to need them. -/
def shortest {α : Type} (length : α → Nat) (used : Nat) (value : α) : Reader α :=
  if length value = used then return value else throw .nonCanonical

/-- The signed number with these lowest bits, the highest of which is the sign. -/
def signExtend (bits value : Nat) : Int32 :=
  Int32.ofInt (Int.bmod value (2 ^ bits))

def int : Reader Int32 := do
  let first ← byte
  let payload := first.toNat % 64
  let finish := shortest Compact.lengthOfInt
  match first.toNat / 64 with
  | 0 => finish 1 (signExtend 6 payload)
  | 1 => finish 2 (signExtend 14 (payload * 2 ^ 8 + (← byte).toNat))
  | 2 => finish 4 (signExtend 30 (payload * 2 ^ 24 + (← number 3)))
  | _ =>
      if payload ≠ 0 then throw .nonCanonical
      else finish 5 (signExtend 32 (← number 4))

def amount : Reader Uint256 := do
  let first ← byte
  let payload := first.toNat % 64
  let finish (used value : Nat) : Reader Uint256 :=
    match Uint256.ofNat? value with
    | some value => shortest Compact.lengthOfAmount used value
    | none => throw .overflow
  match first.toNat / 64 with
  | 0 => finish 1 payload
  | 1 => finish 2 (payload * 2 ^ 8 + (← byte).toNat)
  | 2 => finish 4 (payload * 2 ^ 24 + (← number 3))
  | _ =>
      let count := payload + 4
      if 32 < count then throw .overflow
      else finish (1 + count) (← number count)

/-- The length of a list whose elements take at least so many bytes each. The elements have to
fit into what remains. -/
def length (elementSize : Nat) : Reader Nat := do
  let count ← int
  if count.toInt < 0 then throw .invalidLength
  else
    let count := count.toInt.toNat
    if (← get).remaining < count * elementSize then throw .truncated
    else return count

def repeated {α : Type} (read : Reader α) : Nat → Reader (List α)
  | 0 => return []
  | count + 1 => do
      let first ← read
      return first :: (← repeated read count)

def runFrom {α : Type} (read : Reader α) (cursor : Cursor) : Except TxError α × Cursor :=
  (ExceptT.run read).run cursor

/-- Run a read that has to take all of the bytes. -/
def readAll {α : Type} (read : Reader α) (input : Bytes) : Except TxError α :=
  match read.runFrom (.start input) with
  | (.ok value, cursor) => if cursor.rest.isEmpty then .ok value else .error .trailingBytes
  | (.error e, _) => .error e

end Reader

end ColdSigner
