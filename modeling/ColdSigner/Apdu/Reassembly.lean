import ColdSigner.Apdu.Chunk
/-!
# Reassembly

Chunks are put together to messages, one message at a time. A chunk that does not fit discards
what was received, and so does a message that would become too long.
-/
namespace ColdSigner

/-- The part of a message that was received. -/
structure PartialMessage where
  ins : UInt8
  nextSeq : UInt8
  data : Bytes
  deriving DecidableEq, Repr

/-- What a receiver holds. -/
inductive Reassembly where
  | empty
  | receiving (message : PartialMessage)
  | complete (message : PartialMessage)
  deriving DecidableEq, Repr

namespace Reassembly

/-- The beginning of a message is there and its end is not. -/
def inProgress : Reassembly → Bool
  | receiving _ => true
  | _ => false

def ins? : Reassembly → Option UInt8
  | empty => none
  | receiving message | complete message => some message.ins

/-- The message, once it is complete. -/
def payload? : Reassembly → Option Bytes
  | complete message => some message.data
  | _ => none

/-- The message that a chunk continues. A chunk with number zero starts a message where none is
in progress, and any other one continues the message in progress. -/
def continued? (state : Reassembly) (chunk : Chunk) : Option PartialMessage :=
  match state with
  | receiving message =>
      if chunk.seq ≠ 0 ∧ message.ins = chunk.ins ∧ chunk.seq = message.nextSeq then some message
      else none
  | _ => if chunk.seq = 0 then some ⟨chunk.ins, 0, []⟩ else none

/-- Take a chunk, with room for `capacity` bytes. The answer says whether the message is
complete now. -/
def push (capacity : Nat) (state : Reassembly) (chunk : Chunk) :
    Except FrameError Bool × Reassembly :=
  match state.continued? chunk with
  | none => (.error .framing, empty)
  | some message =>
      let data := message.data ++ chunk.data
      if min capacity maxPayload < data.length then (.error .payloadTooLarge, empty)
      else
        let message : PartialMessage := ⟨message.ins, message.nextSeq + 1, data⟩
        if chunk.more then (.ok false, receiving message) else (.ok true, complete message)

/-- Close the channel, which is an error in the middle of a message. -/
def close (state : Reassembly) : Except FrameError Unit × Reassembly :=
  (if state.inProgress then .error .truncated else .ok (), empty)

end Reassembly

/-- Take the commands of one message, up to the last one. -/
def reassembleFrom (state : Reassembly) : List Bytes → Except FrameError Reassembly
  | [] => .ok state
  | command :: rest => do
      if state.payload?.isSome then .error .framing
      else
        let chunk ← Chunk.decode command
        match state.push maxPayload chunk with
        | (.error e, _) => .error e
        | (.ok _, next) => reassembleFrom next rest

/-- Put the commands of one message together. Commands that end before the last chunk or go on
after it are no message. -/
def reassemble (commands : List Bytes) : Except FrameError (UInt8 × Bytes) := do
  match ← reassembleFrom .empty commands with
  | .complete message => return (message.ins, message.data)
  | _ => .error .framing

end ColdSigner
