import ColdSigner.Apdu.Basic
/-!
# Commands and chunks

A command is a header of five bytes (class, instruction, two parameters, length) with its data
behind. A message that is longer than one command takes is cut into chunks: the first parameter
counts them, and the highest bit of the second says that more follow.
-/
namespace ColdSigner

def commandClass : UInt8 := 0x80

/-- The most data in one command. -/
def maxChunkData : Nat := 250

def maxPayload : Nat := 4096

/-- The header of a command, without its length. -/
structure CommandHeader where
  cla : UInt8
  ins : UInt8
  p1 : UInt8
  p2 : UInt8
  deriving DecidableEq, Repr

namespace CommandHeader

/-- The header of a command and its data, whose length has to be the one in the header. -/
def parse : Bytes → Except FrameError (CommandHeader × Bytes)
  | cla :: ins :: p1 :: p2 :: length :: data =>
      if length.toNat = data.length then .ok (⟨cla, ins, p1, p2⟩, data) else .error .framing
  | _ => .error .framing

/-- The bits of the second parameter that have a meaning. -/
def flags (header : CommandHeader) : UInt8 := header.p2 &&& 0x80

end CommandHeader

structure Chunk where
  ins : UInt8
  seq : UInt8
  more : Bool
  data : Bytes
  deriving DecidableEq, Repr

namespace Chunk

/-- The length of the command that carries a chunk. -/
def encodedLength (chunk : Chunk) : Nat := 5 + chunk.data.length

/-- The command that carries a chunk. The length is right for at most 255 bytes of data. -/
def toBytes (chunk : Chunk) : Bytes :=
  commandClass :: chunk.ins :: chunk.seq :: (if chunk.more then 0x80 else 0) ::
    UInt8.ofNat chunk.data.length :: chunk.data

/-- Write a chunk into a buffer of some capacity. -/
def encodeInto (capacity : Nat) (chunk : Chunk) : Except FrameError Bytes :=
  if maxChunkData < chunk.data.length ∨ capacity < chunk.encodedLength then .error .framing
  else .ok chunk.toBytes

def decode (command : Bytes) : Except FrameError Chunk :=
  match CommandHeader.parse command with
  | .error e => .error e
  | .ok (header, data) =>
      if header.cla ≠ commandClass ∨ maxChunkData < data.length then .error .framing
      else .ok ⟨header.ins, header.p1, header.flags ≠ 0, data⟩

/-- The chunks of a message, the first of which has the given number. An empty message is one
empty chunk. -/
def split (ins seq : UInt8) (payload : Bytes) : List Chunk :=
  if _h : payload.length ≤ maxChunkData then [⟨ins, seq, false, payload⟩]
  else
    ⟨ins, seq, true, payload.take maxChunkData⟩ ::
      split ins (seq + 1) (payload.drop maxChunkData)
  termination_by payload.length
  decreasing_by
    simp only [maxChunkData, List.length_drop] at *
    omega

theorem length_toBytes (chunk : Chunk) : chunk.toBytes.length = chunk.encodedLength := by
  simp [toBytes, encodedLength]
  omega

end Chunk

/-- The chunks of a message of at most the greatest length. -/
def frame (ins : UInt8) (payload : Bytes) : Except FrameError (List Chunk) :=
  if maxPayload < payload.length then .error .payloadTooLarge
  else .ok (Chunk.split ins 0 payload)

end ColdSigner
