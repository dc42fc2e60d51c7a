import ColdSigner.Apdu.Chunk
import ColdSigner.Apdu.Message
/-!
# Events

What happens to the device from outside: the requests of the host, one command at a time, and
the host going away.
-/
namespace ColdSigner

inductive Event where
  | none
  | getVersion
  | getAccount (request : AccountRequest)
  /-- A part of a request to sign a transaction. -/
  | txChunk (seq : UInt8) (more : Bool) (data : Bytes)
  | signHash (request : HashSignRequest)
  | txGetInfo
  | txGetSignature
  | txComplete
  | disconnect
  deriving DecidableEq

namespace Event

/-- The event that a command stands for. Requests without content ignore their data. -/
def parse (chunk : Chunk) : Except WireError Event :=
  match Instruction.ofCode? chunk.ins with
  | some .getVersion => .ok getVersion
  | some .getAccount => (Message.decode chunk.data).map getAccount
  | some .signTx => .ok (txChunk chunk.seq chunk.more chunk.data)
  | some .txGetInfo => .ok txGetInfo
  | some .txGetSignature => .ok txGetSignature
  | some .txComplete => .ok txComplete
  | some .signHash => (Message.decode chunk.data).map signHash
  | Option.none => .error .invalidEncoding

end Event

end ColdSigner
