import ColdSigner.Account
import ColdSigner.Device.State
/-!
# Outputs

What the device has to say to an event, and the data of the answer that carries it.
-/
namespace ColdSigner

inductive Output where
  | none
  /-- The state, and the identifier of the request in flight. -/
  | state (current : EngineState) (txId : TxId)
  | appInfo (flags : AppFlags)
  | account (answer : AccountResponse)
  | signature (answer : TxSignature)
  deriving DecidableEq

namespace Output

/-- What the device says about itself. -/
def appInfoOf (flags : AppFlags) : AppInfo where
  proto := 1
  groups := groupCount
  keyTypes := Account.keyTypes
  flags
  name := "Alephium"
  version := "0.1.0"

/-- Write an output into a buffer of some capacity. -/
def encodeInto (capacity : Nat) : Output → Except WireError Bytes
  | none => .ok []
  | state current txId =>
      Message.encodeInto capacity (⟨current.txState, current.value, txId⟩ : TxInfo)
  | appInfo flags => Message.encodeInto capacity (appInfoOf flags)
  | account answer => Message.encodeInto capacity answer
  | signature answer => Message.encodeInto capacity answer

def state? : Output → Option EngineState
  | state current _ => some current
  | _ => Option.none

/-- The identifier of a request, in an output that has one. -/
def txId? : Output → Option TxId
  | state _ txId => some txId
  | signature answer => some answer.txId
  | _ => Option.none

end Output

end ColdSigner
