import ColdSigner.Apdu.Basic
import ColdSigner.Number.Decimal
/-!
# States of the device

A request for a signature goes from loading over review to signed and complete; a refusal or an
error ends it earlier. The confirmation of an address goes from review to verified.
-/
namespace ColdSigner

/-- What the device is doing. -/
inductive EngineState where
  | init
  /-- So many parts of a transaction were received. -/
  | loading (parts : UInt16)
  | review (step : UInt16)
  | signed
  | rejected
  | verified
  | complete
  | error
  deriving DecidableEq, Repr

namespace EngineState

/-- All states, the numbers in them zero. -/
def all : List EngineState :=
  [init, loading 0, review 0, signed, rejected, verified, complete, error]

/-- A request is in flight. -/
def isBusy : EngineState → Bool
  | loading _ | review _ | signed => true
  | _ => false

/-- The state as the host is told. -/
def txState : EngineState → TxState
  | init => .init
  | loading _ => .loading
  | review _ => .review
  | signed => .signed
  | rejected => .rejected
  | verified => .verified
  | complete => .complete
  | error => .error

/-- The number in the state; zero where there is none. -/
def value : EngineState → UInt16
  | loading parts => parts
  | review step => step
  | _ => 0

def name (state : EngineState) : String := state.txState.name

/-- The name of the state with its number. -/
def text (state : EngineState) : String :=
  match state with
  | loading number | review number =>
      state.name ++ "(" ++ Number.Decimal.text number.toNat ++ ")"
  | _ => state.name

/-- The state with this name, a number in it being zero. -/
def ofName? (name : String) : Option EngineState :=
  all.find? (·.name == name)

end EngineState

end ColdSigner
