import ColdSigner.Device.Dispatch
import ColdSigner.Host.Dialogue
/-!
# A device in the same process

A channel that hands each command to an engine. A script says what else happens at each
exchange: what the user does before and after it, and what goes wrong on the way back. With an
empty script the channel is honest and takes no time.
-/
namespace ColdSigner

/-- What happens to a device beside commands. -/
inductive DeviceAct where
  | approve
  | approveAll
  | deny
  | disconnect
  | reset
  deriving DecidableEq, Repr

namespace DeviceAct

/-- The engine afterwards. -/
def apply (store : KeyStore) (engine : Engine store.Key) : DeviceAct → Engine store.Key
  | approve => engine.approve store
  | approveAll => (engine.stepCount?.getD 0).repeat (fun engine => engine.approve store) engine
  | deny => engine.deny store
  | disconnect => engine.disconnect store
  | reset => Engine.reset store

end DeviceAct

/-- What happens at an exchange beside the exchange. -/
structure Incident where
  before : List DeviceAct
  /-- An answer in place of the one of the device, which then does not see the command. -/
  answer : Option Bytes
  /-- The place of a byte of the answer that is inverted. -/
  flip : Option Nat
  after : List DeviceAct
  /-- The answer is lost. -/
  fails : Bool
  /-- The time until the answer or the failure is noticed, in milliseconds. -/
  delay : Nat
  deriving DecidableEq, Repr

namespace Incident

def none : Incident := ⟨[], .none, .none, [], false, 0⟩

/-- The answer that arrives instead of the one that was sent. -/
def disturb (incident : Incident) (answer : Bytes) : Bytes :=
  match incident.flip with
  | some place => answer.modify place (· ^^^ 0xff)
  | .none => answer

end Incident

/-- An exchange as it took place: the command, the answer unless it was lost, and the state of
the device afterwards. -/
structure Exchange where
  command : Bytes
  answer : Option Bytes
  state : EngineState
  deriving DecidableEq, Repr

/-- The device, and the exchanges so far, the last one in front. -/
structure InProcess (Key : Type) where
  engine : Engine Key
  exchanges : List Exchange

namespace InProcess

variable (store : KeyStore)

/-- The capacity of the buffer for an answer. -/
def answerCapacity : Nat := 260

def act (session : InProcess store.Key) (acts : List DeviceAct) : InProcess store.Key :=
  { session with engine := acts.foldl (DeviceAct.apply store) session.engine }

def exchange (script : Nat → Incident) (session : InProcess store.Key) (command : Bytes) :
    Arrival × InProcess store.Key :=
  let incident := script session.exchanges.length
  let engine := incident.before.foldl (DeviceAct.apply store) session.engine
  let (answer, engine) := match incident.answer with
    | some answer => (answer, engine)
    | .none => engine.handle store answerCapacity command
  let answer := incident.disturb answer
  let engine := incident.after.foldl (DeviceAct.apply store) engine
  let result := if incident.fails then .error .noDevice
    else match Answer.ofBytes? answer with
      | some answer => .ok answer
      | .none => .error .invalidLength
  let entry : Exchange := ⟨command, if incident.fails then .none else some answer, engine.state⟩
  (.after incident.delay result, ⟨engine, entry :: session.exchanges⟩)

def link (script : Nat → Incident) : Link (InProcess store.Key) := ⟨exchange store script⟩

def start : InProcess store.Key := ⟨.new, []⟩

end InProcess

end ColdSigner
