import ColdSigner.Proofs.RequestTransfer
/-!
# A new request finds nothing of earlier ones

Whatever was done to a device, once no request is in flight it takes up a new one as if it had just
been switched on (`Engine.update_idle`). So from the new request on, two devices with the same keys
cannot be told apart by what was done to them before (`Engine.no_residue`).
-/
namespace ColdSigner

namespace Event

/-- The event asks for something new: an account, the review of a hash, or the first part of a
transaction. -/
def Begins : Event → Prop
  | getAccount _ | signHash _ => True
  | txChunk seq _ _ => seq = 0
  | none | getVersion | txGetInfo | txGetSignature | txComplete | disconnect => False

/-- With this result, the event leaves nothing of what was before: a request to sign in any case,
one for an account if the user is to look at its address. -/
def TakesOver (result : Except DeviceError Output) : Event → Prop
  | getAccount request => request.display = true ∧ ∃ output, result = .ok output
  | event => event.Begins

end Event

/-- What can be noticed of a device when something is done to it: the bytes that answer a command,
what it has to say to an event, and all that it shows afterwards. -/
structure Reaction where
  answer : Option Bytes
  output : Option (Except DeviceError Output)
  state : EngineState
  flags : AppFlags
  requestId : Option TxId
  account : Option Account
  stepCount : Option Nat
  step : Option ReviewStep

namespace Engine

/-- The bytes that answer an operation, if it is a command. -/
def answer? (store : KeyStore) (engine : Engine store.Key) : Operation → Option Bytes
  | .command capacity bytes => some (handle store engine capacity bytes).1
  | .event _ | .approve | .deny | .disconnect | .reset => none

def reaction (store : KeyStore) (engine : Engine store.Key) (operation : Operation) : Reaction :=
  let next := perform store engine operation
  { answer := answer? store engine operation
    output := output? store engine operation
    state := next.state
    flags := next.flags
    requestId := next.requestId?
    account := next.account?
    stepCount := next.stepCount?
    step := next.currentStep? }

/-- What can be noticed while one operation after the other is done. -/
def reactions (store : KeyStore) (engine : Engine store.Key) : List Operation → List Reaction
  | [] => []
  | operation :: rest =>
      reaction store engine operation :: reactions store (perform store engine operation) rest

variable {store : KeyStore}

/-- The device derives the same account whatever it remembers. -/
theorem fst_getAccount (engine other : Engine store.Key) (request : AccountRequest) :
    (getAccount store engine request).1 = (getAccount store other request).1 := by
  unfold getAccount
  cases store.derive request.path request.group request.keyType <;> rfl

/-- The review of an address has nothing of what was before. -/
theorem snd_getAccount_of_display {engine other : Engine store.Key} {request : AccountRequest}
    {output : Output} (hDisplay : request.display = true)
    (hOk : (getAccount store engine request).1 = .ok output) :
    (getAccount store engine request).2 = (getAccount store other request).2 := by
  unfold getAccount at hOk ⊢
  cases hDerive : store.derive request.path request.group request.keyType with
  | error error =>
      rw [hDerive] at hOk
      cases hOk
  | ok found => simp only [hDisplay, if_true]

/-- Every outcome of a part has a state of its own. -/
theorem load_cleared (state other : EngineState) (parts : UInt16) (seq : UInt8) (more : Bool)
    (data : Bytes) :
    load store (cleared state) parts seq more data =
      load store (cleared other) parts seq more data := rfl

section Idle

variable {state : EngineState} {txId : TxId} {hIdle : state.isBusy = false}

theorem update_txChunk_zero (more : Bool) (data : Bytes) :
    update store (Phase.idle state txId hIdle).engine (.txChunk 0 more data) =
      load store (cleared .init) 0 0 more data := by
  rw [update, loadChunk_idle, if_neg (by simp)]
  exact load_cleared state .init 0 0 more data

/-- A device without a request has the same to say to a new one as a device that was just switched
on. If the new request takes the place of all that was before, both are the same afterwards. -/
theorem update_idle {event : Event} (hBegins : event.Begins) :
    (update store (Phase.idle state txId hIdle).engine event).1 = (update store new event).1 ∧
      (event.TakesOver (update store new event).1 →
        (update store (Phase.idle state txId hIdle).engine event).2 =
          (update store new event).2) := by
  cases event with
  | getAccount request =>
      rw [update_getAccount_idle]
      refine ⟨fst_getAccount _ new request, ?_⟩
      rintro ⟨hDisplay, output, hOk⟩
      exact (snd_getAccount_of_display hDisplay hOk).symm
  | signHash request =>
      rw [update_signHash_idle]
      exact ⟨rfl, fun _ => rfl⟩
  | txChunk seq more data =>
      obtain rfl : seq = 0 := hBegins
      rw [update_txChunk_zero]
      exact ⟨rfl, fun _ => rfl⟩
  | none => exact hBegins.elim
  | getVersion => exact hBegins.elim
  | txGetInfo => exact hBegins.elim
  | txGetSignature => exact hBegins.elim
  | txComplete => exact hBegins.elim
  | disconnect => exact hBegins.elim

end Idle

theorem update_of_not_busy {operations : List Operation} {event : Event}
    (hIdle : (after store operations).state.isBusy = false) (hBegins : event.Begins) :
    (update store (after store operations) event).1 = (update store new event).1 ∧
      (event.TakesOver (update store new event).1 →
        (update store (after store operations) event).2 = (update store new event).2) := by
  obtain ⟨state, txId, hState, hEngine⟩ := exists_idle_of_after hIdle
  rw [hEngine]
  exact update_idle hBegins

/-- Two devices with the same keys may have a different past. If no request is in flight on either,
both have the same to say to a new one. If that takes the place of all that was before, the devices
are the same from then on, and so is all that can be noticed of them whatever is done later. -/
theorem no_residue (store : KeyStore) (first second : List Operation) (event : Event)
    (hFirst : (after store first).state.isBusy = false)
    (hSecond : (after store second).state.isBusy = false) (hBegins : event.Begins) :
    let one := update store (after store first) event
    let other := update store (after store second) event
    one.1 = other.1 ∧
      (event.TakesOver one.1 → one.2 = other.2 ∧
        ∀ later, reactions store one.2 later = reactions store other.2 later) := by
  obtain ⟨hOne, hOneAfter⟩ := update_of_not_busy hFirst hBegins
  obtain ⟨hOther, hOtherAfter⟩ := update_of_not_busy hSecond hBegins
  intro one other
  refine ⟨hOne.trans hOther.symm, fun hTakes => ?_⟩
  have hNew : event.TakesOver (update store new event).1 := hOne ▸ hTakes
  have hSame : one.2 = other.2 := (hOneAfter hNew).trans (hOtherAfter hNew).symm
  exact ⟨hSame, fun later => by rw [hSame]⟩

/-- A device that signed a hash and one that lost a transaction show the same address, and nothing
tells them apart from then on. -/
theorem no_residue_signedOrLost :
    let signed := after oneKey (hashApproval ++ [.event .txComplete])
    let lost := after oneKey [.event (.txChunk 0 true [5]), .disconnect]
    let event : Event := .getAccount ⟨firstAccount, none, .standard, true⟩
    signed.state = .complete ∧ lost.state = .error ∧
      (update oneKey signed event).1 = (update oneKey lost event).1 ∧
      (update oneKey signed event).2.state = .review 0 ∧
      ∀ later, reactions oneKey (update oneKey signed event).2 later =
        reactions oneKey (update oneKey lost event).2 later := by
  intro signed lost event
  obtain ⟨hResult, hAfter⟩ := no_residue oneKey (hashApproval ++ [.event .txComplete])
    [.event (.txChunk 0 true [5]), .disconnect] event rfl rfl trivial
  have hShown : event.TakesOver (update oneKey signed event).1 := ⟨rfl, _, rfl⟩
  exact ⟨rfl, rfl, hResult, rfl, (hAfter hShown).2⟩

end Engine

end ColdSigner
