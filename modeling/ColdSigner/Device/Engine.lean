import ColdSigner.Apdu.Reassembly
import ColdSigner.Device.Event
import ColdSigner.Device.Output
import ColdSigner.Review.Reviewer
import ColdSigner.Transaction.Decode
/-!
# The engine

The engine answers events and follows the decisions of the user. One request at a time is in
flight; while it is, accounts and signatures are refused. A signing key is kept from the start
of a review until the signature is made.
-/
namespace ColdSigner

structure ReviewContext (Key : Type) where
  /-- The key that will sign; none for an address, and none once the signature is made. -/
  key : Option Key
  review : Review
  reviewer : Reviewer
  signature : Option Signature

namespace ReviewContext

/-- A request at the beginning of its review. -/
def start {Key : Type} (key : Option Key) (review : Review) : ReviewContext Key :=
  ⟨key, review, .start review, none⟩

end ReviewContext

/-- All that the device remembers beside its keys. -/
structure Engine (Key : Type) where
  state : EngineState
  txId : TxId
  chunks : Reassembly
  context : Option (ReviewContext Key)

namespace Engine

/-- The engine of a device that was just switched on. -/
def new {Key : Type} : Engine Key := ⟨.init, FixedBytes.zero 32, .empty, none⟩

section Views

variable {Key : Type} (engine : Engine Key)

/-- What the device can do, and whether it is busy. -/
def flags : AppFlags := ⟨engine.state.isBusy, true, true⟩

def report : Output := .state engine.state engine.txId

/-- The identifier of the request under review; all zeros for an address. -/
def requestId? : Option TxId := engine.context.map (·.review.id)

def account? : Option Account := engine.context.map (·.review.account)

/-- The number of steps of the request under review. -/
def stepCount? : Option Nat := engine.context.map (·.review.stepCount)

def currentStep? : Option ReviewStep :=
  match engine.state with
  | .review _ => engine.context.bind fun context => context.reviewer.currentStep? context.review
  | _ => none

/-- The engine without a request, in the given state. -/
def cleared (state : EngineState) : Engine Key := ⟨state, FixedBytes.zero 32, .empty, none⟩

def reviewing (key : Option Key) (review : Review) : Engine Key :=
  ⟨.review 0, review.id, .empty, some (.start key review)⟩

end Views

variable (store : KeyStore) (engine : Engine store.Key)

/-- Answer a request for an account, and have its address confirmed if that is wanted. -/
def getAccount (request : AccountRequest) : Except DeviceError Output × Engine store.Key :=
  match store.derive request.path request.group request.keyType with
  | .error e => (.error e, engine)
  | .ok (account, _) =>
      (.ok (.account ⟨account.index, account.group, account.keyType, account.publicKey⟩),
        if request.display then reviewing none ⟨.address, FixedBytes.zero 32, account⟩
        else engine)

def startHash (request : HashSignRequest) : Except DeviceError Output × Engine store.Key :=
  match store.derive request.path none .standard with
  | .error e => (.error e, cleared .error)
  | .ok (account, key) =>
      let next := reviewing (some key) ⟨.hash, request.hash, account⟩
      (.ok next.report, next)

/-- The request to sign that a complete message holds: the account and its key, then the
transaction and its identifier. -/
def decodeRequest (payload : Bytes) : Except DeviceError (store.Key × Review) :=
  match (Message.decode payload : Except WireError TxSignRequest) with
  | .error .invalidPath => .error .invalidPath
  | .error _ => .error .malformedTransaction
  | .ok request =>
      match store.derive request.path none .standard with
      | .error e => .error e
      | .ok (account, key) =>
          match UnsignedTx.decode request.tx with
          | .error _ => .error .malformedTransaction
          | .ok (tx, txId) => .ok (key, ⟨.transaction tx, txId, account⟩)

/-- Start the review of a transaction whose message is complete. -/
def startTransaction (payload : Bytes) : Except DeviceError Output × Engine store.Key :=
  match decodeRequest store payload with
  | .error e => (.error e, { engine with chunks := .empty, state := .error })
  | .ok (key, review) =>
      let next := reviewing (some key) review
      (.ok next.report, next)

/-- Take a part of a transaction behind so many others. -/
def load (parts : UInt16) (seq : UInt8) (more : Bool) (data : Bytes) :
    Except DeviceError Output × Engine store.Key :=
  match engine.chunks.push maxPayload ⟨Instruction.signTx.code, seq, more, data⟩ with
  | (.error e, _) => (.error (.ofFrame e), { engine with chunks := .empty, state := .error })
  | (.ok false, chunks) =>
      let next := { engine with chunks, state := .loading (parts + 1) }
      (.ok next.report, next)
  | (.ok true, chunks) =>
      match chunks.payload? with
      | some payload => startTransaction store engine payload
      | none => (.error .protocolFraming, { engine with chunks := .empty, state := .error })

/-- Take a part of a transaction. A part with number zero starts a new one. -/
def loadChunk (seq : UInt8) (more : Bool) (data : Bytes) :
    Except DeviceError Output × Engine store.Key :=
  match engine.state with
  | .loading parts =>
      if seq = 0 then (.error .deviceBusy, engine) else load store engine parts seq more data
  | state =>
      if seq ≠ 0 then (.error .protocolFraming, engine)
      else if state.isBusy then (.error .deviceBusy, engine)
      else load store (cleared state) 0 0 more data

/-- The signature, or why there is none. -/
def signatureAnswer : Except DeviceError Output :=
  match engine.state with
  | .signed =>
      match engine.context with
      | some ⟨_, review, _, some signature⟩ => .ok (.signature ⟨review.id, signature⟩)
      | _ => .error .signingAborted
  | .review _ => .error .approvalPending
  | .rejected => .error .userRejected
  | _ => .error .signingAborted

/-- Release the request. Its identifier is kept. -/
def release : Engine store.Key :=
  { engine with context := none, chunks := .empty, state := .complete }

def abandon : Except DeviceError Output × Engine store.Key :=
  match engine.state with
  | .loading _ =>
      let error := match engine.chunks.close.1 with
        | .error e => DeviceError.ofFrame e
        | .ok _ => .transportDisconnected
      (.error error, { engine with chunks := .empty, context := none, state := .error })
  | .review _ | .signed =>
      let next := { engine with context := none, state := .rejected }
      (.ok next.report, next)
  | _ => (.ok engine.report, engine)

def update (event : Event) : Except DeviceError Output × Engine store.Key :=
  match event with
  | .none | .txGetInfo => (.ok engine.report, engine)
  | .getVersion => (.ok (.appInfo engine.flags), engine)
  | .getAccount request =>
      if engine.state.isBusy then (.error .deviceBusy, engine)
      else getAccount store engine request
  | .signHash request =>
      if engine.state.isBusy then (.error .deviceBusy, engine) else startHash store request
  | .txChunk seq more data => loadChunk store engine seq more data
  | .txGetSignature => (signatureAnswer store engine, engine)
  | .txComplete => (.ok (release store engine).report, release store engine)
  | .disconnect => abandon store engine

/-- Sign what was approved, and forget the key. -/
def sign (context : ReviewContext store.Key) : Engine store.Key :=
  match context.key.bind fun key => store.sign key context.review.id with
  | some signature =>
      { engine with
        state := .signed
        context := some { context with key := none, signature := some signature } }
  | none => { engine with state := .error, context := none }

def deny : Engine store.Key :=
  match engine.state with
  | .review _ => { engine with state := .rejected, context := none }
  | _ => engine

/-- The user accepts the current step. The last one signs, or confirms the address. -/
def approve : Engine store.Key :=
  match engine.state, engine.context with
  | .review _, some context =>
      let context := { context with reviewer := context.reviewer.accept context.review }
      match context.reviewer.state with
      | .pending _ =>
          { engine with state := .review context.reviewer.step, context := some context }
      | .approved =>
          if context.review.subject = .address then
            { engine with state := .verified, context := none }
          else sign store engine context
      | .rejected => deny store engine
  | _, _ => engine

/-- The device is switched off and on. -/
def reset : Engine store.Key := .new

end Engine

end ColdSigner
