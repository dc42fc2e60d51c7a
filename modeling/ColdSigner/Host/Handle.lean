import ColdSigner.Account
import ColdSigner.Host.Dialogue
/-!
# Requests of the host

A handle has limits on the time of a command and on the time of the user. A request is cut into
chunks, and its answer is read as the message that belongs to it.
-/
namespace ColdSigner

/-- A call of the host: a dialogue that may fail. -/
abbrev HostCall := ExceptT HostError Dialogue

/-- A handle of a device. Times are in seconds. -/
structure DeviceHandle where
  userTimeout : Nat
  requestTimeout : Nat
  deriving DecidableEq, Repr

structure Command where
  header : CommandHeader
  data : Bytes
  deriving DecidableEq, Repr

namespace Command

def ofChunk (chunk : Chunk) : Command :=
  ⟨⟨commandClass, chunk.ins, chunk.seq, if chunk.more then 0x80 else 0⟩, chunk.data⟩

/-- The bytes of a command: class, instruction, two parameters, length, data. -/
def toBytes (command : Command) : Bytes :=
  let header := command.header
  [header.cla, header.ins, header.p1, header.p2, UInt8.ofNat command.data.length] ++ command.data

end Command

namespace DeviceHandle

/-- The time in which the user has to act, where none is given. -/
def standard : DeviceHandle := ⟨30, 2⟩

variable (handle : DeviceHandle)

/-- The limit on the time of a command in milliseconds. -/
def limit : Nat := 1000 * handle.requestTimeout

def commands (ins : UInt8) (payload : Bytes) : Except HostError (List Bytes) :=
  match frame ins payload with
  | .ok chunks => .ok (chunks.map fun chunk => (Command.ofChunk chunk).toBytes)
  | .error e => .error (.framing e)

/-- Send a request and take the data of its last answer. -/
def request (ins : UInt8) (payload : Bytes) : HostCall Bytes :=
  match commands ins payload with
  | .error e => throw e
  | .ok commands =>
      .mk <| .request commands handle.limit none fun
        | .ended result _ => .done result
        | .expired => .done (.error .userTimeout)

def readMessage {α : Type} [Message α] (data : Bytes) : Except HostError α :=
  (Message.decode data).mapError .apdu

def writeMessage {α : Type} [Message α] (content : α) : Except HostError Bytes :=
  (Message.encode content).mapError .apdu

/-- Send a request with a content. -/
def send {α : Type} [Message α] (instruction : Instruction) (content : α) : HostCall Bytes := do
  handle.request instruction.code (← .mk (.done (writeMessage content)))

/-- Send a request without a content, and read the answer. -/
def ask {α : Type} [Message α] (instruction : Instruction) : HostCall α := do
  let data ← handle.request instruction.code []
  .mk (.done (readMessage data))

/-- What the device says about itself. -/
def appInfo : HostCall AppInfo := handle.ask .getVersion

/-- How far the request in flight has come. -/
def txInfo : HostCall TxInfo := handle.ask .txGetInfo

/-- The time between two questions while the user decides. -/
def pollInterval : Nat := 250

/-- Ask how far the request in flight has come, until that is decided or the budget is used
up. -/
def poll (verdict : TxInfo → Option (Except HostError Unit)) (budget : Nat) : HostCall Unit :=
  .mk <| .request [(Command.ofChunk ⟨Instruction.txGetInfo.code, 0, false, []⟩).toBytes]
    handle.limit (some budget) fun
    | .expired => .done (.error .userTimeout)
    | .ended (.error e) _ => .done (.error e)
    | .ended (.ok data) elapsed =>
        match (readMessage data : Except HostError TxInfo) with
        | .error e => .done (.error e)
        | .ok info =>
            match verdict info with
            | some result => .done result
            | none =>
                if _h : pollInterval ≤ budget - elapsed then
                  .wait pollInterval (poll verdict (budget - elapsed - pollInterval)).run
                else
                  .wait (budget - elapsed) (.done (.error .userTimeout))
  termination_by budget
  decreasing_by
    simp only [pollInterval] at *
    omega

/-- Check that an answer belongs to the request, and read the account in it. The device may
have gone on to a later place of the path. -/
def accountOf (path : DerivationPath) (group : Option UInt8) (answer : AccountResponse) :
    Except HostError Account :=
  if (Lockup.ofKey answer.publicKey).group ≠ answer.group then .error .invalidKey
  else if group.any (· ≠ answer.group) then .error .unexpectedResponse
  else if answer.index < path.last?.getD 0 then .error .unexpectedResponse
  else .ok ⟨path.withLast answer.index, answer.index, answer.group, answer.keyType,
    answer.publicKey⟩

/-- Ask for an account, to be confirmed by the user or not. -/
def requestAccount (path : DerivationPath) (group : Option UInt8) (keyType : KeyType)
    (display : Bool) : HostCall Account := do
  let data ← handle.send .getAccount (⟨path, group, keyType, display⟩ : AccountRequest)
  let answer ← .mk (.done (readMessage data))
  .mk (.done (accountOf path group answer))

def account (path : DerivationPath) (group : Option UInt8) (keyType : KeyType) :
    HostCall Account :=
  handle.requestAccount path group keyType false

/-- What an answer means while the user looks at an address. -/
def addressVerdict (info : TxInfo) : Option (Except HostError Unit) :=
  match info.state with
  | .verified => some (.ok ())
  | .review => none
  | .rejected => some (.error .userRejected)
  | state => some (.error (.invalidState state .verified))

/-- Release the request in flight, and go on whatever comes of it. -/
def releaseAnyway : HostCall Unit := do
  try
    let _ ← handle.request Instruction.txComplete.code []
  catch _ => pure ()

/-- An account whose address the user has confirmed. If the user takes longer than `time`
milliseconds, the request is released. -/
def accountVerified (path : DerivationPath) (group : Option UInt8) (keyType : KeyType)
    (time : Nat) : HostCall Account := do
  let account ← handle.requestAccount path group keyType true
  try
    handle.poll addressVerdict time
    return account
  catch
    | .userTimeout =>
        handle.releaseAnyway
        throw .userTimeout
    | e => throw e

end DeviceHandle

end ColdSigner
