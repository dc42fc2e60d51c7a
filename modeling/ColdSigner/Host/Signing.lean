import ColdSigner.Crypto.Ecdsa
import ColdSigner.Host.Handle
import ColdSigner.Transaction.Decode
/-!
# Signing

The host opens a request, waits for the user, fetches the signature, releases the request and
checks the signature against the key of the account. The device has to name the identifier that
the host computed; where it does not, the request is released.
-/
namespace ColdSigner

/-- A request to sign that the device has under review. -/
structure SigningRequest where
  txId : TxId
  handle : DeviceHandle
  deriving DecidableEq

/-- A signature with all that it takes to check it. -/
structure SignedTx where
  txId : TxId
  signature : Signature
  publicKey : PublicKey
  deriving DecidableEq

namespace SignedTx

/-- The signature is right. -/
def verify (signed : SignedTx) : Bool :=
  Secp256k1.verify signed.txId signed.publicKey.toList signed.signature.toList

end SignedTx

/-- The device has to be in the expected state. -/
def checkState (actual expected : TxState) : Except HostError Unit :=
  if actual = expected then .ok () else .error (.invalidState actual expected)

/-- The device has to name the expected request. -/
def checkTxId (actual expected : TxId) : Except HostError Unit :=
  if actual = expected then .ok () else .error .txIdMismatch

namespace SigningRequest

variable (request : SigningRequest)

/-- A number of seconds as it is written in the description of a request. -/
def secondsText (seconds : Nat) : String :=
  if seconds = 0 then "0ns" else Number.Decimal.text seconds ++ "s"

def text : String :=
  "TransactionHandle \x7b tx_id: " ++ Hex.encode request.txId.toList ++ ", request_timeout: " ++
    secondsText request.handle.requestTimeout ++ ", .. \x7d"

def info : HostCall TxInfo := request.handle.txInfo

def complete : HostCall Unit := do
  let info : TxInfo ← request.handle.ask .txComplete
  .mk (.done (checkState info.state .complete))

/-- Release the request, and go on whatever comes of it. -/
def completeAnyway : HostCall Unit := do
  try request.complete catch _ => pure ()

/-- What an answer means while the user looks at the request. -/
def verdict (info : TxInfo) : Option (Except HostError Unit) :=
  match info.state with
  | .signed => some (checkTxId info.txId request.txId)
  | .review => none
  | .rejected => some (.error .userRejected)
  | state => some (.error (.invalidState state .signed))

/-- Wait until the user has approved, for at most `time` milliseconds. -/
def awaitApproval (time : Nat) : HostCall Unit := request.handle.poll request.verdict time

/-- The signature of a request that was approved. -/
def signature : HostCall Signature := do
  let answer : TxSignature ← request.handle.ask .txGetSignature
  .mk (.done (checkTxId answer.txId request.txId))
  return answer.signature

/-- Wait for the user, and collect the signature for the key of an account. -/
def collect (account : Account) (time : Nat) : HostCall SignedTx := do
  try
    request.awaitApproval time
  catch
    | .userTimeout =>
        request.completeAnyway
        throw .userTimeout
    | e => throw e
  let signature ← request.signature
  request.complete
  let signed : SignedTx := ⟨request.txId, signature, account.publicKey⟩
  if signed.verify then return signed else throw .invalidSignature

end SigningRequest

namespace DeviceHandle

variable (handle : DeviceHandle)

/-- Open a request to sign, which the device has to have under review then. -/
def openRequest {α : Type} [Message α] (instruction : Instruction) (content : α) (txId : TxId) :
    HostCall SigningRequest := do
  let data ← handle.send instruction content
  let info : TxInfo ← .mk (.done (readMessage data))
  let request : SigningRequest := ⟨txId, handle⟩
  let check : Except HostError Unit := do
    checkState info.state .review
    checkTxId info.txId txId
  match check with
  | .ok () => return request
  | .error e =>
      request.completeAnyway
      throw e

/-- Open a request to sign a transaction. A malformed one is not sent. -/
def openTransaction (path : DerivationPath) (tx : Bytes) : HostCall SigningRequest :=
  match UnsignedTx.decode tx with
  | .error e => throw (.transaction e)
  | .ok (_, txId) => handle.openRequest .signTx (⟨path, tx⟩ : TxSignRequest) txId

def openHash (path : DerivationPath) (hash : FixedBytes 32) : HostCall SigningRequest :=
  handle.openRequest .signHash (⟨path, hash⟩ : HashSignRequest) hash

/-- Sign a transaction with the account at the end of a path, while the user has `time`
milliseconds. -/
def signTransaction (path : DerivationPath) (tx : Bytes) (time : Nat) : HostCall SignedTx := do
  let account ← handle.account path none .standard
  let request ← handle.openTransaction path tx
  request.collect account time

/-- Sign a hash with the account at the end of a path, while the user has `time`
milliseconds. -/
def signHash (path : DerivationPath) (hash : FixedBytes 32) (time : Nat) :
    HostCall SignedTx := do
  let account ← handle.account path none .standard
  let request ← handle.openHash path hash
  request.collect account time

end DeviceHandle

end ColdSigner
