import ColdSigner.Bytes.Hex
import ColdSigner.Device.Error
/-!
# Errors of the host

Why a call of the host fails: because of the channel, because of the device, or because what
the device says does not fit the request.
-/
namespace ColdSigner

inductive HostError where
  | transport (reason : String)
  | io (reason : String)
  | noDevice
  | invalidLength
  | apdu (error : WireError)
  | framing (error : FrameError)
  | invalidState (actual expected : TxState)
  | unexpectedResponse
  | txIdMismatch
  | transaction (error : TxError)
  | userTimeout
  | requestTimeout
  | userRejected
  | unsupportedKeyType
  /-- The device answers with this status word, which may stand for an error. -/
  | device (status : UInt16) (error : Option DeviceError)
  | invalidKey
  | invalidSignature
  deriving DecidableEq, Repr

namespace HostError

def name : HostError → String
  | transport _ => "Transport"
  | io _ => "Io"
  | noDevice => "NoDevice"
  | invalidLength => "InvalidLength"
  | apdu _ => "Apdu"
  | framing _ => "Framing"
  | invalidState _ _ => "InvalidState"
  | unexpectedResponse => "UnexpectedResponse"
  | txIdMismatch => "TxIdMismatch"
  | transaction _ => "Transaction"
  | userTimeout => "UserTimeout"
  | requestTimeout => "RequestTimeout"
  | userRejected => "UserRejected"
  | unsupportedKeyType => "UnsupportedKeyType"
  | device _ _ => "Device"
  | invalidKey => "InvalidKey"
  | invalidSignature => "InvalidSignature"

def message : HostError → String
  | transport reason => "Transport error " ++ reason
  | io reason => "I/O error " ++ reason
  | noDevice => "No ledger device found"
  | invalidLength => "Invalid response length"
  | apdu error => "APDU codec error: " ++ error.name
  | framing error => "Framing error: " ++ error.name
  | invalidState actual expected =>
      "Invalid transaction state (actual: " ++ actual.name ++ ", expected: " ++ expected.name ++
        ")"
  | unexpectedResponse => "Unexpected APDU response"
  | txIdMismatch => "Transaction id mismatch"
  | transaction error => "Malformed transaction: " ++ error.name
  | userTimeout => "Timeout waiting for user interaction"
  | requestTimeout => "Timeout waiting for device response"
  | userRejected => "Operation rejected by user"
  | unsupportedKeyType => DeviceError.unsupportedKeyType.message
  | device status error =>
      let kind := match error with
        | some error => "Some(" ++ error.name ++ ")"
        | none => "None"
      "Device error 0x" ++ Hex.encode (Status.toBytes status) ++ " (" ++ kind ++ ")"
  | invalidKey => "Invalid key object"
  | invalidSignature => "Invalid signature"

/-- The error that a status word other than success stands for. -/
def ofStatus (status : UInt16) : HostError :=
  match DeviceError.ofStatus? status with
  | some .userRejected => userRejected
  | some .unsupportedKeyType => unsupportedKeyType
  | error => device status error

/-- The error of the device behind an error of the host. -/
def deviceError? : HostError → Option DeviceError
  | userRejected => some .userRejected
  | unsupportedKeyType => some .unsupportedKeyType
  | device _ error => error
  | _ => none

end HostError

end ColdSigner
