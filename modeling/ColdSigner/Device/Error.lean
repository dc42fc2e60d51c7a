import ColdSigner.Apdu.Status
import ColdSigner.Transaction.Error
/-!
# Errors of the device

What the device answers instead of data. Each error has a code, which is the lower byte of its
status word.
-/
namespace ColdSigner

/-- Why the device does not do what the host asks for. -/
inductive DeviceError where
  | invalidPath
  | unsupportedKeyType
  | malformedTransaction
  | payloadTooLarge
  | deviceBusy
  | protocolFraming
  | userRejected
  | signingAborted
  | transportDisconnected
  | unexpectedEvent
  | approvalPending
  | encodingFailed
  deriving DecidableEq, Repr

namespace DeviceError

def all : List DeviceError :=
  [invalidPath, unsupportedKeyType, malformedTransaction, payloadTooLarge, deviceBusy,
   protocolFraming, userRejected, signingAborted, transportDisconnected, unexpectedEvent,
   approvalPending, encodingFailed]

def code : DeviceError → UInt8
  | invalidPath => 0x01
  | unsupportedKeyType => 0x02
  | malformedTransaction => 0x03
  | payloadTooLarge => 0x04
  | deviceBusy => 0x05
  | protocolFraming => 0x06
  | userRejected => 0x07
  | signingAborted => 0x08
  | transportDisconnected => 0x09
  | unexpectedEvent => 0x0a
  | approvalPending => 0x0b
  | encodingFailed => 0x0c

def ofCode? (code : UInt8) : Option DeviceError :=
  all.find? (·.code == code)

def name : DeviceError → String
  | invalidPath => "InvalidPath"
  | unsupportedKeyType => "UnsupportedKeyType"
  | malformedTransaction => "MalformedTransaction"
  | payloadTooLarge => "PayloadTooLarge"
  | deviceBusy => "DeviceBusy"
  | protocolFraming => "ProtocolFraming"
  | userRejected => "UserRejected"
  | signingAborted => "SigningAborted"
  | transportDisconnected => "TransportDisconnected"
  | unexpectedEvent => "UnexpectedEvent"
  | approvalPending => "ApprovalPending"
  | encodingFailed => "EncodingFailed"

def ofName? (name : String) : Option DeviceError :=
  all.find? (·.name == name)

def message : DeviceError → String
  | invalidPath => "invalid derivation path"
  | unsupportedKeyType => "BIP340 Schnorr is not supported yet"
  | malformedTransaction => "malformed transaction"
  | payloadTooLarge => "payload too large"
  | deviceBusy => "device busy"
  | protocolFraming => "protocol framing error"
  | userRejected => "rejected by user"
  | signingAborted => "signing aborted"
  | transportDisconnected => "transport disconnected"
  | unexpectedEvent => "unexpected event"
  | approvalPending => "pending user approval"
  | encodingFailed => "response encoding failed"

def status (error : DeviceError) : UInt16 := Status.ofCode error.code

def ofStatus? (word : UInt16) : Option DeviceError :=
  (Status.code? word).bind ofCode?

/-- How a wrong sequence of commands is reported. -/
def ofFrame : FrameError → DeviceError
  | .payloadTooLarge => payloadTooLarge
  | .framing => protocolFraming
  | .truncated => transportDisconnected

/-- How a malformed message is reported: a wrong path as such, all else as a wrong command. -/
def ofWire : WireError → DeviceError
  | .invalidPath => invalidPath
  | _ => protocolFraming

theorem ofStatus?_status (error : DeviceError) : ofStatus? error.status = some error := by
  cases error <;> decide

end DeviceError

end ColdSigner
