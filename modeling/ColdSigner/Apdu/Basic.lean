import ColdSigner.Bytes
/-!
# Vocabulary of the protocol

Host and device talk in commands (APDUs). This module names the instructions, the kinds of
keys, the states a request goes through as the host sees them, and what can be wrong with the
bytes of a message.
-/
namespace ColdSigner

/-- What is wrong with the bytes of a message. -/
inductive WireError where
  /-- The buffer is too short or a length does not match. -/
  | invalidLength
  /-- A field has a value that stands for nothing. -/
  | invalidEncoding
  | utf8
  /-- A path is too deep or cut off. -/
  | invalidPath
  deriving DecidableEq, Repr

namespace WireError

def name : WireError → String
  | invalidLength => "InvalidLength"
  | invalidEncoding => "InvalidEncoding"
  | utf8 => "Utf8"
  | invalidPath => "InvalidPath"

def message : WireError → String
  | invalidLength => "invalid length"
  | invalidEncoding => "invalid encoding"
  | utf8 => "invalid utf8"
  | invalidPath => "invalid derivation path"

end WireError

/-- What is wrong with a command or with a sequence of commands. -/
inductive FrameError where
  /-- The whole message is longer than the device takes. -/
  | payloadTooLarge
  /-- A command is malformed or out of order. -/
  | framing
  /-- The channel was closed before the last command of a message. -/
  | truncated
  deriving DecidableEq, Repr

namespace FrameError

def name : FrameError → String
  | payloadTooLarge => "PayloadTooLarge"
  | framing => "Framing"
  | truncated => "Truncated"

def message : FrameError → String
  | payloadTooLarge => "payload too large"
  | framing => "protocol framing error"
  | truncated => "message truncated"

end FrameError

/-- What a command asks for. -/
inductive Instruction where
  | getVersion
  | getAccount
  | signTx
  | txGetInfo
  | txGetSignature
  | txComplete
  | signHash
  deriving DecidableEq, Repr

namespace Instruction

def all : List Instruction :=
  [getVersion, getAccount, signTx, txGetInfo, txGetSignature, txComplete, signHash]

def code : Instruction → UInt8
  | getVersion => 0x00
  | getAccount => 0x01
  | signTx => 0x02
  | txGetInfo => 0x03
  | txGetSignature => 0x04
  | txComplete => 0x05
  | signHash => 0x06

def ofCode? (code : UInt8) : Option Instruction :=
  all.find? (·.code == code)

def name : Instruction → String
  | getVersion => "GetVersion"
  | getAccount => "GetAccount"
  | signTx => "SignTx"
  | txGetInfo => "TxGetInfo"
  | txGetSignature => "TxGetSignature"
  | txComplete => "TxComplete"
  | signHash => "SignHash"

theorem ofCode?_eq_some_iff {c : UInt8} {i : Instruction} : ofCode? c = some i ↔ c = i.code := by
  constructor
  · intro h
    have := List.find?_some h
    exact (beq_iff_eq.1 this).symm
  · rintro rfl
    cases i <;> decide

end Instruction

/-- The kind of a key and of its signatures. -/
inductive KeyType where
  | ecdsa
  /-- Schnorr signatures with keys that are an `x` alone, which the device does not make. -/
  | schnorr
  deriving DecidableEq, Repr

namespace KeyType

def all : List KeyType := [ecdsa, schnorr]

/-- The kind meant where none is named. -/
def standard : KeyType := ecdsa

def code : KeyType → UInt8
  | ecdsa => 0
  | schnorr => 1

def ofCode? (code : UInt8) : Option KeyType :=
  all.find? (·.code == code)

def name : KeyType → String
  | ecdsa => "Default"
  | schnorr => "Bip340Schnorr"

/-- The kind as a user writes it. -/
def text : KeyType → String
  | ecdsa => "default"
  | schnorr => "bip340-schnorr"

def ofText? (text : String) : Option KeyType :=
  all.find? (·.text == text)

theorem ofCode?_eq_some_iff {c : UInt8} {k : KeyType} : ofCode? c = some k ↔ c = k.code := by
  constructor
  · intro h
    have := List.find?_some h
    exact (beq_iff_eq.1 this).symm
  · rintro rfl
    cases k <;> decide

end KeyType

/-- How far a request has come, as the host is told. -/
inductive TxState where
  /-- Nothing is going on. -/
  | init
  | loading
  | review
  /-- The user approved and a signature is ready. -/
  | signed
  /-- The user refused, or the host went away. -/
  | rejected
  | verified
  /-- The request was released. -/
  | complete
  | error
  deriving DecidableEq, Repr

namespace TxState

def all : List TxState :=
  [init, loading, review, signed, rejected, verified, complete, error]

def code : TxState → UInt8
  | init => 0x00
  | loading => 0x01
  | review => 0x10
  | signed => 0x20
  | rejected => 0x21
  | verified => 0x22
  | complete => 0x40
  | error => 0xff

def ofCode? (code : UInt8) : Option TxState :=
  all.find? (·.code == code)

def name : TxState → String
  | init => "Init"
  | loading => "Loading"
  | review => "Review"
  | signed => "Signed"
  | rejected => "Rejected"
  | verified => "Verified"
  | complete => "Complete"
  | error => "Error"

def ofName? (name : String) : Option TxState :=
  all.find? (·.name == name)

theorem ofCode?_eq_some_iff {c : UInt8} {s : TxState} : ofCode? c = some s ↔ c = s.code := by
  constructor
  · intro h
    have := List.find?_some h
    exact (beq_iff_eq.1 this).symm
  · rintro rfl
    cases s <;> decide

end TxState

/-- What identifies a request: the hash of a transaction, or the hash to be signed. -/
abbrev TxId := FixedBytes 32

end ColdSigner
