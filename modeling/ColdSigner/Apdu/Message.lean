import ColdSigner.Apdu.Field
import ColdSigner.Crypto.Secp256k1
import ColdSigner.Path
/-!
# Messages

The contents of requests and of answers, each with its wire form and a reader for it. A reader
reports how many bytes it took.
-/
namespace ColdSigner

/-- What has a wire form. -/
class Message (α : Type) where
  /-- The bytes on the wire, for a value that has a wire form. -/
  toBytes : α → Bytes
  /-- Every field of the value fits into its place. -/
  fits : α → Bool
  /-- Read a value from the front of some bytes, and count the bytes it takes. -/
  parse : Bytes → Except WireError (α × Nat)

namespace Message

variable {α : Type} [Message α]

def encodedLength (value : α) : Nat := (toBytes value).length

/-- Write a value into a buffer of some capacity. -/
def encodeInto (capacity : Nat) (value : α) : Except WireError Bytes :=
  if encodedLength value ≤ capacity ∧ fits value then .ok (toBytes value)
  else .error .invalidLength

/-- Write a value into a buffer of the right size. -/
def encode (value : α) : Except WireError Bytes :=
  encodeInto (encodedLength value) value

/-- Read a value from the front of some bytes. -/
def decode (bytes : Bytes) : Except WireError α :=
  (parse bytes).map (·.1)

end Message

instance : Message DerivationPath where
  toBytes := DerivationPath.toBytes
  fits _ := true
  parse := DerivationPath.parse

instance : Message KeyType where
  toBytes kind := [kind.code]
  fits _ := true
  parse := (FieldReader.coded KeyType.ofCode?).parse

instance : Message TxState where
  toBytes state := [state.code]
  fits _ := true
  parse := (FieldReader.coded TxState.ofCode?).parse

instance : Message TxId where
  toBytes id := id.toList
  fits _ := true
  parse := (FieldReader.bytes 32).parse

/-- The kinds of keys that a device makes. -/
structure KeyTypes where
  ecdsa : Bool
  schnorr : Bool
  deriving DecidableEq, Repr

namespace KeyTypes

/-- One bit for each kind, at the place of its code. -/
def bits (kinds : KeyTypes) : UInt8 :=
  (if kinds.ecdsa then 1 else 0) ||| (if kinds.schnorr then 2 else 0)

/-- The kinds of the known bits. -/
def ofKnownBits (bits : UInt8) : KeyTypes :=
  ⟨bits &&& 1 ≠ 0, bits &&& 2 ≠ 0⟩

/-- The kinds of these bits, if all of them are known. -/
def ofBits? (bits : UInt8) : Option KeyTypes :=
  if bits &&& 0xfc = 0 then some (ofKnownBits bits) else none

def supports (kinds : KeyTypes) : KeyType → Bool
  | .ecdsa => kinds.ecdsa
  | .schnorr => kinds.schnorr

end KeyTypes

/-- What a device can do, and whether it is busy. -/
structure AppFlags where
  /-- A request is in flight. -/
  busy : Bool
  signHash : Bool
  verifyAddress : Bool
  deriving DecidableEq, Repr

namespace AppFlags

def bits (flags : AppFlags) : UInt8 :=
  (if flags.busy then 1 else 0) ||| (if flags.signHash then 2 else 0) |||
    (if flags.verifyAddress then 4 else 0)

/-- The flags of the known bits; other bits are ignored. -/
def ofBits (bits : UInt8) : AppFlags :=
  ⟨bits &&& 1 ≠ 0, bits &&& 2 ≠ 0, bits &&& 4 ≠ 0⟩

end AppFlags

structure AppInfo where
  proto : UInt8
  groups : UInt8
  keyTypes : KeyTypes
  flags : AppFlags
  name : String
  version : String
  deriving DecidableEq, Repr

/-- A text behind its length, which is right for at most 255 bytes. -/
def textBytes (text : String) : Bytes :=
  UInt8.ofNat text.utf8ByteSize :: Text.utf8 text

instance : Message AppInfo where
  toBytes info :=
    [info.proto, info.groups, info.keyTypes.bits, info.flags.bits] ++
      textBytes info.name ++ textBytes info.version
  fits info := info.name.utf8ByteSize ≤ 255 && info.version.utf8ByteSize ≤ 255
  parse := FieldReader.parse do
    let header ← FieldReader.bytes 4
    let some keyTypes := KeyTypes.ofBits? (header.toList.getD 2 0) | throw .invalidEncoding
    let name ← FieldReader.text
    let version ← FieldReader.text
    return ⟨header.toList.getD 0 0, header.toList.getD 1 0, keyTypes,
      AppFlags.ofBits (header.toList.getD 3 0), name, version⟩

/-- The content of a `getAccount` request. -/
structure AccountRequest where
  path : DerivationPath
  /-- The group in which the account should be. -/
  group : Option UInt8
  keyType : KeyType
  /-- The user should confirm the address. -/
  display : Bool
  deriving DecidableEq

/-- The value of the group field where no group is asked for. -/
def noGroup : UInt8 := 0xff

namespace AccountRequest

def toBytes (request : AccountRequest) : Bytes :=
  request.group.getD noGroup :: request.keyType.code :: request.path.toBytes ++
    (if request.display then [1] else [])

/-- Read a request. Behind the path there is nothing, or one byte that says whether to show the
address; a zero there is not counted. -/
def parse : Bytes → Except WireError (AccountRequest × Nat)
  | group :: code :: rest => do
      let some keyType := KeyType.ofCode? code | throw .invalidEncoding
      let (path, count) ← DerivationPath.parse rest
      let group := if group = noGroup then none else some group
      match rest.drop count with
      | [] | [0] => return (⟨path, group, keyType, false⟩, 2 + count)
      | [1] => return (⟨path, group, keyType, true⟩, 2 + count + 1)
      | _ => throw .invalidEncoding
  | _ => throw .invalidLength

end AccountRequest

instance : Message AccountRequest where
  toBytes := AccountRequest.toBytes
  fits _ := true
  parse := AccountRequest.parse

structure AccountResponse where
  index : UInt32
  group : UInt8
  keyType : KeyType
  publicKey : PublicKey
  deriving DecidableEq

instance : Message AccountResponse where
  toBytes answer :=
    Bytes.littleEndian 4 answer.index.toNat ++
      answer.group :: answer.keyType.code :: answer.publicKey.toList
  fits _ := true
  parse := FieldReader.parse do
    let index ← FieldReader.number 4
    let group ← FieldReader.byte
    let keyType ← FieldReader.coded KeyType.ofCode?
    let publicKey ← FieldReader.bytes 33
    return ⟨UInt32.ofNat index, group, keyType, publicKey⟩

/-- The content of a `signTx` request: all that is behind the path is the transaction. -/
structure TxSignRequest where
  path : DerivationPath
  tx : Bytes
  deriving DecidableEq

instance : Message TxSignRequest where
  toBytes request := request.path.toBytes ++ request.tx
  fits _ := true
  parse bytes := do
    let (path, count) ← DerivationPath.parse bytes
    return (⟨path, bytes.drop count⟩, bytes.length)

structure HashSignRequest where
  path : DerivationPath
  hash : FixedBytes 32
  deriving DecidableEq

instance : Message HashSignRequest where
  toBytes request := request.path.toBytes ++ request.hash.toList
  fits _ := true
  parse bytes := do
    let (path, count) ← DerivationPath.parse bytes
    match FixedBytes.ofList? 32 (bytes.drop count) with
    | some hash => return (⟨path, hash⟩, bytes.length)
    | none => throw .invalidLength

/-- The answer to most requests: how far the request in flight has come. -/
structure TxInfo where
  state : TxState
  /-- The number of parts received or the step under review. -/
  value : UInt16
  txId : TxId
  deriving DecidableEq

instance : Message TxInfo where
  toBytes info :=
    info.state.code :: Bytes.littleEndian 2 info.value.toNat ++ info.txId.toList
  fits _ := true
  parse := FieldReader.parse do
    let state ← FieldReader.coded TxState.ofCode?
    let value ← FieldReader.number 2
    let txId ← FieldReader.bytes 32
    return ⟨state, UInt16.ofNat value, txId⟩

structure TxSignature where
  txId : TxId
  signature : Signature
  deriving DecidableEq

instance : Message TxSignature where
  toBytes answer := answer.txId.toList ++ answer.signature.toList
  fits _ := true
  parse := FieldReader.parse do
    let txId ← FieldReader.bytes 32
    let signature ← FieldReader.bytes 64
    return ⟨txId, signature⟩

end ColdSigner
