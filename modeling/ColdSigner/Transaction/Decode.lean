import ColdSigner.Transaction.Encode
/-!
# Reading a transaction

Only transactions that the device can explain to its user are read: of the known version, with
no script, with gas, and with inputs whose keys are known and that belong to one group.
-/
namespace ColdSigner

/-- What the inputs read so far say about the next one: the hint of their last key, and the
group of them all. -/
structure InputContext where
  hint : UInt32
  group : UInt8
  deriving DecidableEq

namespace TxInput

/-- The fewest bytes of an input: hint, key and a tag. -/
def minSize : Nat := 37

/-- The unlock of an input, and the hint that its key has. -/
def readUnlock (previous : Option InputContext) : Reader (Unlock × UInt32) := do
  match ← Reader.byte with
  | 0 =>
      let publicKey ← Reader.fixed 33
      return (.key publicKey, hintOfHash (hashOfKey publicKey))
  | 3 =>
      match previous with
      | some context => return (.sameAsPrevious, context.hint)
      | none => throw .sameAsPreviousFirst
  | _ => throw .invalidUnlockScript

/-- Read an input behind the others. -/
def read (previous : Option InputContext) : Reader (TxInput × InputContext) := do
  let hint := UInt32.ofNat (← Reader.number 4)
  let outputKey ← Reader.fixed 32
  let (unlock, expected) ← readUnlock previous
  let context : InputContext := ⟨hint, groupOfHint hint⟩
  if hint ≠ expected then throw .hintMismatch
  else if previous.any (·.group ≠ context.group) then throw .mixedGroups
  else return (⟨hint, outputKey, unlock⟩, context)

/-- Read so many inputs behind the others. -/
def readMany (previous : Option InputContext) : Nat → Reader (List TxInput)
  | 0 => return []
  | count + 1 => do
      let (input, context) ← read previous
      return input :: (← readMany (some context) count)

/-- Read all inputs, of which there has to be one. -/
def readAll : Reader (List TxInput) := do
  let count ← Reader.length minSize
  if count = 0 then throw .noInputs else readMany none count

end TxInput

namespace Token

/-- The fewest bytes of a token: its identifier and an amount. -/
def minSize : Nat := 33

/-- Read so many tokens that are not among those seen. -/
def readMany (seen : List (FixedBytes 32)) : Nat → Reader (List Token)
  | 0 => return []
  | count + 1 => do
      let id ← Reader.fixed 32
      let amount ← Reader.amount
      if id ∈ seen then throw .duplicateToken
      else return ⟨id, amount⟩ :: (← readMany (id :: seen) count)

end Token

namespace TxOutput

/-- The fewest bytes of an output: amount, lockup, lock time and two lengths. -/
def minSize : Nat := 44

def read : Reader TxOutput := do
  let amount ← Reader.amount
  let lockup ← Lockup.read
  let lockTime := UInt64.ofNat (← Reader.number 8)
  let tokens ← Token.readMany [] (← Reader.length Token.minSize)
  let data ← Reader.bytes (← Reader.length 1)
  return ⟨amount, lockup, lockTime, tokens, data⟩

end TxOutput

namespace UnsignedTx

def read : Reader UnsignedTx := do
  let version ← Reader.byte
  if version ≠ knownVersion then throw .invalidVersion
  let some network := Network.ofCode? (← Reader.byte) | throw .unknownNetwork
  if (← Reader.byte) ≠ 0 then throw .unsupportedScript
  let gasAmount ← Reader.int
  if gasAmount.toInt ≤ 0 then throw .invalidGas
  let gasPrice ← Reader.amount
  let inputs ← TxInput.readAll
  let outputs ← Reader.repeated TxOutput.read (← Reader.length TxOutput.minSize)
  return ⟨version, network, gasAmount, gasPrice, inputs, outputs⟩

/-- The transaction with this written form, and its identifier. -/
def decode (bytes : Bytes) : Except TxError (UnsignedTx × TxId) :=
  (Reader.readAll read bytes).map fun tx => (tx, txIdOfBytes bytes)

end UnsignedTx

end ColdSigner
