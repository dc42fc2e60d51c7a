import ColdSigner.Lockup
/-!
# Transactions

An unsigned transaction spends the outputs that its inputs refer to, and makes new outputs. Each
input is unlocked by a public key, which is given or is the key of the input before.
-/
namespace ColdSigner

inductive Network where
  | mainnet
  | testnet
  | devnet
  deriving DecidableEq, Repr

namespace Network

def all : List Network := [mainnet, testnet, devnet]

def code : Network → UInt8
  | mainnet => 0
  | testnet => 1
  | devnet => 4

def ofCode? (code : UInt8) : Option Network :=
  all.find? (·.code == code)

def name : Network → String
  | mainnet => "Mainnet"
  | testnet => "Testnet"
  | devnet => "Devnet"

def text : Network → String
  | mainnet => "mainnet"
  | testnet => "testnet"
  | devnet => "devnet"

def ofText? (text : String) : Option Network :=
  all.find? (·.text == text)

end Network

inductive Unlock where
  | key (publicKey : PublicKey)
  | sameAsPrevious
  deriving DecidableEq

/-- An output that is spent, and how it is unlocked. -/
structure TxInput where
  hint : UInt32
  outputKey : FixedBytes 32
  unlock : Unlock
  deriving DecidableEq

structure Token where
  id : FixedBytes 32
  amount : Uint256
  deriving DecidableEq

/-- What somebody receives. -/
structure TxOutput where
  amount : Uint256
  lockup : Lockup
  /-- Milliseconds since 1970 until which the output is locked; zero if it is not. -/
  lockTime : UInt64
  tokens : List Token
  data : Bytes
  deriving DecidableEq

/-- A transaction before it is signed. -/
structure UnsignedTx where
  version : UInt8
  network : Network
  gasAmount : Int32
  gasPrice : Uint256
  inputs : List TxInput
  outputs : List TxOutput
  deriving DecidableEq

namespace UnsignedTx

def knownVersion : UInt8 := 0

/-- The fee: the gas at its price. A negative amount of gas counts as none. -/
def fee? (tx : UnsignedTx) : Option Uint256 :=
  Uint256.ofNat? (tx.gasAmount.toInt.toNat * tx.gasPrice.toNat)

/-- The key that unlocks an input: the last key given up to there. -/
def inputKey? (tx : UnsignedTx) (index : Nat) : Option PublicKey :=
  if index < tx.inputs.length then
    (tx.inputs.take (index + 1)).reverse.findSome? fun input =>
      match input.unlock with
      | .key publicKey => some publicKey
      | .sameAsPrevious => none
  else
    none

/-- The place of the change: the last of several outputs, if it goes back to the signer. -/
def changeIndex? (tx : UnsignedTx) (signer : PublicKey) : Option Nat :=
  if tx.outputs.length < 2 then none
  else match tx.outputs.getLast? with
    | some output =>
        if output.lockup = .ofKey signer then some (tx.outputs.length - 1) else none
    | none => none

end UnsignedTx

end ColdSigner
