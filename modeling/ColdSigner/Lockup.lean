import ColdSigner.Compact.Reader
import ColdSigner.Crypto.Blake2b
import ColdSigner.Crypto.Secp256k1
/-!
# Lockup scripts

A lockup says who may spend an output: the holder of a key, some of the holders of several
keys, or whoever satisfies a script. Keys and scripts are given by their hashes. A hint of four
bytes is made from a hash, and the hint decides to which of four groups a lockup belongs.
-/
namespace ColdSigner

def groupCount : UInt8 := 4

def maxMultisigKeys : Nat := 16

def hashOfKey (key : PublicKey) : FixedBytes 32 := blake2b256 key.toList

/-- A short hash of 32 bits: from 5381, times 33 plus each byte. -/
def djbHash (bytes : Bytes) : Int32 :=
  bytes.foldl (fun hash byte => 33 * hash + Int32.ofNat byte.toNat) 5381

/-- The hint of a hash, which is always odd. -/
def hintOfHash (hash : FixedBytes 32) : UInt32 :=
  (djbHash hash.toList).toUInt32 ||| 1

/-- The group of a hint: its four bytes, combined. -/
def groupOfHint (hint : UInt32) : UInt8 :=
  (Bytes.bigEndian 4 hint.toNat).foldl (· ^^^ ·) 0 % groupCount

/-- Who may spend an output. -/
inductive Lockup where
  | key (hash : FixedBytes 32)
  /-- So many of the holders of the keys with these hashes. -/
  | multisig (hashes : List (FixedBytes 32)) (required : Nat)
  | script (hash : FixedBytes 32)
  deriving DecidableEq

namespace Lockup

def ofKey (key : PublicKey) : Lockup := .key (hashOfKey key)

/-- The hint of a lockup. Of several keys, the first one counts. -/
def hint : Lockup → UInt32
  | key hash | script hash => hintOfHash hash
  | multisig (hash :: _) _ => hintOfHash hash
  | multisig [] _ => 0

def group (lockup : Lockup) : UInt8 := groupOfHint lockup.hint

/-- Between one and all of the keys are required, and there are not too many of them. -/
def isValid : Lockup → Bool
  | multisig hashes required =>
      1 ≤ required && required ≤ hashes.length && hashes.length ≤ maxMultisigKeys
  | _ => true

/-- The written form: a tag, and what belongs to it. -/
def toBytes : Lockup → Bytes
  | key hash => 0 :: hash.toList
  | multisig hashes required =>
      1 :: Compact.ofLength hashes.length ++ hashes.flatMap (·.toList) ++
        Compact.ofLength required
  | script hash => 2 :: hash.toList

def read : Reader Lockup := do
  match ← Reader.byte with
  | 0 => return key (← Reader.fixed 32)
  | 1 =>
      let count ← Reader.length 32
      if count = 0 ∨ maxMultisigKeys < count then throw .invalidMultisig
      else
        let hashes ← Reader.repeated (Reader.fixed 32) count
        let required ← Reader.int
        if required.toInt < 1 ∨ (count : Int) < required.toInt then throw .invalidMultisig
        else return multisig hashes required.toInt.toNat
  | 2 => return script (← Reader.fixed 32)
  | _ => throw .invalidLockupScript

end Lockup

end ColdSigner
