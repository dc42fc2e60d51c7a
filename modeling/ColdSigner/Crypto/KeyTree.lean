import ColdSigner.Crypto.Hmac
import ColdSigner.Crypto.Secp256k1
import ColdSigner.Text.Utf8
/-!
# Trees of keys

Hierarchical deterministic keys. Every node has a private key and a chain code, and any child
of it is reached by a number of 32 bits. A child whose number has the highest bit set is
hardened: it depends on the private key of its parent rather than on the public one.
-/
namespace ColdSigner

open Secp256k1

structure KeyNode where
  key : PrivateKey
  chainCode : Bytes

namespace KeyNode

/-- The number from which children are hardened. -/
def hardened : UInt32 := 0x80000000

def root? (seed : Bytes) : Option KeyNode :=
  let hash := hmacSha512 (Text.utf8 "Bitcoin seed") seed
  (PrivateKey.ofNat? (Bytes.ofBigEndian (hash.take 32))).map fun key => ⟨key, hash.drop 32⟩

/-- A child of a node. There is none where the hash or the sum of the keys is out of range. -/
def child? (node : KeyNode) (index : UInt32) : Option KeyNode :=
  let parent :=
    if hardened ≤ index then 0 :: node.key.toBytes.toList else node.key.publicKey.toList
  let hash := hmacSha512 node.chainCode (parent ++ Bytes.bigEndian 4 index.toNat)
  match PrivateKey.ofNat? (Bytes.ofBigEndian (hash.take 32)) with
  | none => none
  | some tweak =>
      (PrivateKey.ofNat? ((tweak.scalar + node.key.scalar) % order)).map fun key =>
        ⟨key, hash.drop 32⟩

/-- The node at the end of a path. -/
def descend? (node : KeyNode) : List UInt32 → Option KeyNode
  | [] => some node
  | index :: rest => (node.child? index).bind (·.descend? rest)

end KeyNode

end ColdSigner
