import ColdSigner.Account
import ColdSigner.Crypto.Ecdsa
import ColdSigner.Crypto.KeyTree
/-!
# Keys from a seed
-/
namespace ColdSigner

/-- The keys of the tree that grows from a seed. A key that the tree lacks is reported as a
wrong path. -/
def seedStore (seed : FixedBytes 64) : KeyStore where
  Key := Secp256k1.PrivateKey
  key indices :=
    match (KeyNode.root? seed.toList).bind (·.descend? indices) with
    | some node => .ok node.key
    | none => .error .invalidPath
  publicKey := Secp256k1.PrivateKey.publicKey
  sign := Secp256k1.sign?

end ColdSigner
