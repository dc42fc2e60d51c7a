import ColdSigner.Crypto.Hmac
import ColdSigner.Crypto.Secp256k1
/-!
# ECDSA over secp256k1

Signatures of a 32-byte hash. The secret number of a signature comes from a generator that
starts from the key and the hash, so that signing is a function. Of the two signatures that a
secret number gives, the one with the smaller second half is made, and only such are accepted.
-/
namespace ColdSigner.Secp256k1

/-- The generator of secret numbers: its key and its value. -/
structure NonceState where
  key : Bytes
  value : Bytes

namespace NonceState

/-- Take data into the generator. -/
def update (s : NonceState) (data : Bytes) : NonceState :=
  let key := hmacSha256 s.key (s.value ++ data)
  ⟨key, hmacSha256 key s.value⟩

/-- The generator for a private key and a hash, which is taken as it stands. -/
def start (key : PrivateKey) (hash : Bytes) : NonceState :=
  let secret := key.toBytes.toList ++ hash
  let s : NonceState := ⟨List.replicate 32 0, List.replicate 32 1⟩
  (s.update (0 :: secret)).update (1 :: secret)

/-- The first number in range among so many attempts. -/
def nonce? : Nat → NonceState → Option PrivateKey
  | 0, _ => none
  | attempts + 1, s =>
      let value := hmacSha256 s.key s.value
      match PrivateKey.ofNat? (Bytes.ofBigEndian value) with
      | some k => some k
      | none => nonce? attempts (update ⟨s.key, value⟩ [0])

end NonceState

/-- Sign a hash. There is no signature where a half of it would be zero. -/
def sign? (key : PrivateKey) (hash : FixedBytes 32) : Option Signature :=
  let z := hash.toNat % order
  match NonceState.nonce? 128 (.start key hash.toList) with
  | none => none
  | some nonce =>
      match (Point.generator.multiply 256 nonce.scalar).toAffine? with
      | none => none
      | some (x, _) =>
          let r := x % order
          let s := invertMod order nonce.scalar * ((z + r * key.scalar) % order) % order
          if r = 0 ∨ s = 0 then none
          else
            let low := if order / 2 < s then order - s else s
            some ⟨Bytes.bigEndian 32 r ++ Bytes.bigEndian 32 low, by simp⟩

/-- Whether a signature of a hash is right for a point. -/
def verifyPoint (hash : FixedBytes 32) (x y r s : Nat) : Bool :=
  let inverse := invertMod order s
  let u := hash.toNat % order * inverse % order
  let v := r * inverse % order
  let sum := (Point.generator.multiply 256 u).add ((Point.ofAffine x y).multiply 256 v)
  match sum.toAffine? with
  | some (x, _) => x % order = r
  | none => false

/-- Whether a signature of a hash is right for a public key in any form. Malformed keys and
signatures are not, nor are signatures whose second half is the larger one. -/
def verify (hash : FixedBytes 32) (publicKey signature : Bytes) : Bool :=
  match parsePoint? publicKey with
  | none => false
  | some (x, y) =>
      let r := Bytes.ofBigEndian (signature.take 32)
      let s := Bytes.ofBigEndian (signature.drop 32)
      signature.length = 64 && 0 < r && r < order && 0 < s && s ≤ order / 2 &&
        verifyPoint hash x y r s

end ColdSigner.Secp256k1
