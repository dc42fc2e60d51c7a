import ColdSigner.Bytes
/-!
# The curve secp256k1

Points of `y² = x³ + 7` over the integers modulo a prime, and keys of ECDSA over it: a private
key is a positive number below the order of the group, and its public key is the multiple of
the generator by that number, written with the parity of `y` in front of `x`.
-/
namespace ColdSigner

/-- A public key: the parity of `y` in front of `x`. -/
abbrev PublicKey := FixedBytes 33

/-- The two numbers of a signature, 32 bytes each. -/
abbrev Signature := FixedBytes 64

namespace Secp256k1

def fieldSize : Nat :=
  0xfffffffffffffffffffffffffffffffffffffffffffffffffffffffefffffc2f

def order : Nat :=
  0xfffffffffffffffffffffffffffffffebaaedce6af48a03bbfd25e8cd0364141

/-- The power of a number modulo `modulus`, taking `bits` bits of the exponent. -/
def powerMod (modulus base : Nat) : Nat → Nat → Nat
  | 0, _ => 1
  | bits + 1, exponent =>
      let root := powerMod modulus base bits (exponent / 2)
      let square := root * root % modulus
      if exponent % 2 = 1 then square * base % modulus else square

/-- The inverse modulo a prime of 256 bits. -/
def invertMod (prime value : Nat) : Nat :=
  powerMod prime value 256 (prime - 2)

def subMod (a b : Nat) : Nat :=
  (a + fieldSize - b % fieldSize) % fieldSize

/-- A point as `(x / z², y / z³)`. The point at infinity has `z = 0`. -/
structure Point where
  x : Nat
  y : Nat
  z : Nat

namespace Point

def infinity : Point := ⟨1, 1, 0⟩

def ofAffine (x y : Nat) : Point := ⟨x, y, 1⟩

/-- The coordinates of a point; none at infinity. -/
def toAffine? (p : Point) : Option (Nat × Nat) :=
  if p.z = 0 then none
  else
    let inverse := invertMod fieldSize p.z
    let square := inverse * inverse % fieldSize
    some (p.x * square % fieldSize, p.y * (square * inverse % fieldSize) % fieldSize)

def double (p : Point) : Point :=
  let yy := p.y * p.y % fieldSize
  let s := 4 * (p.x * yy) % fieldSize
  let m := 3 * (p.x * p.x) % fieldSize
  let x := subMod (m * m) (2 * s)
  ⟨x, subMod (m * subMod s x) (8 * (yy * yy)), 2 * (p.y * p.z) % fieldSize⟩

def add (p q : Point) : Point :=
  if p.z = 0 then q
  else if q.z = 0 then p
  else
    let pzz := p.z * p.z % fieldSize
    let qzz := q.z * q.z % fieldSize
    let u₁ := p.x * qzz % fieldSize
    let u₂ := q.x * pzz % fieldSize
    let s₁ := p.y * (qzz * q.z % fieldSize) % fieldSize
    let s₂ := q.y * (pzz * p.z % fieldSize) % fieldSize
    let h := subMod u₂ u₁
    let r := subMod s₂ s₁
    if h = 0 then
      if r = 0 then double p else infinity
    else
      let hh := h * h % fieldSize
      let hhh := hh * h % fieldSize
      let v := u₁ * hh % fieldSize
      let x := subMod (r * r) (hhh + 2 * v)
      ⟨x, subMod (r * subMod v x) (s₁ * hhh), p.z * q.z % fieldSize * h % fieldSize⟩

/-- The multiple of a point by a number, of which `bits` bits count. -/
def multiply (p : Point) : Nat → Nat → Point
  | 0, _ => infinity
  | bits + 1, count =>
      if count = 0 then infinity
      else
        let even := double (multiply p bits (count / 2))
        if count % 2 = 1 then add even p else even

def generator : Point :=
  ofAffine 0x79be667ef9dcbbac55a06295ce870b07029bfcdb2dce28d959f2815b16f81798
    0x483ada7726a3c4655da4fbfc0e1108a8fd17b448a68554199c47d08ffb10d4b8

end Point

/-- The two coordinates satisfy the equation of the curve and are below the field size. -/
def isOnCurve (x y : Nat) : Bool :=
  x < fieldSize && y < fieldSize && y * y % fieldSize = (x * x * x + 7) % fieldSize

/-- The `y` with the wanted parity above an `x`, if there is one. -/
def lift? (x : Nat) (odd : Bool) : Option Nat :=
  if fieldSize ≤ x then none
  else
    let y := powerMod fieldSize ((x * x * x + 7) % fieldSize) 256 ((fieldSize + 1) / 4)
    let y := if (y % 2 = 1) = odd then y else fieldSize - y
    if isOnCurve x y then some y else none

/-- The 33 bytes of a point with these coordinates. -/
def compress (x y : Nat) : PublicKey :=
  ⟨UInt8.ofNat (2 + y % 2) :: Bytes.bigEndian 32 x, by simp⟩

/-- Read a point in one of its three forms: compressed, uncompressed, or `x` alone, which stands
for the point with an even `y`. -/
def parsePoint? : Bytes → Option (Nat × Nat)
  | [] => none
  | tag :: body =>
      if body.length = 32 then
        let x := Bytes.ofBigEndian body
        if tag = 2 ∨ tag = 5 then (lift? x false).map (x, ·)
        else if tag = 3 then (lift? x true).map (x, ·)
        else none
      else if body.length = 64 ∧ tag = 4 then
        let x := Bytes.ofBigEndian (body.take 32)
        let y := Bytes.ofBigEndian (body.drop 32)
        if isOnCurve x y then some (x, y) else none
      else none

/-- A positive number below the order of the group. -/
structure PrivateKey where
  scalar : Nat
  pos : 0 < scalar
  lt : scalar < order
  deriving DecidableEq

namespace PrivateKey

/-- A number as a private key, when it is one. -/
def ofNat? (scalar : Nat) : Option PrivateKey :=
  if h : 0 < scalar ∧ scalar < order then some ⟨scalar, h.1, h.2⟩ else none

def toBytes (key : PrivateKey) : FixedBytes 32 :=
  FixedBytes.bigEndian 32 key.scalar

def publicKey (key : PrivateKey) : PublicKey :=
  match (Point.generator.multiply 256 key.scalar).toAffine? with
  | some (x, y) => compress x y
  | none => FixedBytes.zero 33

end PrivateKey

end Secp256k1

end ColdSigner
