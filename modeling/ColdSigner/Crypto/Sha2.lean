import ColdSigner.Bytes
/-!
# SHA-2

The Secure Hash Algorithms SHA-256 and SHA-512, with words of 32 and of 64 bits. Both work in
the same way; a `Variant` holds what differs. The constants of the smaller one are the upper
halves of the constants of the larger one, because both are leading bits of the same roots.
-/
namespace ColdSigner.Sha2

/-- Three rotations, or two rotations and a shift. -/
structure Amounts where
  first : Nat
  second : Nat
  third : Nat

/-- The width of a word, the number of rounds and the amounts of rotation. -/
structure Variant where
  wordBytes : Nat
  rounds : Nat
  sumA : Amounts
  sumE : Amounts
  scheduleEarly : Amounts
  scheduleLate : Amounts

/-- The variant behind SHA-256. -/
def small : Variant where
  wordBytes := 4
  rounds := 64
  sumA := ⟨2, 13, 22⟩
  sumE := ⟨6, 11, 25⟩
  scheduleEarly := ⟨7, 18, 3⟩
  scheduleLate := ⟨17, 19, 10⟩

def large : Variant where
  wordBytes := 8
  rounds := 80
  sumA := ⟨28, 34, 39⟩
  sumE := ⟨14, 18, 41⟩
  scheduleEarly := ⟨1, 8, 7⟩
  scheduleLate := ⟨19, 61, 6⟩

/-- The first 64 bits of the fractional parts of the cube roots of the first 80 primes. -/
def roundConstants : List Nat :=
  [0x428a2f98d728ae22, 0x7137449123ef65cd, 0xb5c0fbcfec4d3b2f, 0xe9b5dba58189dbbc,
   0x3956c25bf348b538, 0x59f111f1b605d019, 0x923f82a4af194f9b, 0xab1c5ed5da6d8118,
   0xd807aa98a3030242, 0x12835b0145706fbe, 0x243185be4ee4b28c, 0x550c7dc3d5ffb4e2,
   0x72be5d74f27b896f, 0x80deb1fe3b1696b1, 0x9bdc06a725c71235, 0xc19bf174cf692694,
   0xe49b69c19ef14ad2, 0xefbe4786384f25e3, 0x0fc19dc68b8cd5b5, 0x240ca1cc77ac9c65,
   0x2de92c6f592b0275, 0x4a7484aa6ea6e483, 0x5cb0a9dcbd41fbd4, 0x76f988da831153b5,
   0x983e5152ee66dfab, 0xa831c66d2db43210, 0xb00327c898fb213f, 0xbf597fc7beef0ee4,
   0xc6e00bf33da88fc2, 0xd5a79147930aa725, 0x06ca6351e003826f, 0x142929670a0e6e70,
   0x27b70a8546d22ffc, 0x2e1b21385c26c926, 0x4d2c6dfc5ac42aed, 0x53380d139d95b3df,
   0x650a73548baf63de, 0x766a0abb3c77b2a8, 0x81c2c92e47edaee6, 0x92722c851482353b,
   0xa2bfe8a14cf10364, 0xa81a664bbc423001, 0xc24b8b70d0f89791, 0xc76c51a30654be30,
   0xd192e819d6ef5218, 0xd69906245565a910, 0xf40e35855771202a, 0x106aa07032bbd1b8,
   0x19a4c116b8d2d0c8, 0x1e376c085141ab53, 0x2748774cdf8eeb99, 0x34b0bcb5e19b48a8,
   0x391c0cb3c5c95a63, 0x4ed8aa4ae3418acb, 0x5b9cca4f7763e373, 0x682e6ff3d6b2b8a3,
   0x748f82ee5defb2fc, 0x78a5636f43172f60, 0x84c87814a1f0ab72, 0x8cc702081a6439ec,
   0x90befffa23631e28, 0xa4506cebde82bde9, 0xbef9a3f7b2c67915, 0xc67178f2e372532b,
   0xca273eceea26619c, 0xd186b8c721c0c207, 0xeada7dd6cde0eb1e, 0xf57d4f7fee6ed178,
   0x06f067aa72176fba, 0x0a637dc5a2c898a6, 0x113f9804bef90dae, 0x1b710b35131c471b,
   0x28db77f523047d84, 0x32caab7b40c72493, 0x3c9ebe0a15c9bebc, 0x431d67c49c100d4c,
   0x4cc5d4becb3e42b6, 0x597f299cfc657e2a, 0x5fcb6fab3ad6faec, 0x6c44198c4a475817]

/-- Eight words: the value carried from block to block. -/
structure State (bits : Nat) where
  a : BitVec bits
  b : BitVec bits
  c : BitVec bits
  d : BitVec bits
  e : BitVec bits
  f : BitVec bits
  g : BitVec bits
  h : BitVec bits

namespace Variant

abbrev bits (v : Variant) : Nat := 8 * v.wordBytes

/-- The number of bytes in a block: sixteen words. -/
def blockBytes (v : Variant) : Nat := 16 * v.wordBytes

/-- The leading bits of a 64-bit constant. -/
def constant (v : Variant) (value : Nat) : BitVec v.bits :=
  BitVec.ofNat v.bits (value >>> (64 - v.bits))

/-- The first bits of the fractional parts of the square roots of the first eight primes. -/
def start (v : Variant) : State v.bits where
  a := v.constant 0x6a09e667f3bcc908
  b := v.constant 0xbb67ae8584caa73b
  c := v.constant 0x3c6ef372fe94f82b
  d := v.constant 0xa54ff53a5f1d36f1
  e := v.constant 0x510e527fade682d1
  f := v.constant 0x9b05688c2b3e6c1f
  g := v.constant 0x1f83d9abfb41bd6b
  h := v.constant 0x5be0cd19137e2179

/-- Three rotations of a word, combined. -/
def sum (v : Variant) (amounts : Amounts) (x : BitVec v.bits) : BitVec v.bits :=
  x.rotateRight amounts.first ^^^ x.rotateRight amounts.second ^^^ x.rotateRight amounts.third

/-- Two rotations and a shift of a word, combined. -/
def spread (v : Variant) (amounts : Amounts) (x : BitVec v.bits) : BitVec v.bits :=
  x.rotateRight amounts.first ^^^ x.rotateRight amounts.second ^^^ (x >>> amounts.third)

/-- The words of the message schedule. The window holds the next sixteen of them; each step
hands out its first word and appends the word sixteen places later. -/
def schedule (v : Variant) : Nat → List (BitVec v.bits) → List (BitVec v.bits)
  | 0, _ => []
  | _ + 1, [] => []
  | count + 1, word :: window =>
      let later := v.spread v.scheduleLate (window.getD 13 0) + window.getD 8 0 +
        v.spread v.scheduleEarly (window.getD 0 0) + word
      word :: schedule v count (window ++ [later])

/-- One round: a word of the schedule with its constant. -/
def round (v : Variant) (s : State v.bits) (input : BitVec v.bits × BitVec v.bits) :
    State v.bits :=
  let choice := (s.e &&& s.f) ^^^ (~~~s.e &&& s.g)
  let majority := (s.a &&& s.b) ^^^ (s.a &&& s.c) ^^^ (s.b &&& s.c)
  let left := s.h + v.sum v.sumE s.e + choice + input.2 + input.1
  let right := v.sum v.sumA s.a + majority
  ⟨left + right, s.a, s.b, s.c, s.d + left, s.e, s.f, s.g⟩

/-- Take one block into the state. -/
def compress (v : Variant) (s : State v.bits) (block : Bytes) : State v.bits :=
  let words := (Bytes.pieces v.wordBytes block).map fun word =>
    BitVec.ofNat v.bits (Bytes.ofBigEndian word)
  let inputs := (v.schedule v.rounds words).zip (roundConstants.map v.constant)
  let t := inputs.foldl v.round s
  ⟨s.a + t.a, s.b + t.b, s.c + t.c, s.d + t.d, s.e + t.e, s.f + t.f, s.g + t.g, s.h + t.h⟩

/-- The message, a mark, zeros up to a full block, and the length of the message in bits. -/
def padded (v : Variant) (message : Bytes) : Bytes :=
  let used := message.length + 1 + 2 * v.wordBytes
  let zeros := (v.blockBytes - used % v.blockBytes) % v.blockBytes
  message ++ 0x80 :: List.replicate zeros 0 ++
    Bytes.bigEndian (2 * v.wordBytes) (8 * message.length)

def digestOf (v : Variant) (s : State v.bits) : FixedBytes (8 * v.wordBytes) :=
  let word (x : BitVec v.bits) := Bytes.bigEndian v.wordBytes x.toNat
  ⟨word s.a ++ word s.b ++ word s.c ++ word s.d ++ word s.e ++ word s.f ++ word s.g ++
    word s.h, by simp [word]; omega⟩

def digest (v : Variant) (message : Bytes) : FixedBytes (8 * v.wordBytes) :=
  v.digestOf ((Bytes.pieces v.blockBytes (v.padded message)).foldl v.compress v.start)

end Variant

end Sha2

def sha256 (message : Bytes) : FixedBytes 32 :=
  Sha2.small.digest message

def sha512 (message : Bytes) : FixedBytes 64 :=
  Sha2.large.digest message

end ColdSigner
