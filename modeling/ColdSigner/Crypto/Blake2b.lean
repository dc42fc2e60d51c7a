import ColdSigner.Bytes
/-!
# BLAKE2b

The hash function BLAKE2b without a key, with an output of 32 bytes.
-/
namespace ColdSigner.Blake2b

/-- The first 64 bits of the fractional parts of the square roots of the first eight primes. -/
def start : Vector UInt64 8 :=
  #v[0x6a09e667f3bcc908, 0xbb67ae8584caa73b, 0x3c6ef372fe94f82b, 0xa54ff53a5f1d36f1,
     0x510e527fade682d1, 0x9b05688c2b3e6c1f, 0x1f83d9abfb41bd6b, 0x5be0cd19137e2179]

/-- The order in which each of ten rounds takes the words of a block. The rounds after the
tenth start over. -/
def orders : List (Vector (Fin 16) 16) :=
  [#v[0, 1, 2, 3, 4, 5, 6, 7, 8, 9, 10, 11, 12, 13, 14, 15],
   #v[14, 10, 4, 8, 9, 15, 13, 6, 1, 12, 0, 2, 11, 7, 5, 3],
   #v[11, 8, 12, 0, 5, 2, 15, 13, 10, 14, 3, 6, 7, 1, 9, 4],
   #v[7, 9, 3, 1, 13, 12, 11, 14, 2, 6, 5, 10, 4, 0, 15, 8],
   #v[9, 0, 5, 7, 2, 4, 10, 15, 14, 1, 11, 12, 6, 8, 3, 13],
   #v[2, 12, 6, 10, 0, 11, 8, 3, 4, 13, 7, 5, 15, 14, 1, 9],
   #v[12, 5, 1, 15, 14, 13, 4, 10, 0, 7, 6, 3, 9, 2, 8, 11],
   #v[13, 11, 7, 14, 12, 1, 3, 9, 5, 0, 15, 4, 8, 6, 2, 10],
   #v[6, 15, 14, 9, 11, 3, 0, 8, 12, 2, 13, 7, 1, 4, 10, 5],
   #v[10, 2, 8, 4, 7, 6, 1, 5, 15, 11, 9, 14, 3, 12, 13, 0]]

/-- Rotate a word to the right by less than its width. -/
def rotateRight (word : UInt64) (amount : UInt64) : UInt64 :=
  (word >>> amount) ||| (word <<< (64 - amount))

/-- Mix two words of a block into four words of the state. -/
def mix (v : Vector UInt64 16) (a b c d : Fin 16) (x y : UInt64) : Vector UInt64 16 :=
  let a₁ := v[a] + v[b] + x
  let d₁ := rotateRight (v[d] ^^^ a₁) 32
  let c₁ := v[c] + d₁
  let b₁ := rotateRight (v[b] ^^^ c₁) 24
  let a₂ := a₁ + b₁ + y
  let d₂ := rotateRight (d₁ ^^^ a₂) 16
  let c₂ := c₁ + d₂
  let b₂ := rotateRight (b₁ ^^^ c₂) 63
  (((v.set a a₂).set b b₂).set c c₂).set d d₂

/-- One round: mix the columns of the state, then its diagonals. -/
def round (m v : Vector UInt64 16) (order : Vector (Fin 16) 16) : Vector UInt64 16 :=
  let word (i : Fin 16) := m[order[i]]
  let v := mix v 0 4 8 12 (word 0) (word 1)
  let v := mix v 1 5 9 13 (word 2) (word 3)
  let v := mix v 2 6 10 14 (word 4) (word 5)
  let v := mix v 3 7 11 15 (word 6) (word 7)
  let v := mix v 0 5 10 15 (word 8) (word 9)
  let v := mix v 1 6 11 12 (word 10) (word 11)
  let v := mix v 2 7 8 13 (word 12) (word 13)
  mix v 3 4 9 14 (word 14) (word 15)

/-- The sixteen words of a block; what the block lacks counts as zeros. -/
def words (block : Bytes) : Vector UInt64 16 :=
  Vector.ofFn fun i =>
    UInt64.ofNat (Bytes.ofLittleEndian ((block.drop (8 * i.val)).take 8))

/-- Take a block into the state. `count` is the number of message bytes up to its end. -/
def compress (h : Vector UInt64 8) (block : Bytes) (count : Nat) (last : Bool) :
    Vector UInt64 8 :=
  let flags : Vector UInt64 8 :=
    #v[0, 0, 0, 0, UInt64.ofNat count, UInt64.ofNat (count / 2 ^ 64),
       if last then 0xffffffffffffffff else 0, 0]
  let v : Vector UInt64 16 := h ++ Vector.zipWith (· ^^^ ·) start flags
  let v := (orders ++ orders.take 2).foldl (round (words block)) v
  Vector.ofFn fun i => h[i] ^^^ v[i.val] ^^^ v[i.val + 8]

/-- Take the remaining blocks of a message, of which `count` bytes are done. -/
def absorb (h : Vector UInt64 8) (count : Nat) : List Bytes → Vector UInt64 8
  | [] => compress h [] count true
  | [block] => compress h block (count + block.length) true
  | block :: rest =>
      absorb (compress h block (count + block.length) false) (count + block.length) rest

def digestOf (h : Vector UInt64 8) : FixedBytes 32 :=
  let word (x : UInt64) := Bytes.littleEndian 8 x.toNat
  ⟨word h[0] ++ word h[1] ++ word h[2] ++ word h[3], by simp [word]⟩

end Blake2b

/-- BLAKE2b-256, a hash of 32 bytes. -/
def blake2b256 (message : Bytes) : FixedBytes 32 :=
  let keyed := Blake2b.start.set 0 (Blake2b.start[0] ^^^ 0x01010020)
  Blake2b.digestOf (Blake2b.absorb keyed 0 (Bytes.pieces 128 message))

end ColdSigner
