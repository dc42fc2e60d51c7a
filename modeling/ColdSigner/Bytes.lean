/-!
# Byte strings

A byte string is a list of bytes. A value of fixed size (a hash, a key, a signature) carries
its length in its type. Numbers are written with the least significant byte first
(`littleEndian`) or last (`bigEndian`); the two directions agree on every width:
`ofLittleEndian_littleEndian` and `littleEndian_ofLittleEndian`.
-/
namespace ColdSigner

-- A power of a number is the one of the core library, also where general powers are known.
attribute [instance(high)] instPowNat
attribute [default_instance 100000] instPowNat

abbrev Bytes := List UInt8

namespace Bytes

/-- The `width` lowest bytes of a number, least significant first. Higher bytes are dropped. -/
def littleEndian : Nat → Nat → Bytes
  | 0, _ => []
  | width + 1, value => UInt8.ofNat (value % 256) :: littleEndian width (value / 256)

/-- The number whose bytes, least significant first, are given. -/
def ofLittleEndian : Bytes → Nat
  | [] => 0
  | byte :: rest => byte.toNat + 256 * ofLittleEndian rest

/-- The `width` lowest bytes of a number, most significant first. -/
def bigEndian (width value : Nat) : Bytes :=
  (littleEndian width value).reverse

/-- The number whose bytes, most significant first, are given. -/
def ofBigEndian (bytes : Bytes) : Nat :=
  bytes.foldl (fun value byte => 256 * value + byte.toNat) 0

@[simp] theorem length_littleEndian (width value : Nat) :
    (littleEndian width value).length = width := by
  induction width generalizing value with
  | zero => rfl
  | succ width ih => simp [littleEndian, ih]

@[simp] theorem length_bigEndian (width value : Nat) :
    (bigEndian width value).length = width := by
  simp [bigEndian]

theorem ofLittleEndian_lt (bytes : Bytes) : ofLittleEndian bytes < 256 ^ bytes.length := by
  induction bytes with
  | nil => simp [ofLittleEndian]
  | cons byte rest ih =>
      have := byte.toNat_lt
      simp only [ofLittleEndian, List.length_cons, Nat.pow_succ]
      omega

theorem ofLittleEndian_littleEndian (width value : Nat) :
    ofLittleEndian (littleEndian width value) = value % 256 ^ width := by
  induction width generalizing value with
  | zero => simp [littleEndian, ofLittleEndian, Nat.mod_one]
  | succ width ih =>
      have : (UInt8.ofNat (value % 256)).toNat = value % 256 := by
        rw [UInt8.toNat_ofNat']; omega
      rw [littleEndian, ofLittleEndian, ih, this, Nat.pow_succ', Nat.mod_mul]

theorem littleEndian_ofLittleEndian (bytes : Bytes) :
    littleEndian bytes.length (ofLittleEndian bytes) = bytes := by
  induction bytes with
  | nil => rfl
  | cons byte rest ih =>
      have hByte := byte.toNat_lt
      have hLow : (byte.toNat + 256 * ofLittleEndian rest) % 256 = byte.toNat := by omega
      have hHigh : (byte.toNat + 256 * ofLittleEndian rest) / 256 = ofLittleEndian rest := by
        omega
      simp [littleEndian, ofLittleEndian, hLow, hHigh, ih]

theorem ofBigEndian_append (bytes : Bytes) (byte : UInt8) :
    ofBigEndian (bytes ++ [byte]) = 256 * ofBigEndian bytes + byte.toNat := by
  simp [ofBigEndian]

theorem ofBigEndian_reverse (bytes : Bytes) :
    ofBigEndian bytes.reverse = ofLittleEndian bytes := by
  induction bytes with
  | nil => rfl
  | cons byte rest ih =>
      rw [List.reverse_cons, ofBigEndian_append, ih, ofLittleEndian]
      omega

theorem ofBigEndian_bigEndian (width value : Nat) :
    ofBigEndian (bigEndian width value) = value % 256 ^ width := by
  rw [bigEndian, ofBigEndian_reverse, ofLittleEndian_littleEndian]

theorem ofBigEndian_lt (bytes : Bytes) : ofBigEndian bytes < 256 ^ bytes.length := by
  have h := ofLittleEndian_lt bytes.reverse
  rwa [← ofBigEndian_reverse, List.reverse_reverse, List.length_reverse] at h

theorem bigEndian_ofBigEndian (bytes : Bytes) :
    bigEndian bytes.length (ofBigEndian bytes) = bytes := by
  have h := littleEndian_ofLittleEndian bytes.reverse
  rw [← ofBigEndian_reverse, List.reverse_reverse, List.length_reverse] at h
  rw [bigEndian, h, List.reverse_reverse]

/-- The byte string cut into pieces of `size` bytes; the last piece may be shorter. An empty
byte string has no pieces. -/
def pieces (size : Nat) (bytes : Bytes) : List Bytes :=
  if _h : size = 0 ∨ bytes = [] then []
  else bytes.take size :: pieces size (bytes.drop size)
  termination_by bytes.length
  decreasing_by
    have := List.length_pos_iff.2 (not_or.1 _h).2
    simp only [List.length_drop]
    omega

theorem pieces_nil (size : Nat) : pieces size [] = [] := by
  rw [pieces]; simp

theorem pieces_of_ne_nil {size : Nat} {bytes : Bytes} (hSize : size ≠ 0) (h : bytes ≠ []) :
    pieces size bytes = bytes.take size :: pieces size (bytes.drop size) := by
  rw [pieces, dif_neg (by simp [hSize, h])]

theorem flatten_pieces {size : Nat} (hSize : size ≠ 0) (bytes : Bytes) :
    (pieces size bytes).flatten = bytes := by
  induction hLength : bytes.length using Nat.strongRecOn generalizing bytes with
  | ind length ih =>
      by_cases h : bytes = []
      · simp [h, pieces_nil]
      · have hPos := List.length_pos_iff.2 h
        rw [pieces_of_ne_nil hSize h, List.flatten_cons,
          ih (bytes.drop size).length (by simp only [List.length_drop]; omega) _ rfl,
          List.take_append_drop]

end Bytes

/-- A byte string of exactly `size` bytes. -/
structure FixedBytes (size : Nat) where
  toList : Bytes
  length_toList : toList.length = size
  deriving DecidableEq

namespace FixedBytes

attribute [simp] length_toList

theorem ext {size : Nat} {a b : FixedBytes size} (h : a.toList = b.toList) : a = b := by
  cases a; cases b; simp_all

def zero (size : Nat) : FixedBytes size :=
  ⟨List.replicate size 0, List.length_replicate⟩

/-- The byte string as a value of fixed size, when it has that size. -/
def ofList? (size : Nat) (bytes : Bytes) : Option (FixedBytes size) :=
  if h : bytes.length = size then some ⟨bytes, h⟩ else none

/-- The `size` lowest bytes of a number, most significant first. -/
def bigEndian (size value : Nat) : FixedBytes size :=
  ⟨Bytes.bigEndian size value, Bytes.length_bigEndian size value⟩

/-- The number written with the most significant byte first. -/
def toNat {size : Nat} (bytes : FixedBytes size) : Nat :=
  Bytes.ofBigEndian bytes.toList

theorem ofList?_eq_some_iff {size : Nat} {bytes : Bytes} {value : FixedBytes size} :
    ofList? size bytes = some value ↔ bytes = value.toList := by
  unfold ofList?
  constructor
  · intro h
    split at h
    · cases h; rfl
    · simp at h
  · rintro rfl
    simp

end FixedBytes

end ColdSigner
