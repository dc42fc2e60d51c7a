import ColdSigner.Apdu.Basic
/-!
# Derivation paths

A path leads from the root of a tree of keys to one key. It has at most eight numbers, and a
number with the highest bit set is hardened. On the wire a path is its depth in one byte and
four bytes for each number, the least significant first.
-/
namespace ColdSigner

/-- At most eight numbers. -/
structure DerivationPath where
  indices : List UInt32
  length_le : indices.length ≤ 8
  deriving DecidableEq

namespace DerivationPath

def maxDepth : Nat := 8

/-- The lowest number that is hardened. -/
def hardened : UInt32 := 0x80000000

def isHardened (index : UInt32) : Bool := hardened ≤ index

theorem ext {p q : DerivationPath} (h : p.indices = q.indices) : p = q := by
  cases p; cases q; simp_all

def root : DerivationPath := ⟨[], by simp⟩

/-- A path from its numbers, of which there may be eight. -/
def ofIndices (indices : List UInt32) : Except WireError DerivationPath :=
  if h : indices.length ≤ 8 then .ok ⟨indices, h⟩ else .error .invalidLength

def depth (path : DerivationPath) : Nat := path.indices.length

/-- The last number, which the path to the root lacks. -/
def last? (path : DerivationPath) : Option UInt32 := path.indices.getLast?

/-- The path with its last number replaced. The path to the root stays as it is. -/
def withLast (path : DerivationPath) (index : UInt32) : DerivationPath where
  indices := if path.indices = [] then [] else path.indices.dropLast ++ [index]
  length_le := by
    split
    · exact Nat.zero_le _
    · have := List.length_pos_iff.2 ‹_›
      rw [List.length_append, List.length_dropLast, List.length_singleton, Nat.sub_add_cancel this]
      exact path.length_le

def toBytes (path : DerivationPath) : Bytes :=
  UInt8.ofNat path.depth ::
    path.indices.flatMap fun index => Bytes.littleEndian 4 index.toNat

/-- Read so many numbers. Bytes that are missing count as zeros. -/
def readIndices : Nat → Bytes → List UInt32
  | 0, _ => []
  | count + 1, bytes =>
      UInt32.ofNat (Bytes.ofLittleEndian (bytes.take 4)) :: readIndices count (bytes.drop 4)

@[simp] theorem length_readIndices (count : Nat) (bytes : Bytes) :
    (readIndices count bytes).length = count := by
  induction count generalizing bytes with
  | zero => rfl
  | succ count ih => simp [readIndices, ih]

/-- Read a path and count the bytes it takes. A path that is too deep and one that is cut off
are both errors of the path. -/
def parse : Bytes → Except WireError (DerivationPath × Nat)
  | [] => .error .invalidPath
  | depth :: rest =>
      if h : depth.toNat ≤ 8 ∧ 4 * depth.toNat ≤ rest.length then
        .ok (⟨readIndices depth.toNat rest, by simpa using h.1⟩, 1 + 4 * depth.toNat)
      else
        .error .invalidPath

theorem length_toBytes (path : DerivationPath) : path.toBytes.length = 1 + 4 * path.depth := by
  have (indices : List UInt32) :
      (indices.flatMap fun index => Bytes.littleEndian 4 index.toNat).length =
        4 * indices.length := by
    induction indices with
    | nil => rfl
    | cons index rest ih => simp [ih]; omega
  simp [toBytes, depth, this]
  omega

end DerivationPath

end ColdSigner
