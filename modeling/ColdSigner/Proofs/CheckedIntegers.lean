import ColdSigner.Bytes
/-!
# Integers of limited size

A computation with integers of 64 bits goes on only as long as each of its steps stays among them
(`Number.Checked`). One that never leaves them is a computation with natural numbers, step by step
(`Number.Checked.Holds`).
-/
namespace ColdSigner.Number

/-- The value as an integer of so many bits without a sign, if it is one. -/
def unsigned? (bits : Nat) (value : Int) : Option Nat :=
  if 0 ≤ value ∧ value.toNat < 2 ^ bits then some value.toNat else none

theorem unsigned?_eq {bits value : Nat} (hValue : value < 2 ^ bits) :
    unsigned? bits value = some value := by
  rw [unsigned?, Int.toNat_natCast, if_pos ⟨Int.natCast_nonneg value, hValue⟩]

theorem unsigned?_eq_none {bits value : Nat} (hValue : 2 ^ bits ≤ value) :
    unsigned? bits value = none := by
  rw [unsigned?, Int.toNat_natCast, if_neg fun hBoth => Nat.not_lt.2 hValue hBoth.2]

theorem unsigned?_add {bits left right : Nat} (hFits : left + right < 2 ^ bits) :
    unsigned? bits ((left : Int) + right) = some (left + right) := by
  rw [← Int.natCast_add]
  exact unsigned?_eq hFits

theorem unsigned?_sub {bits left right : Nat} (hLess : right ≤ left) (hFits : left < 2 ^ bits) :
    unsigned? bits ((left : Int) - right) = some (left - right) := by
  rw [← Int.natCast_sub hLess]
  exact unsigned?_eq (Nat.lt_of_le_of_lt (Nat.sub_le left right) hFits)

/-- An integer of 64 bits with a sign. -/
def IsInt64 (value : Int) : Prop := -(2 ^ 63 : Nat) ≤ value ∧ value < (2 ^ 63 : Nat)

instance (value : Int) : Decidable (IsInt64 value) :=
  inferInstanceAs (Decidable (-(2 ^ 63 : Nat) ≤ value ∧ value < (2 ^ 63 : Nat)))

/-- What a computation with integers of 64 bits with a sign comes to. It has no value if one of its
steps left these integers or divided by zero. -/
structure Checked where
  value? : Option Int
  isInt64 : ∀ value ∈ value?, IsInt64 value

namespace Checked

def fault : Checked := ⟨none, fun _ hValue => nomatch hValue⟩

def ofInt (value : Int) : Checked :=
  if h : IsInt64 value then ⟨some value, fun _ hValue => Option.some.inj hValue ▸ h⟩ else fault

/-- One step, which takes place if there are values for it. -/
def step (operation : Int → Int → Option Int) (left right : Checked) : Checked :=
  match left.value?, right.value? with
  | some left, some right =>
      match operation left right with
      | some value => ofInt value
      | none => fault
  | _, _ => fault

instance (value : Nat) : OfNat Checked value := ⟨ofInt value⟩

instance : Add Checked := ⟨step fun left right => some (left + right)⟩

instance : Sub Checked := ⟨step fun left right => some (left - right)⟩

instance : Mul Checked := ⟨step fun left right => some (left * right)⟩

/-- Division is towards zero. -/
instance : Div Checked :=
  ⟨step fun left right => if right = 0 then none else some (left.tdiv right)⟩

/-- Division that leaves a remainder which is not negative. -/
def floorDiv : Checked → Checked → Checked :=
  step fun left right => if right = 0 then none else some (left / right)

/-- The remainder that is not negative. -/
def floorMod : Checked → Checked → Checked :=
  step fun left right => if right = 0 then none else some (left % right)

/-- The value as an integer of so many bits without a sign, if it is one. -/
def toUnsigned? (outcome : Checked) (bits : Nat) : Option Nat :=
  outcome.value?.bind (unsigned? bits)

/-- The computation came to this number. -/
def Holds (outcome : Checked) (value : Nat) : Prop := outcome.value? = some (value : Int)

section

variable {left right : Checked} {a b : Nat}

theorem holds_ofInt (hFits : a < 2 ^ 63) : (ofInt a).Holds a := by
  have hInt : IsInt64 a := ⟨by omega, by omega⟩
  rw [Holds, ofInt, dif_pos hInt]

theorem holds_ofNat {value : Nat} (hFits : (OfNat.ofNat value : Nat) < 2 ^ 63) :
    (OfNat.ofNat value : Checked).Holds (OfNat.ofNat value) :=
  holds_ofInt hFits

theorem Holds.lt (hLeft : left.Holds a) : a < 2 ^ 63 := by
  have hInt := left.isInt64 a hLeft
  have hLess := hInt.2
  omega

/-- A step with values is its operation, as long as that stays among the integers. -/
theorem Holds.step {operation : Int → Int → Option Int} {value : Nat} (hLeft : left.Holds a)
    (hRight : right.Holds b) (hValue : operation a b = some (value : Int))
    (hFits : value < 2 ^ 63) : (Checked.step operation left right).Holds value := by
  unfold Holds at hLeft hRight
  simp only [Checked.step, hLeft, hRight, hValue]
  exact holds_ofInt hFits

theorem Holds.add (hLeft : left.Holds a) (hRight : right.Holds b) (hFits : a + b < 2 ^ 63) :
    (left + right).Holds (a + b) :=
  hLeft.step hRight (by rw [Int.natCast_add]) hFits

theorem Holds.sub (hLeft : left.Holds a) (hRight : right.Holds b) (hLess : b ≤ a) :
    (left - right).Holds (a - b) :=
  hLeft.step hRight (by rw [Int.natCast_sub hLess]) (Nat.lt_of_le_of_lt (Nat.sub_le a b) hLeft.lt)

theorem Holds.mul (hLeft : left.Holds a) (hRight : right.Holds b) (hFits : a * b < 2 ^ 63) :
    (left * right).Holds (a * b) :=
  hLeft.step hRight (by rw [Int.natCast_mul]) hFits

theorem Holds.div (hLeft : left.Holds a) (hRight : right.Holds b) (hPos : 0 < b) :
    (left / right).Holds (a / b) := by
  have hNonzero : (b : Int) ≠ 0 := by omega
  exact hLeft.step hRight (by rw [if_neg hNonzero, Int.ofNat_tdiv])
    (Nat.lt_of_le_of_lt (Nat.div_le_self a b) hLeft.lt)

theorem Holds.floorDiv (hLeft : left.Holds a) (hRight : right.Holds b) (hPos : 0 < b) :
    (left.floorDiv right).Holds (a / b) := by
  have hNonzero : (b : Int) ≠ 0 := by omega
  exact hLeft.step hRight (by rw [if_neg hNonzero, Int.natCast_ediv])
    (Nat.lt_of_le_of_lt (Nat.div_le_self a b) hLeft.lt)

theorem Holds.floorMod (hLeft : left.Holds a) (hRight : right.Holds b) (hPos : 0 < b) :
    (left.floorMod right).Holds (a % b) := by
  have hNonzero : (b : Int) ≠ 0 := by omega
  exact hLeft.step hRight (by rw [if_neg hNonzero, Int.natCast_emod])
    (Nat.lt_of_le_of_lt (Nat.mod_le a b) hLeft.lt)

theorem Holds.toUnsigned? {bits : Nat} (hLeft : left.Holds a) (hFits : a < 2 ^ bits) :
    left.toUnsigned? bits = some a := by
  unfold Holds at hLeft
  rw [Checked.toUnsigned?, hLeft, Option.bind_some, unsigned?_eq hFits]

end

end Checked

end ColdSigner.Number
