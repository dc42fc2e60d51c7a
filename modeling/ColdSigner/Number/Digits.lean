/-!
# Positional digits

The digits of a number in any base of at least two, least significant first and without a
leading zero. Zero has no digits. `ofDigits_digits` says that the digits determine the number.
-/
namespace ColdSigner.Number

/-- The digits of a number, least significant first; none for zero or for a base below two. -/
def digits (base value : Nat) : List Nat :=
  if _h : 2 ≤ base ∧ value ≠ 0 then
    value % base :: digits base (value / base)
  else
    []
  termination_by value
  decreasing_by exact Nat.div_lt_self (Nat.pos_of_ne_zero _h.2) _h.1

/-- The number with these digits, least significant first. -/
def ofDigits (base : Nat) : List Nat → Nat
  | [] => 0
  | digit :: rest => digit + base * ofDigits base rest

@[simp] theorem digits_zero (base : Nat) : digits base 0 = [] := by
  rw [digits]; simp

theorem digits_of_pos {base value : Nat} (hBase : 2 ≤ base) (hValue : value ≠ 0) :
    digits base value = value % base :: digits base (value / base) := by
  rw [digits, dif_pos ⟨hBase, hValue⟩]

theorem ofDigits_digits {base : Nat} (hBase : 2 ≤ base) (value : Nat) :
    ofDigits base (digits base value) = value := by
  induction value using Nat.strongRecOn with
  | ind value ih =>
      by_cases hValue : value = 0
      · simp [hValue, ofDigits]
      · rw [digits_of_pos hBase hValue, ofDigits,
          ih _ (Nat.div_lt_self (Nat.pos_of_ne_zero hValue) hBase)]
        exact Nat.mod_add_div value base

theorem lt_of_mem_digits {base value digit : Nat} (h : digit ∈ digits base value) :
    digit < base := by
  induction value using Nat.strongRecOn with
  | ind value ih =>
      rw [digits] at h
      split at h
      · next hPos =>
          rcases List.mem_cons.1 h with rfl | h
          · exact Nat.mod_lt _ (by omega)
          · exact ih _ (Nat.div_lt_self (Nat.pos_of_ne_zero hPos.2) hPos.1) h
      · simp at h

/-- Characters that stand for the digits of a base are read back one by one. -/
theorem mapM_map_of_lt {base : Nat} {digit : Nat → Char} {value? : Char → Option Nat}
    (hDigit : ∀ value < base, value? (digit value) = some value) {values : List Nat}
    (hValues : ∀ value ∈ values, value < base) :
    (values.map digit).mapM value? = some values := by
  induction values with
  | nil => rfl
  | cons value rest ih =>
      obtain ⟨hValue, hRest⟩ := List.forall_mem_cons.1 hValues
      simp [List.mapM_cons, hDigit value hValue, ih hRest]

theorem digits_eq_nil_iff {base value : Nat} (hBase : 2 ≤ base) :
    digits base value = [] ↔ value = 0 := by
  constructor
  · intro h
    by_cases hValue : value = 0
    · exact hValue
    · rw [digits_of_pos hBase hValue] at h
      simp at h
  · rintro rfl
    simp

/-- A number below `base ^ width` has at most `width` digits. -/
theorem length_digits_le {base width value : Nat} (hBase : 2 ≤ base)
    (h : value < base ^ width) : (digits base value).length ≤ width := by
  induction width generalizing value with
  | zero =>
      have : value = 0 := by simpa using h
      simp [this]
  | succ width ih =>
      by_cases hValue : value = 0
      · simp [hValue]
      · rw [digits_of_pos hBase hValue, List.length_cons]
        have : value / base < base ^ width := by
          rw [Nat.div_lt_iff_lt_mul (by omega)]
          rwa [Nat.pow_succ] at h
        have := ih this
        omega

end ColdSigner.Number
