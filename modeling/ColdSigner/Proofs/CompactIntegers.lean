import ColdSigner.Proofs.Reading
/-!
# Compact integers read back

Each signed number of 32 bits and each amount has one written form, and the readers take exactly
that one: `Reader.returns_int_iff`, `Reader.returns_amount_iff`. The three short forms are one
idea, a number whose two highest bits are a mark, for one, two or four bytes
(`Bytes.cons_eq_bigEndian_iff`). The first byte tells the form, and what is behind it is one
number (`Reader.returns_behind_iff`).
-/
namespace ColdSigner

namespace Bytes

@[simp] theorem ofBigEndian_nil : ofBigEndian [] = 0 := rfl

@[simp] theorem ofBigEndian_singleton (byte : UInt8) : ofBigEndian [byte] = byte.toNat := by
  simp [ofBigEndian]

theorem ofBigEndian_cons (first : UInt8) (rest : Bytes) :
    ofBigEndian (first :: rest) = first.toNat * 256 ^ rest.length + ofBigEndian rest := by
  have hFold (start : Nat) : rest.foldl (fun value byte => 256 * value + byte.toNat) start =
      start * 256 ^ rest.length + ofBigEndian rest := by
    induction rest generalizing start with
    | nil => simp [ofBigEndian]
    | cons byte rest ih =>
        have hZero : ofBigEndian (byte :: rest) =
            (256 * 0 + byte.toNat) * 256 ^ rest.length + ofBigEndian rest := ih _
        rw [List.foldl_cons, ih, hZero, List.length_cons]
        grind
  simpa [ofBigEndian] using hFold first.toNat

theorem bigEndian_one (value : Nat) : bigEndian 1 value = [UInt8.ofNat value] := by
  simp [bigEndian, littleEndian, ← UInt8.ofNat_mod_size]

/-- A number and its bytes determine each other. -/
theorem eq_bigEndian_iff {width value : Nat} {bytes : Bytes} (hLength : bytes.length = width)
    (hValue : value < 256 ^ width) : bytes = bigEndian width value ↔ ofBigEndian bytes = value := by
  constructor
  · rintro rfl
    rw [ofBigEndian_bigEndian, Nat.mod_eq_of_lt hValue]
  · rintro rfl
    rw [← hLength, bigEndian_ofBigEndian]

/-- The bits behind the two highest ones. -/
theorem low_lt (first : UInt8) (rest : Bytes) :
    first.toNat % 64 * 256 ^ rest.length + ofBigEndian rest < 64 * 256 ^ rest.length := by
  have hRest := ofBigEndian_lt rest
  have hSix : first.toNat % 64 + 1 ≤ 64 := Nat.mod_lt _ (by decide)
  calc first.toNat % 64 * 256 ^ rest.length + ofBigEndian rest
      < (first.toNat % 64 + 1) * 256 ^ rest.length := by rw [Nat.add_mul]; omega
    _ ≤ 64 * 256 ^ rest.length := Nat.mul_le_mul_right _ hSix

/-- A number whose two highest bits are a mark: the mark is in the first byte, and the other six
bits of it stand in front of the bytes behind. -/
theorem cons_eq_bigEndian_iff {mark low : Nat} {first : UInt8} {rest : Bytes}
    (hMark : mark < 4) (hLow : low < 64 * 256 ^ rest.length) :
    first :: rest = bigEndian (rest.length + 1) (mark * (64 * 256 ^ rest.length) + low) ↔
      first.toNat / 64 = mark ∧
        first.toNat % 64 * 256 ^ rest.length + ofBigEndian rest = low := by
  have hRead := low_lt first rest
  have hPower : 256 ^ (rest.length + 1) = 4 * (64 * 256 ^ rest.length) := by grind
  have hParts : first.toNat * 256 ^ rest.length =
      first.toNat / 64 * (64 * 256 ^ rest.length) + first.toNat % 64 * 256 ^ rest.length := by
    have hSplit := Nat.div_add_mod first.toNat 64
    grind
  have hBound : mark * (64 * 256 ^ rest.length) + low < 256 ^ (rest.length + 1) := by
    have hNext := Nat.mul_le_mul_right (64 * 256 ^ rest.length) (Nat.succ_le_of_lt hMark)
    rw [Nat.succ_mul] at hNext
    omega
  rw [eq_bigEndian_iff List.length_cons hBound, ofBigEndian_cons, hParts, Nat.add_assoc]
  generalize 64 * 256 ^ rest.length = scale at *
  generalize first.toNat % 64 * 256 ^ rest.length + ofBigEndian rest = read at *
  constructor
  · intro h
    -- Quotient and remainder by the place of the mark are unique.
    obtain ⟨hDiv, hMod⟩ := (Nat.div_mod_unique (Nat.zero_lt_of_lt hLow)).2 ⟨Nat.add_comm .., hRead⟩
    rw [Nat.mul_comm scale, h, Nat.mul_comm] at hDiv hMod
    rw [Nat.mul_add_div (Nat.zero_lt_of_lt hLow), Nat.div_eq_of_lt hLow] at hDiv
    rw [Nat.mul_add_mod, Nat.mod_eq_of_lt hLow] at hMod
    exact ⟨hDiv.symm, hMod.symm⟩
  · rintro ⟨rfl, rfl⟩
    rfl

end Bytes

namespace Number

/-- A number is below the power of the base with as many digits. -/
theorem lt_pow_length_digits {base : Nat} (hBase : 2 ≤ base) (value : Nat) :
    value < base ^ (digits base value).length := by
  induction value using Nat.strongRecOn with
  | ind value ih =>
      by_cases hValue : value = 0
      · simp [hValue]
      · have hSmaller := ih _ (Nat.div_lt_self (Nat.pos_of_ne_zero hValue) hBase)
        rw [digits_of_pos hBase hValue, List.length_cons, Nat.pow_succ]
        exact (Nat.div_lt_iff_lt_mul (by omega)).1 hSmaller

end Number

namespace Compact

open Reader (signExtend)

/-- Bits and the signed number that they stand for determine each other. -/
theorem signExtend_eq_iff {bits low : Nat} {value : Int32} (hBits : bits ≤ 32)
    (hLow : low < 2 ^ bits) (hMin : -(2 ^ bits : Nat) ≤ value.toInt * 2)
    (hMax : value.toInt * 2 < (2 ^ bits : Nat)) :
    signExtend bits low = value ↔ low = lowBits bits value := by
  have hCast : ((2 ^ bits : Nat) : Int) = 2 ^ bits := by simp
  constructor
  · rintro rfl
    have hDivides : ((2 ^ bits : Nat) : Int) ∣ (Int32.size : Nat) :=
      Int.natCast_dvd_natCast.2 (Nat.pow_dvd_pow 2 hBits)
    have hSame : (signExtend bits low).toInt % (2 ^ bits : Nat) = low := by
      rw [signExtend, Int32.toInt_ofInt, ← Int.emod_emod_of_dvd _ hDivides, Int.bmod_emod,
        Int.emod_emod_of_dvd _ hDivides, Int.bmod_emod]
      exact Int.emod_eq_of_lt (by omega) (by omega)
    rw [lowBits, ← hCast, hSame, Int.toNat_natCast]
  · rintro rfl
    have hLowBits : ((lowBits bits value : Nat) : Int) = value.toInt % (2 ^ bits : Nat) := by
      rw [lowBits, ← hCast, Int.toNat_of_nonneg (Int.emod_nonneg _ (by omega))]
    rw [signExtend, hLowBits, Int.emod_bmod, Int.bmod_eq_of_le_mul_two hMin hMax,
      Int32.ofInt_toInt]

theorem lowBits_lt (bits : Nat) (value : Int32) : lowBits bits value < 2 ^ bits := by
  have hPos : (0 : Int) < 2 ^ bits := Int.pow_pos (by decide)
  have hNonneg := Int.emod_nonneg value.toInt (Int.ne_of_gt hPos)
  rw [lowBits, Int.toNat_lt hNonneg]
  simpa using Int.emod_lt_of_pos value.toInt hPos

/-- A short form: its mark, and the number of bytes behind the first one. -/
inductive IsShort : Nat → Nat → Prop
  | one : IsShort 0 0
  | two : IsShort 1 1
  | four : IsShort 2 3

/-- The forms of a signed number by their length. -/
theorem isShort_or_lengthOfInt_eq (value : Int32) :
    (∃ mark count, IsShort mark count ∧ lengthOfInt value = count + 1) ∨
      lengthOfInt value = 5 := by
  unfold lengthOfInt
  simp only
  split
  · exact .inl ⟨0, 0, .one, rfl⟩
  split
  · exact .inl ⟨1, 1, .two, rfl⟩
  split
  · exact .inl ⟨2, 3, .four, rfl⟩
  · exact .inr rfl

/-- A short form is written exactly if the first byte has its mark and the lowest bits stand for
the number. -/
theorem cons_eq_ofInt_iff {mark count : Nat} (hShort : IsShort mark count) {value : Int32}
    (hLength : lengthOfInt value = count + 1) {first : UInt8} {rest : Bytes}
    (hRest : rest.length = count) :
    first :: rest = ofInt value ↔
      first.toNat / 64 = mark ∧
        signExtend (8 * count + 6) (first.toNat % 64 * 256 ^ count + Bytes.ofBigEndian rest) =
          value := by
  have hMark : mark < 4 := by cases hShort <;> decide
  have hBits : 2 ^ (8 * count + 6) = 64 * 256 ^ count := by cases hShort <;> rfl
  have hWritten : ofInt value = Bytes.bigEndian (count + 1)
      (mark * (64 * 256 ^ count) + lowBits (8 * count + 6) value) := by
    cases hShort with
    | one => simp [ofInt, hLength, Bytes.bigEndian_one]
    | two => simp [ofInt, hLength]
    | four => simp [ofInt, hLength]
  have hRange : -(2 ^ (8 * count + 6) : Nat) ≤ value.toInt * 2 ∧
      value.toInt * 2 < (2 ^ (8 * count + 6) : Nat) := by
    unfold lengthOfInt at hLength
    cases hShort <;> grind
  have hWidth : 8 * count + 6 ≤ 32 := by cases hShort <;> decide
  subst hRest
  have hLow : first.toNat % 64 * 256 ^ rest.length + Bytes.ofBigEndian rest <
      2 ^ (8 * rest.length + 6) := by
    rw [hBits]
    exact Bytes.low_lt first rest
  rw [hWritten, Bytes.cons_eq_bigEndian_iff hMark (hBits ▸ lowBits_lt _ value),
    signExtend_eq_iff hWidth hLow hRange.1 hRange.2]

/-- The long form of a signed number has no bits in its first byte. -/
theorem cons_eq_ofInt_iff_of_long {value : Int32} (hLength : lengthOfInt value = 5)
    {first : UInt8} {rest : Bytes} (hRest : rest.length = 4) :
    first :: rest = ofInt value ↔
      first = 0xc0 ∧ signExtend 32 (Bytes.ofBigEndian rest) = value := by
  have hWritten : ofInt value = 0xc0 :: Bytes.bigEndian 4 (lowBits 32 value) := by
    simp [ofInt, hLength]
  have hBound := Bytes.ofBigEndian_lt rest
  have hMin := value.le_toInt
  have hMax := value.toInt_lt
  rw [hWritten, List.cons.injEq, Bytes.eq_bigEndian_iff hRest (lowBits_lt 32 value),
    signExtend_eq_iff (Nat.le_refl 32) (by simpa [hRest] using hBound) (by omega) (by omega)]

/-- A signed number that is not negative is written like a length. -/
theorem ofLength_toNat {value : Int32} (h : 0 ≤ value.toInt) :
    ofLength value.toInt.toNat = ofInt value := by
  have hMax := value.toInt_lt
  have hValue : Int32.ofNat value.toInt.toNat = value := by
    apply Int32.toInt_inj.1
    rw [Int32.toInt_ofNat_of_lt (by omega)]
    omega
  rw [ofLength, hValue]

theorem length_ofInt (value : Int32) : (ofInt value).length = lengthOfInt value := by
  unfold ofInt
  rcases isShort_or_lengthOfInt_eq value with ⟨mark, count, hShort, hLength⟩ | hLength
  · cases hShort <;> simp [hLength]
  · simp [hLength]

/-- The forms of an amount by their length. -/
theorem isShort_or_lengthOfAmount_eq (value : Uint256) :
    (∃ mark count, IsShort mark count ∧ lengthOfAmount value = count + 1) ∨
      ∃ count, count ≤ 28 ∧ lengthOfAmount value = count + 5 := by
  have hDigits : value.byteLength ≤ 32 :=
    Number.length_digits_le (by decide) (Nat.lt_of_lt_of_eq value.isLt (by decide))
  rw [lengthOfAmount_eq]
  split
  · exact .inl ⟨0, 0, .one, rfl⟩
  split
  · exact .inl ⟨1, 1, .two, rfl⟩
  split
  · exact .inl ⟨2, 3, .four, rfl⟩
  · exact .inr ⟨max 4 value.byteLength - 4, by omega, by omega⟩

theorem cons_eq_ofAmount_iff {mark count : Nat} (hShort : IsShort mark count) {value : Uint256}
    (hLength : lengthOfAmount value = count + 1) {first : UInt8} {rest : Bytes}
    (hRest : rest.length = count) :
    first :: rest = ofAmount value ↔
      first.toNat / 64 = mark ∧
        first.toNat % 64 * 256 ^ count + Bytes.ofBigEndian rest = value.toNat := by
  have hMark : mark < 4 := by cases hShort <;> decide
  have hWritten : ofAmount value = Bytes.bigEndian (count + 1)
      (mark * (64 * 256 ^ count) + value.toNat) := by
    cases hShort with
    | one => simp [ofAmount, hLength, Bytes.bigEndian_one]
    | two => simp [ofAmount, hLength]
    | four => simp [ofAmount, hLength]
  have hLow : value.toNat < 64 * 256 ^ count := by
    rw [lengthOfAmount_eq] at hLength
    cases hShort <;> grind
  subst hRest
  rw [hWritten, Bytes.cons_eq_bigEndian_iff hMark hLow]

/-- The long form of an amount counts its bytes, less four, in the first byte. -/
theorem cons_eq_ofAmount_iff_of_long {value : Uint256} {count : Nat} (hCount : count ≤ 28)
    (hLength : lengthOfAmount value = count + 5) {first : UInt8} {rest : Bytes}
    (hRest : rest.length = count + 4) :
    first :: rest = ofAmount value ↔
      first.toNat = 0xc0 + count ∧ Bytes.ofBigEndian rest = value.toNat := by
  have hWritten : ofAmount value =
      UInt8.ofNat (0xc0 + count) :: Bytes.bigEndian (count + 4) value.toNat := by
    unfold ofAmount
    rw [hLength]
    simp
  have hByte : (UInt8.ofNat (0xc0 + count)).toNat = 0xc0 + count := by
    rw [UInt8.toNat_ofNat']
    omega
  have hBound : value.toNat < 256 ^ (count + 4) := by
    have hDigits : value.byteLength ≤ count + 4 := by
      rw [lengthOfAmount_eq] at hLength
      grind
    exact Nat.lt_of_lt_of_le (Number.lt_pow_length_digits (by decide) value.toNat)
      (Nat.pow_le_pow_right (by decide) hDigits)
  rw [hWritten, List.cons.injEq, Bytes.eq_bigEndian_iff hRest hBound, ← UInt8.toNat_inj, hByte]

theorem length_ofAmount (value : Uint256) : (ofAmount value).length = lengthOfAmount value := by
  unfold ofAmount
  rcases isShort_or_lengthOfAmount_eq value with ⟨mark, count, hShort, hLength⟩ |
    ⟨count, -, hLength⟩
  · cases hShort <;> simp [hLength]
  · rw [hLength]
    simp

theorem one_le_length_ofInt (value : Int32) : 1 ≤ (ofInt value).length := by
  rw [length_ofInt]
  rcases isShort_or_lengthOfInt_eq value with ⟨mark, count, -, hLength⟩ | hLength <;> omega

theorem one_le_length_ofAmount (value : Uint256) : 1 ≤ (ofAmount value).length := by
  rw [length_ofAmount]
  rcases isShort_or_lengthOfAmount_eq value with ⟨mark, count, -, hLength⟩ |
    ⟨count, -, hLength⟩ <;> omega

/-- The mark of a short form determines its length. -/
theorem IsShort.unique {mark count other : Nat} (hShort : IsShort mark count)
    (hOther : IsShort mark other) : other = count := by
  cases hShort <;> cases hOther <;> rfl

theorem IsShort.mark_lt {mark count : Nat} (hShort : IsShort mark count) : mark < 3 := by
  cases hShort <;> decide

/-- What is no short mark is the long one. -/
theorem three_le_of_ne {mark : Nat} (hZero : mark ≠ 0) (hOne : mark ≠ 1) (hTwo : mark ≠ 2) :
    3 ≤ mark := by
  omega

/-- A first byte with a short mark says all about the form of a signed number. -/
theorem cons_eq_ofInt_iff_of_mark {mark count : Nat} (hShort : IsShort mark count)
    {value : Int32} {first : UInt8} {rest : Bytes} (hMark : first.toNat / 64 = mark) :
    first :: rest = ofInt value ↔
      rest.length = count ∧ lengthOfInt value = count + 1 ∧
        value = signExtend (8 * count + 6)
          (first.toNat % 64 * 256 ^ count + Bytes.ofBigEndian rest) := by
  constructor
  · intro hCons
    have hLengthOf := length_ofInt value
    rw [← hCons, List.length_cons] at hLengthOf
    rcases isShort_or_lengthOfInt_eq value with ⟨other, width, hOther, hLength⟩ | hLength
    · have hRest : rest.length = width := by omega
      obtain ⟨rfl, hValue⟩ := (cons_eq_ofInt_iff hOther hLength hRest).1 hCons
      subst hMark
      obtain rfl := hShort.unique hOther
      exact ⟨hRest, hLength, hValue.symm⟩
    · have hRest : rest.length = 4 := by omega
      obtain ⟨rfl, -⟩ := (cons_eq_ofInt_iff_of_long hLength hRest).1 hCons
      have hLess := hShort.mark_lt
      exact absurd (hMark ▸ hLess) (by decide)
  · rintro ⟨hRest, hLength, hValue⟩
    exact (cons_eq_ofInt_iff hShort hLength hRest).2 ⟨hMark, hValue.symm⟩

theorem cons_eq_ofInt_iff_of_no_mark {value : Int32} {first : UInt8} {rest : Bytes}
    (hMark : 3 ≤ first.toNat / 64) :
    first :: rest = ofInt value ↔
      first.toNat % 64 = 0 ∧ rest.length = 4 ∧ lengthOfInt value = 5 ∧
        value = signExtend 32 (Bytes.ofBigEndian rest) := by
  have hByte : first = 0xc0 ↔ first.toNat % 64 = 0 := by
    have hBound := first.toNat_lt
    have hLong : (0xc0 : UInt8).toNat = 192 := rfl
    rw [← UInt8.toNat_inj]
    omega
  constructor
  · intro hCons
    have hLengthOf := length_ofInt value
    rw [← hCons, List.length_cons] at hLengthOf
    rcases isShort_or_lengthOfInt_eq value with ⟨mark, count, hShort, hLength⟩ | hLength
    · have hRest : rest.length = count := by omega
      obtain ⟨rfl, -⟩ := (cons_eq_ofInt_iff hShort hLength hRest).1 hCons
      exact absurd hShort.mark_lt (Nat.not_lt.2 hMark)
    · have hRest : rest.length = 4 := by omega
      obtain ⟨hFirst, hValue⟩ := (cons_eq_ofInt_iff_of_long hLength hRest).1 hCons
      exact ⟨hByte.1 hFirst, hRest, hLength, hValue.symm⟩
  · rintro ⟨hPayload, hRest, hLength, hValue⟩
    exact (cons_eq_ofInt_iff_of_long hLength hRest).2 ⟨hByte.2 hPayload, hValue.symm⟩

/-- A first byte with a short mark says all about the form of an amount. -/
theorem cons_eq_ofAmount_iff_of_mark {mark count : Nat} (hShort : IsShort mark count)
    {value : Uint256} {first : UInt8} {rest : Bytes} (hMark : first.toNat / 64 = mark) :
    first :: rest = ofAmount value ↔
      rest.length = count ∧ lengthOfAmount value = count + 1 ∧
        value.toNat = first.toNat % 64 * 256 ^ count + Bytes.ofBigEndian rest := by
  constructor
  · intro hCons
    have hLengthOf := length_ofAmount value
    rw [← hCons, List.length_cons] at hLengthOf
    rcases isShort_or_lengthOfAmount_eq value with ⟨other, width, hOther, hLength⟩ |
      ⟨width, hWidth, hLength⟩
    · have hRest : rest.length = width := by omega
      obtain ⟨rfl, hValue⟩ := (cons_eq_ofAmount_iff hOther hLength hRest).1 hCons
      subst hMark
      obtain rfl := hShort.unique hOther
      exact ⟨hRest, hLength, hValue.symm⟩
    · have hRest : rest.length = width + 4 := by omega
      obtain ⟨hFirst, -⟩ := (cons_eq_ofAmount_iff_of_long hWidth hLength hRest).1 hCons
      have hLess := hShort.mark_lt
      omega
  · rintro ⟨hRest, hLength, hValue⟩
    exact (cons_eq_ofAmount_iff hShort hLength hRest).2 ⟨hMark, hValue.symm⟩

theorem cons_eq_ofAmount_iff_of_no_mark {value : Uint256} {first : UInt8} {rest : Bytes}
    (hMark : 3 ≤ first.toNat / 64) :
    first :: rest = ofAmount value ↔
      first.toNat % 64 ≤ 28 ∧ rest.length = first.toNat % 64 + 4 ∧
        lengthOfAmount value = first.toNat % 64 + 5 ∧
        value.toNat = Bytes.ofBigEndian rest := by
  have hFirst := first.toNat_lt
  constructor
  · intro hCons
    have hLengthOf := length_ofAmount value
    rw [← hCons, List.length_cons] at hLengthOf
    rcases isShort_or_lengthOfAmount_eq value with ⟨mark, count, hShort, hLength⟩ |
      ⟨count, hCount, hLength⟩
    · have hRest : rest.length = count := by omega
      obtain ⟨rfl, -⟩ := (cons_eq_ofAmount_iff hShort hLength hRest).1 hCons
      exact absurd hShort.mark_lt (Nat.not_lt.2 hMark)
    · have hRest : rest.length = count + 4 := by omega
      obtain ⟨hByte, hValue⟩ := (cons_eq_ofAmount_iff_of_long hCount hLength hRest).1 hCons
      obtain rfl : first.toNat % 64 = count := by omega
      exact ⟨hCount, hRest, hLength, hValue.symm⟩
  · rintro ⟨hCount, hRest, hLength, hValue⟩
    have hByte : first.toNat = 0xc0 + first.toNat % 64 := by omega
    exact (cons_eq_ofAmount_iff_of_long hCount hLength hRest).2 ⟨hByte, hValue.symm⟩

end Compact

namespace Reader

open ColdSigner.Compact Cursor

variable {cursor next : Cursor}

theorem returns_shortest_iff {α : Type} {length : α → Nat} {used : Nat} {value result : α} :
    Returns (shortest length used value) cursor result next ↔
      length result = used ∧ result = value ∧ cursor = next := by
  unfold shortest
  split
  · next hLength =>
      rw [returns_pure_iff]
      constructor
      · rintro ⟨rfl, hCursor⟩
        exact ⟨hLength, rfl, hCursor⟩
      · exact And.right
  · next hLength =>
      simp only [not_returns_throw, false_iff]
      rintro ⟨hUsed, rfl, -⟩
      exact hLength hUsed

/-- The end of each form of an amount: it has to fit, and to need its length. -/
theorem returns_ofNat?_iff {used number : Nat} {value : Uint256} :
    Returns (match Uint256.ofNat? number with
      | some value => shortest lengthOfAmount used value
      | none => throw .overflow) cursor value next ↔
      lengthOfAmount value = used ∧ value.toNat = number ∧ cursor = next := by
  unfold Uint256.ofNat?
  split
  · next found hFound =>
      split at hFound
      · cases hFound
        rw [returns_shortest_iff]
        constructor
        · rintro ⟨hLength, rfl, rfl⟩
          exact ⟨hLength, rfl, rfl⟩
        · rintro ⟨hLength, rfl, rfl⟩
          exact ⟨hLength, rfl, rfl⟩
      · simp at hFound
  · next hNone =>
      split at hNone
      · simp at hNone
      · next hLarge =>
          simp only [not_returns_throw, false_iff]
          rintro ⟨-, rfl, -⟩
          exact hLarge value.isLt

section Forms

variable {α : Type} {value : α} {written : Bytes}

/-- A number of no bytes takes nothing. -/
theorem returns_number_zero_bind_iff {read : Reader α} :
    Returns (number 0 >>= fun _ => read) cursor value next ↔ Returns read cursor value next := by
  simp only [returns_bind_iff, returns_number_iff, List.length_eq_zero_iff]
  constructor
  · rintro ⟨_, middle, ⟨bytes, rfl, hPasses, -⟩, h⟩
    obtain rfl := passes_nil_iff.1 hPasses
    exact h
  · intro h
    exact ⟨0, cursor, ⟨[], rfl, passes_nil_iff.2 rfl, rfl⟩, h⟩

/-- A number of one byte is this byte. -/
theorem returns_number_one_bind_iff {behind : UInt8 → Reader α} :
    Returns (number 1 >>= fun low => behind (UInt8.ofNat low)) cursor value next ↔
      Returns (byte >>= behind) cursor value next := by
  simp only [returns_bind_iff, returns_number_iff, returns_byte_iff, List.length_eq_one_iff]
  constructor
  · rintro ⟨_, middle, ⟨bytes, ⟨byte, rfl⟩, hPasses, rfl⟩, h⟩
    exact ⟨byte, middle, hPasses, by simpa using h⟩
  · rintro ⟨byte, middle, hPasses, h⟩
    exact ⟨byte.toNat, middle, ⟨[byte], ⟨byte, rfl⟩, hPasses, by simp⟩, by simpa using h⟩

/-- The bytes behind the first one are a number, and they are what is written there. -/
theorem returns_behind_iff (Denotes : Nat → Prop) {count : Nat} {first : UInt8}
    {finish : Nat → Reader α}
    (hFinish : ∀ number, number < 256 ^ count → ∀ cursor,
      Returns (finish number) cursor value next ↔ Denotes number ∧ cursor = next)
    (hWritten : ∀ rest, first :: rest = written ↔
      rest.length = count ∧ Denotes (Bytes.ofBigEndian rest)) :
    Returns (number count >>= finish) cursor value next ↔
      ∃ rest, first :: rest = written ∧ cursor.Passes rest next := by
  simp only [returns_bind_iff, returns_number_iff, hWritten]
  constructor
  · rintro ⟨_, middle, ⟨rest, rfl, hPasses, rfl⟩, h⟩
    obtain ⟨hNumber, rfl⟩ := (hFinish _ (Bytes.ofBigEndian_lt rest) middle).1 h
    exact ⟨rest, ⟨rfl, hNumber⟩, hPasses⟩
  · rintro ⟨rest, ⟨rfl, hNumber⟩, hPasses⟩
    refine ⟨_, next, ⟨rest, rfl, hPasses, rfl⟩, ?_⟩
    exact (hFinish _ (Bytes.ofBigEndian_lt rest) next).2 ⟨hNumber, rfl⟩

/-- Bytes behind the first one that are refused at once are not written there. -/
theorem returns_guarded_iff (Denotes : Nat → Prop) {p : Prop} [Decidable p] {error : TxError}
    {count : Nat} {first : UInt8} {finish : Nat → Reader α}
    (hFinish : ∀ number, number < 256 ^ count → ∀ cursor,
      Returns (finish number) cursor value next ↔ Denotes number ∧ cursor = next)
    (hWritten : ∀ rest, first :: rest = written ↔
      ¬ p ∧ rest.length = count ∧ Denotes (Bytes.ofBigEndian rest)) :
    Returns (if p then throw error else number count >>= finish) cursor value next ↔
      ∃ rest, first :: rest = written ∧ cursor.Passes rest next := by
  by_cases hRefused : p
  · rw [if_pos hRefused]
    simp [hWritten, hRefused]
  · rw [if_neg hRefused]
    apply returns_behind_iff Denotes hFinish
    intro rest
    rw [hWritten, and_iff_right hRefused]

/-- Something is read from what is written for it, if this is so for what is behind any first
byte. -/
theorem returns_first_iff {behind : UInt8 → Reader α} (hWritten : 1 ≤ written.length)
    (hBehind : ∀ first cursor, Returns (behind first) cursor value next ↔
      ∃ rest, first :: rest = written ∧ cursor.Passes rest next) :
    Returns (byte >>= behind) cursor value next ↔ cursor.Passes written next := by
  simp only [returns_bind_iff, returns_byte_iff, hBehind]
  constructor
  · rintro ⟨first, middle, hFirst, rest, rfl, hRest⟩
    exact passes_cons_iff.2 ⟨middle, hFirst, hRest⟩
  · intro hPasses
    obtain ⟨first, rest, rfl⟩ := List.exists_cons_of_length_pos hWritten
    obtain ⟨middle, hFirst, hRest⟩ := passes_cons_iff.1 hPasses
    exact ⟨first, middle, hFirst, rest, rfl, hRest⟩

end Forms

/-- What is behind the first byte of a short signed number. -/
theorem returns_short_int_iff {mark count : Nat} (hShort : IsShort mark count) {value : Int32}
    {first : UInt8} (hMark : first.toNat / 64 = mark) {finish : Nat → Reader Int32}
    (hFinish : ∀ low, low < 256 ^ count → ∀ cursor,
      Returns (finish low) cursor value next ↔ lengthOfInt value = count + 1 ∧
        value = signExtend (8 * count + 6) (first.toNat % 64 * 256 ^ count + low) ∧
        cursor = next) :
    Returns (number count >>= finish) cursor value next ↔
      ∃ rest, first :: rest = ofInt value ∧ cursor.Passes rest next := by
  apply returns_behind_iff fun low => lengthOfInt value = count + 1 ∧
    value = signExtend (8 * count + 6) (first.toNat % 64 * 256 ^ count + low)
  · intro low hLow cursor
    rw [hFinish low hLow, and_assoc]
  · intro rest
    exact cons_eq_ofInt_iff_of_mark hShort hMark

/-- A signed number is read from exactly the bytes that are written for it. -/
theorem returns_int_iff {value : Int32} :
    Returns int cursor value next ↔ cursor.Passes (ofInt value) next := by
  apply returns_first_iff (one_le_length_ofInt value)
  intro first cursor
  split
  · next hMark =>
      refine returns_number_zero_bind_iff.symm.trans (returns_short_int_iff .one hMark ?_)
      intro low hLow cursor
      obtain rfl : low = 0 := by omega
      simpa using returns_shortest_iff
  · next hMark =>
      refine returns_number_one_bind_iff.symm.trans (returns_short_int_iff .two hMark ?_)
      intro low hLow cursor
      rw [UInt8.toNat_ofNat_of_lt' hLow]
      exact returns_shortest_iff
  · next hMark =>
      apply returns_short_int_iff .four hMark
      intro low _ cursor
      exact returns_shortest_iff
  · next hZero hOne hTwo =>
      have hMark : 3 ≤ first.toNat / 64 := three_le_of_ne hZero hOne hTwo
      apply returns_guarded_iff fun low => lengthOfInt value = 5 ∧ value = signExtend 32 low
      · intro low _ cursor
        rw [returns_shortest_iff, and_assoc]
      · intro rest
        rw [cons_eq_ofInt_iff_of_no_mark hMark, Decidable.not_not]

/-- What is behind the first byte of a short amount. -/
theorem returns_short_amount_iff {mark count : Nat} (hShort : IsShort mark count)
    {value : Uint256} {first : UInt8} (hMark : first.toNat / 64 = mark)
    {finish : Nat → Reader Uint256}
    (hFinish : ∀ low, low < 256 ^ count → ∀ cursor,
      Returns (finish low) cursor value next ↔ lengthOfAmount value = count + 1 ∧
        value.toNat = first.toNat % 64 * 256 ^ count + low ∧ cursor = next) :
    Returns (number count >>= finish) cursor value next ↔
      ∃ rest, first :: rest = ofAmount value ∧ cursor.Passes rest next := by
  apply returns_behind_iff fun low => lengthOfAmount value = count + 1 ∧
    value.toNat = first.toNat % 64 * 256 ^ count + low
  · intro low hLow cursor
    rw [hFinish low hLow, and_assoc]
  · intro rest
    exact cons_eq_ofAmount_iff_of_mark hShort hMark

/-- An amount is read from exactly the bytes that are written for it. -/
theorem returns_amount_iff {value : Uint256} :
    Returns amount cursor value next ↔ cursor.Passes (ofAmount value) next := by
  apply returns_first_iff (one_le_length_ofAmount value)
  intro first cursor
  split
  · next hMark =>
      refine returns_number_zero_bind_iff.symm.trans (returns_short_amount_iff .one hMark ?_)
      intro low hLow cursor
      obtain rfl : low = 0 := by omega
      rw [Nat.mul_one, Nat.add_zero]
      exact returns_ofNat?_iff
  · next hMark =>
      refine returns_number_one_bind_iff.symm.trans (returns_short_amount_iff .two hMark ?_)
      intro low hLow cursor
      rw [UInt8.toNat_ofNat_of_lt' hLow]
      exact returns_ofNat?_iff
  · next hMark =>
      apply returns_short_amount_iff .four hMark
      intro low _ cursor
      exact returns_ofNat?_iff
  · next hZero hOne hTwo =>
      have hMark : 3 ≤ first.toNat / 64 := three_le_of_ne hZero hOne hTwo
      apply returns_guarded_iff fun low =>
        lengthOfAmount value = 1 + (first.toNat % 64 + 4) ∧ value.toNat = low
      · intro low _ cursor
        rw [and_assoc]
        exact returns_ofNat?_iff
      · intro rest
        rw [cons_eq_ofAmount_iff_of_no_mark hMark]
        omega

/-- The length of a list is read from what is written for it, if that many elements of the least
size fit behind it. -/
theorem returns_length_iff {elementSize count : Nat} :
    Returns (length elementSize) cursor count next ↔
      count < 2 ^ 31 ∧ cursor.Passes (ofLength count) next ∧
        count * elementSize ≤ next.remaining := by
  unfold length
  rw [returns_bind_iff]
  simp only [returns_int_iff, returns_ite_iff, not_returns_throw, and_false, false_or,
    returns_get_bind_iff, returns_pure_iff]
  constructor
  · rintro ⟨value, middle, hPasses, hSign, hFits, rfl, rfl⟩
    have hMax := value.toInt_lt
    refine ⟨by omega, ?_, by omega⟩
    rwa [ofLength_toNat (by omega)]
  · rintro ⟨hCount, hPasses, hFits⟩
    have hValue := Int32.toInt_ofNat_of_lt hCount
    refine ⟨Int32.ofNat count, next, hPasses, by omega, ?_⟩
    rw [hValue, Int.toNat_natCast]
    exact ⟨by omega, rfl, rfl⟩

end Reader

end ColdSigner
