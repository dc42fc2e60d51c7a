import ColdSigner.Bytes.Base58
/-!
# Base 58 text reads back

A number has one list of digits without a zero at its end (`Number.digits_ofDigits`), so a byte
string has one text in base 58, and reads back from no other one (`Base58.decode?_eq_some_iff`).
-/
namespace ColdSigner

/-- Every list is a run of one mark followed by a list that does not begin with it. -/
theorem exists_replicate_append {α : Type} [BEq α] [LawfulBEq α] (mark : α) (list : List α) :
    ∃ count rest, list = List.replicate count mark ++ rest ∧ rest.head? ≠ some mark := by
  induction list with
  | nil => exact ⟨0, [], rfl, by simp⟩
  | cons first list ih =>
      by_cases hFirst : first = mark
      · obtain ⟨count, rest, rfl, hRest⟩ := ih
        exact ⟨count + 1, rest, by rw [hFirst, List.replicate_succ, List.cons_append], hRest⟩
      · exact ⟨0, first :: list, rfl, by simpa using hFirst⟩

/-- A leading run of one mark is taken and dropped as a whole. -/
theorem takeWhile_replicate_append {α : Type} [BEq α] [LawfulBEq α] {mark : α} {rest : List α}
    (hRest : rest.head? ≠ some mark) (count : Nat) :
    (List.replicate count mark ++ rest).takeWhile (· == mark) = List.replicate count mark ∧
      (List.replicate count mark ++ rest).dropWhile (· == mark) = rest := by
  have hMarks : ∀ other ∈ List.replicate count mark, (other == mark) = true := by simp
  rw [List.takeWhile_append_of_pos hMarks, List.dropWhile_append_of_pos hMarks]
  cases rest with
  | nil => simp
  | cons first rest =>
      have hFirst : (first == mark) = false := by simpa using hRest
      simp [hFirst]

namespace Number

variable {base : Nat}

/-- The most significant digit of a number is not zero. -/
theorem getLast?_digits_ne_zero (hBase : 2 ≤ base) (value : Nat) :
    (digits base value).getLast? ≠ some 0 := by
  induction value using Nat.strongRecOn with
  | ind value ih =>
      by_cases hValue : value = 0
      · simp [hValue]
      · have hLess := Nat.div_lt_self (Nat.pos_of_ne_zero hValue) hBase
        rw [digits_of_pos hBase hValue, List.getLast?_cons]
        cases hLast : (digits base (value / base)).getLast? with
        | some digit =>
            have hDigit := ih (value / base) hLess
            rw [hLast] at hDigit
            exact hDigit
        | none =>
            have hNone : value / base = 0 := by
              rwa [List.getLast?_eq_none_iff, digits_eq_nil_iff hBase] at hLast
            have hSmall : value % base = value :=
              Nat.mod_eq_of_lt (Nat.lt_of_div_eq_zero (by omega) hNone)
            simpa [hSmall] using hValue

/-- Digits without a zero at their end are the digits of their number. -/
theorem digits_ofDigits (hBase : 2 ≤ base) {values : List Nat}
    (hSmall : ∀ value ∈ values, value < base) (hLast : values.getLast? ≠ some 0) :
    digits base (ofDigits base values) = values := by
  induction values with
  | nil => exact digits_zero base
  | cons first rest ih =>
      obtain ⟨hFirst, hRest⟩ := List.forall_mem_cons.1 hSmall
      have hRestLast : rest.getLast? ≠ some 0 := by
        rw [List.getLast?_cons] at hLast
        intro hZero
        rw [hZero] at hLast
        exact hLast rfl
      have hDigits := ih hRest hRestLast
      have hValue : first + base * ofDigits base rest ≠ 0 := by
        intro hZero
        have hOther : ofDigits base rest = 0 := by
          rcases Nat.mul_eq_zero.1 (Nat.eq_zero_of_add_eq_zero_left hZero) with h | h
          · omega
          · exact h
        rw [hOther, digits_zero] at hDigits
        subst hDigits
        exact hLast (by simpa using Nat.eq_zero_of_add_eq_zero_right hZero)
      have hMod : (first + base * ofDigits base rest) % base = first := by
        rw [Nat.add_mul_mod_self_left, Nat.mod_eq_of_lt hFirst]
      have hDiv : (first + base * ofDigits base rest) / base = ofDigits base rest := by
        rw [Nat.add_mul_div_left _ _ (by omega), Nat.div_eq_of_lt hFirst, Nat.zero_add]
      rw [ofDigits, digits_of_pos hBase hValue, hMod, hDiv, hDigits]

/-- What is read character by character is written character by character, if a character is read
as a digit only where it is the one written for it. -/
theorem eq_map_of_mapM {digit : Nat → Char} {value? : Char → Option Nat}
    (hDigit : ∀ {c value}, value? c = some value → digit value = c ∧ value < base)
    {text : List Char} {values : List Nat} (hRead : text.mapM value? = some values) :
    text = values.map digit ∧ ∀ value ∈ values, value < base := by
  induction text generalizing values with
  | nil =>
      obtain rfl : [] = values := by simpa using hRead
      exact ⟨rfl, by simp⟩
  | cons c text ih =>
      cases hFirst : value? c with
      | none => simp [List.mapM_cons, hFirst] at hRead
      | some first =>
          cases hRest : text.mapM value? with
          | none => simp [List.mapM_cons, hFirst, hRest] at hRead
          | some rest =>
              obtain rfl : first :: rest = values := by
                simpa [List.mapM_cons, hFirst, hRest] using hRead
              obtain ⟨hText, hSmall⟩ := ih hRest
              obtain ⟨hSame, hLess⟩ := hDigit hFirst
              exact ⟨by rw [List.map_cons, hSame, ← hText], List.forall_mem_cons.2 ⟨hLess, hSmall⟩⟩

end Number

namespace Bytes

theorem ofLittleEndian_eq_ofDigits (bytes : Bytes) :
    ofLittleEndian bytes = Number.ofDigits 256 (bytes.map (·.toNat)) := by
  induction bytes with
  | nil => rfl
  | cons byte rest ih => rw [ofLittleEndian, List.map_cons, Number.ofDigits, ih]

theorem ofBigEndian_replicate_zero_append (count : Nat) (bytes : Bytes) :
    ofBigEndian (List.replicate count 0 ++ bytes) = ofBigEndian bytes := by
  induction count with
  | zero => rfl
  | succ count ih => rw [← ih, List.replicate_succ, List.cons_append]; rfl

/-- Bytes without a zero in front are the digits of their number. -/
theorem digits_ofBigEndian {bytes : Bytes} (hFirst : bytes.head? ≠ some 0) :
    (Number.digits 256 (ofBigEndian bytes)).reverse.map UInt8.ofNat = bytes := by
  have hValue : ofBigEndian bytes = Number.ofDigits 256 (bytes.reverse.map (·.toNat)) := by
    rw [← ofLittleEndian_eq_ofDigits, ← ofBigEndian_reverse, List.reverse_reverse]
  have hSmall : ∀ value ∈ bytes.reverse.map (·.toNat), value < 256 := by
    intro value hMem
    obtain ⟨byte, -, rfl⟩ := List.mem_map.1 hMem
    exact byte.toNat_lt
  have hLast : (bytes.reverse.map (·.toNat)).getLast? ≠ some 0 := by
    rw [List.getLast?_map, List.getLast?_reverse]
    intro hZero
    obtain ⟨byte, hByte, hNumber⟩ := Option.map_eq_some_iff.1 hZero
    obtain rfl : byte = 0 := UInt8.toNat_inj.1 hNumber
    exact hFirst hByte
  have hSame : UInt8.ofNat ∘ (fun byte : UInt8 => byte.toNat) = id := by
    funext byte
    exact UInt8.ofNat_toNat
  rw [hValue, Number.digits_ofDigits (by decide) hSmall hLast, List.map_reverse, List.map_map,
    hSame, List.map_id, List.reverse_reverse]

/-- The digits of a number are bytes that stand for it. -/
theorem ofBigEndian_digits (value : Nat) :
    ofBigEndian ((Number.digits 256 value).reverse.map UInt8.ofNat) = value := by
  have hSame : ((Number.digits 256 value).map UInt8.ofNat).map (·.toNat) =
      Number.digits 256 value := by
    rw [List.map_map]
    refine (List.map_congr_left ?_).trans (List.map_id _)
    intro digit hDigit
    exact UInt8.toNat_ofNat_of_lt' (Number.lt_of_mem_digits hDigit)
  rw [List.map_reverse, ofBigEndian_reverse, ofLittleEndian_eq_ofDigits, hSame,
    Number.ofDigits_digits (by decide)]

/-- The bytes of a number do not begin with zero. -/
theorem head?_digits_ne (value : Nat) :
    ((Number.digits 256 value).reverse.map UInt8.ofNat).head? ≠ some 0 := by
  rw [List.head?_map, List.head?_reverse]
  intro hZero
  obtain ⟨last, hLast, hByte⟩ := Option.map_eq_some_iff.1 hZero
  have hSmall : last < UInt8.size := Number.lt_of_mem_digits (List.mem_of_getLast? hLast)
  have hValue := congrArg UInt8.toNat hByte
  rw [UInt8.toNat_ofNat_of_lt' hSmall] at hValue
  subst hValue
  exact Number.getLast?_digits_ne_zero (by decide) value hLast

end Bytes

namespace Base58

open Number

theorem value?_digit {value : Nat} (hValue : value < 58) : value? (digit value) = some value := by
  have hAll : ∀ value < 58, value? (digit value) = some value := by decide +kernel
  exact hAll value hValue

/-- The digits of a number do not begin with the digit for zero. -/
theorem head?_digits_ne (value : Nat) :
    ((digits 58 value).reverse.map digit).head? ≠ some '1' := by
  rw [List.head?_map, List.head?_reverse]
  intro hOne
  obtain ⟨last, hLast, hDigit⟩ := Option.map_eq_some_iff.1 hOne
  have hSmall := lt_of_mem_digits (List.mem_of_getLast? hLast)
  have hZero : value? '1' = some last := by rw [← hDigit, value?_digit hSmall]
  have hOneValue : value? '1' = some 0 := by decide +kernel
  obtain rfl : 0 = last := Option.some.inj (hOneValue.symm.trans hZero)
  exact getLast?_digits_ne_zero (by decide) value hLast

theorem decodeChars?_encodeChars (bytes : Bytes) :
    decodeChars? (encodeChars bytes) = some bytes := by
  obtain ⟨count, rest, hBytes, hRest⟩ := exists_replicate_append (0 : UInt8) bytes
  have hZeros : (bytes.takeWhile (· == 0)).length = count := by
    rw [hBytes, (takeWhile_replicate_append hRest count).1, List.length_replicate]
  have hValue : Bytes.ofBigEndian bytes = Bytes.ofBigEndian rest := by
    rw [hBytes, Bytes.ofBigEndian_replicate_zero_append]
  obtain ⟨hTaken, hDropped⟩ := takeWhile_replicate_append
    (head?_digits_ne (Bytes.ofBigEndian bytes)) count
  have hDigits : ∀ value ∈ (digits 58 (Bytes.ofBigEndian bytes)).reverse, value < 58 :=
    fun value hMem => lt_of_mem_digits (List.mem_reverse.1 hMem)
  rw [decodeChars?, encodeChars, hZeros, hTaken, hDropped,
    mapM_map_of_lt (fun _ => value?_digit) hDigits]
  simp only [List.reverse_reverse, ofDigits_digits (show 2 ≤ 58 by decide), List.length_replicate]
  rw [hValue, Bytes.digits_ofBigEndian hRest, ← hBytes]

/-- Every byte string reads back from its text. -/
theorem decode?_encode (bytes : Bytes) : decode? (encode bytes) = some bytes := by
  rw [decode?, encode, String.toList_ofList, decodeChars?_encodeChars]

theorem encode_inj {bytes other : Bytes} : encode bytes = encode other ↔ bytes = other := by
  refine ⟨fun hText => ?_, fun h => h ▸ rfl⟩
  have hRead := decode?_encode bytes
  rw [hText, decode?_encode] at hRead
  exact (Option.some.inj hRead).symm

/-! The other direction: what reads as a byte string is the text of it. -/

theorem digit_of_value? {c : Char} {value : Nat} (hValue : value? c = some value) :
    digit value = c ∧ value < 58 := by
  obtain ⟨hLess, hFound, -⟩ := List.findIdx?_eq_some_iff_getElem.1 hValue
  have hDigit : digit value = alphabet[value] := by
    rw [digit, List.getD_eq_getElem?_getD, List.getElem?_eq_getElem hLess, Option.getD_some]
  exact ⟨hDigit.trans (beq_iff_eq.1 hFound), hLess⟩

/-- A text of digits that begins with the run of ones stands for as many zero bytes and the bytes of
a number, and it is the text of these. -/
theorem eq_encodeChars_of_decodeChars? {text : List Char} {bytes : Bytes}
    (hRead : decodeChars? text = some bytes) : text = encodeChars bytes := by
  obtain ⟨count, rest, rfl, hRest⟩ := exists_replicate_append '1' text
  obtain ⟨hTaken, hDropped⟩ := takeWhile_replicate_append hRest count
  rw [decodeChars?, hTaken, hDropped] at hRead
  cases hValues : rest.mapM value? with
  | none => simp [hValues] at hRead
  | some values =>
      simp only [hValues, List.length_replicate, Option.some.injEq] at hRead
      obtain ⟨rfl, hSmall⟩ := eq_map_of_mapM digit_of_value? hValues
      have hLast : values.reverse.getLast? ≠ some 0 := by
        rw [List.getLast?_reverse]
        intro hZero
        refine hRest ?_
        rw [List.head?_map, hZero]
        rfl
      have hDigits : digits 58 (ofDigits 58 values.reverse) = values.reverse :=
        digits_ofDigits (by decide) (fun value hMem => hSmall value (List.mem_reverse.1 hMem)) hLast
      obtain ⟨hZeros, -⟩ := takeWhile_replicate_append
        (Bytes.head?_digits_ne (ofDigits 58 values.reverse)) count
      rw [← hRead, encodeChars, hZeros, List.length_replicate,
        Bytes.ofBigEndian_replicate_zero_append, Bytes.ofBigEndian_digits, hDigits,
        List.reverse_reverse]

/-- A text reads as a byte string exactly if it is written for it. -/
theorem decode?_eq_some_iff {text : String} {bytes : Bytes} :
    decode? text = some bytes ↔ text = encode bytes := by
  constructor
  · intro hRead
    rw [encode, ← eq_encodeChars_of_decodeChars? hRead, String.ofList_toList]
  · rintro rfl
    exact decode?_encode bytes

end Base58

end ColdSigner
