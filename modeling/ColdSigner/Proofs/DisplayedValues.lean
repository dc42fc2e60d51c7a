import ColdSigner.Display.Coin
import ColdSigner.Proofs.BaseNumerals
import ColdSigner.Proofs.Calendar
/-!
# What a displayed value says

Every number, amount and point in time fits its place on the screen, so nothing is replaced by
the mark for what does not fit. An exact value is determined by its text. An amount of the coin
is determined down to the last visible decimal (`Display.coin_eq_iff`), and a point in time down to
the second (`Display.time_eq_iff`).
-/
namespace ColdSigner

namespace Number.Decimal

/-- The ten digits. -/
def alphabet : List Char := "0123456789".toList

theorem digit_mem_alphabet {value : Nat} (hValue : value < 10) : digit value ∈ alphabet := by
  have hAll : ∀ value < 10, digit value ∈ alphabet := by decide
  exact hAll value hValue

theorem isDigit_of_mem_alphabet {c : Char} (hMem : c ∈ alphabet) : c.isDigit = true := by
  have hAll : alphabet.all Char.isDigit = true := by decide
  exact List.all_eq_true.1 hAll c hMem

theorem digit_inj {value other : Nat} (hValue : value < 10) (hOther : other < 10) :
    digit value = digit other ↔ value = other := by
  refine ⟨fun hDigit => ?_, fun h => h ▸ rfl⟩
  have hRead := value?_digit hValue
  rw [hDigit, value?_digit hOther] at hRead
  exact (Option.some.inj hRead).symm

theorem chars_subset (value : Nat) : chars value ⊆ alphabet := by
  unfold chars
  split
  · decide
  · intro c hMem
    obtain ⟨next, hNext, rfl⟩ := List.mem_map.1 hMem
    exact digit_mem_alphabet (lt_of_mem_digits (List.mem_reverse.1 hNext))

theorem isDigit_of_mem_chars {value : Nat} {c : Char} (hMem : c ∈ chars value) :
    c.isDigit = true :=
  isDigit_of_mem_alphabet (chars_subset value hMem)

/-- A text that begins with a number begins with a digit. -/
theorem isDigit_of_head? {value : Nat} {rest : List Char} {c : Char}
    (hHead : (chars value ++ rest).head? = some c) : c.isDigit = true := by
  cases hChars : chars value with
  | nil => exact absurd hChars (chars_ne_nil value)
  | cons first more =>
      rw [hChars] at hHead
      obtain rfl : first = c := Option.some.inj hHead
      exact isDigit_of_mem_chars (hChars ▸ List.mem_cons_self)

theorem chars_inj {value other : Nat} : chars value = chars other ↔ value = other := by
  refine ⟨fun hChars => ?_, fun h => h ▸ rfl⟩
  have hRead := ofChars?_chars value
  rw [hChars, ofChars?_chars] at hRead
  exact (Option.some.inj hRead).symm

theorem ofDigits_append_zeros (values : List Nat) (count : Nat) :
    ofDigits 10 (values ++ List.replicate count 0) = ofDigits 10 values := by
  induction values with
  | nil =>
      induction count with
      | zero => rfl
      | succ count ih =>
          rw [List.nil_append] at ih ⊢
          rw [List.replicate_succ]
          simp [ofDigits, ih]
  | cons first rest ih => rw [List.cons_append, ofDigits, ofDigits, ih]

theorem mapM_value?_zeros (count : Nat) :
    (List.replicate count '0').mapM value? = some (List.replicate count 0) := by
  induction count with
  | zero => rfl
  | succ count ih =>
      rw [List.replicate_succ, List.mapM_cons, ih]
      rfl

/-- Zeros in front of a number do not change it. -/
theorem ofChars?_zeros_append (count value : Nat) :
    ofChars? (List.replicate count '0' ++ chars value) = some value := by
  have hRead := ofChars?_chars value
  rw [ofChars?, if_neg (by simpa using chars_ne_nil value)] at hRead
  obtain ⟨values, hValues, hValue⟩ := Option.map_eq_some_iff.1 hRead
  rw [ofChars?, if_neg (by simp [chars_ne_nil]), List.mapM_append, mapM_value?_zeros,
    hValues]
  simp [ofDigits_append_zeros, hValue]

theorem digit_of_value? {c : Char} {value : Nat} (hValue : value? c = some value) :
    digit value = c ∧ value < 10 := by
  obtain ⟨hDigit, hRest⟩ := Option.ite_none_right_eq_some.1 hValue
  obtain rfl : c.toNat - 48 = value := by simpa using hRest
  refine ⟨?_, by omega⟩
  rw [digit, Nat.add_sub_cancel' hDigit.1, Char.ofNat_toNat]

/-- A text reads as a number exactly if it is the digits of the number behind some zeros. -/
theorem ofChars?_eq_some_iff {text : List Char} {value : Nat} :
    ofChars? text = some value ↔ ∃ count, text = List.replicate count '0' ++ chars value := by
  constructor
  · intro hRead
    obtain ⟨count, rest, rfl, hRest⟩ := exists_replicate_append '0' text
    have hSome : List.replicate count '0' ++ rest ≠ [] := by
      rintro hNone
      rw [hNone] at hRead
      cases hRead
    rw [ofChars?, if_neg (by simpa using hSome), List.mapM_append, mapM_value?_zeros] at hRead
    cases hValues : rest.mapM value? with
    | none => simp [hValues] at hRead
    | some values =>
        obtain ⟨rfl, hSmall⟩ := eq_map_of_mapM digit_of_value? hValues
        have hValue : ofDigits 10 values.reverse = value := by
          simpa [hValues, ofDigits_append_zeros] using hRead
        have hLast : values.reverse.getLast? ≠ some 0 := by
          rw [List.getLast?_reverse]
          intro hZero
          exact hRest (by rw [List.head?_map, hZero]; rfl)
        have hDigits : digits 10 value = values.reverse := by
          rw [← hValue]
          exact digits_ofDigits (by decide) (by simpa using hSmall) hLast
        by_cases hZero : value = 0
        · -- The number zero is written with the last of the zeros.
          obtain rfl : values = [] := by simpa [hZero] using hDigits.symm
          obtain ⟨fewer, rfl⟩ := Nat.exists_eq_add_one_of_ne_zero
            (show count ≠ 0 by rintro rfl; exact hSome rfl)
          exact ⟨fewer, by simp [chars, hZero, List.replicate_succ']⟩
        · exact ⟨count, by rw [chars, if_neg hZero, hDigits, List.reverse_reverse]⟩
  · rintro ⟨count, rfl⟩
    exact ofChars?_zeros_append count value

end Number.Decimal

namespace Hex

theorem encodeChars_inj {bytes other : Bytes} :
    encodeChars bytes = encodeChars other ↔ bytes = other := by
  refine ⟨fun hChars => ?_, fun h => h ▸ rfl⟩
  have hRead := decodePairs_encodeChars 0 bytes
  rw [hChars, decodePairs_encodeChars] at hRead
  exact (Except.ok.inj hRead).symm

/-- The digits of a byte. -/
def alphabet : List Char := "0123456789abcdef".toList

theorem encodeChars_subset (bytes : Bytes) : encodeChars bytes ⊆ alphabet := by
  have hDigit : ∀ value < 16, Text.hexDigit value ∈ alphabet := by decide
  intro c hMem
  obtain ⟨byte, -, hPair⟩ := List.mem_flatMap.1 hMem
  have hByte := byte.toNat_lt
  obtain rfl | rfl : c = _ ∨ c = _ := by simpa [encodeByte] using hPair
  · exact hDigit _ (by omega)
  · exact hDigit _ (by omega)

end Hex

namespace Display

open Number

/-- Each character takes one byte. -/
def isAscii (text : List Char) : Bool := text.all (·.utf8Size == 1)

theorem isAscii_of_subset {text alphabet : List Char} (hText : text ⊆ alphabet)
    (hAscii : isAscii alphabet = true) : isAscii text = true :=
  List.all_eq_true.2 fun c hMem => List.all_eq_true.1 hAscii c (hText hMem)

theorem utf8ByteSize_ofList {text : List Char} (hAscii : isAscii text = true) :
    (String.ofList text).utf8ByteSize = text.length := by
  induction text with
  | nil => rfl
  | cons first rest ih =>
      obtain ⟨hFirst, hRest⟩ := Bool.and_eq_true_iff.1 hAscii
      rw [String.ofList_cons, String.utf8ByteSize_append, String.utf8ByteSize_singleton,
        beq_iff_eq.1 hFirst, ih hRest, List.length_cons, Nat.add_comm]

theorem isAscii_chars (value : Nat) : isAscii (Decimal.chars value) = true :=
  isAscii_of_subset (Decimal.chars_subset value) (by decide)

theorem isAscii_encodeChars (bytes : Bytes) : isAscii (Hex.encodeChars bytes) = true :=
  isAscii_of_subset (Hex.encodeChars_subset bytes) (by decide)

/-- The codes of ASCII characters. -/
def asciiBytes (text : List Char) : Bytes := text.map fun c => UInt8.ofNat c.toNat

theorem asciiBytes_append (text more : List Char) :
    asciiBytes (text ++ more) = asciiBytes text ++ asciiBytes more :=
  List.map_append

theorem length_asciiBytes (text : List Char) : (asciiBytes text).length = text.length :=
  List.length_map _

/-- Every byte is the code of a character. -/
theorem asciiBytes_map (bytes : Bytes) :
    asciiBytes (bytes.map fun byte => Char.ofNat byte.toNat) = bytes := by
  rw [asciiBytes, List.map_map]
  refine (List.map_congr_left fun byte _ => ?_).trans (List.map_id _)
  have hByte := byte.toNat_lt
  have hCode : (Char.ofNat byte.toNat).toNat = byte.toNat := by
    rw [Char.ofNat, dif_pos (Or.inl (by omega))]
    rfl
  show UInt8.ofNat (Char.ofNat byte.toNat).toNat = byte
  rw [hCode, UInt8.ofNat_toNat]

theorem map_asciiBytes {text : List Char} (hAscii : isAscii text = true) :
    (asciiBytes text).map (fun byte => Char.ofNat byte.toNat) = text := by
  rw [asciiBytes, List.map_map]
  refine (List.map_congr_left fun c hMem => ?_).trans (List.map_id _)
  have hOne : c.utf8Size = 1 := beq_iff_eq.1 (List.all_eq_true.1 hAscii c hMem)
  have hSmall : c.toNat < UInt8.size :=
    Nat.lt_of_le_of_lt (Char.utf8Size_eq_one_iff.1 hOne) (by decide)
  show Char.ofNat (UInt8.ofNat c.toNat).toNat = c
  rw [UInt8.toNat_ofNat_of_lt' hSmall, Char.ofNat_toNat]

/-- A short text of ASCII characters is shown as it is. -/
theorem fit_ofList {capacity : Nat} {text : List Char} (hAscii : isAscii text = true)
    (hLength : text.length ≤ capacity) :
    fit capacity (String.ofList text) = String.ofList text := by
  rw [fit, if_pos (by rwa [utf8ByteSize_ofList hAscii])]

/-! ## Exact values -/

/-- Bytes of a fixed size are shown in full, if there is room for two digits of each. -/
theorem hex_toList {size capacity : Nat} (bytes : FixedBytes size) (hRoom : 2 * size ≤ capacity) :
    hex capacity bytes.toList = Hex.encode bytes.toList := by
  have hLength : (Hex.encodeChars bytes.toList).length = 2 * size := by
    rw [Hex.length_encodeChars, bytes.length_toList]
  exact fit_ofList (isAscii_encodeChars _) (hLength ▸ hRoom)

theorem hex_inj {size : Nat} {bytes other : FixedBytes size} :
    hex (2 * size) bytes.toList = hex (2 * size) other.toList ↔ bytes = other := by
  rw [hex_toList bytes (Nat.le_refl _), hex_toList other (Nat.le_refl _), Hex.encode, Hex.encode,
    String.ofList_inj, Hex.encodeChars_inj]
  exact ⟨FixedBytes.ext, fun h => h ▸ rfl⟩

/-- Every amount is shown in full. -/
theorem amount_eq_text {capacity : Nat} (hRoom : Uint256.maxDigits ≤ capacity) (value : Uint256) :
    amount capacity value = value.text :=
  fit_ofList (isAscii_chars _) (Nat.le_trans value.length_decimal_le hRoom)

theorem amount_inj {value other : Uint256} :
    amount coinCapacity value = amount coinCapacity other ↔ value = other := by
  have hRoom : Uint256.maxDigits ≤ coinCapacity := by decide
  rw [amount_eq_text hRoom, amount_eq_text hRoom, Uint256.text, Uint256.text, Decimal.text,
    Decimal.text, String.ofList_inj, Decimal.chars_inj]
  exact ⟨Uint256.ext, fun h => h ▸ rfl⟩

/-! ## Amounts of the coin -/

/-- A number below a million with the zeros in front that give it six digits. -/
def sixDigits (value : Nat) : List Char :=
  List.replicate (6 - (Decimal.chars value).length) '0' ++ Decimal.chars value

theorem length_sixDigits {value : Nat} (hValue : value < 10 ^ 6) :
    (sixDigits value).length = 6 := by
  have hLength : (Decimal.chars value).length ≤ 6 := Decimal.length_chars_le (by decide) hValue
  simp only [sixDigits, List.length_append, List.length_replicate]
  omega

theorem sixDigits_subset (value : Nat) : sixDigits value ⊆ Decimal.alphabet := by
  refine List.append_subset.2 ⟨fun c hZero => ?_, Decimal.chars_subset value⟩
  rw [List.eq_of_mem_replicate hZero]
  decide

theorem sixDigits_inj {value other : Nat} :
    sixDigits value = sixDigits other ↔ value = other := by
  refine ⟨fun hDigits => ?_, fun h => h ▸ rfl⟩
  have hRead : Decimal.ofChars? (sixDigits value) = some value := Decimal.ofChars?_zeros_append _ _
  rw [hDigits, sixDigits, Decimal.ofChars?_zeros_append] at hRead
  exact (Option.some.inj hRead).symm

/-- The millionths of a coin in an amount, without the whole coins. -/
def millionths (units : Nat) : Nat := units % unitsPerCoin / visibleUnits

theorem millionths_lt (units : Nat) : millionths units < 10 ^ 6 := by
  simp only [millionths, unitsPerCoin, visibleUnits]
  omega

/-- The visible decimals are all six of them up to zeros at the end. -/
theorem exists_decimals_append (units : Nat) :
    ∃ count, sixDigits (millionths units) = decimals units ++ List.replicate count '0' := by
  obtain ⟨count, rest, hDigits, hRest⟩ :=
    exists_replicate_append '0' (sixDigits (millionths units)).reverse
  have hDecimals : decimals units = rest.reverse := by
    show ((sixDigits (millionths units)).reverse.dropWhile (· == '0')).reverse = _
    rw [hDigits, (takeWhile_replicate_append hRest count).2]
  refine ⟨count, ?_⟩
  rw [hDecimals, ← List.reverse_reverse (sixDigits (millionths units)), hDigits,
    List.reverse_append, List.reverse_replicate]

theorem decimals_eq_iff {units other : Nat} :
    decimals units = decimals other ↔ millionths units = millionths other := by
  have hDefinition (units : Nat) : decimals units =
      ((sixDigits (millionths units)).reverse.dropWhile (· == '0')).reverse := rfl
  refine ⟨fun hDecimals => ?_, fun hSame => by rw [hDefinition, hDefinition, hSame]⟩
  obtain ⟨count, hDigits⟩ := exists_decimals_append units
  obtain ⟨otherCount, hOther⟩ := exists_decimals_append other
  have hLength := length_sixDigits (millionths_lt units)
  have hOtherLength := length_sixDigits (millionths_lt other)
  rw [hDigits, List.length_append, List.length_replicate, hDecimals] at hLength
  rw [hOther, List.length_append, List.length_replicate] at hOtherLength
  obtain rfl : count = otherCount := by omega
  rw [← sixDigits_inj, hDigits, hOther, hDecimals]

/-- An amount with its visible decimals, when they are not all hidden. -/
def plainChars (units : Nat) : List Char :=
  Decimal.chars (units / unitsPerCoin) ++
    ((if decimals units = [] then [] else '.' :: decimals units) ++ " ALPH".toList)

theorem coinChars_eq (units : Nat) :
    coinChars units =
      if 0 < units ∧ units < visibleUnits then "<0.000001 ALPH".toList else plainChars units := by
  unfold coinChars
  by_cases hZero : units = 0
  · subst hZero
    rw [if_pos rfl, if_neg (by omega)]
    decide +kernel
  · rw [if_neg hZero]
    by_cases hSmall : units < visibleUnits
    · rw [if_pos hSmall, if_pos ⟨Nat.pos_of_ne_zero hZero, hSmall⟩]
    · rw [if_neg hSmall, if_neg (fun h => hSmall h.2), plainChars, List.append_assoc]

/-- Digits end where something else begins. -/
theorem chars_append_inj {value other : Nat} {rest otherRest : List Char}
    (hRest : ∀ c ∈ rest.head?, c.isDigit = false)
    (hOtherRest : ∀ c ∈ otherRest.head?, c.isDigit = false)
    (hText : Decimal.chars value ++ rest = Decimal.chars other ++ otherRest) :
    value = other ∧ rest = otherRest := by
  have hCut (value : Nat) {rest : List Char} (hRest : ∀ c ∈ rest.head?, c.isDigit = false) :
      (Decimal.chars value ++ rest).takeWhile Char.isDigit = Decimal.chars value := by
    rw [List.takeWhile_append_of_pos fun _ hMem => Decimal.isDigit_of_mem_chars hMem]
    cases rest with
    | nil => simp
    | cons first rest => simp [hRest first (by simp)]
  have hDigits := hCut value hRest
  rw [hText, hCut other hOtherRest] at hDigits
  rw [hDigits] at hText
  exact ⟨(Decimal.chars_inj.1 hDigits).symm, List.append_cancel_left hText⟩

theorem plainChars_eq_iff {units other : Nat} :
    plainChars units = plainChars other ↔ units / visibleUnits = other / visibleUnits := by
  constructor
  · intro hChars
    have hRest (units : Nat) : ∀ c ∈ ((if decimals units = [] then []
        else '.' :: decimals units) ++ " ALPH".toList).head?, c.isDigit = false := by
      intro c hHead
      split at hHead
      · obtain rfl : ' ' = c := Option.some.inj hHead
        rfl
      · obtain rfl : '.' = c := Option.some.inj hHead
        rfl
    obtain ⟨hWhole, hRest⟩ := chars_append_inj (hRest units) (hRest other) hChars
    have hDecimals : decimals units = decimals other := by
      have hFraction := List.append_cancel_right hRest
      by_cases hNone : decimals units = [] <;> by_cases hOther : decimals other = [] <;>
        simp_all
    rw [decimals_eq_iff] at hDecimals
    simp only [millionths, unitsPerCoin, visibleUnits] at hWhole hDecimals ⊢
    omega
  · intro hSame
    simp only [visibleUnits] at hSame
    have hWhole : units / unitsPerCoin = other / unitsPerCoin := by
      simp only [unitsPerCoin]
      omega
    have hMillionths : millionths units = millionths other := by
      simp only [millionths, unitsPerCoin, visibleUnits]
      omega
    rw [plainChars, plainChars, hWhole, decimals_eq_iff.2 hMillionths]

theorem head?_plainChars_ne (units : Nat) : (plainChars units).head? ≠ some '<' := by
  intro hHead
  have hDigit := Decimal.isDigit_of_head? hHead
  exact absurd hDigit (by decide)

/-- Two amounts look alike exactly if they are equal down to the last visible decimal, and none
or both of them are zero. -/
theorem coinChars_eq_iff {units other : Nat} :
    coinChars units = coinChars other ↔
      units / visibleUnits = other / visibleUnits ∧ (units = 0 ↔ other = 0) := by
  have hMark : ("<0.000001 ALPH".toList).head? = some '<' := rfl
  have hVisible : visibleUnits = 10 ^ 12 := rfl
  rw [coinChars_eq, coinChars_eq, hVisible]
  by_cases hUnits : 0 < units ∧ units < 10 ^ 12 <;>
    by_cases hOther : 0 < other ∧ other < 10 ^ 12
  · rw [if_pos hUnits, if_pos hOther]
    exact ⟨fun _ => by omega, fun _ => rfl⟩
  · rw [if_pos hUnits, if_neg hOther]
    refine ⟨fun hChars => ?_, fun h => by omega⟩
    rw [hChars] at hMark
    exact (head?_plainChars_ne other hMark).elim
  · rw [if_neg hUnits, if_pos hOther]
    refine ⟨fun hChars => ?_, fun h => by omega⟩
    rw [← hChars] at hMark
    exact (head?_plainChars_ne units hMark).elim
  · rw [if_neg hUnits, if_neg hOther, plainChars_eq_iff, hVisible]
    omega

theorem decimals_subset (units : Nat) : decimals units ⊆ Decimal.alphabet := by
  obtain ⟨count, hDecimals⟩ := exists_decimals_append units
  have hDigits := sixDigits_subset (millionths units)
  rw [hDecimals] at hDigits
  exact (List.append_subset.1 hDigits).1

/-- The characters of an amount. -/
def coinAlphabet : List Char := Decimal.alphabet ++ "<. ALPH".toList

theorem coinChars_subset (units : Nat) : coinChars units ⊆ coinAlphabet := by
  have hDigits : Decimal.alphabet ⊆ coinAlphabet := List.subset_append_left _ _
  rw [coinChars_eq]
  split
  · decide
  · refine List.append_subset.2 ⟨List.Subset.trans (Decimal.chars_subset _) hDigits,
      List.append_subset.2 ⟨?_, by decide⟩⟩
    split
    · exact List.nil_subset _
    · exact List.cons_subset.2 ⟨by decide, List.Subset.trans (decimals_subset units) hDigits⟩

theorem isAscii_coinChars (units : Nat) : isAscii (coinChars units) = true :=
  isAscii_of_subset (coinChars_subset units) (by decide)

theorem length_coinChars_le {units : Nat} (hUnits : units < 2 ^ 256) :
    (coinChars units).length ≤ 72 := by
  rw [coinChars_eq]
  split
  · decide
  · obtain ⟨count, hDecimals⟩ := exists_decimals_append units
    have hSix := length_sixDigits (millionths_lt units)
    rw [hDecimals, List.length_append] at hSix
    have hWhole : (Decimal.chars (units / unitsPerCoin)).length ≤ 60 := by
      apply Decimal.length_chars_le (by decide)
      exact Nat.div_lt_of_lt_mul (Nat.lt_trans hUnits (by decide))
    have hFraction : (if decimals units = [] then [] else '.' :: decimals units).length ≤ 7 := by
      split
      · exact Nat.zero_le 7
      · rw [List.length_cons]
        omega
    have hUnit : (" ALPH".toList).length = 5 := rfl
    simp only [plainChars, List.length_append, hUnit]
    omega

/-- Every amount of the coin is shown in full. -/
theorem coin_eq_ofList {capacity : Nat} (hRoom : coinCapacity ≤ capacity) (value : Uint256) :
    coin capacity value = String.ofList (coinChars value.toNat) := by
  have hShort : 72 ≤ coinCapacity := by decide
  exact fit_ofList (isAscii_coinChars _)
    (Nat.le_trans (length_coinChars_le value.isLt) (Nat.le_trans hShort hRoom))

theorem coin_eq_iff {value other : Uint256} :
    coin coinCapacity value = coin coinCapacity other ↔
      value.toNat / visibleUnits = other.toNat / visibleUnits ∧
        (value.toNat = 0 ↔ other.toNat = 0) := by
  rw [coin_eq_ofList (Nat.le_refl _), coin_eq_ofList (Nat.le_refl _), String.ofList_inj,
    coinChars_eq_iff]

/-! ## Points in time -/

theorem twoDigits_subset (value : Nat) : twoDigits value ⊆ Decimal.alphabet := by
  intro c hMem
  obtain rfl | rfl : c = _ ∨ c = _ := by simpa [twoDigits] using hMem
  · exact Decimal.digit_mem_alphabet (Nat.mod_lt _ (by decide))
  · exact Decimal.digit_mem_alphabet (Nat.mod_lt _ (by decide))

theorem twoDigits_inj {value other : Nat} (hValue : value < 100) (hOther : other < 100) :
    twoDigits value = twoDigits other ↔ value = other := by
  refine ⟨fun hDigits => ?_, fun h => h ▸ rfl⟩
  obtain ⟨hHigh, hLow⟩ : Decimal.digit (value / 10 % 10) = Decimal.digit (other / 10 % 10) ∧
      Decimal.digit (value % 10) = Decimal.digit (other % 10) := by simpa [twoDigits] using hDigits
  rw [Decimal.digit_inj (by omega) (by omega)] at hHigh hLow
  omega

/-- What stands behind the year. -/
def afterYear (date : Date) (rest : Nat) : List Char :=
  '-' :: twoDigits date.month ++ '-' :: twoDigits date.day ++ ' ' :: twoDigits (rest / 3600) ++
    ':' :: twoDigits (rest % 3600 / 60) ++ ':' :: twoDigits (rest % 60) ++ " UTC".toList

theorem timeChars_eq (seconds : Nat) :
    timeChars seconds = Decimal.chars (Date.ofDays (seconds / 86400)).year ++
      afterYear (Date.ofDays (seconds / 86400)) (seconds % 86400) := by
  simp only [timeChars, afterYear, List.append_assoc, List.cons_append]

/-- Months and days have two digits, and the year is not far ahead. -/
theorem Date.ofDays_bounds (days : Nat) :
    (ofDays days).month < 100 ∧ (ofDays days).day < 100 ∧
      (ofDays days).year ≤ days + 2000 := by
  obtain ⟨marchYear, marchMonth, dayOfMonth, hMonth, hDays, -, hDay, hDate⟩ :=
    exists_ofDays_eq days
  rw [hDate]
  refine ⟨?_, ?_, ?_⟩
  · show (if marchMonth < 10 then marchMonth + 3 else marchMonth - 9) < 100
    split <;> omega
  · show dayOfMonth + 1 < 100
    unfold daysToMonth at hDay
    omega
  · show marchYear + (if marchMonth < 10 then 0 else 1) ≤ days + 2000
    unfold daysToYear at hDays
    split <;> omega

theorem afterYear_inj {days otherDays rest otherRest : Nat} (hRest : rest < 86400)
    (hOtherRest : otherRest < 86400)
    (hText : afterYear (Date.ofDays days) rest = afterYear (Date.ofDays otherDays) otherRest) :
    (Date.ofDays days).month = (Date.ofDays otherDays).month ∧
      (Date.ofDays days).day = (Date.ofDays otherDays).day ∧ rest = otherRest := by
  obtain ⟨hMonth, hDay, -⟩ := Date.ofDays_bounds days
  obtain ⟨hOtherMonth, hOtherDay, -⟩ := Date.ofDays_bounds otherDays
  unfold afterYear at hText
  have hWidth (mark : Char) (value other : Nat) :
      (mark :: twoDigits value).length = (mark :: twoDigits other).length := rfl
  obtain ⟨hText, -⟩ := List.append_inj' hText rfl
  obtain ⟨hText, hSeconds⟩ := List.append_inj' hText (hWidth _ _ _)
  obtain ⟨hText, hMinutes⟩ := List.append_inj' hText (hWidth _ _ _)
  obtain ⟨hText, hHours⟩ := List.append_inj' hText (hWidth _ _ _)
  obtain ⟨hMonths, hDays⟩ := List.append_inj' hText (hWidth _ _ _)
  have hCut {mark : Char} {value other : Nat} (hValue : value < 100) (hOther : other < 100)
      (hText : mark :: twoDigits value = mark :: twoDigits other) : value = other :=
    (twoDigits_inj hValue hOther).1 (List.cons.inj hText).2
  have hHour := hCut (by omega) (by omega) hHours
  have hMinute := hCut (by omega) (by omega) hMinutes
  have hSecond := hCut (by omega) (by omega) hSeconds
  exact ⟨hCut hMonth hOtherMonth hMonths, hCut hDay hOtherDay hDays, by omega⟩

theorem timeChars_inj {seconds other : Nat} :
    timeChars seconds = timeChars other ↔ seconds = other := by
  refine ⟨fun hChars => ?_, fun h => h ▸ rfl⟩
  rw [timeChars_eq, timeChars_eq] at hChars
  obtain ⟨hYear, hText⟩ := chars_append_inj (by simp [afterYear]) (by simp [afterYear]) hChars
  obtain ⟨hMonth, hDay, hRest⟩ :=
    afterYear_inj (Nat.mod_lt _ (by decide)) (Nat.mod_lt _ (by decide)) hText
  have hDate : Date.ofDays (seconds / 86400) = Date.ofDays (other / 86400) := by
    cases hLeft : Date.ofDays (seconds / 86400)
    cases hRight : Date.ofDays (other / 86400)
    simp_all
  have hDays : seconds / 86400 = other / 86400 := by
    rw [← Date.toDays_ofDays (seconds / 86400), hDate, Date.toDays_ofDays]
  omega

/-- The characters of a point in time. -/
def timeAlphabet : List Char := Decimal.alphabet ++ "-: UTC".toList

theorem timeChars_subset (seconds : Nat) : timeChars seconds ⊆ timeAlphabet := by
  have hDigits : Decimal.alphabet ⊆ timeAlphabet := List.subset_append_left _ _
  have hPart {mark : Char} (hMark : mark ∈ timeAlphabet) (value : Nat) :
      mark :: twoDigits value ⊆ timeAlphabet :=
    List.cons_subset.2 ⟨hMark, List.Subset.trans (twoDigits_subset value) hDigits⟩
  rw [timeChars_eq, afterYear]
  simp only [List.append_subset]
  exact ⟨List.Subset.trans (Decimal.chars_subset _) hDigits,
    ⟨⟨⟨⟨hPart (by decide) _, hPart (by decide) _⟩, hPart (by decide) _⟩, hPart (by decide) _⟩,
      hPart (by decide) _⟩, by decide⟩

theorem length_timeChars_le {seconds : Nat} (hSeconds : seconds < 2 ^ 64) :
    (timeChars seconds).length ≤ coinCapacity := by
  have hYear : (Decimal.chars (Date.ofDays (seconds / 86400)).year).length ≤ 20 := by
    apply Decimal.length_chars_le (by decide)
    have hBound := (Date.ofDays_bounds (seconds / 86400)).2.2
    omega
  have hRest : (afterYear (Date.ofDays (seconds / 86400)) (seconds % 86400)).length = 19 := rfl
  rw [timeChars_eq, List.length_append, hRest]
  simp only [coinCapacity]
  omega

/-- Every point in time is shown in full. -/
theorem time_eq_ofList {capacity : Nat} (hRoom : coinCapacity ≤ capacity)
    (milliseconds : UInt64) :
    time capacity milliseconds = String.ofList (timeChars (milliseconds.toNat / 1000)) := by
  have hSeconds : milliseconds.toNat / 1000 < 2 ^ 64 :=
    Nat.lt_of_le_of_lt (Nat.div_le_self _ _) milliseconds.toNat_lt
  exact fit_ofList (isAscii_of_subset (timeChars_subset _) (by decide))
    (Nat.le_trans (length_timeChars_le hSeconds) hRoom)

/-- Two points in time look alike exactly when they are in the same second. -/
theorem time_eq_iff {milliseconds other : UInt64} :
    time coinCapacity milliseconds = time coinCapacity other ↔
      milliseconds.toNat / 1000 = other.toNat / 1000 := by
  rw [time_eq_ofList (Nat.le_refl _), time_eq_ofList (Nat.le_refl _), String.ofList_inj,
    timeChars_inj]

end Display

end ColdSigner
