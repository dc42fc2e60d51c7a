import ColdSigner.Proofs.DisplayedValues
import Mathlib.Data.List.DropRight
/-!
# What an amount of the coin says

An amount is shown with the decimals that are visible and never overstated
(`Display.coin_truncated`). Its digits are written into a buffer behind some zeros and cut there
(`Display.cutChars`), which puts the point at the right place for short and long amounts alike;
byte by byte this is `Display.writtenCoin?`.
The text is read back by `Display.shown?`: it shows the amount without the units that are not
visible.
-/
namespace ColdSigner

open Number

namespace Number.Decimal

/-! ## The last digits -/

/-- The last digits of a number, with zeros in front if it has fewer. -/
def lastChars : Nat → Nat → List Char
  | 0, _ => []
  | count + 1, value => lastChars count (value / 10) ++ [digit (value % 10)]

theorem length_lastChars (count value : Nat) : (lastChars count value).length = count := by
  induction count generalizing value with
  | zero => rfl
  | succ count ih => rw [lastChars, List.length_append, ih, List.length_singleton]

theorem lastChars_subset (count value : Nat) : lastChars count value ⊆ alphabet := by
  induction count generalizing value with
  | zero => exact List.nil_subset _
  | succ count ih =>
      have hLast := digit_mem_alphabet (Nat.mod_lt value (by decide : 10 > 0))
      exact List.append_subset.2 ⟨ih _, List.cons_subset.2 ⟨hLast, List.nil_subset _⟩⟩

theorem lastChars_add (count more value : Nat) :
    lastChars (count + more) value =
      lastChars count (value / 10 ^ more) ++ lastChars more value := by
  induction more generalizing value with
  | zero => simp [lastChars]
  | succ more ih =>
      rw [← Nat.add_assoc, lastChars, ih, lastChars, Nat.div_div_eq_div_mul, ← Nat.pow_succ',
        List.append_assoc]

theorem lastChars_mod (count value : Nat) :
    lastChars count (value % 10 ^ count) = lastChars count value := by
  induction count generalizing value with
  | zero => rfl
  | succ count ih =>
      have hLast : value % 10 ^ (count + 1) % 10 = value % 10 :=
        Nat.mod_mod_of_dvd _ (Nat.pow_succ' ▸ Nat.dvd_mul_right ..)
      have hOthers : value % 10 ^ (count + 1) / 10 = value / 10 % 10 ^ count := by
        rw [Nat.pow_succ', Nat.mod_mul_right_div_self]
      rw [lastChars, hLast, hOthers, ih, lastChars]

theorem chars_of_lt {value : Nat} (hValue : value < 10) : chars value = [digit value] := by
  by_cases hZero : value = 0
  · subst hZero
    rfl
  · have hRest : value / 10 = 0 := Nat.div_eq_of_lt hValue
    rw [chars, if_neg hZero, digits_of_pos (by decide) hZero, hRest, digits_zero,
      Nat.mod_eq_of_lt hValue]
    rfl

theorem chars_append_digit {value : Nat} (hValue : 10 ≤ value) :
    chars value = chars (value / 10) ++ [digit (value % 10)] := by
  have hRest : value / 10 ≠ 0 := by omega
  rw [chars, if_neg (by omega), chars, if_neg hRest, digits_of_pos (by decide) (by omega),
    List.reverse_cons, List.map_append]
  rfl

/-- A long number is the number in front of its last digits and these digits. -/
theorem chars_eq_append {count value : Nat} (hValue : 10 ^ count ≤ value) :
    chars value = chars (value / 10 ^ count) ++ lastChars count value := by
  induction count generalizing value with
  | zero => simp [lastChars]
  | succ count ih =>
      have hPow : 10 ^ (count + 1) = 10 ^ count * 10 := Nat.pow_succ ..
      have hTen : 10 ≤ value := by
        have hPos : 0 < 10 ^ count := Nat.pow_pos (by decide)
        omega
      have hRest : 10 ^ count ≤ value / 10 := by omega
      rw [chars_append_digit hTen, ih hRest, lastChars, Nat.div_div_eq_div_mul, Nat.pow_succ',
        List.append_assoc]

/-- A short number with zeros in front is its last digits. -/
theorem zeros_append_chars {count value : Nat} (hCount : 0 < count) (hValue : value < 10 ^ count) :
    List.replicate (count - (chars value).length) '0' ++ chars value = lastChars count value := by
  induction count generalizing value with
  | zero => exact absurd hCount (Nat.lt_irrefl 0)
  | succ count ih =>
      by_cases hShort : value < 10
      · have hZeros (count : Nat) : lastChars count 0 = List.replicate count '0' := by
          induction count with
          | zero => rfl
          | succ count ih =>
              rw [lastChars, Nat.zero_div, ih, List.replicate_succ']
              rfl
        rw [chars_of_lt hShort, lastChars, Nat.div_eq_of_lt hShort, Nat.mod_eq_of_lt hShort, hZeros]
        rfl
      · have hPow : 10 ^ (count + 1) = 10 ^ count * 10 := Nat.pow_succ ..
        have hRest : value / 10 < 10 ^ count := by omega
        have hLong : 0 < count := by
          rcases Nat.eq_zero_or_pos count with rfl | hLong
          · omega
          · exact hLong
        rw [chars_append_digit (by omega), List.length_append, List.length_singleton,
          Nat.add_sub_add_right, ← List.append_assoc, ih hLong hRest, lastChars]

theorem length_chars_le_iff {count value : Nat} (hCount : 0 < count) :
    (chars value).length ≤ count ↔ value < 10 ^ count := by
  refine ⟨fun hLength => ?_, length_chars_le hCount⟩
  refine Nat.lt_of_not_le fun hValue => ?_
  have hFront := List.length_pos_of_ne_nil (chars_ne_nil (value / 10 ^ count))
  rw [chars_eq_append hValue, List.length_append, length_lastChars] at hLength
  omega

/-! ## Numerals -/

/-- A text of digits that stands for a number and has no zero in front. -/
structure IsNumeral (text : List Char) (value : Nat) : Prop where
  reads : ofChars? text = some value
  first : text.head? = some '0' → text = ['0']

theorem isNumeral_chars (value : Nat) : IsNumeral (chars value) value where
  reads := ofChars?_chars value
  first hFirst := by
    by_cases hZero : value = 0
    · rw [chars, if_pos hZero]
    · rw [chars, if_neg hZero, List.head?_map, List.head?_reverse] at hFirst
      obtain ⟨last, hLast, hDigit⟩ := Option.map_eq_some_iff.1 hFirst
      have hSmall := lt_of_mem_digits (List.mem_of_getLast? hLast)
      obtain rfl : last = 0 := (digit_inj hSmall (by decide)).1 hDigit
      exact absurd hLast (getLast?_digits_ne_zero (by decide) value)

theorem ofDigits_zeros_append (count : Nat) (values : List Nat) :
    ofDigits 10 (List.replicate count 0 ++ values) = ofDigits 10 values * 10 ^ count := by
  induction count with
  | zero => simp
  | succ count ih =>
      rw [List.replicate_succ, List.cons_append, ofDigits, ih, Nat.pow_succ']
      ac_rfl

/-- Each zero behind a number makes it ten times as large. -/
theorem ofChars?_append_zeros {text : List Char} {count total : Nat} (hText : text ≠ [])
    (hTotal : ofChars? (text ++ List.replicate count '0') = some total) :
    ∃ value, ofChars? text = some value ∧ value * 10 ^ count = total := by
  rw [ofChars?, if_neg (by simp [hText]), List.mapM_append, mapM_value?_zeros] at hTotal
  cases hValues : text.mapM value? with
  | none => simp [hValues] at hTotal
  | some values =>
      refine ⟨_, by rw [ofChars?, if_neg (by simpa using hText), hValues, Option.map_some], ?_⟩
      rw [← ofDigits_zeros_append]
      simpa [hValues] using hTotal

end Number.Decimal

namespace Display

/-! ## The digits in the buffer -/

/-- The digits of an amount in a buffer of zeros, from the last zero that is needed for a digit in
front of the decimals. -/
def digitWindow? (value : Uint256) : Option (List Char) :=
  match value.writeDecimal (List.replicate Uint256.maxDigits 0x30) with
  | (some count, written) =>
      let buffer := (List.replicate 18 0x30 ++ written).take (18 + count)
      some ((buffer.drop (min (18 + count - 19) 18)).map fun byte => Char.ofNat byte.toNat)
  | (none, _) => none

/-- The digits with a point in front of the last 18 of them, of which six are kept up to zeros at
their end. -/
def cutChars (window : List Char) : List Char :=
  let split := window.length - 18
  let fraction := ((window.drop split).take 6).rdropWhile (· == '0')
  window.take split ++ (if fraction = [] then [] else '.' :: fraction) ++ " ALPH".toList

theorem map_ascii (value : Nat) :
    (Decimal.ascii value).map (fun byte => Char.ofNat byte.toNat) = Decimal.chars value :=
  map_asciiBytes (isAscii_chars value)

/-- Behind as many zeros as there are decimals, a short number keeps one of them in front, and a
long one none. -/
theorem zeros_append_drop {count : Nat} (hCount : 0 < count) (value : Nat) :
    (List.replicate count '0' ++ Decimal.chars value).drop
        (min (count + (Decimal.chars value).length - (count + 1)) count) =
      Decimal.chars (value / 10 ^ count) ++ Decimal.lastChars count value := by
  have hPos := List.length_pos_of_ne_nil (Decimal.chars_ne_nil value)
  have hLength : (Decimal.chars value).length ≤ count ↔ value < 10 ^ count :=
    Decimal.length_chars_le_iff hCount
  by_cases hSmall : value < 10 ^ count
  · have hShort := hLength.2 hSmall
    have hStart : min (count + (Decimal.chars value).length - (count + 1)) count =
        (Decimal.chars value).length - 1 := by omega
    have hZeros : count - ((Decimal.chars value).length - 1) =
        count - (Decimal.chars value).length + 1 := by omega
    rw [hStart, List.drop_append_of_le_length (by rw [List.length_replicate]; omega),
      List.drop_replicate, hZeros, List.replicate_succ, List.cons_append,
      Decimal.zeros_append_chars hCount hSmall, Nat.div_eq_of_lt hSmall]
    rfl
  · have hLong := mt hLength.1 hSmall
    have hStart : min (count + (Decimal.chars value).length - (count + 1)) count = count := by
      omega
    rw [hStart, List.drop_left' List.length_replicate,
      ← Decimal.chars_eq_append (Nat.not_lt.1 hSmall)]

/-- The buffer is large enough, and what is cut out of it ends in 18 decimals. -/
theorem digitWindow?_eq (value : Uint256) :
    digitWindow? value =
      some (Decimal.chars (value.toNat / unitsPerCoin) ++ Decimal.lastChars 18 value.toNat) := by
  have hLength : (Decimal.ascii value.toNat).length = (Decimal.chars value.toNat).length :=
    List.length_map _
  have hFits : (Decimal.ascii value.toNat).length ≤
      (List.replicate Uint256.maxDigits (0x30 : UInt8)).length := by
    rw [hLength, List.length_replicate]
    exact value.length_decimal_le
  have hZeros : (List.replicate 18 (0x30 : UInt8)).map (fun byte => Char.ofNat byte.toNat) =
      List.replicate 18 '0' := rfl
  have hFront : (List.replicate 18 (0x30 : UInt8) ++ Decimal.ascii value.toNat).length =
      18 + (Decimal.ascii value.toNat).length := by
    rw [List.length_append, List.length_replicate]
  simp only [digitWindow?, Uint256.writeDecimal, if_pos hFits]
  rw [← List.append_assoc, List.take_left' hFront, List.map_drop, List.map_append, map_ascii,
    hZeros, hLength]
  exact congrArg some (zeros_append_drop (by decide) value.toNat)

theorem sixDigits_millionths (units : Nat) :
    sixDigits (millionths units) = Decimal.lastChars 6 (units / 10 ^ 12) := by
  have hMillionths : millionths units = units / 10 ^ 12 % 10 ^ 6 := by
    simp only [millionths, unitsPerCoin, visibleUnits]
    omega
  rw [sixDigits, Decimal.zeros_append_chars (by decide) (millionths_lt units), hMillionths,
    Decimal.lastChars_mod]

theorem cutChars_append (units : Nat) :
    cutChars (Decimal.chars (units / unitsPerCoin) ++ Decimal.lastChars 18 units) =
      plainChars units := by
  have hSplit : (Decimal.chars (units / unitsPerCoin) ++ Decimal.lastChars 18 units).length - 18 =
      (Decimal.chars (units / unitsPerCoin)).length := by
    rw [List.length_append, Decimal.length_lastChars, Nat.add_sub_cancel]
  have hSix : (Decimal.lastChars 18 units).take 6 = sixDigits (millionths units) := by
    rw [sixDigits_millionths, Decimal.lastChars_add 6 12,
      List.take_left' (Decimal.length_lastChars ..)]
  have hDecimals : (sixDigits (millionths units)).rdropWhile (· == '0') = decimals units := rfl
  simp only [cutChars, hSplit, List.take_left, List.drop_left, hSix, hDecimals, plainChars,
    List.append_assoc]

/-! ## Reading an amount -/

/-- The units that a text shows. What is marked as less than the smallest visible amount shows
none. -/
def shown? (text : String) : Option Nat :=
  if text = "<0.000001 ALPH" then some 0
  else
    let whole := text.toList.takeWhile Char.isDigit
    let rest := text.toList.dropWhile Char.isDigit
    let fraction := rest.tail.takeWhile Char.isDigit
    if rest = " ALPH".toList then (Decimal.ofChars? whole).map (· * 10 ^ 18)
    else if rest = '.' :: fraction ++ " ALPH".toList then do
      let coins ← Decimal.ofChars? whole
      let part ← Decimal.ofChars? fraction
      return coins * 10 ^ 18 + part * 10 ^ (18 - fraction.length)
    else none

theorem getLast?_decimals_ne (units : Nat) : (decimals units).getLast? ≠ some '0' := by
  intro hLast
  have hDecimals : (sixDigits (millionths units)).rdropWhile (· == '0') = decimals units := rfl
  have hSome : decimals units ≠ [] := fun hNone => by simp [hNone] at hLast
  have hOther := List.rdropWhile_last_not (· == '0') (sixDigits (millionths units)) hSome
  rw [List.getLast?_eq_some_getLast hSome] at hLast
  exact hOther (beq_iff_eq.2 (Option.some.inj hLast))

theorem isDigit_of_mem_decimals {units : Nat} {c : Char} (hMem : c ∈ decimals units) :
    c.isDigit = true :=
  Decimal.isDigit_of_mem_alphabet (decimals_subset units hMem)

/-- Six decimals without the zeros at their end. -/
structure IsFraction (text : List Char) (value : Nat) : Prop where
  padded : ∃ count, (text ++ List.replicate count '0').length = 6 ∧
    Decimal.ofChars? (text ++ List.replicate count '0') = some value
  last : text.getLast? ≠ some '0'

theorem isFraction_decimals (units : Nat) : IsFraction (decimals units) (millionths units) where
  padded := by
    obtain ⟨count, hDecimals⟩ := exists_decimals_append units
    refine ⟨count, ?_, ?_⟩
    · rw [← hDecimals, length_sixDigits (millionths_lt units)]
    · rw [← hDecimals]
      exact Decimal.ofChars?_zeros_append _ _
  last := getLast?_decimals_ne units

/-- Digits are read up to where something else begins. -/
theorem span_digits {text : List Char} (mark : Char) (rest : List Char)
    (hText : ∀ c ∈ text, c.isDigit = true) (hMark : mark.isDigit = false) :
    (text ++ mark :: rest).takeWhile Char.isDigit = text ∧
      (text ++ mark :: rest).dropWhile Char.isDigit = mark :: rest := by
  rw [List.takeWhile_append_of_pos hText, List.dropWhile_append_of_pos hText,
    List.takeWhile_cons_of_neg (by simp [hMark]), List.dropWhile_cons_of_neg (by simp [hMark]),
    List.append_nil]
  exact ⟨rfl, rfl⟩

/-- The visible decimals count in units as often as the hidden ones allow. -/
theorem IsFraction.read {text : List Char} {value : Nat} (hFraction : IsFraction text value)
    (hSome : text ≠ []) :
    ∃ part, Decimal.ofChars? text = some part ∧
      part * 10 ^ (18 - text.length) = value * 10 ^ 12 := by
  obtain ⟨count, hLength, hRead⟩ := hFraction.padded
  rw [List.length_append, List.length_replicate] at hLength
  obtain ⟨part, hPart, hValue⟩ := Decimal.ofChars?_append_zeros hSome hRead
  have hHidden : 18 - text.length = count + 12 := by omega
  exact ⟨part, hPart, by rw [hHidden, Nat.pow_add, ← Nat.mul_assoc, hValue]⟩

theorem millionths_eq_zero {units : Nat} (hNone : decimals units = []) : millionths units = 0 := by
  have hZero : decimals 0 = [] := by decide +kernel
  exact decimals_eq_iff.1 (hNone.trans hZero.symm)

theorem ofList_chars_append_ne (value : Nat) (rest : List Char) :
    String.ofList (Decimal.chars value ++ rest) ≠ "<0.000001 ALPH" := by
  intro hText
  have hChars := congrArg String.toList hText
  rw [String.toList_ofList] at hChars
  have hHead : (Decimal.chars value ++ rest).head? = some '<' := by
    rw [hChars]
    rfl
  exact absurd (Decimal.isDigit_of_head? hHead) (by decide)

theorem shown?_coins (coins : Nat) :
    shown? (String.ofList (Decimal.chars coins ++ " ALPH".toList)) = some (coins * 10 ^ 18) := by
  have hUnit : " ALPH".toList = ' ' :: "ALPH".toList := rfl
  have hCoins : ∀ c ∈ Decimal.chars coins, c.isDigit = true :=
    fun _ => Decimal.isDigit_of_mem_chars
  obtain ⟨hWhole, hRest⟩ := span_digits ' ' "ALPH".toList hCoins rfl
  rw [← hUnit] at hWhole hRest
  rw [shown?, if_neg (ofList_chars_append_ne coins _), String.toList_ofList]
  simp only [hWhole, hRest, if_true, Decimal.ofChars?_chars, Option.map_some]

theorem shown?_decimals {coins part : Nat} {fraction : List Char}
    (hDigits : ∀ c ∈ fraction, c.isDigit = true) (hPart : Decimal.ofChars? fraction = some part) :
    shown? (String.ofList (Decimal.chars coins ++ '.' :: (fraction ++ " ALPH".toList))) =
      some (coins * 10 ^ 18 + part * 10 ^ (18 - fraction.length)) := by
  have hUnit : " ALPH".toList = ' ' :: "ALPH".toList := rfl
  have hOther : '.' :: (fraction ++ " ALPH".toList) ≠ " ALPH".toList :=
    fun hSame => absurd (List.cons.inj hSame).1 (by decide)
  have hCoins : ∀ c ∈ Decimal.chars coins, c.isDigit = true :=
    fun _ => Decimal.isDigit_of_mem_chars
  obtain ⟨hWhole, hRest⟩ := span_digits '.' (fraction ++ " ALPH".toList) hCoins rfl
  obtain ⟨hFraction, -⟩ := span_digits ' ' "ALPH".toList hDigits rfl
  rw [← hUnit] at hFraction
  rw [shown?, if_neg (ofList_chars_append_ne coins _), String.toList_ofList]
  simp only [hWhole, hRest, if_neg hOther, List.tail_cons, hFraction, List.cons_append, if_true,
    Decimal.ofChars?_chars, hPart]
  rfl

/-- An amount reads back without the units that are not visible. -/
theorem shown?_coinChars (units : Nat) :
    shown? (String.ofList (coinChars units)) = some (units / 10 ^ 12 * 10 ^ 12) := by
  have hUnits : units / 10 ^ 12 * 10 ^ 12 =
      units / unitsPerCoin * 10 ^ 18 + millionths units * 10 ^ 12 := by
    simp only [millionths, unitsPerCoin, visibleUnits]
    omega
  rw [coinChars_eq]
  by_cases hTiny : 0 < units ∧ units < visibleUnits
  · have hNothing : units / 10 ^ 12 = 0 := Nat.div_eq_of_lt hTiny.2
    rw [if_pos hTiny, String.ofList_toList, hNothing]
    rfl
  · rw [if_neg hTiny, hUnits, plainChars]
    by_cases hNone : decimals units = []
    · rw [if_pos hNone, List.nil_append, shown?_coins, millionths_eq_zero hNone, Nat.zero_mul,
        Nat.add_zero]
    · obtain ⟨part, hPart, hValue⟩ := (isFraction_decimals units).read hNone
      rw [if_neg hNone, List.cons_append, shown?_decimals (fun c => isDigit_of_mem_decimals) hPart,
        hValue]

/-! ## Every amount -/

/-- An amount of the coin is cut off behind its sixth decimal, and never shown as more than it is.
Nothing is shown as nothing, what is not visible as less than the smallest visible amount, and
every other amount as its whole coins without a zero in front and its visible decimals without a
zero at their end, which is also what is cut out of the buffer of digits. Reading the text gives
the amount up to its hidden units, so that a larger amount is never shown as a smaller one. -/
theorem coin_truncated {capacity : Nat} (hRoom : 84 ≤ capacity) (value : Uint256) :
    (value.toNat = 0 → coin capacity value = "0 ALPH") ∧
      (0 < value.toNat → value.toNat < 10 ^ 12 → coin capacity value = "<0.000001 ALPH") ∧
      (10 ^ 12 ≤ value.toNat →
        (∃ window, digitWindow? value = some window ∧
          coin capacity value = String.ofList (cutChars window)) ∧
        ∃ whole fraction, Decimal.IsNumeral whole (value.toNat / 10 ^ 18) ∧
          IsFraction fraction (value.toNat % 10 ^ 18 / 10 ^ 12) ∧
          coin capacity value = String.ofList
            (whole ++ (if fraction = [] then [] else '.' :: fraction) ++ " ALPH".toList)) ∧
      (∃ shown, shown? (coin capacity value) = some shown ∧
        shown ≤ value.toNat ∧ value.toNat < shown + 10 ^ 12 ∧
        ∀ other : Uint256, value.toNat ≤ other.toNat →
          ∃ more, shown? (coin capacity other) = some more ∧ shown ≤ more) ∧
      (coin capacity value).utf8ByteSize ≤ 72 := by
  have hShown (value : Uint256) :
      shown? (coin capacity value) = some (value.toNat / 10 ^ 12 * 10 ^ 12) := by
    rw [coin_eq_ofList hRoom, shown?_coinChars]
  refine ⟨fun hZero => ?_, fun hPos hSmall => ?_, fun hVisible => ?_,
    ⟨_, hShown value, by omega, by omega, fun other hMore => ⟨_, hShown other, by omega⟩⟩, ?_⟩
  · rw [coin_eq_ofList hRoom, hZero]
    rfl
  · rw [coin_eq_ofList hRoom, coinChars_eq, if_pos ⟨hPos, hSmall⟩, String.ofList_toList]
  · have hPlain : coin capacity value = String.ofList (plainChars value.toNat) := by
      have hLarge : ¬ (0 < value.toNat ∧ value.toNat < visibleUnits) :=
        fun hTiny => Nat.not_lt.2 hVisible hTiny.2
      rw [coin_eq_ofList hRoom, coinChars_eq, if_neg hLarge]
    refine ⟨⟨_, digitWindow?_eq value, by rw [hPlain, cutChars_append]⟩, _, _,
      Decimal.isNumeral_chars _, isFraction_decimals _, ?_⟩
    rw [hPlain, plainChars, List.append_assoc]
    rfl
  · rw [coin_eq_ofList hRoom, utf8ByteSize_ofList (isAscii_coinChars _)]
    exact length_coinChars_le value.isLt

/-- One unit more than the visible decimals of `0.10001` say. -/
def aboveTenth : Uint256 := ⟨100010000000000001, by decide⟩

theorem coin_truncated_aboveTenth :
    coin 84 aboveTenth = "0.10001 ALPH" ∧
      ∃ shown, shown? "0.10001 ALPH" = some shown ∧
        shown ≤ 100010000000000001 ∧ 100010000000000001 < shown + 10 ^ 12 := by
  have hText : coin 84 aboveTenth = "0.10001 ALPH" := by decide +kernel
  obtain ⟨-, -, -, ⟨shown, hShown, hLe, hLt, -⟩, -⟩ := coin_truncated (Nat.le_refl 84) aboveTenth
  exact ⟨hText, shown, hText ▸ hShown, hLe, hLt⟩

end Display

end ColdSigner
