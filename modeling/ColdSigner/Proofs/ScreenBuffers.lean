import ColdSigner.Proofs.DecimalWriting
import ColdSigner.Proofs.PointsInTime
import ColdSigner.Text.Utf8
/-!
# The bytes of a displayed value

A value is written as bytes over the start of a buffer, and a text is read from the bytes that were
written. More can go wrong there than that the buffer is too short. A slice can lie outside of its
bytes, after which there is no outcome at all. Bytes that are no UTF-8 are replaced by a mark. And
the digits of an amount of the coin have a buffer of their own, which they might not fit. None of
this happens: whatever stood in the buffer before, each value comes to the text that is displayed
for a buffer of this size (`Display.writtenAmount?_eq`, `Display.writtenHex?_eq`,
`Display.writtenTime?_eq`, `Display.writtenCoin?_eq`).
-/
namespace ColdSigner

open Number

namespace Bytes

/-- The bytes from one index up to another. The indices have to be in order, and inside. -/
def between? (bytes : Bytes) (start stop : Nat) : Option Bytes :=
  if start ≤ stop ∧ stop ≤ bytes.length then some ((bytes.take stop).drop start) else none

/-- The index of the last byte that is another one than this. -/
def lastOther? (byte : UInt8) (bytes : Bytes) : Option Nat :=
  (bytes.reverse.findIdx? (· != byte)).map fun behind => bytes.length - 1 - behind

theorem between?_front (front back : Bytes) :
    (front ++ back).between? 0 front.length = some front := by
  have hInside : front.length ≤ (front ++ back).length := by
    rw [List.length_append]
    exact Nat.le_add_right _ _
  rw [between?, if_pos ⟨Nat.zero_le _, hInside⟩, List.take_left, List.drop_zero]

theorem between?_back (front back : Bytes) :
    (front ++ back).between? front.length (front ++ back).length = some back := by
  have hInside : front.length ≤ (front ++ back).length := by
    rw [List.length_append]
    exact Nat.le_add_right _ _
  rw [between?, if_pos ⟨hInside, Nat.le_refl _⟩, List.take_length, List.drop_left]

theorem lastOther?_concat (byte : UInt8) (bytes : Bytes) (last : UInt8) :
    lastOther? byte (bytes ++ [last]) =
      if last = byte then lastOther? byte bytes else some bytes.length := by
  rw [lastOther?, List.reverse_append, List.reverse_singleton, List.singleton_append,
    List.findIdx?_cons, List.length_append, List.length_singleton, Nat.add_sub_cancel]
  by_cases hLast : last = byte
  · rw [if_neg (by simp [hLast]), if_pos hLast, Option.map_map]
    refine congrArg (Option.map · _) (funext fun behind => ?_)
    show bytes.length - (behind + 1) = bytes.length - 1 - behind
    omega
  · rw [if_pos (by simpa using hLast), if_neg hLast]
    rfl

/-- By induction on the bytes from their end: the last byte that is another one is the last one of
what is left without the equal bytes at the end. -/
theorem lastOther?_eq (byte : UInt8) (bytes : Bytes) :
    lastOther? byte bytes =
      if bytes.rdropWhile (· == byte) = [] then none
      else some ((bytes.rdropWhile (· == byte)).length - 1) := by
  induction bytes using List.reverseRecOn with
  | nil => rfl
  | append_singleton bytes last ih =>
      simp only [lastOther?_concat, List.rdropWhile_concat, beq_iff_eq]
      by_cases hLast : last = byte
      · rw [if_pos hLast, if_pos hLast]
        exact ih
      · rw [if_neg hLast, if_neg hLast, if_neg (by simp), List.length_append,
          List.length_singleton, Nat.add_sub_cancel]

end Bytes

namespace Text

/-- The text of some bytes, or a mark if they are no UTF-8. -/
def readOr (mark : String) (bytes : Bytes) : String := (ofUtf8? bytes).getD mark

theorem readOr_utf8 (mark text : String) : readOr mark (utf8 text) = text := by
  rw [readOr, ofUtf8?_utf8, Option.getD_some]

theorem utf8_ofList {text : List Char} (hAscii : Display.isAscii text = true) :
    utf8 (String.ofList text) = Display.asciiBytes text := by
  have hBytes : utf8 (String.ofList text) = text.flatMap String.utf8EncodeChar := by
    simp [utf8, List.utf8Encode]
  rw [hBytes, Display.asciiBytes, List.map_eq_flatMap]
  refine List.flatMap_congr fun c hMem => ?_
  have hOne : c.utf8Size = 1 := beq_iff_eq.1 (List.all_eq_true.1 hAscii c hMem)
  rw [String.utf8EncodeChar_eq_singleton hOne]
  rfl

theorem readOr_ascii (mark : String) {text : List Char} (hAscii : Display.isAscii text = true) :
    readOr mark (Display.asciiBytes text) = String.ofList text := by
  rw [← utf8_ofList hAscii, readOr_utf8]

end Text

namespace Display

/-! ## Writing and reading -/

/-- Write texts into a buffer, the first one at the given place and each other one behind the last,
up to one that goes beyond the end. The outcome is the place behind them all, if there is none that
does, and the buffer. -/
def writeTexts : Bytes → Nat → List String → Option Nat × Bytes
  | buffer, place, [] => (some place, buffer)
  | buffer, place, text :: rest =>
      let stop := place + (Text.utf8 text).length
      if buffer.length < stop then (none, buffer)
      else writeTexts (buffer.take place ++ Text.utf8 text ++ buffer.drop stop) stop rest

/-- What is displayed of a buffer after a write: the text of what was written from its start on, or
the mark for what does not fit. -/
def onScreen? : Option Nat × Bytes → Option String
  | (some count, buffer) => (buffer.between? 0 count).map (Text.readOr "INVALID_UTF8")
  | (none, _) => some misfit

theorem onScreen?_of_front (text : String) (back : Bytes) :
    onScreen? (some (Text.utf8 text).length, Text.utf8 text ++ back) = some text := by
  rw [onScreen?, Bytes.between?_front, Option.map_some, Text.readOr_utf8]

/-- By induction on the texts, for any text in front of the place. -/
theorem onScreen?_writeTexts_append (front : String) (back : Bytes) (texts : List String) :
    onScreen? (writeTexts (Text.utf8 front ++ back) (Text.utf8 front).length texts) =
      some (fit (Text.utf8 front ++ back).length (front ++ String.join texts)) := by
  induction texts generalizing front back with
  | nil =>
      have hRoom : front.utf8ByteSize ≤ (Text.utf8 front ++ back).length := by
        rw [List.length_append, Text.length_utf8]
        exact Nat.le_add_right _ _
      rw [writeTexts, onScreen?_of_front, String.join_nil, String.append_empty, fit,
        if_pos hRoom]
  | cons text rest ih =>
      rw [writeTexts, String.join_cons, ← String.append_assoc]
      by_cases hShort :
          (Text.utf8 front ++ back).length < (Text.utf8 front).length + (Text.utf8 text).length
      · have hMisfit : ¬ (front ++ text ++ String.join rest).utf8ByteSize ≤
            (Text.utf8 front ++ back).length := by
          rw [Text.length_utf8, Text.length_utf8] at hShort
          rw [String.utf8ByteSize_append, String.utf8ByteSize_append]
          omega
        rw [if_pos hShort, fit, if_neg hMisfit]
        rfl
      · have hBuffer : (Text.utf8 front ++ back).take (Text.utf8 front).length ++ Text.utf8 text ++
            (Text.utf8 front ++ back).drop
              ((Text.utf8 front).length + (Text.utf8 text).length) =
            Text.utf8 (front ++ text) ++ back.drop (Text.utf8 text).length := by
          rw [List.take_left, ← List.drop_drop, List.drop_left, Text.utf8_append]
        have hStop : (Text.utf8 front).length + (Text.utf8 text).length =
            (Text.utf8 (front ++ text)).length := by
          rw [Text.utf8_append, List.length_append]
        have hLength : (Text.utf8 (front ++ text) ++ back.drop (Text.utf8 text).length).length =
            (Text.utf8 front ++ back).length := by
          rw [List.length_append] at hShort ⊢
          rw [← hStop, List.length_drop, List.length_append]
          omega
        rw [if_neg hShort, hBuffer, hStop, ih, hLength]

/-- Texts that are written one behind the other are displayed as one text. -/
theorem onScreen?_writeTexts (buffer : Bytes) (texts : List String) :
    onScreen? (writeTexts buffer 0 texts) = some (fit buffer.length (String.join texts)) := by
  have hWritten := onScreen?_writeTexts_append "" buffer texts
  rw [String.empty_append] at hWritten
  exact hWritten

theorem onScreen?_writeTexts_of_toList {texts : List String} {text : List Char}
    (hText : (String.join texts).toList = text) (buffer : Bytes) :
    onScreen? (writeTexts buffer 0 texts) = some (fit buffer.length (String.ofList text)) := by
  rw [onScreen?_writeTexts, ← hText, String.ofList_toList]

theorem onScreen?_of_ascii {text : List Char} (hAscii : isAscii text = true) (back : Bytes) :
    onScreen? (some text.length, asciiBytes text ++ back) = some (String.ofList text) := by
  have hFront := onScreen?_of_front (String.ofList text) back
  rw [Text.utf8_ofList hAscii, length_asciiBytes] at hFront
  exact hFront

/-! ## Amounts -/

theorem writeDecimal_of_le {value : Uint256} {buffer : Bytes}
    (hRoom : (Decimal.chars value.toNat).length ≤ buffer.length) :
    value.writeDecimal buffer =
      (some (Decimal.chars value.toNat).length, asciiBytes (Decimal.chars value.toNat) ++
        buffer.drop (Decimal.chars value.toNat).length) := by
  have hLength := Decimal.length_ascii value.toNat
  rw [← hLength] at hRoom ⊢
  exact if_pos hRoom

theorem writeDecimal_of_lt {value : Uint256} {buffer : Bytes}
    (hShort : buffer.length < (Decimal.chars value.toNat).length) :
    value.writeDecimal buffer = (none, buffer) := by
  rw [← Decimal.length_ascii] at hShort
  exact if_neg (Nat.not_le.2 hShort)

def writtenAmount? (value : Uint256) (buffer : Bytes) : Option String :=
  (value.writeDigits? buffer).bind onScreen?

theorem writtenAmount?_eq (value : Uint256) (buffer : Bytes) :
    writtenAmount? value buffer = some (amount buffer.length value) := by
  have hAscii := isAscii_chars value.toNat
  rw [writtenAmount?, Uint256.writeDigits?_eq, Option.bind_some, amount, fit, Uint256.text,
    Decimal.text, utf8ByteSize_ofList hAscii]
  by_cases hRoom : (Decimal.chars value.toNat).length ≤ buffer.length
  · rw [writeDecimal_of_le hRoom, if_pos hRoom]
    exact onScreen?_of_ascii hAscii _
  · rw [writeDecimal_of_lt (Nat.not_le.1 hRoom), if_neg hRoom]
    rfl

/-! ## Byte strings -/

/-- Two digits for each byte, if there is exactly the room for them. -/
def digitsFor? (bytes room : Bytes) : Option Bytes :=
  if room.length = 2 * bytes.length then some (asciiBytes (Hex.encodeChars bytes)) else none

def writtenHex? (bytes buffer : Bytes) : Option String :=
  let count := 2 * bytes.length
  if buffer.length < count then some misfit
  else do
    let room ← buffer.between? 0 count
    match digitsFor? bytes room with
    | some digits => onScreen? (some count, digits ++ buffer.drop count)
    | none => some misfit

theorem writtenHex?_eq (bytes buffer : Bytes) :
    writtenHex? bytes buffer = some (hex buffer.length bytes) := by
  have hAscii := isAscii_encodeChars bytes
  have hLength : (Hex.encodeChars bytes).length = 2 * bytes.length := Hex.length_encodeChars bytes
  rw [writtenHex?, hex, fit, Hex.encode, utf8ByteSize_ofList hAscii, hLength]
  by_cases hShort : buffer.length < 2 * bytes.length
  · rw [if_pos hShort, if_neg (Nat.not_le.2 hShort)]
  · have hRoom := Nat.not_lt.1 hShort
    have hFront : (buffer.take (2 * bytes.length)).length = 2 * bytes.length :=
      List.length_take_of_le hRoom
    have hSlice := Bytes.between?_front (buffer.take (2 * bytes.length))
      (buffer.drop (2 * bytes.length))
    rw [List.take_append_drop, hFront] at hSlice
    rw [if_neg hShort, if_pos hRoom]
    simp only [hSlice, digitsFor?, if_pos hFront, Option.bind_eq_bind, Option.bind_some]
    rw [← hLength]
    exact onScreen?_of_ascii hAscii _

/-! ## Points in time -/

/-- Two digits of a value, computed with integers of eight bits. -/
def twoBytes (value : Nat) : Bytes :=
  [0x30 + UInt8.ofNat (value / 10 % 10), 0x30 + UInt8.ofNat (value % 10)]

/-- The texts that a date and the seconds since midnight are put together from. -/
def timeTexts (date : Date) (rest : Nat) : List String :=
  let pair (value : Nat) := Text.readOr "??" (twoBytes value)
  [Decimal.text date.year, "-", pair date.month, "-", pair date.day, " ", pair (rest / 3600), ":",
    pair (rest % 3600 / 60), ":", pair (rest % 60), " UTC"]

/-- A point in time, given in milliseconds. Its date is computed with integers of limited size. -/
def writtenTime? (milliseconds : UInt64) (buffer : Bytes) : Option String := do
  let seconds := milliseconds.toNat / 1000
  let date ← Date.checkedOfDays? (seconds / 86400)
  onScreen? (writeTexts buffer 0 (timeTexts date (seconds % 86400)))

theorem readOr_twoBytes (mark : String) (value : Nat) :
    Text.readOr mark (twoBytes value) = String.ofList (twoDigits value) := by
  have hBytes : twoBytes value = asciiBytes (twoDigits value) := by
    rw [twoBytes, Decimal.byte_of_digit (Nat.mod_lt _ (by decide)),
      Decimal.byte_of_digit (Nat.mod_lt _ (by decide))]
    rfl
  rw [hBytes, Text.readOr_ascii]
  exact isAscii_of_subset (twoDigits_subset value) (by decide)

theorem toList_join_timeTexts (seconds : Nat) :
    (String.join (timeTexts (Date.ofDays (seconds / 86400)) (seconds % 86400))).toList =
      timeChars seconds := by
  simp [timeTexts, timeChars, readOr_twoBytes, Decimal.text]

theorem writtenTime?_eq (milliseconds : UInt64) (buffer : Bytes) :
    writtenTime? milliseconds buffer = some (time buffer.length milliseconds) := by
  have hMilliseconds := milliseconds.toNat_lt
  have hDate := Date.checkedOfDays?_eq
    (show milliseconds.toNat / 1000 / 86400 < 2 ^ 38 by omega)
  rw [writtenTime?, hDate, Option.bind_eq_bind, Option.bind_some]
  exact onScreen?_writeTexts_of_toList (toList_join_timeTexts _) buffer

/-! ## Amounts of the coin -/

/-- Digits of which the last 18 are decimals, with a point in front of these. Of the decimals six
are kept, up to the last one of them that is not zero. -/
def writtenCut? (digits buffer : Bytes) : Option String := do
  let split ← unsigned? 64 ((digits.length : Int) - 18)
  let whole ← Bytes.between? digits 0 split
  let decimals ← Bytes.between? digits split digits.length
  let fraction ← Bytes.between? decimals 0 6
  match Bytes.lastOther? 0x30 fraction with
  | some place =>
      let visible ← Bytes.between? fraction 0 (place + 1)
      onScreen? (writeTexts buffer 0
        [Text.readOr "?" whole, ".", Text.readOr "?" visible, " ALPH"])
  | none => onScreen? (writeTexts buffer 0 [Text.readOr "?" whole, " ALPH"])

/-- The digits of the amount are written behind as many zeros as there are decimals. Of these zeros
those are used that are needed for a digit in front of the decimals. -/
def writtenCoin? (value : Uint256) (buffer : Bytes) : Option String :=
  if value.toNat = 0 then onScreen? (writeTexts buffer 0 ["0 ALPH"])
  else if value.toNat < visibleUnits then onScreen? (writeTexts buffer 0 ["<0.000001 ALPH"])
  else do
    let (count?, written) ← value.writeDigits? (List.replicate Uint256.maxDigits 0x30)
    match count? with
    | some count =>
        let stop := 18 + count
        let digits ← Bytes.between? (List.replicate 18 0x30 ++ written) (min (stop - 19) 18) stop
        writtenCut? digits buffer
    | none => some misfit

/-- By induction on the digits from their end: zeros go as bytes where they go as characters. -/
theorem rdropWhile_asciiBytes {text : List Char} (hText : text ⊆ Decimal.alphabet) :
    (asciiBytes text).rdropWhile (· == 0x30) = asciiBytes (text.rdropWhile (· == '0')) := by
  have hZero : Decimal.alphabet.all
      (fun c => (UInt8.ofNat c.toNat == 0x30) == (c == '0')) = true := by decide
  induction text using List.reverseRecOn with
  | nil => rfl
  | append_singleton text last ih =>
      obtain ⟨hFront, hLast⟩ := List.append_subset.1 hText
      have hBytes : asciiBytes (text ++ [last]) = asciiBytes text ++ [UInt8.ofNat last.toNat] :=
        asciiBytes_append text [last]
      have hSame : (UInt8.ofNat last.toNat == 0x30) = (last == '0') :=
        beq_iff_eq.1 (List.all_eq_true.1 hZero last (hLast List.mem_cons_self))
      rw [hBytes, List.rdropWhile_concat, List.rdropWhile_concat, hSame]
      split
      · exact ih hFront
      · exact hBytes.symm

/-- No slice is outside, and the bytes are cut where the characters are. -/
theorem writtenCut?_eq {window : List Char} (hDigits : window ⊆ Decimal.alphabet)
    (hLong : 18 ≤ window.length) (hFew : window.length < 2 ^ 64) (buffer : Bytes) :
    writtenCut? (asciiBytes window) buffer =
      some (fit buffer.length (String.ofList (cutChars window))) := by
  obtain ⟨whole, decimals, rfl, hDecimals⟩ : ∃ whole decimals,
      window = whole ++ decimals ∧ decimals.length = 18 :=
    ⟨_, _, (List.take_append_drop (window.length - 18) window).symm, by
      rw [List.length_drop]
      omega⟩
  obtain ⟨fraction, hidden, rfl, hFraction⟩ : ∃ fraction hidden,
      decimals = fraction ++ hidden ∧ fraction.length = 6 :=
    ⟨_, _, (List.take_append_drop 6 decimals).symm, List.length_take_of_le (by omega)⟩
  obtain ⟨hWholeDigits, hMore⟩ := List.append_subset.1 hDigits
  have hVisible := rdropWhile_asciiBytes (List.append_subset.1 hMore).1
  have hPoint : (whole ++ (fraction ++ hidden)).length - 18 = whole.length := by
    rw [List.length_append, hDecimals, Nat.add_sub_cancel]
  have hSplit : unsigned? 64
      (((asciiBytes whole ++ (asciiBytes fraction ++ asciiBytes hidden)).length : Int) - 18) =
        some (asciiBytes whole).length := by
    rw [← asciiBytes_append, ← asciiBytes_append, length_asciiBytes, length_asciiBytes, ← hPoint]
    exact unsigned?_sub hLong hFew
  have hSix : Bytes.between? (asciiBytes fraction ++ asciiBytes hidden) 0 6 =
      some (asciiBytes fraction) := by
    rw [← hFraction, ← length_asciiBytes, Bytes.between?_front]
  have hWhole : Text.readOr "?" (asciiBytes whole) = String.ofList whole :=
    Text.readOr_ascii _ (isAscii_of_subset hWholeDigits (by decide))
  obtain ⟨zeros, hZeros⟩ := List.rdropWhile_prefix (· == '0') fraction
  simp only [writtenCut?, asciiBytes_append, hSplit, Bytes.between?_front, Bytes.between?_back,
    hSix, hWhole, Bytes.lastOther?_eq, hVisible, Option.bind_eq_bind, Option.bind_some, cutChars,
    hPoint, List.take_left, List.drop_left, List.take_left' hFraction]
  generalize fraction.rdropWhile (· == '0') = visible at hVisible hZeros ⊢
  subst hZeros
  by_cases hNone : visible = []
  · subst hNone
    exact onScreen?_writeTexts_of_toList (by simp) buffer
  · have hSome : asciiBytes visible ≠ [] := mt List.map_eq_nil_iff.1 hNone
    have hStop : (asciiBytes visible).length - 1 + 1 = (asciiBytes visible).length :=
      Nat.sub_add_cancel (List.length_pos_of_ne_nil hSome)
    have hFront := (List.append_subset.1 (List.append_subset.1 hMore).1).1
    rw [if_neg hSome, if_neg hNone]
    simp only [hStop, asciiBytes_append, Bytes.between?_front, Option.bind_some,
      Text.readOr_ascii _ (isAscii_of_subset hFront (by decide))]
    exact onScreen?_writeTexts_of_toList (by simp) buffer

/-- The zeros and digits that are used stand inside of the buffer. -/
theorem between?_of_digitWindow? {value : Uint256} {window : List Char}
    (hWindow : digitWindow? value = some window) :
    ∃ written, value.writeDecimal (List.replicate Uint256.maxDigits 0x30) =
        (some (Decimal.chars value.toNat).length, written) ∧
      Bytes.between? (List.replicate 18 0x30 ++ written)
          (min (18 + (Decimal.chars value.toNat).length - 19) 18)
          (18 + (Decimal.chars value.toNat).length) = some (asciiBytes window) := by
  have hRoom : (Decimal.chars value.toNat).length ≤
      (List.replicate Uint256.maxDigits (0x30 : UInt8)).length := by
    rw [List.length_replicate]
    exact value.length_decimal_le
  have hWritten := writeDecimal_of_le hRoom
  refine ⟨_, hWritten, ?_⟩
  simp only [digitWindow?, hWritten] at hWindow
  rw [← Option.some.inj hWindow, asciiBytes_map]
  refine if_pos ⟨by omega, ?_⟩
  rw [List.length_append, List.length_append, List.length_replicate, length_asciiBytes]
  omega

/-- The digits fit their buffer, none of the slices is outside, and all of the bytes are ASCII: what
is left is the amount with its visible decimals. -/
theorem writtenCoin?_eq (value : Uint256) (buffer : Bytes) :
    writtenCoin? value buffer = some (coin buffer.length value) := by
  rw [writtenCoin?, coin, coinChars]
  split
  · exact onScreen?_writeTexts_of_toList (by simp) buffer
  split
  · exact onScreen?_writeTexts_of_toList (by simp) buffer
  · obtain ⟨written, hWritten, hSlice⟩ := between?_of_digitWindow? (digitWindow?_eq value)
    have hCoins : (Decimal.chars (value.toNat / unitsPerCoin)).length ≤ 78 :=
      Decimal.length_chars_le (by decide)
        (Nat.lt_of_le_of_lt (Nat.div_le_self _ _) (Nat.lt_trans value.isLt (by decide)))
    have hLength : (Decimal.chars (value.toNat / unitsPerCoin) ++
        Decimal.lastChars 18 value.toNat).length =
          (Decimal.chars (value.toNat / unitsPerCoin)).length + 18 := by
      rw [List.length_append, Decimal.length_lastChars]
    have hDigits := List.append_subset.2
      ⟨Decimal.chars_subset (value.toNat / unitsPerCoin), Decimal.lastChars_subset 18 value.toNat⟩
    have hCut := writtenCut?_eq hDigits (by omega) (by omega) buffer
    rw [cutChars_append, plainChars] at hCut
    simp only [Uint256.writeDigits?_eq, hWritten, hSlice, hCut, Option.bind_eq_bind,
      Option.bind_some, List.append_assoc]

end Display

end ColdSigner
