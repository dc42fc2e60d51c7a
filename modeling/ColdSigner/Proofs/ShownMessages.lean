import ColdSigner.Proofs.OutputScreens
/-!
# What a shown message says

A message is shown as text if all of its bytes are printable, and as hexadecimal digits otherwise,
and nothing on the screen tells the two forms apart. So a message of printable bytes that are the
digits of another message looks like it. There are no other two messages that look alike
(`TxOutput.message?_eq_iff`).
-/
namespace ColdSigner

namespace Hex

/-- The hexadecimal digits of a byte string as ASCII bytes. -/
def ascii (bytes : Bytes) : Bytes :=
  (encodeChars bytes).map fun c => UInt8.ofNat c.toNat

theorem isPrintable_ascii (bytes : Bytes) : (ascii bytes).all Display.isPrintable = true := by
  have hAll : alphabet.all (Display.isPrintable ∘ fun c => UInt8.ofNat c.toNat) = true := by decide
  rw [ascii, List.all_map, List.all_eq_true]
  exact fun c hMem => List.all_eq_true.1 hAll c (encodeChars_subset bytes hMem)

end Hex

namespace Display

/-- The characters of a byte string that is shown as text. -/
def noteChars (bytes : Bytes) : List Char := bytes.map fun byte => Char.ofNat byte.toNat

theorem noteChars_inj {bytes other : Bytes} :
    noteChars bytes = noteChars other ↔ bytes = other := by
  refine ⟨fun hSame => ?_, fun h => h ▸ rfl⟩
  rw [← asciiBytes_map bytes, ← asciiBytes_map other]
  exact congrArg asciiBytes hSame

theorem noteChars_ascii (bytes : Bytes) : noteChars (Hex.ascii bytes) = Hex.encodeChars bytes :=
  map_asciiBytes (isAscii_encodeChars bytes)

/-- A text that spells the digits of a byte string that is no text. -/
structure Mimics (text bytes : Bytes) : Prop where
  unprintable : bytes.all isPrintable = false
  digits : text = Hex.ascii bytes

theorem Mimics.ne_nil {text bytes : Bytes} (hMimics : Mimics text bytes) :
    text ≠ [] ∧ bytes ≠ [] := by
  have hBytes : bytes ≠ [] := by
    rintro rfl
    cases hMimics.unprintable
  refine ⟨fun hText => ?_, hBytes⟩
  have hLength : (Hex.ascii bytes).length = 2 * bytes.length := by
    rw [Hex.ascii, List.length_map, Hex.length_encodeChars]
  rw [← hMimics.digits, hText, List.length_nil] at hLength
  have hPositive := List.length_pos_iff.2 hBytes
  omega

theorem Mimics.printable {text bytes : Bytes} (hMimics : Mimics text bytes) :
    text.all isPrintable = true :=
  hMimics.digits ▸ Hex.isPrintable_ascii bytes

theorem note_of_printable {bytes : Bytes} (hBytes : bytes.all isPrintable = true) :
    note bytes = String.ofList (noteChars bytes) :=
  if_pos hBytes

theorem note_of_unprintable {bytes : Bytes} (hBytes : bytes.all isPrintable = false) :
    note bytes = Hex.encode bytes :=
  if_neg (by simp [hBytes])

/-- A text is taken for digits exactly if it spells them. -/
theorem note_eq_iff_mimics {text bytes : Bytes} (hText : text.all isPrintable = true)
    (hBytes : bytes.all isPrintable = false) : note text = note bytes ↔ Mimics text bytes := by
  rw [note_of_printable hText, note_of_unprintable hBytes, Hex.encode, String.ofList_inj,
    ← noteChars_ascii, noteChars_inj]
  exact ⟨fun hDigits => ⟨hBytes, hDigits⟩, Mimics.digits⟩

theorem note_eq_iff {bytes other : Bytes} :
    note bytes = note other ↔ bytes = other ∨ Mimics bytes other ∨ Mimics other bytes := by
  constructor
  · intro hNote
    cases hBytes : bytes.all isPrintable <;> cases hOther : other.all isPrintable
    · rw [note_of_unprintable hBytes, note_of_unprintable hOther, Hex.encode, Hex.encode,
        String.ofList_inj, Hex.encodeChars_inj] at hNote
      exact .inl hNote
    · exact .inr (.inr ((note_eq_iff_mimics hOther hBytes).1 hNote.symm))
    · exact .inr (.inl ((note_eq_iff_mimics hBytes hOther).1 hNote))
    · rw [note_of_printable hBytes, note_of_printable hOther, String.ofList_inj,
        noteChars_inj] at hNote
      exact .inl hNote
  · rintro (rfl | hMimics | hMimics)
    · rfl
    · exact (note_eq_iff_mimics hMimics.printable hMimics.unprintable).2 hMimics
    · exact ((note_eq_iff_mimics hMimics.printable hMimics.unprintable).2 hMimics).symm

theorem note_eq_empty_iff {bytes : Bytes} : note bytes = note [] ↔ bytes = [] := by
  rw [note_eq_iff]
  constructor
  · rintro (hEmpty | hMimics | hMimics)
    · exact hEmpty
    · exact absurd rfl hMimics.ne_nil.2
    · exact absurd rfl hMimics.ne_nil.1
  · exact Or.inl

end Display

namespace TxOutput

open Display

/-- What the screens of an output have under the name of a message. -/
def message? (output : TxOutput) : Option String :=
  output.screens.findSome? fun screen => screen.field? "Message"

/-- The screens in front of the message have other names. -/
theorem message?_eq (output : TxOutput) :
    output.message? = if output.data = [] then none else some (note output.data) := by
  have hMultisig : (multisigScreens output.lockup).findSome?
      (fun screen => screen.field? "Message") = none := by
    rw [List.findSome?_eq_none_iff]
    intro screen hMem
    unfold multisigScreens at hMem
    split at hMem
    · obtain ⟨number, -, rfl⟩ := List.mem_map.1 hMem
      exact Screen.field?_one ..
    · cases hMem
  have hTokens : (output.tokens.map tokenScreen).findSome?
      (fun screen => screen.field? "Message") = none := by
    rw [List.findSome?_eq_none_iff]
    intro screen hMem
    obtain ⟨token, -, rfl⟩ := List.mem_map.1 hMem
    simp [tokenScreen, Screen.field?]
  have hTime : (lockTimeScreens output.lockTime).findSome?
      (fun screen => screen.field? "Message") = none := by
    unfold lockTimeScreens
    split
    · rfl
    · simp [Screen.field?_one]
  have hAddress (value : String) : (Screen.one "Address" value).field? "Message" = none :=
    Screen.field?_one ..
  have hCoin (value : String) : (Screen.one "ALPH" value).field? "Message" = none :=
    Screen.field?_one ..
  simp only [message?, screens_eq, List.findSome?_cons, List.findSome?_append, hMultisig, hTokens,
    hTime, hAddress, hCoin, Option.none_or]
  unfold messageScreens
  split
  · rfl
  · rfl

/-- Whatever else two outputs hold, they show the same message, or both show none, exactly if their
data are the same or the data of one are the digits of those of the other, not all of which are
printable. -/
theorem message?_eq_iff {first second : TxOutput} :
    first.message? = second.message? ↔
      first.data = second.data ∨ Mimics first.data second.data ∨
        Mimics second.data first.data := by
  rw [message?_eq, message?_eq, ← note_eq_iff]
  by_cases hFirst : first.data = [] <;> by_cases hSecond : second.data = []
  · simp [hFirst, hSecond]
  · rw [if_pos hFirst, if_neg hSecond, hFirst]
    exact iff_of_false (by simp) fun hNote => hSecond (note_eq_empty_iff.1 hNote.symm)
  · rw [if_neg hFirst, if_pos hSecond, hSecond]
    exact iff_of_false (by simp) fun hNote => hFirst (note_eq_empty_iff.1 hNote)
  · rw [if_neg hFirst, if_neg hSecond, Option.some.injEq]

/-- An output with a zero byte for its data. -/
def zeroByte : TxOutput where
  amount := .zero
  lockup := .key (.zero 32)
  lockTime := 0
  tokens := []
  data := [0x00]

/-- The same with the digits of this byte as a text. -/
def zeroDigits : TxOutput := { zeroByte with data := [0x30, 0x30] }

theorem message?_zeroDigits :
    zeroByte.message? = some "00" ∧ zeroDigits.message? = some "00" ∧
      zeroByte.data ≠ [] ∧ zeroDigits.data ≠ [] ∧ zeroByte.data ≠ zeroDigits.data := by
  rw [message?_eq, message?_eq]
  decide

end TxOutput

end ColdSigner
