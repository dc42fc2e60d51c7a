import ColdSigner.Proofs.InputScreens
/-!
# Every screen can be read

A value that does not fit its place on the screen would be replaced by a mark, and a place that
points at nothing would be empty. For a request that was decoded neither happens
(`Review.screens_legible`): each value is written with the characters of a small alphabet, none of
which can spell a mark, and each place of the walk points at inputs, outputs and tokens that exist.
That the bytes in a buffer come to these values, with every slice inside of its bytes and no mark
for bytes that are no UTF-8, is shown where they are written (`Display.writtenCoin?_eq`,
`Display.writtenAmount?_eq`, `Display.writtenHex?_eq`, `Display.writtenTime?_eq`).
-/
namespace ColdSigner

open Number Display

namespace Number.Decimal

theorem text_toList (value : Nat) : (text value).toList = chars value := String.toList_ofList

end Number.Decimal

namespace Base58

theorem encodeChars_subset (bytes : Bytes) : encodeChars bytes ⊆ alphabet := by
  have hDigit : ∀ value < 58, digit value ∈ alphabet := by decide +kernel
  refine List.append_subset.2 ⟨fun c hOne => ?_, fun c hMem => ?_⟩
  · rw [List.eq_of_mem_replicate hOne]
    decide
  · obtain ⟨value, hValue, rfl⟩ := List.mem_map.1 hMem
    exact hDigit value (lt_of_mem_digits (List.mem_reverse.1 hValue))

/-- Only nothing has an empty text. -/
theorem encodeChars_ne_nil {bytes : Bytes} (hSome : bytes ≠ []) : encodeChars bytes ≠ [] := by
  intro hNone
  have hEmpty : decodeChars? [] = some [] := by decide +kernel
  have hRead := decodeChars?_encodeChars bytes
  rw [hNone, hEmpty] at hRead
  exact hSome (Option.some.inj hRead).symm

end Base58

namespace DerivationPath

/-- The characters of a path. -/
def alphabet : List Char := Decimal.alphabet ++ "m/'".toList

theorem chars_subset (path : DerivationPath) : path.chars ⊆ alphabet := by
  have hNumber (value : Nat) : Decimal.chars value ⊆ alphabet :=
    List.Subset.trans (Decimal.chars_subset value) (List.subset_append_left _ _)
  refine List.cons_subset.2 ⟨by decide, fun c hMem => ?_⟩
  obtain ⟨index, -, hIndex⟩ := List.mem_flatMap.1 hMem
  have hPart : componentChars index ⊆ alphabet := by
    unfold componentChars
    split
    · exact List.append_subset.2 ⟨List.cons_subset.2 ⟨by decide, hNumber _⟩, by decide⟩
    · exact List.cons_subset.2 ⟨by decide, hNumber _⟩
  exact hPart hIndex

end DerivationPath

namespace Display

/-- What would stand on the screen for a value that cannot be shown. -/
def marks : List String := [misfit, "INVALID_UTF8", "?"]

/-- A text that says something, without a mark in it. -/
structure IsLegible (text : String) : Prop where
  ne_empty : text ≠ ""
  no_mark : ∀ mark ∈ marks, ¬ mark.toList <:+: text.toList

/-- These characters do not suffice for any of the marks. -/
def spellsNoMark (alphabet : List Char) : Bool :=
  marks.all fun mark => mark.toList.any fun c => !alphabet.contains c

/-- A text is legible if it is written with characters that spell no mark. -/
theorem isLegible_of_subset {text : String} {alphabet : List Char} (hSome : text.toList ≠ [])
    (hText : text.toList ⊆ alphabet)
    (hAlphabet : spellsNoMark alphabet = true) : IsLegible text where
  ne_empty hEmpty := hSome (hEmpty ▸ rfl)
  no_mark mark hMark hInfix := by
    obtain ⟨c, hMem, hOther⟩ := List.any_eq_true.1 (List.all_eq_true.1 hAlphabet mark hMark)
    have hIn : alphabet.contains c = true := List.contains_iff_mem.2 (hText (hInfix.subset hMem))
    rw [hIn] at hOther
    cases hOther

theorem isLegible_ofList {chars alphabet : List Char} (hSome : chars ≠ [])
    (hChars : chars ⊆ alphabet) (hAlphabet : spellsNoMark alphabet = true) :
    IsLegible (String.ofList chars) := by
  have hText : (String.ofList chars).toList = chars := String.toList_ofList
  exact isLegible_of_subset (hText.symm ▸ hSome) (hText.symm ▸ hChars) hAlphabet

theorem isLegible_encode {size : Nat} (hSize : 0 < size) (bytes : FixedBytes size) :
    IsLegible (Hex.encode bytes.toList) := by
  refine isLegible_ofList ?_ (Hex.encodeChars_subset _) (by decide)
  apply List.ne_nil_of_length_pos
  rw [Hex.length_encodeChars, bytes.length_toList]
  omega

theorem isLegible_hex {size capacity : Nat} (hSize : 0 < size) (bytes : FixedBytes size)
    (hRoom : 2 * size ≤ capacity) : IsLegible (hex capacity bytes.toList) := by
  rw [hex_toList bytes hRoom]
  exact isLegible_encode hSize bytes

theorem isLegible_decimal (value : Nat) : IsLegible (Decimal.text value) :=
  isLegible_ofList (Decimal.chars_ne_nil value) (Decimal.chars_subset value) (by decide)

theorem isLegible_amount {capacity : Nat} (hRoom : Uint256.maxDigits ≤ capacity)
    (value : Uint256) : IsLegible (amount capacity value) := by
  rw [amount_eq_text hRoom]
  exact isLegible_decimal value.toNat

theorem coinChars_ne_nil (units : Nat) : coinChars units ≠ [] := by
  rw [coinChars_eq]
  split
  · decide
  · exact List.append_ne_nil_of_left_ne_nil (Decimal.chars_ne_nil _) _

theorem isLegible_coin {capacity : Nat} (hRoom : coinCapacity ≤ capacity) (value : Uint256) :
    IsLegible (coin capacity value) := by
  rw [coin_eq_ofList hRoom]
  exact isLegible_ofList (coinChars_ne_nil _) (coinChars_subset _) (by decide)

theorem isLegible_time {capacity : Nat} (hRoom : coinCapacity ≤ capacity)
    (milliseconds : UInt64) : IsLegible (time capacity milliseconds) := by
  rw [time_eq_ofList hRoom]
  refine isLegible_ofList ?_ (timeChars_subset _) (by decide)
  rw [timeChars_eq]
  exact List.append_ne_nil_of_left_ne_nil (Decimal.chars_ne_nil _) _

end Display

theorem Lockup.toBytes_ne_nil (lockup : Lockup) : lockup.toBytes ≠ [] := by
  cases lockup <;> exact List.cons_ne_nil _ _

theorem Lockup.isLegible_address (lockup : Lockup) : IsLegible lockup.address :=
  isLegible_ofList (Base58.encodeChars_ne_nil lockup.toBytes_ne_nil) (Base58.encodeChars_subset _)
    (by decide)

theorem DerivationPath.isLegible_text (path : DerivationPath) : IsLegible path.text :=
  isLegible_ofList (List.cons_ne_nil _ _) path.chars_subset (by decide)

theorem Network.isLegible_text (network : Network) : IsLegible network.text := by
  cases network <;> exact isLegible_of_subset (by decide) (List.Subset.refl _) (by decide)

namespace Screen

/-- A screen with some values, which can be read. A message is what the sender makes of it. -/
structure IsLegible (screen : Screen) : Prop where
  fields_ne_nil : screen.fields ≠ []
  fields : ∀ field ∈ screen.fields, field.1 ≠ "Message" → Display.IsLegible field.2

theorem isLegible_one {name value : String} (hValue : name ≠ "Message" → Display.IsLegible value) :
    (one name value).IsLegible where
  fields_ne_nil := List.cons_ne_nil _ _
  fields field hMem := by
    obtain rfl := List.mem_singleton.1 hMem
    exact hValue

theorem isLegible_two {name value other otherValue : String} (hValue : Display.IsLegible value)
    (hOther : Display.IsLegible otherValue) :
    (Screen.mk [(name, value), (other, otherValue)]).IsLegible where
  fields_ne_nil := List.cons_ne_nil _ _
  fields field hMem _ := by
    simp only [List.mem_cons, List.not_mem_nil, or_false] at hMem
    obtain rfl | rfl := hMem
    · exact hValue
    · exact hOther

end Screen

/-- A step with a title and some screens, which can be read. -/
structure ReviewStep.IsLegible (step : ReviewStep) : Prop where
  title_ne_empty : step.title ≠ ""
  screens_ne_nil : step.screens ≠ []
  screens : ∀ screen ∈ step.screens, screen.IsLegible

namespace TxOutput

theorem isLegible_multisigScreens (lockup : Lockup) :
    ∀ screen ∈ multisigScreens lockup, screen.IsLegible := by
  cases lockup with
  | key hash => simp [multisigScreens]
  | script hash => simp [multisigScreens]
  | multisig hashes required =>
      intro screen hMem
      obtain ⟨number, -, rfl⟩ := List.mem_map.1 hMem
      refine Screen.isLegible_one fun _ => ?_
      have hDigits (value : Nat) :
          Decimal.chars value ⊆ Decimal.alphabet ++ "signature of keys()".toList :=
        List.Subset.trans (Decimal.chars_subset value) (List.subset_append_left _ _)
      have hAlphabet : spellsNoMark (Decimal.alphabet ++ "signature of keys()".toList) = true := by
        decide
      refine isLegible_of_subset ?_ ?_ hAlphabet
      · simp [String.toList_append]
      · simp only [String.toList_append, Decimal.text_toList, List.append_subset, hDigits, and_true]
        decide

theorem isLegible_tokenScreen (token : Token) : (tokenScreen token).IsLegible :=
  Screen.isLegible_two (isLegible_hex (by decide) token.id (by decide))
    (isLegible_amount (by decide) token.amount)

theorem isLegible_screens (output : TxOutput) : ∀ screen ∈ output.screens, screen.IsLegible := by
  intro screen hMem
  simp only [screens, List.mem_append, List.mem_singleton, List.mem_map] at hMem
  rcases hMem with ((((rfl | hMultisig) | ⟨token, -, rfl⟩) | rfl) | hTime) | hMessage
  · exact Screen.isLegible_one fun _ => output.lockup.isLegible_address
  · exact isLegible_multisigScreens _ _ hMultisig
  · exact isLegible_tokenScreen token
  · exact Screen.isLegible_one fun _ => isLegible_coin (Nat.le_refl _) _
  · split at hTime
    · cases hTime
    · obtain rfl := List.mem_singleton.1 hTime
      exact Screen.isLegible_one fun _ => isLegible_time (Nat.le_refl _) _
  · split at hMessage
    · cases hMessage
    · obtain rfl := List.mem_singleton.1 hMessage
      exact Screen.isLegible_one fun hName => absurd rfl hName

end TxOutput

namespace UnsignedTx

/-- What a place points at is there: inputs in range, the first of them with a key, an output, or
a token. -/
def HasPlace (tx : UnsignedTx) (change : Option Nat) : Place → Prop
  | .path | .final => True
  | .inputs first stop =>
      first < stop ∧ stop ≤ tx.inputs.length ∧ ∃ key, tx.inputKey? first = some key
  | .output index | .change index => index < tx.outputs.length
  | .token number => number < (tx.tokenIds change).length
  | .hash | .address => False

end UnsignedTx

namespace Review

variable {review : Review} {tx : UnsignedTx}

/-- The places of a review point at something. -/
theorem hasPlace_of_mem (hSubject : review.subject = .transaction tx) (hValid : tx.Valid)
    {place : Place} (hMem : place ∈ review.places) : tx.HasPlace (review.change? tx) place := by
  obtain ⟨runs, hRuns, hPlaces⟩ := exists_runs_places hSubject
  simp only [hPlaces, List.mem_append, List.mem_cons, List.mem_map, List.not_mem_nil,
    or_false] at hMem
  rcases hMem with ((((rfl | ⟨run, hRun, rfl⟩) | ⟨index, hIndex, rfl⟩) | ⟨number, hNumber, rfl⟩) |
    ⟨index, hIndex, rfl⟩) | rfl
  · trivial
  · obtain ⟨before, behind, rfl⟩ := List.mem_iff_append.1 hRun
    obtain ⟨hSome, hStop, -⟩ := hRuns.of_append_cons Unit
    exact ⟨hSome, hStop, hValid.exists_inputKey? (Nat.lt_of_lt_of_le hSome hStop)⟩
  · exact List.mem_range.1 (List.mem_filter.1 hIndex).1
  · exact List.mem_range.1 hNumber
  · have hChange := UnsignedTx.changeIndex?_eq_some_iff.1 (Option.mem_toList.1 hIndex)
    have hLast := hChange.last
    show index < tx.outputs.length
    omega
  · trivial

theorem isLegible_inputScreens (tx : UnsignedTx) (first stop : Nat) :
    ∀ screen ∈ review.inputScreens tx first stop, screen.IsLegible := by
  intro screen hMem
  simp only [inputScreens, List.mem_append, List.mem_cons, List.mem_map, List.not_mem_nil,
    or_false] at hMem
  rcases hMem with (((rfl | rfl) | hScript) | hWarning) | ⟨input, -, rfl⟩
  · exact Screen.isLegible_one fun _ => Lockup.isLegible_address _
  · exact Screen.isLegible_one fun _ => isLegible_hex (by decide) _ (by decide)
  · split at hScript
    · obtain rfl := List.mem_singleton.1 hScript
      exact Screen.isLegible_one fun _ =>
        isLegible_of_subset (by decide) (List.Subset.refl _) (by decide)
    · cases hScript
  · split at hWarning
    · obtain rfl := List.mem_singleton.1 hWarning
      exact Screen.isLegible_one fun _ =>
        isLegible_of_subset (by decide) (List.Subset.refl _) (by decide)
    · cases hWarning
  · exact Screen.isLegible_one fun _ => isLegible_hex (by decide) _ (by decide)

theorem isLegible_outputScreens {index : Nat} (hIndex : index < tx.outputs.length) :
    outputScreens tx index ≠ [] ∧ ∀ screen ∈ outputScreens tx index, screen.IsLegible := by
  rw [outputScreens, List.getElem?_eq_getElem hIndex]
  exact ⟨by simp [TxOutput.screens], TxOutput.isLegible_screens _⟩

theorem isLegible_overflow : IsLegible "Overflow" :=
  isLegible_of_subset (by decide) (List.Subset.refl _) (by decide)

theorem isLegible_tokenScreens {number : Nat}
    (hNumber : number < (tx.tokenIds (review.change? tx)).length) :
    review.tokenScreens tx number ≠ [] ∧
      ∀ screen ∈ review.tokenScreens tx number, screen.IsLegible := by
  simp only [tokenScreens, List.getElem?_eq_getElem hNumber]
  refine ⟨List.cons_ne_nil _ _, fun screen hMem => ?_⟩
  obtain rfl := List.mem_singleton.1 hMem
  refine Screen.isLegible_two (isLegible_hex (by decide) _ (by decide)) ?_
  split
  · exact isLegible_amount (Nat.le_refl _) _
  · exact isLegible_overflow

theorem isLegible_finalScreens (tx : UnsignedTx) :
    ∀ screen ∈ review.finalScreens tx, screen.IsLegible := by
  intro screen hMem
  simp only [finalScreens, List.mem_cons, List.not_mem_nil, or_false] at hMem
  rcases hMem with rfl | rfl | rfl
  · exact Screen.isLegible_one fun _ => Network.isLegible_text _
  · refine Screen.isLegible_one fun _ => ?_
    split
    · exact isLegible_coin (Nat.le_refl _) _
    · exact isLegible_overflow
  · exact Screen.isLegible_one fun _ => isLegible_hex (by decide) _ (by decide)

theorem inputTitle_ne_empty (first stop : Nat) : inputTitle first stop ≠ "" := by
  unfold inputTitle
  split <;> simp

/-- A step is legible if its place points at something. -/
theorem isLegible_render (hSubject : review.subject = .transaction tx) {place : Place}
    (hPlace : tx.HasPlace (review.change? tx) place) : (review.render place).IsLegible := by
  simp only [render, content, hSubject]
  cases place with
  | path =>
      refine ⟨by simp, List.cons_ne_nil _ _, fun screen hMem => ?_⟩
      simp only [List.mem_cons, List.not_mem_nil, or_false] at hMem
      rcases hMem with rfl | rfl
      · exact Screen.isLegible_one fun _ => DerivationPath.isLegible_text _
      · exact Screen.isLegible_one fun _ => Lockup.isLegible_address _
  | inputs first stop =>
      exact ⟨inputTitle_ne_empty first stop, by simp [inputScreens],
        isLegible_inputScreens tx first stop⟩
  | output index =>
      obtain ⟨hSome, hScreens⟩ := isLegible_outputScreens hPlace
      exact ⟨by simp, hSome, hScreens⟩
  | token number =>
      obtain ⟨hSome, hScreens⟩ := isLegible_tokenScreens hPlace
      exact ⟨by simp, hSome, hScreens⟩
  | change index =>
      obtain ⟨hSome, hScreens⟩ := isLegible_outputScreens hPlace
      exact ⟨by simp, hSome, hScreens⟩
  | final => exact ⟨by simp, by simp [finalScreens], isLegible_finalScreens tx⟩
  | hash => exact hPlace.elim
  | address => exact hPlace.elim

/-- The review of a hash or an address has one place with one screen. -/
theorem isLegible_single (hSubject : ∀ tx, review.subject ≠ .transaction tx) {place : Place}
    (hMem : place ∈ review.places) : (review.render place).IsLegible := by
  have hOnly : review.places = [review.first] := by
    apply placesFrom_of_last
    cases hKind : review.subject with
    | transaction tx => exact absurd hKind (hSubject tx)
    | hash => simp [next?, hKind]
    | address => simp [next?, hKind]
  rw [hOnly, List.mem_singleton] at hMem
  subst hMem
  cases hKind : review.subject with
  | transaction tx => exact absurd hKind (hSubject tx)
  | hash =>
      simp only [first, hKind, render, content]
      refine ⟨by simp, List.cons_ne_nil _ _, fun screen hMem => ?_⟩
      obtain rfl := List.mem_singleton.1 hMem
      exact Screen.isLegible_one fun _ => isLegible_hex (by decide) _ (by decide)
  | address =>
      simp only [first, hKind, render, content]
      refine ⟨by simp, List.cons_ne_nil _ _, fun screen hMem => ?_⟩
      obtain rfl := List.mem_singleton.1 hMem
      exact Screen.isLegible_one fun _ => Lockup.isLegible_address _

/-- Whatever is reviewed, if a transaction then one that was decoded, each step has a title and
screens, and each value but a message says something and holds no mark for what cannot be shown.
The steps of a transaction point at inputs with a key, outputs and tokens that are there, and
every buffer has room for each value that it is for. What the bytes in the buffers come to is said
by `Display.writtenCoin?_eq` and the theorems for the other kinds of values. -/
theorem screens_legible (review : Review)
    (hDecoded : ∀ tx, review.subject = .transaction tx →
      ∃ bytes id, UnsignedTx.decode bytes = .ok (tx, id)) :
    (∀ place ∈ review.places, (review.render place).IsLegible ∧
      ∀ tx, review.subject = .transaction tx → tx.HasPlace (review.change? tx) place) ∧
    (∀ id : FixedBytes 32, hex 64 id.toList = Hex.encode id.toList ∧
      hex 66 id.toList = Hex.encode id.toList) ∧
    (∀ key : FixedBytes 33, hex 66 key.toList = Hex.encode key.toList) ∧
    (∀ value : Uint256, amount 78 value = value.text ∧ amount 84 value = value.text ∧
      coin 84 value = String.ofList (coinChars value.toNat)) ∧
    ∀ milliseconds : UInt64,
      time 84 milliseconds = String.ofList (timeChars (milliseconds.toNat / 1000)) := by
  refine ⟨fun place hMem => ?_, fun id => ⟨hex_toList id (by decide), hex_toList id (by decide)⟩,
    fun key => hex_toList key (by decide), fun value => ⟨amount_eq_text (by decide) value,
      amount_eq_text (by decide) value, coin_eq_ofList (by decide) value⟩,
    fun milliseconds => time_eq_ofList (by decide) milliseconds⟩
  by_cases hKind : ∃ tx, review.subject = .transaction tx
  · obtain ⟨tx, hSubject⟩ := hKind
    obtain ⟨bytes, id, hDecode⟩ := hDecoded tx hSubject
    obtain ⟨⟨hValid, -⟩, -⟩ := UnsignedTx.decode_eq_ok_iff.1 hDecode
    have hPlace := hasPlace_of_mem hSubject hValid hMem
    refine ⟨isLegible_render hSubject hPlace, fun other hOther => ?_⟩
    obtain rfl : tx = other := Subject.transaction.inj (hSubject.symm.trans hOther)
    exact hPlace
  · have hOther : ∀ tx, review.subject ≠ .transaction tx := fun tx hSubject => hKind ⟨tx, hSubject⟩
    exact ⟨isLegible_single hOther hMem, fun tx hSubject => absurd hSubject (hOther tx)⟩

/-- The five steps of a payment with a token and a message to the holders of two keys. -/
theorem screens_legible_payment :
    let review : Review := ⟨.transaction UnsignedTx.payment, UnsignedTx.payment.id, secondSigner⟩
    UnsignedTx.decode UnsignedTx.payment.toBytes =
        .ok (UnsignedTx.payment, UnsignedTx.payment.id) ∧
      review.places = [.path, .inputs 0 2, .output 0, .token 0, .final] ∧
      ∀ place ∈ review.places, (review.render place).IsLegible := by
  intro review
  have hCounted : UnsignedTx.payment.IsCounted := by
    refine ⟨by decide, by decide, fun output hMem => ?_⟩
    obtain rfl := List.mem_singleton.1 hMem
    exact ⟨by decide, by decide⟩
  have hDecode : UnsignedTx.decode UnsignedTx.payment.toBytes =
      .ok (UnsignedTx.payment, UnsignedTx.payment.id) :=
    UnsignedTx.decode_eq_ok_iff.2 ⟨⟨UnsignedTx.payment_valid, hCounted⟩, rfl, rfl⟩
  have hDecoded : ∀ tx, review.subject = .transaction tx →
      ∃ bytes id, UnsignedTx.decode bytes = .ok (tx, id) := by
    intro tx hSubject
    obtain rfl : UnsignedTx.payment = tx := Subject.transaction.inj hSubject
    exact ⟨_, _, hDecode⟩
  obtain ⟨hPlaces, -⟩ := screens_legible review hDecoded
  exact ⟨hDecode, by decide +kernel, fun place hMem => (hPlaces place hMem).1⟩

end Review

end ColdSigner
