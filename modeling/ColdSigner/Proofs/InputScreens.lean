import ColdSigner.Proofs.DisplayedValues
import ColdSigner.Proofs.ReviewCompleteness
/-!
# What the user sees of the inputs

The decoder follows the keys of the inputs forwards, a later input finds its key backwards, and
the review puts neighbours with one key together. For a transaction that was decoded the three
agree (`Review.inputs_shown`): each input is shown once and in order, under the key that unlocks
it, and a key that is not the one of the account is never shown without a warning.
-/
namespace ColdSigner

open Display

namespace ReviewStep

/-- The values with this name on the screens of a step. -/
def values (step : ReviewStep) (name : String) : List String :=
  step.screens.filterMap (·.field? name)

/-- The inputs in a step, each by the output that it spends. -/
def outputRefs (step : ReviewStep) : List String := step.values "Output Ref"

end ReviewStep

/-- What lies between two places of a list, in two pieces. -/
theorem slice_append {α : Type} (values : List α) {first middle last : Nat}
    (hFirst : first ≤ middle) (hLast : middle ≤ last) :
    (values.take middle).drop first ++ (values.take last).drop middle =
      (values.take last).drop first := by
  have hTake : values.take middle = (values.take last).take middle := by
    rw [List.take_take, Nat.min_eq_left hLast]
  have hDrop : (values.take last).drop middle =
      ((values.take last).drop first).drop (middle - first) := by
    rw [List.drop_drop, Nat.add_sub_cancel' hFirst]
  rw [hTake, List.drop_take, hDrop, List.take_append_drop]

namespace Runs

variable {α β : Type} {f : Nat → α} {count start : Nat}

/-- Runs in a row cover what lies between the start of the first and the end of the last. -/
theorem exists_of_append (β : Type) {earlier later : List (Nat × Nat)}
    (hRuns : Runs f count start (earlier ++ later)) :
    ∃ middle, start ≤ middle ∧ middle ≤ count ∧ (earlier = [] ↔ start = middle) ∧
      Runs f count middle later ∧
      ∀ values : List β, earlier.flatMap (fun run => (values.take run.2).drop run.1) =
        (values.take middle).drop start := by
  induction earlier generalizing start with
  | nil =>
      have hStart : start ≤ count := by
        cases hRuns with
        | none => exact Nat.le_refl count
        | run hSome hIn hSame hEnd hRest => omega
      exact ⟨start, Nat.le_refl start, hStart, by simp, hRuns, by simp⟩
  | cons first rest ih =>
      cases hRuns with
      | @run _ stop _ hSome hIn hSame hEnd hRest =>
          obtain ⟨middle, hMiddle, hCount, -, hLater, hCover⟩ := ih hRest
          refine ⟨middle, by omega, hCount, by simp; omega, hLater, ?_⟩
          intro values
          rw [List.flatMap_cons, hCover, slice_append values (Nat.le_of_lt hSome) hMiddle]

/-- A run among others begins where the ones before it end. -/
theorem of_append_cons (β : Type) {earlier later : List (Nat × Nat)} {first stop : Nat}
    (hRuns : Runs f count start (earlier ++ (first, stop) :: later)) :
    first < stop ∧ stop ≤ count ∧ (earlier = [] ↔ start = first) ∧ start ≤ first ∧
      (∀ number, first ≤ number → number < stop → f number = f first) ∧
      ∀ values : List β, earlier.flatMap (fun run => (values.take run.2).drop run.1) =
        (values.take first).drop start := by
  obtain ⟨middle, hMiddle, -, hEarlier, hLater, hCover⟩ := hRuns.exists_of_append β
  cases hLater with
  | run hSome hIn hSame hEnd hRest => exact ⟨hSome, hIn, hEarlier, hMiddle, hSame, hCover⟩

/-- All runs cover everything. -/
theorem flatMap_eq {runs : List (Nat × Nat)} {values : List β}
    (hRuns : Runs f values.length 0 runs) :
    runs.flatMap (fun run => (values.take run.2).drop run.1) = values := by
  rw [← List.append_nil runs] at hRuns
  obtain ⟨middle, -, -, -, hEnd, hCover⟩ := hRuns.exists_of_append β
  cases hEnd
  rw [hCover, List.drop_zero, List.take_length]

end Runs

namespace UnsignedTx

/-- The outputs that a transaction spends, as the user reads them. -/
def outputRefs (tx : UnsignedTx) : List String :=
  tx.inputs.map fun input => Hex.encode input.outputKey.toList

variable {bytes : Bytes} {tx : UnsignedTx} {id : TxId}

theorem lt_of_inputKey? {index : Nat} {key : PublicKey} (hKey : tx.inputKey? index = some key) :
    index < tx.inputs.length := by
  unfold inputKey? at hKey
  split at hKey
  · assumption
  · cases hKey

/-- Each input of a legal transaction has a key. -/
theorem Valid.exists_inputKey? (hValid : tx.Valid) {index : Nat}
    (hIndex : index < tx.inputs.length) : ∃ key, tx.inputKey? index = some key := by
  obtain ⟨key, hKey, -⟩ := hValid.hint_eq index _ (List.getElem?_eq_getElem hIndex)
  exact ⟨key, hKey⟩

/-- All keys that unlock inputs of one transaction are of one group. -/
theorem Valid.group_inputKey? (hValid : tx.Valid) {first second : Nat} {key other : PublicKey}
    (hFirst : tx.inputKey? first = some key) (hSecond : tx.inputKey? second = some other) :
    (Lockup.ofKey key).group = (Lockup.ofKey other).group := by
  have hInput {index : Nat} {found : PublicKey} (hKey : tx.inputKey? index = some found) :
      ∃ input ∈ tx.inputs, groupOfHint input.hint = (Lockup.ofKey found).group := by
    have hAt := List.getElem?_eq_getElem (lt_of_inputKey? hKey)
    obtain ⟨own, hOwn, hHint⟩ := hValid.hint_eq index _ hAt
    obtain rfl : found = own := Option.some.inj (hKey.symm.trans hOwn)
    exact ⟨_, List.mem_of_getElem? hAt, congrArg groupOfHint hHint⟩
  obtain ⟨input, hMem, hGroup⟩ := hInput hFirst
  obtain ⟨otherInput, hOtherMem, hOtherGroup⟩ := hInput hSecond
  rw [← hGroup, ← hOtherGroup]
  exact hValid.group_eq input hMem otherInput hOtherMem

end UnsignedTx

namespace Review

variable {review : Review} {tx : UnsignedTx}

/-- The steps of a review that show inputs, as the user sees them. -/
def inputSteps (review : Review) : List ReviewStep :=
  (review.places.map review.render).filter (·.kind = .inputGroup)

theorem kind_render (place : Place) : (review.render place).kind = place.kind := rfl

theorem exists_runs_inputSteps (hSubject : review.subject = .transaction tx) :
    ∃ runs, Runs tx.inputKey? tx.inputs.length 0 runs ∧
      review.inputSteps = runs.map fun run => review.render (.inputs run.1 run.2) := by
  obtain ⟨runs, hRuns, hPlaces⟩ := exists_runs_places hSubject
  refine ⟨runs, hRuns, ?_⟩
  have hOthers (numbers : List Nat) (place : Nat → Place)
      (hPlace : ∀ number, (place number).kind ≠ .inputGroup) :
      ((numbers.map place).map review.render).filter (·.kind = .inputGroup) = [] := by
    simp [kind_render, hPlace]
  have hInputs : ((runs.map fun run => Place.inputs run.1 run.2).map review.render).filter
      (·.kind = .inputGroup) = runs.map fun run => review.render (.inputs run.1 run.2) := by
    rw [List.map_map]
    apply List.filter_eq_self.2
    intro step hStep
    obtain ⟨run, -, rfl⟩ := List.mem_map.1 hStep
    rfl
  simp only [inputSteps, hPlaces, List.map_append, List.map_cons, List.filter_append]
  rw [List.filter_cons_of_neg (by simp [kind_render, Place.kind]), hInputs,
    hOthers _ Place.output (by simp [Place.kind]), hOthers _ Place.token (by simp [Place.kind]),
    hOthers _ Place.change (by simp [Place.kind])]
  simp [kind_render, Place.kind]

theorem screens_inputs (hSubject : review.subject = .transaction tx) (first stop : Nat) :
    (review.render (.inputs first stop)).screens = review.inputScreens tx first stop := by
  simp only [render, content, hSubject]

/-- What a run of inputs shows, name by name. -/
theorem values_inputs (hSubject : review.subject = .transaction tx) {first : Nat} (stop : Nat)
    {key : PublicKey} (hKey : tx.inputKey? first = some key) (name : String) :
    (review.render (.inputs first stop)).values name =
      (if "Address" = name then [(Lockup.ofKey key).address] else []) ++
      (if "Public Key" = name then [Hex.encode key.toList] else []) ++
      (if 0 < first ∧ "Unlock Script" = name then ["P2PKH, new key"] else []) ++
      (if key ≠ review.account.publicKey ∧ "Warning" = name then ["External input"] else []) ++
      (if "Output Ref" = name then ((tx.inputs.take stop).drop first).map
        fun input => Hex.encode input.outputKey.toList else []) := by
  have hRefs (inputs : List TxInput) :
      (inputs.map fun input => Screen.one "Output Ref" (hex 66 input.outputKey.toList)).filterMap
        (·.field? name) = if "Output Ref" = name then
          inputs.map fun input => Hex.encode input.outputKey.toList else [] := by
    induction inputs with
    | nil => simp
    | cons input rest ih =>
        rw [List.map_cons, List.filterMap_cons, ih, Screen.field?_one,
          hex_toList input.outputKey (by decide)]
        by_cases hName : "Output Ref" = name <;> simp [hName]
  have hKeyText : hex 66 key.toList = Hex.encode key.toList := hex_toList key (by decide)
  rw [ReviewStep.values, screens_inputs hSubject, inputScreens, hKey, Option.getD_some]
  simp only [List.filterMap_append, hRefs, hKeyText]
  congr 1
  congr 1
  · congr 1
    · by_cases hAddress : "Address" = name <;> by_cases hPublic : "Public Key" = name <;>
        simp [Screen.field?_one, hAddress, hPublic]
    · by_cases hFirst : 0 < first <;> by_cases hName : "Unlock Script" = name <;>
        simp [Screen.field?_one, hFirst, hName]
  · by_cases hOwn : key = review.account.publicKey <;> by_cases hName : "Warning" = name <;>
      simp [Screen.field?_one, hOwn, hName]

theorem outputRefs_inputs (hSubject : review.subject = .transaction tx) {first : Nat} (stop : Nat)
    {key : PublicKey} (hKey : tx.inputKey? first = some key) :
    (review.render (.inputs first stop)).outputRefs = (tx.outputRefs.take stop).drop first := by
  rw [ReviewStep.outputRefs, values_inputs hSubject stop hKey]
  simp [UnsignedTx.outputRefs, List.map_drop, List.map_take]

/-- A run of inputs is shown under the key of its first input. -/
theorem step_inputs (hSubject : review.subject = .transaction tx) {first : Nat} (stop : Nat)
    {key : PublicKey} (hKey : tx.inputKey? first = some key) :
    let step := review.render (.inputs first stop)
    step.values "Address" = [(Lockup.ofKey key).address] ∧
    step.values "Public Key" = [Hex.encode key.toList] ∧
    step.values "Warning" =
      (if key = review.account.publicKey then [] else ["External input"]) ∧
    step.values "Unlock Script" = (if first = 0 then [] else ["P2PKH, new key"]) ∧
    step.screens.length = 2 + step.outputRefs.length + (step.values "Warning").length +
      (step.values "Unlock Script").length := by
  have hValues := values_inputs hSubject stop hKey
  refine ⟨by simp [hValues], by simp [hValues], by simp [hValues], ?_, ?_⟩
  · rw [hValues]
    by_cases hFirst : first = 0 <;> simp [hFirst, Nat.pos_iff_ne_zero]
  · rw [ReviewStep.outputRefs, screens_inputs hSubject, inputScreens, hKey, Option.getD_some]
    by_cases hFirst : 0 < first <;> by_cases hOwn : key = review.account.publicKey <;>
      simp [hValues, hFirst, hOwn] <;> omega

/-- Steps in a row show the inputs of their runs in a row. -/
theorem flatMap_outputRefs (hSubject : review.subject = .transaction tx) (hValid : tx.Valid)
    {runs : List (Nat × Nat)} (hIn : ∀ run ∈ runs, run.1 < tx.inputs.length) :
    (runs.map fun run => review.render (.inputs run.1 run.2)).flatMap (·.outputRefs) =
      runs.flatMap fun run => (tx.outputRefs.take run.2).drop run.1 := by
  induction runs with
  | nil => rfl
  | cons run rest ih =>
      obtain ⟨hRun, hRest⟩ := List.forall_mem_cons.1 hIn
      obtain ⟨key, hKey⟩ := hValid.exists_inputKey? hRun
      rw [List.map_cons, List.flatMap_cons, List.flatMap_cons, ih hRest,
        outputRefs_inputs hSubject run.2 hKey]

/-- For a transaction that was decoded, every input has a key, which fits its hint, and the keys
are of one group. The user sees the outputs that are spent one after the other, each in a step
about the key that unlocks it. Every step but the first says that the key is another one, and
every key but the one of the account gets a warning. -/
theorem inputs_shown {bytes : Bytes} {tx : UnsignedTx} {id : TxId}
    (hDecode : UnsignedTx.decode bytes = .ok (tx, id)) (account : Account) :
    (∀ index input, tx.inputs[index]? = some input →
      ∃ key, tx.inputKey? index = some key ∧ input.hint = hintOfHash (hashOfKey key)) ∧
    (∀ index other key otherKey, tx.inputKey? index = some key →
      tx.inputKey? other = some otherKey →
        (Lockup.ofKey key).group = (Lockup.ofKey otherKey).group) ∧
    let steps := inputSteps ⟨.transaction tx, id, account⟩
    steps.flatMap (·.outputRefs) = tx.outputRefs ∧
    ∀ earlier step later, steps = earlier ++ step :: later →
      let first := (earlier.flatMap (·.outputRefs)).length
      let count := step.outputRefs.length
      0 < count ∧
      ∀ index key, first ≤ index → index < first + count → tx.inputKey? index = some key →
        step.values "Address" = [(Lockup.ofKey key).address] ∧
        step.values "Public Key" = [Hex.encode key.toList] ∧
        step.values "Warning" = (if key = account.publicKey then [] else ["External input"]) ∧
        step.values "Unlock Script" = (if earlier = [] then [] else ["P2PKH, new key"]) ∧
        step.screens.length = 2 + count + (step.values "Warning").length +
          (step.values "Unlock Script").length := by
  obtain ⟨⟨hValid, -⟩, -⟩ := UnsignedTx.decode_eq_ok_iff.1 hDecode
  refine ⟨hValid.hint_eq, fun _ _ _ _ => hValid.group_inputKey?, ?_⟩
  intro steps
  let review : Review := ⟨.transaction tx, id, account⟩
  have hSubject : review.subject = .transaction tx := rfl
  have hCount : tx.outputRefs.length = tx.inputs.length := List.length_map _
  obtain ⟨runs, hRuns, hRendered⟩ := exists_runs_inputSteps hSubject
  have hSteps : steps = runs.map fun run => review.render (.inputs run.1 run.2) := hRendered
  have hIn : ∀ run ∈ runs, run.1 < tx.inputs.length := by
    intro run hRun
    obtain ⟨before, behind, rfl⟩ := List.mem_iff_append.1 hRun
    obtain ⟨hSome, hStop, -⟩ := hRuns.of_append_cons Unit
    omega
  refine ⟨?_, ?_⟩
  · rw [hSteps, flatMap_outputRefs hSubject hValid hIn]
    rw [← hCount] at hRuns
    exact hRuns.flatMap_eq
  · intro earlier step later hSplit
    rw [hSteps, List.map_eq_append_iff] at hSplit
    obtain ⟨before, rest, rfl, rfl, hRest⟩ := hSplit
    obtain ⟨⟨start, stop⟩, behind, rfl, rfl, rfl⟩ := List.map_eq_cons_iff.1 hRest
    obtain ⟨hSome, hStop, hBefore, -, hSame, hCover⟩ := hRuns.of_append_cons String
    have hStart : start < tx.inputs.length := Nat.lt_of_lt_of_le hSome hStop
    obtain ⟨key, hKey⟩ := hValid.exists_inputKey? hStart
    have hFirst : ((before.map fun run => review.render (.inputs run.1 run.2)).flatMap
        (·.outputRefs)).length = start := by
      rw [flatMap_outputRefs hSubject hValid fun run hRun => hIn run (by simp [hRun]), hCover,
        List.drop_zero, List.length_take]
      omega
    have hShown : (review.render (.inputs start stop)).outputRefs.length = stop - start := by
      rw [outputRefs_inputs hSubject stop hKey, List.length_drop, List.length_take]
      omega
    simp only [hFirst, hShown]
    refine ⟨by omega, ?_⟩
    intro index other hFrom hTo hOther
    -- The inputs of a run have one key, so the first of them stands for all.
    rw [hSame index hFrom (by omega), hKey] at hOther
    obtain rfl := Option.some.inj hOther
    have hBegin : (before.map fun run => review.render (.inputs run.1 run.2)) = [] ↔
        start = 0 := by
      rw [List.map_eq_nil_iff, hBefore, eq_comm]
    obtain ⟨hAddress, hPublic, hWarning, hUnlock, hScreens⟩ := step_inputs hSubject stop hKey
    rw [hShown] at hScreens
    exact ⟨hAddress, hPublic, hWarning, by simp only [hUnlock, hBegin], hScreens⟩

/-- The second of two signers of a payment. -/
def secondSigner : Account :=
  ⟨.root, 0, 3, .ecdsa, ⟨Bytes.bigEndian 33 5, by simp⟩⟩

/-- A payment from two outputs of one key and one output of another key. -/
def jointPayment : UnsignedTx :=
  { UnsignedTx.payment with
    inputs := UnsignedTx.payment.inputs ++
      [⟨hintOfHash (hashOfKey secondSigner.publicKey), FixedBytes.zero 32,
        .key secondSigner.publicKey⟩] }

/-- The second signer is warned of the two outputs that are not theirs. -/
theorem inputs_shown_jointPayment :
    UnsignedTx.decode jointPayment.toBytes = .ok (jointPayment, jointPayment.id) ∧
      ∃ first second, inputSteps ⟨.transaction jointPayment, jointPayment.id, secondSigner⟩ =
        [first, second] ∧ first.outputRefs.length = 2 ∧ second.outputRefs.length = 1 ∧
      (first.values "Warning" = ["External input"] ∧ first.values "Unlock Script" = [] ∧
        first.screens.length = 5) ∧
      (second.values "Warning" = [] ∧ second.values "Unlock Script" = ["P2PKH, new key"] ∧
        second.screens.length = 4) := by
  have hDecode : UnsignedTx.decode jointPayment.toBytes = .ok (jointPayment, jointPayment.id) := by
    have hRead : (UnsignedTx.decode jointPayment.toBytes).toOption =
        some (jointPayment, jointPayment.id) := by decide +kernel
    cases hResult : UnsignedTx.decode jointPayment.toBytes with
    | error error => simp [hResult, Except.toOption] at hRead
    | ok decoded => simpa [hResult, Except.toOption] using hRead
  have hCounts : (inputSteps ⟨.transaction jointPayment, jointPayment.id, secondSigner⟩).map
      (·.outputRefs.length) = [2, 1] := by decide +kernel
  obtain ⟨-, -, -, hSteps⟩ := inputs_shown hDecode secondSigner
  obtain ⟨first, rest, hFirst, hFirstCount, hRest⟩ := List.map_eq_cons_iff.1 hCounts
  obtain ⟨second, hSecond, hSecondCount⟩ := List.map_eq_singleton_iff.1 hRest
  rw [hSecond] at hFirst
  obtain ⟨-, hFirstShown⟩ := hSteps [] first [second] hFirst
  obtain ⟨-, hSecondShown⟩ := hSteps [first] second [] hFirst
  obtain ⟨-, -, hWarning, hUnlock, hScreens⟩ := hFirstShown 0 (FixedBytes.zero 33)
    (Nat.zero_le 0) (by simp [hFirstCount]) (by decide +kernel)
  obtain ⟨-, -, hOwnWarning, hOwnUnlock, hOwnScreens⟩ := hSecondShown 2 secondSigner.publicKey
    (by simp [hFirstCount]) (by simp [hFirstCount, hSecondCount]) (by decide +kernel)
  rw [if_neg (by decide)] at hWarning
  rw [if_pos rfl] at hOwnWarning hUnlock
  rw [if_neg (List.cons_ne_nil first [])] at hOwnUnlock
  rw [hFirstCount, hWarning, hUnlock] at hScreens
  rw [hSecondCount, hOwnWarning, hOwnUnlock] at hOwnScreens
  exact ⟨hDecode, first, second, hFirst, hFirstCount, hSecondCount,
    ⟨hWarning, hUnlock, hScreens⟩, hOwnWarning, hOwnUnlock, hOwnScreens⟩

end Review

end ColdSigner
