import ColdSigner.Proofs.TransactionParts
/-!
# Transactions have one written form

A byte string is read as a transaction exactly if it is what is written for a valid one
(`UnsignedTx.decode_canonical`). So what the user reviews is what the hash that is signed was made
from, and no transaction has two identifiers.
-/
namespace ColdSigner

open Reader Cursor ColdSigner.Compact

theorem Network.ofCode?_eq_some_iff {code : UInt8} {network : Network} :
    ofCode? code = some network ↔ network.code = code := by
  constructor
  · intro h
    have := List.find?_some h
    simpa using this
  · rintro rfl
    cases network <;> rfl

namespace UnsignedTx

/-- What a transaction has to be beside its form, so that the device can explain it. -/
structure Valid (tx : UnsignedTx) : Prop where
  version_eq : tx.version = 0
  gas_pos : 0 < tx.gasAmount.toInt
  inputs_ne_nil : tx.inputs ≠ []
  /-- The first input is unlocked by a key of its own. -/
  first_unlock : ∃ key, tx.inputs.head?.map (·.unlock) = some (.key key)
  /-- Each input has the hint of the last key given up to there. -/
  hint_eq : ∀ index input, tx.inputs[index]? = some input →
    ∃ key, tx.inputKey? index = some key ∧ input.hint = hintOfHash (hashOfKey key)
  /-- All inputs are of one group. -/
  group_eq : ∀ first ∈ tx.inputs, ∀ second ∈ tx.inputs,
    groupOfHint first.hint = groupOfHint second.hint
  outputs_valid : ∀ output ∈ tx.outputs, output.Valid

/-- The lists in a transaction have a length that can be written. -/
def IsCounted (tx : UnsignedTx) : Prop :=
  tx.inputs.length < 2 ^ 31 ∧ tx.outputs.length < 2 ^ 31 ∧
    ∀ output ∈ tx.outputs, output.IsCounted

theorem inputKey?_eq_keyAt? {tx : UnsignedTx} {index : Nat} (hIndex : index < tx.inputs.length) :
    tx.inputKey? index = TxInput.keyAt? none tx.inputs index := by
  simp only [inputKey?, if_pos hIndex, TxInput.keyAt?, Option.or_none]
  congr 1

theorem linked_inputs_iff (tx : UnsignedTx) :
    TxInput.Linked none tx.inputs ↔
      (∀ index input, tx.inputs[index]? = some input →
        ∃ key, tx.inputKey? index = some key ∧ input.hint = hintOfHash (hashOfKey key)) ∧
      ∀ first ∈ tx.inputs, ∀ second ∈ tx.inputs,
        groupOfHint first.hint = groupOfHint second.hint := by
  have hKeys {index : Nat} {input : TxInput} (hInput : tx.inputs[index]? = some input) :
      tx.inputKey? index = TxInput.keyAt? none tx.inputs index :=
    inputKey?_eq_keyAt? (List.getElem?_eq_some_iff.1 hInput).1
  rw [TxInput.linked_iff]
  constructor
  · rintro ⟨hHints, -, hGroups⟩
    refine ⟨?_, hGroups⟩
    intro index input hInput
    rw [hKeys hInput]
    exact hHints index input hInput
  · rintro ⟨hHints, hGroups⟩
    refine ⟨?_, by simp, hGroups⟩
    intro index input hInput
    rw [← hKeys hInput]
    exact hHints index input hInput

/-- The key of the first input can only be its own. -/
theorem first_unlock_of_inputKey? {tx : UnsignedTx} {key : PublicKey}
    (hKey : tx.inputKey? 0 = some key) :
    tx.inputs.head?.map (·.unlock) = some (.key key) := by
  rcases hInputs : tx.inputs with _ | ⟨input, rest⟩
  · simp [inputKey?, hInputs] at hKey
  · cases hUnlock : input.unlock <;> simp_all [inputKey?]

theorem returns_outputs_iff {cursor next : Cursor} {outputs : List TxOutput} :
    Returns (length TxOutput.minSize >>= repeated TxOutput.read) cursor outputs next ↔
      outputs.length < 2 ^ 31 ∧ (∀ output ∈ outputs, output.Valid ∧ output.IsCounted) ∧
        cursor.Passes (listBytes TxOutput.toBytes outputs) next := by
  apply returns_counted_iff (fun outputs => ∀ output ∈ outputs, output.Valid ∧ output.IsCounted)
    TxOutput.toBytes
  · intro count cursor outputs next
    exact returns_repeated_iff TxOutput.returns_read_iff
  · intro outputs hLegal output hMem
    exact TxOutput.minSize_le_length_toBytes (hLegal output hMem).1

theorem passes_toBytes_iff {cursor next : Cursor} {tx : UnsignedTx} :
    cursor.Passes tx.toBytes next ↔
      ∃ afterVersion, cursor.Passes [tx.version] afterVersion ∧
      ∃ afterNetwork, afterVersion.Passes [tx.network.code] afterNetwork ∧
      ∃ afterScript, afterNetwork.Passes [0] afterScript ∧
      ∃ afterAmount, afterScript.Passes (ofInt tx.gasAmount) afterAmount ∧
      ∃ afterPrice, afterAmount.Passes (ofAmount tx.gasPrice) afterPrice ∧
      ∃ afterInputs, afterPrice.Passes (listBytes TxInput.toBytes tx.inputs) afterInputs ∧
        afterInputs.Passes (listBytes TxOutput.toBytes tx.outputs) next := by
  have hBytes : tx.toBytes = [tx.version] ++ ([tx.network.code] ++ ([0] ++ (ofInt tx.gasAmount ++
      (ofAmount tx.gasPrice ++ (listBytes TxInput.toBytes tx.inputs ++
        listBytes TxOutput.toBytes tx.outputs))))) := by
    simp [toBytes]
  simp only [hBytes, passes_append_iff]

/-- A transaction is read from exactly what is written for a valid one. -/
theorem returns_read_iff {cursor next : Cursor} {tx : UnsignedTx} :
    Returns read cursor tx next ↔
      (tx.Valid ∧ tx.IsCounted) ∧ cursor.Passes tx.toBytes next := by
  unfold read
  constructor
  · intro h
    simp only [returns_bind_iff, returns_byte_iff, returns_guard_iff] at h
    obtain ⟨version, _, hVersion, hKnown, code, _, hCode, h⟩ := h
    split at h
    · next network hNetwork =>
        obtain rfl := Network.ofCode?_eq_some_iff.1 hNetwork
        simp only [returns_bind_iff, returns_byte_iff, returns_guard_iff, returns_int_iff,
          returns_amount_iff, TxInput.returns_readAll_iff, returns_pure_iff] at h
        obtain ⟨script, _, hScript, hNone, gasAmount, _, hAmount, hGas, gasPrice, _, hPrice,
          inputs, _, ⟨hFewInputs, ⟨hSome, hLinked⟩, hInputs⟩, count, _, hCount, outputs, _,
          hOutputs, rfl, rfl⟩ := h
        obtain ⟨hFewOutputs, hLegal, hOutputs⟩ :=
          returns_outputs_iff.1 (returns_bind_iff.2 ⟨count, _, hCount, hOutputs⟩)
        obtain rfl := Decidable.not_not.1 hKnown
        obtain rfl := Decidable.not_not.1 hNone
        obtain ⟨hHints, hGroups⟩ := (linked_inputs_iff
          ⟨knownVersion, network, gasAmount, gasPrice, inputs, outputs⟩).1 hLinked
        refine ⟨⟨⟨rfl, Int.not_le.1 hGas, hSome, ?_, hHints, hGroups, ?_⟩, hFewInputs,
          hFewOutputs, ?_⟩, ?_⟩
        · obtain ⟨first, rest, rfl⟩ := List.exists_cons_of_ne_nil hSome
          obtain ⟨key, hKey, -⟩ := hHints 0 first rfl
          exact ⟨key, first_unlock_of_inputKey? hKey⟩
        · exact fun output hMem => (hLegal output hMem).1
        · exact fun output hMem => (hLegal output hMem).2
        · exact passes_toBytes_iff.2 ⟨_, hVersion, _, hCode, _, hScript, _, hAmount, _, hPrice, _,
            hInputs, hOutputs⟩
    · exact (not_returns_throw h).elim
  · rintro ⟨⟨hValid, hFewInputs, hFewOutputs, hCounted⟩, hPasses⟩
    obtain ⟨_, hVersion, _, hCode, _, hScript, _, hAmount, _, hPrice, _, hInputs, hOutputs⟩ :=
      passes_toBytes_iff.1 hPasses
    have hLinked : TxInput.Linked none tx.inputs :=
      (linked_inputs_iff tx).2 ⟨hValid.hint_eq, hValid.group_eq⟩
    have hLegal : ∀ output ∈ tx.outputs, output.Valid ∧ output.IsCounted :=
      fun output hMem => ⟨hValid.outputs_valid output hMem, hCounted output hMem⟩
    obtain ⟨count, _, hCount, hOutputs⟩ :=
      returns_bind_iff.1 (returns_outputs_iff.2 ⟨hFewOutputs, hLegal, hOutputs⟩)
    simp only [returns_bind_iff, returns_byte_iff, returns_guard_iff]
    refine ⟨tx.version, _, hVersion, Decidable.not_not.2 hValid.version_eq, _, _, hCode, ?_⟩
    rw [Network.ofCode?_eq_some_iff.2 rfl]
    have hGas := hValid.gas_pos
    simp only [returns_bind_iff, returns_byte_iff, returns_guard_iff, returns_int_iff,
      returns_amount_iff, TxInput.returns_readAll_iff, returns_pure_iff]
    exact ⟨0, _, hScript, by decide, tx.gasAmount, _, hAmount, by omega, tx.gasPrice, _, hPrice,
      tx.inputs, _, ⟨hFewInputs, ⟨hValid.inputs_ne_nil, hLinked⟩, hInputs⟩, count, _, hCount,
      tx.outputs, _, hOutputs, rfl, rfl⟩

/-- Lists that are written in few bytes are short. -/
theorem Valid.isCounted {tx : UnsignedTx} (hValid : tx.Valid)
    (hLength : tx.toBytes.length < 2 ^ 31) : tx.IsCounted := by
  have hInputs : tx.inputs.length * TxInput.minSize ≤
      (tx.inputs.flatMap TxInput.toBytes).length :=
    length_mul_le_length_flatMap fun input _ => input.minSize_le_length_toBytes
  have hOutputs : tx.outputs.length * TxOutput.minSize ≤
      (tx.outputs.flatMap TxOutput.toBytes).length :=
    length_mul_le_length_flatMap fun output hMem =>
      TxOutput.minSize_le_length_toBytes (hValid.outputs_valid output hMem)
  have hParts : (tx.inputs.flatMap TxInput.toBytes).length +
      (tx.outputs.flatMap TxOutput.toBytes).length ≤ tx.toBytes.length := by
    simp only [toBytes, listBytes, List.length_append]
    omega
  simp only [TxInput.minSize, TxOutput.minSize] at hInputs hOutputs
  refine ⟨by omega, by omega, ?_⟩
  intro output hMem
  have hOutput : output.toBytes.length ≤ (tx.outputs.flatMap TxOutput.toBytes).length :=
    length_le_length_flatMap_of_mem hMem
  have hTokens : output.tokens.length * Token.minSize ≤
      (output.tokens.flatMap Token.toBytes).length :=
    length_mul_le_length_flatMap fun token _ => token.minSize_le_length_toBytes
  simp only [TxOutput.toBytes, listBytes, List.length_append, Token.minSize] at hOutput hTokens
  exact ⟨by omega, by omega⟩

theorem decode_eq_ok_iff {bytes : Bytes} {tx : UnsignedTx} {id : TxId} :
    decode bytes = .ok (tx, id) ↔
      (tx.Valid ∧ tx.IsCounted) ∧ bytes = tx.toBytes ∧ id = blake2b256 bytes := by
  have hRead : readAll read bytes = .ok tx ↔
      (tx.Valid ∧ tx.IsCounted) ∧ bytes = tx.toBytes :=
    readAll_eq_ok_iff_of_returns returns_read_iff
  unfold decode
  cases hResult : readAll read bytes with
  | error error =>
      rw [hResult] at hRead
      simp only [Except.map, reduceCtorEq, false_iff]
      rintro ⟨hLegal, hBytes, -⟩
      exact absurd (hRead.2 ⟨hLegal, hBytes⟩) (by simp)
  | ok found =>
      simp only [Except.map, Except.ok.injEq, Prod.mk.injEq, txIdOfBytes]
      rw [hResult, Except.ok.injEq] at hRead
      rw [hRead, and_assoc, eq_comm (a := blake2b256 bytes)]

/-- The decoder accepts exactly what is written for a valid transaction, together with the hash
of it. So each valid transaction reads back, each accepted byte string is written back, and no
transaction is read from two of them. Lists of two billion elements are not written. -/
theorem decode_canonical :
    (∀ (bytes : Bytes) (tx : UnsignedTx) (id : TxId), bytes.length < 2 ^ 31 →
      (decode bytes = .ok (tx, id) ↔
        bytes = tx.toBytes ∧ id = blake2b256 bytes ∧ tx.Valid)) ∧
    (∀ tx : UnsignedTx, tx.Valid → tx.toBytes.length < 2 ^ 31 →
      decode tx.toBytes = .ok (tx, tx.id)) ∧
    (∀ (bytes : Bytes) (tx : UnsignedTx) (id : TxId), decode bytes = .ok (tx, id) →
      tx.toBytes = bytes) ∧
    (∀ (bytes other : Bytes) (tx : UnsignedTx) (id otherId : TxId),
      decode bytes = .ok (tx, id) → decode other = .ok (tx, otherId) → bytes = other) := by
  refine ⟨?_, ?_, ?_, ?_⟩
  · intro bytes tx id hLength
    rw [decode_eq_ok_iff]
    constructor
    · rintro ⟨⟨hValid, -⟩, hBytes, hId⟩
      exact ⟨hBytes, hId, hValid⟩
    · rintro ⟨rfl, hId, hValid⟩
      exact ⟨⟨hValid, hValid.isCounted hLength⟩, rfl, hId⟩
  · intro tx hValid hLength
    exact decode_eq_ok_iff.2 ⟨⟨hValid, hValid.isCounted hLength⟩, rfl, rfl⟩
  · intro bytes tx id hDecode
    exact (decode_eq_ok_iff.1 hDecode).2.1.symm
  · intro bytes other tx id otherId hDecode hOther
    rw [(decode_eq_ok_iff.1 hDecode).2.1, (decode_eq_ok_iff.1 hOther).2.1]

/-- A payment with a token, from two outputs of one key. -/
def payment : UnsignedTx where
  version := 0
  network := .devnet
  gasAmount := 20000
  gasPrice := ⟨100000000000, by decide⟩
  inputs :=
    [⟨hintOfKey (FixedBytes.zero 33), FixedBytes.zero 32, .key (FixedBytes.zero 33)⟩,
      ⟨hintOfKey (FixedBytes.zero 33), FixedBytes.zero 32, .sameAsPrevious⟩]
  outputs :=
    [⟨⟨1000000000000000000, by decide⟩, .multisig [FixedBytes.zero 32, FixedBytes.zero 32] 2, 0,
      [⟨FixedBytes.zero 32, ⟨7, by decide⟩⟩], [0x41]⟩]

theorem payment_valid : payment.Valid where
  version_eq := rfl
  gas_pos := by decide
  inputs_ne_nil := by simp [payment]
  first_unlock := ⟨_, rfl⟩
  hint_eq := by
    intro index input hInput
    refine ⟨FixedBytes.zero 33, ?_⟩
    cases index with
    | zero =>
        cases hInput
        exact ⟨rfl, rfl⟩
    | succ index =>
        cases index with
        | zero =>
            cases hInput
            exact ⟨rfl, rfl⟩
        | succ index => cases hInput
  group_eq := by simp [payment]
  outputs_valid := by
    intro output hMem
    obtain rfl := List.mem_singleton.1 hMem
    exact ⟨by decide, by decide⟩

/-- The payment reads back, and from nothing else. -/
theorem decode_canonical_payment :
    payment.Valid ∧ payment.toBytes.length < 2 ^ 31 ∧
      decode payment.toBytes = .ok (payment, blake2b256 payment.toBytes) ∧
      ∀ other otherId, decode other = .ok (payment, otherId) → other = payment.toBytes := by
  have hLength : payment.toBytes.length < 2 ^ 31 := by decide +kernel
  have hDecode := (decode_canonical.1 payment.toBytes payment payment.id hLength).2
    ⟨rfl, rfl, payment_valid⟩
  refine ⟨payment_valid, hLength, hDecode, ?_⟩
  intro other otherId hOther
  exact decode_canonical.2.2.2 other payment.toBytes payment otherId payment.id hOther hDecode

end UnsignedTx

end ColdSigner
