import ColdSigner.Proofs.CompactIntegers
import ColdSigner.Transaction.Decode
/-!
# The parts of a transaction read back

Each reader of a part takes exactly what is written for it, as long as the part is legal: a
lockup that can be satisfied (`Lockup.returns_read_iff`), tokens that are listed once
(`TxOutput.returns_read_iff`), and inputs that follow one another (`TxInput.Linked`).
-/
namespace ColdSigner

open Reader Cursor ColdSigner.Compact

variable {cursor next : Cursor}

theorem length_mul_le_length_flatMap {α : Type} {write : α → Bytes} {least : Nat}
    {values : List α} (h : ∀ value ∈ values, least ≤ (write value).length) :
    values.length * least ≤ (values.flatMap write).length := by
  induction values with
  | nil => simp
  | cons first rest ih =>
      have hFirst := h first List.mem_cons_self
      have hRest := ih fun value hMem => h value (List.mem_cons_of_mem first hMem)
      simp only [List.length_cons, List.flatMap_cons, List.length_append, Nat.add_mul]
      omega

theorem length_le_length_flatMap_of_mem {α : Type} {write : α → Bytes} {value : α}
    {values : List α} (hMem : value ∈ values) :
    (write value).length ≤ (values.flatMap write).length := by
  rw [List.flatMap_def]
  exact (List.sublist_flatten_of_mem (List.mem_map_of_mem hMem)).length_le

namespace Reader

/-- A list behind its length. The early bound on the length refuses no written list, because
each element takes at least the least size. -/
theorem returns_counted_iff {α : Type} {many : Nat → Reader (List α)} (Legal : List α → Prop)
    (write : α → Bytes) {elementSize : Nat}
    (hMany : ∀ {count : Nat} {cursor : Cursor} {values : List α} {next : Cursor},
      Returns (many count) cursor values next ↔
        values.length = count ∧ Legal values ∧ cursor.Passes (values.flatMap write) next)
    (hSize : ∀ values, Legal values → ∀ value ∈ values, elementSize ≤ (write value).length)
    {values : List α} :
    Returns (length elementSize >>= many) cursor values next ↔
      values.length < 2 ^ 31 ∧ Legal values ∧ cursor.Passes (listBytes write values) next := by
  simp only [returns_bind_iff, returns_length_iff, hMany, listBytes, passes_append_iff]
  constructor
  · rintro ⟨_, middle, ⟨hCount, hLength, -⟩, rfl, hLegal, hPasses⟩
    exact ⟨hCount, hLegal, middle, hLength, hPasses⟩
  · rintro ⟨hCount, hLegal, middle, hLength, hPasses⟩
    refine ⟨_, middle, ⟨hCount, hLength, ?_⟩, rfl, hLegal, hPasses⟩
    have hWritten := length_mul_le_length_flatMap (hSize values hLegal)
    rw [hPasses.remaining_eq]
    omega

theorem returns_countedBytes_iff {data : Bytes} :
    Returns (length 1 >>= bytes) cursor data next ↔
      data.length < 2 ^ 31 ∧ cursor.Passes (ofLength data.length ++ data) next := by
  have hSelf (data : Bytes) : data.flatMap (fun byte => [byte]) = data := by
    induction data with
    | nil => rfl
    | cons byte rest ih => simp [ih]
  have hList : Returns (length 1 >>= bytes) cursor data next ↔
      data.length < 2 ^ 31 ∧ True ∧ cursor.Passes (listBytes (fun byte => [byte]) data) next := by
    apply returns_counted_iff (fun _ => True) (fun byte => [byte])
    · intro count cursor data next
      rw [returns_bytes_iff, hSelf, true_and]
    · intro data _ byte _
      exact Nat.le_refl 1
  simpa [listBytes, hSelf] using hList

end Reader

namespace Lockup

theorem isValid_multisig_iff {hashes : List (FixedBytes 32)} {required : Nat} :
    (multisig hashes required).isValid = true ↔
      1 ≤ required ∧ required ≤ hashes.length ∧ hashes.length ≤ maxMultisigKeys := by
  simp [isValid, and_assoc]

theorem returns_hash_iff (cursor : Cursor) (hash : FixedBytes 32) (next : Cursor) :
    Returns (fixed 32) cursor hash next ↔ True ∧ cursor.Passes hash.toList next := by
  rw [returns_fixed_iff, true_and]

/-- A lockup is read from exactly what is written for a valid one. -/
theorem returns_read_iff {lockup : Lockup} :
    Returns read cursor lockup next ↔
      lockup.isValid = true ∧ cursor.Passes lockup.toBytes next := by
  have hMost : maxMultisigKeys = 16 := rfl
  unfold read
  simp only [returns_bind_iff, returns_byte_iff]
  constructor
  · rintro ⟨tag, middle, hTag, h⟩
    split at h
    · simp only [returns_bind_iff, returns_fixed_iff, returns_pure_iff] at h
      obtain ⟨hash, _, hHash, rfl, rfl⟩ := h
      exact ⟨rfl, passes_cons_iff.2 ⟨middle, hTag, hHash⟩⟩
    · simp only [returns_bind_iff, returns_length_iff, returns_ite_iff, not_returns_throw,
        and_false, false_or, returns_repeated_iff returns_hash_iff, returns_int_iff,
        returns_pure_iff] at h
      obtain ⟨_, _, ⟨-, hCount, -⟩, hFew, hashes, _, ⟨rfl, -, hHashes⟩, required, _, hRequired,
        hAmong, rfl, rfl⟩ := h
      refine ⟨isValid_multisig_iff.2 ⟨by omega, by omega, by omega⟩, ?_⟩
      rw [← ofLength_toNat (by omega)] at hRequired
      exact passes_cons_iff.2 ⟨_, hTag, passes_append_iff.2
        ⟨_, passes_append_iff.2 ⟨_, hCount, hHashes⟩, hRequired⟩⟩
    · simp only [returns_bind_iff, returns_fixed_iff, returns_pure_iff] at h
      obtain ⟨hash, _, hHash, rfl, rfl⟩ := h
      exact ⟨rfl, passes_cons_iff.2 ⟨middle, hTag, hHash⟩⟩
    · exact (not_returns_throw h).elim
  · rintro ⟨hValid, hPasses⟩
    cases lockup with
    | key hash =>
        obtain ⟨middle, hTag, hHash⟩ := passes_cons_iff.1 hPasses
        refine ⟨0, middle, hTag, ?_⟩
        simp only [returns_bind_iff, returns_fixed_iff, returns_pure_iff]
        exact ⟨hash, next, hHash, rfl, rfl⟩
    | multisig hashes required =>
        obtain ⟨hSome, hAmong, hFew⟩ := isValid_multisig_iff.1 hValid
        obtain ⟨middle, hTag, h⟩ := passes_cons_iff.1 hPasses
        obtain ⟨_, h, hRequired⟩ := passes_append_iff.1 h
        obtain ⟨_, hCount, hHashes⟩ := passes_append_iff.1 h
        have hNumber := Int32.toInt_ofNat_of_lt (n := required) (by omega)
        have hFits : hashes.length * 32 ≤ (hashes.flatMap (·.toList)).length :=
          length_mul_le_length_flatMap (by simp)
        refine ⟨1, middle, hTag, ?_⟩
        simp only [returns_bind_iff, returns_length_iff, returns_ite_iff, not_returns_throw,
          and_false, false_or, returns_repeated_iff returns_hash_iff, returns_int_iff,
          returns_pure_iff]
        exact ⟨hashes.length, _, ⟨by omega, hCount, by rw [hHashes.remaining_eq]; omega⟩,
          by omega, hashes, _, ⟨rfl, by simp, hHashes⟩, Int32.ofNat required, next, hRequired,
          by omega, by rw [hNumber, Int.toNat_natCast], rfl⟩
    | script hash =>
        obtain ⟨middle, hTag, hHash⟩ := passes_cons_iff.1 hPasses
        refine ⟨2, middle, hTag, ?_⟩
        simp only [returns_bind_iff, returns_fixed_iff, returns_pure_iff]
        exact ⟨hash, next, hHash, rfl, rfl⟩

theorem length_toBytes_le {lockup : Lockup} (hValid : lockup.isValid = true) :
    33 ≤ lockup.toBytes.length := by
  cases lockup with
  | key hash => simp [toBytes]
  | multisig hashes required =>
      obtain ⟨hSome, hAmong, -⟩ := isValid_multisig_iff.1 hValid
      have hFits : hashes.length * 32 ≤ (hashes.flatMap (·.toList)).length :=
        length_mul_le_length_flatMap (by simp)
      simp only [toBytes, List.length_cons, List.length_append]
      omega
  | script hash => simp [toBytes]

end Lockup

namespace Token

/-- Tokens are read from what is written for them, if no identifier was seen before. -/
theorem returns_readMany_iff {seen : List (FixedBytes 32)} {count : Nat} {tokens : List Token} :
    Returns (readMany seen count) cursor tokens next ↔
      tokens.length = count ∧
        ((tokens.map (·.id)).Nodup ∧ ∀ token ∈ tokens, token.id ∉ seen) ∧
        cursor.Passes (tokens.flatMap toBytes) next := by
  induction count generalizing cursor next seen tokens with
  | zero =>
      simp only [readMany, returns_pure_iff, List.length_eq_zero_iff]
      constructor
      · rintro ⟨rfl, rfl⟩
        exact ⟨rfl, by simp, passes_nil_iff.2 rfl⟩
      · rintro ⟨rfl, -, hPasses⟩
        exact ⟨rfl, passes_nil_iff.1 hPasses⟩
  | succ count ih =>
      simp only [readMany, returns_bind_iff, returns_fixed_iff, returns_amount_iff,
        returns_ite_iff, not_returns_throw, and_false, false_or, ih, returns_pure_iff]
      constructor
      · rintro ⟨id, _, hId, amount, _, hAmount, hFresh, rest, _,
          ⟨rfl, ⟨hDistinct, hOther⟩, hRest⟩, rfl, rfl⟩
        refine ⟨rfl, ⟨?_, ?_⟩, ?_⟩
        · refine List.nodup_cons.2 ⟨?_, hDistinct⟩
          intro hMem
          obtain ⟨token, hToken, hSame⟩ := List.mem_map.1 hMem
          exact hOther token hToken (hSame ▸ List.mem_cons_self)
        · refine List.forall_mem_cons.2 ⟨hFresh, fun token hToken hSeen => ?_⟩
          exact hOther token hToken (List.mem_cons_of_mem id hSeen)
        · exact passes_append_iff.2 ⟨_, passes_append_iff.2 ⟨_, hId, hAmount⟩, hRest⟩
      · rintro ⟨hLength, ⟨hDistinct, hOther⟩, hPasses⟩
        obtain ⟨first, rest, rfl⟩ := List.exists_cons_of_length_eq_add_one hLength
        obtain ⟨hFirst, hDistinct⟩ := List.nodup_cons.1 hDistinct
        obtain ⟨hFresh, hOther⟩ := List.forall_mem_cons.1 hOther
        obtain ⟨_, h, hRest⟩ := passes_append_iff.1 hPasses
        obtain ⟨_, hId, hAmount⟩ := passes_append_iff.1 h
        refine ⟨first.id, _, hId, first.amount, _, hAmount, hFresh, rest, next,
          ⟨by simpa using hLength, ⟨hDistinct, fun token hToken hSeen => ?_⟩, hRest⟩, rfl, rfl⟩
        rcases List.mem_cons.1 hSeen with hSame | hSeen
        · exact hFirst (List.mem_map.2 ⟨token, hToken, hSame⟩)
        · exact hOther token hToken hSeen

theorem minSize_le_length_toBytes (token : Token) : minSize ≤ token.toBytes.length := by
  have := one_le_length_ofAmount token.amount
  simp [minSize, toBytes]
  omega

end Token

namespace TxOutput

/-- What an output has to be beside its form: no token is listed twice, and the lockup can be
satisfied. -/
structure Valid (output : TxOutput) : Prop where
  nodup_tokens : (output.tokens.map (·.id)).Nodup
  lockup_isValid : output.lockup.isValid = true

/-- The lists in an output have a length that can be written. -/
def IsCounted (output : TxOutput) : Prop :=
  output.tokens.length < 2 ^ 31 ∧ output.data.length < 2 ^ 31

theorem returns_tokens_iff {tokens : List Token} :
    Returns (length Token.minSize >>= Token.readMany []) cursor tokens next ↔
      tokens.length < 2 ^ 31 ∧ (tokens.map (·.id)).Nodup ∧
        cursor.Passes (listBytes Token.toBytes tokens) next := by
  apply returns_counted_iff (fun tokens => (tokens.map (·.id)).Nodup) Token.toBytes
  · intro count cursor tokens next
    simp [Token.returns_readMany_iff]
  · intro tokens _ token _
    exact token.minSize_le_length_toBytes

/-- An output is read from exactly what is written for a valid one. -/
theorem returns_read_iff (cursor : Cursor) (output : TxOutput) (next : Cursor) :
    Returns read cursor output next ↔
      (output.Valid ∧ output.IsCounted) ∧ cursor.Passes output.toBytes next := by
  unfold read
  simp only [returns_bind_iff, returns_amount_iff, Lockup.returns_read_iff,
    returns_number_iff_bigEndian, returns_pure_iff]
  constructor
  · rintro ⟨amount, _, hAmount, lockup, _, ⟨hValid, hLockup⟩, time, _, ⟨hTime, hPasses⟩,
      count, _, hCount, tokens, _, hTokens, size, _, hSize, data, _, hData, rfl, rfl⟩
    obtain ⟨hFew, hDistinct, hTokens⟩ :=
      returns_tokens_iff.1 (returns_bind_iff.2 ⟨count, _, hCount, hTokens⟩)
    obtain ⟨hShort, hData⟩ :=
      returns_countedBytes_iff.1 (returns_bind_iff.2 ⟨size, _, hSize, hData⟩)
    have hWritten : (UInt64.ofNat time).toNat = time := UInt64.toNat_ofNat_of_lt' hTime
    refine ⟨⟨⟨hDistinct, hValid⟩, hFew, hShort⟩, ?_⟩
    simp only [toBytes, hWritten, List.append_assoc, passes_append_iff] at hData ⊢
    exact ⟨_, hAmount, _, hLockup, _, hPasses, _, hTokens, hData⟩
  · rintro ⟨⟨⟨hDistinct, hValid⟩, hFew, hShort⟩, hPasses⟩
    simp only [toBytes, List.append_assoc, passes_append_iff] at hPasses
    obtain ⟨_, hAmount, _, hLockup, _, hTime, _, hTokens, hData⟩ := hPasses
    obtain ⟨count, _, hCount, hTokens⟩ :=
      returns_bind_iff.1 (returns_tokens_iff.2 ⟨hFew, hDistinct, hTokens⟩)
    obtain ⟨size, _, hSize, hData⟩ :=
      returns_bind_iff.1 (returns_countedBytes_iff.2 ⟨hShort, passes_append_iff.2 hData⟩)
    exact ⟨output.amount, _, hAmount, output.lockup, _, ⟨hValid, hLockup⟩, output.lockTime.toNat,
      _, ⟨output.lockTime.toNat_lt, hTime⟩, count, _, hCount, output.tokens, _, hTokens, size, _,
      hSize, output.data, next, hData, by simp, rfl⟩

theorem minSize_le_length_toBytes {output : TxOutput} (hValid : output.Valid) :
    minSize ≤ output.toBytes.length := by
  have hAmount := one_le_length_ofAmount output.amount
  have hData : 1 ≤ (ofLength output.data.length).length := one_le_length_ofInt _
  have hTokens : 1 ≤ (listBytes Token.toBytes output.tokens).length := by
    have hCount : 1 ≤ (ofLength output.tokens.length).length := one_le_length_ofInt _
    simp only [listBytes, List.length_append]
    omega
  have hLockup := output.lockup.length_toBytes_le hValid.lockup_isValid
  simp only [minSize, toBytes, List.length_append, Bytes.length_bigEndian]
  omega

end TxOutput

namespace Unlock

/-- The key in an unlock, which may be left to the input before. -/
def key? : Unlock → Option PublicKey
  | key publicKey => some publicKey
  | sameAsPrevious => none

end Unlock

/-- The hint of the outputs that a key can spend. -/
def hintOfKey (key : PublicKey) : UInt32 := hintOfHash (hashOfKey key)

/-- What an input with this key says about the next one. -/
def InputContext.ofKey (key : PublicKey) : InputContext :=
  ⟨hintOfKey key, groupOfHint (hintOfKey key)⟩

namespace TxInput

theorem returns_readUnlock_iff {previous : Option PublicKey} {unlock : Unlock} {hint : UInt32} :
    Returns (readUnlock (previous.map InputContext.ofKey)) cursor (unlock, hint) next ↔
      ∃ key, unlock.key?.or previous = some key ∧ hint = hintOfKey key ∧
        cursor.Passes unlock.toBytes next := by
  unfold readUnlock
  simp only [returns_bind_iff, returns_byte_iff]
  constructor
  · rintro ⟨tag, middle, hTag, h⟩
    split at h
    · simp only [returns_bind_iff, returns_fixed_iff, returns_pure_iff, Prod.mk.injEq] at h
      obtain ⟨key, _, hKey, ⟨rfl, rfl⟩, rfl⟩ := h
      exact ⟨key, rfl, rfl, passes_cons_iff.2 ⟨middle, hTag, hKey⟩⟩
    · split at h
      · next context hContext =>
          simp only [returns_pure_iff, Prod.mk.injEq] at h
          obtain ⟨⟨rfl, rfl⟩, rfl⟩ := h
          obtain ⟨key, rfl, rfl⟩ := Option.map_eq_some_iff.1 hContext
          exact ⟨key, rfl, rfl, hTag⟩
      · exact (not_returns_throw h).elim
    · exact (not_returns_throw h).elim
  · rintro ⟨key, hKey, rfl, hPasses⟩
    cases unlock with
    | key publicKey =>
        cases hKey
        obtain ⟨middle, hTag, hPublic⟩ := passes_cons_iff.1 hPasses
        refine ⟨0, middle, hTag, ?_⟩
        simp only [returns_bind_iff, returns_fixed_iff, returns_pure_iff]
        exact ⟨key, next, hPublic, rfl, rfl⟩
    | sameAsPrevious =>
        obtain rfl : previous = some key := hKey
        exact ⟨3, next, hPasses, returns_pure_iff.2 ⟨rfl, rfl⟩⟩

/-- An input is read from what is written for it, if its hint is the one of its key and its
group the one of the key before. -/
theorem returns_read_iff {previous : Option PublicKey} {input : TxInput}
    {context : InputContext} :
    Returns (read (previous.map InputContext.ofKey)) cursor (input, context) next ↔
      ∃ key, input.unlock.key?.or previous = some key ∧ input.hint = hintOfKey key ∧
        (∀ other ∈ previous, groupOfHint (hintOfKey other) = groupOfHint input.hint) ∧
        context = .ofKey key ∧ cursor.Passes input.toBytes next := by
  have hGroups (group : UInt8) :
      ¬ ((previous.map InputContext.ofKey).any (·.group ≠ group)) = true ↔
        ∀ other ∈ previous, groupOfHint (hintOfKey other) = group := by
    cases previous <;> simp [InputContext.ofKey]
  unfold read
  simp only [returns_bind_iff, returns_number_iff_bigEndian, returns_fixed_iff]
  constructor
  · rintro ⟨hint, _, ⟨hBound, hHint⟩, outputKey, _, hOutput, ⟨unlock, expected⟩, _, hUnlock, h⟩
    obtain ⟨key, hKey, rfl, hPasses⟩ := returns_readUnlock_iff.1 hUnlock
    simp only [returns_ite_iff, not_returns_throw, and_false, false_or, returns_pure_iff,
      Prod.mk.injEq, Decidable.not_not, hGroups] at h
    obtain ⟨hSame, hGroup, ⟨rfl, rfl⟩, rfl⟩ := h
    have hWritten : (UInt32.ofNat hint).toNat = hint := UInt32.toNat_ofNat_of_lt' hBound
    refine ⟨key, hKey, hSame, hGroup, by rw [hSame]; rfl, ?_⟩
    simp only [toBytes, hWritten, List.append_assoc, passes_append_iff]
    exact ⟨_, hHint, _, hOutput, hPasses⟩
  · rintro ⟨key, hKey, hSame, hGroup, rfl, hPasses⟩
    simp only [toBytes, List.append_assoc, passes_append_iff] at hPasses
    obtain ⟨_, hHint, _, hOutput, hPasses⟩ := hPasses
    refine ⟨input.hint.toNat, _, ⟨input.hint.toNat_lt, hHint⟩, input.outputKey, _, hOutput,
      (input.unlock, hintOfKey key), next, returns_readUnlock_iff.2 ⟨key, hKey, rfl, hPasses⟩, ?_⟩
    simp only [returns_ite_iff, not_returns_throw, and_false, false_or, returns_pure_iff,
      Prod.mk.injEq, Decidable.not_not, hGroups, UInt32.ofNat_toNat]
    exact ⟨hSame, hGroup, ⟨trivial, by rw [hSame]; rfl⟩, trivial⟩

/-- Inputs that may follow one with the key `previous`: each has the hint of its own key, and
all are of one group. -/
def Linked : Option PublicKey → List TxInput → Prop
  | _, [] => True
  | previous, input :: rest =>
      ∃ key, input.unlock.key?.or previous = some key ∧ input.hint = hintOfKey key ∧
        (∀ other ∈ previous, groupOfHint (hintOfKey other) = groupOfHint input.hint) ∧
        Linked (some key) rest

theorem returns_readMany_iff {previous : Option PublicKey} {count : Nat}
    {inputs : List TxInput} :
    Returns (readMany (previous.map InputContext.ofKey) count) cursor inputs next ↔
      inputs.length = count ∧ Linked previous inputs ∧
        cursor.Passes (inputs.flatMap toBytes) next := by
  induction count generalizing cursor next previous inputs with
  | zero =>
      simp only [readMany, returns_pure_iff, List.length_eq_zero_iff]
      constructor
      · rintro ⟨rfl, rfl⟩
        exact ⟨rfl, trivial, passes_nil_iff.2 rfl⟩
      · rintro ⟨rfl, -, hPasses⟩
        exact ⟨rfl, passes_nil_iff.1 hPasses⟩
  | succ count ih =>
      simp only [readMany, returns_bind_iff, returns_pure_iff]
      constructor
      · rintro ⟨⟨input, context⟩, middle, hInput, rest, last, hRest, rfl, rfl⟩
        obtain ⟨key, hKey, hHint, hGroup, rfl, hPass⟩ := returns_read_iff.1 hInput
        have hRest : Returns (readMany ((some key).map .ofKey) count) middle rest last := hRest
        obtain ⟨rfl, hLinked, hPasses⟩ := ih.1 hRest
        exact ⟨rfl, ⟨key, hKey, hHint, hGroup, hLinked⟩,
          passes_append_iff.2 ⟨middle, hPass, hPasses⟩⟩
      · rintro ⟨hLength, hLinked, hPasses⟩
        obtain ⟨input, rest, rfl⟩ := List.exists_cons_of_length_eq_add_one hLength
        obtain ⟨key, hKey, hHint, hGroup, hLinked⟩ := hLinked
        obtain ⟨middle, hPass, hPasses⟩ := passes_append_iff.1 hPasses
        have hRest : Returns (readMany ((some key).map .ofKey) count) middle rest next :=
          ih.2 ⟨by simpa using hLength, hLinked, hPasses⟩
        exact ⟨(input, .ofKey key), middle,
          returns_read_iff.2 ⟨key, hKey, hHint, hGroup, rfl, hPass⟩, rest, next, hRest, rfl, rfl⟩

theorem minSize_le_length_toBytes (input : TxInput) : minSize ≤ input.toBytes.length := by
  have hUnlock : 1 ≤ input.unlock.toBytes.length := by
    cases input.unlock <;> simp [Unlock.toBytes]
  simp [minSize, toBytes]
  omega

theorem returns_readAll_iff {inputs : List TxInput} :
    Returns readAll cursor inputs next ↔
      inputs.length < 2 ^ 31 ∧ (inputs ≠ [] ∧ Linked none inputs) ∧
        cursor.Passes (listBytes toBytes inputs) next := by
  apply returns_counted_iff (fun inputs => inputs ≠ [] ∧ Linked none inputs) toBytes
  · intro count cursor inputs next
    have hMany : Returns (readMany none count) cursor inputs next ↔
        inputs.length = count ∧ Linked none inputs ∧
          cursor.Passes (inputs.flatMap toBytes) next := by
      rw [← returns_readMany_iff, Option.map_none]
    simp only [returns_ite_iff, not_returns_throw, and_false, false_or, hMany]
    constructor
    · rintro ⟨hSome, rfl, hLinked, hPasses⟩
      exact ⟨rfl, ⟨fun hNil => hSome (by simp [hNil]), hLinked⟩, hPasses⟩
    · rintro ⟨rfl, ⟨hSome, hLinked⟩, hPasses⟩
      exact ⟨fun hZero => hSome (List.length_eq_zero_iff.1 hZero), rfl, hLinked, hPasses⟩
  · intro inputs _ input _
    exact input.minSize_le_length_toBytes

/-- The key of an input: the last one given up to there, or else the one before all. -/
def keyAt? (previous : Option PublicKey) (inputs : List TxInput) (index : Nat) :
    Option PublicKey :=
  ((inputs.take (index + 1)).reverse.findSome? (·.unlock.key?)).or previous

theorem keyAt?_cons_zero {previous : Option PublicKey} {input : TxInput} {rest : List TxInput} :
    keyAt? previous (input :: rest) 0 = input.unlock.key?.or previous := by
  simp [keyAt?]

theorem keyAt?_cons_succ {previous : Option PublicKey} {input : TxInput} {rest : List TxInput}
    {index : Nat} :
    keyAt? previous (input :: rest) (index + 1) =
      keyAt? (input.unlock.key?.or previous) rest index := by
  simp [keyAt?, List.findSome?_append, Option.or_assoc]

/-- What links inputs step by step, said of all of them at once. -/
theorem linked_iff {previous : Option PublicKey} {inputs : List TxInput} :
    Linked previous inputs ↔
      (∀ index input, inputs[index]? = some input →
        ∃ key, keyAt? previous inputs index = some key ∧ input.hint = hintOfKey key) ∧
      (∀ other ∈ previous, ∀ input ∈ inputs,
        groupOfHint (hintOfKey other) = groupOfHint input.hint) ∧
      ∀ first ∈ inputs, ∀ second ∈ inputs, groupOfHint first.hint = groupOfHint second.hint := by
  induction inputs generalizing previous with
  | nil => simp [Linked]
  | cons input rest ih =>
      constructor
      · intro hLinked
        obtain ⟨key, hKey, hHint, hGroup, hRest⟩ := hLinked
        obtain ⟨hHints, hFirst, hGroups⟩ := ih.1 hRest
        have hFirst : ∀ other ∈ rest, groupOfHint input.hint = groupOfHint other.hint := by
          rw [hHint]
          exact hFirst key rfl
        refine ⟨?_, ?_, ?_⟩
        · intro index other hOther
          cases index with
          | zero =>
              obtain rfl : input = other := by simpa using hOther
              exact ⟨key, keyAt?_cons_zero.trans hKey, hHint⟩
          | succ index =>
              rw [keyAt?_cons_succ, hKey]
              exact hHints index other (by simpa using hOther)
        · intro other hOther
          rw [List.forall_mem_cons]
          exact ⟨hGroup other hOther, fun last hLast =>
            (hGroup other hOther).trans (hFirst last hLast)⟩
        · rw [List.forall_mem_cons]
          refine ⟨List.forall_mem_cons.2 ⟨rfl, hFirst⟩, ?_⟩
          intro other hOther
          exact List.forall_mem_cons.2 ⟨(hFirst other hOther).symm, hGroups other hOther⟩
      · rintro ⟨hHints, hPrevious, hGroups⟩
        obtain ⟨key, hKey, hHint⟩ := hHints 0 input rfl
        rw [keyAt?_cons_zero] at hKey
        refine ⟨key, hKey, hHint, ?_, ih.2 ⟨?_, ?_, ?_⟩⟩
        · intro other hOther
          exact hPrevious other hOther input List.mem_cons_self
        · intro index other hOther
          have hAt := hHints (index + 1) other (by simpa using hOther)
          rwa [keyAt?_cons_succ, hKey] at hAt
        · intro last hLast other hOther
          obtain rfl := Option.mem_some.1 hLast
          rw [← hHint]
          exact hGroups input List.mem_cons_self other (List.mem_cons_of_mem input hOther)
        · intro first hFirst second hSecond
          exact hGroups first (List.mem_cons_of_mem input hFirst) second
            (List.mem_cons_of_mem input hSecond)

end TxInput

end ColdSigner
