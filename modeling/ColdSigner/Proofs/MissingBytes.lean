import ColdSigner.Proofs.CanonicalTransactions
/-!
# Transactions say where they end

A read that succeeds on some bytes does the same on the start of them, or else it comes to the end
and says that bytes are missing (`Reader.NoticesEnd`). This holds of the single reads and is kept by
putting them in a row, so it holds of the transaction as a whole. No part of an accepted transaction
and nothing longer is therefore accepted (`UnsignedTx.decode_delimited`).
-/
namespace ColdSigner

namespace Reader

variable {α β : Type}

/-- On the start of what it succeeds on, the read has the same result or finds that bytes are
missing. -/
def NoticesEnd (read : Reader α) : Prop :=
  ∀ ⦃position : Nat⦄ ⦃rest more : Bytes⦄ ⦃value : α⦄ ⦃next : Cursor⦄,
    Returns read ⟨position, rest ++ more⟩ value next →
      Refuses read ⟨position, rest⟩ .truncated ∨
        ∃ last, next.rest = last ++ more ∧
          Returns read ⟨position, rest⟩ value ⟨next.position, last⟩

theorem noticesEnd_pure (value : α) : NoticesEnd (pure value) := by
  intro position rest more result next h
  obtain ⟨rfl, rfl⟩ := returns_pure_iff.1 h
  exact .inr ⟨rest, rfl, returns_pure_iff.2 ⟨rfl, rfl⟩⟩

theorem noticesEnd_throw (error : TxError) : NoticesEnd (throw error : Reader α) := by
  intro position rest more value next h
  exact (not_returns_throw h).elim

/-- Reads in a row notice the end if each of them does. -/
theorem NoticesEnd.bind {read : Reader α} {follow : α → Reader β} (hRead : NoticesEnd read)
    (hFollow : ∀ value, NoticesEnd (follow value)) : NoticesEnd (read >>= follow) := by
  intro position rest more result next h
  obtain ⟨value, ⟨middlePosition, middleRest⟩, hFirst, hSecond⟩ := returns_bind_iff.1 h
  rcases hRead hFirst with hMissing | ⟨middle, rfl, hFirst⟩
  · exact .inl (refuses_bind_iff.2 (.inl hMissing))
  · rcases hFollow value hSecond with hMissing | ⟨last, hLast, hSecond⟩
    · exact .inl (refuses_bind_iff.2 (.inr ⟨value, _, hFirst, hMissing⟩))
    · exact .inr ⟨last, hLast, returns_bind_iff.2 ⟨value, _, hFirst, hSecond⟩⟩

theorem NoticesEnd.ite {p : Prop} [Decidable p] {read other : Reader α} (hRead : NoticesEnd read)
    (hOther : NoticesEnd other) : NoticesEnd (if p then read else other) := by
  split
  · exact hRead
  · exact hOther

/-- A check in front of a read. -/
theorem NoticesEnd.guard {p : Prop} [Decidable p] {error : TxError} {other : PUnit → Reader α}
    {read : Reader α} (hRead : NoticesEnd read) :
    NoticesEnd (if p then throw error >>= other else read) := by
  refine NoticesEnd.ite ?_ hRead
  intro position rest more value next h
  obtain ⟨_, _, hThrow, -⟩ := returns_bind_iff.1 h
  exact (not_returns_throw hThrow).elim

/-- Where a read looks at how much remains, there is less of it. -/
theorem noticesEnd_remaining {count : Nat} (value : α) :
    NoticesEnd (do
      let cursor ← get
      if cursor.remaining < count then throw .truncated else return value) := by
  intro position rest more result next h
  rw [returns_get_bind_iff, returns_ite_iff] at h
  rcases h with ⟨-, hThrow⟩ | ⟨-, hPure⟩
  · exact (not_returns_throw hThrow).elim
  · obtain ⟨rfl, rfl⟩ := returns_pure_iff.1 hPure
    by_cases hFew : rest.length < count
    · refine .inl ?_
      rw [refuses_get_bind_iff, refuses_ite_iff]
      exact .inl ⟨hFew, refuses_throw_iff.2 rfl⟩
    · refine .inr ⟨rest, rfl, ?_⟩
      rw [returns_get_bind_iff, returns_ite_iff]
      exact .inr ⟨hFew, returns_pure_iff.2 ⟨rfl, rfl⟩⟩

theorem noticesEnd_byte : NoticesEnd byte := by
  intro position rest more value next h
  obtain ⟨hRest, hPosition⟩ := returns_byte_iff.1 h
  cases rest with
  | nil => exact .inl rfl
  | cons first rest =>
      obtain ⟨rfl, hMore⟩ := List.cons.inj hRest
      exact .inr ⟨rest, hMore.symm, returns_byte_iff.2 ⟨rfl, hPosition⟩⟩

theorem noticesEnd_bytes (count : Nat) : NoticesEnd (bytes count) := by
  intro position rest more value next h
  obtain ⟨rfl, hRest, hPosition⟩ := returns_bytes_iff.1 h
  change rest ++ more = value ++ next.rest at hRest
  by_cases hFew : rest.length < value.length
  · refine .inl ?_
    unfold bytes
    rw [refuses_get_bind_iff, refuses_ite_iff]
    exact .inl ⟨hFew, refuses_throw_iff.2 rfl⟩
  · rcases List.append_eq_append_iff.1 hRest with ⟨missing, hValue, -⟩ | ⟨last, hLast, hNext⟩
    · have hNone : missing = [] := by
        rw [hValue, List.length_append] at hFew
        exact List.length_eq_zero_iff.1 (by omega)
      subst hNone
      rw [List.append_nil] at hValue
      subst hValue
      exact .inr ⟨[], (List.append_cancel_left hRest).symm,
        returns_bytes_iff.2 ⟨rfl, (List.append_nil _).symm, hPosition⟩⟩
    · exact .inr ⟨last, hNext, returns_bytes_iff.2 ⟨rfl, hLast, hPosition⟩⟩

theorem noticesEnd_fixed (size : Nat) : NoticesEnd (fixed size) := by
  refine (noticesEnd_bytes size).bind fun found => ?_
  split
  · exact noticesEnd_pure _
  · exact noticesEnd_throw _

theorem noticesEnd_number (width : Nat) : NoticesEnd (number width) :=
  (noticesEnd_bytes width).bind fun _ => noticesEnd_pure _

theorem noticesEnd_shortest (length : α → Nat) (used : Nat) (value : α) :
    NoticesEnd (shortest length used value) :=
  .ite (noticesEnd_pure _) (noticesEnd_throw _)

theorem noticesEnd_int : NoticesEnd int := by
  refine noticesEnd_byte.bind fun first => ?_
  split
  · exact noticesEnd_shortest _ _ _
  · exact noticesEnd_byte.bind fun _ => noticesEnd_shortest _ _ _
  · exact (noticesEnd_number 3).bind fun _ => noticesEnd_shortest _ _ _
  · exact .ite (noticesEnd_throw _)
      ((noticesEnd_number 4).bind fun _ => noticesEnd_shortest _ _ _)

/-- The end of each form of an amount. -/
theorem noticesEnd_ofNat? (used number : Nat) :
    NoticesEnd (match Uint256.ofNat? number with
      | some value => shortest Compact.lengthOfAmount used value
      | none => throw .overflow) := by
  split
  · exact noticesEnd_shortest _ _ _
  · exact noticesEnd_throw _

theorem noticesEnd_amount : NoticesEnd amount := by
  refine noticesEnd_byte.bind fun first => ?_
  split
  · exact noticesEnd_ofNat? _ _
  · exact noticesEnd_byte.bind fun _ => noticesEnd_ofNat? _ _
  · exact (noticesEnd_number 3).bind fun _ => noticesEnd_ofNat? _ _
  · exact .ite (noticesEnd_throw _)
      ((noticesEnd_number _).bind fun _ => noticesEnd_ofNat? _ _)

theorem noticesEnd_length (elementSize : Nat) : NoticesEnd (length elementSize) :=
  noticesEnd_int.bind fun _ => .ite (noticesEnd_throw _) (noticesEnd_remaining _)

theorem noticesEnd_repeated {read : Reader α} (hRead : NoticesEnd read) (count : Nat) :
    NoticesEnd (repeated read count) := by
  induction count with
  | zero => exact noticesEnd_pure _
  | succ count ih => exact hRead.bind fun _ => ih.bind fun _ => noticesEnd_pure _

/-- Cut off anywhere, an input that is read as a whole lacks bytes. -/
theorem NoticesEnd.readAll_take {read : Reader α} (hRead : NoticesEnd read) {input : Bytes}
    {value : α} (hAll : readAll read input = .ok value) {count : Nat}
    (hCount : count < input.length) : readAll read (input.take count) = .error .truncated := by
  obtain ⟨position, hReturns⟩ := readAll_eq_ok_iff.1 hAll
  rw [Cursor.start, ← List.take_append_drop count input] at hReturns
  rcases hRead hReturns with hMissing | ⟨last, hLast, -⟩
  · exact readAll_eq_error_of_refuses hMissing
  · have hNone : input.drop count = [] := (List.append_eq_nil_iff.1 hLast.symm).2
    exact absurd (List.drop_eq_nil_iff.1 hNone) (Nat.not_le.2 hCount)

end Reader

open Reader

theorem Lockup.noticesEnd_read : NoticesEnd Lockup.read := by
  refine noticesEnd_byte.bind fun tag => ?_
  split
  · exact (noticesEnd_fixed 32).bind fun _ => noticesEnd_pure _
  · refine (noticesEnd_length 32).bind fun count => .ite (noticesEnd_throw _) ?_
    refine (noticesEnd_repeated (noticesEnd_fixed 32) count).bind fun hashes => ?_
    exact noticesEnd_int.bind fun _ => .ite (noticesEnd_throw _) (noticesEnd_pure _)
  · exact (noticesEnd_fixed 32).bind fun _ => noticesEnd_pure _
  · exact noticesEnd_throw _

theorem Token.noticesEnd_readMany (seen : List (FixedBytes 32)) (count : Nat) :
    NoticesEnd (Token.readMany seen count) := by
  induction count generalizing seen with
  | zero => exact noticesEnd_pure _
  | succ count ih =>
      refine (noticesEnd_fixed 32).bind fun id => noticesEnd_amount.bind fun amount => ?_
      exact .ite (noticesEnd_throw _) ((ih _).bind fun _ => noticesEnd_pure _)

theorem TxOutput.noticesEnd_read : NoticesEnd TxOutput.read := by
  refine noticesEnd_amount.bind fun amount => Lockup.noticesEnd_read.bind fun lockup => ?_
  refine (noticesEnd_number 8).bind fun time => (noticesEnd_length _).bind fun count => ?_
  refine (Token.noticesEnd_readMany [] count).bind fun tokens => ?_
  exact (noticesEnd_length 1).bind fun size => (noticesEnd_bytes size).bind fun _ =>
    noticesEnd_pure _

namespace TxInput

theorem noticesEnd_readUnlock (previous : Option InputContext) :
    NoticesEnd (readUnlock previous) := by
  refine noticesEnd_byte.bind fun tag => ?_
  split
  · exact (noticesEnd_fixed 33).bind fun _ => noticesEnd_pure _
  · split
    · exact noticesEnd_pure _
    · exact noticesEnd_throw _
  · exact noticesEnd_throw _

theorem noticesEnd_read (previous : Option InputContext) : NoticesEnd (read previous) := by
  refine (noticesEnd_number 4).bind fun hint => (noticesEnd_fixed 32).bind fun outputKey => ?_
  refine (noticesEnd_readUnlock previous).bind fun unlock => ?_
  exact .ite (noticesEnd_throw _) (.ite (noticesEnd_throw _) (noticesEnd_pure _))

theorem noticesEnd_readMany (previous : Option InputContext) (count : Nat) :
    NoticesEnd (readMany previous count) := by
  induction count generalizing previous with
  | zero => exact noticesEnd_pure _
  | succ count ih =>
      exact (noticesEnd_read previous).bind fun _ => (ih _).bind fun _ => noticesEnd_pure _

theorem noticesEnd_readAll : NoticesEnd TxInput.readAll :=
  (noticesEnd_length _).bind fun count => .ite (noticesEnd_throw _) (noticesEnd_readMany none count)

end TxInput

namespace UnsignedTx

theorem noticesEnd_read : NoticesEnd UnsignedTx.read := by
  refine noticesEnd_byte.bind fun version => .guard ?_
  refine noticesEnd_byte.bind fun code => ?_
  split
  · refine noticesEnd_byte.bind fun script => .guard ?_
    refine noticesEnd_int.bind fun gasAmount => .guard ?_
    refine noticesEnd_amount.bind fun gasPrice => TxInput.noticesEnd_readAll.bind fun inputs => ?_
    refine (noticesEnd_length _).bind fun count => ?_
    exact (noticesEnd_repeated TxOutput.noticesEnd_read count).bind fun _ => noticesEnd_pure _
  · exact noticesEnd_throw _

/-- What is accepted says where it ends: every part of it from the start lacks bytes, and
everything longer has bytes too many. -/
theorem decode_delimited {bytes : Bytes} {tx : UnsignedTx} {id : TxId}
    (hDecode : decode bytes = .ok (tx, id)) :
    (∀ count, count < bytes.length → decode (bytes.take count) = .error .truncated) ∧
      ∀ more, more ≠ [] → decode (bytes ++ more) = .error .trailingBytes := by
  obtain ⟨hLegal, rfl, -⟩ := decode_eq_ok_iff.1 hDecode
  have hAll : readAll read tx.toBytes = .ok tx :=
    (readAll_eq_ok_iff_of_returns returns_read_iff).2 ⟨hLegal, rfl⟩
  constructor
  · intro count hCount
    rw [decode, noticesEnd_read.readAll_take hAll hCount]
    rfl
  · intro more hMore
    have hReturns : Returns read (.start (tx.toBytes ++ more)) tx ⟨tx.toBytes.length, more⟩ :=
      returns_read_iff.2 ⟨hLegal, rfl, (Nat.zero_add _).symm⟩
    rw [decode, readAll_eq_error_of_rest hReturns hMore]
    rfl

/-- The payment without its last byte, and with a byte behind it. -/
theorem decode_delimited_payment :
    decode payment.toBytes = .ok (payment, payment.id) ∧
      decode (payment.toBytes.take (payment.toBytes.length - 1)) = .error .truncated ∧
      decode (payment.toBytes ++ [0]) = .error .trailingBytes := by
  have hLength : payment.toBytes.length < 2 ^ 31 ∧ 0 < payment.toBytes.length := by
    decide +kernel
  have hDecode : decode payment.toBytes = .ok (payment, payment.id) :=
    decode_eq_ok_iff.2 ⟨⟨payment_valid, payment_valid.isCounted hLength.1⟩, rfl, rfl⟩
  obtain ⟨hPart, hLonger⟩ := decode_delimited hDecode
  exact ⟨hDecode, hPart _ (by omega), hLonger [0] (by decide)⟩

end UnsignedTx

end ColdSigner
