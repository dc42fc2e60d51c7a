import ColdSigner.Proofs.CanonicalTransactions
import ColdSigner.Review.Walk
/-!
# The order of a review

The places of a review are numbered from zero. The next place has the next number
(`Review.getElem?_places_succ`), and a request that fits into a message has few enough places for
a number of 16 bits (`Review.stepCount_le_of_decode`).
-/
namespace ColdSigner

theorem length_eraseDups_le {α : Type} [DecidableEq α] (values : List α) :
    values.eraseDups.length ≤ values.length := by
  induction hLength : values.length using Nat.strongRecOn generalizing values with
  | ind count ih =>
      cases values with
      | nil => simp
      | cons first rest =>
          have hFewer := List.length_filter_le (fun value => !value == first) rest
          rw [List.length_cons] at hLength
          have hRest := ih _ (by omega) (rest.filter fun value => !value == first) rfl
          rw [List.eraseDups_cons, List.length_cons]
          omega

theorem TxOutput.length_add_length_tokens_le (outputs : List TxOutput) :
    outputs.length + (outputs.flatMap (·.tokens)).length ≤
      (outputs.flatMap TxOutput.toBytes).length := by
  induction outputs with
  | nil => simp
  | cons output rest ih =>
      have hAmount := Compact.one_le_length_ofAmount output.amount
      have hTokens : output.tokens.length * Token.minSize ≤
          (output.tokens.flatMap Token.toBytes).length :=
        length_mul_le_length_flatMap fun token _ => token.minSize_le_length_toBytes
      simp only [List.length_cons, List.flatMap_cons, List.length_append, TxOutput.toBytes,
        listBytes, Token.minSize] at hTokens ⊢
      omega

theorem length_flatMap_le_of_sublist {α β : Type} {fewer values : List α}
    (hFewer : fewer.Sublist values) (f : α → List β) :
    (fewer.flatMap f).length ≤ (values.flatMap f).length := by
  induction hFewer with
  | slnil => exact Nat.le_refl _
  | cons value hFewer ih =>
      rw [List.flatMap_cons, List.length_append]
      omega
  | cons_cons value hFewer ih =>
      rw [List.flatMap_cons, List.flatMap_cons, List.length_append, List.length_append]
      omega

namespace Review

variable {review : Review}

theorem getElem?_placesFrom_zero (place : Place) : (review.placesFrom place)[0]? = some place := by
  rw [placesFrom]
  split <;> rfl

/-- The number behind a place is the one of the next place. -/
theorem getElem?_placesFrom_succ {start place : Place} {index : Nat}
    (hPlace : (review.placesFrom start)[index]? = some place) :
    (review.placesFrom start)[index + 1]? = review.next? place := by
  induction start using placesFrom.induct review generalizing index with
  | case1 start following hNext ih =>
      rw [placesFrom_of_next? review hNext] at hPlace ⊢
      cases index with
      | zero =>
          obtain rfl : start = place := by simpa using hPlace
          rw [List.getElem?_cons_succ, getElem?_placesFrom_zero, hNext]
      | succ index => exact ih hPlace
  | case2 start hLast =>
      rw [placesFrom_of_last review hLast] at hPlace ⊢
      obtain ⟨rfl, rfl⟩ : index = 0 ∧ start = place := by
        simpa [List.getElem?_singleton, eq_comm] using hPlace
      exact hLast.symm

theorem getElem?_places_zero : review.places[0]? = some review.first :=
  getElem?_placesFrom_zero review.first

theorem getElem?_places_succ {place : Place} {index : Nat}
    (hPlace : review.places[index]? = some place) :
    review.places[index + 1]? = review.next? place :=
  getElem?_placesFrom_succ hPlace

theorem length_placesFrom_le (place : Place) :
    (review.placesFrom place).length ≤ review.rank place + 1 := by
  induction place using placesFrom.induct review with
  | case1 place following hNext ih =>
      have hRank := review.rank_lt_of_next? hNext
      rw [placesFrom_of_next? review hNext, List.length_cons]
      omega
  | case2 place hLast =>
      rw [placesFrom_of_last review hLast, List.length_singleton]
      omega

theorem stepCount_eq_one (hSubject : ∀ tx, review.subject ≠ .transaction tx) :
    review.stepCount = 1 := by
  have hLast : review.next? review.first = none := by
    unfold next?
    split
    · next tx hTx => exact absurd hTx (hSubject tx)
    · rfl
  rw [stepCount, places, placesFrom_of_last review hLast, List.length_singleton]

/-- The tokens that are shown are among those of the outputs. -/
theorem length_tokenIds_le (tx : UnsignedTx) (change : Option Nat) :
    (tx.tokenIds change).length ≤ (tx.outputs.flatMap (·.tokens)).length := by
  have hRecipients : (tx.recipients change).Sublist tx.outputs := by
    have hKept := (List.filter_sublist (p := fun entry : TxOutput × Nat =>
      decide (some entry.2 ≠ change)) (l := tx.outputs.zipIdx)).map (·.1)
    simpa [UnsignedTx.recipients] using hKept
  calc (tx.tokenIds change).length
      ≤ ((tx.sentTokens change).map (·.id)).length := length_eraseDups_le _
    _ = (tx.sentTokens change).length := List.length_map _
    _ ≤ (tx.outputs.flatMap (·.tokens)).length :=
        length_flatMap_le_of_sublist hRecipients _

theorem stepCount_le {tx : UnsignedTx} (hSubject : review.subject = .transaction tx) :
    review.stepCount ≤
      tx.inputs.length + tx.outputs.length + (tx.outputs.flatMap (·.tokens)).length + 6 := by
  have hRank := review.length_placesFrom_le review.first
  have hTokens := length_tokenIds_le tx (review.change? tx)
  have hFirst : review.rank review.first =
      tx.inputs.length + tx.outputs.length + (tx.tokenIds (review.change? tx)).length + 5 := by
    simp [rank, first, hSubject]
  rw [hFirst] at hRank
  rw [stepCount, places]
  omega

/-- What is shown of a transaction was written, and each part of it in some bytes. -/
theorem stepCount_le_of_decode {tx : UnsignedTx} {bytes : Bytes} {id : TxId}
    (hSubject : review.subject = .transaction tx)
    (hDecode : UnsignedTx.decode bytes = .ok (tx, id)) :
    review.stepCount ≤ bytes.length + 6 := by
  obtain ⟨⟨hValid, -⟩, rfl, -⟩ := UnsignedTx.decode_eq_ok_iff.1 hDecode
  have hSteps := stepCount_le hSubject
  have hInputs : tx.inputs.length * TxInput.minSize ≤
      (tx.inputs.flatMap TxInput.toBytes).length :=
    length_mul_le_length_flatMap fun input _ => input.minSize_le_length_toBytes
  have hOutputs := TxOutput.length_add_length_tokens_le tx.outputs
  simp only [UnsignedTx.toBytes, listBytes, List.length_append, TxInput.minSize] at hInputs ⊢
  omega

end Review

end ColdSigner
