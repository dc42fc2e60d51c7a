import ColdSigner.Account
import ColdSigner.Transaction
/-!
# The walk through a request

The user looks at a request one step after the other. A transaction is shown as the path of the
signing account, the inputs in runs that share a key, the outputs except the change, the total
of each token, the change, and a last step; a hash or an address is a single step. `rank` falls
with each step (`rank_lt_of_next?`), so the walk ends.
-/
namespace ColdSigner

inductive Subject where
  /-- A transaction, signed by its identifier. -/
  | transaction (tx : UnsignedTx)
  /-- A hash, signed as it stands. -/
  | hash
  /-- The address of an account, not signed at all. -/
  | address
  deriving DecidableEq

inductive Place where
  | path
  /-- The inputs from `first` up to `stop`, without the latter. -/
  | inputs (first stop : Nat)
  /-- An output other than the change. -/
  | output (index : Nat)
  /-- The total of a token, counted in the order of first appearance. -/
  | token (number : Nat)
  /-- The output that is the change. -/
  | change (index : Nat)
  | final
  | hash
  | address
  deriving DecidableEq, Repr

/-- A request with the identifier that is signed and the account that signs. -/
structure Review where
  subject : Subject
  id : TxId
  account : Account
  deriving DecidableEq

namespace UnsignedTx

variable (tx : UnsignedTx)

/-- The inputs behind `first` that have the same key as it, in a row. -/
def followers (first : Nat) : List Nat :=
  let key := tx.inputKey? first
  (List.range' (first + 1) (tx.inputs.length - (first + 1))).takeWhile
    fun index => tx.inputKey? index = key

/-- The first output that is not the change, from `start` on. -/
def nextRecipient? (change : Option Nat) (start : Nat) : Option Nat :=
  (List.range' start (tx.outputs.length - start)).find? fun index => some index ≠ change

/-- The outputs without the change. -/
def recipients (change : Option Nat) : List TxOutput :=
  (tx.outputs.zipIdx.filter fun entry => some entry.2 ≠ change).map (·.1)

def sentTokens (change : Option Nat) : List Token :=
  (tx.recipients change).flatMap (·.tokens)

/-- The identifiers of these tokens, each once, in the order of first appearance. -/
def tokenIds (change : Option Nat) : List (FixedBytes 32) :=
  ((tx.sentTokens change).map (·.id)).eraseDups

/-- The total of a token over all outputs without the change, if it fits. -/
def tokenTotal? (change : Option Nat) (id : FixedBytes 32) : Option Uint256 :=
  ((tx.sentTokens change).filter (·.id = id)).foldlM
    (fun total token => total.add? token.amount) .zero

/-- The place behind all tokens. -/
def placeAfterTokens (change : Option Nat) : Place :=
  match change with
  | some index => .change index
  | none => .final

/-- The place of a token, or the one behind all tokens. -/
def placeOfToken (change : Option Nat) (number : Nat) : Place :=
  if number < (tx.tokenIds change).length then .token number else placeAfterTokens change

/-- The place of the next output other than the change, or the one behind all outputs. -/
def placeOfOutput (change : Option Nat) (start : Nat) : Place :=
  match tx.nextRecipient? change start with
  | some index => .output index
  | none => tx.placeOfToken change 0

/-- The place of the run of inputs that begins here, or the one behind all inputs. -/
def placeOfInputs (change : Option Nat) (first : Nat) : Place :=
  if first < tx.inputs.length then .inputs first (first + 1 + (tx.followers first).length)
  else tx.placeOfOutput change 0

end UnsignedTx

namespace Review

variable (review : Review)

/-- The place of the change in a transaction. -/
def change? (tx : UnsignedTx) : Option Nat :=
  tx.changeIndex? review.account.publicKey

def first : Place :=
  match review.subject with
  | .transaction _ => .path
  | .hash => .hash
  | .address => .address

/-- The place behind another one; none behind the last. -/
def next? (place : Place) : Option Place :=
  match review.subject with
  | .transaction tx =>
      match place with
      | .path => some (tx.placeOfInputs (review.change? tx) 0)
      | .inputs _ stop => some (tx.placeOfInputs (review.change? tx) stop)
      | .output index => some (tx.placeOfOutput (review.change? tx) (index + 1))
      | .token number => some (tx.placeOfToken (review.change? tx) (number + 1))
      | .change _ => some .final
      | .final | .hash | .address => none
  | _ => none

/-- A bound on the number of places behind this one. -/
def rank (place : Place) : Nat :=
  match review.subject with
  | .transaction tx =>
      let tokens := (tx.tokenIds (review.change? tx)).length
      match place with
      | .path => tx.inputs.length + tx.outputs.length + tokens + 5
      | .inputs _ stop => (tx.inputs.length - stop) + tx.outputs.length + tokens + 4
      | .output index => (tx.outputs.length - index) + tokens + 3
      | .token number => (tokens - number) + 2
      | .change _ => 1
      | .final | .hash | .address => 0
  | _ => 0

theorem rank_placeAfterTokens_le (tx : UnsignedTx) (change : Option Nat)
    (h : review.subject = .transaction tx) :
    review.rank (UnsignedTx.placeAfterTokens change) ≤ 1 := by
  unfold UnsignedTx.placeAfterTokens rank
  rw [h]
  cases change <;> simp

theorem rank_placeOfToken_le (tx : UnsignedTx) (number : Nat)
    (h : review.subject = .transaction tx) :
    review.rank (tx.placeOfToken (review.change? tx) number) ≤
      ((tx.tokenIds (review.change? tx)).length - number) + 2 := by
  unfold UnsignedTx.placeOfToken
  split
  · simp [rank, h]
  · have := review.rank_placeAfterTokens_le tx (review.change? tx) h
    omega

theorem lt_of_nextRecipient? {tx : UnsignedTx} {change : Option Nat} {start index : Nat}
    (h : tx.nextRecipient? change start = some index) :
    start ≤ index ∧ index < tx.outputs.length := by
  have := List.mem_of_find?_eq_some h
  rw [List.mem_range'_1] at this
  omega

theorem rank_placeOfOutput_le (tx : UnsignedTx) (start : Nat)
    (h : review.subject = .transaction tx) :
    review.rank (tx.placeOfOutput (review.change? tx) start) ≤
      (tx.outputs.length - start) + (tx.tokenIds (review.change? tx)).length + 3 := by
  unfold UnsignedTx.placeOfOutput
  split
  · next index hFound =>
      have := lt_of_nextRecipient? hFound
      simp only [rank, h]
      omega
  · have := review.rank_placeOfToken_le tx 0 h
    omega

theorem rank_placeOfInputs_lt (tx : UnsignedTx) (start : Nat)
    (h : review.subject = .transaction tx) :
    review.rank (tx.placeOfInputs (review.change? tx) start) <
      (tx.inputs.length - start) + tx.outputs.length +
        (tx.tokenIds (review.change? tx)).length + 4 := by
  unfold UnsignedTx.placeOfInputs
  split
  · simp only [rank, h]
    omega
  · have := review.rank_placeOfOutput_le tx 0 h
    omega

/-- Each step leads closer to the end. -/
theorem rank_lt_of_next? {place following : Place} (h : review.next? place = some following) :
    review.rank following < review.rank place := by
  unfold next? at h
  split at h
  · next tx hSubject =>
      split at h
      · cases h
        have := review.rank_placeOfInputs_lt tx 0 hSubject
        simp only [rank, hSubject] at this ⊢
        omega
      · cases h
        have := review.rank_placeOfInputs_lt tx ‹_› hSubject
        simpa only [rank, hSubject] using this
      · next index =>
          cases h
          have hLe := review.rank_placeOfOutput_le tx (index + 1) hSubject
          by_cases hIndex : index < tx.outputs.length
          · have : review.rank (.output index) = (tx.outputs.length - index) +
                (tx.tokenIds (review.change? tx)).length + 3 := by simp [rank, hSubject]
            omega
          · have hNone : tx.nextRecipient? (review.change? tx) (index + 1) = none := by
              unfold UnsignedTx.nextRecipient?
              rw [Nat.sub_eq_zero_of_le (by omega)]
              rfl
            have hToken := review.rank_placeOfToken_le tx 0 hSubject
            have : review.rank (.output index) = (tx.outputs.length - index) +
                (tx.tokenIds (review.change? tx)).length + 3 := by simp [rank, hSubject]
            simp only [UnsignedTx.placeOfOutput, hNone]
            omega
      · next number =>
          cases h
          unfold UnsignedTx.placeOfToken
          have hRank : review.rank (.token number) =
              ((tx.tokenIds (review.change? tx)).length - number) + 2 := by
            simp [rank, hSubject]
          split
          · have : review.rank (.token (number + 1)) =
                ((tx.tokenIds (review.change? tx)).length - (number + 1)) + 2 := by
              simp [rank, hSubject]
            omega
          · have := review.rank_placeAfterTokens_le tx (review.change? tx) hSubject
            omega
      · cases h
        simp [rank, hSubject]
      all_goals simp at h
  · simp at h

/-- The places from one on to the end. -/
def placesFrom (place : Place) : List Place :=
  match _h : review.next? place with
  | some following => place :: placesFrom following
  | none => [place]
  termination_by review.rank place
  decreasing_by exact review.rank_lt_of_next? _h

/-- All places of the review in order. -/
def places : List Place := review.placesFrom review.first

def stepCount : Nat := review.places.length

theorem placesFrom_of_next? {place following : Place} (h : review.next? place = some following) :
    review.placesFrom place = place :: review.placesFrom following := by
  rw [placesFrom]
  split
  · next other hOther =>
      rw [h] at hOther
      cases hOther
      rfl
  · next hNone => rw [h] at hNone; simp at hNone

theorem placesFrom_of_last {place : Place} (h : review.next? place = none) :
    review.placesFrom place = [place] := by
  rw [placesFrom]
  split
  · next hSome => rw [h] at hSome; simp at hSome
  · rfl

end Review

end ColdSigner
