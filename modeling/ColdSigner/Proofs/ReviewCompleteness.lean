import ColdSigner.Proofs.ReviewOrder
import ColdSigner.Review.Reviewer
/-!
# A review shows everything once

The places of the review of a transaction are its path, its inputs in runs of one key, its
outputs without the change, the tokens in these, the change and a last place, in this order and
with nothing left out (`Review.walk_complete`). The user has to accept each of them, and a
refusal at any of them is final. Nothing is assumed of the transaction.
-/
namespace ColdSigner

/-- The numbers from `first` up to `count` in runs. The values of `f` at the numbers of a run are
the same, and the value behind it is another one. A run is given by its first number and the one
behind its last. -/
inductive Runs {α : Type} (f : Nat → α) (count : Nat) : Nat → List (Nat × Nat) → Prop where
  | none : Runs f count count []
  | run {first stop : Nat} {rest : List (Nat × Nat)} (hSome : first < stop) (hIn : stop ≤ count)
      (hSame : ∀ number, first ≤ number → number < stop → f number = f first)
      (hEnd : stop < count → f stop ≠ f first) (hRest : Runs f count stop rest) :
      Runs f count first ((first, stop) :: rest)

/-- Of numbers in a row, those in front that satisfy `p` are the ones up to the first that
does not. -/
theorem takeWhile_range' (p : Nat → Bool) (start count : Nat) :
    ∃ taken, ((List.range' start count).takeWhile p).length = taken ∧ taken ≤ count ∧
      (∀ number, start ≤ number → number < start + taken → p number = true) ∧
      (taken < count → p (start + taken) = false) := by
  induction count generalizing start with
  | zero =>
      refine ⟨0, rfl, Nat.le_refl 0, ?_, fun h => absurd h (Nat.lt_irrefl 0)⟩
      intro number hStart hStop
      omega
  | succ count ih =>
      cases hFirst : p start with
      | false =>
          refine ⟨0, by simp [List.range'_succ, hFirst], Nat.zero_le _, ?_, fun _ => hFirst⟩
          intro number hStart hStop
          omega
      | true =>
          obtain ⟨taken, hLength, hLe, hAll, hNext⟩ := ih (start + 1)
          refine ⟨taken + 1, by simp [List.range'_succ, hFirst, hLength], by omega, ?_, ?_⟩
          · intro number hStart hStop
            by_cases hNumber : number = start
            · rw [hNumber, hFirst]
            · exact hAll number (by omega) (by omega)
          · intro hMore
            rw [show start + (taken + 1) = start + 1 + taken by omega]
            exact hNext (by omega)

/-- The first of some numbers in a row that satisfies `p`, and the others behind it. -/
theorem filter_range'_eq (p : Nat → Bool) (start count : Nat) :
    (List.range' start count).filter p =
      match (List.range' start count).find? p with
      | some number => number ::
          (List.range' (number + 1) (start + count - (number + 1))).filter p
      | none => [] := by
  induction count generalizing start with
  | zero => rfl
  | succ count ih =>
      rw [List.range'_succ]
      cases hFirst : p start with
      | false =>
          rw [List.filter_cons_of_neg (by simp [hFirst]), List.find?_cons_of_neg (by simp [hFirst]),
            ih (start + 1), show start + 1 + count = start + (count + 1) by omega]
      | true =>
          rw [List.filter_cons_of_pos hFirst, List.find?_cons_of_pos hFirst]
          simp only [show start + (count + 1) - (start + 1) = count by omega]

theorem nodup_eraseDups {α : Type} [DecidableEq α] (values : List α) : values.eraseDups.Nodup := by
  induction hLength : values.length using Nat.strongRecOn generalizing values with
  | ind count ih =>
      cases values with
      | nil => simp
      | cons first rest =>
          have hFewer := List.length_filter_le (fun value => !value == first) rest
          rw [List.length_cons] at hLength
          rw [List.eraseDups_cons, List.nodup_cons]
          refine ⟨?_, ih _ (by omega) _ rfl⟩
          intro hFirst
          simp [List.mem_eraseDups] at hFirst

namespace UnsignedTx

variable (tx : UnsignedTx)

/-- The last of several outputs, locked by the key of the signer. -/
structure IsChange (signer : PublicKey) (index : Nat) : Prop where
  several : 2 ≤ tx.outputs.length
  last : index + 1 = tx.outputs.length
  lockup_eq : tx.outputs[index]?.map (·.lockup) = some (.key (hashOfKey signer))

/-- The places of the outputs that are not the change, in order. -/
def recipientIndices (change : Option Nat) : List Nat :=
  (List.range tx.outputs.length).filter fun index => some index ≠ change

/-- An output with this token is not the change. -/
def SendsToken (change : Option Nat) (token : FixedBytes 32) : Prop :=
  ∃ index output, tx.outputs[index]? = some output ∧ some index ≠ change ∧
    token ∈ output.tokens.map (·.id)

variable {tx}

theorem changeIndex?_eq_some_iff {signer : PublicKey} {index : Nat} :
    tx.changeIndex? signer = some index ↔ tx.IsChange signer index := by
  unfold changeIndex?
  constructor
  · intro hChange
    split at hChange
    · cases hChange
    · next hSeveral =>
        split at hChange
        · next output hOutput =>
            split at hChange
            · next hLockup =>
                cases hChange
                refine ⟨by omega, by omega, ?_⟩
                rw [← List.getLast?_eq_getElem?, hOutput, Option.map_some, hLockup]
                rfl
            · cases hChange
        · cases hChange
  · rintro ⟨hSeveral, hLast, hLockup⟩
    obtain ⟨output, hOutput, hKey⟩ := Option.map_eq_some_iff.1 hLockup
    have hEnd : tx.outputs.getLast? = some output := by
      rw [List.getLast?_eq_getElem?, show tx.outputs.length - 1 = index by omega, hOutput]
    rw [if_neg (by omega), hEnd]
    have hOwn : output.lockup = .ofKey signer := hKey
    simp only [if_pos hOwn, show tx.outputs.length - 1 = index by omega]

theorem mem_recipients_iff {change : Option Nat} {output : TxOutput} :
    output ∈ tx.recipients change ↔
      ∃ index, tx.outputs[index]? = some output ∧ some index ≠ change := by
  simp [recipients, List.mem_zipIdx_iff_getElem?]

theorem mem_tokenIds_iff {change : Option Nat} {token : FixedBytes 32} :
    token ∈ tx.tokenIds change ↔ tx.SendsToken change token := by
  rw [tokenIds, List.mem_eraseDups, sentTokens, List.map_flatMap, List.mem_flatMap]
  constructor
  · rintro ⟨output, hOutput, hToken⟩
    obtain ⟨index, hIndex, hOther⟩ := mem_recipients_iff.1 hOutput
    exact ⟨index, output, hIndex, hOther, hToken⟩
  · rintro ⟨index, output, hIndex, hOther, hToken⟩
    exact ⟨output, mem_recipients_iff.2 ⟨index, hIndex, hOther⟩, hToken⟩

theorem nextRecipient?_eq (change : Option Nat) (start : Nat) :
    ((List.range' start (tx.outputs.length - start)).filter fun index => some index ≠ change) =
      match tx.nextRecipient? change start with
      | some index => index ::
          (List.range' (index + 1) (tx.outputs.length - (index + 1))).filter
            fun index => some index ≠ change
      | none => [] := by
  by_cases hStart : start ≤ tx.outputs.length
  · rw [filter_range'_eq, show start + (tx.outputs.length - start) = tx.outputs.length by omega]
    rfl
  · rw [nextRecipient?, show tx.outputs.length - start = 0 by omega]
    rfl

end UnsignedTx

namespace Review

variable {review : Review} {tx : UnsignedTx}

theorem placesFrom_placeAfterTokens (hSubject : review.subject = .transaction tx)
    (change : Option Nat) :
    review.placesFrom (UnsignedTx.placeAfterTokens change) =
      change.toList.map .change ++ [.final] := by
  have hFinal : review.next? .final = none := by simp [next?, hSubject]
  cases change with
  | none => exact placesFrom_of_last review hFinal
  | some index =>
      have hChange : review.next? (.change index) = some .final := by simp [next?, hSubject]
      rw [UnsignedTx.placeAfterTokens, placesFrom_of_next? review hChange,
        placesFrom_of_last review hFinal]
      rfl

theorem placesFrom_placeOfToken (hSubject : review.subject = .transaction tx) (number : Nat) :
    review.placesFrom (tx.placeOfToken (review.change? tx) number) =
      (List.range' number ((tx.tokenIds (review.change? tx)).length - number)).map .token ++
        review.placesFrom (UnsignedTx.placeAfterTokens (review.change? tx)) := by
  induction hRest : (tx.tokenIds (review.change? tx)).length - number generalizing number with
  | zero =>
      rw [UnsignedTx.placeOfToken, if_neg (by omega)]
      rfl
  | succ rest ih =>
      have hNext : review.next? (.token number) =
          some (tx.placeOfToken (review.change? tx) (number + 1)) := by
        simp [next?, hSubject]
      rw [UnsignedTx.placeOfToken, if_pos (by omega), placesFrom_of_next? review hNext,
        ih (number + 1) (by omega)]
      rfl

theorem placesFrom_placeOfOutput (hSubject : review.subject = .transaction tx) (start : Nat) :
    review.placesFrom (tx.placeOfOutput (review.change? tx) start) =
      ((List.range' start (tx.outputs.length - start)).filter
        fun index => some index ≠ review.change? tx).map .output ++
          review.placesFrom (tx.placeOfToken (review.change? tx) 0) := by
  induction hRest : tx.outputs.length - start using Nat.strongRecOn generalizing start with
  | ind rest ih =>
      subst hRest
      rw [UnsignedTx.nextRecipient?_eq, UnsignedTx.placeOfOutput]
      cases hFound : tx.nextRecipient? (review.change? tx) start with
      | none => rfl
      | some index =>
          have hNext : review.next? (.output index) =
              some (tx.placeOfOutput (review.change? tx) (index + 1)) := by
            simp [next?, hSubject]
          have hBehind := lt_of_nextRecipient? hFound
          simp only [placesFrom_of_next? review hNext, ih _ (by omega) (index + 1) rfl,
            List.map_cons, List.cons_append]

/-- The inputs are cut into runs of one key. -/
theorem exists_runs_placesFrom (hSubject : review.subject = .transaction tx) {first : Nat}
    (hFirst : first ≤ tx.inputs.length) :
    ∃ runs, Runs tx.inputKey? tx.inputs.length first runs ∧
      review.placesFrom (tx.placeOfInputs (review.change? tx) first) =
        runs.map (fun run => .inputs run.1 run.2) ++
          review.placesFrom (tx.placeOfOutput (review.change? tx) 0) := by
  induction hRest : tx.inputs.length - first using Nat.strongRecOn generalizing first with
  | ind rest ih =>
      by_cases hSome : first < tx.inputs.length
      · obtain ⟨taken, hTaken, hLe, hAll, hEnd⟩ := takeWhile_range'
          (fun index => tx.inputKey? index = tx.inputKey? first) (first + 1)
          (tx.inputs.length - (first + 1))
        have hFollowers : (tx.followers first).length = taken := hTaken
        have hStop : first + 1 + taken ≤ tx.inputs.length := by omega
        obtain ⟨runs, hRuns, hPlaces⟩ := ih (tx.inputs.length - (first + 1 + taken)) (by omega)
          hStop rfl
        have hNext : review.next? (.inputs first (first + 1 + taken)) =
            some (tx.placeOfInputs (review.change? tx) (first + 1 + taken)) := by
          simp [next?, hSubject]
        refine ⟨(first, first + 1 + taken) :: runs, .run (by omega) (by omega) ?_ ?_ hRuns, ?_⟩
        · intro number hStart hStop
          by_cases hNumber : number = first
          · rw [hNumber]
          · simpa using hAll number (by omega) hStop
        · intro hMore
          simpa using hEnd (by omega)
        · rw [UnsignedTx.placeOfInputs, if_pos hSome, hFollowers,
            placesFrom_of_next? review hNext, hPlaces]
          rfl
      · refine ⟨[], ?_, ?_⟩
        · rw [show first = tx.inputs.length by omega]
          exact .none
        · rw [UnsignedTx.placeOfInputs, if_neg hSome]
          rfl

end Review

/-- What the user does at a place. -/
inductive Decision where
  | accept
  | reject
  deriving DecidableEq, Repr

namespace Reviewer

def decide (review : Review) (reviewer : Reviewer) : Decision → Reviewer
  | .accept => reviewer.accept review
  | .reject => reviewer.reject

/-- The reviewer after some decisions in a row, from the beginning of the review. -/
def after (review : Review) (decisions : List Decision) : Reviewer :=
  decisions.foldl (decide review) (start review)

variable {review : Review}

theorem state_accept (reviewer : Reviewer) :
    (reviewer.accept review).state =
      match reviewer.state with
      | .pending place =>
          match review.next? place with
          | some following => .pending following
          | none => .approved
      | state => state := by
  obtain ⟨state, step⟩ := reviewer
  cases state with
  | pending place =>
      simp only [accept]
      cases review.next? place <;> rfl
  | approved => rfl
  | rejected => rfl

/-- Accepting again and again leads from place to place, and behind the last one to approval. -/
theorem state_after_replicate (count : Nat) :
    (after review (List.replicate count .accept)).state =
      match review.places[count]? with
      | some place => .pending place
      | none => .approved := by
  induction count with
  | zero =>
      rw [Review.getElem?_places_zero]
      rfl
  | succ count ih =>
      have hAccept : after review (List.replicate (count + 1) .accept) =
          (after review (List.replicate count .accept)).accept review := by
        rw [List.replicate_succ', after, List.foldl_append]
        rfl
      rw [hAccept, state_accept, ih]
      cases hPlace : review.places[count]? with
      | some place => rw [Review.getElem?_places_succ hPlace]
      | none =>
          have hBehind : review.places[count + 1]? = none := by
            rw [List.getElem?_eq_none_iff] at hPlace ⊢
            omega
          rw [hBehind]

/-- Once all places are accepted or one is refused, further decisions change nothing. -/
theorem foldl_decide_of_final {reviewer : Reviewer}
    (hFinal : ∀ place, reviewer.state ≠ .pending place) (more : List Decision) :
    more.foldl (decide review) reviewer = reviewer := by
  induction more with
  | nil => rfl
  | cons decision more ih =>
      have hSame : decide review reviewer decision = reviewer := by
        obtain ⟨state, step⟩ := reviewer
        cases state with
        | pending place => exact absurd rfl (hFinal place)
        | approved => cases decision <;> rfl
        | rejected => cases decision <;> rfl
      rw [List.foldl_cons, hSame, ih]

/-- A refusal in the middle of a review is final, and one behind its end comes too late. -/
theorem state_after_reject (count : Nat) (more : List Decision) :
    (after review (List.replicate count .accept ++ .reject :: more)).state =
      if count < review.stepCount then .rejected else .approved := by
  have hState : (after review (List.replicate count .accept)).state = _ :=
    state_after_replicate count
  rw [after, List.foldl_append, List.foldl_cons]
  change (more.foldl (decide review) (after review (List.replicate count .accept)).reject).state = _
  by_cases hCount : count < review.stepCount
  · obtain ⟨place, hPlace⟩ : ∃ place, review.places[count]? = some place :=
      ⟨_, List.getElem?_eq_getElem hCount⟩
    rw [hPlace] at hState
    simp only at hState
    have hRejected : (after review (List.replicate count .accept)).reject.state = .rejected := by
      rw [reject, hState]
    rw [foldl_decide_of_final (by simp [hRejected]), hRejected, if_pos hCount]
  · have hPlace : review.places[count]? = none := List.getElem?_eq_none (Nat.not_lt.1 hCount)
    rw [hPlace] at hState
    simp only at hState
    have hSame : (after review (List.replicate count .accept)).reject =
        after review (List.replicate count .accept) := by
      rw [reject, hState]
    rw [hSame, foldl_decide_of_final (by simp [hState]), hState, if_neg hCount]

end Reviewer

namespace Review

variable {review : Review} {tx : UnsignedTx}

/-- The places of a transaction, one kind after the other. -/
theorem exists_runs_places (hSubject : review.subject = .transaction tx) :
    ∃ runs, Runs tx.inputKey? tx.inputs.length 0 runs ∧
      review.places =
        .path :: runs.map (fun run => .inputs run.1 run.2) ++
          (tx.recipientIndices (review.change? tx)).map .output ++
          (List.range (tx.tokenIds (review.change? tx)).length).map .token ++
          (review.change? tx).toList.map .change ++ [.final] := by
  have hFirst : review.first = .path := by simp [first, hSubject]
  have hNext : review.next? .path = some (tx.placeOfInputs (review.change? tx) 0) := by
    simp [next?, hSubject]
  obtain ⟨runs, hRuns, hInputs⟩ := exists_runs_placesFrom hSubject (Nat.zero_le _)
  refine ⟨runs, hRuns, ?_⟩
  rw [places, hFirst, placesFrom_of_next? review hNext, hInputs,
    placesFrom_placeOfOutput hSubject, placesFrom_placeOfToken hSubject,
    placesFrom_placeAfterTokens hSubject, UnsignedTx.recipientIndices, List.range_eq_range',
    List.range_eq_range', Nat.sub_zero, Nat.sub_zero]
  simp only [List.cons_append, List.append_assoc]

theorem getElem?_places_succ_eq_bind (number : Nat) :
    review.places[number + 1]? = review.places[number]?.bind review.next? := by
  cases hPlace : review.places[number]? with
  | some place => exact getElem?_places_succ hPlace
  | none =>
      rw [List.getElem?_eq_none_iff] at hPlace
      exact List.getElem?_eq_none (by omega)

/-- The review of a transaction, whatever the transaction is, shows the path, each input in
exactly one run of a key, each output that is not the change, each token in these outputs once,
the change and the end. The user has to accept all of it, and can refuse at each place. -/
theorem walk_complete (tx : UnsignedTx) (id : TxId) (account : Account) :
    ∃ (change : Option Nat) (runs : List (Nat × Nat)) (tokens : List (FixedBytes 32)),
      (∀ index, change = some index ↔ tx.IsChange account.publicKey index) ∧
      Runs tx.inputKey? tx.inputs.length 0 runs ∧
      tokens.Nodup ∧ (∀ token, token ∈ tokens ↔ tx.SendsToken change token) ∧
      let review : Review := ⟨.transaction tx, id, account⟩
      review.places =
        .path :: runs.map (fun run => .inputs run.1 run.2) ++
          (tx.recipientIndices change).map .output ++
          (List.range tokens.length).map .token ++ change.toList.map .change ++ [.final] ∧
      review.stepCount = 2 + runs.length + (tx.recipientIndices change).length +
        tokens.length + (if change.isSome then 1 else 0) ∧
      review.places[0]? = some review.first ∧
      (∀ number, review.places[number + 1]? = review.places[number]?.bind review.next?) ∧
      (∀ count, (Reviewer.after review (List.replicate count .accept)).state =
        match review.places[count]? with
        | some place => .pending place
        | none => .approved) ∧
      ∀ count more,
        (Reviewer.after review (List.replicate count .accept ++ .reject :: more)).state =
          if count < review.stepCount then .rejected else .approved := by
  let review : Review := ⟨.transaction tx, id, account⟩
  have hSubject : review.subject = .transaction tx := rfl
  obtain ⟨runs, hRuns, hPlaces⟩ := exists_runs_places hSubject
  have hCount : review.stepCount = 2 + runs.length +
      (tx.recipientIndices (review.change? tx)).length +
      (tx.tokenIds (review.change? tx)).length +
      (if (review.change? tx).isSome then 1 else 0) := by
    rw [stepCount, hPlaces]
    simp only [List.length_append, List.length_cons, List.length_map, List.length_range,
      List.length_nil]
    cases review.change? tx with
    | none =>
        simp
        omega
    | some index =>
        simp
        omega
  exact ⟨review.change? tx, runs, tx.tokenIds (review.change? tx),
    fun index => UnsignedTx.changeIndex?_eq_some_iff, hRuns, nodup_eraseDups _,
    fun token => UnsignedTx.mem_tokenIds_iff, hPlaces, hCount, getElem?_places_zero,
    getElem?_places_succ_eq_bind, Reviewer.state_after_replicate, Reviewer.state_after_reject⟩

end Review

end ColdSigner
