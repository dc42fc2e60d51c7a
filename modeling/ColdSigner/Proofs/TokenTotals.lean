import ColdSigner.Proofs.InputScreens
import Mathlib.Algebra.BigOperators.Group.List.Basic
import Mathlib.Algebra.Ring.Nat
/-!
# The totals of the tokens

A review shows each token that is sent once, in the order of first appearance, with the exact sum
of what all outputs but the change carry of it (`Review.token_totals_exact`). Adding up with a
check after each amount is checking the exact sum once (`Uint256.foldlM_add?`), so that a sum is
too large or not whatever order the outputs are in.
-/
namespace ColdSigner

open Number Display

/-- Adding amounts up one after the other fails exactly if their sum is no amount. -/
theorem Uint256.foldlM_add? {α : Type} (amount : α → Uint256) (values : List α) (total : Uint256) :
    values.foldlM (fun total value => total.add? (amount value)) total =
      ofNat? (total.toNat + (values.map fun value => (amount value).toNat).sum) := by
  induction values generalizing total with
  | nil =>
      rw [List.foldlM_nil, List.map_nil, List.sum_nil, Nat.add_zero, ofNat?, dif_pos total.isLt]
      rfl
  | cons value rest ih =>
      rw [List.foldlM_cons, List.map_cons, List.sum_cons, ← Nat.add_assoc]
      by_cases hFits : total.toNat + (amount value).toNat < 2 ^ 256
      · have hSum : total.add? (amount value) = some ⟨_, hFits⟩ := dif_pos hFits
        rw [hSum]
        exact ih ⟨_, hFits⟩
      · have hNone : total.add? (amount value) = none := dif_neg hFits
        rw [hNone, ofNat?, dif_neg (by omega)]
        rfl

/-! ## The order of first appearance -/

/-- Leaving values out does not change which of two others comes first. -/
theorem idxOf_filter_lt_iff {α : Type} [DecidableEq α] {keep : α → Bool} (values : List α)
    {first second : α} (hFirst : keep first = true) (hSecond : keep second = true) :
    (values.filter keep).idxOf first < (values.filter keep).idxOf second ↔
      values.idxOf first < values.idxOf second := by
  induction values with
  | nil => rfl
  | cons value rest ih =>
      simp only [List.idxOf_cons, cond_eq_ite, beq_iff_eq]
      by_cases hKeep : keep value = true
      · rw [List.filter_cons_of_pos hKeep]
        simp only [List.idxOf_cons, cond_eq_ite, beq_iff_eq]
        by_cases hIsSecond : value = second
        · simp only [if_pos hIsSecond, Nat.not_lt_zero]
        · by_cases hIsFirst : value = first
          · simp only [if_pos hIsFirst, if_neg hIsSecond, Nat.zero_lt_succ]
          · simp only [if_neg hIsFirst, if_neg hIsSecond, Nat.add_lt_add_iff_right, ih]
      · have hNotFirst : value ≠ first := fun h => hKeep (h ▸ hFirst)
        have hNotSecond : value ≠ second := fun h => hKeep (h ▸ hSecond)
        rw [List.filter_cons_of_neg hKeep, ih, if_neg hNotFirst, if_neg hNotSecond,
          Nat.add_lt_add_iff_right]

/-- Values without repetition stand in the order of their first appearance. -/
theorem pairwise_idxOf_eraseDups {α : Type} [DecidableEq α] (values : List α) :
    values.eraseDups.Pairwise fun earlier later => values.idxOf earlier < values.idxOf later := by
  induction hLength : values.length using Nat.strongRecOn generalizing values with
  | ind count ih =>
      cases values with
      | nil => simp
      | cons first rest =>
          have hFewer := List.length_filter_le (fun value => !value == first) rest
          rw [List.length_cons] at hLength
          have hOther {value : α}
              (hMem : value ∈ (rest.filter fun value => !value == first).eraseDups) :
              value ≠ first := by
            simpa using (List.mem_filter.1 (List.mem_eraseDups.1 hMem)).2
          have hBehind {value : α} (hValue : value ≠ first) :
              (first :: rest).idxOf value = rest.idxOf value + 1 := by
            rw [List.idxOf_cons, cond_eq_ite, if_neg (by simpa using Ne.symm hValue)]
          rw [List.eraseDups_cons, List.pairwise_cons]
          refine ⟨fun later hLater => ?_, ?_⟩
          · rw [List.idxOf_cons_self, hBehind (hOther hLater)]
            exact Nat.zero_lt_succ _
          · refine (ih _ (by omega) _ rfl).imp_of_mem fun hEarlier hLater hBefore => ?_
            rw [idxOf_filter_lt_iff rest (by simpa using hOther hEarlier)
              (by simpa using hOther hLater)] at hBefore
            rw [hBehind (hOther hEarlier), hBehind (hOther hLater)]
            exact Nat.succ_lt_succ hBefore

/-- Look for the value behind so many others, each of them counted once. The ones that were counted
so far are remembered. -/
def scan? {α : Type} [DecidableEq α] (number : Nat) : List α → List α → Option α
  | _, [] => none
  | seen, value :: rest =>
      if value ∈ seen then scan? number seen rest
      else if seen.length = number then some value
      else scan? number (seen ++ [value]) rest

/-- The scan counts on from what it remembers. -/
theorem scan?_eq {α : Type} [DecidableEq α] {number : Nat} (values : List α) {seen : List α}
    (hSeen : seen.length ≤ number) :
    scan? number seen values =
      (values.filter fun value => value ∉ seen).eraseDups[number - seen.length]? := by
  induction values generalizing seen with
  | nil => simp [scan?]
  | cons value rest ih =>
      by_cases hMem : value ∈ seen
      · rw [scan?, if_pos hMem, ih hSeen, List.filter_cons_of_neg (by simpa using hMem)]
      · rw [scan?, if_neg hMem, List.filter_cons_of_pos (by simpa using hMem), List.eraseDups_cons]
        by_cases hFound : seen.length = number
        · rw [if_pos hFound, hFound, Nat.sub_self, List.getElem?_cons_zero]
        · have hOthers : ((rest.filter fun other => other ∉ seen).filter fun other =>
              !other == value) = rest.filter fun other => other ∉ seen ++ [value] := by
            rw [List.filter_filter]
            refine List.filter_congr fun other _ => Bool.eq_iff_iff.2 ?_
            simp [and_comm]
          have hLength : (seen ++ [value]).length = seen.length + 1 := List.length_append
          have hNumber : number - seen.length = number - (seen ++ [value]).length + 1 := by omega
          rw [if_neg hFound, ih (by omega), hNumber, List.getElem?_cons_succ, hOthers]

namespace UnsignedTx

variable (tx : UnsignedTx)

/-- The tokens in the output at a place. -/
def tokensAt (index : Nat) : List Token :=
  (tx.outputs[index]?.map (·.tokens)).getD []

/-- How much of a token the output at a place carries. -/
def carriedAt (token : FixedBytes 32) (index : Nat) : Nat :=
  (((tx.tokensAt index).filter (·.id = token)).map (·.amount.toNat)).sum

/-- How much of a token all outputs but the change carry. -/
def carried (change : Option Nat) (token : FixedBytes 32) : Nat :=
  ((tx.recipientIndices change).map (tx.carriedAt token)).sum

/-- The tokens in all outputs but the change, as often as they appear. -/
def appearances (change : Option Nat) : List (FixedBytes 32) :=
  (tx.recipientIndices change).flatMap fun index => (tx.tokensAt index).map (·.id)

/-- The same transaction with other tokens in one output. -/
def withTokensAt (index : Nat) (tokens : List Token) : UnsignedTx :=
  { tx with outputs := tx.outputs.modify index fun output => { output with tokens } }

variable {tx}

theorem sentTokens_eq (change : Option Nat) :
    tx.sentTokens change = (tx.recipientIndices change).flatMap tx.tokensAt := by
  have hEntry : ∀ entry ∈ tx.outputs.zipIdx.filter fun entry => some entry.2 ≠ change,
      entry.1.tokens = tx.tokensAt entry.2 := by
    intro entry hMem
    have hOutput := List.mem_zipIdx_iff_getElem?.1 (List.mem_filter.1 hMem).1
    rw [tokensAt, hOutput]
    rfl
  have hIndices : (tx.outputs.zipIdx.filter fun entry => some entry.2 ≠ change).map (·.2) =
      tx.recipientIndices change := by
    rw [recipientIndices, List.range_eq_range', ← List.zipIdx_map_snd 0, List.filter_map]
    rfl
  rw [sentTokens, recipients, List.flatMap_map, List.flatMap_def, List.map_congr_left hEntry,
    ← List.flatMap_def, ← hIndices, List.flatMap_map]

theorem tokenIds_eq (change : Option Nat) :
    tx.tokenIds change = (tx.appearances change).eraseDups := by
  rw [tokenIds, sentTokens_eq, List.map_flatMap, appearances]

/-- The token with a number is found by going through all outputs but the change. -/
theorem scan?_appearances {number : Nat} (change : Option Nat) :
    scan? number [] (tx.appearances change) = (tx.tokenIds change)[number]? := by
  have hAll : (tx.appearances change).filter (fun token => token ∉ ([] : List (FixedBytes 32))) =
      tx.appearances change := List.filter_eq_self.2 (by simp)
  rw [scan?_eq _ (Nat.zero_le number), hAll, tokenIds_eq, List.length_nil, Nat.sub_zero]

/-- The total is the exact sum, if that is an amount. -/
theorem tokenTotal?_eq (change : Option Nat) (token : FixedBytes 32) :
    tx.tokenTotal? change token = Uint256.ofNat? (tx.carried change token) := by
  have hSum : (((tx.sentTokens change).filter (·.id = token)).map (·.amount.toNat)).sum =
      tx.carried change token := by
    rw [sentTokens_eq, List.filter_flatMap, List.map_flatMap, List.flatMap_def, List.sum_flatten,
      List.map_map]
    rfl
  rw [tokenTotal?, Uint256.foldlM_add?, hSum]
  exact congrArg Uint256.ofNat? (Nat.zero_add _)

/-! ## The change does not count -/

theorem length_outputs_withTokensAt (index : Nat) (tokens : List Token) :
    (tx.withTokensAt index tokens).outputs.length = tx.outputs.length :=
  List.length_modify _ _ _

theorem lockup_withTokensAt (index : Nat) (tokens : List Token) (other : Nat) :
    (tx.withTokensAt index tokens).outputs[other]?.map (·.lockup) =
      tx.outputs[other]?.map (·.lockup) := by
  rw [withTokensAt, List.getElem?_modify]
  cases tx.outputs[other]? with
  | none => rfl
  | some output => by_cases hSame : index = other <;> simp [hSame]

theorem changeIndex?_withTokensAt (signer : PublicKey) (index : Nat) (tokens : List Token) :
    (tx.withTokensAt index tokens).changeIndex? signer = tx.changeIndex? signer := by
  apply Option.ext
  intro other
  rw [changeIndex?_eq_some_iff, changeIndex?_eq_some_iff]
  have hLength : (tx.withTokensAt index tokens).outputs.length = tx.outputs.length :=
    length_outputs_withTokensAt index tokens
  have hLockup : (tx.withTokensAt index tokens).outputs[other]?.map (·.lockup) =
      tx.outputs[other]?.map (·.lockup) := lockup_withTokensAt index tokens other
  constructor
  · rintro ⟨hSeveral, hLast, hKey⟩
    exact ⟨hLength ▸ hSeveral, hLength ▸ hLast, hLockup ▸ hKey⟩
  · rintro ⟨hSeveral, hLast, hKey⟩
    exact ⟨hLength ▸ hSeveral, hLength ▸ hLast, hLockup ▸ hKey⟩

theorem sentTokens_withTokensAt (index : Nat) (tokens : List Token) :
    (tx.withTokensAt index tokens).sentTokens (some index) = tx.sentTokens (some index) := by
  have hOthers : ∀ other ∈ tx.recipientIndices (some index),
      (tx.withTokensAt index tokens).tokensAt other = tx.tokensAt other := by
    intro other hMem
    have hKept : some other ≠ some index := of_decide_eq_true (List.mem_filter.1 hMem).2
    have hOther : index ≠ other := fun hSame => hKept (congrArg some hSame.symm)
    rw [tokensAt, withTokensAt, List.getElem?_modify_ne _ _ hOther, tokensAt]
  have hIndices : (tx.withTokensAt index tokens).recipientIndices (some index) =
      tx.recipientIndices (some index) := by
    rw [recipientIndices, length_outputs_withTokensAt, recipientIndices]
  rw [sentTokens_eq, sentTokens_eq, hIndices, List.flatMap_def, List.map_congr_left hOthers,
    ← List.flatMap_def]

end UnsignedTx

/-- A sum on the screen. -/
def totalText (sum : Nat) : String :=
  if sum < 2 ^ 256 then Decimal.text sum else "Overflow"

theorem totalText_eq_overflow_iff {sum : Nat} : totalText sum = "Overflow" ↔ 2 ^ 256 ≤ sum := by
  unfold totalText
  split
  · next hFits =>
      refine ⟨fun hText => ?_, fun hLarge => absurd hFits (Nat.not_lt.2 hLarge)⟩
      have hChars : Decimal.chars sum = "Overflow".toList := by
        rw [← hText, Decimal.text, String.toList_ofList]
      have hLetter : 'O' ∈ Decimal.chars sum := by
        rw [hChars]
        decide
      cases Decimal.isDigit_of_mem_chars hLetter
  · next hLarge => exact ⟨fun _ => Nat.not_lt.1 hLarge, fun _ => rfl⟩

namespace Review

variable {review : Review} {tx : UnsignedTx}

theorem mem_places_token_iff (hSubject : review.subject = .transaction tx) {number : Nat} :
    .token number ∈ review.places ↔ number < (tx.tokenIds (review.change? tx)).length := by
  obtain ⟨runs, -, hPlaces⟩ := exists_runs_places hSubject
  simp [hPlaces]

/-- The step of a token shows it with its exact total. -/
theorem screens_token (hSubject : review.subject = .transaction tx) (number : Nat) :
    (review.render (.token number)).screens =
      match (tx.tokenIds (review.change? tx))[number]? with
      | some token =>
          [⟨[("Token ID", Hex.encode token.toList),
            ("Total Amount", totalText (tx.carried (review.change? tx) token))]⟩]
      | none => [] := by
  simp only [render, content, hSubject, tokenScreens]
  cases (tx.tokenIds (review.change? tx))[number]? with
  | none => rfl
  | some token =>
      simp only [hex_toList token (Nat.le_refl _), UnsignedTx.tokenTotal?_eq, totalText,
        Uint256.ofNat?]
      by_cases hFits : tx.carried (review.change? tx) token < 2 ^ 256
      · simp only [dif_pos hFits, if_pos hFits, amount_eq_text (Nat.le_refl _)]
        rfl
      · simp only [dif_neg hFits, if_neg hFits]

theorem screens_token_withTokensAt {index : Nat} {id : TxId} {account : Account}
    (hChange : tx.changeIndex? account.publicKey = some index) (tokens : List Token)
    (number : Nat) :
    (render ⟨.transaction (tx.withTokensAt index tokens), id, account⟩ (.token number)).screens =
      (render ⟨.transaction tx, id, account⟩ (.token number)).screens := by
  simp only [render, content, tokenScreens, change?, UnsignedTx.changeIndex?_withTokensAt, hChange,
    UnsignedTx.tokenIds, UnsignedTx.tokenTotal?, UnsignedTx.sentTokens_withTokensAt]

/-- The tokens that are shown are the ones that some output but the change carries, each once and
in the order of first appearance, so that a scan of these outputs finds the one with each number.
The step of a token shows the exact sum of what these outputs carry of it, unless that is no amount.
What the change carries does not count, and nothing is assumed of the transaction: an output may
list a token twice. -/
theorem token_totals_exact (tx : UnsignedTx) (id : TxId) (account : Account) :
    ∃ change tokens, tx.tokenIds change = tokens ∧
      (∀ index, change = some index ↔ tx.IsChange account.publicKey index) ∧
      tokens.Nodup ∧ (∀ token, token ∈ tokens ↔ tx.SendsToken change token) ∧
      tokens.Pairwise (fun earlier later =>
        (tx.appearances change).idxOf earlier < (tx.appearances change).idxOf later) ∧
      (∀ number, scan? number [] (tx.appearances change) = tokens[number]?) ∧
      (∀ token, totalText (tx.carried change token) = "Overflow" ↔
        2 ^ 256 ≤ tx.carried change token) ∧
      let review : Review := ⟨.transaction tx, id, account⟩
      (∀ number, .token number ∈ review.places ↔ number < tokens.length) ∧
      (∀ number, (review.render (.token number)).screens =
        match tokens[number]? with
        | some token =>
            [⟨[("Token ID", Hex.encode token.toList),
              ("Total Amount", totalText (tx.carried change token))]⟩]
        | none => []) ∧
      ∀ index others number, change = some index →
        (render ⟨.transaction (tx.withTokensAt index others), id, account⟩
            (.token number)).screens =
          (review.render (.token number)).screens := by
  have hSubject : (⟨.transaction tx, id, account⟩ : Review).subject = .transaction tx := rfl
  refine ⟨tx.changeIndex? account.publicKey, _, rfl,
    fun index => UnsignedTx.changeIndex?_eq_some_iff, nodup_eraseDups _,
    fun token => UnsignedTx.mem_tokenIds_iff, ?_, fun number => UnsignedTx.scan?_appearances _,
    fun token => totalText_eq_overflow_iff,
    fun number => mem_places_token_iff hSubject, screens_token hSubject,
    fun index others number hChange => screens_token_withTokensAt hChange others number⟩
  rw [UnsignedTx.tokenIds_eq]
  exact pairwise_idxOf_eraseDups _

end Review

end ColdSigner
