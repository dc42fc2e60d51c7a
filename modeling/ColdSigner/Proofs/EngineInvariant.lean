import ColdSigner.Proofs.EnginePhases
/-!
# What holds of a device at any time

`Engine.WellFormed` says how the state, the identifier, the received parts and the review of a
device belong together. It holds after any operations in any order
(`Engine.wellFormed_after`).
-/
namespace ColdSigner.Engine

variable {store : KeyStore}

namespace Phase

/-- The numbers in a phase count what they should, and the key is the one of the account. -/
def Sound : Phase store.Key → Prop
  | idle _ _ _ => True
  | loading parts message =>
      message.ins = Instruction.signTx.code ∧ 1 ≤ parts.toNat ∧ parts.toNat ≤ 256 ∧
        message.nextSeq.toNat = parts.toNat % 256
  | review key request place step =>
      request.stepCount ≤ 0xffff ∧ request.places[step.toNat]? = some place ∧
        (key.isSome = true ↔ request.subject ≠ .address) ∧
        ∀ signer, key = some signer → store.publicKey signer = request.account.publicKey
  | signed request _ _ => request.subject ≠ .address

theorem sound_opened {key : Option store.Key} {request : Review}
    (hCount : request.stepCount ≤ 0xffff)
    (hKey : key.isSome = true ↔ request.subject ≠ .address)
    (hSigner : ∀ signer, key = some signer →
      store.publicKey signer = request.account.publicKey) :
    (opened key request).Sound :=
  ⟨hCount, Review.getElem?_places_zero, hKey, hSigner⟩

/-- A message is short enough for the steps of its transaction to be counted. -/
theorem sound_opened_of_decodeRequest {payload : Bytes} {key : store.Key} {request : Review}
    (hLength : payload.length ≤ maxPayload)
    (hRequest : decodeRequest store payload = .ok (key, request)) :
    (opened (some key) request).Sound := by
  obtain ⟨path, raw, tx, rfl, hDerive, hDecode, hSubject⟩ := eq_of_decodeRequest hRequest
  have hSteps := Review.stepCount_le_of_decode hSubject hDecode
  rw [List.length_append, maxPayload] at hLength
  refine sound_opened (by omega) ?_ ?_
  · simp [hSubject]
  · rintro signer ⟨⟩
    exact KeyStore.publicKey_of_derive hDerive

/-- The number of a step that is not the last never is the greatest. -/
theorem toNat_accept {key : Option store.Key} {request : Review} {place following : Place}
    {step : UInt16} (hSound : (review key request place step).Sound)
    (hNext : request.next? place = some following) :
    (if step = 0xffff then 0xffff else step + 1).toNat = step.toNat + 1 := by
  obtain ⟨hCount, hPlace, -⟩ := hSound
  have hFollowing := Review.getElem?_places_succ hPlace
  rw [hNext] at hFollowing
  have hStep : step.toNat + 1 < request.stepCount :=
    (List.getElem?_eq_some_iff.1 hFollowing).1
  have hNumber : step ≠ 0xffff := by
    rintro rfl
    have : (0xffff : UInt16).toNat = 0xffff := rfl
    omega
  rw [if_neg hNumber, UInt16.toNat_add]
  exact Nat.mod_eq_of_lt (Nat.lt_of_lt_of_le hStep (Nat.le_trans hCount (by decide)))

/-- Accepting a step leads to the place with the next number. -/
theorem sound_accept {key : Option store.Key} {request : Review} {place following : Place}
    {step : UInt16} (hSound : (review key request place step).Sound)
    (hNext : request.next? place = some following) :
    (review key request following (if step = 0xffff then 0xffff else step + 1)).Sound := by
  have hNumber := toNat_accept hSound hNext
  obtain ⟨hCount, hPlace, hKey⟩ := hSound
  exact ⟨hCount, by rw [hNumber, Review.getElem?_places_succ hPlace, hNext], hKey⟩

theorem lt_stepCount {key : Option store.Key} {request : Review} {place : Place} {step : UInt16}
    (hSound : (review key request place step).Sound) : step.toNat < request.stepCount :=
  (List.getElem?_eq_some_iff.1 hSound.2.1).1

/-- The last place has the last number. -/
theorem stepCount_le_of_last {key : Option store.Key} {request : Review} {place : Place}
    {step : UInt16} (hSound : (review key request place step).Sound)
    (hLast : request.next? place = none) : request.stepCount ≤ step.toNat + 1 := by
  have hNone := Review.getElem?_places_succ hSound.2.1
  rw [hLast] at hNone
  exact List.getElem?_eq_none_iff.1 hNone

end Phase

/-- Every operation keeps the numbers right. -/
theorem Step.sound {phase next : Phase store.Key} {operation : Operation}
    (last : Step store phase operation next) (hSound : phase.Sound) : next.Sound := by
  cases last with
  | stop hIdle => trivial
  | showAddress hEvent hDerive =>
      refine Phase.sound_opened ?_ (by simp) (by simp)
      rw [Review.stepCount_eq_one (by simp)]
      decide
  | showHash hEvent hDerive =>
      refine Phase.sound_opened ?_ (by simp) ?_
      · rw [Review.stepCount_eq_one (by simp)]
        decide
      · rintro signer ⟨⟩
        exact KeyStore.publicKey_of_derive hDerive
  | loadFirst hEvent => exact ⟨rfl, by decide, by decide, rfl⟩
  | loadOnly hEvent hLength hRequest => exact Phase.sound_opened_of_decodeRequest hLength hRequest
  | loadMore hEvent hSeq =>
      obtain ⟨hIns, hSome, hMost, hNumber⟩ := hSound
      -- The number of the next part is not zero, so there are fewer than 256 parts.
      have hNext := mt UInt8.toNat_inj.1 hSeq
      rw [UInt8.toNat_zero] at hNext
      refine ⟨hIns, ?_, ?_, ?_⟩
      · rw [UInt16.toNat_add, UInt16.toNat_one]
        omega
      · rw [UInt16.toNat_add, UInt16.toNat_one]
        omega
      · rw [UInt16.toNat_add, UInt16.toNat_one, UInt8.toNat_add, UInt8.toNat_one]
        omega
  | loadLast hEvent hSeq hLength hRequest =>
      exact Phase.sound_opened_of_decodeRequest hLength hRequest
  | wait hPart => exact hSound
  | look hApprove hDeny hKeeps => exact hSound
  | accept hNext => exact Phase.sound_accept hSound hNext
  | sign hLast hSubject hSign => exact hSubject
  | keep hKeeps => exact hSound

theorem Run.sound {operations : List Operation} {phase : Phase store.Key}
    (run : Run store operations phase) : phase.Sound := by
  induction run with
  | start => trivial
  | step prior hPerform last ih => exact last.sound ih

/-- How the parts of the memory of a device belong together. -/
structure WellFormed (engine : Engine store.Key) : Prop where
  /-- A message is in progress exactly while a transaction is loaded. -/
  loading_iff : (∃ parts, engine.state = .loading parts) ↔ engine.chunks.inProgress = true
  /-- The parts received so far are counted, and nothing of a request is known yet. -/
  loading : ∀ parts, engine.state = .loading parts →
    ∃ message, engine.chunks = .receiving message ∧ message.ins = Instruction.signTx.code ∧
      1 ≤ parts.toNat ∧ parts.toNat ≤ 256 ∧ message.nextSeq.toNat = parts.toNat % 256 ∧
      engine.txId = FixedBytes.zero 32 ∧ engine.context = none
  /-- Otherwise nothing is left of a message. -/
  not_loading : (∀ parts, engine.state ≠ .loading parts) → engine.chunks = .empty
  /-- The user looks at the step with the number in the state. There is a key exactly if there
  is something to sign, and it is the one of the account that is shown. -/
  review : ∀ step, engine.state = .review step →
    ∃ context place, engine.context = some context ∧ context.signature = none ∧
      context.reviewer = ⟨.pending place, step⟩ ∧
      context.review.places[step.toNat]? = some place ∧
      step.toNat < context.review.stepCount ∧ context.review.stepCount ≤ 0xffff ∧
      engine.currentStep? = some (context.review.render place) ∧
      (context.key.isSome = true ↔ context.review.subject ≠ .address) ∧
      ∀ key, context.key = some key → store.publicKey key = context.review.account.publicKey
  /-- What is signed was approved, and the key is gone. -/
  signed : engine.state = .signed →
    ∃ context signature, engine.context = some context ∧ context.signature = some signature ∧
      context.key = none ∧ context.reviewer.state = .approved ∧
      context.review.subject ≠ .address
  /-- The host is told the identifier that is signed. -/
  id_eq : (∃ step, engine.state = .review step) ∨ engine.state = .signed →
    engine.requestId? = some engine.txId
  /-- In all other states there is no request, and so no key and no signature. -/
  no_context : (∀ step, engine.state ≠ .review step) → engine.state ≠ .signed →
    engine.context = none

theorem Phase.wellFormed_idle {state : EngineState} {txId : TxId}
    {hIdle : state.isBusy = false} :
    WellFormed (Phase.idle state txId hIdle : Phase store.Key).engine := by
  have hLoading (parts : UInt16) : state ≠ .loading parts := by
    rintro rfl
    cases hIdle
  have hReview (step : UInt16) : state ≠ .review step := by
    rintro rfl
    cases hIdle
  have hSigned : state ≠ .signed := by
    rintro rfl
    cases hIdle
  constructor
  case loading_iff => simp [hLoading, Phase.engine, Reassembly.inProgress]
  case loading => exact fun parts hParts => absurd hParts (hLoading parts)
  case not_loading => exact fun _ => rfl
  case review => exact fun step hStep => absurd hStep (hReview step)
  case signed => exact fun hDone => absurd hDone hSigned
  case id_eq =>
    intro hReviewed
    rcases hReviewed with ⟨step, hStep⟩ | hDone
    · exact absurd hStep (hReview step)
    · exact absurd hDone hSigned
  case no_context => exact fun _ _ => rfl

theorem Phase.wellFormed {phase : Phase store.Key} (hSound : phase.Sound) :
    WellFormed phase.engine := by
  cases phase with
  | idle state txId hIdle => exact Phase.wellFormed_idle
  | loading parts message =>
      obtain ⟨hIns, hSome, hMost, hNumber⟩ := hSound
      constructor
      case loading_iff => simp [Phase.engine, Reassembly.inProgress]
      case loading =>
        intro _ hParts
        cases hParts
        exact ⟨message, rfl, hIns, hSome, hMost, hNumber, rfl, rfl⟩
      case not_loading => exact fun hOther => absurd rfl (hOther parts)
      case review =>
        intro _ hStep
        cases hStep
      case signed =>
        intro hDone
        cases hDone
      case id_eq =>
        intro hReviewed
        rcases hReviewed with ⟨step, hStep⟩ | hDone
        · cases hStep
        · cases hDone
      case no_context => exact fun _ _ => rfl
  | review key request place step =>
      have hLess := Phase.lt_stepCount hSound
      obtain ⟨hCount, hPlace, hKey, hSigner⟩ := hSound
      constructor
      case loading_iff => simp [Phase.engine, Reassembly.inProgress]
      case loading =>
        intro _ hParts
        cases hParts
      case not_loading => exact fun _ => rfl
      case review =>
        intro _ hStep
        cases hStep
        exact ⟨_, place, rfl, rfl, rfl, hPlace, hLess, hCount, rfl, hKey, hSigner⟩
      case signed =>
        intro hDone
        cases hDone
      case id_eq => exact fun _ => rfl
      case no_context => exact fun hOther => absurd rfl (hOther step)
  | signed request step signature =>
      constructor
      case loading_iff => simp [Phase.engine, Reassembly.inProgress]
      case loading =>
        intro _ hParts
        cases hParts
      case not_loading => exact fun _ => rfl
      case review =>
        intro _ hStep
        cases hStep
      case signed => exact fun _ => ⟨_, signature, rfl, rfl, rfl, rfl, hSound⟩
      case id_eq => exact fun _ => rfl
      case no_context => exact fun _ hOther => absurd rfl hOther

/-- Whatever is done to a device, in whatever order, its memory is well formed. -/
theorem wellFormed_after (store : KeyStore) (operations : List Operation) :
    WellFormed (after store operations) := by
  obtain ⟨phase, run⟩ := exists_run store operations
  rw [run.after_eq]
  exact Phase.wellFormed run.sound

end ColdSigner.Engine
