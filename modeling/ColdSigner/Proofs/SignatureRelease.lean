import ColdSigner.Proofs.MessageHistory
import ColdSigner.Proofs.RequestIntegrity
/-!
# A signature is released for what was approved

Behind each signature that a device hands out stand one request, the key that was derived for
it, and one approval for each step of its review (`Engine.signature_approved`).
-/
namespace ColdSigner.Engine

variable {store : KeyStore}

/-- An operation opens the review of a request to sign: of a hash as it stands, or of a
transaction whose last part it brings. The key is the one derived for the path in the request. -/
structure Opens (store : KeyStore) (earlier : List Operation) (opening : Operation)
    (path : DerivationPath) (key : store.Key) (review : Review) : Prop where
  derive_eq : store.derive path none .standard = .ok (review.account, key)
  request : opening.event? = some (.signHash ⟨path, review.id⟩) ∧ review.subject = .hash ∨
    ∃ before start raw tx, earlier = before ++ start ∧
      Sends (start ++ [opening]) (path.toBytes ++ raw) ∧
      UnsignedTx.decode raw = .ok (tx, review.id) ∧ review.id = blake2b256 raw ∧
      review.subject = .transaction tx
  after_eq : after store (earlier ++ [opening]) = reviewing (some key) review

/-- Since a review was opened, each approval led to its next step, up to the signature. Before
the last of these nothing was denied, and the request was not dropped. -/
structure Follows (store : KeyStore) (earlier : List Operation) (opening : Operation)
    (review : Review) (later : List Operation) : Prop where
  state_eq : ∀ seen, seen <+: later → (after store (earlier ++ opening :: seen)).state =
    if seen.count .approve < review.stepCount then
      .review (UInt16.ofNat (seen.count .approve))
    else .signed
  review_eq : ∀ seen, seen <+: later →
    (after store (earlier ++ opening :: seen)).context.map (·.review) = some review
  deny : ∀ seen, seen ++ [.deny] <+: later → review.stepCount ≤ seen.count .approve
  keeps : ∀ operation ∈ later, ¬ operation.Drops

theorem Opens.follows {earlier : List Operation} {opening : Operation} {path : DerivationPath}
    {key : store.Key} {review : Review} (hOpens : Opens store earlier opening path key review) :
    Follows store earlier opening review [] := by
  have hCount : 0 < review.stepCount :=
    (List.getElem?_eq_some_iff.1 Review.getElem?_places_zero).1
  constructor
  case state_eq =>
    intro seen hSeen
    obtain rfl := List.prefix_nil.1 hSeen
    rw [hOpens.after_eq, List.count_nil, if_pos hCount]
    rfl
  case review_eq =>
    intro seen hSeen
    obtain rfl := List.prefix_nil.1 hSeen
    rw [hOpens.after_eq]
    rfl
  case deny =>
    intro seen hSeen
    simp at hSeen
  case keeps => simp

/-- One more operation follows, if it leads where the number of approvals says. -/
theorem Follows.concat {earlier : List Operation} {opening : Operation} {review : Review}
    {later : List Operation} {operation : Operation} {next : Phase store.Key}
    (hFollows : Follows store earlier opening review later)
    (hAfter : after store (earlier ++ opening :: (later ++ [operation])) = next.engine)
    (hState : next.engine.state =
      if (later ++ [operation]).count .approve < review.stepCount then
        .review (UInt16.ofNat ((later ++ [operation]).count .approve))
      else .signed)
    (hReview : next.engine.context.map (·.review) = some review)
    (hDeny : operation = .deny → review.stepCount ≤ later.count .approve)
    (hKeeps : ¬ operation.Drops) :
    Follows store earlier opening review (later ++ [operation]) := by
  constructor
  case state_eq =>
    intro seen hSeen
    rcases List.prefix_concat_iff.1 hSeen with rfl | hSeen
    · rw [hAfter, hState]
    · exact hFollows.state_eq seen hSeen
  case review_eq =>
    intro seen hSeen
    rcases List.prefix_concat_iff.1 hSeen with rfl | hSeen
    · rw [hAfter, hReview]
    · exact hFollows.review_eq seen hSeen
  case deny =>
    intro seen hSeen
    rcases List.prefix_concat_iff.1 hSeen with hLast | hSeen
    · obtain ⟨rfl, hOperation⟩ := List.append_inj' hLast rfl
      exact hDeny (List.singleton_inj.1 hOperation).symm
    · exact hFollows.deny seen hSeen
  case keeps =>
    intro other hOther
    rcases List.mem_append.1 hOther with hLater | hLast
    · exact hFollows.keeps other hLater
    · obtain rfl := List.mem_singleton.1 hLast
      exact hKeeps

/-- What the operations so far say about the phase that they led to. -/
def Phase.Told (store : KeyStore) (operations : List Operation) : Phase store.Key → Prop
  | idle _ _ _ => True
  | loading _ message => ∃ before start, operations = before ++ start ∧ Sending start message
  | review key request _ step => ∀ signer, key = some signer →
      ∃ earlier opening later path, operations = earlier ++ opening :: later ∧
        Opens store earlier opening path signer request ∧
        Follows store earlier opening request later ∧ step.toNat = later.count .approve
  | signed request _ signature =>
      ∃ earlier opening later path signer, operations = earlier ++ opening :: later ∧
        Opens store earlier opening path signer request ∧
        Follows store earlier opening request later ∧
        request.stepCount ≤ later.count .approve ∧
        store.sign signer request.id = some signature

theorem Phase.told_opened {earlier : List Operation} {opening : Operation}
    {path : DerivationPath} {key : store.Key} {request : Review}
    (hOpens : Opens store earlier opening path key request) :
    (Phase.opened (some key) request).Told store (earlier ++ [opening]) := by
  rintro signer ⟨⟩
  exact ⟨earlier, opening, [], path, rfl, hOpens, hOpens.follows, rfl⟩

/-- The last part of a message opens the review of the transaction in it. -/
theorem Phase.told_of_sends {before start : List Operation} {opening : Operation}
    {payload : Bytes} {key : store.Key} {request : Review}
    (hSends : Sends (start ++ [opening]) payload)
    (hRequest : decodeRequest store payload = .ok (key, request))
    (hAfter : after store (before ++ start ++ [opening]) = reviewing (some key) request) :
    (Phase.opened (some key) request).Told store (before ++ start ++ [opening]) := by
  obtain ⟨path, raw, tx, rfl, hDerive, hDecode, hSubject⟩ := eq_of_decodeRequest hRequest
  have hId := (UnsignedTx.decode_eq_ok_iff.1 hDecode).2.2
  exact Phase.told_opened ⟨hDerive,
    .inr ⟨before, start, raw, tx, rfl, hSends, hDecode, hId, hSubject⟩, hAfter⟩

theorem count_concat_of_ne (later : List Operation) {operation : Operation}
    (hApprove : operation ≠ .approve) :
    (later ++ [operation]).count .approve = later.count .approve := by
  rw [List.count_append, List.count_singleton, if_neg (by simpa using hApprove), Nat.add_zero]

theorem count_concat_approve {later : List Operation} :
    (later ++ [Operation.approve]).count .approve = later.count .approve + 1 := by
  rw [List.count_append, List.count_singleton_self]

theorem Phase.state_review {key : Option store.Key} {request : Review} {place : Place}
    {step : UInt16} (hSound : (review key request place step).Sound) :
    (review key request place step).engine.state =
      if step.toNat < request.stepCount then .review (UInt16.ofNat step.toNat) else .signed := by
  rw [if_pos (Phase.lt_stepCount hSound), UInt16.ofNat_toNat]
  rfl

/-- Each operation adds to the history what it did. -/
theorem Step.told {operations : List Operation} {operation : Operation}
    {phase next : Phase store.Key} (last : Step store phase operation next)
    (hAfter : after store (operations ++ [operation]) = next.engine)
    (hSound : phase.Sound) (hNextSound : next.Sound) (hTold : phase.Told store operations) :
    next.Told store (operations ++ [operation]) := by
  cases last with
  | stop hIdle => trivial
  | showAddress hEvent hDerive =>
      intro signer hSigner
      cases hSigner
  | @showHash _ _ _ _ request account key hEvent hDerive =>
      exact Phase.told_opened ⟨hDerive, .inl ⟨hEvent, rfl⟩, hAfter⟩
  | loadFirst hEvent => exact ⟨operations, [operation], rfl, .first hEvent⟩
  | loadOnly hEvent hLength hRequest =>
      rw [← List.append_nil operations] at hAfter ⊢
      have hSends : Sends ([] ++ [operation]) _ := Sends.only hEvent
      exact Phase.told_of_sends hSends hRequest hAfter
  | loadMore hEvent hSeq =>
      obtain ⟨before, start, rfl, hSending⟩ := hTold
      exact ⟨before, start ++ [operation], List.append_assoc .., hSending.further hEvent hSeq⟩
  | loadLast hEvent hSeq hLength hRequest =>
      obtain ⟨before, start, rfl, hSending⟩ := hTold
      exact Phase.told_of_sends (hSending.last hEvent hSeq) hRequest hAfter
  | wait hPart =>
      obtain ⟨before, start, rfl, hSending⟩ := hTold
      exact ⟨before, start ++ [operation], List.append_assoc .., hSending.wait hPart⟩
  | look hApprove hDeny hKeeps =>
      intro signer hSigner
      obtain ⟨earlier, opening, later, path, rfl, hOpens, hFollows, hCount⟩ := hTold signer hSigner
      have hSame := count_concat_of_ne later hApprove
      rw [List.append_assoc, List.cons_append] at hAfter ⊢
      refine ⟨earlier, opening, later ++ [operation], path, rfl, hOpens,
        hFollows.concat hAfter ?_ rfl (fun hOther => absurd hOther hDeny) hKeeps, ?_⟩
      · rw [hSame, ← hCount, Phase.state_review hSound]
      · rw [hSame, hCount]
  | accept hNext =>
      intro signer hSigner
      obtain ⟨earlier, opening, later, path, rfl, hOpens, hFollows, hCount⟩ := hTold signer hSigner
      have hNumber := Phase.toNat_accept hSound hNext
      rw [hCount, ← count_concat_approve] at hNumber
      rw [List.append_assoc, List.cons_append] at hAfter ⊢
      refine ⟨earlier, opening, later ++ [.approve], path, rfl, hOpens,
        hFollows.concat hAfter ?_ rfl (by simp) Operation.not_drops_approve,
        hNumber⟩
      rw [← hNumber, Phase.state_review hNextSound]
  | sign hLast hSubject hSign =>
      obtain ⟨earlier, opening, later, path, rfl, hOpens, hFollows, hCount⟩ := hTold _ rfl
      have hAll := Phase.stepCount_le_of_last hSound hLast
      rw [hCount, ← count_concat_approve] at hAll
      rw [List.append_assoc, List.cons_append] at hAfter ⊢
      refine ⟨earlier, opening, later ++ [.approve], path, _, rfl, hOpens,
        hFollows.concat hAfter ?_ rfl (by simp) Operation.not_drops_approve,
        hAll, hSign⟩
      rw [if_neg (Nat.not_lt.2 hAll)]
      rfl
  | keep hKeeps =>
      obtain ⟨earlier, opening, later, path, signer, rfl, hOpens, hFollows, hAll, hSign⟩ := hTold
      have hMore : later.count .approve ≤ (later ++ [operation]).count .approve := by
        rw [List.count_append]
        exact Nat.le_add_right ..
      have hStill := Nat.le_trans hAll hMore
      rw [List.append_assoc, List.cons_append] at hAfter ⊢
      refine ⟨earlier, opening, later ++ [operation], path, signer, rfl, hOpens,
        hFollows.concat hAfter ?_ rfl (fun _ => hAll) hKeeps, hStill, hSign⟩
      rw [if_neg (Nat.not_lt.2 hStill)]
      rfl

theorem Run.told {operations : List Operation} {phase : Phase store.Key}
    (run : Run store operations phase) : phase.Told store operations := by
  induction run with
  | start => trivial
  | step prior hPerform last ih =>
      have hNext := prior.step hPerform last
      exact last.told hNext.after_eq prior.sound hNext.sound ih

section Outputs

variable {engine : Engine store.Key} {output : Output}

/-- A part of a transaction is answered with the state of the device. -/
theorem exists_state_of_load {parts : UInt16} {seq : UInt8} {more : Bool} {data : Bytes}
    (hOutput : (load store engine parts seq more data).1 = .ok output) :
    ∃ state txId, output = .state state txId := by
  rcases load_cases store engine parts seq more data with
    ⟨error, hError⟩ | ⟨message, -, -, ⟨-, hAdded⟩ | ⟨-, hStart⟩⟩
  · rw [hError] at hOutput
    cases hOutput
  · rw [hAdded] at hOutput
    cases hOutput
    exact ⟨_, _, rfl⟩
  · rw [hStart] at hOutput
    rcases startTransaction_cases store engine (message.data ++ data) with
      ⟨error, -, hError⟩ | ⟨key, review, -, hOpened⟩
    · rw [hError] at hOutput
      cases hOutput
    · rw [hOpened] at hOutput
      cases hOutput
      exact ⟨_, _, rfl⟩

theorem exists_state_of_loadChunk {seq : UInt8} {more : Bool} {data : Bytes}
    (hOutput : (loadChunk store engine seq more data).1 = .ok output) :
    ∃ state txId, output = .state state txId := by
  unfold loadChunk at hOutput
  split at hOutput
  · split at hOutput
    · cases hOutput
    · exact exists_state_of_load hOutput
  · split at hOutput
    · cases hOutput
    · split at hOutput
      · cases hOutput
      · exact exists_state_of_load hOutput

theorem exists_account_of_getAccount {request : AccountRequest}
    (hOutput : (update store engine (.getAccount request)).1 = .ok output) :
    ∃ answer, output = .account answer := by
  dsimp only [update] at hOutput
  split at hOutput
  · cases hOutput
  · unfold getAccount at hOutput
    split at hOutput
    · cases hOutput
    · cases hOutput
      exact ⟨_, rfl⟩

theorem exists_state_of_signHash {request : HashSignRequest}
    (hOutput : (update store engine (.signHash request)).1 = .ok output) :
    ∃ state txId, output = .state state txId := by
  dsimp only [update] at hOutput
  split at hOutput
  · cases hOutput
  · unfold startHash at hOutput
    split at hOutput
    · cases hOutput
    · cases hOutput
      exact ⟨_, _, rfl⟩

theorem update_eq_signature {event : Event} {answer : TxSignature}
    (hAnswer : (update store engine event).1 = .ok (.signature answer)) :
    event = .txGetSignature := by
  cases event with
  | none => cases hAnswer
  | getVersion => cases hAnswer
  | getAccount request =>
      obtain ⟨other, hOther⟩ := exists_account_of_getAccount hAnswer
      cases hOther
  | txChunk seq more data =>
      obtain ⟨state, txId, hOther⟩ := exists_state_of_loadChunk hAnswer
      cases hOther
  | signHash request =>
      obtain ⟨state, txId, hOther⟩ := exists_state_of_signHash hAnswer
      cases hOther
  | txGetInfo => cases hAnswer
  | txGetSignature => rfl
  | txComplete => cases hAnswer
  | disconnect =>
      obtain ⟨state, txId, chunks, context⟩ := engine
      cases state <;> cases hAnswer

end Outputs

theorem Phase.signatureAnswer_eq {phase : Phase store.Key} {answer : TxSignature}
    (hAnswer : signatureAnswer store phase.engine = .ok (.signature answer)) :
    ∃ request step, phase = .signed request step answer.signature ∧
      answer.txId = request.id := by
  cases phase with
  | idle state txId hIdle => cases state <;> cases hAnswer
  | loading parts message => cases hAnswer
  | review key request place step => cases hAnswer
  | signed request step signature =>
      cases hAnswer
      exact ⟨request, step, rfl, rfl⟩

/-- A signature is only released for what the user approved: one operation opened the review of
a request, the key derived for that request signed its identifier, and since then each step was
approved in turn, with no refusal before the last one and nothing that drops a request. -/
theorem signature_approved (store : KeyStore) (operations : List Operation)
    (operation : Operation) (answer : TxSignature)
    (hAnswer : output? store (after store operations) operation =
      some (.ok (.signature answer))) :
    operation.event? = some .txGetSignature ∧
      ∃ earlier opening later path key review, operations = earlier ++ opening :: later ∧
        Opens store earlier opening path key review ∧
        Follows store earlier opening review later ∧
        review.stepCount ≤ later.count .approve ∧
        answer.txId = review.id ∧ store.sign key answer.txId = some answer.signature := by
  obtain ⟨event, hEvent, hUpdate⟩ := Option.map_eq_some_iff.1 hAnswer
  obtain rfl := update_eq_signature hUpdate
  obtain ⟨phase, run⟩ := exists_run store operations
  rw [run.after_eq] at hUpdate
  obtain ⟨request, step, rfl, hId⟩ := Phase.signatureAnswer_eq hUpdate
  obtain ⟨earlier, opening, later, path, key, hOperations, hOpens, hFollows, hAll, hSign⟩ :=
    run.told
  exact ⟨hEvent, earlier, opening, later, path, key, request, hOperations, hOpens, hFollows,
    hAll, hId, hId ▸ hSign⟩

/-- The user approves all steps of a payment that came in two parts. -/
def paymentApproval : List Operation :=
  let payload := firstAccount.toBytes ++ UnsignedTx.payment.toBytes
  [.event (.txChunk 0 true (payload.take 250)), .event (.txChunk 1 false (payload.drop 250)),
    .approve, .approve, .approve, .approve, .approve]

theorem signature_approved_paymentApproval :
    output? oneKey (after oneKey paymentApproval) (.event .txGetSignature) =
        some (.ok (.signature ⟨UnsignedTx.payment.id, FixedBytes.zero 64⟩)) ∧
      ∃ earlier opening later path key review, paymentApproval = earlier ++ opening :: later ∧
        Opens oneKey earlier opening path key review ∧
        Follows oneKey earlier opening review later ∧
        review.stepCount ≤ later.count .approve ∧ UnsignedTx.payment.id = review.id := by
  have hAnswer : output? oneKey (after oneKey paymentApproval) (.event .txGetSignature) =
      some (.ok (.signature ⟨UnsignedTx.payment.id, FixedBytes.zero 64⟩)) := by
    have hShown : (output? oneKey (after oneKey paymentApproval) (.event .txGetSignature)).bind
        (·.toOption) = some (.signature ⟨UnsignedTx.payment.id, FixedBytes.zero 64⟩) := by
      decide +kernel
    obtain ⟨result, hResult, hOk⟩ := Option.bind_eq_some_iff.1 hShown
    cases result with
    | error error => cases hOk
    | ok output =>
        cases hOk
        exact hResult
  obtain ⟨-, earlier, opening, later, path, key, review, hOperations, hOpens, hFollows, hAll,
    hId, -⟩ := signature_approved oneKey paymentApproval (.event .txGetSignature) _ hAnswer
  exact ⟨hAnswer, earlier, opening, later, path, key, review, hOperations, hOpens, hFollows,
    hAll, hId⟩

end ColdSigner.Engine
