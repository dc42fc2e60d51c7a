import ColdSigner.Host.Signing
import ColdSigner.Proofs.CanonicalTransactions
import ColdSigner.Proofs.HostRequests
/-!
# The host returns no wrong signature

Whatever a device answers, a call that returns a signature has checked all of it
(`DeviceHandle.signed_backed`): the key is the one of the account that the device named in this
call, the device got the whole request, had it under review and said that the user approved it,
and the signature is right for the key and for the identifier that the host computed.
-/
namespace ColdSigner

/-- The parts of a transcript that ends with a signature. -/
structure SigningSession where
  account : List Delivery
  opening : List Delivery
  waiting : List Delivery
  approval : Delivery
  fetching : List Delivery
  completion : List Delivery

namespace SigningSession

def log (session : SigningSession) : List Delivery :=
  session.account ++ session.opening ++ session.waiting ++ [session.approval] ++
    session.fetching ++ session.completion

/-- Each part of the session is answered in a way that fits the signature. -/
structure Backs (session : SigningSession) (signed : SignedTx) (path : DerivationPath)
    (instruction : Instruction) (payload : Bytes) : Prop where
  account_answer : ∃ answer : AccountResponse,
    Answered .getAccount (Message.toBytes (⟨path, none, .standard, false⟩ : AccountRequest))
      answer session.account ∧
    answer.publicKey = signed.publicKey ∧ answer.group = (Lockup.ofKey signed.publicKey).group
  opening_answer : ∃ info : TxInfo, Answered instruction payload info session.opening ∧
    info.state = .review ∧ info.txId = signed.txId
  waiting_answer : ∀ delivery ∈ session.waiting, ∃ info, DeviceHandle.Told info delivery ∧
    info.state = .review
  approval_answer : ∃ info, DeviceHandle.Told info session.approval ∧
    info.state = .signed ∧ info.txId = signed.txId
  fetching_answer : Answered .txGetSignature []
    (⟨signed.txId, signed.signature⟩ : TxSignature) session.fetching
  completion_answer : ∃ info : TxInfo, Answered .txComplete [] info session.completion ∧
    info.state = .complete

end SigningSession

theorem payloadOf_append (instruction : Instruction) (log more : List Delivery) :
    payloadOf instruction (log ++ more) =
      payloadOf instruction log ++ payloadOf instruction more := by
  simp [payloadOf]

/-- What is sent for another instruction does not count. -/
theorem payloadOf_of_ne {instruction other : Instruction} {log : List Delivery}
    (hOther : ∀ delivery ∈ log, delivery.instruction? = some other) (hNe : other ≠ instruction) :
    payloadOf instruction log = [] := by
  have hNone : log.filter (·.instruction? = some instruction) = [] := by
    rw [List.filter_eq_nil_iff]
    intro delivery hDelivery
    simpa [hOther delivery hDelivery] using hNe
  rw [payloadOf, hNone, List.flatMap_nil]

theorem checkState_eq_ok_iff {actual expected : TxState} {result : Unit} :
    checkState actual expected = .ok result ↔ actual = expected := by
  unfold checkState
  split <;> simp [*]

theorem checkTxId_eq_ok_iff {actual expected : TxId} {result : Unit} :
    checkTxId actual expected = .ok result ↔ actual = expected := by
  unfold checkTxId
  split <;> simp [*]

open HostCall DeviceHandle

variable {σ : Type} {link : Link σ} {state next : σ} {log : List Delivery}

namespace SigningSession

/-- The data of the request are sent in the opening, and nowhere else. -/
theorem Backs.payload_eq {session : SigningSession} {signed : SignedTx} {path : DerivationPath}
    {instruction : Instruction} {payload : Bytes}
    (hBacks : session.Backs signed path instruction payload)
    (hSign : instruction = .signTx ∨ instruction = .signHash) :
    payloadOf instruction session.log = payload := by
  obtain ⟨answer, ⟨_, hAccount, -⟩, -, -⟩ := hBacks.account_answer
  obtain ⟨opened, ⟨_, hOpening, -⟩, -, -⟩ := hBacks.opening_answer
  obtain ⟨approved, ⟨_, hApproval, -⟩, -, -⟩ := hBacks.approval_answer
  obtain ⟨_, hFetching, -⟩ := hBacks.fetching_answer
  obtain ⟨completed, ⟨_, hCompletion, -⟩, -⟩ := hBacks.completion_answer
  have hWaiting : ∀ delivery ∈ session.waiting, delivery.instruction? = some .txGetInfo := by
    intro delivery hDelivery
    obtain ⟨info, ⟨_, hInfo, -⟩, -⟩ := hBacks.waiting_answer delivery hDelivery
    exact hInfo.instruction_eq delivery List.mem_cons_self
  have hNe : Instruction.getAccount ≠ instruction ∧ Instruction.txGetInfo ≠ instruction ∧
      Instruction.txGetSignature ≠ instruction ∧ Instruction.txComplete ≠ instruction := by
    rcases hSign with rfl | rfl <;> decide
  rw [log]
  simp only [payloadOf_append, payloadOf_of_ne hAccount.instruction_eq hNe.1,
    payloadOf_of_ne hWaiting hNe.2.1, payloadOf_of_ne hApproval.instruction_eq hNe.2.1,
    payloadOf_of_ne hFetching.instruction_eq hNe.2.2.1,
    payloadOf_of_ne hCompletion.instruction_eq hNe.2.2.2, hOpening.payload_eq, List.nil_append,
    List.append_nil]

end SigningSession

namespace SigningRequest

variable {request : SigningRequest}

theorem answered_of_signature {signature : Signature}
    (hSignature : Returns link request.signature state signature log next) :
    Answered .txGetSignature [] (⟨request.txId, signature⟩ : TxSignature) log := by
  unfold SigningRequest.signature at hSignature
  obtain ⟨answer, middle, before, rest, hAsk, hRest, rfl⟩ := returns_bind_iff.1 hSignature
  obtain ⟨checked, _, _, _, hCheck, hPure, rfl⟩ := returns_bind_iff.1 hRest
  obtain ⟨hTxId, rfl, rfl⟩ := returns_done_iff.1 hCheck
  obtain ⟨rfl, rfl, rfl⟩ := returns_pure_iff.1 hPure
  rw [checkTxId_eq_ok_iff] at hTxId
  rw [← hTxId, List.append_nil, List.append_nil]
  exact answered_of_ask hAsk

theorem answered_of_complete (hComplete : Returns link request.complete state () log next) :
    ∃ info : TxInfo, Answered .txComplete [] info log ∧ info.state = .complete := by
  unfold complete at hComplete
  obtain ⟨info, middle, before, rest, hAsk, hCheck, rfl⟩ := returns_bind_iff.1 hComplete
  obtain ⟨hState, rfl, rfl⟩ := returns_done_iff.1 hCheck
  rw [List.append_nil]
  exact ⟨info, answered_of_ask hAsk, checkState_eq_ok_iff.1 hState⟩

theorem verdict_eq_ok_iff {info : TxInfo} :
    request.verdict info = some (.ok ()) ↔ info.state = .signed ∧ info.txId = request.txId := by
  unfold verdict
  split <;> simp_all [checkTxId_eq_ok_iff]

theorem verdict_eq_none_iff {info : TxInfo} :
    request.verdict info = none ↔ info.state = .review := by
  unfold verdict
  split <;> simp_all

/-- Collecting a signature leaves all that backs it in the transcript. -/
theorem exists_parts_of_collect {account : Account} {time : Nat} {signed : SignedTx}
    (hCollect : Returns link (request.collect account time) state signed log next) :
    signed.txId = request.txId ∧ signed.publicKey = account.publicKey ∧ signed.verify = true ∧
      ∃ waiting approval fetching completion,
        log = waiting ++ [approval] ++ fetching ++ completion ∧
        (∀ delivery ∈ waiting, ∃ info, Told info delivery ∧ info.state = .review) ∧
        (∃ info, Told info approval ∧ info.state = .signed ∧ info.txId = signed.txId) ∧
        Answered .txGetSignature [] (⟨signed.txId, signed.signature⟩ : TxSignature) fetching ∧
        ∃ info : TxInfo, Answered .txComplete [] info completion ∧ info.state = .complete := by
  unfold collect at hCollect
  obtain ⟨approved, _, _, _, hApproved, hFetch, rfl⟩ := returns_bind_iff.1 hCollect
  obtain ⟨signature, _, _, _, hSignature, hRelease, rfl⟩ := returns_bind_iff.1 hFetch
  obtain ⟨completed, _, _, _, hComplete, hEnd, rfl⟩ := returns_bind_iff.1 hRelease
  rw [returns_tryCatch_iff] at hApproved
  · obtain ⟨waiting, approval, info, rfl, hWaiting, hTold, hVerdict⟩ := told_of_poll hApproved
    dsimp only at hEnd
    split at hEnd
    · next hVerify =>
        obtain ⟨rfl, rfl, rfl⟩ := returns_pure_iff.1 hEnd
        refine ⟨rfl, rfl, hVerify, waiting, approval, _, _, ?_, ?_, ?_,
          answered_of_signature hSignature, answered_of_complete hComplete⟩
        · simp
        · intro delivery hDelivery
          obtain ⟨other, hOther, hNone⟩ := hWaiting delivery hDelivery
          exact ⟨other, hOther, verdict_eq_none_iff.1 hNone⟩
        · exact ⟨info, hTold, verdict_eq_ok_iff.1 hVerdict⟩
    · exact (not_returns_throw hEnd).elim
  · -- Whether the time is up or not, the handler throws at its end.
    intro error state value log next hHandler
    split at hHandler
    · obtain ⟨_, _, _, _, -, hThrow, -⟩ := returns_bind_iff.1 hHandler
      exact not_returns_throw hThrow
    · exact not_returns_throw hHandler

end SigningRequest

namespace DeviceHandle

variable {handle : DeviceHandle} {path : DerivationPath} {time : Nat} {signed : SignedTx}

theorem answered_of_account {group : Option UInt8} {keyType : KeyType} {account : Account}
    (hAccount : Returns link (handle.account path group keyType) state account log next) :
    ∃ answer : AccountResponse,
      Answered .getAccount (Message.toBytes (⟨path, group, keyType, false⟩ : AccountRequest))
        answer log ∧
      answer.publicKey = account.publicKey ∧
      answer.group = (Lockup.ofKey account.publicKey).group := by
  unfold DeviceHandle.account requestAccount at hAccount
  obtain ⟨data, _, _, _, hSend, hRest, rfl⟩ := returns_bind_iff.1 hAccount
  obtain ⟨answer, _, _, _, hRead, hCheck, rfl⟩ := returns_bind_iff.1 hRest
  obtain ⟨hAnswer, rfl, rfl⟩ := returns_done_iff.1 hRead
  obtain ⟨hFound, rfl, rfl⟩ := returns_done_iff.1 hCheck
  rw [List.append_nil, List.append_nil]
  refine ⟨answer, ⟨data, conveyed_of_send hSend, readMessage_eq_ok_iff.1 hAnswer⟩, ?_⟩
  obtain ⟨hGroup, -, -, rfl⟩ := accountOf_eq_ok_iff.1 hFound
  exact ⟨rfl, hGroup.symm⟩

theorem answered_of_openRequest {α : Type} [Message α] {instruction : Instruction} {content : α}
    {txId : TxId} {request : SigningRequest}
    (hOpen : Returns link (handle.openRequest instruction content txId) state request log next) :
    request.txId = txId ∧ ∃ info : TxInfo,
      Answered instruction (Message.toBytes content) info log ∧ info.state = .review ∧
        info.txId = txId := by
  unfold openRequest at hOpen
  obtain ⟨data, _, _, _, hSend, hRest, rfl⟩ := returns_bind_iff.1 hOpen
  obtain ⟨info, _, _, _, hRead, hCheck, rfl⟩ := returns_bind_iff.1 hRest
  obtain ⟨hInfo, rfl, rfl⟩ := returns_done_iff.1 hRead
  dsimp only at hCheck
  split at hCheck
  · next hFits =>
      obtain ⟨rfl, rfl, rfl⟩ := returns_pure_iff.1 hCheck
      cases hReview : checkState info.state .review with
      | error e =>
          rw [hReview] at hFits
          cases hFits
      | ok result =>
          rw [hReview] at hFits
          rw [List.append_nil, List.append_nil]
          exact ⟨rfl, info, ⟨data, conveyed_of_send hSend, readMessage_eq_ok_iff.1 hInfo⟩,
            checkState_eq_ok_iff.1 hReview, checkTxId_eq_ok_iff.1 hFits⟩
  · obtain ⟨_, _, _, _, -, hThrow, -⟩ := returns_bind_iff.1 hCheck
    exact (not_returns_throw hThrow).elim

theorem instruction?_of_account {group : Option UInt8} {keyType : KeyType} {delivery : Delivery}
    (hMem : delivery ∈ (handle.account path group keyType).run.transcript link state) :
    delivery.instruction? = some .getAccount := by
  rcases mem_transcript_bind hMem with hSend | ⟨data, _, _, -, hRest⟩
  · exact instruction?_of_send hSend
  · rcases mem_transcript_bind hRest with hRead | ⟨answer, _, _, -, hCheck⟩
    · exact absurd hRead List.not_mem_nil
    · exact absurd hCheck List.not_mem_nil

/-- A call that signs what some request asks for. -/
theorem exists_session {instruction : Instruction} {α : Type} [Message α] {content : α}
    {txId : TxId} {opening : HostCall SigningRequest}
    (hOpening : opening = handle.openRequest instruction content txId)
    (hSigned : Returns link (handle.account path none .standard >>= fun account =>
      opening >>= fun request => request.collect account time) state signed log next) :
    signed.txId = txId ∧ signed.verify = true ∧
      ∃ session : SigningSession, log = session.log ∧
        session.Backs signed path instruction (Message.toBytes content) := by
  subst hOpening
  obtain ⟨account, _, asked, _, hAccount, hRest, rfl⟩ := returns_bind_iff.1 hSigned
  obtain ⟨request, _, opened, _, hOpen, hCollect, rfl⟩ := returns_bind_iff.1 hRest
  obtain ⟨hRequest, hOpened⟩ := answered_of_openRequest hOpen
  obtain ⟨hTxId, hKey, hVerify, waiting, approval, fetching, completion, rfl, hWaiting, hApproval,
    hFetching, hCompletion⟩ := SigningRequest.exists_parts_of_collect hCollect
  rw [← hRequest, ← hTxId] at hOpened
  have hAnswer := answered_of_account hAccount
  rw [← hKey] at hAnswer
  exact ⟨hTxId.trans hRequest, hVerify,
    ⟨asked, opened, waiting, approval, fetching, completion⟩, by simp [SigningSession.log],
    ⟨hAnswer, hOpened, hWaiting, hApproval, hFetching, hCompletion⟩⟩

/-- On every channel, a signature that a call returns is right and backed by what was sent and
answered in that call. Nothing of a malformed transaction is sent. -/
theorem signed_backed (link : Link σ) (handle : DeviceHandle) (path : DerivationPath) (time : Nat)
    (state : σ) :
    (∀ tx signed log next,
      Returns link (handle.signTransaction path tx time) state signed log next →
      (∃ unsigned, UnsignedTx.decode tx = .ok (unsigned, signed.txId)) ∧
        signed.txId = blake2b256 tx ∧ signed.verify = true ∧
        payloadOf .signTx log = Message.toBytes (⟨path, tx⟩ : TxSignRequest) ∧
        ∃ session : SigningSession, log = session.log ∧
          session.Backs signed path .signTx (Message.toBytes (⟨path, tx⟩ : TxSignRequest))) ∧
    (∀ tx error, UnsignedTx.decode tx = .error error →
      ∀ delivery ∈ (handle.signTransaction path tx time).run.transcript link state,
        delivery.instruction? = some .getAccount) ∧
    ∀ hash signed log next,
      Returns link (handle.signHash path hash time) state signed log next →
      signed.txId = hash ∧ signed.verify = true ∧
        payloadOf .signHash log = Message.toBytes (⟨path, hash⟩ : HashSignRequest) ∧
        ∃ session : SigningSession, log = session.log ∧
          session.Backs signed path .signHash
            (Message.toBytes (⟨path, hash⟩ : HashSignRequest)) := by
  refine ⟨?_, ?_, ?_⟩
  · intro tx signed log next hSigned
    unfold signTransaction at hSigned
    cases hDecode : UnsignedTx.decode tx with
    | error error =>
        -- The request is never opened.
        obtain ⟨account, _, _, _, -, hRest, -⟩ := returns_bind_iff.1 hSigned
        obtain ⟨request, _, _, _, hOpen, -, -⟩ := returns_bind_iff.1 hRest
        rw [openTransaction, hDecode] at hOpen
        exact (not_returns_throw hOpen).elim
    | ok decoded =>
        obtain ⟨unsigned, txId⟩ := decoded
        have hOpening : handle.openTransaction path tx =
            handle.openRequest .signTx (⟨path, tx⟩ : TxSignRequest) txId := by
          rw [openTransaction, hDecode]
        obtain ⟨rfl, hVerify, session, rfl, hBacks⟩ := exists_session hOpening hSigned
        exact ⟨⟨unsigned, rfl⟩, (UnsignedTx.decode_eq_ok_iff.1 hDecode).2.2, hVerify,
          hBacks.payload_eq (.inl rfl), session, rfl, hBacks⟩
  · intro tx error hDecode delivery hMem
    rcases mem_transcript_bind hMem with hAccount | ⟨account, _, _, -, hRest⟩
    · exact instruction?_of_account hAccount
    · rcases mem_transcript_bind hRest with hOpen | ⟨request, _, _, hOpen, -⟩
      · rw [openTransaction, hDecode] at hOpen
        exact absurd hOpen List.not_mem_nil
      · rw [openTransaction, hDecode] at hOpen
        exact (not_returns_throw hOpen).elim
  · intro hash signed log next hSigned
    obtain ⟨rfl, hVerify, session, rfl, hBacks⟩ := exists_session rfl hSigned
    exact ⟨rfl, hVerify, hBacks.payload_eq (.inr rfl), session, rfl, hBacks⟩

/-- A device that answers each command with the next of these data. -/
def scripted : Link (List Bytes) :=
  ⟨fun answers _ =>
    match answers with
    | [] => (.never, [])
    | answer :: rest => (.after 1 (.ok ⟨answer, Status.ok⟩), rest)⟩

/-- A payment that is signed with the private key one. -/
def signedPayment : SignedTx where
  txId := blake2b256 UnsignedTx.payment.toBytes
  signature :=
    ⟨Bytes.bigEndian 32 0xc6047f9441ed7d6d3045406e95c07cd85c778e4b8cef3ca7abac09b95c709ee5 ++
      Bytes.bigEndian 32 0x63b548762c198c6685bf6f7c0c57fea2a0a6676c134c913cb87bf523768565a2,
      by simp⟩
  publicKey :=
    Secp256k1.compress 0x79be667ef9dcbbac55a06295ce870b07029bfcdb2dce28d959f2815b16f81798
      0x483ada7726a3c4655da4fbfc0e1108a8fd17b448a68554199c47d08ffb10d4b8

/-- What a device answers whose user approves at the second question. The parts of the request
but the last one are acknowledged without data. -/
def approvingAnswers (acknowledged : List Bytes) : List Bytes :=
  Message.toBytes (⟨0, 3, .ecdsa, signedPayment.publicKey⟩ : AccountResponse) ::
    (acknowledged ++
      [Message.toBytes (⟨.review, 0, signedPayment.txId⟩ : TxInfo),
        Message.toBytes (⟨.review, 1, signedPayment.txId⟩ : TxInfo),
        Message.toBytes (⟨.signed, 0, signedPayment.txId⟩ : TxInfo),
        Message.toBytes (⟨signedPayment.txId, signedPayment.signature⟩ : TxSignature),
        Message.toBytes (⟨.complete, 0, signedPayment.txId⟩ : TxInfo)])

/-- The payment is signed as a transaction of two parts and as a bare hash, and of an empty
transaction nothing is sent. -/
theorem signed_backed_payment :
    (∃ log next, Returns scripted
        (standard.signTransaction Engine.firstAccount UnsignedTx.payment.toBytes 1000)
        (approvingAnswers [[]]) signedPayment log next ∧
      signedPayment.verify = true ∧
      ∃ session : SigningSession, log = session.log ∧
        session.Backs signedPayment Engine.firstAccount .signTx
          (Message.toBytes
            (⟨Engine.firstAccount, UnsignedTx.payment.toBytes⟩ : TxSignRequest))) ∧
    ((UnsignedTx.decode []).toOption = none ∧
      ∀ delivery ∈ (standard.signTransaction Engine.firstAccount [] 1000).run.transcript scripted
          (approvingAnswers [[]]),
        delivery.instruction? = some .getAccount) ∧
    ∃ log next, Returns scripted
        (standard.signHash Engine.firstAccount signedPayment.txId 1000)
        (approvingAnswers []) signedPayment log next ∧
      ∃ session : SigningSession, log = session.log ∧
        session.Backs signedPayment Engine.firstAccount .signHash
          (Message.toBytes
            (⟨Engine.firstAccount, signedPayment.txId⟩ : HashSignRequest)) := by
  have hTransaction : ((standard.signTransaction Engine.firstAccount
      UnsignedTx.payment.toBytes 1000).run.run scripted (approvingAnswers [[]])).1.toOption =
        some signedPayment := by decide +kernel
  have hHash : ((standard.signHash Engine.firstAccount signedPayment.txId 1000).run.run scripted
      (approvingAnswers [])).1.toOption = some signedPayment := by decide +kernel
  have hMalformed : (UnsignedTx.decode []).toOption = none := by decide +kernel
  refine ⟨?_, ⟨hMalformed, ?_⟩, ?_⟩
  · obtain ⟨log, next, hSigned⟩ := exists_returns_of_toOption hTransaction
    obtain ⟨-, -, hVerify, -, hSession⟩ := (signed_backed _ _ _ _ _).1 _ _ _ _ hSigned
    exact ⟨log, next, hSigned, hVerify, hSession⟩
  · cases hDecode : UnsignedTx.decode [] with
    | error error => exact (signed_backed _ _ _ _ _).2.1 [] error hDecode
    | ok decoded =>
        rw [hDecode] at hMalformed
        cases hMalformed
  · obtain ⟨log, next, hSigned⟩ := exists_returns_of_toOption hHash
    obtain ⟨-, -, -, hSession⟩ := (signed_backed _ _ _ _ _).2.2 _ _ _ _ hSigned
    exact ⟨log, next, hSigned, hSession⟩

end DeviceHandle

end ColdSigner
