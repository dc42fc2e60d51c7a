import ColdSigner.Proofs.HostSignatures
import ColdSigner.Proofs.Interruptions
import ColdSigner.Proofs.RequestTransfer
/-!
# Calls leave no request behind

Whatever the user does and however a call ends, the device has no request in flight afterwards:
neither one to sign (`DeviceHandle.signing_releases`) nor an address to confirm
(`DeviceHandle.accountVerified_releases`).
-/
namespace ColdSigner

open Engine HostCall

namespace InProcess

variable {store : KeyStore} {session : InProcess store.Key} {phase : Phase store.Key}

/-- No request is in flight, and nobody but the host can start one. -/
def Free (session : InProcess store.Key) : Prop :=
  ∃ state txId hIdle, session.Since (.idle state txId hIdle)

/-- A device that is free holds neither a key nor a signature. -/
theorem Free.released (hFree : session.Free) :
    session.engine.state.isBusy = false ∧ session.engine.context = none := by
  obtain ⟨state, txId, hIdle, current, hRemains, hEngine⟩ := hFree
  obtain ⟨after, id, hAfter, rfl⟩ := hRemains.eq_idle
  rw [hEngine]
  exact ⟨hAfter, rfl⟩

theorem free_of_after {operations : List Operation} (exchanges : List Exchange)
    (hIdle : (after store operations).state.isBusy = false) :
    (⟨after store operations, exchanges⟩ : InProcess store.Key).Free := by
  obtain ⟨state, txId, hState, hEngine⟩ := exists_idle_of_after hIdle
  exact ⟨state, txId, hState, _, .refl _, hEngine⟩

end InProcess

open InProcess

variable {store : KeyStore} {script : Nat → Incident} {session : InProcess store.Key}
  {phase : Phase store.Key}

namespace HostCall

/-- A handler that releases the request where the time has run out, and does nothing else. -/
theorem ends_tryCatch_release {α : Type} {call : HostCall α} {handler : HostError → HostCall α}
    {release : HostCall Unit} {ok : α → InProcess store.Key → Prop}
    (hTimeout : handler .userTimeout = release >>= fun _ => throw .userTimeout)
    (hOther : ∀ error, error ≠ .userTimeout → handler error = throw error)
    (hRelease : ∀ (session : InProcess store.Key) (phase : Phase store.Key), session.Since phase →
      Ends (link store script) release session (fun _ => Free) fun _ => Free)
    (hCall : Ends (link store script) call session ok fun error next =>
      (error = .userTimeout ∧ ∃ phase, next.Since phase) ∨ next.Free) :
    Ends (link store script) (tryCatch call handler) session ok fun _ => Free := by
  refine hCall.tryCatch ?_
  rintro error next hNext
  have hSome : ∃ phase, next.Since phase := by
    rcases hNext with ⟨-, hSome⟩ | ⟨state, txId, hIdle, hSince⟩
    · exact hSome
    · exact ⟨_, hSince⟩
  by_cases hError : error = .userTimeout
  · subst hError
    obtain ⟨phase, hSince⟩ := hSome
    rw [hTimeout]
    exact (hRelease next phase hSince).bind fun _ _ hFree => ends_throw hFree
  · rw [hOther error hError]
    rcases hNext with ⟨hTime, -⟩ | hFree
    · exact absurd hTime hError
    · exact ends_throw hFree

end HostCall

/-- The device has the request under review of which it tells the host. -/
def Reviews (data : Bytes) (next : InProcess store.Key) : Prop :=
  ∃ key request, data = (Output.state (.review 0) request.id).data ∧
    next.Since (.opened (some key) request)

/-- A request to sign is refused and forgotten, or the device has it under review. -/
inductive Engine.Starts (store : KeyStore) :
    Except DeviceError Output × Engine store.Key → Prop where
  | refused {error : DeviceError} {state : EngineState} {txId : TxId}
      (hIdle : state.isBusy = false) :
      Starts store (.error error, (Phase.idle state txId hIdle).engine)
  | review {key : store.Key} {request : Review} :
      Starts store (.ok (.state (.review 0) request.id), reviewing (some key) request)

theorem Engine.Starts.meets {answer : Except DeviceError Output × Engine store.Key}
    (hStarts : Starts store answer)
    (hAfter : ∀ after : Phase store.Key, answer.2 = after.engine → session.Since after) :
    Meets Reviews (fun _ => Free) (heard answer.1) session := by
  cases hStarts with
  | @refused _ state txId hIdle => exact ⟨state, txId, hIdle, hAfter _ rfl⟩
  | @review key request => exact ⟨key, request, rfl, hAfter (.opened (some key) request) rfl⟩

theorem Engine.starts_startHash (request : HashSignRequest) :
    Starts store (startHash store request) := by
  unfold startHash
  cases store.derive request.path none .standard with
  | error error => exact .refused (rfl : EngineState.error.isBusy = false)
  | ok found => exact @Starts.review store found.2 ⟨.hash, request.hash, found.1⟩

theorem Engine.starts_opened (payload : Bytes) : Starts store (opened store payload) := by
  unfold opened
  cases decodeRequest store payload with
  | error error => exact .refused (rfl : EngineState.error.isBusy = false)
  | ok found => exact .review

/-- The part with this number is expected behind these data, unless the message was given up. -/
def Engine.Phase.Awaits (phase : Phase store.Key) (number : Nat) (data : Bytes) : Prop :=
  ∀ current, phase.Remains store current → Expects current.engine number data ∨
    (UInt8.ofNat number ≠ 0 ∧ ∃ state txId hIdle, current = .idle state txId hIdle)

theorem awaits_idle {state : EngineState} {txId : TxId} {hIdle : state.isBusy = false} :
    (Phase.idle state txId hIdle : Phase store.Key).Awaits 0 [] := by
  intro current hRemains
  obtain ⟨after, id, hAfter, rfl⟩ := hRemains.eq_idle
  exact .inl (expects_of_idle _ hAfter)

theorem awaits_received {number : Nat} (hSome : 1 ≤ number) (hMost : number ≤ 255)
    (data : Bytes) :
    (Phase.loading (UInt16.ofNat number)
      ⟨Instruction.signTx.code, UInt8.ofNat number, data⟩ : Phase store.Key).Awaits number
        data := by
  intro current hRemains
  cases hRemains with
  | ended => exact .inr ⟨seq_ne_zero hSome hMost, _, _, _, rfl⟩
  | waits => exact .inl (expects_received hSome hMost data)
  | continues hContinues => cases hContinues

namespace SigningRequest

variable {signing : SigningRequest}

/-- A request is released in every phase. -/
theorem ends_complete (hFaultless : ∀ number, (script number).Faultless signing.handle.limit)
    (hSince : session.Since phase) :
    Ends (link store script) signing.complete session (fun _ => Free) fun _ => Free := by
  have hAsk : Ends (link store script) (signing.handle.ask .txComplete : HostCall TxInfo) session
      (fun _ => Free) fun _ => Free :=
    DeviceHandle.ends_ask hFaultless rfl hSince fun _ _ _ hAfter =>
      meets_either _ ⟨.complete, _, rfl, hAfter _ (update_txComplete _)⟩
  exact hAsk.bind fun _ _ hFree => ends_done (meets_either _ hFree)

theorem ends_completeAnyway
    (hFaultless : ∀ number, (script number).Faultless signing.handle.limit)
    (hSince : session.Since phase) :
    Ends (link store script) signing.completeAnyway session (fun _ => Free) fun _ => Free :=
  (ends_complete hFaultless hSince).tryCatch fun _ _ hFree => ends_pure hFree

/-- A device without a request has no signature. -/
theorem exists_signatureAnswer_idle (store : KeyStore) {state : EngineState} (txId : TxId)
    (hIdle : state.isBusy = false) :
    ∃ error, (Phase.idle state txId hIdle).engine.signatureAnswer store = .error error := by
  cases state with
  | loading parts => cases hIdle
  | review step => cases hIdle
  | signed => cases hIdle
  | init | rejected | verified | complete | error => exact ⟨_, rfl⟩

/-- The signature of a request is fetched, unless the request has ended. -/
theorem ends_signature {request : Review} {step : UInt16} {signature : Signature}
    (hFaultless : ∀ number, (script number).Faultless signing.handle.limit)
    (hId : request.id = signing.txId)
    (hSince : session.Since (.signed request step signature)) :
    Ends (link store script) signing.signature session (fun _ next => ∃ phase, next.Since phase)
      fun _ => Free := by
  have hAsk : Ends (link store script) (signing.handle.ask .txGetSignature : HostCall TxSignature)
      session (fun answer next => answer.txId = signing.txId ∧ ∃ phase, next.Since phase)
      fun _ => Free := by
    refine DeviceHandle.ends_ask hFaultless rfl hSince ?_
    intro current next hRemains hAfter
    cases hRemains with
    | @ended _ state txId hIdle =>
        obtain ⟨error, hAnswer⟩ := exists_signatureAnswer_idle store txId hIdle
        have hUpdate : ((Phase.idle state txId hIdle).engine.update store .txGetSignature).1 =
            .error error := hAnswer
        rw [hUpdate]
        exact ⟨state, txId, hIdle, hAfter _ rfl⟩
    | continues hContinues =>
        cases hContinues
        have hRead : (DeviceHandle.readMessage (Output.signature ⟨request.id, signature⟩).data :
            Except HostError TxSignature) = .ok ⟨request.id, signature⟩ := readMessage_signature _
        change Meets _ _ (DeviceHandle.readMessage _) next
        rw [hRead]
        exact ⟨hId, .signed request step signature, hAfter _ rfl⟩
  refine hAsk.bind ?_
  rintro answer next ⟨hAnswer, hSome⟩
  have hCheck : checkTxId answer.txId signing.txId = .ok () := if_pos hAnswer
  rw [hCheck]
  exact ends_done_bind (ends_pure hSome)

/-- What the host makes of a device without a request. -/
theorem exists_verdict_idle (Key : Type) {state : EngineState} (txId : TxId)
    (hIdle : state.isBusy = false) :
    ∃ error, signing.verdict (Phase.idle state txId hIdle : Phase Key).engine.info =
      some (.error error) := by
  cases state with
  | loading parts => cases hIdle
  | review step => cases hIdle
  | signed => cases hIdle
  | init | rejected | verified | complete | error => exact ⟨_, rfl⟩

/-- While the user decides, the request is signed or ends, or the time runs out. -/
theorem ends_awaitApproval {key : Option store.Key} {request : Review} {time : Nat}
    (hFaultless : ∀ number, (script number).Faultless signing.handle.limit)
    (hId : request.id = signing.txId) (hSince : session.Since (.opened key request)) :
    Ends (link store script) (signing.awaitApproval time) session
      (fun _ next => ∃ step signature, next.Since (.signed request step signature))
      fun error next => (error = .userTimeout ∧ ∃ phase, next.Since phase) ∨ next.Free := by
  refine DeviceHandle.ends_poll hFaultless hSince (fun _ hNext => .inl ⟨rfl, _, hNext⟩) ?_
  intro current result next hRemains hVerdict hCurrent
  cases hRemains with
  | @ended _ state txId hIdle =>
      obtain ⟨error, hError⟩ := exists_verdict_idle store.Key txId hIdle
      rw [hError] at hVerdict
      cases hVerdict
      exact .inr ⟨state, txId, hIdle, hCurrent⟩
  | continues hContinues =>
      cases hContinues with
      | review => cases hVerdict
      | signs hSign =>
          have hCheck : checkTxId request.id signing.txId = .ok () := if_pos hId
          change some (checkTxId request.id signing.txId) = some result at hVerdict
          rw [hCheck] at hVerdict
          cases hVerdict
          exact ⟨_, _, hCurrent⟩

/-- However collecting a signature ends, the request is released. -/
theorem ends_collect {key : Option store.Key} {request : Review} {account : Account} {time : Nat}
    (hFaultless : ∀ number, (script number).Faultless signing.handle.limit)
    (hId : request.id = signing.txId) (hSince : session.Since (.opened key request)) :
    Ends (link store script) (signing.collect account time) session (fun _ => Free)
      fun _ => Free := by
  refine (ends_tryCatch_release rfl ?_ (fun _ _ hSince => ends_completeAnyway hFaultless hSince)
    (ends_awaitApproval hFaultless hId hSince)).bind ?_
  · intro error hError
    cases error <;> first | rfl | exact absurd rfl hError
  · rintro - next ⟨step, signature, hSigned⟩
    refine (ends_signature hFaultless hId hSigned).bind ?_
    rintro fetched last ⟨phase, hLast⟩
    refine (ends_complete hFaultless hLast).bind ?_
    intro _ released hFree
    dsimp only
    split
    · exact ends_pure hFree
    · exact ends_throw hFree

end SigningRequest

namespace DeviceHandle

variable {handle : DeviceHandle}

/-- The device has a request under review with the identifier that the host expects. -/
def Opened (handle : DeviceHandle) (signing : SigningRequest) (next : InProcess store.Key) :
    Prop :=
  signing.handle = handle ∧
    ∃ key request, request.id = signing.txId ∧ next.Since (.opened (some key) request)

/-- A request that is opened is under review with the identifier of the host. -/
theorem ends_openRequest {α : Type} [Message α] {instruction : Instruction} {content : α}
    {txId : TxId} (hFaultless : ∀ number, (script number).Faultless handle.limit)
    (hSend : Ends (link store script) (handle.send instruction content) session Reviews
      fun _ => Free) :
    Ends (link store script) (handle.openRequest instruction content txId) session
      (Opened handle) fun _ => Free := by
  refine hSend.bind ?_
  rintro data next ⟨key, request, rfl, hSince⟩
  rw [readMessage_state]
  apply ends_done_bind
  dsimp only
  cases hCheck : checkTxId request.id txId with
  | ok _ => exact ends_pure ⟨rfl, key, request, checkTxId_eq_ok_iff.1 hCheck, hSince⟩
  | error error =>
      exact (SigningRequest.ends_completeAnyway hFaultless hSince).bind
        fun _ _ hFree => ends_throw hFree

theorem ends_send {α : Type} [Message α] {instruction : Instruction} {content : α}
    {ok : Bytes → InProcess store.Key → Prop} {fail : HostError → InProcess store.Key → Prop}
    (hFits : Message.fits content = true)
    (hRequest : Ends (link store script)
      (handle.request instruction.code (Message.toBytes content)) session ok fail) :
    Ends (link store script) (handle.send instruction content) session ok fail := by
  rw [Ends, run_send hFits]
  exact hRequest

/-- A device without a request tells of the account that it derives, as the host understands it,
and has the address confirmed if that is wanted. -/
theorem ends_requestAccount {path : DerivationPath} {group : Option UInt8} {keyType : KeyType}
    {display : Bool} (hFaultless : ∀ number, (script number).Faultless handle.limit)
    (hGroup : group ≠ some noGroup) (hFree : session.Free) :
    Ends (link store script) (handle.requestAccount path group keyType display) session
      (fun account next => (∃ key, store.derive path group keyType = .ok (account, key)) ∧
        if display then next.Since (.opened none ⟨.address, FixedBytes.zero 32, account⟩)
        else next.Free)
      fun _ => Free := by
  obtain ⟨state, txId, hIdle, hSince⟩ := hFree
  obtain ⟨current, hRemains, hAwaiting⟩ := hSince.exists_awaiting script
  obtain ⟨after, id, hStill, rfl⟩ := hRemains.eq_idle
  obtain ⟨next, hPasses, hRun⟩ :=
    exists_run_requestAccount display (hFaultless _) hGroup hAwaiting
  refine ends_of_run hRun ?_
  have hUpdate : ((session.awaiting script).update store
      (.getAccount ⟨path, group, keyType, display⟩)).2 =
        (getAccount store (Phase.idle after id hStill).engine
          ⟨path, group, keyType, display⟩).2 := by
    rw [hAwaiting, update_getAccount_idle]
  cases hDerive : store.derive path group keyType with
  | error error =>
      rw [derived_of_error hDerive]
      rw [getAccount_of_error _ hDerive] at hUpdate
      exact ⟨after, id, hStill, hPasses.since hUpdate⟩
  | ok found =>
      obtain ⟨account, key⟩ := found
      rw [derived_of_ok hDerive]
      rw [getAccount_of_derive _ hDerive] at hUpdate
      refine ⟨⟨key, rfl⟩, ?_⟩
      cases display with
      | false => exact ⟨after, id, hStill, hPasses.since hUpdate⟩
      | true => exact hPasses.since hUpdate

/-- A device without a request takes a hash under review, unless it has no key for it. -/
theorem ends_send_hash {path : DerivationPath} {hash : FixedBytes 32}
    (hFaultless : ∀ number, (script number).Faultless handle.limit) (hFree : session.Free) :
    Ends (link store script) (handle.send .signHash (⟨path, hash⟩ : HashSignRequest)) session
      Reviews fun _ => Free := by
  obtain ⟨state, txId, hIdle, hSince⟩ := hFree
  let request : HashSignRequest := ⟨path, hash⟩
  refine ends_send rfl (ends_request hFaultless request.length_toBytes_le
    (Event.parse_signHash request) hSince ?_)
  intro current next hRemains hAfter
  obtain ⟨after, id, hStill, rfl⟩ := hRemains.eq_idle
  rw [update_signHash_idle] at hAfter ⊢
  exact (starts_startHash request).meets hAfter

/-- The device waits for the part with this number behind these data, or the message was given
up. -/
def Waits (number : Nat) (data : Bytes) (session : InProcess store.Key) : Prop :=
  ∃ phase, session.Since phase ∧ phase.Awaits number data

/-- Behind a part that is not the last one the device waits for the next one, or is free. -/
theorem meets_more {number : Nat} {data part command : Bytes} {next : InProcess store.Key}
    (hMost : number + 1 ≤ 255) (hLength : (data ++ part).length ≤ maxPayload)
    (hWaits : Waits number data session)
    (hPasses : session.Passes script command (.txChunk (UInt8.ofNat number) true part) next) :
    Meets (fun _ => Waits (number + 1) (data ++ part)) (fun _ => Free)
      (heard ((session.awaiting script).update store
        (.txChunk (UInt8.ofNat number) true part)).1) next := by
  obtain ⟨phase, hSince, hAwaits⟩ := hWaits
  obtain ⟨current, hRemains, hAwaiting⟩ := hSince.exists_awaiting script
  rcases hAwaits current hRemains with hExpects | ⟨hSeq, state, txId, hIdle, rfl⟩
  · have hUpdate := hExpects true part hLength
    rw [hAwaiting, hUpdate]
    refine ⟨_, hPasses.since ?_, awaits_received (Nat.le_add_left 1 number) hMost _⟩
    rw [hAwaiting, hUpdate]
    rfl
  · have hFree : next.Free := by
      refine ⟨state, txId, hIdle, hPasses.since ?_⟩
      rw [hAwaiting, update_txChunk_idle hSeq]
    rw [hAwaiting, update_txChunk_idle hSeq]
    exact hFree

/-- Behind the last part the transaction is under review, or the device is free. -/
theorem meets_last {number : Nat} {total data part command : Bytes} {next : InProcess store.Key}
    (hLength : total.length ≤ maxPayload) (hTotal : data ++ part = total)
    (hWaits : Waits number data session)
    (hPasses : session.Passes script command (.txChunk (UInt8.ofNat number) false part) next) :
    Meets Reviews (fun _ => Free)
      (heard ((session.awaiting script).update store
        (.txChunk (UInt8.ofNat number) false part)).1) next := by
  obtain ⟨phase, hSince, hAwaits⟩ := hWaits
  obtain ⟨current, hRemains, hAwaiting⟩ := hSince.exists_awaiting script
  have hStarts : Starts store
      (current.engine.update store (.txChunk (UInt8.ofNat number) false part)) := by
    rcases hAwaits current hRemains with hExpects | ⟨hSeq, state, txId, hIdle, rfl⟩
    · rw [hExpects false part (hTotal ▸ hLength)]
      exact starts_opened _
    · rw [update_txChunk_idle hSeq]
      exact .refused hIdle
  rw [hAwaiting]
  exact hStarts.meets fun after hUpdate => hPasses.since (hAwaiting ▸ hUpdate)

/-- A device without a request takes a transaction under review, or is free again. -/
theorem ends_send_transaction {path : DerivationPath} {tx : Bytes}
    (hFaultless : ∀ number, (script number).Faultless handle.limit) (hFree : session.Free) :
    Ends (link store script) (handle.send .signTx (⟨path, tx⟩ : TxSignRequest)) session
      Reviews fun _ => Free := by
  let payload := Message.toBytes (⟨path, tx⟩ : TxSignRequest)
  apply ends_send rfl
  by_cases hLength : payload.length ≤ maxPayload
  · obtain ⟨state, txId, hIdle, hSince⟩ := hFree
    have hWaits : Waits 0 [] session := ⟨_, hSince, awaits_idle⟩
    obtain ⟨result, time, next, hPerform, hMeets⟩ :=
      exists_perform_split Waits (Meets Reviews fun _ => Free) 0 [] hFaultless
        (fun _ _ _ _ _ _ => meets_more) (fun _ _ _ _ _ _ => meets_last hLength) hWaits rfl
        (Nat.zero_le _) hLength
    exact ends_of_run (run_request_of_perform hLength hPerform) hMeets
  · have hFraming : commands Instruction.signTx.code payload =
        .error (.framing .payloadTooLarge) := by
      rw [commands, frame, if_pos (Nat.not_le.1 hLength)]
    rw [request, hFraming]
    exact ends_throw hFree

/-- What is opened and collected is released. -/
theorem ends_signing {path : DerivationPath} {time : Nat} {opening : HostCall SigningRequest}
    (hFaultless : ∀ number, (script number).Faultless handle.limit) (hFree : session.Free)
    (hOpening : ∀ session : InProcess store.Key, session.Free →
      Ends (link store script) opening session (Opened handle) fun _ => Free) :
    Ends (link store script)
      (do
        let account ← handle.account path none .standard
        let request ← opening
        request.collect account time) session (fun _ => Free) fun _ => Free := by
  refine (ends_requestAccount hFaultless (by simp) hFree).bind ?_
  rintro account next ⟨-, hNext⟩
  refine (hOpening next hNext).bind ?_
  rintro signing opened ⟨rfl, key, request, hId, hSince⟩
  exact SigningRequest.ends_collect hFaultless hId hSince

/-- However a call to sign ends, the device is released and holds neither a key nor a
signature. -/
theorem signing_releases (store : KeyStore) (operations : List Operation)
    (exchanges : List Exchange) (script : Nat → Incident) (handle : DeviceHandle)
    (path : DerivationPath) (time : Nat)
    (hIdle : (after store operations).state.isBusy = false)
    (hFaultless : ∀ number, (script number).Faultless handle.limit) :
    let session : InProcess store.Key := ⟨after store operations, exchanges⟩
    (∀ tx, let next := ((handle.signTransaction path tx time).run.run (link store script) session).2
      next.engine.state.isBusy = false ∧ next.engine.context = none) ∧
    ∀ hash, let next := ((handle.signHash path hash time).run.run (link store script) session).2
      next.engine.state.isBusy = false ∧ next.engine.context = none := by
  intro session
  have hFree : session.Free := free_of_after exchanges hIdle
  refine ⟨?_, ?_⟩
  · intro tx
    refine (holds_of_ends (ends_signing hFaultless hFree ?_)).released
    intro before hBefore
    unfold openTransaction
    cases UnsignedTx.decode tx with
    | error error => exact ends_throw hBefore
    | ok decoded => exact ends_openRequest hFaultless (ends_send_transaction hFaultless hBefore)
  · intro hash
    refine (holds_of_ends (ends_signing hFaultless hFree ?_)).released
    intro before hBefore
    exact ends_openRequest hFaultless (ends_send_hash hFaultless hBefore)

/-- The user approves before every exchange, and the device is switched off behind each third
one. -/
def restless (number : Nat) : Incident :=
  { Incident.none with
    before := [.approve]
    after := if number % 3 = 2 then [.reset] else [] }

theorem restless_faultless (limit number : Nat) : (restless number).Faultless limit :=
  ⟨rfl, rfl, rfl, Nat.zero_le limit⟩

theorem signing_releases_restless :
    (after oneKey []).state.isBusy = false ∧
      (∀ number, (restless number).Faultless standard.limit) ∧
      let session : InProcess Unit := ⟨after oneKey [], []⟩
      let next := ((standard.signTransaction firstAccount UnsignedTx.payment.toBytes 1000).run.run
        (link oneKey restless) session).2
      next.engine.state.isBusy = false ∧ next.engine.context = none :=
  ⟨rfl, restless_faultless _, (signing_releases oneKey [] [] restless standard firstAccount 1000
    rfl (restless_faultless _)).1 UnsignedTx.payment.toBytes⟩

theorem ends_releaseAnyway (hFaultless : ∀ number, (script number).Faultless handle.limit)
    (hSince : session.Since phase) :
    Ends (link store script) handle.releaseAnyway session (fun _ => Free) fun _ => Free := by
  have hRequest : Ends (link store script) (handle.request Instruction.txComplete.code []) session
      (fun _ => Free) fun _ => Free :=
    ends_request hFaultless (by simp) rfl hSince fun _ _ _ hAfter =>
      meets_either _ ⟨.complete, _, rfl, hAfter _ (update_txComplete _)⟩
  exact (hRequest.bind fun _ _ hFree => ends_pure hFree).tryCatch
    fun _ _ hFree => ends_pure hFree

/-- An address that is shown is confirmed or not, and nothing can be signed meanwhile. -/
theorem ends_poll_address {account : Account} {time : Nat}
    (hFaultless : ∀ number, (script number).Faultless handle.limit)
    (hSince : session.Since (.opened none ⟨.address, FixedBytes.zero 32, account⟩)) :
    Ends (link store script) (handle.poll addressVerdict time) session (fun _ => Free)
      fun error next => (error = .userTimeout ∧ ∃ phase, next.Since phase) ∨ next.Free := by
  refine ends_poll hFaultless hSince (fun _ hNext => .inl ⟨rfl, _, hNext⟩) ?_
  intro current result next hRemains hVerdict hCurrent
  cases hRemains with
  | @ended _ state txId hIdle =>
      have hFree : next.Free := ⟨state, txId, hIdle, hCurrent⟩
      cases result with
      | error error => exact .inr hFree
      | ok _ => exact hFree
  | continues hContinues =>
      cases hContinues with
      | review => cases hVerdict

/-- However the confirmation of an address ends, the device is released. The group `0xff` is left
out, since its byte stands for no group. -/
theorem accountVerified_releases (store : KeyStore) (operations : List Operation)
    (exchanges : List Exchange) (script : Nat → Incident) (handle : DeviceHandle)
    (path : DerivationPath) (group : Option UInt8) (keyType : KeyType) (time : Nat)
    (hIdle : (after store operations).state.isBusy = false)
    (hFaultless : ∀ number, (script number).Faultless handle.limit)
    (hGroup : group ≠ some 0xff) :
    let session : InProcess store.Key := ⟨after store operations, exchanges⟩
    let next :=
      ((handle.accountVerified path group keyType time).run.run (link store script) session).2
    next.engine.state.isBusy = false ∧ next.engine.context = none := by
  intro session next
  have hFree : session.Free := free_of_after exchanges hIdle
  have hVerified : Ends (link store script) (handle.accountVerified path group keyType time)
      session (fun _ => Free) fun _ => Free := by
    refine (ends_requestAccount hFaultless hGroup hFree).bind ?_
    rintro account shown ⟨-, hSince⟩
    -- The account leaves from within the part that may fail, as an early return.
    have hPoll : Ends (link store script) (handle.poll addressVerdict time >>=
        fun _ => (pure (.error account) : HostCall (Except Account Account))) shown
        (fun _ => Free)
        fun error next => (error = .userTimeout ∧ ∃ phase, next.Since phase) ∨ next.Free :=
      (ends_poll_address hFaultless hSince).bind fun _ _ hConfirmed => ends_pure hConfirmed
    refine (ends_tryCatch_release ?_ ?_
      (fun _ _ hSince => ends_releaseAnyway hFaultless hSince) hPoll).bind ?_
    · rfl
    · intro error hError
      cases error <;> first | rfl | exact absurd rfl hError
    · intro returned next hNext
      cases returned <;> exact hNext
  exact (holds_of_ends hVerified).released

theorem accountVerified_releases_restless :
    (after oneKey []).state.isBusy = false ∧
      (∀ number, (restless number).Faultless standard.limit) ∧ some 3 ≠ some (0xff : UInt8) ∧
      let session : InProcess Unit := ⟨after oneKey [], []⟩
      let next := ((standard.accountVerified firstAccount (some 3) .ecdsa 1000).run.run
        (link oneKey restless) session).2
      next.engine.state.isBusy = false ∧ next.engine.context = none :=
  ⟨rfl, restless_faultless _, by decide, accountVerified_releases oneKey [] [] restless standard
    firstAccount (some 3) .ecdsa 1000 rfl (restless_faultless _) (by decide)⟩

/-- The group `0xff` is taken for no group by the device, which shows the address, and for
another group than the one of the account by the host, which then gives up and does not release
the request. -/
theorem accountVerified_noGroup_busy :
    ((standard.accountVerified firstAccount (some 0xff) .ecdsa 30000).run.run
      (link oneKey fun _ => .none) (start oneKey)).2.engine.state = .review 0 := by
  decide +kernel

end DeviceHandle

end ColdSigner
