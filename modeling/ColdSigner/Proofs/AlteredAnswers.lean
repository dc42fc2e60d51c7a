import ColdSigner.Proofs.RequestRelease
/-!
# Altered answers

Over a channel that delivers every command but may alter the answers, the host may come to believe
that the device is in another state or has another request. If it does so when it opens a request,
it releases the device. If it does so later, the device is not busy, or the host was misled about
the progress or about the signature and has sent nothing since
(`DeviceHandle.mismatch_releases`). There the request stays
(`DeviceHandle.signHash_misled_signed`).
-/
namespace ColdSigner

open Engine InProcess HostCall

/-- The device is in another state than the host expects, or has another request. -/
def HostError.IsMismatch : HostError → Prop
  | invalidState _ _ => True
  | txIdMismatch => True
  | _ => False

theorem HostError.not_isMismatch_ofStatus (status : UInt16) : ¬ (ofStatus status).IsMismatch := by
  unfold ofStatus
  split <;> exact not_false

/-- If something went wrong, it is no mismatch. -/
def NoMismatch {α : Type} (result : Except HostError α) : Prop :=
  ∀ error, result = .error error → ¬ error.IsMismatch

section NoMismatch

variable {α β : Type}

theorem noMismatch_ok (value : α) : NoMismatch (.ok value) := by
  rintro error ⟨⟩

theorem noMismatch_error {error : HostError} (hError : ¬ error.IsMismatch) :
    NoMismatch (.error error : Except HostError α) := by
  rintro _ ⟨⟩
  exact hError

theorem NoMismatch.bind {result : Except HostError α} {f : α → Except HostError β}
    (hResult : NoMismatch result) (hNext : ∀ value, NoMismatch (f value)) :
    NoMismatch (result.bind f) := by
  cases result with
  | error error => exact noMismatch_error (hResult error rfl)
  | ok value => exact hNext value

theorem noMismatch_result (answer : Answer) : NoMismatch answer.result := by
  unfold Answer.result
  split
  · exact noMismatch_ok _
  · exact noMismatch_error (HostError.not_isMismatch_ofStatus _)

theorem noMismatch_readMessage [Message α] (data : Bytes) :
    NoMismatch (DeviceHandle.readMessage data : Except HostError α) := by
  unfold DeviceHandle.readMessage
  cases (Message.decode data : Except WireError α) with
  | error error => exact noMismatch_error not_false
  | ok value => exact noMismatch_ok value

theorem noMismatch_accountOf (path : DerivationPath) (group : Option UInt8)
    (answer : AccountResponse) : NoMismatch (DeviceHandle.accountOf path group answer) := by
  unfold DeviceHandle.accountOf
  split
  · exact noMismatch_error not_false
  · split
    · exact noMismatch_error not_false
    · split
      · exact noMismatch_error not_false
      · exact noMismatch_ok _

theorem NoMismatch.meets {σ : Type} {result : Except HostError α} {next : σ}
    {ok : α → σ → Prop} (hResult : NoMismatch result) (hOk : ∀ value, ok value next) :
    Meets ok (fun error _ => ¬ error.IsMismatch) result next := by
  cases result with
  | error error => exact hResult error rfl
  | ok value => exact hOk value

end NoMismatch

/-- No request but the one with this identifier is in flight, and none is being loaded. -/
def Engine.Phase.Serves {Key : Type} (phase : Phase Key) (id : TxId) : Prop :=
  match phase with
  | idle _ _ _ => True
  | loading _ _ => False
  | review _ request _ _ => request.id = id
  | signed request _ _ => request.id = id

theorem Engine.exists_serves_startHash (store : KeyStore) (request : HashSignRequest) :
    ∃ phase : Phase store.Key, phase.Serves request.hash ∧
      (startHash store request).2 = phase.engine := by
  have hIdle : EngineState.error.isBusy = false := rfl
  unfold startHash
  cases store.derive request.path none .standard with
  | error error => exact ⟨.idle .error _ hIdle, trivial, rfl⟩
  | ok found => exact ⟨.opened (some found.2) ⟨.hash, request.hash, found.1⟩, rfl, rfl⟩

theorem Engine.exists_serves_opened (store : KeyStore) (path : DerivationPath) {tx : Bytes}
    {unsigned : UnsignedTx} {id : TxId} (hDecode : UnsignedTx.decode tx = .ok (unsigned, id)) :
    ∃ phase : Phase store.Key, phase.Serves id ∧
      (opened store (path.toBytes ++ tx)).2 = phase.engine := by
  have hIdle : EngineState.error.isBusy = false := rfl
  unfold opened
  rw [decodeRequest_append, hDecode]
  cases store.derive path none .standard with
  | error error => exact ⟨.idle .error _ hIdle, trivial, rfl⟩
  | ok found => exact ⟨.opened (some found.2) ⟨.transaction unsigned, id, found.1⟩, rfl, rfl⟩

theorem Engine.Phase.Serves.remains {store : KeyStore} {phase next : Phase store.Key} {id : TxId}
    (hServes : phase.Serves id) (hRemains : phase.Remains store next) : next.Serves id := by
  cases hRemains with
  | ended => trivial
  | waits => exact hServes
  | continues hContinues => cases hContinues <;> exact hServes

namespace InProcess

variable {store : KeyStore} {script : Nat → Incident}
  {alter : InProcess store.Key → Answer → Answer} {session next : InProcess store.Key}

/-- The channel to a device, with answers that are altered on the way back. -/
def altering (store : KeyStore) (script : Nat → Incident)
    (alter : InProcess store.Key → Answer → Answer) : Link (InProcess store.Key) :=
  ⟨fun session command =>
    match exchange store script session command with
    | (.after delay (.ok answer), next) => (.after delay (.ok (alter next answer)), next)
    | arrived => arrived⟩

/-- This was the last command so far, and its answer was altered. -/
def Misled (script : Nat → Incident) (alter : InProcess store.Key → Answer → Answer)
    (command : Bytes) (next : InProcess store.Key) : Prop :=
  ∃ before delay answer, exchange store script before command = (.after delay (.ok answer), next) ∧
    alter next answer ≠ answer

/-- The device takes each command, and the host hears what it has to say or is misled. -/
theorem exists_exchange_altering {command : Bytes} {event : Event} {limit : Nat}
    (alter : InProcess store.Key → Answer → Answer)
    (hFaultless : (session.incident script).Faultless limit)
    (hEvent : eventOfCommand command = .ok event) :
    ∃ answer next, (altering store script alter).exchange session command =
        (.after (session.incident script).delay (.ok answer), next) ∧
      session.Passes script command event next ∧
      (answer.result = heard ((session.awaiting script).update store event).1 ∨
        Misled script alter command next) := by
  obtain ⟨answer, next, hExchange, hPasses, hResult⟩ := exists_exchange hFaultless hEvent
  change exchange store script session command = _ at hExchange
  refine ⟨alter next answer, next, ?_, hPasses, ?_⟩
  · simp only [altering, hExchange]
  · by_cases hSame : alter next answer = answer
    · rw [hSame]
      exact .inl hResult
    · exact .inr ⟨session, _, answer, hExchange, hSame⟩

/-- The device has the request with this identifier, or none. -/
def Serves (session : InProcess store.Key) (id : TxId) : Prop :=
  ∃ phase : Phase store.Key, phase.Serves id ∧ session.engine = phase.engine

theorem Serves.exists_awaiting {id : TxId} (hServes : session.Serves id)
    (script : Nat → Incident) :
    ∃ phase : Phase store.Key, phase.Serves id ∧ session.awaiting script = phase.engine := by
  obtain ⟨before, hBefore, hEngine⟩ := hServes
  obtain ⟨current, hCurrent, hRemains⟩ :=
    exists_remains_acted before (session.incident script).before
  exact ⟨current, hBefore.remains hRemains, by rw [awaiting, hEngine, hCurrent]⟩

theorem Passes.serves {command : Bytes} {event : Event} {phase : Phase store.Key} {id : TxId}
    (hPasses : session.Passes script command event next) (hServes : phase.Serves id)
    (hUpdate : ((session.awaiting script).update store event).2 = phase.engine) :
    next.Serves id := by
  obtain ⟨current, hRemains, hEngine⟩ := hPasses.since hUpdate
  exact ⟨current, hServes.remains hRemains, hEngine⟩

/-- The device is not busy, and holds neither a key nor a signature. -/
structure AtRest (session : InProcess store.Key) : Prop where
  isBusy_eq : session.engine.state.isBusy = false
  context_eq : session.engine.context = none

theorem Free.atRest (hFree : session.Free) : session.AtRest :=
  ⟨hFree.released.1, hFree.released.2⟩

/-- The device is at rest, and the last command was the one that releases it. -/
structure Released (session : InProcess store.Key) : Prop extends session.AtRest where
  last_command : session.commands.head? = some (Instruction.txComplete.command [])

theorem Passes.released {id : TxId} (hServes : session.Serves id)
    (hPasses : session.Passes script (Instruction.txComplete.command []) .txComplete next) :
    next.Released where
  toAtRest := by
    obtain ⟨current, -, hAwaiting⟩ := hServes.exists_awaiting script
    have hComplete : EngineState.complete.isBusy = false := rfl
    have hFree : next.Free := by
      refine ⟨.complete, current.engine.txId, hComplete, hPasses.since ?_⟩
      rw [hAwaiting, update_txComplete]
    exact hFree.atRest
  last_command := by
    rw [hPasses.commands_eq]
    rfl

/-- What a call to sign leaves behind that goes astray: the device is at rest, or the last answer
was altered, which was one about the progress of the request or the signature. -/
inductive Astray (script : Nat → Incident) (alter : InProcess store.Key → Answer → Answer)
    (next : InProcess store.Key) : Prop where
  | atRest (hAtRest : next.AtRest)
  | misledWaiting (hMisled : Misled script alter (Instruction.txGetInfo.command []) next)
  | misledFetching (hMisled : Misled script alter (Instruction.txGetSignature.command []) next)

end InProcess

variable {store : KeyStore} {script : Nat → Incident}
  {alter : InProcess store.Key → Answer → Answer} {session : InProcess store.Key}

namespace SigningRequest

variable {signing : SigningRequest}

/-- A request is released, whatever the host hears of that. -/
theorem ends_complete_altering {id : TxId}
    (hFaultless : ∀ number, (script number).Faultless signing.handle.limit)
    (hServes : session.Serves id) :
    Ends (altering store script alter) signing.complete session (fun _ => Released)
      fun _ => Released := by
  obtain ⟨answer, next, hExchange, hPasses, -⟩ :=
    exists_exchange_altering alter (hFaultless _) DeviceHandle.eventOfCommand_txComplete
  have hReleased := hPasses.released hServes
  have hAsk := DeviceHandle.run_ask_of_exchange (α := TxInfo) (hFaultless _).delay_le hExchange
  exact (ends_of_run hAsk (meets_either _ hReleased)).bind fun _ _ hNext =>
    ends_done (meets_either _ hNext)

theorem ends_completeAnyway_altering {id : TxId}
    (hFaultless : ∀ number, (script number).Faultless signing.handle.limit)
    (hServes : session.Serves id) :
    Ends (altering store script alter) signing.completeAnyway session (fun _ => Released)
      fun _ => Released :=
  (ends_complete_altering hFaultless hServes).tryCatch fun _ _ hReleased => ends_pure hReleased

/-- What the device says about its request is no mismatch, unless it has none. -/
theorem atRest_of_verdict {phase : Phase store.Key} {error : HostError} {next : InProcess store.Key}
    (hServes : phase.Serves signing.txId) (hNext : next.Since phase)
    (hVerdict : signing.verdict phase.engine.info = some (.error error)) : next.AtRest := by
  cases phase with
  | idle state txId hIdle =>
      have hFree : next.Free := ⟨state, txId, hIdle, hNext⟩
      exact hFree.atRest
  | loading parts message => exact hServes.elim
  | review key request place step => cases hVerdict
  | signed request step signature =>
      have hCheck : checkTxId request.id signing.txId = .ok () := if_pos hServes
      change some (checkTxId request.id signing.txId) = some (.error error) at hVerdict
      rw [hCheck] at hVerdict
      cases hVerdict

/-- While the user decides, the host takes the device for having another request only if it has
none, or if the last answer was altered. -/
theorem ends_awaitApproval_altering {time : Nat}
    (hFaultless : ∀ number, (script number).Faultless signing.handle.limit)
    (hServes : session.Serves signing.txId) :
    Ends (altering store script alter) (signing.awaitApproval time) session
      (fun _ next => next.Serves signing.txId)
      fun error next => next.Serves signing.txId ∧ (error.IsMismatch →
        next.AtRest ∨ Misled script alter (Instruction.txGetInfo.command []) next) := by
  unfold awaitApproval
  induction time using Nat.strongRecOn generalizing session with
  | ind time ih =>
      obtain ⟨answer, next, hExchange, hPasses, hHeard⟩ :=
        exists_exchange_altering alter (hFaultless _) DeviceHandle.eventOfCommand_txGetInfo
      obtain ⟨current, hCurrent, hAwaiting⟩ := hServes.exists_awaiting script
      have hSince : next.Since current := hPasses.since hAwaiting
      have hNext : next.Serves signing.txId := hPasses.serves hCurrent hAwaiting
      rw [Ends, DeviceHandle.run_poll_of_exchange signing.verdict time (hFaultless _).delay_le
        hExchange]
      split
      · cases hInfo : answer.result.bind (DeviceHandle.readMessage (α := TxInfo)) with
        | error error =>
            have hOther := (noMismatch_result answer).bind noMismatch_readMessage error hInfo
            exact ⟨hNext, fun hMismatch => absurd hMismatch hOther⟩
        | ok info =>
            dsimp only
            cases hVerdict : signing.verdict info with
            | some result =>
                cases result with
                | ok _ => exact hNext
                | error error =>
                    refine ⟨hNext, fun _ => hHeard.imp_left fun hResult => ?_⟩
                    have hTold : answer.result.bind DeviceHandle.readMessage =
                        (.ok current.engine.info : Except HostError TxInfo) := by
                      rw [hResult, hAwaiting]
                      exact readMessage_state _ _
                    rw [hTold] at hInfo
                    cases hInfo
                    exact atRest_of_verdict hCurrent hSince hVerdict
            | none =>
                dsimp only
                split
                · next hRound =>
                    refine ih _ ?_ hNext
                    simp only [DeviceHandle.pollInterval] at *
                    omega
                · exact ⟨hNext, False.elim⟩
      · exact ⟨hNext, False.elim⟩

/-- A signature that the device hands out is the one of its request. -/
theorem txId_of_signature {phase : Phase store.Key} {answer : TxSignature} {id : TxId}
    (hServes : phase.Serves id)
    (hAnswer : (heard (phase.engine.update store .txGetSignature).1).bind
      DeviceHandle.readMessage = .ok answer) : answer.txId = id := by
  cases phase with
  | idle state txId hIdle =>
      obtain ⟨error, hNone⟩ := exists_signatureAnswer_idle store txId hIdle
      change (heard ((Phase.idle state txId hIdle).engine.signatureAnswer store)).bind _ = _
        at hAnswer
      rw [hNone] at hAnswer
      cases hAnswer
  | loading parts message => exact hServes.elim
  | review key request place step => cases hAnswer
  | signed request step signature =>
      change DeviceHandle.readMessage (Output.signature ⟨request.id, signature⟩).data = _
        at hAnswer
      rw [readMessage_signature] at hAnswer
      cases hAnswer
      exact hServes

/-- A signature is taken for the one of another request only if the last answer was altered. -/
theorem ends_signature_altering
    (hFaultless : ∀ number, (script number).Faultless signing.handle.limit)
    (hServes : session.Serves signing.txId) :
    Ends (altering store script alter) signing.signature session
      (fun _ next => next.Serves signing.txId)
      fun error next => error.IsMismatch →
        Misled script alter (Instruction.txGetSignature.command []) next := by
  obtain ⟨answer, next, hExchange, hPasses, hHeard⟩ :=
    exists_exchange_altering alter (hFaultless _) DeviceHandle.eventOfCommand_txGetSignature
  obtain ⟨current, hCurrent, hAwaiting⟩ := hServes.exists_awaiting script
  have hNext : next.Serves signing.txId := hPasses.serves hCurrent hAwaiting
  have hAsk := DeviceHandle.run_ask_of_exchange (α := TxSignature) (hFaultless _).delay_le
    hExchange
  unfold SigningRequest.signature
  cases hFetched : answer.result.bind (DeviceHandle.readMessage (α := TxSignature)) with
  | error error =>
      have hOther := (noMismatch_result answer).bind noMismatch_readMessage error hFetched
      rw [hFetched] at hAsk
      exact ends_of_run (run_bind_of_error hAsk) fun hMismatch => absurd hMismatch hOther
  | ok fetched =>
      rw [hFetched] at hAsk
      rw [Ends, run_bind_of_ok hAsk]
      by_cases hId : fetched.txId = signing.txId
      · have hCheck : checkTxId fetched.txId signing.txId = .ok () := if_pos hId
        rw [hCheck]
        exact hNext
      · have hCheck : checkTxId fetched.txId signing.txId = .error .txIdMismatch := if_neg hId
        rw [hCheck]
        refine fun _ => hHeard.resolve_left fun hResult => hId ?_
        rw [hResult, hAwaiting] at hFetched
        exact txId_of_signature hCurrent hFetched

/-- A call that collects a signature and meets with a mismatch leaves a device that is free, or
the host was misled by the last answer. -/
theorem ends_collect_altering {account : Account} {time : Nat}
    (hFaultless : ∀ number, (script number).Faultless signing.handle.limit)
    (hServes : session.Serves signing.txId) :
    Ends (altering store script alter) (signing.collect account time) session (fun _ _ => True)
      fun error next => error.IsMismatch → Astray script alter next := by
  refine ((ends_awaitApproval_altering hFaultless hServes).tryCatch ?_).bind ?_
  · rintro error next ⟨hNext, hMismatch⟩
    cases error with
    | userTimeout =>
        exact ((ends_completeAnyway_altering hFaultless hNext).imp (fun _ _ => id)
          fun _ _ hReleased _ => .atRest hReleased.toAtRest).bind fun _ _ _ => ends_throw False.elim
    | _ => exact ends_throw fun hError => (hMismatch hError).elim .atRest .misledWaiting
  · intro _ approved hApproved
    refine ((ends_signature_altering hFaultless hApproved).imp (fun _ _ => id)
      fun _ _ hMisled hError => .misledFetching (hMisled hError)).bind ?_
    intro signature fetched hFetched
    refine ((ends_complete_altering hFaultless hFetched).imp (fun _ _ _ => trivial)
      fun _ _ hReleased _ => .atRest hReleased.toAtRest).bind ?_
    intro _ released _
    dsimp only
    split
    · exact ends_pure trivial
    · exact ends_throw False.elim

end SigningRequest

namespace DeviceHandle

variable {handle : DeviceHandle} {path : DerivationPath}

/-- A device without a request stays so when it is asked for an account that it need not show. -/
theorem free_of_getAccount {command : Bytes} {request : AccountRequest}
    {next : InProcess store.Key} (hDisplay : request.display = false) (hFree : session.Free)
    (hPasses : session.Passes script command (.getAccount request) next) : next.Free := by
  obtain ⟨state, txId, hIdle, hSince⟩ := hFree
  obtain ⟨current, hRemains, hAwaiting⟩ := hSince.exists_awaiting script
  obtain ⟨after, id, hAfter, rfl⟩ := hRemains.eq_idle
  refine ⟨after, id, hAfter, hPasses.since ?_⟩
  rw [hAwaiting, update_getAccount_idle, snd_getAccount_of_not_display _ hDisplay]

/-- An altered account is never taken for a mismatch. -/
theorem ends_account_altering
    (hFaultless : ∀ number, (script number).Faultless handle.limit) (hFree : session.Free) :
    Ends (altering store script alter) (handle.account path none .standard) session
      (fun _ next => next.Free) fun error _ => ¬ error.IsMismatch := by
  let request : AccountRequest := ⟨path, none, .standard, false⟩
  have hParse : Event.parse ⟨Instruction.getAccount.code, 0, false, Message.toBytes request⟩ =
      .ok (.getAccount request) := Event.parse_getAccount (by simp [request])
  obtain ⟨answer, next, hExchange, hPasses, -⟩ := exists_exchange_altering alter (hFaultless _)
    (eventOfCommand_command request.length_toBytes_le hParse)
  have hNext : next.Free := free_of_getAccount rfl hFree hPasses
  have hSend := run_request_of_exchange request.length_toBytes_le (hFaultless _).delay_le hExchange
  rw [← run_send rfl] at hSend
  refine (ends_of_run hSend ((noMismatch_result answer).meets fun _ => hNext)).bind ?_
  intro data after hAfter
  refine (ends_done ((noMismatch_readMessage data).meets fun _ => hAfter)).bind ?_
  intro account _ hFree
  exact ends_done ((noMismatch_accountOf path none account).meets fun _ => hFree)

theorem ends_send_hash_altering {hash : FixedBytes 32}
    (hFaultless : ∀ number, (script number).Faultless handle.limit) (hFree : session.Free) :
    Ends (altering store script alter)
      (handle.send .signHash (⟨path, hash⟩ : HashSignRequest)) session
      (fun _ next => next.Serves hash) fun error _ => ¬ error.IsMismatch := by
  let request : HashSignRequest := ⟨path, hash⟩
  obtain ⟨answer, next, hExchange, hPasses, -⟩ := exists_exchange_altering alter (hFaultless _)
    (eventOfCommand_command request.length_toBytes_le (Event.parse_signHash request))
  have hNext : next.Serves hash := by
    obtain ⟨state, txId, hIdle, hSince⟩ := hFree
    obtain ⟨current, hRemains, hAwaiting⟩ := hSince.exists_awaiting script
    obtain ⟨after, id, hAfter, rfl⟩ := hRemains.eq_idle
    obtain ⟨phase, hServes, hUpdate⟩ := exists_serves_startHash store request
    refine hPasses.serves hServes ?_
    rw [hAwaiting, update_signHash_idle, hUpdate]
  have hSend := run_request_of_exchange request.length_toBytes_le (hFaultless _).delay_le hExchange
  rw [← run_send rfl] at hSend
  exact ends_of_run hSend ((noMismatch_result answer).meets fun _ => hNext)

/-- Behind a part that is not the last one the device waits for the next one, or has given the
message up, whatever the host hears. -/
theorem waits_of_more {number : Nat} {data part command : Bytes} {next : InProcess store.Key}
    (hMost : number + 1 ≤ 255) (hLength : (data ++ part).length ≤ maxPayload)
    (hWaits : Waits number data session)
    (hPasses : session.Passes script command (.txChunk (UInt8.ofNat number) true part) next) :
    Waits (number + 1) (data ++ part) next := by
  have hMeets := meets_more hMost hLength hWaits hPasses
  cases hHeard : heard ((session.awaiting script).update store
      (.txChunk (UInt8.ofNat number) true part)).1 with
  | ok answer =>
      rw [hHeard] at hMeets
      exact hMeets
  | error error =>
      rw [hHeard] at hMeets
      obtain ⟨state, txId, hIdle, hSince⟩ := hMeets
      have hSeq := seq_ne_zero (Nat.le_add_left 1 number) hMost
      exact ⟨_, hSince, fun _ hRemains => .inr ⟨hSeq, hRemains.eq_idle⟩⟩

/-- Behind the last part the device has the request for the transaction, or none. -/
theorem serves_of_last {tx : Bytes} {unsigned : UnsignedTx} {id : TxId} {number : Nat}
    {data part command : Bytes} {next : InProcess store.Key}
    (hDecode : UnsignedTx.decode tx = .ok (unsigned, id))
    (hLength : (path.toBytes ++ tx).length ≤ maxPayload)
    (hTotal : data ++ part = path.toBytes ++ tx)
    (hWaits : Waits number data session)
    (hPasses : session.Passes script command (.txChunk (UInt8.ofNat number) false part) next) :
    next.Serves id := by
  obtain ⟨phase, hSince, hAwaits⟩ := hWaits
  obtain ⟨current, hRemains, hAwaiting⟩ := hSince.exists_awaiting script
  rcases hAwaits current hRemains with hExpects | ⟨hSeq, state, txId, hIdle, rfl⟩
  · have hUpdate := hExpects false part (hTotal ▸ hLength)
    obtain ⟨after, hServes, hOpened⟩ := exists_serves_opened store path hDecode
    refine hPasses.serves hServes ?_
    rw [hAwaiting, hUpdate, hTotal, ← hOpened]
    rfl
  · have hServes : (Phase.idle state txId hIdle : Phase store.Key).Serves id := trivial
    refine hPasses.serves hServes ?_
    rw [hAwaiting, update_txChunk_idle hSeq]

theorem ends_send_transaction_altering {tx : Bytes} {unsigned : UnsignedTx} {id : TxId}
    (hDecode : UnsignedTx.decode tx = .ok (unsigned, id))
    (hFaultless : ∀ number, (script number).Faultless handle.limit) (hFree : session.Free) :
    Ends (altering store script alter)
      (handle.send .signTx (⟨path, tx⟩ : TxSignRequest)) session
      (fun _ next => next.Serves id) fun error _ => ¬ error.IsMismatch := by
  let payload := Message.toBytes (⟨path, tx⟩ : TxSignRequest)
  rw [Ends, run_send rfl]
  by_cases hLength : payload.length ≤ maxPayload
  · obtain ⟨state, txId, hIdle, hSince⟩ := hFree
    have hWaits : Waits 0 [] session := ⟨_, hSince, awaits_idle⟩
    have hSplit := (altering store script alter).perform_split handle.limit Waits
      (Meets (fun _ next => next.Serves id) fun error _ => ¬ error.IsMismatch) 0 [] ?_ ?_ hWaits
      rfl (Nat.zero_le _) hLength
    · obtain ⟨result, time, next, hPerform, hMeets⟩ := hSplit
      exact ends_of_run (run_request_of_perform hLength hPerform) hMeets
    · intro number data part session hMost hPart hFits hWaits
      obtain ⟨answer, next, hExchange, hPasses, -⟩ := exists_exchange_altering alter
        (hFaultless _) (eventOfCommand_part (UInt8.ofNat number) true hPart)
      have hNext := waits_of_more hMost hFits hWaits hPasses
      exact ⟨_, answer, next, hExchange, (hFaultless _).delay_le,
        (noMismatch_result answer).meets fun _ => hNext⟩
    · intro number data part session hPart hTotal hWaits
      obtain ⟨answer, next, hExchange, hPasses, -⟩ := exists_exchange_altering alter
        (hFaultless _) (eventOfCommand_part (UInt8.ofNat number) false hPart)
      have hNext := serves_of_last hDecode hLength hTotal hWaits hPasses
      exact ⟨_, answer, next, hExchange, (hFaultless _).delay_le,
        (noMismatch_result answer).meets fun _ => hNext⟩
  · have hFraming : commands Instruction.signTx.code payload =
        .error (.framing .payloadTooLarge) := by
      rw [commands, frame, if_pos (Nat.not_le.1 hLength)]
    rw [request, hFraming]
    exact not_false

/-- A request that is opened is the one of the device, or the device has none. A mismatch is
noticed by the host, which releases the device. -/
theorem ends_openRequest_altering {α : Type} [Message α] {instruction : Instruction}
    {content : α} {txId : TxId} (hFaultless : ∀ number, (script number).Faultless handle.limit)
    (hSend : Ends (altering store script alter) (handle.send instruction content) session
      (fun _ next => next.Serves txId) fun error _ => ¬ error.IsMismatch) :
    Ends (altering store script alter) (handle.openRequest instruction content txId) session
      (fun signing next => signing = ⟨txId, handle⟩ ∧ next.Serves txId)
      fun error next => error.IsMismatch → next.Released := by
  refine (hSend.imp (fun _ _ => id) fun _ _ hOther hError => absurd hError hOther).bind ?_
  intro data sent hSent
  cases hRead : (readMessage data : Except HostError TxInfo) with
  | error error =>
      exact fun hError => absurd hError (noMismatch_readMessage data error hRead)
  | ok info =>
      apply ends_done_bind
      dsimp only
      split
      · exact ends_pure ⟨rfl, hSent⟩
      · have hRelease : Ends (altering store script alter)
            (SigningRequest.completeAnyway ⟨txId, handle⟩) sent (fun _ => Released)
            fun error next => error.IsMismatch → next.Released :=
          (SigningRequest.ends_completeAnyway_altering hFaultless hSent).imp (fun _ _ => id)
            fun _ _ hReleased _ => hReleased
        exact hRelease.bind fun _ _ hReleased => ends_throw fun _ => hReleased

theorem ends_openTransaction_altering (tx : Bytes)
    (hFaultless : ∀ number, (script number).Faultless handle.limit) (hFree : session.Free) :
    Ends (altering store script alter) (handle.openTransaction path tx) session
      (fun signing next => signing.handle = handle ∧ next.Serves signing.txId)
      fun error next => error.IsMismatch → next.Released := by
  unfold openTransaction
  cases hDecode : UnsignedTx.decode tx with
  | error error => exact ends_throw False.elim
  | ok decoded =>
      refine (ends_openRequest_altering hFaultless
        (ends_send_transaction_altering hDecode hFaultless hFree)).imp ?_ fun _ _ => id
      rintro signing next ⟨rfl, hServes⟩
      exact ⟨rfl, hServes⟩

theorem ends_openHash_altering (hash : FixedBytes 32)
    (hFaultless : ∀ number, (script number).Faultless handle.limit) (hFree : session.Free) :
    Ends (altering store script alter) (handle.openHash path hash) session
      (fun signing next => signing.handle = handle ∧ next.Serves signing.txId)
      fun error next => error.IsMismatch → next.Released := by
  refine (ends_openRequest_altering hFaultless
    (ends_send_hash_altering hFaultless hFree)).imp ?_ fun _ _ => id
  rintro signing next ⟨rfl, hServes⟩
  exact ⟨rfl, hServes⟩

/-- An account is asked for, a request is opened and its signature is collected. -/
theorem ends_signing_altering {time : Nat} {opening : HostCall SigningRequest}
    (hFaultless : ∀ number, (script number).Faultless handle.limit) (hFree : session.Free)
    (hOpening : ∀ session : InProcess store.Key, session.Free →
      Ends (altering store script alter) opening session
        (fun signing next => signing.handle = handle ∧ next.Serves signing.txId)
        fun error next => error.IsMismatch → next.Released) :
    Ends (altering store script alter)
      (do
        let account ← handle.account path none .standard
        let request ← opening
        request.collect account time) session (fun _ _ => True)
      fun error next => error.IsMismatch → Astray script alter next := by
  refine ((ends_account_altering hFaultless hFree).imp (fun _ _ => id)
    fun _ _ hOther hError => absurd hError hOther).bind ?_
  intro account asked hAsked
  refine ((hOpening asked hAsked).imp (fun _ _ => id)
    fun _ _ hReleased hError => .atRest (hReleased hError).toAtRest).bind ?_
  rintro signing opened ⟨rfl, hServes⟩
  exact SigningRequest.ends_collect_altering hFaultless hServes

/-- Where a call fails with a mismatch, this holds of the channel behind it. -/
def LeavesOnMismatch {σ α : Type} (link : Link σ) (call : HostCall α) (state : σ)
    (left : σ → Prop) : Prop :=
  ∀ error next, call.run.run link state = (.error error, next) → error.IsMismatch → left next

theorem leavesOnMismatch_of_ends {σ α : Type} {link : Link σ} {call : HostCall α} {state : σ}
    {ok : α → σ → Prop} {left : σ → Prop}
    (hCall : Ends link call state ok fun error next => error.IsMismatch → left next) :
    LeavesOnMismatch link call state left := by
  intro error next hRun
  rw [Ends, hRun] at hCall
  exact hCall

theorem LeavesOnMismatch.of_error {σ α : Type} {link : Link σ} {call : HostCall α} {state : σ}
    {left : σ → Prop} {error : HostError} (hLeaves : LeavesOnMismatch link call state left)
    (hError : (call.run.run link state).1 = .error error) (hMismatch : error.IsMismatch) :
    left (call.run.run link state).2 :=
  hLeaves error _ (Prod.ext hError rfl) hMismatch

/-- A call that opens a request and fails with a mismatch has released the device. A call to sign
that fails so leaves a device at rest, or its last answer was altered, which was one about the
progress of the request or the signature. -/
theorem mismatch_releases (store : KeyStore) (operations : List Operation)
    (exchanges : List Exchange) (script : Nat → Incident)
    (alter : InProcess store.Key → Answer → Answer) (handle : DeviceHandle)
    (path : DerivationPath) (time : Nat)
    (hIdle : (after store operations).state.isBusy = false)
    (hFaultless : ∀ number, (script number).Faultless handle.limit) :
    let session : InProcess store.Key := ⟨after store operations, exchanges⟩
    let wire := altering store script alter
    let astray := Astray script alter
    (∀ tx, LeavesOnMismatch wire (handle.openTransaction path tx) session Released) ∧
      (∀ hash, LeavesOnMismatch wire (handle.openHash path hash) session Released) ∧
      (∀ tx, LeavesOnMismatch wire (handle.signTransaction path tx time) session astray) ∧
      ∀ hash, LeavesOnMismatch wire (handle.signHash path hash time) session astray := by
  intro session wire astray
  have hFree : session.Free := free_of_after exchanges hIdle
  refine ⟨fun tx => ?_, fun hash => ?_, fun tx => ?_, fun hash => ?_⟩
  · exact leavesOnMismatch_of_ends (ends_openTransaction_altering tx hFaultless hFree)
  · exact leavesOnMismatch_of_ends (ends_openHash_altering hash hFaultless hFree)
  · exact leavesOnMismatch_of_ends (ends_signing_altering hFaultless hFree
      fun _ hFree => ends_openTransaction_altering tx hFaultless hFree)
  · exact leavesOnMismatch_of_ends (ends_signing_altering hFaultless hFree
      fun _ hFree => ends_openHash_altering hash hFaultless hFree)

/-- The first byte of the identifier is inverted in the answer to the command with this number. -/
def garbling {Key : Type} (number : Nat) (session : InProcess Key) (answer : Answer) : Answer :=
  if session.exchanges.length = number + 1 then
    { answer with data := answer.data.modify 3 (· ^^^ 0xff) }
  else answer

/-- The user approves a request at once. -/
def approvesAtOnce (number : Nat) : Incident :=
  { Incident.none with after := if number = 1 then [.approve] else [] }

theorem approvesAtOnce_faultless (limit number : Nat) : (approvesAtOnce number).Faultless limit :=
  ⟨rfl, rfl, rfl, Nat.zero_le limit⟩

/-- Why a call has failed, if it has. -/
def failure? {α : Type} : Except HostError α → Option HostError
  | .ok _ => none
  | .error error => some error

theorem eq_error_of_failure? {α : Type} {result : Except HostError α} {error : HostError}
    (hFailure : failure? result = some error) : result = .error error := by
  cases result with
  | ok value => cases hFailure
  | error found => exact congrArg Except.error (Option.some.inj hFailure)

theorem openHash_garbling :
    failure? ((standard.openHash firstAccount (FixedBytes.zero 32)).run.run
      (altering oneKey approvesAtOnce (garbling 0)) ⟨after oneKey [], []⟩).1 =
        some .txIdMismatch := by
  decide +kernel

theorem openTransaction_garbling :
    failure? ((standard.openTransaction firstAccount UnsignedTx.payment.toBytes).run.run
      (altering oneKey approvesAtOnce (garbling 1)) ⟨after oneKey [], []⟩).1 =
        some .txIdMismatch := by
  decide +kernel

/-- The user approves a hash, and the identifier is altered in the answer that tells of it. -/
theorem signHash_garbling :
    let signed := (standard.signHash firstAccount (FixedBytes.zero 32) 1000).run.run
      (altering oneKey approvesAtOnce (garbling 2)) ⟨after oneKey [], []⟩
    failure? signed.1 = some .txIdMismatch ∧ signed.2.engine.state.isBusy = true ∧
      signed.2.commands.head? = some (Instruction.txGetInfo.command []) := by
  decide +kernel

/-- A request is opened, and its identifier is altered on the way back: that of a hash, and that of
a transaction in two parts. When a hash is signed, it is altered in the first answer about the
progress. -/
theorem mismatch_releases_garbling :
    let session : InProcess oneKey.Key := ⟨after oneKey [], []⟩
    let hash := FixedBytes.zero 32
    let opened := (standard.openHash firstAccount hash).run.run
      (altering oneKey approvesAtOnce (garbling 0)) session
    let sent := (standard.openTransaction firstAccount UnsignedTx.payment.toBytes).run.run
      (altering oneKey approvesAtOnce (garbling 1)) session
    let signed := (standard.signHash firstAccount hash 1000).run.run
      (altering oneKey approvesAtOnce (garbling 2)) session
    session.engine.state.isBusy = false ∧
      (∀ number, (approvesAtOnce number).Faultless standard.limit) ∧
      opened.1 = .error .txIdMismatch ∧ opened.2.Released ∧
      sent.1 = .error .txIdMismatch ∧ sent.2.Released ∧
      signed.1 = .error .txIdMismatch ∧ Astray approvesAtOnce (garbling 2) signed.2 := by
  have hOpened := eq_error_of_failure? openHash_garbling
  have hSent := eq_error_of_failure? openTransaction_garbling
  have hSigned := eq_error_of_failure? signHash_garbling.1
  have hFaultless := approvesAtOnce_faultless standard.limit
  have hFirst := mismatch_releases oneKey [] [] approvesAtOnce (garbling 0) standard firstAccount
    1000 rfl hFaultless
  have hSecond := mismatch_releases oneKey [] [] approvesAtOnce (garbling 1) standard firstAccount
    1000 rfl hFaultless
  have hThird := mismatch_releases oneKey [] [] approvesAtOnce (garbling 2) standard firstAccount
    1000 rfl hFaultless
  exact ⟨rfl, hFaultless, hOpened, (hFirst.2.1 _).of_error hOpened trivial, hSent,
    (hSecond.1 _).of_error hSent trivial, hSigned, (hThird.2.2.2 _).of_error hSigned trivial⟩

/-- The host gives up without a word to the device, which keeps the signature. -/
theorem signHash_misled_signed :
    let session : InProcess oneKey.Key := ⟨after oneKey [], []⟩
    let signed := (standard.signHash firstAccount (FixedBytes.zero 32) 1000).run.run
      (altering oneKey approvesAtOnce (garbling 2)) session
    session.engine.state.isBusy = false ∧
      (∀ number, (approvesAtOnce number).Faultless standard.limit) ∧
      signed.1 = .error .txIdMismatch ∧ signed.2.engine.state.isBusy = true ∧
      signed.2.commands.head? = some (Instruction.txGetInfo.command []) :=
  ⟨rfl, approvesAtOnce_faultless _, eq_error_of_failure? signHash_garbling.1,
    signHash_garbling.2.1, signHash_garbling.2.2⟩

end DeviceHandle

end ColdSigner
