import ColdSigner.Proofs.AccountSearch
import ColdSigner.Proofs.HonestExchanges
/-!
# How a request reaches a device

A request for an account or to sign a hash fits into one part. A transaction is sent part by part,
and what holds behind each part is carried to the end (`DeviceHandle.exists_perform_split`).
-/
namespace ColdSigner

theorem AccountRequest.length_toBytes (request : AccountRequest) :
    (Message.toBytes request).length =
      3 + 4 * request.path.depth + if request.display then 1 else 0 := by
  have hPath := request.path.length_toBytes
  change (AccountRequest.toBytes request).length = _
  rw [AccountRequest.toBytes, List.length_append, List.length_cons, List.length_cons, hPath]
  split <;> simp <;> omega

theorem AccountRequest.length_toBytes_le (request : AccountRequest) :
    (Message.toBytes request).length ≤ maxChunkData := by
  have hDepth : request.path.depth ≤ 8 := request.path.length_le
  rw [length_toBytes, maxChunkData]
  split <;> omega

theorem HashSignRequest.length_toBytes (request : HashSignRequest) :
    (Message.toBytes request).length = 33 + 4 * request.path.depth := by
  have hPath := request.path.length_toBytes
  change (request.path.toBytes ++ request.hash.toList).length = _
  rw [List.length_append, hPath, request.hash.length_toList]
  omega

theorem HashSignRequest.length_toBytes_le (request : HashSignRequest) :
    (Message.toBytes request).length ≤ maxChunkData := by
  have hDepth : request.path.depth ≤ 8 := request.path.length_le
  rw [length_toBytes, maxChunkData]
  omega

namespace Event

variable {seq : UInt8} {more : Bool}

theorem parse_getAccount {request : AccountRequest} (hGroup : request.group ≠ some noGroup) :
    parse ⟨Instruction.getAccount.code, seq, more, Message.toBytes request⟩ =
      .ok (.getAccount request) := by
  obtain ⟨path, group, keyType, display⟩ := request
  change (Message.decode (Message.toBytes _)).map getAccount = _
  rw [(AccountRequest.readsBack hGroup).decode_eq]
  rfl

theorem parse_signHash (request : HashSignRequest) :
    parse ⟨Instruction.signHash.code, seq, more, Message.toBytes request⟩ =
      .ok (.signHash request) := by
  change (Message.decode (Message.toBytes request)).map signHash = _
  rw [request.readsBack.decode_eq]
  rfl

end Event

namespace Engine

variable {store : KeyStore}

/-- A device that can be reached and is not busy has no request. -/
theorem exists_idle_of_after {operations : List Operation}
    (hIdle : (after store operations).state.isBusy = false) :
    ∃ state txId hState,
      after store operations = (Phase.idle state txId hState : Phase store.Key).engine := by
  obtain ⟨phase, run⟩ := exists_run store operations
  have hEngine := run.after_eq
  rw [hEngine] at hIdle
  cases phase with
  | idle state txId hState => exact ⟨state, txId, hState, hEngine⟩
  | loading parts message => cases hIdle
  | review key request place step => cases hIdle
  | signed request step signature => cases hIdle

section Idle

variable {state : EngineState} {txId : TxId} {hIdle : state.isBusy = false}

theorem update_getAccount_idle (request : AccountRequest) :
    (Phase.idle state txId hIdle).engine.update store (.getAccount request) =
      getAccount store (Phase.idle state txId hIdle).engine request := by
  have hBusy : (Phase.idle state txId hIdle : Phase store.Key).engine.state.isBusy = false := hIdle
  simp only [update, hBusy, Bool.false_eq_true, if_false]

theorem update_signHash_idle (request : HashSignRequest) :
    (Phase.idle state txId hIdle).engine.update store (.signHash request) =
      startHash store request := by
  have hBusy : (Phase.idle state txId hIdle : Phase store.Key).engine.state.isBusy = false := hIdle
  simp only [update, hBusy, Bool.false_eq_true, if_false]

/-- A part of a message that was given up is refused. -/
theorem update_txChunk_idle {seq : UInt8} {more : Bool} {data : Bytes} (hSeq : seq ≠ 0) :
    (Phase.idle state txId hIdle).engine.update store (.txChunk seq more data) =
      (.error .protocolFraming, (Phase.idle state txId hIdle).engine) := by
  rw [update, loadChunk_idle, if_pos hSeq]

end Idle

section Derived

variable {account : Account} {key : store.Key}

/-- The device tells of the account that it derives, and shows the address if that is wanted. -/
theorem getAccount_of_derive (engine : Engine store.Key) {request : AccountRequest}
    (hDerive : store.derive request.path request.group request.keyType = .ok (account, key)) :
    getAccount store engine request =
      (.ok (.account ⟨account.index, account.group, account.keyType, account.publicKey⟩),
        if request.display then reviewing none ⟨.address, FixedBytes.zero 32, account⟩
        else engine) := by
  simp only [getAccount, hDerive]

theorem getAccount_of_error (engine : Engine store.Key) {request : AccountRequest}
    {error : DeviceError}
    (hDerive : store.derive request.path request.group request.keyType = .error error) :
    getAccount store engine request = (.error error, engine) := by
  simp only [getAccount, hDerive]

/-- A device that shows no address stays as it is. -/
theorem snd_getAccount_of_not_display (engine : Engine store.Key) {request : AccountRequest}
    (hDisplay : request.display = false) : (getAccount store engine request).2 = engine := by
  unfold getAccount
  split
  · rfl
  · rw [hDisplay]
    rfl

theorem startHash_of_derive {request : HashSignRequest}
    (hDerive : store.derive request.path none .standard = .ok (account, key)) :
    startHash store request =
      (.ok (.state (.review 0) request.hash),
        reviewing (some key) ⟨.hash, request.hash, account⟩) := by
  simp only [startHash, hDerive]
  rfl

theorem opened_of_decodeRequest {payload : Bytes} {request : Review}
    (hRequest : decodeRequest store payload = .ok (key, request)) :
    opened store payload =
      (.ok (.state (.review 0) request.id), reviewing (some key) request) := by
  simp only [opened, hRequest]

end Derived

theorem eventOfCommand_part (seq : UInt8) (more : Bool) {part : Bytes}
    (hPart : part.length ≤ maxChunkData) :
    eventOfCommand (Command.ofChunk ⟨Instruction.signTx.code, seq, more, part⟩).toBytes =
      .ok (.txChunk seq more part) := by
  have hIns : (⟨Instruction.signTx.code, seq, more, part⟩ : Chunk).ins =
      Instruction.signTx.code := rfl
  exact eventOfCommand_ofChunk hPart hIns (fun hOther => absurd rfl hOther) rfl

end Engine

/-- The command that carries a part of a transaction. -/
def partCommand (number : Nat) (more : Bool) (part : Bytes) : Bytes :=
  (Command.ofChunk ⟨Instruction.signTx.code, UInt8.ofNat number, more, part⟩).toBytes

/-- A message that is sent part by part over a channel that answers each of them in time. What holds
before a part holds before the next one, or the part is refused; so the request ends as it ends with
the last part, or with an earlier one. -/
theorem Link.perform_split {σ : Type} (link : Link σ) (limit : Nat)
    (waits : Nat → Bytes → σ → Prop) (ended : Except HostError Bytes → σ → Prop) {number : Nat}
    {total data payload : Bytes} (elapsed : Nat) (last : Bytes) {state : σ}
    (hMore : ∀ number data part state, number + 1 ≤ 255 → part.length ≤ maxChunkData →
      (data ++ part).length ≤ maxPayload → waits number data state →
      ∃ delay answer next,
        link.exchange state (partCommand number true part) = (.after delay (.ok answer), next) ∧
        delay ≤ limit ∧ HostCall.Meets (fun _ => waits (number + 1) (data ++ part))
          (fun error => ended (.error error)) answer.result next)
    (hLast : ∀ number data part state, part.length ≤ maxChunkData → data ++ part = total →
      waits number data state →
      ∃ delay answer next,
        link.exchange state (partCommand number false part) = (.after delay (.ok answer), next) ∧
        delay ≤ limit ∧ ended answer.result next)
    (hWaits : waits number data state) (hTotal : data ++ payload = total)
    (hCount : number * maxChunkData ≤ data.length) (hLength : total.length ≤ maxPayload) :
    ∃ result time next, link.perform limit none
        ((Chunk.split Instruction.signTx.code (UInt8.ofNat number) payload).map fun chunk =>
          (Command.ofChunk chunk).toBytes) elapsed last state = (.ended result time, next) ∧
      ended result next := by
  induction hSize : payload.length using Nat.strongRecOn
    generalizing number data payload last elapsed state with
  | ind size ih =>
      rw [Chunk.split]
      split
      · next hShort =>
          obtain ⟨delay, answer, next, hExchange, hDelay, hEnded⟩ :=
            hLast number data payload state hShort hTotal hWaits
          exact ⟨_, _, next, perform_single none elapsed last hDelay hExchange, hEnded⟩
      · next hLong =>
          let part := payload.take maxChunkData
          have hPart : part.length = maxChunkData := List.length_take_of_le (by omega)
          have hRest : (data ++ part) ++ payload.drop maxChunkData = total := by
            rw [List.append_assoc, List.take_append_drop, hTotal]
          have hFits : (data ++ part).length ≤ maxPayload := by
            rw [← hRest, List.length_append] at hLength
            exact Nat.le_trans (Nat.le_add_right _ _) hLength
          have hMoreData : (number + 1) * maxChunkData ≤ (data ++ part).length := by
            rw [List.length_append, hPart, Nat.succ_mul]
            exact Nat.add_le_add_right hCount _
          have hMost : number + 1 ≤ 255 := by
            simp only [maxPayload, maxChunkData] at hFits hMoreData
            omega
          have hLess : (payload.drop maxChunkData).length < size := by
            rw [List.length_drop]
            simp only [maxChunkData] at hLong ⊢
            omega
          obtain ⟨delay, answer, next, hExchange, hDelay, hMeets⟩ :=
            hMore number data part state hMost (Nat.le_of_eq hPart) hFits hWaits
          unfold partCommand at hExchange
          rw [List.map_cons, perform_cons, hExchange, settle_of_le hDelay]
          cases hResult : answer.result with
          | error error =>
              rw [hResult] at hMeets
              exact ⟨_, _, next, rfl, hMeets⟩
          | ok heard =>
              rw [hResult] at hMeets
              have hNext : waits (number + 1) (data ++ part) next := hMeets
              rw [← UInt8.ofNat_one, ← UInt8.ofNat_add]
              exact ih _ hLess _ _ hNext hRest hMoreData rfl

namespace DeviceHandle

open Engine InProcess HostCall

variable {store : KeyStore} {script : Nat → Incident} {session : InProcess store.Key}

/-- A message that is sent part by part. What holds before a part holds before the next one, or
the part is refused; so the request ends as it ends with the last part, or with an earlier one. -/
theorem exists_perform_split (waits : Nat → Bytes → InProcess store.Key → Prop)
    (ended : Except HostError Bytes → InProcess store.Key → Prop) {limit number : Nat}
    {total data payload : Bytes} (elapsed : Nat) (last : Bytes)
    (hFaultless : ∀ number, (script number).Faultless limit)
    (hMore : ∀ number data part session command next, number + 1 ≤ 255 →
      (data ++ part).length ≤ maxPayload → waits number data session →
      session.Passes script command (.txChunk (UInt8.ofNat number) true part) next →
      Meets (fun _ => waits (number + 1) (data ++ part)) (fun error => ended (.error error))
        (heard ((session.awaiting script).update store
          (.txChunk (UInt8.ofNat number) true part)).1) next)
    (hLast : ∀ number data part session command next, data ++ part = total →
      waits number data session →
      session.Passes script command (.txChunk (UInt8.ofNat number) false part) next →
      ended (heard ((session.awaiting script).update store
        (.txChunk (UInt8.ofNat number) false part)).1) next)
    (hWaits : waits number data session) (hTotal : data ++ payload = total)
    (hCount : number * maxChunkData ≤ data.length) (hLength : total.length ≤ maxPayload) :
    ∃ result time next, (link store script).perform limit none
        ((Chunk.split Instruction.signTx.code (UInt8.ofNat number) payload).map fun chunk =>
          (Command.ofChunk chunk).toBytes) elapsed last session = (.ended result time, next) ∧
      ended result next := by
  refine (link store script).perform_split limit waits ended elapsed last ?_ ?_ hWaits hTotal hCount
    hLength
  · intro number data part session hMost hPart hFits hWaits
    obtain ⟨answer, next, hExchange, hPasses, hResult⟩ :=
      exists_exchange (hFaultless session.exchanges.length) (eventOfCommand_part _ true hPart)
    refine ⟨_, answer, next, hExchange, (hFaultless _).delay_le, ?_⟩
    rw [hResult]
    exact hMore number data part session _ next hMost hFits hWaits hPasses
  · intro number data part session hPart hTotal hWaits
    obtain ⟨answer, next, hExchange, hPasses, hResult⟩ :=
      exists_exchange (hFaultless session.exchanges.length) (eventOfCommand_part _ false hPart)
    refine ⟨_, answer, next, hExchange, (hFaultless _).delay_le, ?_⟩
    rw [hResult]
    exact hLast number data part session _ next hTotal hWaits hPasses

/-- What a host that asks for an account hears of a device without a request. -/
def derived (store : KeyStore) (path : DerivationPath) (group : Option UInt8) (keyType : KeyType) :
    Except HostError Account :=
  match store.derive path group keyType with
  | .ok (account, _) => .ok account
  | .error error => .error (.ofStatus error.status)

section Derived

variable {path : DerivationPath} {group : Option UInt8} {keyType : KeyType}

theorem derived_of_ok {account : Account} {key : store.Key}
    (hDerive : store.derive path group keyType = .ok (account, key)) :
    derived store path group keyType = .ok account := by
  simp only [derived, hDerive]

theorem derived_of_error {error : DeviceError}
    (hDerive : store.derive path group keyType = .error error) :
    derived store path group keyType = .error (.ofStatus error.status) := by
  simp only [derived, hDerive]

/-- The host accepts what the device derives, and hears why it derives nothing. -/
theorem exists_run_requestAccount {handle : DeviceHandle} (display : Bool) {state : EngineState}
    {txId : TxId} {hIdle : state.isBusy = false}
    (hFaultless : (session.incident script).Faultless handle.limit) (hGroup : group ≠ some noGroup)
    (hAwaiting : session.awaiting script = (Phase.idle state txId hIdle).engine) :
    let request : AccountRequest := ⟨path, group, keyType, display⟩
    ∃ next, session.Passes script (Instruction.getAccount.command (Message.toBytes request))
        (.getAccount request) next ∧
      (handle.requestAccount path group keyType display).run.run (link store script) session =
        (derived store path group keyType, next) := by
  intro request
  have hParse : Event.parse ⟨Instruction.getAccount.code, 0, false, Message.toBytes request⟩ =
      .ok (.getAccount request) := Event.parse_getAccount hGroup
  obtain ⟨next, hPasses, hRequest⟩ := exists_run_request hFaultless request.length_toBytes_le hParse
  refine ⟨next, hPasses, ?_⟩
  rw [hAwaiting, update_getAccount_idle, ← run_send rfl] at hRequest
  unfold requestAccount
  cases hDerive : store.derive path group keyType with
  | error error =>
      rw [getAccount_of_error _ hDerive] at hRequest
      rw [derived_of_error hDerive]
      exact run_bind_of_error hRequest
  | ok found =>
      obtain ⟨account, key⟩ := found
      rw [getAccount_of_derive _ hDerive] at hRequest
      rw [derived_of_ok hDerive, run_bind_of_ok hRequest, readMessage_account,
        run_bind_of_ok (run_done _), accountOf_of_derive hDerive]
      rfl

end Derived

end DeviceHandle

end ColdSigner
