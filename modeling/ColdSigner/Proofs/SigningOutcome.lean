import ColdSigner.Proofs.HostSignatures
import ColdSigner.Proofs.RequestTransfer
import ColdSigner.Proofs.UserDecisions
/-!
# How a call to sign ends

Where nothing goes wrong and the user does no more than approve and refuse, a call to sign returns
the signature, tells that the user refused, or runs out of time, as the user decides
(`DeviceHandle.signing_follows_user`).
-/
namespace ColdSigner

open Engine InProcess HostCall

namespace InProcess

variable {store : KeyStore} {script : Nat → Incident} {session next : InProcess store.Key}
  {phase : Phase store.Key}

theorem awaiting_of_settled (hQuiet : ∀ number, (script number).Quiet) (hSettled : phase.Settled)
    (hEngine : session.engine = phase.engine) : session.awaiting script = phase.engine := by
  rw [awaiting, hEngine]
  exact hSettled.acted_eq (hQuiet _).decides_before

theorem Passes.engine_of_settled {command : Bytes} {event : Event}
    (hPasses : session.Passes script command event next)
    (hQuiet : ∀ number, (script number).Quiet) (hSettled : phase.Settled)
    (hUpdate : ((session.awaiting script).update store event).2 = phase.engine) :
    next.engine = phase.engine := by
  rw [hPasses.engine_eq, hUpdate]
  exact hSettled.acted_eq (hQuiet _).decides_after

end InProcess

/-- The commands that carry a payload. -/
def Instruction.commands (instruction : Instruction) (payload : Bytes) : List Bytes :=
  (Chunk.split instruction.code 0 payload).map fun chunk => (Command.ofChunk chunk).toBytes

theorem Instruction.commands_of_le {instruction : Instruction} {payload : Bytes}
    (hPayload : payload.length ≤ maxChunkData) :
    instruction.commands payload = [instruction.command payload] := by
  rw [commands, Chunk.split, dif_pos hPayload]
  rfl

/-- How a call to sign ends that has asked so many questions behind the exchange with the number
`first`, which opened the request. -/
structure FollowsUser (script : Nat → Incident) (first steps time : Nat) (signed : SignedTx)
    (asked : Nat) (result : Except HostError SignedTx) : Prop where
  asked_pos : 0 < asked
  /-- The signature is returned if, before some question, the user has approved all steps. -/
  approved : (∃ poll < asked, Approves steps (decisions script first (poll + 1))) →
    result = .ok signed
  /-- A refusal is told if, before some question, the user has refused before that. -/
  refused : (∃ poll < asked, Refuses steps (decisions script first (poll + 1))) →
    result = .error .userRejected
  /-- Otherwise the time runs out, and there were as many questions as fit into it. -/
  undecided : (∀ poll < asked, ¬ Approves steps (decisions script first (poll + 1)) ∧
      ¬ Refuses steps (decisions script first (poll + 1))) →
    result = .error .userTimeout ∧ asked = time / DeviceHandle.pollInterval + 1

/-- The last question settles it, since nothing was decided at the earlier ones. -/
theorem FollowsUser.of_last {script : Nat → Incident} {first steps time more : Nat}
    {signed : SignedTx} {result : Except HostError SignedTx}
    (hEarlier : ∀ poll < more, ¬ Approves steps (decisions script first (poll + 1)) ∧
      ¬ Refuses steps (decisions script first (poll + 1)))
    (hApproved : Approves steps (decisions script first (more + 1)) → result = .ok signed)
    (hRefused : Refuses steps (decisions script first (more + 1)) →
      result = .error .userRejected)
    (hUndecided : ¬ Approves steps (decisions script first (more + 1)) →
      ¬ Refuses steps (decisions script first (more + 1)) →
        result = .error .userTimeout ∧ more = time / DeviceHandle.pollInterval) :
    FollowsUser script first steps time signed (more + 1) result where
  asked_pos := Nat.succ_pos more
  approved := by
    rintro ⟨poll, hPoll, hApproves⟩
    rcases Nat.lt_succ_iff_lt_or_eq.1 hPoll with hLess | rfl
    · exact absurd hApproves (hEarlier poll hLess).1
    · exact hApproved hApproves
  refused := by
    rintro ⟨poll, hPoll, hRefuses⟩
    rcases Nat.lt_succ_iff_lt_or_eq.1 hPoll with hLess | rfl
    · exact absurd hRefuses (hEarlier poll hLess).2
    · exact hRefused hRefuses
  undecided := by
    intro hNone
    obtain ⟨hApproves, hRefuses⟩ := hNone more (Nat.lt_succ_self more)
    obtain ⟨hResult, hMore⟩ := hUndecided hApproves hRefuses
    exact ⟨hResult, congrArg (· + 1) hMore⟩

/-- The commands behind the last question, the last one in front: a signature is fetched and the
request is released, or it is given up. -/
def closing : Except HostError SignedTx → List Bytes
  | .ok _ => [Instruction.txComplete.command [], Instruction.txGetSignature.command []]
  | .error .userTimeout => [Instruction.txComplete.command []]
  | .error _ => []

namespace SigningRequest

variable {store : KeyStore} {script : Nat → Incident} {session : InProcess store.Key}
  {signing : SigningRequest} {request : Review} {signature : Signature}

theorem exists_run_complete
    (hFaultless : (session.incident script).Faultless signing.handle.limit) :
    ∃ next, signing.complete.run.run (link store script) session = (.ok (), next) ∧
      next.commands = Instruction.txComplete.command [] :: session.commands := by
  have hParse : Event.parse ⟨Instruction.txComplete.code, 0, false, []⟩ = .ok .txComplete := rfl
  obtain ⟨next, hPasses, hAsk⟩ := DeviceHandle.exists_run_ask (α := TxInfo) hFaultless hParse
  have hRead : (heard ((session.awaiting script).update store .txComplete).1).bind
      DeviceHandle.readMessage = .ok (⟨.complete, 0, (session.awaiting script).txId⟩ : TxInfo) :=
    readMessage_state .complete _
  rw [hRead] at hAsk
  exact ⟨next, run_bind_of_ok hAsk, hPasses.commands_eq⟩

theorem exists_run_signature {step : UInt16} (hQuiet : ∀ number, (script number).Quiet)
    (hId : request.id = signing.txId)
    (hEngine : session.engine = (Phase.signed request step signature).engine) :
    ∃ next, signing.signature.run.run (link store script) session = (.ok signature, next) ∧
      next.commands = Instruction.txGetSignature.command [] :: session.commands := by
  have hAwaiting := awaiting_of_settled hQuiet Phase.settled_signed hEngine
  have hParse : Event.parse ⟨Instruction.txGetSignature.code, 0, false, []⟩ =
      .ok .txGetSignature := rfl
  obtain ⟨next, hPasses, hAsk⟩ := DeviceHandle.exists_run_ask (α := TxSignature)
    ((hQuiet _).faultless_of signing.handle.limit) hParse
  have hRead : (heard ((session.awaiting script).update store .txGetSignature).1).bind
      DeviceHandle.readMessage = .ok (⟨request.id, signature⟩ : TxSignature) := by
    rw [hAwaiting]
    exact readMessage_signature _
  have hCheck : checkTxId request.id signing.txId = .ok () := if_pos hId
  rw [hRead] at hAsk
  refine ⟨next, ?_, hPasses.commands_eq⟩
  unfold SigningRequest.signature
  rw [run_bind_of_ok hAsk, hCheck]
  exact run_bind_of_ok (run_done _)

section Collect

variable {account : Account} {time : Nat} {middle : InProcess store.Key}

/-- The signature of what the user has approved is fetched and checked, and the request is
released. -/
theorem exists_run_collect_approved {step : UInt16} (hQuiet : ∀ number, (script number).Quiet)
    (hId : request.id = signing.txId)
    (hVerify : (⟨signing.txId, signature, account.publicKey⟩ : SignedTx).verify = true)
    (hApproval : (signing.awaitApproval time).run.run (link store script) session =
      (.ok (), middle))
    (hEngine : middle.engine = (Phase.signed request step signature).engine) :
    ∃ next, (signing.collect account time).run.run (link store script) session =
        (.ok ⟨signing.txId, signature, account.publicKey⟩, next) ∧
      next.commands = closing (.ok ⟨signing.txId, signature, account.publicKey⟩) ++
        middle.commands := by
  obtain ⟨fetched, hSignature, hFetched⟩ := exists_run_signature hQuiet hId hEngine
  obtain ⟨next, hComplete, hNext⟩ :=
    exists_run_complete ((hQuiet fetched.exchanges.length).faultless_of signing.handle.limit)
  refine ⟨next, ?_, ?_⟩
  · unfold collect
    rw [run_bind_of_ok (run_tryCatch_of_ok hApproval), run_bind_of_ok hSignature,
      run_bind_of_ok hComplete, if_pos hVerify]
    rfl
  · rw [hNext, hFetched]
    rfl

theorem run_collect_rejected
    (hApproval : (signing.awaitApproval time).run.run (link store script) session =
      (.error .userRejected, middle)) :
    (signing.collect account time).run.run (link store script) session =
      (.error .userRejected, middle) :=
  run_bind_of_error (run_tryCatch_of_error hApproval)

/-- What the user has not decided in time is released. -/
theorem exists_run_collect_timeout (hQuiet : ∀ number, (script number).Quiet)
    (hApproval : (signing.awaitApproval time).run.run (link store script) session =
      (.error .userTimeout, middle)) :
    ∃ next, (signing.collect account time).run.run (link store script) session =
        (.error .userTimeout, next) ∧
      next.commands = closing (.error .userTimeout) ++ middle.commands := by
  obtain ⟨next, hComplete, hNext⟩ :=
    exists_run_complete ((hQuiet middle.exchanges.length).faultless_of signing.handle.limit)
  have hRelease : signing.completeAnyway.run.run (link store script) middle = (.ok (), next) :=
    run_tryCatch_of_ok hComplete
  refine ⟨next, ?_, hNext⟩
  apply run_bind_of_error
  rw [run_tryCatch_of_error hApproval]
  exact run_bind_of_ok hRelease

/-- The host waits until the user has decided, or as often as there is time to ask, and has a
verdict on what the decisions have led to. -/
theorem exists_run_awaitApproval (signing : SigningRequest) (time : Nat) {key : store.Key}
    {first : Nat} (hQuiet : ∀ number, (script number).Quiet)
    (hSound : (Phase.opened (some key) request).Sound)
    (hSign : store.sign key request.id = some signature)
    (hAsked : Asked script (Phase.opened (some key) request).engine first 0 session) :
    ∃ more middle result phase,
      (signing.awaitApproval time).run.run (link store script) session = (result, middle) ∧
      middle.commands =
        List.replicate (more + 1) (Instruction.txGetInfo.command []) ++ session.commands ∧
      middle.engine = phase.engine.acted store (script (first + (more + 1))).after ∧
      (∀ poll < more, ¬ Approves request.stepCount (decisions script first (poll + 1)) ∧
        ¬ Refuses request.stepCount (decisions script first (poll + 1))) ∧
      Decided request signature request.stepCount (decisions script first (more + 1)) phase ∧
      (signing.verdict phase.engine.info = some result ∨
        signing.verdict phase.engine.info = none ∧ more = time / DeviceHandle.pollInterval ∧
          result = .error .userTimeout) := by
  obtain ⟨more, middle, result, hPoll, hMiddle, hCommands, hEarlier, hLast⟩ :=
    signing.handle.exists_run_poll signing.verdict time hQuiet hAsked
  simp only [Nat.zero_add] at hMiddle hEarlier hLast
  have hDecided (count : Nat) : ∃ phase,
      (Phase.opened (some key) request).engine.acted store (decisions script first count) =
          phase.engine ∧
        Decided request signature request.stepCount (decisions script first count) phase :=
    exists_decided hSound (Nat.add_zero request.stepCount) hSign
      fun _ hMem => isDecision_of_mem_decisions hQuiet hMem
  obtain ⟨phase, hPhase, hWhich⟩ := hDecided (more + 1)
  rw [hPhase] at hLast
  refine ⟨more, middle, result, phase, hPoll, hCommands, ?_, ?_, hWhich, hLast⟩
  · rw [hMiddle.engine_eq, acted_append, hPhase]
  · intro poll hPoll
    obtain ⟨before, hBefore, hUndecided⟩ := hDecided (poll + 1)
    have hNone := hEarlier poll hPoll
    rw [hBefore] at hNone
    cases hUndecided with
    | signed hApproves hRefuses => cases hNone
    | rejected hApproves hRefuses => cases hNone
    | undecided hApproves hRefuses => exact ⟨hApproves, hRefuses⟩

/-- Waiting for the user and collecting the signature ends as the user decides. -/
theorem exists_run_collect {key : store.Key} {first : Nat}
    (hQuiet : ∀ number, (script number).Quiet)
    (hSound : (Phase.opened (some key) request).Sound) (hId : request.id = signing.txId)
    (hSign : store.sign key request.id = some signature)
    (hVerify : (⟨signing.txId, signature, account.publicKey⟩ : SignedTx).verify = true)
    (hAsked : Asked script (Phase.opened (some key) request).engine first 0 session) :
    ∃ asked next result,
      (signing.collect account time).run.run (link store script) session = (result, next) ∧
      next.commands = closing result ++
        List.replicate asked (Instruction.txGetInfo.command []) ++ session.commands ∧
      FollowsUser script first request.stepCount time
        ⟨signing.txId, signature, account.publicKey⟩ asked result := by
  obtain ⟨more, middle, result, phase, hApproval, hCommands, hEngine, hEarlier, hDecided, hLast⟩ :=
    signing.exists_run_awaitApproval time hQuiet hSound hSign hAsked
  cases hDecided with
  | @signed step hApproves hRefuses =>
      have hCheck : checkTxId request.id signing.txId = .ok () := if_pos hId
      obtain rfl : result = .ok () := by
        rcases hLast with hSome | ⟨hNone, -⟩
        · exact (Option.some.inj hSome).symm.trans hCheck
        · cases hNone
      rw [Phase.settled_signed.acted_eq (hQuiet _).decides_after] at hEngine
      obtain ⟨next, hCollect, hNext⟩ :=
        exists_run_collect_approved hQuiet hId hVerify hApproval hEngine
      refine ⟨more + 1, next, _, hCollect, ?_, .of_last hEarlier (fun _ => rfl)
        (fun hRefused => absurd hRefused hRefuses) fun hNot => absurd hApproves hNot⟩
      rw [hNext, hCommands, List.append_assoc]
  | rejected hApproves hRefuses =>
      obtain rfl : result = .error .userRejected := by
        rcases hLast with hSome | ⟨hNone, -⟩
        · exact (Option.some.inj hSome).symm
        · cases hNone
      exact ⟨more + 1, middle, _, run_collect_rejected hApproval, hCommands, .of_last hEarlier
        (fun hApproved => absurd hApproved hApproves) (fun _ => rfl)
        fun _ hNot => absurd hRefuses hNot⟩
  | undecided hApproves hRefuses =>
      obtain ⟨hMore, rfl⟩ : more = time / DeviceHandle.pollInterval ∧
          result = .error .userTimeout := by
        rcases hLast with hSome | ⟨-, hTime⟩
        · cases hSome
        · exact hTime
      obtain ⟨next, hCollect, hNext⟩ := exists_run_collect_timeout hQuiet hApproval
      refine ⟨more + 1, next, _, hCollect, ?_, .of_last hEarlier
        (fun hApproved => absurd hApproved hApproves)
        (fun hRefused => absurd hRefused hRefuses) fun _ _ => ⟨rfl, hMore⟩⟩
      rw [hNext, hCommands, List.append_assoc]

end Collect

end SigningRequest

namespace DeviceHandle

variable {store : KeyStore} {script : Nat → Incident} {session : InProcess store.Key}
  {handle : DeviceHandle} {path : DerivationPath} {account : Account} {key : store.Key}
  {state : EngineState} {txId : TxId} {hIdle : state.isBusy = false}

/-- The command that asks for the account at the end of a path. -/
def accountCommand (path : DerivationPath) : Bytes :=
  Instruction.getAccount.command
    (Message.toBytes (⟨path, none, .standard, false⟩ : AccountRequest))

theorem exists_run_account (hQuiet : ∀ number, (script number).Quiet)
    (hDerive : store.derive path none .standard = .ok (account, key))
    (hEngine : session.engine = (Phase.idle state txId hIdle).engine) :
    ∃ next, (handle.account path none .standard).run.run (link store script) session =
        (.ok account, next) ∧
      next.engine = (Phase.idle state txId hIdle).engine ∧
      next.commands = accountCommand path :: session.commands := by
  have hAwaiting := awaiting_of_settled hQuiet Phase.settled_idle hEngine
  have hGroup : (none : Option UInt8) ≠ some noGroup := nofun
  obtain ⟨next, hPasses, hRun⟩ := exists_run_requestAccount false
    ((hQuiet _).faultless_of handle.limit) hGroup hAwaiting
  rw [derived_of_ok hDerive] at hRun
  refine ⟨next, hRun, hPasses.engine_of_settled hQuiet Phase.settled_idle ?_, hPasses.commands_eq⟩
  rw [hAwaiting, update_getAccount_idle, getAccount_of_derive _ hDerive]
  rfl

/-- A request that the device has under review is open. -/
theorem run_openRequest {α : Type} [Message α] {instruction : Instruction} {content : α}
    {next : InProcess store.Key}
    (hSend : (handle.send instruction content).run.run (link store script) session =
      (.ok (Output.state (.review 0) txId).data, next)) :
    (handle.openRequest instruction content txId).run.run (link store script) session =
      (.ok ⟨txId, handle⟩, next) := by
  have hCheck : checkTxId txId txId = .ok () := if_pos rfl
  unfold openRequest
  rw [run_bind_of_ok hSend, readMessage_state, run_bind_of_ok (run_done _)]
  dsimp only
  rw [hCheck]
  rfl

/-- A request is opened by these commands: the device has it under review afterwards. -/
def OpensBy (script : Nat → Incident) (opening : HostCall SigningRequest)
    (signing : SigningRequest) (key : store.Key) (request : Review) (commands : List Bytes)
    (session : InProcess store.Key) : Prop :=
  ∃ first next, opening.run.run (link store script) session = (.ok signing, next) ∧
    Asked script (Phase.opened (some key) request).engine first 0 next ∧
    first + 1 = session.exchanges.length + commands.length ∧
    next.commands = commands.reverse ++ session.commands

theorem opensBy_hash (hQuiet : ∀ number, (script number).Quiet)
    (hDerive : store.derive path none .standard = .ok (account, key)) (hash : FixedBytes 32)
    (hEngine : session.engine = (Phase.idle state txId hIdle).engine) :
    OpensBy script (handle.openHash path hash) ⟨hash, handle⟩ key ⟨.hash, hash, account⟩
      (Instruction.signHash.commands (path.toBytes ++ hash.toList)) session := by
  let request : HashSignRequest := ⟨path, hash⟩
  have hAwaiting := awaiting_of_settled hQuiet Phase.settled_idle hEngine
  obtain ⟨next, hPasses, hRequest⟩ := exists_run_request
    ((hQuiet _).faultless_of handle.limit) request.length_toBytes_le (Event.parse_signHash request)
  have hAnswer : (session.awaiting script).update store (.signHash request) =
      (.ok (.state (.review 0) hash),
        (Phase.opened (some key) ⟨.hash, hash, account⟩).engine) := by
    rw [hAwaiting, update_signHash_idle]
    exact startHash_of_derive hDerive
  have hCommands : Instruction.signHash.commands (path.toBytes ++ hash.toList) =
      [Instruction.signHash.command (Message.toBytes request)] :=
    Instruction.commands_of_le request.length_toBytes_le
  rw [hAnswer, ← run_send rfl] at hRequest
  refine ⟨session.exchanges.length, next, run_openRequest hRequest,
    hPasses.asked (by rw [hAnswer]), ?_, ?_⟩
  · rw [hCommands, List.length_singleton]
  · rw [hCommands, hPasses.commands_eq]
    rfl

/-- The device waits for the part with this number behind these data, and nothing is there to
decide. -/
def Loads (number : Nat) (data : Bytes) (session : InProcess store.Key) : Prop :=
  ∃ phase : Phase store.Key, phase.Settled ∧ session.engine = phase.engine ∧
    Expects phase.engine number data

theorem meets_loads {number : Nat} {data part command : Bytes} {next : InProcess store.Key}
    {fail : HostError → InProcess store.Key → Prop} (hQuiet : ∀ number, (script number).Quiet)
    (hMost : number + 1 ≤ 255) (hLength : (data ++ part).length ≤ maxPayload)
    (hLoads : Loads number data session)
    (hPasses : session.Passes script command (.txChunk (UInt8.ofNat number) true part) next) :
    Meets (fun _ => Loads (number + 1) (data ++ part)) fail
      (heard ((session.awaiting script).update store
        (.txChunk (UInt8.ofNat number) true part)).1) next := by
  obtain ⟨phase, hSettled, hEngine, hExpects⟩ := hLoads
  have hUpdate := hExpects true part hLength
  rw [← awaiting_of_settled hQuiet hSettled hEngine] at hUpdate
  rw [hUpdate]
  refine ⟨_, Phase.settled_loading, hPasses.engine_of_settled hQuiet Phase.settled_loading ?_,
    expects_received (Nat.le_add_left 1 number) hMost _⟩
  rw [hUpdate]
  rfl

/-- With the last part the device has the whole request under review. -/
theorem asked_of_loads {request : Review} {number : Nat} {total data part command : Bytes}
    {next : InProcess store.Key} (hQuiet : ∀ number, (script number).Quiet)
    (hRequest : decodeRequest store total = .ok (key, request))
    (hLength : total.length ≤ maxPayload) (hTotal : data ++ part = total)
    (hLoads : Loads number data session)
    (hPasses : session.Passes script command (.txChunk (UInt8.ofNat number) false part) next) :
    heard ((session.awaiting script).update store
        (.txChunk (UInt8.ofNat number) false part)).1 =
        .ok (Output.state (.review 0) request.id).data ∧
      Asked script (Phase.opened (some key) request).engine session.exchanges.length 0 next := by
  obtain ⟨phase, hSettled, hEngine, hExpects⟩ := hLoads
  have hUpdate : (session.awaiting script).update store
      (.txChunk (UInt8.ofNat number) false part) =
        (.ok (.state (.review 0) request.id), (Phase.opened (some key) request).engine) := by
    rw [awaiting_of_settled hQuiet hSettled hEngine, hExpects false part (hTotal ▸ hLength), hTotal]
    exact opened_of_decodeRequest hRequest
  exact ⟨by rw [hUpdate]; rfl, hPasses.asked (by rw [hUpdate])⟩

theorem opensBy_transaction {tx : Bytes} {unsigned : UnsignedTx} {id : TxId}
    (hQuiet : ∀ number, (script number).Quiet)
    (hDerive : store.derive path none .standard = .ok (account, key))
    (hDecode : UnsignedTx.decode tx = .ok (unsigned, id))
    (hLength : (path.toBytes ++ tx).length ≤ maxPayload)
    (hEngine : session.engine = (Phase.idle state txId hIdle).engine) :
    OpensBy script (handle.openTransaction path tx) ⟨id, handle⟩ key
      ⟨.transaction unsigned, id, account⟩
      (Instruction.signTx.commands (path.toBytes ++ tx)) session := by
  let request : Review := ⟨.transaction unsigned, id, account⟩
  have hRequest : decodeRequest store (path.toBytes ++ tx) = .ok (key, request) := by
    rw [decodeRequest_append, hDerive]
    dsimp only
    rw [hDecode]
  have hLoads : Loads 0 [] session :=
    ⟨.idle state txId hIdle, Phase.settled_idle, hEngine, expects_of_idle _ hIdle⟩
  obtain ⟨_, time, next, hPerform, rfl, first, hAsked⟩ := exists_perform_split Loads
    (fun result next => result = .ok (Output.state (.review 0) id).data ∧
      ∃ first, Asked script (Phase.opened (some key) request).engine first 0 next) 0 []
    (fun number => (hQuiet number).faultless_of handle.limit)
    (fun _ _ _ _ _ _ hMost hFits hLoads hPasses => meets_loads hQuiet hMost hFits hLoads hPasses)
    (fun _ _ _ _ _ _ hTotal hLoads hPasses =>
      (asked_of_loads hQuiet hRequest hLength hTotal hLoads hPasses).imp_right fun hAsked =>
        ⟨_, hAsked⟩)
    hLoads rfl (Nat.zero_le _) hLength
  have hCommands : next.commands =
      (Instruction.signTx.commands (path.toBytes ++ tx)).reverse ++ session.commands :=
    commands_of_perform hPerform
  have hSend : (handle.send .signTx (⟨path, tx⟩ : TxSignRequest)).run.run (link store script)
      session = (.ok (Output.state (.review 0) id).data, next) := by
    rw [run_send rfl]
    exact run_request_of_perform hLength hPerform
  refine ⟨first, next, ?_, hAsked, ?_, hCommands⟩
  · rw [openTransaction, hDecode]
    exact run_openRequest hSend
  · have hCount := congrArg List.length hCommands
    rw [List.length_append, List.length_reverse, length_commands, length_commands,
      hAsked.length_eq] at hCount
    omega

/-- The call asks for the account at the end of the path, opens its request with the commands
`opening`, and ends as the user decides, who has to approve so many steps. -/
def EndsByUser (script : Nat → Incident) (path : DerivationPath) (time : Nat)
    (opening : List Bytes) (steps : Nat) (signed : SignedTx) (call : HostCall SignedTx)
    (session : InProcess store.Key) : Prop :=
  let ended := call.run.run (link store script) session
  ∃ asked,
    ended.2.commands = closing ended.1 ++
      List.replicate asked (Instruction.txGetInfo.command []) ++ opening.reverse ++
        accountCommand path :: session.commands ∧
    FollowsUser script (session.exchanges.length + opening.length) steps time signed asked
      ended.1

/-- An account is asked for, a request is opened, and the signature is collected. -/
theorem endsByUser_signing (signing : SigningRequest) (time : Nat)
    {opening : HostCall SigningRequest} {request : Review} {commands : List Bytes}
    {signature : Signature} (hQuiet : ∀ number, (script number).Quiet)
    (hDerive : store.derive path none .standard = .ok (account, key))
    (hSound : (Phase.opened (some key) request).Sound) (hId : request.id = signing.txId)
    (hSign : store.sign key request.id = some signature)
    (hVerify : (⟨signing.txId, signature, account.publicKey⟩ : SignedTx).verify = true)
    (hEngine : session.engine = (Phase.idle state txId hIdle).engine)
    (hOpening : ∀ session : InProcess store.Key,
      session.engine = (Phase.idle state txId hIdle).engine →
        OpensBy script opening signing key request commands session) :
    EndsByUser script path time commands request.stepCount
      ⟨signing.txId, signature, account.publicKey⟩
      (do
        let account ← signing.handle.account path none .standard
        let request ← opening
        request.collect account time) session := by
  obtain ⟨told, hAccount, hTold, hFirst⟩ := exists_run_account hQuiet hDerive hEngine
  obtain ⟨first, opened, hOpen, hAsked, hNumber, hSecond⟩ := hOpening told hTold
  obtain ⟨asked, next, result, hCollect, hLast, hFollows⟩ :=
    SigningRequest.exists_run_collect hQuiet hSound hId hSign hVerify hAsked
  have hRun : (do
      let account ← signing.handle.account path none .standard
      let request ← opening
      request.collect account time : HostCall SignedTx).run.run (link store script) session =
        (result, next) := by
    rw [run_bind_of_ok hAccount, run_bind_of_ok hOpen, hCollect]
  have hExchanges := congrArg List.length hFirst
  rw [List.length_cons, length_commands, length_commands] at hExchanges
  obtain rfl : first = session.exchanges.length + commands.length := by omega
  refine ⟨asked, ?_, ?_⟩
  · rw [hRun, hLast, hSecond, hFirst, List.append_assoc _ commands.reverse]
  · rw [hRun]
    exact hFollows

/-- Where nothing goes wrong and the user only approves and refuses, a call to sign ends as the
user decides after the request was opened. Once all steps of its review are approved, the call
returns the identifier, the signature of the key for it, and the public key of the account; if
the user refuses before that, it tells so; otherwise the time runs out. -/
theorem signing_follows_user (store : KeyStore) (operations : List Operation)
    (exchanges : List Exchange) (script : Nat → Incident) (handle : DeviceHandle)
    (path : DerivationPath) (key : store.Key) (time : Nat)
    (hIdle : (after store operations).state.isBusy = false)
    (hQuiet : ∀ number, (script number).Quiet) (hPath : Account.isAccountPath path = true)
    (hKey : store.key path.indices = .ok key) :
    let session : InProcess store.Key := ⟨after store operations, exchanges⟩
    let account := store.accountOf path key
    store.derive path none .standard = .ok (account, key) ∧
      (∀ tx unsigned id signature, UnsignedTx.decode tx = .ok (unsigned, id) →
        path.toBytes.length + tx.length ≤ 4096 →
        store.sign key (blake2b256 tx) = some signature →
        (⟨blake2b256 tx, signature, account.publicKey⟩ : SignedTx).verify = true →
          let review : Review := ⟨.transaction unsigned, blake2b256 tx, account⟩
          EndsByUser script path time (Instruction.signTx.commands (path.toBytes ++ tx))
            review.stepCount ⟨blake2b256 tx, signature, account.publicKey⟩
            (handle.signTransaction path tx time) session) ∧
      ∀ hash signature, store.sign key hash = some signature →
        (⟨hash, signature, account.publicKey⟩ : SignedTx).verify = true →
          let review : Review := ⟨.hash, hash, account⟩
          EndsByUser script path time
            (Instruction.signHash.commands (path.toBytes ++ hash.toList)) review.stepCount
            ⟨hash, signature, account.publicKey⟩ (handle.signHash path hash time) session := by
  intro session account
  have hDerive : store.derive path none .standard = .ok (account, key) := by
    rw [KeyStore.derive_standard hPath, hKey]
    rfl
  obtain ⟨state, txId, hState, hEngine⟩ := exists_idle_of_after hIdle
  refine ⟨hDerive, ?_, ?_⟩
  · intro tx unsigned id signature hDecode hLength hSign hVerify review
    have hId : id = blake2b256 tx := (UnsignedTx.decode_eq_ok_iff.1 hDecode).2.2
    subst hId
    have hPayload : (path.toBytes ++ tx).length ≤ maxPayload := by
      rw [List.length_append]
      exact hLength
    have hSound : (Phase.opened (some key) review).Sound := by
      refine Phase.sound_opened_of_decodeRequest hPayload ?_
      rw [decodeRequest_append, hDerive]
      dsimp only
      rw [hDecode]
    exact endsByUser_signing ⟨blake2b256 tx, handle⟩ time hQuiet hDerive hSound rfl hSign hVerify
      hEngine fun _ => opensBy_transaction hQuiet hDerive hDecode hPayload
  · intro hash signature hSign hVerify review
    have hSound : (Phase.opened (some key) review).Sound := by
      refine Phase.sound_opened ?_ (by simp [review]) ?_
      · rw [Review.stepCount_eq_one (by simp [review])]
        decide
      · rintro signer ⟨⟩
        exact KeyStore.publicKey_of_derive hDerive
    exact endsByUser_signing ⟨hash, handle⟩ time hQuiet hDerive hSound rfl hSign hVerify hEngine
      fun _ => opensBy_hash hQuiet hDerive hash

/-- A device whose key has signed the payment. -/
def paymentKey : KeyStore where
  Key := Unit
  key _ := .ok ()
  publicKey _ := signedPayment.publicKey
  sign _ _ := some signedPayment.signature

/-- The user approves a dozen steps behind each exchange. -/
def eager (_ : Nat) : Incident :=
  { Incident.none with after := List.replicate 12 .approve }

theorem eager_quiet (number : Nat) : (eager number).Quiet where
  faultless := ⟨rfl, rfl, rfl, Nat.le_refl 0⟩
  decides_before := by simp [eager, Incident.none]
  decides_after := by simp [eager, DeviceAct.IsDecision]

theorem approves_eager {steps first : Nat} (hSteps : steps ≤ 12) :
    Approves steps (decisions eager first 1) :=
  ⟨List.replicate 12 .approve, List.prefix_rfl, by decide, hSteps⟩

/-- The payment is signed as a transaction and as a bare hash. -/
theorem signing_follows_user_payment :
    let session : InProcess Unit := ⟨after paymentKey [], []⟩
    session.engine.state.isBusy = false ∧ (∀ number, (eager number).Quiet) ∧
      Account.isAccountPath firstAccount = true ∧
      ((standard.signTransaction firstAccount UnsignedTx.payment.toBytes 1000).run.run
        (link paymentKey eager) session).1 = .ok signedPayment ∧
      ((standard.signHash firstAccount signedPayment.txId 1000).run.run
        (link paymentKey eager) session).1 = .ok signedPayment := by
  intro session
  have hVerify : signedPayment.verify = true := by decide +kernel
  have hDecode : UnsignedTx.decode UnsignedTx.payment.toBytes =
      .ok (UnsignedTx.payment, UnsignedTx.payment.id) :=
    UnsignedTx.decode_eq_ok_iff.2
      ⟨⟨UnsignedTx.payment_valid, UnsignedTx.payment_valid.isCounted (by decide +kernel)⟩, rfl, rfl⟩
  obtain ⟨-, hTransaction, hHash⟩ := signing_follows_user paymentKey [] [] eager standard
    firstAccount () 1000 rfl eager_quiet rfl rfl
  obtain ⟨_, -, hFirst⟩ := hTransaction UnsignedTx.payment.toBytes UnsignedTx.payment
    UnsignedTx.payment.id signedPayment.signature hDecode (by decide +kernel) rfl hVerify
  obtain ⟨_, -, hSecond⟩ := hHash signedPayment.txId signedPayment.signature rfl hVerify
  exact ⟨rfl, eager_quiet, rfl,
    hFirst.approved ⟨0, hFirst.asked_pos, approves_eager (by decide +kernel)⟩,
    hSecond.approved ⟨0, hSecond.asked_pos, approves_eager (by decide +kernel)⟩⟩

end DeviceHandle

end ColdSigner
