import ColdSigner.Proofs.HostRequests
import ColdSigner.Proofs.MessageRoundTrips
import ColdSigner.Session.InProcess
/-!
# Exchanges with an honest device

Over a channel where nothing goes wrong, the host hears what the device has to say to its command
(`DeviceHandle.exists_run_request`), and meanwhile the user may do anything. What the user and a
host that goes away can make of a phase is `Engine.Phase.Remains`.
-/
namespace ColdSigner

namespace HostCall

variable {σ α β : Type} {link : Link σ} {state next : σ}

theorem run_done (result : Except HostError α) :
    (ExceptT.mk (.done result) : HostCall α).run.run link state = (result, state) := rfl

/-- Behind a call that returned, the next one goes on. -/
theorem run_bind_of_ok {call : HostCall α} {f : α → HostCall β} {value : α}
    (hCall : call.run.run link state = (.ok value, next)) :
    (call >>= f).run.run link state = (f value).run.run link next := by
  have hRun : (call >>= f).run = call.run.bind (ExceptT.bindCont f) := rfl
  rw [hRun, Dialogue.run_bind, hCall]
  rfl

/-- A call that failed ends those behind it. -/
theorem run_bind_of_error {call : HostCall α} {f : α → HostCall β} {error : HostError}
    (hCall : call.run.run link state = (.error error, next)) :
    (call >>= f).run.run link state = (.error error, next) := by
  have hRun : (call >>= f).run = call.run.bind (ExceptT.bindCont f) := rfl
  rw [hRun, Dialogue.run_bind, hCall]
  rfl

theorem run_tryCatch_of_ok {call : HostCall α} {handler : HostError → HostCall α} {value : α}
    (hCall : call.run.run link state = (.ok value, next)) :
    (tryCatch call handler).run.run link state = (.ok value, next) := by
  change (call.run.bind _).run link state = _
  rw [Dialogue.run_bind, hCall]
  rfl

theorem run_tryCatch_of_error {call : HostCall α} {handler : HostError → HostCall α}
    {error : HostError} (hCall : call.run.run link state = (.error error, next)) :
    (tryCatch call handler).run.run link state = (handler error).run.run link next := by
  change (call.run.bind _).run link state = _
  rw [Dialogue.run_bind, hCall]
  rfl

/-- A value or an error, and the channel behind it, are as wanted. -/
def Meets (ok : α → σ → Prop) (fail : HostError → σ → Prop) : Except HostError α → σ → Prop
  | .ok value, next => ok value next
  | .error error, next => fail error next

/-- What holds of the channel behind a call and of the value that it returns, or of its error. -/
def Ends (link : Link σ) (call : HostCall α) (state : σ) (ok : α → σ → Prop)
    (fail : HostError → σ → Prop) : Prop :=
  Meets ok fail (call.run.run link state).1 (call.run.run link state).2

section Ends

variable {call : HostCall α} {ok middle : α → σ → Prop} {last : β → σ → Prop}
  {fail caught : HostError → σ → Prop}

theorem ends_of_run {result : Except HostError α}
    (hCall : call.run.run link state = (result, next)) (hMeets : Meets ok fail result next) :
    Ends link call state ok fail := by
  rw [Ends, hCall]
  exact hMeets

theorem meets_either {holds : σ → Prop} (result : Except HostError α) (hHolds : holds state) :
    Meets (fun _ => holds) (fun _ => holds) result state := by
  cases result with
  | error error => exact hHolds
  | ok value => exact hHolds

theorem ends_done {result : Except HostError α} (hMeets : Meets ok fail result state) :
    Ends link (.mk (.done result)) state ok fail := hMeets

theorem ends_pure {value : α} (hOk : ok value state) :
    Ends link (pure value) state ok fail := hOk

theorem ends_throw {error : HostError} (hFail : fail error state) :
    Ends link (throw error : HostCall α) state ok fail := hFail

/-- Of calls in a row either the first one fails or the second one has the last word. -/
theorem Ends.bind {f : α → HostCall β} (hCall : Ends link call state middle fail)
    (hNext : ∀ value next, middle value next → Ends link (f value) next last fail) :
    Ends link (call >>= f) state last fail := by
  rcases hRun : call.run.run link state with ⟨error | value, next⟩
  · rw [Ends, hRun] at hCall
    exact ends_of_run (run_bind_of_error hRun) hCall
  · rw [Ends, hRun] at hCall
    rw [Ends, run_bind_of_ok hRun]
    exact hNext value next hCall

/-- A value that is there already is handed on. -/
theorem ends_done_bind {f : α → HostCall β} {value : α}
    (hNext : Ends link (f value) state last fail) :
    Ends link (.mk (.done (.ok value)) >>= f) state last fail := by
  rw [Ends, run_bind_of_ok (run_done _)]
  exact hNext

theorem Ends.tryCatch {handler : HostError → HostCall α} (hCall : Ends link call state ok caught)
    (hHandler : ∀ error next, caught error next → Ends link (handler error) next ok fail) :
    Ends link (tryCatch call handler) state ok fail := by
  rcases hRun : call.run.run link state with ⟨error | value, next⟩
  · rw [Ends, hRun] at hCall
    rw [Ends, run_tryCatch_of_error hRun]
    exact hHandler error next hCall
  · rw [Ends, hRun] at hCall
    exact ends_of_run (run_tryCatch_of_ok hRun) hCall

theorem Ends.imp {after : α → σ → Prop} (hCall : Ends link call state ok fail)
    (hOk : ∀ value next, ok value next → after value next)
    (hFail : ∀ error next, fail error next → caught error next) :
    Ends link call state after caught := by
  rcases hRun : call.run.run link state with ⟨error | value, next⟩
  · rw [Ends, hRun] at hCall
    exact ends_of_run hRun (hFail error next hCall)
  · rw [Ends, hRun] at hCall
    exact ends_of_run hRun (hOk value next hCall)

/-- What holds either way holds behind the call. -/
theorem holds_of_ends {holds : σ → Prop}
    (hCall : Ends link call state (fun _ => holds) (fun _ => holds)) :
    holds (call.run.run link state).2 := by
  rcases hRun : call.run.run link state with ⟨error | value, next⟩
  · rw [Ends, hRun] at hCall
    exact hCall
  · rw [Ends, hRun] at hCall
    exact hCall

end Ends

end HostCall

namespace Output

/-- The bytes of an output. -/
def data : Output → Bytes
  | none => []
  | state current txId => Message.toBytes (⟨current.txState, current.value, txId⟩ : TxInfo)
  | appInfo flags => Message.toBytes (appInfoOf flags)
  | account answer => Message.toBytes answer
  | signature answer => Message.toBytes answer

theorem length_data_le (output : Output) : output.data.length ≤ 96 := by
  cases output with
  | none => simp [data]
  | state current txId => simp [data, Message.toBytes]
  | appInfo flags =>
      have hLength : (Message.toBytes (appInfoOf flags)).length = 19 := rfl
      simp [data, hLength]
  | account answer => simp [data, Message.toBytes]
  | signature answer => simp [data, Message.toBytes]

/-- There is room for every output in the buffer of an answer. -/
theorem encodeInto_of_le {capacity : Nat} (hCapacity : 96 ≤ capacity) (output : Output) :
    output.encodeInto capacity = .ok output.data := by
  have hLength := output.length_data_le
  cases output with
  | none => rfl
  | appInfo flags => exact if_pos ⟨Nat.le_trans hLength hCapacity, rfl⟩
  | state current txId => exact if_pos ⟨Nat.le_trans hLength hCapacity, rfl⟩
  | account answer => exact if_pos ⟨Nat.le_trans hLength hCapacity, rfl⟩
  | signature answer => exact if_pos ⟨Nat.le_trans hLength hCapacity, rfl⟩

end Output

theorem readMessage_state (current : EngineState) (txId : TxId) :
    DeviceHandle.readMessage (Output.state current txId).data =
      .ok (⟨current.txState, current.value, txId⟩ : TxInfo) :=
  DeviceHandle.readMessage_eq_ok_iff.2 (TxInfo.readsBack _).decode_eq

theorem readMessage_account (answer : AccountResponse) :
    DeviceHandle.readMessage (Output.account answer).data = .ok answer :=
  DeviceHandle.readMessage_eq_ok_iff.2 answer.readsBack.decode_eq

theorem readMessage_signature (answer : TxSignature) :
    DeviceHandle.readMessage (Output.signature answer).data = .ok answer :=
  DeviceHandle.readMessage_eq_ok_iff.2 answer.readsBack.decode_eq

namespace DeviceError

theorem status_ne_ok (error : DeviceError) : error.status ≠ Status.ok := by
  cases error <;> decide

theorem status_ne_unknownInstruction (error : DeviceError) :
    error.status ≠ Status.unknownInstruction := by
  cases error <;> decide

/-- No two errors have the same status word. -/
theorem status_injective {error other : DeviceError} (hStatus : error.status = other.status) :
    error = other := by
  have hFound : ofStatus? error.status = some other := by
    rw [hStatus, other.ofStatus?_status]
  exact Option.some.inj (error.ofStatus?_status.symm.trans hFound)

end DeviceError

namespace Answer

/-- What an answer means for the host: its data, or the error of its status word. -/
def result (answer : Answer) : Except HostError Bytes :=
  if answer.status = Status.ok then .ok answer.data else .error (.ofStatus answer.status)

theorem ofBytes?_append (data : Bytes) (status : UInt16) :
    ofBytes? (data ++ Status.toBytes status) = some ⟨data, status⟩ := by
  have hTwo := Status.length_toBytes status
  have hCount : (data ++ Status.toBytes status).length - 2 = data.length := by
    rw [List.length_append, hTwo, Nat.add_sub_cancel]
  have hLong : ¬ (data ++ Status.toBytes status).length < 2 := by
    rw [List.length_append, hTwo]
    omega
  have hStatus : UInt16.ofNat (Bytes.ofBigEndian (Status.toBytes status)) = status := by
    rw [Status.toBytes, Bytes.ofBigEndian_bigEndian, Nat.mod_eq_of_lt status.toNat_lt,
      UInt16.ofNat_toNat]
  rw [ofBytes?, if_neg hLong]
  simp only [hCount, List.take_left, List.drop_left, hStatus]

end Answer

namespace Link

variable {limit elapsed delay : Nat} {budget : Option Nat}

/-- An answer that comes in time settles a command by what it means. -/
theorem settle_of_le (hDelay : delay ≤ limit) (answer : Answer) :
    settle limit budget elapsed (.after delay (.ok answer)) =
      if within budget (elapsed + delay) then
        match answer.result with
        | .ok data => .ok (elapsed + delay, data)
        | .error error => .error (.ended (.error error) (elapsed + delay))
      else .error .expired := by
  simp only [settle, Answer.result, if_neg (Nat.not_lt.2 hDelay)]
  cases within budget (elapsed + delay) with
  | false => rfl
  | true =>
      by_cases hStatus : answer.status = Status.ok
      · simp [hStatus]
      · simp [hStatus]

/-- A single command that is answered in time ends with what the answer means, unless the budget
has run out by then. -/
theorem perform_single {σ : Type} {link : Link σ} {state next : σ} {command : Bytes}
    {answer : Answer} (budget : Option Nat) (elapsed : Nat) (data : Bytes)
    (hDelay : delay ≤ limit)
    (hExchange : link.exchange state command = (.after delay (.ok answer), next)) :
    link.perform limit budget [command] elapsed data state =
      (if within budget (elapsed + delay) then .ended answer.result (elapsed + delay)
        else .expired, next) := by
  rw [perform_cons, hExchange, settle_of_le hDelay]
  dsimp only
  cases within budget (elapsed + delay) with
  | false => rfl
  | true => cases answer.result <;> rfl

end Link

namespace Engine

/-- What a device says about its request. -/
def info {Key : Type} (engine : Engine Key) : TxInfo :=
  ⟨engine.state.txState, engine.state.value, engine.txId⟩

/-- What the host hears of what a device has to say. -/
def heard : Except DeviceError Output → Except HostError Bytes
  | .ok output => .ok output.data
  | .error error => .error (.ofStatus error.status)

variable {store : KeyStore}

/-- The answer that tells what a device has to say. -/
def said : Except DeviceError Output → Answer
  | .ok output => ⟨output.data, Status.ok⟩
  | .error error => ⟨[], error.status⟩

theorem result_said (result : Except DeviceError Output) : (said result).result = heard result := by
  cases result with
  | ok output => exact if_pos rfl
  | error error => exact if_neg error.status_ne_ok

/-- With room for every output, a command is answered with what its event leads to. -/
theorem handle_of_event (engine : Engine store.Key) {capacity : Nat} {command : Bytes}
    {event : Event} (hCapacity : 98 ≤ capacity) (hEvent : eventOfCommand command = .ok event) :
    handle store engine capacity command =
      ((said (update store engine event).1).data ++
          Status.toBytes (said (update store engine event).1).status,
        (update store engine event).2) := by
  rcases hUpdate : update store engine event with ⟨error | output, next⟩
  · have hFits : ([] : Bytes).length + 2 ≤ capacity := by
      rw [List.length_nil]
      omega
    simp only [handle_eq, Engine.answer, hEvent, hUpdate, said, if_pos hFits]
  · have hLength := output.length_data_le
    have hWritten : output.encodeInto (capacity - 2) = .ok output.data :=
      output.encodeInto_of_le (by omega)
    have hFits : output.data.length + 2 ≤ capacity := by omega
    simp only [handle_eq, Engine.answer, hEvent, hUpdate, hWritten, said, if_pos hFits]

/-- The answer of a device to a command, where there is room for it. -/
def reply (store : KeyStore) (engine : Engine store.Key) (command : Bytes) : Answer :=
  match eventOfCommand command with
  | .error status => ⟨[], status⟩
  | .ok event => said (update store engine event).1

theorem reply_of_refused {engine : Engine store.Key} {command : Bytes} {status : UInt16}
    (hRefused : eventOfCommand command = .error status) :
    reply store engine command = ⟨[], status⟩ := by
  simp only [reply, hRefused]

theorem reply_of_event {engine : Engine store.Key} {command : Bytes} {event : Event}
    (hEvent : eventOfCommand command = .ok event) :
    reply store engine command = said (update store engine event).1 := by
  simp only [reply, hEvent]

theorem fst_handle (engine : Engine store.Key) {capacity : Nat} (hCapacity : 98 ≤ capacity)
    (command : Bytes) :
    (handle store engine capacity command).1 =
      (reply store engine command).data ++ Status.toBytes (reply store engine command).status := by
  cases hEvent : eventOfCommand command with
  | error status =>
      have hFits : ([] : Bytes).length + 2 ≤ capacity := by
        rw [List.length_nil]
        omega
      simp only [handle_eq, Engine.answer, reply_of_refused hEvent, hEvent, if_pos hFits]
  | ok event => rw [handle_of_event engine hCapacity hEvent, reply_of_event hEvent]

/-- The answer to a command says what its event leads to. -/
theorem exists_handle (engine : Engine store.Key) {capacity : Nat} {command : Bytes}
    {event : Event} (hCapacity : 98 ≤ capacity) (hEvent : eventOfCommand command = .ok event) :
    ∃ answer : Answer, handle store engine capacity command =
        (answer.data ++ Status.toBytes answer.status, (update store engine event).2) ∧
      answer.result = heard (update store engine event).1 :=
  ⟨_, handle_of_event engine hCapacity hEvent, result_said _⟩

/-- The host sends commands that the device takes. -/
theorem eventOfCommand_ofChunk {chunk : Chunk} {instruction : Instruction} {event : Event}
    (hData : chunk.data.length ≤ maxChunkData) (hIns : chunk.ins = instruction.code)
    (hAlone : instruction ≠ .signTx → chunk.seq = 0 ∧ chunk.more = false)
    (hParse : Event.parse chunk = .ok event) :
    eventOfCommand (Command.ofChunk chunk).toBytes = .ok event :=
  eventOfCommand_eq_ok_iff.2 ⟨chunk, instruction, Chunk.decode_ofChunk hData,
    Instruction.ofCode?_eq_some_iff.2 hIns, hAlone, hParse⟩

/-- The engine after what the user and others do to it. -/
def acted (store : KeyStore) (engine : Engine store.Key) (acts : List DeviceAct) :
    Engine store.Key :=
  acts.foldl (DeviceAct.apply store) engine

/-- Acts of which each changes nothing change nothing. -/
theorem acted_eq_self {engine : Engine store.Key} {acts : List DeviceAct}
    (hSame : ∀ act ∈ acts, act.apply store engine = engine) : engine.acted store acts = engine := by
  induction acts with
  | nil => rfl
  | cons act rest ih =>
      obtain ⟨hAct, hRest⟩ := List.forall_mem_cons.1 hSame
      rw [acted, List.foldl_cons, hAct]
      exact ih hRest

end Engine

/-- Nothing goes wrong, and the answer comes within the limit. What else happens to the device
is left open. -/
structure Incident.Faultless (incident : Incident) (limit : Nat) : Prop where
  answer_eq : incident.answer = .none
  flip_eq : incident.flip = .none
  arrives : incident.fails = false
  delay_le : incident.delay ≤ limit

namespace InProcess

variable {store : KeyStore} (script : Nat → Incident) (session : InProcess store.Key)

/-- What happens beside the next exchange. -/
def incident : Incident := script session.exchanges.length

/-- The engine as the next command finds it. -/
def awaiting : Engine store.Key := session.engine.acted store (session.incident script).before

/-- The commands so far, the last one in front. -/
def commands : List Bytes := session.exchanges.map (·.command)

/-- A command was answered that stands for an event. -/
structure Passes (command : Bytes) (event : Event) (next : InProcess store.Key) : Prop where
  engine_eq : next.engine =
    ((session.awaiting script).update store event).2.acted store (session.incident script).after
  commands_eq : next.commands = command :: session.commands

variable {script session}

theorem length_commands : session.commands.length = session.exchanges.length :=
  List.length_map _

theorem Passes.length_eq {command : Bytes} {event : Event} {next : InProcess store.Key}
    (hPasses : session.Passes script command event next) :
    next.exchanges.length = session.exchanges.length + 1 := by
  rw [← length_commands, hPasses.commands_eq, List.length_cons, length_commands]

theorem exists_exchange {command : Bytes} {event : Event} {limit : Nat}
    (hFaultless : (session.incident script).Faultless limit)
    (hEvent : Engine.eventOfCommand command = .ok event) :
    ∃ answer next, (link store script).exchange session command =
        (.after (session.incident script).delay (.ok answer), next) ∧
      session.Passes script command event next ∧
      answer.result = Engine.heard ((session.awaiting script).update store event).1 := by
  obtain ⟨answer, hHandle, hResult⟩ := Engine.exists_handle (session.awaiting script)
    (by decide : 98 ≤ answerCapacity) hEvent
  have hArrived := Answer.ofBytes?_append answer.data answer.status
  obtain ⟨hAnswer, hFlip, hArrives, -⟩ := hFaultless
  rw [awaiting] at hHandle
  unfold incident Engine.acted at hHandle
  unfold incident at hAnswer hFlip hArrives
  refine ⟨answer, (exchange store script session command).2, ?_, ⟨?_, ?_⟩, hResult⟩
  · simp only [link, exchange, hAnswer, hHandle, hArrives, Incident.disturb, hFlip, hArrived]
    rfl
  · simp only [exchange, hAnswer, hHandle]
    rfl
  · rfl

/-- A request that succeeds has sent all of its commands. -/
theorem commands_of_perform {next : InProcess store.Key} {limit elapsed time : Nat}
    {budget : Option Nat} {commands : List Bytes} {last data : Bytes}
    (hPerform : (link store script).perform limit budget commands elapsed last session =
      (.ended (.ok data) time, next)) :
    next.commands = commands.reverse ++ session.commands := by
  induction commands generalizing session elapsed last with
  | nil =>
      cases hPerform
      rfl
  | cons command rest ih =>
      have hCommand : ((link store script).exchange session command).2.commands =
          command :: session.commands := rfl
      rw [Link.perform_cons] at hPerform
      split at hPerform
      · rw [ih hPerform, hCommand, List.reverse_cons, List.append_assoc, List.singleton_append]
      · next outcome hSettle =>
          cases hPerform
          exact absurd rfl (Link.ne_ok_of_settle hSettle)

end InProcess

/-- The command of an instruction whose payload fits into one chunk. -/
def Instruction.command (instruction : Instruction) (payload : Bytes) : Bytes :=
  (Command.ofChunk ⟨instruction.code, 0, false, payload⟩).toBytes

namespace DeviceHandle

open InProcess

variable {store : KeyStore} {script : Nat → Incident} {session : InProcess store.Key}
  {handle : DeviceHandle}

theorem writeMessage_of_fits {α : Type} [Message α] {content : α}
    (hFits : Message.fits content = true) :
    writeMessage content = .ok (Message.toBytes content) := by
  rw [writeMessage, Message.encode, Message.encodeInto, if_pos ⟨Nat.le_refl _, hFits⟩]
  rfl

theorem run_send {σ α : Type} [Message α] {link : Link σ} {state : σ} {content : α}
    (hFits : Message.fits content = true) (instruction : Instruction) :
    (handle.send instruction content).run.run link state =
      (handle.request instruction.code (Message.toBytes content)).run.run link state := by
  unfold send
  rw [writeMessage_of_fits hFits]
  exact HostCall.run_bind_of_ok (HostCall.run_done _)

theorem commands_of_le {ins : UInt8} {payload : Bytes} (hPayload : payload.length ≤ maxPayload) :
    commands ins payload = .ok ((Chunk.split ins 0 payload).map fun chunk =>
      (Command.ofChunk chunk).toBytes) := by
  rw [commands, frame, if_neg (Nat.not_lt.2 hPayload)]

/-- A request ends as its commands do. -/
theorem run_request_of_perform {σ : Type} {link : Link σ} {state next : σ}
    {instruction : Instruction} {payload : Bytes} {result : Except HostError Bytes} {time : Nat}
    (hPayload : payload.length ≤ maxPayload)
    (hPerform : link.perform handle.limit none ((Chunk.split instruction.code 0 payload).map
      fun chunk => (Command.ofChunk chunk).toBytes) 0 [] state = (.ended result time, next)) :
    (handle.request instruction.code payload).run.run link state = (result, next) := by
  rw [request, commands_of_le hPayload]
  dsimp only [ExceptT.run_mk]
  rw [Dialogue.run, hPerform]
  rfl

theorem eventOfCommand_command {instruction : Instruction} {payload : Bytes} {event : Event}
    (hPayload : payload.length ≤ maxChunkData)
    (hParse : Event.parse ⟨instruction.code, 0, false, payload⟩ = .ok event) :
    Engine.eventOfCommand (instruction.command payload) = .ok event :=
  Engine.eventOfCommand_ofChunk hPayload rfl (fun _ => ⟨rfl, rfl⟩) hParse

theorem eventOfCommand_txGetInfo :
    Engine.eventOfCommand (Instruction.txGetInfo.command []) = .ok .txGetInfo :=
  eventOfCommand_command (by decide) rfl

theorem eventOfCommand_txGetSignature :
    Engine.eventOfCommand (Instruction.txGetSignature.command []) = .ok .txGetSignature :=
  eventOfCommand_command (by decide) rfl

theorem eventOfCommand_txComplete :
    Engine.eventOfCommand (Instruction.txComplete.command []) = .ok .txComplete :=
  eventOfCommand_command (by decide) rfl

/-- A request in one chunk that is answered within the limit ends with what the answer means. -/
theorem run_request_of_exchange {σ : Type} {link : Link σ} {state next : σ}
    {instruction : Instruction} {payload : Bytes} {delay : Nat} {answer : Answer}
    (hPayload : payload.length ≤ maxChunkData) (hDelay : delay ≤ handle.limit)
    (hExchange : link.exchange state (instruction.command payload) =
      (.after delay (.ok answer), next)) :
    (handle.request instruction.code payload).run.run link state = (answer.result, next) := by
  have hPerform : link.perform handle.limit none ((Chunk.split instruction.code 0 payload).map
      fun chunk => (Command.ofChunk chunk).toBytes) 0 [] state =
        (.ended answer.result (0 + delay), next) := by
    rw [Chunk.split, dif_pos hPayload]
    exact Link.perform_single none 0 [] hDelay hExchange
  exact run_request_of_perform (Nat.le_trans hPayload (by decide)) hPerform

/-- Of a request in one chunk the host hears what the device has to say. -/
theorem exists_run_request {instruction : Instruction} {payload : Bytes} {event : Event}
    (hFaultless : (session.incident script).Faultless handle.limit)
    (hPayload : payload.length ≤ maxChunkData)
    (hParse : Event.parse ⟨instruction.code, 0, false, payload⟩ = .ok event) :
    ∃ next, session.Passes script (instruction.command payload) event next ∧
      (handle.request instruction.code payload).run.run (link store script) session =
        (Engine.heard ((session.awaiting script).update store event).1, next) := by
  obtain ⟨answer, next, hExchange, hPasses, hResult⟩ :=
    exists_exchange hFaultless (eventOfCommand_command hPayload hParse)
  exact ⟨next, hPasses,
    hResult ▸ run_request_of_exchange hPayload hFaultless.delay_le hExchange⟩

/-- A question without a content that is answered within the limit ends with what is read in the
answer. -/
theorem run_ask_of_exchange {σ α : Type} [Message α] {link : Link σ} {state next : σ}
    {instruction : Instruction} {delay : Nat} {answer : Answer} (hDelay : delay ≤ handle.limit)
    (hExchange : link.exchange state (instruction.command []) = (.after delay (.ok answer), next)) :
    (handle.ask instruction : HostCall α).run.run link state =
      (answer.result.bind readMessage, next) := by
  have hRun := run_request_of_exchange (by simp) hDelay hExchange
  unfold ask
  cases hResult : answer.result with
  | error error =>
      rw [hResult] at hRun
      exact HostCall.run_bind_of_error hRun
  | ok data =>
      rw [hResult] at hRun
      exact HostCall.run_bind_of_ok hRun

/-- To a question without a content, the device has an answer that is read. -/
theorem exists_run_ask {α : Type} [Message α] {instruction : Instruction} {event : Event}
    (hFaultless : (session.incident script).Faultless handle.limit)
    (hParse : Event.parse ⟨instruction.code, 0, false, []⟩ = .ok event) :
    ∃ next, session.Passes script (instruction.command []) event next ∧
      (handle.ask instruction : HostCall α).run.run (link store script) session =
        ((Engine.heard ((session.awaiting script).update store event).1).bind readMessage,
          next) := by
  obtain ⟨answer, next, hExchange, hPasses, hResult⟩ :=
    exists_exchange hFaultless (eventOfCommand_command (by simp) hParse)
  exact ⟨next, hPasses, hResult ▸ run_ask_of_exchange hFaultless.delay_le hExchange⟩

/-- One round of waiting whose question is answered within the limit: an error, a verdict or a
later round. -/
theorem run_poll_of_exchange {σ : Type} {link : Link σ} {state next : σ} {delay : Nat}
    {answer : Answer} (verdict : TxInfo → Option (Except HostError Unit)) (budget : Nat)
    (hDelay : delay ≤ handle.limit)
    (hExchange : link.exchange state (Instruction.txGetInfo.command []) =
      (.after delay (.ok answer), next)) :
    (handle.poll verdict budget).run.run link state =
      if delay ≤ budget then
        match answer.result.bind readMessage with
        | .error error => (.error error, next)
        | .ok info =>
            match verdict info with
            | some result => (result, next)
            | none =>
                if pollInterval ≤ budget - delay then
                  (handle.poll verdict (budget - delay - pollInterval)).run.run link next
                else (.error .userTimeout, next)
      else (.error .userTimeout, next) := by
  have hPerform := Link.perform_single (some budget) 0 [] hDelay hExchange
  have hWithin : Link.within (some budget) (0 + delay) = decide (delay ≤ budget) := by
    rw [Nat.zero_add]
    rfl
  unfold Instruction.command at hPerform
  rw [hWithin, Nat.zero_add] at hPerform
  rw [poll]
  dsimp only [ExceptT.run_mk]
  rw [Dialogue.run, hPerform]
  by_cases hTime : delay ≤ budget
  · simp only [hTime, decide_true, if_true]
    cases answer.result with
    | error error => rfl
    | ok data =>
        have hRead : (Except.ok data).bind readMessage =
            (readMessage data : Except HostError TxInfo) := rfl
        rw [hRead]
        dsimp only
        cases (readMessage data : Except HostError TxInfo) with
        | error error => rfl
        | ok info =>
            dsimp only
            cases verdict info with
            | some result => rfl
            | none =>
                by_cases hRound : pollInterval ≤ budget - delay
                · simp only [dif_pos hRound, if_pos hRound]
                  rfl
                · simp only [dif_neg hRound, if_neg hRound]
                  rfl
  · simp only [hTime, decide_false, Bool.false_eq_true, if_false]
    rfl

/-- One round of waiting: a question, and a verdict or a later round. -/
theorem exists_run_poll_round (verdict : TxInfo → Option (Except HostError Unit)) (budget : Nat)
    (hFaultless : (session.incident script).Faultless handle.limit) :
    ∃ next, session.Passes script (Instruction.txGetInfo.command []) .txGetInfo next ∧
      (handle.poll verdict budget).run.run (link store script) session =
        let elapsed := (session.incident script).delay
        if elapsed ≤ budget then
          match verdict (session.awaiting script).info with
          | some result => (result, next)
          | none =>
              if pollInterval ≤ budget - elapsed then
                (handle.poll verdict (budget - elapsed - pollInterval)).run.run
                  (link store script) next
              else (.error .userTimeout, next)
        else (.error .userTimeout, next) := by
  obtain ⟨answer, next, hExchange, hPasses, hResult⟩ :=
    exists_exchange hFaultless eventOfCommand_txGetInfo
  have hInfo : answer.result.bind readMessage =
      (.ok (session.awaiting script).info : Except HostError TxInfo) := by
    rw [hResult]
    exact readMessage_state _ _
  refine ⟨next, hPasses, ?_⟩
  rw [run_poll_of_exchange verdict budget hFaultless.delay_le hExchange, hInfo]

end DeviceHandle

end ColdSigner
