import ColdSigner.Host.Handle
import ColdSigner.Proofs.RequestIntegrity
import ColdSigner.Proofs.Transcripts
/-!
# Calls of the host that succeed

`HostCall.Returns` is a call that returns a value, with its transcript. What such a call has sent
is a sequence of messages, each of them in chunks that were all answered with success
(`DeviceHandle.conveyed_of_request`). Waiting for the user is a row of questions of which only the
last has a verdict (`DeviceHandle.told_of_poll`).
-/
namespace ColdSigner

namespace Delivery

/-- The part of a message that the command carries, as a device reads it. -/
def chunk? (delivery : Delivery) : Option Chunk := (Chunk.decode delivery.command).toOption

/-- What the command asks for. -/
def instruction? (delivery : Delivery) : Option Instruction :=
  delivery.chunk?.bind fun chunk => Instruction.ofCode? chunk.ins

end Delivery

/-- The data of all chunks with an instruction, one behind the other. -/
def payloadOf (instruction : Instruction) (log : List Delivery) : Bytes :=
  (log.filter (·.instruction? = some instruction)).flatMap fun delivery =>
    match delivery.chunk? with
    | some chunk => chunk.data
    | none => []

/-- A message was sent as a whole and answered with success: all chunks of it have the
instruction, and the last answer has these data. -/
structure Conveyed (instruction : Instruction) (payload answer : Bytes) (log : List Delivery) :
    Prop where
  instruction_eq : ∀ delivery ∈ log, delivery.instruction? = some instruction
  payload_eq : payloadOf instruction log = payload
  answered : ∀ delivery ∈ log, delivery.answer?.isSome = true
  answer_eq : log.getLast?.bind Delivery.answer? = some answer

/-- A message was sent as a whole, and the answer has this content. -/
def Answered {α : Type} [Message α] (instruction : Instruction) (payload : Bytes) (content : α)
    (log : List Delivery) : Prop :=
  ∃ answer, Conveyed instruction payload answer log ∧ Message.decode answer = .ok content

namespace Chunk

/-- The chunks of a message carry it in order, each with the instruction and none with too much
data. -/
theorem split_carries (ins seq : UInt8) (payload : Bytes) :
    (split ins seq payload).flatMap (·.data) = payload ∧
      ∀ chunk ∈ split ins seq payload, chunk.ins = ins ∧ chunk.data.length ≤ maxChunkData := by
  induction hLength : payload.length using Nat.strongRecOn generalizing seq payload with
  | ind length ih =>
      rw [split]
      split
      · next hShort => exact ⟨List.append_nil payload, by simpa using hShort⟩
      · next hLong =>
          have hLess : (payload.drop maxChunkData).length < length := by
            simp only [List.length_drop, maxChunkData] at hLong ⊢
            omega
          obtain ⟨hData, hChunks⟩ := ih _ hLess (seq + 1) (payload.drop maxChunkData) rfl
          refine ⟨?_, ?_⟩
          · rw [List.flatMap_cons, hData, List.take_append_drop]
          · refine List.forall_mem_cons.2 ⟨⟨rfl, ?_⟩, hChunks⟩
            exact List.length_take_le _ _

theorem split_ne_nil (ins seq : UInt8) (payload : Bytes) : split ins seq payload ≠ [] := by
  rw [split]
  split <;> simp

/-- A device reads back the chunk that a command of the host carries. -/
theorem decode_ofChunk {chunk : Chunk} (hData : chunk.data.length ≤ maxChunkData) :
    decode (Command.ofChunk chunk).toBytes = .ok chunk := by
  rw [decode_eq_ok_iff]
  refine ⟨if chunk.more then 0x80 else 0, UInt8.ofNat chunk.data.length, rfl, ?_, hData, ?_⟩
  · exact UInt8.toNat_ofNat_of_lt' (Nat.lt_of_le_of_lt hData (by decide))
  · cases chunk.more <;> decide

end Chunk

/-- The commands of a message are read back as its chunks. -/
theorem map_chunk?_of_commands {ins : UInt8} {payload : Bytes} {log : List Delivery}
    (hCommands : log.map (·.command) =
      (Chunk.split ins 0 payload).map fun chunk => (Command.ofChunk chunk).toBytes) :
    log.map (·.chunk?) = (Chunk.split ins 0 payload).map some := by
  have hRead : log.map (·.chunk?) =
      (log.map (·.command)).map fun command => (Chunk.decode command).toOption := by
    rw [List.map_map]
    rfl
  rw [hRead, hCommands, List.map_map]
  apply List.map_congr_left
  intro chunk hChunk
  have hData := ((Chunk.split_carries ins 0 payload).2 chunk hChunk).2
  simp only [Function.comp_apply, Chunk.decode_ofChunk hData, Except.toOption]

/-- Where all commands have the instruction, the data of all chunks count. -/
theorem payloadOf_eq_flatMap {instruction : Instruction} {log : List Delivery}
    {chunks : List Chunk}
    (hInstruction : ∀ delivery ∈ log, delivery.instruction? = some instruction)
    (hChunks : log.map (·.chunk?) = chunks.map some) :
    payloadOf instruction log = chunks.flatMap (·.data) := by
  have hAll : log.filter (·.instruction? = some instruction) = log := by
    rw [List.filter_eq_self]
    simpa using hInstruction
  have hParts := congrArg (List.flatMap fun
    | some chunk => chunk.data
    | none => []) hChunks
  rw [List.flatMap_map, List.flatMap_map] at hParts
  rw [payloadOf, hAll]
  exact hParts

namespace HostCall

variable {σ α β : Type} {link : Link σ} {state next : σ} {log : List Delivery}

/-- The call returns a value and leaves the channel there, and this was sent meanwhile. -/
def Returns (link : Link σ) (call : HostCall α) (state : σ) (value : α) (log : List Delivery)
    (next : σ) : Prop :=
  call.run.run link state = (.ok value, next) ∧ call.run.transcript link state = log

theorem exists_returns_of_toOption {call : HostCall α} {value : α}
    (hValue : (call.run.run link state).1.toOption = some value) :
    ∃ log next, Returns link call state value log next := by
  rcases hRun : call.run.run link state with ⟨error | found, after⟩
  · rw [hRun] at hValue
    cases hValue
  · rw [hRun] at hValue
    cases hValue
    exact ⟨_, after, hRun, rfl⟩

theorem returns_done_iff {result : Except HostError α} {value : α} :
    Returns link (.mk (.done result)) state value log next ↔
      result = .ok value ∧ log = [] ∧ next = state := by
  change (result, state) = (Except.ok value, next) ∧ ([] : List Delivery) = log ↔ _
  rw [Prod.mk.injEq]
  constructor
  · rintro ⟨⟨rfl, rfl⟩, rfl⟩
    exact ⟨rfl, rfl, rfl⟩
  · rintro ⟨rfl, rfl, rfl⟩
    exact ⟨⟨rfl, rfl⟩, rfl⟩

theorem returns_pure_iff {result value : α} :
    Returns link (pure result) state value log next ↔
      result = value ∧ log = [] ∧ next = state := by
  change Returns link (.mk (.done (.ok result))) state value log next ↔ _
  rw [returns_done_iff, Except.ok.injEq]

theorem not_returns_throw {error : HostError} {value : α} :
    ¬ Returns link (throw error) state value log next := by
  change ¬ Returns link (.mk (.done (.error error))) state value log next
  simp [returns_done_iff]

/-- Calls in a row succeed one after the other. -/
theorem returns_bind_iff {call : HostCall α} {f : α → HostCall β} {value : β} :
    Returns link (call >>= f) state value log next ↔
      ∃ first middle before after, Returns link call state first before middle ∧
        Returns link (f first) middle value after next ∧ log = before ++ after := by
  have hRun : (call >>= f).run = call.run.bind (ExceptT.bindCont f) := rfl
  unfold Returns
  rw [hRun, Dialogue.run_bind, Dialogue.transcript_bind]
  rcases call.run.run link state with ⟨error | first, middle⟩
  · change (Except.error error, middle) = (Except.ok value, next) ∧ _ ↔ _
    simp
  · constructor
    · rintro ⟨hValue, rfl⟩
      exact ⟨first, middle, _, _, ⟨rfl, rfl⟩, ⟨hValue, rfl⟩, rfl⟩
    · rintro ⟨_, _, before, after, ⟨hFirst, rfl⟩, ⟨hValue, rfl⟩, rfl⟩
      cases hFirst
      exact ⟨hValue, rfl⟩

/-- Of calls in a row the second one sends nothing, unless the first one returns. -/
theorem mem_transcript_bind {call : HostCall α} {f : α → HostCall β} {delivery : Delivery}
    (hMem : delivery ∈ (call >>= f).run.transcript link state) :
    delivery ∈ call.run.transcript link state ∨
      ∃ first before middle, Returns link call state first before middle ∧
        delivery ∈ (f first).run.transcript link middle := by
  have hRun : (call >>= f).run = call.run.bind (ExceptT.bindCont f) := rfl
  rw [hRun, Dialogue.transcript_bind] at hMem
  rcases List.mem_append.1 hMem with hFirst | hSecond
  · exact .inl hFirst
  · rcases hResult : call.run.run link state with ⟨error | first, middle⟩
    · rw [hResult] at hSecond
      exact absurd hSecond List.not_mem_nil
    · rw [hResult] at hSecond
      exact .inr ⟨first, _, middle, ⟨hResult, rfl⟩, hSecond⟩

/-- A handler that never returns does not make a call succeed. -/
theorem returns_tryCatch_iff {call : HostCall α} {handler : HostError → HostCall α} {value : α}
    (hHandler : ∀ error state value log next, ¬ Returns link (handler error) state value log next) :
    Returns link (tryCatch call handler) state value log next ↔
      Returns link call state value log next := by
  have hRun : (tryCatch call handler).run = call.run.bind fun
      | .ok value => .done (.ok value)
      | .error error => (handler error).run := by
    change call.run.bind _ = _
    congr 1
    funext result
    cases result <;> rfl
  unfold Returns
  rw [hRun, Dialogue.run_bind, Dialogue.transcript_bind]
  rcases call.run.run link state with ⟨error | first, middle⟩
  · constructor
    · rintro ⟨hValue, -⟩
      exact absurd ⟨hValue, rfl⟩ (hHandler error middle value _ next)
    · rintro ⟨hError, -⟩
      cases hError
  · change (Except.ok first, middle) = (Except.ok value, next) ∧ _ ++ [] = log ↔ _
    rw [List.append_nil]

end HostCall

namespace DeviceHandle

open HostCall

variable {σ α : Type} {link : Link σ} {state next : σ} {log : List Delivery}
  {handle : DeviceHandle}

/-- Chunks that were all answered with success convey their message. -/
theorem conveyed_of_perform {instruction : Instruction} {payload data : Bytes} {limit time : Nat}
    {budget : Option Nat}
    (hPerform : link.perform limit budget ((Chunk.split instruction.code 0 payload).map
      fun chunk => (Command.ofChunk chunk).toBytes) 0 [] state = (.ended (.ok data) time, next)) :
    Conveyed instruction payload data (link.sent limit budget
      ((Chunk.split instruction.code 0 payload).map fun chunk => (Command.ofChunk chunk).toBytes)
      0 [] state) := by
  obtain ⟨hCommands, hAnswered, hLast⟩ := Link.sent_of_perform hPerform
  generalize link.sent limit budget ((Chunk.split instruction.code 0 payload).map
    fun chunk => (Command.ofChunk chunk).toBytes) 0 [] state = log at *
  obtain ⟨hPayload, hSplit⟩ := Chunk.split_carries instruction.code 0 payload
  have hChunks := map_chunk?_of_commands hCommands
  have hInstruction : ∀ delivery ∈ log, delivery.instruction? = some instruction := by
    intro delivery hDelivery
    have hMem : delivery.chunk? ∈ log.map (·.chunk?) := List.mem_map_of_mem hDelivery
    rw [hChunks] at hMem
    obtain ⟨chunk, hChunk, hSame⟩ := List.mem_map.1 hMem
    rw [Delivery.instruction?, ← hSame, Option.bind_some, Instruction.ofCode?_eq_some_iff]
    exact (hSplit chunk hChunk).1
  refine ⟨hInstruction, ?_, hAnswered, ?_⟩
  · rw [payloadOf_eq_flatMap hInstruction hChunks, hPayload]
  · cases hEnd : log.getLast? with
    | none =>
        rw [List.getLast?_eq_none_iff] at hEnd
        rw [hEnd] at hCommands
        exact (Chunk.split_ne_nil _ _ _ (List.map_eq_nil_iff.1 hCommands.symm)).elim
    | some last =>
        obtain ⟨answer, hAnswer⟩ :=
          Option.isSome_iff_exists.1 (hAnswered last (List.mem_of_getLast? hEnd))
        rw [hEnd] at hLast
        simp only [Option.bind_some, hAnswer, Option.getD_some] at hLast ⊢
        rw [hLast]

/-- A request that succeeds conveys its payload. -/
theorem conveyed_of_request {instruction : Instruction} {payload data : Bytes}
    (hRequest : Returns link (handle.request instruction.code payload) state data log next) :
    Conveyed instruction payload data log := by
  unfold request commands frame at hRequest
  by_cases hLong : maxPayload < payload.length
  · rw [if_pos hLong] at hRequest
    exact (not_returns_throw hRequest).elim
  · rw [if_neg hLong] at hRequest
    obtain ⟨hRun, rfl⟩ := hRequest
    dsimp only [ExceptT.run_mk] at hRun ⊢
    rw [Dialogue.run] at hRun
    rw [Dialogue.transcript_request]
    rcases hPerform : link.perform handle.limit none ((Chunk.split instruction.code 0 payload).map
      fun chunk => (Command.ofChunk chunk).toBytes) 0 [] state with ⟨outcome, middle⟩
    rw [hPerform] at hRun
    cases outcome with
    | ended result time =>
        cases hRun
        change Conveyed instruction payload data (_ ++ [])
        rw [List.append_nil]
        exact conveyed_of_perform hPerform
    | expired => cases hRun

/-- Whatever comes of a request, nothing else is sent. -/
theorem instruction?_of_request {instruction : Instruction} {payload : Bytes}
    {delivery : Delivery}
    (hMem : delivery ∈ (handle.request instruction.code payload).run.transcript link state) :
    delivery.instruction? = some instruction := by
  unfold request commands frame at hMem
  by_cases hLong : maxPayload < payload.length
  · rw [if_pos hLong] at hMem
    exact absurd hMem List.not_mem_nil
  · rw [if_neg hLong] at hMem
    dsimp only [ExceptT.run_mk] at hMem
    rw [Dialogue.transcript_request] at hMem
    rcases List.mem_append.1 hMem with hSent | hNone
    · obtain ⟨chunk, hChunk, hCommand⟩ := List.mem_map.1 (Link.command_mem_of_mem_sent hSent)
      obtain ⟨hCode, hData⟩ := (Chunk.split_carries instruction.code 0 payload).2 chunk hChunk
      rw [Delivery.instruction?, Delivery.chunk?, ← hCommand, Chunk.decode_ofChunk hData]
      exact Instruction.ofCode?_eq_some_iff.2 hCode
    · split at hNone
      · exact absurd hNone List.not_mem_nil
      · exact absurd hNone List.not_mem_nil

theorem readMessage_eq_ok_iff [Message α] {data : Bytes} {content : α} :
    readMessage data = .ok content ↔ Message.decode data = .ok content := by
  unfold readMessage
  cases (Message.decode data : Except WireError α) with
  | error e =>
      change Except.error (HostError.apdu e) = Except.ok content ↔ _
      simp
  | ok found =>
      change Except.ok found = Except.ok content ↔ _
      simp

/-- The host accepts an account whose group is that of its key and the wanted one, at the end of the
path or at any place with a greater number. -/
theorem accountOf_eq_ok_iff {path : DerivationPath} {group : Option UInt8}
    {answer : AccountResponse} {account : Account} :
    accountOf path group answer = .ok account ↔
      (Lockup.ofKey answer.publicKey).group = answer.group ∧
        group.all (· = answer.group) = true ∧ path.last?.getD 0 ≤ answer.index ∧
        account = ⟨path.withLast answer.index, answer.index, answer.group, answer.keyType,
          answer.publicKey⟩ := by
  have hWanted : group.any (· ≠ answer.group) = !group.all (· = answer.group) := by
    cases group <;> simp
  unfold accountOf
  rw [hWanted]
  by_cases hGroup : (Lockup.ofKey answer.publicKey).group = answer.group
  · cases group.all (· = answer.group) with
    | false => simp [hGroup]
    | true =>
        by_cases hBefore : answer.index < path.last?.getD 0
        · simp [hGroup, hBefore, UInt32.not_le.2 hBefore]
        · simp [hGroup, hBefore, UInt32.not_lt.1 hBefore, eq_comm]
  · simp [hGroup]

theorem writeMessage_eq_ok {content : α} [Message α] {data : Bytes}
    (hWrite : writeMessage content = .ok data) : data = Message.toBytes content := by
  unfold writeMessage Message.encode Message.encodeInto at hWrite
  split at hWrite
  · cases hWrite
    rfl
  · cases hWrite

theorem conveyed_of_send [Message α] {instruction : Instruction} {content : α} {data : Bytes}
    (hSend : Returns link (handle.send instruction content) state data log next) :
    Conveyed instruction (Message.toBytes content) data log := by
  unfold send at hSend
  obtain ⟨payload, middle, before, after, hWrite, hRequest, rfl⟩ := returns_bind_iff.1 hSend
  obtain ⟨hPayload, rfl, rfl⟩ := returns_done_iff.1 hWrite
  rw [List.nil_append, ← writeMessage_eq_ok hPayload]
  exact conveyed_of_request hRequest

theorem instruction?_of_send [Message α] {instruction : Instruction} {content : α}
    {delivery : Delivery}
    (hMem : delivery ∈ (handle.send instruction content).run.transcript link state) :
    delivery.instruction? = some instruction := by
  rcases mem_transcript_bind hMem with hNone | ⟨payload, _, _, -, hRequest⟩
  · exact absurd hNone List.not_mem_nil
  · exact instruction?_of_request hRequest

theorem answered_of_ask [Message α] {instruction : Instruction} {content : α}
    (hAsk : Returns link (handle.ask instruction) state content log next) :
    Answered instruction [] content log := by
  unfold ask at hAsk
  obtain ⟨data, middle, before, after, hRequest, hRead, rfl⟩ := returns_bind_iff.1 hAsk
  obtain ⟨hContent, rfl, rfl⟩ := returns_done_iff.1 hRead
  rw [List.append_nil]
  exact ⟨data, conveyed_of_request hRequest, readMessage_eq_ok_iff.1 hContent⟩

/-- One delivery is a question about the request in flight, and the device told this. -/
def Told (info : TxInfo) (delivery : Delivery) : Prop := Answered .txGetInfo [] info [delivery]

/-- A question that is sent while waiting is one delivery. -/
theorem told_of_perform {budget time : Nat} {data : Bytes} {info : TxInfo}
    (hPerform : link.perform handle.limit (some budget)
      [(Command.ofChunk ⟨Instruction.txGetInfo.code, 0, false, []⟩).toBytes] 0 [] state =
        (.ended (.ok data) time, next))
    (hRead : readMessage data = .ok info) :
    ∃ first, Told info first ∧ link.sent handle.limit (some budget)
      [(Command.ofChunk ⟨Instruction.txGetInfo.code, 0, false, []⟩).toBytes] 0 [] state =
        [first] := by
  have hChunks : [(Command.ofChunk ⟨Instruction.txGetInfo.code, 0, false, []⟩).toBytes] =
      (Chunk.split Instruction.txGetInfo.code 0 []).map
        fun chunk => (Command.ofChunk chunk).toBytes := by
    rw [Chunk.split]
    rfl
  have hLength := congrArg List.length (Link.sent_of_perform hPerform).1
  rw [List.length_map] at hLength
  obtain ⟨first, hFirst⟩ := List.length_eq_one_iff.1 hLength
  refine ⟨first, ⟨data, ?_, readMessage_eq_ok_iff.1 hRead⟩, hFirst⟩
  rw [← hFirst]
  rw [hChunks] at hPerform ⊢
  exact conveyed_of_perform hPerform

/-- One round of waiting: a question, and a verdict or a later round. -/
theorem poll_step {verdict : TxInfo → Option (Except HostError Unit)} {budget : Nat}
    (hPoll : Returns link (handle.poll verdict budget) state () log next) :
    ∃ first info rest, Told info first ∧ log = first :: rest ∧
      ((verdict info = some (.ok ()) ∧ rest = []) ∨
        (verdict info = none ∧ ∃ less < budget, ∃ middle,
          Returns link (handle.poll verdict less) middle () rest next)) := by
  rw [poll] at hPoll
  obtain ⟨hRun, rfl⟩ := hPoll
  dsimp only [ExceptT.run_mk] at hRun ⊢
  rw [Dialogue.run] at hRun
  rw [Dialogue.transcript_request]
  rcases hPerform : link.perform handle.limit (some budget)
    [(Command.ofChunk ⟨Instruction.txGetInfo.code, 0, false, []⟩).toBytes] 0 [] state with
    ⟨⟨error | data, elapsed⟩ | _, middle⟩
  · rw [hPerform] at hRun
    cases hRun
  · rw [hPerform] at hRun
    dsimp only at hRun ⊢
    cases hRead : (readMessage data : Except HostError TxInfo) with
    | error error =>
        rw [hRead] at hRun
        cases hRun
    | ok info =>
        obtain ⟨first, hTold, hSent⟩ := told_of_perform hPerform hRead
        rw [hRead] at hRun
        rw [hSent]
        dsimp only at hRun ⊢
        cases hVerdict : verdict info with
        | some result =>
            rw [hVerdict] at hRun
            cases hRun
            exact ⟨first, info, [], hTold, rfl, .inl ⟨hVerdict, rfl⟩⟩
        | none =>
            rw [hVerdict] at hRun
            dsimp only at hRun ⊢
            by_cases hTime : pollInterval ≤ budget - elapsed
            · rw [dif_pos hTime] at hRun ⊢
              refine ⟨first, info, _, hTold, rfl, .inr ⟨hVerdict, _, ?_, middle, hRun, rfl⟩⟩
              simp only [pollInterval] at hTime ⊢
              omega
            · rw [dif_neg hTime] at hRun
              cases hRun
  · rw [hPerform] at hRun
    cases hRun

/-- Waiting ends well only with a verdict, after questions that had none. -/
theorem told_of_poll {verdict : TxInfo → Option (Except HostError Unit)} {budget : Nat}
    (hPoll : Returns link (handle.poll verdict budget) state () log next) :
    ∃ earlier last info, log = earlier ++ [last] ∧
      (∀ delivery ∈ earlier, ∃ info, Told info delivery ∧ verdict info = none) ∧
      Told info last ∧ verdict info = some (.ok ()) := by
  induction budget using Nat.strongRecOn generalizing state log with
  | ind budget ih =>
      obtain ⟨first, info, rest, hTold, rfl, hVerdict | hVerdict⟩ := poll_step hPoll
      · obtain ⟨hApproved, rfl⟩ := hVerdict
        exact ⟨[], first, info, rfl, by simp, hTold, hApproved⟩
      · obtain ⟨hOpen, less, hLess, middle, hRest⟩ := hVerdict
        obtain ⟨earlier, last, lastInfo, rfl, hEarlier, hLast, hEnd⟩ := ih less hLess hRest
        refine ⟨first :: earlier, last, lastInfo, rfl, ?_, hLast, hEnd⟩
        exact List.forall_mem_cons.2 ⟨⟨info, hTold, hOpen⟩, hEarlier⟩

end DeviceHandle

end ColdSigner
