import ColdSigner.Proofs.AccountSearch
import ColdSigner.Proofs.MessageForms
import ColdSigner.Proofs.RefusedRequests
import ColdSigner.Proofs.SignatureRelease
/-!
# Every command is answered

Whatever bytes a host sends, a device answers with a status word of its own, and with data only
where that is the one of success. Then the host reads in them what the device has to say, as the
kind of message that belongs to the instruction (`Engine.command_answered`).
-/
namespace ColdSigner

/-- The data of an answer to an instruction are read as the message that belongs to it, with none of
them left over, and the message says what the output says. -/
def Output.IsReadIn (output : Output) (data : Bytes) : Instruction → Prop
  | .getVersion => ∃ flags, output = .appInfo flags ∧
      Message.parse data = .ok (appInfoOf flags, data.length)
  | .getAccount => ∃ answer, output = .account answer ∧
      Message.parse data = .ok (answer, data.length)
  | .txGetSignature => ∃ answer, output = .signature answer ∧
      Message.parse data = .ok (answer, data.length)
  | .signTx | .txGetInfo | .txComplete | .signHash => ∃ state txId, output = .state state txId ∧
      Message.parse data = .ok ((⟨state.txState, state.value, txId⟩ : TxInfo), data.length)

theorem Output.readsBack_appInfoOf (flags : AppFlags) : Message.ReadsBack (appInfoOf flags) := by
  have hName : "Alephium".utf8ByteSize ≤ 255 := by decide
  have hVersion : "0.1.0".utf8ByteSize ≤ 255 := by decide
  exact AppInfo.readsBack hName hVersion

namespace Engine

variable {store : KeyStore} {engine : Engine store.Key}

section Outputs

variable {output : Output}

/-- A request for a signature is answered with one, or with an error that says why there is none. -/
theorem signatureAnswer_cases (engine : Engine store.Key) :
    (∃ answer, signatureAnswer store engine = .ok (.signature answer)) ∨
      ∃ error, signatureAnswer store engine = .error error ∧ error ≠ .encodingFailed := by
  obtain ⟨state, txId, chunks, context⟩ := engine
  cases state with
  | signed =>
      rcases context with - | ⟨key, review, reviewer, - | signature⟩
      · exact .inr ⟨.signingAborted, rfl, by decide⟩
      · exact .inr ⟨.signingAborted, rfl, by decide⟩
      · exact .inl ⟨_, rfl⟩
  | review step => exact .inr ⟨.approvalPending, rfl, by decide⟩
  | rejected => exact .inr ⟨.userRejected, rfl, by decide⟩
  | init | loading parts | verified | complete | error =>
      exact .inr ⟨.signingAborted, rfl, by decide⟩

/-- What a device has to say to an instruction is of the kind that belongs to it, and is read in its
data. -/
theorem isReadIn_of_update {event : Event} {instruction : Instruction}
    (hInstruction : event.instruction? = some instruction)
    (hOutput : (update store engine event).1 = .ok output) :
    output.IsReadIn output.data instruction := by
  have hState (hKind : ∃ state txId, output = .state state txId) :
      ∃ state txId, output = .state state txId ∧ Message.parse output.data =
        .ok ((⟨state.txState, state.value, txId⟩ : TxInfo), output.data.length) := by
    obtain ⟨state, txId, rfl⟩ := hKind
    exact ⟨state, txId, rfl, TxInfo.readsBack _⟩
  cases event with
  | none => cases hInstruction
  | disconnect => cases hInstruction
  | getVersion =>
      cases hInstruction
      cases hOutput
      exact ⟨engine.flags, rfl, Output.readsBack_appInfoOf engine.flags⟩
  | getAccount request =>
      cases hInstruction
      obtain ⟨answer, rfl⟩ := exists_account_of_getAccount hOutput
      exact ⟨answer, rfl, answer.readsBack⟩
  | txGetSignature =>
      cases hInstruction
      have hAnswer : signatureAnswer store engine = .ok output := hOutput
      rcases signatureAnswer_cases engine with ⟨answer, hFound⟩ | ⟨error, hError, -⟩
      · rw [hFound] at hAnswer
        cases hAnswer
        exact ⟨answer, rfl, answer.readsBack⟩
      · rw [hError] at hAnswer
        cases hAnswer
  | txChunk seq more data =>
      cases hInstruction
      exact hState (exists_state_of_loadChunk hOutput)
  | signHash request =>
      cases hInstruction
      exact hState (exists_state_of_signHash hOutput)
  | txGetInfo =>
      cases hInstruction
      cases hOutput
      exact hState ⟨_, _, rfl⟩
  | txComplete =>
      cases hInstruction
      cases hOutput
      exact hState ⟨_, _, rfl⟩

end Outputs

section Failures

variable {error : DeviceError}

/-- The event asks for a key at a path: that of an account, of a hash, or of the transaction whose
last part it brings. Only for an account the group and the kind of key are those that it names. -/
inductive NeedsKey {Key : Type} (engine : Engine Key) :
    Event → DerivationPath → Option UInt8 → KeyType → Prop where
  | account (request : AccountRequest) :
      NeedsKey engine (.getAccount request) request.path request.group request.keyType
  | hash (request : HashSignRequest) :
      NeedsKey engine (.signHash request) request.path none .standard
  | transaction {seq : UInt8} {data : Bytes} {message : PartialMessage} {request : TxSignRequest}
      (hMessage : engine.chunks.continued? ⟨Instruction.signTx.code, seq, false, data⟩ =
        some message)
      (hRequest : Message.decode (message.data ++ data) = .ok request) :
      NeedsKey engine (.txChunk seq false data) request.path none .standard

/-- The device derives no account, since it has no key at a place of the path and that is the
error. -/
def LacksKey (store : KeyStore) (path : DerivationPath) (group : Option UInt8) (keyType : KeyType)
    (error : DeviceError) : Prop :=
  store.derive path group keyType = .error error ∧
    ∃ index, store.key (path.withLast index).indices = .error error

/-- An answer that cannot be written is an error of the keys alone. -/
theorem lacksKey_of_derive {path : DerivationPath} {group : Option UInt8} {keyType : KeyType}
    (hError : store.derive path group keyType = .error .encodingFailed) :
    LacksKey store path group keyType .encodingFailed := by
  rcases KeyStore.error_of_derive hError with hKind | hPath | hKey
  · cases hKind
  · cases hPath
  · exact ⟨hError, hKey⟩

theorem lacksKey_of_decodeRequest {payload : Bytes}
    (hError : decodeRequest store payload = .error .encodingFailed) :
    ∃ request : TxSignRequest, Message.decode payload = .ok request ∧
      LacksKey store request.path none .standard .encodingFailed := by
  unfold decodeRequest at hError
  split at hError
  · cases hError
  · cases hError
  · next request hRequest =>
      refine ⟨request, hRequest, ?_⟩
      split at hError
      · next found hDerive =>
          cases hError
          exact lacksKey_of_derive hDerive
      · split at hError
        · cases hError
        · cases hError

theorem ofFrame_ne_encodingFailed (error : FrameError) :
    DeviceError.ofFrame error ≠ .encodingFailed := by
  cases error <;> decide

theorem ofWire_ne_encodingFailed (error : WireError) :
    DeviceError.ofWire error ≠ .encodingFailed := by
  cases error <;> decide

/-- Of the parts of a transaction only the last one asks for a key. -/
theorem lacksKey_of_load {parts : UInt16} {seq : UInt8} {more : Bool} {data : Bytes}
    (hError : (load store engine parts seq more data).1 = .error .encodingFailed) :
    more = false ∧ ∃ message,
      engine.chunks.continued? ⟨Instruction.signTx.code, seq, more, data⟩ = some message ∧
        ∃ request : TxSignRequest, Message.decode (message.data ++ data) = .ok request ∧
          LacksKey store request.path none .standard .encodingFailed := by
  rcases load_cases store engine parts seq more data with
    ⟨error, hRefused⟩ | ⟨message, hMessage, -, ⟨-, hAdded⟩ | ⟨hLast, hStart⟩⟩
  · rw [hRefused] at hError
    exact absurd (Except.error.inj hError) (ofFrame_ne_encodingFailed error)
  · rw [hAdded] at hError
    cases hError
  · rw [hStart] at hError
    rcases startTransaction_cases store engine (message.data ++ data) with
      ⟨error, hRequest, hRefused⟩ | ⟨key, review, -, hOpened⟩
    · rw [hRefused] at hError
      cases hError
      exact ⟨hLast, message, hMessage, lacksKey_of_decodeRequest hRequest⟩
    · rw [hOpened] at hError
      cases hError

theorem lacksKey_of_loadChunk {phase : Phase store.Key} {seq : UInt8} {more : Bool} {data : Bytes}
    (hError : (loadChunk store phase.engine seq more data).1 = .error .encodingFailed) :
    ∃ path group keyType, NeedsKey phase.engine (.txChunk seq more data) path group keyType ∧
      LacksKey store path group keyType .encodingFailed := by
  by_cases hPart : phase.engine.Assembles seq
  · obtain ⟨before, parts, hLoad, -, -, hChunks⟩ := exists_load_of_assembles more data hPart
    rw [hLoad] at hError
    obtain ⟨rfl, message, hMessage, request, hRequest, hKey⟩ := lacksKey_of_load hError
    rw [hChunks] at hMessage
    exact ⟨request.path, none, .standard, .transaction hMessage hRequest, hKey⟩
  · obtain ⟨error, hRefused, hOther⟩ := loadChunk_of_not_assembles hPart
    rw [hRefused] at hError
    rcases hOther with rfl | rfl <;> cases hError

theorem lacksKey_of_update {phase : Phase store.Key} {event : Event} (hEvent : event ≠ .disconnect)
    (hError : (update store phase.engine event).1 = .error .encodingFailed) :
    ∃ path group keyType, NeedsKey phase.engine event path group keyType ∧
      LacksKey store path group keyType .encodingFailed := by
  cases event with
  | none => cases hError
  | getVersion => cases hError
  | txGetInfo => cases hError
  | txComplete => cases hError
  | disconnect => exact absurd rfl hEvent
  | txChunk seq more data => exact lacksKey_of_loadChunk hError
  | txGetSignature =>
      have hRefused : signatureAnswer store phase.engine = .error .encodingFailed := hError
      rcases signatureAnswer_cases phase.engine with ⟨answer, hFound⟩ | ⟨error, hOther, hNe⟩
      · rw [hFound] at hRefused
        cases hRefused
      · rw [hOther] at hRefused
        exact absurd (Except.error.inj hRefused) hNe
  | getAccount request =>
      dsimp only [update] at hError
      split at hError
      · cases hError
      · refine ⟨_, _, _, .account request, ?_⟩
        unfold getAccount at hError
        split at hError
        · next found hDerive =>
            cases hError
            exact lacksKey_of_derive hDerive
        · cases hError
  | signHash request =>
      dsimp only [update] at hError
      split at hError
      · cases hError
      · refine ⟨_, _, _, .hash request, ?_⟩
        unfold startHash at hError
        split at hError
        · next found hDerive =>
            cases hError
            exact lacksKey_of_derive hDerive
        · cases hError

end Failures

/-- A command that is refused before the device looks at it has a status word for that. -/
theorem status_of_eventOfCommand {command : Bytes} {status : UInt16}
    (hRefused : eventOfCommand command = .error status) :
    status = Status.unknownInstruction ∨
      ∃ error : DeviceError, status = error.status ∧ error ≠ .encodingFailed := by
  unfold eventOfCommand at hRefused
  split at hRefused
  · cases hRefused
    exact .inr ⟨_, rfl, ofFrame_ne_encodingFailed _⟩
  · split at hRefused
    · cases hRefused
      exact .inl rfl
    · split at hRefused
      · cases hRefused
        exact .inr ⟨_, rfl, ofFrame_ne_encodingFailed _⟩
      · next chunk _ _ _ _ _ =>
          cases hParse : Event.parse chunk with
          | error error =>
              rw [hParse] at hRefused
              cases hRefused
              exact .inr ⟨_, rfl, ofWire_ne_encodingFailed _⟩
          | ok event =>
              rw [hParse] at hRefused
              cases hRefused

theorem length_reply_le (command : Bytes) : (reply store engine command).data.length ≤ 96 := by
  unfold reply
  split
  · exact Nat.zero_le 96
  · next event _ =>
      cases (update store engine event).1 with
      | error error => exact Nat.zero_le 96
      | ok output => exact output.length_data_le

/-- The event of a command belongs to the instruction in its second byte. -/
theorem exists_instruction_of_eventOfCommand {command : Bytes} {event : Event}
    (hEvent : eventOfCommand command = .ok event) :
    ∃ instruction : Instruction, command[1]? = some instruction.code ∧
      event.instruction? = some instruction := by
  obtain ⟨chunk, _, hChunk, -, -, hParse⟩ := eventOfCommand_eq_ok_iff.1 hEvent
  obtain ⟨instruction, hCode, hInstruction⟩ := Event.instruction?_of_parse hParse
  obtain ⟨p2, length, rfl, -⟩ := Chunk.decode_eq_ok_iff.1 hChunk
  exact ⟨instruction, congrArg some (Instruction.ofCode?_eq_some_iff.1 hCode), hInstruction⟩

/-- An answer that tells the host how its command went. -/
structure Answers (store : KeyStore) (engine : Engine store.Key) (command : Bytes)
    (answer : Answer) : Prop where
  /-- The status word is one that a device has. -/
  known : answer.status = Status.ok ∨ answer.status = Status.unknownInstruction ∨
    ∃ error : DeviceError, answer.status = error.status
  /-- That an answer cannot be written is said only for a key at whose place this is the error. -/
  lacksKey : answer.status = DeviceError.encodingFailed.status → ∃ event path group keyType,
    eventOfCommand command = .ok event ∧ NeedsKey engine event path group keyType ∧
      LacksKey store path group keyType .encodingFailed
  /-- A refusal comes without data. -/
  data_eq : answer.status ≠ Status.ok → answer.data = []
  /-- The data say what the device has to say, as the instruction of the command wants it. -/
  isReadIn : answer.status = Status.ok → ∃ instruction event output,
    command[1]? = some instruction.code ∧ eventOfCommand command = .ok event ∧
      (update store engine event).1 = .ok output ∧ output.IsReadIn answer.data instruction

theorem answers_of_error {command : Bytes} {error : DeviceError}
    (hError : error = .encodingFailed → ∃ event path group keyType,
      eventOfCommand command = .ok event ∧ NeedsKey engine event path group keyType ∧
        LacksKey store path group keyType .encodingFailed) :
    Answers store engine command ⟨[], error.status⟩ where
  known := .inr (.inr ⟨error, rfl⟩)
  lacksKey hStatus := hError (DeviceError.status_injective hStatus)
  data_eq _ := rfl
  isReadIn hStatus := absurd hStatus error.status_ne_ok

theorem answers_unknownInstruction {command : Bytes} :
    Answers store engine command ⟨[], Status.unknownInstruction⟩ where
  known := .inr (.inl rfl)
  lacksKey hStatus := absurd hStatus.symm (DeviceError.status_ne_unknownInstruction _)
  data_eq _ := rfl
  isReadIn hStatus := absurd hStatus (by decide)

theorem answers_of_output {command : Bytes} {event : Event} {output : Output}
    (hEvent : eventOfCommand command = .ok event)
    (hOutput : (update store engine event).1 = .ok output) :
    Answers store engine command ⟨output.data, Status.ok⟩ where
  known := .inl rfl
  lacksKey hStatus := absurd hStatus.symm (DeviceError.status_ne_ok _)
  data_eq hStatus := absurd rfl hStatus
  isReadIn _ := by
    obtain ⟨instruction, hCode, hInstruction⟩ := exists_instruction_of_eventOfCommand hEvent
    exact ⟨instruction, event, output, hCode, hEvent, hOutput,
      isReadIn_of_update hInstruction hOutput⟩

theorem answers_reply (phase : Phase store.Key) (command : Bytes) :
    Answers store phase.engine command (reply store phase.engine command) := by
  cases hEvent : eventOfCommand command with
  | error status =>
      rw [reply_of_refused hEvent]
      rcases status_of_eventOfCommand hEvent with rfl | ⟨error, rfl, hError⟩
      · exact answers_unknownInstruction
      · exact answers_of_error fun hSame => absurd hSame hError
  | ok event =>
      rw [reply_of_event hEvent]
      cases hUpdate : (update store phase.engine event).1 with
      | ok output => exact answers_of_output hEvent hUpdate
      | error error =>
          refine answers_of_error ?_
          rintro rfl
          have hHere : event ≠ .disconnect := by
            rintro rfl
            exact eventOfCommand_ne_disconnect command hEvent
          obtain ⟨path, group, keyType, hNeeds, hKey⟩ := lacksKey_of_update hHere hUpdate
          exact ⟨event, path, group, keyType, hEvent, hNeeds, hKey⟩

/-- Whatever was done to a device and whatever bytes are sent to it, it answers. With room for the
longest answer there is a status word at the end, which is the one of success, the one for an
instruction that there is not, or that of an error of the device. It says that an answer cannot be
written only if the keys say so of a place that the command asks for. Before a status word that is
not the one of success there is nothing. Before that one the host reads, to the last byte, the
message that its instruction calls for, and it says what the device has to say to the event. -/
theorem command_answered (store : KeyStore) (operations : List Operation) (command : Bytes)
    {capacity : Nat} (hCapacity : 98 ≤ capacity) :
    let engine := after store operations
    let bytes := (handle store engine capacity command).1
    2 ≤ bytes.length ∧ bytes.length ≤ capacity ∧
      ∃ answer : Answer, bytes = answer.data ++ Status.toBytes answer.status ∧
        Answers store engine command answer := by
  intro engine bytes
  obtain ⟨phase, run⟩ := exists_run store operations
  have hEngine : engine = phase.engine := run.after_eq
  have hBytes : bytes = (reply store engine command).data ++
      Status.toBytes (reply store engine command).status := fst_handle engine hCapacity command
  have hTwo := Status.length_toBytes (reply store engine command).status
  have hData : (reply store engine command).data.length ≤ 96 := length_reply_le command
  refine ⟨?_, ?_, reply store engine command, hBytes, ?_⟩
  · rw [hBytes, List.length_append, hTwo]
    exact Nat.le_add_left 2 _
  · rw [hBytes, List.length_append, hTwo]
    omega
  · rw [hEngine]
    exact answers_reply phase command

/-- The signature of a hash that the user approved takes all the room that an answer needs, and the
host reads it. -/
theorem command_answered_signature :
    let command : Bytes := [0x80, 0x04, 0, 0, 0]
    let bytes := (handle oneKey (after oneKey hashApproval) 98 command).1
    bytes.length = 98 ∧ ∃ data, bytes = data ++ Status.toBytes Status.ok ∧
      ∃ signature : TxSignature, Message.parse data = .ok (signature, data.length) := by
  intro command bytes
  have hLength : bytes.length = 98 := by decide +kernel
  have hStatus : (Answer.ofBytes? bytes).map (·.status) = some Status.ok := by decide +kernel
  obtain ⟨-, -, answer, hBytes, hAnswers⟩ :=
    command_answered oneKey hashApproval command (Nat.le_refl 98)
  have hOk : answer.status = Status.ok := by
    have hAnswer : Answer.ofBytes? bytes = some answer := by
      rw [← Answer.ofBytes?_append answer.data answer.status, ← hBytes]
    rw [hAnswer] at hStatus
    exact Option.some.inj hStatus
  obtain ⟨instruction, event, output, hCode, -, -, hRead⟩ := hAnswers.isReadIn hOk
  obtain rfl : instruction = .txGetSignature :=
    Option.some.inj (Instruction.ofCode?_eq_some_iff.2 (Option.some.inj hCode)).symm
  obtain ⟨signature, -, hSignature⟩ := hRead
  exact ⟨hLength, answer.data, hOk ▸ hBytes, signature, hSignature⟩

end Engine

end ColdSigner
