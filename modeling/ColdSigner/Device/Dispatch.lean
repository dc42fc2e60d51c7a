import ColdSigner.Device.Engine
/-!
# Answers to commands

The device takes the bytes of a command and answers with the bytes of an output and a status
word.
-/
namespace ColdSigner.Engine

variable (store : KeyStore) (engine : Engine store.Key)

/-- The event of a command, or the status word that refuses it. Only a transaction may take
more than one command. -/
def eventOfCommand (command : Bytes) : Except UInt16 Event :=
  match Chunk.decode command with
  | .error e => .error (DeviceError.ofFrame e).status
  | .ok chunk =>
      match Instruction.ofCode? chunk.ins with
      | none => .error Status.unknownInstruction
      | some instruction =>
          if instruction ≠ .signTx ∧ (chunk.seq ≠ 0 ∨ chunk.more) then
            .error (DeviceError.ofFrame .framing).status
          else (Event.parse chunk).mapError fun e => (DeviceError.ofWire e).status

/-- The data and the status word of the answer to a command, with room for so many bytes of
data. -/
def answer (capacity : Nat) (command : Bytes) : (Bytes × UInt16) × Engine store.Key :=
  match eventOfCommand command with
  | .error status => (([], status), engine)
  | .ok event =>
      let (result, next) := update store engine event
      match result with
      | .error e => (([], e.status), next)
      | .ok output =>
          match output.encodeInto capacity with
          | .ok data => ((data, Status.ok), next)
          | .error _ => (([], DeviceError.encodingFailed.status), next)

/-- The answer to a command in a buffer of some capacity: data and status word, or nothing
where not even the status word fits. -/
def handle (capacity : Nat) (command : Bytes) : Bytes × Engine store.Key :=
  let ((data, status), next) := answer store engine (capacity - 2) command
  let buffer := data ++ List.replicate (capacity - data.length) 0
  match Status.append buffer data.length status with
  | .ok (count, written) => (written.take count, next)
  | .error _ => ([], next)

/-- An answer is the data with the status word behind them, if there is room for both. -/
theorem handle_eq (capacity : Nat) (command : Bytes) :
    handle store engine capacity command =
      let ((data, status), next) := answer store engine (capacity - 2) command
      (if data.length + 2 ≤ capacity then data ++ Status.toBytes status else [], next) := by
  rcases hAnswer : answer store engine (capacity - 2) command with ⟨⟨data, status⟩, next⟩
  have hEnd : data.length + 2 ≤
      (data ++ List.replicate (capacity - data.length) (0 : UInt8)).length ↔
        data.length + 2 ≤ capacity := by
    rw [List.length_append, List.length_replicate]
    omega
  by_cases hRoom : data.length + 2 ≤ capacity
  · obtain ⟨written, hAppend, hFront⟩ := Status.exists_append (hEnd.2 hRoom) status
    simp only [handle, hAnswer, hAppend, hFront, List.take_left, if_pos hRoom]
  · have hAppend := Status.append_of_short (Nat.not_le.1 (mt hEnd.1 hRoom)) status
    simp only [handle, hAnswer, hAppend, if_neg hRoom]

def disconnect : Engine store.Key :=
  (update store engine .disconnect).2

end ColdSigner.Engine
