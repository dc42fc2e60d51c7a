import ColdSigner.Proofs.ChunkSequences
import Mathlib.Data.List.Induction
/-!
# What a receiver holds

Whatever is done to a receiver with room for any number of bytes, it is empty, or it holds the
chunks that it took since a message was started the last time, and nothing else
(`Reassembly.received_since_start`). `Reassembly.Brings` says which chunks these are, from the
answers that the receiver gave; what it holds is an induction on them.
-/
namespace ColdSigner

namespace Reassembly

/-- What can be done to a receiver. -/
inductive Action where
  | push (chunk : Chunk)
  /-- The channel is closed. -/
  | close
  /-- What was received is given up. -/
  | clear
  deriving DecidableEq, Repr

/-- The number of the next chunk. The one behind the number 255 is zero. -/
def nextSeq : Reassembly → UInt8
  | empty => 0
  | receiving message | complete message => message.nextSeq

/-- The bytes that were received. -/
def buffer : Reassembly → Bytes
  | empty => []
  | receiving message | complete message => message.data

def isComplete : Reassembly → Bool
  | complete _ => true
  | _ => false

/-- Nothing is left of any message. -/
structure IsEmpty (state : Reassembly) : Prop where
  ins?_eq : state.ins? = none
  nextSeq_eq : state.nextSeq = 0
  isComplete_eq : state.isComplete = false
  buffer_eq : state.buffer = []

def perform (capacity : Nat) (state : Reassembly) : Action → Reassembly
  | .push chunk => (state.push capacity chunk).2
  | .close => state.close.2
  | .clear => empty

/-- The receiver after some actions in a row, with room for `capacity` bytes. -/
def after (capacity : Nat) (actions : List Action) : Reassembly :=
  actions.foldl (perform capacity) empty

/-- After these actions the receiver takes the chunk. -/
def Takes (capacity : Nat) (actions : List Action) (chunk : Chunk) : Prop :=
  ∃ answer, ((after capacity actions).push capacity chunk).1 = .ok answer

/-- The actions end with these chunks, each of which was taken. The first of them starts a
message, and none behind it does. -/
inductive Brings (capacity : Nat) : List Action → List Chunk → Prop where
  | start {earlier : List Action} {chunk : Chunk} (hSeq : chunk.seq = 0)
      (hTakes : Takes capacity earlier chunk) :
      Brings capacity (earlier ++ [.push chunk]) [chunk]
  | next {actions : List Action} {chunks : List Chunk} {chunk : Chunk}
      (hBefore : Brings capacity actions chunks) (hSeq : chunk.seq ≠ 0)
      (hTakes : Takes capacity actions chunk) :
      Brings capacity (actions ++ [.push chunk]) (chunks ++ [chunk])

/-- The last chunk says that it is the end. -/
def Ended (chunks : List Chunk) : Prop :=
  ∃ last, chunks.getLast? = some last ∧ last.more = false

/-- The receiver holds what these chunks brought, and they are the chunks of one message in
order, up to its end or not. -/
structure Holds (capacity : Nat) (chunks : List Chunk) (state : Reassembly) : Prop where
  ins?_eq : ∀ chunk ∈ chunks, state.ins? = some chunk.ins
  /-- The chunks are counted from zero. -/
  seq_eq : ∀ (index : Nat) (chunk : Chunk), chunks[index]? = some chunk →
    chunk.seq.toNat = index
  length_le : chunks.length ≤ 256
  more : ∀ chunk ∈ chunks.dropLast, chunk.more = true
  buffer_eq : state.buffer = chunks.flatMap (·.data)
  buffer_le : state.buffer.length ≤ min capacity 4096
  nextSeq_eq : state.nextSeq.toNat = chunks.length % 256
  isComplete_iff : state.isComplete = true ↔ Ended chunks

/-- What is in a buffer, with more bytes behind it; none if the buffer has no room for them. -/
def extend? (capacity : Nat) (buffer data : Bytes) : Option Bytes :=
  if buffer.length + data.length ≤ capacity then some (buffer ++ data) else none

/-- Take a chunk into a buffer that looks after its capacity by itself; none if it complains. -/
def pushInto? (capacity : Nat) (state : Reassembly) (chunk : Chunk) :
    Option (Except FrameError Bool × Reassembly) :=
  match state.continued? chunk with
  | none => some (.error .framing, empty)
  | some message =>
      if min capacity maxPayload < message.data.length + chunk.data.length then
        some (.error .payloadTooLarge, empty)
      else
        (extend? capacity message.data chunk.data).map fun data =>
          let message : PartialMessage := ⟨message.ins, message.nextSeq + 1, data⟩
          if chunk.more then (.ok false, receiving message) else (.ok true, complete message)

variable {capacity : Nat} {state : Reassembly} {chunk : Chunk} {actions : List Action}
  {chunks : List Chunk}

theorem isEmpty_iff : state.IsEmpty ↔ state = empty := by
  constructor
  · intro hEmpty
    cases state with
    | empty => rfl
    | receiving message => cases hEmpty.ins?_eq
    | complete message => cases hEmpty.ins?_eq
  · rintro rfl
    exact ⟨rfl, rfl, rfl, rfl⟩

theorem after_concat (actions : List Action) (action : Action) :
    after capacity (actions ++ [action]) = perform capacity (after capacity actions) action := by
  simp [after]

/-! ## One chunk -/

/-- A chunk with number zero starts a message where none is in progress, and any other one
continues the message in progress. -/
theorem continued?_eq_some_iff {message : PartialMessage} :
    state.continued? chunk = some message ↔
      (chunk.seq = 0 ∧ state.inProgress = false ∧ message = ⟨chunk.ins, 0, []⟩) ∨
      (chunk.seq ≠ 0 ∧ state = receiving message ∧ message.ins = chunk.ins ∧
        chunk.seq = message.nextSeq) := by
  cases state with
  | empty => simp [continued?, inProgress, eq_comm]
  | complete found => simp [continued?, inProgress, eq_comm]
  | receiving found =>
      rw [Engine.continued?_receiving]
      constructor
      · rintro ⟨⟨hSeq, hIns⟩, hNext, rfl⟩
        exact .inr ⟨hSeq, rfl, hIns, hNext⟩
      · rintro (⟨-, hIdle, -⟩ | ⟨hSeq, hSame, hIns, hNext⟩)
        · cases hIdle
        · cases hSame
          exact ⟨⟨hSeq, hIns⟩, hNext, rfl⟩

/-- A chunk is refused and everything received with it is gone, or it continues a message and
has room in it. -/
theorem push_cases (capacity : Nat) (state : Reassembly) (chunk : Chunk) :
    (∃ error, state.push capacity chunk = (.error error, empty)) ∨
      ∃ message, state.continued? chunk = some message ∧
        (message.data ++ chunk.data).length ≤ min capacity maxPayload ∧
        state.push capacity chunk = (.ok !chunk.more, message.extend chunk) := by
  cases hMessage : state.continued? chunk with
  | none => exact .inl ⟨.framing, by simp only [push, hMessage]⟩
  | some message =>
      by_cases hLong : min capacity maxPayload < (message.data ++ chunk.data).length
      · exact .inl ⟨.payloadTooLarge, by simp only [push, hMessage, if_pos hLong]⟩
      · refine .inr ⟨message, rfl, Nat.not_lt.1 hLong, ?_⟩
        simp only [push, hMessage, if_neg hLong, PartialMessage.extend]
        cases chunk.more with
        | true => rfl
        | false => rfl

theorem fst_push_eq_error_iff :
    (∃ error, (state.push capacity chunk).1 = .error error) ↔
      (state.push capacity chunk).2 = empty := by
  rcases push_cases capacity state chunk with ⟨error, hPush⟩ | ⟨message, -, -, hPush⟩
  · simp [hPush]
  · rw [hPush, PartialMessage.extend]
    cases chunk.more <;> simp

/-- A buffer that looks after its capacity by itself has nothing to complain about. -/
theorem pushInto?_eq (capacity : Nat) (state : Reassembly) (chunk : Chunk) :
    state.pushInto? capacity chunk = some (state.push capacity chunk) := by
  unfold pushInto? push
  cases state.continued? chunk with
  | none => rfl
  | some message =>
      simp only [List.length_append]
      by_cases hLong : min capacity maxPayload < message.data.length + chunk.data.length
      · rw [if_pos hLong, if_pos hLong]
      · have hRoom : message.data.length + chunk.data.length ≤ capacity :=
          Nat.le_trans (Nat.not_lt.1 hLong) (Nat.min_le_left _ _)
        rw [if_neg hLong, if_neg hLong, extend?, if_pos hRoom]
        rfl

/-! ## Runs -/

theorem ended_concat : Ended (chunks ++ [chunk]) ↔ chunk.more = false := by
  simp [Ended]

theorem buffer_extend (message : PartialMessage) :
    (message.extend chunk).buffer = message.data ++ chunk.data := by
  unfold PartialMessage.extend
  cases chunk.more <;> rfl

theorem nextSeq_extend (message : PartialMessage) :
    (message.extend chunk).nextSeq = message.nextSeq + 1 := by
  unfold PartialMessage.extend
  cases chunk.more <;> rfl

theorem ins?_extend (message : PartialMessage) :
    (message.extend chunk).ins? = some message.ins := by
  unfold PartialMessage.extend
  cases chunk.more <;> rfl

theorem isComplete_extend (message : PartialMessage) :
    (message.extend chunk).isComplete = !chunk.more := by
  unfold PartialMessage.extend
  cases chunk.more <;> rfl

/-- A chunk that was taken continues a message and has room in it. -/
theorem Takes.exists_message (hTakes : Takes capacity actions chunk) :
    ∃ message, (after capacity actions).continued? chunk = some message ∧
      (message.data ++ chunk.data).length ≤ min capacity maxPayload ∧
      after capacity (actions ++ [.push chunk]) = message.extend chunk := by
  obtain ⟨answer, hAnswer⟩ := hTakes
  rcases push_cases capacity (after capacity actions) chunk with
    ⟨error, hPush⟩ | ⟨message, hMessage, hRoom, hPush⟩
  · rw [hPush] at hAnswer
    cases hAnswer
  · exact ⟨message, hMessage, hRoom, by rw [after_concat, perform, hPush]⟩

/-- A chunk behind chunks that all announce more of the same message. -/
theorem holds_extend {message : PartialMessage} (hIns : message.ins = chunk.ins)
    (hSame : ∀ earlier ∈ chunks, earlier.ins = message.ins)
    (hCount : ∀ (index : Nat) (earlier : Chunk), chunks[index]? = some earlier →
      earlier.seq.toNat = index)
    (hMore : ∀ earlier ∈ chunks, earlier.more = true) (hSeq : chunk.seq.toNat = chunks.length)
    (hNext : message.nextSeq = chunk.seq) (hData : message.data = chunks.flatMap (·.data))
    (hRoom : (message.data ++ chunk.data).length ≤ min capacity maxPayload) :
    (message.extend chunk).Holds capacity (chunks ++ [chunk]) := by
  have hByte := chunk.seq.toNat_lt
  have hLength : (chunks ++ [chunk]).length = chunks.length + 1 := by simp
  constructor
  case ins?_eq =>
    intro earlier hMem
    rw [ins?_extend]
    rcases List.mem_append.1 hMem with hEarlier | hLast
    · rw [hSame earlier hEarlier]
    · rw [List.mem_singleton.1 hLast, hIns]
  case seq_eq =>
    intro index earlier hEarlier
    rw [List.getElem?_append] at hEarlier
    split at hEarlier
    · exact hCount index earlier hEarlier
    · next hIndex =>
        obtain ⟨hZero, rfl⟩ : index - chunks.length = 0 ∧ chunk = earlier := by
          simpa [List.getElem?_singleton] using hEarlier
        omega
  case length_le => omega
  case more => simpa using hMore
  case buffer_eq => simp [buffer_extend, hData]
  case buffer_le => rwa [buffer_extend]
  case nextSeq_eq =>
    rw [nextSeq_extend, hNext, hLength, ← hSeq, UInt8.toNat_add]
    rfl
  case isComplete_iff => simp [isComplete_extend, ended_concat]

/-- Before the end of a message all chunks announce more. -/
theorem Holds.announced (hHolds : state.Holds capacity chunks) (hOpen : state.isComplete = false) :
    ∀ earlier ∈ chunks, earlier.more = true := by
  intro earlier hMem
  have hSome := List.ne_nil_of_mem hMem
  rw [← List.dropLast_concat_getLast hSome] at hMem
  rcases List.mem_append.1 hMem with hEarlier | hLast
  · exact hHolds.more earlier hEarlier
  · obtain rfl := List.mem_singleton.1 hLast
    refine (Bool.eq_false_or_eq_true _).resolve_right fun hEnd => ?_
    have hComplete := hHolds.isComplete_iff.2
      ⟨chunks.getLast hSome, List.getLast?_eq_some_getLast hSome, hEnd⟩
    rw [hOpen] at hComplete
    cases hComplete

theorem holds_of_start (hSeq : chunk.seq = 0) (hTakes : Takes capacity actions chunk) :
    (after capacity (actions ++ [.push chunk])).Holds capacity [chunk] := by
  obtain ⟨message, hMessage, hRoom, hAfter⟩ := hTakes.exists_message
  rcases continued?_eq_some_iff.1 hMessage with ⟨-, -, rfl⟩ | ⟨hOther, -⟩
  · rw [hAfter, ← List.nil_append [chunk]]
    exact holds_extend rfl (by simp) (by simp) (by simp) (by simp [hSeq]) hSeq.symm rfl hRoom
  · exact absurd hSeq hOther

theorem Holds.next (hHolds : (after capacity actions).Holds capacity chunks)
    (hSeq : chunk.seq ≠ 0) (hTakes : Takes capacity actions chunk) :
    (after capacity (actions ++ [.push chunk])).Holds capacity (chunks ++ [chunk]) := by
  obtain ⟨message, hMessage, hRoom, hAfter⟩ := hTakes.exists_message
  rcases continued?_eq_some_iff.1 hMessage with ⟨hStart, -⟩ | ⟨-, hState, hIns, hNext⟩
  · exact absurd hStart hSeq
  · rw [hState] at hHolds
    -- Behind 256 chunks the next number would be zero, which continues nothing.
    have hCount : chunk.seq.toNat = chunks.length := by
      have hNumber : chunk.seq.toNat = chunks.length % 256 := hNext ▸ hHolds.nextSeq_eq
      have hPositive : chunk.seq.toNat ≠ 0 := fun hZero => hSeq (UInt8.toNat_inj.1 hZero)
      have hFew := hHolds.length_le
      omega
    have hSame : ∀ earlier ∈ chunks, earlier.ins = message.ins := fun earlier hMem =>
      (Option.some.inj (hHolds.ins?_eq earlier hMem)).symm
    rw [hAfter]
    exact holds_extend hIns hSame hHolds.seq_eq (hHolds.announced rfl) hCount hNext.symm
      hHolds.buffer_eq hRoom

/-- What a receiver holds is what was brought. -/
theorem Brings.holds (hBrings : Brings capacity actions chunks) :
    (after capacity actions).Holds capacity chunks := by
  induction hBrings with
  | start hSeq hTakes => exact holds_of_start hSeq hTakes
  | next hBefore hSeq hTakes ih => exact ih.next hSeq hTakes

theorem Brings.ne_nil (hBrings : Brings capacity actions chunks) : chunks ≠ [] := by
  cases hBrings <;> simp

theorem Brings.ne_empty (hBrings : Brings capacity actions chunks) :
    after capacity actions ≠ empty := by
  intro hEmpty
  obtain ⟨chunk, hMem⟩ := List.exists_mem_of_ne_nil chunks hBrings.ne_nil
  have hIns := hBrings.holds.ins?_eq chunk hMem
  rw [hEmpty] at hIns
  cases hIns

/-- An action leaves nothing behind, or it is a chunk that starts or continues a message. -/
theorem empty_or_brings (capacity : Nat) (actions : List Action) :
    after capacity actions = empty ∨ ∃ chunks, Brings capacity actions chunks := by
  induction actions using List.reverseRecOn with
  | nil => exact .inl rfl
  | append_singleton actions action ih =>
      rw [after_concat]
      cases action with
      | close => exact .inl rfl
      | clear => exact .inl rfl
      | push chunk =>
          rcases push_cases capacity (after capacity actions) chunk with
            ⟨error, hPush⟩ | ⟨message, hMessage, -, hPush⟩
          · exact .inl (by rw [perform, hPush])
          · have hTakes : Takes capacity actions chunk := ⟨!chunk.more, by rw [hPush]⟩
            rcases continued?_eq_some_iff.1 hMessage with ⟨hSeq, -⟩ | ⟨hSeq, hState, -⟩
            · exact .inr ⟨[chunk], .start hSeq hTakes⟩
            · obtain ⟨chunks, hBrings⟩ := ih.resolve_left (by rw [hState]; simp)
              exact .inr ⟨chunks ++ [chunk], hBrings.next hSeq hTakes⟩

/-- A receiver that was used before holds what a new one would. -/
theorem Brings.after_eq (hBrings : Brings capacity actions chunks) :
    after capacity actions = after capacity (chunks.map .push) := by
  induction hBrings with
  | @start earlier chunk hSeq hTakes =>
      obtain ⟨message, hMessage, -⟩ := hTakes.exists_message
      rcases continued?_eq_some_iff.1 hMessage with ⟨-, -, rfl⟩ | ⟨hOther, -⟩
      · have hNew : empty.continued? chunk = some ⟨chunk.ins, 0, []⟩ :=
          continued?_eq_some_iff.2 (.inl ⟨hSeq, rfl, rfl⟩)
        have hSame : (after capacity earlier).push capacity chunk = empty.push capacity chunk := by
          simp only [push, hMessage, hNew]
        rw [after_concat, perform, hSame]
        rfl
      · exact absurd hSeq hOther
  | next hBefore hSeq hTakes ih =>
      rw [after_concat, ih, List.map_append, List.map_singleton, after_concat]

theorem payload?_eq_some_iff {payload : Bytes} :
    state.payload? = some payload ↔ state.isComplete = true ∧ payload = state.buffer := by
  cases state <;> simp [payload?, isComplete, buffer, eq_comm]

theorem fst_close_eq_error_iff :
    (∃ error, state.close.1 = .error error) ↔ state ≠ empty ∧ state.isComplete = false := by
  cases state <;> simp [close, inProgress, isComplete]

/-- There is a payload exactly behind the last chunk of a message. -/
theorem payload?_after_eq_some_iff {payload : Bytes} :
    (after capacity actions).payload? = some payload ↔
      ∃ chunks, Brings capacity actions chunks ∧ Ended chunks ∧
        payload = chunks.flatMap (·.data) := by
  rw [payload?_eq_some_iff]
  constructor
  · rintro ⟨hComplete, rfl⟩
    rcases empty_or_brings capacity actions with hEmpty | ⟨chunks, hBrings⟩
    · rw [hEmpty] at hComplete
      cases hComplete
    · exact ⟨chunks, hBrings, hBrings.holds.isComplete_iff.1 hComplete, hBrings.holds.buffer_eq⟩
  · rintro ⟨chunks, hBrings, hEnded, rfl⟩
    exact ⟨hBrings.holds.isComplete_iff.2 hEnded, hBrings.holds.buffer_eq.symm⟩

/-- Closing is an error exactly in the middle of a message. -/
theorem fst_close_after_eq_error_iff :
    (∃ error, (after capacity actions).close.1 = .error error) ↔
      ∃ chunks, Brings capacity actions chunks ∧ ¬ Ended chunks := by
  rw [fst_close_eq_error_iff]
  constructor
  · rintro ⟨hSome, hOpen⟩
    obtain ⟨chunks, hBrings⟩ := (empty_or_brings capacity actions).resolve_left hSome
    refine ⟨chunks, hBrings, fun hEnded => ?_⟩
    rw [hBrings.holds.isComplete_iff.2 hEnded] at hOpen
    cases hOpen
  · rintro ⟨chunks, hBrings, hEnded⟩
    exact ⟨hBrings.ne_empty,
      Bool.eq_false_iff.2 fun hComplete => hEnded (hBrings.holds.isComplete_iff.1 hComplete)⟩

/-- Whatever was done to a receiver, of whatever capacity, it is empty, or it holds the chunks that
it took since a message was started the last time: their data, in a buffer that never runs full,
and their number. So it gives a payload exactly behind the last chunk of a message, and exactly
the data of this message, as a new receiver would. Closing is an error exactly in the middle of a
message, and whatever is refused leaves nothing behind. -/
theorem received_since_start (capacity : Nat) (actions : List Action) :
    let state := after capacity actions
    (state.IsEmpty ∧ (∀ chunks, ¬ Brings capacity actions chunks) ∨
      ∃ chunks, Brings capacity actions chunks ∧ state.Holds capacity chunks ∧
        state = after capacity (chunks.map .push)) ∧
    (∀ payload, state.payload? = some payload ↔
      ∃ chunks, Brings capacity actions chunks ∧ Ended chunks ∧
        payload = chunks.flatMap (·.data)) ∧
    ((∃ error, state.close.1 = .error error) ↔
      ∃ chunks, Brings capacity actions chunks ∧ ¬ Ended chunks) ∧
    (after capacity (actions ++ [.close])).IsEmpty ∧
    (after capacity (actions ++ [.clear])).IsEmpty ∧
    ∀ chunk,
      ((∃ error, (state.push capacity chunk).1 = .error error) ↔
        (after capacity (actions ++ [.push chunk])).IsEmpty) ∧
      state.pushInto? capacity chunk = some (state.push capacity chunk) := by
  intro state
  have hLeft (action : Action) (hEmpty : perform capacity state action = empty) :
      (after capacity (actions ++ [action])).IsEmpty := by
    rw [isEmpty_iff, after_concat]
    exact hEmpty
  refine ⟨?_, fun payload => payload?_after_eq_some_iff, fst_close_after_eq_error_iff,
    hLeft .close rfl, hLeft .clear rfl, fun chunk => ⟨?_, pushInto?_eq capacity state chunk⟩⟩
  · rcases empty_or_brings capacity actions with hEmpty | ⟨chunks, hBrings⟩
    · exact .inl ⟨isEmpty_iff.2 hEmpty, fun chunks hBrings => hBrings.ne_empty hEmpty⟩
    · exact .inr ⟨chunks, hBrings, hBrings.holds, hBrings.after_eq⟩
  · rw [isEmpty_iff, after_concat]
    exact fst_push_eq_error_iff

/-- A chunk out of turn gives up the message, and the next one holds nothing of it. -/
example : (after 300 [.push ⟨2, 0, true, [1]⟩, .push ⟨2, 2, false, [2]⟩,
    .push ⟨2, 0, true, [3]⟩, .push ⟨2, 1, false, [4]⟩]).payload? = some [3, 4] := rfl

end Reassembly

end ColdSigner
