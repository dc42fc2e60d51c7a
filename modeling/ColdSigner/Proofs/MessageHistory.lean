import ColdSigner.Proofs.EngineInvariant
/-!
# Which operations bring a message

What a device received of a transaction was brought by the operations since the first part, one
part after the other (`Engine.Sending`), and so was a complete message (`Engine.Sends`).
-/
namespace ColdSigner

namespace Operation

/-- The part of a transaction that an operation brings. -/
def part? (operation : Operation) : Option Chunk :=
  match operation.event? with
  | some (.txChunk seq more data) => some ⟨Instruction.signTx.code, seq, more, data⟩
  | _ => none

theorem part?_of_event? {operation : Operation} {seq : UInt8} {more : Bool} {data : Bytes}
    (hEvent : operation.event? = some (.txChunk seq more data)) :
    operation.part? = some ⟨Instruction.signTx.code, seq, more, data⟩ := by
  simp only [part?, hEvent]

theorem seq_eq_zero_of_part? {operation : Operation} {part : Chunk}
    (hPart : ∀ seq more data, operation.event? = some (.txChunk seq more data) → seq = 0)
    (hSome : operation.part? = some part) : part.seq = 0 := by
  unfold part? at hSome
  split at hSome
  · next seq more data hEvent =>
      cases hSome
      exact hPart seq more data hEvent
  · cases hSome

/-- The parts behind the first one. A part with number zero is none of them, because it is
refused in the middle of a message. -/
def furtherParts (operations : List Operation) : List Chunk :=
  (operations.filterMap part?).filter (·.seq ≠ 0)

/-- The parts that operations bring, beginning with the first of them. -/
def messageParts : List Operation → List Chunk
  | [] => []
  | first :: rest => first.part?.toList ++ furtherParts rest

theorem messageParts_concat {operations : List Operation} (hSome : operations ≠ [])
    (operation : Operation) :
    messageParts (operations ++ [operation]) =
      messageParts operations ++ furtherParts [operation] := by
  obtain ⟨first, rest, rfl⟩ := List.exists_cons_of_ne_nil hSome
  simp [messageParts, furtherParts, List.filterMap_append]

theorem furtherParts_of_part? {operation : Operation} {part : Chunk}
    (hPart : operation.part? = some part) (hSeq : part.seq ≠ 0) :
    furtherParts [operation] = [part] := by
  simp [furtherParts, hPart, hSeq]

theorem furtherParts_of_waiting {operation : Operation}
    (hPart : ∀ seq more data, operation.event? = some (.txChunk seq more data) → seq = 0) :
    furtherParts [operation] = [] := by
  cases hSome : operation.part? with
  | none => simp [furtherParts, hSome]
  | some part => simp [furtherParts, hSome, seq_eq_zero_of_part? hPart hSome]

end Operation

open Operation

/-- Parts in order: their numbers count from zero, in a byte. -/
def Numbered (parts : List Chunk) : Prop :=
  ∀ index part, parts[index]? = some part → part.seq = UInt8.ofNat index

theorem numbered_nil : Numbered [] := by
  intro index part hPart
  cases hPart

theorem Numbered.concat {parts : List Chunk} {part : Chunk} (hParts : Numbered parts)
    (hSeq : part.seq = UInt8.ofNat parts.length) : Numbered (parts ++ [part]) := by
  intro index other hOther
  rw [List.getElem?_append] at hOther
  split at hOther
  · exact hParts index other hOther
  · next hIndex =>
      rw [List.getElem?_singleton] at hOther
      split at hOther
      · next hZero =>
          cases hOther
          rw [hSeq]
          congr 1
          omega
      · cases hOther

/-- The operations bring a beginning of a message, and more is announced. -/
structure Sending (operations : List Operation) (message : PartialMessage) : Prop where
  ne_nil : operations ≠ []
  numbered : Numbered (messageParts operations)
  more : ∀ part ∈ messageParts operations, part.more = true
  nextSeq_eq : message.nextSeq = UInt8.ofNat (messageParts operations).length
  data_eq : (messageParts operations).flatMap (·.data) = message.data

/-- The operations bring a whole message: the parts are in order, each but the last announces
more, and the data of all make the message. The last operation brings the last part. -/
structure Sends (operations : List Operation) (payload : Bytes) : Prop where
  numbered : Numbered (messageParts operations)
  more_iff : ∀ index part, (messageParts operations)[index]? = some part →
    (part.more = true ↔ index + 1 < (messageParts operations).length)
  data_eq : (messageParts operations).flatMap (·.data) = payload
  last_part : ∃ start last part, operations = start ++ [last] ∧ last.part? = some part ∧
    part.more = false

theorem Sending.first {operation : Operation} {data : Bytes}
    (hEvent : operation.event? = some (.txChunk 0 true data)) :
    Sending [operation] ⟨Instruction.signTx.code, 1, data⟩ := by
  have hParts : messageParts [operation] = [] ++ [⟨Instruction.signTx.code, 0, true, data⟩] := by
    simp [messageParts, furtherParts, part?_of_event? hEvent]
  constructor
  case ne_nil => simp
  case numbered =>
    rw [hParts]
    exact numbered_nil.concat rfl
  case more => simp [hParts]
  case nextSeq_eq => simp [hParts]
  case data_eq => simp [hParts]

theorem Sending.wait {operations : List Operation} {message : PartialMessage}
    {operation : Operation} (hSending : Sending operations message)
    (hPart : ∀ seq more data, operation.event? = some (.txChunk seq more data) → seq = 0) :
    Sending (operations ++ [operation]) message := by
  have hParts : messageParts (operations ++ [operation]) = messageParts operations := by
    rw [messageParts_concat hSending.ne_nil, furtherParts_of_waiting hPart, List.append_nil]
  constructor
  case ne_nil => simp
  case numbered => exact hParts ▸ hSending.numbered
  case more => exact hParts ▸ hSending.more
  case nextSeq_eq => exact hParts ▸ hSending.nextSeq_eq
  case data_eq => exact hParts ▸ hSending.data_eq

theorem messageParts_further {operations : List Operation} (hSome : operations ≠ [])
    {operation : Operation} {seq : UInt8} {more : Bool} {data : Bytes}
    (hEvent : operation.event? = some (.txChunk seq more data)) (hSeq : seq ≠ 0) :
    messageParts (operations ++ [operation]) =
      messageParts operations ++ [⟨Instruction.signTx.code, seq, more, data⟩] := by
  rw [messageParts_concat hSome, furtherParts_of_part? (part?_of_event? hEvent) hSeq]

theorem Sending.further {operations : List Operation} {message : PartialMessage}
    {operation : Operation} {data : Bytes} (hSending : Sending operations message)
    (hEvent : operation.event? = some (.txChunk message.nextSeq true data))
    (hSeq : message.nextSeq ≠ 0) :
    Sending (operations ++ [operation])
      ⟨message.ins, message.nextSeq + 1, message.data ++ data⟩ := by
  have hParts := messageParts_further hSending.ne_nil hEvent hSeq
  constructor
  case ne_nil => simp
  case numbered =>
    rw [hParts]
    exact hSending.numbered.concat hSending.nextSeq_eq
  case more =>
    rw [hParts]
    simpa [or_imp, forall_and] using hSending.more
  case nextSeq_eq =>
    rw [hParts, List.length_append, List.length_singleton, UInt8.ofNat_add,
      ← hSending.nextSeq_eq]
    rfl
  case data_eq => simp [hParts, ← hSending.data_eq]

/-- The last part of a message ends it. -/
theorem Sends.of_parts {start : List Operation} {last : Operation} {parts : List Chunk}
    {part : Chunk} (hParts : messageParts (start ++ [last]) = parts ++ [part])
    (hNumbered : Numbered parts) (hMore : ∀ earlier ∈ parts, earlier.more = true)
    (hSeq : part.seq = UInt8.ofNat parts.length) (hLast : last.part? = some part)
    (hEnd : part.more = false) :
    Sends (start ++ [last]) (parts.flatMap (·.data) ++ part.data) := by
  constructor
  case numbered =>
    rw [hParts]
    exact hNumbered.concat hSeq
  case more_iff =>
    rw [hParts, List.length_append, List.length_singleton]
    intro index other hOther
    rw [List.getElem?_append] at hOther
    split at hOther
    · next hIndex =>
        have hAnnounced := hMore other (List.mem_of_getElem? hOther)
        simp only [hAnnounced, true_iff]
        omega
    · next hIndex =>
        obtain ⟨hZero, rfl⟩ : index - parts.length = 0 ∧ part = other := by
          simpa [List.getElem?_singleton] using hOther
        simp only [hEnd, Bool.false_eq_true, false_iff]
        omega
  case data_eq => simp [hParts]
  case last_part => exact ⟨start, last, part, rfl, hLast, hEnd⟩

theorem Sends.only {operation : Operation} {data : Bytes}
    (hEvent : operation.event? = some (.txChunk 0 false data)) : Sends [operation] data := by
  have hPart := part?_of_event? hEvent
  have hParts : messageParts ([] ++ [operation]) =
      [] ++ [⟨Instruction.signTx.code, 0, false, data⟩] := by
    simp [messageParts, furtherParts, hPart]
  exact .of_parts hParts numbered_nil (by simp) rfl hPart rfl

theorem Sending.last {operations : List Operation} {message : PartialMessage}
    {operation : Operation} {data : Bytes} (hSending : Sending operations message)
    (hEvent : operation.event? = some (.txChunk message.nextSeq false data))
    (hSeq : message.nextSeq ≠ 0) :
    Sends (operations ++ [operation]) (message.data ++ data) := by
  rw [← hSending.data_eq]
  exact .of_parts (messageParts_further hSending.ne_nil hEvent hSeq) hSending.numbered
    hSending.more hSending.nextSeq_eq (part?_of_event? hEvent) rfl

end ColdSigner
