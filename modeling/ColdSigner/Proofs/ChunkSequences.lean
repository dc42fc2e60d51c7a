import ColdSigner.Proofs.RequestIntegrity
/-!
# Which commands are a message

Commands are put together to a message exactly if they are its parts, all of them and in order
(`reassemble_exact`). Before each command a receiver waits for the part with the next number, and
has the data of those before it (`Reassembly.Awaits`); what it makes of the commands that come is
an induction on them (`Reassembly.Awaits.ends_iff`). The number of a part is one byte, so a message
never has more than 256 of them, and the counter does not go around.
-/
namespace ColdSigner

/-- The command is the part of a message with this number, and says whether more of them follow.
The lower bits of its second parameter do not matter. -/
def IsPart (ins : UInt8) (number : Nat) (more : Prop) (command : Bytes) : Prop :=
  ∃ p1 p2 length data, command = 0x80 :: ins :: p1 :: p2 :: length :: data ∧
    length.toNat = data.length ∧ data.length ≤ 250 ∧ p1.toNat = number ∧
    (p2 &&& 0x80 ≠ 0 ↔ more)

/-- The commands are the parts of a message from this number on, and only the last one says that
it is the end. -/
def ArePartsFrom (ins : UInt8) (number : Nat) (commands : List Bytes) : Prop :=
  ∀ index (hIndex : index < commands.length),
    IsPart ins (number + index) (index + 1 < commands.length) commands[index]

/-- What is behind the headers of commands. -/
def dataOf (commands : List Bytes) : Bytes := commands.flatMap (·.drop 5)

/-- The commands carry a message: they are its parts, and it is not too long. -/
structure Carries (commands : List Bytes) (ins : UInt8) (payload : Bytes) : Prop where
  one_le : 1 ≤ commands.length
  length_le : commands.length ≤ 256
  areParts : ArePartsFrom ins 0 commands
  payload_eq : payload = dataOf commands
  payload_le : payload.length ≤ 4096

theorem isPart_iff {ins : UInt8} {number : Nat} {more : Prop} {command : Bytes} :
    IsPart ins number more command ↔
      ∃ chunk, Chunk.decode command = .ok chunk ∧ chunk.ins = ins ∧ chunk.seq.toNat = number ∧
        (chunk.more = true ↔ more) := by
  constructor
  · rintro ⟨p1, p2, length, data, hCommand, hLength, hData, hNumber, hMore⟩
    refine ⟨⟨ins, p1, decide (p2 &&& 0x80 ≠ 0), data⟩, ?_, rfl, hNumber, by simpa using hMore⟩
    exact Chunk.decode_eq_ok_iff.2 ⟨p2, length, hCommand, hLength, hData, rfl⟩
  · rintro ⟨chunk, hChunk, rfl, hNumber, hMore⟩
    obtain ⟨p2, length, hCommand, hLength, hData, hFlag⟩ := Chunk.decode_eq_ok_iff.1 hChunk
    refine ⟨chunk.seq, p2, length, chunk.data, hCommand, hLength, hData, hNumber, ?_⟩
    rw [← hMore, hFlag, decide_eq_true_iff]

/-- What is behind the header of a chunk are its data. -/
theorem append_dataOf_cons {command : Bytes} {chunk : Chunk}
    (hChunk : Chunk.decode command = .ok chunk) (data : Bytes) (rest : List Bytes) :
    data ++ dataOf (command :: rest) = data ++ chunk.data ++ dataOf rest := by
  obtain ⟨p2, length, rfl, -⟩ := Chunk.decode_eq_ok_iff.1 hChunk
  rw [dataOf, List.flatMap_cons, List.append_assoc]
  rfl

theorem arePartsFrom_nil {ins : UInt8} {number : Nat} : ArePartsFrom ins number [] :=
  fun _ hIndex => absurd hIndex (Nat.not_lt_zero _)

/-- The first command is a part, and those behind it are the parts from the next number on. -/
theorem arePartsFrom_cons_iff {ins : UInt8} {number : Nat} {command : Bytes}
    {rest : List Bytes} :
    ArePartsFrom ins number (command :: rest) ↔
      IsPart ins number (rest ≠ []) command ∧ ArePartsFrom ins (number + 1) rest := by
  have hRest : 0 + 1 < (command :: rest).length ↔ rest ≠ [] := by
    rw [List.length_cons, ← List.length_pos_iff]
    omega
  constructor
  · intro hParts
    refine ⟨?_, ?_⟩
    · have hFirst := hParts 0 (Nat.zero_lt_succ _)
      rwa [hRest] at hFirst
    · intro index hIndex
      have hNext := hParts (index + 1) (Nat.succ_lt_succ hIndex)
      rwa [List.length_cons, Nat.add_lt_add_iff_right, ← Nat.add_assoc,
        Nat.add_right_comm] at hNext
  · rintro ⟨hFirst, hParts⟩ index hIndex
    cases index with
    | zero => rwa [hRest]
    | succ index =>
        have hNext := hParts index (Nat.lt_of_succ_lt_succ hIndex)
        rwa [List.length_cons, Nat.add_lt_add_iff_right, ← Nat.add_assoc, Nat.add_right_comm]

/-- A part has a number that is one byte. -/
theorem ArePartsFrom.length_le {ins : UInt8} {commands : List Bytes}
    (hParts : ArePartsFrom ins 0 commands) : commands.length ≤ 256 := by
  refine Nat.le_of_not_lt fun hMany => ?_
  obtain ⟨p1, p2, length, data, -, -, -, hNumber, -⟩ := hParts 256 hMany
  have hByte := p1.toNat_lt
  omega

/-- A message with one more part, which may be its last one. -/
def PartialMessage.extend (message : PartialMessage) (chunk : Chunk) : Reassembly :=
  if chunk.more then .receiving ⟨message.ins, message.nextSeq + 1, message.data ++ chunk.data⟩
  else .complete ⟨message.ins, message.nextSeq + 1, message.data ++ chunk.data⟩

namespace Reassembly

/-- With these commands the message comes to its end. -/
def Ends (state : Reassembly) (commands : List Bytes) (ins : UInt8) (payload : Bytes) : Prop :=
  ∃ next, reassembleFrom state commands = .ok (.complete ⟨ins, next, payload⟩)

theorem ends_complete_iff {message : PartialMessage} {commands : List Bytes} {ins : UInt8}
    {payload : Bytes} :
    (complete message).Ends commands ins payload ↔
      commands = [] ∧ ins = message.ins ∧ payload = message.data := by
  cases commands with
  | nil =>
      obtain ⟨found, next, data⟩ := message
      simp [Ends, reassembleFrom, eq_comm]
  | cons command rest => simp [Ends, reassembleFrom, payload?]

theorem reassembleFrom_cons {state : Reassembly} {command : Bytes} (rest : List Bytes)
    (hOpen : state.payload? = none) :
    reassembleFrom state (command :: rest) =
      match Chunk.decode command with
      | .error error => .error error
      | .ok chunk =>
          match state.push maxPayload chunk with
          | (.error error, _) => .error error
          | (.ok _, next) => reassembleFrom next rest := by
  rw [reassembleFrom, hOpen]
  cases Chunk.decode command with
  | error error => rfl
  | ok chunk => rfl

theorem push_of_fits {state : Reassembly} {chunk : Chunk} {message : PartialMessage}
    (hMessage : state.continued? chunk = some message)
    (hRoom : (message.data ++ chunk.data).length ≤ maxPayload) :
    state.push maxPayload chunk = (.ok !chunk.more, message.extend chunk) := by
  rw [Engine.push_of_continued hMessage, if_neg (Nat.not_lt.2 hRoom), PartialMessage.extend]
  cases chunk.more with
  | true => rfl
  | false => rfl

/-- In the middle of a message a command has to be a chunk that continues it, with room for its
data. -/
theorem ends_cons_iff {state : Reassembly} {command : Bytes} {rest : List Bytes} {ins : UInt8}
    {payload : Bytes} (hOpen : state.payload? = none) :
    state.Ends (command :: rest) ins payload ↔
      ∃ chunk message, Chunk.decode command = .ok chunk ∧
        state.continued? chunk = some message ∧
        (message.data ++ chunk.data).length ≤ maxPayload ∧
        (message.extend chunk).Ends rest ins payload := by
  constructor
  · rintro ⟨next, hEnds⟩
    rw [reassembleFrom_cons rest hOpen] at hEnds
    cases hChunk : Chunk.decode command with
    | error error =>
        rw [hChunk] at hEnds
        cases hEnds
    | ok chunk =>
        rw [hChunk] at hEnds
        cases hMessage : state.continued? chunk with
        | none =>
            simp only [push, hMessage] at hEnds
            cases hEnds
        | some message =>
            by_cases hLong : maxPayload < (message.data ++ chunk.data).length
            · simp only [Engine.push_of_continued hMessage, if_pos hLong] at hEnds
              cases hEnds
            · have hRoom := Nat.not_lt.1 hLong
              simp only [push_of_fits hMessage hRoom] at hEnds
              exact ⟨chunk, message, rfl, hMessage, hRoom, next, hEnds⟩
  · rintro ⟨chunk, message, hChunk, hMessage, hRoom, next, hEnds⟩
    refine ⟨next, ?_⟩
    rw [reassembleFrom_cons rest hOpen, hChunk]
    simp only [push_of_fits hMessage hRoom]
    exact hEnds

/-- The receiver waits for the part with this number, of a message with an instruction that it
accepts, and has the data of the parts before it. -/
structure Awaits (state : Reassembly) (accepts : UInt8 → Prop) (number : Nat) (data : Bytes) :
    Prop where
  payload?_eq : state.payload? = none
  continued?_iff : ∀ chunk message, state.continued? chunk = some message ↔
    chunk.seq.toNat = number ∧ accepts chunk.ins ∧
      message = ⟨chunk.ins, UInt8.ofNat number, data⟩

theorem awaits_empty : empty.Awaits (fun _ => True) 0 [] := by
  refine ⟨rfl, fun chunk message => ?_⟩
  have hZero : chunk.seq = 0 ↔ chunk.seq.toNat = 0 := UInt8.toNat_inj.symm
  simp [continued?, hZero, eq_comm]

/-- After the part with number 255 no other one is taken: the counter is at zero again, and a
part with number zero does not continue a message. -/
theorem awaits_receiving {ins : UInt8} {number : Nat} {data : Bytes} (hNumber : number < 256) :
    (receiving ⟨ins, UInt8.ofNat number + 1, data⟩).Awaits (· = ins) (number + 1) data := by
  have hNext : UInt8.ofNat number + 1 = UInt8.ofNat (number + 1) := (UInt8.ofNat_add number 1).symm
  have hSeq (seq : UInt8) : seq ≠ 0 ∧ seq = UInt8.ofNat (number + 1) ↔ seq.toNat = number + 1 := by
    rw [ne_eq, ← UInt8.toNat_inj, ← UInt8.toNat_inj, UInt8.toNat_ofNat', UInt8.toNat_zero]
    have hByte := seq.toNat_lt
    omega
  refine ⟨rfl, fun chunk message => ?_⟩
  rw [Engine.continued?_receiving, hNext, ← hSeq chunk.seq]
  constructor
  · rintro ⟨⟨hStarted, rfl⟩, hNumber, rfl⟩
    exact ⟨⟨hStarted, hNumber⟩, rfl, rfl⟩
  · rintro ⟨⟨hStarted, hNumber⟩, rfl, rfl⟩
    exact ⟨⟨hStarted, rfl⟩, hNumber, rfl⟩

/-- Behind a part nothing else may come or more has to, as it says itself. -/
theorem ends_extend_iff {chunk : Chunk} {message : PartialMessage} {number : Nat}
    {rest : List Bytes} {ins : UInt8} {payload : Bytes}
    (hRoom : (message.data ++ chunk.data).length ≤ maxPayload)
    (hRest : (receiving ⟨message.ins, message.nextSeq + 1, message.data ++ chunk.data⟩).Ends rest
        ins payload ↔
      rest ≠ [] ∧ ins = message.ins ∧ ArePartsFrom ins number rest ∧
        payload = message.data ++ chunk.data ++ dataOf rest ∧ payload.length ≤ maxPayload) :
    (message.extend chunk).Ends rest ins payload ↔
      (chunk.more = true ↔ rest ≠ []) ∧ ins = message.ins ∧ ArePartsFrom ins number rest ∧
        payload = message.data ++ chunk.data ++ dataOf rest ∧ payload.length ≤ maxPayload := by
  cases hMore : chunk.more with
  | true =>
      have hExtend : message.extend chunk =
          receiving ⟨message.ins, message.nextSeq + 1, message.data ++ chunk.data⟩ := by
        rw [PartialMessage.extend, if_pos hMore]
      rw [hExtend, hRest, eq_self, true_iff]
  | false =>
      have hExtend : message.extend chunk =
          complete ⟨message.ins, message.nextSeq + 1, message.data ++ chunk.data⟩ := by
        rw [PartialMessage.extend, if_neg (by simp [hMore])]
      rw [hExtend, ends_complete_iff]
      constructor
      · rintro ⟨rfl, rfl, rfl⟩
        exact ⟨by simp, rfl, arePartsFrom_nil, (List.append_nil _).symm, hRoom⟩
      · rintro ⟨hEnd, rfl, -, rfl, -⟩
        obtain rfl : rest = [] := by simpa using hEnd
        exact ⟨rfl, rfl, List.append_nil _⟩

/-- What a receiver makes of commands, from any number of parts on. -/
theorem Awaits.ends_iff {state : Reassembly} {accepts : UInt8 → Prop} {number : Nat} {data : Bytes}
    {commands : List Bytes} {ins : UInt8} {payload : Bytes}
    (hAwaits : state.Awaits accepts number data) :
    state.Ends commands ins payload ↔
      commands ≠ [] ∧ accepts ins ∧ ArePartsFrom ins number commands ∧
        payload = data ++ dataOf commands ∧ payload.length ≤ maxPayload := by
  -- With a part more the receiver awaits the next one, so the state is any that awaits something.
  induction commands generalizing state accepts number data with
  | nil =>
      refine ⟨?_, fun hParts => absurd rfl hParts.1⟩
      rintro ⟨next, hEnd⟩
      cases hEnd
      cases hAwaits.payload?_eq
  | cons command rest ih =>
      have hRest {chunk : Chunk} (hNumber : chunk.seq.toNat = number) :
          (receiving ⟨chunk.ins, UInt8.ofNat number + 1, data ++ chunk.data⟩).Ends rest ins
              payload ↔
            rest ≠ [] ∧ ins = chunk.ins ∧ ArePartsFrom ins (number + 1) rest ∧
              payload = data ++ chunk.data ++ dataOf rest ∧ payload.length ≤ maxPayload :=
        ih (awaits_receiving (hNumber ▸ chunk.seq.toNat_lt))
      rw [ends_cons_iff hAwaits.payload?_eq, arePartsFrom_cons_iff, isPart_iff]
      constructor
      · rintro ⟨chunk, message, hChunk, hMessage, hRoom, hEnds⟩
        obtain ⟨hNumber, hAccepts, rfl⟩ := (hAwaits.continued?_iff chunk message).1 hMessage
        obtain ⟨hMore, rfl, hParts, hPayload, hLength⟩ :=
          (ends_extend_iff hRoom (hRest hNumber)).1 hEnds
        refine ⟨List.cons_ne_nil _ _, hAccepts, ⟨⟨chunk, hChunk, rfl, hNumber, hMore⟩, hParts⟩, ?_,
          hLength⟩
        rw [append_dataOf_cons hChunk, hPayload]
      · rintro ⟨-, hAccepts, ⟨⟨chunk, hChunk, rfl, hNumber, hMore⟩, hParts⟩, hPayload, hLength⟩
        rw [append_dataOf_cons hChunk] at hPayload
        have hRoom : (data ++ chunk.data).length ≤ maxPayload := by
          rw [hPayload, List.length_append] at hLength
          exact Nat.le_trans (Nat.le_add_right _ _) hLength
        have hMessage := (hAwaits.continued?_iff chunk _).2 ⟨hNumber, hAccepts, rfl⟩
        exact ⟨chunk, _, hChunk, hMessage, hRoom,
          (ends_extend_iff hRoom (hRest hNumber)).2 ⟨hMore, rfl, hParts, hPayload, hLength⟩⟩

end Reassembly

theorem reassemble_eq_ok_iff {commands : List Bytes} {ins : UInt8} {payload : Bytes} :
    reassemble commands = .ok (ins, payload) ↔ Carries commands ins payload := by
  have hEnds : reassemble commands = .ok (ins, payload) ↔
      Reassembly.empty.Ends commands ins payload := by
    unfold reassemble Reassembly.Ends
    rcases reassembleFrom .empty commands with error | (_ | message | ⟨found, next, data⟩) <;>
      simp [bind, Except.bind, pure, Except.pure]
  rw [hEnds, Reassembly.awaits_empty.ends_iff]
  constructor
  · rintro ⟨hSome, -, hParts, hPayload, hLength⟩
    exact ⟨List.length_pos_iff.2 hSome, hParts.length_le, hParts, hPayload, hLength⟩
  · rintro ⟨hSome, -, hParts, hPayload, hLength⟩
    exact ⟨List.length_pos_iff.1 hSome, trivial, hParts, hPayload, hLength⟩

/-- Commands are put together to a message exactly if they carry it. All others are an error. -/
theorem reassemble_exact (commands : List Bytes) :
    (∀ ins payload,
      reassemble commands = .ok (ins, payload) ↔ Carries commands ins payload) ∧
    ((∃ error, reassemble commands = .error error) ↔
      ∀ ins payload, ¬ Carries commands ins payload) := by
  refine ⟨fun ins payload => reassemble_eq_ok_iff, ?_⟩
  simp only [← reassemble_eq_ok_iff]
  rcases reassemble commands with error | ⟨ins, payload⟩
  · simp
  · simp

/-- A part may be empty, and only the highest bit of its second parameter counts. -/
example : reassemble [[0x80, 0x02, 0, 0xff, 1, 7], [0x80, 0x02, 1, 0x7f, 0]] = .ok (0x02, [7]) :=
  rfl

end ColdSigner
