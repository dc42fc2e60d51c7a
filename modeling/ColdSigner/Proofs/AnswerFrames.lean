import ColdSigner.Proofs.HonestExchanges
import ColdSigner.Session.Stream
/-!
# Which answer belongs to which command

Over a stream of bytes, an answer is found by its place alone. While all answers fit, each command
gets its own one and the stream is left at the beginning of the next frame
(`Stream.commands_answered_in_turn`). An answer that is too long stays unread, and the next command
takes its data for an answer (`Stream.exchangeAll_unread`).
-/
namespace ColdSigner

namespace Answer

/-- The answer as a device sends it: the length of the data, the data, and the status word. -/
def frame (answer : Answer) : Bytes :=
  Bytes.bigEndian 4 answer.data.length ++ (answer.data ++ Status.toBytes answer.status)

/-- The answer is short enough to be read. -/
def Fits (answer : Answer) : Prop := answer.data.length + 2 ≤ Stream.maxAnswer

instance (answer : Answer) : Decidable answer.Fits :=
  inferInstanceAs (Decidable (answer.data.length + 2 ≤ Stream.maxAnswer))

/-- What the sender of a command hears of the answer. -/
def arrival (answer : Answer) : Arrival :=
  .after 0 (if answer.Fits then .ok answer else .error .invalidLength)

/-- What is left of the frame of the answer afterwards. -/
def unread (answer : Answer) : Bytes :=
  if answer.Fits then [] else answer.data ++ Status.toBytes answer.status

theorem length_body (answer : Answer) :
    (answer.data ++ Status.toBytes answer.status).length = answer.data.length + 2 := by
  rw [List.length_append, Status.length_toBytes]

end Answer

namespace Stream

/-- What comes of commands that are sent one after the other. -/
def exchangeAll (stream : Stream) : List Bytes → List Arrival × Stream
  | [] => ([], stream)
  | command :: rest =>
      let (arrival, next) := stream.exchange command
      let (arrivals, last) := next.exchangeAll rest
      (arrival :: arrivals, last)

section Reading

variable (rest : Bytes) (replies received : List Bytes) (broken : Bool)

theorem read_append {count : Nat} {bytes : Bytes} (hBytes : bytes.length = count) :
    read ⟨bytes ++ rest, replies, received, broken⟩ count =
      (.read bytes, ⟨rest, replies, received, broken⟩) := by
  have hEnough : count ≤ (bytes ++ rest).length := by
    rw [List.length_append, hBytes]
    exact Nat.le_add_right count rest.length
  simp only [read, if_pos hEnough, List.take_left' hBytes, List.drop_left' hBytes]

/-- An answer that fits is read with all of its frame, of one that does not only the length. -/
theorem readAnswer_frame {answer : Answer} (hSize : answer.data.length < 2 ^ 32) :
    readAnswer ⟨answer.frame ++ rest, replies, received, broken⟩ =
      (answer.arrival, ⟨answer.unread ++ rest, replies, received, broken⟩) := by
  have hLength : Bytes.ofBigEndian (Bytes.bigEndian 4 answer.data.length) = answer.data.length := by
    rw [Bytes.ofBigEndian_bigEndian, Nat.mod_eq_of_lt (Nat.lt_of_lt_of_le hSize (by decide))]
  have hHead := read_append (answer.data ++ Status.toBytes answer.status ++ rest) replies received
    broken (Bytes.length_bigEndian 4 answer.data.length)
  rw [Answer.frame, List.append_assoc, readAnswer, hHead]
  dsimp only
  rw [hLength]
  by_cases hFits : answer.Fits
  · have hBody := read_append rest replies received broken answer.length_body
    rw [if_neg (Nat.not_lt.2 hFits), hBody]
    simp only [Answer.ofBytes?_append, Answer.arrival, Answer.unread, if_pos hFits,
      List.nil_append]
  · rw [if_pos (Nat.not_le.1 hFits)]
    simp only [Answer.arrival, Answer.unread, if_neg hFits]

end Reading

/-- A command finds the stream at the beginning of a frame, and gets the answer in it. -/
theorem exchange_frame {answer : Answer} {replies received : List Bytes} {command : Bytes}
    (hSize : answer.data.length < 2 ^ 32) :
    exchange ⟨[], answer.frame :: replies, received, false⟩ command =
      (answer.arrival, ⟨answer.unread, replies, framed command :: received, false⟩) := by
  have hRead := readAnswer_frame [] replies (framed command :: received) false hSize
  rw [List.append_nil, List.append_nil] at hRead
  exact hRead

/-- By induction on the answers: each of those that fit leaves the stream at the beginning of the
next frame. -/
theorem exchangeAll_of_fits {answers : List Answer} {commands : List Bytes}
    (replies received rest : List Bytes) (hCount : answers.length = commands.length)
    (hFits : ∀ answer ∈ answers, answer.Fits) :
    exchangeAll ⟨[], answers.map Answer.frame ++ replies, received, false⟩ (commands ++ rest) =
      let behind : Stream := ⟨[], replies, (commands.map framed).reverse ++ received, false⟩
      (answers.map Answer.arrival ++ (behind.exchangeAll rest).1, (behind.exchangeAll rest).2) := by
  induction answers generalizing commands received with
  | nil =>
      obtain rfl := List.length_eq_zero_iff.1 hCount.symm
      rfl
  | cons answer answers ih =>
      obtain ⟨command, commands, rfl⟩ := List.exists_cons_of_length_eq_add_one hCount.symm
      obtain ⟨hFirst, hOthers⟩ := List.forall_mem_cons.1 hFits
      have hSize : answer.data.length < 2 ^ 32 := by
        have hShort : answer.data.length + 2 ≤ 258 := hFirst
        omega
      have hUnread : answer.unread = [] := if_pos hFirst
      have hRest := ih (framed command :: received) (Nat.succ.inj hCount) hOthers
      rw [List.map_cons, List.cons_append, List.cons_append, exchangeAll, exchange_frame hSize,
        hUnread]
      simp only [hRest, List.map_cons, List.cons_append, List.reverse_cons, List.append_assoc,
        List.nil_append]

/-- While no earlier answer was too long to be read, a command gets the answer that was sent to it,
with its data and its status word, or hears that it is too long. The peer has received the commands
in order, and what is left in the stream is the answer that was not read, if there is one. -/
theorem commands_answered_in_turn (answers : List Answer) (commands : List Bytes) (number : Nat)
    (answer : Answer) (hAnswer : answers[number]? = some answer)
    (hCommand : number < commands.length) (hSize : answer.data.length < 2 ^ 32)
    (hFits : ∀ earlier ∈ answers.take number, earlier.Fits) :
    let stream := start (answers.map Answer.frame)
    let sofar := (stream.exchangeAll (commands.take (number + 1))).2
    (stream.exchangeAll commands).1[number]? = some answer.arrival ∧
      sofar.incoming = answer.unread ∧
      sofar.received.reverse = (commands.take (number + 1)).map framed := by
  intro stream sofar
  obtain ⟨hNumber, rfl⟩ := List.getElem?_eq_some_iff.1 hAnswer
  have hBefore : (answers.take number).length = (commands.take number).length := by
    rw [List.length_take_of_le (Nat.le_of_lt hNumber),
      List.length_take_of_le (Nat.le_of_lt hCommand)]
  have hAnswers : answers.map Answer.frame = (answers.take number).map Answer.frame ++
      (answers[number].frame :: (answers.drop (number + 1)).map Answer.frame) := by
    rw [← List.map_cons, ← List.map_append, ← List.drop_eq_getElem_cons hNumber,
      List.take_append_drop]
  have hCommands : commands = commands.take number ++
      (commands[number] :: commands.drop (number + 1)) := by
    rw [← List.drop_eq_getElem_cons hCommand, List.take_append_drop]
  have hRun (rest : List Bytes) := exchangeAll_of_fits
    (answers[number].frame :: (answers.drop (number + 1)).map Answer.frame) [] rest hBefore hFits
  simp only [← hAnswers] at hRun
  have hArrivals : ((answers.take number).map Answer.arrival).length = number := by
    rw [List.length_map, List.length_take_of_le (Nat.le_of_lt hNumber)]
  refine ⟨?_, ?_⟩
  · rw [hCommands]
    change (exchangeAll ⟨[], answers.map Answer.frame, [], false⟩ _).1[number]? = _
    rw [hRun]
    simp only [exchangeAll, exchange_frame hSize]
    rw [List.getElem?_append_right (Nat.le_of_eq hArrivals), hArrivals, Nat.sub_self]
    rfl
  · have hSofar : sofar = ⟨answers[number].unread, (answers.drop (number + 1)).map Answer.frame,
        framed commands[number] :: ((commands.take number).map framed).reverse, false⟩ := by
      change (exchangeAll ⟨[], answers.map Answer.frame, [], false⟩ _).2 = _
      rw [List.take_succ_eq_append_getElem hCommand, hRun]
      simp only [exchangeAll, exchange_frame hSize, List.append_nil]
    rw [hSofar]
    refine ⟨rfl, ?_⟩
    rw [List.take_succ_eq_append_getElem hCommand, List.reverse_cons, List.reverse_reverse,
      List.map_append]
    rfl

/-- Behind an answer of 256 bytes, which just fits, one of 257 bytes is noticed and stays unread. -/
theorem commands_answered_in_turn_longest :
    let fits : Answer := ⟨List.replicate 256 0x11, Status.ok⟩
    let long : Answer := ⟨List.replicate 257 0x22, 0x6a05⟩
    let commands : List Bytes := [[0x80, 3, 0, 0, 0], [0x80, 4, 0, 0, 0]]
    fits.Fits ∧
      ((start ([fits, long].map Answer.frame)).exchangeAll commands).1[1]? =
        some (.after 0 (.error .invalidLength)) ∧
      ((start ([fits, long].map Answer.frame)).exchangeAll commands).2.incoming =
        long.data ++ Status.toBytes long.status := by
  intro fits long commands
  have hFits : fits.Fits := by decide +kernel
  have hLong : ¬ long.Fits := by decide +kernel
  have hSecond : [fits, long][1]? = some long := List.getElem?_cons_succ
  obtain ⟨hHeard, hIncoming, -⟩ := commands_answered_in_turn [fits, long] commands 1 long hSecond
    (by decide) (by decide +kernel) (List.forall_mem_singleton.2 hFits)
  rw [Answer.arrival, if_neg hLong] at hHeard
  have hAll : commands.take (1 + 1) = commands := rfl
  rw [hAll, Answer.unread, if_neg hLong] at hIncoming
  exact ⟨hFits, hHeard, hIncoming⟩

/-- Behind an answer that is too long, a command gets the answer whose frame its data begin with,
whatever was sent to the command itself. -/
theorem exchangeAll_unread {long own : Answer} (other : Answer) (rest : Bytes)
    {first second : Bytes} (hSize : long.data.length < 2 ^ 32) (hLong : ¬ long.Fits)
    (hOther : other.data.length < 2 ^ 32)
    (hData : long.data ++ Status.toBytes long.status = other.frame ++ rest) :
    ((start [long.frame, own.frame]).exchangeAll [first, second]).1 =
      [.after 0 (.error .invalidLength), other.arrival] := by
  have hUnread : long.unread = other.frame ++ rest := (if_neg hLong).trans hData
  have hFirst : long.arrival = .after 0 (.error .invalidLength) :=
    congrArg (Arrival.after 0) (if_neg hLong)
  have hSecond : exchange ⟨other.frame ++ rest, [own.frame], [framed first], false⟩ second =
      (other.arrival, ⟨other.unread ++ (rest ++ own.frame), [],
        [framed second, framed first], false⟩) := by
    have hRead := readAnswer_frame (rest ++ own.frame) [] [framed second, framed first] false hOther
    rw [← List.append_assoc] at hRead
    exact hRead
  change (exchangeAll ⟨[], [long.frame, own.frame], [], false⟩ [first, second]).1 = _
  rw [exchangeAll, exchange_frame hSize, hUnread, hFirst]
  simp only [exchangeAll, hSecond]

/-- An answer of 257 bytes is too long. The next command gets a byte of it, and not the byte that
was sent to it. -/
theorem exchangeAll_unread_byte :
    let long : Answer := ⟨[0, 0, 0, 1, 0xaa, 0x90, 0] ++ List.replicate 250 0, Status.ok⟩
    let own : Answer := ⟨[0xbb], Status.ok⟩
    ((start [long.frame, own.frame]).exchangeAll
      [[0x80, 3, 0, 0, 0], [0x80, 3, 0, 0, 0]]).1 =
        [.after 0 (.error .invalidLength), .after 0 (.ok ⟨[0xaa], Status.ok⟩)] :=
  exchangeAll_unread ⟨[0xaa], Status.ok⟩ (List.replicate 250 0 ++ Status.toBytes Status.ok)
    (by decide +kernel) (by decide +kernel) (by decide) (by decide +kernel)

end Stream

end ColdSigner
