import ColdSigner.Host.Dialogue
/-!
# What a channel sees of a dialogue

A channel that writes down every command and what became of it changes nothing
(`Dialogue.run_recording`), so each dialogue has a transcript on each channel. The transcripts of
dialogues in a row come in a row (`Dialogue.transcript_bind`), and a request that succeeded has
sent all of its commands and was answered with success each time (`Link.sent_of_perform`).
-/
namespace ColdSigner

/-- A command that was sent, and what became of it. -/
structure Delivery where
  command : Bytes
  arrival : Arrival

/-- The data of the answer, if it is a success. -/
def Delivery.answer? (delivery : Delivery) : Option Bytes :=
  match delivery.arrival with
  | .after _ (.ok answer) => if answer.status = Status.ok then some answer.data else none
  | _ => none

namespace Link

variable {σ : Type} (link : Link σ)

/-- The channel, with everything that was sent over it beside its state. -/
def recording : Link (σ × List Delivery) :=
  ⟨fun state command =>
    ((link.exchange state.1 command).1,
      (link.exchange state.1 command).2,
      state.2 ++ [⟨command, (link.exchange state.1 command).1⟩])⟩

/-- What is written down while commands are sent in a row. -/
def sent (limit : Nat) (budget : Option Nat) (commands : List Bytes) (elapsed : Nat)
    (data : Bytes) (state : σ) : List Delivery :=
  (link.recording.perform limit budget commands elapsed data (state, [])).2.2

/-- What becomes of a request whose command is not answered within the limit. -/
def late (limit : Nat) (budget : Option Nat) (elapsed : Nat) : Outcome :=
  if within budget (elapsed + limit) then .ended (.error .requestTimeout) (elapsed + limit)
  else .expired

/-- What one arrival means for a request: it goes on at some time with the data of the answer,
or it is over. -/
def settle (limit : Nat) (budget : Option Nat) (elapsed : Nat) :
    Arrival → Except Outcome (Nat × Bytes)
  | .never => .error (late limit budget elapsed)
  | .after delay result =>
      if limit < delay then .error (late limit budget elapsed)
      else if !within budget (elapsed + delay) then .error .expired
      else match result with
        | .error e => .error (.ended (.error e) (elapsed + delay))
        | .ok answer =>
            if answer.status = Status.ok then .ok (elapsed + delay, answer.data)
            else .error (.ended (.error (.ofStatus answer.status)) (elapsed + delay))

variable {link} {limit : Nat} {budget : Option Nat} {elapsed : Nat}

theorem perform_cons (command : Bytes) (rest : List Bytes) (data : Bytes) (state : σ) :
    link.perform limit budget (command :: rest) elapsed data state =
      match settle limit budget elapsed (link.exchange state command).1 with
      | .ok (time, answer) =>
          link.perform limit budget rest time answer (link.exchange state command).2
      | .error outcome => (outcome, (link.exchange state command).2) := by
  rw [perform]
  rcases link.exchange state command with ⟨⟨delay, result⟩ | _, next⟩
  · by_cases hLate : limit < delay
    · simp only [settle, if_pos hLate]
      rfl
    · cases hWithin : within budget (elapsed + delay) with
      | false => simp [settle, hLate, hWithin]
      | true =>
          cases result with
          | error e => simp [settle, hLate, hWithin]
          | ok answer =>
              by_cases hStatus : answer.status = Status.ok <;>
                simp [settle, hLate, hWithin, hStatus]
  · rfl

/-- A request goes on only after a success. -/
theorem answer?_of_settle (command : Bytes) {arrival : Arrival} {time : Nat} {answer : Bytes}
    (hSettle : settle limit budget elapsed arrival = .ok (time, answer)) :
    Delivery.answer? ⟨command, arrival⟩ = some answer := by
  unfold settle at hSettle
  split at hSettle
  · cases hSettle
  · split at hSettle
    · cases hSettle
    · split at hSettle
      · cases hSettle
      · split at hSettle
        · cases hSettle
        · split at hSettle
          · next hStatus =>
              cases hSettle
              simp [Delivery.answer?, hStatus]
          · cases hSettle

theorem late_ne_ok {data : Bytes} {time : Nat} :
    late limit budget elapsed ≠ .ended (.ok data) time := by
  unfold late
  split <;> simp

/-- A request that is over before all is sent has no data. -/
theorem ne_ok_of_settle {arrival : Arrival} {outcome : Outcome} {data : Bytes} {time : Nat}
    (hSettle : settle limit budget elapsed arrival = .error outcome) :
    outcome ≠ .ended (.ok data) time := by
  unfold settle at hSettle
  split at hSettle
  · cases hSettle
    exact late_ne_ok
  · split at hSettle
    · cases hSettle
      exact late_ne_ok
    · split at hSettle
      · cases hSettle
        simp
      · split at hSettle
        · cases hSettle
          simp
        · split at hSettle <;> cases hSettle
          simp

theorem exists_perform_recording (commands : List Bytes) (elapsed : Nat) (data : Bytes)
    (state : σ) :
    ∃ log, ∀ before,
      link.recording.perform limit budget commands elapsed data (state, before) =
        ((link.perform limit budget commands elapsed data state).1,
          (link.perform limit budget commands elapsed data state).2, before ++ log) := by
  induction commands generalizing elapsed data state with
  | nil => exact ⟨[], fun before => by rw [List.append_nil]; rfl⟩
  | cons command rest ih =>
      have hExchange (before : List Delivery) : link.recording.exchange (state, before) command =
        ((link.exchange state command).1, (link.exchange state command).2,
          before ++ [⟨command, (link.exchange state command).1⟩]) := rfl
      simp only [perform_cons, hExchange]
      cases hSettle : settle limit budget elapsed (link.exchange state command).1 with
      | error outcome => exact ⟨[⟨command, (link.exchange state command).1⟩], fun before => rfl⟩
      | ok settled =>
          obtain ⟨log, hLog⟩ := ih settled.1 settled.2 (link.exchange state command).2
          refine ⟨⟨command, (link.exchange state command).1⟩ :: log, fun before => ?_⟩
          dsimp only
          rw [hLog, List.append_assoc, List.singleton_append]

/-- Writing down what is sent changes neither the outcome nor the channel. -/
theorem perform_recording (commands : List Bytes) (data : Bytes) (state : σ)
    (before : List Delivery) :
    link.recording.perform limit budget commands elapsed data (state, before) =
      ((link.perform limit budget commands elapsed data state).1,
        (link.perform limit budget commands elapsed data state).2,
        before ++ link.sent limit budget commands elapsed data state) := by
  obtain ⟨log, hLog⟩ := exists_perform_recording commands elapsed data state
  rw [sent, hLog, hLog, List.nil_append]

theorem sent_nil (data : Bytes) (state : σ) : link.sent limit budget [] elapsed data state = [] :=
  rfl

theorem sent_cons (command : Bytes) (rest : List Bytes) (data : Bytes) (state : σ) :
    link.sent limit budget (command :: rest) elapsed data state =
      ⟨command, (link.exchange state command).1⟩ ::
        match settle limit budget elapsed (link.exchange state command).1 with
        | .ok (time, answer) =>
            link.sent limit budget rest time answer (link.exchange state command).2
        | .error _ => [] := by
  have hExchange : link.recording.exchange (state, []) command =
    ((link.exchange state command).1, (link.exchange state command).2,
      [⟨command, (link.exchange state command).1⟩]) := rfl
  rw [sent, perform_cons, hExchange]
  cases settle limit budget elapsed (link.exchange state command).1 with
  | error outcome => rfl
  | ok settled =>
      dsimp only
      rw [perform_recording]
      rfl

/-- Nothing is sent but the commands of the request. -/
theorem command_mem_of_mem_sent {commands : List Bytes} {data : Bytes} {state : σ}
    {delivery : Delivery} (hMem : delivery ∈ link.sent limit budget commands elapsed data state) :
    delivery.command ∈ commands := by
  induction commands generalizing elapsed data state with
  | nil => exact absurd hMem List.not_mem_nil
  | cons command rest ih =>
      rw [sent_cons] at hMem
      rcases List.mem_cons.1 hMem with rfl | hMem
      · exact List.mem_cons_self
      · split at hMem
        · exact List.mem_cons_of_mem command (ih hMem)
        · exact absurd hMem List.not_mem_nil

/-- A request that succeeded has sent all of its commands, and the data of the last answer is its
result. -/
theorem sent_of_perform {commands : List Bytes} {data result : Bytes} {time : Nat}
    {state next : σ}
    (hPerform : link.perform limit budget commands elapsed data state =
      (.ended (.ok result) time, next)) :
    (link.sent limit budget commands elapsed data state).map (·.command) = commands ∧
      (∀ delivery ∈ link.sent limit budget commands elapsed data state,
        delivery.answer?.isSome = true) ∧
      (((link.sent limit budget commands elapsed data state).getLast?).bind
        Delivery.answer?).getD data = result := by
  induction commands generalizing elapsed data state with
  | nil =>
      rw [sent_nil]
      cases hPerform
      exact ⟨rfl, by simp, rfl⟩
  | cons command rest ih =>
      rw [perform_cons] at hPerform
      rw [sent_cons]
      cases hSettle : settle limit budget elapsed (link.exchange state command).1 with
      | error outcome =>
          rw [hSettle] at hPerform
          exact absurd (congrArg Prod.fst hPerform) (ne_ok_of_settle hSettle)
      | ok settled =>
          rw [hSettle] at hPerform
          have hAnswer := answer?_of_settle command hSettle
          obtain ⟨hCommands, hAnswered, hLast⟩ := ih hPerform
          refine ⟨by rw [List.map_cons, hCommands], ?_, ?_⟩
          · intro delivery hMem
            rcases List.mem_cons.1 hMem with rfl | hMem
            · rw [hAnswer]
              rfl
            · exact hAnswered delivery hMem
          · rw [List.getLast?_cons, Option.bind_some, ← hLast]
            cases hEnd : (link.sent limit budget rest settled.1 settled.2
                (link.exchange state command).2).getLast? with
            | none => simp [hAnswer]
            | some last =>
                obtain ⟨answer, hLastAnswer⟩ :=
                  Option.isSome_iff_exists.1 (hAnswered last (List.mem_of_getLast? hEnd))
                simp [hLastAnswer]

end Link

namespace Dialogue

variable {σ α β : Type} (link : Link σ)

/-- What is written down during a dialogue. -/
def transcript (dialogue : Dialogue α) (state : σ) : List Delivery :=
  (dialogue.run link.recording (state, [])).2.2

variable {link}

theorem exists_run_recording (dialogue : Dialogue α) (state : σ) :
    ∃ log, ∀ before, dialogue.run link.recording (state, before) =
      ((dialogue.run link state).1, (dialogue.run link state).2, before ++ log) := by
  induction dialogue generalizing state with
  | done result => exact ⟨[], fun before => by rw [List.append_nil]; rfl⟩
  | request commands limit budget next ih =>
      obtain ⟨log, hLog⟩ := ih (link.perform limit budget commands 0 [] state).1
        (link.perform limit budget commands 0 [] state).2
      refine ⟨link.sent limit budget commands 0 [] state ++ log, fun before => ?_⟩
      rw [run, Link.perform_recording]
      dsimp only
      rw [hLog, List.append_assoc]
      rfl
  | wait time next ih => exact ih state

/-- Writing down what is sent changes neither the result of a dialogue nor the channel. -/
theorem run_recording (dialogue : Dialogue α) (state : σ) (before : List Delivery) :
    dialogue.run link.recording (state, before) =
      ((dialogue.run link state).1, (dialogue.run link state).2,
        before ++ dialogue.transcript link state) := by
  obtain ⟨log, hLog⟩ := exists_run_recording dialogue state
  rw [transcript, hLog, hLog, List.nil_append]

theorem transcript_request (commands : List Bytes) (limit : Nat) (budget : Option Nat)
    (next : Outcome → Dialogue α) (state : σ) :
    (request commands limit budget next).transcript link state =
      link.sent limit budget commands 0 [] state ++
        (next (link.perform limit budget commands 0 [] state).1).transcript link
          (link.perform limit budget commands 0 [] state).2 := by
  rw [transcript, run, Link.perform_recording]
  dsimp only
  rw [run_recording]
  rfl

theorem transcript_bind (dialogue : Dialogue α) (f : α → Dialogue β) (state : σ) :
    (dialogue.bind f).transcript link state =
      dialogue.transcript link state ++
        (f (dialogue.run link state).1).transcript link (dialogue.run link state).2 := by
  rw [transcript, run_bind, run_recording]
  dsimp only
  rw [run_recording]
  rfl

end Dialogue

end ColdSigner
