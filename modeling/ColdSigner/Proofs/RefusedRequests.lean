import ColdSigner.Proofs.HonestExchanges
/-!
# What a refusal leaves behind

An event that the device refuses changes nothing, unless it was taken up before it failed
(`Engine.TakesUp`). Then the device is in the error state and has nothing left of any request. The
status word of an answer tells the host of a refusal, and a request that is under review or signed
outlives every refusal (`Engine.refused_unchanged_or_cleared`).
-/
namespace ColdSigner.Engine

variable {store : KeyStore}

section TakesUp

variable {Key : Type} (engine : Engine Key)

/-- A part with this number begins a message or is put together with those before it. Any other
part is refused at once. -/
def Assembles (seq : UInt8) : Prop :=
  (seq = 0 ∧ engine.state.isBusy = false) ∨ (seq ≠ 0 ∧ ∃ parts, engine.state = .loading parts)

/-- The event is taken up, so that its failure ends whatever is in flight: a hash where no request
is, a part that is put together with those before it, or a host that goes away between two
parts. -/
def TakesUp : Event → Prop
  | .signHash _ => engine.state.isBusy = false
  | .txChunk seq _ _ => engine.Assembles seq
  | .disconnect => ∃ parts, engine.state = .loading parts
  | _ => False

variable {engine}

/-- Nothing is taken up while the user looks at a request, or once it is signed. -/
theorem not_isReviewed_of_takesUp {event : Event} (hTakes : engine.TakesUp event) :
    ¬ engine.IsReviewed := by
  have hState : engine.state.isBusy = false ∨ ∃ parts, engine.state = .loading parts := by
    cases event with
    | signHash request => exact .inl hTakes
    | txChunk seq more data =>
        rcases hTakes with ⟨-, hIdle⟩ | ⟨-, hLoading⟩
        · exact .inl hIdle
        · exact .inr hLoading
    | disconnect => exact .inr hTakes
    | none => exact hTakes.elim
    | getVersion => exact hTakes.elim
    | getAccount request => exact hTakes.elim
    | txGetInfo => exact hTakes.elim
    | txGetSignature => exact hTakes.elim
    | txComplete => exact hTakes.elim
  rintro (⟨step, hReview⟩ | hSigned)
  · rw [hReview] at hState
    rcases hState with hIdle | ⟨parts, hLoading⟩
    · cases hIdle
    · cases hLoading
  · rw [hSigned] at hState
    rcases hState with hIdle | ⟨parts, hLoading⟩
    · cases hIdle
    · cases hLoading

end TakesUp

section Refusals

variable {engine : Engine store.Key} {error : DeviceError}

theorem snd_getAccount_of_error {request : AccountRequest}
    (hError : (getAccount store engine request).1 = .error error) :
    (getAccount store engine request).2 = engine := by
  unfold getAccount at hError ⊢
  cases hDerive : store.derive request.path request.group request.keyType with
  | error failure => rfl
  | ok found =>
      rw [hDerive] at hError
      cases hError

theorem snd_startHash_of_error {request : HashSignRequest}
    (hError : (startHash store request).1 = .error error) :
    (startHash store request).2 = cleared .error := by
  unfold startHash at hError ⊢
  cases hDerive : store.derive request.path none .standard with
  | error failure => rfl
  | ok found =>
      rw [hDerive] at hError
      cases hError

/-- A part that is refused takes all parts before it with it. -/
theorem snd_load_of_error {parts : UInt16} {seq : UInt8} {more : Bool} {data : Bytes}
    (hError : (load store engine parts seq more data).1 = .error error) :
    (load store engine parts seq more data).2 =
      { engine with chunks := .empty, state := .error } := by
  rcases load_cases store engine parts seq more data with
    ⟨found, hFound⟩ | ⟨message, -, -, ⟨-, hAdded⟩ | ⟨-, hStart⟩⟩
  · exact congrArg Prod.snd hFound
  · rw [hAdded] at hError
    cases hError
  · rw [hStart] at hError ⊢
    rcases startTransaction_cases store engine (message.data ++ data) with
      ⟨found, -, hFound⟩ | ⟨key, review, -, hOpened⟩
    · exact congrArg Prod.snd hFound
    · rw [hOpened] at hError
      cases hError

/-- A part that is put together with nothing is refused at once. -/
theorem loadChunk_of_not_assembles {seq : UInt8} {more : Bool} {data : Bytes}
    (hPart : ¬ engine.Assembles seq) :
    ∃ error, loadChunk store engine seq more data = (.error error, engine) ∧
      (error = .deviceBusy ∨ error = .protocolFraming) := by
  unfold loadChunk
  split
  · next parts hState =>
      by_cases hSeq : seq = 0
      · exact ⟨_, if_pos hSeq, .inl rfl⟩
      · exact absurd (.inr ⟨hSeq, parts, hState⟩) hPart
  · by_cases hSeq : seq = 0
    · rw [if_neg (Decidable.not_not.2 hSeq)]
      cases hBusy : engine.state.isBusy with
      | true => exact ⟨_, rfl, .inl rfl⟩
      | false => exact absurd (.inl ⟨hSeq, hBusy⟩) hPart
    · exact ⟨_, if_pos hSeq, .inr rfl⟩

end Refusals

section Phases

variable {phase : Phase store.Key} {error : DeviceError}

/-- In front of a part that is put together there is neither an identifier nor a review, and what
was received is still there. -/
theorem exists_load_of_assembles {seq : UInt8} (more : Bool) (data : Bytes)
    (hPart : phase.engine.Assembles seq) :
    ∃ before parts, loadChunk store phase.engine seq more data =
        load store before parts seq more data ∧
      before.txId = FixedBytes.zero 32 ∧ before.context = none ∧
      before.chunks = phase.engine.chunks := by
  rcases hPart with ⟨rfl, hIdle⟩ | ⟨hSeq, parts, hState⟩
  · cases phase with
    | idle state txId hState =>
        refine ⟨cleared state, 0, ?_, rfl, rfl, rfl⟩
        rw [loadChunk_idle, if_neg (by simp)]
    | loading parts message => cases hIdle
    | review key request place step => cases hIdle
    | signed request step signature => cases hIdle
  · cases phase with
    | idle state txId hIdle =>
        obtain rfl : state = .loading parts := hState
        cases hIdle
    | loading count message => exact ⟨_, count, if_neg hSeq, rfl, rfl, rfl⟩
    | review key request place step => cases hState
    | signed request step signature => cases hState

theorem snd_loadChunk_of_error {seq : UInt8} {more : Bool} {data : Bytes}
    (hPart : phase.engine.Assembles seq)
    (hError : (loadChunk store phase.engine seq more data).1 = .error error) :
    (loadChunk store phase.engine seq more data).2 = cleared .error := by
  obtain ⟨before, parts, hLoad, hTxId, hContext, -⟩ := exists_load_of_assembles more data hPart
  rw [hLoad] at hError ⊢
  rw [snd_load_of_error hError, hTxId, hContext]
  rfl

/-- A host that goes away is an error only between two parts. -/
theorem snd_abandon_of_error (hError : (abandon store phase.engine).1 = .error error) :
    (∃ parts, phase.engine.state = .loading parts) ∧
      (abandon store phase.engine).2 = cleared .error := by
  cases phase with
  | idle state txId hIdle =>
      have hOk : (abandon store (Phase.idle state txId hIdle).engine).1 =
          .ok (Phase.idle state txId hIdle : Phase store.Key).engine.report := by
        cases state <;> first | rfl | cases hIdle
      rw [hOk] at hError
      cases hError
  | loading parts message => exact ⟨⟨parts, rfl⟩, rfl⟩
  | review key request place step => cases hError
  | signed request step signature => cases hError

/-- A refusal either changes nothing or leaves nothing. -/
theorem update_refused {event : Event}
    (hError : (update store phase.engine event).1 = .error error) :
    (¬ phase.engine.TakesUp event ∧ (update store phase.engine event).2 = phase.engine) ∨
      (phase.engine.TakesUp event ∧ (update store phase.engine event).2 = cleared .error) := by
  cases event with
  | none => cases hError
  | getVersion => cases hError
  | txGetInfo => cases hError
  | txComplete => cases hError
  | txGetSignature => exact .inl ⟨id, rfl⟩
  | getAccount request =>
      refine .inl ⟨id, ?_⟩
      unfold update at hError ⊢
      cases hBusy : phase.engine.state.isBusy with
      | true => rfl
      | false =>
          simp only [hBusy, Bool.false_eq_true, if_false] at hError ⊢
          exact snd_getAccount_of_error hError
  | signHash request =>
      unfold update at hError ⊢
      cases hBusy : phase.engine.state.isBusy with
      | true => exact .inl ⟨by simp [TakesUp, hBusy], rfl⟩
      | false =>
          simp only [hBusy, Bool.false_eq_true, if_false] at hError ⊢
          exact .inr ⟨hBusy, snd_startHash_of_error hError⟩
  | txChunk seq more data =>
      by_cases hPart : phase.engine.Assembles seq
      · exact .inr ⟨hPart, snd_loadChunk_of_error hPart hError⟩
      · obtain ⟨found, hRefused, -⟩ := loadChunk_of_not_assembles hPart
        exact .inl ⟨hPart, congrArg Prod.snd hRefused⟩
  | disconnect => exact .inr (snd_abandon_of_error hError)

end Phases

/-- With room for every output, the status word of an answer is the one of success, or that of a
malformed command, or the device refuses what the command asks for. -/
theorem exists_answer (engine : Engine store.Key) {capacity : Nat} (hCapacity : 98 ≤ capacity)
    (command : Bytes) :
    ∃ answer, Answer.ofBytes? (handle store engine capacity command).1 = some answer ∧
      (answer.status = Status.ok ∨ eventOfCommand command = .error answer.status ∨
        ∃ event error, eventOfCommand command = .ok event ∧
          (update store engine event).1 = .error error) := by
  refine ⟨reply store engine command, ?_, ?_⟩
  · rw [fst_handle engine hCapacity, Answer.ofBytes?_append]
  · cases hEvent : eventOfCommand command with
    | error status =>
        rw [reply_of_refused hEvent]
        exact .inr (.inl rfl)
    | ok event =>
        rw [reply_of_event hEvent]
        cases hUpdate : (update store engine event).1 with
        | error error => exact .inr (.inr ⟨event, error, rfl, hUpdate⟩)
        | ok output => exact .inl rfl

/-- An event that is refused leaves the device as it was, or it was taken up and the device is in
the error state with nothing left: no identifier, no part of a message, no review and no key. So it
is behind each command whose answer has not the status word of success, given that there is room for
every output; and if a request was under review or signed, it still is. -/
theorem refused_unchanged_or_cleared (store : KeyStore) (operations : List Operation) :
    let engine := after store operations
    (∀ event error, (update store engine event).1 = .error error →
      (¬ engine.TakesUp event ∧ (update store engine event).2 = engine) ∨
        (engine.TakesUp event ∧ (update store engine event).2 = cleared .error)) ∧
    ∀ capacity command, 98 ≤ capacity →
      ∃ answer, Answer.ofBytes? (handle store engine capacity command).1 = some answer ∧
        (answer.status ≠ Status.ok →
          ((handle store engine capacity command).2 = engine ∨
            (∃ event, eventOfCommand command = .ok event ∧ engine.TakesUp event) ∧
              (handle store engine capacity command).2 = cleared .error) ∧
          (engine.IsReviewed → (handle store engine capacity command).2 = engine)) := by
  intro engine
  obtain ⟨phase, run⟩ := exists_run store operations
  have hEngine : engine = phase.engine := run.after_eq
  rw [hEngine]
  refine ⟨fun event error => update_refused, ?_⟩
  intro capacity command hCapacity
  obtain ⟨answer, hBytes, hAnswer⟩ := exists_answer phase.engine hCapacity command
  refine ⟨answer, hBytes, fun hStatus => ?_⟩
  rw [snd_handle]
  rcases hAnswer with hOk | hCommand | ⟨event, error, hEvent, hError⟩
  · exact absurd hOk hStatus
  · rw [hCommand]
    exact ⟨.inl rfl, fun _ => rfl⟩
  · rw [hEvent]
    rcases update_refused hError with ⟨-, hSame⟩ | ⟨hTakes, hCleared⟩
    · exact ⟨.inl hSame, fun _ => hSame⟩
    · refine ⟨.inr ⟨⟨event, rfl, hTakes⟩, hCleared⟩, fun hReviewed => ?_⟩
      exact absurd hReviewed (not_isReviewed_of_takesUp hTakes)

/-- While a hash is under review, another one is refused and changes nothing. A part that comes
out of turn is refused, and what was received before it is gone. -/
theorem refused_unchanged_or_cleared_outOfTurn :
    let hash : Event := .signHash ⟨firstAccount, FixedBytes.zero 32⟩
    let reviewing := after oneKey [.event hash]
    let loading := after oneKey [.event (.txChunk 0 true [5])]
    let third : Bytes := [0x80, 0x02, 2, 0x80, 0]
    ((update oneKey reviewing hash).1 = .error .deviceBusy ∧
        (update oneKey reviewing hash).2 = reviewing) ∧
      ∃ answer, Answer.ofBytes? (handle oneKey loading 98 third).1 = some answer ∧
        answer.status ≠ Status.ok ∧ (handle oneKey loading 98 third).2 = cleared .error := by
  intro hash reviewing loading third
  refine ⟨⟨rfl, ?_⟩, ?_⟩
  · have hRefused := refused_unchanged_or_cleared oneKey [.event hash]
    rcases hRefused.1 hash .deviceBusy rfl with ⟨-, hSame⟩ | ⟨hTakes, -⟩
    · exact hSame
    · cases hTakes
  · have hRefused := refused_unchanged_or_cleared oneKey [.event (.txChunk 0 true [5])]
    obtain ⟨answer, hBytes, hOutcome⟩ := hRefused.2 98 third (Nat.le_refl 98)
    have hAnswer : Answer.ofBytes? (handle oneKey loading 98 third).1 = some ⟨[], 0x6a06⟩ := by
      decide +kernel
    obtain rfl : answer = ⟨[], 0x6a06⟩ := Option.some.inj (hBytes.symm.trans hAnswer)
    have hStatus : (0x6a06 : UInt16) ≠ Status.ok := by decide
    refine ⟨_, hAnswer, hStatus, ?_⟩
    rcases (hOutcome hStatus).1 with hSame | ⟨-, hCleared⟩
    · have hChanged : (handle oneKey loading 98 third).2.state ≠ loading.state := by
        decide +kernel
      exact absurd (congrArg Engine.state hSame) hChanged
    · exact hCleared

end ColdSigner.Engine
