import ColdSigner.Device.Dispatch
import ColdSigner.Proofs.SigningRequests
/-!
# Runs of a device

Whatever is done to a device that was just switched on, its memory has one of four shapes, the
phases. `Engine.Step` says how each operation leads from phase to phase, and all that follows
about runs is read off it.
-/
namespace ColdSigner

/-- What can be done to a device: the host sends commands and goes away, the user decides, and
events may also come from elsewhere. -/
inductive Operation where
  | command (capacity : Nat) (bytes : Bytes)
  | event (event : Event)
  | approve
  | deny
  | disconnect
  | reset
  deriving DecidableEq

namespace Operation

/-- The event that has to be answered, if there is one. A command may be refused before. -/
def event? : Operation → Option Event
  | command _ bytes => (Engine.eventOfCommand bytes).toOption
  | event happened => some happened
  | disconnect => some .disconnect
  | approve | deny | reset => none

/-- The operation drops every request, also one that was signed. -/
def Drops (operation : Operation) : Prop :=
  operation = .reset ∨ operation.event? = some .txComplete ∨
    operation.event? = some .disconnect

theorem not_drops_approve : ¬ approve.Drops := by simp [Drops, event?]

theorem not_drops_deny : ¬ deny.Drops := by simp [Drops, event?]

end Operation

namespace Engine

/-- The engine after one operation. -/
def perform (store : KeyStore) (engine : Engine store.Key) : Operation → Engine store.Key
  | .command capacity bytes => (handle store engine capacity bytes).2
  | .event happened => (update store engine happened).2
  | .approve => approve store engine
  | .deny => deny store engine
  | .disconnect => disconnect store engine
  | .reset => reset store

/-- What the device has to say to an operation. -/
def output? (store : KeyStore) (engine : Engine store.Key) (operation : Operation) :
    Option (Except DeviceError Output) :=
  operation.event?.map fun event => (update store engine event).1

/-- The engine after some operations in a row. -/
def after (store : KeyStore) (operations : List Operation) : Engine store.Key :=
  operations.foldl (perform store) .new

variable {store : KeyStore}

theorem after_concat (operations : List Operation) (operation : Operation) :
    after store (operations ++ [operation]) = perform store (after store operations) operation := by
  simp [after]

theorem after_append (operations more : List Operation) :
    after store (operations ++ more) = more.foldl (perform store) (after store operations) := by
  simp [after]

/-- A command does what its event does, and nothing if it is refused. -/
theorem snd_handle (engine : Engine store.Key) (capacity : Nat) (bytes : Bytes) :
    (handle store engine capacity bytes).2 =
      match eventOfCommand bytes with
      | .error _ => engine
      | .ok event => (update store engine event).2 := by
  rw [handle_eq]
  unfold answer
  cases eventOfCommand bytes with
  | error status => rfl
  | ok event =>
      simp only
      rcases update store engine event with ⟨error | output, next⟩
      · rfl
      · cases hWritten : output.encodeInto (capacity - 2) <;> simp [hWritten]

theorem perform_of_event {engine : Engine store.Key} {operation : Operation} {event : Event}
    (hEvent : operation.event? = some event) :
    perform store engine operation = (update store engine event).2 := by
  cases operation with
  | command capacity bytes =>
      rw [perform, snd_handle]
      cases hCommand : eventOfCommand bytes with
      | error status => simp [Operation.event?, hCommand, Except.toOption] at hEvent
      | ok found =>
          obtain rfl : found = event := by
            simpa [Operation.event?, hCommand, Except.toOption] using hEvent
          rfl
  | event found =>
      cases hEvent
      rfl
  | disconnect =>
      cases hEvent
      rfl
  | approve => cases hEvent
  | deny => cases hEvent
  | reset => cases hEvent

/-- Without an event there is a decision of the user, a reset, or a refused command. -/
theorem perform_of_no_event (engine : Engine store.Key) {operation : Operation}
    (hEvent : operation.event? = none) :
    operation = .approve ∨ operation = .deny ∨ operation = .reset ∨
      perform store engine operation = engine ∧ operation ≠ .approve ∧ operation ≠ .deny ∧
        operation ≠ .reset := by
  cases operation with
  | command capacity bytes =>
      refine .inr (.inr (.inr ⟨?_, by simp, by simp, by simp⟩))
      rw [perform, snd_handle]
      cases hCommand : eventOfCommand bytes with
      | error status => rfl
      | ok found => simp [Operation.event?, hCommand, Except.toOption] at hEvent
  | event found => cases hEvent
  | disconnect => cases hEvent
  | approve => exact .inl rfl
  | deny => exact .inr (.inl rfl)
  | reset => exact .inr (.inr (.inl rfl))

/-- The shapes of the memory of a device. -/
inductive Phase (Key : Type) where
  /-- No request is in flight. -/
  | idle (state : EngineState) (txId : TxId) (hIdle : state.isBusy = false)
  /-- Some parts of a message were received. -/
  | loading (parts : UInt16) (message : PartialMessage)
  /-- The user looks at a place of a review. -/
  | review (key : Option Key) (request : Review) (place : Place) (step : UInt16)
  /-- The request is signed. -/
  | signed (request : Review) (step : UInt16) (signature : Signature)

namespace Phase

variable {Key : Type}

/-- The engine with this memory. -/
def engine : Phase Key → Engine Key
  | idle state txId _ => ⟨state, txId, .empty, none⟩
  | loading parts message => ⟨.loading parts, FixedBytes.zero 32, .receiving message, none⟩
  | review key request place step =>
      ⟨.review step, request.id, .empty, some ⟨key, request, ⟨.pending place, step⟩, none⟩⟩
  | signed request step signature =>
      ⟨.signed, request.id, .empty, some ⟨none, request, ⟨.approved, step⟩, some signature⟩⟩

/-- The beginning of a review. -/
def opened (key : Option Key) (request : Review) : Phase Key :=
  review key request request.first 0

end Phase

/-- How an operation leads from phase to phase. A request can end at any time; what else can
happen depends on the phase. -/
inductive Step (store : KeyStore) : Phase store.Key → Operation → Phase store.Key → Prop where
  | stop {phase : Phase store.Key} {operation : Operation} {state : EngineState} {txId : TxId}
      (hIdle : state.isBusy = false) : Step store phase operation (.idle state txId hIdle)
  | showAddress {state : EngineState} {txId : TxId} {hIdle : state.isBusy = false}
      {operation : Operation} {request : AccountRequest} {account : Account} {key : store.Key}
      (hEvent : operation.event? = some (.getAccount request))
      (hDerive : store.derive request.path request.group request.keyType = .ok (account, key)) :
      Step store (.idle state txId hIdle) operation
        (.opened none ⟨.address, FixedBytes.zero 32, account⟩)
  | showHash {state : EngineState} {txId : TxId} {hIdle : state.isBusy = false}
      {operation : Operation} {request : HashSignRequest} {account : Account} {key : store.Key}
      (hEvent : operation.event? = some (.signHash request))
      (hDerive : store.derive request.path none .standard = .ok (account, key)) :
      Step store (.idle state txId hIdle) operation
        (.opened (some key) ⟨.hash, request.hash, account⟩)
  | loadFirst {state : EngineState} {txId : TxId} {hIdle : state.isBusy = false}
      {operation : Operation} {data : Bytes}
      (hEvent : operation.event? = some (.txChunk 0 true data)) :
      Step store (.idle state txId hIdle) operation
        (.loading 1 ⟨Instruction.signTx.code, 1, data⟩)
  | loadOnly {state : EngineState} {txId : TxId} {hIdle : state.isBusy = false}
      {operation : Operation} {data : Bytes} {key : store.Key} {review : Review}
      (hEvent : operation.event? = some (.txChunk 0 false data))
      (hLength : data.length ≤ maxPayload)
      (hRequest : decodeRequest store data = .ok (key, review)) :
      Step store (.idle state txId hIdle) operation (.opened (some key) review)
  | loadMore {parts : UInt16} {message : PartialMessage} {operation : Operation} {data : Bytes}
      (hEvent : operation.event? = some (.txChunk message.nextSeq true data))
      (hSeq : message.nextSeq ≠ 0) :
      Step store (.loading parts message) operation
        (.loading (parts + 1) ⟨message.ins, message.nextSeq + 1, message.data ++ data⟩)
  | loadLast {parts : UInt16} {message : PartialMessage} {operation : Operation} {data : Bytes}
      {key : store.Key} {review : Review}
      (hEvent : operation.event? = some (.txChunk message.nextSeq false data))
      (hSeq : message.nextSeq ≠ 0) (hLength : (message.data ++ data).length ≤ maxPayload)
      (hRequest : decodeRequest store (message.data ++ data) = .ok (key, review)) :
      Step store (.loading parts message) operation (.opened (some key) review)
  /-- Between the parts of a message, whatever is no further part is answered or refused. -/
  | wait {parts : UInt16} {message : PartialMessage} {operation : Operation}
      (hPart : ∀ seq more data, operation.event? = some (.txChunk seq more data) → seq = 0) :
      Step store (.loading parts message) operation (.loading parts message)
  /-- The user thinks, and the host may go on asking. -/
  | look {key : Option store.Key} {review : Review} {place : Place} {step : UInt16}
      {operation : Operation} (hApprove : operation ≠ .approve) (hDeny : operation ≠ .deny)
      (hKeeps : ¬ operation.Drops) :
      Step store (.review key review place step) operation (.review key review place step)
  | accept {key : Option store.Key} {review : Review} {place following : Place} {step : UInt16}
      (hNext : review.next? place = some following) :
      Step store (.review key review place step) .approve
        (.review key review following (if step = 0xffff then 0xffff else step + 1))
  | sign {key : store.Key} {review : Review} {place : Place} {step : UInt16}
      {signature : Signature} (hLast : review.next? place = none)
      (hSubject : review.subject ≠ .address)
      (hSign : store.sign key review.id = some signature) :
      Step store (.review (some key) review place step) .approve (.signed review step signature)
  | keep {review : Review} {step : UInt16} {signature : Signature} {operation : Operation}
      (hKeeps : ¬ operation.Drops) :
      Step store (.signed review step signature) operation (.signed review step signature)

theorem continued?_empty {ins : UInt8} {more : Bool} {data : Bytes} {message : PartialMessage} :
    Reassembly.empty.continued? ⟨ins, 0, more, data⟩ = some message ↔ ⟨ins, 0, []⟩ = message := by
  simp [Reassembly.continued?]

theorem continued?_receiving {message found : PartialMessage} {chunk : Chunk} :
    (Reassembly.receiving message).continued? chunk = some found ↔
      (chunk.seq ≠ 0 ∧ message.ins = chunk.ins) ∧ chunk.seq = message.nextSeq ∧
        message = found := by
  simp [Reassembly.continued?, and_assoc]

/-- A chunk that continues a message is added to it, if there is room. -/
theorem push_of_continued {chunks : Reassembly} {chunk : Chunk} {message : PartialMessage}
    (hMessage : chunks.continued? chunk = some message) :
    chunks.push maxPayload chunk =
      if maxPayload < (message.data ++ chunk.data).length then (.error .payloadTooLarge, .empty)
      else if chunk.more then
        (.ok false, .receiving ⟨message.ins, message.nextSeq + 1, message.data ++ chunk.data⟩)
      else
        (.ok true, .complete ⟨message.ins, message.nextSeq + 1, message.data ++ chunk.data⟩) := by
  simp only [Reassembly.push, hMessage, Nat.min_self]

/-- A complete message starts a review, or what it holds is refused and everything received with
it is gone. -/
theorem startTransaction_cases (store : KeyStore) (engine : Engine store.Key) (payload : Bytes) :
    (∃ error, decodeRequest store payload = .error error ∧
        startTransaction store engine payload =
          (.error error, { engine with chunks := .empty, state := .error })) ∨
      ∃ key review, decodeRequest store payload = .ok (key, review) ∧
        startTransaction store engine payload =
          (.ok (.state (.review 0) review.id), reviewing (some key) review) := by
  unfold startTransaction
  cases decodeRequest store payload with
  | error error => exact .inl ⟨error, rfl, rfl⟩
  | ok found => exact .inr ⟨found.1, found.2, rfl, rfl⟩

/-- A part is refused with everything before it, is added to it, or ends the message. -/
theorem load_cases (store : KeyStore) (engine : Engine store.Key) (parts : UInt16) (seq : UInt8)
    (more : Bool) (data : Bytes) :
    (∃ error, load store engine parts seq more data =
        (.error (.ofFrame error), { engine with chunks := .empty, state := .error })) ∨
      ∃ message, engine.chunks.continued? ⟨Instruction.signTx.code, seq, more, data⟩ =
          some message ∧
        (message.data ++ data).length ≤ maxPayload ∧
        (more = true ∧ load store engine parts seq more data =
            (.ok (.state (.loading (parts + 1)) engine.txId),
              { engine with
                chunks := .receiving ⟨message.ins, message.nextSeq + 1, message.data ++ data⟩
                state := .loading (parts + 1) }) ∨
          more = false ∧ load store engine parts seq more data =
            startTransaction store engine (message.data ++ data)) := by
  unfold load
  cases hMessage : engine.chunks.continued? ⟨Instruction.signTx.code, seq, more, data⟩ with
  | none =>
      left
      simp only [Reassembly.push, hMessage]
      exact ⟨_, rfl⟩
  | some message =>
      rw [push_of_continued hMessage]
      by_cases hLength : maxPayload < (message.data ++ data).length
      · left
        simp only [if_pos hLength]
        exact ⟨_, rfl⟩
      · simp only [if_neg hLength]
        cases more with
        | true => exact .inr ⟨message, rfl, Nat.not_lt.1 hLength, .inl ⟨rfl, rfl⟩⟩
        | false => exact .inr ⟨message, rfl, Nat.not_lt.1 hLength, .inr ⟨rfl, rfl⟩⟩

/-- What a part leaves behind: an error, a longer message or a review. -/
theorem snd_load_cases (store : KeyStore) (engine : Engine store.Key) (parts : UInt16)
    (seq : UInt8) (more : Bool) (data : Bytes) :
    (load store engine parts seq more data).2 =
        { engine with chunks := .empty, state := .error } ∨
      ∃ message, engine.chunks.continued? ⟨Instruction.signTx.code, seq, more, data⟩ =
          some message ∧
        (message.data ++ data).length ≤ maxPayload ∧
        (more = true ∧ (load store engine parts seq more data).2 =
            { engine with
              chunks := .receiving ⟨message.ins, message.nextSeq + 1, message.data ++ data⟩
              state := .loading (parts + 1) } ∨
          more = false ∧ ∃ key review,
            decodeRequest store (message.data ++ data) = .ok (key, review) ∧
              (load store engine parts seq more data).2 = reviewing (some key) review) := by
  rcases load_cases store engine parts seq more data with
    ⟨error, hError⟩ | ⟨message, hMessage, hLength, ⟨hMore, hAdded⟩ | ⟨hLast, hStart⟩⟩
  · exact .inl (congrArg Prod.snd hError)
  · exact .inr ⟨message, hMessage, hLength, .inl ⟨hMore, congrArg Prod.snd hAdded⟩⟩
  · rw [hStart]
    rcases startTransaction_cases store engine (message.data ++ data) with
      ⟨error, -, hError⟩ | ⟨key, review, hRequest, hOpened⟩
    · exact .inl (congrArg Prod.snd hError)
    · exact .inr ⟨message, hMessage, hLength,
        .inr ⟨hLast, key, review, hRequest, congrArg Prod.snd hOpened⟩⟩

/-- What does not need an answer or is refused at once leaves every phase as it is. -/
theorem Step.same (phase : Phase store.Key) {operation : Operation}
    (hApprove : operation ≠ .approve) (hDeny : operation ≠ .deny) (hKeeps : ¬ operation.Drops)
    (hPart : ∀ seq more data, operation.event? = some (.txChunk seq more data) → seq = 0) :
    Step store phase operation phase := by
  cases phase with
  | idle state txId hIdle => exact .stop hIdle
  | loading parts message => exact .wait hPart
  | review key review place step => exact .look hApprove hDeny hKeeps
  | signed review step signature => exact .keep hKeeps

/-- A request can end at any time, and then nothing is left of it. -/
theorem exists_stop {phase : Phase store.Key} {operation : Operation} {result : Engine store.Key}
    (state : EngineState) (txId : TxId) (hResult : result = ⟨state, txId, .empty, none⟩)
    (hIdle : state.isBusy = false) :
    ∃ next : Phase store.Key, result = next.engine ∧ Step store phase operation next :=
  ⟨.idle state txId hIdle, hResult, .stop hIdle⟩

section Idle

variable {state : EngineState} {txId : TxId} {hIdle : state.isBusy = false}

theorem loadChunk_idle (seq : UInt8) (more : Bool) (data : Bytes) :
    loadChunk store (Phase.idle state txId hIdle).engine seq more data =
      if seq ≠ 0 then (.error .protocolFraming, (Phase.idle state txId hIdle).engine)
      else load store (cleared state) 0 0 more data := by
  cases state <;> first | rfl | cases hIdle

theorem abandon_idle :
    (abandon store (Phase.idle state txId hIdle).engine).2 =
      (Phase.idle state txId hIdle).engine := by
  cases state <;> first | rfl | cases hIdle

/-- A device without a request answers, or takes the first part of a request. -/
theorem step_idle {operation : Operation} {event : Event}
    (hEvent : operation.event? = some event) :
    ∃ next : Phase store.Key,
      (update store (Phase.idle state txId hIdle).engine event).2 = next.engine ∧
        Step store (.idle state txId hIdle) operation next := by
  have hBusy : (Phase.idle state txId hIdle : Phase store.Key).engine.state.isBusy = false := hIdle
  cases event with
  | none => exact ⟨_, rfl, .stop hIdle⟩
  | getVersion => exact ⟨_, rfl, .stop hIdle⟩
  | txGetInfo => exact ⟨_, rfl, .stop hIdle⟩
  | txGetSignature => exact ⟨_, rfl, .stop hIdle⟩
  | txComplete => exact exists_stop .complete txId rfl rfl
  | disconnect => exact exists_stop state txId abandon_idle hIdle
  | getAccount request =>
      simp only [update, hBusy, Bool.false_eq_true, if_false, getAccount]
      cases hDerive : store.derive request.path request.group request.keyType with
      | error error => exact ⟨_, rfl, .stop hIdle⟩
      | ok found =>
          cases request.display with
          | false => exact ⟨_, rfl, .stop hIdle⟩
          | true => exact ⟨_, rfl, .showAddress hEvent hDerive⟩
  | signHash request =>
      simp only [update, hBusy, Bool.false_eq_true, if_false, startHash]
      cases hDerive : store.derive request.path none .standard with
      | error error => exact exists_stop .error _ rfl rfl
      | ok found => exact ⟨_, rfl, .showHash hEvent hDerive⟩
  | txChunk seq more data =>
      simp only [update, loadChunk_idle]
      by_cases hSeq : seq = 0
      · subst hSeq
        rw [if_neg (by simp)]
        rcases snd_load_cases store (cleared state) 0 0 more data with
          hError | ⟨message, hMessage, hLength, hMore | ⟨hLast, key, review, hRequest, hNext⟩⟩
        · exact exists_stop .error _ hError rfl
        · obtain ⟨rfl, hNext⟩ := hMore
          obtain rfl := continued?_empty.1 hMessage
          exact ⟨.loading 1 ⟨Instruction.signTx.code, 1, data⟩, hNext, .loadFirst hEvent⟩
        · subst hLast
          obtain rfl := continued?_empty.1 hMessage
          exact ⟨.opened (some key) review, hNext, .loadOnly hEvent hLength hRequest⟩
      · rw [if_pos hSeq]
        exact ⟨_, rfl, .stop hIdle⟩

end Idle

/-- A device in the middle of a message takes the next part, or waits for it. -/
theorem step_loading {parts : UInt16} {message : PartialMessage} {operation : Operation}
    {event : Event} (hEvent : operation.event? = some event) :
    ∃ next : Phase store.Key,
      (update store (Phase.loading parts message).engine event).2 = next.engine ∧
        Step store (.loading parts message) operation next := by
  have hWait (hPart : ∀ seq more data, event = .txChunk seq more data → seq = 0) :
      Step store (.loading parts message) operation (.loading parts message) := by
    apply Step.wait
    intro seq more data hChunk
    rw [hEvent] at hChunk
    exact hPart seq more data (Option.some.inj hChunk)
  cases event with
  | none => exact ⟨_, rfl, hWait (by simp)⟩
  | getVersion => exact ⟨_, rfl, hWait (by simp)⟩
  | getAccount request => exact ⟨_, rfl, hWait (by simp)⟩
  | signHash request => exact ⟨_, rfl, hWait (by simp)⟩
  | txGetInfo => exact ⟨_, rfl, hWait (by simp)⟩
  | txGetSignature => exact ⟨_, rfl, hWait (by simp)⟩
  | txComplete => exact exists_stop .complete _ rfl rfl
  | disconnect => exact exists_stop .error _ rfl rfl
  | txChunk seq more data =>
      by_cases hSeq : seq = 0
      · subst hSeq
        exact ⟨_, rfl, hWait fun _ _ _ hChunk => (Event.txChunk.inj hChunk).1.symm⟩
      · have hLoad : update store (Phase.loading parts message).engine (.txChunk seq more data) =
            load store (Phase.loading parts message).engine parts seq more data := if_neg hSeq
        rw [hLoad]
        rcases snd_load_cases store (Phase.loading parts message).engine parts seq more data with
          hFailed | ⟨found, hFound, hLength, hMore | ⟨hLast, key, review, hRequest, hNext⟩⟩
        · exact exists_stop .error _ hFailed rfl
        · obtain ⟨rfl, hNext⟩ := hMore
          obtain ⟨-, rfl, rfl⟩ := continued?_receiving.1 hFound
          exact ⟨.loading (parts + 1) ⟨message.ins, message.nextSeq + 1, message.data ++ data⟩,
            hNext, .loadMore hEvent hSeq⟩
        · subst hLast
          obtain ⟨-, rfl, rfl⟩ := continued?_receiving.1 hFound
          exact ⟨.opened (some key) review, hNext, .loadLast hEvent hSeq hLength hRequest⟩

/-- The user looks at a request, or it is signed. -/
def Phase.Reviewed {Key : Type} : Phase Key → Prop
  | idle _ _ _ | loading _ _ => False
  | review _ _ _ _ | signed _ _ _ => True

/-- While a request is reviewed or signed, nothing that the host asks for changes anything. -/
theorem update_of_reviewed {phase : Phase store.Key} (hPhase : phase.Reviewed) {event : Event}
    (hComplete : event ≠ .txComplete) (hDisconnect : event ≠ .disconnect) :
    (update store phase.engine event).2 = phase.engine := by
  have hPart (seq : UInt8) (more : Bool) (data : Bytes) :
      (loadChunk store phase.engine seq more data).2 = phase.engine := by
    by_cases hSeq : seq = 0
    · subst hSeq
      cases phase with
      | idle state txId hIdle => exact hPhase.elim
      | loading parts message => exact hPhase.elim
      | review key request place step => rfl
      | signed request step signature => rfl
    · cases phase with
      | idle state txId hIdle => exact hPhase.elim
      | loading parts message => exact hPhase.elim
      | review key request place step => exact congrArg Prod.snd (if_pos hSeq)
      | signed request step signature => exact congrArg Prod.snd (if_pos hSeq)
  have hBusy : phase.engine.state.isBusy = true := by
    cases phase with
    | idle state txId hIdle => exact hPhase.elim
    | loading parts message => exact hPhase.elim
    | review key request place step => rfl
    | signed request step signature => rfl
  cases event with
  | none => rfl
  | getVersion => rfl
  | getAccount request => simp only [update, hBusy, if_true]
  | signHash request => simp only [update, hBusy, if_true]
  | txChunk seq more data => exact hPart seq more data
  | txGetInfo => rfl
  | txGetSignature => rfl
  | txComplete => exact absurd rfl hComplete
  | disconnect => exact absurd rfl hDisconnect

theorem update_txComplete (phase : Phase store.Key) :
    (update store phase.engine .txComplete).2 =
      (Phase.idle .complete phase.engine.txId rfl).engine := rfl

/-- The user goes on, or ends a review with the last step. -/
theorem step_approve (key : Option store.Key) (request : Review) (place : Place)
    (step : UInt16) :
    ∃ next : Phase store.Key,
      approve store (Phase.review key request place step).engine = next.engine ∧
        Step store (.review key request place step) .approve next := by
  cases hNext : request.next? place with
  | some following =>
      refine ⟨_, ?_, .accept hNext⟩
      simp only [approve, Phase.engine, Reviewer.accept, hNext]
  | none =>
      simp only [approve, Phase.engine, Reviewer.accept, hNext]
      by_cases hSubject : request.subject = .address
      · rw [if_pos hSubject]
        exact exists_stop .verified request.id rfl rfl
      · rw [if_neg hSubject]
        simp only [sign]
        cases key with
        | none => exact exists_stop .error request.id rfl rfl
        | some key =>
            simp only [Option.bind_some]
            cases hSign : store.sign key request.id with
            | none => exact exists_stop .error request.id rfl rfl
            | some signature =>
                exact ⟨.signed request step signature, rfl, .sign hNext hSubject hSign⟩

/-- A request under review stays as it is, unless the host gives it up. -/
theorem step_reviewed {phase : Phase store.Key} (hPhase : phase.Reviewed)
    {operation : Operation} {event : Event} (hEvent : operation.event? = some event) :
    ∃ next : Phase store.Key,
      (update store phase.engine event).2 = next.engine ∧ Step store phase operation next := by
  by_cases hComplete : event = .txComplete
  · subst hComplete
    exact ⟨_, update_txComplete phase, .stop rfl⟩
  · by_cases hDisconnect : event = .disconnect
    · subst hDisconnect
      refine exists_stop .rejected phase.engine.txId ?_ rfl
      cases phase with
      | idle state txId hIdle => exact hPhase.elim
      | loading parts message => exact hPhase.elim
      | review key request place step => rfl
      | signed request step signature => rfl
    · refine ⟨phase, update_of_reviewed hPhase hComplete hDisconnect, ?_⟩
      have hKeeps : ¬ operation.Drops := by
        rintro (rfl | hDrop | hDrop)
        · cases hEvent
        · exact hComplete (Option.some.inj (hEvent.symm.trans hDrop))
        · exact hDisconnect (Option.some.inj (hEvent.symm.trans hDrop))
      cases phase with
      | idle state txId hIdle => exact hPhase.elim
      | loading parts message => exact hPhase.elim
      | review key request place step =>
          refine .look ?_ ?_ hKeeps
          · rintro rfl
            cases hEvent
          · rintro rfl
            cases hEvent
      | signed request step signature => exact .keep hKeeps

/-- The user refuses what is under review; there is nothing else to refuse. -/
theorem step_deny (phase : Phase store.Key) :
    ∃ next : Phase store.Key,
      deny store phase.engine = next.engine ∧ Step store phase .deny next := by
  cases phase with
  | idle state txId hIdle =>
      refine exists_stop state txId ?_ hIdle
      cases state <;> first | rfl | cases hIdle
  | loading parts message => exact ⟨_, rfl, .wait (by simp [Operation.event?])⟩
  | review key request place step =>
      exact exists_stop .rejected request.id rfl rfl
  | signed request step signature => exact ⟨_, rfl, .keep Operation.not_drops_deny⟩

/-- Each operation leads from a phase to a phase. -/
theorem exists_step (phase : Phase store.Key) (operation : Operation) :
    ∃ next : Phase store.Key,
      perform store phase.engine operation = next.engine ∧ Step store phase operation next := by
  cases hEvent : operation.event? with
  | some event =>
      rw [perform_of_event hEvent]
      cases phase with
      | idle state txId hIdle => exact step_idle hEvent
      | loading parts message => exact step_loading hEvent
      | review key request place step =>
          have hReviewed : (Phase.review key request place step).Reviewed := trivial
          exact step_reviewed hReviewed hEvent
      | signed request step signature =>
          have hSigned : (Phase.signed request step signature : Phase store.Key).Reviewed := trivial
          exact step_reviewed hSigned hEvent
  | none =>
      rcases perform_of_no_event phase.engine hEvent with
        rfl | rfl | rfl | ⟨hSame, hApprove, hDeny, hReset⟩
      · cases phase with
        | idle state txId hIdle =>
            refine exists_stop state txId ?_ hIdle
            cases state <;> rfl
        | loading parts message => exact ⟨_, rfl, .wait (by simp [Operation.event?])⟩
        | review key request place step => exact step_approve key request place step
        | signed request step signature => exact ⟨_, rfl, .keep Operation.not_drops_approve⟩
      · exact step_deny phase
      · exact exists_stop .init _ rfl rfl
      · have hKeeps : ¬ operation.Drops := by simp [Operation.Drops, hReset, hEvent]
        exact ⟨phase, hSame, .same phase hApprove hDeny hKeeps (by simp [hEvent])⟩

/-- The phases of a device, one operation after the other. -/
inductive Run (store : KeyStore) : List Operation → Phase store.Key → Prop where
  | start : Run store [] (.idle .init (FixedBytes.zero 32) rfl)
  | step {operations : List Operation} {operation : Operation} {phase next : Phase store.Key}
      (prior : Run store operations phase)
      (hPerform : perform store phase.engine operation = next.engine)
      (last : Step store phase operation next) : Run store (operations ++ [operation]) next

theorem Run.after_eq {operations : List Operation} {phase : Phase store.Key}
    (run : Run store operations phase) : after store operations = phase.engine := by
  induction run with
  | start => rfl
  | step prior hPerform last ih => rw [after_concat, ih, hPerform]

/-- Whatever is done next, a run goes on. -/
theorem Run.exists_append {operations : List Operation} {phase : Phase store.Key}
    (run : Run store operations phase) (more : List Operation) :
    ∃ next, Run store (operations ++ more) next := by
  induction more generalizing operations phase with
  | nil => exact ⟨phase, by simpa using run⟩
  | cons operation rest ih =>
      obtain ⟨next, hPerform, last⟩ := exists_step phase operation
      rw [List.append_cons]
      exact ih (run.step hPerform last)

/-- Every engine that can be reached is in a phase that can be reached. -/
theorem exists_run (store : KeyStore) (operations : List Operation) :
    ∃ phase, Run store operations phase :=
  Run.start.exists_append operations

end Engine

end ColdSigner
