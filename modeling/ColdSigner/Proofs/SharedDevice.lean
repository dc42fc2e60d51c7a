import ColdSigner.Proofs.CallPlaces
import ColdSigner.Proofs.RequestRelease
/-!
# Two calls on one device

Two calls to sign share a device: they have turns in any order, and each request is sent in one
turn. While a call waits, the device may pass from its request to the one of the other call. What
one turn can do is `Clones.Moves`. A call that has seen its request signed releases that one only,
so the request of the other call is released only where the time of the user has run out
(`Clones.cancels_only_expired`), and there it is (`Clones.cancels_other`).
-/
namespace ColdSigner

open Engine InProcess HostCall

/-- Beside the exchange there are only decisions of the user, and the answer comes within the
limit. -/
structure Incident.Attended (incident : Incident) (limit : Nat) : Prop extends
    incident.Faultless limit where
  decides_before : ∀ act ∈ incident.before, act.IsDecision
  decides_after : ∀ act ∈ incident.after, act.IsDecision

/-- What is left of two calls, and the device that they share. -/
structure Clones (Key : Type) where
  calls : Bool → Dialogue (Except HostError SignedTx)
  session : InProcess Key

/-- One of the calls goes on after it has waited so long for the channel. -/
structure Turn where
  side : Bool
  waited : Nat

namespace Clones

variable (store : KeyStore) (script : Nat → Incident)

def turn (clones : Clones store.Key) (turn : Turn) : Clones store.Key :=
  let (call, session) :=
    (clones.calls turn.side).step (link store script) turn.waited clones.session
  ⟨fun side => if side = turn.side then call else clones.calls side, session⟩

def play (clones : Clones store.Key) (turns : List Turn) : Clones store.Key :=
  turns.foldl (turn store script) clones

/-- In this turn the device is released while it has the request with this identifier under
review, or has signed it. -/
def Cancels (clones : Clones store.Key) (last : Turn) (id : TxId) : Prop :=
  (clones.turn store script last).session.commands =
      Instruction.txComplete.command [] :: clones.session.commands ∧
    (clones.session.awaiting script).IsReviewed ∧ (clones.session.awaiting script).txId = id

end Clones

/-- What each command of a request keeps, the request keeps. -/
theorem Link.perform_keeps {σ : Type} {link : Link σ} (holds : σ → Prop) {limit : Nat}
    {budget : Option Nat} {commands : List Bytes} (elapsed : Nat) (data : Bytes) {state : σ}
    (hKeeps : ∀ state, ∀ command ∈ commands, holds state → holds (link.exchange state command).2)
    (hHolds : holds state) : holds (link.perform limit budget commands elapsed data state).2 := by
  induction commands generalizing elapsed data state with
  | nil => exact hHolds
  | cons command rest ih =>
      obtain ⟨hFirst, hRest⟩ :
          (∀ state, holds state → holds (link.exchange state command).2) ∧
            ∀ state, ∀ other ∈ rest, holds state → holds (link.exchange state other).2 :=
        ⟨fun state => hKeeps state command List.mem_cons_self,
          fun state other hMem => hKeeps state other (List.mem_cons_of_mem _ hMem)⟩
      rw [perform_cons]
      split
      · exact ih _ _ hRest (hFirst state hHolds)
      · exact hFirst state hHolds

/-- No other instruction than the one to release the device makes it release its request. -/
theorem ne_txComplete_of_mem_commands {instruction : Instruction} {payload command : Bytes}
    (hOther : instruction ≠ .txComplete) (hMem : command ∈ instruction.commands payload) :
    eventOfCommand command ≠ .ok .txComplete := by
  intro hEvent
  obtain ⟨chunk, hChunk, rfl⟩ := List.mem_map.1 hMem
  obtain ⟨hIns, hData⟩ := (Chunk.split_carries instruction.code 0 payload).2 chunk hChunk
  obtain ⟨found, taken, hFound, hCode, -, hParse⟩ := eventOfCommand_eq_ok_iff.1 hEvent
  obtain rfl : chunk = found := Except.ok.inj ((Chunk.decode_ofChunk hData).symm.trans hFound)
  obtain ⟨released, hReleased, hInstruction⟩ := Event.instruction?_of_parse hParse
  obtain rfl : Instruction.txComplete = released := Option.some.inj hInstruction
  rw [hIns, Instruction.ofCode?_eq_some_iff.2 rfl] at hReleased
  exact hOther (Option.some.inj hReleased)

namespace InProcess

variable {store : KeyStore} {script : Nat → Incident} {session : InProcess store.Key} {limit : Nat}

/-- The device has signed the request with this identifier. -/
def HasSigned (session : InProcess store.Key) (id : TxId) : Prop :=
  ∃ request step signature, request.id = id ∧
    session.engine = (Phase.signed request step signature : Phase store.Key).engine

/-- The device has no request. -/
def Idles (session : InProcess store.Key) : Prop :=
  ∃ state txId hIdle, session.engine = (Phase.idle state txId hIdle : Phase store.Key).engine

/-- The device is in one of its phases. -/
def HasPhase (session : InProcess store.Key) : Prop :=
  ∃ phase : Phase store.Key, session.engine = phase.engine

/-- What the user does around an exchange, and what the command does in between. -/
theorem engine_exchange {command : Bytes}
    (hFaultless : (session.incident script).Faultless limit) :
    ((link store script).exchange session command).2.engine =
      (handle store (session.awaiting script) answerCapacity command).2.acted store
        (session.incident script).after := by
  obtain ⟨hAnswer, -, -, -⟩ := hFaultless
  unfold incident at hAnswer
  simp only [link, exchange, hAnswer]
  rfl

theorem awaiting_of_attended {phase : Phase store.Key}
    (hAttended : (session.incident script).Attended limit) (hSettled : phase.Settled)
    (hEngine : session.engine = phase.engine) : session.awaiting script = phase.engine := by
  rw [awaiting, hEngine]
  exact hSettled.acted_eq hAttended.decides_before

theorem HasPhase.exists_awaiting (hPhase : session.HasPhase) (script : Nat → Incident) :
    ∃ phase : Phase store.Key, session.awaiting script = phase.engine := by
  obtain ⟨phase, hEngine⟩ := hPhase
  obtain ⟨current, hCurrent, -⟩ := exists_remains_acted phase (session.incident script).before
  exact ⟨current, by rw [awaiting, hEngine, hCurrent]⟩

theorem HasPhase.exchange {command : Bytes}
    (hFaultless : (session.incident script).Faultless limit) (hPhase : session.HasPhase) :
    ((link store script).exchange session command).2.HasPhase := by
  obtain ⟨phase, hAwaiting⟩ := hPhase.exists_awaiting script
  obtain ⟨middle, hMiddle, -⟩ := exists_step phase (.command answerCapacity command)
  obtain ⟨next, hNext, -⟩ := exists_remains_acted middle (session.incident script).after
  refine ⟨next, ?_⟩
  rw [engine_exchange hFaultless, hAwaiting, ← hNext, ← hMiddle]
  rfl

/-- A signature stays until the device is released. -/
theorem HasSigned.exchange {command : Bytes} {id : TxId}
    (hAttended : (session.incident script).Attended limit)
    (hOther : eventOfCommand command ≠ .ok .txComplete) (hSigned : session.HasSigned id) :
    ((link store script).exchange session command).2.HasSigned id := by
  obtain ⟨request, step, signature, hId, hEngine⟩ := hSigned
  have hAwaiting := awaiting_of_attended hAttended Phase.settled_signed hEngine
  have hKept : (handle store (Phase.signed request step signature).engine answerCapacity
      command).2 = (Phase.signed request step signature).engine := by
    rw [snd_handle]
    cases hEvent : eventOfCommand command with
    | error status => rfl
    | ok event =>
        have hReviewed : (Phase.signed request step signature : Phase store.Key).Reviewed := trivial
        refine update_of_reviewed hReviewed ?_ ?_
        · rintro rfl
          exact hOther hEvent
        · rintro rfl
          exact eventOfCommand_ne_disconnect command hEvent
  refine ⟨request, step, signature, hId, ?_⟩
  rw [engine_exchange hAttended.toFaultless, hAwaiting, hKept]
  exact Phase.settled_signed.acted_eq hAttended.decides_after

/-- A device that is released has no request. -/
theorem Passes.idles {command : Bytes} {next : InProcess store.Key}
    (hAttended : (session.incident script).Attended limit) (hPhase : session.HasPhase)
    (hPasses : session.Passes script command .txComplete next) : next.Idles := by
  obtain ⟨phase, hAwaiting⟩ := hPhase.exists_awaiting script
  have hComplete : EngineState.complete.isBusy = false := rfl
  refine ⟨.complete, phase.engine.txId, hComplete, ?_⟩
  rw [hPasses.engine_eq, hAwaiting, update_txComplete]
  exact Phase.settled_idle.acted_eq hAttended.decides_after

/-- A device without a request gives no signature, and stays without one. -/
theorem Passes.idles_of_idles {command : Bytes} {next : InProcess store.Key}
    (hAttended : (session.incident script).Attended limit) (hIdles : session.Idles)
    (hPasses : session.Passes script command .txGetSignature next) : next.Idles := by
  obtain ⟨state, txId, hIdle, hEngine⟩ := hIdles
  have hAwaiting := awaiting_of_attended hAttended Phase.settled_idle hEngine
  refine ⟨state, txId, hIdle, ?_⟩
  rw [hPasses.engine_eq, hAwaiting]
  exact Phase.settled_idle.acted_eq hAttended.decides_after

/-- A device that says so has signed the request. -/
theorem Passes.hasSigned {command : Bytes} {next : InProcess store.Key}
    (hAttended : (session.incident script).Attended limit) (hPhase : session.HasPhase)
    (hPasses : session.Passes script command .txGetInfo next)
    (hState : (session.awaiting script).info.state = .signed) :
    next.HasSigned (session.awaiting script).info.txId := by
  obtain ⟨phase, hAwaiting⟩ := hPhase.exists_awaiting script
  rw [hAwaiting] at hState
  cases phase with
  | idle state txId hIdle =>
      cases state with
      | signed => cases hIdle
      | _ => cases hState
  | loading parts message => cases hState
  | review key request place step => cases hState
  | signed request step signature =>
      have hUpdate : ((session.awaiting script).update store .txGetInfo).2 =
          (Phase.signed request step signature).engine := hAwaiting
      refine ⟨request, step, signature, by rw [hAwaiting]; rfl, ?_⟩
      rw [hPasses.engine_eq, hUpdate]
      exact Phase.settled_signed.acted_eq hAttended.decides_after

/-- A request of one command is answered, unless the time runs out meanwhile. -/
theorem exists_perform_single {command : Bytes} {event : Event} (budget : Option Nat)
    (waited : Nat) (hFaultless : (session.incident script).Faultless limit)
    (hEvent : eventOfCommand command = .ok event) :
    ∃ outcome next, (link store script).perform limit budget [command] waited [] session =
        (outcome, next) ∧ session.Passes script command event next ∧
      (outcome.told = heard ((session.awaiting script).update store event).1 ∨
        outcome = .expired ∧ budget ≠ none) := by
  obtain ⟨answer, next, hExchange, hPasses, hResult⟩ := exists_exchange hFaultless hEvent
  refine ⟨_, next, Link.perform_single budget waited [] hFaultless.delay_le hExchange, hPasses, ?_⟩
  split
  · exact .inl hResult
  · next hLate =>
      refine .inr ⟨rfl, ?_⟩
      rintro rfl
      exact hLate rfl

/-- What is sent in a request are commands of that request. -/
theorem exists_commands_perform (session : InProcess store.Key) (script : Nat → Incident)
    (limit : Nat) (budget : Option Nat) (commands : List Bytes) (waited : Nat) :
    ∃ sent, (∀ command ∈ sent, command ∈ commands) ∧
      ((link store script).perform limit budget commands waited [] session).2.commands =
        sent ++ session.commands := by
  refine Link.perform_keeps (fun after : InProcess store.Key => ∃ sent,
    (∀ command ∈ sent, command ∈ commands) ∧ after.commands = sent ++ session.commands)
    waited [] ?_ ⟨[], by simp, rfl⟩
  rintro state command hMem ⟨sent, hSent, hCommands⟩
  refine ⟨command :: sent, List.forall_mem_cons.2 ⟨hMem, hSent⟩, ?_⟩
  have hNext : ((link store script).exchange state command).2.commands =
      command :: state.commands := rfl
  rw [hNext, hCommands, List.cons_append]

end InProcess

section Opening

variable {store : KeyStore} {script : Nat → Incident} {session : InProcess store.Key}
  {id : TxId} {limit : Nat}

/-- The device refuses a request, or has the one with this identifier under review. -/
def TellsRequest (id : TxId) (answer : Except DeviceError Output) : Prop :=
  (∃ error, answer = .error error) ∨ answer = .ok (.state (.review 0) id)

theorem TellsRequest.heard_eq {answer : Except DeviceError Output}
    (hTells : TellsRequest id answer) :
    (∃ error, heard answer = .error error) ∨
      heard answer = .ok (Output.state (.review 0) id).data := by
  rcases hTells with ⟨error, rfl⟩ | rfl
  · exact .inl ⟨_, rfl⟩
  · exact .inr rfl

theorem tellsRequest_signHash (engine : Engine store.Key) (path : DerivationPath) :
    TellsRequest id (engine.update store (.signHash ⟨path, id⟩)).1 := by
  rw [update]
  split
  · exact .inl ⟨_, rfl⟩
  · unfold startHash
    split
    · exact .inl ⟨_, rfl⟩
    · exact .inr rfl

theorem tellsRequest_opened (path : DerivationPath) {tx : Bytes} {unsigned : UnsignedTx}
    (hDecode : UnsignedTx.decode tx = .ok (unsigned, id)) :
    TellsRequest id (opened store (path.toBytes ++ tx)).1 := by
  unfold opened
  rw [decodeRequest_append, hDecode]
  cases store.derive path none .standard with
  | error error => exact .inl ⟨_, rfl⟩
  | ok found => exact .inr rfl

/-- A part of a transaction is refused, whatever it holds. -/
def Engine.RefusesPart (store : KeyStore) (engine : Engine store.Key) (number : Nat) : Prop :=
  ∀ more part, ∃ error, (engine.update store (.txChunk (UInt8.ofNat number) more part)).1 =
    .error error

/-- The device takes the part with this number behind these data, or refuses it. -/
def InProcess.TakesPart (number : Nat) (data : Bytes) (session : InProcess store.Key) : Prop :=
  ∃ phase : Phase store.Key, session.Since phase ∧ ∀ current, phase.Remains store current →
    Expects current.engine number data ∨ RefusesPart store current.engine number

theorem takesPart_zero (hPhase : session.HasPhase) : session.TakesPart 0 [] := by
  obtain ⟨phase, hEngine⟩ := hPhase
  refine ⟨phase, ⟨phase, .refl phase, hEngine⟩, fun current _ => ?_⟩
  cases current with
  | idle state txId hIdle => exact .inl (expects_of_idle _ hIdle)
  | loading parts message => exact .inr fun more part => ⟨_, rfl⟩
  | review key request place step => exact .inr fun more part => ⟨_, rfl⟩
  | signed request step signature => exact .inr fun more part => ⟨_, rfl⟩

theorem takesPart_of_awaits {phase : Phase store.Key} {number : Nat} {data : Bytes}
    (hSince : session.Since phase) (hAwaits : phase.Awaits number data) :
    session.TakesPart number data := by
  refine ⟨phase, hSince, fun current hRemains => (hAwaits current hRemains).imp_right ?_⟩
  rintro ⟨hSeq, state, txId, hIdle, rfl⟩ more part
  exact ⟨_, congrArg Prod.fst (update_txChunk_idle hSeq)⟩

/-- Whatever phase the device is in, it opens the request that is sent, or refuses. -/
theorem allows_perform_opens {commands : List Bytes} (waited : Nat)
    (hFaultless : ∀ number, (script number).Faultless limit) (hPhase : session.HasPhase)
    (hOpens : OpensRequest id commands) :
    CallPlace.opening.Allows id
      ((link store script).perform limit none commands waited [] session).1 := by
  cases hOpens with
  | hash path =>
      let request : HashSignRequest := ⟨path, id⟩
      have hEvent := DeviceHandle.eventOfCommand_command request.length_toBytes_le
        (Event.parse_signHash request)
      obtain ⟨outcome, next, hPerform, -, hTold | ⟨-, hNone⟩⟩ :=
        exists_perform_single none waited (hFaultless _) hEvent
      · rw [Instruction.commands_of_le request.length_toBytes_le, hPerform]
        have hTells : TellsRequest id
            ((session.awaiting script).update store (.signHash request)).1 :=
          tellsRequest_signHash _ path
        have hHeard := hTells.heard_eq
        rw [← hTold] at hHeard
        exact hHeard
      · exact absurd rfl hNone
  | @transaction path tx unsigned hDecode hLength =>
      have hSplit := DeviceHandle.exists_perform_split TakesPart (fun result _ =>
          (∃ error, result = .error error) ∨ result = .ok (Output.state (.review 0) id).data)
        waited [] hFaultless ?_ ?_ (takesPart_zero hPhase) (List.nil_append (path.toBytes ++ tx))
        (Nat.zero_le _) hLength
      · obtain ⟨result, time, next, hPerform, hResult⟩ := hSplit
        exact (congrArg Prod.fst hPerform).symm ▸ hResult
      · intro number data part session command next hMost hFits hTakes hPasses
        obtain ⟨phase, hSince, hTakes⟩ := hTakes
        obtain ⟨current, hRemains, hAwaiting⟩ := hSince.exists_awaiting script
        rw [hAwaiting]
        rcases hTakes current hRemains with hExpects | hRefuses
        · have hUpdate := hExpects true part hFits
          have hNext : next.Since (.loading (UInt16.ofNat (number + 1))
              ⟨Instruction.signTx.code, UInt8.ofNat (number + 1), data ++ part⟩) := by
            refine hPasses.since ?_
            rw [hAwaiting, hUpdate]
            rfl
          rw [hUpdate]
          exact takesPart_of_awaits hNext (awaits_received (Nat.le_add_left 1 number) hMost _)
        · obtain ⟨error, hError⟩ := hRefuses true part
          rw [hError]
          exact .inl ⟨_, rfl⟩
      · intro number data part session command next hTotal hTakes hPasses
        obtain ⟨phase, hSince, hTakes⟩ := hTakes
        obtain ⟨current, hRemains, hAwaiting⟩ := hSince.exists_awaiting script
        have hTells : TellsRequest id (current.engine.update store
            (.txChunk (UInt8.ofNat number) false part)).1 := by
          rcases hTakes current hRemains with hExpects | hRefuses
          · rw [hExpects false part (hTotal ▸ hLength), hTotal]
            exact tellsRequest_opened path hDecode
          · exact .inl (hRefuses false part)
        rw [hAwaiting]
        exact hTells.heard_eq

end Opening

namespace CallPlace

/-- The call has seen that its request is signed. -/
def Collects : CallPlace → Prop
  | fetching | finishing => True
  | _ => False

/-- The call has a question or a request for the device. -/
def Asks : CallPlace → Prop
  | starting | opening | waiting | fetching => True
  | _ => False

end CallPlace

/-- What one turn of a call can do: nothing is sent, or the device is asked for something and keeps
what it has signed, or it is released. -/
inductive Moves {store : KeyStore} (id : TxId) (place after : CallPlace)
    (session next : InProcess store.Key) : Prop where
  | rests (hSession : next = session)
      (hPlace : after = place ∨ place = .waiting ∧ ¬ after.Collects)
  | asks (hPlace : place.Asks)
      (hQuiet : next.commands ≠ Instruction.txComplete.command [] :: session.commands)
      (hKeeps : ∀ other, session.HasSigned other → next.HasSigned other)
      (hCollects : after.Collects →
        next.HasSigned id ∨ place = .fetching ∧ (session.Idles → next.Idles))
  | releases (hIdles : next.Idles)
      (hPlace : place = .releasing ∧ after = .ended (.error .userTimeout) ∨
        place = .finishing ∧ ∃ result, after = .ended result)

section Moves

variable {store : KeyStore} {script : Nat → Incident} {session : InProcess store.Key}
  {id : TxId} {limit : Nat} {place : CallPlace}

theorem hasPhase_perform {budget : Option Nat} (commands : List Bytes) (waited : Nat)
    (hAttended : ∀ number, (script number).Attended limit) (hPhase : session.HasPhase) :
    ((link store script).perform limit budget commands waited [] session).2.HasPhase :=
  Link.perform_keeps HasPhase waited []
    (fun _ _ _ hPhase => hPhase.exchange (hAttended _).toFaultless) hPhase

/-- A request that does not release the device. -/
theorem Moves.of_perform {instruction : Instruction} {payload : Bytes} {budget : Option Nat}
    {waited : Nat} {outcome : Outcome} {after : CallPlace} {next : InProcess store.Key}
    (hAttended : ∀ number, (script number).Attended limit) (hPlace : place.Asks)
    (hOther : instruction ≠ .txComplete)
    (hPerform : (link store script).perform limit budget (instruction.commands payload) waited []
      session = (outcome, next))
    (hCollects : after.Collects →
      next.HasSigned id ∨ place = .fetching ∧ (session.Idles → next.Idles)) :
    Moves id place after session next := by
  refine .asks hPlace ?_ ?_ hCollects
  · intro hRelease
    obtain ⟨sent, hSent, hCommands⟩ := exists_commands_perform session script limit budget
      (instruction.commands payload) waited
    rw [hPerform, hRelease, ← List.singleton_append] at hCommands
    obtain rfl := List.append_cancel_right hCommands
    exact ne_txComplete_of_mem_commands hOther (hSent _ List.mem_cons_self)
      DeviceHandle.eventOfCommand_txComplete
  · intro other hSigned
    have hKept : ((link store script).perform limit budget (instruction.commands payload) waited []
        session).2.HasSigned other := by
      refine Link.perform_keeps (fun after : InProcess store.Key => after.HasSigned other) waited []
        ?_ hSigned
      exact fun state command hMem hSigned => hSigned.exchange (hAttended _)
        (ne_txComplete_of_mem_commands hOther hMem)
    rw [hPerform] at hKept
    exact hKept

/-- A request that releases the device. -/
theorem idles_of_perform_txComplete {waited : Nat} {outcome : Outcome} {next : InProcess store.Key}
    (hAttended : ∀ number, (script number).Attended limit) (hPhase : session.HasPhase)
    (hPerform : (link store script).perform limit none [Instruction.txComplete.command []] waited []
      session = (outcome, next)) : next.Idles := by
  obtain ⟨found, middle, hFound, hPasses, -⟩ := exists_perform_single none waited
    (hAttended session.exchanges.length).toFaultless DeviceHandle.eventOfCommand_txComplete
  obtain ⟨rfl, rfl⟩ := Prod.mk.inj (hFound.symm.trans hPerform)
  exact hPasses.idles (hAttended _) hPhase

theorem idles_of_perform_txGetSignature {waited : Nat} {outcome : Outcome}
    {next : InProcess store.Key} (hAttended : ∀ number, (script number).Attended limit)
    (hIdles : session.Idles)
    (hPerform : (link store script).perform limit none [Instruction.txGetSignature.command []]
      waited [] session = (outcome, next)) : next.Idles := by
  obtain ⟨found, middle, hFound, hPasses, -⟩ := exists_perform_single none waited
    (hAttended session.exchanges.length).toFaultless DeviceHandle.eventOfCommand_txGetSignature
  obtain ⟨rfl, rfl⟩ := Prod.mk.inj (hFound.symm.trans hPerform)
  exact hPasses.idles_of_idles (hAttended _) hIdles

/-- A poll that hears of a signature. -/
theorem hasSigned_of_perform {budget : Option Nat} {waited time : Nat} {data : Bytes}
    {info : TxInfo} {next : InProcess store.Key}
    (hAttended : ∀ number, (script number).Attended limit) (hPhase : session.HasPhase)
    (hPerform : (link store script).perform limit budget [Instruction.txGetInfo.command []] waited
      [] session = (.ended (.ok data) time, next))
    (hRead : (DeviceHandle.readMessage data : Except HostError TxInfo) = .ok info)
    (hState : info.state = .signed) : next.HasSigned info.txId := by
  obtain ⟨found, middle, hFound, hPasses, hTold⟩ := exists_perform_single budget waited
    (hAttended session.exchanges.length).toFaultless DeviceHandle.eventOfCommand_txGetInfo
  obtain ⟨rfl, rfl⟩ := Prod.mk.inj (hFound.symm.trans hPerform)
  obtain hAnswer : Except.ok data = Except.ok (session.awaiting script).report.data := by
    rcases hTold with hTold | ⟨hExpired, -⟩
    · exact hTold
    · cases hExpired
  cases hAnswer
  have hInfo : (session.awaiting script).info = info :=
    Except.ok.inj ((readMessage_state _ _).symm.trans hRead)
  subst hInfo
  exact hPasses.hasSigned (hAttended _) hPhase hState

/-- What the request of a place does to the device, and where the call goes on from there. -/
theorem exists_moves_request {commands : List Bytes} {budget : Option Nat} (waited : Nat)
    {follows : Outcome → CallPlace → Prop}
    (hAttended : ∀ number, (script number).Attended limit) (hPhase : session.HasPhase)
    (hSends : place.Sends id commands budget)
    (hNext : ∀ outcome, place.Allows id outcome →
      ∃ after, CallPlace.Leads id place outcome after ∧ follows outcome after) :
    let performed := (link store script).perform limit budget commands waited [] session
    ∃ after, follows performed.1 after ∧ Moves id place after session performed.2 := by
  have hFaultless (number : Nat) : (script number).Faultless limit := (hAttended number).toFaultless
  rcases hPerform : (link store script).perform limit budget commands waited [] session with
    ⟨outcome, next⟩
  dsimp only
  cases place with
  | starting =>
      obtain ⟨rfl, request, -, rfl⟩ := hSends
      obtain ⟨after, hLeads, hFollows⟩ := hNext outcome trivial
      refine ⟨after, hFollows, .of_perform hAttended trivial (by simp) hPerform ?_⟩
      cases hLeads with
      | opens => exact False.elim
      | ends => exact False.elim
  | opening =>
      obtain ⟨rfl, hOpens⟩ := hSends
      have hAllows := allows_perform_opens waited hFaultless hPhase hOpens
      rw [hPerform] at hAllows
      obtain ⟨after, hLeads, hFollows⟩ := hNext outcome hAllows
      have hCollects : ¬ after.Collects := by
        cases hLeads with
        | waits => exact not_false
        | ends => exact not_false
      cases hOpens with
      | hash path =>
          exact ⟨after, hFollows, .of_perform hAttended trivial (by simp) hPerform
            fun hAfter => absurd hAfter hCollects⟩
      | transaction hDecode hLength =>
          exact ⟨after, hFollows, .of_perform hAttended trivial (by simp) hPerform
            fun hAfter => absurd hAfter hCollects⟩
  | waiting =>
      obtain rfl : commands = [Instruction.txGetInfo.command []] := hSends
      obtain ⟨after, hLeads, hFollows⟩ := hNext outcome trivial
      have hSigned (hAfter : after.Collects) : next.HasSigned id := by
        cases hLeads with
        | asks => exact hAfter.elim
        | givesUp => exact hAfter.elim
        | ends => exact hAfter.elim
        | fetches hRead hState hTxId =>
            exact hTxId ▸ hasSigned_of_perform hAttended hPhase hPerform hRead hState
      rw [← Instruction.commands_of_le (by simp)] at hPerform
      exact ⟨after, hFollows, .of_perform hAttended trivial (by simp) hPerform fun hAfter =>
        .inl (hSigned hAfter)⟩
  | releasing =>
      obtain ⟨rfl, rfl⟩ := hSends
      obtain ⟨after, hLeads, hFollows⟩ := hNext outcome trivial
      refine ⟨after, hFollows, .releases (idles_of_perform_txComplete hAttended hPhase hPerform) ?_⟩
      cases hLeads with
      | releases => exact .inl ⟨rfl, rfl⟩
      | ends hPlace => exact absurd rfl hPlace
  | fetching =>
      obtain ⟨rfl, rfl⟩ := hSends
      obtain ⟨after, hLeads, hFollows⟩ := hNext outcome trivial
      have hIdles (hBefore : session.Idles) : next.Idles :=
        idles_of_perform_txGetSignature hAttended hBefore hPerform
      rw [← Instruction.commands_of_le (by simp)] at hPerform
      exact ⟨after, hFollows, .of_perform hAttended trivial (by simp) hPerform fun _ =>
        .inr ⟨rfl, hIdles⟩⟩
  | finishing =>
      obtain ⟨rfl, rfl⟩ := hSends
      obtain ⟨after, hLeads, hFollows⟩ := hNext outcome trivial
      refine ⟨after, hFollows, .releases (idles_of_perform_txComplete hAttended hPhase hPerform) ?_⟩
      cases hLeads with
      | ends => exact .inr ⟨rfl, _, rfl⟩
  | ended result => exact hSends.elim

/-- One turn of a call leads from place to place. -/
theorem exists_moves {call : Dialogue (Except HostError SignedTx)} (waited : Nat)
    (hAttended : ∀ number, (script number).Attended limit) (hPhase : session.HasPhase)
    (hStands : call.Stands id limit place) :
    let moved := call.step (link store script) waited session
    ∃ after, moved.1.Stands id limit after ∧ moved.2.HasPhase ∧
      Moves id place after session moved.2 := by
  cases call with
  | done result => exact ⟨place, hStands, hPhase, .rests rfl (.inl rfl)⟩
  | wait time next => exact ⟨place, hStands, hPhase, .rests rfl (.inl rfl)⟩
  | request commands most budget next =>
      obtain ⟨rfl, hSends, hNext⟩ := hStands
      dsimp only
      rw [Dialogue.step]
      split
      · obtain ⟨after, hAfter, hMoves⟩ :=
          exists_moves_request waited hAttended hPhase hSends hNext
        exact ⟨after, hAfter, hasPhase_perform commands waited hAttended hPhase, hMoves⟩
      · next hLate =>
          -- Only while the user decides, the time can run out.
          have hWaiting : place = .waiting := by
            cases place with
            | waiting => rfl
            | ended result => exact hSends.elim
            | starting | opening | releasing | fetching | finishing =>
                obtain ⟨rfl, -⟩ := hSends
                exact absurd rfl hLate
          subst hWaiting
          obtain ⟨after, hLeads, hAfter⟩ := hNext .expired trivial
          refine ⟨after, hAfter, hPhase, .rests rfl (.inr ⟨rfl, ?_⟩)⟩
          cases hLeads with
          | asks => exact not_false
          | givesUp => exact not_false
          | ends => exact not_false

end Moves

namespace Clones

variable {store : KeyStore} {script : Nat → Incident} {ids : Bool → TxId} {limit : Nat}
  {places : Bool → CallPlace} {clones : Clones store.Key}

/-- Each call stands at its place. For a call that collects its signature the device has that, or
it has no request any more and the other call has ended. -/
structure Consistent (ids : Bool → TxId) (limit : Nat) (places : Bool → CallPlace)
    (clones : Clones store.Key) : Prop where
  phase : clones.session.HasPhase
  stands : ∀ side, (clones.calls side).Stands (ids side) limit (places side)
  collects : ∀ side, (places side).Collects → clones.session.HasSigned (ids side) ∨
    clones.session.Idles ∧ ∃ result, places (!side) = .ended result

/-- A turn of the call itself. -/
theorem collects_of_moves {place after other : CallPlace} {id : TxId}
    {session next : InProcess store.Key} (hMoves : Moves id place after session next)
    (hBefore : place.Collects → session.HasSigned id ∨
      session.Idles ∧ ∃ result, other = .ended result)
    (hCollects : after.Collects) :
    next.HasSigned id ∨ next.Idles ∧ ∃ result, other = .ended result := by
  cases hMoves with
  | rests hSession hPlace =>
      rcases hPlace with rfl | ⟨-, hNot⟩
      · exact hSession ▸ hBefore hCollects
      · exact absurd hCollects hNot
  | asks hPlace hQuiet hKeeps hAfter =>
      rcases hAfter hCollects with hSigned | ⟨rfl, hIdles⟩
      · exact .inl hSigned
      · exact (hBefore trivial).imp (hKeeps id) fun hEnded => ⟨hIdles hEnded.1, hEnded.2⟩
  | releases hIdles hPlace =>
      rcases hPlace with ⟨-, rfl⟩ | ⟨-, result, rfl⟩
      · exact hCollects.elim
      · exact hCollects.elim

/-- A turn of the other call. -/
theorem collects_of_moves_other {place after : CallPlace} {id own : TxId}
    {session next : InProcess store.Key} (hMoves : Moves id place after session next)
    (hBefore : session.HasSigned own ∨ session.Idles ∧ ∃ result, place = .ended result) :
    next.HasSigned own ∨ next.Idles ∧ ∃ result, after = .ended result := by
  cases hMoves with
  | rests hSession hPlace =>
      subst hSession
      refine hBefore.imp_right fun ⟨hIdles, result, hEnded⟩ => ⟨hIdles, result, ?_⟩
      rcases hPlace with rfl | ⟨hWaiting, -⟩
      · exact hEnded
      · rw [hEnded] at hWaiting
        cases hWaiting
  | asks hPlace hQuiet hKeeps hAfter =>
      rcases hBefore with hSigned | ⟨-, result, rfl⟩
      · exact .inl (hKeeps own hSigned)
      · exact hPlace.elim
  | releases hIdles hPlace =>
      rcases hPlace with ⟨-, rfl⟩ | ⟨-, result, rfl⟩
      · exact .inr ⟨hIdles, _, rfl⟩
      · exact .inr ⟨hIdles, _, rfl⟩

/-- Each turn leads from consistent places to consistent places. -/
theorem Consistent.exists_turn (last : Turn)
    (hAttended : ∀ number, (script number).Attended limit)
    (hConsistent : Consistent ids limit places clones) :
    let next := clones.turn store script last
    ∃ after, Consistent ids limit (fun side => if side = last.side then after else places side)
        next ∧
      Moves (ids last.side) (places last.side) after clones.session next.session := by
  obtain ⟨after, hStands, hPhase, hMoves⟩ := exists_moves last.waited hAttended
    hConsistent.phase (hConsistent.stands last.side)
  refine ⟨after, ⟨hPhase, fun side => ?_, fun side hCollects => ?_⟩, hMoves⟩
  · by_cases hSide : side = last.side
    · simp only [turn, if_pos hSide]
      exact hSide ▸ hStands
    · simp only [turn, if_neg hSide]
      exact hConsistent.stands side
  · by_cases hSide : side = last.side
    · subst hSide
      have hOther : ¬ (!last.side) = last.side := by simp
      simp only [if_true] at hCollects
      simp only [if_neg hOther]
      exact collects_of_moves hMoves (hConsistent.collects last.side) hCollects
    · have hOther : (!side) = last.side := by
        cases side <;> cases hLast : last.side <;> simp_all
      simp only [if_neg hSide] at hCollects
      simp only [if_pos hOther]
      have hBefore := hConsistent.collects side hCollects
      rw [hOther] at hBefore
      exact collects_of_moves_other hMoves hBefore

/-- By induction on the turns. -/
theorem Consistent.exists_play (turns : List Turn)
    (hAttended : ∀ number, (script number).Attended limit)
    (hConsistent : Consistent ids limit places clones) :
    ∃ places, Consistent ids limit places (clones.play store script turns) := by
  induction turns generalizing clones places with
  | nil => exact ⟨places, hConsistent⟩
  | cons first rest ih =>
      obtain ⟨after, hNext, -⟩ := hConsistent.exists_turn first hAttended
      exact ih hNext

/-- Two calls at their beginning, and a device in any state that it can reach. -/
def start (calls : Bool → HostCall SignedTx) (operations : List Operation)
    (exchanges : List Exchange) : Clones store.Key :=
  ⟨fun side => (calls side).run, ⟨after store operations, exchanges⟩⟩

theorem consistent_start {handle : DeviceHandle} {calls : Bool → HostCall SignedTx}
    (hSigns : ∀ side, handle.Signs (ids side) (calls side)) (operations : List Operation)
    (exchanges : List Exchange) :
    Consistent ids handle.limit (fun _ => .starting)
      (start calls operations exchanges : Clones store.Key) where
  phase := by
    obtain ⟨phase, run⟩ := exists_run store operations
    exact ⟨phase, run.after_eq⟩
  stands side := (hSigns side).stands
  collects _ hCollects := hCollects.elim

/-- Two calls sign different requests on one device, with turns in any order and decisions of the
user in between. Where one of them releases the device while that has the request of the other one
under review, or has signed it, the time of its own user has run out: it ends with that error. -/
theorem cancels_only_expired (store : KeyStore) (operations : List Operation)
    (exchanges : List Exchange) (script : Nat → Incident) (handle : DeviceHandle)
    (calls : Bool → HostCall SignedTx) (ids : Bool → TxId) (turns : List Turn) (last : Turn)
    (hSigns : ∀ side, handle.Signs (ids side) (calls side)) (hIds : ids false ≠ ids true)
    (hAttended : ∀ number, (script number).Attended handle.limit)
    (hCancels : Cancels store script
      ((start calls operations exchanges).play store script turns) last (ids !last.side)) :
    let ended := (((start calls operations exchanges).play store script turns).turn store script
      last).calls last.side
    ∀ (link : Link (InProcess store.Key)) session,
      ended.run link session = (.error .userTimeout, session) := by
  intro ended link session
  obtain ⟨places, hConsistent⟩ :=
    (consistent_start hSigns operations exchanges).exists_play turns hAttended
  obtain ⟨after, hNext, hMoves⟩ := hConsistent.exists_turn last hAttended
  obtain ⟨hRelease, hReviewed, hTxId⟩ := hCancels
  cases hMoves with
  | rests hSession hPlace =>
      rw [hSession] at hRelease
      exact absurd hRelease.symm (List.cons_ne_self _ _)
  | asks hPlace hQuiet hKeeps hCollects => exact absurd hRelease hQuiet
  | releases hIdles hPlace =>
      rcases hPlace with ⟨-, rfl⟩ | ⟨hFinishing, -⟩
      · have hEnded := hNext.stands last.side
        simp only [if_true] at hEnded
        exact hEnded.run_eq link session
      · -- The request that is released is the one of the call itself.
        have hCollects : (places last.side).Collects := hFinishing ▸ trivial
        rcases hConsistent.collects last.side hCollects with hSigned | ⟨hNone, -⟩
        · obtain ⟨request, step, signature, hId, hEngine⟩ := hSigned
          rw [awaiting_of_attended (hAttended _) Phase.settled_signed hEngine] at hTxId
          have hSame : ids last.side = ids !last.side := hId.symm.trans hTxId
          cases hSide : last.side <;> rw [hSide] at hSame
          · exact absurd hSame hIds
          · exact absurd hSame.symm hIds
        · obtain ⟨state, txId, hIdle, hEngine⟩ := hNone
          rw [awaiting_of_attended (hAttended _) Phase.settled_idle hEngine,
            Phase.isReviewed_iff] at hReviewed
          exact hReviewed.elim

/-- The user refuses the first request that is opened. -/
def deniesFirst (number : Nat) : Incident :=
  { Incident.none with after := if number = 1 then [.deny] else [] }

theorem deniesFirst_attended (limit number : Nat) : (deniesFirst number).Attended limit where
  answer_eq := rfl
  flip_eq := rfl
  arrives := rfl
  delay_le := Nat.zero_le limit
  decides_before := by simp [deniesFirst, Incident.none]
  decides_after := by
    intro act hAct
    change act ∈ (if number = 1 then [DeviceAct.deny] else []) at hAct
    split at hAct
    · exact .inr (List.mem_singleton.1 hAct)
    · exact absurd hAct List.not_mem_nil

/-- Two hashes. -/
def twoHashes (side : Bool) : TxId := FixedBytes.bigEndian 32 side.toNat

/-- Each of the hashes is to be signed within a second. -/
def signsHashes (side : Bool) : HostCall SignedTx :=
  DeviceHandle.standard.signHash firstAccount (twoHashes side) 1000

theorem signs_signsHashes (side : Bool) :
    DeviceHandle.standard.Signs (twoHashes side) (signsHashes side) := .hash _ _

/-- One call opens its request, which is refused, and the other one opens its own. The first call
asks how far its request has come, sees that something is under review, pauses, and then waits for
the channel until its time has run out. -/
def takesTurns : List Turn :=
  [⟨false, 0⟩, ⟨false, 0⟩, ⟨true, 0⟩, ⟨true, 0⟩, ⟨false, 0⟩, ⟨false, 0⟩, ⟨false, 751⟩]

theorem engine_takesTurns :
    let clones := (start signsHashes [] []).play oneKey deniesFirst takesTurns
    let next := clones.turn oneKey deniesFirst ⟨false, 0⟩
    clones.session.engine.state = .review 0 ∧ clones.session.engine.txId = twoHashes true ∧
      next.session.engine.state = .complete ∧
      next.session.commands =
        Instruction.txComplete.command [] :: clones.session.commands := by
  decide +kernel

theorem cancels_takesTurns :
    Cancels oneKey deniesFirst ((start signsHashes [] []).play oneKey deniesFirst takesTurns)
      ⟨false, 0⟩ (twoHashes true) :=
  ⟨engine_takesTurns.2.2.2, .inl ⟨0, engine_takesTurns.1⟩, engine_takesTurns.2.1⟩

theorem cancels_only_expired_takesTurns :
    let clones := (start signsHashes [] []).play oneKey deniesFirst takesTurns
    let ended := (clones.turn oneKey deniesFirst ⟨false, 0⟩).calls false
    (∀ side, DeviceHandle.standard.Signs (twoHashes side) (signsHashes side)) ∧
      twoHashes false ≠ twoHashes true ∧
      (∀ number, (deniesFirst number).Attended DeviceHandle.standard.limit) ∧
      Cancels oneKey deniesFirst clones ⟨false, 0⟩ (twoHashes true) ∧
      ∀ (link : Link (InProcess oneKey.Key)) session,
        ended.run link session = (.error .userTimeout, session) :=
  ⟨signs_signsHashes, by decide, deniesFirst_attended _, cancels_takesTurns,
    cancels_only_expired oneKey [] [] deniesFirst DeviceHandle.standard signsHashes twoHashes
      takesTurns ⟨false, 0⟩ signs_signsHashes (by decide) (deniesFirst_attended _)
      cancels_takesTurns⟩

/-- The first call releases the device while the user looks at the request of the other one. -/
theorem cancels_other :
    let clones := (start signsHashes [] []).play oneKey deniesFirst takesTurns
    (∀ side, DeviceHandle.standard.Signs (twoHashes side) (signsHashes side)) ∧
      twoHashes false ≠ twoHashes true ∧
      (∀ number, (deniesFirst number).Attended DeviceHandle.standard.limit) ∧
      clones.session.engine.state = .review 0 ∧ clones.session.engine.txId = twoHashes true ∧
      Cancels oneKey deniesFirst clones ⟨false, 0⟩ (twoHashes true) ∧
      (clones.turn oneKey deniesFirst ⟨false, 0⟩).session.engine.state = .complete :=
  ⟨signs_signsHashes, by decide, deniesFirst_attended _, engine_takesTurns.1,
    engine_takesTurns.2.1, cancels_takesTurns, engine_takesTurns.2.2.1⟩

end Clones

end ColdSigner
