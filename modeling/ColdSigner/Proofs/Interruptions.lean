import ColdSigner.Proofs.HonestExchanges
/-!
# What happens between exchanges

Between two exchanges the user decides, the device may be switched off, and the channel may be
closed. `Engine.Phase.Remains` is what can become of a phase by that: it ends, or it goes on with
the same request. Waiting for the user ends with a verdict on such a phase, or in a timeout
(`DeviceHandle.ends_poll`).
-/
namespace ColdSigner

namespace Engine

variable {store : KeyStore}

/-- What can become of a phase while the host sends nothing. -/
inductive Phase.Remains (store : KeyStore) : Phase store.Key → Phase store.Key → Prop where
  | ended {phase : Phase store.Key} {state : EngineState} {txId : TxId}
      {hIdle : state.isBusy = false} : Remains store phase (.idle state txId hIdle)
  | waits {parts : UInt16} {message : PartialMessage} :
      Remains store (.loading parts message) (.loading parts message)
  | continues {phase next : Phase store.Key} (hContinues : phase.Continues store next) :
      Remains store phase next

namespace Phase.Remains

theorem refl (phase : Phase store.Key) : phase.Remains store phase := by
  cases phase with
  | idle state txId hIdle => exact .ended
  | loading parts message => exact .waits
  | review key request place step => exact .continues .review
  | signed request step signature => exact .continues .signed

theorem trans {first middle last : Phase store.Key} (hFirst : first.Remains store middle)
    (hLast : middle.Remains store last) : first.Remains store last := by
  cases hLast with
  | ended => exact .ended
  | waits => exact hFirst
  | continues hContinues =>
      cases hFirst with
      | ended => cases hContinues
      | waits => cases hContinues
      | continues hBefore => exact .continues (hBefore.trans hContinues)

/-- A device without a request stays without one. -/
theorem eq_idle {state : EngineState} {txId : TxId} {hIdle : state.isBusy = false}
    {next : Phase store.Key} (hRemains : (Phase.idle state txId hIdle).Remains store next) :
    ∃ after id hAfter, next = .idle after id hAfter := by
  cases hRemains with
  | ended => exact ⟨_, _, _, rfl⟩
  | continues hContinues => cases hContinues

end Phase.Remains

/-- An operation of nobody but the user and the channel starts no request. -/
theorem Step.remains {phase next : Phase store.Key} {operation : Operation}
    (last : Step store phase operation next)
    (hLocal : operation.event? = none ∨ operation.event? = some .disconnect) :
    phase.Remains store next := by
  have hNone {event : Event} (hEvent : operation.event? = some event)
      (hOther : event ≠ .disconnect) : False := by
    rcases hLocal with hLocal | hLocal
    · rw [hLocal] at hEvent
      cases hEvent
    · exact hOther (Option.some.inj (hEvent.symm.trans hLocal))
  cases last with
  | stop hIdle => exact .ended
  | showAddress hEvent hDerive => exact (hNone hEvent (by simp)).elim
  | showHash hEvent hDerive => exact (hNone hEvent (by simp)).elim
  | loadFirst hEvent => exact (hNone hEvent (by simp)).elim
  | loadOnly hEvent hLength hRequest => exact (hNone hEvent (by simp)).elim
  | loadMore hEvent hSeq => exact (hNone hEvent (by simp)).elim
  | loadLast hEvent hSeq hLength hRequest => exact (hNone hEvent (by simp)).elim
  | wait hPart => exact .waits
  | look hApprove hDeny hKeeps => exact .continues .review
  | accept hNext => exact .continues .review
  | sign hLast hSubject hSign => exact .continues (.signs hSign)
  | keep hKeeps => exact .continues .signed

theorem exists_remains_perform (phase : Phase store.Key) (operation : Operation)
    (hLocal : operation.event? = none ∨ operation.event? = some .disconnect) :
    ∃ next, perform store phase.engine operation = next.engine ∧ phase.Remains store next := by
  obtain ⟨next, hPerform, last⟩ := exists_step phase operation
  exact ⟨next, hPerform, last.remains hLocal⟩

theorem exists_remains_repeat (phase : Phase store.Key) (count : Nat) :
    ∃ next, count.repeat (fun engine => approve store engine) phase.engine = next.engine ∧
      phase.Remains store next := by
  induction count with
  | zero => exact ⟨phase, rfl, .refl phase⟩
  | succ count ih =>
      obtain ⟨middle, hMiddle, hFirst⟩ := ih
      obtain ⟨next, hNext, hLast⟩ := exists_remains_perform middle .approve (.inl rfl)
      refine ⟨next, ?_, hFirst.trans hLast⟩
      rw [Nat.repeat, hMiddle]
      exact hNext

theorem exists_remains_apply (phase : Phase store.Key) (act : DeviceAct) :
    ∃ next, act.apply store phase.engine = next.engine ∧ phase.Remains store next := by
  cases act with
  | approve => exact exists_remains_perform phase .approve (.inl rfl)
  | approveAll => exact exists_remains_repeat phase _
  | deny => exact exists_remains_perform phase .deny (.inl rfl)
  | disconnect => exact exists_remains_perform phase .disconnect (.inr rfl)
  | reset => exact exists_remains_perform phase .reset (.inl rfl)

/-- Whatever the user and the channel do to a device. -/
theorem exists_remains_acted (phase : Phase store.Key) (acts : List DeviceAct) :
    ∃ next, phase.engine.acted store acts = next.engine ∧ phase.Remains store next := by
  induction acts generalizing phase with
  | nil => exact ⟨phase, rfl, .refl phase⟩
  | cons act rest ih =>
      obtain ⟨middle, hMiddle, hFirst⟩ := exists_remains_apply phase act
      obtain ⟨next, hNext, hLast⟩ := ih middle
      refine ⟨next, ?_, hFirst.trans hLast⟩
      rw [acted, List.foldl_cons, hMiddle]
      exact hNext

end Engine

namespace InProcess

open Engine

variable {store : KeyStore} {script : Nat → Incident} {session next : InProcess store.Key}
  {phase : Phase store.Key}

/-- Since the device was in this phase, no command has changed anything. -/
def Since (session : InProcess store.Key) (phase : Phase store.Key) : Prop :=
  ∃ current, phase.Remains store current ∧ session.engine = current.engine

theorem Since.exists_awaiting (hSince : session.Since phase) (script : Nat → Incident) :
    ∃ current, phase.Remains store current ∧ session.awaiting script = current.engine := by
  obtain ⟨before, hBefore, hEngine⟩ := hSince
  obtain ⟨current, hCurrent, hRemains⟩ :=
    exists_remains_acted before (session.incident script).before
  refine ⟨current, hBefore.trans hRemains, ?_⟩
  rw [awaiting, hEngine, hCurrent]

theorem Passes.since {command : Bytes} {event : Event}
    (hPasses : session.Passes script command event next)
    (hUpdate : ((session.awaiting script).update store event).2 = phase.engine) :
    next.Since phase := by
  obtain ⟨current, hCurrent, hRemains⟩ :=
    exists_remains_acted phase (session.incident script).after
  exact ⟨current, hRemains, by rw [hPasses.engine_eq, hUpdate, hCurrent]⟩

theorem Since.trans {middle : Phase store.Key} (hSince : session.Since middle)
    (hRemains : phase.Remains store middle) : session.Since phase := by
  obtain ⟨current, hCurrent, hEngine⟩ := hSince
  exact ⟨current, hRemains.trans hCurrent, hEngine⟩

end InProcess

namespace DeviceHandle

open Engine InProcess

variable {store : KeyStore} {script : Nat → Incident} {session : InProcess store.Key}
  {phase : Phase store.Key} {handle : DeviceHandle}

/-- A command finds a device in a phase that came of the last one that is known. -/
theorem ends_request {instruction : Instruction} {payload : Bytes} {event : Event}
    {ok : Bytes → InProcess store.Key → Prop} {fail : HostError → InProcess store.Key → Prop}
    (hFaultless : ∀ number, (script number).Faultless handle.limit)
    (hPayload : payload.length ≤ maxChunkData)
    (hParse : Event.parse ⟨instruction.code, 0, false, payload⟩ = .ok event)
    (hSince : session.Since phase)
    (hPost : ∀ current next, phase.Remains store current →
      (∀ after : Phase store.Key, (current.engine.update store event).2 = after.engine →
        next.Since after) →
      HostCall.Meets ok fail (heard (current.engine.update store event).1) next) :
    HostCall.Ends (link store script) (handle.request instruction.code payload) session ok
      fail := by
  obtain ⟨current, hRemains, hAwaiting⟩ := hSince.exists_awaiting script
  obtain ⟨next, hPasses, hRun⟩ := exists_run_request (hFaultless _) hPayload hParse
  rw [hAwaiting] at hRun
  refine HostCall.ends_of_run hRun (hPost current next hRemains ?_)
  intro after hUpdate
  rw [← hAwaiting] at hUpdate
  exact hPasses.since hUpdate

theorem ends_ask {α : Type} [Message α] {instruction : Instruction} {event : Event}
    {ok : α → InProcess store.Key → Prop} {fail : HostError → InProcess store.Key → Prop}
    (hFaultless : ∀ number, (script number).Faultless handle.limit)
    (hParse : Event.parse ⟨instruction.code, 0, false, []⟩ = .ok event)
    (hSince : session.Since phase)
    (hPost : ∀ current next, phase.Remains store current →
      (∀ after : Phase store.Key, (current.engine.update store event).2 = after.engine →
        next.Since after) →
      HostCall.Meets ok fail ((heard (current.engine.update store event).1).bind readMessage)
        next) :
    HostCall.Ends (link store script) (handle.ask instruction) session ok fail := by
  obtain ⟨current, hRemains, hAwaiting⟩ := hSince.exists_awaiting script
  obtain ⟨next, hPasses, hRun⟩ := exists_run_ask (α := α) (hFaultless _) hParse
  rw [hAwaiting] at hRun
  refine HostCall.ends_of_run hRun (hPost current next hRemains ?_)
  intro after hUpdate
  rw [← hAwaiting] at hUpdate
  exact hPasses.since hUpdate

/-- While the user decides, the host asks and asks. It ends with the verdict on a phase that
came of the first one, or the time of the user runs out. -/
theorem ends_poll {verdict : TxInfo → Option (Except HostError Unit)} {budget : Nat}
    {ok : Unit → InProcess store.Key → Prop} {fail : HostError → InProcess store.Key → Prop}
    (hFaultless : ∀ number, (script number).Faultless handle.limit)
    (hSince : session.Since phase)
    (hTimeout : ∀ next, next.Since phase → fail .userTimeout next)
    (hVerdict : ∀ current result next, phase.Remains store current →
      verdict current.engine.info = some result → next.Since current →
        HostCall.Meets ok fail result next) :
    HostCall.Ends (link store script) (handle.poll verdict budget) session ok fail := by
  induction budget using Nat.strongRecOn generalizing session with
  | ind budget ih =>
      obtain ⟨current, hRemains, hAwaiting⟩ := hSince.exists_awaiting script
      obtain ⟨next, hPasses, hRun⟩ := exists_run_poll_round verdict budget (hFaultless _)
      have hCurrent : next.Since current := hPasses.since hAwaiting
      have hNext : next.Since phase := hCurrent.trans hRemains
      rw [HostCall.Ends, hRun, hAwaiting]
      dsimp only
      split
      · cases hInfo : verdict current.engine.info with
        | some result => exact hVerdict current result next hRemains hInfo hCurrent
        | none =>
            dsimp only
            split
            · next hRound => exact ih _ (by simp only [pollInterval] at *; omega) hNext
            · exact hTimeout next hNext
      · exact hTimeout next hNext

end DeviceHandle

end ColdSigner
