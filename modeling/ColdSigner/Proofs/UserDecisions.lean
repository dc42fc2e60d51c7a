import ColdSigner.Proofs.EngineInvariant
import ColdSigner.Proofs.HonestExchanges
/-!
# What the user decides

While nothing else happens, a request under review is signed once the user has approved all of
its steps, it is rejected where the user refuses before that, and otherwise it stays under review
(`Engine.exists_decided`). A host that asks again and again sees that at the first question
behind the decision (`DeviceHandle.exists_run_poll`).
-/
namespace ColdSigner

/-- The user approves or refuses one step. -/
def DeviceAct.IsDecision (act : DeviceAct) : Prop := act = .approve ∨ act = .deny

/-- Beside the exchange there are only decisions of the user, and the answer comes at once. -/
structure Incident.Quiet (incident : Incident) : Prop where
  faultless : incident.Faultless 0
  decides_before : ∀ act ∈ incident.before, act.IsDecision
  decides_after : ∀ act ∈ incident.after, act.IsDecision

theorem Incident.Quiet.faultless_of {incident : Incident} (hQuiet : incident.Quiet)
    (limit : Nat) : incident.Faultless limit :=
  { hQuiet.faultless with
    delay_le := Nat.le_trans hQuiet.faultless.delay_le (Nat.zero_le limit) }

/-- There are so many approvals, and no refusal before the last of them. -/
def Approves (steps : Nat) (acts : List DeviceAct) : Prop :=
  ∃ seen, seen <+: acts ∧ .deny ∉ seen ∧ steps ≤ seen.count .approve

/-- There is a refusal, and before it fewer approvals than that. -/
def Refuses (steps : Nat) (acts : List DeviceAct) : Prop :=
  ∃ seen, seen ++ [.deny] <+: acts ∧ seen.count .approve < steps

section Acts

variable {steps : Nat} {acts : List DeviceAct}

theorem approves_zero (acts : List DeviceAct) : Approves 0 acts :=
  ⟨[], List.nil_prefix, List.not_mem_nil, Nat.zero_le _⟩

theorem not_approves_nil : ¬ Approves (steps + 1) [] := by
  rintro ⟨seen, hSeen, -, hCount⟩
  rw [List.prefix_nil.1 hSeen] at hCount
  exact absurd hCount (Nat.not_succ_le_zero steps)

theorem approves_approve : Approves (steps + 1) (.approve :: acts) ↔ Approves steps acts := by
  constructor
  · rintro ⟨seen, hSeen, hDeny, hCount⟩
    rcases List.prefix_cons_iff.1 hSeen with rfl | ⟨rest, rfl, hRest⟩
    · exact absurd hCount (Nat.not_succ_le_zero steps)
    · rw [List.count_cons_self] at hCount
      exact ⟨rest, hRest, fun hMem => hDeny (List.mem_cons_of_mem _ hMem),
        Nat.le_of_succ_le_succ hCount⟩
  · rintro ⟨seen, hSeen, hDeny, hCount⟩
    refine ⟨.approve :: seen, List.cons_prefix_cons.2 ⟨rfl, hSeen⟩, by simpa using hDeny, ?_⟩
    rw [List.count_cons_self]
    exact Nat.succ_le_succ hCount

theorem not_approves_deny : ¬ Approves (steps + 1) (.deny :: acts) := by
  rintro ⟨seen, hSeen, hDeny, hCount⟩
  rcases List.prefix_cons_iff.1 hSeen with rfl | ⟨rest, rfl, -⟩
  · exact absurd hCount (Nat.not_succ_le_zero steps)
  · exact hDeny List.mem_cons_self

theorem not_refuses_zero (acts : List DeviceAct) : ¬ Refuses 0 acts := by
  rintro ⟨seen, -, hCount⟩
  exact Nat.not_lt_zero _ hCount

theorem not_refuses_nil : ¬ Refuses steps [] := by
  rintro ⟨seen, hSeen, -⟩
  simp at hSeen

theorem refuses_approve : Refuses (steps + 1) (.approve :: acts) ↔ Refuses steps acts := by
  constructor
  · rintro ⟨seen, hSeen, hCount⟩
    cases seen with
    | nil =>
        obtain ⟨hAct, -⟩ := List.cons_prefix_cons.1 hSeen
        cases hAct
    | cons act rest =>
        obtain ⟨rfl, hRest⟩ := List.cons_prefix_cons.1 hSeen
        rw [List.count_cons_self] at hCount
        exact ⟨rest, hRest, Nat.lt_of_succ_lt_succ hCount⟩
  · rintro ⟨seen, hSeen, hCount⟩
    refine ⟨.approve :: seen, List.cons_prefix_cons.2 ⟨rfl, hSeen⟩, ?_⟩
    rw [List.count_cons_self]
    exact Nat.succ_lt_succ hCount

theorem refuses_deny : Refuses (steps + 1) (.deny :: acts) :=
  ⟨[], List.cons_prefix_cons.2 ⟨rfl, List.nil_prefix⟩, Nat.succ_pos steps⟩

end Acts

namespace Engine

variable {store : KeyStore}

theorem acted_append (engine : Engine store.Key) (acts more : List DeviceAct) :
    engine.acted store (acts ++ more) = (engine.acted store acts).acted store more :=
  List.foldl_append

/-- Nothing is there to decide. -/
def Phase.Settled {Key : Type} : Phase Key → Prop
  | review _ _ _ _ => False
  | idle _ _ _ | loading _ _ | signed _ _ _ => True

theorem Phase.settled_idle {state : EngineState} {txId : TxId} {hIdle : state.isBusy = false} :
    (Phase.idle state txId hIdle : Phase store.Key).Settled := trivial

theorem Phase.settled_loading {parts : UInt16} {message : PartialMessage} :
    (Phase.loading parts message : Phase store.Key).Settled := trivial

theorem Phase.settled_signed {request : Review} {step : UInt16} {signature : Signature} :
    (Phase.signed request step signature : Phase store.Key).Settled := trivial

theorem Phase.Settled.apply_eq {phase : Phase store.Key} {act : DeviceAct}
    (hSettled : phase.Settled) (hAct : act.IsDecision) :
    act.apply store phase.engine = phase.engine := by
  cases phase with
  | idle state txId hIdle =>
      rcases hAct with rfl | rfl <;> cases state <;> first | rfl | cases hIdle
  | loading parts message => rcases hAct with rfl | rfl <;> rfl
  | review key request place step => exact hSettled.elim
  | signed request step signature => rcases hAct with rfl | rfl <;> rfl

theorem Phase.Settled.acted_eq {phase : Phase store.Key} {acts : List DeviceAct}
    (hSettled : phase.Settled) (hActs : ∀ act ∈ acts, act.IsDecision) :
    phase.engine.acted store acts = phase.engine :=
  acted_eq_self fun act hAct => hSettled.apply_eq (hActs act hAct)

/-- What decisions make of a request to sign with so many steps left. -/
inductive Decided {Key : Type} (request : Review) (signature : Signature) (steps : Nat)
    (acts : List DeviceAct) : Phase Key → Prop where
  | signed {step : UInt16} (hApproves : Approves steps acts) (hRefuses : ¬ Refuses steps acts) :
      Decided request signature steps acts (.signed request step signature)
  | rejected (hApproves : ¬ Approves steps acts) (hRefuses : Refuses steps acts) :
      Decided request signature steps acts (.idle .rejected request.id rfl)
  | undecided {key : Option Key} {place : Place} {step : UInt16}
      (hApproves : ¬ Approves steps acts) (hRefuses : ¬ Refuses steps acts) :
      Decided request signature steps acts (.review key request place step)

/-- An approval is one of the steps. -/
theorem Decided.approve {request : Review} {signature : Signature} {steps : Nat}
    {acts : List DeviceAct} {phase : Phase store.Key}
    (hDecided : Decided request signature steps acts phase) :
    Decided request signature (steps + 1) (.approve :: acts) phase := by
  cases hDecided with
  | signed hApproves hRefuses =>
      exact .signed (approves_approve.2 hApproves) (mt refuses_approve.1 hRefuses)
  | rejected hApproves hRefuses =>
      exact .rejected (mt approves_approve.1 hApproves) (refuses_approve.2 hRefuses)
  | undecided hApproves hRefuses =>
      exact .undecided (mt approves_approve.1 hApproves) (mt refuses_approve.1 hRefuses)

section Review

variable {key : store.Key} {request : Review} {place following : Place} {step : UInt16}
  {signature : Signature}

theorem approve_of_next (hNext : request.next? place = some following) :
    approve store (Phase.review (some key) request place step).engine =
      (Phase.review (some key) request following
        (if step = 0xffff then 0xffff else step + 1)).engine := by
  simp only [approve, Phase.engine, Reviewer.accept, hNext]

theorem approve_of_last (hLast : request.next? place = none)
    (hSubject : request.subject ≠ .address) (hSign : store.sign key request.id = some signature) :
    approve store (Phase.review (some key) request place step).engine =
      (Phase.signed request step signature).engine := by
  simp only [approve, Phase.engine, Reviewer.accept, hLast, if_neg hSubject, sign,
    Option.bind_some, hSign]

/-- By induction on the decisions: each approval leads to the next step, the last one signs, and
a refusal ends the review. -/
theorem exists_decided {steps : Nat} {acts : List DeviceAct}
    (hSound : (Phase.review (some key) request place step).Sound)
    (hSteps : steps + step.toNat = request.stepCount)
    (hSign : store.sign key request.id = some signature)
    (hActs : ∀ act ∈ acts, act.IsDecision) :
    ∃ next, (Phase.review (some key) request place step).engine.acted store acts = next.engine ∧
      Decided request signature steps acts next := by
  induction acts generalizing place step steps with
  | nil =>
      have hLess := Phase.lt_stepCount hSound
      obtain ⟨steps, rfl⟩ := Nat.exists_eq_succ_of_ne_zero (n := steps) (by omega)
      exact ⟨_, rfl, .undecided not_approves_nil not_refuses_nil⟩
  | cons act rest ih =>
      have hLess := Phase.lt_stepCount hSound
      obtain ⟨steps, rfl⟩ := Nat.exists_eq_succ_of_ne_zero (n := steps) (by omega)
      obtain ⟨hAct, hRest⟩ := List.forall_mem_cons.1 hActs
      rcases hAct with rfl | rfl
      · cases hNext : request.next? place with
        | some following =>
            have hNumber := Phase.toNat_accept hSound hNext
            have hLeft : steps + (if step = 0xffff then 0xffff else step + 1).toNat =
                request.stepCount := by omega
            obtain ⟨next, hEngine, hDecided⟩ := ih (Phase.sound_accept hSound hNext) hLeft hRest
            refine ⟨next, ?_, hDecided.approve⟩
            rw [← hEngine, ← approve_of_next hNext]
            rfl
        | none =>
            have hLast := Phase.stepCount_le_of_last hSound hNext
            obtain rfl : steps = 0 := by omega
            have hSubject : request.subject ≠ .address := hSound.2.2.1.1 rfl
            refine ⟨.signed request step signature, ?_,
              .signed (approves_approve.2 (approves_zero rest))
                (mt refuses_approve.1 (not_refuses_zero rest))⟩
            rw [acted, List.foldl_cons, DeviceAct.apply, approve_of_last hNext hSubject hSign]
            exact Phase.settled_signed.acted_eq hRest
      · exact ⟨.idle .rejected request.id rfl, Phase.settled_idle.acted_eq hRest,
          .rejected not_approves_deny refuses_deny⟩

end Review

end Engine

/-- What the user does behind the exchange with the number `first`, up to the question that comes
so many exchanges later. -/
def decisions (script : Nat → Incident) (first : Nat) : Nat → List DeviceAct
  | 0 => []
  | count + 1 => decisions script first count ++ (script (first + count)).after ++
      (script (first + count + 1)).before

theorem isDecision_of_mem_decisions {script : Nat → Incident} {first count : Nat}
    {act : DeviceAct} (hQuiet : ∀ number, (script number).Quiet)
    (hMem : act ∈ decisions script first count) : act.IsDecision := by
  induction count with
  | zero => exact absurd hMem List.not_mem_nil
  | succ count ih =>
      rw [decisions, List.mem_append, List.mem_append] at hMem
      rcases hMem with (hEarlier | hAfter) | hBefore
      · exact ih hEarlier
      · exact (hQuiet _).decides_after act hAfter
      · exact (hQuiet _).decides_before act hBefore

namespace InProcess

open Engine

variable {store : KeyStore} {script : Nat → Incident} {session next : InProcess store.Key}
  {origin : Engine store.Key} {first count : Nat} {phase : Phase store.Key}

/-- Since the exchange with the number `first` the host has asked so many questions, and nothing
but the user has changed the device, which was in the state `origin` then. -/
structure Asked (script : Nat → Incident) (origin : Engine store.Key) (first count : Nat)
    (session : InProcess store.Key) : Prop where
  engine_eq : session.engine =
    origin.acted store (decisions script first count ++ (script (first + count)).after)
  length_eq : session.exchanges.length = first + count + 1

theorem Asked.awaiting_eq (hAsked : Asked script origin first count session) :
    session.awaiting script = origin.acted store (decisions script first (count + 1)) := by
  rw [awaiting, incident, hAsked.engine_eq, hAsked.length_eq, ← acted_append]
  rfl

/-- Behind the exchange that led to a state, no question was asked yet. -/
theorem Passes.asked {command : Bytes} {event : Event}
    (hPasses : session.Passes script command event next)
    (hUpdate : ((session.awaiting script).update store event).2 = origin) :
    Asked script origin session.exchanges.length 0 next where
  engine_eq := by rw [hPasses.engine_eq, hUpdate]; rfl
  length_eq := hPasses.length_eq

theorem Asked.passes {command : Bytes} (hAsked : Asked script origin first count session)
    (hPasses : session.Passes script command .txGetInfo next) :
    Asked script origin first (count + 1) next where
  engine_eq := by
    have hSame (engine : Engine store.Key) : (engine.update store .txGetInfo).2 = engine := rfl
    rw [hPasses.engine_eq, hSame, hAsked.awaiting_eq, incident, hAsked.length_eq, ← acted_append]
    rfl
  length_eq := by rw [hPasses.length_eq, hAsked.length_eq]; rfl

end InProcess

namespace DeviceHandle

open Engine InProcess

variable {store : KeyStore} {script : Nat → Incident} {session : InProcess store.Key}
  {origin : Engine store.Key} {first count : Nat} {handle : DeviceHandle}

/-- While answers come at once, the host asks until there is a verdict on what the user has made
of the device, or as often as there is time. -/
theorem exists_run_poll (verdict : TxInfo → Option (Except HostError Unit)) (budget : Nat)
    (hQuiet : ∀ number, (script number).Quiet)
    (hAsked : Asked script origin first count session) :
    ∃ more next result,
      (handle.poll verdict budget).run.run (link store script) session = (result, next) ∧
      Asked script origin first (count + more + 1) next ∧
      next.commands =
        List.replicate (more + 1) (Instruction.txGetInfo.command []) ++ session.commands ∧
      (∀ poll < more, verdict
        (origin.acted store (decisions script first (count + poll + 1))).info = none) ∧
      (verdict (origin.acted store (decisions script first (count + more + 1))).info =
          some result ∨
        verdict (origin.acted store (decisions script first (count + more + 1))).info = none ∧
          more = budget / pollInterval ∧ result = .error .userTimeout) := by
  induction budget using Nat.strongRecOn generalizing session count with
  | ind budget ih =>
      obtain ⟨middle, hPasses, hRun⟩ :=
        exists_run_poll_round verdict budget ((hQuiet _).faultless_of handle.limit)
      have hDelay : (session.incident script).delay = 0 :=
        Nat.le_zero.1 (hQuiet _).faultless.delay_le
      have hMiddle := hAsked.passes hPasses
      have hOnce : middle.commands =
          List.replicate 1 (Instruction.txGetInfo.command []) ++ session.commands :=
        hPasses.commands_eq
      simp only [hDelay, Nat.zero_le, if_true, Nat.sub_zero, hAsked.awaiting_eq] at hRun
      cases hVerdict : verdict
          (origin.acted store (decisions script first (count + 1))).info with
      | some result =>
          rw [hVerdict] at hRun
          exact ⟨0, middle, result, hRun, hMiddle, hOnce,
            fun _ hEarlier => absurd hEarlier (Nat.not_lt_zero _), .inl hVerdict⟩
      | none =>
          rw [hVerdict] at hRun
          dsimp only at hRun
          by_cases hRound : pollInterval ≤ budget
          · rw [if_pos hRound] at hRun
            obtain ⟨more, next, result, hLater, hNext, hCommands, hEarlier, hLast⟩ :=
              ih (budget - pollInterval) (by simp only [pollInterval] at *; omega) hMiddle
            have hShift (number : Nat) : count + 1 + number + 1 = count + (number + 1) + 1 := by
              omega
            have hRounds : budget / pollInterval = (budget - pollInterval) / pollInterval + 1 :=
              Nat.div_eq_sub_div (by decide) hRound
            refine ⟨more + 1, next, result, hRun.trans hLater, hShift more ▸ hNext, ?_, ?_, ?_⟩
            · rw [hCommands, hOnce, ← List.append_assoc, List.replicate_append_replicate]
            · intro poll hPoll
              cases poll with
              | zero => exact hVerdict
              | succ poll => exact hShift poll ▸ hEarlier poll (Nat.lt_of_succ_lt_succ hPoll)
            · rw [← hShift, hRounds, Nat.add_left_inj]
              exact hLast
          · rw [if_neg hRound] at hRun
            have hNone : 0 = budget / pollInterval :=
              (Nat.div_eq_of_lt (Nat.not_le.1 hRound)).symm
            exact ⟨0, middle, _, hRun, hMiddle, hOnce,
              fun _ hEarlier => absurd hEarlier (Nat.not_lt_zero _),
              .inr ⟨hVerdict, hNone, rfl⟩⟩

end DeviceHandle

end ColdSigner
