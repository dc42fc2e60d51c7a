import ColdSigner.Proofs.RequestRelease
import ColdSigner.Proofs.UserDecisions
/-!
# Confirmed addresses

An account is verified only if the device has derived it, has shown its address as the host writes
it, and the user has confirmed that before anything else happened
(`DeviceHandle.accountVerified_confirmed`).
-/
namespace ColdSigner

open Engine InProcess HostCall

/-- The user accepts the step that is shown, or all steps that are left. -/
def DeviceAct.IsApproval (act : DeviceAct) : Prop := act = .approve ∨ act = .approveAll

namespace Engine

variable {store : KeyStore}

/-- The device shows an address and nothing else, in the first and only step of a review. -/
structure ShowsAddress {Key : Type} (engine : Engine Key) (address : String) : Prop where
  state_eq : engine.state = .review 0
  stepCount_eq : engine.stepCount? = some 1
  currentStep_eq : engine.currentStep? =
    some ⟨.address, "Review", [Screen.one "Address" address], "Confirm address"⟩

theorem showsAddress_opened {Key : Type} (account : Account) :
    (Phase.opened none ⟨.address, FixedBytes.zero 32, account⟩ : Phase Key).engine.ShowsAddress
      account.address where
  state_eq := rfl
  stepCount_eq := congrArg some (Review.stepCount_eq_one (by simp))
  currentStep_eq := rfl

/-- A device without a request confirms no address, whatever happens to it. -/
theorem state_acted_ne_verified {state : EngineState} (txId : TxId) (hIdle : state.isBusy = false)
    (hState : state ≠ .verified) (acts : List DeviceAct) :
    ((Phase.idle state txId hIdle).engine.acted store acts).state ≠ .verified := by
  induction acts generalizing state txId with
  | nil => exact hState
  | cons act rest ih =>
      rw [acted, List.foldl_cons]
      have hSame (hApply : act.apply store (Phase.idle state txId hIdle).engine =
          (Phase.idle state txId hIdle).engine) :
          (rest.foldl (DeviceAct.apply store)
            (act.apply store (Phase.idle state txId hIdle).engine)).state ≠ .verified := by
        rw [hApply]
        exact ih txId hIdle hState
      cases act with
      | approve => exact hSame (Phase.settled_idle.apply_eq (.inl rfl))
      | approveAll => exact hSame rfl
      | deny => exact hSame (Phase.settled_idle.apply_eq (.inr rfl))
      | disconnect => exact hSame abandon_idle
      | reset =>
          have hInit : EngineState.init.isBusy = false := rfl
          exact ih (FixedBytes.zero 32) hInit (by simp)

/-- An address under review is verified only if an approval came first. -/
theorem exists_approval_of_verified {key : Option store.Key} {request : Review}
    {acts : List DeviceAct}
    (hVerified : ((Phase.opened key request).engine.acted store acts).state = .verified) :
    ∃ act rest, acts = act :: rest ∧ act.IsApproval := by
  cases acts with
  | nil => cases hVerified
  | cons act rest =>
      rw [acted, List.foldl_cons] at hVerified
      cases act with
      | approve => exact ⟨.approve, rest, rfl, .inl rfl⟩
      | approveAll => exact ⟨.approveAll, rest, rfl, .inr rfl⟩
      | deny =>
          have hRejected : EngineState.rejected.isBusy = false := rfl
          exact absurd hVerified (state_acted_ne_verified request.id hRejected (by simp) rest)
      | disconnect =>
          have hRejected : EngineState.rejected.isBusy = false := rfl
          exact absurd hVerified (state_acted_ne_verified request.id hRejected (by simp) rest)
      | reset =>
          have hInit : EngineState.init.isBusy = false := rfl
          exact absurd hVerified (state_acted_ne_verified (FixedBytes.zero 32) hInit (by simp) rest)

end Engine

namespace HostCall

variable {σ α : Type} {link : Link σ} {state : σ}

theorem ends_trivial (call : HostCall α) :
    Ends link call state (fun _ _ => True) fun _ _ => True :=
  meets_either _ trivial

end HostCall

namespace DeviceHandle

variable {store : KeyStore} {script : Nat → Incident} {session : InProcess store.Key}
  {handle : DeviceHandle} {path : DerivationPath} {group : Option UInt8} {keyType : KeyType}

/-- Where waiting ends well, the last question has found the device in a state with that verdict,
and nothing but what happens beside the exchanges has changed it meanwhile. -/
theorem ends_poll_asked {verdict : TxInfo → Option (Except HostError Unit)}
    {origin : Engine store.Key} {first : Nat} (budget count : Nat)
    (hFaultless : ∀ number, (script number).Faultless handle.limit)
    (hAsked : Asked script origin first count session) :
    Ends (link store script) (handle.poll verdict budget) session
      (fun _ next => ∃ more, 0 < more ∧ Asked script origin first (count + more) next ∧
        next.commands =
          List.replicate more (Instruction.txGetInfo.command []) ++ session.commands ∧
        verdict (origin.acted store (decisions script first (count + more))).info = some (.ok ()))
      fun _ _ => True := by
  induction budget using Nat.strongRecOn generalizing session count with
  | ind budget ih =>
      obtain ⟨middle, hPasses, hRun⟩ := exists_run_poll_round verdict budget (hFaultless _)
      have hMiddle := hAsked.passes hPasses
      rw [hAsked.awaiting_eq] at hRun
      rw [Ends, hRun]
      dsimp only
      split
      · cases hVerdict : verdict (origin.acted store (decisions script first (count + 1))).info with
        | some result =>
            cases result with
            | error error => trivial
            | ok _ => exact ⟨1, Nat.one_pos, hMiddle, hPasses.commands_eq, hVerdict⟩
        | none =>
            dsimp only
            split
            · next hRound =>
                have hLess : budget - (session.incident script).delay - pollInterval < budget := by
                  simp only [pollInterval] at *
                  omega
                have hLater := ih _ hLess (count + 1) hMiddle
                refine hLater.imp ?_ fun _ _ => id
                rintro - next ⟨more, -, hNext, hCommands, hLast⟩
                have hShift : count + 1 + more = count + (more + 1) := by omega
                rw [hShift] at hNext hLast
                refine ⟨more + 1, Nat.succ_pos more, hNext, ?_, hLast⟩
                rw [hCommands, hPasses.commands_eq, List.replicate_succ', List.append_assoc]
                rfl
            · trivial
      · trivial

/-- No account belongs to the group whose byte stands for no group. -/
theorem accountOf_noGroup_ne_ok (answer : AccountResponse) (account : Account) :
    accountOf path (some noGroup) answer ≠ .ok account := by
  have hLess : (Lockup.ofKey answer.publicKey).group < groupCount := UInt8.mod_lt _ (by decide)
  intro hAccepted
  obtain ⟨hGroup, hWanted, -⟩ := accountOf_eq_ok_iff.1 hAccepted
  have hSame : noGroup = answer.group := of_decide_eq_true hWanted
  rw [hGroup, ← hSame] at hLess
  exact absurd hLess (by decide)

/-- The device as the request for an account leaves it, if the address is to be shown. -/
def shown (script : Nat → Incident) (session : InProcess store.Key) (path : DerivationPath)
    (group : Option UInt8) (keyType : KeyType) : Engine store.Key :=
  ((session.awaiting script).update store (.getAccount ⟨path, group, keyType, true⟩)).2

/-- The command that asks for an account whose address is to be shown. -/
def displayCommand (path : DerivationPath) (group : Option UInt8) (keyType : KeyType) : Bytes :=
  Instruction.getAccount.command (Message.toBytes (⟨path, group, keyType, true⟩ : AccountRequest))

/-- An account that the host accepts is the one that the device has derived and shows. -/
theorem ends_requestAccount_shown
    (hFaultless : ∀ number, (script number).Faultless handle.limit) (hFree : session.Free) :
    Ends (link store script) (handle.requestAccount path group keyType true) session
      (fun account next => (∃ key, store.derive path group keyType = .ok (account, key)) ∧
        shown script session path group keyType =
          (Phase.opened none ⟨.address, FixedBytes.zero 32, account⟩).engine ∧
        Asked script (shown script session path group keyType) session.exchanges.length 0 next ∧
        next.commands = displayCommand path group keyType :: session.commands)
      fun _ _ => True := by
  by_cases hGroup : group = some noGroup
  · subst hGroup
    refine (ends_trivial _).bind fun data next _ => (ends_trivial _).bind fun answer next _ => ?_
    cases hAnswer : accountOf path (some noGroup) answer with
    | error error => exact ends_done trivial
    | ok account => exact absurd hAnswer (accountOf_noGroup_ne_ok answer account)
  · obtain ⟨state, txId, hIdle, hSince⟩ := hFree
    obtain ⟨current, hRemains, hAwaiting⟩ := hSince.exists_awaiting script
    obtain ⟨after, id, hStill, rfl⟩ := hRemains.eq_idle
    obtain ⟨next, hPasses, hRun⟩ :=
      exists_run_requestAccount true (hFaultless _) hGroup hAwaiting
    cases hDerive : store.derive path group keyType with
    | error error =>
        rw [derived_of_error hDerive] at hRun
        exact ends_of_run hRun trivial
    | ok found =>
        obtain ⟨account, key⟩ := found
        have hShown : shown script session path group keyType =
            (Phase.opened none ⟨.address, FixedBytes.zero 32, account⟩).engine := by
          rw [shown, hAwaiting, update_getAccount_idle, getAccount_of_derive _ hDerive]
          rfl
        rw [derived_of_ok hDerive] at hRun
        exact ends_of_run hRun ⟨⟨key, rfl⟩, hShown, hPasses.asked rfl, hPasses.commands_eq⟩

/-- The user has confirmed an address on the device: the first command of a call has shown it, what
happened first after that was an approval, and the last of so many questions has found it
verified. -/
structure Confirmed (script : Nat → Incident) (session next : InProcess store.Key)
    (path : DerivationPath) (group : Option UInt8) (keyType : KeyType) (address : String)
    (asked : Nat) : Prop where
  asked_pos : 0 < asked
  shows : (shown script session path group keyType).ShowsAddress address
  approved : ∃ act rest,
    decisions script session.exchanges.length asked = act :: rest ∧ act.IsApproval
  verified : ((shown script session path group keyType).acted store
    (decisions script session.exchanges.length asked)).state = .verified
  commands_eq : next.commands = List.replicate asked (Instruction.txGetInfo.command []) ++
    displayCommand path group keyType :: session.commands

theorem addressVerdict_eq_ok_iff {info : TxInfo} :
    addressVerdict info = some (.ok ()) ↔ info.state = .verified := by
  unfold addressVerdict
  cases info.state <;> simp

theorem txState_eq_verified_iff {state : EngineState} :
    state.txState = .verified ↔ state = .verified := by
  cases state <;> simp [EngineState.txState]

/-- An account is verified only if the device derives it from the same path, group and kind of
key, and the user has confirmed on the device the address that the host computes for it. What
happened first after the address was shown was the approval, so neither a refusal nor a host that
went away came before it. -/
theorem accountVerified_confirmed (store : KeyStore) (operations : List Operation)
    (exchanges : List Exchange) (script : Nat → Incident) (handle : DeviceHandle)
    (path : DerivationPath) (group : Option UInt8) (keyType : KeyType) (time : Nat)
    (account : Account) (hIdle : (after store operations).state.isBusy = false)
    (hFaultless : ∀ number, (script number).Faultless handle.limit)
    (hVerified : ((handle.accountVerified path group keyType time).run.run (link store script)
      ⟨after store operations, exchanges⟩).1 = .ok account) :
    let session : InProcess store.Key := ⟨after store operations, exchanges⟩
    let next :=
      ((handle.accountVerified path group keyType time).run.run (link store script) session).2
    (∃ key, store.derive path group keyType = .ok (account, key)) ∧
      ∃ asked, Confirmed script session next path group keyType account.address asked := by
  intro session next
  have hFree : session.Free := free_of_after exchanges hIdle
  have hEnds : Ends (link store script) (handle.accountVerified path group keyType time) session
      (fun account next => (∃ key, store.derive path group keyType = .ok (account, key)) ∧
        ∃ asked, Confirmed script session next path group keyType account.address asked)
      fun _ _ => True := by
    refine (ends_requestAccount_shown hFaultless hFree).bind ?_
    rintro account behind ⟨hDerive, hShown, hAsked, hCommand⟩
    -- The account leaves from within the part that may fail, as an early return.
    have hPoll : Ends (link store script) (handle.poll addressVerdict time >>=
        fun _ => (pure (.error account) : HostCall (Except Account Account))) behind
        (fun returned next => returned = .error account ∧
          ∃ asked, Confirmed script session next path group keyType account.address asked)
        fun _ _ => True := by
      refine (ends_poll_asked time 0 hFaultless hAsked).bind ?_
      rintro - last ⟨asked, hPos, -, hCommands, hVerdict⟩
      rw [Nat.zero_add] at hVerdict
      have hState := txState_eq_verified_iff.1 (addressVerdict_eq_ok_iff.1 hVerdict)
      have hApproved := hState
      rw [hShown] at hApproved
      rw [hCommand] at hCommands
      exact ends_pure ⟨rfl, asked, hPos, hShown ▸ showsAddress_opened account,
        exists_approval_of_verified hApproved, hState, hCommands⟩
    refine (hPoll.tryCatch ?_).bind ?_
    · rintro error last -
      cases error with
      | userTimeout => exact (ends_trivial _).bind fun _ _ _ => ends_throw trivial
      | _ => exact ends_throw trivial
    · rintro returned last ⟨rfl, hLast⟩
      exact ends_pure ⟨hDerive, hLast⟩
  rw [Ends, hVerified] at hEnds
  exact hEnds

/-- A device whose keys are numbered by the last number of their path. -/
def numberedKeys : KeyStore where
  Key := UInt32
  key indices := .ok (indices.getLastD 0)
  publicKey number := FixedBytes.bigEndian 33 number.toNat
  sign _ _ := none

/-- The user approves before the third question, which comes late. -/
def thoughtful (number : Nat) : Incident :=
  { Incident.none with
    before := if number = 3 then [.approve] else []
    delay := if number = 2 then 1500 else 0 }

theorem thoughtful_faultless (number : Nat) : (thoughtful number).Faultless standard.limit where
  answer_eq := rfl
  flip_eq := rfl
  arrives := rfl
  delay_le := by
    change (if number = 2 then 1500 else 0) ≤ standard.limit
    split <;> decide

theorem toOption_accountVerified_fourth :
    ((standard.accountVerified firstAccount (some 0) .ecdsa 5000).run.run
      (link numberedKeys thoughtful) ⟨after numberedKeys [], []⟩).1.toOption =
        some ⟨firstAccount.withLast 4, 4, 0, .ecdsa, FixedBytes.bigEndian 33 4⟩ := by
  decide +kernel

/-- The first account of group 0 is at the fourth place behind the one that is asked for. -/
theorem accountVerified_confirmed_fourth :
    let session : InProcess numberedKeys.Key := ⟨after numberedKeys [], []⟩
    let account : Account := ⟨firstAccount.withLast 4, 4, 0, .ecdsa, FixedBytes.bigEndian 33 4⟩
    let ended := (standard.accountVerified firstAccount (some 0) .ecdsa 5000).run.run
      (link numberedKeys thoughtful) session
    session.engine.state.isBusy = false ∧
      (∀ number, (thoughtful number).Faultless standard.limit) ∧ ended.1 = .ok account ∧
      (∃ key, numberedKeys.derive firstAccount (some 0) .ecdsa = .ok (account, key)) ∧
      ∃ asked, Confirmed thoughtful session ended.2 firstAccount (some 0) .ecdsa account.address
        asked := by
  obtain ⟨_, _, hRun, -⟩ := exists_returns_of_toOption toOption_accountVerified_fourth
  have hVerified := congrArg Prod.fst hRun
  exact ⟨rfl, thoughtful_faultless, hVerified, accountVerified_confirmed numberedKeys [] []
    thoughtful standard firstAccount (some 0) .ecdsa 5000 _ rfl thoughtful_faultless hVerified⟩

end DeviceHandle

end ColdSigner
