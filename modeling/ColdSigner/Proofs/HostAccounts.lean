import ColdSigner.Proofs.ConfirmedAddresses
/-!
# The accounts that a host accepts

A host that asks an honest device for an account accepts what the keys lead to, and hears the error
where they lead to nothing (`DeviceHandle.account_agrees`). Of an answer it checks the group of the
key and that the place is not before the one asked for. So the account belongs to the path but for
its last number (`DeviceHandle.accountOf_belongs`), which a device that derives it keeps below the
hardened ones, and as it is where no group is asked for (`KeyStore.derive_belongs`).
-/
namespace ColdSigner

namespace DerivationPath

variable {path : DerivationPath} {index : UInt32}

theorem indices_withLast (hSome : path.indices ≠ []) :
    (path.withLast index).indices = path.indices.dropLast ++ [index] := if_neg hSome

theorem indices_ne_nil_of_last? {last : UInt32} (hLast : path.last? = some last) :
    path.indices ≠ [] := by
  intro hNone
  rw [last?, hNone] at hLast
  cases hLast

/-- Only the path with the same last number is the path itself. -/
theorem withLast_eq_iff {last : UInt32} (hLast : path.last? = some last) :
    path.withLast index = path ↔ index = last := by
  obtain ⟨front, hFront⟩ := List.getLast?_eq_some_iff.1 hLast
  have hNew : (path.withLast index).indices = front ++ [index] := by
    rw [indices_withLast (indices_ne_nil_of_last? hLast), hFront, List.dropLast_concat]
  constructor
  · intro hSame
    rw [hSame, hFront] at hNew
    exact (List.singleton_inj.1 (List.append_cancel_left hNew)).symm
  · rintro rfl
    exact ext (hNew.trans hFront.symm)

/-- Which number is the last one matters to the path of an account only in that it is hardened. -/
theorem isAccountPath_withLast (hPath : Account.isAccountPath path = true) (index : UInt32) :
    Account.isAccountPath (path.withLast index) = !isHardened index := by
  unfold Account.isAccountPath at hPath
  split at hPath
  · next purpose coin account change last hIndices =>
      have hNew : (path.withLast index).indices = [purpose, coin, account, change, index] := by
        rw [indices_withLast (by simp [hIndices]), hIndices]
        rfl
      simp only [Bool.and_eq_true] at hPath
      obtain ⟨⟨⟨⟨hPurpose, hCoin⟩, hAccount⟩, hChange⟩, -⟩ := hPath
      simp only [Account.isAccountPath, hNew, hPurpose, hCoin, hAccount, hChange, Bool.true_and]
  · cases hPath

theorem isAccountPath_withLast_of_lt (hPath : Account.isAccountPath path = true)
    (hIndex : index < hardened) : Account.isAccountPath (path.withLast index) = true := by
  rw [isAccountPath_withLast hPath, Bool.not_eq_true', isHardened, decide_eq_false_iff_not]
  exact UInt32.not_le.2 hIndex

theorem exists_last_of_isAccountPath (hPath : Account.isAccountPath path = true) :
    ∃ last, path.last? = some last := by
  unfold Account.isAccountPath at hPath
  split at hPath
  · next last hIndices =>
      refine ⟨last, ?_⟩
      rw [last?, hIndices]
      rfl
  · cases hPath

end DerivationPath

/-- The path of a derived account is again one of an account, and where no group is asked for it is
the path itself. -/
theorem KeyStore.derive_belongs {store : KeyStore} {path : DerivationPath} {group : Option UInt8}
    {keyType : KeyType} {account : Account} {key : store.Key}
    (hDerive : store.derive path group keyType = .ok (account, key)) :
    Account.isAccountPath account.path = true ∧ (group = none → account.path = path) := by
  obtain ⟨-, hPath, -⟩ := derive_eq_ok_iff.1 hDerive
  obtain ⟨first, hLast, -, hIndex, hAccount, -, hFirst⟩ := exists_last_of_derive hDerive
  have hPlace : account.path = path.withLast account.index := by rw [hAccount]
  refine ⟨?_, fun hGroup => ?_⟩
  · rw [hPlace]
    exact DerivationPath.isAccountPath_withLast_of_lt hPath hIndex
  · rw [hPlace]
    exact (DerivationPath.withLast_eq_iff hLast).2 (hFirst hGroup)

/-- The error of the host is that of the device, whatever the status word makes of it. -/
theorem HostError.deviceError?_ofStatus (error : DeviceError) :
    (ofStatus error.status).deviceError? = some error := by
  cases error <;> decide

/-- The device is not switched off and on beside the exchange. -/
structure Incident.StaysOn (incident : Incident) : Prop where
  before : .reset ∉ incident.before
  after : .reset ∉ incident.after

namespace Engine

variable {store : KeyStore} {state : EngineState} {txId : TxId} {hIdle : state.isBusy = false}

/-- Where there is no request, neither the user nor a host that goes away changes anything. -/
theorem apply_idle {act : DeviceAct} (hAct : act ≠ .reset) :
    act.apply store (Phase.idle state txId hIdle).engine =
      (Phase.idle state txId hIdle).engine := by
  cases act with
  | approve => exact Phase.settled_idle.apply_eq (.inl rfl)
  | approveAll => rfl
  | deny => exact Phase.settled_idle.apply_eq (.inr rfl)
  | disconnect => exact abandon_idle
  | reset => exact absurd rfl hAct

theorem acted_idle {acts : List DeviceAct} (hActs : .reset ∉ acts) :
    (Phase.idle state txId hIdle).engine.acted store acts =
      (Phase.idle state txId hIdle).engine := by
  refine acted_eq_self fun act hAct => apply_idle ?_
  rintro rfl
  exact hActs hAct

end Engine

namespace DeviceHandle

open Engine InProcess HostCall

/-- A host that asks a device without a request for an account gets it just if the keys lead to one,
and then it is the same account: the same path, place, group, kind of key and key. Otherwise the
host gets the error for which there is none. The device stays as it is. The group whose byte on the
wire stands for no group cannot be asked for. -/
theorem account_agrees (store : KeyStore) (operations : List Operation) (exchanges : List Exchange)
    (script : Nat → Incident) (handle : DeviceHandle) (path : DerivationPath)
    (group : Option UInt8) (keyType : KeyType)
    (hIdle : (after store operations).state.isBusy = false)
    (hFaultless : (script exchanges.length).Faultless handle.limit)
    (hOn : (script exchanges.length).StaysOn) (hGroup : group ≠ some noGroup) :
    let ended := (handle.account path group keyType).run.run (link store script)
      ⟨after store operations, exchanges⟩
    (∀ account, ended.1 = .ok account ↔
        ∃ key, store.derive path group keyType = .ok (account, key)) ∧
      (∀ error, store.derive path group keyType = .error error →
        ∃ failure, ended.1 = .error failure ∧ failure.deviceError? = some error) ∧
      ended.2.engine = after store operations := by
  intro ended
  obtain ⟨state, txId, hState, hEngine⟩ := exists_idle_of_after hIdle
  let session : InProcess store.Key := ⟨after store operations, exchanges⟩
  have hAwaiting : session.awaiting script = (Phase.idle state txId hState).engine := by
    change (after store operations).acted store (script exchanges.length).before = _
    rw [hEngine]
    exact acted_idle hOn.before
  have hIncident : (session.incident script).Faultless handle.limit := hFaultless
  obtain ⟨next, hPasses, hRun⟩ := exists_run_requestAccount false hIncident hGroup hAwaiting
  have hEnded : ended = (derived store path group keyType, next) := hRun
  have hAfter : next.engine = after store operations := by
    rw [hPasses.engine_eq, hAwaiting, update_getAccount_idle, snd_getAccount_of_not_display _ rfl,
      hEngine]
    exact acted_idle hOn.after
  rw [hEnded]
  refine ⟨?_, ?_, hAfter⟩
  · intro account
    cases hDerive : store.derive path group keyType with
    | error error => simp [derived_of_error hDerive]
    | ok found => simp [derived_of_ok hDerive, Prod.ext_iff]
  · intro error hDerive
    exact ⟨_, derived_of_error hDerive, HostError.deviceError?_ofStatus error⟩

theorem derive_numberedKeys_fourth :
    ∃ key, numberedKeys.derive (firstAccount.withLast 3) (some 0) .ecdsa =
      .ok (⟨firstAccount.withLast 4, 4, 0, .ecdsa, FixedBytes.bigEndian 33 4⟩, key) := by
  have hShown : (numberedKeys.derive (firstAccount.withLast 3) (some 0) .ecdsa).toOption.map
      Prod.fst = some ⟨firstAccount.withLast 4, 4, 0, .ecdsa, FixedBytes.bigEndian 33 4⟩ := by
    decide +kernel
  cases hDerive : numberedKeys.derive (firstAccount.withLast 3) (some 0) .ecdsa with
  | error error =>
      rw [hDerive] at hShown
      cases hShown
  | ok found =>
      rw [hDerive] at hShown
      exact ⟨found.2, congrArg Except.ok (Prod.ext (Option.some.inj hShown) rfl)⟩

/-- The third place is in another group, so the account of group 0 is at the fourth one. There is no
group 4. -/
theorem account_agrees_fourth :
    let session : InProcess numberedKeys.Key := ⟨after numberedKeys [], []⟩
    let script : Nat → Incident := fun _ => .none
    let found := (standard.account (firstAccount.withLast 3) (some 0) .ecdsa).run.run
      (link numberedKeys script) session
    let refused := (standard.account (firstAccount.withLast 3) (some 4) .ecdsa).run.run
      (link numberedKeys script) session
    found.1 = .ok ⟨firstAccount.withLast 4, 4, 0, .ecdsa, FixedBytes.bigEndian 33 4⟩ ∧
      (∃ failure, refused.1 = .error failure ∧ failure.deviceError? = some .invalidPath) ∧
      found.2.engine = session.engine := by
  have hFaultless : Incident.none.Faultless standard.limit := ⟨rfl, rfl, rfl, Nat.zero_le _⟩
  have hOn : Incident.none.StaysOn := ⟨List.not_mem_nil, List.not_mem_nil⟩
  have hFound := account_agrees numberedKeys [] [] (fun _ => .none) standard
    (firstAccount.withLast 3) (some 0) .ecdsa rfl hFaultless hOn (by decide)
  have hRefused := account_agrees numberedKeys [] [] (fun _ => .none) standard
    (firstAccount.withLast 3) (some 4) .ecdsa rfl hFaultless hOn (by decide)
  exact ⟨(hFound.1 _).2 derive_numberedKeys_fourth, hRefused.2.1 _ rfl, hFound.2.2⟩

/-- An account that the host accepts has the group of its key, which is the wanted one, and is at a
place of the path that is not before the one asked for. That its path is again one of an account,
and that it is the path asked for, is up to the device: any greater number is accepted, even a
hardened one, and even where no group is wanted. -/
theorem accountOf_belongs {path : DerivationPath} {group : Option UInt8}
    {answer : AccountResponse} {account : Account} (hPath : Account.isAccountPath path = true)
    (hAccepted : accountOf path group answer = .ok account) :
    account.group = (Lockup.ofKey account.publicKey).group ∧
      (∀ wanted, group = some wanted → account.group = wanted) ∧
      account.path.last? = some account.index ∧
      account.path.indices.dropLast = path.indices.dropLast ∧
      ∃ first, path.last? = some first ∧ first ≤ account.index ∧
        (account.path = path ↔ account.index = first) ∧
        (Account.isAccountPath account.path = true ↔
          DerivationPath.isHardened account.index = false) := by
  obtain ⟨hGroup, hWanted, hPlace, rfl⟩ := accountOf_eq_ok_iff.1 hAccepted
  obtain ⟨first, hLast⟩ := DerivationPath.exists_last_of_isAccountPath hPath
  have hSome := DerivationPath.indices_ne_nil_of_last? hLast
  rw [hLast] at hPlace
  refine ⟨hGroup.symm, ?_, ?_, ?_, first, hLast, hPlace, DerivationPath.withLast_eq_iff hLast, ?_⟩
  · rintro wanted rfl
    exact (of_decide_eq_true hWanted).symm
  · rw [DerivationPath.last?, DerivationPath.indices_withLast hSome, List.getLast?_concat]
  · rw [DerivationPath.indices_withLast hSome, List.dropLast_concat]
  · rw [DerivationPath.isAccountPath_withLast hPath, Bool.not_eq_true']

/-- A device that tells of the key of the fourth place as if it were at another one. -/
def fourthKeyAt (index : UInt32) : AccountResponse := ⟨index, 0, .ecdsa, FixedBytes.bigEndian 33 4⟩

theorem accountOf_fourthKeyAt {group : Option UInt8} (hWanted : group.all (· = 0) = true)
    (index : UInt32) :
    accountOf firstAccount group (fourthKeyAt index) =
      .ok ⟨firstAccount.withLast index, index, 0, .ecdsa, FixedBytes.bigEndian 33 4⟩ := by
  have hGroup : (Lockup.ofKey (fourthKeyAt index).publicKey).group = 0 := by
    change (Lockup.ofKey (FixedBytes.bigEndian 33 4)).group = 0
    decide +kernel
  have hFirst : firstAccount.last?.getD 0 = 0 := rfl
  exact accountOf_eq_ok_iff.2 ⟨hGroup, hWanted, hFirst ▸ UInt32.zero_le, rfl⟩

theorem accountOf_belongs_fourth :
    let account : Account := ⟨firstAccount.withLast 4, 4, 0, .ecdsa, FixedBytes.bigEndian 33 4⟩
    accountOf firstAccount (some 0) (fourthKeyAt 4) = .ok account ∧
      account.group = (Lockup.ofKey account.publicKey).group ∧
      account.path.indices.dropLast = firstAccount.indices.dropLast ∧
      Account.isAccountPath account.path = true := by
  intro account
  have hAccepted : accountOf firstAccount (some 0) (fourthKeyAt 4) = .ok account :=
    accountOf_fourthKeyAt rfl 4
  obtain ⟨hGroup, -, -, hFront, _, -, -, -, hPath⟩ :=
    accountOf_belongs (by decide) hAccepted
  exact ⟨hAccepted, hGroup, hFront, hPath.2 rfl⟩

/-- Where no group is asked for, a later place is accepted, and in a group a hardened number. -/
theorem accountOf_elsewhere :
    Account.isAccountPath firstAccount = true ∧
      (∃ account, accountOf firstAccount none (fourthKeyAt 5) = .ok account ∧
        account.path ≠ firstAccount) ∧
      ∃ account, accountOf firstAccount (some 0) (fourthKeyAt DerivationPath.hardened) =
          .ok account ∧ Account.isAccountPath account.path = false :=
  ⟨by decide, ⟨_, accountOf_fourthKeyAt rfl 5, by decide⟩,
    ⟨_, accountOf_fourthKeyAt rfl DerivationPath.hardened, by decide⟩⟩

end DeviceHandle

end ColdSigner
