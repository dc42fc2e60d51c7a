import ColdSigner.Proofs.HostRequests
import ColdSigner.Proofs.SigningRequests
/-!
# Which account is derived

An account is searched for from the end of the path on, place by place, up to the first one in
the group (`KeyStore.search_eq_ok_iff`). What a device derives a host accepts, and both describe
the account in the same way (`DeviceHandle.accountOf_of_derive`).
-/
namespace ColdSigner

namespace KeyStore

variable {store : KeyStore} {path : DerivationPath} {keyType : KeyType} {account : Account}
  {key : store.Key} {group : Option UInt8}

theorem eq_of_accountAt {index : UInt32}
    (hFound : store.accountAt path keyType index = .ok (account, key)) :
    account = ⟨path.withLast index, index, (Lockup.ofKey (store.publicKey key)).group, keyType,
      store.publicKey key⟩ := by
  unfold accountAt at hFound
  cases hKey : store.key (path.withLast index).indices with
  | error error => simp [hKey, Bind.bind, Except.bind] at hFound
  | ok found =>
      simp only [hKey, Bind.bind, Except.bind, pure, Except.pure, Except.ok.injEq,
        Prod.mk.injEq] at hFound
      obtain ⟨rfl, rfl⟩ := hFound
      rfl

/-- An account lacks only because its key does. -/
theorem key_of_accountAt_error {index : UInt32} {error : DeviceError}
    (hError : store.accountAt path keyType index = .error error) :
    store.key (path.withLast index).indices = .error error := by
  unfold accountAt at hError
  cases hKey : store.key (path.withLast index).indices with
  | error found =>
      simp only [hKey, Bind.bind, Except.bind] at hError
      cases hError
      rfl
  | ok key =>
      simp only [hKey, Bind.bind, Except.bind] at hError
      cases hError

/-- The search passes accounts of other groups, and ends at the first one in the group. -/
theorem search_eq_ok_iff {count : Nat} {first : UInt32} :
    store.search path group keyType count first = .ok (account, key) ↔
      ∃ number < count,
        store.accountAt path keyType (first + UInt32.ofNat number) = .ok (account, key) ∧
        group.all (· = account.group) = true ∧
        ∀ before < number, ∃ passed other,
          store.accountAt path keyType (first + UInt32.ofNat before) = .ok (passed, other) ∧
            group.all (· = passed.group) = false := by
  induction count generalizing first with
  | zero => simp [search]
  | succ count ih =>
      have hShift (number : Nat) : first + 1 + UInt32.ofNat number =
          first + UInt32.ofNat (number + 1) := by
        rw [UInt32.ofNat_add, UInt32.add_comm (UInt32.ofNat number), UInt32.add_assoc]
        rfl
      have hZero : first + UInt32.ofNat 0 = first := UInt32.add_zero first
      rw [search]
      cases hAt : store.accountAt path keyType first with
      | error error =>
          refine iff_of_false (by simp) ?_
          rintro ⟨number, -, hFound, -, hPassed⟩
          cases number with
          | zero => simp [hAt] at hFound
          | succ number =>
              obtain ⟨passed, other, hFirst, -⟩ := hPassed 0 (Nat.zero_lt_succ number)
              simp [hAt] at hFirst
      | ok found =>
          dsimp only
          cases hGroup : group.all (· = found.1.group) with
          | true =>
              rw [if_pos rfl]
              constructor
              · rintro ⟨⟩
                exact ⟨0, Nat.zero_lt_succ count, hZero.symm ▸ hAt, hGroup, by simp⟩
              · rintro ⟨number, -, hFound, -, hPassed⟩
                cases number with
                | zero => rwa [hZero, hAt] at hFound
                | succ number =>
                    obtain ⟨passed, other, hFirst, hOther⟩ := hPassed 0 (Nat.zero_lt_succ number)
                    rw [hZero, hAt] at hFirst
                    cases hFirst
                    rw [hOther] at hGroup
                    cases hGroup
          | false =>
              rw [if_neg (by simp), ih]
              simp only [hShift]
              constructor
              · rintro ⟨number, hNumber, hFound, hIn, hPassed⟩
                refine ⟨number + 1, Nat.succ_lt_succ hNumber, hFound, hIn, ?_⟩
                intro before hBefore
                cases before with
                | zero => exact ⟨found.1, found.2, hZero.symm ▸ hAt, hGroup⟩
                | succ before => exact hPassed before (Nat.lt_of_succ_lt_succ hBefore)
              · rintro ⟨number, hNumber, hFound, hIn, hPassed⟩
                cases number with
                | zero =>
                    rw [hZero, hAt] at hFound
                    cases hFound
                    rw [hIn] at hGroup
                    cases hGroup
                | succ number =>
                    exact ⟨number, Nat.lt_of_succ_lt_succ hNumber, hFound, hIn,
                      fun before hBefore => hPassed (before + 1) (Nat.succ_lt_succ hBefore)⟩

/-- An account is searched for only under a kind of key, a path and a group that there are. -/
theorem derive_eq_ok_iff :
    store.derive path group keyType = .ok (account, key) ↔
      Account.keyTypes.supports keyType = true ∧ Account.isAccountPath path = true ∧
        group.any (groupCount ≤ ·) = false ∧ ∃ first, path.last? = some first ∧
          store.search path group keyType (DerivationPath.hardened.toNat - first.toNat) first =
            .ok (account, key) := by
  unfold derive
  cases Account.keyTypes.supports keyType with
  | false => simp
  | true =>
      cases Account.isAccountPath path with
      | false => simp
      | true =>
          cases group.any (groupCount ≤ ·) with
          | true => simp
          | false => cases path.last? <;> simp

/-- A derived account is at a place of the path, not before its end, and in the group. It is not
behind the places that are searched, and at the end of the path where no group is asked for. -/
theorem exists_last_of_derive (hDerive : store.derive path group keyType = .ok (account, key)) :
    ∃ first, path.last? = some first ∧ first ≤ account.index ∧
      account.index < DerivationPath.hardened ∧
      account = ⟨path.withLast account.index, account.index,
        (Lockup.ofKey account.publicKey).group, keyType, account.publicKey⟩ ∧
      group.all (· = account.group) = true ∧ (group = none → account.index = first) := by
  obtain ⟨-, -, -, first, hLast, hSearch⟩ := derive_eq_ok_iff.1 hDerive
  obtain ⟨number, hNumber, hFound, hIn, hPassed⟩ := search_eq_ok_iff.1 hSearch
  have hAccount := eq_of_accountAt hFound
  have hIndex : account.index = first + UInt32.ofNat number := by rw [hAccount]
  have hHardened : DerivationPath.hardened.toNat = 0x80000000 := rfl
  refine ⟨first, hLast, ?_, ?_, ?_, hIn, ?_⟩
  · -- The search ends before the hardened numbers, so the sum does not wrap around.
    rw [hIndex, UInt32.le_iff_toNat_le, UInt32.toNat_add, UInt32.toNat_ofNat']
    omega
  · rw [hIndex, UInt32.lt_iff_toNat_lt, UInt32.toNat_add, UInt32.toNat_ofNat']
    omega
  · rw [hAccount]
  · rintro rfl
    cases number with
    | zero => exact hIndex.trans (UInt32.add_zero first)
    | succ number =>
        obtain ⟨passed, other, -, hOther⟩ := hPassed 0 (Nat.zero_lt_succ number)
        cases hOther

/-- A search fails where a key is missing, or it has passed all places. -/
theorem error_of_search {count : Nat} {first : UInt32} {error : DeviceError}
    (hError : store.search path group keyType count first = .error error) :
    error = .invalidPath ∨
      ∃ index, store.key (path.withLast index).indices = .error error := by
  induction count generalizing first with
  | zero =>
      cases hError
      exact .inl rfl
  | succ count ih =>
      rw [search] at hError
      cases hAt : store.accountAt path keyType first with
      | error found =>
          rw [hAt] at hError
          cases hError
          exact .inr ⟨first, key_of_accountAt_error hAt⟩
      | ok found =>
          rw [hAt] at hError
          dsimp only at hError
          split at hError
          · cases hError
          · exact ih hError

/-- There is no account for another kind of key, outside of the paths of accounts, and where the
device has no key. -/
theorem error_of_derive {error : DeviceError}
    (hError : store.derive path group keyType = .error error) :
    error = .unsupportedKeyType ∨ error = .invalidPath ∨
      ∃ index, store.key (path.withLast index).indices = .error error := by
  unfold derive at hError
  split at hError
  · cases hError
    exact .inl rfl
  split at hError
  · cases hError
    exact .inr (.inl rfl)
  split at hError
  · cases hError
    exact .inr (.inl rfl)
  split at hError
  · cases hError
    exact .inr (.inl rfl)
  · exact .inr (error_of_search hError)

end KeyStore

namespace DeviceHandle

variable {store : KeyStore} {path : DerivationPath} {keyType : KeyType} {account : Account}
  {key : store.Key} {group : Option UInt8}

/-- What a device answers about an account that it derived is accepted as that account. -/
theorem accountOf_of_derive (hDerive : store.derive path group keyType = .ok (account, key)) :
    accountOf path group ⟨account.index, account.group, account.keyType, account.publicKey⟩ =
      .ok account := by
  obtain ⟨first, hLast, hIndex, -, hAccount, hIn, -⟩ := KeyStore.exists_last_of_derive hDerive
  have hGroup : (Lockup.ofKey account.publicKey).group = account.group := by rw [hAccount]
  have hKind : keyType = account.keyType := by rw [hAccount]
  rw [hGroup, hKind] at hAccount
  have hNotBefore : path.last?.getD 0 ≤ account.index := by
    rw [hLast]
    exact hIndex
  exact accountOf_eq_ok_iff.2 ⟨hGroup, hIn, hNotBefore, hAccount⟩

end DeviceHandle

end ColdSigner
