import ColdSigner.Proofs.HostAccounts
/-!
# The first account in a group

The search looks at one place of the path after the other, from its end up to the hardened numbers.
It passes a place only for a key in another group, so what it finds is the first account that
matches, and it stops at the first place without a key (`KeyStore.derive_first`). An account that
was found is found again under its own path.
-/
namespace ColdSigner

namespace DerivationPath

variable {path : DerivationPath}

theorem last?_withLast {last : UInt32} (hLast : path.last? = some last) (index : UInt32) :
    (path.withLast index).last? = some index := by
  rw [last?, indices_withLast (indices_ne_nil_of_last? hLast), List.getLast?_concat]

/-- Of two last numbers the later one counts. -/
theorem withLast_withLast {last : UInt32} (hLast : path.last? = some last) (index other : UInt32) :
    (path.withLast index).withLast other = path.withLast other := by
  have hSome := indices_ne_nil_of_last? hLast
  have hFirst := indices_ne_nil_of_last? (last?_withLast hLast index)
  apply ext
  rw [indices_withLast hFirst, indices_withLast hSome, indices_withLast hSome, List.dropLast_concat]

/-- The last number of the path of an account is not hardened. -/
theorem last_lt_of_isAccountPath (hPath : Account.isAccountPath path = true) {last : UInt32}
    (hLast : path.last? = some last) : last < hardened := by
  have hSame := isAccountPath_withLast hPath last
  rw [(withLast_eq_iff hLast).2 rfl, hPath, eq_comm, Bool.not_eq_true', isHardened,
    decide_eq_false_iff_not] at hSame
  exact UInt32.not_le.1 hSame

end DerivationPath

/-- A number that is not less is so many places behind. -/
theorem add_ofNat_sub_of_le {first index : UInt32} (hFrom : first ≤ index) :
    first + UInt32.ofNat (index.toNat - first.toNat) = index := by
  have hIndex := index.toNat_lt
  rw [UInt32.le_iff_toNat_le] at hFrom
  apply UInt32.toNat_inj.1
  rw [UInt32.toNat_add, UInt32.toNat_ofNat']
  omega

/-- There are accounts with this kind of key, under this path and in this group. -/
structure Account.Offered (path : DerivationPath) (group : Option UInt8) (keyType : KeyType) :
    Prop where
  keyType_eq : keyType = .ecdsa
  checkPath_eq : checkPath path = .ok ()
  group_lt : ∀ wanted, group = some wanted → wanted < groupCount

theorem Account.offered_iff {path : DerivationPath} {group : Option UInt8} {keyType : KeyType} :
    Offered path group keyType ↔ keyTypes.supports keyType = true ∧ isAccountPath path = true ∧
      group.any (groupCount ≤ ·) = false := by
  have hKeyType : keyTypes.supports keyType = true ↔ keyType = .ecdsa := by
    cases keyType <;> decide
  have hPath : checkPath path = .ok () ↔ isAccountPath path = true := by
    unfold checkPath
    cases isAccountPath path <;> simp
  have hGroup : group.any (groupCount ≤ ·) = false ↔
      ∀ wanted, group = some wanted → wanted < groupCount := by
    cases group <;> simp
  rw [hKeyType, ← hPath, hGroup]
  exact ⟨fun h => ⟨h.1, h.2, h.3⟩, fun h => ⟨h.1, h.2.1, h.2.2⟩⟩

namespace KeyStore

variable {store : KeyStore} {path : DerivationPath} {group : Option UInt8} {keyType : KeyType}
  {account : Account} {key : store.Key} {first index : UInt32}

/-- The group of the outputs that a key can spend. -/
def groupOf (store : KeyStore) (key : store.Key) : UInt8 :=
  (Lockup.ofKey (store.publicKey key)).group

/-- The account of a key at this place of a path. -/
def accountOfKey (store : KeyStore) (path : DerivationPath) (keyType : KeyType) (index : UInt32)
    (key : store.Key) : Account :=
  ⟨path.withLast index, index, store.groupOf key, keyType, store.publicKey key⟩

/-- The key at this place of a path is in another group than the one that is asked for. -/
def IsElsewhere (store : KeyStore) (path : DerivationPath) (group : Option UInt8)
    (index : UInt32) : Prop :=
  ∃ key wanted, store.key (path.withLast index).indices = .ok key ∧ group = some wanted ∧
    store.groupOf key ≠ wanted

theorem accountAt_of_key (hKey : store.key (path.withLast index).indices = .ok key) :
    store.accountAt path keyType index =
      .ok (store.accountOfKey path keyType index key, key) := by
  simp only [accountAt, hKey]
  rfl

theorem accountAt_of_no_key {error : DeviceError}
    (hKey : store.key (path.withLast index).indices = .error error) :
    store.accountAt path keyType index = .error error := by
  simp only [accountAt, hKey]
  rfl

/-- An account is at a place exactly if its key is. -/
theorem accountAt_eq_ok_iff :
    store.accountAt path keyType index = .ok (account, key) ↔
      store.key (path.withLast index).indices = .ok key ∧
        account = store.accountOfKey path keyType index key := by
  constructor
  · intro hFound
    cases hKey : store.key (path.withLast index).indices with
    | error error =>
        rw [accountAt_of_no_key hKey] at hFound
        cases hFound
    | ok found =>
        rw [accountAt_of_key hKey] at hFound
        cases hFound
        exact ⟨rfl, rfl⟩
  · rintro ⟨hKey, rfl⟩
    exact accountAt_of_key hKey

theorem isElsewhere_iff_accountAt (keyType : KeyType) :
    store.IsElsewhere path group index ↔ ∃ passed other,
      store.accountAt path keyType index = .ok (passed, other) ∧
        group.all (· = passed.group) = false := by
  simp only [accountAt_eq_ok_iff]
  constructor
  · rintro ⟨key, wanted, hKey, rfl, hOther⟩
    refine ⟨_, key, ⟨hKey, rfl⟩, decide_eq_false ?_⟩
    exact Ne.symm hOther
  · rintro ⟨passed, key, ⟨hKey, rfl⟩, hOther⟩
    cases group with
    | none => cases hOther
    | some wanted => exact ⟨key, wanted, hKey, rfl, Ne.symm (of_decide_eq_false hOther)⟩

/-- The search goes on behind a key in another group. -/
theorem search_succ_of_isElsewhere (hElsewhere : store.IsElsewhere path group first)
    (count : Nat) :
    store.search path group keyType (count + 1) first =
      store.search path group keyType count (first + 1) := by
  obtain ⟨passed, other, hAt, hOther⟩ := (isElsewhere_iff_accountAt keyType).1 hElsewhere
  rw [search, hAt]
  exact if_neg (by simp [hOther])

/-- The places from a number up to the hardened ones. -/
def placesFrom (first : UInt32) : Nat := DerivationPath.hardened.toNat - first.toNat

theorem toNat_hardened : DerivationPath.hardened.toNat = 0x80000000 := rfl

theorem toNat_add_one (hIndex : index < DerivationPath.hardened) :
    (index + 1).toNat = index.toNat + 1 := by
  rw [UInt32.lt_iff_toNat_lt, toNat_hardened] at hIndex
  rw [UInt32.toNat_add]
  change (index.toNat + 1) % 2 ^ 32 = index.toNat + 1
  omega

theorem placesFrom_eq_succ (hIndex : index < DerivationPath.hardened) :
    placesFrom index = placesFrom (index + 1) + 1 := by
  have hNext := toNat_add_one hIndex
  rw [UInt32.lt_iff_toNat_lt] at hIndex
  unfold placesFrom
  omega

/-- A search passes all keys in other groups. -/
theorem search_eq_of_isElsewhere (hFrom : first ≤ index) (hTo : index ≤ DerivationPath.hardened)
    (hPassed : ∀ earlier, first ≤ earlier → earlier < index →
      store.IsElsewhere path group earlier) :
    store.search path group keyType (placesFrom first) first =
      store.search path group keyType (placesFrom index) index := by
  induction hDistance : index.toNat - first.toNat generalizing first with
  | zero =>
      rw [UInt32.le_iff_toNat_le] at hFrom
      obtain rfl : first = index := UInt32.toNat_inj.1 (by omega)
      rfl
  | succ distance ih =>
      have hBefore : first < index := UInt32.lt_iff_toNat_lt.2 (by omega)
      have hPlace : first < DerivationPath.hardened := UInt32.lt_of_lt_of_le hBefore hTo
      have hNext := toNat_add_one hPlace
      rw [UInt32.lt_iff_toNat_lt] at hBefore
      rw [placesFrom_eq_succ hPlace, search_succ_of_isElsewhere (hPassed first UInt32.le_rfl
        (UInt32.lt_iff_toNat_lt.2 hBefore))]
      refine ih (UInt32.le_iff_toNat_le.2 (by omega)) ?_ (by omega)
      intro earlier hEarlier
      rw [UInt32.le_iff_toNat_le] at hEarlier
      exact hPassed earlier (UInt32.le_iff_toNat_le.2 (by omega))

theorem search_of_no_key {error : DeviceError} (hIndex : index < DerivationPath.hardened)
    (hKey : store.key (path.withLast index).indices = .error error) :
    store.search path group keyType (placesFrom index) index = .error error := by
  rw [placesFrom_eq_succ hIndex, search, accountAt_of_no_key hKey]

theorem search_of_key (hIndex : index < DerivationPath.hardened)
    (hKey : store.key (path.withLast index).indices = .ok key)
    (hGroup : ∀ wanted, group = some wanted → store.groupOf key = wanted) :
    store.search path group keyType (placesFrom index) index =
      .ok (store.accountOfKey path keyType index key, key) := by
  have hAll : group.all (· = store.groupOf key) = true := by
    cases group with
    | none => rfl
    | some wanted => exact decide_eq_true (hGroup wanted rfl).symm
  rw [placesFrom_eq_succ hIndex, search, accountAt_of_key hKey]
  exact if_pos hAll

theorem derive_of_offered (hOffered : Account.Offered path group keyType)
    (hLast : path.last? = some first) :
    store.derive path group keyType =
      store.search path group keyType (placesFrom first) first := by
  obtain ⟨hKeyType, hPath, hGroup⟩ := Account.offered_iff.1 hOffered
  simp only [derive, hKeyType, hPath, hGroup, hLast, Bool.not_true, Bool.false_eq_true, if_false]
  rfl

/-- What is found is the first account in the group. -/
theorem derive_eq_ok_iff_first :
    store.derive path group keyType = .ok (account, key) ↔
      Account.Offered path group keyType ∧
        ∃ first index, path.last? = some first ∧ first ≤ index ∧
          index < DerivationPath.hardened ∧ store.key (path.withLast index).indices = .ok key ∧
          (∀ wanted, group = some wanted → store.groupOf key = wanted) ∧
          (∀ earlier, first ≤ earlier → earlier < index →
            store.IsElsewhere path group earlier) ∧
          account = store.accountOfKey path keyType index key := by
  constructor
  · intro hDerive
    obtain ⟨hKeyType, hPath, hGroup, first, hLast, hSearch⟩ := derive_eq_ok_iff.1 hDerive
    obtain ⟨_, hLastAgain, hFrom, hTo, -, hIn, -⟩ := exists_last_of_derive hDerive
    obtain ⟨number, -, hFound, -, hPassed⟩ := search_eq_ok_iff.1 hSearch
    cases hLast.symm.trans hLastAgain
    obtain ⟨hKey, hAccount⟩ := accountAt_eq_ok_iff.1 hFound
    have hIndex : account.index = first + UInt32.ofNat number := by rw [hAccount]; rfl
    rw [← hIndex] at hKey hAccount
    refine ⟨Account.offered_iff.2 ⟨hKeyType, hPath, hGroup⟩, first, account.index, hLast, hFrom,
      hTo, hKey, ?_, ?_, hAccount⟩
    · rintro wanted rfl
      rw [hAccount] at hIn
      exact (of_decide_eq_true hIn).symm
    · intro earlier hEarlier hBefore
      rw [← add_ofNat_sub_of_le hEarlier]
      refine (isElsewhere_iff_accountAt keyType).2 (hPassed _ ?_)
      rw [UInt32.le_iff_toNat_le] at hEarlier
      rw [hIndex, UInt32.lt_iff_toNat_lt, UInt32.toNat_add, UInt32.toNat_ofNat'] at hBefore
      omega
  · rintro ⟨hOffered, first, index, hLast, hFrom, hTo, hKey, hGroup, hPassed, rfl⟩
    rw [derive_of_offered hOffered hLast,
      search_eq_of_isElsewhere hFrom (UInt32.le_of_lt hTo) hPassed, search_of_key hTo hKey hGroup]

theorem groupOf_lt (store : KeyStore) (key : store.Key) : store.groupOf key < groupCount :=
  UInt8.mod_lt _ (by decide)

/-- An account that was found is the first one under its own path, in any group and in its own. -/
theorem derive_again (hDerive : store.derive path group keyType = .ok (account, key))
    {again : Option UInt8} (hAgain : again = none ∨ again = some account.group) :
    store.derive account.path again keyType = .ok (account, key) := by
  obtain ⟨hOffered, first, index, hLast, -, hIndex, hKey, -, -, rfl⟩ :=
    derive_eq_ok_iff_first.1 hDerive
  have hPath : Account.isAccountPath (path.withLast index) = true :=
    DerivationPath.isAccountPath_withLast_of_lt (Account.offered_iff.1 hOffered).2.1 hIndex
  have hWanted : ∀ wanted, again = some wanted → store.groupOf key = wanted := by
    rintro wanted rfl
    rcases hAgain with hNone | hSome
    · cases hNone
    · exact (Option.some.inj hSome).symm
  have hPlace (place : UInt32) : (path.withLast index).withLast place = path.withLast place :=
    DerivationPath.withLast_withLast hLast index place
  refine derive_eq_ok_iff_first.2 ⟨⟨hOffered.keyType_eq, if_pos hPath, ?_⟩, index, index,
    DerivationPath.last?_withLast hLast index, UInt32.le_rfl, hIndex, ?_, hWanted, ?_, ?_⟩
  · intro wanted hSome
    rw [← hWanted wanted hSome]
    exact store.groupOf_lt key
  · change store.key ((path.withLast index).withLast index).indices = .ok key
    rw [hPlace, hKey]
  · intro earlier hFrom hBefore
    exact absurd hBefore (UInt32.not_lt.2 hFrom)
  · change store.accountOfKey path keyType index key =
      store.accountOfKey (path.withLast index) keyType index key
    simp only [accountOfKey, hPlace]

/-- The account that is derived is the first one that matches: the places before it all have keys,
and these are in other groups. Where no group is asked for it is at the end of the path. Derived
from its own path it is the same account again. A search that finds only other groups ends with an
invalid path, and one that meets a place without a key ends with the error from there. -/
theorem derive_first (store : KeyStore) (path : DerivationPath) (group : Option UInt8)
    (keyType : KeyType) :
    (∀ account key, store.derive path group keyType = .ok (account, key) ↔
      Account.Offered path group keyType ∧
        ∃ first index, path.last? = some first ∧ first ≤ index ∧
          index < DerivationPath.hardened ∧ store.key (path.withLast index).indices = .ok key ∧
          (∀ wanted, group = some wanted → store.groupOf key = wanted) ∧
          (∀ earlier, first ≤ earlier → earlier < index →
            store.IsElsewhere path group earlier) ∧
          account = ⟨path.withLast index, index, store.groupOf key, keyType,
            store.publicKey key⟩) ∧
    (∀ account key, store.derive path group keyType = .ok (account, key) →
      (group = none → path.last? = some account.index) ∧
        store.derive account.path none keyType = .ok (account, key) ∧
        store.derive account.path (some account.group) keyType = .ok (account, key)) ∧
    (Account.Offered path group keyType → ∀ first, path.last? = some first →
      ((∀ index, first ≤ index → index < DerivationPath.hardened →
          store.IsElsewhere path group index) →
        store.derive path group keyType = .error .invalidPath) ∧
      ∀ index error, first ≤ index → index < DerivationPath.hardened →
        store.key (path.withLast index).indices = .error error →
        (∀ earlier, first ≤ earlier → earlier < index → store.IsElsewhere path group earlier) →
        store.derive path group keyType = .error error) := by
  refine ⟨fun account key => derive_eq_ok_iff_first, ?_, ?_⟩
  · intro account key hDerive
    refine ⟨fun hGroup => ?_, derive_again hDerive (.inl rfl), derive_again hDerive (.inr rfl)⟩
    obtain ⟨first, hLast, -, -, -, -, hFirst⟩ := exists_last_of_derive hDerive
    rw [hLast, hFirst hGroup]
  · intro hOffered first hLast
    rw [derive_of_offered hOffered hLast]
    have hPath := (Account.offered_iff.1 hOffered).2.1
    have hFirst := UInt32.le_of_lt (DerivationPath.last_lt_of_isAccountPath hPath hLast)
    constructor
    · intro hPassed
      rw [search_eq_of_isElsewhere hFirst UInt32.le_rfl hPassed]
      rfl
    · intro index error hFrom hTo hKey hPassed
      rw [search_eq_of_isElsewhere hFrom (UInt32.le_of_lt hTo) hPassed, search_of_no_key hTo hKey]

open Engine (firstAccount)

/-- Keys that are numbered by the last number of their path, but for the second one, which is
missing. -/
def gappedKeys : KeyStore where
  Key := UInt32
  key indices :=
    if indices.getLastD 0 = 2 then .error .encodingFailed else .ok (indices.getLastD 0)
  publicKey number := FixedBytes.bigEndian 33 number.toNat
  sign _ _ := none

/-- From the third place on, the first account of group 0 is at the fourth one. From the start, the
search does not come beyond the missing key. At the last place there is no account of group 1. -/
theorem derive_first_gapped :
    let fourth : Account := ⟨firstAccount.withLast 4, 4, 0, .ecdsa, FixedBytes.bigEndian 33 4⟩
    (∃ key, gappedKeys.derive (firstAccount.withLast 3) (some 0) .ecdsa = .ok (fourth, key) ∧
      gappedKeys.derive fourth.path (some 0) .ecdsa = .ok (fourth, key)) ∧
    gappedKeys.derive firstAccount (some 0) .ecdsa = .error .encodingFailed ∧
    gappedKeys.derive (firstAccount.withLast 0x7fffffff) (some 1) .ecdsa =
      .error .invalidPath := by
  intro fourth
  have hOffered (index : UInt32) (wanted : UInt8) (hIndex : index < DerivationPath.hardened)
      (hWanted : wanted < groupCount) :
      Account.Offered (firstAccount.withLast index) (some wanted) .ecdsa := by
    refine ⟨rfl, if_pos ?_, fun _ hSome => Option.some.inj hSome ▸ hWanted⟩
    exact DerivationPath.isAccountPath_withLast_of_lt (by decide) hIndex
  have hOther (path : DerivationPath) (number : UInt32) (wanted : UInt8)
      (hKey : gappedKeys.key (path.withLast number).indices = .ok number)
      (hGroup : gappedKeys.groupOf number ≠ wanted) :
      gappedKeys.IsElsewhere path (some wanted) number := ⟨number, wanted, hKey, rfl, hGroup⟩
  have hOnly {place bound index : UInt32} (hBound : bound.toNat = place.toNat + 1)
      (hFrom : place ≤ index) (hTo : index < bound) : index = place := by
    rw [UInt32.le_iff_toNat_le] at hFrom
    rw [UInt32.lt_iff_toNat_lt] at hTo
    exact UInt32.toNat_inj.1 (by omega)
  have hFourth : gappedKeys.groupOf (4 : UInt32) = 0 := by decide +kernel
  have hFound : gappedKeys.derive (firstAccount.withLast 3) (some 0) .ecdsa =
      .ok (fourth, (4 : UInt32)) := by
    refine ((derive_first gappedKeys (firstAccount.withLast 3) (some 0) .ecdsa).1 fourth
      (4 : UInt32)).2 ⟨hOffered 3 0 (by decide) (by decide), 3, 4, rfl, by decide, by decide, rfl,
        fun _ hSome => Option.some.inj hSome ▸ hFourth, ?_, by rw [hFourth]; rfl⟩
    intro earlier hFrom hBefore
    obtain rfl := hOnly rfl hFrom hBefore
    exact hOther _ 3 0 rfl (by decide +kernel)
  refine ⟨⟨(4 : UInt32), hFound,
    ((derive_first gappedKeys (firstAccount.withLast 3) (some 0) .ecdsa).2.1 _ _ hFound).2.2⟩,
    ?_, ?_⟩
  · refine ((derive_first gappedKeys firstAccount (some 0) .ecdsa).2.2
      (hOffered 0 0 (by decide) (by decide)) 0 rfl).2 2 _ (by decide) (by decide) rfl ?_
    intro earlier _ hBefore
    rw [UInt32.lt_iff_toNat_lt] at hBefore
    have hPlace : earlier = 0 ∨ earlier = 1 := by
      simp only [← UInt32.toNat_inj]
      change earlier.toNat < 2 at hBefore
      change earlier.toNat = 0 ∨ earlier.toNat = 1
      omega
    rcases hPlace with rfl | rfl
    · exact hOther _ 0 0 rfl (by decide +kernel)
    · exact hOther _ 1 0 rfl (by decide +kernel)
  · refine ((derive_first gappedKeys (firstAccount.withLast 0x7fffffff) (some 1) .ecdsa).2.2
      (hOffered 0x7fffffff 1 (by decide) (by decide)) 0x7fffffff rfl).1 ?_
    intro index hFrom hTo
    obtain rfl := hOnly rfl hFrom hTo
    exact hOther _ 0x7fffffff 1 rfl (by decide +kernel)

end KeyStore

end ColdSigner
