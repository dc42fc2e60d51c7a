import ColdSigner.Lockup.Address
import ColdSigner.Proofs.BaseNumerals
import ColdSigner.Proofs.TransactionParts
/-!
# Addresses read back

The written form of a valid lockup reads back, and its text in base 58 does. So a lockup has one
address, and a text is the address of one lockup at most (`Lockup.address_one_to_one`).
-/
namespace ColdSigner.Lockup

open Reader

variable {text : String} {lockup other : Lockup}

theorem readAll_read_eq_ok_iff {bytes : Bytes} :
    readAll read bytes = .ok lockup ↔ lockup.isValid = true ∧ bytes = lockup.toBytes :=
  readAll_eq_ok_iff_of_returns returns_read_iff

/-- No lockup has the tag of a contract. -/
theorem head?_toBytes_ne (lockup : Lockup) : lockup.toBytes.head? ≠ some 3 := by
  cases lockup <;> simp [toBytes]

theorem ofAddress_of_contract {rest : Bytes} (hText : Base58.decode? text = some (3 :: rest)) :
    ofAddress text = .error .contract := by
  rw [ofAddress, hText]
  rfl

/-- A text whose bytes are not those of a contract is an address if they are a lockup. -/
theorem ofAddress_of_bytes {bytes : Bytes} (hText : Base58.decode? text = some bytes)
    (hTag : bytes.head? ≠ some 3) :
    ofAddress text = (readAll read bytes).mapError .malformed := by
  rw [ofAddress, hText]
  exact if_neg hTag

/-- What is parsed as a lockup is the address of it, and the lockup can be satisfied. -/
theorem ofAddress_eq_ok_iff :
    ofAddress text = .ok lockup ↔ text = lockup.address ∧ lockup.isValid = true := by
  constructor
  · intro hRead
    cases hText : Base58.decode? text with
    | none =>
        rw [ofAddress, hText] at hRead
        cases hRead
    | some bytes =>
        by_cases hTag : bytes.head? = some 3
        · obtain ⟨rest, rfl⟩ := List.head?_eq_some_iff.1 hTag
          rw [ofAddress_of_contract hText] at hRead
          cases hRead
        · rw [ofAddress_of_bytes hText hTag] at hRead
          cases hLockup : readAll read bytes with
          | error error =>
              rw [hLockup] at hRead
              cases hRead
          | ok found =>
              rw [hLockup] at hRead
              cases hRead
              obtain ⟨hValid, rfl⟩ := readAll_read_eq_ok_iff.1 hLockup
              exact ⟨Base58.decode?_eq_some_iff.1 hText, hValid⟩
  · rintro ⟨rfl, hValid⟩
    have hText : Base58.decode? lockup.address = some lockup.toBytes := Base58.decode?_encode _
    rw [ofAddress_of_bytes hText lockup.head?_toBytes_ne, readAll_read_eq_ok_iff.2 ⟨hValid, rfl⟩]
    rfl

/-- A text is parsed as a lockup exactly if it is the address of it and the lockup can be satisfied.
So different lockups have different addresses, a parsed address is written as before, and the group
is read off the address. The address of a contract is refused as such. -/
theorem address_one_to_one :
    (∀ text lockup, ofAddress text = .ok lockup ↔
      text = lockup.address ∧ lockup.isValid = true) ∧
    (∀ lockup other : Lockup, lockup.isValid = true → other.isValid = true →
      lockup.address = other.address → lockup = other) ∧
    (∀ text lockup, ofAddress text = .ok lockup → lockup.address = text) ∧
    (∀ lockup : Lockup, lockup.isValid = true →
      groupOfAddress lockup.address = .ok lockup.group) ∧
    ∀ text rest, Base58.decode? text = some (3 :: rest) → ofAddress text = .error .contract := by
  refine ⟨fun _ _ => ofAddress_eq_ok_iff, ?_, ?_, ?_, fun _ _ => ofAddress_of_contract⟩
  · intro lockup other hValid hOther hAddress
    have hRead := ofAddress_eq_ok_iff.2 ⟨rfl, hValid⟩
    rw [hAddress, ofAddress_eq_ok_iff.2 ⟨rfl, hOther⟩] at hRead
    exact (Except.ok.inj hRead).symm
  · intro text lockup hRead
    exact (ofAddress_eq_ok_iff.1 hRead).1.symm
  · intro lockup hValid
    rw [groupOfAddress, ofAddress_eq_ok_iff.2 ⟨rfl, hValid⟩]
    rfl

/-- Two of three keys. -/
def twoOfThree : Lockup :=
  .multisig [FixedBytes.bigEndian 32 1, FixedBytes.bigEndian 32 2, FixedBytes.bigEndian 32 3] 2

/-- The address of a lockup of several keys, and one of a contract. -/
theorem address_one_to_one_twoOfThree :
    twoOfThree.isValid = true ∧ ofAddress twoOfThree.address = .ok twoOfThree ∧
      groupOfAddress twoOfThree.address = .ok twoOfThree.group ∧
      ofAddress (Base58.encode (3 :: (FixedBytes.zero 32).toList)) = .error .contract := by
  have hValid : twoOfThree.isValid = true := by decide
  obtain ⟨hRead, -, -, hGroup, hContract⟩ := address_one_to_one
  exact ⟨hValid, (hRead _ _).2 ⟨rfl, hValid⟩, hGroup _ hValid,
    hContract _ _ (Base58.decode?_encode _)⟩

end ColdSigner.Lockup
