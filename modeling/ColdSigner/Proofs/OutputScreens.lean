import ColdSigner.Proofs.DisplayedValues
import ColdSigner.Proofs.TransactionParts
import ColdSigner.Review.Screen
/-!
# What an output looks like

The user decides about an output from its screens. Two outputs have the same screens exactly if
they agree in everything that can be seen (`TxOutput.screens_eq_iff`): who receives them, every
token with its exact amount, and the amount of the coin and the lock time down to what is visible
of them.
-/
namespace ColdSigner

open Display Reader

namespace Lockup

/-- A lockup that can be satisfied is determined by its written form. -/
theorem toBytes_inj {lockup other : Lockup} (hValid : lockup.isValid = true)
    (hOther : other.isValid = true) : lockup.toBytes = other.toBytes ↔ lockup = other := by
  refine ⟨fun hBytes => ?_, fun h => h ▸ rfl⟩
  have hPasses : (Cursor.start lockup.toBytes).Passes lockup.toBytes
      ⟨lockup.toBytes.length, []⟩ := by
    simp [Cursor.Passes, Cursor.start]
  have hRead := returns_read_iff.2 ⟨hValid, hPasses⟩
  rw [hBytes] at hPasses
  have hReadOther := returns_read_iff.2 ⟨hOther, hPasses⟩
  rw [← hBytes] at hReadOther
  unfold Returns at hRead hReadOther
  rw [hRead] at hReadOther
  simpa using hReadOther

/-- A lockup that can be satisfied is determined by its address. -/
theorem address_inj {lockup other : Lockup} (hValid : lockup.isValid = true)
    (hOther : other.isValid = true) : lockup.address = other.address ↔ lockup = other := by
  rw [address, address, Base58.encode_inj, toBytes_inj hValid hOther]

end Lockup

theorem Screen.one_inj {name value other : String} :
    Screen.one name value = Screen.one name other ↔ value = other := by
  simp [Screen.one]

namespace TxOutput

/-- What two outputs have in common that a user cannot tell apart. -/
structure LooksLike (first second : TxOutput) : Prop where
  lockup_eq : first.lockup = second.lockup
  tokens_eq : first.tokens = second.tokens
  visible_eq : first.amount.toNat / 10 ^ 12 = second.amount.toNat / 10 ^ 12
  zero_iff : first.amount.toNat = 0 ↔ second.amount.toNat = 0
  unlocked_iff : first.lockTime = 0 ↔ second.lockTime = 0
  seconds_eq : first.lockTime.toNat / 1000 = second.lockTime.toNat / 1000
  silent_iff : first.data = [] ↔ second.data = []
  note_eq : note first.data = note second.data

theorem tokenScreen_inj {token other : Token} :
    tokenScreen token = tokenScreen other ↔ token = other := by
  have hSize : 64 = 2 * 32 := rfl
  simp only [tokenScreen, hSize, Screen.mk.injEq, List.cons.injEq, Prod.mk.injEq, true_and,
    and_true, hex_inj, amount_inj]
  cases token
  cases other
  simp

/-- The screens of the tokens end where another kind of screen begins. -/
theorem tokenScreens_append_inj {tokens others : List Token} {name value otherValue : String}
    {rest otherRest : List Screen} :
    tokens.map tokenScreen ++ Screen.one name value :: rest =
        others.map tokenScreen ++ Screen.one name otherValue :: otherRest ↔
      tokens = others ∧ value = otherValue ∧ rest = otherRest := by
  induction tokens generalizing others with
  | nil =>
      cases others with
      | nil => simp [Screen.one_inj]
      | cons other others => simp [Screen.one, tokenScreen]
  | cons token tokens ih =>
      cases others with
      | nil => simp [Screen.one, tokenScreen]
      | cons other others => simp [tokenScreen_inj, ih, and_assoc]

def lockTimeScreens (lockTime : UInt64) : List Screen :=
  if lockTime = 0 then [] else [Screen.one "Lock Time" (time coinCapacity lockTime)]

def messageScreens (data : Bytes) : List Screen :=
  if data = [] then [] else [Screen.one "Message" (note data)]

theorem screens_eq (output : TxOutput) :
    output.screens = Screen.one "Address" output.lockup.address ::
      (multisigScreens output.lockup ++ (output.tokens.map tokenScreen ++
        Screen.one "ALPH" (coin coinCapacity output.amount) ::
          (lockTimeScreens output.lockTime ++ messageScreens output.data))) := by
  simp [screens, lockTimeScreens, messageScreens]

theorem messageScreens_eq_iff {data other : Bytes} :
    messageScreens data = messageScreens other ↔
      (data = [] ↔ other = []) ∧ note data = note other := by
  unfold messageScreens
  by_cases hData : data = [] <;> by_cases hOther : other = []
  · simp [hData, hOther]
  · simp [hData, hOther]
  · simp [hData, hOther]
  · simp [hData, hOther, Screen.one_inj]

/-- A lock time and a message are told apart by the names of their screens. -/
theorem endScreens_eq_iff {lockTime otherTime : UInt64} {data other : Bytes} :
    lockTimeScreens lockTime ++ messageScreens data =
        lockTimeScreens otherTime ++ messageScreens other ↔
      ((lockTime = 0 ↔ otherTime = 0) ∧
          lockTime.toNat / 1000 = otherTime.toNat / 1000) ∧
        (data = [] ↔ other = []) ∧ note data = note other := by
  rw [← messageScreens_eq_iff]
  have hName {time : String} {rest : List Screen} :
      Screen.one "Lock Time" time :: rest ≠ messageScreens data ∧
        Screen.one "Lock Time" time :: rest ≠ messageScreens other := by
    unfold messageScreens
    constructor <;> split <;> simp [Screen.one]
  unfold lockTimeScreens
  by_cases hTime : lockTime = 0 <;> by_cases hOther : otherTime = 0
  · simp [hTime, hOther]
  · simp [hTime, hOther, Ne.symm hName.1]
  · simp [hTime, hOther, hName.2]
  · simp [hTime, hOther, Screen.one_inj, time_eq_iff]

/-- Outputs that can be spent have the same screens exactly if they look alike. -/
theorem screens_eq_iff {first second : TxOutput} (hFirst : first.lockup.isValid = true)
    (hSecond : second.lockup.isValid = true) :
    first.screens = second.screens ↔ first.LooksLike second := by
  rw [screens_eq, screens_eq, List.cons.injEq, Screen.one_inj,
    Lockup.address_inj hFirst hSecond]
  constructor
  · rintro ⟨hLockup, hScreens⟩
    rw [hLockup, List.append_cancel_left_eq, tokenScreens_append_inj, coin_eq_iff,
      endScreens_eq_iff] at hScreens
    obtain ⟨hTokens, ⟨hVisible, hZero⟩, ⟨hUnlocked, hSeconds⟩, hSilent, hNote⟩ := hScreens
    exact ⟨hLockup, hTokens, hVisible, hZero, hUnlocked, hSeconds, hSilent, hNote⟩
  · intro hAlike
    refine ⟨hAlike.lockup_eq, ?_⟩
    rw [hAlike.lockup_eq, List.append_cancel_left_eq, tokenScreens_append_inj, coin_eq_iff,
      endScreens_eq_iff]
    exact ⟨hAlike.tokens_eq, ⟨hAlike.visible_eq, hAlike.zero_iff⟩,
      ⟨hAlike.unlocked_iff, hAlike.seconds_eq⟩, hAlike.silent_iff, hAlike.note_eq⟩

/-- Two of three keys receive some of a token and about one and a half of the coin. -/
def shared : TxOutput where
  amount := ⟨1500000000000000001, by decide⟩
  lockup := .multisig [.zero 32, .bigEndian 32 1, .bigEndian 32 2] 2
  lockTime := 1700000000123
  tokens := [⟨.bigEndian 32 7, ⟨10 ^ 30 + 1, by decide⟩⟩]
  data := [0xff]

/-- The same to the eye: some units more, a little later, and the letters `ff` for the byte. -/
def sharedTwin : TxOutput :=
  { shared with
    amount := ⟨1500000999999999999, by decide⟩
    lockTime := 1700000000999
    data := [0x66, 0x66] }

theorem screens_eq_iff_shared :
    shared.lockup.isValid = true ∧ sharedTwin.lockup.isValid = true ∧ shared ≠ sharedTwin ∧
      shared.LooksLike sharedTwin ∧ shared.screens = sharedTwin.screens := by
  have hValid : shared.lockup.isValid = true := by decide
  have hTwin : sharedTwin.lockup.isValid = true := by decide
  have hAlike : shared.LooksLike sharedTwin :=
    { lockup_eq := rfl
      tokens_eq := rfl
      visible_eq := by decide
      zero_iff := by decide
      unlocked_iff := by decide
      seconds_eq := by decide
      silent_iff := by decide
      note_eq := by decide }
  exact ⟨hValid, hTwin, by decide, hAlike, (screens_eq_iff hValid hTwin).2 hAlike⟩

end TxOutput

end ColdSigner
