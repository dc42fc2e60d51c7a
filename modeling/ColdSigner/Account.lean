import ColdSigner.Apdu.Message
import ColdSigner.Device.Error
import ColdSigner.Lockup.Address
/-!
# Accounts

An account is a key with the path that leads to it. Paths of accounts have five numbers: 44 and
1234, both hardened, a hardened one for the account, and two that are not hardened. Where a
group is asked for, the last number is increased until the key belongs to the group.
-/
namespace ColdSigner

structure Account where
  path : DerivationPath
  /-- The last number of the path. -/
  index : UInt32
  group : UInt8
  keyType : KeyType
  publicKey : PublicKey
  deriving DecidableEq

namespace Account

/-- The lockup of outputs that the account can spend. -/
def lockup (account : Account) : Lockup := .ofKey account.publicKey

def address (account : Account) : String := account.lockup.address

/-- The kinds of keys that accounts have. -/
def keyTypes : KeyTypes := ⟨true, false⟩

def isAccountPath (path : DerivationPath) : Bool :=
  match path.indices with
  | [purpose, coin, account, change, index] =>
      purpose == 44 + DerivationPath.hardened && coin == 1234 + DerivationPath.hardened &&
        DerivationPath.isHardened account && !DerivationPath.isHardened change &&
        !DerivationPath.isHardened index
  | _ => false

def checkPath (path : DerivationPath) : Except DeviceError Unit :=
  if isAccountPath path then .ok () else .error .invalidPath

end Account

/-- Where a device has its keys from, and what it does with one. -/
structure KeyStore where
  Key : Type
  /-- The key at the end of a path. -/
  key : List UInt32 → Except DeviceError Key
  publicKey : Key → PublicKey
  /-- The signature of a hash. -/
  sign : Key → FixedBytes 32 → Option Signature

namespace KeyStore

variable (store : KeyStore)

/-- The account at this place of a path. -/
def accountAt (path : DerivationPath) (keyType : KeyType) (index : UInt32) :
    Except DeviceError (Account × store.Key) := do
  let path := path.withLast index
  let key ← store.key path.indices
  let publicKey := store.publicKey key
  return (⟨path, index, (Lockup.ofKey publicKey).group, keyType, publicKey⟩, key)

/-- The first account in a group among so many places of a path, in order. -/
def search (path : DerivationPath) (group : Option UInt8) (keyType : KeyType) :
    Nat → UInt32 → Except DeviceError (Account × store.Key)
  | 0, _ => .error .invalidPath
  | count + 1, index =>
      match store.accountAt path keyType index with
      | .error e => .error e
      | .ok found =>
          if group.all (· = found.1.group) then .ok found
          else search path group keyType count (index + 1)

/-- The account that is asked for, and its key. The kind of key is checked first, then the
path, then the group. -/
def derive (path : DerivationPath) (group : Option UInt8) (keyType : KeyType) :
    Except DeviceError (Account × store.Key) :=
  if !Account.keyTypes.supports keyType then .error .unsupportedKeyType
  else if !Account.isAccountPath path then .error .invalidPath
  else if group.any (groupCount ≤ ·) then .error .invalidPath
  else match path.last? with
    | none => .error .invalidPath
    | some first =>
        store.search path group keyType (DerivationPath.hardened.toNat - first.toNat) first

end KeyStore

end ColdSigner
