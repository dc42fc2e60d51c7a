/-!
# Errors of a serialized transaction
-/
namespace ColdSigner

/-- Why bytes are no transaction that the device signs. -/
inductive TxError where
  /-- The bytes end early, or a length promises more than there is. -/
  | truncated
  | trailingBytes
  /-- A number is written longer than needed. -/
  | nonCanonical
  | overflow
  | invalidLength
  | invalidVersion
  | unknownNetwork
  | unsupportedScript
  | invalidGas
  | noInputs
  /-- An input is unlocked in a way that the device does not know. -/
  | invalidUnlockScript
  /-- The first input refers to the input before it. -/
  | sameAsPreviousFirst
  /-- The hint of an input is not the hint of its key. -/
  | hintMismatch
  | mixedGroups
  /-- An output is locked in a way that the device does not know. -/
  | invalidLockupScript
  /-- A lockup wants no signature, or more than it has keys, or has too many keys. -/
  | invalidMultisig
  | duplicateToken
  deriving DecidableEq, Repr

namespace TxError

def name : TxError → String
  | truncated => "Truncated"
  | trailingBytes => "TrailingBytes"
  | nonCanonical => "NonCanonical"
  | overflow => "Overflow"
  | invalidLength => "InvalidLength"
  | invalidVersion => "InvalidVersion"
  | unknownNetwork => "UnknownNetwork"
  | unsupportedScript => "UnsupportedScript"
  | invalidGas => "InvalidGas"
  | noInputs => "NoInputs"
  | invalidUnlockScript => "InvalidUnlockScript"
  | sameAsPreviousFirst => "SameAsPreviousFirst"
  | hintMismatch => "HintMismatch"
  | mixedGroups => "MixedGroups"
  | invalidLockupScript => "InvalidLockupScript"
  | invalidMultisig => "InvalidMultisig"
  | duplicateToken => "DuplicateToken"

def message : TxError → String
  | truncated => "truncated"
  | trailingBytes => "trailing bytes"
  | nonCanonical => "non-canonical integer"
  | overflow => "integer overflow"
  | invalidLength => "invalid length"
  | invalidVersion => "unsupported version"
  | unknownNetwork => "unknown network"
  | unsupportedScript => "scripts are not supported"
  | invalidGas => "invalid gas amount"
  | noInputs => "no inputs"
  | invalidUnlockScript => "unsupported unlock script"
  | sameAsPreviousFirst => "first input has no previous unlock script"
  | hintMismatch => "input hint does not match unlock key"
  | mixedGroups => "inputs from multiple groups"
  | invalidLockupScript => "invalid lockup script"
  | invalidMultisig => "invalid multisig lockup"
  | duplicateToken => "duplicate token"

end TxError

end ColdSigner
