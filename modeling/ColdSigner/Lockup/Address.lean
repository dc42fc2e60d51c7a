import ColdSigner.Bytes.Base58
import ColdSigner.Lockup
/-!
# Addresses

The address of a lockup is its written form in base 58. The addresses of contracts have a tag
of their own and are refused, since the lockups here hold assets.
-/
namespace ColdSigner

/-- Why a text is no address of a lockup. -/
inductive AddressError where
  | base58
  | contract
  | malformed (error : TxError)
  deriving DecidableEq, Repr

namespace AddressError

def name : AddressError → String
  | base58 => "Base58"
  | contract => "Contract"
  | malformed error => "Malformed(" ++ error.name ++ ")"

def message : AddressError → String
  | base58 => "invalid base58 encoding"
  | contract => "contract address"
  | malformed error => "malformed lockup script: " ++ error.message

end AddressError

namespace Lockup

def address (lockup : Lockup) : String := Base58.encode lockup.toBytes

def ofAddress (address : String) : Except AddressError Lockup :=
  match Base58.decode? address with
  | none => .error .base58
  | some bytes =>
      if bytes.head? = some 3 then .error .contract
      else (Reader.readAll read bytes).mapError .malformed

def groupOfAddress (address : String) : Except AddressError UInt8 :=
  (ofAddress address).map group

end Lockup

end ColdSigner
