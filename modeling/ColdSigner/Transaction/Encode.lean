import ColdSigner.Apdu.Basic
import ColdSigner.Transaction
/-!
# The written form of a transaction

Each field follows the one before without a mark between them, and each list follows its
length. The identifier of a transaction is the hash of its written form.
-/
namespace ColdSigner

/-- A list behind its length. -/
def listBytes {α : Type} (element : α → Bytes) (elements : List α) : Bytes :=
  Compact.ofLength elements.length ++ elements.flatMap element

namespace Unlock

def toBytes : Unlock → Bytes
  | key publicKey => 0 :: publicKey.toList
  | sameAsPrevious => [3]

end Unlock

namespace TxInput

def toBytes (input : TxInput) : Bytes :=
  Bytes.bigEndian 4 input.hint.toNat ++ input.outputKey.toList ++ input.unlock.toBytes

end TxInput

namespace Token

def toBytes (token : Token) : Bytes :=
  token.id.toList ++ Compact.ofAmount token.amount

end Token

namespace TxOutput

def toBytes (output : TxOutput) : Bytes :=
  Compact.ofAmount output.amount ++ output.lockup.toBytes ++
    Bytes.bigEndian 8 output.lockTime.toNat ++ listBytes Token.toBytes output.tokens ++
    Compact.ofLength output.data.length ++ output.data

end TxOutput

/-- The identifier of a transaction with this written form. -/
def txIdOfBytes (bytes : Bytes) : TxId := blake2b256 bytes

namespace UnsignedTx

/-- The written form. The byte behind the network says that there is no script. -/
def toBytes (tx : UnsignedTx) : Bytes :=
  tx.version :: tx.network.code :: 0 :: Compact.ofInt tx.gasAmount ++
    Compact.ofAmount tx.gasPrice ++ listBytes TxInput.toBytes tx.inputs ++
    listBytes TxOutput.toBytes tx.outputs

def id (tx : UnsignedTx) : TxId := txIdOfBytes tx.toBytes

end UnsignedTx

end ColdSigner
