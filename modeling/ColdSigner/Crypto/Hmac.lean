import ColdSigner.Crypto.Sha2
/-!
# Keyed hashes

HMAC: a hash function with blocks of a given size is applied twice, each time behind a block
made from the key.
-/
namespace ColdSigner

/-- A hash of a message under a key. A key longer than a block is hashed first. -/
def hmac (hash : Bytes → Bytes) (blockBytes : Nat) (key message : Bytes) : Bytes :=
  let short := if blockBytes < key.length then hash key else key
  let block := short ++ List.replicate (blockBytes - short.length) 0
  hash (block.map (· ^^^ 0x5c) ++ hash (block.map (· ^^^ 0x36) ++ message))

/-- The keyed hash over SHA-256. -/
def hmacSha256 (key message : Bytes) : Bytes :=
  hmac (fun m => (sha256 m).toList) Sha2.small.blockBytes key message

def hmacSha512 (key message : Bytes) : Bytes :=
  hmac (fun m => (sha512 m).toList) Sha2.large.blockBytes key message

end ColdSigner
