import ColdSigner.Device.Engine
import ColdSigner.Proofs.ReviewOrder
/-!
# What a request to sign holds

A complete message is a path and the written form of a transaction, and nothing else
(`Engine.eq_of_decodeRequest`). The key that is kept for a request belongs to the account that is
shown (`KeyStore.publicKey_of_derive`).
-/
namespace ColdSigner

namespace DerivationPath

theorem flatMap_readIndices {count : Nat} {bytes : Bytes} (hLength : 4 * count ≤ bytes.length) :
    (readIndices count bytes).flatMap (fun index => Bytes.littleEndian 4 index.toNat) =
      bytes.take (4 * count) := by
  induction count generalizing bytes with
  | zero => simp [readIndices]
  | succ count ih =>
      have hFour : (bytes.take 4).length = 4 := List.length_take_of_le (by omega)
      have hBound := Bytes.ofLittleEndian_lt (bytes.take 4)
      rw [hFour] at hBound
      have hIndex : Bytes.littleEndian 4 (UInt32.ofNat
          (Bytes.ofLittleEndian (bytes.take 4))).toNat = bytes.take 4 := by
        have hBack := Bytes.littleEndian_ofLittleEndian (bytes.take 4)
        rw [hFour] at hBack
        rw [UInt32.toNat_ofNat_of_lt' hBound, hBack]
      rw [readIndices, List.flatMap_cons, hIndex, ih (by rw [List.length_drop]; omega),
        ← List.take_add, Nat.mul_succ, Nat.add_comm]

/-- A path is read from its wire form. -/
theorem eq_of_parse {bytes : Bytes} {path : DerivationPath} {count : Nat}
    (hParse : parse bytes = .ok (path, count)) : bytes = path.toBytes ++ bytes.drop count := by
  cases bytes with
  | nil => simp [parse] at hParse
  | cons first rest =>
      simp only [parse] at hParse
      split at hParse
      · next hFits =>
          cases hParse
          have hPath := flatMap_readIndices hFits.2
          have hDepth : UInt8.ofNat (readIndices first.toNat rest).length = first := by
            rw [length_readIndices, UInt8.ofNat_toNat]
          simp only [toBytes, DerivationPath.depth, hDepth, hPath, Nat.add_comm 1,
            List.drop_succ_cons, List.cons_append, List.take_append_drop]
      · simp at hParse

end DerivationPath

namespace KeyStore

variable {store : KeyStore} {path : DerivationPath} {keyType : KeyType} {account : Account}
  {key : store.Key}

theorem publicKey_of_accountAt {index : UInt32}
    (hFound : store.accountAt path keyType index = .ok (account, key)) :
    store.publicKey key = account.publicKey := by
  unfold accountAt at hFound
  cases hKey : store.key (path.withLast index).indices with
  | error error => simp [hKey, Bind.bind, Except.bind] at hFound
  | ok found =>
      simp only [hKey, Bind.bind, Except.bind, pure, Except.pure, Except.ok.injEq,
        Prod.mk.injEq] at hFound
      obtain ⟨rfl, rfl⟩ := hFound
      rfl

theorem publicKey_of_search {group : Option UInt8} {count : Nat} {index : UInt32}
    (hFound : store.search path group keyType count index = .ok (account, key)) :
    store.publicKey key = account.publicKey := by
  induction count generalizing index with
  | zero => simp [search] at hFound
  | succ count ih =>
      rw [search] at hFound
      split at hFound
      · simp at hFound
      · next found hAt =>
          split at hFound
          · cases hFound
            exact publicKey_of_accountAt hAt
          · exact ih hFound

/-- An account has the public key of the key that comes with it. -/
theorem publicKey_of_derive {group : Option UInt8}
    (hDerive : store.derive path group keyType = .ok (account, key)) :
    store.publicKey key = account.publicKey := by
  unfold derive at hDerive
  split at hDerive
  · simp at hDerive
  split at hDerive
  · simp at hDerive
  split at hDerive
  · simp at hDerive
  split at hDerive
  · simp at hDerive
  · exact publicKey_of_search hDerive

end KeyStore

namespace Engine

variable {store : KeyStore}

theorem eq_of_decode_txSignRequest {payload : Bytes} {request : TxSignRequest}
    (hDecode : Message.decode payload = (.ok request : Except WireError TxSignRequest)) :
    payload = request.path.toBytes ++ request.tx := by
  unfold Message.decode at hDecode
  simp only [Message.parse] at hDecode
  cases hPath : DerivationPath.parse payload with
  | error error => simp [hPath, Bind.bind, Except.bind, Except.map] at hDecode
  | ok found =>
      simp only [hPath, Bind.bind, Except.bind, pure, Except.pure, Except.map,
        Except.ok.injEq] at hDecode
      subst hDecode
      exact DerivationPath.eq_of_parse hPath

/-- A complete message is a path and a transaction, and the review is about these. -/
theorem eq_of_decodeRequest {payload : Bytes} {key : store.Key} {review : Review}
    (hRequest : decodeRequest store payload = .ok (key, review)) :
    ∃ path raw tx, payload = path.toBytes ++ raw ∧
      store.derive path none .standard = .ok (review.account, key) ∧
      UnsignedTx.decode raw = .ok (tx, review.id) ∧ review.subject = .transaction tx := by
  unfold decodeRequest at hRequest
  split at hRequest
  · simp at hRequest
  · simp at hRequest
  · next request hDecode =>
      split at hRequest
      · simp at hRequest
      · next account found hDerive =>
          split at hRequest
          · simp at hRequest
          · next tx id hTx =>
              cases hRequest
              exact ⟨request.path, request.tx, tx, eq_of_decode_txSignRequest hDecode, hDerive,
                hTx, rfl⟩

end Engine

end ColdSigner
