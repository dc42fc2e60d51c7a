import ColdSigner.Proofs.TransactionLoading
/-!
# Messages read back

What is written for a message is read as the same message, and all of it is read. A request for
an account is the exception: the byte for a group has no place for the group `noGroup`.
-/
namespace ColdSigner

namespace FieldReader

variable {α β : Type}

/-- The field is read from its bytes, whatever comes behind them. -/
def Reads (reader : FieldReader α) (bytes : Bytes) (value : α) : Prop :=
  ∀ rest, reader (bytes ++ rest) = .ok (value, rest)

theorem reads_pure (value : α) : Reads (pure value) [] value := fun _ => rfl

/-- Fields in a row are read one after the other. -/
theorem Reads.bind {reader : FieldReader α} {f : α → FieldReader β} {bytes more : Bytes}
    {value : α} {result : β} (hFirst : Reads reader bytes value)
    (hSecond : Reads (f value) more result) : Reads (reader >>= f) (bytes ++ more) result := by
  intro rest
  change (reader (bytes ++ more ++ rest)).bind (fun read => f read.1 read.2) = _
  rw [List.append_assoc, hFirst]
  exact hSecond rest

/-- The last field is followed by a value that is put together from all of them. -/
theorem Reads.last {reader : FieldReader α} {bytes : Bytes} {value : α} {f : α → β}
    (hReads : Reads reader bytes value) :
    Reads (reader >>= fun value => pure (f value)) bytes (f value) := by
  have hBind := hReads.bind (f := fun value => pure (f value)) (reads_pure (f value))
  rwa [List.append_nil] at hBind

theorem reads_byte (value : UInt8) : Reads byte [value] value := fun _ => rfl

theorem reads_bytes {size : Nat} (value : FixedBytes size) :
    Reads (bytes size) value.toList value := by
  intro rest
  have hFits : size ≤ (value.toList ++ rest).length := by simp
  have hTake : (value.toList ++ rest).take size = value.toList :=
    List.take_left' value.length_toList
  have hDrop : (value.toList ++ rest).drop size = rest := List.drop_left' value.length_toList
  simp only [bytes, dif_pos hFits, hTake, hDrop]

theorem reads_number {width value : Nat} (hValue : value < 256 ^ width) :
    Reads (number width) (Bytes.littleEndian width value) value := by
  let content : FixedBytes width := ⟨Bytes.littleEndian width value, Bytes.length_littleEndian ..⟩
  have hRead := (reads_bytes content).last (f := fun content => Bytes.ofLittleEndian content.toList)
  have hContent : Bytes.ofLittleEndian content.toList = value := by
    rw [Bytes.ofLittleEndian_littleEndian, Nat.mod_eq_of_lt hValue]
  rwa [hContent] at hRead

theorem reads_coded {ofCode? : UInt8 → Option α} {code : UInt8} {value : α}
    (hCode : ofCode? code = some value) : Reads (coded ofCode?) [code] value := by
  have hBoth : Reads (coded ofCode?) ([code] ++ []) value := by
    refine (reads_byte code).bind ?_
    rw [hCode]
    exact reads_pure value
  exact hBoth

/-- What a reader takes is all that was written. -/
theorem Reads.parse_eq {reader : FieldReader α} {bytes : Bytes} {value : α}
    (hReads : Reads reader bytes value) : reader.parse bytes = .ok (value, bytes.length) := by
  have hAll := hReads []
  rw [List.append_nil] at hAll
  simp only [parse, hAll]
  rfl

end FieldReader

open FieldReader

/-- The message is read from its wire form, and takes all of it. -/
def Message.ReadsBack {α : Type} [Message α] (value : α) : Prop :=
  Message.parse (Message.toBytes value) = .ok (value, Message.encodedLength value)

theorem Message.ReadsBack.decode_eq {α : Type} [Message α] {value : α}
    (hBack : Message.ReadsBack value) :
    Message.decode (Message.toBytes value) = .ok value := by
  rw [Message.decode, hBack]
  rfl

theorem TxInfo.readsBack (info : TxInfo) : Message.ReadsBack info := by
  have hState := reads_coded (TxState.ofCode?_eq_some_iff.2 (rfl : info.state.code = _))
  have hValue : Reads (number 2) (Bytes.littleEndian 2 info.value.toNat) info.value.toNat :=
    reads_number info.value.toNat_lt
  have hInfo : (⟨info.state, UInt16.ofNat info.value.toNat, info.txId⟩ : TxInfo) = info := by
    rw [UInt16.ofNat_toNat]
  have hLast := (reads_bytes info.txId).last
    (f := fun txId => (⟨info.state, UInt16.ofNat info.value.toNat, txId⟩ : TxInfo))
  rw [hInfo] at hLast
  exact (hState.bind (hValue.bind hLast)).parse_eq

theorem TxSignature.readsBack (answer : TxSignature) : Message.ReadsBack answer :=
  ((reads_bytes answer.txId).bind (reads_bytes answer.signature).last).parse_eq

theorem AccountResponse.readsBack (answer : AccountResponse) : Message.ReadsBack answer := by
  have hIndex : Reads (number 4) (Bytes.littleEndian 4 answer.index.toNat) answer.index.toNat :=
    reads_number answer.index.toNat_lt
  have hKind := reads_coded (KeyType.ofCode?_eq_some_iff.2 (rfl : answer.keyType.code = _))
  have hAnswer : (⟨UInt32.ofNat answer.index.toNat, answer.group, answer.keyType,
      answer.publicKey⟩ : AccountResponse) = answer := by
    rw [UInt32.ofNat_toNat]
  have hLast := (reads_bytes answer.publicKey).last (f := fun publicKey =>
    (⟨UInt32.ofNat answer.index.toNat, answer.group, answer.keyType, publicKey⟩ :
      AccountResponse))
  rw [hAnswer] at hLast
  exact (hIndex.bind ((reads_byte answer.group).bind (hKind.bind hLast))).parse_eq

theorem TxSignRequest.readsBack (request : TxSignRequest) : Message.ReadsBack request := by
  have hPath := DerivationPath.parse_append request.path request.tx
  simp only [Message.ReadsBack, Message.parse, Message.toBytes, Message.encodedLength, hPath,
    Bind.bind, Except.bind, pure, Except.pure, List.drop_left]

theorem HashSignRequest.readsBack (request : HashSignRequest) : Message.ReadsBack request := by
  have hPath := DerivationPath.parse_append request.path request.hash.toList
  have hHash : FixedBytes.ofList? 32 request.hash.toList = some request.hash :=
    FixedBytes.ofList?_eq_some_iff.2 rfl
  simp only [Message.ReadsBack, Message.parse, Message.toBytes, Message.encodedLength, hPath,
    Bind.bind, Except.bind, pure, Except.pure, List.drop_left, hHash]

namespace AccountRequest

/-- A request for an account is read with the group that its byte stands for. -/
theorem parse_toBytes (request : AccountRequest) :
    parse request.toBytes =
      .ok ({ request with group := if request.group = some noGroup then none else request.group },
        request.toBytes.length) := by
  obtain ⟨path, group, keyType, display⟩ := request
  have hKind : KeyType.ofCode? keyType.code = some keyType :=
    KeyType.ofCode?_eq_some_iff.2 rfl
  have hGroup : (if group.getD noGroup = noGroup then none else some (group.getD noGroup)) =
      if group = some noGroup then none else group := by
    cases group with
    | none => rfl
    | some group => simp
  cases display with
  | false =>
      have hPath := DerivationPath.parse_append path []
      simp only [List.append_nil] at hPath
      simp [toBytes, parse, hKind, hPath, hGroup, Bind.bind, Except.bind, pure, Except.pure]
      omega
  | true =>
      have hPath := DerivationPath.parse_append path [1]
      simp [toBytes, parse, hKind, hPath, hGroup, Bind.bind, Except.bind, pure, Except.pure]
      omega

theorem readsBack {request : AccountRequest} (hGroup : request.group ≠ some noGroup) :
    Message.ReadsBack request := by
  have hParse := parse_toBytes request
  rw [if_neg hGroup] at hParse
  exact hParse

end AccountRequest

end ColdSigner
