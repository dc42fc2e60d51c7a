import ColdSigner.Proofs.RequestTransfer
/-!
# Messages on the wire

Each message has a wire form of a known length. Every buffer with that much room takes it and no
smaller one does, and it is read back as the message with none of its bytes left over. What a host
writes for a request is to the device the event that the host meant (`Message.survives_wire`).
-/
namespace ColdSigner

open FieldReader

theorem length_textBytes (content : String) :
    (textBytes content).length = 1 + content.utf8ByteSize := Nat.add_comm _ _

/-- A text of at most 255 bytes is read from behind its length. -/
theorem FieldReader.reads_text {content : String} (hLength : content.utf8ByteSize ≤ 255) :
    Reads text (textBytes content) content := by
  have hSize : (UInt8.ofNat content.utf8ByteSize).toNat = content.utf8ByteSize :=
    UInt8.toNat_ofNat_of_lt' (Nat.lt_succ_of_le hLength)
  let bytes : FixedBytes (UInt8.ofNat content.utf8ByteSize).toNat :=
    ⟨Text.utf8 content, hSize.symm⟩
  have hText : Text.ofUtf8? bytes.toList = some content := Text.ofUtf8?_utf8 content
  have hRead : Reads text ([UInt8.ofNat content.utf8ByteSize] ++ (bytes.toList ++ [])) content := by
    refine (reads_byte _).bind ((reads_bytes bytes).bind ?_)
    rw [hText]
    exact reads_pure content
  rwa [List.append_nil] at hRead

theorem KeyTypes.ofBits?_bits (kinds : KeyTypes) : ofBits? kinds.bits = some kinds := by
  obtain ⟨ecdsa, schnorr⟩ := kinds
  cases ecdsa <;> cases schnorr <;> decide

theorem AppFlags.ofBits_bits (flags : AppFlags) : ofBits flags.bits = flags := by
  obtain ⟨busy, signHash, verifyAddress⟩ := flags
  cases busy <;> cases signHash <;> cases verifyAddress <;> decide

theorem AppInfo.readsBack {info : AppInfo} (hName : info.name.utf8ByteSize ≤ 255)
    (hVersion : info.version.utf8ByteSize ≤ 255) : Message.ReadsBack info := by
  let header : FixedBytes 4 :=
    ⟨[info.proto, info.groups, info.keyTypes.bits, info.flags.bits], rfl⟩
  have hKinds : KeyTypes.ofBits? (header.toList.getD 2 0) = some info.keyTypes :=
    info.keyTypes.ofBits?_bits
  have hFlags : AppFlags.ofBits (header.toList.getD 3 0) = info.flags := info.flags.ofBits_bits
  have hTexts : Reads (do
      let name ← text
      let version ← text
      return { info with name, version }) (textBytes info.name ++ textBytes info.version) info :=
    (reads_text hName).bind (reads_text hVersion).last
  have hAll : Message.parse (header.toList ++ (textBytes info.name ++ textBytes info.version)) =
      .ok (info, (header.toList ++ (textBytes info.name ++ textBytes info.version)).length) := by
    refine ((reads_bytes header).bind ?_).parse_eq
    rw [hKinds, hFlags]
    exact hTexts
  rwa [← List.append_assoc] at hAll

theorem AppInfo.length_toBytes (info : AppInfo) :
    (Message.toBytes info).length = 6 + info.name.utf8ByteSize + info.version.utf8ByteSize := by
  change ([_, _, _, _] ++ textBytes info.name ++ textBytes info.version).length = _
  rw [List.length_append, List.length_append, length_textBytes, length_textBytes]
  change 4 + _ + _ = _
  omega

theorem TxSignRequest.length_toBytes (request : TxSignRequest) :
    (Message.toBytes request).length = 1 + 4 * request.path.depth + request.tx.length := by
  change (request.path.toBytes ++ request.tx).length = _
  rw [List.length_append, request.path.length_toBytes]

theorem DerivationPath.readsBack (path : DerivationPath) : Message.ReadsBack path := by
  have hPath := path.parse_append []
  rwa [List.append_nil] at hPath

theorem KeyType.readsBack (kind : KeyType) : Message.ReadsBack kind :=
  (reads_coded (ofCode?_eq_some_iff.2 rfl)).parse_eq

theorem TxState.readsBack (state : TxState) : Message.ReadsBack state :=
  (reads_coded (ofCode?_eq_some_iff.2 rfl)).parse_eq

theorem TxId.readsBack (id : TxId) : Message.ReadsBack id := (reads_bytes id).parse_eq

namespace Message

/-- A message takes so many bytes: a buffer with that much room takes it and no smaller one does,
and what is written is read back as the message, all of it. -/
def Survives {α : Type} [Message α] (value : α) (size : Nat) : Prop :=
  encodedLength value = size ∧ ∃ bytes : Bytes, bytes.length = size ∧
    (∀ capacity, encodeInto capacity value =
      if size ≤ capacity then .ok bytes else .error .invalidLength) ∧
    parse bytes = .ok (value, size)

theorem ReadsBack.survives {α : Type} [Message α] {value : α} {size : Nat}
    (hBack : ReadsBack value) (hFits : fits value = true) (hSize : (toBytes value).length = size) :
    Survives value size := by
  refine ⟨hSize, toBytes value, hSize, fun capacity => ?_, hSize ▸ hBack⟩
  rw [encodeInto, encodedLength, hSize]
  simp only [hFits, and_true]

end Message

/-- A request that takes a single command: its instruction, its content as a host writes it, and
the event that the host means. -/
inductive Instruction.Requests : Instruction → Bytes → Event → Prop where
  | getVersion : Requests .getVersion [] .getVersion
  | getAccount {request : AccountRequest} {capacity : Nat} {data : Bytes}
      (hGroup : request.group ≠ some 0xff)
      (hWritten : Message.encodeInto capacity request = .ok data) :
      Requests .getAccount data (.getAccount request)
  | signHash {request : HashSignRequest} {capacity : Nat} {data : Bytes}
      (hWritten : Message.encodeInto capacity request = .ok data) :
      Requests .signHash data (.signHash request)
  | txGetInfo : Requests .txGetInfo [] .txGetInfo
  | txGetSignature : Requests .txGetSignature [] .txGetSignature
  | txComplete : Requests .txComplete [] .txComplete

theorem Message.eq_toBytes_of_encodeInto {α : Type} [Message α] {value : α} {capacity : Nat}
    {data : Bytes} (hWritten : encodeInto capacity value = .ok data) : data = toBytes value := by
  unfold encodeInto at hWritten
  split at hWritten
  · exact (Except.ok.inj hWritten).symm
  · cases hWritten

/-- What the host writes for a request is a single part of a message, and the event that the device
takes it for is the one that was meant. -/
theorem Instruction.Requests.parse_eq {instruction : Instruction} {data : Bytes} {event : Event}
    (hRequests : instruction.Requests data event) :
    data.length ≤ maxChunkData ∧
      ∀ seq more, Event.parse ⟨instruction.code, seq, more, data⟩ = .ok event := by
  cases hRequests with
  | getVersion => exact ⟨Nat.zero_le _, fun _ _ => rfl⟩
  | txGetInfo => exact ⟨Nat.zero_le _, fun _ _ => rfl⟩
  | txGetSignature => exact ⟨Nat.zero_le _, fun _ _ => rfl⟩
  | txComplete => exact ⟨Nat.zero_le _, fun _ _ => rfl⟩
  | @getAccount request _ _ hGroup hWritten =>
      obtain rfl := Message.eq_toBytes_of_encodeInto hWritten
      exact ⟨request.length_toBytes_le, fun _ _ => Event.parse_getAccount hGroup⟩
  | @signHash request _ _ hWritten =>
      obtain rfl := Message.eq_toBytes_of_encodeInto hWritten
      exact ⟨request.length_toBytes_le, fun _ _ => Event.parse_signHash request⟩

/-- Each message is written into every buffer that is long enough and into no other, and read back
with all of its bytes, and the device takes each request of a single command for the event that the
host means. Left out are requests for the group `0xff`, since its byte stands for no group, and
texts of more than 255 bytes, since their length is written in one byte. -/
theorem Message.survives_wire :
    (∀ path : DerivationPath, Survives path (1 + 4 * path.depth)) ∧
      (∀ request : AccountRequest, request.group ≠ some 0xff →
        Survives request (3 + 4 * request.path.depth + if request.display then 1 else 0)) ∧
      (∀ answer : AccountResponse, Survives answer 39) ∧
      (∀ info : AppInfo, info.name.utf8ByteSize ≤ 255 → info.version.utf8ByteSize ≤ 255 →
        Survives info (6 + info.name.utf8ByteSize + info.version.utf8ByteSize)) ∧
      (∀ request : TxSignRequest,
        Survives request (1 + 4 * request.path.depth + request.tx.length)) ∧
      (∀ request : HashSignRequest, Survives request (33 + 4 * request.path.depth)) ∧
      (∀ info : TxInfo, Survives info 35) ∧ (∀ answer : TxSignature, Survives answer 96) ∧
      (∀ id : TxId, Survives id 32) ∧ (∀ state : TxState, Survives state 1) ∧
      (∀ kind : KeyType, Survives kind 1) ∧
      ∀ (instruction : Instruction) (data : Bytes) (event : Event),
        instruction.Requests data event →
        data.length ≤ maxChunkData ∧
          ∀ seq more, Event.parse ⟨instruction.code, seq, more, data⟩ = .ok event := by
  refine ⟨fun path => path.readsBack.survives rfl path.length_toBytes,
    fun request hGroup => (AccountRequest.readsBack hGroup).survives rfl request.length_toBytes,
    fun answer => answer.readsBack.survives rfl (by simp [toBytes]), ?_,
    fun request => request.readsBack.survives rfl request.length_toBytes,
    fun request => request.readsBack.survives rfl request.length_toBytes,
    fun info => info.readsBack.survives rfl (by simp [toBytes]),
    fun answer => answer.readsBack.survives rfl (by simp [toBytes]),
    fun id => id.readsBack.survives rfl id.length_toList,
    fun state => state.readsBack.survives rfl rfl, fun kind => kind.readsBack.survives rfl rfl,
    fun instruction data event hRequests => hRequests.parse_eq⟩
  intro info hName hVersion
  have hFits : fits info = true := by simp [fits, hName, hVersion]
  exact (AppInfo.readsBack hName hVersion).survives hFits info.length_toBytes

/-- A request whose address is to be shown, and what a device says about itself in letters that take
more than one byte. -/
theorem Message.survives_wire_shown :
    let request : AccountRequest := ⟨Engine.firstAccount, some 3, .schnorr, true⟩
    let info : AppInfo :=
      ⟨1, groupCount, Account.keyTypes, ⟨true, true, false⟩, "Alephium ℵ", "0.1.0"⟩
    request.group ≠ some 0xff ∧ Survives request 24 ∧
      info.name.utf8ByteSize ≤ 255 ∧ info.version.utf8ByteSize ≤ 255 ∧ Survives info 23 ∧
      Instruction.getAccount.Requests (toBytes request) (.getAccount request) ∧
      ∀ seq more, Event.parse ⟨Instruction.getAccount.code, seq, more, toBytes request⟩ =
        .ok (.getAccount request) := by
  intro request info
  have hGroup : request.group ≠ some 0xff := by decide
  have hName : info.name.utf8ByteSize ≤ 255 := by decide
  have hVersion : info.version.utf8ByteSize ≤ 255 := by decide
  obtain ⟨-, hAccounts, -, hInfos, -, -, -, -, -, -, -, hEvents⟩ := survives_wire
  have hRequests : Instruction.getAccount.Requests (toBytes request) (.getAccount request) :=
    .getAccount hGroup (rfl : encodeInto 24 request = .ok (toBytes request))
  exact ⟨hGroup, hAccounts request hGroup, hName, hVersion, hInfos info hName hVersion, hRequests,
    (hEvents _ _ _ hRequests).2⟩

end ColdSigner
