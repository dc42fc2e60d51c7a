import ColdSigner.Proofs.RequestIntegrity
/-!
# Loading a transaction in pieces

How a message is cut, and what is asked between its pieces, makes no difference: a device ends
where a single piece would have led it (`Engine.load_split`), and what that is depends on the
message alone.
-/
namespace ColdSigner

namespace DerivationPath

theorem readIndices_flatMap_append (indices : List UInt32) (rest : Bytes) :
    readIndices indices.length
      ((indices.flatMap fun index => Bytes.littleEndian 4 index.toNat) ++ rest) = indices := by
  induction indices with
  | nil => rfl
  | cons index indices ih =>
      have hFour : (Bytes.littleEndian 4 index.toNat).length = 4 := Bytes.length_littleEndian ..
      have hIndex : UInt32.ofNat (Bytes.ofLittleEndian (Bytes.littleEndian 4 index.toNat)) =
          index := by
        rw [Bytes.ofLittleEndian_littleEndian, Nat.mod_eq_of_lt index.toNat_lt,
          UInt32.ofNat_toNat]
      rw [List.flatMap_cons, List.append_assoc, List.length_cons, readIndices,
        List.take_left' hFour, List.drop_left' hFour, hIndex, ih]

/-- A path is read back from the front of what begins with it. -/
theorem parse_append (path : DerivationPath) (rest : Bytes) :
    parse (path.toBytes ++ rest) = .ok (path, path.toBytes.length) := by
  obtain ⟨indices, hLength⟩ := path
  have hDepth : (UInt8.ofNat indices.length).toNat = indices.length :=
    UInt8.toNat_ofNat_of_lt' (Nat.lt_of_le_of_lt hLength (by decide))
  have hWritten := length_toBytes ⟨indices, hLength⟩
  simp only [toBytes, depth, List.length_cons] at hWritten ⊢
  have hFits : 4 * indices.length ≤
      ((indices.flatMap fun index => Bytes.littleEndian 4 index.toNat) ++ rest).length := by
    rw [List.length_append]
    omega
  simp only [List.cons_append, parse, hDepth, hLength, hFits, and_self, dif_pos,
    readIndices_flatMap_append]
  congr 2
  omega

end DerivationPath

namespace KeyStore

variable {store : KeyStore}

/-- The account of a key at the end of a path. -/
def accountOf (store : KeyStore) (path : DerivationPath) (key : store.Key) : Account :=
  ⟨path, path.last?.getD 0, (Lockup.ofKey (store.publicKey key)).group, .standard,
    store.publicKey key⟩

/-- Where no group is asked for, the account is the one at the end of the path itself. -/
theorem derive_standard {path : DerivationPath} (hPath : Account.isAccountPath path = true) :
    store.derive path none .standard =
      (store.key path.indices).map fun key => (store.accountOf path key, key) := by
  have hSplit := hPath
  unfold Account.isAccountPath at hSplit
  split at hSplit
  · next purpose coin account change index hIndices =>
      have hLast : path.last? = some index := by rw [DerivationPath.last?, hIndices]; rfl
      have hSame : path.withLast index = path := by
        apply DerivationPath.ext
        simp [DerivationPath.withLast, hIndices]
      have hFree : index.toNat < DerivationPath.hardened.toNat := by
        simp only [Bool.and_eq_true, Bool.not_eq_true', DerivationPath.isHardened,
          decide_eq_false_iff_not, UInt32.not_le] at hSplit
        exact UInt32.lt_iff_toNat_lt.1 hSplit.2
      obtain ⟨others, hOthers⟩ : ∃ others,
          DerivationPath.hardened.toNat - index.toNat = others + 1 :=
        ⟨_, (Nat.succ_pred_eq_of_pos (Nat.sub_pos_of_lt hFree)).symm⟩
      have hKind : Account.keyTypes.supports .standard = true := rfl
      simp only [derive, hKind, hPath, hLast, hOthers, search, accountAt, hSame,
        accountOf, Bool.not_true, Bool.false_eq_true, if_false, Option.any_none, Option.all_none]
      cases store.key path.indices <;> rfl
  · cases hSplit

end KeyStore

namespace Event

/-- The event neither goes on with a transaction that is being loaded nor ends it. A part with
number zero would begin another one, and is refused. -/
def isAside : Event → Bool
  | none | getVersion | getAccount _ | signHash _ | txGetInfo | txGetSignature => true
  | txChunk seq _ _ => seq == 0
  | txComplete | disconnect => false

end Event

namespace Operation

/-- The operation may come between two parts of a transaction without harm. -/
def isAside : Operation → Bool
  | approve | deny => true
  | reset => false
  | command capacity bytes => (command capacity bytes).event?.all Event.isAside
  | event happened => happened.isAside
  | disconnect => false

/-- The parts of a transaction but the last, numbered from `number` on, each with what is done
behind it. -/
def sending (number : Nat) : List (Bytes × List Operation) → List Operation
  | [] => []
  | (data, aside) :: rest =>
      .event (.txChunk (UInt8.ofNat number) true data) :: aside ++ sending (number + 1) rest

end Operation

namespace Engine

open Operation

variable {store : KeyStore}

theorem perform_aside {parts : UInt16} {message : PartialMessage} {operation : Operation}
    (hAside : operation.isAside = true) :
    perform store (Phase.loading parts message).engine operation =
      (Phase.loading parts message).engine := by
  have hUpdate (event : Event) (hEvent : event.isAside = true) :
      (update store (Phase.loading parts message).engine event).2 =
        (Phase.loading parts message).engine := by
    cases event with
    | none => rfl
    | getVersion => rfl
    | getAccount request => rfl
    | signHash request => rfl
    | txGetInfo => rfl
    | txGetSignature => rfl
    | txChunk seq more data =>
        obtain rfl : seq = 0 := by simpa [Event.isAside] using hEvent
        rfl
    | txComplete => cases hEvent
    | disconnect => cases hEvent
  cases operation with
  | approve => rfl
  | deny => rfl
  | reset => cases hAside
  | disconnect => cases hAside
  | event happened => exact hUpdate happened hAside
  | command capacity bytes =>
      cases hEvent : (Operation.command capacity bytes).event? with
      | some event =>
          rw [perform_of_event hEvent]
          apply hUpdate
          simpa [isAside, hEvent] using hAside
      | none =>
          rcases perform_of_no_event (Phase.loading parts message).engine hEvent with
            h | h | h | ⟨hSame, -⟩
          · cases h
          · cases h
          · cases h
          · exact hSame

theorem foldl_perform_aside {parts : UInt16} {message : PartialMessage}
    {operations : List Operation}
    (hAside : ∀ operation ∈ operations, operation.isAside = true) :
    operations.foldl (perform store) (Phase.loading parts message).engine =
      (Phase.loading parts message).engine := by
  induction operations with
  | nil => rfl
  | cons operation rest ih =>
      obtain ⟨hFirst, hRest⟩ := List.forall_mem_cons.1 hAside
      rw [List.foldl_cons, perform_aside hFirst, ih hRest]

/-- What a complete message leads to: the review of its transaction, or an error after which
nothing is left. -/
def opened (store : KeyStore) (payload : Bytes) :
    Except DeviceError Output × Engine store.Key :=
  match decodeRequest store payload with
  | .error error => (.error error, cleared .error)
  | .ok (key, review) => (.ok (.state (.review 0) review.id), reviewing (some key) review)

/-- A device that received so many parts of a transaction, with these data. -/
def received (store : KeyStore) (count : Nat) (data : Bytes) : Engine store.Key :=
  (Phase.loading (UInt16.ofNat count)
    ⟨Instruction.signTx.code, UInt8.ofNat count, data⟩ : Phase store.Key).engine

/-- The part with this number, behind these data, is what the device waits for. -/
def Expects (engine : Engine store.Key) (number : Nat) (data : Bytes) : Prop :=
  ∀ more part, (data ++ part).length ≤ maxPayload →
    update store engine (.txChunk (UInt8.ofNat number) more part) =
      if more then
        (.ok (.state (.loading (UInt16.ofNat (number + 1))) (FixedBytes.zero 32)),
          received store (number + 1) (data ++ part))
      else opened store (data ++ part)

theorem startTransaction_eq {engine : Engine store.Key} {payload : Bytes}
    (hTxId : engine.txId = FixedBytes.zero 32) (hContext : engine.context = none) :
    startTransaction store engine payload = opened store payload := by
  unfold startTransaction opened
  cases decodeRequest store payload with
  | error error => simp only [hTxId, hContext, cleared]
  | ok request => rfl

/-- A part that continues a message is taken, if there is room. -/
theorem load_of_continued {engine : Engine store.Key} {number : Nat} {more : Bool}
    {part data : Bytes}
    (hMessage : engine.chunks.continued?
        ⟨Instruction.signTx.code, UInt8.ofNat number, more, part⟩ =
      some ⟨Instruction.signTx.code, UInt8.ofNat number, data⟩)
    (hTxId : engine.txId = FixedBytes.zero 32) (hContext : engine.context = none)
    (hLength : (data ++ part).length ≤ maxPayload) :
    load store engine (UInt16.ofNat number) (UInt8.ofNat number) more part =
      if more then
        (.ok (.state (.loading (UInt16.ofNat (number + 1))) (FixedBytes.zero 32)),
          received store (number + 1) (data ++ part))
      else opened store (data ++ part) := by
  have hPush := push_of_continued hMessage
  simp only [if_neg (Nat.not_lt.2 hLength)] at hPush
  cases more with
  | true =>
      simp only [load, hPush, if_true, report, received, Phase.engine, hTxId, hContext,
        UInt16.ofNat_add, UInt8.ofNat_add]
      rfl
  | false =>
      simp only [load, hPush, Bool.false_eq_true, if_false, Reassembly.payload?]
      exact startTransaction_eq hTxId hContext

theorem expects_of_idle (phase : Phase store.Key) (hIdle : phase.engine.state.isBusy = false) :
    Expects phase.engine 0 [] := by
  intro more part hLength
  cases phase with
  | idle state txId hState =>
      have hMessage : Reassembly.empty.continued? ⟨Instruction.signTx.code, 0, more, part⟩ =
          some ⟨Instruction.signTx.code, 0, []⟩ := continued?_empty.2 rfl
      have hLoad : update store (Phase.idle state txId hState).engine (.txChunk 0 more part) =
          load store (cleared state) 0 0 more part := by
        simp only [update, loadChunk_idle]
        exact if_neg (by simp)
      exact hLoad.trans (load_of_continued hMessage rfl rfl hLength)
  | loading parts message => cases hIdle
  | review key request place step => cases hIdle
  | signed request step signature => cases hIdle

/-- Only the first part has the number zero. -/
theorem seq_ne_zero {number : Nat} (hSome : 1 ≤ number) (hMost : number ≤ 255) :
    UInt8.ofNat number ≠ 0 := by
  intro hZero
  have hNumber := congrArg UInt8.toNat hZero
  rw [UInt8.toNat_ofNat_of_lt' (Nat.lt_succ_of_le hMost)] at hNumber
  change number = 0 at hNumber
  omega

/-- Numbers of parts are counted in a byte, so at most 256 of them make a message. -/
theorem expects_received {number : Nat} (hSome : 1 ≤ number) (hMost : number ≤ 255)
    (data : Bytes) : Expects (received store number data) number data := by
  intro more part hLength
  have hSeq := seq_ne_zero hSome hMost
  have hLoad : update store (received store number data)
      (.txChunk (UInt8.ofNat number) more part) =
        load store (received store number data) (UInt16.ofNat number) (UInt8.ofNat number) more
          part := if_neg hSeq
  rw [hLoad]
  exact load_of_continued (continued?_receiving.2 ⟨⟨hSeq, rfl⟩, rfl, rfl⟩) rfl rfl hLength

/-- After some parts the device waits for the next one, whatever else was done behind them. -/
theorem expects_sending {engine : Engine store.Key} {number : Nat} {data : Bytes}
    (hExpects : Expects engine number data) {pieces : List (Bytes × List Operation)}
    (hCount : number + pieces.length ≤ 255)
    (hLength : (data ++ pieces.flatMap (·.1)).length ≤ maxPayload)
    (hAside : ∀ piece ∈ pieces, ∀ operation ∈ piece.2, operation.isAside = true) :
    Expects ((sending number pieces).foldl (perform store) engine) (number + pieces.length)
      (data ++ pieces.flatMap (·.1)) := by
  induction pieces generalizing engine number data with
  | nil =>
      rw [List.flatMap_nil, List.append_nil]
      exact hExpects
  | cons piece rest ih =>
      obtain ⟨part, aside⟩ := piece
      obtain ⟨hFirst, hRest⟩ := List.forall_mem_cons.1 hAside
      have hData : data ++ ((part, aside) :: rest).flatMap (·.1) =
          data ++ part ++ rest.flatMap (·.1) := by simp
      rw [List.length_cons] at hCount ⊢
      rw [hData] at hLength ⊢
      have hFits : (data ++ part).length ≤ maxPayload := by
        rw [List.length_append] at hLength
        omega
      have hPart : perform store engine (.event (.txChunk (UInt8.ofNat number) true part)) =
          received store (number + 1) (data ++ part) :=
        congrArg Prod.snd (hExpects true part hFits)
      have hSome : 1 ≤ number + 1 := by omega
      have hNext := ih (expects_received hSome (by omega) (data ++ part)) (by omega) hLength hRest
      have hAsides : aside.foldl (perform store) (received store (number + 1) (data ++ part)) =
          received store (number + 1) (data ++ part) := foldl_perform_aside hFirst
      rw [sending, List.cons_append, List.foldl_cons, List.foldl_append, hPart, hAsides,
        show number + (rest.length + 1) = number + 1 + rest.length by omega]
      exact hNext

theorem decodeRequest_append (path : DerivationPath) (raw : Bytes) :
    decodeRequest store (path.toBytes ++ raw) =
      match store.derive path none .standard with
      | .error error => .error error
      | .ok (account, key) =>
          match UnsignedTx.decode raw with
          | .error _ => .error .malformedTransaction
          | .ok (tx, txId) => .ok (key, ⟨.transaction tx, txId, account⟩) := by
  have hRequest : (Message.decode (path.toBytes ++ raw) : Except WireError TxSignRequest) =
      .ok ⟨path, raw⟩ := by
    simp only [Message.decode, Message.parse, DerivationPath.parse_append, Bind.bind,
      Except.bind, pure, Except.pure, Except.map, List.drop_left]
  unfold decodeRequest
  exact hRequest ▸ rfl

/-- A message that does not begin with the path of an account is refused for its path. -/
theorem decodeRequest_of_no_path {payload : Bytes}
    (hPath : ∀ path raw, payload = path.toBytes ++ raw → Account.isAccountPath path = false) :
    decodeRequest store payload = .error .invalidPath := by
  cases hParse : DerivationPath.parse payload with
  | error error =>
      obtain rfl : error = .invalidPath := by
        unfold DerivationPath.parse at hParse
        split at hParse
        · exact (Except.error.inj hParse).symm
        · split at hParse
          · cases hParse
          · exact (Except.error.inj hParse).symm
      have hRequest : (Message.decode payload : Except WireError TxSignRequest) =
          .error .invalidPath := by
        simp only [Message.decode, Message.parse, hParse, Bind.bind, Except.bind, Except.map]
      simp only [decodeRequest, hRequest]
  | ok found =>
      obtain ⟨path, count⟩ := found
      have hPayload := DerivationPath.eq_of_parse hParse
      have hRefused : store.derive path none .standard = .error .invalidPath := by
        simp [KeyStore.derive, hPath path _ hPayload, Account.keyTypes, KeyTypes.supports,
          KeyType.standard]
      rw [hPayload, decodeRequest_append, hRefused]

/-- A transaction may be sent in up to 256 pieces of any sizes, and much may be asked between
them: each piece but the last is counted, and the last one has the outcome that the whole message
has in one piece. A message is the path of an account and a transaction that the device can
explain, or it is refused. -/
theorem load_split (store : KeyStore) (operations : List Operation)
    (pieces : List (Bytes × List Operation)) (last : Bytes)
    (hIdle : (after store operations).state.isBusy = false) (hCount : pieces.length + 1 ≤ 256)
    (hLength : (pieces.flatMap (·.1) ++ last).length ≤ 4096)
    (hAside : ∀ piece ∈ pieces, ∀ operation ∈ piece.2, operation.isAside = true) :
    let payload := pieces.flatMap (·.1) ++ last
    let whole := update store (after store operations) (.txChunk 0 false payload)
    (∀ sent piece aside rest, pieces = sent ++ (piece, aside) :: rest →
      (update store (after store (operations ++ sending 0 sent))
          (.txChunk (UInt8.ofNat sent.length) true piece)).1 =
        .ok (.state (.loading (UInt16.ofNat (sent.length + 1))) (FixedBytes.zero 32))) ∧
    update store (after store (operations ++ sending 0 pieces))
      (.txChunk (UInt8.ofNat pieces.length) false last) = whole ∧
    (∀ path raw, payload = path.toBytes ++ raw → Account.isAccountPath path = true →
      (∀ error, store.key path.indices = .error error → whole = (.error error, cleared .error)) ∧
      ∀ key, store.key path.indices = .ok key →
        (∀ tx id, UnsignedTx.decode raw = .ok (tx, id) →
          whole = (.ok (.state (.review 0) (blake2b256 raw)),
            reviewing (some key)
              ⟨.transaction tx, blake2b256 raw, store.accountOf path key⟩)) ∧
        ∀ error, UnsignedTx.decode raw = .error error →
          whole = (.error .malformedTransaction, cleared .error)) ∧
    ((∀ path raw, payload = path.toBytes ++ raw → Account.isAccountPath path = false) →
      whole = (.error .invalidPath, cleared .error)) := by
  obtain ⟨phase, run⟩ := exists_run store operations
  have hExpects := expects_of_idle phase (run.after_eq ▸ hIdle)
  have hWhole : update store (after store operations)
      (.txChunk 0 false (pieces.flatMap (·.1) ++ last)) =
        opened store (pieces.flatMap (·.1) ++ last) := by
    rw [run.after_eq]
    exact hExpects false _ hLength
  have hSent (sent rest : List (Bytes × List Operation)) (hPieces : pieces = sent ++ rest) :
      Expects (after store (operations ++ sending 0 sent)) sent.length (sent.flatMap (·.1)) := by
    subst hPieces
    have hFits : (sent.flatMap (·.1)).length ≤ maxPayload := by
      rw [List.flatMap_append, List.append_assoc, List.length_append] at hLength
      exact Nat.le_trans (Nat.le_add_right _ _) hLength
    have hSent : 0 + sent.length ≤ 255 := by
      rw [List.length_append] at hCount
      omega
    have hSending := expects_sending hExpects hSent hFits
      fun piece hPiece => hAside piece (List.mem_append_left _ hPiece)
    rwa [Nat.zero_add, List.nil_append, ← run.after_eq, ← after_append] at hSending
  intro payload whole
  have hOpened : whole = opened store payload := hWhole
  refine ⟨?_, ?_, ?_, ?_⟩
  · intro sent piece aside rest hPieces
    have hFits : (sent.flatMap (·.1) ++ piece).length ≤ maxPayload := by
      rw [hPieces, List.flatMap_append, List.flatMap_cons, List.append_assoc, List.append_assoc,
        ← List.append_assoc, List.length_append] at hLength
      exact Nat.le_trans (Nat.le_add_right _ _) hLength
    exact congrArg Prod.fst (hSent sent _ hPieces true piece hFits)
  · rw [hOpened]
    exact hSent pieces [] (List.append_nil _).symm false last hLength
  · intro path raw hPayload hPath
    rw [hOpened, hPayload, opened, decodeRequest_append, KeyStore.derive_standard hPath]
    refine ⟨?_, ?_⟩
    · intro error hKey
      rw [hKey]
      rfl
    · intro key hKey
      rw [hKey]
      refine ⟨?_, ?_⟩
      · intro tx id hDecode
        have hId := (UnsignedTx.decode_eq_ok_iff.1 hDecode).2.2
        rw [hDecode]
        subst hId
        rfl
      · intro error hDecode
        rw [hDecode]
        rfl
  · intro hPath
    rw [hOpened, opened, decodeRequest_of_no_path hPath]

/-- A payment in three pieces, the second of them empty. Meanwhile the host asks for the state
and begins anew, and the user approves and refuses. -/
def paymentPieces : List (Bytes × List Operation) :=
  [((firstAccount.toBytes ++ UnsignedTx.payment.toBytes).take 100, [.event .txGetInfo, .approve]),
    ([], [.deny, .event (.txChunk 0 false [])])]

theorem load_split_payment :
    let last := (firstAccount.toBytes ++ UnsignedTx.payment.toBytes).drop 100
    (after oneKey []).state.isBusy = false ∧ paymentPieces.length + 1 ≤ 256 ∧
      (paymentPieces.flatMap (·.1) ++ last).length ≤ 4096 ∧
      (∀ piece ∈ paymentPieces, ∀ operation ∈ piece.2, operation.isAside = true) ∧
      update oneKey (after oneKey (sending 0 paymentPieces)) (.txChunk 2 false last) =
        (.ok (.state (.review 0) UnsignedTx.payment.id),
          reviewing (some ()) ⟨.transaction UnsignedTx.payment, UnsignedTx.payment.id,
            oneKey.accountOf firstAccount ()⟩) := by
  intro last
  have hLength : (paymentPieces.flatMap (·.1) ++ last).length ≤ 4096 := by decide +kernel
  have hAside : ∀ piece ∈ paymentPieces, ∀ operation ∈ piece.2, operation.isAside = true := by
    decide
  have hPayload : paymentPieces.flatMap (·.1) ++ last =
      firstAccount.toBytes ++ UnsignedTx.payment.toBytes := by
    simp [paymentPieces, last]
  have hDecode : UnsignedTx.decode UnsignedTx.payment.toBytes =
      .ok (UnsignedTx.payment, UnsignedTx.payment.id) :=
    UnsignedTx.decode_eq_ok_iff.2
      ⟨⟨UnsignedTx.payment_valid, UnsignedTx.payment_valid.isCounted (by decide +kernel)⟩, rfl, rfl⟩
  obtain ⟨-, hLast, hRead, -⟩ :=
    load_split oneKey [] paymentPieces last rfl (by decide) hLength hAside
  refine ⟨rfl, by decide, hLength, hAside, ?_⟩
  exact hLast.trans (((hRead firstAccount _ hPayload rfl).2 () rfl).1 _ _ hDecode)

end Engine

end ColdSigner
