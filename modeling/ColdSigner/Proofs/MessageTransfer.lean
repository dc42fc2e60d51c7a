import ColdSigner.Proofs.ChunkSequences
import ColdSigner.Proofs.HonestExchanges
/-!
# What the host sends of a message

The host and the device write the same command for a chunk. The chunks of a message are its parts
(`Chunk.carries_split`), so a device that takes all commands of a request has what the host wanted
to say (`DeviceHandle.request_lossless`).
-/
namespace ColdSigner

namespace Chunk

variable {chunk : Chunk} {ins seq : UInt8} {payload : Bytes}

theorem toBytes_ofChunk (chunk : Chunk) : (Command.ofChunk chunk).toBytes = chunk.toBytes := rfl

theorem encodeInto_of_le {capacity : Nat} (hData : chunk.data.length ≤ maxChunkData)
    (hCapacity : chunk.encodedLength ≤ capacity) :
    chunk.encodeInto capacity = .ok chunk.toBytes :=
  if_neg (not_or.2 ⟨Nat.not_lt.2 hData, Nat.not_lt.2 hCapacity⟩)

theorem isPart_toBytes (chunk : Chunk) (hData : chunk.data.length ≤ maxChunkData) :
    IsPart chunk.ins chunk.seq.toNat (chunk.more = true) chunk.toBytes :=
  isPart_iff.2 ⟨chunk, decode_ofChunk hData, rfl, rfl, Iff.rfl⟩

/-- As many chunks as the payload fills, and one for no payload. -/
theorem length_split (ins seq : UInt8) (payload : Bytes) :
    (split ins seq payload).length = max 1 ((payload.length + 249) / 250) := by
  fun_induction split ins seq payload with
  | case1 seq payload hShort =>
      rw [maxChunkData] at hShort
      rw [List.length_singleton]
      omega
  | case2 seq payload hLong ih =>
      rw [maxChunkData] at hLong
      rw [List.length_cons, ih, List.length_drop, maxChunkData]
      omega

/-- The chunks are counted from the first one on, as long as one byte can count them. -/
theorem arePartsFrom_split (hCount : seq.toNat + (split ins seq payload).length ≤ 256) :
    ArePartsFrom ins seq.toNat ((split ins seq payload).map toBytes) := by
  fun_induction split ins seq payload with
  | case1 seq payload hShort =>
      have hLast := isPart_toBytes ⟨ins, seq, false, payload⟩ hShort
      rw [List.map_singleton, arePartsFrom_cons_iff]
      exact ⟨by simpa using hLast, arePartsFrom_nil⟩
  | case2 seq payload hLong ih =>
      have hFirst := isPart_toBytes ⟨ins, seq, true, payload.take maxChunkData⟩
        (List.length_take_le _ _)
      have hRest := split_ne_nil ins (seq + 1) (payload.drop maxChunkData)
      -- There is a chunk behind this one, so its number is still a byte.
      have hNext : (seq + 1).toNat = seq.toNat + 1 := by
        rw [List.length_cons] at hCount
        have hPositive := List.length_pos_iff.2 hRest
        rw [UInt8.toNat_add, UInt8.toNat_one]
        exact Nat.mod_eq_of_lt (by omega)
      rw [hNext] at ih
      rw [List.map_cons, arePartsFrom_cons_iff]
      refine ⟨by simpa [hRest] using hFirst, ih ?_⟩
      rw [List.length_cons] at hCount
      omega

theorem dataOf_map_toBytes (chunks : List Chunk) :
    dataOf (chunks.map toBytes) = chunks.flatMap (·.data) := by
  rw [dataOf, List.flatMap_map]
  rfl

/-- The chunks of a message that is not too long carry it. -/
theorem carries_split (ins : UInt8) (hPayload : payload.length ≤ maxPayload) :
    Carries ((split ins 0 payload).map toBytes) ins payload := by
  have hCount := length_split ins 0 payload
  rw [maxPayload] at hPayload
  refine ⟨?_, ?_, ?_, ?_, hPayload⟩
  · rw [List.length_map]
    omega
  · rw [List.length_map]
    omega
  · rw [← UInt8.toNat_zero]
    apply arePartsFrom_split
    rw [UInt8.toNat_zero]
    omega
  · rw [dataOf_map_toBytes, (split_carries ins 0 payload).1]

end Chunk

/-- The command was answered with success, and in time. -/
def Delivery.Acknowledged (limit : Nat) (delivery : Delivery) : Prop :=
  ∃ delay data, delivery.arrival = .after delay (.ok ⟨data, Status.ok⟩) ∧ delay ≤ limit

namespace Link

variable {σ : Type} {link : Link σ} {limit : Nat}

/-- Whatever is written down is what the channel did with a command. -/
theorem exists_exchange_of_mem_sent {budget : Option Nat} {commands : List Bytes} {elapsed : Nat}
    {data : Bytes} {state : σ} {delivery : Delivery}
    (hMem : delivery ∈ link.sent limit budget commands elapsed data state) :
    ∃ before, delivery.arrival = (link.exchange before delivery.command).1 := by
  induction commands generalizing elapsed data state with
  | nil => exact absurd hMem List.not_mem_nil
  | cons command rest ih =>
      rw [sent_cons] at hMem
      rcases List.mem_cons.1 hMem with rfl | hMem
      · exact ⟨state, rfl⟩
      · split at hMem
        · exact ih hMem
        · exact absurd hMem List.not_mem_nil

/-- A request that is acknowledged all the way ends with success. -/
theorem exists_perform_of_acknowledged {commands : List Bytes} {elapsed : Nat} {data : Bytes}
    {state : σ}
    (hAll : ∀ delivery ∈ link.sent limit none commands elapsed data state,
      delivery.Acknowledged limit) :
    ∃ result time next,
      link.perform limit none commands elapsed data state = (.ended (.ok result) time, next) := by
  induction commands generalizing elapsed data state with
  | nil => exact ⟨data, elapsed, state, rfl⟩
  | cons command rest ih =>
      rw [sent_cons] at hAll
      obtain ⟨⟨delay, answer, hArrival, hDelay⟩, hRest⟩ := List.forall_mem_cons.1 hAll
      have hSettle : settle limit none elapsed (link.exchange state command).1 =
          .ok (elapsed + delay, answer) := by
        have hFirst : (link.exchange state command).1 = .after delay (.ok ⟨answer, Status.ok⟩) :=
          hArrival
        rw [hFirst, settle_of_le hDelay]
        rfl
      rw [hSettle] at hRest
      rw [perform_cons, hSettle]
      exact ih hRest

end Link

namespace DeviceHandle

variable {σ : Type} (handle : DeviceHandle) (link : Link σ) (state : σ) (ins : UInt8)
  (payload : Bytes)

/-- The commands of a message that is not too long are sent, as far as they are acknowledged. -/
theorem transcript_request_of_le (hPayload : payload.length ≤ maxPayload) :
    (handle.request ins payload).run.transcript link state =
      link.sent handle.limit none ((Chunk.split ins 0 payload).map (·.toBytes)) 0 [] state := by
  rw [request, commands_of_le hPayload]
  dsimp only [ExceptT.run_mk]
  rw [Dialogue.transcript_request]
  split
  · exact List.append_nil _
  · exact List.append_nil _

/-- A request that is acknowledged all the way returns, and has sent all chunks of its message. -/
theorem exists_run_of_acknowledged (hPayload : payload.length ≤ maxPayload)
    (hAll : ∀ delivery ∈ (handle.request ins payload).run.transcript link state,
      delivery.Acknowledged handle.limit) :
    (∃ answer next, (handle.request ins payload).run.run link state = (.ok answer, next)) ∧
      ((handle.request ins payload).run.transcript link state).map (·.command) =
        (Chunk.split ins 0 payload).map (·.toBytes) := by
  rw [transcript_request_of_le handle link state ins payload hPayload] at hAll ⊢
  obtain ⟨answer, time, next, hPerform⟩ := Link.exists_perform_of_acknowledged hAll
  refine ⟨⟨answer, next, ?_⟩, (Link.sent_of_perform hPerform).1⟩
  rw [request, commands_of_le hPayload]
  dsimp only [ExceptT.run_mk]
  rw [Dialogue.run]
  simp only [Chunk.toBytes_ofChunk, hPerform]
  rfl

/-- A message of at most 4096 bytes goes through unchanged, if all its commands are acknowledged:
they are what a device would write for the chunks of the message, and put together they are the
message. Of a longer one nothing is sent. -/
theorem request_lossless :
    let log := (handle.request ins payload).run.transcript link state
    (payload.length ≤ 4096 → (∀ delivery ∈ log, delivery.Acknowledged handle.limit) →
      (∃ answer next, (handle.request ins payload).run.run link state = (.ok answer, next)) ∧
      ∃ chunks, frame ins payload = .ok chunks ∧
        chunks.length = max 1 ((payload.length + 249) / 250) ∧
        log.map (·.command) = chunks.map (·.toBytes) ∧
        (∀ chunk ∈ chunks, chunk.toBytes.length ≤ 255 ∧
          ∀ capacity, chunk.encodedLength ≤ capacity →
            chunk.encodeInto capacity = .ok chunk.toBytes) ∧
        reassemble (log.map (·.command)) = .ok (ins, payload)) ∧
    (4096 < payload.length →
      (handle.request ins payload).run.run link state =
        (.error (.framing .payloadTooLarge), state) ∧ log = []) := by
  intro log
  constructor
  · intro hPayload hAll
    obtain ⟨hReturns, hCommands⟩ :=
      exists_run_of_acknowledged handle link state ins payload hPayload hAll
    refine ⟨hReturns, Chunk.split ins 0 payload, if_neg (Nat.not_lt.2 hPayload),
      Chunk.length_split ins 0 payload, hCommands, ?_, ?_⟩
    · intro chunk hChunk
      have hData := ((Chunk.split_carries ins 0 payload).2 chunk hChunk).2
      refine ⟨?_, fun capacity hCapacity => Chunk.encodeInto_of_le hData hCapacity⟩
      rw [Chunk.length_toBytes, Chunk.encodedLength]
      exact Nat.add_le_add_left hData 5
    · apply reassemble_eq_ok_iff.2
      rw [hCommands]
      exact Chunk.carries_split ins hPayload
  · intro hLong
    have hRefused : (handle.request ins payload).run =
        .done (.error (.framing .payloadTooLarge)) := by
      rw [request, commands, frame, maxPayload, if_pos hLong]
      rfl
    have hLog : log = [] := by
      change (handle.request ins payload).run.transcript link state = []
      rw [hRefused]
      rfl
    rw [hRefused]
    exact ⟨rfl, hLog⟩

/-- A device that takes every command at once. -/
def acknowledging : Link Unit := ⟨fun state _ => (.after 0 (.ok ⟨[], Status.ok⟩), state)⟩

/-- A message that fills two chunks is no longer than that, and one that is too long by a byte is
not sent. -/
theorem request_lossless_twoChunks :
    (∃ chunks, frame 0x02 (List.replicate 500 7) = .ok chunks ∧ chunks.length = 2 ∧
      reassemble (((standard.request 0x02 (List.replicate 500 7)).run.transcript acknowledging
        ()).map (·.command)) = .ok (0x02, List.replicate 500 7)) ∧
    (standard.request 0x02 (List.replicate 4097 7)).run.run acknowledging () =
      (.error (.framing .payloadTooLarge), ()) := by
  have hPayload : (List.replicate 500 (7 : UInt8)).length ≤ 4096 := by
    rw [List.length_replicate]
    decide
  have hLong : 4096 < (List.replicate 4097 (7 : UInt8)).length := by
    rw [List.length_replicate]
    decide
  have hAll : ∀ delivery ∈ (standard.request 0x02 (List.replicate 500 7)).run.transcript
      acknowledging (), delivery.Acknowledged standard.limit := by
    intro delivery hDelivery
    rw [transcript_request_of_le standard acknowledging () 0x02 _ hPayload] at hDelivery
    obtain ⟨before, hArrival⟩ := Link.exists_exchange_of_mem_sent hDelivery
    exact ⟨0, [], hArrival, Nat.zero_le _⟩
  obtain ⟨-, chunks, hFrame, hCount, -, -, hMessage⟩ :=
    (request_lossless standard acknowledging () 0x02 (List.replicate 500 7)).1 hPayload hAll
  refine ⟨⟨chunks, hFrame, ?_, hMessage⟩, ?_⟩
  · rw [hCount, List.length_replicate]
    decide
  · exact ((request_lossless standard acknowledging () 0x02 (List.replicate 4097 7)).2 hLong).1

end DeviceHandle

end ColdSigner
