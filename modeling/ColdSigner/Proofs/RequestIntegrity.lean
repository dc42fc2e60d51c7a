import ColdSigner.Proofs.EngineInvariant
/-!
# A request under review stays the same

Once the user looks at a request, a command of the host changes nothing, unless it is the one
that releases the request (`IsRelease`). So what is signed at the end is what was shown, and a
signature can be asked for again (`Engine.request_unaltered`).
-/
namespace ColdSigner

/-- The command that releases a request: it fits into one chunk, and its length is right. Its
data do not matter, nor do the lower bits of its second parameter. -/
def IsRelease (command : Bytes) : Prop :=
  ∃ p2 length data, command = 0x80 :: 0x05 :: 0 :: p2 :: length :: data ∧ p2 &&& 0x80 = 0 ∧
    length.toNat = data.length ∧ data.length ≤ 250

theorem CommandHeader.parse_eq_ok_iff {command data : Bytes} {header : CommandHeader} :
    parse command = .ok (header, data) ↔
      ∃ length, command = header.cla :: header.ins :: header.p1 :: header.p2 :: length :: data ∧
        length.toNat = data.length := by
  unfold parse
  constructor
  · intro hParse
    split at hParse
    · next length rest =>
        split at hParse
        · next hLength =>
            cases hParse
            exact ⟨length, rfl, hLength⟩
        · simp at hParse
    · simp at hParse
  · rintro ⟨length, rfl, hLength⟩
    exact if_pos hLength

theorem Chunk.decode_eq_ok_iff {command : Bytes} {chunk : Chunk} :
    decode command = .ok chunk ↔
      ∃ p2 length, command = 0x80 :: chunk.ins :: chunk.seq :: p2 :: length :: chunk.data ∧
        length.toNat = chunk.data.length ∧ chunk.data.length ≤ 250 ∧
        chunk.more = decide (p2 &&& 0x80 ≠ 0) := by
  unfold decode
  constructor
  · intro hDecode
    split at hDecode
    · simp at hDecode
    · next header data hHeader =>
        obtain ⟨length, rfl, hLength⟩ := CommandHeader.parse_eq_ok_iff.1 hHeader
        split at hDecode
        · simp at hDecode
        · next hValid =>
            cases hDecode
            obtain ⟨hClass, hData⟩ := not_or.1 hValid
            refine ⟨header.p2, length, ?_, hLength, Nat.not_lt.1 hData, rfl⟩
            rw [Decidable.not_not.1 hClass]
            rfl
  · obtain ⟨ins, seq, more, data⟩ := chunk
    rintro ⟨p2, length, hCommand, hLength, hData, rfl⟩
    have hHeader : CommandHeader.parse command = .ok (⟨0x80, ins, seq, p2⟩, data) :=
      CommandHeader.parse_eq_ok_iff.2 ⟨length, hCommand, hLength⟩
    have hValid : ¬ ((0x80 : UInt8) ≠ commandClass ∨ maxChunkData < data.length) :=
      not_or.2 ⟨by decide, Nat.not_lt.2 hData⟩
    simp only [hHeader, if_neg hValid]
    rfl

namespace Event

/-- The instruction that an event comes from, if a command can cause it. -/
def instruction? : Event → Option Instruction
  | none | disconnect => .none
  | getVersion => some .getVersion
  | getAccount _ => some .getAccount
  | txChunk _ _ _ => some .signTx
  | signHash _ => some .signHash
  | txGetInfo => some .txGetInfo
  | txGetSignature => some .txGetSignature
  | txComplete => some .txComplete

/-- A command causes an event of its own instruction. -/
theorem instruction?_of_parse {chunk : Chunk} {event : Event} (hParse : parse chunk = .ok event) :
    ∃ instruction, Instruction.ofCode? chunk.ins = some instruction ∧
      event.instruction? = some instruction := by
  unfold parse at hParse
  cases hCode : Instruction.ofCode? chunk.ins with
  | none => simp [hCode] at hParse
  | some instruction =>
      refine ⟨instruction, rfl, ?_⟩
      rw [hCode] at hParse
      cases instruction with
      | getVersion => cases hParse; rfl
      | signTx => cases hParse; rfl
      | txGetInfo => cases hParse; rfl
      | txGetSignature => cases hParse; rfl
      | txComplete => cases hParse; rfl
      | getAccount =>
          cases hRequest : (Message.decode chunk.data : Except WireError AccountRequest) with
          | error error => simp [hRequest, Except.map] at hParse
          | ok request =>
              simp only [hRequest, Except.map, Except.ok.injEq] at hParse
              rw [← hParse]
              rfl
      | signHash =>
          cases hRequest : (Message.decode chunk.data : Except WireError HashSignRequest) with
          | error error => simp [hRequest, Except.map] at hParse
          | ok request =>
              simp only [hRequest, Except.map, Except.ok.injEq] at hParse
              rw [← hParse]
              rfl

end Event

namespace Engine

/-- A command is taken if it is a chunk with a known instruction, and only chunks of a
transaction may be parts of something longer. -/
theorem eventOfCommand_eq_ok_iff {command : Bytes} {event : Event} :
    eventOfCommand command = .ok event ↔
      ∃ chunk instruction, Chunk.decode command = .ok chunk ∧
        Instruction.ofCode? chunk.ins = some instruction ∧
        (instruction ≠ .signTx → chunk.seq = 0 ∧ chunk.more = false) ∧
        Event.parse chunk = .ok event := by
  unfold eventOfCommand
  constructor
  · intro hEvent
    split at hEvent
    · simp at hEvent
    · next chunk hChunk =>
        split at hEvent
        · simp at hEvent
        · next instruction hCode =>
            split at hEvent
            · simp at hEvent
            · next hAlone =>
                refine ⟨chunk, instruction, hChunk, hCode, ?_, ?_⟩
                · intro hOther
                  obtain ⟨hSeq, hMore⟩ := not_or.1 fun hPart => hAlone ⟨hOther, hPart⟩
                  exact ⟨Decidable.not_not.1 hSeq, by simpa using hMore⟩
                · cases hParse : Event.parse chunk with
                  | error error =>
                      rw [hParse] at hEvent
                      cases hEvent
                  | ok found =>
                      rw [hParse] at hEvent
                      cases hEvent
                      rfl
  · rintro ⟨chunk, instruction, hChunk, hCode, hAlone, hParse⟩
    have hAllowed : ¬ (instruction ≠ .signTx ∧ (chunk.seq ≠ 0 ∨ chunk.more = true)) := by
      rintro ⟨hOther, hPart⟩
      obtain ⟨hSeq, hMore⟩ := hAlone hOther
      simp [hSeq, hMore] at hPart
    simp only [hChunk, hCode, if_neg hAllowed, hParse]
    rfl

/-- The host cannot pretend to have gone away. -/
theorem eventOfCommand_ne_disconnect (command : Bytes) :
    eventOfCommand command ≠ .ok .disconnect := by
  intro hEvent
  obtain ⟨chunk, _, -, -, -, hParse⟩ := eventOfCommand_eq_ok_iff.1 hEvent
  obtain ⟨instruction, -, hInstruction⟩ := Event.instruction?_of_parse hParse
  cases hInstruction

theorem eventOfCommand_eq_txComplete_iff {command : Bytes} :
    eventOfCommand command = .ok .txComplete ↔ IsRelease command := by
  rw [eventOfCommand_eq_ok_iff]
  constructor
  · rintro ⟨chunk, instruction, hChunk, hCode, hAlone, hParse⟩
    obtain ⟨found, hFound, hInstruction⟩ := Event.instruction?_of_parse hParse
    obtain rfl : Instruction.txComplete = found := Option.some.inj hInstruction
    obtain rfl : instruction = .txComplete := Option.some.inj (hCode.symm.trans hFound)
    obtain ⟨hSeq, hMore⟩ := hAlone (by decide)
    obtain ⟨p2, length, rfl, hLength, hData, hFlag⟩ := Chunk.decode_eq_ok_iff.1 hChunk
    have hIns : chunk.ins = 0x05 := Instruction.ofCode?_eq_some_iff.1 hCode
    refine ⟨p2, length, chunk.data, by rw [hIns, hSeq], ?_, hLength, hData⟩
    simpa [hMore] using hFlag
  · rintro ⟨p2, length, data, rfl, hFlag, hLength, hData⟩
    refine ⟨⟨0x05, 0, false, data⟩, .txComplete, ?_, rfl, fun _ => ⟨rfl, rfl⟩, rfl⟩
    exact Chunk.decode_eq_ok_iff.2 ⟨p2, length, rfl, hLength, hData, by simp [hFlag]⟩

variable {store : KeyStore}

/-- The user looks at a request, or it is signed. -/
def IsReviewed {Key : Type} (engine : Engine Key) : Prop :=
  (∃ step, engine.state = .review step) ∨ engine.state = .signed

theorem Phase.isReviewed_iff {phase : Phase store.Key} :
    phase.engine.IsReviewed ↔ phase.Reviewed := by
  cases phase with
  | idle state txId hIdle =>
      simp only [Phase.Reviewed, iff_false]
      rintro (⟨step, hStep⟩ | hSigned)
      · obtain rfl : state = .review step := hStep
        cases hIdle
      · obtain rfl : state = .signed := hSigned
        cases hIdle
  | loading parts message => simp [IsReviewed, Phase.engine, Phase.Reviewed]
  | review key request place step => simp [IsReviewed, Phase.engine, Phase.Reviewed]
  | signed request step signature => simp [IsReviewed, Phase.engine, Phase.Reviewed]

/-- Both phases are about one request. If it was signed in between, then with the key that was
kept for it. -/
inductive Phase.Continues (store : KeyStore) : Phase store.Key → Phase store.Key → Prop where
  | review {key : Option store.Key} {request : Review} {place other : Place}
      {step number : UInt16} :
      Continues store (.review key request place step) (.review key request other number)
  | signs {key : store.Key} {request : Review} {place : Place} {step number : UInt16}
      {signature : Signature} (hSign : store.sign key request.id = some signature) :
      Continues store (.review (some key) request place step) (.signed request number signature)
  | signed {request : Review} {step : UInt16} {signature : Signature} :
      Continues store (.signed request step signature) (.signed request step signature)

theorem Phase.Continues.refl {phase : Phase store.Key} (hPhase : phase.Reviewed) :
    Continues store phase phase := by
  cases phase with
  | idle state txId hIdle => exact hPhase.elim
  | loading parts message => exact hPhase.elim
  | review key request place step => exact .review
  | signed request step signature => exact .signed

theorem Phase.Continues.trans {first middle last : Phase store.Key}
    (hFirst : Continues store first middle) (hLast : Continues store middle last) :
    Continues store first last := by
  cases hFirst with
  | review =>
      cases hLast with
      | review => exact .review
      | signs hSign => exact .signs hSign
  | signs hSign =>
      cases hLast
      exact .signs hSign
  | signed => exact hLast

/-- A step from a request under review to one is about the same request. -/
theorem Step.continues {phase next : Phase store.Key} {operation : Operation}
    (last : Step store phase operation next) (hPhase : phase.Reviewed) (hNext : next.Reviewed) :
    phase.Continues store next := by
  cases last with
  | stop hIdle => exact hNext.elim
  | showAddress hEvent hDerive => exact hPhase.elim
  | showHash hEvent hDerive => exact hPhase.elim
  | loadFirst hEvent => exact hPhase.elim
  | loadOnly hEvent hLength hRequest => exact hPhase.elim
  | loadMore hEvent hSeq => exact hPhase.elim
  | loadLast hEvent hSeq hLength hRequest => exact hPhase.elim
  | wait hPart => exact hPhase.elim
  | look hApprove hDeny hKeeps => exact .review
  | accept hNext => exact .review
  | sign hLast hSubject hSign => exact .signs hSign
  | keep hKeeps => exact .signed

theorem Run.exists_continues {operations : List Operation} {phase : Phase store.Key}
    (run : Run store operations phase) (hPhase : phase.Reviewed) (later : List Operation)
    (hStays : ∀ seen, seen <+: later → (after store (operations ++ seen)).IsReviewed) :
    ∃ next, Run store (operations ++ later) next ∧ phase.Continues store next := by
  induction later generalizing operations phase with
  | nil => exact ⟨phase, by simpa using run, .refl hPhase⟩
  | cons operation rest ih =>
      obtain ⟨middle, hPerform, last⟩ := exists_step phase operation
      have prior := run.step hPerform last
      have hMiddle := hStays [operation] (List.prefix_append [operation] rest)
      rw [prior.after_eq, Phase.isReviewed_iff] at hMiddle
      have hRest (seen : List Operation) (hSeen : seen <+: rest) :
          (after store (operations ++ [operation] ++ seen)).IsReviewed := by
        rw [← List.append_cons]
        exact hStays (operation :: seen) (List.cons_prefix_cons.2 ⟨rfl, hSeen⟩)
      obtain ⟨next, run, hNext⟩ := ih prior hMiddle hRest
      rw [← List.append_cons] at run
      exact ⟨next, run, (last.continues hPhase hMiddle).trans hNext⟩

/-- Nothing but an operation that drops every request ends a signature. -/
theorem perform_signed {request : Review} {step : UInt16} {signature : Signature}
    {operation : Operation} (hKeeps : ¬ operation.Drops) :
    perform store (Phase.signed request step signature).engine operation =
      (Phase.signed request step signature).engine := by
  cases hEvent : operation.event? with
  | some event =>
      have hReviewed : (Phase.signed request step signature : Phase store.Key).Reviewed := trivial
      rw [perform_of_event hEvent]
      apply update_of_reviewed hReviewed
      · rintro rfl
        exact hKeeps (.inr (.inl hEvent))
      · rintro rfl
        exact hKeeps (.inr (.inr hEvent))
  | none =>
      rcases perform_of_no_event _ hEvent with rfl | rfl | rfl | ⟨hSame, -⟩
      · rfl
      · rfl
      · exact absurd (.inl rfl) hKeeps
      · exact hSame

theorem foldl_perform_signed {request : Review} {step : UInt16} {signature : Signature}
    {later : List Operation} (hKeeps : ∀ operation ∈ later, ¬ operation.Drops) :
    later.foldl (perform store) (Phase.signed request step signature).engine =
      (Phase.signed request step signature).engine := by
  induction later with
  | nil => rfl
  | cons operation rest ih =>
      obtain ⟨hFirst, hRest⟩ := List.forall_mem_cons.1 hKeeps
      rw [List.foldl_cons, perform_signed hFirst, ih hRest]

theorem Phase.context_of_continues {phase next : Phase store.Key}
    (hContinues : phase.Continues store next) (hSound : next.Sound) :
    ∃ context last, phase.engine.context = some context ∧ next.engine.context = some last ∧
      last.review = context.review ∧
      (∀ step, next.engine.state = .review step → ∃ place,
        context.review.places[step.toNat]? = some place ∧
        next.engine.currentStep? = some (context.review.render place)) ∧
      ∀ answer, signatureAnswer store next.engine = .ok (.signature answer) →
        answer.txId = context.review.id ∧
        (context.signature = some answer.signature ∨
          ∃ key, context.key = some key ∧
            store.sign key context.review.id = some answer.signature) := by
  cases hContinues with
  | review =>
      refine ⟨_, _, rfl, rfl, rfl, ?_, ?_⟩
      · intro step hStep
        cases hStep
        exact ⟨_, hSound.2.1, rfl⟩
      · intro answer hAnswer
        cases hAnswer
  | signs hSign =>
      refine ⟨_, _, rfl, rfl, rfl, ?_, ?_⟩
      · intro step hStep
        cases hStep
      · intro answer hAnswer
        cases hAnswer
        exact ⟨rfl, .inr ⟨_, rfl, hSign⟩⟩
  | signed =>
      refine ⟨_, _, rfl, rfl, rfl, ?_, ?_⟩
      · intro step hStep
        cases hStep
      · intro answer hAnswer
        cases hAnswer
        exact ⟨rfl, .inl rfl⟩

/-- While a request is under review or signed, the host can release it and do nothing else to
the device. As long as it is under review or signed, the steps that are shown are its steps, a
signature is one of its identifier with its key, and a signature is answered again and again. -/
theorem request_unaltered (store : KeyStore) (operations : List Operation)
    (hReviewed : (after store operations).IsReviewed) :
    (∀ capacity command, IsRelease command →
      (handle store (after store operations) capacity command).2 =
        ⟨.complete, (after store operations).txId, .empty, none⟩) ∧
    (∀ capacity command, ¬ IsRelease command →
      (handle store (after store operations) capacity command).2 = after store operations) ∧
    (∀ event, event ≠ .txComplete → event ≠ .disconnect →
      (update store (after store operations) event).2 = after store operations) ∧
    (∀ later, (∀ seen, seen <+: later → (after store (operations ++ seen)).IsReviewed) →
      ∃ context last, (after store operations).context = some context ∧
        (after store (operations ++ later)).context = some last ∧
        last.review = context.review ∧
        (∀ step, (after store (operations ++ later)).state = .review step → ∃ place,
          context.review.places[step.toNat]? = some place ∧
          (after store (operations ++ later)).currentStep? =
            some (context.review.render place)) ∧
        ∀ answer, signatureAnswer store (after store (operations ++ later)) =
            .ok (.signature answer) →
          answer.txId = context.review.id ∧
          (context.signature = some answer.signature ∨
            ∃ key, context.key = some key ∧
              store.sign key context.review.id = some answer.signature)) ∧
    ((after store operations).state = .signed → ∃ answer, ∀ later operation,
      (∀ earlier ∈ later, ¬ earlier.Drops) → operation.event? = some .txGetSignature →
        output? store (after store (operations ++ later)) operation =
          some (.ok (.signature answer))) := by
  obtain ⟨phase, run⟩ := exists_run store operations
  rw [run.after_eq] at hReviewed ⊢
  rw [Phase.isReviewed_iff] at hReviewed
  refine ⟨?_, ?_, ?_, ?_, ?_⟩
  · intro capacity command hRelease
    rw [snd_handle, eventOfCommand_eq_txComplete_iff.2 hRelease]
    exact update_txComplete phase
  · intro capacity command hOther
    rw [snd_handle]
    cases hEvent : eventOfCommand command with
    | error status => rfl
    | ok event =>
        apply update_of_reviewed hReviewed
        · rintro rfl
          exact hOther (eventOfCommand_eq_txComplete_iff.1 hEvent)
        · rintro rfl
          exact eventOfCommand_ne_disconnect command hEvent
  · intro event hComplete hDisconnect
    exact update_of_reviewed hReviewed hComplete hDisconnect
  · intro later hStays
    obtain ⟨next, last, hContinues⟩ := run.exists_continues hReviewed later hStays
    rw [last.after_eq]
    exact Phase.context_of_continues hContinues last.sound
  · intro hSigned
    cases phase with
    | idle state txId hIdle => exact hReviewed.elim
    | loading parts message => exact hReviewed.elim
    | review key request place step => cases hSigned
    | signed request step signature =>
        refine ⟨⟨request.id, signature⟩, ?_⟩
        intro later operation hKeeps hEvent
        rw [after_append, run.after_eq, foldl_perform_signed hKeeps, output?, hEvent]
        rfl

/-- A device that has a single key at the end of all paths. -/
def oneKey : KeyStore where
  Key := Unit
  key _ := .ok ()
  publicKey _ := FixedBytes.zero 33
  sign _ _ := some (FixedBytes.zero 64)

/-- The path to the first address of the first account. -/
def firstAccount : DerivationPath where
  indices := [0x8000002c, 0x800004d2, 0x80000000, 0, 0]
  length_le := by decide

/-- The user approves a hash. -/
def hashApproval : List Operation :=
  [.event (.signHash ⟨firstAccount, FixedBytes.zero 32⟩), .approve]

theorem request_unaltered_hashApproval :
    (after oneKey hashApproval).state = .signed ∧
      (∀ capacity command, ¬ IsRelease command →
        (handle oneKey (after oneKey hashApproval) capacity command).2 =
          after oneKey hashApproval) ∧
      (handle oneKey (after oneKey hashApproval) 2 [0x80, 0x05, 0, 0, 0]).2 =
        ⟨.complete, FixedBytes.zero 32, .empty, none⟩ ∧
      ∃ answer, ∀ later operation, (∀ earlier ∈ later, ¬ earlier.Drops) →
        operation.event? = some .txGetSignature →
        output? oneKey (after oneKey (hashApproval ++ later)) operation =
          some (.ok (.signature answer)) := by
  have hSigned : (after oneKey hashApproval).state = .signed := rfl
  have hUnaltered := request_unaltered oneKey hashApproval (.inr hSigned)
  have hRelease : IsRelease [0x80, 0x05, 0, 0, 0] := ⟨0, 0, [], rfl, rfl, rfl, by decide⟩
  exact ⟨hSigned, hUnaltered.2.1, hUnaltered.1 2 _ hRelease, hUnaltered.2.2.2.2 hSigned⟩

end Engine

end ColdSigner
