import ColdSigner.Proofs.CheckedIntegers
import ColdSigner.Proofs.IntegerForms
import ColdSigner.Proofs.TransactionParts
/-!
# Reading by an index into a buffer

A reader can keep the whole buffer and an index of 64 bits into it. Then more can go wrong than that
bytes are missing: the index can leave its 64 bits, a difference can fall below zero, and a slice
can begin or end outside of the buffer. After such a fault there is no outcome at all, not even an
error (`IndexedReader`). From an index inside of the buffer no read comes to a fault: it has the
outcome of the read on a cursor, ends where that one ends, and stays inside
(`IndexedReader.Agrees`).
-/
namespace ColdSigner

open Number

/-- Bytes in memory. How many they are is a number of 64 bits. -/
structure Buffer where
  bytes : Bytes
  length_lt : bytes.length < 2 ^ 64

namespace Bytes

/-- So many bytes from an index on. Neither end may lie outside. -/
def slice? (bytes : Bytes) (start count : Nat) : Option Bytes :=
  if start ≤ bytes.length ∧ count ≤ bytes.length - start then some ((bytes.drop start).take count)
  else none

end Bytes

structure IndexedCursor where
  buffer : Buffer
  index : Nat

namespace IndexedCursor

def start (buffer : Buffer) : IndexedCursor := ⟨buffer, 0⟩

/-- The cursor at the same place, which knows the bytes behind it only. -/
def cursor (place : IndexedCursor) : Cursor := .into place.buffer.bytes place.index

/-- The end of the buffer is inside. -/
def IsInside (place : IndexedCursor) : Prop := place.index ≤ place.buffer.bytes.length

/-- The way from one place to the other leads forwards, in one buffer and not beyond its end. -/
structure Precedes (place next : IndexedCursor) : Prop where
  buffer_eq : next.buffer = place.buffer
  index_le : place.index ≤ next.index
  isInside : next.IsInside

variable {place middle next : IndexedCursor}

theorem isInside_start (buffer : Buffer) : (start buffer).IsInside := Nat.zero_le _

theorem Precedes.refl (hInside : place.IsInside) : place.Precedes place :=
  ⟨rfl, Nat.le_refl _, hInside⟩

theorem Precedes.trans (hFirst : place.Precedes middle) (hSecond : middle.Precedes next) :
    place.Precedes next :=
  ⟨hSecond.buffer_eq.trans hFirst.buffer_eq, Nat.le_trans hFirst.index_le hSecond.index_le,
    hSecond.isInside⟩

theorem remaining_cursor (place : IndexedCursor) :
    place.cursor.remaining = place.buffer.bytes.length - place.index :=
  List.length_drop

end IndexedCursor

/-- A read by the index. It has an outcome, which may be an error, unless it comes to a fault. -/
abbrev IndexedReader := ExceptT TxError (StateT IndexedCursor Option)

namespace IndexedReader

def runFrom {α : Type} (read : IndexedReader α) (place : IndexedCursor) :
    Option (Except TxError α × IndexedCursor) :=
  (ExceptT.run read).run place

/-- A value that is missing if it would be out of range, which is a fault. -/
def inRange {α : Type} (value? : Option α) : IndexedReader α :=
  ExceptT.lift (StateT.lift value?)

def remaining : IndexedReader Nat := do
  let place ← get
  inRange (unsigned? 64 (place.buffer.bytes.length - place.index))

def advance (count : Nat) : IndexedReader PUnit := do
  let place ← get
  let index ← inRange (unsigned? 64 (place.index + count))
  set { place with index }

def byte : IndexedReader UInt8 := do
  let place ← get
  match place.buffer.bytes[place.index]? with
  | none => throw .truncated
  | some b =>
      advance 1
      return b

def bytes (count : Nat) : IndexedReader Bytes := do
  if (← remaining) < count then throw .truncated
  else
    let place ← get
    let taken ← inRange (place.buffer.bytes.slice? place.index count)
    advance count
    return taken

/-- A copy into a value of fixed size. A slice of another size is a fault. -/
def fixed (size : Nat) : IndexedReader (FixedBytes size) := do
  inRange (FixedBytes.ofList? size (← bytes size))

def number (width : Nat) : IndexedReader Nat := do
  return (← fixed width).toNat

/-- A number that was read from this index on has to need its bytes. -/
def shortestFrom {α : Type} (length : α → Nat) (start : Nat) (value : α) : IndexedReader α := do
  let used ← inRange (unsigned? 64 ((← get).index - start))
  if length value = used then return value else throw .nonCanonical

def int : IndexedReader Int32 := do
  let start := (← get).index
  let first ← byte
  let payload := first.toNat % 64
  let finish := shortestFrom Compact.lengthOfInt start
  match first.toNat / 64 with
  | 0 => finish (Reader.signExtend 6 payload)
  | 1 => finish (Reader.signExtend 14 (payload * 2 ^ 8 + (← byte).toNat))
  | 2 => finish (Reader.signExtend 30 (payload * 2 ^ 24 + (← number 3)))
  | _ =>
      if payload ≠ 0 then throw .nonCanonical
      else finish (Reader.signExtend 32 (← number 4))

def amount : IndexedReader Uint256 := do
  let start := (← get).index
  let first ← byte
  let payload := first.toNat % 64
  let finish (value : Nat) : IndexedReader Uint256 :=
    match Uint256.ofNat? value with
    | some value => shortestFrom Compact.lengthOfAmount start value
    | none => throw .overflow
  match first.toNat / 64 with
  | 0 => finish payload
  | 1 => finish (payload * 2 ^ 8 + (← byte).toNat)
  | 2 => finish (payload * 2 ^ 24 + (← number 3))
  | _ =>
      let count := payload + 4
      if 32 < count then throw .overflow
      else finish (Bytes.ofBigEndian (← bytes count))

/-- The product of both sizes may be more than 64 bits hold. Then so many elements do not fit. -/
def length (elementSize : Nat) : IndexedReader Nat := do
  let count ← int
  if count.toInt < 0 then throw .invalidLength
  else
    let count := count.toInt.toNat
    match unsigned? 64 (count * elementSize) with
    | some total => if (← remaining) < total then throw .truncated else return count
    | none => throw .truncated

def repeated {α : Type} (read : IndexedReader α) : Nat → IndexedReader (List α)
  | 0 => return []
  | count + 1 => do
      let first ← read
      return first :: (← repeated read count)

def lockup : IndexedReader Lockup := do
  match ← byte with
  | 0 => return .key (← fixed 32)
  | 1 =>
      let count ← length 32
      if count = 0 ∨ maxMultisigKeys < count then throw .invalidMultisig
      else
        let hashes ← repeated (fixed 32) count
        let required ← int
        if required.toInt < 1 ∨ (count : Int) < required.toInt then throw .invalidMultisig
        else return .multisig hashes required.toInt.toNat
  | 2 => return .script (← fixed 32)
  | _ => throw .invalidLockupScript

/-- From this place the read on the index has no fault. Its outcome is the one of the read on the
cursor, and both end at one place, which is inside and not in front of the first. -/
def Agrees {α : Type} (indexed : IndexedReader α) (read : Reader α) (place : IndexedCursor) :
    Prop :=
  ∃ outcome next, indexed.runFrom place = some (outcome, next) ∧
    read.runFrom place.cursor = (outcome, next.cursor) ∧ place.Precedes next

section Combinators

variable {α β : Type} {place : IndexedCursor} {indexed other : IndexedReader α}
  {read otherRead : Reader α}

theorem agrees_pure (hInside : place.IsInside) (value : α) :
    Agrees (pure value) (pure value) place :=
  ⟨.ok value, place, rfl, rfl, .refl hInside⟩

theorem agrees_throw (hInside : place.IsInside) (error : TxError) :
    Agrees (throw error : IndexedReader α) (throw error) place :=
  ⟨.error error, place, rfl, rfl, .refl hInside⟩

theorem runFrom_bind (indexed : IndexedReader α) (follow : α → IndexedReader β)
    (place : IndexedCursor) :
    (indexed >>= follow).runFrom place =
      (indexed.runFrom place).bind fun found => ExceptT.bindCont follow found.1 found.2 := rfl

/-- Reads in a row agree, if the second ones agree wherever the first ones succeed and end. -/
theorem Agrees.bind {follow : α → IndexedReader β} {followRead : α → Reader β}
    (hFirst : Agrees indexed read place)
    (hFollow : ∀ value next, place.Precedes next →
      Reader.Returns read place.cursor value next.cursor →
        Agrees (follow value) (followRead value) next) :
    Agrees (indexed >>= follow) (read >>= followRead) place := by
  obtain ⟨outcome, middle, hIndexed, hRead, hPrecedes⟩ := hFirst
  have hBind := runFrom_bind indexed follow place
  have hBindRead := Reader.runFrom_bind read followRead place.cursor
  rw [hIndexed] at hBind
  rw [hRead] at hBindRead
  cases outcome with
  | error error => exact ⟨.error error, middle, hBind, hBindRead, hPrecedes⟩
  | ok value =>
      obtain ⟨result, next, hSecond, hSecondRead, hAfter⟩ := hFollow value middle hPrecedes hRead
      exact ⟨result, next, hBind.trans hSecond, hBindRead.trans hSecondRead,
        hPrecedes.trans hAfter⟩

/-- What is made of the value of a read does not move the index. -/
theorem Agrees.map {f : α → β} (hRead : Agrees indexed read place) :
    Agrees (do return f (← indexed)) (do return f (← read)) place :=
  hRead.bind fun _ _ hPrecedes _ => agrees_pure hPrecedes.isInside _

theorem Agrees.ite {p : Prop} [Decidable p] (hThen : Agrees indexed read place)
    (hElse : Agrees other otherRead place) :
    Agrees (if p then indexed else other) (if p then read else otherRead) place := by
  split
  · exact hThen
  · exact hElse

/-- What leaves the index where it is can stand in front of a read. -/
theorem Agrees.still_bind {value : α} {follow : α → IndexedReader β} {read : Reader β}
    (hStill : indexed.runFrom place = some (.ok value, place))
    (hFollow : Agrees (follow value) read place) : Agrees (indexed >>= follow) read place := by
  obtain ⟨outcome, next, hIndexed, hRead⟩ := hFollow
  have hBind := runFrom_bind indexed follow place
  rw [hStill] at hBind
  exact ⟨outcome, next, hBind.trans hIndexed, hRead⟩

theorem runFrom_inRange {value? : Option α} {value : α} (hValue : value? = some value) :
    (inRange value?).runFrom place = some (.ok value, place) := by
  subst hValue
  rfl

end Combinators

section Reads

variable {place : IndexedCursor}

/-- What remains is never below zero, inside of the buffer. -/
theorem runFrom_remaining (hInside : place.IsInside) :
    remaining.runFrom place = some (.ok place.cursor.remaining, place) := by
  have hFits := place.buffer.length_lt
  rw [place.remaining_cursor]
  exact runFrom_inRange (unsigned?_sub hInside (by omega))

/-- From an index outside there would be a fault. -/
example : remaining.runFrom ⟨⟨[0x2a], by decide⟩, 2⟩ = none := by
  rfl

theorem runFrom_advance {count : Nat}
    (hCount : place.index + count ≤ place.buffer.bytes.length) :
    (advance count).runFrom place =
      some (.ok ⟨⟩, { place with index := place.index + count }) := by
  have hFits := place.buffer.length_lt
  have hIndex : unsigned? 64 ((place.index : Int) + count) = some (place.index + count) :=
    unsigned?_add (by omega)
  have hBind := runFrom_bind (inRange (unsigned? 64 ((place.index : Int) + count)))
    (fun index => set { place with index }) place
  rw [runFrom_inRange hIndex] at hBind
  exact hBind

/-- The step over bytes that there are. -/
theorem agrees_advance {α : Type} {count : Nat} (value : α)
    (hCount : place.index + count ≤ place.buffer.bytes.length) :
    Agrees (do advance count; return value) (do set (place.cursor.advance count); return value)
      place := by
  have hBind := runFrom_bind (advance count) (fun _ => pure value) place
  rw [runFrom_advance hCount] at hBind
  have hNext : place.cursor.advance count =
      IndexedCursor.cursor { place with index := place.index + count } :=
    congrArg (Cursor.mk _) List.drop_drop
  refine ⟨.ok value, { place with index := place.index + count }, hBind, ?_, rfl,
    Nat.le_add_right _ _, hCount⟩
  rw [← hNext]
  rfl

theorem agrees_byte (hInside : place.IsInside) : Agrees byte Reader.byte place := by
  unfold byte Reader.byte
  -- One looks the byte up in the buffer, the other at the front of the bytes behind.
  change Agrees (match place.buffer.bytes[place.index]? with
    | none => throw .truncated
    | some b => do
        advance 1
        return b) (match place.buffer.bytes.drop place.index with
      | [] => throw .truncated
      | b :: _ => do
          set (place.cursor.advance 1)
          return b) place
  by_cases hEnd : place.index < place.buffer.bytes.length
  · rw [List.getElem?_eq_getElem hEnd, List.drop_eq_getElem_cons hEnd]
    exact agrees_advance _ hEnd
  · rw [List.getElem?_eq_none (Nat.le_of_not_lt hEnd),
      List.drop_eq_nil_of_le (Nat.le_of_not_lt hEnd)]
    exact agrees_throw hInside _

theorem agrees_bytes (hInside : place.IsInside) (count : Nat) :
    Agrees (bytes count) (Reader.bytes count) place := by
  unfold bytes Reader.bytes
  refine Agrees.still_bind (runFrom_remaining hInside) ?_
  change Agrees _ (if place.cursor.remaining < count then throw .truncated
    else do
      set (place.cursor.advance count)
      return place.cursor.rest.take count) place
  by_cases hFew : place.cursor.remaining < count
  · rw [if_pos hFew, if_pos hFew]
    exact agrees_throw hInside _
  · rw [if_neg hFew, if_neg hFew]
    have hFew := Nat.le_of_not_lt hFew
    rw [place.remaining_cursor] at hFew
    have hSlice : place.buffer.bytes.slice? place.index count =
        some (place.cursor.rest.take count) := if_pos ⟨hInside, hFew⟩
    unfold IndexedCursor.IsInside at hInside
    refine Agrees.still_bind rfl (Agrees.still_bind (runFrom_inRange hSlice) ?_)
    exact agrees_advance _ (by omega)

/-- The slice has the size of the copy. -/
theorem agrees_fixed (hInside : place.IsInside) (size : Nat) :
    Agrees (fixed size) (Reader.fixed size) place := by
  refine (agrees_bytes hInside size).bind fun taken next hPrecedes hReturns => ?_
  have hSize : taken.length = size := (Reader.returns_bytes_iff.1 hReturns).1
  have hFixed : FixedBytes.ofList? size taken = some ⟨taken, hSize⟩ := dif_pos hSize
  rw [hFixed]
  exact agrees_pure hPrecedes.isInside _

theorem agrees_number (hInside : place.IsInside) (width : Nat) :
    Agrees (number width) (Reader.number width) place := by
  -- Only the read by the index copies the bytes before it takes them as a number.
  unfold number fixed Reader.number
  rw [bind_assoc]
  refine (agrees_bytes hInside width).bind fun taken next hPrecedes hReturns => ?_
  have hSize : taken.length = width := (Reader.returns_bytes_iff.1 hReturns).1
  exact Agrees.still_bind (runFrom_inRange (dif_pos hSize)) (agrees_pure hPrecedes.isInside _)

/-- Where so many bytes were used, both readers ask the same of the number. -/
theorem agrees_shortestFrom {α : Type} (hInside : place.IsInside) {start used : Nat}
    (hUsed : place.index = start + used) (length : α → Nat) (value : α) :
    Agrees (shortestFrom length start value) (Reader.shortest length used value) place := by
  have hFits := place.buffer.length_lt
  unfold IndexedCursor.IsInside at hInside
  have hDifference : unsigned? 64 ((place.index : Int) - start) = some used := by
    rw [unsigned?_sub (by omega) (by omega), hUsed, Nat.add_sub_cancel_left]
  change Agrees (inRange (unsigned? 64 ((place.index : Int) - start)) >>= fun used =>
    if length value = used then pure value else throw .nonCanonical) _ place
  refine Agrees.still_bind (runFrom_inRange hDifference) (Agrees.ite ?_ ?_)
  · exact agrees_pure hInside _
  · exact agrees_throw hInside _

/-- The end of each form of an amount. -/
theorem agrees_ofNat? (hInside : place.IsInside) {start used : Nat}
    (hUsed : place.index = start + used) (number : Nat) :
    Agrees (match Uint256.ofNat? number with
      | some value => shortestFrom Compact.lengthOfAmount start value
      | none => throw .overflow) (match Uint256.ofNat? number with
        | some value => Reader.shortest Compact.lengthOfAmount used value
        | none => throw .overflow) place := by
  cases Uint256.ofNat? number with
  | some value => exact agrees_shortestFrom hInside hUsed _ _
  | none => exact agrees_throw hInside _

theorem index_of_returns_byte {value : UInt8} {next : IndexedCursor}
    (hReturns : Reader.Returns Reader.byte place.cursor value next.cursor) :
    next.index = place.index + 1 :=
  (Reader.returns_byte_iff.1 hReturns).2

theorem index_of_returns_bytes {count : Nat} {value : Bytes} {next : IndexedCursor}
    (hReturns : Reader.Returns (Reader.bytes count) place.cursor value next.cursor) :
    next.index = place.index + count := by
  obtain ⟨rfl, hPasses⟩ := Reader.returns_bytes_iff.1 hReturns
  exact hPasses.2

theorem index_of_returns_number {width value : Nat} {next : IndexedCursor}
    (hReturns : Reader.Returns (Reader.number width) place.cursor value next.cursor) :
    next.index = place.index + width := by
  obtain ⟨bytes, rfl, hPasses, -⟩ := Reader.returns_number_iff.1 hReturns
  exact hPasses.2

/-- What is behind the first byte of a number, in each of its forms. The short ones are the same for
all numbers, up to what is made of their bytes. -/
theorem agrees_forms {α β : Type} {start : Nat} {finish : β → IndexedReader α}
    {finishRead : Nat → β → Reader α}
    (hFinish : ∀ place : IndexedCursor, place.IsInside → ∀ used, place.index = start + used →
      ∀ value, Agrees (finish value) (finishRead used value) place)
    (hInside : place.IsInside) (hIndex : place.index = start + 1) (one : β) (two : UInt8 → β)
    (four : Nat → β) {long : IndexedReader α} {longRead : Reader α}
    (hLong : Agrees long longRead place) (mark : Nat) :
    Agrees (match mark with
      | 0 => finish one
      | 1 => do finish (two (← byte))
      | 2 => do finish (four (← number 3))
      | _ => long) (match mark with
        | 0 => finishRead 1 one
        | 1 => do finishRead 2 (two (← Reader.byte))
        | 2 => do finishRead 4 (four (← Reader.number 3))
        | _ => longRead) place := by
  match mark with
  | 0 => exact hFinish place hInside 1 hIndex one
  | 1 =>
      refine (agrees_byte hInside).bind fun low next hPrecedes hLow => ?_
      have hUsed := index_of_returns_byte hLow
      exact hFinish next hPrecedes.isInside 2 (by omega) _
  | 2 =>
      refine (agrees_number hInside 3).bind fun low next hPrecedes hLow => ?_
      have hUsed := index_of_returns_number hLow
      exact hFinish next hPrecedes.isInside 4 (by omega) _
  | _ + 3 => exact hLong

theorem agrees_int (hInside : place.IsInside) : Agrees int Reader.int place := by
  refine Agrees.still_bind rfl ((agrees_byte hInside).bind fun first next hPrecedes hFirst => ?_)
  have hNext := hPrecedes.isInside
  have hIndex := index_of_returns_byte hFirst
  refine agrees_forms (fun _ hPlace _ hUsed => agrees_shortestFrom hPlace hUsed _) hNext hIndex
    _ _ _ (Agrees.ite (agrees_throw hNext _) ?_) _
  refine (agrees_number hNext 4).bind fun low last hLast hLow => ?_
  have hUsed := index_of_returns_number hLow
  exact agrees_shortestFrom hLast.isInside (by omega) _ _

theorem agrees_amount (hInside : place.IsInside) : Agrees amount Reader.amount place := by
  refine Agrees.still_bind rfl ((agrees_byte hInside).bind fun first next hPrecedes hFirst => ?_)
  have hNext := hPrecedes.isInside
  have hIndex := index_of_returns_byte hFirst
  refine agrees_forms (fun _ hPlace _ hUsed => agrees_ofNat? hPlace hUsed) hNext hIndex _ _ _
    (Agrees.ite (agrees_throw hNext _) ?_) _
  unfold Reader.number
  rw [bind_assoc]
  refine (agrees_bytes hNext _).bind fun low last hLast hLow => ?_
  have hUsed := index_of_returns_bytes hLow
  exact agrees_ofNat? hLast.isInside (by omega) _

/-- A product that 64 bits do not hold is more than there are bytes in memory. -/
theorem agrees_length (hInside : place.IsInside) (elementSize : Nat) :
    Agrees (length elementSize) (Reader.length elementSize) place := by
  refine (agrees_int hInside).bind fun count next hPrecedes _ => ?_
  have hNext := hPrecedes.isInside
  refine Agrees.ite (agrees_throw hNext _) ?_
  dsimp only
  change Agrees _ (if next.cursor.remaining < count.toInt.toNat * elementSize then throw .truncated
    else return count.toInt.toNat) next
  by_cases hFits : count.toInt.toNat * elementSize < 2 ^ 64
  · rw [← Int.natCast_mul, unsigned?_eq hFits]
    refine Agrees.still_bind (runFrom_remaining hNext) (Agrees.ite ?_ ?_)
    · exact agrees_throw hNext _
    · exact agrees_pure hNext _
  · have hMemory := next.buffer.length_lt
    have hFew : next.cursor.remaining < count.toInt.toNat * elementSize := by
      rw [next.remaining_cursor]
      omega
    rw [← Int.natCast_mul, unsigned?_eq_none (Nat.le_of_not_lt hFits), if_pos hFew]
    exact agrees_throw hNext _

theorem agrees_repeated {α : Type} {indexed : IndexedReader α} {read : Reader α}
    (hRead : ∀ place : IndexedCursor, place.IsInside → Agrees indexed read place)
    (hInside : place.IsInside) (count : Nat) :
    Agrees (repeated indexed count) (Reader.repeated read count) place := by
  induction count generalizing place with
  | zero => exact agrees_pure hInside _
  | succ count ih =>
      refine (hRead place hInside).bind fun first next hPrecedes _ => ?_
      exact (ih hPrecedes.isInside).map

/-- Both readers choose by the tag in front. -/
theorem agrees_tagged {α : Type} {first second third other : IndexedReader α}
    {firstRead secondRead thirdRead otherRead : Reader α} (tag : UInt8)
    (hFirst : Agrees first firstRead place) (hSecond : Agrees second secondRead place)
    (hThird : Agrees third thirdRead place) (hOther : Agrees other otherRead place) :
    Agrees (match tag with
      | 0 => first
      | 1 => second
      | 2 => third
      | _ => other) (match tag with
        | 0 => firstRead
        | 1 => secondRead
        | 2 => thirdRead
        | _ => otherRead) place := by
  split
  · exact hFirst
  · exact hSecond
  · exact hThird
  · exact hOther

theorem agrees_lockup (hInside : place.IsInside) : Agrees lockup Lockup.read place := by
  refine (agrees_byte hInside).bind fun tag next hPrecedes _ => ?_
  have hNext := hPrecedes.isInside
  refine agrees_tagged tag ?_ ?_ ?_ (agrees_throw hNext _)
  · exact (agrees_fixed hNext 32).map
  · refine (agrees_length hNext 32).bind fun count middle hMiddle _ => ?_
    refine Agrees.ite (agrees_throw hMiddle.isInside _) ?_
    refine (agrees_repeated (fun _ hPlace => agrees_fixed hPlace 32) hMiddle.isInside count).bind
      fun hashes after hAfter _ => ?_
    refine (agrees_int hAfter.isInside).bind fun required last hLast _ => ?_
    refine Agrees.ite (agrees_throw hLast.isInside _) ?_
    exact agrees_pure hLast.isInside _
  · exact (agrees_fixed hNext 32).map

end Reads

end IndexedReader

end ColdSigner
