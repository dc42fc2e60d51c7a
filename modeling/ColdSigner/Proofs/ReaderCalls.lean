import ColdSigner.Proofs.IndexedReading
/-!
# Any calls on a reader

A reader may be called in any order, and again after a call that failed somewhere between two bytes.
Each call agrees with the one by an index, so an induction on the calls shows that none of them
comes to a fault, that the index never goes back, and that it never leaves the buffer. A call
returns what stands in the buffer between the places where it began and ended
(`ReaderCall.calls_stay_inside`).
-/
namespace ColdSigner

/-- One call on a reader. The sizes that its caller chooses have 64 bits. -/
inductive ReaderCall where
  /-- The number of bytes that are left. -/
  | remaining
  | byte
  | bytes (count : UInt64)
  | fixed (size : UInt64)
  /-- A number of 64 bits, most significant byte first. -/
  | word
  | int
  | amount
  | length (elementSize : UInt64)
  | lockup

namespace ReaderCall

/-- What the call returns if it succeeds. -/
abbrev Value : ReaderCall → Type
  | remaining => Nat
  | byte => UInt8
  | bytes _ => Bytes
  | fixed size => FixedBytes size.toNat
  | word => UInt64
  | int => Int32
  | amount => Uint256
  | length _ => Nat
  | lockup => Lockup

def read : (call : ReaderCall) → Reader call.Value
  | remaining => do return (← get).remaining
  | byte => Reader.byte
  | bytes count => Reader.bytes count.toNat
  | fixed size => Reader.fixed size.toNat
  | word => do return UInt64.ofNat (← Reader.number 8)
  | int => Reader.int
  | amount => Reader.amount
  | length elementSize => Reader.length elementSize.toNat
  | lockup => Lockup.read

def readIndexed : (call : ReaderCall) → IndexedReader call.Value
  | remaining => IndexedReader.remaining
  | byte => IndexedReader.byte
  | bytes count => IndexedReader.bytes count.toNat
  | fixed size => IndexedReader.fixed size.toNat
  | word => do return UInt64.ofNat (← IndexedReader.number 8)
  | int => IndexedReader.int
  | amount => IndexedReader.amount
  | length elementSize => IndexedReader.length elementSize.toNat
  | lockup => IndexedReader.lockup

/-- The bytes that a call took if it returned this value. -/
def written : (call : ReaderCall) → call.Value → Bytes
  | remaining, _ => []
  | byte, value => [value]
  | bytes _, value => value
  | fixed _, value => value.toList
  | word, value => Bytes.bigEndian 8 value.toNat
  | int, value => Compact.ofInt value
  | amount, value => Compact.ofAmount value
  | length _, count => Compact.ofLength count
  | lockup, value => value.toBytes

/-- What is asked of a value apart from its bytes, with so many bytes left behind them. As many
bytes are returned as the caller wants. The elements of a list fit into what is left, and all of
them together have a size of 64 bits. -/
def Admits (left : Nat) : (call : ReaderCall) → call.Value → Prop
  | remaining, value => value = left
  | bytes count, value => value.length = count.toNat
  | length elementSize, count =>
      count < 2 ^ 31 ∧ count * elementSize.toNat < 2 ^ 64 ∧ count * elementSize.toNat ≤ left ∧
        (1 ≤ elementSize → count ≤ left)
  | lockup, value => value.isValid = true
  | _, _ => True

/-- From one index to the other the buffer has the bytes of the value, which the call admits. -/
structure Yields (buffer : Buffer) (start stop : Nat) (call : ReaderCall) (value : call.Value) :
    Prop where
  stop_eq : stop = start + (call.written value).length
  written_eq : (buffer.bytes.drop start).take (call.written value).length = call.written value
  admits : call.Admits (buffer.bytes.length - stop) value

end ReaderCall

/-- The cursor after these calls, each of which goes on where the one before it ended, with a value
or with an error. -/
def Cursor.after (cursor : Cursor) (calls : List ReaderCall) : Cursor :=
  calls.foldl (fun cursor call => (call.read.runFrom cursor).2) cursor

/-- The place after these calls, if none of them came to a fault. -/
def IndexedCursor.after? (place : IndexedCursor) (calls : List ReaderCall) :
    Option IndexedCursor :=
  calls.foldlM (fun place call => (call.readIndexed.runFrom place).map (·.2)) place

namespace ReaderCall

open Reader IndexedReader

theorem agrees_read {place : IndexedCursor} (hInside : place.IsInside) (call : ReaderCall) :
    Agrees call.readIndexed call.read place := by
  cases call with
  | remaining => exact ⟨_, place, runFrom_remaining hInside, rfl, .refl hInside⟩
  | byte => exact agrees_byte hInside
  | bytes count => exact agrees_bytes hInside _
  | fixed size => exact agrees_fixed hInside _
  | word => exact (agrees_number hInside 8).map
  | int => exact agrees_int hInside
  | amount => exact agrees_amount hInside
  | length elementSize => exact agrees_length hInside _
  | lockup => exact agrees_lockup hInside

theorem returns_remaining_iff {cursor next : Cursor} {value : Nat} :
    Returns remaining.read cursor value next ↔ value = cursor.remaining ∧ cursor = next :=
  returns_get_bind_iff.trans returns_pure_iff

theorem returns_word_iff {cursor next : Cursor} {value : UInt64} :
    Returns word.read cursor value next ↔
      cursor.Passes (Bytes.bigEndian 8 value.toNat) next := by
  refine returns_bind_iff.trans ⟨?_, fun hPasses => ?_⟩
  · rintro ⟨number, middle, hNumber, hPure⟩
    obtain ⟨rfl, rfl⟩ := returns_pure_iff.1 hPure
    obtain ⟨hBound, hPasses⟩ := returns_number_iff_bigEndian.1 hNumber
    rw [UInt64.toNat_ofNat_of_lt' hBound]
    exact hPasses
  · exact ⟨value.toNat, next, returns_number_iff_bigEndian.2 ⟨value.toNat_lt, hPasses⟩,
      returns_pure_iff.2 ⟨UInt64.ofNat_toNat.symm, rfl⟩⟩

/-- Elements that fit into what is left are so few that their sizes do not add up to too much. -/
theorem admits_length_iff {left count : Nat} (hLeft : left < 2 ^ 64) (elementSize : UInt64) :
    (length elementSize).Admits left count ↔ count < 2 ^ 31 ∧ count * elementSize.toNat ≤ left := by
  constructor
  · rintro ⟨hCount, -, hFits, -⟩
    exact ⟨hCount, hFits⟩
  · rintro ⟨hCount, hFits⟩
    refine ⟨hCount, Nat.lt_of_le_of_lt hFits hLeft, hFits, fun hSize => ?_⟩
    exact Nat.le_trans (Nat.le_mul_of_pos_right _ (UInt64.le_iff_toNat_le.1 hSize)) hFits

/-- A call returns a value it admits from exactly the bytes of that value. -/
theorem returns_read_iff {cursor next : Cursor} (hLeft : next.remaining < 2 ^ 64)
    {call : ReaderCall} {value : call.Value} :
    Returns call.read cursor value next ↔
      call.Admits next.remaining value ∧ cursor.Passes (call.written value) next := by
  cases call with
  | remaining =>
      refine returns_remaining_iff.trans ⟨?_, ?_⟩
      · rintro ⟨rfl, rfl⟩
        exact ⟨rfl, Cursor.passes_nil_iff.2 rfl⟩
      · rintro ⟨rfl, hPasses⟩
        obtain rfl := Cursor.passes_nil_iff.1 hPasses
        exact ⟨rfl, rfl⟩
  | bytes count => exact returns_bytes_iff
  | length elementSize =>
      rw [admits_length_iff hLeft, and_assoc, and_comm (b := Cursor.Passes _ _ _)]
      exact returns_length_iff
  | lockup => exact Lockup.returns_read_iff
  | byte => exact returns_byte_iff.trans (and_iff_right trivial).symm
  | fixed size => exact returns_fixed_iff.trans (and_iff_right trivial).symm
  | word => exact returns_word_iff.trans (and_iff_right trivial).symm
  | int => exact returns_int_iff.trans (and_iff_right trivial).symm
  | amount => exact returns_amount_iff.trans (and_iff_right trivial).symm

theorem returns_into_iff {place : IndexedCursor} {stop : Nat} {call : ReaderCall}
    {value : call.Value} :
    Returns call.read place.cursor value (.into place.buffer.bytes stop) ↔
      call.Yields place.buffer place.index stop value := by
  have hLeft : (Cursor.into place.buffer.bytes stop).remaining = place.buffer.bytes.length - stop :=
    List.length_drop
  have hMemory := place.buffer.length_lt
  rw [returns_read_iff (by omega), hLeft, IndexedCursor.cursor, Cursor.passes_into_iff]
  constructor
  · rintro ⟨hAdmits, hWritten, hStop⟩
    exact ⟨congrArg Cursor.position hStop, hWritten, hAdmits⟩
  · rintro ⟨rfl, hWritten, hAdmits⟩
    exact ⟨hAdmits, hWritten, rfl⟩

/-- The run of the calls by the index is the one on the cursor. -/
theorem exists_after {place : IndexedCursor} (hInside : place.IsInside)
    (calls : List ReaderCall) :
    ∃ next, place.after? calls = some next ∧ place.cursor.after calls = next.cursor ∧
      place.Precedes next := by
  induction calls generalizing place with
  | nil => exact ⟨place, rfl, rfl, .refl hInside⟩
  | cons call calls ih =>
      obtain ⟨outcome, middle, hIndexed, hRead, hFirst⟩ := agrees_read hInside call
      obtain ⟨next, hAfter, hCursor, hRest⟩ := ih hFirst.isInside
      refine ⟨next, ?_, ?_, hFirst.trans hRest⟩
      · rw [IndexedCursor.after?, List.foldlM_cons, hIndexed]
        exact hAfter
      · rw [Cursor.after, List.foldl_cons, hRead]
        exact hCursor

/-- After any calls, whether they succeeded or not, the next one comes to no fault, as none of them
did. It does what the reader on a cursor does, which is at the same place, and ends inside of the
buffer and not in front of where it began. It returns a value exactly if the buffer has the bytes of
that value from there on, and then it ends behind them. -/
theorem calls_stay_inside (buffer : Buffer) (calls : List ReaderCall) (call : ReaderCall) :
    ∃ place next outcome, (IndexedCursor.start buffer).after? calls = some place ∧
      call.readIndexed.runFrom place = some (outcome, next) ∧
      (Cursor.start buffer.bytes).after calls = place.cursor ∧
      call.read.runFrom place.cursor = (outcome, next.cursor) ∧
      place.buffer = buffer ∧ next.buffer = buffer ∧
      place.index ≤ next.index ∧ next.index ≤ buffer.bytes.length ∧
      ∀ value stop, outcome = .ok value ∧ next.index = stop ↔
        call.Yields buffer place.index stop value := by
  obtain ⟨place, hAfter, hCursor, hBefore⟩ :=
    exists_after (IndexedCursor.isInside_start buffer) calls
  obtain ⟨outcome, next, hIndexed, hRead, hPrecedes⟩ := agrees_read hBefore.isInside call
  obtain rfl : place.buffer = buffer := hBefore.buffer_eq
  have hEnd := hPrecedes.isInside
  rw [IndexedCursor.IsInside, hPrecedes.buffer_eq] at hEnd
  refine ⟨place, next, outcome, hAfter, hIndexed, hCursor, hRead, rfl, hPrecedes.buffer_eq,
    hPrecedes.index_le, hEnd, fun value stop => ?_⟩
  rw [← returns_into_iff, Returns, hRead, Prod.mk.injEq, IndexedCursor.cursor,
    hPrecedes.buffer_eq]
  refine and_congr_right fun _ => ⟨?_, congrArg Cursor.position⟩
  rintro rfl
  rfl

/-- An amount that ends early has taken its first byte, and the next call goes on behind it. -/
example : (Cursor.start [0xc4, 0xff, 0xff]).after [.amount, .bytes 3, .bytes 2] = ⟨3, []⟩ := by
  decide

end ReaderCall

end ColdSigner
