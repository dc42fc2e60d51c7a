import ColdSigner.Proofs.CompactIntegers
/-!
# One accepted form for each integer

A number can be spelled in several forms: a first byte says how many bytes are behind it, and more
of them than needed can be used. The written form is the shortest one. The readers accept it and
nothing else: no form begins with another one that is accepted, and each longer form of a number is
refused (`Compact.read_as_written`).
-/
namespace ColdSigner

namespace Cursor

/-- The cursor behind so many bytes of a buffer. -/
def into (buffer : Bytes) (position : Nat) : Cursor := ⟨position, buffer.drop position⟩

theorem passes_into_iff {buffer written : Bytes} {start : Nat} {next : Cursor} :
    (into buffer start).Passes written next ↔
      (buffer.drop start).take written.length = written ∧
        next = into buffer (start + written.length) := by
  constructor
  · rintro ⟨hRest, hPosition⟩
    change buffer.drop start = written ++ next.rest at hRest
    rw [hRest]
    refine ⟨List.take_left, ?_⟩
    cases next
    rw [into, ← List.drop_drop, hRest, List.drop_left]
    exact congrArg (Cursor.mk · _) hPosition
  · rintro ⟨hTaken, rfl⟩
    refine ⟨?_, rfl⟩
    change buffer.drop start = written ++ buffer.drop (start + written.length)
    have hSplit := List.take_append_drop written.length (buffer.drop start)
    rw [hTaken, List.drop_drop] at hSplit
    exact hSplit.symm

end Cursor

namespace Reader

open Cursor

variable {α : Type} {read : Reader α}

/-- At this place of a buffer the read succeeds with this value and takes so many bytes. -/
def Consumes (read : Reader α) (buffer : Bytes) (start : Nat) (value : α) (count : Nat) : Prop :=
  Returns read (into buffer start) value (into buffer (start + count))

/-- What is read are exactly the bytes that are written, of which there are so many. -/
structure ReadsWritten (read : Reader α) (write : α → Bytes) (size : α → Nat) : Prop where
  consumes_iff : ∀ buffer start value count, Consumes read buffer start value count ↔
    start + count ≤ buffer.length ∧ (buffer.drop start).take count = write value
  size_eq : ∀ buffer start value count, Consumes read buffer start value count →
    count = size value
  exists_consumes : ∀ buffer start value next, Returns read (into buffer start) value next →
    ∃ count, next = into buffer (start + count)
  accepts_iff : ∀ bytes value, readAll read bytes = .ok value ↔ bytes = write value
  eq_of_prefix : ∀ value other, write value <+: write other → value = other

theorem readsWritten_of_returns_iff {write : α → Bytes} {size : α → Nat}
    (hRead : ∀ {cursor next value}, Returns read cursor value next ↔
      cursor.Passes (write value) next)
    (hSize : ∀ value, (write value).length = size value) (hSome : ∀ value, 1 ≤ size value) :
    ReadsWritten read write size := by
  have hReturns (buffer : Bytes) (start : Nat) (value : α) (next : Cursor) :
      Returns read (into buffer start) value next ↔
        (buffer.drop start).take (size value) = write value ∧
          next = into buffer (start + size value) := by
    rw [hRead, passes_into_iff, hSize]
  have hFits {buffer : Bytes} {start : Nat} {value : α}
      (hTaken : (buffer.drop start).take (size value) = write value) :
      start + size value ≤ buffer.length := by
    have hLength := congrArg List.length hTaken
    have hPositive := hSome value
    rw [List.length_take, List.length_drop, hSize] at hLength
    omega
  have hCount {buffer : Bytes} {start : Nat} {value : α} {count : Nat}
      (hConsumes : Consumes read buffer start value count) : count = size value := by
    obtain ⟨-, hNext⟩ := (hReturns buffer start value _).1 hConsumes
    exact Nat.add_left_cancel (congrArg Cursor.position hNext)
  refine ⟨?_, fun _ _ _ _ hConsumes => hCount hConsumes, ?_, ?_, ?_⟩
  · intro buffer start value count
    constructor
    · intro hConsumes
      obtain rfl := hCount hConsumes
      obtain ⟨hTaken, -⟩ := (hReturns buffer start value _).1 hConsumes
      exact ⟨hFits hTaken, hTaken⟩
    · rintro ⟨hEnd, hTaken⟩
      have hLength := congrArg List.length hTaken
      rw [List.length_take, List.length_drop, hSize] at hLength
      obtain rfl : count = size value := by omega
      exact (hReturns buffer start value _).2 ⟨hTaken, rfl⟩
  · intro buffer start value next hRead
    exact ⟨size value, ((hReturns buffer start value next).1 hRead).2⟩
  · intro bytes value
    have hLegal {cursor next : Cursor} :
        Returns read cursor value next ↔ True ∧ cursor.Passes (write value) next := by
      rw [hRead, true_and]
    rw [readAll_eq_ok_iff_of_returns hLegal, true_and]
  · intro value other hPrefix
    -- Both are read from the start of the longer one.
    obtain ⟨rest, hWritten⟩ := hPrefix
    have hFirst : Returns read ⟨0, write other⟩ value ⟨(write value).length, rest⟩ :=
      hRead.2 ⟨hWritten.symm, (Nat.zero_add _).symm⟩
    have hSecond : Returns read ⟨0, write other⟩ other ⟨(write other).length, []⟩ :=
      hRead.2 ⟨(List.append_nil _).symm, (Nat.zero_add _).symm⟩
    exact (hFirst.unique hSecond).1

end Reader

namespace Compact

open Reader Cursor

/-- How many bytes a first byte says are behind it. -/
def behind (first : UInt8) : Nat :=
  match first.toNat / 64 with
  | 0 => 0
  | 1 => 1
  | 2 => 3
  | _ => first.toNat % 64 + 4

theorem behind_of_short {mark count : Nat} (hShort : IsShort mark count) {first : UInt8}
    (hMark : first.toNat / 64 = mark) : behind first = count := by
  unfold behind
  rw [hMark]
  cases hShort <;> rfl

theorem behind_of_long {first : UInt8} (hLong : 3 ≤ first.toNat / 64) :
    behind first = first.toNat % 64 + 4 := by
  unfold behind
  split
  · omega
  · omega
  · omega
  · rfl

theorem isShort_or_long (first : UInt8) :
    (∃ mark count, IsShort mark count ∧ first.toNat / 64 = mark) ∨ 3 ≤ first.toNat / 64 := by
  by_cases hLong : 3 ≤ first.toNat / 64
  · exact .inr hLong
  · have hMark : first.toNat / 64 = 0 ∨ first.toNat / 64 = 1 ∨ first.toNat / 64 = 2 := by omega
    rcases hMark with hMark | hMark | hMark
    · exact .inl ⟨0, 0, .one, hMark⟩
    · exact .inl ⟨1, 1, .two, hMark⟩
    · exact .inl ⟨2, 3, .four, hMark⟩

/-- A first byte with as many bytes behind it as it says, whether or not they are needed. -/
structure Form where
  first : UInt8
  rest : Bytes
  length_rest : rest.length = behind first

namespace Form

variable {form : Form}

def bytes (form : Form) : Bytes := form.first :: form.rest

/-- The bits of the number: six in the first byte of a short form, and those of the bytes behind. -/
def bits (form : Form) : Nat :=
  if form.first.toNat / 64 < 3 then 8 * form.rest.length + 6 else 8 * form.rest.length

/-- The number with these bits. -/
def payload (form : Form) : Nat :=
  if form.first.toNat / 64 < 3 then
    form.first.toNat % 64 * 256 ^ form.rest.length + Bytes.ofBigEndian form.rest
  else Bytes.ofBigEndian form.rest

/-- The signed number with these bits, the highest of which is the sign. -/
def signed (form : Form) : Int := Int.bmod form.payload (2 ^ form.bits)

/-- Why the form is no amount: it is longer than needed, or has more bytes than an amount. -/
def refusal (form : Form) : TxError :=
  if form.rest.length ≤ 32 then .nonCanonical else .overflow

@[simp] theorem length_bytes (form : Form) : form.bytes.length = form.rest.length + 1 := rfl

/-- A form is one of the short ones or the long one. -/
theorem isShort_or_long (form : Form) :
    (∃ mark, IsShort mark form.rest.length ∧ form.first.toNat / 64 = mark) ∨
      3 ≤ form.first.toNat / 64 ∧ form.rest.length = form.first.toNat % 64 + 4 := by
  rcases Compact.isShort_or_long form.first with ⟨mark, count, hShort, hMark⟩ | hLong
  · have hRest := form.length_rest.trans (behind_of_short hShort hMark)
    exact .inl ⟨mark, hRest ▸ hShort, hMark⟩
  · exact .inr ⟨hLong, form.length_rest.trans (behind_of_long hLong)⟩

theorem payload_of_short {mark : Nat} (hShort : IsShort mark form.rest.length)
    (hMark : form.first.toNat / 64 = mark) :
    form.payload =
      form.first.toNat % 64 * 256 ^ form.rest.length + Bytes.ofBigEndian form.rest := by
  have hLess := hShort.mark_lt
  exact if_pos (by omega)

theorem payload_of_long (hLong : 3 ≤ form.first.toNat / 64) :
    form.payload = Bytes.ofBigEndian form.rest := if_neg (by omega)

theorem bits_of_short {mark : Nat} (hShort : IsShort mark form.rest.length)
    (hMark : form.first.toNat / 64 = mark) : form.bits = 8 * form.rest.length + 6 := by
  have hLess := hShort.mark_lt
  exact if_pos (by omega)

theorem bits_of_long (hLong : 3 ≤ form.first.toNat / 64) :
    form.bits = 8 * form.rest.length := if_neg (by omega)

/-- Alone, a first byte has six bits of the number. -/
theorem of_mark_zero (hMark : form.first.toNat / 64 = 0) :
    form.rest = [] ∧ form.bits = 6 ∧ form.payload = form.first.toNat % 64 := by
  have hRest := form.length_rest.trans (behind_of_short .one hMark)
  have hShort : IsShort 0 form.rest.length := hRest ▸ .one
  have hBits := bits_of_short hShort hMark
  have hPayload := payload_of_short hShort hMark
  rw [List.length_eq_zero_iff.1 hRest] at hBits hPayload
  exact ⟨List.length_eq_zero_iff.1 hRest, hBits, hPayload.trans (by simp)⟩

theorem of_mark_one (hMark : form.first.toNat / 64 = 1) :
    ∃ low, form.rest = [low] ∧ form.bits = 14 ∧
      form.payload = form.first.toNat % 64 * 2 ^ 8 + low.toNat := by
  have hRest := form.length_rest.trans (behind_of_short .two hMark)
  have hShort : IsShort 1 form.rest.length := hRest ▸ .two
  have hBits := bits_of_short hShort hMark
  have hPayload := payload_of_short hShort hMark
  obtain ⟨low, hLow⟩ := List.length_eq_one_iff.1 hRest
  rw [hLow] at hBits hPayload
  exact ⟨low, hLow, hBits, hPayload.trans (by simp)⟩

theorem of_mark_two (hMark : form.first.toNat / 64 = 2) :
    form.rest.length = 3 ∧ form.bits = 30 ∧
      form.payload = form.first.toNat % 64 * 2 ^ 24 + Bytes.ofBigEndian form.rest := by
  have hRest := form.length_rest.trans (behind_of_short .four hMark)
  have hShort : IsShort 2 form.rest.length := hRest ▸ .four
  have hBits := bits_of_short hShort hMark
  have hPayload := payload_of_short hShort hMark
  have hPower : 256 ^ 3 = 2 ^ 24 := by decide
  rw [hRest] at hBits hPayload
  rw [hPower] at hPayload
  exact ⟨hRest, hBits, hPayload⟩

theorem payload_lt (form : Form) : form.payload < 2 ^ form.bits := by
  have hPower : 256 ^ form.rest.length = 2 ^ (8 * form.rest.length) := by
    rw [Nat.pow_mul]
  rcases form.isShort_or_long with ⟨mark, hShort, hMark⟩ | ⟨hLong, -⟩
  · rw [payload_of_short hShort hMark, bits_of_short hShort hMark, Nat.pow_add, ← hPower,
      Nat.mul_comm (256 ^ _)]
    exact Bytes.low_lt form.first form.rest
  · rw [payload_of_long hLong, bits_of_long hLong, ← hPower]
    exact Bytes.ofBigEndian_lt form.rest

end Form

/-- What is written for an amount is the form of it with the length of the amount. -/
theorem bytes_eq_ofAmount_iff {form : Form} {value : Uint256} :
    form.bytes = ofAmount value ↔
      form.payload = value.toNat ∧ lengthOfAmount value = form.bytes.length := by
  have hMost : lengthOfAmount value ≤ 33 := by
    rcases isShort_or_lengthOfAmount_eq value with ⟨mark, count, hShort, hLength⟩ |
      ⟨count, hCount, hLength⟩
    · cases hShort <;> omega
    · omega
  rw [Form.bytes, List.length_cons]
  rcases form.isShort_or_long with ⟨mark, hShort, hMark⟩ | ⟨hLong, hRest⟩
  · rw [cons_eq_ofAmount_iff_of_mark hShort hMark, Form.payload_of_short hShort hMark,
      eq_comm (a := value.toNat)]
    exact ⟨fun h => ⟨h.2.2, h.2.1⟩, fun h => ⟨rfl, h.2, h.1⟩⟩
  · rw [cons_eq_ofAmount_iff_of_no_mark hLong, Form.payload_of_long hLong,
      eq_comm (a := value.toNat)]
    constructor
    · rintro ⟨-, -, hLength, hValue⟩
      exact ⟨hValue, by omega⟩
    · rintro ⟨hValue, hLength⟩
      exact ⟨by omega, hRest, by omega, hValue⟩

/-- No form of an amount is shorter than its length. -/
theorem lengthOfAmount_le {form : Form} {value : Uint256} (hValue : form.payload = value.toNat) :
    lengthOfAmount value ≤ form.bytes.length := by
  have hBound := form.payload_lt
  rw [Form.length_bytes]
  rcases form.isShort_or_long with ⟨mark, hShort, hMark⟩ | ⟨hLong, hRest⟩
  · rw [Form.bits_of_short hShort hMark, hValue] at hBound
    rw [lengthOfAmount_eq]
    generalize form.rest.length = count at *
    cases hShort <;> grind
  · rw [Form.bits_of_long hLong, hValue, Nat.pow_mul] at hBound
    have hDigits : value.byteLength ≤ form.rest.length :=
      Number.length_digits_le (by decide) hBound
    rw [lengthOfAmount_eq]
    grind

theorem signExtend_eq_iff_bmod {bits low : Nat} {value : Int32} (hBits : bits ≤ 32) :
    signExtend bits low = value ↔ Int.bmod low (2 ^ bits) = value.toInt := by
  constructor
  · rintro rfl
    have hPower : 2 ^ bits ≤ 2 ^ 32 := Nat.pow_le_pow_right (by decide) hBits
    have hPositive : 0 < 2 ^ bits := Nat.two_pow_pos bits
    have hMin := Int.le_bmod (x := low) hPositive
    have hMax := Int.bmod_lt (x := low) hPositive
    have hSize : ((Int32.size : Nat) : Int) = 2 ^ 32 := rfl
    rw [signExtend, Int32.toInt_ofInt]
    exact (Int.bmod_eq_of_le_mul_two (by omega) (by omega)).symm
  · intro hSame
    rw [signExtend, hSame, Int32.ofInt_toInt]

theorem lengthOfInt_le_five (value : Int32) : lengthOfInt value ≤ 5 := by
  rcases isShort_or_lengthOfInt_eq value with ⟨mark, count, hShort, hLength⟩ | hLength
  · cases hShort <;> omega
  · omega

/-- What is written for a signed number is the form of it with the length of the number. -/
theorem bytes_eq_ofInt_iff {form : Form} {value : Int32} :
    form.bytes = ofInt value ↔
      form.signed = value.toInt ∧ lengthOfInt value = form.bytes.length := by
  rw [Form.bytes, List.length_cons, Form.signed]
  rcases form.isShort_or_long with ⟨mark, hShort, hMark⟩ | ⟨hLong, hRest⟩
  · have hWidth : 8 * form.rest.length + 6 ≤ 32 := by
      generalize form.rest.length = count at hShort ⊢
      cases hShort <;> decide
    rw [cons_eq_ofInt_iff_of_mark hShort hMark, Form.payload_of_short hShort hMark,
      Form.bits_of_short hShort hMark, ← signExtend_eq_iff_bmod hWidth, eq_comm (a := value)]
    exact ⟨fun h => ⟨h.2.2, h.2.1⟩, fun h => ⟨rfl, h.2, h.1⟩⟩
  · rw [cons_eq_ofInt_iff_of_no_mark hLong, Form.payload_of_long hLong, Form.bits_of_long hLong,
      eq_comm (a := value)]
    constructor
    · rintro ⟨-, hFour, hLength, hValue⟩
      rw [hFour]
      exact ⟨(signExtend_eq_iff_bmod (Nat.le_refl 32)).1 hValue, hLength⟩
    · rintro ⟨hValue, hLength⟩
      have hMost := lengthOfInt_le_five value
      have hFour : form.rest.length = 4 := by omega
      rw [hFour] at hValue
      exact ⟨by omega, hFour, by omega, (signExtend_eq_iff_bmod (Nat.le_refl 32)).2 hValue⟩

/-- No form of a signed number is shorter than its length. -/
theorem lengthOfInt_le {form : Form} {value : Int32} (hValue : form.signed = value.toInt) :
    lengthOfInt value ≤ form.bytes.length := by
  rw [Form.length_bytes]
  rcases form.isShort_or_long with ⟨mark, hShort, hMark⟩ | ⟨hLong, hRest⟩
  · have hPositive : 0 < 2 ^ form.bits := Nat.two_pow_pos form.bits
    have hMin := Int.le_bmod (x := form.payload) hPositive
    have hMax := Int.bmod_lt (x := form.payload) hPositive
    rw [← Form.signed, hValue, Form.bits_of_short hShort hMark] at hMin hMax
    unfold lengthOfInt
    generalize form.rest.length = count at *
    cases hShort <;> grind
  · have hMost := lengthOfInt_le_five value
    omega

/-- The bytes behind the first one are read in one step. -/
theorem refuses_behind {α : Type} {finish : Nat → Reader α} {position count : Nat}
    {rest more : Bytes} {error : TxError} (hRest : rest.length = count)
    (hFinish : Refuses (finish (Bytes.ofBigEndian rest)) ⟨position + count, more⟩ error) :
    Refuses (number count >>= finish) ⟨position, rest ++ more⟩ error := by
  rw [refuses_bind_iff]
  exact .inr ⟨_, _, returns_number_iff.2 ⟨rest, hRest, ⟨rfl, hRest ▸ rfl⟩, rfl⟩, hFinish⟩

theorem refuses_first {α : Type} {behind : UInt8 → Reader α} {position : Nat} {first : UInt8}
    {rest : Bytes} {error : TxError} (hBehind : Refuses (behind first) ⟨position + 1, rest⟩ error) :
    Refuses (byte >>= behind) ⟨position, first :: rest⟩ error := by
  rw [refuses_bind_iff]
  exact .inr ⟨first, _, returns_byte_iff.2 ⟨rfl, rfl⟩, hBehind⟩

theorem refuses_shortest {α : Type} {length : α → Nat} {used : Nat} {value : α} {cursor : Cursor}
    (hLength : length value ≠ used) :
    Refuses (shortest length used value) cursor .nonCanonical := by
  rw [shortest, if_neg hLength]
  exact refuses_throw_iff.2 rfl

/-- The end of each form of an amount. -/
theorem refuses_ofNat? {value : Uint256} {used number : Nat} (hValue : number = value.toNat)
    (hUsed : lengthOfAmount value ≠ used) (cursor : Cursor) :
    Refuses (match Uint256.ofNat? number with
      | some value => shortest lengthOfAmount used value
      | none => throw .overflow) cursor .nonCanonical := by
  have hFits : Uint256.ofNat? number = some value := by
    subst hValue
    exact dif_pos value.isLt
  rw [hFits]
  exact refuses_shortest hUsed

/-- A longer form of an amount is refused. -/
theorem refuses_amount {form : Form} {value : Uint256} (hValue : form.payload = value.toNat)
    (hOther : lengthOfAmount value ≠ form.bytes.length) (position : Nat) (more : Bytes) :
    Refuses amount ⟨position, form.bytes ++ more⟩ form.refusal := by
  have hRefusal (hFew : form.rest.length ≤ 32) : form.refusal = .nonCanonical := if_pos hFew
  rw [Form.length_bytes] at hOther
  apply refuses_first
  split
  · next hMark =>
      obtain ⟨hRest, -, hPayload⟩ := Form.of_mark_zero hMark
      rw [hRest] at hOther
      rw [hRefusal (by simp [hRest])]
      exact refuses_ofNat? (hPayload ▸ hValue) hOther _
  · next hMark =>
      obtain ⟨low, hRest, -, hPayload⟩ := Form.of_mark_one hMark
      rw [hRest] at hOther ⊢
      rw [hRefusal (by simp [hRest])]
      exact refuses_first (refuses_ofNat? (hPayload ▸ hValue) hOther _)
  · next hMark =>
      obtain ⟨hRest, -, hPayload⟩ := Form.of_mark_two hMark
      rw [hRefusal (by omega)]
      exact refuses_behind hRest (refuses_ofNat? (hPayload ▸ hValue) (by omega) _)
  · next hZero hOne hTwo =>
      have hMark : 3 ≤ form.first.toNat / 64 := three_le_of_ne hZero hOne hTwo
      have hRest := form.length_rest.trans (behind_of_long hMark)
      have hPayload := Form.payload_of_long hMark
      by_cases hMany : 32 < form.first.toNat % 64 + 4
      · rw [if_pos hMany, Form.refusal, if_neg (by omega)]
        exact refuses_throw_iff.2 rfl
      · rw [if_neg hMany, hRefusal (by omega)]
        exact refuses_behind hRest (refuses_ofNat? (hPayload ▸ hValue) (by omega) _)

/-- The end of each form of a signed number. -/
theorem refuses_signExtend {form : Form} {value : Int32} {used bits number : Nat}
    (hValue : form.signed = value.toInt) (hNumber : form.payload = number)
    (hBits : form.bits = bits) (hWidth : bits ≤ 32) (hUsed : lengthOfInt value ≠ used)
    (cursor : Cursor) :
    Refuses (shortest lengthOfInt used (signExtend bits number)) cursor .nonCanonical := by
  subst hNumber hBits
  rw [(signExtend_eq_iff_bmod hWidth).2 hValue]
  exact refuses_shortest hUsed

/-- A longer form of a signed number is refused. -/
theorem refuses_int {form : Form} {value : Int32} (hValue : form.signed = value.toInt)
    (hOther : lengthOfInt value ≠ form.bytes.length) (position : Nat) (more : Bytes) :
    Refuses int ⟨position, form.bytes ++ more⟩ .nonCanonical := by
  rw [Form.length_bytes] at hOther
  apply refuses_first
  split
  · next hMark =>
      obtain ⟨hRest, hBits, hPayload⟩ := Form.of_mark_zero hMark
      rw [hRest] at hOther
      exact refuses_signExtend hValue hPayload hBits (by decide) hOther _
  · next hMark =>
      obtain ⟨low, hRest, hBits, hPayload⟩ := Form.of_mark_one hMark
      rw [hRest] at hOther ⊢
      exact refuses_first (refuses_signExtend hValue hPayload hBits (by decide) hOther _)
  · next hMark =>
      obtain ⟨hRest, hBits, hPayload⟩ := Form.of_mark_two hMark
      rw [hRest] at hOther
      exact refuses_behind hRest
        (refuses_signExtend hValue hPayload hBits (by decide) hOther _)
  · next hZero hOne hTwo =>
      have hMark : 3 ≤ form.first.toNat / 64 := three_le_of_ne hZero hOne hTwo
      have hRest := form.length_rest.trans (behind_of_long hMark)
      by_cases hCount : form.first.toNat % 64 ≠ 0
      · rw [if_pos hCount]
        exact refuses_throw_iff.2 rfl
      · have hFour : form.rest.length = 4 := by omega
        have hBits := Form.bits_of_long hMark
        rw [hFour] at hBits
        rw [if_neg hCount]
        exact refuses_behind hFour
          (refuses_signExtend hValue (Form.payload_of_long hMark) hBits (by decide) (by omega) _)

/-- What is written for an amount is a form. -/
theorem length_of_cons_eq_ofAmount {value : Uint256} {first : UInt8} {rest : Bytes}
    (hWritten : first :: rest = ofAmount value) : rest.length = behind first := by
  rcases isShort_or_long first with ⟨mark, count, hShort, hMark⟩ | hLong
  · rw [behind_of_short hShort hMark]
    exact ((cons_eq_ofAmount_iff_of_mark hShort hMark).1 hWritten).1
  · rw [behind_of_long hLong]
    exact ((cons_eq_ofAmount_iff_of_no_mark hLong).1 hWritten).2.1

theorem length_of_cons_eq_ofInt {value : Int32} {first : UInt8} {rest : Bytes}
    (hWritten : first :: rest = ofInt value) : rest.length = behind first := by
  rcases isShort_or_long first with ⟨mark, count, hShort, hMark⟩ | hLong
  · rw [behind_of_short hShort hMark]
    exact ((cons_eq_ofInt_iff_of_mark hShort hMark).1 hWritten).1
  · rw [behind_of_long hLong]
    obtain ⟨hNone, hFour, -⟩ := (cons_eq_ofInt_iff_of_no_mark hLong).1 hWritten
    omega

/-- Of all forms of a number the written one is the shortest, and the others are refused. -/
structure OneForm {α : Type} (read : Reader α) (write : α → Bytes) (size : α → Nat)
    (Denotes : Form → α → Prop) (refusal : Form → TxError) : Prop where
  exists_form : ∀ value, ∃ form, Denotes form value ∧ form.bytes = write value
  size_lt : ∀ form value, Denotes form value → form.bytes ≠ write value →
    size value < form.bytes.length
  refuses : ∀ form value, Denotes form value → form.bytes ≠ write value → ∀ position more,
    Refuses read ⟨position, form.bytes ++ more⟩ (refusal form)

theorem oneForm_of_bytes_eq_iff {α : Type} {read : Reader α} {write : α → Bytes}
    {size : α → Nat} {Denotes : Form → α → Prop} {refusal : Form → TxError}
    (hSome : ∀ value, 1 ≤ (write value).length)
    (hForm : ∀ {value first rest}, first :: rest = write value → rest.length = behind first)
    (hBytes : ∀ {form : Form} {value}, form.bytes = write value ↔
      Denotes form value ∧ size value = form.bytes.length)
    (hSize : ∀ {form : Form} {value}, Denotes form value → size value ≤ form.bytes.length)
    (hRefuses : ∀ {form : Form} {value}, Denotes form value → size value ≠ form.bytes.length →
      ∀ position more, Refuses read ⟨position, form.bytes ++ more⟩ (refusal form)) :
    OneForm read write size Denotes refusal := by
  have hLonger {form : Form} {value : α} (hDenotes : Denotes form value)
      (hOther : form.bytes ≠ write value) : size value ≠ form.bytes.length :=
    fun hLength => hOther (hBytes.2 ⟨hDenotes, hLength⟩)
  refine ⟨?_, ?_, ?_⟩
  · intro value
    obtain ⟨first, rest, hWritten⟩ := List.exists_cons_of_length_pos (hSome value)
    let form : Form := ⟨first, rest, hForm hWritten.symm⟩
    have hSame : form.bytes = write value := hWritten.symm
    exact ⟨form, (hBytes.1 hSame).1, hSame⟩
  · intro form value hDenotes hOther
    exact Nat.lt_of_le_of_ne (hSize hDenotes) (hLonger hDenotes hOther)
  · intro form value hDenotes hOther
    exact hRefuses hDenotes (hLonger hDenotes hOther)

/-- Amounts and signed numbers are read from exactly what is written for them, at any place of a
buffer, and take the length of it. So each number has one accepted form, and no accepted form is the
start of another one. Any other form of a number is longer and refused. -/
theorem read_as_written :
    ReadsWritten amount ofAmount lengthOfAmount ∧ ReadsWritten int ofInt lengthOfInt ∧
      OneForm amount ofAmount lengthOfAmount (fun form value => form.payload = value.toNat)
        Form.refusal ∧
      OneForm int ofInt lengthOfInt (fun form value => form.signed = value.toInt)
        (fun _ => .nonCanonical) := by
  refine ⟨?_, ?_, ?_, ?_⟩
  · refine readsWritten_of_returns_iff returns_amount_iff length_ofAmount ?_
    intro value
    rw [← length_ofAmount]
    exact one_le_length_ofAmount value
  · refine readsWritten_of_returns_iff returns_int_iff length_ofInt ?_
    intro value
    rw [← length_ofInt]
    exact one_le_length_ofInt value
  · exact oneForm_of_bytes_eq_iff one_le_length_ofAmount length_of_cons_eq_ofAmount
      bytes_eq_ofAmount_iff lengthOfAmount_le refuses_amount
  · exact oneForm_of_bytes_eq_iff one_le_length_ofInt length_of_cons_eq_ofInt bytes_eq_ofInt_iff
      lengthOfInt_le refuses_int

/-- One in two bytes is refused, as an amount and as a signed number. -/
theorem read_as_written_two_bytes :
    Refuses amount (.start [0x40, 0x01]) .nonCanonical ∧
      Refuses int (.start [0x40, 0x01]) .nonCanonical ∧
      readAll amount [0x01] = .ok ⟨1, by decide⟩ ∧ readAll int [0x01] = .ok 1 := by
  let form : Form := ⟨0x40, [0x01], by decide⟩
  obtain ⟨hAmounts, hInts, hAmountForms, hIntForms⟩ := read_as_written
  exact ⟨hAmountForms.refuses form ⟨1, by decide⟩ (by decide) (by decide) 0 [],
    hIntForms.refuses form 1 (by decide) (by decide) 0 [],
    (hAmounts.accepts_iff _ _).2 (by decide), (hInts.accepts_iff _ _).2 (by decide)⟩

end Compact

end ColdSigner
