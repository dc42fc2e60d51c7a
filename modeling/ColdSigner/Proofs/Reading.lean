import ColdSigner.Compact.Reader
/-!
# What a successful read takes

`Returns` is a read that succeeds, and `Passes` says which bytes lie between two places of a byte
string. Each reader of a format has one statement: it returns a value exactly if the cursor
passes the bytes that are written for the value. Reads in a row pass bytes in a row, so these
statements compose along the format.
-/
namespace ColdSigner

namespace Cursor

/-- Going from one cursor to the other takes exactly these bytes. -/
def Passes (cursor : Cursor) (bytes : Bytes) (next : Cursor) : Prop :=
  cursor.rest = bytes ++ next.rest ∧ next.position = cursor.position + bytes.length

variable {cursor next last : Cursor} {bytes more : Bytes}

theorem passes_nil_iff : cursor.Passes [] next ↔ cursor = next := by
  cases cursor
  cases next
  simp only [Passes, List.nil_append, List.length_nil, Nat.add_zero, Cursor.mk.injEq]
  exact ⟨fun h => ⟨h.2.symm, h.1⟩, fun h => ⟨h.2, h.1.symm⟩⟩

/-- Bytes in a row are passed one part after the other. -/
theorem passes_append_iff :
    cursor.Passes (bytes ++ more) last ↔
      ∃ next, cursor.Passes bytes next ∧ next.Passes more last := by
  constructor
  · rintro ⟨hRest, hPosition⟩
    refine ⟨⟨cursor.position + bytes.length, more ++ last.rest⟩, ⟨?_, rfl⟩, rfl, ?_⟩
    · simpa using hRest
    · simpa [Nat.add_assoc] using hPosition
  · rintro ⟨next, ⟨hFirst, hMoved⟩, hSecond, hLast⟩
    refine ⟨?_, ?_⟩
    · rw [hFirst, hSecond, List.append_assoc]
    · simp only [List.length_append]
      omega

theorem passes_cons_iff {byte : UInt8} :
    cursor.Passes (byte :: more) last ↔
      ∃ next, cursor.Passes [byte] next ∧ next.Passes more last := by
  change cursor.Passes ([byte] ++ more) last ↔ _
  exact passes_append_iff

theorem Passes.remaining_eq (h : cursor.Passes bytes next) :
    cursor.remaining = bytes.length + next.remaining := by
  simp [remaining, h.1]

/-- The bytes and the place behind them, by their number. -/
theorem Passes.eq_advance (h : cursor.Passes bytes next) :
    bytes = cursor.rest.take bytes.length ∧ next = cursor.advance bytes.length := by
  obtain ⟨hRest, hPosition⟩ := h
  cases next
  simp_all [advance]

theorem passes_take_advance {count : Nat} (h : count ≤ cursor.remaining) :
    cursor.Passes (cursor.rest.take count) (cursor.advance count) := by
  refine ⟨(List.take_append_drop count cursor.rest).symm, ?_⟩
  simp only [remaining] at h
  simp only [advance, List.length_take]
  omega

end Cursor

namespace Reader

variable {α β : Type} {cursor next : Cursor}

/-- The second read starts where the first one ended, if that one has a value. -/
theorem runFrom_bind (read : Reader α) (follow : α → Reader β) (cursor : Cursor) :
    (read >>= follow).runFrom cursor =
      ExceptT.bindCont follow (read.runFrom cursor).1 (read.runFrom cursor).2 := rfl

/-- The read succeeds from the cursor with this value, and leaves the cursor there. -/
def Returns (read : Reader α) (cursor : Cursor) (value : α) (next : Cursor) : Prop :=
  read.runFrom cursor = (.ok value, next)

theorem Returns.unique {read : Reader α} {value other : α} {last : Cursor}
    (h : Returns read cursor value next) (hOther : Returns read cursor other last) :
    value = other ∧ next = last := by
  simpa using h.symm.trans hOther

@[simp] theorem returns_pure_iff {value result : α} :
    Returns (pure value) cursor result next ↔ result = value ∧ cursor = next := by
  change ((Except.ok value, cursor) : Except TxError α × Cursor) = (.ok result, next) ↔ _
  simp [eq_comm]

@[simp] theorem not_returns_throw {error : TxError} {result : α} :
    ¬ Returns (throw error) cursor result next := by
  change ¬ ((Except.error error, cursor) : Except TxError α × Cursor) = (.ok result, next)
  simp

@[simp] theorem returns_bind_iff {read : Reader α} {follow : α → Reader β} {result : β} :
    Returns (read >>= follow) cursor result next ↔
      ∃ value middle, Returns read cursor value middle ∧
        Returns (follow value) middle result next := by
  unfold Returns
  rw [runFrom_bind]
  rcases read.runFrom cursor with ⟨error | value, middle⟩
  · change ((Except.error error, middle) : Except TxError β × Cursor) = (.ok result, next) ↔ _
    simp
  · change (follow value).runFrom middle = (.ok result, next) ↔ _
    constructor
    · intro h
      exact ⟨value, middle, rfl, h⟩
    · rintro ⟨_, _, hEq, h⟩
      cases hEq
      exact h

@[simp] theorem returns_map_iff {read : Reader α} {f : α → β} {result : β} :
    Returns (f <$> read) cursor result next ↔
      ∃ value, Returns read cursor value next ∧ result = f value := by
  rw [← bind_pure_comp, returns_bind_iff]
  constructor
  · rintro ⟨value, middle, hRead, hPure⟩
    obtain ⟨rfl, rfl⟩ := returns_pure_iff.1 hPure
    exact ⟨value, hRead, rfl⟩
  · rintro ⟨value, hRead, rfl⟩
    exact ⟨value, next, hRead, returns_pure_iff.2 ⟨rfl, rfl⟩⟩

@[simp] theorem returns_ite_iff {p : Prop} [Decidable p] {read other : Reader α} {result : α} :
    Returns (if p then read else other) cursor result next ↔
      (p ∧ Returns read cursor result next) ∨ (¬ p ∧ Returns other cursor result next) := by
  split <;> simp [*]

/-- A check in front of a read. -/
theorem returns_guard_iff {p : Prop} [Decidable p] {error : TxError} {other : PUnit → Reader α}
    {read : Reader α} {result : α} :
    Returns (if p then throw error >>= other else read) cursor result next ↔
      ¬ p ∧ Returns read cursor result next := by
  simp

@[simp] theorem returns_set_iff {place : Cursor} {result : PUnit} :
    Returns (set place : Reader PUnit) cursor result next ↔ next = place := by
  change ((Except.ok PUnit.unit, place) : Except TxError PUnit × Cursor) = (.ok result, next) ↔ _
  simp [eq_comm]

theorem returns_get_bind_iff {follow : Cursor → Reader α} {result : α} :
    Returns (get >>= follow) cursor result next ↔ Returns (follow cursor) cursor result next :=
  Iff.rfl

/-- The read fails from the cursor with this error, wherever it leaves the cursor. -/
def Refuses (read : Reader α) (cursor : Cursor) (error : TxError) : Prop :=
  (read.runFrom cursor).1 = .error error

@[simp] theorem not_refuses_pure {value : α} {error : TxError} :
    ¬ Refuses (pure value) cursor error := by
  change ¬ (Except.ok value : Except TxError α) = .error error
  simp

@[simp] theorem refuses_throw_iff {error other : TxError} :
    Refuses (throw error : Reader α) cursor other ↔ error = other := by
  change (Except.error error : Except TxError α) = .error other ↔ _
  simp

/-- A read in two parts fails in the first one or in the second one. -/
@[simp] theorem refuses_bind_iff {read : Reader α} {follow : α → Reader β} {error : TxError} :
    Refuses (read >>= follow) cursor error ↔
      Refuses read cursor error ∨
        ∃ value middle, Returns read cursor value middle ∧
          Refuses (follow value) middle error := by
  unfold Refuses Returns
  rw [runFrom_bind]
  rcases read.runFrom cursor with ⟨found | value, middle⟩
  · change (Except.error found : Except TxError β) = .error error ↔ _
    simp
  · change ((follow value).runFrom middle).1 = .error error ↔ _
    constructor
    · intro h
      exact .inr ⟨value, middle, rfl, h⟩
    · rintro (h | ⟨_, _, hEq, h⟩)
      · cases h
      · cases hEq
        exact h

@[simp] theorem refuses_ite_iff {p : Prop} [Decidable p] {read other : Reader α}
    {error : TxError} :
    Refuses (if p then read else other) cursor error ↔
      (p ∧ Refuses read cursor error) ∨ (¬ p ∧ Refuses other cursor error) := by
  split <;> simp [*]

theorem refuses_get_bind_iff {follow : Cursor → Reader α} {error : TxError} :
    Refuses (get >>= follow) cursor error ↔ Refuses (follow cursor) cursor error :=
  Iff.rfl

/-! The readers of the parts that every format is made of. -/

theorem returns_byte_iff {value : UInt8} :
    Returns byte cursor value next ↔ cursor.Passes [value] next := by
  unfold byte
  rw [returns_get_bind_iff]
  rcases cursor with ⟨position, _ | ⟨first, rest⟩⟩
  · simp [Cursor.Passes]
  · cases next
    simp only [Cursor.Passes, Cursor.advance, List.cons_append, List.nil_append, List.cons.injEq,
      List.length_singleton, returns_bind_iff, returns_set_iff, returns_pure_iff,
      List.drop_one, List.tail_cons]
    constructor
    · rintro ⟨_, middle, rfl, rfl, hNext⟩
      cases hNext
      exact ⟨⟨rfl, rfl⟩, rfl⟩
    · rintro ⟨⟨rfl, rfl⟩, rfl⟩
      exact ⟨⟨⟩, _, rfl, rfl, rfl⟩

theorem returns_bytes_iff {count : Nat} {value : Bytes} :
    Returns (bytes count) cursor value next ↔
      value.length = count ∧ cursor.Passes value next := by
  unfold bytes
  simp only [returns_get_bind_iff, returns_ite_iff, not_returns_throw, and_false, false_or]
  constructor
  · rintro ⟨hFits, h⟩
    have hFits : count ≤ cursor.remaining := by omega
    simp only [returns_bind_iff, returns_set_iff, returns_pure_iff] at h
    obtain ⟨_, middle, rfl, rfl, rfl⟩ := h
    exact ⟨List.length_take_of_le hFits, Cursor.passes_take_advance hFits⟩
  · rintro ⟨rfl, h⟩
    have hFits := h.remaining_eq
    obtain ⟨hBytes, rfl⟩ := h.eq_advance
    refine ⟨by omega, ?_⟩
    simp only [returns_bind_iff, returns_set_iff, returns_pure_iff]
    exact ⟨⟨⟩, _, rfl, hBytes, rfl⟩

theorem returns_fixed_iff {size : Nat} {value : FixedBytes size} :
    Returns (fixed size) cursor value next ↔ cursor.Passes value.toList next := by
  unfold fixed
  simp only [returns_bind_iff, returns_bytes_iff]
  constructor
  · rintro ⟨bytes, middle, ⟨hLength, hPasses⟩, h⟩
    split at h
    · next found hFound =>
        rw [FixedBytes.ofList?_eq_some_iff] at hFound
        obtain ⟨rfl, rfl⟩ := returns_pure_iff.1 h
        rwa [hFound] at hPasses
    · exact (not_returns_throw h).elim
  · intro h
    refine ⟨value.toList, next, ⟨value.length_toList, h⟩, ?_⟩
    rw [FixedBytes.ofList?_eq_some_iff.2 rfl]
    exact returns_pure_iff.2 ⟨rfl, rfl⟩

/-- A number is what the bytes passed stand for. -/
theorem returns_number_iff {width value : Nat} :
    Returns (number width) cursor value next ↔
      ∃ bytes, bytes.length = width ∧ cursor.Passes bytes next ∧
        value = Bytes.ofBigEndian bytes := by
  unfold number
  simp only [returns_bind_iff, returns_bytes_iff, returns_pure_iff]
  constructor
  · rintro ⟨bytes, middle, ⟨hLength, hPasses⟩, hValue, rfl⟩
    exact ⟨bytes, hLength, hPasses, hValue⟩
  · rintro ⟨bytes, hLength, hPasses, hValue⟩
    exact ⟨bytes, next, ⟨hLength, hPasses⟩, hValue, rfl⟩

/-- A number is passed as its bytes, of which there are enough. -/
theorem returns_number_iff_bigEndian {width value : Nat} :
    Returns (number width) cursor value next ↔
      value < 256 ^ width ∧ cursor.Passes (Bytes.bigEndian width value) next := by
  rw [returns_number_iff]
  constructor
  · rintro ⟨bytes, rfl, hPasses, rfl⟩
    exact ⟨Bytes.ofBigEndian_lt bytes, by rwa [Bytes.bigEndian_ofBigEndian]⟩
  · rintro ⟨hBound, hPasses⟩
    refine ⟨_, Bytes.length_bigEndian width value, hPasses, ?_⟩
    rw [Bytes.ofBigEndian_bigEndian, Nat.mod_eq_of_lt hBound]

/-- If one element takes what is written for it, so do many in a row. -/
theorem returns_repeated_iff {read : Reader α} {Legal : α → Prop} {write : α → Bytes}
    (hRead : ∀ cursor value next,
      Returns read cursor value next ↔ Legal value ∧ cursor.Passes (write value) next)
    {count : Nat} {values : List α} :
    Returns (repeated read count) cursor values next ↔
      values.length = count ∧ (∀ value ∈ values, Legal value) ∧
        cursor.Passes (values.flatMap write) next := by
  induction count generalizing cursor next values with
  | zero =>
      simp only [repeated, returns_pure_iff, List.length_eq_zero_iff]
      constructor
      · rintro ⟨rfl, rfl⟩
        exact ⟨rfl, by simp, Cursor.passes_nil_iff.2 rfl⟩
      · rintro ⟨rfl, -, hPasses⟩
        exact ⟨rfl, Cursor.passes_nil_iff.1 hPasses⟩
  | succ count ih =>
      simp only [repeated, returns_bind_iff, returns_pure_iff, hRead, ih]
      constructor
      · rintro ⟨first, middle, ⟨hFirst, hPass⟩, rest, last, ⟨rfl, hRest, hPasses⟩, rfl, rfl⟩
        refine ⟨rfl, List.forall_mem_cons.2 ⟨hFirst, hRest⟩, ?_⟩
        exact Cursor.passes_append_iff.2 ⟨middle, hPass, hPasses⟩
      · rintro ⟨hLength, hLegal, hPasses⟩
        obtain ⟨first, rest, rfl⟩ := List.exists_cons_of_length_eq_add_one hLength
        obtain ⟨hFirst, hRest⟩ := List.forall_mem_cons.1 hLegal
        obtain ⟨middle, hPass, hPasses⟩ := Cursor.passes_append_iff.1 hPasses
        exact ⟨first, middle, ⟨hFirst, hPass⟩, rest, next,
          ⟨by simpa using hLength, hRest, hPasses⟩, rfl, rfl⟩

/-! A read that has to take a whole input. -/

variable {read : Reader α} {input : Bytes} {value : α}

theorem readAll_eq_ok_iff :
    readAll read input = .ok value ↔
      ∃ position, Returns read (.start input) value ⟨position, []⟩ := by
  unfold readAll Returns
  rcases read.runFrom (.start input) with ⟨error | result, position, rest⟩
  · simp
  · rcases rest with _ | ⟨first, rest⟩ <;> simp

/-- If a read takes exactly what is written, so does the read of a whole input. -/
theorem readAll_eq_ok_iff_of_returns {Legal : Prop} {written : Bytes}
    (hRead : ∀ {cursor next : Cursor},
      Returns read cursor value next ↔ Legal ∧ cursor.Passes written next) :
    readAll read input = .ok value ↔ Legal ∧ input = written := by
  simp only [readAll_eq_ok_iff, hRead, Cursor.Passes, Cursor.start, List.append_nil]
  constructor
  · rintro ⟨position, hLegal, hInput, -⟩
    exact ⟨hLegal, hInput⟩
  · rintro ⟨hLegal, hInput⟩
    exact ⟨_, hLegal, hInput, rfl⟩

theorem readAll_eq_error_of_refuses {error : TxError} (h : Refuses read (.start input) error) :
    readAll read input = .error error := by
  unfold Refuses at h
  unfold readAll
  generalize read.runFrom (.start input) = outcome at h ⊢
  rcases outcome with ⟨found | result, next⟩
  · cases h
    rfl
  · cases h

/-- What is left of the input is too much. -/
theorem readAll_eq_error_of_rest {next : Cursor} (h : Returns read (.start input) value next)
    (hRest : next.rest ≠ []) : readAll read input = .error .trailingBytes := by
  unfold readAll
  rw [h]
  exact if_neg (by simpa using hRest)

end Reader

end ColdSigner
