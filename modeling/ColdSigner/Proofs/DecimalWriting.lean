import ColdSigner.Proofs.CoinAmounts
/-!
# Writing an amount digit by digit

The digits of an amount are taken off it one after the other, the last one first, and each goes to
the next of 78 places. From there they are copied over the start of a buffer, the other way round.
Each write is refused outside of its bytes, and none ever is: the rounds end with as many places
filled as the amount has digits (`Uint256.DigitLoop.finish?_eq`), which are at most as many as there
are places. So the digits in the buffer are the ones of the amount
(`Uint256.decimal_written_exactly`).
-/
namespace ColdSigner

open Number

namespace Bytes

/-- The byte string with one of its bytes replaced. A place outside of it is refused. -/
def put? (bytes : Bytes) (place : Nat) (byte : UInt8) : Option Bytes :=
  if place < bytes.length then some (bytes.set place byte) else none

/-- The byte string with its bytes from a place on replaced one by one. -/
def putAll? : Bytes → Nat → Bytes → Option Bytes
  | bytes, _, [] => some bytes
  | bytes, place, byte :: rest =>
      match put? bytes place byte with
      | some written => putAll? written (place + 1) rest
      | none => none

theorem put?_append (front : Bytes) (old : UInt8) (back : Bytes) (byte : UInt8) :
    put? (front ++ old :: back) front.length byte = some (front ++ byte :: back) := by
  have hRoom : front.length < (front ++ old :: back).length := by
    rw [List.length_append, List.length_cons]
    omega
  rw [put?, if_pos hRoom, List.set_append_right _ _ (Nat.le_refl _), Nat.sub_self,
    List.set_cons_zero]

theorem putAll?_append (front : Bytes) {old bytes : Bytes} (back : Bytes)
    (hLength : old.length = bytes.length) :
    putAll? (front ++ (old ++ back)) front.length bytes = some (front ++ (bytes ++ back)) := by
  induction bytes generalizing front old with
  | nil =>
      obtain rfl : old = [] := List.eq_nil_of_length_eq_zero hLength
      rfl
  | cons byte rest ih =>
      cases old with
      | nil => cases hLength
      | cons first old =>
          have hRest := ih (front ++ [byte]) (Nat.succ.inj hLength)
          rw [List.length_append, List.length_singleton, List.append_assoc,
            List.append_assoc] at hRest
          rw [List.cons_append, putAll?, put?_append]
          exact hRest

end Bytes

namespace Number.Decimal

theorem length_ascii (value : Nat) : (ascii value).length = (chars value).length :=
  List.length_map _

/-- The code of a digit. -/
theorem byte_of_digit {value : Nat} (hValue : value < 10) :
    0x30 + UInt8.ofNat value = UInt8.ofNat (digit value).toNat := by
  have hAll : ∀ value < 10, 0x30 + UInt8.ofNat value = UInt8.ofNat (digit value).toNat := by
    decide
  exact hAll value hValue

theorem ascii_of_lt {value : Nat} (hValue : value < 10) :
    ascii value = [UInt8.ofNat (digit value).toNat] := by
  rw [ascii, chars_of_lt hValue]
  rfl

theorem ascii_append_digit {value : Nat} (hValue : 10 ≤ value) :
    ascii value = ascii (value / 10) ++ [UInt8.ofNat (digit (value % 10)).toNat] := by
  rw [ascii, chars_append_digit hValue, List.map_append]
  rfl

end Number.Decimal

namespace Uint256

/-- Digits on their way off an amount: the places for them, how many of these are filled, which is
one for each round so far, and what is left of the amount. -/
structure DigitLoop where
  places : Bytes
  count : Nat
  rest : Uint256

namespace DigitLoop

def start (value : Uint256) : DigitLoop where
  places := List.replicate maxDigits 0
  count := 0
  rest := value

/-- One round: the last digit of what is left goes to the next place. There is no round without
such a place. -/
def round? (loop : DigitLoop) : Option DigitLoop :=
  match loop.rest.divMod? 10 with
  | some (quotient, remainder) =>
      match Bytes.put? loop.places loop.count (0x30 + remainder.toUInt8) with
      | some places => some ⟨places, loop.count + 1, quotient⟩
      | none => none
  | none => none

theorem divMod?_ten (value : Uint256) :
    ∃ quotient, value.divMod? 10 = some (quotient, UInt64.ofNat (value.toNat % 10)) ∧
      quotient.toNat = value.toNat / 10 :=
  ⟨value.div 10, value.divMod?_eq (by decide), rfl⟩

theorem rest_of_round? {loop next : DigitLoop} (hRound : loop.round? = some next) :
    next.rest.toNat = loop.rest.toNat / 10 ∧ next.count = loop.count + 1 := by
  obtain ⟨quotient, hDivision, hQuotient⟩ := divMod?_ten loop.rest
  simp only [round?, hDivision] at hRound
  split at hRound
  · obtain rfl := Option.some.inj hRound
    exact ⟨hQuotient, rfl⟩
  · cases hRound

/-- Rounds until nothing is left, of which there is at least one. -/
def finish? (loop : DigitLoop) : Option DigitLoop :=
  match _h : loop.round? with
  | some next => if next.rest.toNat = 0 then some next else finish? next
  | none => none
  termination_by loop.rest.toNat
  decreasing_by
    have hRest := (rest_of_round? _h).1
    omega

/-- With a place behind the filled ones there is a next round. -/
theorem exists_round? (front : Bytes) (old : UInt8) (back : Bytes) (rest : Uint256) :
    ∃ quotient : Uint256, quotient.toNat = rest.toNat / 10 ∧
      round? ⟨front ++ old :: back, front.length, rest⟩ =
        some ⟨front ++ UInt8.ofNat (Decimal.digit (rest.toNat % 10)).toNat :: back,
          front.length + 1, quotient⟩ := by
  obtain ⟨quotient, hDivision, hQuotient⟩ := divMod?_ten rest
  refine ⟨quotient, hQuotient, ?_⟩
  simp only [round?, hDivision, Bytes.put?_append, UInt64.toUInt8_ofNat',
    Decimal.byte_of_digit (Nat.mod_lt _ (by decide : 10 > 0))]

theorem finish?_of_round? {loop next : DigitLoop} (hRound : loop.round? = some next) :
    loop.finish? = if next.rest.toNat = 0 then some next else next.finish? := by
  rw [finish?]
  split
  · next other hOther =>
      obtain rfl := Option.some.inj (hRound.symm.trans hOther)
      rfl
  · next hNone =>
      rw [hRound] at hNone
      cases hNone

/-- With as many places behind the filled ones as what is left has digits, the rounds end there,
and the digits stand in these places from the last one to the first. -/
theorem finish?_eq (front : Bytes) {spare : Bytes} (back : Bytes) (rest : Uint256)
    (hSpare : spare.length = (Decimal.ascii rest.toNat).length) :
    finish? ⟨front ++ (spare ++ back), front.length, rest⟩ =
      some ⟨front ++ ((Decimal.ascii rest.toNat).reverse ++ back),
        front.length + (Decimal.ascii rest.toNat).length, zero⟩ := by
  induction hValue : rest.toNat using Nat.strongRecOn generalizing front spare rest with
  | ind value ih =>
      subst hValue
      cases spare with
      | nil =>
          have hSome := List.length_pos_of_ne_nil (Decimal.chars_ne_nil rest.toNat)
          rw [Decimal.length_ascii, List.length_nil] at hSpare
          omega
      | cons old spare =>
          obtain ⟨quotient, hQuotient, hRound⟩ := exists_round? front old (spare ++ back) rest
          rw [List.cons_append, finish?_of_round? hRound]
          by_cases hShort : rest.toNat < 10
          · have hNothing : quotient.toNat = 0 := hQuotient.trans (Nat.div_eq_of_lt hShort)
            obtain rfl : quotient = zero := ext hNothing
            rw [Decimal.ascii_of_lt hShort] at hSpare ⊢
            obtain rfl : spare = [] := List.eq_nil_of_length_eq_zero (Nat.succ.inj hSpare)
            rw [if_pos hNothing, Nat.mod_eq_of_lt hShort]
            rfl
          · have hMore : 10 ≤ rest.toNat := Nat.not_lt.1 hShort
            have hLeft : quotient.toNat ≠ 0 := by omega
            have hLess : quotient.toNat < rest.toNat := by omega
            rw [Decimal.ascii_append_digit hMore, ← hQuotient] at hSpare ⊢
            rw [List.length_append] at hSpare
            -- The digit of this round is the first one of the places that are filled so far.
            have hRest := ih _ hLess
              (front ++ [UInt8.ofNat (Decimal.digit (rest.toNat % 10)).toNat]) quotient
              (Nat.succ.inj hSpare) rfl
            rw [List.length_append, List.append_assoc] at hRest
            rw [if_neg hLeft, List.reverse_append, List.length_append, Nat.add_comm _ [_].length,
              ← Nat.add_assoc]
            simpa using hRest

theorem length_ascii_le (value : Uint256) : (Decimal.ascii value.toNat).length ≤ maxDigits := by
  rw [Decimal.length_ascii]
  exact value.length_decimal_le

/-- The rounds for an amount are as many as it has digits. -/
theorem finish?_start (value : Uint256) :
    finish? (start value) =
      some ⟨(Decimal.ascii value.toNat).reverse ++
          List.replicate (maxDigits - (Decimal.ascii value.toNat).length) 0,
        (Decimal.ascii value.toNat).length, zero⟩ := by
  have hPlaces : List.replicate maxDigits (0 : UInt8) =
      List.replicate (Decimal.ascii value.toNat).length 0 ++
        List.replicate (maxDigits - (Decimal.ascii value.toNat).length) 0 := by
    rw [List.replicate_append_replicate, Nat.add_sub_of_le (length_ascii_le value)]
  have hSpare : (List.replicate (Decimal.ascii value.toNat).length (0 : UInt8)).length =
      (Decimal.ascii value.toNat).length := List.length_replicate
  have hRun := finish?_eq [] (List.replicate (maxDigits - (Decimal.ascii value.toNat).length) 0)
    value hSpare
  rw [← hPlaces] at hRun
  simpa [start] using hRun

end DigitLoop

/-- Write the digits of an amount over the start of a buffer, first into places of their own and
from there, the first one first, into the buffer. There is no result if anything is written outside
of its bytes. -/
def writeDigits? (value : Uint256) (buffer : Bytes) : Option (Option Nat × Bytes) :=
  match (DigitLoop.start value).finish? with
  | some loop =>
      if buffer.length < loop.count then some (none, buffer)
      else (Bytes.putAll? buffer 0 (loop.places.take loop.count).reverse).map
        fun written => (some loop.count, written)
  | none => none

/-- Nothing is written outside, and the buffer is the one that has the digits in front. -/
theorem writeDigits?_eq (value : Uint256) (buffer : Bytes) :
    value.writeDigits? buffer = some (value.writeDecimal buffer) := by
  have hTaken : ((Decimal.ascii value.toNat).reverse ++
      List.replicate (maxDigits - (Decimal.ascii value.toNat).length) (0 : UInt8)).take
        (Decimal.ascii value.toNat).length = (Decimal.ascii value.toNat).reverse :=
    List.take_left' List.length_reverse
  simp only [writeDigits?, DigitLoop.finish?_start, hTaken, List.reverse_reverse, writeDecimal]
  by_cases hRoom : (Decimal.ascii value.toNat).length ≤ buffer.length
  · have hFront : (buffer.take (Decimal.ascii value.toNat).length).length =
        (Decimal.ascii value.toNat).length := List.length_take_of_le hRoom
    have hWritten := Bytes.putAll?_append [] (buffer.drop (Decimal.ascii value.toNat).length) hFront
    rw [List.take_append_drop, List.nil_append, List.nil_append] at hWritten
    rw [if_neg (Nat.not_lt.2 hRoom), if_pos hRoom]
    exact congrArg (Option.map _) hWritten
  · rw [if_pos (Nat.not_le.1 hRoom), if_neg hRoom]

/-- However large the amount and the buffer are, the rounds end, after at most 78 of them and with
nothing left, and nothing is written outside of the places and of the buffer. A buffer with room for
the digits begins with them and is otherwise unchanged, and any other buffer is unchanged. The
digits are ASCII, without a zero in front, and read back as the amount. -/
theorem decimal_written_exactly (value : Uint256) (buffer : Bytes) :
    ∃ loop digits, (DigitLoop.start value).finish? = some loop ∧ loop.rest = zero ∧
      loop.count = digits.length ∧ digits.length ≤ 78 ∧ loop.places.length = 78 ∧
      value.writeDigits? buffer = some (value.writeDecimal buffer) ∧
      Decimal.IsNumeral (digits.map fun byte => Char.ofNat byte.toNat) value.toNat ∧
      (digits.length ≤ buffer.length → ∃ written,
        value.writeDecimal buffer = (some digits.length, written) ∧
          written.take digits.length = digits ∧
          written.drop digits.length = buffer.drop digits.length) ∧
      (buffer.length < digits.length → value.writeDecimal buffer = (none, buffer)) := by
  refine ⟨_, Decimal.ascii value.toNat, DigitLoop.finish?_start value, rfl, rfl,
    DigitLoop.length_ascii_le value, ?_, writeDigits?_eq value buffer, ?_, fun hRoom => ?_,
    fun hShort => ?_⟩
  · rw [List.length_append, List.length_reverse, List.length_replicate]
    exact Nat.add_sub_of_le (DigitLoop.length_ascii_le value)
  · rw [Display.map_ascii]
    exact Decimal.isNumeral_chars value.toNat
  · refine ⟨_, if_pos hRoom, List.take_left' rfl, List.drop_left' rfl⟩
  · exact if_neg (Nat.not_le.2 hShort)

end Uint256

end ColdSigner
