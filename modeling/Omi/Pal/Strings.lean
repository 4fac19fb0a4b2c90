import Omi.Base.Numbers

/-!
# Numbers as strings

`TcsFromUInt64`, `Uint64ToStr` and `Sint64ToZStr` write the digits of a number into the
caller's buffer from its end. A negative number is negated first, and the smallest one stays
negative: what is written for it is not made of digits.
-/

namespace Omi.Pal

open List Base Xml

/-- The loop: each digit of `value`, the last one first, goes to `*--p`. A write in front of
the buffer is `none`. -/
def digitLoop : List UInt8 → Nat → Int → Option (List UInt8 × Nat)
  | _, 0, _ => none
  | buf, p + 1, value =>
    let written := buf.set p (48 + value.tmod 10).toNat.toUInt8
    if value.tdiv 10 = 0 then some (written, p) else digitLoop written p (value.tdiv 10)

/-- The buffer afterwards, the index in it that `*result` points to, and `*size`. -/
structure Converted where
  buf : List UInt8
  result : Nat
  size : Nat
deriving DecidableEq

/-- What the three functions share, with the zero at `buf[last]`. -/
def convert (last : Nat) (isNegative : Bool) (value : Int) (buf : List UInt8) : Option Converted :=
  match digitLoop (buf.set last 0) last value, isNegative with
  | none, _ | some (_, 0), true => none
  | some (buf, p), false => some ⟨buf, p, last - p⟩
  | some (buf, p + 1), true => some ⟨buf.set p 45, p, last - p⟩

def tcsFromUInt64 (value : UInt64) := convert 63 false value.toNat

/-- The branch for the numbers below 64 does not return: what it takes from `_numberStrings` is
overwritten. -/
def uint64ToStr (value : UInt64) := convert 20 false value.toNat

/-- The negation wraps. -/
def sint64ToZStr (value : Int64) :=
  convert 63 (value < 0) (if value < 0 then -value else value).toInt

def signed (isNegative : Bool) (n : Nat) : List UInt8 :=
  if isNegative then 45 :: decimalText n else decimalText n

/-- The canonical decimal numeral. -/
def numeral (value : Int) : List UInt8 := signed (value < 0) value.natAbs

/-- Whatever is in a buffer of `last + 1` characters, the text is put at its end, in front of a
zero, and the rest of it is left. -/
def Writes (last : Nat) (convert : List UInt8 → Option Converted) (text : List UInt8) : Prop :=
  text.length ≤ last ∧ ∀ buf, buf.length = last + 1 → convert buf =
    some ⟨buf.take (last - text.length) ++ (text ++ [0]), last - text.length, text.length⟩

variable {buf after : List UInt8} {p n : Nat}

theorem set_take_append (inside : p < buf.length) (c : UInt8) :
    (buf.take (p + 1) ++ after).set p c = buf.take p ++ c :: after := by
  rw [take_succ_eq_append_getElem inside, append_assoc, set_append_right _ _ (length_take_le _ _),
    length_take_of_le inside.le, Nat.sub_self]
  rfl

/-- The characters in front of the digits and those behind them are left. -/
theorem digitLoop_spec (fits : (decimalText n).length ≤ p) (inside : p ≤ buf.length) :
    digitLoop (buf.take p ++ after) p n =
      some (buf.take (p - (decimalText n).length) ++ (decimalText n ++ after),
        p - (decimalText n).length) := by
  induction n using Nat.strongRecOn generalizing after p with
  | ind n ih =>
    cases p with
    | zero => exact absurd (length_eq_zero_iff.mp (Nat.le_zero.mp fits)) (decimalText_spec n).2.1
    | succ p =>
      have quotient : (n : Int).tdiv 10 = (n / 10 : Nat) := rfl
      have digit : (48 + (n : Int).tmod 10).toNat = 48 + n % 10 := rfl
      rw [digitLoop, set_take_append inside, quotient, digit]
      by_cases small : n < 10
      · rw [if_pos (by omega), decimalText_lt_ten small, Nat.mod_eq_of_lt small]
        rfl
      · rw [decimalText_ten_le (Nat.not_lt.mp small), length_append, length_singleton] at fits ⊢
        rw [if_neg (by omega), ih _ (by omega) (by omega) (by omega), append_assoc]
        simp

theorem writes_convert {last : Nat} {isNegative : Bool}
    (fits : (signed isNegative n).length ≤ last) :
    Writes last (convert last isNegative n) (signed isNegative n) := by
  refine ⟨fits, fun buf length => ?_⟩
  have terminated := @set_take_append buf [] last (by omega) 0
  rw [append_nil, take_of_length_le length.le] at terminated
  unfold convert
  rw [terminated]
  cases isNegative with
  | false =>
    have digits : (decimalText n).length ≤ last := fits
    rw [digitLoop_spec digits (by omega)]
    simp [signed, Nat.sub_sub_self digits]
  | true =>
    obtain ⟨p, rfl⟩ := Nat.exists_eq_add_of_lt (show (decimalText n).length < last from fits)
    rw [digitLoop_spec (by omega) (by omega), Nat.add_assoc, Nat.add_sub_cancel_left]
    have front : (decimalText n).length + (p + 1) - ((decimalText n).length + 1) = p := by omega
    have size : (decimalText n).length + (p + 1) - p = (decimalText n).length + 1 := by omega
    simp [signed, set_take_append (show p < buf.length by omega), front, size]

theorem length_signed_le (isNegative : Bool) :
    (signed isNegative n).length ≤ (decimalText n).length + 1 := by
  cases isNegative <;> simp [signed]

theorem not_writes_minValue :
    ¬ Writes 63 (sint64ToZStr Int64.minValue) (numeral Int64.minValue.toInt) := by
  rintro ⟨-, writes⟩
  have wrong := writes (replicate 64 0) rfl
  revert wrong
  decide +kernel

theorem writes_numeral (u : UInt64) (v : Int64) :
    Writes 63 (tcsFromUInt64 u) (numeral u.toNat) ∧ Writes 20 (uint64ToStr u) (numeral u.toNat) ∧
      (Writes 63 (sint64ToZStr v) (numeral v.toInt) ↔ v ≠ Int64.minValue) := by
  have length : ∀ n < 2 ^ 64, (decimalText n).length ≤ 20 := fun n small =>
    length_decimalText (by decide) (small.trans (by decide))
  have short := length _ u.toNat_lt
  refine ⟨writes_convert (short.trans (by decide)), writes_convert short, ?_, ?_⟩
  · rintro writes rfl
    exact not_writes_minValue writes
  · intro negatable
    have lower := v.le_toInt
    have upper := v.toInt_lt
    have proper : v.toInt ≠ -2 ^ 63 := fun least => negatable (Int64.toInt_inj.mp least)
    have sign : v < 0 ↔ v.toInt < 0 := Int64.lt_iff_toInt_lt
    have magnitude : (if v < 0 then -v else v).toInt = (v.toInt.natAbs : Int) := by
      by_cases negative : v.toInt < 0
      · rw [if_pos (sign.mpr negative), Int64.toInt_neg, Int.bmod_eq_of_le (by omega) (by omega)]
        omega
      · rw [if_neg (mt sign.mp negative)]
        omega
    unfold sint64ToZStr numeral
    rw [magnitude, decide_eq_decide.mpr sign]
    have digits := length v.toInt.natAbs (by omega)
    exact writes_convert ((length_signed_le _).trans (by omega))

theorem sint64ToZStr_minValue :
    ¬ Writes 63 (sint64ToZStr Int64.minValue) (numeral Int64.minValue.toInt) ∧
    (sint64ToZStr Int64.minValue (replicate 64 0)).map (fun done => done.buf.drop done.result) =
      some (ascii "-'..--).0-*(+,))+(0(" ++ [0]) :=
  ⟨not_writes_minValue, by decide +kernel⟩

end Omi.Pal
