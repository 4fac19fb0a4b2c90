import Omi.Base.Base64
import Omi.Base.Instance
import Omi.Base.Numbers

/-!
# Elements from strings

`Instance_SetElementFromStringA`, with the conversions of the integer types. They hand
the string to `strtoul` or `strtol` in base zero, which stands for the notation of C, and
narrow what comes back. The value is kept as the number that its bytes spell, as in
`Value`.

The conversions accept the empty string and white space in front, saturate at 64 bits
and wrap below that; and an element that is not an array is set to the address of the
array that was filled for it.
-/

namespace Omi.Base

open List Option Xml

/-! ## Numbers in the notation of C -/

/-- Base zero: `0x` in front of a digit, `0`, or neither. -/
def autoBase : List UInt8 → Nat
  | 48 :: c :: d :: _ => if (c = 120 ∨ c = 88) ∧ (digitValue 16 d).isSome then 16 else 8
  | 48 :: _ => 8
  | _ => 10

/-- The number behind the sign, and the text behind it. -/
def readMagnitude (p : List UInt8) : Option (Nat × List UInt8) :=
  let isDigit := fun c => (digitValue (autoBase p) c).isSome
  let text := skipHexMark (autoBase p) p
  if text.takeWhile isDigit = [] then none
  else some (digitsValue (autoBase p) (text.takeWhile isDigit), text.dropWhile isDigit)

/-- What `strtol` and `strtoll` make of a number, which have 64 bits. -/
def longOf (negative : Bool) (value : Nat) : Int :=
  if negative then max (-2 ^ 63) (-value) else min (2 ^ 63 - 1) value

/-- `strtoul` or `strtol` in base zero. Without a digit the end is the start. -/
def strtoAny (signed : Bool) (p : List UInt8) : Int × List UInt8 :=
  let sign := skipSign (p.dropWhile isBlank)
  match readMagnitude sign.2 with
  | none => (0, p)
  | some (value, rest) => (if signed then longOf sign.1 value else ulongOf sign.1 value, rest)

/-! ## The conversions -/

/-- The number that the bytes of an integer spell, in two's complement. -/
def narrow (t : PlainType) (x : Int) : Fin (256 ^ t.width) :=
  ⟨(x % (256 ^ t.width : Nat)).toNat, by
    have positive : (0 : Int) < (256 ^ t.width : Nat) := by
      exact_mod_cast Nat.pow_pos (n := t.width) (show 0 < 256 by decide)
    have below := Int.emod_lt_of_pos x positive
    have least := Int.emod_nonneg x positive.ne'
    omega⟩

/-- The text has to end behind the number. -/
def strToInteger (signed : Bool) (t : PlainType) (str : List UInt8) :
    Option (Fin (256 ^ t.width)) :=
  if (strtoAny signed str).2 = [] then some (narrow t (strtoAny signed str).1) else none

/-- `StrToUint8`. -/
def strToUint8 := strToInteger false .uint8
/-- `StrToSint8`. -/
def strToSint8 := strToInteger true .sint8
/-- `StrToUint16`. -/
def strToUint16 := strToInteger false .uint16
/-- `StrToSint16`. -/
def strToSint16 := strToInteger true .sint16
/-- `StrToUint32`. -/
def strToUint32 := strToInteger false .uint32
/-- `StrToSint32`. -/
def strToSint32 := strToInteger true .sint32
/-- `StrToUint64`. -/
def strToUint64 := strToInteger false .uint64
/-- `StrToSint64`. -/
def strToSint64 := strToInteger true .sint64
/-- `StrToChar16`. -/
def strToChar16 := strToInteger false .char16

/-- `StrToBoolean`. -/
def strToBoolean (str : List UInt8) : Option (Fin (256 ^ PlainType.width .boolean)) :=
  if tcscasecmp str (ascii "true") = 0 then some 1
  else if tcscasecmp str (ascii "false") = 0 then some 0
  else none

section Elements

/- The conversions of reals, by `strtod`, and of datetimes. -/
variable (other : (t : PlainType) → List UInt8 → Option (Fin (256 ^ t.width)))

/-- `_converters`, for the types that have one. -/
def converters : (t : PlainType) → List UInt8 → Option (Fin (256 ^ t.width))
  | .boolean => strToBoolean
  | .uint8 => strToUint8
  | .sint8 => strToSint8
  | .uint16 => strToUint16
  | .sint16 => strToSint16
  | .uint32 => strToUint32
  | .sint32 => strToSint32
  | .uint64 => strToUint64
  | .sint64 => strToSint64
  | .char16 => strToChar16
  | .real32 => other .real32
  | .real64 => other .real64
  | .datetime => other .datetime

/-- Why nothing is set. -/
inductive SetFault where
  | invalidParameter
  | failed
  | serverLimitsExceeded
deriving DecidableEq, Repr

/-- The octets of `_Base64DecCallback`: four bytes of length, which counts them, and the data. -/
def octets (data : List UInt8) : List (Fin (256 ^ PlainType.width .uint8)) :=
  let size := data.length + 4
  [size / 2 ^ 24, size / 2 ^ 16, size / 2 ^ 8, size].map (fun b : Nat => narrow .uint8 b) ++
    data.map fun b => narrow .uint8 b.toNat

/-- `Instance_SetElementFromStringA` on an element that was found: the value that it passes to
`MI_Instance_SetElement` under the type of the element. `octet` is whether the element is a
byte array with the qualifier `Octetstring` and the message came over WS-Management.
`address` is where the array is allocated; its pointer and size make up the first bytes of
the value, and they are what an element takes that is no array. -/
def setElementFromStringA (type : MiType) (octet : Bool) (address : Option Nat)
    (data : List ZString) : Except SetFault Value :=
  match type, octet with
  | .array (.plain .uint8), true =>
    match (base64Dec collect ((data.head?.map ZString.chars).getD []) []) with
    | none => .error .failed
    | some (bytes, _) => .ok (.plains .uint8 (octets bytes))
  | .array .string, _ => .ok (.strings (data.map some))
  | .array (.plain t), _ =>
    match address, data.mapM fun s => converters other t s.chars with
    | none, _ => .error .serverLimitsExceeded
    | some _, none => .error .invalidParameter
    | some _, some xs => .ok (.plains t xs)
  | .scalar (.plain t), _ =>
    match address, data.mapM fun s => converters other t s.chars with
    | none, _ => .error .serverLimitsExceeded
    | some _, none => .error .invalidParameter
    | some address, some _ => .ok (.plain t (narrow t (address + 2 ^ 64 * data.length : Nat)))
  | _, _ => if address = none then .error .serverLimitsExceeded else .error .failed

end Elements

/-! ## Numerals -/

/-- The integer that a numeral in the notation of C denotes: a sign or none, and digits. -/
def numeral (s : List UInt8) : Option Int :=
  let sign := skipSign s
  let digits := skipHexMark (autoBase sign.2) sign.2
  if digits ≠ [] ∧ digits.all (fun c => (digitValue (autoBase sign.2) c).isSome) then
    let value := digitsValue (autoBase sign.2) digits
    some (if sign.1 then -value else value)
  else none

/-- The integer types, and whether they are signed. -/
def PlainType.signed : PlainType → Option Bool
  | .uint8 | .uint16 | .uint32 | .uint64 => some false
  | .sint8 | .sint16 | .sint32 | .sint64 => some true
  | .boolean | .real32 | .real64 | .char16 | .datetime => none

/-- The range of an integer type. -/
def PlainType.InRange (t : PlainType) (signed : Bool) (v : Int) : Prop :=
  if signed then -(256 ^ t.width : Nat) ≤ 2 * v ∧ 2 * v < (256 ^ t.width : Nat)
  else 0 ≤ v ∧ v < (256 ^ t.width : Nat)

/-- The integer that the bytes of a value stand for. -/
def PlainType.integer (t : PlainType) (signed : Bool) (x : Fin (256 ^ t.width)) : Int :=
  if signed ∧ 256 ^ t.width ≤ 2 * x.val then (x.val : Int) - (256 ^ t.width : Nat) else x.val

/-- What an item is set to is the integer that its string denotes. -/
def StoresNumeral (t : PlainType) (signed : Bool) (s : ZString) (x : Fin (256 ^ t.width)) : Prop :=
  ∃ v, numeral s.chars = some v ∧ t.InRange signed v ∧ t.integer signed x = v

/-- The string is not empty, does not begin with white space, and what it denotes is in range. -/
def PlainNumeral (t : PlainType) (signed : Bool) (s : ZString) : Prop :=
  s.chars ≠ [] ∧ (∀ c ∈ s.chars.head?, isBlank c = false) ∧
    ∀ v, numeral s.chars = some v → t.InRange signed v

theorem numeral_head {s : List UInt8} {v : Int} (found : numeral s = some v) :
    s ≠ [] ∧ ∀ c ∈ s.head?, isBlank c = false := by
  have blank : ∀ c : UInt8, isBlank c = true →
      (digitValue 10 c).isSome = false ∧ c ≠ 45 ∧ c ≠ 43 ∧ c ≠ 48 := forall_byte (by decide +kernel)
  cases s with
  | nil => cases found
  | cons c s =>
    refine ⟨nofun, fun d first => ?_⟩
    obtain rfl : c = d := by simpa using first
    by_contra isBlank'
    obtain ⟨noDigit, notMinus, notPlus, notZero⟩ := blank c (by simpa using isBlank')
    have sign : skipSign (c :: s) = (false, c :: s) := by
      rw [skipSign]
      · exact fun p same => notMinus (cons.inj same).1
      · exact fun p same => notPlus (cons.inj same).1
    have base : autoBase (c :: s) = 10 := by
      unfold autoBase
      split
      · rename_i same
        exact absurd (cons.inj same).1 notZero
      · rename_i same
        exact absurd (cons.inj same).1 notZero
      · rfl
    simp [numeral, sign, base, skipHexMark_ten, noDigit] at found

theorem readMagnitude_whole {p : List UInt8} {value : Nat} {rest : List UInt8}
    (read : readMagnitude p = some (value, rest)) (whole : rest = []) :
    skipHexMark (autoBase p) p ≠ [] ∧
      (skipHexMark (autoBase p) p).all (fun c => (digitValue (autoBase p) c).isSome) = true ∧
      digitsValue (autoBase p) (skipHexMark (autoBase p) p) = value := by
  unfold readMagnitude at read
  obtain ⟨digits, same⟩ := ite_none_left_eq_some.mp read
  cases same
  have all := dropWhile_eq_nil_iff.mp whole
  rw [takeWhile_eq_self_iff.mpr all] at digits ⊢
  exact ⟨digits, all_eq_true.mpr all, rfl⟩

variable {signed : Bool}

/-- Where a text is read to its end and does not begin with white space, it is a numeral. -/
theorem strtoAny_numeral {s : List UInt8} (some' : s ≠ [])
    (first : ∀ c ∈ s.head?, isBlank c = false) (whole : (strtoAny signed s).2 = []) :
    ∃ value : Nat, numeral s = some (if (skipSign s).1 then -(value : Int) else value) ∧
      (strtoAny signed s).1 =
        if signed then longOf (skipSign s).1 value else ulongOf (skipSign s).1 value := by
  have start : s.dropWhile isBlank = s := by
    obtain ⟨c, rest, rfl⟩ := exists_cons_of_ne_nil some'
    exact dropWhile_cons_of_neg (by simp [first c rfl])
  unfold strtoAny at whole ⊢
  simp only [start] at whole ⊢
  split at whole
  next none' => exact absurd whole some'
  next value rest read =>
    obtain ⟨digits, all, same⟩ := readMagnitude_whole read whole
    refine ⟨value, ?_, rfl⟩
    simp only [numeral]
    rw [if_pos ⟨digits, all⟩, same]

variable {t : PlainType}

/-- Narrowing keeps an integer in range. -/
theorem integer_narrow {v : Int} (inRange : t.InRange signed v) :
    t.integer signed (narrow t v) = v := by
  have positive : (0 : Int) < (256 ^ t.width : Nat) := by
    exact_mod_cast Nat.pow_pos (n := t.width) (show 0 < 256 by decide)
  have value : ((narrow t v).val : Int) = v % (256 ^ t.width : Nat) :=
    Int.toNat_of_nonneg (Int.emod_nonneg v positive.ne')
  unfold PlainType.InRange at inRange
  unfold PlainType.integer
  by_cases negative : v < 0
  · have wrapped : v % (256 ^ t.width : Nat) = v + (256 ^ t.width : Nat) := by
      rw [← Int.add_emod_right]
      exact Int.emod_eq_of_lt (by split at inRange <;> omega) (by omega)
    split at inRange
    next sign =>
      rw [if_pos ⟨sign, by omega⟩]
      omega
    · omega
  · have kept : v % (256 ^ t.width : Nat) = v :=
      Int.emod_eq_of_lt (by omega) (by split at inRange <;> omega)
    rw [kept] at value
    rw [if_neg, value]
    rintro ⟨sign, upper⟩
    rw [if_pos sign] at inRange
    omega

/-- Nothing is cut off a number in range. -/
theorem read_of_inRange {signed negative : Bool} {value : Nat}
    (wide : t.width ≤ 8) (inRange : t.InRange signed (if negative then -(value : Int) else value)) :
    (if signed then longOf negative value else (ulongOf negative value : Int)) =
      if negative then -(value : Int) else value := by
  have bound : 256 ^ t.width ≤ 256 ^ 8 := Nat.pow_le_pow_right (by decide) wide
  unfold PlainType.InRange at inRange
  generalize 256 ^ t.width = m at bound inRange
  unfold longOf ulongOf ulongMax
  cases signed <;> cases negative <;> simp only [Bool.false_eq_true, if_true, if_false] at inRange ⊢
  · rw [if_neg (by omega)]
  · obtain rfl : value = 0 := by omega
    rfl
  · omega
  · omega

theorem strToInteger_stores_iff {s : ZString} {x : Fin (256 ^ t.width)} (wide : t.width ≤ 8)
    (accepted : strToInteger signed t s.chars = some x) :
    StoresNumeral t signed s x ↔ PlainNumeral t signed s := by
  constructor
  · rintro ⟨v, found, inRange, -⟩
    obtain ⟨some', first⟩ := numeral_head found
    refine ⟨some', first, fun w same => ?_⟩
    cases found.symm.trans same
    exact inRange
  · rintro ⟨some', first, inRange⟩
    obtain ⟨whole, ⟨⟩⟩ := ite_none_right_eq_some.mp accepted
    obtain ⟨value, found, read⟩ := strtoAny_numeral some' first whole
    refine ⟨_, found, inRange _ found, ?_⟩
    rw [read, read_of_inRange wide (inRange _ found), integer_narrow (inRange _ found)]

/-! ## Arrays and scalars -/

/-- What is stored for an element of an integer type are the integers that the strings denote:
in an array one for each, in a scalar that of the only one. -/
def StoresNumerals (t : PlainType) (signed : Bool) (data : List ZString) (value : Value) : Prop :=
  (∃ xs, value = .plains t xs ∧ List.Forall₂ (StoresNumeral t signed) data xs) ∨
    ∃ s x, data = [s] ∧ value = .plain t x ∧ StoresNumeral t signed s x

section Elements

variable (other : (t : PlainType) → List UInt8 → Option (Fin (256 ^ t.width)))

theorem converters_integer (integer : t.signed = some signed) :
    converters other t = strToInteger signed t ∧ t.width ≤ 8 := by
  cases t <;> simp only [PlainType.signed, Option.some.injEq, reduceCtorEq] at integer <;>
    subst integer <;> exact ⟨rfl, by decide⟩

/-- Along the items of an array. -/
theorem storesNumeral_all (integer : t.signed = some signed)
    {data : List ZString} {xs : List (Fin (256 ^ t.width))}
    (converted : List.Forall₂ (fun s x => converters other t s.chars = some x) data xs) :
    List.Forall₂ (StoresNumeral t signed) data xs ↔ ∀ s ∈ data, PlainNumeral t signed s := by
  obtain ⟨same, wide⟩ := converters_integer other integer
  induction converted with
  | nil => simp
  | cons first _ ih =>
    rw [same] at first
    rw [List.forall₂_cons, forall_mem_cons, ih, strToInteger_stores_iff wide first]

/-- The addresses zero and one, with the size of one item above them, are different integers. -/
theorem integer_address (integer : t.signed = some signed) :
    t.integer signed (narrow t (0 + 2 ^ 64 * 1 : Nat)) = 0 ∧
      t.integer signed (narrow t (1 + 2 ^ 64 * 1 : Nat)) = 1 := by
  cases t <;> simp only [PlainType.signed, Option.some.injEq, reduceCtorEq] at integer <;>
    subst integer <;> decide

/-- An element of an integer type that is set from strings, wherever the array is allocated, is
set to the integers that they denote exactly if it is an array and the strings are plain. -/
theorem setElementFromStringA_integer_iff {t : PlainType} {signed : Bool}
    (integer : t.signed = some signed) {type : MiType}
    (ofT : type = .scalar (.plain t) ∨ type = .array (.plain t)) {data : List ZString}
    {address : Nat} {value : Value}
    (stored : setElementFromStringA other type false (some address) data = .ok value) :
    (∀ address value, setElementFromStringA other type false (some address) data = .ok value →
        StoresNumerals t signed data value) ↔
      type = .array (.plain t) ∧ ∀ s ∈ data, PlainNumeral t signed s := by
  obtain ⟨xs, mapped⟩ : ∃ xs, data.mapM (fun s => converters other t s.chars) = some xs := by
    cases mapped : data.mapM fun s => converters other t s.chars with
    | some xs => exact ⟨xs, rfl⟩
    | none =>
      rcases ofT with rfl | rfl <;> simp [setElementFromStringA, mapped] at stored
  have items := storesNumeral_all other integer (mapM_eq_some mapped)
  rcases ofT with rfl | rfl
  · have set : ∀ address, setElementFromStringA other (.scalar (.plain t)) false (some address)
        data = .ok (.plain t (narrow t (address + 2 ^ 64 * data.length : Nat))) := by
      intro address
      simp [setElementFromStringA, mapped]
    refine ⟨fun all => ?_, fun both => absurd both.1 nofun⟩
    have only : ∀ address x, narrow t (address + 2 ^ 64 * data.length : Nat) = x →
        ∃ s, data = [s] ∧ StoresNumeral t signed s x := by
      rintro address _ rfl
      rcases all address _ (set address) with ⟨_, same, -⟩ | ⟨s, x, one, same, stores⟩
      · cases same
      · cases same
        exact ⟨s, one, stores⟩
    obtain ⟨s, rfl, v, found, -, zero⟩ := only 0 _ rfl
    obtain ⟨s', same, v', found', -, one⟩ := only 1 _ rfl
    cases same
    cases found.symm.trans found'
    obtain ⟨isZero, isOne⟩ := integer_address integer
    exact absurd ((isZero.symm.trans zero).trans (one.symm.trans isOne)) (by decide)
  · have set : ∀ address, setElementFromStringA other (.array (.plain t)) false (some address)
        data = .ok (.plains t xs) := by
      intro address
      simp [setElementFromStringA, mapped]
    rw [← items]
    constructor
    · intro all
      rcases all 0 _ (set 0) with ⟨ys, same, stores⟩ | ⟨_, _, -, same, -⟩
      · cases same
        exact ⟨rfl, stores⟩
      · cases same
    · rintro ⟨-, stores⟩ address value stored
      cases (set address).symm.trans stored
      exact Or.inl ⟨xs, rfl, stores⟩

end Elements

/-- Two items of an array of signed bytes. -/
theorem setElementFromStringA_integer_pair :
    ∃ value, setElementFromStringA (fun _ _ => none) (.array (.plain .sint8)) false (some 4096)
        [ZString.ofString "-8", ZString.ofString "0x10"] = .ok value ∧
      StoresNumerals .sint8 true [ZString.ofString "-8", ZString.ofString "0x10"] value := by
  have minus : numeral (ascii "-8") = some (-8) := by decide +kernel
  have hex : numeral (ascii "0x10") = some 16 := by decide +kernel
  have plain : ∀ s ∈ [ZString.ofString "-8", ZString.ofString "0x10"],
      PlainNumeral .sint8 true s := by
    refine forall_mem_cons.mpr ⟨⟨by decide, by decide +kernel, fun v found => ?_⟩,
      forall_mem_singleton.mpr ⟨by decide, by decide +kernel, fun v found => ?_⟩⟩
    · cases minus.symm.trans found
      unfold PlainType.InRange
      decide
    · cases hex.symm.trans found
      unfold PlainType.InRange
      decide
  have stored : setElementFromStringA (fun _ _ => none) (.array (.plain .sint8)) false (some 4096)
      [ZString.ofString "-8", ZString.ofString "0x10"] = .ok (.plains .sint8 [248, 16]) := rfl
  exact ⟨_, stored, (setElementFromStringA_integer_iff (fun _ _ => none) rfl (Or.inr rfl)
    stored).mpr ⟨rfl, plain⟩ 4096 _ stored⟩

/-- A number above the range, no number at all and a negative one are stored in a byte. -/
theorem setElementFromStringA_faults :
    (∃ value, setElementFromStringA (fun _ _ => none) (.array (.plain .uint8)) false (some 4096)
        [ZString.ofString "300"] = .ok value ∧
      ¬ StoresNumerals .uint8 false [ZString.ofString "300"] value) ∧
    strToUint8 (ascii "") = some 0 ∧ strToUint8 (ascii "-1") = some 255 ∧
    strToUint8 (ascii "300") = some 44 := by
  have value : numeral (ascii "300") = some 300 := by decide +kernel
  refine ⟨⟨.plains .uint8 [44], rfl, ?_⟩, by decide +kernel, by decide +kernel, by decide +kernel⟩
  rintro (⟨xs, same, stores⟩ | ⟨_, _, -, same, -⟩)
  · cases same
    obtain ⟨v, found, inRange, -⟩ := (List.forall₂_cons.mp stores).1
    cases value.symm.trans found
    exact absurd inRange (by unfold PlainType.InRange; decide)
  · cases same

end Omi.Base
