import Omi.Xml.Text

/-!
# Decimal numbers in texts

What `strtoul` does in base ten on a text that begins with neither white space nor a
sign, and the numbers that `sprintf` writes with `%u` and `%0Nu`, which it reads back
in front of anything that does not go on with a digit.
-/

namespace Omi.Base

open List Xml

/-- `isdigit` in the C locale. -/
def isDigit (c : UInt8) : Bool := 48 ≤ c && c ≤ 57

/-- White space and signs, which `strtoul` skips in front of the digits. -/
def isSkipped (c : UInt8) : Bool := isBlank c || c == 45 || c == 43

/-- The text does not go on with a digit. -/
def NoDigit (text : List UInt8) : Prop := ∀ c ∈ text.head?, isDigit c = false

@[simp] theorem noDigit_nil : NoDigit [] := by simp [NoDigit]

variable {text digits : List UInt8}

@[simp] theorem noDigit_cons {c : UInt8} :
    NoDigit (c :: text) ↔ isDigit c = false := by simp [NoDigit]

/-! ## Reading -/

theorem digitValue_ten (c : UInt8) :
    digitValue 10 c = if isDigit c then some (c.toNat - 48) else none :=
  forall_byte (p := fun c => digitValue 10 c = if isDigit c then some (c.toNat - 48) else none)
    (by decide +kernel) c

theorem isSkipped_of_isDigit {c : UInt8} (digit : isDigit c = true) : isSkipped c = false := by
  simp only [isDigit, isSkipped, isBlank, Bool.and_eq_true, decide_eq_true_eq, UInt8.le_iff_toNat_le,
    Bool.or_eq_false_iff, Bool.and_eq_false_iff, decide_eq_false_iff_not, beq_eq_false_iff_ne,
    ne_eq, ← UInt8.toNat_inj, UInt8.reduceToNat] at digit ⊢
  omega

theorem skipHexMark_ten (p : List UInt8) : skipHexMark 10 p = p := by
  unfold skipHexMark
  split
  · exact if_neg fun both => absurd both.1 (by decide)
  · rfl

theorem ulongOf_false_le (value : Nat) : ulongOf false value ≤ value := by
  unfold ulongOf
  split
  · omega
  · exact le_rfl

/-- In base ten, where nothing is skipped, the digits in front are what is read. -/
theorem strtoul_ten {p : List UInt8} (plain : ∀ c ∈ p.head?, isSkipped c = false) :
    strtoul 10 p = if p.takeWhile isDigit = [] then none
      else some (ulongOf false (digitsValue 10 (p.takeWhile isDigit)), p.dropWhile isDigit) := by
  have digits : (fun c => (digitValue 10 c).isSome) = isDigit := by
    funext c
    rw [digitValue_ten]
    cases isDigit c <;> rfl
  have started : skipSign (p.dropWhile isBlank) = (false, p) := by
    cases p with
    | nil => rfl
    | cons c rest =>
      have skipped := plain c (by simp)
      simp only [isSkipped, Bool.or_eq_false_iff, beq_eq_false_iff_ne] at skipped
      rw [dropWhile_cons_of_neg (by simp [skipped.1.1]), skipSign]
      · exact fun p same => skipped.1.2 (cons.inj same).1
      · exact fun p same => skipped.2 (cons.inj same).1
  simp only [strtoul, started, skipHexMark_ten, digits]

theorem split_digits (decimal : ∀ d ∈ digits, isDigit d = true) (over' : NoDigit text) :
    (digits ++ text).takeWhile isDigit = digits ∧ (digits ++ text).dropWhile isDigit = text := by
  cases text with
  | nil =>
    rw [append_nil]
    exact ⟨takeWhile_eq_self_iff.mpr decimal, dropWhile_eq_nil_iff.mpr decimal⟩
  | cons c rest => exact takeWhile_stop decimal (noDigit_cons.mp over') rest

/-- Digits in front of a text that does not go on with one are read as their number. -/
theorem strtoul_digits (some' : digits ≠ []) (decimal : ∀ d ∈ digits, isDigit d = true)
    (small : digitsValue 10 digits ≤ ulongMax) (over' : NoDigit text) :
    strtoul 10 (digits ++ text) = some (digitsValue 10 digits, text) := by
  obtain ⟨taken, left⟩ := split_digits decimal over'
  have plain : ∀ c ∈ (digits ++ text).head?, isSkipped c = false := by
    obtain ⟨d, rest, rfl⟩ := exists_cons_of_ne_nil some'
    intro c first
    obtain rfl : d = c := by simpa using first
    exact isSkipped_of_isDigit (decimal d mem_cons_self)
  rw [strtoul_ten plain, taken, left, if_neg some', ulongOf, if_neg (Nat.not_lt.mpr small),
    if_neg Bool.false_ne_true]

/-! ## The value of a digit string -/

theorem digitsValue_concat (digits : List UInt8) {d : UInt8} (digit : isDigit d = true) :
    digitsValue 10 (digits ++ [d]) = digitsValue 10 digits * 10 + (d.toNat - 48) := by
  simp [digitsValue, digitValue_ten, digit]

/-- A string of `n` digits stands for a number below `10 ^ n`. -/
theorem digitsValue_lt (decimal : ∀ d ∈ digits, isDigit d = true) :
    digitsValue 10 digits < 10 ^ digits.length := by
  induction digits using reverseRecOn with
  | nil => simp [digitsValue]
  | append_singleton digits d ih =>
    have digit : isDigit d = true := decimal d (by simp)
    have below := ih fun e inside => decimal e (by simp [inside])
    have bound : d.toNat - 48 < 10 := by
      simp only [isDigit, Bool.and_eq_true, decide_eq_true_eq, UInt8.le_iff_toNat_le,
        UInt8.reduceToNat] at digit
      omega
    rw [digitsValue_concat _ digit, length_append, length_singleton, Nat.pow_succ]
    omega

theorem digitsValue_append (front : List UInt8) (decimal : ∀ d ∈ digits, isDigit d = true) :
    digitsValue 10 (front ++ digits) =
      digitsValue 10 front * 10 ^ digits.length + digitsValue 10 digits := by
  induction digits using reverseRecOn with
  | nil => simp [digitsValue]
  | append_singleton digits d ih =>
    have digit : isDigit d = true := decimal d (by simp)
    have before := ih fun e inside => decimal e (by simp [inside])
    rw [← append_assoc, digitsValue_concat _ digit, digitsValue_concat _ digit, before,
      length_append, length_singleton, Nat.pow_succ]
    ring

theorem digitsValue_eq_zero_iff (decimal : ∀ d ∈ digits, isDigit d = true) :
    digitsValue 10 digits = 0 ↔ ∀ d ∈ digits, d = 48 := by
  have zero : ∀ d : UInt8, isDigit d = true → (d.toNat - 48 = 0 ↔ d = 48) :=
    forall_byte (by decide +kernel)
  induction digits using reverseRecOn with
  | nil => simp [digitsValue]
  | append_singleton digits d ih =>
    have digit : isDigit d = true := decimal d (by simp)
    have before : digitsValue 10 digits = 0 ↔ ∀ d ∈ digits, d = 48 :=
      ih fun e inside => decimal e (by simp [inside])
    rw [digitsValue_concat _ digit, forall_mem_append, forall_mem_singleton, ← zero d digit,
      ← before]
    omega

theorem isDigit_of_mem_zeros {n : Nat} {d : UInt8} (zero : d ∈ List.replicate n 48) :
    isDigit d = true := by
  rw [eq_of_mem_replicate zero]
  rfl

theorem digitsValue_zeros (n : Nat) : digitsValue 10 (List.replicate n 48) = 0 :=
  (digitsValue_eq_zero_iff fun _ => isDigit_of_mem_zeros).mpr fun _ => eq_of_mem_replicate

/-! ## Writing -/

/-- `%u`: the decimal digits of a number. -/
def decimalText (n : Nat) : List UInt8 := (Nat.toDigits 10 n).map fun c => c.toNat.toUInt8

theorem decimalText_ten_le {n : Nat} (large : 10 ≤ n) :
    decimalText n = decimalText (n / 10) ++ [(48 + n % 10).toUInt8] := by
  have digit : ∀ d < 10, (Nat.digitChar d).toNat.toUInt8 = (48 + d).toUInt8 := by decide
  rw [decimalText, Nat.toDigits_of_base_le (by decide) large, map_append, ← decimalText,
    map_singleton, digit _ (Nat.mod_lt _ (by decide))]

theorem decimalText_lt_ten {n : Nat} (small : n < 10) : decimalText n = [(48 + n).toUInt8] := by
  have digit : ∀ d < 10, (Nat.digitChar d).toNat.toUInt8 = (48 + d).toUInt8 := by decide
  rw [decimalText, Nat.toDigits_of_lt_base small, map_singleton, digit n small]

theorem digit_of_lt {d : Nat} (small : d < 10) : isDigit (48 + d).toUInt8 = true ∧
    ((48 + d).toUInt8).toNat - 48 = d := by
  have table : ∀ d < 10, isDigit (48 + d).toUInt8 = true ∧ ((48 + d).toUInt8).toNat - 48 = d := by
    decide
  exact table d small

/-- The text of a number consists of digits, is not empty and stands for the number. -/
theorem decimalText_spec (n : Nat) : (∀ d ∈ decimalText n, isDigit d = true) ∧
    decimalText n ≠ [] ∧ digitsValue 10 (decimalText n) = n := by
  induction n using Nat.strongRecOn with
  | ind n ih =>
    by_cases small : n < 10
    · obtain ⟨digit, value⟩ := digit_of_lt small
      have alone := digitsValue_concat [] digit
      rw [decimalText_lt_ten small]
      refine ⟨fun d inside => by rw [mem_singleton.mp inside]; exact digit, by simp, ?_⟩
      rw [← nil_append [_], alone, value]
      exact Nat.zero_add n
    · obtain ⟨digits, -, front⟩ := ih (n / 10) (by omega)
      obtain ⟨digit, value⟩ := digit_of_lt (Nat.mod_lt n (show 10 > 0 by decide))
      rw [decimalText_ten_le (Nat.not_lt.mp small)]
      refine ⟨?_, by simp, ?_⟩
      · exact forall_mem_append.mpr ⟨digits, forall_mem_singleton.mpr digit⟩
      · rw [digitsValue_concat _ digit, front, value]
        omega

/-- `%0Nu`: the digits of a number, with zeros in front up to the width. -/
def numberText (width n : Nat) : List UInt8 := (decimalText n).leftpad width 48

theorem numberText_digits (width n : Nat) : ∀ d ∈ numberText width n, isDigit d = true :=
  forall_mem_append.mpr ⟨fun _ => isDigit_of_mem_zeros, (decimalText_spec n).1⟩

theorem numberText_value (width n : Nat) : digitsValue 10 (numberText width n) = n := by
  obtain ⟨digits, -, value⟩ := decimalText_spec n
  rw [numberText, leftpad, digitsValue_append _ digits, digitsValue_zeros, Nat.zero_mul,
    Nat.zero_add, value]

theorem numberText_ne_nil (width n : Nat) : numberText width n ≠ [] :=
  append_ne_nil_of_right_ne_nil _ (decimalText_spec n).2.1

theorem length_decimalText {width n : Nat} (positive : 0 < width) (fits : n < 10 ^ width) :
    (decimalText n).length ≤ width := by
  rw [decimalText, length_map, Nat.length_toDigits_le_iff (by decide) positive]
  exact fits

/-- A number that fits the width takes exactly the width. -/
theorem numberText_length {width n : Nat} (positive : 0 < width) (fits : n < 10 ^ width) :
    (numberText width n).length = width := by
  have short := length_decimalText positive fits
  rw [numberText, leftpad, length_append, length_replicate]
  omega

/-- A number that was written is read back. -/
theorem strtoul_numberText (width n : Nat) (small : n ≤ ulongMax) (over' : NoDigit text) :
    strtoul 10 (numberText width n ++ text) = some (n, text) := by
  have read := strtoul_digits (numberText_ne_nil width n) (numberText_digits width n)
    (by rw [numberText_value]; exact small) over'
  rwa [numberText_value] at read

end Omi.Base
