import Omi.Base.Datetime

/-!
# Datetimes of WS-Management

`ParseWSManDatetime` and `FormatWSManDatetime`: `xs:dateTime`, `xs:date` and `xs:time`
for timestamps and `xs:duration` for intervals. A value in range is read back from the
text that is written for it.

A text is the list of characters from the current pointer up to the terminator. Where
the source compares the distance that `strtoul` went with a width, the lengths of the
lists are compared.
-/

namespace Omi.Base

open List Option Xml

/-- `_ParseNumber`: `none` where there is no digit. -/
def parseNumber (p : List UInt8) : Option (Nat × List UInt8) := strtoul 10 p

/-- `_ParseDecimalPart`: microseconds from the first six characters of the number, filled up
with zeros. Without a digit nothing is read. -/
def parseDecimalPart (p : List UInt8) : Nat × List UInt8 :=
  match strtoul 10 p with
  | none => (0, p)
  | some (_, rest) =>
    let digits := (p.take (p.length - rest.length)).take 6
    let buf := digits ++ List.replicate (6 - digits.length) 48
    (((strtoul 10 buf).map Prod.fst).getD 0, rest)

/-- A number of the given width, in `end - p`. -/
def parseWidth (width : Nat) (p : List UInt8) : Option (Nat × List UInt8) :=
  (parseNumber p).filter fun read => p.length - read.2.length == width

/-- `if (*p++ != c) return NULL`. -/
def expect (c : UInt8) : List UInt8 → Option (List UInt8)
  | [] => none
  | d :: p => if d = c then some p else none

/-! ## Timestamps -/

/-- The part of `_ParseWSManUTC` behind the sign. -/
def parseOffset (sign : Int) (p : List UInt8) (x : Timestamp) :
    Option (Timestamp × List UInt8) := do
  let (utcHours, p) ← parseWidth 2 p
  let p ← expect 58 p
  let (utcMinutes, p) ← parseWidth 2 p
  some ({ x with utc := Int32.ofInt (sign * (utcHours * 60 + utcMinutes)) }, p)

/-- `_ParseWSManUTC` where the caller has seen one of its first characters: anything else is
left for the caller. -/
def parseWSManUTC (p : List UInt8) (x : Timestamp) : Option (Timestamp × List UInt8) :=
  match p with
  | 90 :: p => some (x, p)
  | 43 :: p => parseOffset 1 p x
  | 45 :: p => parseOffset (-1) p x
  | p => some (x, p)

/-- `_ParseWSManDate`. -/
def parseWSManDate (p : List UInt8) : Option (Timestamp × List UInt8) := do
  let (year, p) ← parseWidth 4 p
  let p ← expect 45 p
  let (month, p) ← parseWidth 2 p
  let p ← expect 45 p
  let (day, p) ← parseWidth 2 p
  parseWSManUTC p ⟨.ofNat year, .ofNat month, .ofNat day, 0, 0, 0, 0, 0⟩

/-- The fraction of a second, where a point is there. -/
def parseFraction : List UInt8 → Nat × List UInt8
  | 46 :: p => parseDecimalPart p
  | p => (0, p)

/-- `_ParseWSManTime`. -/
def parseWSManTime (p : List UInt8) (x : Timestamp) : Option (Timestamp × List UInt8) := do
  let (hour, p) ← parseWidth 2 p
  let p ← expect 58 p
  let (minute, p) ← parseWidth 2 p
  let p ← expect 58 p
  let (second, p) ← parseWidth 2 p
  let (microseconds, p) := parseFraction p
  parseWSManUTC p { x with
    hour := .ofNat hour, minute := .ofNat minute, second := .ofNat second,
    microseconds := .ofNat microseconds }

/-- The last case of `ParseWSManDatetime`: it tests the text it has come to, and parses the
text from its start. -/
def parseTimeOnly (str p : List UInt8) (x : Timestamp) : Option Datetime :=
  match p with
  | a :: b :: 58 :: _ =>
    if isDigit a && isDigit b then
      match parseWSManTime str x with
      | some (x, []) => some (.timestamp x)
      | _ => none
    else none
  | _ => none

/-! ## Durations -/

/-- The variables of `_ParseWSManDuration`, of type `unsigned long`. -/
structure Duration where
  foundT : Bool := false
  years : UInt64 := 0
  months : UInt64 := 0
  days : UInt64 := 0
  hours : UInt64 := 0
  minutes : UInt64 := 0
  seconds : UInt64 := 0
  microseconds : UInt64 := 0
deriving DecidableEq, Repr

/-- The designators that are followed by nothing else, in front of the `T` and behind it. -/
def Duration.set (d : Duration) (n : UInt64) (c : UInt8) : Option Duration :=
  if d.foundT then
    if c = 72 then some { d with hours := n }
    else if c = 77 then some { d with minutes := n }
    else if c = 83 then some { d with seconds := n }
    else none
  else if c = 89 then some { d with years := n }
  else if c = 77 then some { d with months := n }
  else if c = 68 then some { d with days := n }
  else none

/-- What follows a number: a designator, or behind the `T` a fraction and `S`. -/
def Duration.designator (d : Duration) (n : UInt64) :
    List UInt8 → Option (Duration × List UInt8)
  | [] => none
  | c :: p =>
    if d.foundT ∧ c = 46 then
      match parseDecimalPart p with
      | (microseconds, 83 :: p) =>
        some ({ d with seconds := n, microseconds := .ofNat microseconds }, p)
      | _ => none
    else (d.set n c).map (·, p)

/-- One turn of the loop, at a character that is there. -/
def Duration.step (d : Duration) (c : UInt8) (p : List UInt8) :
    Option (Duration × List UInt8) :=
  if c = 84 then some ({ d with foundT := true }, p)
  else (parseNumber (c :: p)).bind fun read => d.designator (.ofNat read.1) read.2

/-- The loop, with as many turns as there are characters; each turn takes one. -/
def Duration.loop : Nat → Duration → List UInt8 → Option Duration
  | turns + 1, d, c :: p => (d.step c p).bind fun read => loop turns read.1 read.2
  | _, d, _ => some d

/-- The loop from a state on. -/
def Duration.readAll (d : Duration) (p : List UInt8) : Option Duration := loop p.length d p

/-- The normalization behind the loop. -/
def Duration.interval (d : Duration) : Interval :=
  let minutes := d.minutes + d.seconds / 60
  let hours := d.hours + minutes / 60
  let days := d.days + hours / 24 + d.years * 365 + d.years / 4 + d.months * 30 + d.months / 2
  ⟨days.toUInt32, (hours % 24).toUInt32, (minutes % 60).toUInt32, (d.seconds % 60).toUInt32,
    d.microseconds.toUInt32⟩

/-- `_ParseWSManDuration` behind the `P`. -/
def parseWSManDuration (p : List UInt8) : Option Interval :=
  (Duration.readAll {} p).map Duration.interval

/-! ## The two functions -/

/-- `ParseWSManDatetime`. -/
def parseWSManDatetime (str : List UInt8) : Option Datetime :=
  match str with
  | 45 :: _ => none
  | 80 :: p => (parseWSManDuration p).map .interval
  | _ =>
    if 4 ≤ str.length ∧ (str.take 4).all isDigit then
      match parseWSManDate str with
      | none => none
      | some (x, []) => some (.timestamp x)
      | some (x, 84 :: p) =>
        match parseWSManTime p x with
        | none => none
        | some (x, []) => some (.timestamp x)
        | some (x, p) => parseTimeOnly str p x
      | some (x, p) => parseTimeOnly str p x
    else parseTimeOnly str str ⟨0, 0, 0, 0, 0, 0, 0, 0⟩

/-- The zone of a timestamp as `FormatWSManDatetime` writes it. -/
def zoneText (utc : Int32) : List UInt8 :=
  if 0 < utc then
    43 :: numberText 2 (utc / 60).toUInt32.toNat ++ 58 :: numberText 2 (utc % 60).toUInt32.toNat
  else if utc < 0 then
    45 :: numberText 2 (-utc / 60).toUInt32.toNat ++ 58 :: numberText 2 (-utc % 60).toUInt32.toNat
  else [90]

/-- `%uC` for a component that is not zero. -/
def componentText (n : UInt32) (designator : UInt8) : List UInt8 :=
  if n = 0 then [] else decimalText n.toNat ++ [designator]

/-- The seconds of an interval. -/
def secondsText (seconds microseconds : UInt32) : List UInt8 :=
  if seconds ≠ 0 ∧ microseconds ≠ 0 then
    decimalText seconds.toNat ++ 46 :: numberText 6 microseconds.toNat ++ [83]
  else if seconds ≠ 0 then decimalText seconds.toNat ++ [83]
  else if microseconds ≠ 0 then 48 :: 46 :: numberText 6 microseconds.toNat ++ [83]
  else []

/-- `FormatWSManDatetime`. The buffer has room for 63 characters and the terminator. -/
def formatWSManDatetime : Datetime → List UInt8
  | .timestamp t =>
    (numberText 4 t.year.toNat ++ 45 :: numberText 2 t.month.toNat ++ 45 ::
      numberText 2 t.day.toNat ++ 84 :: numberText 2 t.hour.toNat ++ 58 ::
      numberText 2 t.minute.toNat ++ 58 :: numberText 2 t.second.toNat ++
      (if t.microseconds ≠ 0 then 46 :: numberText 6 t.microseconds.toNat else []) ++
      zoneText t.utc).take 63
  | .interval i =>
    (80 :: componentText i.days 68 ++
      (if i.hours ≠ 0 ∨ i.minutes ≠ 0 ∨ i.seconds ≠ 0 ∨ i.microseconds ≠ 0 then [84] else []) ++
      componentText i.hours 72 ++ componentText i.minutes 77 ++
      secondsText i.seconds i.microseconds).take 63

/-! ## Every turn of the loop takes a character -/

theorem parseDecimalPart_length (p : List UInt8) : (parseDecimalPart p).2.length ≤ p.length := by
  unfold parseDecimalPart
  split
  · exact le_rfl
  next found => exact (strtoul_suffix found).length_le

variable {d d' : Duration} {p rest text digits : List UInt8}

theorem Duration.designator_length {n : UInt64} (read : d.designator n p = some (d', rest)) :
    rest.length < p.length := by
  cases p with
  | nil => cases read
  | cons c p =>
    rw [designator] at read
    split at read
    · have shorter := parseDecimalPart_length p
      split at read
      · rename_i fraction
        cases read
        rw [fraction] at shorter
        simp only [length_cons] at shorter ⊢
        omega
      · cases read
    · obtain ⟨d'', -, same⟩ := map_eq_some_iff.mp read
      cases same
      exact Nat.lt_succ_self _

theorem Duration.step_length {c : UInt8} (read : d.step c p = some (d', rest)) :
    rest.length ≤ p.length := by
  unfold step at read
  split at read
  · cases read
    exact le_rfl
  · obtain ⟨⟨n, text⟩, number, designated⟩ := bind_eq_some_iff.mp read
    have shorter := (strtoul_suffix number).length_le
    have further := designator_length designated
    simp only [length_cons] at shorter further
    omega

/-- As many turns as there are characters are enough. -/
theorem Duration.loop_eq_readAll {turns : Nat} (d : Duration) (enough : p.length ≤ turns) :
    loop turns d p = readAll d p := by
  induction turns using Nat.strongRecOn generalizing d p with
  | ind turns ih =>
    cases p with
    | nil => cases turns <;> rfl
    | cons c p =>
      cases turns with
      | zero => exact absurd enough (by simp)
      | succ turns =>
        unfold readAll
        rw [length_cons] at enough ⊢
        unfold loop
        refine Option.bind_congr fun read found => ?_
        have shorter := step_length found
        rw [ih turns (by omega) read.1 (by omega)]
        by_cases same : p.length = turns
        · rw [same, ih turns (by omega) read.1 (by omega)]
        · rw [ih p.length (by omega) read.1 shorter]

@[simp] theorem Duration.readAll_nil : readAll d [] = some d := rfl

theorem Duration.readAll_cons (c : UInt8) :
    readAll d (c :: p) = (d.step c p).bind fun read => readAll read.1 read.2 := by
  refine Option.bind_congr fun read found => ?_
  exact loop_eq_readAll read.1 (step_length found)

/-! ## A timestamp is read back -/

theorem parseWidth_numberText {width n : Nat} (positive : 0 < width) (narrow : width ≤ 9)
    (fits : n < 10 ^ width) (over' : NoDigit text) :
    parseWidth width (numberText width n ++ text) = some (n, text) := by
  have bound : 10 ^ width ≤ 10 ^ 9 := Nat.pow_le_pow_right (by decide) narrow
  have read := strtoul_numberText width n (by rw [ulongMax]; omega) over'
  simp [parseWidth, parseNumber, read, numberText_length positive fits]

/-- A number of fixed width in front of a character that is no digit. -/
theorem parseWidth_before {width n : Nat} (c : UInt8) (fits : n < 10 ^ width)
    (sized : 0 < width ∧ width ≤ 9) (notDigit : isDigit c = false) (rest : List UInt8) :
    parseWidth width (numberText width n ++ c :: rest) = some (n, c :: rest) :=
  parseWidth_numberText sized.1 sized.2 fits (noDigit_cons.mpr notDigit)

theorem expect_self (c : UInt8) : expect c (c :: rest) = some rest :=
  if_pos rfl

theorem parseDecimalPart_numberText {n : Nat} (fits : n < 10 ^ 6) (over' : NoDigit text) :
    parseDecimalPart (numberText 6 n ++ text) = (n, text) := by
  have length := numberText_length (by decide) fits
  have read := strtoul_numberText 6 n (by rw [ulongMax]; omega) over'
  have again := strtoul_numberText 6 n (by rw [ulongMax]; omega) noDigit_nil
  rw [append_nil] at again
  simp [parseDecimalPart, read, again, length, take_of_length_le]

theorem toUInt32_toNat {y : Int32} {n : Nat} (value : y.toInt = n) : y.toUInt32.toNat = n := by
  have positive : 0 ≤ y := Int32.le_iff_toInt_le.mpr (by rw [value]; exact Int.natCast_nonneg n)
  rw [Int32.toNat_toUInt32_of_le positive, Int32.toNatClampNeg, value, Int.toNat_natCast]

/-- Hours and minutes of an offset that is not negative. -/
theorem offset_parts {utc : Int32} {n : Nat} (value : utc.toInt = n) (small : n < 10 ^ 3) :
    (utc / 60).toUInt32.toNat = n / 60 ∧ (utc % 60).toUInt32.toNat = n % 60 := by
  constructor
  · apply toUInt32_toNat
    have quotient : (n : Int).tdiv (Int32.toInt 60) = (n / 60 : Nat) := rfl
    rw [Int32.toInt_div, value, quotient]
    exact Int.bmod_eq_of_le (by omega) (by omega)
  · apply toUInt32_toNat
    rw [Int32.toInt_mod, value]
    rfl

theorem parseOffset_numberText {hours minutes : Nat} (x : Timestamp) (sign : Int)
    (hfits : hours < 100) (mfits : minutes < 100) :
    parseOffset sign (numberText 2 hours ++ 58 :: numberText 2 minutes) x =
      some ({ x with utc := Int32.ofInt (sign * (hours * 60 + minutes)) }, []) := by
  have colon : NoDigit (58 :: numberText 2 minutes) := noDigit_cons.mpr (by decide)
  have first := parseWidth_numberText (by decide) (by decide) (show hours < 10 ^ 2 from hfits) colon
  have second := parseWidth_numberText (by decide) (by decide)
    (show minutes < 10 ^ 2 from mfits) noDigit_nil
  rw [append_nil] at second
  simp [parseOffset, first, second, expect]

/-- The zone that is written gives the offset back, in either direction. -/
theorem parseWSManUTC_zoneText {x : Timestamp} {utc : Int32} (none' : x.utc = 0)
    (small : utc.toInt.natAbs < 10 ^ 3) :
    parseWSManUTC (zoneText utc) x = some ({ x with utc := utc }, []) := by
  have whole : ∀ n : Nat, ((n / 60 : Nat) : Int) * 60 + ((n % 60 : Nat) : Int) = n := by omega
  unfold zoneText
  split
  next ahead =>
    have value : utc.toInt = utc.toInt.natAbs := by
      have := Int32.lt_iff_toInt_lt.mp ahead
      rw [Int32.toInt_zero] at this
      omega
    obtain ⟨hours, minutes⟩ := offset_parts value small
    rw [hours, minutes, cons_append, parseWSManUTC,
      parseOffset_numberText x 1 (by omega) (by omega), whole, Int.one_mul, ← value,
      Int32.ofInt_toInt]
  next notAhead =>
    split
    next behind =>
      have negative := Int32.lt_iff_toInt_lt.mp behind
      rw [Int32.toInt_zero] at negative
      have value : (-utc).toInt = utc.toInt.natAbs := by
        rw [Int32.toInt_neg]
        exact (Int.bmod_eq_of_le (by omega) (by omega)).trans (by omega)
      obtain ⟨hours, minutes⟩ := offset_parts value small
      have back : (-1 : Int) * (utc.toInt.natAbs : Int) = utc.toInt := by omega
      rw [hours, minutes, cons_append, parseWSManUTC,
        parseOffset_numberText x (-1) (by omega) (by omega), whole, back, Int32.ofInt_toInt]
    next notBehind =>
      have zero : utc = 0 := Int32.le_antisymm (Int32.not_lt.mp notAhead) (Int32.not_lt.mp notBehind)
      rw [zero, ← none', parseWSManUTC]

/-- What a zone begins with is neither a digit nor a point. -/
theorem zoneText_head (utc : Int32) : ∃ c rest, zoneText utc = c :: rest ∧
    isDigit c = false ∧ c ≠ 46 := by
  unfold zoneText
  split
  · exact ⟨43, _, rfl, by decide, by decide⟩
  · split
    · exact ⟨45, _, rfl, by decide, by decide⟩
    · exact ⟨90, _, rfl, by decide, by decide⟩

/-- The fraction of a second as it is written. -/
theorem parseFraction_text {us : UInt32} (utc : Int32) (fits : us.toNat < 10 ^ 6) :
    let text := (if us ≠ 0 then 46 :: numberText 6 us.toNat else []) ++ zoneText utc
    parseFraction text = (us.toNat, zoneText utc) ∧ NoDigit text := by
  obtain ⟨c, rest, zone, notDigit, notPoint⟩ := zoneText_head utc
  by_cases zero : us = 0
  · simp only [zero, ne_eq, not_true_eq_false, if_false, nil_append, zone]
    refine ⟨?_, noDigit_cons.mpr notDigit⟩
    unfold parseFraction
    split
    next same => exact absurd (cons.inj same).1 notPoint
    · rfl
  · simp only [ne_eq, zero, not_false_eq_true, if_true]
    refine ⟨?_, noDigit_cons.mpr (by decide)⟩
    rw [cons_append, parseFraction, zone]
    exact parseDecimalPart_numberText fits (noDigit_cons.mpr notDigit)

theorem parseWSManTime_text {t : Timestamp} (x : Timestamp) (inRange : t.InRange)
    (none' : x.utc = 0) :
    parseWSManTime (numberText 2 t.hour.toNat ++ 58 :: (numberText 2 t.minute.toNat ++ 58 ::
        (numberText 2 t.second.toNat ++ ((if t.microseconds ≠ 0 then
          46 :: numberText 6 t.microseconds.toNat else []) ++ zoneText t.utc)))) x =
      some (⟨x.year, x.month, x.day, t.hour, t.minute, t.second, t.microseconds, t.utc⟩, []) := by
  obtain ⟨-, -, -, hour, minute, second, microseconds, utc⟩ := inRange
  obtain ⟨fraction, next'⟩ := parseFraction_text t.utc microseconds
  generalize (if t.microseconds ≠ 0 then 46 :: numberText 6 t.microseconds.toNat
    else []) ++ zoneText t.utc = rest at fraction next' ⊢
  have seconds := parseWidth_numberText (by decide) (by decide) second next'
  simp only [parseWSManTime, parseWidth_before 58 hour (by decide) (by decide),
    parseWidth_before 58 minute (by decide) (by decide), seconds, expect_self, fraction,
    bind_eq_bind, bind_some, UInt32.ofNat_toNat]
  exact parseWSManUTC_zoneText none' utc

theorem parseWSManDate_text {t : Timestamp} (inRange : t.InRange) (rest : List UInt8) :
    parseWSManDate (numberText 4 t.year.toNat ++ 45 :: (numberText 2 t.month.toNat ++ 45 ::
        (numberText 2 t.day.toNat ++ 84 :: rest))) =
      some (⟨t.year, t.month, t.day, 0, 0, 0, 0, 0⟩, 84 :: rest) := by
  simp only [parseWSManDate, parseWidth_before 45 inRange.year (by decide) (by decide),
    parseWidth_before 45 inRange.month (by decide) (by decide),
    parseWidth_before 84 inRange.day (by decide) (by decide), expect_self, bind_eq_bind,
    bind_some, UInt32.ofNat_toNat]
  rfl

/-- The words that are written have at most ten digits, so the buffer is never too small. -/
theorem decimalText_length_le (x : UInt32) : (decimalText x.toNat).length ≤ 10 :=
  length_decimalText (by decide) (x.toNat_lt.trans (by decide))

theorem numberText_length_le (width : Nat) (x : UInt32) (narrow : width ≤ 10) :
    (numberText width x.toNat).length ≤ 10 := by
  have short := decimalText_length_le x
  rw [numberText, leftpad, length_append, length_replicate]
  omega

theorem zoneText_length (utc : Int32) : (zoneText utc).length ≤ 22 := by
  have length := fun y : UInt32 => numberText_length_le 2 y (by decide)
  unfold zoneText
  split
  · have hours := length (utc / 60).toUInt32
    have minutes := length (utc % 60).toUInt32
    simp only [length_append, length_cons]
    omega
  · split
    · have hours := length (-utc / 60).toUInt32
      have minutes := length (-utc % 60).toUInt32
      simp only [length_append, length_cons]
      omega
    · decide

/-- A date and a time behind it. -/
theorem parseWSManDatetime_of_parts {str : List UInt8} {x y : Timestamp} (long : 4 ≤ str.length)
    (digits : (str.take 4).all isDigit = true) (date : parseWSManDate str = some (x, 84 :: p))
    (time : parseWSManTime p x = some (y, [])) : parseWSManDatetime str = some (.timestamp y) := by
  obtain ⟨c, rest, rfl⟩ := exists_cons_of_ne_nil
    (ne_nil_of_length_pos (Nat.lt_of_lt_of_le (by decide : 0 < 4) long))
  have first : isDigit c = true := all_eq_true.mp digits c (by simp)
  unfold parseWSManDatetime
  split
  next same => exact absurd first (by rw [(cons.inj same).1]; decide)
  next same => exact absurd first (by rw [(cons.inj same).1]; decide)
  · rw [if_pos ⟨long, digits⟩, date]
    simp only [time]

theorem parseWSManDatetime_timestamp {t : Timestamp} (inRange : t.InRange) :
    parseWSManDatetime (formatWSManDatetime (.timestamp t)) = some (.timestamp t) := by
  have date := parseWSManDate_text inRange
  have time := parseWSManTime_text ⟨t.year, t.month, t.day, 0, 0, 0, 0, 0⟩ inRange rfl
  have zone := zoneText_length t.utc
  have fraction : (if t.microseconds ≠ 0 then 46 :: numberText 6 t.microseconds.toNat
      else []).length ≤ 11 := by
    split
    · exact Nat.succ_le_succ (numberText_length_le 6 t.microseconds (by decide))
    · exact Nat.zero_le _
  have year := numberText_length (by decide) inRange.year
  have digits := numberText_digits 4 t.year.toNat
  rw [formatWSManDatetime, take_of_length_le]
  · simp only [append_assoc, cons_append]
    refine parseWSManDatetime_of_parts ?_ ?_ (date _) time
    · rw [length_append, year]
      omega
    · rw [take_append_of_le_length year.ge, take_of_length_le year.le]
      exact all_eq_true.mpr digits
  · have lengths := And.intro (numberText_length (by decide) inRange.month)
      (And.intro (numberText_length (by decide) inRange.day)
        (And.intro (numberText_length (by decide) inRange.hour)
          (And.intro (numberText_length (by decide) inRange.minute)
            (numberText_length (by decide) inRange.second))))
    simp only [length_append, length_cons, year, lengths]
    omega

/-! ## An interval is read back -/

/-- A number is taken whole, and what follows it is its designator. -/
theorem Duration.readAll_digits {c : UInt8} (d : Duration) (some' : digits ≠ [])
    (decimal : ∀ x ∈ digits, isDigit x = true) (small : digitsValue 10 digits ≤ ulongMax)
    (over' : isDigit c = false) :
    readAll d (digits ++ c :: rest) =
      (d.designator (.ofNat (digitsValue 10 digits)) (c :: rest)).bind
        fun read => readAll read.1 read.2 := by
  have number := strtoul_digits some' decimal small
    (show NoDigit (c :: rest) from noDigit_cons.mpr over')
  obtain ⟨x, xs, rfl⟩ := exists_cons_of_ne_nil some'
  have notT : x ≠ 84 := fun same =>
    absurd (decimal x mem_cons_self) (by rw [same]; decide)
  rw [cons_append] at number ⊢
  rw [readAll_cons, step, if_neg notT, parseNumber, number]
  rfl

/-- A component that is written: a zero that is left out was zero before. -/
theorem Duration.readAll_componentText {e : Duration} {n : UInt32} {c : UInt8} (rest : List UInt8)
    (assigned : d.set n.toUInt64 c = some e) (same : n = 0 → e = d) (over' : isDigit c = false)
    (notPoint : c ≠ 46) : readAll d (componentText n c ++ rest) = readAll e rest := by
  obtain ⟨digits, some', value⟩ := decimalText_spec n.toNat
  have bound := n.toNat_lt
  unfold componentText
  split
  next zero => rw [same zero, nil_append]
  · rw [append_assoc, singleton_append,
      readAll_digits d some' digits (by rw [value, ulongMax]; omega) over', value, designator,
      if_neg (fun both => notPoint both.2), UInt64.ofNat_uInt32ToNat, assigned]
    rfl

/-- Seconds with a fraction. -/
theorem Duration.readAll_fraction {us : UInt32} (some' : digits ≠ [])
    (decimal : ∀ x ∈ digits, isDigit x = true) (small : digitsValue 10 digits ≤ ulongMax)
    (fits : us.toNat < 10 ^ 6) (time : d.foundT = true) :
    readAll d (digits ++ 46 :: (numberText 6 us.toNat ++ [83])) =
      some { d with seconds := .ofNat (digitsValue 10 digits), microseconds := us.toUInt64 } := by
  have fraction := parseDecimalPart_numberText fits
    (show NoDigit [83] from noDigit_cons.mpr (by decide))
  rw [readAll_digits d some' decimal small (by decide), designator, if_pos ⟨time, rfl⟩, fraction,
    ← UInt64.ofNat_uInt32ToNat]
  rfl

theorem Duration.readAll_secondsText {seconds us : UInt32} (fits : us.toNat < 10 ^ 6)
    (time : d.foundT = true) (none' : d.seconds = 0 ∧ d.microseconds = 0) :
    readAll d (secondsText seconds us) =
      some { d with seconds := seconds.toUInt64, microseconds := us.toUInt64 } := by
  obtain ⟨digits, some', value⟩ := decimalText_spec seconds.toNat
  have bound := seconds.toNat_lt
  unfold secondsText
  split
  · rw [append_assoc, cons_append,
      readAll_fraction some' digits (by rw [value, ulongMax]; omega) fits time, value,
      UInt64.ofNat_uInt32ToNat]
  next notBoth =>
    split
    next some'' =>
      obtain rfl : us = 0 := by_contra fun more => notBoth ⟨some'', more⟩
      have assigned : d.set seconds.toUInt64 83 = some { d with seconds := seconds.toUInt64 } := by
        simp [set, time]
      have read := readAll_componentText [] assigned (fun zero => absurd zero some'') (by decide)
        (by decide)
      rw [componentText, if_neg some'', append_nil, readAll_nil] at read
      rw [read]
      exact congrArg (fun us => some { d with seconds := seconds.toUInt64, microseconds := us })
        none'.2
    next zero =>
      obtain rfl : seconds = 0 := not_not.mp zero
      split
      · have decimal : ∀ x ∈ [(48 : UInt8)], isDigit x = true :=
          forall_mem_singleton.mpr rfl
        exact readAll_fraction (cons_ne_nil 48 []) decimal (by decide) fits time
      next zero' =>
        obtain rfl : us = 0 := not_not.mp zero'
        obtain ⟨foundT, years, months, days, hours, minutes, _, _⟩ := d
        obtain ⟨rfl, rfl⟩ := none'
        rfl

/-- The state of the loop behind the text of an interval. -/
def Duration.ofInterval (i : Interval) (foundT : Bool) : Duration :=
  ⟨foundT, 0, 0, i.days.toUInt64, i.hours.toUInt64, i.minutes.toUInt64, i.seconds.toUInt64,
    i.microseconds.toUInt64⟩

/-- An interval in range is not changed by the normalization. -/
theorem Duration.interval_ofInterval {i : Interval} (inRange : i.InRange) (foundT : Bool) :
    (ofInterval i foundT).interval = i := by
  obtain ⟨hours, minutes, seconds, microseconds⟩ := inRange
  have days := i.days.toNat_lt
  ext <;>
  · simp only [ofInterval, interval, UInt64.toNat_toUInt32, UInt64.toNat_mod, UInt64.toNat_add,
      UInt64.toNat_div, UInt64.toNat_mul, UInt32.toNat_toUInt64, UInt64.reduceToNat]
    omega

/-- The components of the time, behind the `T`. -/
theorem Duration.readAll_timeText {i : Interval} (fits : i.microseconds.toNat < 10 ^ 6) :
    readAll ⟨true, 0, 0, i.days.toUInt64, 0, 0, 0, 0⟩ (componentText i.hours 72 ++
      (componentText i.minutes 77 ++ secondsText i.seconds i.microseconds)) =
      some (ofInterval i true) := by
  rw [readAll_componentText (e := ⟨true, 0, 0, i.days.toUInt64, i.hours.toUInt64, 0, 0, 0⟩) _ rfl
      (fun zero => by rw [zero]; rfl) (by decide) (by decide),
    readAll_componentText
      (e := ⟨true, 0, 0, i.days.toUInt64, i.hours.toUInt64, i.minutes.toUInt64, 0, 0⟩) _ rfl
      (fun zero => by rw [zero]; rfl) (by decide) (by decide),
    readAll_secondsText fits rfl ⟨rfl, rfl⟩]
  rfl

theorem parseWSManDatetime_interval {i : Interval} (inRange : i.InRange) :
    parseWSManDatetime (formatWSManDatetime (.interval i)) = some (.interval i) := by
  have time := Duration.readAll_timeText (i := i) inRange.microseconds
  rw [formatWSManDatetime, take_of_length_le]
  · simp only [append_assoc, cons_append]
    rw [parseWSManDatetime, parseWSManDuration,
      Duration.readAll_componentText (e := ⟨false, 0, 0, i.days.toUInt64, 0, 0, 0, 0⟩) _ rfl
      (fun zero => by rw [zero]; rfl) (by decide) (by decide)]
    split
    · rw [singleton_append, Duration.readAll_cons]
      change ((Duration.readAll ⟨true, 0, 0, i.days.toUInt64, 0, 0, 0, 0⟩ _).map _).map _ = _
      rw [time, map_some, Duration.interval_ofInterval inRange, map_some]
    next none' =>
      simp only [not_or, not_not] at none'
      obtain ⟨hours, minutes, seconds, microseconds⟩ := none'
      have shape := Duration.interval_ofInterval inRange false
      simp only [Duration.ofInterval, hours, minutes, seconds, microseconds] at shape
      simp only [hours, minutes, seconds, microseconds, componentText, secondsText]
      exact congrArg (fun i => some (Datetime.interval i)) shape
  · have component : ∀ (n : UInt32) (c : UInt8), (componentText n c).length ≤ 11 := by
      intro n c
      have short := decimalText_length_le n
      unfold componentText
      split
      · exact Nat.zero_le _
      · rw [length_append]
        exact Nat.succ_le_succ short
    have seconds : (secondsText i.seconds i.microseconds).length ≤ 22 := by
      have short := decimalText_length_le i.seconds
      have fraction := numberText_length_le 6 i.microseconds (by decide)
      unfold secondsText
      split_ifs <;> simp only [length_append, length_cons, length_nil] <;> omega
    have days := component i.days 68
    have hours := component i.hours 72
    have minutes := component i.minutes 77
    simp only [length_append, length_cons]
    split <;> simp only [length_cons, length_nil] <;> omega

/-! ## The round trip -/

/-- The fields of a datetime are in range. -/
def Datetime.InRange : Datetime → Prop
  | .timestamp t => t.InRange
  | .interval i => i.InRange

/-- What is written for a datetime in range is read back as it. -/
theorem parseWSManDatetime_formatWSManDatetime (x : Datetime) (inRange : x.InRange) :
    parseWSManDatetime (formatWSManDatetime x) = some x := by
  cases x with
  | timestamp t => exact parseWSManDatetime_timestamp inRange
  | interval i => exact parseWSManDatetime_interval inRange

/-- Half past noon at the end of a year, and a fraction of a second. -/
theorem parseWSManDatetime_format_noon :
    parseWSManDatetime (formatWSManDatetime
        (.timestamp ⟨2010, 12, 31, 12, 30, 3, 123456, -360⟩)) =
      some (.timestamp ⟨2010, 12, 31, 12, 30, 3, 123456, -360⟩) ∧
    parseWSManDatetime (formatWSManDatetime (.interval ⟨0, 0, 0, 0, 5⟩)) =
      some (.interval ⟨0, 0, 0, 0, 5⟩) :=
  ⟨parseWSManDatetime_formatWSManDatetime (.timestamp ⟨2010, 12, 31, 12, 30, 3, 123456, -360⟩)
      ⟨by decide, by decide, by decide, by decide, by decide, by decide, by decide, by decide⟩,
    parseWSManDatetime_formatWSManDatetime (.interval ⟨0, 0, 0, 0, 5⟩)
      ⟨by decide, by decide, by decide, by decide⟩⟩

end Omi.Base
