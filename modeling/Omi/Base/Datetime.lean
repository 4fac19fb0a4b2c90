import Omi.Base.Numbers

/-!
# CIM datetimes

`MI_Datetime` with its conversions between an interval and a count of microseconds
and to and from the text of CIM, whose fields stand in fixed columns. The fields are
the machine words of the source, so its arithmetic wraps where the source's does.
-/

namespace Omi.Base

open List Option Xml

/-- `MI_Timestamp`: `YYYYMMDDHHMMSS.MMMMMMSUTC`, the offset from UTC in minutes. -/
@[ext] structure Timestamp where
  year : UInt32
  month : UInt32
  day : UInt32
  hour : UInt32
  minute : UInt32
  second : UInt32
  microseconds : UInt32
  utc : Int32
deriving DecidableEq, Repr

/-- `MI_Interval`: `DDDDDDDDHHMMSS.MMMMMM:000`. -/
@[ext] structure Interval where
  days : UInt32
  hours : UInt32
  minutes : UInt32
  seconds : UInt32
  microseconds : UInt32
deriving DecidableEq, Repr

/-- `MI_Datetime`: the flag `isTimestamp` and the union it selects from. -/
inductive Datetime where
  | timestamp (t : Timestamp)
  | interval (i : Interval)
deriving DecidableEq, Repr

/-- The fields fit the columns of the CIM text. -/
structure Timestamp.InRange (t : Timestamp) : Prop where
  year : t.year.toNat < 10 ^ 4
  month : t.month.toNat < 10 ^ 2
  day : t.day.toNat < 10 ^ 2
  hour : t.hour.toNat < 10 ^ 2
  minute : t.minute.toNat < 10 ^ 2
  second : t.second.toNat < 10 ^ 2
  microseconds : t.microseconds.toNat < 10 ^ 6
  utc : t.utc.toInt.natAbs < 10 ^ 3

/-- Each field below the days stays under the unit of the next; the days are free. -/
structure Interval.InRange (i : Interval) : Prop where
  hours : i.hours.toNat < 24
  minutes : i.minutes.toNat < 60
  seconds : i.seconds.toNat < 60
  microseconds : i.microseconds.toNat < 10 ^ 6

/-! ## Microseconds -/

/-- The length of an interval in microseconds. -/
def Interval.usec (i : Interval) : Nat :=
  (((i.days.toNat * 24 + i.hours.toNat) * 60 + i.minutes.toNat) * 60 + i.seconds.toNat) * 10 ^ 6 +
    i.microseconds.toNat

/-- `DatetimeToUsec`: the products are 32-bit, the tally is 64-bit. -/
def datetimeToUsec : Datetime → Option UInt64
  | .timestamp _ => none
  | .interval x =>
    let tally := x.seconds.toUInt64 + (x.minutes * 60).toUInt64 + (x.hours * 60 * 60).toUInt64 +
      (x.days * 24 * 60 * 60).toUInt64
    some (x.microseconds.toUInt64 + tally * 1000000)

/-- `UsecToDatetime`. -/
def usecToDatetime (timeAsUsec : UInt64) : Datetime :=
  let seconds := timeAsUsec / 1000000
  let minutes := seconds / 60
  let hours := minutes / 60
  let days := hours / 24
  .interval
    { days := days.toUInt32
      hours := (hours % 24).toUInt32
      minutes := (minutes % 60).toUInt32
      seconds := (seconds % 60).toUInt32
      microseconds := (timeAsUsec % 1000000).toUInt32 }

/-- What is computed is the length of the interval, but for the seconds of the days, which
are taken modulo `2 ^ 32`. -/
theorem datetimeToUsec_value {i : Interval} (inRange : i.InRange) :
    (datetimeToUsec (.interval i)).map UInt64.toNat =
      some ((i.days.toNat * 86400 % 2 ^ 32 + i.hours.toNat * 3600 + i.minutes.toNat * 60 +
        i.seconds.toNat) * 10 ^ 6 + i.microseconds.toNat) := by
  obtain ⟨hours, minutes, seconds, microseconds⟩ := inRange
  have days : i.days.toNat * 24 % 2 ^ 32 * 60 % 2 ^ 32 * 60 % 2 ^ 32 =
      i.days.toNat * 86400 % 2 ^ 32 := by omega
  have hourSeconds : i.hours.toNat * 60 % 2 ^ 32 * 60 % 2 ^ 32 = i.hours.toNat * 3600 := by omega
  have minuteSeconds : i.minutes.toNat * 60 % 2 ^ 32 = i.minutes.toNat * 60 := by omega
  simp only [datetimeToUsec, map_some, Option.some.injEq, UInt64.toNat_add,
    UInt64.toNat_mul, UInt32.toNat_toUInt64, UInt32.toNat_mul, UInt32.reduceToNat,
    UInt64.reduceToNat, days, hourSeconds, minuteSeconds]
  omega

theorem usecToDatetime_usec (n : UInt64) :
    ∃ i, usecToDatetime n = .interval i ∧ i.InRange ∧ i.usec = n.toNat ∧
      i.days.toNat = n.toNat / 86400000000 := by
  have bound := n.toNat_lt
  refine ⟨_, rfl, ⟨?_, ?_, ?_, ?_⟩, ?_, ?_⟩ <;>
  · simp only [Interval.usec, UInt64.toNat_toUInt32, UInt64.toNat_mod, UInt64.toNat_div,
      UInt64.reduceToNat]
    omega

/-- The seconds of the days have to fit 32 bits: up to there, and no further, an interval is
converted to its length, and a count of microseconds comes back from its interval. -/
theorem datetimeToUsec_exact_iff (i : Interval) (n : UInt64) :
    (i.InRange →
      ((datetimeToUsec (.interval i)).map UInt64.toNat = some i.usec ↔
        i.days.toNat * 86400 < 2 ^ 32)) ∧
    (datetimeToUsec (usecToDatetime n) = some n ↔
      n.toNat / 86400000000 * 86400 < 2 ^ 32) := by
  have exact : ∀ i : Interval, i.InRange →
      ((datetimeToUsec (.interval i)).map UInt64.toNat = some i.usec ↔
        i.days.toNat * 86400 < 2 ^ 32) := by
    intro i inRange
    rw [datetimeToUsec_value inRange, Option.some.injEq, Interval.usec]
    omega
  refine ⟨exact i, ?_⟩
  obtain ⟨i, shape, inRange, length, days⟩ := usecToDatetime_usec n
  rw [shape, ← days, ← exact i inRange, length]
  constructor
  · intro same
    rw [same]
    rfl
  · intro same
    obtain ⟨m, found, equal⟩ := map_eq_some_iff.mp same
    rw [found, UInt64.toNat_inj.mp equal]

/-- A day and a microsecond. -/
theorem datetimeToUsec_exact_day :
    (datetimeToUsec (.interval ⟨1, 0, 0, 0, 1⟩)).map UInt64.toNat = some 86400000001 ∧
    datetimeToUsec (usecToDatetime 86400000001) = some 86400000001 :=
  ⟨((datetimeToUsec_exact_iff ⟨1, 0, 0, 0, 1⟩ 86400000001).1
      (by constructor <;> decide)).mpr (by decide),
    (datetimeToUsec_exact_iff ⟨1, 0, 0, 0, 1⟩ 86400000001).2.mpr (by decide)⟩

/-- `49711` days become less than two hours. -/
theorem datetimeToUsec_wraps :
    datetimeToUsec (.interval ⟨49711, 0, 0, 0, 0⟩) = some 63104000000 ∧
      Interval.usec ⟨49711, 0, 0, 0, 0⟩ = 4295030400000000 := by decide

/-! ## The text of CIM -/

/-- `%0Nd`. -/
def signedText (width : Nat) (i : Int) : List UInt8 :=
  if i < 0 then 45 :: numberText (width - 1) i.natAbs else numberText width i.natAbs

/-- `DatetimeToStr`: the fields of a timestamp are printed as signed numbers. The buffer has
room for 25 characters and the terminator. -/
def datetimeToStr : Datetime → List UInt8
  | .timestamp t =>
    let text := signedText 4 t.year.toInt32.toInt ++ signedText 2 t.month.toInt32.toInt ++
      signedText 2 t.day.toInt32.toInt ++ signedText 2 t.hour.toInt32.toInt ++
      signedText 2 t.minute.toInt32.toInt ++ signedText 2 t.second.toInt32.toInt ++ [46] ++
      signedText 6 t.microseconds.toInt32.toInt ++ [if t.utc < 0 then 45 else 43] ++
      signedText 3 (if t.utc < 0 then -t.utc else t.utc).toInt
    text.take 25
  | .interval i =>
    let text := numberText 8 i.days.toNat ++ numberText 2 i.hours.toNat ++
      numberText 2 i.minutes.toNat ++ numberText 2 i.seconds.toNat ++ [46] ++
      numberText 6 i.microseconds.toNat ++ [58, 48, 48, 48]
    text.take 25

/-- The characters of a field: its offset in the text, and its size. -/
def column (s : List UInt8) (offset size : Nat) : List UInt8 := (s.drop offset).take size

/-- `_StrDatetime_CheckAsterisk_ToU32`: a field that begins with an asterisk has to consist of
them and is zero; any other is what `strtoul` reads, if that takes the whole field. -/
def strDatetimeCheckAsteriskToU32 (s : List UInt8) (offset size : Nat) : Option UInt32 :=
  if 64 ≤ size then none
  else
    let buf := column s offset size
    if buf.head? = some 42 then if buf.all (· == 42) then some 0 else none
    else
      match strtoul 10 buf with
      | none => if buf = [] then some 0 else none
      | some (x, rest) => if rest = [] then some (UInt32.ofNat x) else none

/-- `StrToDatetime`. -/
def strToDatetime (s : List UInt8) : Option Datetime :=
  let field := strDatetimeCheckAsteriskToU32 s
  if s.length ≠ 25 then none
  else if s[21]? = some 43 ∨ s[21]? = some 45 then do
    let year ← field 0 4
    let month ← field 4 2
    let day ← field 6 2
    let hour ← field 8 2
    let minute ← field 10 2
    let second ← field 12 2
    if s[14]? ≠ some 46 then none
    else
      let microseconds ← field 15 6
      let utc ← field 22 3
      some (.timestamp ⟨year, month, day, hour, minute, second, microseconds,
        if s[21]? = some 43 then utc.toInt32 else -utc.toInt32⟩)
  else if s[21]? = some 58 then do
    let days ← field 0 8
    let hours ← field 8 2
    let minutes ← field 10 2
    let seconds ← field 12 2
    if s[14]? ≠ some 46 then none
    else
      let microseconds ← field 15 6
      if s[22]? ≠ some 48 ∨ s[23]? ≠ some 48 ∨ s[24]? ≠ some 48 then none
      else some (.interval ⟨days, hours, minutes, seconds, microseconds⟩)
  else none

variable {s fraction : List UInt8} {x : UInt32}

/-- A number printed into its columns is read from them. -/
theorem field_numberText {offset size : Nat}
    (there : column s offset size = numberText size x.toNat) (short : size < 64) :
    strDatetimeCheckAsteriskToU32 s offset size = some x := by
  have digits := numberText_digits size x.toNat
  have read := strtoul_numberText size x.toNat
    (by have := x.toNat_lt; rw [ulongMax]; omega) noDigit_nil
  have notAsterisk : (numberText size x.toNat).head? ≠ some 42 := fun first =>
    absurd (digits 42 (mem_of_head? first)) (by decide)
  rw [append_nil] at read
  simp [strDatetimeCheckAsteriskToU32, there, notAsterisk, read, Nat.not_le.mpr short]

theorem toInt_word (small : x.toNat < 2 ^ 31) : x.toInt32.toInt = x.toNat := by
  change x.toBitVec.toInt = x.toBitVec.toNat
  exact BitVec.toInt_eq_toNat_of_lt (by simpa using by omega)

theorem signedText_word {width : Nat} (small : x.toNat < 2 ^ 31) :
    signedText width x.toInt32.toInt = numberText width x.toNat := by
  rw [toInt_word small, signedText, if_neg (by omega), Int.natAbs_natCast]

/-- Where the parts of a timestamp stand. -/
theorem timestamp_columns {year month day hour minute second utc : List UInt8} (sign : UInt8)
    (lengths : year.length = 4 ∧ month.length = 2 ∧ day.length = 2 ∧
      hour.length = 2 ∧ minute.length = 2 ∧ second.length = 2 ∧ fraction.length = 6 ∧
      utc.length = 3) :
    let s := (year ++ month ++ day ++ hour ++ minute ++ second ++ [46] ++ fraction ++ [sign] ++
      utc).take 25
    s.length = 25 ∧ s[21]? = some sign ∧ s[14]? = some 46 ∧ column s 0 4 = year ∧
      column s 4 2 = month ∧ column s 6 2 = day ∧ column s 8 2 = hour ∧ column s 10 2 = minute ∧
      column s 12 2 = second ∧ column s 15 6 = fraction ∧ column s 22 3 = utc := by
  obtain ⟨hyear, hmonth, hday, hhour, hminute, hsecond, hfraction, hutc⟩ := lengths
  intro s
  simp [s, column, drop_append, drop_of_length_le, take_of_length_le, *]

/-- Where the parts of an interval stand. -/
theorem interval_columns {days hours minutes seconds : List UInt8}
    (lengths : days.length = 8 ∧ hours.length = 2 ∧ minutes.length = 2 ∧ seconds.length = 2 ∧
      fraction.length = 6) :
    let s := (days ++ hours ++ minutes ++ seconds ++ [46] ++ fraction ++ [58, 48, 48, 48]).take 25
    s.length = 25 ∧ s[21]? = some 58 ∧ s[14]? = some 46 ∧ column s 0 8 = days ∧
      column s 8 2 = hours ∧ column s 10 2 = minutes ∧ column s 12 2 = seconds ∧
      column s 15 6 = fraction ∧ s[22]? = some 48 ∧ s[23]? = some 48 ∧ s[24]? = some 48 := by
  obtain ⟨hdays, hhours, hminutes, hseconds, hfraction⟩ := lengths
  intro s
  simp [s, column, drop_append, drop_of_length_le, take_of_length_le, *]

/-- The offset of a timestamp: a sign and a magnitude, which give it back. -/
theorem utc_word {utc : Int32} (small : utc.toInt.natAbs < 10 ^ 3) :
    ∃ x : UInt32, x.toNat < 10 ^ 3 ∧ (if utc < 0 then -utc else utc) = x.toInt32 ∧
      ∃ sign : UInt8, (if utc < 0 then 45 else 43) = sign ∧ (sign = 43 ∨ sign = 45) ∧
        (if sign = 43 then x.toInt32 else -x.toInt32) = utc := by
  obtain ⟨x, same⟩ : ∃ x : UInt32, x.toNat = utc.toInt.natAbs :=
    ⟨_, UInt32.toNat_ofNat_of_lt (by rw [UInt32.size]; omega)⟩
  have value : x.toInt32.toInt = utc.toInt.natAbs := by rw [toInt_word (by omega), same]
  refine ⟨x, same ▸ small, ?_⟩
  by_cases sign : utc < 0
  · have negative : utc.toInt < 0 := Int32.lt_iff_toInt_lt.mp sign
    have negated : -utc = x.toInt32 := by
      rw [← Int32.toInt_inj, Int32.toInt_neg, value]
      exact (Int.bmod_eq_of_le (by omega) (by omega)).trans (by omega)
    rw [if_pos sign, if_pos sign, ← negated]
    exact ⟨rfl, 45, rfl, Or.inr rfl, Int32.neg_neg⟩
  · have positive : ¬ utc.toInt < 0 := fun less => sign (Int32.lt_iff_toInt_lt.mpr less)
    have equal : utc = x.toInt32 := by rw [← Int32.toInt_inj, value]; omega
    rw [if_neg sign, if_neg sign, ← equal]
    exact ⟨rfl, 43, rfl, Or.inl rfl, rfl⟩

theorem strToDatetime_timestamp {t : Timestamp} (inRange : t.InRange) :
    strToDatetime (datetimeToStr (.timestamp t)) = some (.timestamp t) := by
  obtain ⟨year, month, day, hour, minute, second, microseconds, utc⟩ := inRange
  obtain ⟨x, small, magnitude, sign, hsign, signs, offset⟩ := utc_word utc
  have text : datetimeToStr (.timestamp t) = (numberText 4 t.year.toNat ++
      numberText 2 t.month.toNat ++ numberText 2 t.day.toNat ++ numberText 2 t.hour.toNat ++
      numberText 2 t.minute.toNat ++ numberText 2 t.second.toNat ++ [46] ++
      numberText 6 t.microseconds.toNat ++ [sign] ++ numberText 3 x.toNat).take 25 := by
    rw [datetimeToStr, magnitude, hsign, signedText_word (x := t.year) (by omega),
      signedText_word (x := t.month) (by omega), signedText_word (x := t.day) (by omega),
      signedText_word (x := t.hour) (by omega), signedText_word (x := t.minute) (by omega),
      signedText_word (x := t.second) (by omega),
      signedText_word (x := t.microseconds) (by omega), signedText_word (x := x) (by omega)]
  have places := timestamp_columns sign
    ⟨numberText_length (by decide) year, numberText_length (by decide) month,
      numberText_length (by decide) day, numberText_length (by decide) hour,
      numberText_length (by decide) minute, numberText_length (by decide) second,
      numberText_length (by decide) microseconds, numberText_length (by decide) small⟩
  rw [text]
  generalize take 25 _ = s at places ⊢
  obtain ⟨length, there, point, hyear, hmonth, hday, hhour, hminute, hsecond, hus, hutc⟩ := places
  rw [strToDatetime, if_neg (not_not.mpr length)]
  simp [there, point, signs, offset, field_numberText hyear (by decide),
    field_numberText hmonth (by decide), field_numberText hday (by decide),
    field_numberText hhour (by decide), field_numberText hminute (by decide),
    field_numberText hsecond (by decide), field_numberText hus (by decide),
    field_numberText hutc (by decide)]

theorem strToDatetime_interval {i : Interval} (inRange : i.InRange)
    (days : i.days.toNat < 10 ^ 8) :
    strToDatetime (datetimeToStr (.interval i)) = some (.interval i) := by
  obtain ⟨hours, minutes, seconds, microseconds⟩ := inRange
  have places := interval_columns
    ⟨numberText_length (by decide) days,
      numberText_length (n := i.hours.toNat) (by decide) (by omega),
      numberText_length (n := i.minutes.toNat) (by decide) (by omega),
      numberText_length (n := i.seconds.toNat) (by decide) (by omega),
      numberText_length (by decide) microseconds⟩
  rw [datetimeToStr]
  generalize take 25 _ = s at places ⊢
  obtain ⟨length, colon, point, hdays, hhours, hminutes, hseconds, hus, zeros⟩ := places
  rw [strToDatetime, if_neg (not_not.mpr length)]
  simp [colon, point, zeros, field_numberText hdays (by decide),
    field_numberText hhours (by decide), field_numberText hminutes (by decide),
    field_numberText hseconds (by decide), field_numberText hus (by decide)]

/-! ## What is accepted -/

/-- A field as CIM writes it: decimal digits, or asterisks throughout. -/
def PlainField (buf : List UInt8) : Prop :=
  (∀ c ∈ buf, isDigit c = true) ∨ ∀ c ∈ buf, c = 42

/-- The offset and the size of the fields of a text, by the form its sign column selects. -/
def fields (s : List UInt8) : List (Nat × Nat) :=
  if s[21]? = some 58 then [(0, 8), (8, 2), (10, 2), (12, 2), (15, 6)]
  else [(0, 4), (4, 2), (6, 2), (8, 2), (10, 2), (12, 2), (15, 6), (22, 3)]

/-- The field values of a datetime in the order of the columns. -/
def Datetime.values : Datetime → List Nat
  | .timestamp t => [t.year.toNat, t.month.toNat, t.day.toNat, t.hour.toNat, t.minute.toNat,
      t.second.toNat, t.microseconds.toNat, t.utc.toInt.natAbs]
  | .interval i => [i.days.toNat, i.hours.toNat, i.minutes.toNat, i.seconds.toNat,
      i.microseconds.toNat]

/-- A field that is read is plain exactly if `strtoul` has nothing to skip in it, and then
its value keeps to its columns. -/
theorem field_plain {offset size : Nat} (inside : offset + size ≤ s.length) (positive : 0 < size)
    (read : strDatetimeCheckAsteriskToU32 s offset size = some x) :
    (PlainField (column s offset size) ↔
      ∀ c ∈ (column s offset size).head?, isSkipped c = false) ∧
    (PlainField (column s offset size) → x.toNat < 10 ^ size) := by
  have width : (column s offset size).length = size := by
    rw [column, length_take, length_drop]
    omega
  rw [strDatetimeCheckAsteriskToU32] at read
  replace read := (ite_none_left_eq_some.mp read).2
  simp only at read
  generalize column s offset size = buf at width read ⊢
  obtain ⟨c, rest, rfl⟩ := exists_cons_of_ne_nil
    (ne_nil_of_length_pos (width ▸ positive))
  have headPlain : PlainField (c :: rest) → isSkipped c = false := by
    rintro (digits | asterisks)
    · exact isSkipped_of_isDigit (digits c mem_cons_self)
    · rw [asterisks c mem_cons_self]
      rfl
  by_cases asterisk : c = 42
  · subst asterisk
    rw [head?_cons, if_pos rfl] at read
    obtain ⟨all, zero⟩ := ite_none_right_eq_some.mp read
    obtain rfl : 0 = x := by simpa using zero
    have plain : PlainField (42 :: rest) := Or.inr (by simpa using all)
    exact ⟨⟨fun _ => by simp; rfl, fun _ => plain⟩, fun _ => Nat.pow_pos (by decide)⟩
  · rw [if_neg (by simpa using asterisk)] at read
    have whole : isSkipped c = false → (∀ d ∈ c :: rest, isDigit d = true) ∧
        x.toNat < 10 ^ size := by
      intro first
      rw [strtoul_ten (by simpa using first)] at read
      by_cases none' : (c :: rest).takeWhile isDigit = []
      · simp [none'] at read
      · rw [if_neg none'] at read
        obtain ⟨over', value⟩ := ite_none_right_eq_some.mp read
        have digits := dropWhile_eq_nil_iff.mp over'
        have below := digitsValue_lt digits
        rw [takeWhile_eq_self_iff.mpr digits, Option.some.injEq] at value
        refine ⟨digits, ?_⟩
        rw [← value, UInt32.toNat_ofNat', ← width]
        exact (Nat.mod_le _ _).trans_lt ((ulongOf_false_le _).trans_lt below)
    refine ⟨⟨fun plain => by simpa using headPlain plain, fun first => Or.inl (whole ?_).1⟩,
      fun plain => (whole (headPlain plain)).2⟩
    exact first c rfl

/-- What is accepted was read field by field; an offset that fits a signed word is read as its
magnitude. -/
theorem strToDatetime_fields {x : Datetime} (accepted : strToDatetime s = some x) :
    s.length = 25 ∧ List.Forall₂ (fun f v => ∃ u, strDatetimeCheckAsteriskToU32 s f.1 f.2 = some u ∧
      (u.toNat < 2 ^ 31 → v = u.toNat)) (fields s) x.values := by
  have offset : ∀ u : UInt32, u.toNat < 2 ^ 31 → u.toInt32.toInt.natAbs = u.toNat ∧
      (-u.toInt32).toInt.natAbs = u.toNat := by
    intro u small
    rw [Int32.toInt_neg, toInt_word small, Int.bmod_eq_of_le (by omega) (by omega)]
    omega
  rw [strToDatetime] at accepted
  obtain ⟨length, read⟩ := ite_none_left_eq_some.mp accepted
  refine ⟨not_not.mp length, ?_⟩
  by_cases timestamp : s[21]? = some 43 ∨ s[21]? = some 45
  · have form : s[21]? ≠ some 58 := by rcases timestamp with sign | sign <;> simp [sign]
    rw [if_pos timestamp] at read
    simp only [bind_eq_bind, bind_eq_some_iff, ite_none_left_eq_some, Option.some.injEq] at read
    obtain ⟨year, hyear, month, hmonth, day, hday, hour, hhour, minute, hminute, second, hsecond,
      -, us, hus, utc, hutc, rfl⟩ := read
    rw [fields, if_neg form]
    simp only [Datetime.values, List.forall₂_cons]
    refine ⟨⟨_, hyear, fun _ => rfl⟩, ⟨_, hmonth, fun _ => rfl⟩, ⟨_, hday, fun _ => rfl⟩,
      ⟨_, hhour, fun _ => rfl⟩, ⟨_, hminute, fun _ => rfl⟩, ⟨_, hsecond, fun _ => rfl⟩,
      ⟨_, hus, fun _ => rfl⟩, ⟨_, hutc, fun small => ?_⟩, .nil⟩
    split
    · exact (offset utc small).1
    · exact (offset utc small).2
  · rw [if_neg timestamp] at read
    obtain ⟨form, read⟩ := ite_none_right_eq_some.mp read
    simp only [bind_eq_bind, bind_eq_some_iff, ite_none_left_eq_some, Option.some.injEq] at read
    obtain ⟨days, hdays, hours, hhours, minutes, hminutes, seconds, hseconds, -, us, hus, -, rfl⟩ :=
      read
    rw [fields, if_pos form]
    simp only [Datetime.values, List.forall₂_cons]
    exact ⟨⟨_, hdays, fun _ => rfl⟩, ⟨_, hhours, fun _ => rfl⟩, ⟨_, hminutes, fun _ => rfl⟩,
      ⟨_, hseconds, fun _ => rfl⟩, ⟨_, hus, fun _ => rfl⟩, .nil⟩

/-- `field_plain` along the fields of a text. -/
theorem fields_plain {fs : List (Nat × Nat)} {vs : List Nat}
    (places : ∀ f ∈ fs, f.1 + f.2 ≤ s.length ∧ 0 < f.2 ∧ f.2 ≤ 8)
    (read : List.Forall₂ (fun f v => ∃ u, strDatetimeCheckAsteriskToU32 s f.1 f.2 = some u ∧
      (u.toNat < 2 ^ 31 → v = u.toNat)) fs vs) :
    ((∀ f ∈ fs, PlainField (column s f.1 f.2)) ∧
        List.Forall₂ (fun f v => v < 10 ^ f.2) fs vs) ↔
      ∀ f ∈ fs, ∀ c ∈ (column s f.1 f.2).head?, isSkipped c = false := by
  induction read with
  | nil => simp
  | @cons f v fs vs first rest ih =>
    obtain ⟨u, found, value⟩ := first
    obtain ⟨within, positive, narrow⟩ := places f mem_cons_self
    obtain ⟨plain, below⟩ := field_plain within positive found
    have bound : PlainField (column s f.1 f.2) → v < 10 ^ f.2 := by
      intro digits
      have width : 10 ^ f.2 ≤ 10 ^ 8 := Nat.pow_le_pow_right (by decide) narrow
      have small := below digits
      rw [value (by omega)]
      exact small
    have tail := ih fun g inside => places g (mem_cons_of_mem f inside)
    rw [forall_mem_cons, forall_mem_cons, List.forall₂_cons, ← plain, ← tail]
    exact ⟨fun all => ⟨all.1.1, all.1.2, all.2.2⟩,
      fun all => ⟨⟨all.1, all.2.1⟩, bound all.1, all.2.2⟩⟩

/-- Every value in range comes back from its text; and in a text that is accepted the fields
are plain and their values keep to their columns exactly if none of them begins with white
space or a sign. -/
theorem strToDatetime_correct_iff (t : Timestamp) (i : Interval) (s : List UInt8)
    (x : Datetime) :
    (t.InRange → strToDatetime (datetimeToStr (.timestamp t)) = some (.timestamp t)) ∧
    (i.InRange → i.days.toNat < 10 ^ 8 →
      strToDatetime (datetimeToStr (.interval i)) = some (.interval i)) ∧
    (strToDatetime s = some x →
      (((∀ f ∈ fields s, PlainField (column s f.1 f.2)) ∧
          List.Forall₂ (fun f v => v < 10 ^ f.2) (fields s) x.values) ↔
        ∀ f ∈ fields s, ∀ c ∈ (column s f.1 f.2).head?, isSkipped c = false)) := by
  refine ⟨strToDatetime_timestamp, strToDatetime_interval, ?_⟩
  intro accepted
  obtain ⟨length, read⟩ := strToDatetime_fields accepted
  refine fields_plain ?_ read
  rw [length, fields]
  split <;> decide

/-- The last second of a year, six hours ahead of UTC; an interval of nearly a hundred million
days; and the fields of a text with a negative offset. -/
theorem strToDatetime_correct_kinds :
    strToDatetime (datetimeToStr (.timestamp ⟨2010, 12, 31, 23, 59, 59, 123456, 360⟩)) =
        some (.timestamp ⟨2010, 12, 31, 23, 59, 59, 123456, 360⟩) ∧
      strToDatetime (datetimeToStr (.interval ⟨99999999, 23, 59, 59, 999999⟩)) =
        some (.interval ⟨99999999, 23, 59, 59, 999999⟩) ∧
      ∀ f ∈ fields (ascii "20101231235959.123456-060"),
        PlainField (column (ascii "20101231235959.123456-060") f.1 f.2) := by
  obtain ⟨timestamp, interval, accepted⟩ := strToDatetime_correct_iff
    ⟨2010, 12, 31, 23, 59, 59, 123456, 360⟩ ⟨99999999, 23, 59, 59, 999999⟩
    (ascii "20101231235959.123456-060") (.timestamp ⟨2010, 12, 31, 23, 59, 59, 123456, -60⟩)
  refine ⟨timestamp (by constructor <;> decide), interval (by constructor <;> decide) (by decide), ?_⟩
  exact ((accepted (by decide +kernel)).mpr (by decide +kernel)).1

/-- A signed field is accepted, and its value does not fit the two columns. -/
theorem strToDatetime_signed_field :
    strToDatetime (ascii "20101231235959.123456+360") =
        some (.timestamp ⟨2010, 12, 31, 23, 59, 59, 123456, 360⟩) ∧
      strToDatetime (ascii "2010-131235959.123456+360") =
        some (.timestamp ⟨2010, 0xFFFFFFFF, 31, 23, 59, 59, 123456, 360⟩) := by
  decide +kernel

end Omi.Base
