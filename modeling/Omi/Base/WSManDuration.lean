import Omi.Base.WSManDatetime

/-!
# Which durations are accepted

The grammar that `_ParseWSManDuration` documents, `PnYnMnDTnHnMnS` with every part
optional, and the length of a duration under the lengths of years and months that it
uses. The loop reads more than the grammar: `strtoul` takes white space and signs,
a designator may come again or out of order, the sums are not checked, and a fraction
is cut behind its sixth digit. A text that is accepted follows the grammar, and is read
as its length, exactly if none of the four occurs in it.
-/

namespace Omi.Base

open List Option Xml Duration

/-- The letters of a duration behind the `P`. -/
inductive Designator where
  | years
  | months
  | days
  | time
  | hours
  | minutes
  | seconds
deriving DecidableEq, Repr

namespace Designator

/-- The order in which they are written. -/
def order : List Designator := [years, months, days, time, hours, minutes, seconds]

def letter : Designator → UInt8
  | years => 89
  | months => 77
  | days => 68
  | time => 84
  | hours => 72
  | minutes => 77
  | seconds => 83

/-- The designators that stand behind the `T`. -/
def isTime : Designator → Bool
  | hours | minutes | seconds => true
  | years | months | days | time => false

/-- What a letter designates, in front of the `T` or behind it. -/
def ofLetter (behind : Bool) (c : UInt8) : Option Designator :=
  order.find? fun k => k.letter == c && (k == time || k.isTime == behind)

/-- The length in seconds of `n` of the units: four years have a day more than 1460, and two
months one more than 60. -/
def secondsOf (n : Nat) : Designator → Nat
  | years => (n * 365 + n / 4) * 86400
  | months => (n * 30 + n / 2) * 86400
  | days => n * 86400
  | time => 0
  | hours => n * 3600
  | minutes => n * 60
  | seconds => n

end Designator

/-! ## The grammar -/

/-- A part of a duration. -/
inductive Component where
  | time
  | whole (kind : Designator) (digits : List UInt8)
  | fraction (digits decimals : List UInt8)

/-- The microseconds that are read of a fraction: its first six digits, filled up with zeros. -/
def fractionValue (decimals : List UInt8) : Nat :=
  digitsValue 10 (decimals.take 6 ++ List.replicate (6 - (decimals.take 6).length) 48)

namespace Component

def kind : Component → Designator
  | time => .time
  | whole kind _ => kind
  | fraction _ _ => .seconds

/-- What stands in front of the designator. -/
def number : Component → List UInt8
  | time => []
  | whole _ digits => digits
  | fraction digits decimals => digits ++ 46 :: decimals

def text (c : Component) : List UInt8 := c.number ++ [c.kind.letter]

/-- The numbers are unsigned decimal numbers; the digits behind a point may be missing. -/
def Valid : Component → Prop
  | time => True
  | whole kind digits => kind ≠ .time ∧ digits ≠ [] ∧ ∀ d ∈ digits, isDigit d = true
  | fraction digits decimals => digits ≠ [] ∧ (∀ d ∈ digits, isDigit d = true) ∧
      ∀ d ∈ decimals, isDigit d = true

def secondsOf : Component → Nat
  | time => 0
  | whole kind digits => kind.secondsOf (digitsValue 10 digits)
  | fraction digits _ => digitsValue 10 digits

/-- The digits behind the point. -/
def decimals : Component → List UInt8
  | fraction _ decimals => decimals
  | time | whole _ _ => []

/-- The length in microseconds. -/
def usec (c : Component) : NNRat :=
  c.secondsOf * 10 ^ 6 + digitsValue 10 c.decimals * 10 ^ 6 / 10 ^ c.decimals.length

/-- The microseconds that are read. -/
def readUsec (c : Component) : Nat := c.secondsOf * 10 ^ 6 + fractionValue c.decimals

end Component

/-- The components of the time stand behind the `T`, those of the date in front of it. -/
def Phased : Bool → List Designator → Prop
  | _, [] => True
  | behind, k :: ks => (k = .time ∧ Phased true ks) ∨
      (k ≠ .time ∧ k.isTime = behind ∧ Phased behind ks)

/-- The text is a duration made of the components. -/
structure IsDuration (s : List UInt8) (components : List Component) : Prop where
  text : s = 80 :: components.flatMap Component.text
  valid : ∀ c ∈ components, c.Valid
  ordered : (components.map Component.kind).Sublist Designator.order
  phased : Phased false (components.map Component.kind)

/-! ## The condition -/

/-- The text is cut behind each of the letters: what stands before it, and what it designates. -/
def pieces : Bool → List UInt8 → List UInt8 → List (Designator × List UInt8)
  | _, _, [] => []
  | behind, front, c :: p =>
    match Designator.ofLetter behind c with
    | some k => (k, front) :: pieces (behind || k == .time) [] p
    | none => pieces behind (front ++ [c]) p

/-- The seconds of a piece, by the digits it begins with. -/
def pieceSeconds (piece : Designator × List UInt8) : Nat :=
  piece.1.secondsOf (digitsValue 10 (piece.2.takeWhile isDigit))

/-- The digits of a piece behind its point. -/
def pieceDecimals (piece : Designator × List UInt8) : List UInt8 :=
  (piece.2.dropWhile isDigit).tail

/-- No white space and no sign; the letters come in their order and at most once; the whole is
shorter than `2 ^ 32` days; and behind the sixth digit of a fraction there are zeros only. -/
structure PlainDuration (s : List UInt8) : Prop where
  plain : ∀ c ∈ s, isSkipped c = false
  ordered : ((pieces false [] s.tail).map Prod.fst).Sublist Designator.order
  fits : ((pieces false [] s.tail).map pieceSeconds).sum < 2 ^ 32 * 86400
  exact : ∀ piece ∈ pieces false [] s.tail, ∀ d ∈ (pieceDecimals piece).drop 6, d = 48

/-! ## What one turn reads -/

/-- The state behind a component. -/
def Component.apply (d : Duration) : Component → Duration
  | time => { d with foundT := true }
  | whole kind digits =>
    let n := UInt64.ofNat (ulongOf false (digitsValue 10 digits))
    match kind with
    | .years => { d with years := n }
    | .months => { d with months := n }
    | .days => { d with days := n }
    | .time => d
    | .hours => { d with hours := n }
    | .minutes => { d with minutes := n }
    | .seconds => { d with seconds := n }
  | fraction digits decimals =>
    { d with
      seconds := .ofNat (ulongOf false (digitsValue 10 digits))
      microseconds := .ofNat (fractionValue decimals) }

variable {p rest s : List UInt8} {d d' : Duration} {components : List Component}

/-- The digits of a fraction, filled up. -/
theorem digits_padded {decimals : List UInt8} (digits : ∀ d ∈ decimals, isDigit d = true) :
    (∀ d ∈ decimals.take 6 ++ List.replicate (6 - (decimals.take 6).length) 48,
      isDigit d = true) ∧
    (decimals.take 6 ++ List.replicate (6 - (decimals.take 6).length) 48).length = 6 := by
  constructor
  · refine forall_mem_append.mpr ⟨fun d front => ?_, fun _ => isDigit_of_mem_zeros⟩
    exact digits d (mem_of_mem_take front)
  · simp only [length_append, length_take, length_replicate]
    omega

theorem fractionValue_nil : fractionValue [] = 0 := by decide

theorem fractionValue_lt {decimals : List UInt8} (digits : ∀ d ∈ decimals, isDigit d = true) :
    fractionValue decimals < 10 ^ 6 := by
  obtain ⟨padded, length⟩ := digits_padded digits
  exact (digitsValue_lt padded).trans_eq (congrArg (10 ^ ·) length)

/-- What is read of a fraction and the digits behind the sixth make up the fraction. -/
theorem fractionValue_scaled {decimals : List UInt8} (digits : ∀ d ∈ decimals, isDigit d = true) :
    digitsValue 10 decimals * 10 ^ 6 =
      fractionValue decimals * 10 ^ decimals.length +
        digitsValue 10 (decimals.drop 6) * 10 ^ 6 := by
  unfold fractionValue
  rw [digitsValue_append _ fun _ => isDigit_of_mem_zeros, length_replicate, length_take,
    digitsValue_zeros]
  obtain short | long := Nat.le_total decimals.length 6
  · have nothing : digitsValue 10 [] = 0 := rfl
    rw [take_of_length_le short, drop_of_length_le short, nothing, Nat.min_eq_right short,
      Nat.add_zero, Nat.zero_mul, Nat.add_zero, Nat.mul_assoc, ← Nat.pow_add,
      Nat.sub_add_cancel short]
  · have behind : ∀ d ∈ decimals.drop 6, isDigit d = true := fun d inside =>
      digits d (mem_of_mem_drop inside)
    conv_lhs => rw [← take_append_drop 6 decimals, digitsValue_append _ behind, length_drop]
    rw [Nat.min_eq_left long, Nat.sub_self, Nat.pow_zero, Nat.mul_one, Nat.add_zero, Nat.add_mul,
      Nat.mul_assoc, ← Nat.pow_add, Nat.sub_add_cancel long]

theorem parseDecimalPart_plain (plain : ∀ c ∈ p, isSkipped c = false) :
    parseDecimalPart p = (fractionValue (p.takeWhile isDigit), p.dropWhile isDigit) := by
  have whole := takeWhile_append_dropWhile (p := isDigit) (l := p)
  have digits : ∀ d ∈ p.takeWhile isDigit, isDigit d = true := fun d => mem_takeWhile_imp
  have read := strtoul_ten fun c first => plain c (mem_of_mem_head? first)
  unfold parseDecimalPart
  by_cases none' : p.takeWhile isDigit = []
  · rw [none', nil_append] at whole
    rw [read, if_pos none', none', whole]
    rfl
  · have taken : p.take (p.length - (p.dropWhile isDigit).length) = p.takeWhile isDigit := by
      have length := congrArg length whole
      rw [length_append] at length
      rw [← length, Nat.add_sub_cancel]
      exact (prefix_iff_eq_take.mp (List.takeWhile_prefix isDigit)).symm
    obtain ⟨padded, length⟩ := digits_padded digits
    have below := fractionValue_lt digits
    rw [fractionValue] at below
    have again := strtoul_digits (ne_nil_of_length_eq_add_one length) padded
      (by rw [ulongMax]; omega) noDigit_nil
    rw [append_nil] at again
    simp only [read, if_neg none', taken, again]
    rfl

/-- A designator that is taken is one of its phase. -/
theorem Duration.set_kind {n : UInt64} {c : UInt8} (assigned : d.set n c = some d') :
    ∃ kind : Designator, kind ≠ .time ∧ kind.isTime = d.foundT ∧ kind.letter = c ∧
      ∀ digits, n = UInt64.ofNat (ulongOf false (digitsValue 10 digits)) →
        d' = (Component.whole kind digits).apply d := by
  unfold set at assigned
  split_ifs at assigned with time h1 h2 h3 h4 h5 h6
  all_goals cases assigned
  · exact ⟨.hours, nofun, time.symm, h1.symm, fun _ same => by rw [same]; rfl⟩
  · exact ⟨.minutes, nofun, time.symm, h2.symm, fun _ same => by rw [same]; rfl⟩
  · exact ⟨.seconds, nofun, time.symm, h3.symm, fun _ same => by rw [same]; rfl⟩
  · exact ⟨.years, nofun, (Bool.eq_false_iff.mpr time).symm, h4.symm,
      fun _ same => by rw [same]; rfl⟩
  · exact ⟨.months, nofun, (Bool.eq_false_iff.mpr time).symm, h5.symm,
      fun _ same => by rw [same]; rfl⟩
  · exact ⟨.days, nofun, (Bool.eq_false_iff.mpr time).symm, h6.symm,
      fun _ same => by rw [same]; rfl⟩

/-- A turn that is made, where nothing is skipped, takes a component of its phase. -/
theorem Duration.step_component {c : UInt8} (plain : ∀ x ∈ c :: p, isSkipped x = false)
    (read : d.step c p = some (d', rest)) :
    ∃ component : Component, c :: p = component.text ++ rest ∧ component.Valid ∧
      (component.kind = .time ∨ component.kind ≠ .time ∧ component.kind.isTime = d.foundT) ∧
      d' = component.apply d := by
  unfold step at read
  split at read
  next isT =>
    cases read
    exact ⟨.time, by rw [isT]; rfl, trivial, Or.inl rfl, rfl⟩
  · have whole := takeWhile_append_dropWhile (p := isDigit) (l := c :: p)
    have digits : ∀ x ∈ (c :: p).takeWhile isDigit, isDigit x = true :=
      fun x => mem_takeWhile_imp
    rw [parseNumber, strtoul_ten fun x first => plain x (mem_of_mem_head? first)] at read
    by_cases none' : (c :: p).takeWhile isDigit = []
    · rw [if_pos none'] at read
      cases read
    · rw [if_neg none', bind_some] at read
      rw [← whole] at plain ⊢
      generalize (c :: p).takeWhile isDigit = number at *
      generalize (c :: p).dropWhile isDigit = behind at *
      cases behind with
      | nil => cases read
      | cons x behind =>
        have plain' : ∀ y ∈ behind, isSkipped y = false := fun y inside =>
          plain y (mem_append_right _ (mem_cons_of_mem x inside))
        rw [designator] at read
        split at read
        next point =>
          obtain ⟨time, rfl⟩ := point
          have fraction := takeWhile_append_dropWhile (p := isDigit) (l := behind)
          have decimals : ∀ y ∈ behind.takeWhile isDigit, isDigit y = true :=
            fun y => mem_takeWhile_imp
          rw [parseDecimalPart_plain plain'] at read
          split at read
          next same =>
            obtain ⟨rfl, left⟩ := Prod.mk.inj same
            cases read
            refine ⟨.fraction number (behind.takeWhile isDigit), ?_, ⟨none', digits, decimals⟩,
              Or.inr ⟨by simp [Component.kind], time.symm⟩, rfl⟩
            rw [left] at fraction
            conv_lhs => rw [← fraction]
            simp [Component.text, Component.number, Component.kind, Designator.letter]
          · cases read
        next notPoint =>
          obtain ⟨d'', assigned, same⟩ := map_eq_some_iff.mp read
          cases same
          obtain ⟨kind, notTime, phase, letter, applied⟩ := set_kind assigned
          refine ⟨.whole kind number, ?_, ⟨notTime, none', digits⟩, Or.inr ⟨notTime, phase⟩,
            applied number rfl⟩
          simp [Component.text, Component.number, Component.kind, letter]

/-- What is read to its end, where nothing is skipped, is a sequence of components. -/
theorem Duration.readAll_components (plain : ∀ x ∈ p, isSkipped x = false)
    (read : readAll d p = some d') :
    ∃ components : List Component, p = components.flatMap Component.text ∧
      (∀ c ∈ components, c.Valid) ∧ Phased d.foundT (components.map Component.kind) ∧
      d' = components.foldl (fun d c => c.apply d) d := by
  induction length : p.length using Nat.strongRecOn generalizing d p with
  | ind n ih =>
    cases p with
    | nil =>
      cases read
      exact ⟨[], rfl, nofun, trivial, rfl⟩
    | cons c p =>
      rw [readAll_cons] at read
      obtain ⟨⟨e, rest⟩, turn, further⟩ := bind_eq_some_iff.mp read
      obtain ⟨component, text, valid, phase, rfl⟩ := step_component plain turn
      have shorter := step_length turn
      rw [length_cons] at length
      obtain ⟨components, texts, valids, phases, folded⟩ := ih rest.length (by omega)
        (fun x inside => plain x (by rw [text]; exact mem_append_right _ inside))
        further rfl
      refine ⟨component :: components, ?_, ?_, ?_, folded⟩
      · rw [text, flatMap_cons, ← texts]
      · exact forall_mem_cons.mpr ⟨valid, valids⟩
      · cases component with
        | time => exact Or.inl ⟨rfl, phases⟩
        | whole kind digits =>
          refine Or.inr ⟨valid.1, (phase.resolve_left valid.1).2, ?_⟩
          cases kind <;> exact phases
        | fraction digits decimals =>
          exact Or.inr ⟨nofun, (phase.resolve_left nofun).2, phases⟩

/-! ## The pieces of a duration are its components -/

theorem pieces_front {behind : Bool} {front : List UInt8} (before : List UInt8)
    (none' : ∀ c ∈ front, Designator.ofLetter behind c = none) :
    pieces behind before (front ++ rest) = pieces behind (before ++ front) rest := by
  induction front generalizing before with
  | nil => rw [nil_append, append_nil]
  | cons c front ih =>
    obtain ⟨first, others⟩ := forall_mem_cons.mp none'
    rw [cons_append, pieces, first]
    simp only
    rw [ih _ others, append_assoc, singleton_append]

variable {c : Component}

/-- Digits and the point are no letters, and none of the characters of a component is skipped. -/
theorem Component.Valid.number_plain (valid : c.Valid) :
    ∀ x ∈ c.number, isSkipped x = false ∧ ∀ behind, Designator.ofLetter behind x = none := by
  have digit : ∀ x, isDigit x = true → isSkipped x = false ∧
      ∀ behind, Designator.ofLetter behind x = none :=
    forall_byte (by decide +kernel)
  cases c with
  | time => exact nofun
  | whole kind digits => exact fun x inside => digit x (valid.2.2 x inside)
  | fraction digits decimals =>
    refine forall_mem_append.mpr ⟨fun x front => digit x (valid.2.1 x front), ?_⟩
    exact forall_mem_cons.mpr ⟨⟨by decide, by decide⟩, fun x last => digit x (valid.2.2 x last)⟩

/-- The digits in front are those of the component. -/
theorem Component.Valid.pieceSeconds (valid : c.Valid) :
    pieceSeconds (c.kind, c.number) = c.secondsOf := by
  cases c with
  | time => rfl
  | whole kind digits =>
    have whole := takeWhile_eq_self_iff.mpr valid.2.2
    simp only [pieceSeconds, number, Component.kind, whole, secondsOf]
  | fraction digits decimals =>
    have point : NoDigit (46 :: decimals) := noDigit_cons.mpr (by decide)
    have front := (split_digits valid.2.1 point).1
    simp only [pieceSeconds, number, Component.kind, front, secondsOf, Designator.secondsOf]

/-- The digits behind the point are those of the component. -/
theorem Component.Valid.pieceDecimals (valid : c.Valid) :
    pieceDecimals (c.kind, c.number) = c.decimals := by
  cases c with
  | time => rfl
  | whole kind digits =>
    simp only [Base.pieceDecimals, number, dropWhile_eq_nil_iff.mpr valid.2.2, tail_nil, decimals]
  | fraction digits decimals =>
    have point : NoDigit (46 :: decimals) := noDigit_cons.mpr (by decide)
    have behind := (split_digits valid.2.1 point).2
    simp only [Base.pieceDecimals, number, behind, tail_cons, Component.decimals]

theorem pieces_components {behind : Bool} (valid : ∀ c ∈ components, c.Valid)
    (phased : Phased behind (components.map Component.kind)) :
    pieces behind [] (components.flatMap Component.text) =
      components.map fun c => (c.kind, c.number) := by
  have letter : ∀ behind (k : Designator), k = .time ∨ k.isTime = behind →
      Designator.ofLetter behind k.letter = some k := by
    intro behind k
    cases behind <;> cases k <;> decide
  induction components generalizing behind with
  | nil => rfl
  | cons c components ih =>
    obtain ⟨first, others⟩ := forall_mem_cons.mp valid
    have plain := fun x inside => (first.number_plain x inside).2 behind
    rw [flatMap_cons, Component.text, append_assoc, pieces_front [] plain,
      nil_append, singleton_append, pieces]
    rcases phased with ⟨time, rest⟩ | ⟨notTime, phase, rest⟩
    · rw [letter behind c.kind (Or.inl time)]
      simp only [time, beq_self_eq_true, Bool.or_true, map_cons]
      rw [ih others rest]
    · rw [letter behind c.kind (Or.inr phase)]
      simp only [beq_eq_false_iff_ne.mpr notTime, Bool.or_false, map_cons]
      rw [ih others rest]

/-! ## The length of what is read -/

/-- The seconds that the state of the loop stands for. -/
def Duration.secondsOf (d : Duration) : Nat :=
  (d.years.toNat * 365 + d.years.toNat / 4 + (d.months.toNat * 30 + d.months.toNat / 2) +
    d.days.toNat) * 86400 + d.hours.toNat * 3600 + d.minutes.toNat * 60 + d.seconds.toNat

/-- Nothing has been read under the designator. -/
def Duration.Clear (d : Duration) : Designator → Prop
  | .years => d.years = 0
  | .months => d.months = 0
  | .days => d.days = 0
  | .time => True
  | .hours => d.hours = 0
  | .minutes => d.minutes = 0
  | .seconds => d.seconds = 0 ∧ d.microseconds = 0

theorem Component.apply_clear {k : Designator} (other : k ≠ c.kind)
    (clear : d.Clear k) : (c.apply d).Clear k := by
  cases c with
  | time => cases k <;> exact clear
  | whole kind digits =>
    cases kind <;> cases k <;> first | exact clear | exact absurd rfl other
  | fraction digits decimals => cases k <;> first | exact clear | exact absurd rfl other

theorem Component.apply_microseconds (valid : c.Valid)
    (below : d.microseconds.toNat < 10 ^ 6) : (c.apply d).microseconds.toNat < 10 ^ 6 := by
  cases c with
  | time => exact below
  | whole kind digits => cases kind <;> exact below
  | fraction digits decimals =>
    have small := fractionValue_lt valid.2.2
    change (UInt64.ofNat (fractionValue decimals)).toNat < 10 ^ 6
    rw [UInt64.toNat_ofNat_of_lt' (by rw [UInt64.size]; omega)]
    exact small

/-- A component adds its length, if it is the first of its kind and its number is not cut off. -/
theorem Component.apply_length (valid : c.Valid) (clear : d.Clear c.kind)
    (small : c.secondsOf < 2 ^ 32 * 86400) :
    (c.apply d).secondsOf = d.secondsOf + c.secondsOf ∧
      (c.apply d).secondsOf * 10 ^ 6 + (c.apply d).microseconds.toNat =
        d.secondsOf * 10 ^ 6 + d.microseconds.toNat + c.readUsec := by
  have exact' : ∀ n, n < 2 ^ 32 * 86400 → (UInt64.ofNat (ulongOf false n)).toNat = n := by
    intro n small
    rw [ulongOf, if_neg (by rw [ulongMax]; omega), if_neg Bool.false_ne_true,
      UInt64.toNat_ofNat_of_lt' (by rw [UInt64.size]; omega)]
  cases c with
  | time => simp only [apply, readUsec, decimals, fractionValue_nil, secondsOf, Duration.secondsOf,
      Nat.add_zero, Nat.zero_mul, and_self]
  | whole kind digits =>
    cases kind <;>
      simp only [secondsOf, Designator.secondsOf] at small <;>
      simp only [Duration.Clear, Component.kind] at clear <;>
      simp only [apply, readUsec, decimals, fractionValue_nil, secondsOf, Duration.secondsOf,
        Designator.secondsOf, clear, UInt64.toNat_zero] <;>
      first
        | exact absurd rfl valid.1
        | rw [exact' _ (by omega)]; omega
  | fraction digits decimals =>
    have fraction := fractionValue_lt valid.2.2
    obtain ⟨seconds, microseconds⟩ := clear
    simp only [secondsOf] at small
    simp only [apply, readUsec, Component.decimals, secondsOf, Duration.secondsOf, seconds,
      microseconds, UInt64.toNat_zero]
    rw [exact' _ small, UInt64.toNat_ofNat_of_lt' (by rw [UInt64.size]; omega)]
    omega

/-- Along components of different kinds the lengths add up. -/
theorem Duration.foldl_length (valid : ∀ c ∈ components, c.Valid)
    (nodup : (components.map Component.kind).Nodup)
    (clear : ∀ k ∈ components.map Component.kind, d.Clear k)
    (small : (components.map Component.secondsOf).sum < 2 ^ 32 * 86400) :
    let e := components.foldl (fun d c => c.apply d) d
    e.secondsOf = d.secondsOf + (components.map Component.secondsOf).sum ∧
      e.secondsOf * 10 ^ 6 + e.microseconds.toNat =
        d.secondsOf * 10 ^ 6 + d.microseconds.toNat + (components.map Component.readUsec).sum := by
  induction components generalizing d with
  | nil => simp only [foldl_nil, map_nil, sum_nil, Nat.add_zero, and_self]
  | cons c components ih =>
    obtain ⟨first, others⟩ := forall_mem_cons.mp valid
    obtain ⟨fresh, rest⟩ := nodup_cons.mp nodup
    obtain ⟨free, frees⟩ := forall_mem_cons.mp clear
    rw [map_cons, sum_cons] at small
    have step := c.apply_length first free (by omega)
    have further := ih (d := c.apply d) others rest
      (fun k inside => c.apply_clear (fun same => fresh (same ▸ inside)) (frees k inside))
      (by omega)
    simp only [foldl_cons, map_cons, sum_cons]
    omega

theorem Duration.foldl_microseconds (valid : ∀ c ∈ components, c.Valid)
    (below : d.microseconds.toNat < 10 ^ 6) :
    (components.foldl (fun d c => c.apply d) d).microseconds.toNat < 10 ^ 6 := by
  induction components generalizing d with
  | nil => exact below
  | cons c components ih =>
    obtain ⟨first, others⟩ := forall_mem_cons.mp valid
    exact ih others (c.apply_microseconds first below)

/-- The normalization keeps the length, if the days fit; the interval it gives is always
shorter than `2 ^ 32` days. -/
theorem Duration.interval_usec (below : d.microseconds.toNat < 10 ^ 6) :
    d.interval.usec < 2 ^ 32 * 86400 * 10 ^ 6 ∧
      (d.secondsOf < 2 ^ 32 * 86400 →
        d.interval.usec = d.secondsOf * 10 ^ 6 + d.microseconds.toNat) := by
  constructor
  · simp only [interval, Interval.usec, UInt64.toNat_toUInt32, UInt64.toNat_mod,
      UInt64.reduceToNat]
    omega
  · intro small
    rw [secondsOf] at small ⊢
    have minutes : (d.minutes + d.seconds / 60).toNat = d.minutes.toNat + d.seconds.toNat / 60 := by
      simp only [UInt64.toNat_add, UInt64.toNat_div, UInt64.reduceToNat]
      omega
    have hours : (d.hours + (d.minutes + d.seconds / 60) / 60).toNat =
        d.hours.toNat + (d.minutes.toNat + d.seconds.toNat / 60) / 60 := by
      rw [UInt64.toNat_add, UInt64.toNat_div, minutes]
      simp only [UInt64.reduceToNat]
      omega
    have products : (d.years * 365).toNat = d.years.toNat * 365 ∧
        (d.months * 30).toNat = d.months.toNat * 30 := by
      simp only [UInt64.toNat_mul, UInt64.reduceToNat]
      omega
    have days : (d.days + (d.hours + (d.minutes + d.seconds / 60) / 60) / 24 + d.years * 365 +
        d.years / 4 + d.months * 30 + d.months / 2).toNat =
        d.days.toNat + (d.hours.toNat + (d.minutes.toNat + d.seconds.toNat / 60) / 60) / 24 +
          d.years.toNat * 365 + d.years.toNat / 4 + d.months.toNat * 30 + d.months.toNat / 2 := by
      simp only [UInt64.toNat_add, UInt64.toNat_div, hours, products, UInt64.reduceToNat]
      omega
    simp only [interval, Interval.usec, UInt64.toNat_toUInt32, UInt64.toNat_mod, days, hours,
      minutes, UInt64.reduceToNat]
    omega

/-! ## Acceptance -/

/-- An interval comes from the duration parser alone. -/
theorem parseWSManDatetime_eq_interval {i : Interval}
    (accepted : parseWSManDatetime s = some (.interval i)) :
    ∃ p d, s = 80 :: p ∧ readAll {} p = some d ∧ d.interval = i := by
  have timeOnly : ∀ str p x, parseTimeOnly str p x ≠ some (.interval i) := by
    intro str p x
    unfold parseTimeOnly
    split
    · split
      · split <;> nofun
      · nofun
    · nofun
  unfold parseWSManDatetime at accepted
  split at accepted
  · cases accepted
  next p =>
    obtain ⟨_, parsed, same⟩ := map_eq_some_iff.mp accepted
    obtain ⟨d, read, normal⟩ := map_eq_some_iff.mp parsed
    exact ⟨p, d, rfl, read, normal.trans (Datetime.interval.inj same)⟩
  · split at accepted
    · split at accepted
      · cases accepted
      · cases accepted
      · split at accepted
        · cases accepted
        · cases accepted
        · exact absurd accepted (timeOnly _ _ _)
      · exact absurd accepted (timeOnly _ _ _)
    · exact absurd accepted (timeOnly _ _ _)

theorem IsDuration.plain (duration : IsDuration s components) : ∀ x ∈ s, isSkipped x = false := by
  have letters : ∀ k : Designator, isSkipped k.letter = false := by
    intro k
    cases k <;> rfl
  rw [duration.text]
  refine forall_mem_cons.mpr ⟨rfl, fun x inside => ?_⟩
  obtain ⟨c, member, inside⟩ := mem_flatMap.mp inside
  rcases mem_append.mp inside with front | last
  · exact ((duration.valid c member).number_plain x front).1
  · rw [mem_singleton.mp last]
    exact letters c.kind

theorem Component.Valid.decimals_digits (valid : c.Valid) :
    ∀ d ∈ c.decimals, isDigit d = true := by
  cases c with
  | time | whole kind digits => exact nofun
  | fraction digits decimals => exact valid.2.2

/-- The part of the length that is not read. -/
def Component.lost (c : Component) : NNRat :=
  digitsValue 10 (c.decimals.drop 6) * 10 ^ 6 / 10 ^ c.decimals.length

theorem Component.Valid.usec_eq (valid : c.Valid) : c.usec = c.readUsec + c.lost := by
  have scaled : (digitsValue 10 c.decimals : NNRat) * 10 ^ 6 =
      fractionValue c.decimals * 10 ^ c.decimals.length +
        digitsValue 10 (c.decimals.drop 6) * 10 ^ 6 := by
    exact_mod_cast fractionValue_scaled valid.decimals_digits
  unfold usec readUsec lost
  rw [scaled, add_div, mul_div_cancel_right₀ _ (by positivity)]
  rw [Nat.cast_add, Nat.cast_mul, Nat.cast_pow, Nat.cast_ofNat, add_assoc]

theorem Component.Valid.lost_eq_zero_iff (valid : c.Valid) :
    c.lost = 0 ↔ ∀ d ∈ c.decimals.drop 6, d = 48 := by
  have digits : ∀ d ∈ c.decimals.drop 6, isDigit d = true := fun d inside =>
    valid.decimals_digits d (mem_of_mem_drop inside)
  rw [← digitsValue_eq_zero_iff digits, lost]
  simp

/-- The components are read as their length exactly if nothing of it is lost. -/
theorem Component.sum_usec (valid : ∀ c ∈ components, c.Valid) :
    ((components.map readUsec).sum : NNRat) ≤ (components.map usec).sum ∧
      (((components.map readUsec).sum : NNRat) = (components.map usec).sum ↔
        ∀ c ∈ components, ∀ d ∈ c.decimals.drop 6, d = 48) := by
  have parts : (components.map usec).sum =
      ((components.map readUsec).sum : NNRat) + (components.map lost).sum := by
    rw [Nat.cast_list_sum, List.map_map, ← List.sum_map_add]
    exact congrArg List.sum (List.map_congr_left fun c inside => (valid c inside).usec_eq)
  rw [parts]
  refine ⟨le_self_add, ?_⟩
  rw [left_eq_add, List.sum_eq_zero_iff, List.forall_mem_map]
  exact forall₂_congr fun c inside => (valid c inside).lost_eq_zero_iff

/-- The length of a piece. -/
def pieceUsec (piece : Designator × List UInt8) : NNRat :=
  pieceSeconds piece * 10 ^ 6 +
    digitsValue 10 (pieceDecimals piece) * 10 ^ 6 / 10 ^ (pieceDecimals piece).length

/-- The components of a duration are its pieces. -/
theorem IsDuration.pieces (duration : IsDuration s components) :
    pieces false [] s.tail = components.map fun c => (c.kind, c.number) := by
  rw [duration.text]
  exact pieces_components duration.valid duration.phased

theorem IsDuration.sum_seconds (duration : IsDuration s components) :
    ((Base.pieces false [] s.tail).map pieceSeconds).sum =
      (components.map Component.secondsOf).sum := by
  rw [duration.pieces, List.map_map]
  exact congrArg List.sum
    (List.map_congr_left fun c inside => (duration.valid c inside).pieceSeconds)

theorem IsDuration.sum_usec (duration : IsDuration s components) :
    ((Base.pieces false [] s.tail).map pieceUsec).sum = (components.map Component.usec).sum := by
  rw [duration.pieces, List.map_map]
  refine congrArg List.sum (List.map_congr_left fun c inside => ?_)
  have valid := duration.valid c inside
  simp only [Function.comp_apply, pieceUsec, valid.pieceSeconds, valid.pieceDecimals,
    Component.usec]

theorem IsDuration.exact_iff (duration : IsDuration s components) :
    (∀ piece ∈ Base.pieces false [] s.tail, ∀ d ∈ (pieceDecimals piece).drop 6, d = 48) ↔
      ∀ c ∈ components, ∀ d ∈ c.decimals.drop 6, d = 48 := by
  rw [duration.pieces, List.forall_mem_map]
  refine forall₂_congr fun c inside => ?_
  rw [(duration.valid c inside).pieceDecimals]

/-- A plain text in order that is short enough is read component by component. -/
theorem Duration.interval_components (plain : ∀ x ∈ p, isSkipped x = false)
    (read : readAll {} p = some d)
    (ordered : ((pieces false [] p).map Prod.fst).Sublist Designator.order)
    (fits : ((pieces false [] p).map pieceSeconds).sum < 2 ^ 32 * 86400) :
    ∃ components, IsDuration (80 :: p) components ∧
      d.interval.usec = (components.map Component.readUsec).sum := by
  obtain ⟨components, rfl, valid, phased, folded⟩ := readAll_components plain read
  have cut := pieces_components valid phased
  have kinds : (components.map Component.kind).Sublist Designator.order := by
    rw [cut, List.map_map] at ordered
    exact ordered
  have duration : IsDuration (80 :: components.flatMap Component.text) components :=
    ⟨rfl, valid, kinds, phased⟩
  have short : (components.map Component.secondsOf).sum < 2 ^ 32 * 86400 := by
    rw [← duration.sum_seconds]
    exact fits
  have below := foldl_microseconds (d := {}) valid (by decide)
  have lengths := foldl_length (d := {}) valid (kinds.nodup (by decide))
    (fun k _ => by cases k <;> trivial) short
  have zero : secondsOf {} = 0 := by decide
  simp only [← folded, zero, Nat.zero_add, UInt64.toNat_zero] at below lengths
  refine ⟨components, duration, ?_⟩
  rw [(interval_usec below).2 (by omega), lengths.2]
  omega

theorem Component.secondsOf_le_readUsec (components : List Component) :
    (components.map secondsOf).sum * 10 ^ 6 ≤ (components.map readUsec).sum := by
  induction components with
  | nil => exact Nat.le_refl 0
  | cons c components ih =>
    rw [map_cons, map_cons, sum_cons, sum_cons, Nat.add_mul]
    exact Nat.add_le_add (Nat.le_add_right _ _) ih

/-- A text that is accepted as a duration follows the grammar and is read as its length
exactly if it is plain. -/
theorem parseWSManDatetime_duration_iff {s : List UInt8} {i : Interval}
    (accepted : parseWSManDatetime s = some (.interval i)) :
    (∃ components, IsDuration s components ∧
      (i.usec : NNRat) = (components.map Component.usec).sum) ↔ PlainDuration s := by
  obtain ⟨p, d, rfl, read, rfl⟩ := parseWSManDatetime_eq_interval accepted
  constructor
  · rintro ⟨components, duration, length⟩
    have plain := duration.plain
    have behind := (List.forall_mem_cons.mp plain).2
    have ordered : ((pieces false [] p).map Prod.fst).Sublist Designator.order := by
      have kinds := duration.ordered
      have cut : pieces false [] p = _ := duration.pieces
      rw [cut, List.map_map]
      exact kinds
    have fits : ((pieces false [] p).map pieceSeconds).sum < 2 ^ 32 * 86400 := by
      obtain ⟨_, -, valid', -, folded⟩ := readAll_components behind read
      have below := foldl_microseconds (d := {}) valid' (by decide)
      rw [← folded] at below
      have short := (interval_usec below).1
      have least := Component.secondsOf_le_readUsec components
      have most : (components.map Component.readUsec).sum ≤ d.interval.usec := by
        exact_mod_cast length ▸ (Component.sum_usec duration.valid).1
      have seconds : ((pieces false [] p).map pieceSeconds).sum = _ := duration.sum_seconds
      rw [seconds]
      omega
    refine ⟨plain, ordered, fits, ?_⟩
    -- the components that were read are other ones, but have the same pieces
    obtain ⟨components', duration', whole⟩ := interval_components behind read ordered fits
    rw [duration'.exact_iff, ← (Component.sum_usec duration'.valid).2, ← whole, length,
      ← duration.sum_usec, duration'.sum_usec]
  · rintro ⟨plain, ordered, fits, exact⟩
    obtain ⟨components, duration, whole⟩ :=
      interval_components (List.forall_mem_cons.mp plain).2 read ordered fits
    refine ⟨components, duration, ?_⟩
    rw [whole]
    exact (Component.sum_usec duration.valid).2.mpr (duration.exact_iff.mp exact)

/-- One year, two months and three days, ten hours, thirty minutes and five and a quarter
seconds. -/
theorem parseWSManDatetime_duration_plain :
    ∃ components, IsDuration (ascii "P1Y2M3DT10H30M5.2500000S") components ∧
      (Interval.usec ⟨429, 10, 30, 5, 250000⟩ : NNRat) = (components.map Component.usec).sum :=
  (parseWSManDatetime_duration_iff (i := ⟨429, 10, 30, 5, 250000⟩) (by decide +kernel)).mpr
    ⟨by decide +kernel, by decide +kernel, by decide +kernel, by decide +kernel⟩

/-- A signed number is accepted that no duration contains; a designator that comes twice
counts once; a number of days wraps; and the seventh digit of a fraction is lost. -/
theorem parseWSManDatetime_duration_faults :
    (parseWSManDatetime (ascii "P-1347M") = some (.interval ⟨4294926212, 0, 0, 0, 0⟩) ∧
      ¬ ∃ components, IsDuration (ascii "P-1347M") components) ∧
    parseWSManDatetime (ascii "P1D2D") = some (.interval ⟨2, 0, 0, 0, 0⟩) ∧
    parseWSManDatetime (ascii "P4294967297D") = some (.interval ⟨1, 0, 0, 0, 0⟩) ∧
    parseWSManDatetime (ascii "PT0.0000009S") = some (.interval ⟨0, 0, 0, 0, 0⟩) := by
  refine ⟨⟨by decide +kernel, ?_⟩, by decide +kernel, by decide +kernel, by decide +kernel⟩
  rintro ⟨components, duration⟩
  exact absurd (duration.plain 45 (by decide +kernel)) (by decide)

end Omi.Base
