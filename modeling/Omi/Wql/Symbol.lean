import Omi.Data.ZString

/-!
# Symbols of a compiled WHERE clause

`Symbol` is `WQL_Symbol`: a tag together with the value fields that are read
under that tag. The source keeps all value fields in one record and selects
them by `type`; a field that belongs to another tag is never read, so each
constructor carries only its own.

The program's arithmetic on `double`, `strtod` and the LIKE matcher are taken
as a parameter, `Prims`. Nothing below depends on what they compute.
-/

namespace Omi.Wql

/-- `WQL_MAX_SYMBOLS`: capacity of a compiled program and of the evaluation stack. -/
def maxSymbols : Nat := 64

/-- The primitives of the evaluator that are not logic of this component. -/
structure Prims (R : Type) where
  /-- `<` on `double`. -/
  realLt : R → R → Bool
  /-- `Tcstod`: the parsed value and the unread rest of the text. -/
  strtod : List UInt8 → R × List UInt8
  /-- `WQL_MatchLike(pattern, string, '\0')`. -/
  matchLike : ZString → ZString → Bool

/-- `WQL_Symbol`: an operator, an operand, or the name of a property. -/
inductive Symbol (R : Type) where
  | or
  | and
  | not
  | eq
  | ne
  | lt
  | le
  | gt
  | ge
  | like
  | isa
  | identifier (name : ZString) (embeddedClassName embeddedPropertyName : Option ZString)
  | boolean (value : UInt8)
  | integer (value : Int64)
  | real (value : R)
  | string (value : ZString)
  | null
  | any
deriving DecidableEq

variable {R : Type}

namespace Symbol

/-- `sym->type == WQL_TYPE_ANY`. -/
def isAny : Symbol R → Bool
  | any => true
  | _ => false

/-- `sym->type == WQL_TYPE_NULL`. -/
def isNull : Symbol R → Bool
  | null => true
  | _ => false

/-- The operand types that a property lookup may produce. -/
def isOperand : Symbol R → Bool
  | boolean _ | integer _ | real _ | string _ | null | any => true
  | _ => false

end Symbol

/-- `isspace` in the C locale. -/
def isSpace (c : UInt8) : Bool := c == 32 || (9 ≤ c && c ≤ 13)

/-- `isdigit`. -/
def isDigit (c : UInt8) : Bool := 48 ≤ c && c ≤ 57

/-- Accumulate a run of decimal digits and return it with the unread rest. -/
def digits (acc : Nat) : List UInt8 → Nat × List UInt8
  | [] => (acc, [])
  | c :: cs => if isDigit c then digits (acc * 10 + (c.toNat - 48)) cs else (acc, c :: cs)

/-- Values beyond the range of `long long` saturate, as `strtoll` specifies. -/
def saturate (v : Int) : Int64 :=
  if v < -2 ^ 63 then Int64.minValue
  else if 2 ^ 63 ≤ v then Int64.maxValue
  else Int64.ofInt v

/-- `Tcstoll` in base ten: optional blanks, an optional sign, then digits. Without
any digit nothing is consumed, so the rest equals the whole text. -/
def tcstoll (text : List UInt8) : Int64 × List UInt8 :=
  let body := text.dropWhile isSpace
  let (negative, unsigned) :=
    match body with
    | 45 :: rest => (true, rest)
    | 43 :: rest | rest => (false, rest)
  match unsigned with
  | c :: _ =>
    if isDigit c then
      let (value, rest) := digits 0 unsigned
      (saturate (if negative then -(value : Int) else value), rest)
    else (0, text)
  | [] => (0, text)

end Omi.Wql
