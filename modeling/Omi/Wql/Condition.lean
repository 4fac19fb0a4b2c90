import Omi.Wql.Eval

/-!
# Conditions of the WQL grammar

The trees below are the derivations of `Condition` and `Predicate` in the
grammar. A null test has no production of its own: it is a comparison with the
operand `NULL`.

`Condition.emit` runs the semantic actions of the productions in the order in
which the parser reduces them, with their overflow tests. `Condition.denote` is
the meaning of a tree by recursion over it; it mentions neither symbols nor a
stack. The relation between the two is proved in `Omi.Wql.Correctness`.
-/

namespace Omi.Wql

open List Option

variable {R : Type}

/-- The three productions of `Property`. -/
inductive Property where
  | plain (name : ZString)
  | embedded (name embeddedPropertyName : ZString)
  | embeddedOf (name embeddedClassName embeddedPropertyName : ZString)

/-- The productions of `Operand`. -/
inductive Operand (R : Type) where
  | boolean (value : Bool)
  | integer (value : Int64)
  | real (value : R)
  | string (value : ZString)
  | null
  | property (p : Property)

/-- The productions of `Predicate`. -/
inductive Predicate (R : Type) where
  | compare (op : CompareOp) (lhs rhs : Operand R)
  | isa (name className : ZString)

/-- The productions of `Condition`. -/
inductive Condition (R : Type) where
  | paren (c : Condition R)
  | not (c : Condition R)
  | and (a b : Condition R)
  | or (a b : Condition R)
  | predicate (p : Predicate R)

/-- `WQL_Dialect`. -/
inductive Dialect where
  | wql
  | cql
deriving DecidableEq, Repr

/-! ## Semantic actions -/

/-- The actions of `Property`. -/
def Property.symbol : Property → Symbol R
  | plain name => .identifier name none none
  | embedded name propertyName => .identifier name none (some propertyName)
  | embeddedOf name className propertyName => .identifier name (some className) (some propertyName)

/-- The actions of `Operand`. -/
def Operand.symbol : Operand R → Symbol R
  | boolean value => .boolean (if value then 1 else 0)
  | integer value => .integer value
  | real value => .real value
  | string value => .string value
  | null => .null
  | property p => p.symbol

/-- Append an operator, as the actions for NOT, AND and OR do. -/
def pushOperator (operator : Symbol R) (symbols : List (Symbol R)) :
    Option (List (Symbol R)) :=
  if symbols.length = maxSymbols then none else some (symbols ++ [operator])

/-- Append two operands and their operator, as every action of `Predicate` does. -/
def pushPredicate (lhs rhs operator : Symbol R) (symbols : List (Symbol R)) :
    Option (List (Symbol R)) :=
  if maxSymbols < symbols.length + 3 then none else some (symbols ++ [lhs, rhs, operator])

/-- The actions of `Predicate`. LIKE is rejected in the CQL dialect. -/
def Predicate.emit (dialect : Dialect) (symbols : List (Symbol R)) :
    Predicate R → Option (List (Symbol R))
  | compare op lhs rhs =>
    if op = .like ∧ dialect ≠ .wql then none
    else pushPredicate lhs.symbol rhs.symbol op.symbol symbols
  | isa name className => pushPredicate (.string name) (.string className) .isa symbols

/-- The actions of `Condition`; the operands of a production are reduced before it. -/
def Condition.emit (dialect : Dialect) :
    Condition R → List (Symbol R) → Option (List (Symbol R))
  | paren c, symbols => c.emit dialect symbols
  | not c, symbols => c.emit dialect symbols >>= pushOperator .not
  | and a b, symbols => a.emit dialect symbols >>= b.emit dialect >>= pushOperator .and
  | or a b, symbols => a.emit dialect symbols >>= b.emit dialect >>= pushOperator .or
  | predicate p, symbols => p.emit dialect symbols

/-- The symbols of a predicate in the order in which they are recorded. -/
def Predicate.program : Predicate R → List (Symbol R)
  | compare op lhs rhs => [lhs.symbol, rhs.symbol, op.symbol]
  | isa name className => [.string name, .string className, .isa]

/-- The operands-first form of a condition. -/
def Condition.program : Condition R → List (Symbol R)
  | paren c => c.program
  | not c => c.program ++ [.not]
  | and a b => a.program ++ b.program ++ [.and]
  | or a b => a.program ++ b.program ++ [.or]
  | predicate p => p.program

/-- Only the WQL dialect has LIKE. -/
def Predicate.Supported (dialect : Dialect) : Predicate R → Prop
  | compare op _ _ => op = .like → dialect = .wql
  | isa _ _ => True

/-- Every predicate of the tree belongs to the dialect. -/
def Condition.Supported (dialect : Dialect) : Condition R → Prop
  | paren c | not c => c.Supported dialect
  | and a b | or a b => a.Supported dialect ∧ b.Supported dialect
  | predicate p => p.Supported dialect

theorem Predicate.program_length (p : Predicate R) : p.program.length = 3 := by
  cases p <;> rfl

theorem Condition.three_le_program_length (c : Condition R) : 3 ≤ c.program.length := by
  induction c with
  | paren c ih => exact ih
  | not c ih | and a b iha ihb | or a b iha ihb => simp only [program, length_append]; omega
  | predicate p => exact Nat.le_of_eq p.program_length.symm

theorem Predicate.emit_of_fits {dialect : Dialect} {p : Predicate R}
    {symbols : List (Symbol R)} (supported : p.Supported dialect)
    (fits : symbols.length + p.program.length ≤ maxSymbols) :
    p.emit dialect symbols = some (symbols ++ p.program) := by
  rw [p.program_length] at fits
  cases p with
  | compare op lhs rhs =>
    have noReject : ¬(op = .like ∧ dialect ≠ .wql) := fun h => h.2 (supported h.1)
    simp [emit, noReject, pushPredicate, Nat.not_lt.mpr fits, program]
  | isa name className =>
    simp [emit, pushPredicate, Nat.not_lt.mpr fits, program]

theorem pushOperator_of_lt {operator : Symbol R} {symbols : List (Symbol R)}
    (room : symbols.length < maxSymbols) :
    pushOperator operator symbols = some (symbols ++ [operator]) := by
  simp [pushOperator, Nat.ne_of_lt room]

/-- The overflow tests of the actions pass exactly because the whole program
fits: each test sees a leading part of it. -/
theorem Condition.emit_of_fits {dialect : Dialect} {c : Condition R}
    (symbols : List (Symbol R)) (supported : c.Supported dialect)
    (fits : symbols.length + c.program.length ≤ maxSymbols) :
    c.emit dialect symbols = some (symbols ++ c.program) := by
  induction c generalizing symbols with
  | paren c ih => exact ih symbols supported fits
  | not c ih =>
    simp only [program, length_append, length_singleton] at fits
    have inner := ih symbols supported (show symbols.length + c.program.length ≤ maxSymbols by omega)
    simp only [emit, inner, bind_eq_bind, bind_some, program]
    rw [pushOperator_of_lt (by simp only [length_append]; omega), append_assoc]
  | and a b iha ihb | or a b iha ihb =>
    simp only [program, length_append, length_singleton] at fits
    have left := iha symbols supported.1 (by omega)
    have right := ihb (symbols ++ a.program) supported.2
      (by simp only [length_append]; omega)
    simp only [emit, left, right, bind_eq_bind, bind_some, program]
    rw [pushOperator_of_lt (by simp only [length_append]; omega)]
    simp only [append_assoc]
  | predicate p => exact Predicate.emit_of_fits supported fits

/-! ## Meaning by recursion over the tree -/

/-- The values an operand can have during evaluation. -/
inductive Datum (R : Type) where
  | boolean (value : UInt8)
  | integer (value : Int64)
  | real (value : R)
  | string (value : ZString)
  | null

/-- A value as the evaluator stores it. -/
def Datum.symbol : Datum R → Symbol R
  | boolean value => .boolean value
  | integer value => .integer value
  | real value => .real value
  | string value => .string value
  | null => .null

/-- The value of a looked-up symbol; operators and names have none. -/
def Symbol.datum : Symbol R → Option (Datum R)
  | .boolean value => some (.boolean value)
  | .integer value => some (.integer value)
  | .real value => some (.real value)
  | .string value => some (.string value)
  | .null => some .null
  | _ => none

/-- The value of a property, or `none` if the lookup fails. -/
def Property.denote (lookup : Lookup R) : Property → Option (Datum R)
  | plain name => lookup name none none .or >>= Symbol.datum
  | embedded name propertyName => lookup name none (some propertyName) .or >>= Symbol.datum
  | embeddedOf name className propertyName =>
    lookup name (some className) (some propertyName) .or >>= Symbol.datum

/-- The value of an operand. -/
def Operand.denote (lookup : Lookup R) : Operand R → Option (Datum R)
  | boolean value => some (.boolean (if value then 1 else 0))
  | integer value => some (.integer value)
  | real value => some (.real value)
  | string value => some (.string value)
  | null => some .null
  | property p => p.denote lookup

/-- Accept a reading that consumed a nonempty text completely. -/
def readWhole {β : Type} (text : List UInt8) (reading : β × List UInt8) : Option β :=
  if text ≠ [] ∧ reading.2 = [] then some reading.1 else none

/-- Text read as an integer, if all of it is one. -/
def readInteger (text : ZString) : Option Int64 := readWhole text.chars (tcstoll text.chars)

/-- Text read as a real, if all of it is one. -/
def readReal (prims : Prims R) (text : ZString) : Option R :=
  readWhole text.chars (prims.strtod text.chars)

/-- The texts `true` and `false`, in any case. -/
def readBoolean (text : ZString) : Option UInt8 :=
  if tcscasecmp text.chars (ZString.ofString "true").chars = 0 then some 1
  else if tcscasecmp text.chars (ZString.ofString "false").chars = 0 then some 0
  else none

/-- Three-way order of integers. -/
def orderInteger (a b : Int64) : Int := if a < b then -1 else if b < a then 1 else 0

/-- Three-way order of reals. -/
def orderReal (prims : Prims R) (a b : R) : Int :=
  if prims.realLt a b then -1 else if prims.realLt b a then 1 else 0

/-- Three-way order of booleans. -/
def orderBoolean (a b : UInt8) : Int := (a.toNat : Int) - b.toNat

/-- Three-way order of two values. Text is read as the other value's type; values
of different types are otherwise not comparable. -/
def order (prims : Prims R) : Datum R → Datum R → Option Int
  | .boolean a, .boolean b => some (orderBoolean a b)
  | .integer a, .integer b => some (orderInteger a b)
  | .real a, .real b => some (orderReal prims a b)
  | .string a, .string b => some (tcscasecmp a.chars b.chars)
  | .string a, .boolean b => (readBoolean a).map (orderBoolean · b)
  | .string a, .integer b => (readInteger a).map (orderInteger · b)
  | .string a, .real b => (readReal prims a).map (orderReal prims · b)
  | .boolean a, .string b => (readBoolean b).map (orderBoolean a ·)
  | .integer a, .string b => (readInteger b).map (orderInteger a ·)
  | .real a, .string b => (readReal prims b).map (orderReal prims a ·)
  | _, _ => none

/-- Only text can be like a pattern, and only text is a pattern. -/
def isLike (prims : Prims R) : Datum R → Datum R → Bool
  | .string text, .string pattern => prims.matchLike pattern text
  | _, _ => false

/-- The value of a comparison with at least one null operand: null equals only
null, and has no place in the order. -/
def CompareOp.withNull (op : CompareOp) (bothNull : Bool) : Option Bool :=
  match op with
  | .eq | .like => some bothNull
  | .ne => some (!bothNull)
  | _ => none

/-- The value of a comparison. -/
def CompareOp.holds (prims : Prims R) (op : CompareOp) (a b : Datum R) : Option Bool :=
  match a, b with
  | .null, .null => op.withNull true
  | .null, _ => op.withNull false
  | _, .null => op.withNull false
  | a, b =>
    match op with
    | .like => some (isLike prims a b)
    | op => (order prims a b).map op.test

/-- The answer of an ISA query, if the lookup gives one. -/
def Symbol.truth : Symbol R → Option Bool
  | .boolean a => some (a != 0)
  | _ => none

/-- The value of a predicate; `none` is an error. -/
def Predicate.denote (prims : Prims R) (lookup : Lookup R) : Predicate R → Option Bool
  | compare op lhs rhs => do
      let a ← lhs.denote lookup
      let b ← rhs.denote lookup
      op.holds prims a b
  | isa name className => lookup name (some className) none (.string className) >>= Symbol.truth

/-- The value of a condition. An error in any part is an error of the whole. -/
def Condition.denote (prims : Prims R) (lookup : Lookup R) : Condition R → Option Bool
  | paren c => c.denote prims lookup
  | not c => (c.denote prims lookup).map (!·)
  | and a b => do
      let x ← a.denote prims lookup
      let y ← b.denote prims lookup
      pure (x && y)
  | or a b => do
      let x ← a.denote prims lookup
      let y ← b.denote prims lookup
      pure (x || y)
  | predicate p => p.denote prims lookup

/-- The integer that reports a value: `0` for true, `1` for false, `-1` for an error. -/
def verdict : Option Bool → Int
  | some true => 0
  | some false => 1
  | none => -1

end Omi.Wql
