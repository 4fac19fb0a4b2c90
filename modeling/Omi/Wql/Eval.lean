import Omi.Wql.Symbol

/-!
# The postfix evaluator

`evalSymbol` is one iteration of the loop of `WQL_Eval`: it consumes a symbol
and rewrites the evaluation stack, whose head is the top. `evalLoop` iterates
it over a program and `eval` adds the tests before and after the loop.

The source returns `-1` at every failure. Here each failing branch keeps its own
name in `EvalError`, so that a statement can say which branch was taken; the
integer of the source is recovered by `exitCode`. The immediate `return 0` for
an operand of type `WQL_TYPE_ANY` is a separate way to leave the loop.
-/

namespace Omi.Wql

variable {R : Type}

/-- The branches of `WQL_Eval` that return `-1`. -/
inductive EvalError where
  | invalidQuery
  | stackOverflow
  | stackUnderflow
  | operandNotBoolean
  | orderingOfNull
  | typeMismatch
  | lookupFailed
  | lookupType
  | isaOperand
  | notOneResult
  | resultNotBoolean
deriving DecidableEq, Repr

/-- How the evaluation loop is left before the end of the program. -/
inductive Exit where
  /-- `return 0`: an operand has the type only `_ValidateLookup` produces. -/
  | anyOperand
  /-- `return -1`. -/
  | error (e : EvalError)
deriving DecidableEq, Repr

/-- `WQL_Lookup`: `none` is a nonzero return. The last argument is the incoming
contents of the result symbol, which the callee may leave as they are. -/
abbrev Lookup (R : Type) :=
  ZString → Option ZString → Option ZString → Symbol R → Option (Symbol R)

/-- `_FixupTypeAux`: convert a string to the type of the other operand. -/
def fixupTypeAux (prims : Prims R) (sym : Symbol R) (type : Symbol R) : Option (Symbol R) :=
  match sym with
  | .string text =>
    match type with
    | .real _ =>
      let (value, rest) := prims.strtod text.chars
      if rest = text.chars then none
      else if rest ≠ [] then none
      else some (.real value)
    | .integer _ =>
      let (value, rest) := tcstoll text.chars
      if rest = text.chars then none
      else if rest ≠ [] then none
      else some (.integer value)
    | .boolean _ =>
      if tcscasecmp text.chars (ZString.ofString "true").chars = 0 then some (.boolean 1)
      else if tcscasecmp text.chars (ZString.ofString "false").chars = 0 then
        some (.boolean 0)
      else none
    | _ => none
  | _ => none

/-- `lhs->type == rhs->type`. -/
def Symbol.sameType : Symbol R → Symbol R → Bool
  | .or, .or | .and, .and | .not, .not | .eq, .eq | .ne, .ne | .lt, .lt | .le, .le
  | .gt, .gt | .ge, .ge | .like, .like | .isa, .isa | .null, .null | .any, .any => true
  | .identifier .., .identifier .. => true
  | .boolean _, .boolean _ => true
  | .integer _, .integer _ => true
  | .real _, .real _ => true
  | .string _, .string _ => true
  | _, _ => false

/-- `_FixupType`: if exactly one operand is a string, convert it to the type of
the other. -/
def fixupType (prims : Prims R) (lhs rhs : Symbol R) : Option (Symbol R × Symbol R) :=
  if lhs.sameType rhs then some (lhs, rhs)
  else
    match lhs, rhs with
    | .string _, _ => (fixupTypeAux prims lhs rhs).map (fun lhs => (lhs, rhs))
    | _, .string _ => (fixupTypeAux prims rhs lhs).map (fun rhs => (lhs, rhs))
    | _, _ => none

/-- `_Compare`: negative, zero or positive. The type of the first operand selects
the comparison, and the callers have made the types equal. -/
def compare (prims : Prims R) : Symbol R → Symbol R → Int
  | .boolean a, .boolean b => (a.toNat : Int) - b.toNat
  | .integer a, .integer b => if a < b then -1 else if b < a then 1 else 0
  | .real a, .real b => if prims.realLt a b then -1 else if prims.realLt b a then 1 else 0
  | .string a, .string b => tcscasecmp a.chars b.chars
  | _, _ => -1

/-- `_CompareLike`: zero for a match of two strings, `-1` for everything else. -/
def compareLike (prims : Prims R) : Symbol R → Symbol R → Int
  | .string text, .string pattern => if prims.matchLike pattern text then 0 else -1
  | _, _ => -1

/-- The comparison operators, in the order of the case labels. -/
inductive CompareOp where
  | eq
  | ne
  | lt
  | le
  | gt
  | ge
  | like
deriving DecidableEq, Repr

/-- The symbol under which the parser records a comparison operator. -/
def CompareOp.symbol : CompareOp → Symbol R
  | .eq => .eq
  | .ne => .ne
  | .lt => .lt
  | .le => .le
  | .gt => .gt
  | .ge => .ge
  | .like => .like

/-- The inner `switch (type)`: read a three-way result under an operator. -/
def CompareOp.test (op : CompareOp) (r : Int) : Bool :=
  match op with
  | .eq | .like => r = 0
  | .ne => r ≠ 0
  | .lt => r < 0
  | .le => r ≤ 0
  | .gt => 0 < r
  | .ge => 0 ≤ r

/-- `s.value.boolean = f ? 1 : 0` on a fresh symbol. -/
def ofFlag (f : Bool) : Symbol R := .boolean (if f then 1 else 0)

/-- A comparison of two operands that are not `WQL_TYPE_ANY`. -/
def evalCompare (prims : Prims R) (op : CompareOp) (s1 s2 : Symbol R) :
    Except Exit (Symbol R) :=
  if s1.isNull || s2.isNull then
    let bothNull := s1.isNull && s2.isNull
    match op with
    | .eq | .like => .ok (ofFlag bothNull)
    | .ne => .ok (ofFlag (!bothNull))
    | _ => .error (.error .orderingOfNull)
  else
    match op with
    | .like => .ok (ofFlag (op.test (compareLike prims s1 s2)))
    | _ =>
      match fixupType prims s1 s2 with
      | none => .error (.error .typeMismatch)
      | some (lhs, rhs) => .ok (ofFlag (op.test (compare prims lhs rhs)))

/-- The cases `WQL_TYPE_AND` and `WQL_TYPE_OR`. -/
def evalConnective (f : Bool → Bool → Bool) : List (Symbol R) → Except Exit (List (Symbol R))
  | s2 :: s1 :: stack =>
    match s1, s2 with
    | .boolean a, .boolean b => .ok (ofFlag (f (a != 0) (b != 0)) :: stack)
    | _, _ => .error (.error .operandNotBoolean)
  | _ => .error (.error .stackUnderflow)

/-- The case `WQL_TYPE_NOT`. -/
def evalNot : List (Symbol R) → Except Exit (List (Symbol R))
  | s1 :: stack =>
    match s1 with
    | .boolean a => .ok (ofFlag (!(a != 0)) :: stack)
    | _ => .error (.error .operandNotBoolean)
  | _ => .error (.error .stackUnderflow)

/-- The cases `WQL_TYPE_EQ` to `WQL_TYPE_LIKE`. -/
def evalComparison (prims : Prims R) (op : CompareOp) :
    List (Symbol R) → Except Exit (List (Symbol R))
  | s2 :: s1 :: stack =>
    if s2.isAny || s1.isAny then .error .anyOperand
    else (evalCompare prims op s1 s2).map (· :: stack)
  | _ => .error (.error .stackUnderflow)

/-- The case `WQL_TYPE_ISA`. Unlike a property lookup, the type of the symbol
that comes back is not tested here; the incoming symbol is the class name. -/
def evalIsa (lookup : Lookup R) : List (Symbol R) → Except Exit (List (Symbol R))
  | s2 :: s1 :: stack =>
    match s1, s2 with
    | .string property, .string className =>
      match lookup property (some className) none (.string className) with
      | none => .error (.error .lookupFailed)
      | some tmp => .ok (tmp :: stack)
    | _, _ => .error (.error .isaOperand)
  | _ => .error (.error .stackUnderflow)

/-- The case `WQL_TYPE_IDENTIFIER`. The symbol handed to the lookup is zeroed, and
the tag with value zero is `WQL_TYPE_OR`. -/
def evalIdentifier (lookup : Lookup R) (name : ZString)
    (embeddedClassName embeddedPropertyName : Option ZString) : Except Exit (Symbol R) :=
  match lookup name embeddedClassName embeddedPropertyName .or with
  | none => .error (.error .lookupFailed)
  | some tmp => if tmp.isOperand then .ok tmp else .error (.error .lookupType)

/-- One iteration of the loop of `WQL_Eval`. -/
def evalSymbol (prims : Prims R) (lookup : Lookup R) (sym : Symbol R)
    (stack : List (Symbol R)) : Except Exit (List (Symbol R)) :=
  if maxSymbols ≤ stack.length then .error (.error .stackOverflow)
  else
    match sym with
    | .and => evalConnective (· && ·) stack
    | .or => evalConnective (· || ·) stack
    | .not => evalNot stack
    | .eq => evalComparison prims .eq stack
    | .ne => evalComparison prims .ne stack
    | .lt => evalComparison prims .lt stack
    | .le => evalComparison prims .le stack
    | .gt => evalComparison prims .gt stack
    | .ge => evalComparison prims .ge stack
    | .like => evalComparison prims .like stack
    | .identifier name className propertyName =>
      (evalIdentifier lookup name className propertyName).map (· :: stack)
    | .boolean _ | .integer _ | .real _ | .string _ | .null | .any => .ok (sym :: stack)
    | .isa => evalIsa lookup stack

/-- The loop over the program. -/
def evalLoop (prims : Prims R) (lookup : Lookup R) :
    List (Symbol R) → List (Symbol R) → Except Exit (List (Symbol R))
  | [], stack => .ok stack
  | sym :: program, stack => evalSymbol prims lookup sym stack >>= evalLoop prims lookup program

/-- The tests after the loop: one symbol is left and it is a boolean. -/
def finish : List (Symbol R) → Except Exit Bool
  | [s] =>
    match s with
    | .boolean a => .ok (a != 0)
    | _ => .error (.error .resultNotBoolean)
  | _ => .error (.error .notOneResult)

/-- The fields of `WQL` that evaluation reads. -/
structure Query (R : Type) where
  className : Option ZString
  symbols : List (Symbol R)

/-- `WQL_Eval` before its result is turned into an integer. -/
def run (prims : Prims R) (lookup : Lookup R) (wql : Query R) : Except Exit Bool :=
  if wql.className.isNone then .error (.error .invalidQuery)
  else if wql.symbols.isEmpty then .ok true
  else evalLoop prims lookup wql.symbols [] >>= finish

/-- The integer the source returns: `0` for a match, `1` for a mismatch, `-1` for an
error. -/
def exitCode : Except Exit Bool → Int
  | .ok true => 0
  | .ok false => 1
  | .error .anyOperand => 0
  | .error (.error _) => -1

/-- `WQL_Eval`. -/
def eval (prims : Prims R) (lookup : Lookup R) (wql : Query R) : Int :=
  exitCode (run prims lookup wql)

theorem evalLoop_append (prims : Prims R) (lookup : Lookup R)
    (front back : List (Symbol R)) (stack : List (Symbol R)) :
    evalLoop prims lookup (front ++ back) stack =
      evalLoop prims lookup front stack >>= evalLoop prims lookup back := by
  induction front generalizing stack with
  | nil => rfl
  | cons sym front ih =>
    simp only [List.cons_append, evalLoop]
    cases evalSymbol prims lookup sym stack with
    | error e => rfl
    | ok next => exact ih next

end Omi.Wql
