import Omi.Wql.Condition

/-!
# Compiled conditions evaluate to their meaning

The program of a condition, started on any stack with room for it, pushes one
symbol, or leaves the loop with an error. `Condition.value` names that outcome.
The induction is generalised over the stack below the program: the code of a
right operand always runs above the result of the left one.

An ISA predicate may push a symbol that is not a boolean, since the evaluator
tests the answer of the lookup only when it is consumed. The meaning of the tree
reports the error at the predicate. Both give the same verdict, because every
consumer of a condition's symbol tests its type.
-/

namespace Omi.Wql

open List

variable {R : Type} {prims : Prims R} {lookup : Lookup R}

/-- Branches that report a stack that is too full or too empty. -/
def EvalError.IsStackFault (e : EvalError) : Prop :=
  e = .stackOverflow ∨ e = .stackUnderflow ∨ e = .notOneResult

/-- Neither a stack fault nor the shortcut for `WQL_TYPE_ANY`. -/
def Exit.IsOrdinary : Exit → Prop
  | .anyOperand => False
  | .error e => ¬e.IsStackFault

/-- The symbol an operand leaves on the stack. -/
def Operand.value (lookup : Lookup R) : Operand R → Except Exit (Symbol R)
  | .property (.plain name) => evalIdentifier lookup name none none
  | .property (.embedded name propertyName) => evalIdentifier lookup name none (some propertyName)
  | .property (.embeddedOf name className propertyName) =>
    evalIdentifier lookup name (some className) (some propertyName)
  | operand => .ok operand.symbol

/-- The symbol a predicate leaves on the stack. -/
def Predicate.value (prims : Prims R) (lookup : Lookup R) : Predicate R → Except Exit (Symbol R)
  | compare op lhs rhs => do
      let s1 ← lhs.value lookup
      let s2 ← rhs.value lookup
      if s2.isAny || s1.isAny then .error .anyOperand else evalCompare prims op s1 s2
  | isa name className =>
    match lookup name (some className) none (.string className) with
    | none => .error (.error .lookupFailed)
    | some tmp => .ok tmp

/-- Combine two booleans as `evalConnective` does. -/
def connect (f : Bool → Bool → Bool) (s1 s2 : Symbol R) : Except Exit (Symbol R) :=
  match s1, s2 with
  | .boolean a, .boolean b => .ok (ofFlag (f (a != 0) (b != 0)))
  | _, _ => .error (.error .operandNotBoolean)

/-- Negate a boolean as `evalNot` does. -/
def negate (s : Symbol R) : Except Exit (Symbol R) :=
  match s with
  | .boolean a => .ok (ofFlag (!(a != 0)))
  | _ => .error (.error .operandNotBoolean)

/-- The symbol a condition leaves on the stack. -/
def Condition.value (prims : Prims R) (lookup : Lookup R) : Condition R → Except Exit (Symbol R)
  | paren c => c.value prims lookup
  | not c => c.value prims lookup >>= negate
  | and a b => do connect (· && ·) (← a.value prims lookup) (← b.value prims lookup)
  | or a b => do connect (· || ·) (← a.value prims lookup) (← b.value prims lookup)
  | predicate p => p.value prims lookup

/-! ## The machine computes `value` -/

variable {f : Bool → Bool → Bool}

@[simp] theorem evalConnective_cons_cons (s1 s2 : Symbol R) (stack : List (Symbol R)) :
    evalConnective f (s2 :: s1 :: stack) = (connect f s1 s2).map (· :: stack) := by
  cases s1 <;> cases s2 <;> rfl

@[simp] theorem evalNot_cons (s : Symbol R) (stack : List (Symbol R)) :
    evalNot (s :: stack) = (negate s).map (· :: stack) := by
  cases s <;> rfl

variable {stack : List (Symbol R)} {x y v : Except Exit (Symbol R)}

theorem evalSymbol_operand (operand : Operand R) (room : stack.length < maxSymbols) :
    evalSymbol prims lookup operand.symbol stack =
      (operand.value lookup).map (· :: stack) := by
  have notFull : ¬maxSymbols ≤ stack.length := Nat.not_le.mpr room
  cases operand with
  | property p => cases p <;> simp [evalSymbol, notFull, Operand.symbol, Property.symbol,
      Operand.value]
  | _ => simp [evalSymbol, notFull, Operand.symbol, Operand.value, Except.map]

theorem evalSymbol_compareOp (op : CompareOp) (room : stack.length < maxSymbols) :
    evalSymbol prims lookup op.symbol stack = evalComparison prims op stack := by
  have notFull : ¬maxSymbols ≤ stack.length := Nat.not_le.mpr room
  cases op <;> simp [evalSymbol, notFull, CompareOp.symbol]

theorem evalLoop_predicate {p : Predicate R} (room : stack.length + p.program.length ≤ maxSymbols) :
    evalLoop prims lookup p.program stack = (p.value prims lookup).map (· :: stack) := by
  rw [p.program_length] at room
  cases p with
  | compare op lhs rhs =>
    simp only [Predicate.program, evalLoop, Predicate.value]
    rw [evalSymbol_operand lhs (by omega)]
    cases lhs.value lookup with
    | error e => rfl
    | ok s1 =>
      change (evalSymbol prims lookup rhs.symbol (s1 :: stack) >>= _) = _
      rw [evalSymbol_operand rhs (by simp only [length_cons]; omega)]
      cases rhs.value lookup with
      | error e => rfl
      | ok s2 =>
        change (evalSymbol prims lookup op.symbol (s2 :: s1 :: stack) >>= _) = _
        rw [evalSymbol_compareOp op (by simp only [length_cons]; omega)]
        simp only [evalComparison]
        change _ = Except.map (· :: stack)
          (if s2.isAny || s1.isAny then .error .anyOperand else evalCompare prims op s1 s2)
        by_cases hany : (s2.isAny || s1.isAny) = true
        · simp only [hany, if_true]
          rfl
        · simp only [hany]
          cases evalCompare prims op s1 s2 <;> rfl
  | isa name className =>
    have h0 : ¬maxSymbols ≤ stack.length := by omega
    have h1 : ¬maxSymbols ≤ stack.length + 1 := by omega
    have h2 : ¬maxSymbols ≤ stack.length + 1 + 1 := by omega
    simp only [Predicate.program, evalLoop, Predicate.value, evalSymbol, h0, if_false]
    change (evalSymbol prims lookup (.string className) (.string name :: stack) >>= _) = _
    simp only [evalSymbol, length_cons, h1, if_false]
    change (evalSymbol prims lookup .isa (.string className :: .string name :: stack) >>= _) = _
    simp only [evalSymbol, length_cons, h2, if_false, evalIsa]
    cases lookup name (some className) none (.string className) <;> rfl

/-- One symbol after a program that pushes its value. -/
theorem evalLoop_append_singleton {program : List (Symbol R)} {sym : Symbol R}
    {value : Except Exit (Symbol R)}
    (pushes : evalLoop prims lookup program stack = value.map (· :: stack)) :
    evalLoop prims lookup (program ++ [sym]) stack =
      value >>= fun s => evalSymbol prims lookup sym (s :: stack) := by
  rw [evalLoop_append, pushes]
  cases value with
  | error e => rfl
  | ok s =>
    change (evalSymbol prims lookup sym (s :: stack) >>= fun next => .ok next) =
      evalSymbol prims lookup sym (s :: stack)
    cases evalSymbol prims lookup sym (s :: stack) <;> rfl

/-- A connective after the programs of its operands. -/
theorem evalLoop_connective {a b : List (Symbol R)} {sym : Symbol R}
    (left : evalLoop prims lookup a stack = x.map (· :: stack))
    (right : ∀ s, evalLoop prims lookup b (s :: stack) = y.map (· :: s :: stack))
    (operator : ∀ s1 s2, evalSymbol prims lookup sym (s2 :: s1 :: stack) =
      evalConnective f (s2 :: s1 :: stack)) :
    evalLoop prims lookup (a ++ b ++ [sym]) stack =
      Except.map (· :: stack) (do connect f (← x) (← y)) := by
  rw [append_assoc, evalLoop_append, left]
  cases x with
  | error e => rfl
  | ok s1 =>
    change evalLoop prims lookup (b ++ [sym]) (s1 :: stack) = _
    rw [evalLoop_append_singleton (right s1)]
    cases y with
    | error e => rfl
    | ok s2 =>
      change evalSymbol prims lookup sym (s2 :: s1 :: stack) = _
      rw [operator, evalConnective_cons_cons]
      rfl

/-- The code of a condition pushes its value on any stack that has room for it. -/
theorem evalLoop_condition {c : Condition R} (room : stack.length + c.program.length ≤ maxSymbols) :
    evalLoop prims lookup c.program stack = (c.value prims lookup).map (· :: stack) := by
  induction c generalizing stack with
  | paren c ih => exact ih room
  | not c ih =>
    have hc := c.three_le_program_length
    simp only [Condition.program, length_append, length_singleton] at room
    simp only [Condition.program, Condition.value]
    rw [evalLoop_append_singleton (ih (by omega))]
    cases c.value prims lookup with
    | error e => rfl
    | ok s =>
      change evalSymbol prims lookup .not (s :: stack) = (negate s).map (· :: stack)
      have notFull : ¬maxSymbols ≤ stack.length + 1 := by omega
      simp only [evalSymbol, length_cons, notFull, if_false, evalNot_cons]
  | and a b iha ihb | or a b iha ihb =>
    have ha := a.three_le_program_length
    have hb := b.three_le_program_length
    simp only [Condition.program, length_append, length_singleton] at room
    refine evalLoop_connective (iha (by omega))
      (fun s => ihb (by simp only [length_cons]; omega)) ?_
    intro s1 s2
    have notFull : ¬maxSymbols ≤ stack.length + 1 + 1 := by omega
    simp only [evalSymbol, length_cons, notFull, if_false]
  | predicate p => exact evalLoop_predicate room

/-! ## `value` reports the meaning -/

/-- An outcome of the machine reports a meaning: errors correspond, and a pushed
symbol has the truth value of the tree. A symbol without one counts as an error. -/
def Reports (value : Except Exit (Symbol R)) (meaning : Option Bool) : Prop :=
  match value with
  | .error e => e.IsOrdinary ∧ meaning = none
  | .ok s => s.truth = meaning

/-- No lookup answers with the type that only validation uses. -/
def NeverAny (lookup : Lookup R) : Prop :=
  ∀ name className propertyName incoming,
    lookup name className propertyName incoming ≠ some .any

theorem truth_ofFlag (f : Bool) : (ofFlag f : Symbol R).truth = some f := by
  cases f <;> rfl

theorem reports_ofFlag (f : Bool) :
    Reports (.ok (ofFlag f : Symbol R)) (some f) := truth_ofFlag f

theorem isOrdinary_of_ne {e : EvalError} (h1 : e ≠ .stackOverflow) (h2 : e ≠ .stackUnderflow)
    (h3 : e ≠ .notOneResult) : (Exit.error e).IsOrdinary := by
  rintro (rfl | rfl | rfl)
  · exact h1 rfl
  · exact h2 rfl
  · exact h3 rfl

@[simp] theorem Datum.isAny_symbol (d : Datum R) : d.symbol.isAny = false := by
  cases d <;> rfl

/-- Testing the unread rest twice, as `_FixupTypeAux` does, accepts exactly a
complete reading of a nonempty text. -/
theorem rest_tests {α β : Type} (text : List UInt8) (reading : β × List UInt8) (f : β → α) :
    (if reading.2 = text then none else if reading.2 ≠ [] then none else some (f reading.1)) =
      (readWhole text reading).map f := by
  unfold readWhole
  by_cases hrest : reading.2 = []
  · by_cases htext : text = []
    · simp [hrest, htext]
    · simp [hrest, htext, Ne.symm htext]
  · simp [hrest]

theorem fixupTypeAux_integer (text : ZString) (b : Int64) :
    fixupTypeAux prims (.string text) (.integer b) = (readInteger text).map .integer :=
  rest_tests text.chars (tcstoll text.chars) Symbol.integer

theorem fixupTypeAux_real (text : ZString) (b : R) :
    fixupTypeAux prims (.string text) (.real b) = (readReal prims text).map .real :=
  rest_tests text.chars (prims.strtod text.chars) Symbol.real

theorem fixupTypeAux_boolean (text : ZString) (b : UInt8) :
    fixupTypeAux prims (.string text) (.boolean b) = (readBoolean text).map .boolean := by
  simp only [fixupTypeAux, readBoolean]
  split
  · rfl
  · split <;> rfl

variable {a b : Datum R}

/-- The operands after `_FixupType`, compared, are in the order of the values. -/
theorem fixupType_compare (ha : a ≠ .null) (hb : b ≠ .null) :
    (fixupType prims a.symbol b.symbol).map (fun p => compare prims p.1 p.2) =
      order prims a b := by
  cases a with
  | null => exact absurd rfl ha
  | string a =>
    cases b with
    | null => exact absurd rfl hb
    | string b => rfl
    | boolean b =>
      change ((fixupTypeAux prims (.string a) (.boolean b)).map _).map _ = _
      rw [fixupTypeAux_boolean, order]
      cases readBoolean a <;> rfl
    | integer b =>
      change ((fixupTypeAux prims (.string a) (.integer b)).map _).map _ = _
      rw [fixupTypeAux_integer, order]
      cases readInteger a <;> rfl
    | real b =>
      change ((fixupTypeAux prims (.string a) (.real b)).map _).map _ = _
      rw [fixupTypeAux_real, order]
      cases readReal prims a <;> rfl
  | boolean a =>
    cases b with
    | null => exact absurd rfl hb
    | string b =>
      change ((fixupTypeAux prims (.string b) (.boolean a)).map _).map _ = _
      rw [fixupTypeAux_boolean, order]
      cases readBoolean b <;> rfl
    | _ => rfl
  | integer a =>
    cases b with
    | null => exact absurd rfl hb
    | string b =>
      change ((fixupTypeAux prims (.string b) (.integer a)).map _).map _ = _
      rw [fixupTypeAux_integer, order]
      cases readInteger b <;> rfl
    | _ => rfl
  | real a =>
    cases b with
    | null => exact absurd rfl hb
    | string b =>
      change ((fixupTypeAux prims (.string b) (.real a)).map _).map _ = _
      rw [fixupTypeAux_real, order]
      cases readReal prims b <;> rfl
    | _ => rfl

variable {op : CompareOp}

/-- A comparison with a null operand. -/
theorem evalCompare_null (hnull : a = .null ∨ b = .null) :
    Reports (evalCompare prims op a.symbol b.symbol) (op.holds prims a b) := by
  have ordinary : (Exit.error .orderingOfNull).IsOrdinary :=
    isOrdinary_of_ne (by decide) (by decide) (by decide)
  rcases hnull with rfl | rfl
  · cases b <;> cases op <;> first | exact reports_ofFlag _ | exact ⟨ordinary, rfl⟩
  · cases a <;> cases op <;> first | exact reports_ofFlag _ | exact ⟨ordinary, rfl⟩

theorem CompareOp.holds_of_ne_null (ha : a ≠ .null) (hb : b ≠ .null) :
    op.holds prims a b =
      if op = .like then some (isLike prims a b) else (order prims a b).map op.test := by
  cases a <;> cases b <;> first | exact absurd rfl ha | exact absurd rfl hb | (cases op <;> rfl)

theorem test_compareLike :
    CompareOp.test .like (compareLike prims a.symbol b.symbol) = isLike prims a b := by
  cases a <;> cases b <;> first | rfl | skip
  rename_i text pattern
  change CompareOp.test .like (if prims.matchLike pattern text then 0 else -1) =
    prims.matchLike pattern text
  cases prims.matchLike pattern text <;> rfl

theorem Datum.isNull_symbol_of_ne {d : Datum R} (h : d ≠ .null) : d.symbol.isNull = false := by
  cases d <;> first | rfl | exact absurd rfl h

theorem reports_evalCompare :
    Reports (evalCompare prims op a.symbol b.symbol) (op.holds prims a b) := by
  by_cases ha : a = .null
  · exact evalCompare_null (.inl ha)
  by_cases hb : b = .null
  · exact evalCompare_null (.inr hb)
  rw [CompareOp.holds_of_ne_null ha hb]
  have hnull : (a.symbol.isNull || b.symbol.isNull) = false := by
    rw [Datum.isNull_symbol_of_ne ha, Datum.isNull_symbol_of_ne hb]
    rfl
  unfold evalCompare
  simp only [hnull]
  by_cases hlike : op = .like
  · subst hlike
    rw [if_pos rfl, ← test_compareLike]
    exact reports_ofFlag _
  · rw [if_neg hlike, ← fixupType_compare ha hb]
    cases fixupType prims a.symbol b.symbol with
    | none =>
      have refused : Reports (R := R) (.error (.error .typeMismatch)) none :=
        ⟨isOrdinary_of_ne (by decide) (by decide) (by decide), rfl⟩
      cases op <;> first | exact absurd rfl hlike | exact refused
    | some p => cases op <;> first | exact absurd rfl hlike | exact reports_ofFlag _

theorem reports_negate {meaning : Option Bool} (h : Reports v meaning) :
    Reports (v >>= negate) (meaning.map (!·)) := by
  cases v with
  | error e =>
    obtain ⟨he, rfl⟩ := h
    exact ⟨he, rfl⟩
  | ok s =>
    obtain rfl : s.truth = meaning := h
    cases s with
    | boolean a => exact reports_ofFlag _
    | _ => exact ⟨isOrdinary_of_ne (by decide) (by decide) (by decide), rfl⟩

/-- A connective reports an error if either part does, also when the left part
pushed a symbol that turns out not to be a boolean. -/
theorem reports_connect {p q : Option Bool} (hx : Reports x p) (hy : Reports y q) :
    Reports (do connect f (← x) (← y)) (do pure (f (← p) (← q))) := by
  have ordinary : (Exit.error .operandNotBoolean).IsOrdinary :=
    isOrdinary_of_ne (by decide) (by decide) (by decide)
  cases x with
  | error e =>
    obtain ⟨he, rfl⟩ := hx
    exact ⟨he, rfl⟩
  | ok s1 =>
    obtain rfl : s1.truth = p := hx
    cases y with
    | error e =>
      obtain ⟨he, rfl⟩ := hy
      refine ⟨he, ?_⟩
      cases s1.truth <;> rfl
    | ok s2 =>
      obtain rfl : s2.truth = q := hy
      change Reports (connect f s1 s2) _
      cases s1 with
      | boolean a =>
        cases s2 with
        | boolean b => exact reports_ofFlag _
        | _ => exact ⟨ordinary, rfl⟩
      | _ => exact ⟨ordinary, rfl⟩

section

variable (neverAny : NeverAny lookup)
include neverAny

/-- A property lookup pushes a value of the tree, or fails where the tree does. -/
theorem evalIdentifier_cases (name : ZString) (className propertyName : Option ZString) :
    (∃ e, evalIdentifier lookup name className propertyName = .error e ∧ e.IsOrdinary ∧
        (lookup name className propertyName .or >>= Symbol.datum) = none) ∨
      ∃ d, evalIdentifier lookup name className propertyName = .ok d.symbol ∧
        (lookup name className propertyName .or >>= Symbol.datum) = some d := by
  unfold evalIdentifier
  have noAny := neverAny name className propertyName .or
  cases answer : lookup name className propertyName .or with
  | none =>
    exact .inl ⟨_, rfl, isOrdinary_of_ne (by decide) (by decide) (by decide), rfl⟩
  | some tmp =>
    rw [answer] at noAny
    cases tmp with
    | boolean v => exact .inr ⟨.boolean v, rfl, rfl⟩
    | integer v => exact .inr ⟨.integer v, rfl, rfl⟩
    | real v => exact .inr ⟨.real v, rfl, rfl⟩
    | string v => exact .inr ⟨.string v, rfl, rfl⟩
    | null => exact .inr ⟨.null, rfl, rfl⟩
    | any => exact absurd rfl noAny
    | _ => exact .inl ⟨_, rfl, isOrdinary_of_ne (by decide) (by decide) (by decide), rfl⟩

theorem Operand.value_cases (operand : Operand R) :
    (∃ e, operand.value lookup = .error e ∧ e.IsOrdinary ∧ operand.denote lookup = none) ∨
      ∃ d, operand.value lookup = .ok d.symbol ∧ operand.denote lookup = some d := by
  cases operand with
  | boolean value => exact .inr ⟨.boolean (if value then 1 else 0), rfl, rfl⟩
  | integer value => exact .inr ⟨.integer value, rfl, rfl⟩
  | real value => exact .inr ⟨.real value, rfl, rfl⟩
  | string value => exact .inr ⟨.string value, rfl, rfl⟩
  | null => exact .inr ⟨.null, rfl, rfl⟩
  | property p =>
    cases p with
    | plain name => exact evalIdentifier_cases neverAny name none none
    | embedded name propertyName =>
      exact evalIdentifier_cases neverAny name none (some propertyName)
    | embeddedOf name className propertyName =>
      exact evalIdentifier_cases neverAny name (some className) (some propertyName)

theorem Predicate.reports (p : Predicate R) :
    Reports (p.value prims lookup) (p.denote prims lookup) := by
  cases p with
  | compare op lhs rhs =>
    simp only [value, denote]
    obtain ⟨e, hv, he, hd⟩ | ⟨a, hv, hd⟩ := lhs.value_cases neverAny
    · rw [hv, hd]
      exact ⟨he, rfl⟩
    obtain ⟨e, hv', he, hd'⟩ | ⟨b, hv', hd'⟩ := rhs.value_cases neverAny
    · rw [hv, hd, hv', hd']
      exact ⟨he, rfl⟩
    rw [hv, hd, hv', hd']
    change Reports (if b.symbol.isAny || a.symbol.isAny then _ else _) (op.holds prims a b)
    simp only [Datum.isAny_symbol]
    exact reports_evalCompare
  | isa name className =>
    simp only [value, denote]
    cases lookup name (some className) none (.string className) with
    | none => exact ⟨isOrdinary_of_ne (by decide) (by decide) (by decide), rfl⟩
    | some tmp => exact rfl

theorem Condition.reports (c : Condition R) :
    Reports (c.value prims lookup) (c.denote prims lookup) := by
  induction c with
  | paren c ih => exact ih
  | not c ih => exact reports_negate ih
  | and a b iha ihb => exact reports_connect iha ihb
  | or a b iha ihb => exact reports_connect iha ihb
  | predicate p => exact p.reports neverAny

end

/-! ## The whole evaluator -/

theorem exitCode_finish_of_reports {meaning : Option Bool} (h : Reports v meaning) :
    exitCode (v.map (fun s => [s]) >>= finish) = verdict meaning ∧
      ∀ e, (v.map (fun s => [s]) >>= finish) = .error (.error e) → ¬e.IsStackFault := by
  cases v with
  | error e =>
    obtain ⟨he, rfl⟩ := h
    cases e with
    | anyOperand => exact False.elim he
    | error e =>
      refine ⟨rfl, ?_⟩
      intro e' heq
      obtain rfl : e = e' := by simpa using (Except.error.inj heq)
      exact he
  | ok s =>
    obtain rfl : s.truth = meaning := h
    cases s with
    | boolean a =>
      change exitCode (.ok (a != 0)) = verdict (some (a != 0)) ∧ _
      refine ⟨by cases (a != 0) <;> rfl, ?_⟩
      intro e heq
      cases heq
    | _ =>
      refine ⟨rfl, ?_⟩
      intro e heq
      obtain rfl : EvalError.resultNotBoolean = e := by simpa using (Except.error.inj heq)
      exact isOrdinary_of_ne (by decide) (by decide) (by decide)

/-- A condition whose program fits is emitted by the parser actions, evaluating
it gives the verdict of the tree, and no branch that reports a stack overflow, a
stack underflow or a wrong final stack is taken. -/
theorem eval_emitted_condition (prims : Prims R) (lookup : Lookup R)
    (neverAny : NeverAny lookup) (dialect : Dialect) (className : ZString) (c : Condition R)
    (supported : c.Supported dialect) (fits : c.program.length ≤ maxSymbols) :
    ∃ symbols, c.emit dialect [] = some symbols ∧
      eval prims lookup ⟨some className, symbols⟩ = verdict (c.denote prims lookup) ∧
      ∀ e, run prims lookup ⟨some className, symbols⟩ = .error (.error e) →
        ¬e.IsStackFault := by
  have emitted := Condition.emit_of_fits [] supported (by simpa using fits)
  refine ⟨c.program, by simpa using emitted, ?_⟩
  have nonempty : c.program.isEmpty = false := by
    have := c.three_le_program_length
    cases h : c.program with
    | nil => rw [h] at this; simp at this
    | cons sym rest => rfl
  have unfolded : run prims lookup ⟨some className, c.program⟩ =
      (c.value prims lookup).map (fun s => [s]) >>= finish := by
    simp only [run, Option.isNone_some, nonempty]
    rw [evalLoop_condition (by simpa using fits)]
    rfl
  simp only [eval, unfolded]
  exact exitCode_finish_of_reports (c.reports neverAny)

/-- `NOT a = 1` in a query over a class `C` whose property `a` is the integer 1. -/
theorem eval_emitted_condition_negated_equality :
    ∃ symbols, (Condition.not (.predicate (.compare .eq
        (.property (.plain (ZString.ofString "a"))) (.integer 1))) : Condition Unit).emit
          .wql [] = some symbols ∧
      eval ⟨fun _ _ => false, fun text => ((), text), fun _ _ => false⟩
        (fun _ _ _ _ => some (.integer 1)) ⟨some (ZString.ofString "C"), symbols⟩ = 1 := by
  obtain ⟨symbols, emitted, result, -⟩ := eval_emitted_condition
    ⟨fun _ _ => false, fun text => ((), text), fun _ _ => false⟩
    (fun _ _ _ _ => some (.integer 1)) (by intro _ _ _ _ h; cases h) .wql
    (ZString.ofString "C")
    (.not (.predicate (.compare .eq (.property (.plain (ZString.ofString "a"))) (.integer 1))))
    (by intro h; cases h) (by decide)
  exact ⟨symbols, emitted, result⟩

end Omi.Wql
