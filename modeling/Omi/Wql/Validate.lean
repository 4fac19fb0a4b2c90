import Omi.Base.Instance
import Omi.Wql.Acceptance
import Omi.Wql.Correctness
import Omi.Wql.Pieces

/-!
# Validating a query against a class

`WQL_Validate` looks up the names of the select list in a class declaration and then runs
the evaluator with a lookup that answers from the declaration. That run finds the
undeclared names it comes to, but it does not come to all of them: an ISA predicate is
answered without a look at its property, and a comparison with a property that holds an
embedded instance ends the run with success. So the names behind the first such
comparison, and the properties of ISA predicates, are not validated. If they are declared,
a validated query asks every instance of the class for declared properties only.
-/

namespace Omi.Wql

open List Option Omi.Base

variable {R : Type}

/-! ## Declarations and lookups -/

/-- The members of `MI_PropertyDecl` that a query is validated against. -/
structure PropertyDecl where
  name : ZString
  type : MiType

/-- The properties of an `MI_ClassDecl`. -/
structure ClassDecl where
  properties : List PropertyDecl

/-- `ClassDecl_FindPropertyDecl`. -/
def ClassDecl.findPropertyDecl (cd : ClassDecl) (name : ZString) : Option PropertyDecl :=
  if name.chars = [] then none else cd.properties.find? fun pd => sameName pd.name name

/-- The class declares a property of the name. -/
def ClassDecl.Declares (cd : ClassDecl) (name : ZString) : Prop :=
  (cd.findPropertyDecl name).isSome = true

/-- How values are read that are not logic of this component: numbers of type `double`,
`DatetimeToStr`, and the names of the class of an instance and of its superclasses. -/
structure Reading (R : Type) where
  zero : R
  real32 : Fin (256 ^ PlainType.real32.width) → R
  real64 : Fin (256 ^ PlainType.real64.width) → R
  datetimeToStr : Fin (256 ^ PlainType.datetime.width) → ZString
  superClasses : Instance → List ZString

/-- The `switch` of `_ValidateLookup`. -/
def declaredSymbol (reading : Reading R) : MiType → Option (Symbol R)
  | .scalar (.plain .boolean) => some (.boolean 0)
  | .scalar (.plain .real32) | .scalar (.plain .real64) => some (.real reading.zero)
  | .scalar (.plain .datetime) | .scalar .string => some (.string (.ofString ""))
  | .scalar (.plain _) => some (.integer 0)
  | .scalar .embedded => some .any
  | _ => none

/-- `_ValidateLookup`. -/
def validateLookup (reading : Reading R) (cd : ClassDecl) : Lookup R :=
  fun name embeddedClassName embeddedPropertyName _ =>
    if embeddedClassName.isSome && embeddedPropertyName.isNone then some (.boolean 1)
    else (cd.findPropertyDecl name).bind fun pd => declaredSymbol reading pd.type

/-- `WQL_Validate`. -/
def validate (prims : Prims R) (reading : Reading R) (cd : ClassDecl) (self : Parsed R) : Int :=
  if self.properties.any fun name => (cd.findPropertyDecl name).isNone then -1
  else if eval prims (validateLookup reading cd) self.toQuery = -1 then -1
  else 0

/-- `__MI_Instance_GetElement`. -/
def getElement (instance_ : Instance) (name : ZString) : Option Element :=
  instance_.elements.find? fun e => sameName e.name name

/-- The returns of `-1` in `WQL_LookupInstanceProperty`. -/
inductive LookupError where
  | noSuchProperty
  | notAnInstance
  | wrongClass
  | noSuchEmbeddedProperty
  | typeNotPermitted
deriving DecidableEq, Repr

/-- A number as `MI_Sint64`. -/
def toSint64 (t : PlainType) (x : Fin (256 ^ t.width)) : Int64 :=
  match t with
  | .sint8 | .sint16 | .sint32 | .sint64 =>
    .ofInt (if 256 ^ t.width ≤ 2 * x.val then (x.val : Int) - 256 ^ t.width else x.val)
  | _ => .ofInt x.val

/-- The `switch` of `WQL_LookupInstanceProperty`, behind the test for NULL. -/
def valueSymbol (reading : Reading R) : Value → Except LookupError (Symbol R)
  | .null _ => .ok .null
  | .plain .boolean x => .ok (.boolean (.ofNat x.val))
  | .plain .real32 x => .ok (.real (reading.real32 x))
  | .plain .real64 x => .ok (.real (reading.real64 x))
  | .plain .datetime x => .ok (.string (reading.datetimeToStr x))
  | .plain t x => .ok (.integer (toSint64 t x))
  | .string s => .ok (.string s)
  | _ => .error .typeNotPermitted

/-- `type == MI_INSTANCE && value.instance`. -/
def embeddedInstance : Value → Except LookupError Instance
  | .object false inner => .ok inner
  | _ => .error .notAnInstance

/-- Get a property of an embedded instance. -/
def embeddedElement (inner : Instance) (name : ZString) : Except LookupError Element :=
  match getElement inner name with
  | some element => .ok element
  | none => .error .noSuchEmbeddedProperty

/-- `WQL_LookupInstanceProperty`. -/
def lookupInstanceProperty (reading : Reading R) (instance_ : Instance) (name : ZString)
    (embeddedClassName embeddedPropertyName : Option ZString) : Except LookupError (Symbol R) :=
  match getElement instance_ name with
  | none => .error .noSuchProperty
  | some element =>
    match embeddedClassName, embeddedPropertyName with
    | none, none => valueSymbol reading element.value
    | some className, none => do
        let inner ← embeddedInstance element.value
        return .boolean (if className ∈ reading.superClasses inner then 1 else 0)
    | none, some propertyName => do
        let inner ← embeddedInstance element.value
        let element ← embeddedElement inner propertyName
        valueSymbol reading element.value
    | some className, some propertyName => do
        let inner ← embeddedInstance element.value
        if className ∉ reading.superClasses inner then .error .wrongClass
        else
          let element ← embeddedElement inner propertyName
          valueSymbol reading element.value

/-- The lookup of an instance as the evaluator sees it. -/
def instanceLookup (reading : Reading R) (instance_ : Instance) : Lookup R :=
  fun name embeddedClassName embeddedPropertyName _ =>
    (lookupInstanceProperty reading instance_ name embeddedClassName embeddedPropertyName).toOption

/-- The instance has the properties that the class declares. -/
def ClassDecl.HasInstance (cd : ClassDecl) (instance_ : Instance) : Prop :=
  instance_.elements.map (fun e => (e.name, e.value.type)) =
    cd.properties.map fun pd => (pd.name, pd.type)

/-! ## Names in a query -/

/-- The property that an operand names. -/
def Symbol.propertyName : Symbol R → Option ZString
  | .identifier name _ _ => some name
  | _ => none

/-- The properties that the operands of a piece name. -/
def Piece.operandNames : Piece R → List ZString
  | .connective _ => []
  | .predicate lhs rhs _ => lhs.propertyName.toList ++ rhs.propertyName.toList

/-- The property of an ISA predicate. -/
def Piece.isaNames : Piece R → List ZString
  | .predicate (.string property) _ .isa => [property]
  | _ => []

/-- An operand that names a property which holds an embedded instance. -/
def ClassDecl.isEmbedded (cd : ClassDecl) (operand : Symbol R) : Bool :=
  match operand.propertyName.bind cd.findPropertyDecl with
  | some pd => decide (pd.type = .scalar .embedded)
  | none => false

/-- A comparison with such an operand. -/
def ClassDecl.comparesEmbedded (cd : ClassDecl) : Piece R → Bool
  | .connective _ => false
  | .predicate lhs rhs _ => cd.isEmbedded lhs || cd.isEmbedded rhs

/-- The pieces behind the first comparison with an embedded instance. -/
def ClassDecl.unvisited (cd : ClassDecl) (ps : List (Piece R)) : List (Piece R) :=
  (ps.dropWhile fun p => !cd.comparesEmbedded p).tail

/-- A call of a lookup: the property, and the names for an embedded instance. -/
structure Call where
  name : ZString
  embeddedClassName : Option ZString
  embeddedPropertyName : Option ZString

/-- The call that evaluating a symbol makes on a stack. -/
def Symbol.asks : Symbol R → List (Symbol R) → Option Call
  | .identifier name className propertyName, _ => some ⟨name, className, propertyName⟩
  | .isa, .string className :: .string property :: _ => some ⟨property, some className, none⟩
  | _, _ => none

/-- Evaluating the program makes the call. -/
def Asks (prims : Prims R) (lookup : Lookup R) (program : List (Symbol R)) (call : Call) : Prop :=
  ∃ front sym back stack, program = front ++ sym :: back ∧
    evalLoop prims lookup front [] = .ok stack ∧ stack.length < maxSymbols ∧
    sym.asks stack = some call

/-- What validation is for: the class declares every name of the query, and no instance of
it is asked for a property it does not have. -/
structure Covered (prims : Prims R) (reading : Reading R) (cd : ClassDecl) (query : Parsed R) :
    Prop where
  selected : ∀ name ∈ query.properties, cd.Declares name
  operands : ∀ p ∈ pieces query.symbols, ∀ name ∈ p.operandNames, cd.Declares name
  isas : ∀ p ∈ pieces query.symbols, ∀ name ∈ p.isaNames, cd.Declares name
  known : ∀ instance_, cd.HasInstance instance_ → ∀ call,
    Asks prims (instanceLookup reading instance_) query.symbols call →
    lookupInstanceProperty reading instance_ call.name call.embeddedClassName
      call.embeddedPropertyName ≠ .error .noSuchProperty

/-! ## The run that validates -/

/-- The evaluator has not returned `-1`. -/
def Unfailed {α : Type} (outcome : Except Exit α) : Prop := ∀ e, outcome ≠ .error (.error e)

theorem Unfailed.of_bind {α β : Type} {x : Except Exit α} {f : α → Except Exit β}
    (h : Unfailed (x >>= f)) : Unfailed x := by
  rintro e rfl
  exact h e rfl

variable {prims : Prims R} {lookup : Lookup R} {program stack : List (Symbol R)}
  {className propertyName : Option ZString} {sym : Symbol R}

/-- A run that goes on behind its first symbol. -/
theorem Unfailed.evalLoop_cons {next : List (Symbol R)}
    (h : Unfailed (evalLoop prims lookup (sym :: program) stack))
    (went : evalSymbol prims lookup sym stack = .ok next) :
    Unfailed (evalLoop prims lookup program next) := by
  rw [evalLoop, went] at h
  exact h

variable {reading : Reading R}

theorem declaredSymbol_isAny {type : MiType} (h : declaredSymbol reading type = some sym) :
    sym.isAny = decide (type = .scalar .embedded) := by
  cases type with
  | array t => exact absurd h (some_ne_none _).symm
  | scalar t =>
    cases t with
    | plain t => cases t <;> (cases h; rfl)
    | string => cases h; rfl
    | reference => exact absurd h (some_ne_none _).symm
    | embedded => cases h; rfl

variable {name : ZString}

/-- An identifier that validation gets an answer for is declared. -/
theorem validateLookup_identifier {cd : ClassDecl} {incoming value : Symbol R}
    (operand : (Symbol.identifier name className propertyName : Symbol R).isConstantOrName = true)
    (h : validateLookup reading cd name className propertyName incoming = some value) :
    cd.Declares name ∧
      value.isAny = cd.isEmbedded (.identifier name className propertyName : Symbol R) := by
  have notIsa : (className.isSome && propertyName.isNone) = false := by
    cases className with
    | none => rfl
    | some c =>
      cases propertyName with
      | none => cases operand
      | some p => rfl
  rw [validateLookup, notIsa, if_neg Bool.false_ne_true] at h
  obtain ⟨pd, found, answer⟩ := bind_eq_some_iff.mp h
  refine ⟨?_, ?_⟩
  · rw [ClassDecl.Declares, found]
    rfl
  · rw [declaredSymbol_isAny answer]
    simp only [ClassDecl.isEmbedded, Symbol.propertyName, bind_some, found]

theorem evalConnective_ordinary (f : Bool → Bool → Bool) :
    evalConnective f stack ≠ .error .anyOperand := by
  unfold evalConnective
  split
  · split <;> exact nofun
  · exact nofun

theorem evalNot_ordinary : evalNot stack ≠ .error .anyOperand := by
  unfold evalNot
  split
  · split <;> exact nofun
  · exact nofun

theorem evalCompare_ordinary (prims : Prims R) (op : CompareOp) (s1 s2 : Symbol R) :
    evalCompare prims op s1 s2 ≠ .error .anyOperand := by
  unfold evalCompare
  split_ifs
  · split <;> exact nofun
  · split
    · exact nofun
    · split <;> exact nofun

/-- A step that neither fails nor ends the run goes on. -/
theorem Unfailed.goes_on {α : Type} {outcome : Except Exit α} (h : Unfailed outcome)
    (ordinary : outcome ≠ .error .anyOperand) : ∃ next, outcome = .ok next := by
  cases outcome with
  | ok next => exact ⟨next, rfl⟩
  | error exit =>
    cases exit with
    | anyOperand => exact absurd rfl ordinary
    | error e => exact absurd rfl (h e)

section Visit

variable {cd : ClassDecl}

/-- An operand that validation gets past. -/
theorem visit_operand (operand : sym.isConstantOrName = true)
    (h : Unfailed (evalSymbol prims (validateLookup reading cd) sym stack)) :
    ∃ value, evalSymbol prims (validateLookup reading cd) sym stack = .ok (value :: stack) ∧
      value.isAny = cd.isEmbedded sym ∧ (∀ name ∈ sym.propertyName.toList, cd.Declares name) ∧
      (sym.propertyName = none → value = sym) := by
  have room : ¬maxSymbols ≤ stack.length := by
    intro full
    exact h .stackOverflow (by rw [evalSymbol.eq_def, if_pos full])
  have noName : ∀ name ∈ (none : Option ZString).toList, cd.Declares name :=
    forall_mem_nil _
  cases sym with
  | identifier name className propertyName =>
    rw [evalSymbol, if_neg room] at h ⊢
    simp only [evalIdentifier] at h ⊢
    cases answer : validateLookup reading cd name className propertyName .or with
    | none =>
      rw [answer] at h
      exact absurd rfl (h .lookupFailed)
    | some value =>
      rw [answer] at h
      simp only at h ⊢
      obtain ⟨declared, isAny⟩ := validateLookup_identifier operand answer
      split_ifs at h ⊢ with type
      · exact ⟨value, rfl, isAny, forall_mem_singleton.mpr declared,
          fun same => by cases same⟩
      · exact absurd rfl (h .lookupType)
  | boolean value => exact ⟨.boolean value, by rw [evalSymbol, if_neg room], rfl, noName, fun _ => rfl⟩
  | integer value => exact ⟨.integer value, by rw [evalSymbol, if_neg room], rfl, noName, fun _ => rfl⟩
  | real value => exact ⟨.real value, by rw [evalSymbol, if_neg room], rfl, noName, fun _ => rfl⟩
  | string value => exact ⟨.string value, by rw [evalSymbol, if_neg room], rfl, noName, fun _ => rfl⟩
  | null => exact ⟨.null, by rw [evalSymbol, if_neg room], rfl, noName, fun _ => rfl⟩
  | _ => cases operand

theorem visit_connective (connective : sym.isConnective = true)
    (h : Unfailed (evalSymbol prims (validateLookup reading cd) sym stack)) :
    ∃ next, evalSymbol prims (validateLookup reading cd) sym stack = .ok next := by
  refine h.goes_on ?_
  rw [evalSymbol.eq_def]
  split_ifs
  · exact nofun
  · cases sym with
    | and | or => exact evalConnective_ordinary _
    | not => exact evalNot_ordinary
    | _ => cases connective

/-- A comparison goes on if neither operand is an embedded instance. -/
theorem visit_compareOp {op : CompareOp} {s1 s2 : Symbol R} (plain : (s2.isAny || s1.isAny) = false)
    (h : Unfailed (evalSymbol prims (validateLookup reading cd) op.symbol (s2 :: s1 :: stack))) :
    ∃ next, evalSymbol prims (validateLookup reading cd) op.symbol (s2 :: s1 :: stack) =
      .ok next := by
  refine h.goes_on ?_
  by_cases full : maxSymbols ≤ (s2 :: s1 :: stack).length
  · rw [evalSymbol.eq_def, if_pos full]
    simp
  · rw [evalSymbol_compareOp op (Nat.not_le.mp full), evalComparison, plain,
      if_neg Bool.false_ne_true]
    have ordinary := evalCompare_ordinary prims op s1 s2
    cases compared : evalCompare prims op s1 s2 with
    | ok sym => simp [Except.map]
    | error exit =>
      intro same
      rw [compared] at ordinary
      exact ordinary (congrArg Except.error (Except.error.inj same))

/-- An ISA predicate is passed whatever its property is. -/
theorem visit_isa {property className : ZString}
    (h : Unfailed (evalSymbol prims (validateLookup reading cd) .isa
      (.string className :: .string property :: stack))) :
    ∃ next, evalSymbol prims (validateLookup reading cd) .isa
      (.string className :: .string property :: stack) = .ok next := by
  refine h.goes_on ?_
  rw [evalSymbol.eq_def]
  split_ifs
  · exact nofun
  · exact nofun

theorem unvisited_cons (p : Piece R) (ps : List (Piece R)) :
    cd.unvisited (p :: ps) = if cd.comparesEmbedded p then ps else cd.unvisited ps := by
  rw [ClassDecl.unvisited, dropWhile_cons]
  cases cd.comparesEmbedded p with
  | true | false => rfl

/-- Every piece that validation passes names declared properties only, or it stands behind
the comparison that ended the run. -/
theorem declared_or_unvisited {ps : List (Piece R)} (valid : ∀ p ∈ ps, p.Valid) :
    ∀ stack, Unfailed (evalLoop prims (validateLookup reading cd)
      (ps.flatMap Piece.symbols) stack) →
    ∀ p ∈ ps, p ∈ cd.unvisited ps ∨ ∀ name ∈ p.operandNames, cd.Declares name := by
  induction ps with
  | nil => exact fun _ _ => forall_mem_nil _
  | cons p ps ih =>
    intro stack run
    rw [forall_mem_cons] at valid
    have later : ∀ next, Unfailed (evalLoop prims (validateLookup reading cd)
        (ps.flatMap Piece.symbols) next) → cd.comparesEmbedded p = false →
        ∀ q ∈ ps, q ∈ cd.unvisited (p :: ps) ∨ ∀ name ∈ q.operandNames, cd.Declares name := by
      intro next rest plain
      rw [unvisited_cons, plain, if_neg Bool.false_ne_true]
      exact ih valid.2 next rest
    rw [forall_mem_cons]
    cases valid.1 with
    | connective connective =>
      obtain ⟨next, went⟩ := visit_connective connective run.of_bind
      refine ⟨.inr (forall_mem_nil _), ?_⟩
      exact later next (run.evalLoop_cons went) rfl
    | isa property className =>
      obtain ⟨_, wentLeft, -, -, isLeft⟩ := visit_operand rfl run.of_bind
      obtain rfl := isLeft rfl
      have run := run.evalLoop_cons wentLeft
      obtain ⟨_, wentRight, -, -, isRight⟩ := visit_operand rfl run.of_bind
      obtain rfl := isRight rfl
      have run := run.evalLoop_cons wentRight
      obtain ⟨next, went⟩ := visit_isa run.of_bind
      refine ⟨.inr (forall_mem_nil _), ?_⟩
      exact later next (run.evalLoop_cons went) rfl
    | @compare lhs rhs op left right =>
      obtain ⟨s1, wentLeft, anyLeft, declaredLeft, -⟩ := visit_operand left run.of_bind
      have run := run.evalLoop_cons wentLeft
      obtain ⟨s2, wentRight, anyRight, declaredRight, -⟩ := visit_operand right run.of_bind
      have run := run.evalLoop_cons wentRight
      refine ⟨.inr fun name inside => ?_, ?_⟩
      · obtain inside | inside := mem_append.mp inside
        · exact declaredLeft name inside
        · exact declaredRight name inside
      · cases embedded : cd.comparesEmbedded (.predicate lhs rhs op.symbol : Piece R) with
        | true =>
          rw [unvisited_cons, embedded, if_pos rfl]
          exact fun q inside => .inl inside
        | false =>
          have plain : (s2.isAny || s1.isAny) = false := by
            rw [anyLeft, anyRight, Bool.or_comm]
            exact embedded
          obtain ⟨next, went⟩ := visit_compareOp plain run.of_bind
          exact later next (run.evalLoop_cons went) embedded

end Visit

/-! ## The calls of an evaluation -/

theorem compareOp_ne_isa (op : CompareOp) : (op.symbol : Symbol R) ≠ .isa := by
  cases op <;> exact nofun

/-- The ISA symbol of a piece is its last one, behind the two strings. -/
theorem isa_in_piece {p : Piece R} (valid : p.Valid) {front back : List (Symbol R)}
    (split : p.symbols = front ++ .isa :: back) :
    ∃ property className, front = [.string property, .string className] ∧
      p = .predicate (.string property) (.string className) .isa := by
  have inside : Symbol.isa ∈ p.symbols :=
    split ▸ mem_append_right front mem_cons_self
  cases valid with
  | connective connective =>
    rw [← mem_singleton.mp inside] at connective
    cases connective
  | @compare lhs rhs op left right =>
    obtain rfl | inside := mem_cons.mp inside
    · cases left
    · obtain rfl | inside := mem_cons.mp inside
      · cases right
      · exact absurd (mem_singleton.mp inside).symm (compareOp_ne_isa op)
  | isa property className =>
    refine ⟨property, className, ?_, rfl⟩
    obtain _ | ⟨a, _ | ⟨b, _ | ⟨c, front⟩⟩⟩ := front
    · cases (cons.inj split).1
    · cases (cons.inj (cons.inj split).2).1
    · obtain ⟨first, tail⟩ := cons.inj split
      obtain ⟨second, -⟩ := cons.inj tail
      rw [← first, ← second]
    · have lengths := congrArg length split
      simp only [Piece.symbols, length_cons, length_append, length_nil] at lengths
      omega

/-- An ISA symbol stands behind the two strings of its predicate. -/
theorem isa_position {ps : List (Piece R)} (valid : ∀ p ∈ ps, p.Valid) :
    ∀ {front back : List (Symbol R)}, ps.flatMap Piece.symbols = front ++ .isa :: back →
      ∃ before property className, front = before ++ [.string property, .string className] ∧
        .predicate (.string property) (.string className) .isa ∈ ps := by
  induction ps with
  | nil =>
    intro front back split
    exact absurd split.symm (append_ne_nil_of_right_ne_nil front (cons_ne_nil _ _))
  | cons p ps ih =>
    intro front back split
    rw [forall_mem_cons] at valid
    have later : ∀ inner, front = p.symbols ++ inner →
        ps.flatMap Piece.symbols = inner ++ .isa :: back →
        ∃ before property className, front = before ++ [.string property, .string className] ∧
          .predicate (.string property) (.string className) .isa ∈ p :: ps := by
      intro inner isFront rest
      obtain ⟨before, property, className, isInner, found⟩ := ih valid.2 rest
      refine ⟨p.symbols ++ before, property, className, ?_, mem_cons_of_mem p found⟩
      rw [isFront, isInner, append_assoc]
    obtain ⟨inner, isFront, rest⟩ | ⟨inner, isPiece, rest⟩ := append_eq_append_iff.mp split
    · exact later inner isFront rest
    · cases inner with
      | nil =>
        rw [append_nil] at isPiece
        exact later [] (isPiece.symm.trans (append_nil _).symm) rest.symm
      | cons sym inner =>
        cases rest
        obtain ⟨property, className, isFront, rfl⟩ := isa_in_piece valid.1 isPiece
        exact ⟨[], property, className, isFront, mem_cons_self⟩

theorem evalLoop_string {s : ZString} {final : List (Symbol R)}
    (h : evalLoop prims lookup (.string s :: program) stack = .ok final) :
    evalLoop prims lookup program (.string s :: stack) = .ok final := by
  rw [evalLoop, evalSymbol] at h
  split_ifs at h
  · cases h
  · exact h

/-- Running up to two strings leaves them on the stack. -/
theorem evalLoop_strings {before : List (Symbol R)} {property className : ZString}
    (h : evalLoop prims lookup (before ++ [.string property, .string className]) [] = .ok stack) :
    ∃ below, stack = .string className :: .string property :: below := by
  rw [evalLoop_append] at h
  cases ran : evalLoop prims lookup before [] with
  | error exit =>
    rw [ran] at h
    cases h
  | ok below =>
    rw [ran] at h
    have final := evalLoop_string (evalLoop_string h)
    exact ⟨below, (Except.ok.inj final).symm⟩

theorem operandName_of_mem {p : Piece R} (valid : p.Valid)
    (h : Symbol.identifier name className propertyName ∈ p.symbols) : name ∈ p.operandNames := by
  cases valid with
  | connective connective =>
    rw [← mem_singleton.mp h] at connective
    cases connective
  | @compare lhs rhs op _ _ =>
    obtain rfl | h := mem_cons.mp h
    · exact mem_append_left _ mem_cons_self
    · obtain rfl | h := mem_cons.mp h
      · exact mem_append_right _ mem_cons_self
      · have same := mem_singleton.mp h
        cases op <;> cases same
  | isa property class_ =>
    obtain same | h := mem_cons.mp h
    · cases same
    · obtain same | h := mem_cons.mp h
      · cases same
      · cases mem_singleton.mp h

/-- An evaluation asks for names of the query only, whatever the lookup answers. -/
theorem name_of_asks {call : Call} (pieced : Pieced program) (h : Asks prims lookup program call) :
    ∃ p ∈ pieces program, call.name ∈ p.operandNames ∨ call.name ∈ p.isaNames := by
  obtain ⟨ps, rfl, valid⟩ := pieced
  obtain ⟨front, sym, back, stack, split, ran, -, asks⟩ := h
  rw [pieces_flatMap valid]
  cases sym with
  | identifier name className propertyName =>
    cases asks
    have inside : Symbol.identifier name className propertyName ∈ ps.flatMap Piece.symbols :=
      split ▸ mem_append_right front mem_cons_self
    obtain ⟨p, found, here⟩ := mem_flatMap.mp inside
    exact ⟨p, found, .inl (operandName_of_mem (valid p found) here)⟩
  | isa =>
    obtain ⟨before, property, className, rfl, found⟩ := isa_position valid split
    obtain ⟨below, rfl⟩ := evalLoop_strings ran
    cases asks
    exact ⟨_, found, .inr mem_cons_self⟩
  | _ => exact absurd asks (some_ne_none call).symm

/-- The lookup did not fail for want of the property itself. -/
def Knows {α : Type} (outcome : Except LookupError α) : Prop := outcome ≠ .error .noSuchProperty

theorem Knows.bind {α β : Type} {x : Except LookupError α} {f : α → Except LookupError β}
    (first : Knows x) (then_ : ∀ a, Knows (f a)) : Knows (x >>= f) := by
  cases x with
  | ok a => exact then_ a
  | error e =>
    intro same
    exact first (congrArg Except.error (Except.error.inj same))

theorem knows_embeddedInstance (value : Value) : Knows (embeddedInstance value) := by
  unfold embeddedInstance
  split <;> exact nofun

theorem knows_embeddedElement (inner : Instance) : Knows (embeddedElement inner name) := by
  unfold embeddedElement
  split <;> exact nofun

theorem knows_valueSymbol (value : Value) : Knows (valueSymbol reading value) := by
  unfold valueSymbol
  split <;> exact nofun

/-- A property that is found is read, or the lookup fails for another reason. -/
theorem knows_lookup {instance_ : Instance} {element : Element}
    (found : getElement instance_ name = some element) :
    Knows (lookupInstanceProperty reading instance_ name className propertyName) := by
  rw [lookupInstanceProperty, found]
  cases className with
  | none =>
    cases propertyName with
    | none => exact knows_valueSymbol _
    | some propertyName =>
      refine (knows_embeddedInstance _).bind fun inner => ?_
      exact (knows_embeddedElement inner).bind fun e => knows_valueSymbol _
  | some className =>
    cases propertyName with
    | none => exact (knows_embeddedInstance _).bind fun inner => nofun
    | some propertyName =>
      refine (knows_embeddedInstance _).bind fun inner => ?_
      split_ifs
      · exact (knows_embeddedElement inner).bind fun e => knows_valueSymbol _
      · exact nofun

/-- An instance has every property that its class declares. -/
theorem lookup_of_declares {cd : ClassDecl} {instance_ : Instance}
    (isInstance : cd.HasInstance instance_) (declared : cd.Declares name) :
    lookupInstanceProperty reading instance_ name className propertyName ≠
      .error .noSuchProperty := by
  have known : (getElement instance_ name).isSome = true := by
    rw [ClassDecl.Declares, ClassDecl.findPropertyDecl] at declared
    split_ifs at declared
    · cases declared
    · obtain ⟨pd, inside, same⟩ := find?_isSome.mp declared
      have found : (pd.name, pd.type) ∈ instance_.elements.map fun e => (e.name, e.value.type) :=
        isInstance ▸ mem_map_of_mem inside
      obtain ⟨e, inElements, isPair⟩ := mem_map.mp found
      refine find?_isSome.mpr ⟨e, inElements, ?_⟩
      rw [(Prod.mk.inj isPair).1]
      exact same
  obtain ⟨element, found⟩ := isSome_iff_exists.mp known
  exact knows_lookup found

/-! ## Validated queries -/

theorem unfailed_of_validate {cd : ClassDecl} {query : Parsed R}
    (h : validate prims reading cd query = 0) :
    (∀ name ∈ query.properties, cd.Declares name) ∧
      Unfailed (evalLoop prims (validateLookup reading cd) query.symbols []) := by
  rw [validate] at h
  split_ifs at h with missing failed
  refine ⟨fun name inside => ?_, fun e error => ?_⟩
  · rw [List.any_eq_true, not_exists] at missing
    have found : ¬(cd.findPropertyDecl name).isNone = true := fun none => missing name ⟨inside, none⟩
    rw [ClassDecl.Declares, ← Option.not_isNone, Bool.not_eq_true']
    exact Bool.eq_false_iff.mpr found
  · refine failed ?_
    cases symbols : query.symbols with
    | nil =>
      rw [symbols] at error
      cases error
    | cons sym program =>
      rw [eval, run, error]
      split_ifs with noClass empty
      · rfl
      · rw [symbols] at empty
        cases empty
      · rfl

/-- A validated query is covered by its class exactly if the class declares the properties
of its ISA predicates and the names behind the first comparison with an embedded
instance. -/
theorem validate_covered_iff {prims : Prims R} {dialect : Dialect} {text : ZString}
    {query : Parsed R} (reading : Reading R) (cd : ClassDecl)
    (parsed : Parses prims dialect text (some query))
    (valid : validate prims reading cd query = 0) :
    Covered prims reading cd query ↔
      (∀ p ∈ pieces query.symbols, ∀ name ∈ p.isaNames, cd.Declares name) ∧
      ∀ p ∈ cd.unvisited (pieces query.symbols), ∀ name ∈ p.operandNames, cd.Declares name := by
  have pieced := parsed.pieced
  obtain ⟨selected, run⟩ := unfailed_of_validate valid
  constructor
  · intro covered
    refine ⟨covered.isas, fun p inside => covered.operands p ?_⟩
    exact (dropWhile_sublist _).mem (mem_of_mem_tail inside)
  · rintro ⟨isas, unvisited⟩
    have operands : ∀ p ∈ pieces query.symbols, ∀ name ∈ p.operandNames, cd.Declares name := by
      obtain ⟨ps, program, allValid⟩ := pieced
      rw [program, pieces_flatMap allValid] at unvisited ⊢
      rw [program] at run
      intro p inside
      obtain behind | declared := declared_or_unvisited allValid [] run p inside
      · exact unvisited p behind
      · exact declared
    refine ⟨selected, operands, isas, fun instance_ isInstance call asks => ?_⟩
    obtain ⟨p, inside, named | isa⟩ := name_of_asks pieced asks
    · exact lookup_of_declares isInstance (operands p inside _ named)
    · exact lookup_of_declares isInstance (isas p inside _ isa)

/-- A reading for queries without real numbers and dates. -/
def noReading : Reading Unit where
  zero := ()
  real32 _ := ()
  real64 _ := ()
  datetimeToStr _ := .ofString ""
  superClasses _ := []

/-- A class with one property, which holds an embedded instance. -/
def embeddingClass : ClassDecl where
  properties := [⟨.ofString "e", .scalar .embedded⟩]

/-- An instance of it. -/
def embeddingInstance : Instance where
  className := .ofString "A"
  flags := 0
  nameSpace := none
  serverName := none
  elements := [⟨.ofString "e", 0, .null (.scalar .embedded)⟩]

/-- A query of the class `A` for whole instances. -/
def queryOf (symbols : List (Symbol Unit)) : Parsed Unit where
  className := some (.ofString "A")
  symbols := symbols
  properties := []

/-- An identifier without embedded names. -/
def named (name : String) : Symbol Unit := .identifier (.ofString name) none none

/-- The property of an embedded instance. -/
def namedIn (name inner : String) : Symbol Unit :=
  .identifier (.ofString name) none (some (.ofString inner))

theorem parses_of_runFor {text : ZString} {query : Parsed Unit} (n : Nat)
    (h : Parser.runFor noPrims .wql n (.start text.chars) = some (some query)) :
    Parses noPrims .wql text (some query) :=
  Parser.runs_of_runFor n h

/-- A query on a property of the embedded instance is validated and covered. -/
theorem validate_covered_embedded :
    Parses noPrims .wql (.ofString "SELECT * FROM A WHERE e.a = 1")
      (some (queryOf [namedIn "e" "a", .integer 1, .eq])) ∧
    validate noPrims noReading embeddingClass (queryOf [namedIn "e" "a", .integer 1, .eq]) = 0 ∧
    Covered noPrims noReading embeddingClass (queryOf [namedIn "e" "a", .integer 1, .eq]) := by
  have parsed : Parses noPrims .wql (.ofString "SELECT * FROM A WHERE e.a = 1")
      (some (queryOf [namedIn "e" "a", .integer 1, .eq])) :=
    parses_of_runFor 60 (by decide)
  have valid : validate noPrims noReading embeddingClass
      (queryOf [namedIn "e" "a", .integer 1, .eq]) = 0 := by decide
  refine ⟨parsed, valid, (validate_covered_iff noReading embeddingClass parsed valid).mpr ⟨?_, ?_⟩⟩
  · intro p inside name isa
    obtain rfl := mem_singleton.mp inside
    cases isa
  · exact fun p inside => absurd inside not_mem_nil

/-- An ISA predicate on an undeclared property is validated, and evaluating it fails for
want of the property; an undeclared property behind a comparison with an embedded instance
is validated as well. -/
theorem validate_misses_names :
    (∃ query, Parses noPrims .wql (.ofString "SELECT * FROM A WHERE x ISA B") (some query) ∧
      validate noPrims noReading embeddingClass query = 0 ∧
      embeddingClass.HasInstance embeddingInstance ∧
      eval noPrims (instanceLookup noReading embeddingInstance) query.toQuery = -1 ∧
      ¬Covered noPrims noReading embeddingClass query) ∧
    ∃ query, Parses noPrims .wql (.ofString "SELECT * FROM A WHERE e.a = 1 AND x = 1")
        (some query) ∧
      validate noPrims noReading embeddingClass query = 0 ∧
      ¬Covered noPrims noReading embeddingClass query := by
  have undeclared : ¬embeddingClass.Declares (.ofString "x") := by
    rw [ClassDecl.Declares]
    decide
  refine ⟨⟨queryOf [.string (.ofString "x"), .string (.ofString "B"), .isa], ?_, by decide,
      rfl, by decide, fun covered => undeclared ?_⟩,
    queryOf [namedIn "e" "a", .integer 1, .eq, named "x", .integer 1, .eq, .and], ?_,
      by decide, fun covered => undeclared ?_⟩
  · exact parses_of_runFor 60 (by decide)
  · exact covered.isas _ mem_cons_self _ mem_cons_self
  · exact parses_of_runFor 60 (by decide)
  · exact covered.operands _ (mem_cons_of_mem _ mem_cons_self) _ mem_cons_self

end Omi.Wql
