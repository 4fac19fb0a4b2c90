import Omi.Wql.Parser

/-!
# The shape of a parsed program

The actions of the parser append to the program in two ways only: a connective by
itself, or two operands and their operator at once. So the program of every query that
the parser returns is a sequence of such pieces, and `pieces` finds them again. The
operands of a comparison are constants and identifiers; those of ISA are the names of a
property and of a class, as strings.
-/

namespace Omi.Wql

open List Option

variable {R : Type} {prims : Prims R} {dialect : Dialect}

/-- What one action appends to the program. -/
inductive Piece (R : Type) where
  | connective (operator : Symbol R)
  | predicate (lhs rhs operator : Symbol R)

/-- The symbols of a piece. -/
def Piece.symbols : Piece R → List (Symbol R)
  | .connective operator => [operator]
  | .predicate lhs rhs operator => [lhs, rhs, operator]

/-- The operators of `Condition`. -/
def Symbol.isConnective : Symbol R → Bool
  | .not | .and | .or => true
  | _ => false

/-- A symbol that the actions of `Operand` build. An identifier with the name of an embedded
class has that of a property of it too. -/
def Symbol.isConstantOrName : Symbol R → Bool
  | .identifier _ (some _) none => false
  | .boolean _ | .integer _ | .real _ | .string _ | .null | .identifier .. => true
  | _ => false

/-- Split a program into its pieces. -/
def pieces : List (Symbol R) → List (Piece R)
  | [] => []
  | sym :: rest =>
    if sym.isConnective then .connective sym :: pieces rest
    else
      match rest with
      | rhs :: operator :: rest => .predicate sym rhs operator :: pieces rest
      | _ => []

/-- The pieces that the actions append. -/
inductive Piece.Valid : Piece R → Prop
  | connective {operator : Symbol R} : operator.isConnective = true →
      Valid (.connective operator)
  | compare {lhs rhs : Symbol R} (op : CompareOp) : lhs.isConstantOrName = true →
      rhs.isConstantOrName = true → Valid (.predicate lhs rhs op.symbol)
  | isa (property className : ZString) :
      Valid (.predicate (.string property) (.string className) .isa)

/-- A program of valid pieces. -/
def Pieced (program : List (Symbol R)) : Prop :=
  ∃ ps : List (Piece R), program = ps.flatMap Piece.symbols ∧ ∀ p ∈ ps, p.Valid

theorem isConnective_of_constantOrName {sym : Symbol R} (h : sym.isConstantOrName = true) :
    sym.isConnective = false := by
  cases sym <;> first | rfl | cases h

variable {operator lhs : Symbol R} {program next : List (Symbol R)} {query : Parsed R}
  {yyval : Yystype R}

theorem pieces_connective (h : operator.isConnective = true) (rest : List (Symbol R)) :
    pieces (operator :: rest) = .connective operator :: pieces rest := by
  obtain _ | ⟨a, _ | ⟨b, rest⟩⟩ := rest <;> simp only [pieces, h, if_true]

theorem pieces_predicate (h : lhs.isConnective = false) (rhs operator : Symbol R)
    (rest : List (Symbol R)) :
    pieces (lhs :: rhs :: operator :: rest) = .predicate lhs rhs operator :: pieces rest := by
  simp only [pieces, h, Bool.false_eq_true, if_false]

/-- Splitting finds the pieces of a program. -/
theorem pieces_flatMap {ps : List (Piece R)} (valid : ∀ p ∈ ps, p.Valid) :
    pieces (ps.flatMap Piece.symbols) = ps := by
  induction ps with
  | nil => rfl
  | cons p ps ih =>
    rw [forall_mem_cons] at valid
    have rest := ih valid.2
    cases valid.1 with
    | connective isConnective => exact (pieces_connective isConnective _).trans (congrArg (_ :: ·) rest)
    | compare op lhs _ =>
      exact (pieces_predicate (isConnective_of_constantOrName lhs) _ _ _).trans
        (congrArg (_ :: ·) rest)
    | isa property className =>
      exact (pieces_predicate rfl _ _ _).trans (congrArg (_ :: ·) rest)

theorem Pieced.nil : Pieced ([] : List (Symbol R)) :=
  ⟨[], rfl, forall_mem_nil _⟩

theorem Pieced.concat {p : Piece R} (h : Pieced program) (valid : p.Valid) :
    Pieced (program ++ p.symbols) := by
  obtain ⟨ps, rfl, all⟩ := h
  refine ⟨ps ++ [p], ?_, ?_⟩
  · rw [flatMap_append, flatMap_singleton]
  · exact forall_mem_append.mpr ⟨all, forall_mem_singleton.mpr valid⟩

/-! ## The actions keep the shape -/

/-- A semantic value that, as an operand, is a constant or a name. -/
def Yystype.IsOperand (value : Yystype R) : Prop := value.asSymbol.isConstantOrName = true

theorem isOperand_unset : (Yystype.unset : Yystype R).IsOperand := rfl

/-- What an action leaves behind. -/
def Keeps (outcome : Option (Yystype R × Parsed R)) : Prop :=
  ∀ value query, outcome = some (value, query) → value.IsOperand ∧ Pieced query.symbols

theorem keeps_some {value : Yystype R} (operand : value.IsOperand) (pieced : Pieced query.symbols) :
    Keeps (some (value, query)) := by
  intro value' query' same
  cases same
  exact ⟨operand, pieced⟩

theorem keeps_setSymbols {symbols : Option (List (Symbol R))} (operand : yyval.IsOperand)
    (pieced : ∀ program, symbols = some program → Pieced program) :
    Keeps ((query.setSymbols symbols).map fun query => (yyval, query)) := by
  cases symbols with
  | none => exact fun _ _ absent => absurd absent (some_ne_none _).symm
  | some program => exact keeps_some operand (pieced program rfl)

theorem pieced_pushOperator (connective : operator.isConnective = true) (pieced : Pieced program)
    (h : pushOperator operator program = some next) : Pieced next := by
  rw [pushOperator] at h
  split_ifs at h
  cases h
  exact pieced.concat (.connective connective)

theorem pieced_pushPredicate {rhs : Symbol R} (valid : (Piece.predicate lhs rhs operator).Valid)
    (pieced : Pieced program) (h : pushPredicate lhs rhs operator program = some next) :
    Pieced next := by
  rw [pushPredicate] at h
  split_ifs at h
  cases h
  exact pieced.concat valid

theorem keeps_addProperty {name : ZString} (operand : yyval.IsOperand)
    (pieced : Pieced query.symbols) :
    Keeps ((query.addProperty name).map fun query => (yyval, query)) := by
  rw [Parsed.addProperty]
  split_ifs
  · exact fun _ _ absent => absurd absent (some_ne_none _).symm
  · exact keeps_some operand pieced

theorem keeps_addComparison {mark : Nat → Yystype R} (op : CompareOp) (operand : yyval.IsOperand)
    (marks : ∀ i, (mark i).IsOperand) (pieced : Pieced query.symbols) :
    Keeps ((query.addComparison mark op.symbol).map fun query => (yyval, query)) :=
  keeps_setSymbols operand fun _ pushed =>
    pieced_pushPredicate (.compare op (marks 2) (marks 0)) pieced pushed

theorem keeps_pushOperator (connective : operator.isConnective = true) (operand : yyval.IsOperand)
    (pieced : Pieced query.symbols) :
    Keeps ((query.setSymbols (pushOperator operator query.symbols)).map
      fun query => (yyval, query)) :=
  keeps_setSymbols operand fun _ pushed => pieced_pushOperator connective pieced pushed

/-- Every action keeps the shape of the program, and what it computes is an operand. -/
theorem act_keeps {mark : Nat → Yystype R} (rule : Nat) (marks : ∀ i, (mark i).IsOperand)
    (operand : yyval.IsOperand) (pieced : Pieced query.symbols) :
    Keeps (act dialect mark yyval query rule) := by
  have constant : ∀ sym : Symbol R, sym.isConstantOrName = true →
      Keeps (some (Yystype.symbol sym, query)) := fun sym h => keeps_some h pieced
  unfold act
  split
  · exact keeps_some operand pieced
  · exact keeps_some operand pieced
  · exact keeps_addProperty operand pieced
  · exact keeps_addProperty operand pieced
  · exact keeps_pushOperator rfl operand pieced
  · exact keeps_pushOperator rfl operand pieced
  · exact keeps_pushOperator rfl operand pieced
  · exact keeps_addComparison .eq operand marks pieced
  · exact keeps_addComparison .ne operand marks pieced
  · exact keeps_addComparison .lt operand marks pieced
  · exact keeps_addComparison .le operand marks pieced
  · exact keeps_addComparison .gt operand marks pieced
  · exact keeps_addComparison .ge operand marks pieced
  · split_ifs
    · exact fun _ _ absent => absurd absent (some_ne_none _).symm
    · exact keeps_addComparison .like operand marks pieced
  · exact keeps_setSymbols operand fun _ pushed =>
      pieced_pushPredicate (.isa _ _) pieced pushed
  · exact constant _ rfl
  · exact constant _ rfl
  · refine constant _ ?_
    cases mark 0 <;> rfl
  · exact constant _ rfl
  · exact constant _ rfl
  · exact constant _ (marks 0)
  · exact constant _ rfl
  · exact constant _ rfl
  · exact constant _ rfl
  · exact keeps_some operand pieced

/-! ## The driver keeps the shape -/

/-- What every turn of the driver preserves. -/
structure Parser.Shaped (p : Parser R) : Prop where
  values : ∀ value ∈ p.values, value.IsOperand
  yylval : p.yylval.IsOperand
  pieced : Pieced p.query.symbols

theorem Parser.Shaped.value {p : Parser R} (shaped : p.Shaped) (i : Nat) :
    (p.values.getD i .unset).IsOperand := by
  rw [getD_eq_getElem?_getD]
  cases at_i : p.values[i]? with
  | none => exact isOperand_unset
  | some value => exact shaped.values value (mem_of_getElem? at_i)

theorem wordToken_isOperand (start word : List UInt8) :
    (wordToken start word : Kind × Yystype R).2.IsOperand := by
  rw [wordToken]
  split
  · split_ifs <;> rfl
  · rfl

/-- The value of a token is never a symbol. -/
theorem wqllex_isOperand {text rest : List UInt8} {k : Kind} {value : Yystype R}
    (h : wqllex prims text = .token k value rest) : value.IsOperand := by
  rw [wqllex] at h
  split at h
  · cases h
  split_ifs at h
  · cases h
    exact wordToken_isOperand _ _
  · cases h
    rfl
  · cases h
    rfl
  · split at h
    · cases h
    · cases h
      rfl
  · rw [mark] at h
    split at h
    · cases h
      rfl
    · cases h
      rfl

namespace Parser.Shaped

variable {p q : Parser R}

theorem look (shaped : p.Shaped) (prims : Prims R) : (p.look prims).Shaped := by
  rw [Parser.look]
  split
  · exact shaped
  split
  · rename_i read
    exact ⟨shaped.values, wqllex_isOperand read, shaped.pieced⟩
  · exact ⟨shaped.values, shaped.yylval, shaped.pieced⟩
  · exact ⟨shaped.values, shaped.yylval, shaped.pieced⟩

theorem push (shaped : p.Shaped) {state : Nat} {value : Yystype R} (operand : value.IsOperand)
    (h : p.push state value = some q) : q.Shaped := by
  rw [Parser.push] at h
  split_ifs at h
  cases h
  exact ⟨forall_mem_cons.mpr ⟨operand, shaped.values⟩, shaped.yylval, shaped.pieced⟩

end Parser.Shaped

/-- Where a turn leads to: a parser of the same shape, or a program of pieces. -/
def Turn.Shaped : Turn R → Prop
  | .next p => p.Shaped
  | .accept query => Pieced query.symbols
  | .abort => True

namespace Parser.Shaped

variable {p : Parser R}

theorem shift (shaped : p.Shaped) (state : Nat) : (p.shift state).Shaped := by
  rw [Parser.shift]
  split
  · rename_i pushed
    have next := shaped.push shaped.yylval pushed
    exact ⟨next.values, next.yylval, next.pieced⟩
  · trivial

theorem reduce (shaped : p.Shaped) (prims : Prims R) (dialect : Dialect) (rule : Nat) :
    (p.reduce prims dialect rule).Shaped := by
  have keeps : Keeps (act dialect (fun i => p.values.getD i .unset)
      (p.values.getD (yylen.getD rule 0 - 1) .unset) p.query rule) :=
    act_keeps rule shaped.value (shaped.value _) shaped.pieced
  rw [Parser.reduce]
  simp only
  split
  · trivial
  rename_i yyval query acted
  obtain ⟨operand, pieced⟩ := keeps yyval query acted
  have remaining : ∀ value ∈ p.values.drop (yylen.getD rule 0), value.IsOperand :=
    fun value inside => shaped.values value (mem_of_mem_drop inside)
  split_ifs
  · exact pieced
  · refine look ?_ prims
    exact ⟨forall_mem_cons.mpr ⟨operand, remaining⟩, shaped.yylval, pieced⟩
  · split
    · rename_i pushed
      refine push ?_ operand pushed
      exact ⟨remaining, shaped.yylval, pieced⟩
    · trivial

theorem step (shaped : p.Shaped) (prims : Prims R) (dialect : Dialect) :
    (p.step prims dialect).Shaped := by
  rw [Parser.step]
  simp only
  split_ifs
  · exact shaped.reduce prims dialect _
  have looked := shaped.look prims
  split
  · exact looked.shift _
  split
  · exact looked.reduce prims dialect _
  · trivial

end Parser.Shaped

theorem Parser.Runs.pieced {p : Parser R} {result : Option (Parsed R)}
    (runs : Runs prims dialect p result) (shaped : p.Shaped) :
    ∀ query, result = some query → Pieced query.symbols := by
  induction runs with
  | @accept p query accepted =>
    intro query' same
    cases same
    have turn := shaped.step prims dialect
    rw [accepted] at turn
    exact turn
  | abort _ => exact fun _ absent => absurd absent (some_ne_none _).symm
  | next moved _ ih =>
    have turn := shaped.step prims dialect
    rw [moved] at turn
    exact ih turn

/-- The program of a parsed query is a sequence of pieces. -/
theorem Parses.pieced {text : ZString} (parses : Parses prims dialect text (some query)) :
    Pieced query.symbols := by
  exact Parser.Runs.pieced parses
    ⟨forall_mem_singleton.mpr isOperand_unset, isOperand_unset, .nil⟩ query rfl

end Omi.Wql
