import Omi.Wql.Condition
import Omi.Wql.Lexer

/-!
# The generated parser

`wqlparse` is a table driven shift-reduce parser with one token of lookahead. The
tables below are those of the generated file. A state of the parser is the stack of
automaton states and of semantic values, the lookahead, the unread text and the
object under construction; `step` is one turn of `yyloop`.

A negative result of the analyser becomes the end of the input, as in the driver.
No production mentions `error`, so after a syntax error the recovery loop finds no
state that shifts `YYERRCODE`, empties the stack and gives up (`noRecovery`). An error
therefore ends the parse at once. Growing the stack is taken to succeed until it
has `YYMAXDEPTH` entries.
-/

namespace Omi.Wql

variable {R : Type}

/-! ## Tables -/

/-- `yylhs`: the symbol on the left of each production. -/
def yylhs : List Int :=
  [-1, 0, 0, 3, 3, 5, 5, 4, 4, 4, 4, 4, 6, 6, 6, 6, 6, 6, 6, 6, 1, 1, 1, 1, 1, 1, 2, 2, 2]

/-- `yylen`: the length of the right side of each production. -/
def yylen : List Nat :=
  [2, 4, 6, 1, 1, 1, 3, 3, 2, 3, 3, 1, 3, 3, 3, 3, 3, 3, 3, 3, 1, 1, 1, 1, 1, 1, 1, 3, 6]

/-- `yydefred`: the production that a state reduces without looking ahead, or `0`. -/
def yydefred : List Nat :=
  [0, 0, 0, 5, 3, 0, 0, 0, 0, 0, 6, 0, 0, 24, 0, 20, 21, 22, 23, 0, 0, 25, 0, 11, 8, 0, 0, 0, 0,
   0, 0, 0, 0, 0, 0, 0, 0, 0, 19, 7, 0, 14, 15, 13, 16, 12, 17, 18, 0, 9, 0, 0, 28]

/-- `yydgoto`: the default successor for each symbol. -/
def yydgoto : List Nat :=
  [2, 20, 21, 5, 22, 6, 23]

/-- `yysindex`: where the shifts of a state start in `yytable`. -/
def yysindex : List Int :=
  [-259, -35, 0, 0, 0, -249, -27, -254, -251, -243, 0, -40, -40, 0, -252, 0, 0, 0, 0, -40, -255,
   0, -240, 0, 0, -247, -245, -37, -227, -227, -227, -227, -227, -227, -227, -40, -40, -224, 0,
   0, -221, 0, 0, 0, 0, 0, 0, 0, -222, 0, -219, -235, 0]

/-- `yyrindex`: where the reductions of a state start in `yytable`. -/
def yyrindex : List Int :=
  [0, 0, 0, 0, 0, 0, -223, 0, 0, 43, 0, 0, 0, 0, -236, 0, 0, 0, 0, 0, 0, 0, 46, 0, 0, 0, 0, 0,
   0, 0, 0, 0, 0, 0, 0, 0, 0, 1, 0, 0, 3, 0, 0, 0, 0, 0, 0, 0, 6, 0, 0, 0, 0]

/-- `yygindex`: where the successors for a symbol start in `yytable`. -/
def yygindex : List Int :=
  [0, 25, 0, 0, -10, 0, 0]

/-- `yytable`: successor states and productions. -/
def yytable : List Nat :=
  [19, 27, 24, 26, 39, 25, 10, 4, 28, 27, 29, 1, 30, 31, 32, 7, 33, 8, 34, 35, 36, 9, 26, 11,
   10, 48, 49, 26, 37, 26, 38, 26, 26, 26, 50, 26, 25, 26, 36, 51, 52, 4, 27, 1, 26, 13, 2, 10,
   40, 15, 16, 17, 18, 41, 42, 43, 44, 45, 46, 47, 0, 0, 0, 0, 0, 0, 0, 0, 0, 0, 0, 0, 0, 0, 0,
   0, 0, 0, 0, 0, 0, 0, 0, 0, 0, 0, 0, 0, 0, 0, 0, 0, 0, 0, 0, 0, 0, 0, 0, 0, 0, 0, 0, 0, 0, 0,
   0, 0, 0, 0, 0, 0, 0, 0, 0, 0, 0, 0, 0, 0, 0, 0, 0, 0, 0, 0, 0, 0, 0, 0, 0, 0, 0, 0, 0, 0, 0,
   0, 0, 0, 0, 0, 0, 0, 0, 0, 0, 0, 0, 0, 0, 0, 0, 0, 0, 0, 0, 0, 0, 0, 0, 0, 0, 0, 0, 0, 0, 0,
   0, 0, 0, 0, 0, 0, 0, 0, 0, 0, 0, 0, 0, 0, 0, 0, 0, 0, 0, 0, 0, 0, 0, 0, 0, 0, 0, 0, 0, 0, 0,
   0, 0, 0, 0, 0, 0, 0, 0, 0, 0, 0, 0, 0, 0, 0, 0, 0, 0, 0, 0, 0, 0, 12, 35, 36, 0, 0, 0, 0, 0,
   0, 0, 0, 13, 0, 0, 14, 15, 16, 17, 18, 3, 0, 0, 0, 0, 0, 0, 0, 0, 0, 0, 0, 0, 0, 0, 0, 0, 0,
   0, 0, 27, 27, 26, 26, 27, 10, 27, 0, 27, 27, 27, 0, 27, 0, 27]

/-- `yycheck`: the column that each entry of `yytable` belongs to. -/
def yycheck : List Int :=
  [40, 0, 12, 0, 41, 257, 0, 42, 263, 19, 265, 270, 267, 268, 269, 264, 271, 44, 273, 259, 260,
   275, 274, 266, 275, 35, 36, 263, 275, 265, 275, 267, 268, 269, 258, 271, 257, 273, 260, 258,
   275, 264, 41, 0, 41, 272, 0, 41, 275, 276, 277, 278, 279, 28, 29, 30, 31, 32, 33, 34, -1, -1,
   -1, -1, -1, -1, -1, -1, -1, -1, -1, -1, -1, -1, -1, -1, -1, -1, -1, -1, -1, -1, -1, -1, -1,
   -1, -1, -1, -1, -1, -1, -1, -1, -1, -1, -1, -1, -1, -1, -1, -1, -1, -1, -1, -1, -1, -1, -1,
   -1, -1, -1, -1, -1, -1, -1, -1, -1, -1, -1, -1, -1, -1, -1, -1, -1, -1, -1, -1, -1, -1, -1,
   -1, -1, -1, -1, -1, -1, -1, -1, -1, -1, -1, -1, -1, -1, -1, -1, -1, -1, -1, -1, -1, -1, -1,
   -1, -1, -1, -1, -1, -1, -1, -1, -1, -1, -1, -1, -1, -1, -1, -1, -1, -1, -1, -1, -1, -1, -1,
   -1, -1, -1, -1, -1, -1, -1, -1, -1, -1, -1, -1, -1, -1, -1, -1, -1, -1, -1, -1, -1, -1, -1,
   -1, -1, -1, -1, -1, -1, -1, -1, -1, -1, -1, -1, -1, -1, -1, -1, -1, -1, -1, -1, -1, 261, 259,
   260, -1, -1, -1, -1, -1, -1, -1, -1, 272, -1, -1, 275, 276, 277, 278, 279, 275, -1, -1, -1,
   -1, -1, -1, -1, -1, -1, -1, -1, -1, -1, -1, -1, -1, -1, -1, -1, 259, 260, 259, 260, 263, 259,
   265, -1, 267, 268, 269, -1, 271, -1, 273]

/-- `YYFINAL`. -/
def yyfinal : Nat := 2

/-- `YYTABLESIZE`. -/
def yytablesize : Int := 274

/-- `YYMAXDEPTH`: the most entries that the stack is grown to. -/
def yymaxdepth : Nat := 10000

/-- `YYERRCODE`. -/
def yyerrcode : Nat := 256

/-- The test that the driver makes before each use of `yytable`. -/
def entryAt (index : Int) (column : Nat) : Option Nat :=
  let n := index + column
  if index ≠ 0 ∧ 0 ≤ n ∧ n ≤ yytablesize ∧ yycheck.getD n.toNat (-1) = column then
    some (yytable.getD n.toNat 0)
  else none

/-- The state that a token is shifted to. -/
def shiftOf (state code : Nat) : Option Nat := entryAt (yysindex.getD state 0) code

/-- The production that a state reduces before a token. -/
def reduceOf (state code : Nat) : Option Nat := entryAt (yyrindex.getD state 0) code

/-- The state behind a reduction to a symbol. -/
def gotoOf (state symbol : Nat) : Nat :=
  (entryAt (yygindex.getD symbol 0) state).getD (yydgoto.getD symbol 0)

/-! ## Semantic actions -/

/-- `WQL_MAX_PROPERTIES`. -/
def maxProperties : Nat := 128

/-- The parts of `WQL` that the actions fill in: the query that is evaluated later, and
the names of the select list. -/
structure Parsed (R : Type) extends Query R where
  properties : List ZString

namespace Yystype

/-- The member `boolean`. -/
def asBoolean : Yystype R → UInt8
  | boolean value => value
  | _ => 0

/-- The member `integer`. -/
def asInteger : Yystype R → Int64
  | integer value => value
  | _ => 0

/-- The member `string`. -/
def asString : Yystype R → ZString
  | string value => value
  | _ => .ofBuffer []

/-- The member `symbol`. -/
def asSymbol : Yystype R → Symbol R
  | symbol value => value
  | _ => .null

/-- An operand made of the member `real`. -/
def realSymbol : Yystype R → Symbol R
  | real value => .real value
  | _ => .null

end Yystype

/-- Append a name to the select list, as the actions of `PropertyList` do. -/
def Parsed.addProperty (query : Parsed R) (name : ZString) : Option (Parsed R) :=
  if query.properties.length = maxProperties then none
  else some { query with properties := query.properties ++ [name] }

/-- Replace the program by a longer one, if there was room for it. -/
def Parsed.setSymbols (query : Parsed R) (symbols : Option (List (Symbol R))) : Option (Parsed R) :=
  symbols.map fun symbols => { query with symbols := symbols }

/-- The action of a comparison; `rhs` is the topmost value and `lhs` the third. -/
def Parsed.addComparison (query : Parsed R) (mark : Nat → Yystype R) (operator : Symbol R) :
    Option (Parsed R) :=
  query.setSymbols (pushPredicate (mark 2).asSymbol (mark 0).asSymbol operator query.symbols)

/-- The `switch (yyn)` of the driver. `mark i` is `l_mark[-i]` and `yyval` the default
result. None is `YYABORT`. -/
def act (dialect : Dialect) (mark : Nat → Yystype R) (yyval : Yystype R) (query : Parsed R) :
    Nat → Option (Yystype R × Parsed R)
  | 1 => some (yyval, { query with className := some (mark 0).asString })
  | 2 => some (yyval, { query with className := some (mark 2).asString })
  | 5 | 6 => (query.addProperty (mark 0).asString).map fun query => (yyval, query)
  | 8 => (query.setSymbols (pushOperator .not query.symbols)).map fun query => (yyval, query)
  | 9 => (query.setSymbols (pushOperator .and query.symbols)).map fun query => (yyval, query)
  | 10 => (query.setSymbols (pushOperator .or query.symbols)).map fun query => (yyval, query)
  | 12 => (query.addComparison mark .eq).map fun query => (yyval, query)
  | 13 => (query.addComparison mark .ne).map fun query => (yyval, query)
  | 14 => (query.addComparison mark .lt).map fun query => (yyval, query)
  | 15 => (query.addComparison mark .le).map fun query => (yyval, query)
  | 16 => (query.addComparison mark .gt).map fun query => (yyval, query)
  | 17 => (query.addComparison mark .ge).map fun query => (yyval, query)
  | 18 =>
    if dialect ≠ .wql then none
    else (query.addComparison mark .like).map fun query => (yyval, query)
  | 19 =>
    (query.setSymbols (pushPredicate (.string (mark 2).asString) (.string (mark 0).asString)
      .isa query.symbols)).map fun query => (yyval, query)
  | 20 => some (.symbol (.boolean (mark 0).asBoolean), query)
  | 21 => some (.symbol (.integer (mark 0).asInteger), query)
  | 22 => some (.symbol (mark 0).realSymbol, query)
  | 23 => some (.symbol (.string (mark 0).asString), query)
  | 24 => some (.symbol .null, query)
  | 25 => some (.symbol (mark 0).asSymbol, query)
  | 26 => some (.symbol (.identifier (mark 0).asString none none), query)
  | 27 => some (.symbol (.identifier (mark 2).asString none (some (mark 0).asString)), query)
  | 28 =>
    some (.symbol (.identifier (mark 5).asString (some (mark 3).asString)
      (some (mark 0).asString)), query)
  | _ => some (yyval, query)

/-! ## The driver -/

/-- The variables of the driver. Stacks are listed from the top, and no lookahead is
`YYEMPTY`. -/
structure Parser (R : Type) where
  states : List Nat
  values : List (Yystype R)
  yychar : Option Nat
  yylval : Yystype R
  ptr : List UInt8
  query : Parsed R

/-- What a turn of the loop leads to. -/
inductive Turn (R : Type) where
  | next (p : Parser R)
  | accept (query : Parsed R)
  | abort

namespace Parser

/-- Read a token unless one is there. A failure of the analyser reads as the end. -/
def look (prims : Prims R) (p : Parser R) : Parser R :=
  match p.yychar with
  | some _ => p
  | none =>
    match wqllex prims p.ptr with
    | .token kind value rest => { p with yychar := some kind.code, yylval := value, ptr := rest }
    | .eof | .failed => { p with yychar := some 0 }

/-- Push a state and a value; none is `yyoverflow`. -/
def push (p : Parser R) (state : Nat) (value : Yystype R) : Option (Parser R) :=
  if yymaxdepth ≤ p.states.length then none
  else some { p with states := state :: p.states, values := value :: p.values }

/-- The shift branch of the loop. -/
def shift (p : Parser R) (state : Nat) : Turn R :=
  match p.push state p.yylval with
  | some p => .next { p with yychar := none }
  | none => .abort

/-- `yyreduce`. -/
def reduce (prims : Prims R) (dialect : Dialect) (p : Parser R) (rule : Nat) : Turn R :=
  let yym := yylen.getD rule 0
  match act dialect (fun i => p.values.getD i .unset) (p.values.getD (yym - 1) .unset)
      p.query rule with
  | none => .abort
  | some (yyval, query) =>
    let popped : Parser R :=
      { p with states := p.states.drop yym, values := p.values.drop yym, query := query }
    let state := popped.states.headD 0
    let symbol := yylhs.getD rule (-1)
    if state = 0 ∧ symbol = 0 then
      let final := look prims
        { popped with states := yyfinal :: popped.states, values := yyval :: popped.values }
      if final.yychar = some 0 then .accept query else .next final
    else
      match popped.push (gotoOf state symbol.toNat) yyval with
      | some p => .next p
      | none => .abort

/-- One turn of `yyloop`. -/
def step (prims : Prims R) (dialect : Dialect) (p : Parser R) : Turn R :=
  let state := p.states.headD 0
  let rule := yydefred.getD state 0
  if rule ≠ 0 then p.reduce prims dialect rule
  else
    let p := p.look prims
    let code := p.yychar.getD 0
    match shiftOf state code with
    | some target => p.shift target
    | none =>
      match reduceOf state code with
      | some rule => p.reduce prims dialect rule
      | none => .abort

/-- The parser at the start of a text. -/
def start (text : List UInt8) : Parser R where
  states := [0]
  values := [.unset]
  yychar := none
  yylval := .unset
  ptr := text
  query := { className := none, symbols := [], properties := [] }

/-- The loop comes to an end, with the object if the text was accepted. -/
inductive Runs (prims : Prims R) (dialect : Dialect) : Parser R → Option (Parsed R) → Prop
  | accept {p : Parser R} {query : Parsed R} : p.step prims dialect = .accept query →
      Runs prims dialect p (some query)
  | abort {p : Parser R} : p.step prims dialect = .abort → Runs prims dialect p none
  | next {p q : Parser R} {result : Option (Parsed R)} : p.step prims dialect = .next q →
      Runs prims dialect q result → Runs prims dialect p result

end Parser

/-- `WQL_Parse` returns `result` for the text. -/
def Parses (prims : Prims R) (dialect : Dialect) (text : ZString)
    (result : Option (Parsed R)) : Prop :=
  Parser.Runs prims dialect (.start text.chars) result

end Omi.Wql
