import Omi.Wql.Symbol

/-!
# The lexical analyser

`wqllex` reads one token from the text behind `wqlstate.ptr`. A text is the list
of bytes before its terminator, so the end of the list is where the source sees
the NUL. Three things can come back: the end of the text, a failure (`-1`, which
the source returns for a string literal that is not terminated), or a token with
its value and the unread rest. A byte that starts no token is not a failure in
this sense: it is the token `WQL_ERROR`.

Character classes are those of the C locale, which the server never leaves.
-/

namespace Omi

/-- The C string that starts at the beginning of a buffer. -/
def ZString.ofBuffer (bytes : List UInt8) : ZString where
  chars := bytes.takeWhile (· != 0)
  nul_free := fun inside => absurd (List.mem_takeWhile_imp inside) (by decide)

end Omi

namespace Omi.Wql

variable {R : Type}

/-- `isalpha` in the C locale. -/
def isAlpha (c : UInt8) : Bool := (65 ≤ c && c ≤ 90) || (97 ≤ c && c ≤ 122)

/-- A byte that may start an identifier. -/
def isWordStart (c : UInt8) : Bool := isAlpha c || c == 95

/-- A byte that may continue an identifier. -/
def isWordByte (c : UInt8) : Bool := isAlpha c || isDigit c || c == 95

/-- The token numbers of the grammar, the four single characters included. -/
inductive Kind where
  | star
  | leftParen
  | rightParen
  | comma
  | dot
  | colon
  | or
  | and
  | not
  | error
  | lt
  | fromWord
  | le
  | whereWord
  | ne
  | gt
  | eq
  | select
  | ge
  | null
  | like
  | isa
  | identifier
  | boolean
  | integer
  | real
  | string
deriving DecidableEq, Repr

/-- The numbers that the analyser returns and the tables are indexed by. -/
def Kind.code : Kind → Nat
  | leftParen => 40
  | rightParen => 41
  | star => 42
  | comma => 44
  | dot => 257
  | colon => 258
  | or => 259
  | and => 260
  | not => 261
  | error => 262
  | lt => 263
  | fromWord => 264
  | le => 265
  | whereWord => 266
  | ne => 267
  | gt => 268
  | eq => 269
  | select => 270
  | ge => 271
  | null => 272
  | like => 273
  | isa => 274
  | identifier => 275
  | boolean => 276
  | integer => 277
  | real => 278
  | string => 279

/-- `YYSTYPE`, the union of semantic values. A token without a value leaves the
union as it was; no action reads it then, which `unset` stands for. -/
inductive Yystype (R : Type) where
  | unset
  | boolean (value : UInt8)
  | integer (value : Int64)
  | real (value : R)
  | string (value : ZString)
  | symbol (value : Symbol R)

/-- What one call of the analyser comes back with. -/
inductive Lexed (R : Type) where
  | eof
  | failed
  | token (kind : Kind) (value : Yystype R) (rest : List UInt8)

/-! ## Words -/

/-- ASCII text as bytes. -/
def ascii (text : String) : List UInt8 := text.toList.map fun c => UInt8.ofNat c.toNat

/-- The reserved words in the order in which they are tried. -/
def keywords : List (List UInt8 × Kind) :=
  [(ascii "select", .select), (ascii "from", .fromWord), (ascii "where", .whereWord),
   (ascii "not", .not), (ascii "and", .and), (ascii "or", .or), (ascii "null", .null),
   (ascii "true", .boolean), (ascii "false", .boolean), (ascii "like", .like),
   (ascii "isa", .isa)]

/-- `_MatchToken`: the text starts with the reserved word, in either case, and
neither a letter nor an underscore follows. A digit may. -/
def matchToken (start lcs : List UInt8) : Bool :=
  (start.take lcs.length).map toLower == lcs &&
    match start.drop lcs.length with
    | [] => true
    | c :: _ => !isAlpha c && c != 95

/-- The token and value of the word at the start of a text. -/
def wordToken (start word : List UInt8) : Kind × Yystype R :=
  match keywords.find? fun entry => matchToken start entry.1 with
  | some (lcs, kind) =>
    (kind, if lcs = ascii "true" then .boolean 1
      else if lcs = ascii "false" then .boolean 0 else .unset)
  | none => (.identifier, .string (.ofBuffer word))

/-! ## Numbers -/

/-- A text without its sign. -/
def afterSign : List UInt8 → List UInt8
  | [] => []
  | c :: cs => if c == 43 || c == 45 then cs else c :: cs

/-- A text without an exponent; `e` without a digit after it is not one. -/
def afterExponent : List UInt8 → List UInt8
  | [] => []
  | c :: cs =>
    if (c == 69 || c == 101) && ((afterSign cs).head?.map isDigit).getD false then
      (afterSign cs).dropWhile isDigit
    else c :: cs

/-- The end that `Tcstod` reports for a sign, digits and a decimal point. With no
digit on either side of the point nothing is consumed. -/
def afterReal (start : List UInt8) : List UInt8 :=
  let whole := (afterSign start).takeWhile isDigit
  let behind := ((afterSign start).dropWhile isDigit).tail
  let fraction := behind.takeWhile isDigit
  if whole.isEmpty && fraction.isEmpty then start
  else afterExponent (behind.dropWhile isDigit)

/-! ## String literals -/

/-- The value of an escaped byte; `\f` yields a carriage return. -/
def unescape (c : UInt8) : UInt8 :=
  if c = 110 then 10 else if c = 114 then 13 else if c = 102 then 13 else c

/-- The value of a literal and the text behind its closing quote, or none when the
text ends first. -/
def literal (term : UInt8) : List UInt8 → Option (List UInt8 × List UInt8)
  | [] => none
  | c :: cs =>
    if c = term then some ([], cs)
    else if c = 92 then
      match cs with
      | [] => none
      | d :: ds => (literal term ds).map fun found => (unescape d :: found.1, found.2)
    else (literal term cs).map fun found => (c :: found.1, found.2)

/-! ## Punctuation -/

/-- The comparison operators and single characters in the order of the source. -/
def punctuation : List (List UInt8 × Kind) :=
  [(ascii "=", .eq), (ascii "<>", .ne), (ascii "!=", .ne), (ascii "<=", .le),
   (ascii "<", .lt), (ascii ">=", .ge), (ascii ">", .gt), (ascii "*", .star),
   (ascii "(", .leftParen), (ascii ")", .rightParen), (ascii ",", .comma),
   (ascii ".", .dot), (ascii ":", .colon)]

/-- The remaining branches: the first entry that the text starts with. -/
def mark (text : List UInt8) : Lexed R :=
  match punctuation.find? fun entry => entry.1.isPrefixOf text with
  | some (word, kind) => .token kind .unset (text.drop word.length)
  | none => .token .error .unset text

/-- `wqllex`. -/
def wqllex (prims : Prims R) (text : List UInt8) : Lexed R :=
  match text.dropWhile isSpace with
  | [] => .eof
  | c :: cs =>
    if isWordStart c then
      let found := wordToken (c :: cs) (c :: cs.takeWhile isWordByte)
      .token found.1 found.2 (cs.dropWhile isWordByte)
    else if c == 43 || c == 45 || isDigit c then
      if (cs.dropWhile isDigit).head? = some 46 then
        .token .real (.real (prims.strtod (c :: cs)).1) (afterReal (c :: cs))
      else
        .token .integer (.integer (tcstoll (c :: cs)).1) (tcstoll (c :: cs)).2
    else if c = 34 ∨ c = 39 then
      match literal c cs with
      | none => .failed
      | some (value, rest) => .token .string (.string (.ofBuffer value)) rest
    else mark (c :: cs)

end Omi.Wql
