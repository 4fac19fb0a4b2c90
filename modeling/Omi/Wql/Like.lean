import Omi.Data.Glob
import Omi.Data.ZString

/-!
# The LIKE matcher

`WQL_MatchLike` keeps two rows of marks, with one mark for each place of the string. A
mark says that the part of the pattern that was read matches the string up to the place,
and under a wildcard it is put behind the character that the next part of the pattern may
take. `matchLike` follows the source row by row. The rows are functions of the place.

The second half of the module says what a pattern means, without rows: `items` cuts the
pattern into its parts and `like` is their recursive meaning.

Characters are those of a build with a signed `char` in the C locale. The number of bytes
that a set spans is an `int` in the source; a longer set takes the pointer out of the
pattern, and there is no result then.
-/

namespace Omi.Wql

/-- `_Toupper`. -/
def toUpper (c : UInt8) : UInt8 := if 97 ≤ c ∧ c ≤ 122 then c - 32 else c

/-- The number that a `char` stands for in a comparison. -/
def charValue (c : UInt8) : Int := if c < 128 then c.toNat else (c.toNat : Int) - 256

/-! ## The matcher -/

/-- The marks of a row. -/
inductive Mark where
  | noMatch
  | wildcardChar
  | oneChar
deriving DecidableEq, Repr

/-- A row of the table, by the place in the string. -/
abbrev Row := Nat → Mark

/-- The first loop of `_MatchSet`, from `pos` on. It returns whether the character was
found, and where the loop stopped. -/
def matchSetLoop (c lastchar : UInt8) : List UInt8 → Bool × List UInt8
  | [] => (false, [])
  | x :: pos =>
    if x = 93 then (false, x :: pos)
    else if x = 45 ∧ lastchar ≠ 0 then
      match pos with
      | [] => (false, [])
      | y :: pos =>
        if y = 93 then (false, y :: pos)
        else if charValue lastchar ≤ charValue (toUpper c) ∧
            charValue (toUpper c) ≤ charValue (toUpper y) then (true, pos)
        else matchSetLoop c (toUpper y) pos
    else if toUpper x = toUpper c then (true, x :: pos)
    else matchSetLoop c (toUpper x) pos

/-- `_MatchSet` at the text behind the opening bracket: whether it reports a match, and
the number of bytes to skip. -/
def matchSet (text : List UInt8) (c : UInt8) : Bool × Nat :=
  let notinset : Bool := text.head? = some 94
  let start := if notinset then text.tail else text
  let (matched, pos) := matchSetLoop c 0 start
  let tail := pos.dropWhile (· != 93)
  let matched := if tail = [] then false else matched
  (matched == !notinset, 1 + text.length - tail.tail.length)

/-- The test of a set for one character: the bytes to skip if it matches. -/
def setTest (text : List UInt8) (c : UInt8) : Option Nat :=
  if (matchSet text c).1 then some (matchSet text c).2 else none

/-- The test of a single character of the pattern, which an escape character may precede. -/
def charTest (escape : UInt8) (pattern : List UInt8) (c : UInt8) : Option Nat :=
  let escaped : Nat := if escape ≠ 0 ∧ pattern.head? = some escape then 1 else 0
  let x := (pattern.drop escaped).headD 0
  if toUpper x = toUpper c ∨ x = 95 then some (escaped + 1) else none

/-- One round of the loop over the places: test a character and mark the place behind it. -/
def markBehind (string : List UInt8) (test : UInt8 → Option Nat) (place : Nat)
    (found : Row × Option Nat) : Row × Option Nat :=
  match test (string.getD place 0) with
  | none => found
  | some skip => (Function.update found.1 (place + 1) .oneChar, some (found.2.getD skip))

/-- The loop over the places, up to `c` of them: the new row, and the skip of the first
match. -/
def markChars (string : List UInt8) (test : UInt8 → Option Nat) (previous : Row) :
    Nat → Row × Option Nat
  | 0 => (fun _ => .noMatch, none)
  | c + 1 =>
    let found := markChars string test previous c
    match previous c with
    | .noMatch => found
    | .wildcardChar => markBehind string test (c - 1) found
    | .oneChar => if c = string.length then found else markBehind string test c found

/-- The row behind a wildcard. -/
def wildcardRow (n : Nat) (previous : Row) : Row :=
  match (List.range (n + 1)).find? fun c => previous c ≠ .noMatch with
  | none => fun _ => .noMatch
  | some c =>
    if previous c = .oneChar then
      fun j => if j = c then .oneChar else if c < j ∧ j ≤ n then .wildcardChar else .noMatch
    else fun j => if c ≤ j ∧ j ≤ n then .wildcardChar else .noMatch

/-- The limit of the type `int`. -/
def intLimit : Nat := 2 ^ 31

/-- The loop over the pattern: the row it ends with. The first argument bounds the number
of rounds. -/
def likeLoop (escape : UInt8) (string : List UInt8) : Nat → List UInt8 → Row → Option Row
  | 0, _, _ => none
  | _ + 1, [], row => some row
  | rounds + 1, x :: pattern, row =>
    if x = 37 then
      likeLoop escape string rounds (pattern.dropWhile (· == 37)) (wildcardRow string.length row)
    else
      let test := if x = 91 then setTest pattern else charTest escape (x :: pattern)
      let found := markChars string test row (string.length + 1)
      match found.2 with
      | none => some found.1
      | some skip =>
        if intLimit ≤ skip then none
        else likeLoop escape string rounds ((x :: pattern).drop skip) found.1

/-- The row in which only the start of the string is marked. -/
def firstRow : Row := fun j => if j = 0 then .oneChar else .noMatch

/-- `WQL_MatchLike`. -/
def matchLike (pattern string : List UInt8) (escape : UInt8) : Option Bool :=
  if pattern = [] ∨ string = [] then
    some (decide (pattern.dropWhile (· == 37) = [] ∧ string = []))
  else
    (likeLoop escape string (pattern.length + 1) pattern firstRow).map fun row =>
      decide (row string.length ≠ .noMatch)

/-! ## The meaning of a pattern -/

/-- The parts of a pattern. A set is given by the text between its brackets. -/
inductive Item where
  | anySequence
  | anyChar
  | char (c : UInt8)
  | set (text : List UInt8)
  | openSet (text : List UInt8)
deriving DecidableEq, Repr

/-- Cut a pattern into parts, inside a set or outside of one. -/
def itemsFrom : Option (List UInt8) → List UInt8 → List Item
  | none, [] => []
  | none, c :: cs =>
    if c = 37 then .anySequence :: itemsFrom none cs
    else if c = 95 then .anyChar :: itemsFrom none cs
    else if c = 91 then itemsFrom (some []) cs
    else .char c :: itemsFrom none cs
  | some text, [] => [.openSet text]
  | some text, c :: cs =>
    if c = 93 then .set text :: itemsFrom none cs else itemsFrom (some (text ++ [c])) cs

/-- The parts of a pattern. -/
def items (pattern : List UInt8) : List Item := itemsFrom none pattern

/-- The ranges of a set; a single character is a range from itself to itself. A `-` with a
character in front of it joins that to the next one. -/
def ranges : Option UInt8 → List UInt8 → List (UInt8 × UInt8)
  | _, [] => []
  | none, x :: text => (x, x) :: ranges (some x) text
  | some low, x :: text =>
    if x = 45 then
      match text with
      | [] => []
      | high :: text => (low, high) :: ranges (some high) text
    else (x, x) :: ranges (some x) text

/-- The character is in one of the ranges, in either case. -/
def inRanges (text : List UInt8) (c : UInt8) : Bool :=
  (ranges none text).any fun range =>
    charValue (toUpper range.1) ≤ charValue (toUpper c) &&
      charValue (toUpper c) ≤ charValue (toUpper range.2)

/-- The character is in the set with the text. -/
def inSet : List UInt8 → UInt8 → Bool
  | 94 :: text, c => !inRanges text c
  | text, c => inRanges text c

/-- The character matches the part. Nothing matches a set without an end. -/
def Item.accepts : Item → UInt8 → Bool
  | .anySequence, _ => false
  | .anyChar, _ => true
  | .char x, c => toUpper x == toUpper c
  | .set text, c => inSet text c
  | .openSet _, _ => false

/-- A part as a part of a general pattern. -/
def Item.glob : Item → Glob UInt8
  | .anySequence => .many
  | item => .one item.accepts

/-- The string matches the pattern. -/
def like (pattern string : List UInt8) : Bool := Glob.fits ((items pattern).map Item.glob) string

end Omi.Wql
