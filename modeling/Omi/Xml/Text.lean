import Omi.Data.ZString
import Omi.Data.InPlace

/-!
# Characters, names and references

The lexical part of the XML parser. A text is the list of bytes from the current
pointer up to the terminator, so the end of the list is where the source sees the
NUL. `XML_Char` is a signed `char`: a byte from `128` on is negative there and
falls outside every class table.

The reducers decode references in place in the source: they are decoders in the
sense of `InPlace`, which compute the same in place and on a list. The parser
uses them on lists, and they return the decoded bytes and the unread rest.
-/

namespace Omi.Xml

open List InPlace

/-- The bytes of an ASCII word of the source. -/
def ascii (word : String) : List UInt8 := (ZString.ofString word).chars

/-- What `XML_Raise` is called with: the message, and the name it is printed with. -/
inductive Fault where
  | badEntityReference
  | badCharacterReference
  | undefinedNamespacePrefix (name : List UInt8)
  | expectedAttributeName
  | expectedAttributeEquals (name : List UInt8)
  | expectedAttributeOpeningQuotes (name : List UInt8)
  | expectedAttributeClosingQuotes (name : List UInt8)
  | tooManyNamespaces
  | tooManyAttributes (name : List UInt8)
  | endOfXmlInstruction
  | endOfInstructionMissing
  | elementNameExpected
  | elementNamePrematureEnd
  | elementDepthOverflow
  | elementNameNotClosed (name : List UInt8)
  | elementNameExpectedElemEnd
  | elementNamePrematureEndElemEnd
  | elementNameNotClosedElemEnd (name : List UInt8)
  | elementTooManyEnds (name : List UInt8)
  | elementEndTagNotMatchStartTag (expected found : List UInt8)
  | commentEndExpected
  | commentPrematureEnd
  | cdataPrematureEnd
  | doctypePrematureEnd
  | charDataExpectedElementEndTag
  | openAngleBracketExpected
  | commentCdataDoctypeExpected
  | elementExpected
deriving DecidableEq, Repr

/-! ## Character classes -/

/-- `_IsSpace`. -/
def isSpace (c : UInt8) : Bool := c == 9 || c == 10 || c == 13 || c == 32

/-- `_IsFirst`: a letter or an underscore. -/
def isFirst (c : UInt8) : Bool := (65 ≤ c && c ≤ 90) || (97 ≤ c && c ≤ 122) || c == 95

/-- `_IsInner`: what may follow in a name. The colon is not in the table. -/
def isInner (c : UInt8) : Bool := isFirst c || (48 ≤ c && c ≤ 57) || c == 45 || c == 46

/-- `_SkipSpaces`. -/
def skipSpaces (p : List UInt8) : List UInt8 := p.dropWhile isSpace

/-- `_SkipInner`. -/
def skipInner (p : List UInt8) : List UInt8 := p.dropWhile isInner

/-- A name as the tag and attribute functions read it: up to the colon, and behind it. -/
structure QName where
  nsPrefix : List UInt8
  name : List UInt8
deriving DecidableEq, Repr

/-- Inner characters, then possibly a colon and more inner characters. The text before
the colon is the prefix; without a colon the prefix is empty. -/
def readName (p : List UInt8) : QName × List UInt8 :=
  match skipInner p with
  | 58 :: rest => (⟨p.takeWhile isInner, rest.takeWhile isInner⟩, skipInner rest)
  | rest => (⟨[], p.takeWhile isInner⟩, rest)

/-! ## References -/

/-- The value of a digit in the bases that `strtoul` is called with. -/
def digitValue (base : Nat) (c : UInt8) : Option Nat :=
  let value :=
    if 48 ≤ c ∧ c ≤ 57 then some (c.toNat - 48)
    else if 65 ≤ c ∧ c ≤ 90 then some (c.toNat - 55)
    else if 97 ≤ c ∧ c ≤ 122 then some (c.toNat - 87)
    else none
  value.filter (· < base)

/-- `isspace` in the C locale, which `strtoul` skips. -/
def isBlank (c : UInt8) : Bool := (9 ≤ c && c ≤ 13) || c == 32

/-- The largest `unsigned long`, to which `strtoul` saturates. -/
def ulongMax : Nat := 2 ^ 64 - 1

/-- The number that a digit string stands for. -/
def digitsValue (base : Nat) (digits : List UInt8) : Nat :=
  digits.foldl (fun value c => value * base + (digitValue base c).getD 0) 0

/-- Base 16 accepts `0x` in front of the digits, if one follows. -/
def skipHexMark (base : Nat) : List UInt8 → List UInt8
  | 48 :: c :: d :: rest =>
    if base = 16 ∧ (c = 120 ∨ c = 88) ∧ (digitValue 16 d).isSome then d :: rest
    else 48 :: c :: d :: rest
  | p => p

/-- An optional sign in front of a number, and whether it is a minus. -/
def skipSign : List UInt8 → Bool × List UInt8
  | 45 :: p => (true, p)
  | 43 :: p | p => (false, p)

/-- A number that does not fit becomes the largest one; a minus negates modulo `2 ^ 64`. -/
def ulongOf (negative : Bool) (value : Nat) : Nat :=
  if ulongMax < value then ulongMax
  else if negative then (2 ^ 64 - value) % 2 ^ 64
  else value

/-- `strtoul`: the value and the text behind it, or `none` where the end pointer is left at
the start because there is no digit. -/
def strtoul (base : Nat) (p : List UInt8) : Option (Nat × List UInt8) :=
  let signed := skipSign (p.dropWhile isBlank)
  let text := skipHexMark base signed.2
  let digits := text.takeWhile fun c => (digitValue base c).isSome
  if digits = [] then none
  else
    some (ulongOf signed.1 (digitsValue base digits),
      text.dropWhile fun c => (digitValue base c).isSome)

/-- What a reference gives: the character, the text to go on with, and whether it was bad.
A bad one yields NUL. -/
structure Ref where
  char : UInt8
  rest : List UInt8
  fault : Option Fault
deriving DecidableEq, Repr

/-- The five names that `_ToEntityRef` compares with, in its order. -/
def entityNames : List (List UInt8 × UInt8) :=
  [(ascii "quot;", 34), (ascii "apos;", 39), (ascii "lt;", 60), (ascii "gt;", 62),
    (ascii "amp;", 38)]

/-- `_ToEntityRef`. -/
def toEntityRef (p : List UInt8) : Ref :=
  match entityNames.find? fun entity => entity.1.isPrefixOf p with
  | some entity => ⟨entity.2, p.drop entity.1.length, none⟩
  | none => ⟨0, p, some .badEntityReference⟩

/-- The end of `_ToCharRef`, with the number read from `p` in the given base. -/
def toCharRefIn (base : Nat) (p : List UInt8) : Ref :=
  match strtoul base p with
  | some (x, 59 :: rest) =>
    if 255 < x then ⟨0, p, some .badCharacterReference⟩ else ⟨UInt8.ofNat x, rest, none⟩
  | _ => ⟨0, p, some .badCharacterReference⟩

/-- `_ToCharRef`. -/
def toCharRef : List UInt8 → Ref
  | 120 :: p => toCharRefIn 16 p
  | p => toCharRefIn 10 p

/-- `_ToRef`, on the text behind the ampersand. -/
def toRef : List UInt8 → Ref
  | 35 :: p => toCharRef p
  | p => toEntityRef p

theorem skipHexMark_suffix (base : Nat) (p : List UInt8) : skipHexMark base p <:+ p := by
  unfold skipHexMark
  split
  · rename_i c d rest
    split
    · exact (suffix_cons c _).trans (suffix_cons 48 _)
    · exact suffix_refl _
  · exact suffix_refl _

theorem skipSign_suffix (p : List UInt8) : (skipSign p).2 <:+ p := by
  unfold skipSign
  split
  · exact suffix_cons _ _
  · exact suffix_cons _ _
  · exact suffix_refl _

variable {p rest text data : List UInt8}

/-- The end pointer is behind blanks, a sign, the mark of base 16 and the digits. -/
theorem strtoul_suffix {base : Nat} {x : Nat} (found : strtoul base p = some (x, rest)) :
    rest <:+ p := by
  unfold strtoul at found
  simp only at found
  split at found
  · cases found
  · cases found
    exact (dropWhile_suffix _).trans ((skipHexMark_suffix _ _).trans
      ((skipSign_suffix _).trans (dropWhile_suffix _)))

theorem toCharRef_suffix : (toCharRef p).rest <:+ p := by
  have inBase : ∀ base (p : List UInt8), (toCharRefIn base p).rest <:+ p := by
    intro base p
    unfold toCharRefIn
    split
    · rename_i x rest found
      split
      · exact suffix_refl _
      · exact (suffix_cons 59 rest).trans (strtoul_suffix found)
    · exact suffix_refl _
  unfold toCharRef
  split
  · exact (inBase 16 _).trans (suffix_cons _ _)
  · exact inBase 10 _

/-- No reference goes back in the text. -/
theorem toRef_suffix : (toRef p).rest <:+ p := by
  unfold toRef
  split
  · exact (toCharRef_suffix).trans (suffix_cons _ _)
  · unfold toEntityRef
    split
    · exact drop_suffix _ _
    · exact suffix_refl _

/-! ## Attribute values and character data -/

/-- What the first loop of `_ReduceAttrValue` passes over: the characters of
`_ReduceAttrValueMatch` and the newline. -/
def plainInValue (c : UInt8) : Bool := c != 0 && c != 34 && c != 38 && c != 39 && c < 128

/-- The body of the second loop of `_ReduceAttrValue`. It ends with an error or without. -/
def attrRound (eos : UInt8) : Unit → List UInt8 → Round Unit UInt8 (Option Fault)
  | _, [] => .halt none
  | _, c :: text =>
    if c = eos then .halt none
    else if c = 38 then
      match (toRef text).fault with
      | some fault => .halt (some fault)
      | none => .emit (toRef text).char () (toRef text).rest
    else .emit c () text

/-- What the first loop of `_ReduceCharData` passes over: the characters of
`_ReduceCharDataMatch` and the newline. -/
def plainInData (c : UInt8) : Bool := c != 0 && c != 38 && c != 60

/-- The body of the second loop of `_ReduceCharData`, whose inner loops copy plain bytes one at
a time. A bad character reference does not move the pointer back to where it was, so the loop
goes on, and the error is only seen by the caller; a later one replaces it. -/
def dataRound : Option Fault → List UInt8 → Round (Option Fault) UInt8 (Option Fault)
  -- the document ends inside character data, which `_ParseCharData` reports if nothing else is
  | pending, [] => .halt (some (pending.getD .charDataExpectedElementEndTag))
  | pending, c :: text =>
    if c = 60 then .halt pending
    else if c = 38 then
      if (toRef text).fault.isSome ∧ (toRef text).rest = text then .halt (toRef text).fault
      else .emit (toRef text).char ((toRef text).fault.or pending) (toRef text).rest
    else .emit c pending text

/-- A rest that a round leaves is behind the byte it looked at. -/
def Behind (rest text : List UInt8) : Prop := ∃ c tail, text = c :: tail ∧ rest <:+ tail

theorem Behind.suffix (behind : Behind rest text) : rest <:+ text := by
  obtain ⟨c, tail, rfl, later⟩ := behind
  exact later.trans (suffix_cons c tail)

theorem Behind.shorter (behind : Behind rest text) : rest.length < text.length := by
  obtain ⟨c, tail, rfl, later⟩ := behind
  exact Nat.lt_succ_of_le later.length_le

theorem attrRound_behind {eos c : UInt8} {s next : Unit}
    (here : attrRound eos s text = .emit c next rest) : Behind rest text := by
  revert here
  fun_cases attrRound <;> intro here <;> cases here
  · exact ⟨_, _, rfl, toRef_suffix⟩
  · exact ⟨_, _, rfl, suffix_refl _⟩

theorem dataRound_behind {c : UInt8} {s next : Option Fault}
    (here : dataRound s text = .emit c next rest) : Behind rest text := by
  revert here
  fun_cases dataRound <;> intro here <;> cases here
  · exact ⟨_, _, rfl, toRef_suffix⟩
  · exact ⟨_, _, rfl, suffix_refl _⟩

/-- The second loop of `_ReduceAttrValue`. -/
def attrDecoder (eos : UInt8) : Decoder Unit UInt8 (Option Fault) where
  round := attrRound eos
  suffix := fun here => (attrRound_behind here).suffix
  shorter := fun here => (attrRound_behind here).shorter

/-- The second loop of `_ReduceCharData`. -/
def dataDecoder : Decoder (Option Fault) UInt8 (Option Fault) where
  round := dataRound
  suffix := fun here => (dataRound_behind here).suffix
  shorter := fun here => (dataRound_behind here).shorter

/-- The result of a reducer: the bytes of its first loop, which are left where they are, and
what its second loop decoded. -/
def reduced (plain : List UInt8) (decoded : Decoded UInt8 (Option Fault)) :
    Except Fault (List UInt8 × List UInt8) :=
  match decoded.ending with
  | some fault => .error fault
  | none => .ok (plain ++ decoded.out, decoded.rest)

/-- `_ReduceAttrValue`: the decoded value and the text from the closing quote on. -/
def reduceAttrValue (eos : UInt8) (p : List UInt8) : Except Fault (List UInt8 × List UInt8) :=
  reduced (p.takeWhile plainInValue) ((attrDecoder eos).decode () (p.dropWhile plainInValue))

/-- `_ReduceCharData`: the decoded data and the text from the next `<` on. Where the first loop
already stops there, the second one has nothing to do. -/
def reduceCharData (p : List UInt8) : Except Fault (List UInt8 × List UInt8) :=
  reduced (p.takeWhile plainInData) (dataDecoder.decode none (p.dropWhile plainInData))

theorem reduced_ok {plain : List UInt8} {decoded : Decoded UInt8 (Option Fault)}
    (run : reduced plain decoded = .ok (data, rest)) :
    decoded.ending = none ∧ data = plain ++ decoded.out ∧ rest = decoded.rest := by
  unfold reduced at run
  split at run
  · cases run
  · rename_i fine
    cases run
    exact ⟨fine, rfl, rfl⟩

theorem length_reduced_le {σ : Type} {decoder : Decoder σ UInt8 (Option Fault)} {s : σ}
    {plain : List UInt8} {passes : UInt8 → Bool}
    (run : reduced plain (decoder.decode s (p.dropWhile passes)) = .ok (data, rest)) :
    rest.length ≤ p.length := by
  obtain ⟨-, -, rfl⟩ := reduced_ok run
  exact ((decode_rest_suffix _ _ _).trans (dropWhile_suffix _)).length_le

end Omi.Xml
