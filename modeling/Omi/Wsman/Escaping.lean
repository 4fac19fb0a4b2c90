import Omi.Base.Numbers
import Omi.Wsman.Buf
import Omi.Xml.Calls

/-!
# Escaped text reads back

What `WSBuf_AddString` writes is read back by the XML parser: as character data of
an element and as an attribute value. The reducers decode it in place without ever
storing at a position they have not read.
-/

namespace Omi.Wsman

open List
open Base (isDigit NoDigit noDigit_cons strtoul_digits)
open Xml InPlace

/-! ## References -/

theorem decimal_digits (c : UInt8) : decimal c ≠ [] ∧ (∀ d ∈ decimal c, isDigit d = true) ∧
    digitsValue 10 (decimal c) = c.toNat := by
  have digits : ∀ c : UInt8, (decimal c).all isDigit = true := forall_byte (by decide +kernel)
  have value : ∀ c : UInt8, digitsValue 10 (decimal c) = c.toNat :=
    forall_byte (by decide +kernel)
  have some' : ∀ c : UInt8, decimal c ≠ [] := forall_byte (by decide +kernel)
  exact ⟨some' c, all_eq_true.mp (digits c), value c⟩

theorem toCharRef_decimal (c : UInt8) (text : List UInt8) :
    toCharRef (decimal c ++ 59 :: text) = ⟨c, text, none⟩ := by
  obtain ⟨some', digits, value⟩ := decimal_digits c
  have bound := c.toNat_lt
  have read := strtoul_digits some' digits (by rw [value, ulongMax]; omega)
    (noDigit_cons.mpr (by decide) : NoDigit (59 :: text))
  have notHex : toCharRef (decimal c ++ 59 :: text) = toCharRefIn 10 (decimal c ++ 59 :: text) := by
    cases shape : decimal c with
    | nil => exact absurd shape some'
    | cons d rest =>
      have range := digits d (by rw [shape]; exact mem_cons_self)
      rw [cons_append, toCharRef]
      intro p same
      have hex := (cons.inj same).1
      rw [hex] at range
      exact absurd range (by decide)
  rw [notHex, toCharRefIn, read, value]
  simp only
  rw [if_neg (by omega), UInt8.ofNat_toNat]

/-- The encoding of a byte is the byte itself, where it is plain, or a reference to it. -/
theorem encoding_cases (c : UInt8) :
    (specialCharEncoding c = [c] ∧ c ≠ 34 ∧ c ≠ 38 ∧ c ≠ 60) ∨
      ∃ ref, specialCharEncoding c = 38 :: ref ∧
        ∀ text, toRef (ref ++ text) = ⟨c, text, none⟩ := by
  unfold specialCharEncoding
  split
  · refine .inr ⟨35 :: (decimal c ++ [59]), rfl, ?_⟩
    intro text
    rw [cons_append, toRef, append_assoc]
    exact toCharRef_decimal c text
  split
  · rename_i same
    exact .inr ⟨ascii "quot;", rfl, fun text => by rw [same]; rfl⟩
  split
  · rename_i same
    exact .inr ⟨ascii "amp;", rfl, fun text => by rw [same]; rfl⟩
  split
  · rename_i same
    exact .inr ⟨ascii "apos;", rfl, fun text => by rw [same]; rfl⟩
  split
  · rename_i same
    exact .inr ⟨ascii "lt;", rfl, fun text => by rw [same]; rfl⟩
  split
  · rename_i same
    exact .inr ⟨ascii "gt;", rfl, fun text => by rw [same]; rfl⟩
  · rename_i notQuote notAmp _ notLt _
    exact .inl ⟨rfl, notQuote, notAmp, notLt⟩

/-! ## Reducers -/

section Reducers

variable {σ : Type} {d : Decoder σ UInt8 (Option Fault)} {s : σ}

theorem reduced_cons (c : UInt8) (plain : List UInt8) (decoded : Decoded UInt8 (Option Fault)) :
    reduced (c :: plain) decoded = (reduced plain decoded).map fun out => (c :: out.1, out.2) := by
  unfold reduced
  cases decoded.ending with
  | none | some fault => rfl

theorem reduced_emit {c : UInt8} {next : σ} {text rest : List UInt8}
    (here : d.round s text = .emit c next rest) :
    reduced [] (d.decode s text) =
      (reduced [] (d.decode next rest)).map fun out => (c :: out.1, out.2) := by
  rw [decode_emit here]
  unfold reduced
  cases (d.decode next rest).ending with
  | none | some fault => rfl

/-- Leaving plain bytes where they are is the same as copying them onto themselves. -/
theorem reduced_plain {plain : UInt8 → Bool}
    (emits : ∀ c text, plain c = true → d.round s (c :: text) = .emit c s text)
    (p : List UInt8) :
    reduced (p.takeWhile plain) (d.decode s (p.dropWhile plain)) = reduced [] (d.decode s p) := by
  induction p with
  | nil => rfl
  | cons c p ih =>
    by_cases is : plain c = true
    · rw [takeWhile_cons_of_pos is, dropWhile_cons_of_pos is, reduced_cons, ih,
        reduced_emit (emits c p is)]
    · rw [takeWhile_cons_of_neg is, dropWhile_cons_of_neg is]

/-- A decoder that takes every encoding for its byte decodes an escaped string, up to the byte
at which it halts. -/
theorem reduced_escape {rest : List UInt8}
    (emits : ∀ c text, d.round s (specialCharEncoding c ++ text) = .emit c s text)
    (halts : d.round s rest = .halt none) (str : List UInt8) :
    reduced [] (d.decode s (escape str ++ rest)) = .ok (str, rest) := by
  induction str with
  | nil =>
    change reduced [] (d.decode s rest) = _
    rw [decode_halt halts]
    rfl
  | cons c str ih =>
    change reduced [] (d.decode s ((specialCharEncoding c ++ escape str) ++ rest)) = _
    rw [append_assoc, reduced_emit (emits c _), ih]
    rfl

/-- A reducer in place: the first loop moves both positions over plain bytes. -/
def inPlaceFrom (d : Decoder σ UInt8 (Option Fault)) (s : σ) (plain : UInt8 → Bool)
    (data : List UInt8) (start : Nat) : Option (Option Fault × Buffer UInt8) :=
  d.decodeInPlace s ⟨data, start + ((data.drop start).takeWhile plain).length,
    start + ((data.drop start).takeWhile plain).length⟩

/-- A run in place has replaced the input behind `front` by `value`, has `rest` unread, and has
made no store at a position it had not read. -/
def Replaces (run : Option (Option Fault × Buffer UInt8)) (front value rest : List UInt8) : Prop :=
  ∃ out, run = some (none, out) ∧ out.write ≤ out.read ∧
    out.data.take out.write = front ++ value ∧ out.data.drop out.read = rest

/-- Whatever a reducer returns, the loops in place have left it in the buffer. -/
theorem inPlaceFrom_replaces {plain : UInt8 → Bool} (front text value rest : List UInt8)
    (run : reduced (text.takeWhile plain) (d.decode s (text.dropWhile plain))
      = .ok (value, rest)) :
    Replaces (inPlaceFrom d s plain (front ++ text) front.length) front value rest := by
  obtain ⟨fine, rfl, rfl⟩ := reduced_ok run
  have parts : text.takeWhile plain ++ text.dropWhile plain = text :=
    takeWhile_append_dropWhile
  unfold inPlaceFrom
  rw [drop_left]
  generalize text.takeWhile plain = passed at *
  generalize text.dropWhile plain = unread at *
  subst parts
  -- the second loop starts with both positions behind the plain bytes
  have start : (front ++ (passed ++ unread)).drop (front.length + passed.length) = unread := by
    rw [← append_assoc, ← length_append]
    exact drop_left
  have before : (front ++ (passed ++ unread)).take (front.length + passed.length) =
      front ++ passed := by
    rw [← append_assoc, ← length_append]
    exact take_left
  obtain ⟨out, ran, -, -, order, left, written⟩ := decodeInPlace_eq d s
    ⟨front ++ (passed ++ unread), front.length + passed.length, front.length + passed.length⟩
    (Nat.le_refl _) (by simp only [length_append]; omega)
  rw [start] at ran left written
  rw [before, append_assoc] at written
  rw [fine] at ran
  exact ⟨out, ran, order, written, left⟩

end Reducers

/-- `_ReduceCharData` on the buffer of the document, from a position on. -/
def reduceCharDataInPlace (data : List UInt8) (start : Nat) :
    Option (Option Fault × Buffer UInt8) :=
  inPlaceFrom dataDecoder none plainInData data start

/-- `_ReduceAttrValue` on the buffer of the document, from a position on. -/
def reduceAttrValueInPlace (eos : UInt8) (data : List UInt8) (start : Nat) :
    Option (Option Fault × Buffer UInt8) :=
  inPlaceFrom (attrDecoder eos) () plainInValue data start

/-- Escaped text in front of a tag is character data. -/
theorem reduceCharData_escape (str after : List UInt8) :
    reduceCharData (escape str ++ 60 :: after) = .ok (str, 60 :: after) := by
  have plain : ∀ c text, plainInData c = true →
      dataDecoder.round none (c :: text) = .emit c none text := by
    intro c text is
    unfold plainInData at is
    simp only [Bool.and_eq_true, bne_iff_ne] at is
    change dataRound none (c :: text) = _
    rw [dataRound, if_neg is.2, if_neg is.1.2]
  have emits : ∀ c text, dataDecoder.round none (specialCharEncoding c ++ text) =
      .emit c none text := by
    intro c text
    change dataRound none _ = _
    rcases encoding_cases c with ⟨same, -, notAmp, notLt⟩ | ⟨ref, same, decodes⟩
    · rw [same, singleton_append, dataRound, if_neg notLt, if_neg notAmp]
    · rw [same, cons_append, dataRound, if_neg (by decide), if_pos rfl, decodes,
        if_neg fun both => absurd both.1 Bool.false_ne_true]
      rfl
  unfold reduceCharData
  rw [reduced_plain plain]
  exact reduced_escape emits rfl str

/-- Escaped text in front of a double quote is an attribute value. -/
theorem reduceAttrValue_escape (str after : List UInt8) :
    reduceAttrValue 34 (escape str ++ 34 :: after) = .ok (str, 34 :: after) := by
  have plain : ∀ c text, plainInValue c = true →
      (attrDecoder 34).round () (c :: text) = .emit c () text := by
    intro c text is
    unfold plainInValue at is
    simp only [Bool.and_eq_true, bne_iff_ne] at is
    change attrRound 34 () (c :: text) = _
    rw [attrRound, if_neg is.1.1.1.2, if_neg is.1.1.2]
  have emits : ∀ c text, (attrDecoder 34).round () (specialCharEncoding c ++ text) =
      .emit c () text := by
    intro c text
    change attrRound 34 () _ = _
    rcases encoding_cases c with ⟨same, notQuote, notAmp, -⟩ | ⟨ref, same, decodes⟩
    · rw [same, singleton_append, attrRound, if_neg notQuote, if_neg notAmp]
    · rw [same, cons_append, attrRound, if_neg (by decide), if_pos rfl, decodes]
  unfold reduceAttrValue
  rw [reduced_plain plain]
  exact reduced_escape emits rfl str

/-! ## Tags -/

/-- A name as it stands in a tag. -/
def tagText (q : QName) : List UInt8 :=
  if q.nsPrefix = [] then q.name else q.nsPrefix ++ 58 :: q.name

/-- Both parts are made of name characters, and the name starts with a first character. -/
structure Named (q : QName) : Prop where
  innerPrefix : ∀ c ∈ q.nsPrefix, isInner c = true
  innerName : ∀ c ∈ q.name, isInner c = true
  first : ∃ c rest, tagText q = c :: rest ∧ isFirst c = true

theorem isFirst_not (c : UInt8) :
    isFirst c = true → isSpace c = false ∧ c ≠ 47 ∧ c ≠ 60 ∧ c ≠ 62 := by
  revert c
  exact forall_byte (by decide +kernel)

/-- A name in front of the end of a tag is read as it was written. -/
theorem readName_tagText {q : QName} (named : Named q) (after : List UInt8) :
    readName (tagText q ++ 62 :: after) = (q, 62 :: after) := by
  obtain ⟨nameTake, nameSkip⟩ := takeWhile_stop named.innerName (by decide : isInner 62 = false)
    after
  unfold tagText readName skipInner
  by_cases plain : q.nsPrefix = []
  · rw [if_pos plain, nameSkip, nameTake]
    change (QName.mk [] q.name, _) = _
    rw [← plain]
  · obtain ⟨prefixTake, prefixSkip⟩ := takeWhile_stop named.innerPrefix
      (by decide : isInner 58 = false) (q.name ++ 62 :: after)
    rw [if_neg plain, append_assoc, cons_append, prefixSkip, prefixTake]
    change (QName.mk q.nsPrefix _, _) = _
    rw [nameSkip, nameTake]

theorem Named.head_isFirst {q : QName} (named : Named q) (after : List UInt8) :
    ((tagText q ++ after).head?.map isFirst).getD false = true := by
  obtain ⟨c, rest, same, first⟩ := named.first
  rw [same]
  exact first

theorem skipSpaces_bracket (after : List UInt8) : skipSpaces (62 :: after) = 62 :: after :=
  dropWhile_cons_of_neg (by decide)

theorem skipSpaces_tagText {q : QName} (named : Named q) (after : List UInt8) :
    skipSpaces (tagText q ++ after) = tagText q ++ after := by
  obtain ⟨c, rest, same, first⟩ := named.first
  unfold skipSpaces
  rw [same, cons_append, dropWhile_cons_of_neg]
  rw [(isFirst_not c first).1]
  decide

/-! ## The parser on an escaped element -/

/-- The parser can read an element here: nothing is waiting, one more tag can be opened, and it
is in front of the root or inside another element. -/
structure Ready (xml : XML) : Prop where
  idle : xml.elemStack = []
  room : xml.stack.length ≠ maxNested
  place : xml.state = .start ∨ (xml.state = .chars ∧ xml.stack ≠ [])

variable {xml found : XML} {nsPrefix after s : List UInt8} {ns : NameSpace}

/-- An angle bracket leads to what stands in the tag. -/
theorem turn_bracket {p : List UInt8}
    (place : xml.state = .start ∨ (xml.state = .chars ∧ xml.stack ≠ [])) (here : xml.ptr = 60 :: p) :
    xml.turn = .ok (.again { xml with ptr := p, state := .tag }) := by
  unfold XML.turn
  rcases place with state | ⟨state, inside⟩
  · rw [state, here]
    rfl
  · rw [state]
    change xml.parseCharData = _
    unfold XML.parseCharData
    rw [if_neg inside, here]
    rfl

/-- A lookup depends on the namespaces and the cache only. -/
theorem findNamespace_congr {other : XML} (lookup : xml.findNamespace nsPrefix = .ok (ns, found))
    (entries : other.nameSpaces = xml.nameSpaces)
    (cache : other.nameSpacesCacheIndex = xml.nameSpacesCacheIndex) :
    other.findNamespace nsPrefix =
      .ok (ns, { other with nameSpacesCacheIndex := found.nameSpacesCacheIndex }) := by
  obtain ⟨ptr, stack, nesting, elemStack, nameSpaces, index, registered, state, root⟩ := other
  change nameSpaces = xml.nameSpaces at entries
  change index = xml.nameSpacesCacheIndex at cache
  subst entries cache
  have moved : (XML.mk ptr stack nesting elemStack xml.nameSpaces xml.nameSpacesCacheIndex
      registered state root).findNamespace nsPrefix = (xml.findNamespace nsPrefix).map fun out =>
        (out.1, ⟨ptr, stack, nesting, elemStack, xml.nameSpaces, out.2.nameSpacesCacheIndex,
          registered, state, root⟩) := by
    simp only [XML.findNamespace, XML.cached]
    repeat' split
    all_goals rfl
  rw [moved, lookup]
  rfl

theorem searchDown_found {entries : List NameSpace} {n i : Nat}
    (hit : searchDown entries nsPrefix n = some (i, ns)) :
    entries[i]? = some ns ∧ ns.named nsPrefix = true := by
  induction n with
  | zero => cases hit
  | succ n ih =>
    unfold searchDown at hit
    split at hit
    · rename_i entry here
      split at hit
      · rename_i matching
        cases hit
        exact ⟨here, matching⟩
      · exact ih hit
    · exact ih hit

/-- A lookup that is repeated gives the same and changes nothing. -/
theorem findNamespace_again (lookup : xml.findNamespace nsPrefix = .ok (ns, found)) :
    found.findNamespace nsPrefix = .ok (ns, found) := by
  have again := lookup
  unfold XML.findNamespace at lookup
  split at lookup
  · cases lookup
    exact again
  rename_i notXml
  split at lookup
  · cases lookup
    exact again
  rename_i notXmlns
  split at lookup
  · cases lookup
    exact again
  split at lookup
  · rename_i i entry hit
    cases lookup
    -- the entry is in the cache now
    obtain ⟨here, matching⟩ := searchDown_found hit
    have cached : { xml with nameSpacesCacheIndex := some i }.cached nsPrefix = some ns := by
      change Option.filter _ xml.nameSpaces[i]? = some ns
      rw [here, Option.filter_some, if_pos matching]
    unfold XML.findNamespace
    rw [if_neg notXml, if_neg notXmlns, cached]
  split at lookup
  · cases lookup
    exact again
  · cases lookup

/-- The parser behind the start tag of an element without attributes. -/
def XML.opened (xml : XML) (name : Name) (cache : Option Nat) (after : List UInt8) : XML :=
  { xml with
    nameSpacesCacheIndex := cache
    foundRoot := true
    stack := name :: xml.stack
    nesting := xml.nesting + 1
    ptr := after
    state := .chars }

theorem parseStartTag_tagText {q : QName} (named : Named q) (room : xml.stack.length ≠ maxNested)
    (lookup : xml.findNamespace q.nsPrefix = .ok (ns, found)) (after : List UInt8) :
    xml.parseStartTag (tagText q ++ 62 :: after) =
      .ok (⟨⟨.startTag, ⟨q.name, ns.uri, ns.id⟩, []⟩, .startTag ⟨q, [], false⟩⟩,
        XML.opened xml ⟨q.name, ns.uri, ns.id⟩ found.nameSpacesCacheIndex after) := by
  have lookup' := @findNamespace_congr _ _ _ _ { xml with foundRoot := true } lookup rfl rfl
  have read : { xml with foundRoot := true }.readStartTag q (62 :: after) =
      .ok (⟨.startTag, ⟨q.name, ns.uri, ns.id⟩, []⟩, [], 62 :: after,
        { xml with foundRoot := true, nameSpacesCacheIndex := found.nameSpacesCacheIndex }) := by
    unfold XML.readStartTag
    have none : parseAttrs (fun c => c == 47 || c == 62) q.name (maxAttributes + 1)
        { xml with foundRoot := true } [] (62 :: after) =
        .ok ({ xml with foundRoot := true }, [], 62 :: after) := rfl
    rw [none]
    simp only
    rw [lookup']
    rfl
  unfold XML.parseStartTag
  rw [if_pos (named.head_isFirst _), readName_tagText named]
  simp only
  rw [if_neg (cons_ne_nil _ _), skipSpaces_bracket, read]
  simp only [XML.openElement]
  rw [if_neg room]
  rfl

/-- The start tag. -/
theorem next_startTag {q : QName} (ready : Ready xml) (named : Named q)
    (lookup : xml.findNamespace q.nsPrefix = .ok (ns, found))
    (here : xml.ptr = 60 :: (tagText q ++ 62 :: after)) :
    xml.next = .ok (some ⟨.startTag, ⟨q.name, ns.uri, ns.id⟩, []⟩,
      XML.opened xml ⟨q.name, ns.uri, ns.id⟩ found.nameSpacesCacheIndex after) := by
  obtain ⟨c, rest, same, first⟩ := named.first
  obtain ⟨-, notSlash, -, -⟩ := isFirst_not c first
  have lookup' := @findNamespace_congr _ _ _ _
    { xml with ptr := tagText q ++ 62 :: after, state := .tag } lookup rfl rfl
  have parsed := @parseStartTag_tagText { xml with ptr := tagText q ++ 62 :: after, state := .tag }
    _ _ _ named ready.room lookup' after
  refine @next_of_loop _ _ ⟨_, .startTag ⟨q, [], false⟩⟩ ready.idle ?_
  rw [loop_again (turn_bracket ready.place here)]
  refine loop_event ?_
  change XML.parseTag _ = _
  unfold XML.parseTag
  simp only
  rw [skipSpaces_tagText named]
  rw [same, cons_append] at parsed ⊢
  simp only
  rw [if_neg notSlash, if_pos first, parsed]
  rfl

/-- The parser behind the end tag that closes the innermost element. -/
def XML.closed (xml : XML) (stack : List Name) (after : List UInt8) : XML :=
  { { xml with stack := stack, nesting := xml.nesting - 1 }.leaveScope with
    ptr := after
    state := .chars }

/-- The end tag, with the parser behind its angle bracket. -/
theorem turn_endTag {q : QName} {stack : List Name} (named : Named q) (state : xml.state = .tag)
    (innermost : xml.stack = ⟨q.name, ns.uri, ns.id⟩ :: stack)
    (lookup : xml.findNamespace q.nsPrefix = .ok (ns, xml))
    (here : xml.ptr = 47 :: (tagText q ++ 62 :: after)) :
    xml.turn = .ok (.event ⟨⟨.endTag, ⟨q.name, ns.uri, ns.id⟩, []⟩, .endTag q⟩
      (XML.closed xml stack after)) := by
  have matched : xml.closeElement q = .ok (⟨.endTag, ⟨q.name, ns.uri, ns.id⟩, []⟩,
      { xml with stack := stack, nesting := xml.nesting - 1 }.leaveScope) := by
    unfold XML.closeElement
    rw [lookup]
    simp only [innermost]
    rw [if_neg]
    rintro (other | other | ⟨-, other⟩)
    · exact other rfl
    · exact other rfl
    · exact other rfl
  have slash : skipSpaces (47 :: (tagText q ++ 62 :: after)) =
      47 :: (tagText q ++ 62 :: after) := dropWhile_cons_of_neg (by decide)
  have parsed : xml.parseEndTag (47 :: (tagText q ++ 62 :: after)) =
      .ok (⟨⟨.endTag, ⟨q.name, ns.uri, ns.id⟩, []⟩, .endTag q⟩, XML.closed xml stack after) := by
    unfold XML.parseEndTag
    simp only [tail_cons, skipSpaces_tagText named, readName_tagText named]
    rw [if_pos (named.head_isFirst _), if_neg (cons_ne_nil _ _), skipSpaces_bracket]
    simp only
    rw [matched]
    rfl
  unfold XML.turn
  rw [state]
  change xml.parseTag = _
  unfold XML.parseTag
  rw [here, slash]
  simp only
  rw [if_pos trivial, parsed]
  rfl

theorem escape_ne_nil (some' : s ≠ []) : ∃ c rest, escape s = c :: rest ∧ c ≠ 60 := by
  cases s with
  | nil => exact absurd rfl some'
  | cons c s =>
    change ∃ d rest, specialCharEncoding c ++ escape s = d :: rest ∧ d ≠ 60
    rcases encoding_cases c with ⟨same, -, -, notLt⟩ | ⟨ref, same, -⟩
    · exact ⟨c, escape s, by rw [same]; rfl, notLt⟩
    · exact ⟨38, ref ++ escape s, by rw [same]; rfl, by decide⟩

/-- Escaped text inside an element is handed over as character data. -/
theorem turn_escape (state : xml.state = .chars) (inside : xml.stack ≠ []) (some' : s ≠ [])
    (here : xml.ptr = escape s ++ 60 :: after) :
    xml.turn = .ok (.event ⟨plainElem .chars s, .text⟩
      { xml with ptr := after, state := .tag }) := by
  obtain ⟨c, rest, same, notLt⟩ := escape_ne_nil some'
  have data := reduceCharData_escape s after
  unfold XML.turn
  rw [state]
  change xml.parseCharData = _
  unfold XML.parseCharData
  rw [if_neg inside, here]
  split
  · rename_i p first
    rw [same, cons_append] at first
    exact absurd (cons.inj first).1 notLt
  · rw [data]
    simp only
    rw [if_neg some']
    rfl

/-- Inside the element: character data if there is some, and then the end tag. -/
theorem content_events {q : QName} {stack : List Name} (named : Named q) (idle : xml.elemStack = [])
    (state : xml.state = .chars) (innermost : xml.stack = ⟨q.name, ns.uri, ns.id⟩ :: stack)
    (lookup : xml.findNamespace q.nsPrefix = .ok (ns, xml))
    (here : xml.ptr = escape s ++ 60 :: 47 :: (tagText q ++ 62 :: after)) :
    ∃ closed, closed.ptr = after ∧
      ((s = [] ∧ xml.next = .ok (some ⟨.endTag, ⟨q.name, ns.uri, ns.id⟩, []⟩, closed)) ∨
        (s ≠ [] ∧ ∃ inside, xml.next = .ok (some (plainElem .chars s), inside) ∧
          inside.next = .ok (some ⟨.endTag, ⟨q.name, ns.uri, ns.id⟩, []⟩, closed))) := by
  have inside : xml.stack ≠ [] := by
    rw [innermost]
    exact cons_ne_nil _ _
  have atTag := @findNamespace_congr _ _ _ _
    { xml with ptr := 47 :: (tagText q ++ 62 :: after), state := .tag } lookup rfl rfl
  have ends := @turn_endTag { xml with ptr := 47 :: (tagText q ++ 62 :: after), state := .tag }
    after ns q stack named rfl innermost atTag rfl
  refine ⟨XML.closed { xml with ptr := 47 :: (tagText q ++ 62 :: after), state := .tag } stack after,
    rfl, ?_⟩
  by_cases none : s = []
  · subst none
    refine .inl ⟨rfl, ?_⟩
    refine @next_of_loop _ _ ⟨_, .endTag q⟩ idle ?_
    rw [loop_again (turn_bracket (.inr ⟨state, inside⟩) here)]
    exact loop_event ends
  · refine .inr ⟨none, _, next_of_loop idle (loop_event (turn_escape state inside none here)), ?_⟩
    have last := loop_event ends
    exact @next_of_loop _ _ ⟨_, .endTag q⟩ idle last

/-- The events of an element with an escaped string, wherever an element can start. -/
theorem element_events {q : QName} {found : XML} (named : Named q) (ready : Ready xml)
    (resolves : xml.findNamespace q.nsPrefix = .ok (ns, found))
    (text : xml.ptr =
      60 :: (tagText q ++ 62 :: (escape s ++ 60 :: 47 :: (tagText q ++ 62 :: after)))) :
    ∃ inside behind,
      xml.next = .ok (some ⟨.startTag, ⟨q.name, ns.uri, ns.id⟩, []⟩, inside) ∧
      behind.ptr = after ∧
      ((s = [] ∧ inside.next = .ok (some ⟨.endTag, ⟨q.name, ns.uri, ns.id⟩, []⟩, behind)) ∨
        (s ≠ [] ∧ ∃ between, inside.next = .ok (some (plainElem .chars s), between) ∧
          between.next = .ok (some ⟨.endTag, ⟨q.name, ns.uri, ns.id⟩, []⟩, behind))) := by
  obtain ⟨behind, position, events⟩ := @content_events
    (XML.opened xml ⟨q.name, ns.uri, ns.id⟩ found.nameSpacesCacheIndex
      (escape s ++ 60 :: 47 :: (tagText q ++ 62 :: after)))
    after s ns q xml.stack named ready.idle rfl rfl
    (by
      obtain ⟨i, rfl⟩ := findNamespace_ok resolves
      exact findNamespace_congr (findNamespace_again resolves) rfl rfl) rfl
  exact ⟨_, behind, next_startTag ready named resolves text, position, events⟩

theorem named_a : Named ⟨[], [97]⟩ :=
  ⟨forall_mem_nil _, forall_mem_singleton.mpr rfl, 97, [], rfl, rfl⟩

/-- The count of `2^32` plain bytes wraps to zero. -/
theorem addString_nothing {s : ZString} (plain : ∀ c ∈ s.chars, (!specialChar c) = true)
    (many : s.chars.length = 2 ^ 32) :
    WSBuf.addString (fun _ => true) ⟨ascii "<a>", 1024⟩ s = some ⟨ascii "<a>", 1024⟩ := by
  have nonempty : s.chars ≠ [] := by
    intro none
    rw [none] at many
    cases many
  have count : uint32 s.chars.length = 0 := by
    rw [many]
    rfl
  unfold WSBuf.addString
  simp only [takeWhile_eq_self_iff.mpr plain, dropWhile_eq_nil_iff.mpr plain]
  rw [if_neg nonempty, count, WSBuf.addLit, take_zero]
  rfl

end Omi.Wsman
