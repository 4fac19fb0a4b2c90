import Omi.Xml.Text

/-!
# The pull parser

The parser object and `XML_Next`, `XML_PutBack` and `XML_Skip`. A call either
fails, after which the object is not used again, or hands over an element, or
reports that the document is finished. Pointers into the document are the bytes
they point to. `text`, `line` and `message` only serve error reports and are
left out, and so is `status`: it is nonzero only after a failure, or once the
document is finished, and then the calls below answer the same way again.

`nextFrom` also says which piece of the document an element was read from. The
source does not return that; statements about documents need it.
-/

namespace Omi.Xml

def maxNested : Nat := 64
def maxNameSpaces : Nat := 32
def maxRegisteredNameSpaces : Nat := 32
def maxAttributes : Nat := 32

/-- `XML_Name`; the sizes are the lengths of the lists. -/
structure Name where
  data : List UInt8
  namespaceUri : List UInt8
  namespaceId : UInt8
deriving DecidableEq, Repr

/-- `XML_Attr`. -/
structure Attr where
  name : Name
  value : List UInt8
deriving DecidableEq, Repr

/-- `XML_Type`, without the value that marks an unset element. -/
inductive Kind where
  | startTag
  | endTag
  | instruction
  | chars
  | comment
deriving DecidableEq, Repr

/-- `XML_Elem`. -/
structure Elem where
  type : Kind
  data : Name
  attrs : List Attr
deriving DecidableEq, Repr

/-- `_HashCode`. The last character is sign-extended before the exclusive or. -/
def hashCode (s : List UInt8) : UInt32 :=
  match s.getLast? with
  | none => 0
  | some c => UInt32.ofNat s.length ^^^ (if c < 128 then c.toUInt32 else c.toUInt32 + 0xffffff00)

/-- `XML_RegisteredNameSpace`. -/
structure RegisteredNameSpace where
  uri : ZString
  id : UInt8
deriving DecidableEq

/-- The hash that `XML_RegisterNameSpace` stores with the URI. -/
def RegisteredNameSpace.uriCode (rns : RegisteredNameSpace) : UInt32 := hashCode rns.uri.chars

/-- `XML_NameSpace`. -/
structure NameSpace where
  name : List UInt8
  nameCode : UInt32
  uri : List UInt8
  id : UInt8
  depth : Nat
deriving DecidableEq, Repr

/-- `XML_State`. -/
inductive State where
  | start
  | tag
  | chars
deriving DecidableEq, Repr

/-- `XML`. The two stacks have their top in front; the namespaces stand in the order of the
array, because the cache is an index into it. The counter is a `size_t`. -/
structure XML where
  ptr : List UInt8
  stack : List Name
  nesting : UInt64
  elemStack : List Elem
  nameSpaces : List NameSpace
  nameSpacesCacheIndex : Option Nat
  registeredNameSpaces : List RegisteredNameSpace
  state : State
  foundRoot : Bool
deriving DecidableEq

/-- `XML_Init`. -/
def init : XML := ⟨[], [], 0, [], [], none, [], .start, false⟩

/-- `XML_SetText`. -/
def XML.setText (self : XML) (text : ZString) : XML :=
  { self with ptr := text.chars, state := .start }

/-- `XML_RegisterNameSpace`. -/
def XML.registerNameSpace (self : XML) (id : UInt8) (uri : ZString) : Option XML :=
  if id < 97 ∨ 122 < id then none
  else if self.registeredNameSpaces.length = maxRegisteredNameSpaces then none
  else some { self with registeredNameSpaces := self.registeredNameSpaces ++ [⟨uri, id⟩] }

/-! ## Namespaces -/

/-- What `strcmp` sees of a byte sequence that may hold a decoded NUL. -/
def cString (bytes : List UInt8) : List UInt8 := bytes.takeWhile (· != 0)

/-- `_FindNamespaceID`. -/
def findNamespaceID (registered : List RegisteredNameSpace) (uri : List UInt8) : UInt8 :=
  match registered.find? fun rns =>
      rns.uriCode == hashCode uri && rns.uri.chars == cString uri with
  | some rns => rns.id
  | none => 0

def emptyNS : NameSpace := ⟨[], 0, [], 0, 0⟩

def xmlNS : NameSpace :=
  ⟨ascii "xml", 3 ^^^ 108, ascii "http://www.w3.org/XML/1998/namespace", 0, 0⟩

def xmlnsNS : NameSpace :=
  ⟨ascii "xmlns", 5 ^^^ 115, ascii "http://www.w3.org/2000/xmlns/", 0, 0⟩

/-- The test that both the cache and the array are searched with. -/
def NameSpace.named (ns : NameSpace) (nsPrefix : List UInt8) : Bool :=
  ns.nameCode == hashCode nsPrefix && ns.name == nsPrefix

/-- The loop over `nameSpaces`, downwards from index `i`. -/
def searchDown (nameSpaces : List NameSpace) (nsPrefix : List UInt8) :
    Nat → Option (Nat × NameSpace)
  | 0 => none
  | i + 1 =>
    match nameSpaces[i]? with
    | some ns => if ns.named nsPrefix then some (i, ns) else searchDown nameSpaces nsPrefix i
    | none => searchDown nameSpaces nsPrefix i

/-- The entry that the single-entry cache answers with. -/
def XML.cached (self : XML) (nsPrefix : List UInt8) : Option NameSpace :=
  (self.nameSpacesCacheIndex >>= fun i => self.nameSpaces[i]?).filter (·.named nsPrefix)

/-- `_FindNamespace`. -/
def XML.findNamespace (self : XML) (nsPrefix : List UInt8) : Except Fault (NameSpace × XML) :=
  if nsPrefix = ascii "xml" then .ok (xmlNS, self)
  else if nsPrefix = ascii "xmlns" then .ok (xmlnsNS, self)
  else
    match self.cached nsPrefix with
    | some ns => .ok (ns, self)
    | none =>
      match searchDown self.nameSpaces nsPrefix self.nameSpaces.length with
      | some (i, ns) => .ok (ns, { self with nameSpacesCacheIndex := some i })
      | none =>
        if nsPrefix = [] then .ok (emptyNS, self)
        else .error (.undefinedNamespacePrefix nsPrefix)

/-! ## Attributes -/

/-- An attribute as it stands in the document. -/
structure RawAttr where
  name : QName
  value : List UInt8
deriving DecidableEq, Repr

/-- The prefix that the attribute declares, if its first or only token is `xmlns`. -/
def RawAttr.declares (attr : RawAttr) : Option (List UInt8) :=
  if attr.name.nsPrefix = ascii "xmlns" then some attr.name.name
  else if attr.name.nsPrefix = [] ∧ attr.name.name = ascii "xmlns" then some []
  else none

/-- The prefix saved for the caller to translate; that of a declaration is fixed. -/
def RawAttr.lookupPrefix (attr : RawAttr) : List UInt8 :=
  if attr.declares.isSome then ascii "xmlns" else attr.name.nsPrefix

/-- The lexical part of `_ParseAttr`: name, equals sign, quoted value, trailing spaces. -/
def readAttr (p : List UInt8) : Except Fault (RawAttr × List UInt8) :=
  if (p.head?.map isFirst).getD false then
    let (name, rest) := readName p
    let full := p.take (p.length - rest.length)
    match skipSpaces rest with
    | 61 :: rest =>
      match skipSpaces rest with
      | [] => .error (.expectedAttributeOpeningQuotes full)
      | quote :: rest =>
        if quote = 34 ∨ quote = 39 then
          match reduceAttrValue quote rest with
          | .error fault => .error fault
          | .ok (_, []) => .error (.expectedAttributeClosingQuotes full)
          | .ok (value, closing :: rest) =>
            if closing = quote then .ok (⟨name, value⟩, skipSpaces rest)
            else .error (.expectedAttributeClosingQuotes full)
        else .error (.expectedAttributeOpeningQuotes full)
    | _ => .error (.expectedAttributeEquals full)
  else .error .expectedAttributeName

/-- The entry that a declaration adds to the namespaces. -/
def XML.entry (self : XML) (declared uri : List UInt8) : NameSpace :=
  ⟨declared, hashCode declared, uri, findNamespaceID self.registeredNameSpaces uri,
    self.stack.length⟩

/-- The rest of `_ParseAttr`: the declaration, if it is one. -/
def XML.declare (self : XML) (attr : RawAttr) : Except Fault XML :=
  match attr.declares with
  | none => .ok self
  | some declared =>
    if self.nameSpaces.length = maxNameSpaces then .error .tooManyNamespaces
    else .ok { self with nameSpaces := self.nameSpaces ++ [self.entry declared attr.value] }

/-- `_ParseAttr`, on an element of which the attributes `attrs` have been read. -/
def parseAttr (self : XML) (elemName : List UInt8) (attrs : List RawAttr) (p : List UInt8) :
    Except Fault (XML × List RawAttr × List UInt8) :=
  match readAttr p with
  | .error fault => .error fault
  | .ok (attr, rest) =>
    match self.declare attr with
    | .error fault => .error fault
    | .ok self =>
      if attrs.length = maxAttributes then .error (.tooManyAttributes elemName)
      else .ok (self, attrs ++ [attr], rest)

/-- The attribute loops of a start tag and of a processing instruction. Every round adds an
attribute, so that one round more than there may be attributes is enough fuel. -/
def parseAttrs (stop : UInt8 → Bool) (elemName : List UInt8) :
    Nat → XML → List RawAttr → List UInt8 → Except Fault (XML × List RawAttr × List UInt8)
  | _, self, attrs, [] => .ok (self, attrs, [])
  | 0, _, _, _ :: _ => .error (.tooManyAttributes elemName)
  | fuel + 1, self, attrs, c :: p =>
    if stop c then .ok (self, attrs, c :: p)
    else
      match parseAttr self elemName attrs (c :: p) with
      | .error fault => .error fault
      | .ok (self, attrs, p) => parseAttrs stop elemName fuel self attrs p

/-- The loop of `_ParseStartTag` that translates the saved prefixes. -/
def translateAttrs : XML → List RawAttr → Except Fault (List Attr × XML)
  | self, [] => .ok ([], self)
  | self, attr :: attrs =>
    let found :=
      if attr.lookupPrefix = [] then .ok (emptyNS, self)
      else self.findNamespace attr.lookupPrefix
    match found with
    | .error fault => .error fault
    | .ok (ns, self) =>
      match translateAttrs self attrs with
      | .error fault => .error fault
      | .ok (out, self) => .ok (⟨⟨attr.name.name, ns.uri, ns.id⟩, attr.value⟩ :: out, self)

/-! ## Tags -/

/-- What a start tag says. -/
structure Tag where
  name : QName
  attrs : List RawAttr
  empty : Bool
deriving DecidableEq, Repr

/-- The piece of the document that an element was read from. -/
inductive Origin where
  | stacked
  | startTag (tag : Tag)
  | endTag (name : QName)
  | instruction (attrs : List RawAttr)
  | text
deriving DecidableEq, Repr

/-- An element and its origin. -/
structure Event where
  elem : Elem
  origin : Origin
deriving DecidableEq, Repr

/-- The end of `_ParseStartTag`: the tag is closed as an empty one or is pushed. -/
def XML.openElement (self : XML) (elem : Elem) (rest : List UInt8) :
    Except Fault (Bool × XML) :=
  match rest with
  | 47 :: rest =>
    if self.elemStack.length = maxNested then .error .elementDepthOverflow
    else
      match skipSpaces rest with
      | 62 :: rest =>
        .ok (true, { self with
          elemStack := { elem with type := .endTag } :: self.elemStack
          nesting := self.nesting + 1
          ptr := rest
          state := .chars })
      | _ => .error (.elementNameNotClosed elem.data.data)
  | 62 :: rest =>
    if self.stack.length = maxNested then .error .elementDepthOverflow
    else
      .ok (false, { self with
        stack := elem.data :: self.stack
        nesting := self.nesting + 1
        ptr := rest
        state := .chars })
  | _ => .error (.elementNameNotClosed elem.data.data)

/-- The middle of `_ParseStartTag`: attributes, then the namespaces of the element and of its
attributes, in this order. -/
def XML.readStartTag (self : XML) (name : QName) (p : List UInt8) :
    Except Fault (Elem × List RawAttr × List UInt8 × XML) :=
  match parseAttrs (fun c => c == 47 || c == 62) name.name (maxAttributes + 1) self [] p with
  | .error fault => .error fault
  | .ok (self, attrs, rest) =>
    match self.findNamespace name.nsPrefix with
    | .error fault => .error fault
    | .ok (ns, self) =>
      match translateAttrs self attrs with
      | .error fault => .error fault
      | .ok (out, self) =>
        .ok (⟨.startTag, ⟨name.name, ns.uri, ns.id⟩, out⟩, attrs, rest, self)

/-- `_ParseStartTag`. -/
def XML.parseStartTag (self : XML) (p : List UInt8) : Except Fault (Event × XML) :=
  if (p.head?.map isFirst).getD false then
    let (name, rest) := readName p
    if rest = [] then .error .elementNamePrematureEnd
    else
      match { self with foundRoot := true }.readStartTag name (skipSpaces rest) with
      | .error fault => .error fault
      | .ok (elem, attrs, rest, self) =>
        match self.openElement elem rest with
        | .error fault => .error fault
        | .ok (empty, self) => .ok (⟨elem, .startTag ⟨name, attrs, empty⟩⟩, self)
  else .error .elementNameExpected

/-- The end of `_ParseEndTag`: namespaces that have gone out of scope are removed, and the
cache is cleared if it points at one of them. -/
def XML.leaveScope (self : XML) : XML :=
  let n := self.nameSpaces.countP fun ns => self.stack.length ≤ ns.depth
  if n = 0 then self
  else
    let size := self.nameSpaces.length - n
    { self with
      nameSpaces := self.nameSpaces.take size
      nameSpacesCacheIndex := self.nameSpacesCacheIndex.filter (· < size) }

/-- The middle of `_ParseEndTag`: the name is matched with that of the open tag. -/
def XML.closeElement (self : XML) (name : QName) : Except Fault (Elem × XML) :=
  match self.findNamespace name.nsPrefix with
  | .error fault => .error fault
  | .ok (ns, self) =>
    match self.stack with
    | [] => .error (.elementTooManyEnds name.name)
    | xn :: stack =>
      if xn.data ≠ name.name ∨ xn.namespaceId ≠ ns.id ∨
          (ns.id = 0 ∧ cString xn.namespaceUri ≠ cString ns.uri) then
        .error (.elementEndTagNotMatchStartTag xn.data name.name)
      else
        .ok (⟨.endTag, ⟨name.name, ns.uri, ns.id⟩, []⟩,
          { self with stack := stack, nesting := self.nesting - 1 }.leaveScope)

/-- `_ParseEndTag`, from the slash on. When the `>` is missing, the name has not been
terminated yet, and the message prints it with all that follows. -/
def XML.parseEndTag (self : XML) (p : List UInt8) : Except Fault (Event × XML) :=
  let p := skipSpaces p.tail
  if (p.head?.map isFirst).getD false then
    let (name, rest) := readName p
    if rest = [] then .error .elementNamePrematureEndElemEnd
    else
      match skipSpaces rest with
      | 62 :: after =>
        match self.closeElement name with
        | .error fault => .error fault
        | .ok (elem, self) =>
          .ok (⟨elem, .endTag name⟩, { self with ptr := after, state := .chars })
      | _ => .error (.elementNameNotClosedElemEnd (name.name ++ rest))
  else .error .elementNameExpectedElemEnd

/-! ## Everything else between angle brackets -/

/-- Where the parser goes on after something that may also stand before the root. -/
def XML.resume (self : XML) (p : List UInt8) : XML :=
  { self with ptr := p, state := if self.foundRoot then .chars else .start }

/-- An element without a namespace and without attributes. -/
def plainElem (type : Kind) (data : List UInt8) : Elem := ⟨type, ⟨data, [], 0⟩, []⟩

/-- `_ParseProcessingInstruction`, from the question mark on. The prefixes of its attributes
are not translated; the identifiers, which the source does not set, are `0` here. -/
def XML.parseProcessingInstruction (self : XML) (p : List UInt8) : Except Fault (Event × XML) :=
  let p := p.tail
  let rest := (readName p).2
  let target := p.take (p.length - rest.length)
  if rest = [] then .error .endOfXmlInstruction
  else
    match parseAttrs (· == 63) target (maxAttributes + 1) self [] (skipSpaces rest) with
    | .error fault => .error fault
    | .ok (self, attrs, rest) =>
      match skipSpaces rest.tail with
      | 62 :: rest =>
        let out := attrs.map fun a => ⟨⟨a.name.name, a.lookupPrefix, 0⟩, a.value⟩
        .ok (⟨⟨.instruction, ⟨target, [], 0⟩, out⟩, .instruction attrs⟩, self.resume rest)
      | _ => .error .endOfInstructionMissing

/-- The loop of `_ParseComment`. -/
def commentLoop : List UInt8 → Except Fault (List UInt8 × List UInt8)
  | [] => .error .commentPrematureEnd
  | c :: p =>
    if c = 45 ∧ p.head? = some 45 then
      match p.tail with
      | 62 :: rest => .ok ([], rest)
      | _ => .error .commentEndExpected
    else (commentLoop p).map fun out => (c :: out.1, out.2)

/-- `_ParseComment`, from the two minus signs on. -/
def XML.parseComment (self : XML) (p : List UInt8) : Except Fault (Event × XML) :=
  (commentLoop (p.drop 2)).map fun out =>
    (⟨plainElem .comment out.1, .text⟩, self.resume out.2)

/-- The loop of `_ParseCDATA`. -/
def cdataLoop : List UInt8 → Except Fault (List UInt8 × List UInt8)
  | [] => .error .cdataPrematureEnd
  | c :: p =>
    if c = 93 ∧ p.take 2 = [93, 62] then .ok ([], p.drop 2)
    else (cdataLoop p).map fun out => (c :: out.1, out.2)

/-- `_ParseCDATA`, from the bracket on. -/
def XML.parseCDATA (self : XML) (p : List UInt8) : Except Fault (Event × XML) :=
  (cdataLoop (p.drop 7)).map fun out =>
    (⟨plainElem .chars out.1, .text⟩, { self with ptr := out.2, state := .chars })

/-- `_ParseDOCTYPE`. -/
def XML.parseDOCTYPE (self : XML) (p : List UInt8) : Except Fault XML :=
  match (p.drop 7).dropWhile (· != 62) with
  | _ :: rest => .ok (self.resume rest)
  | [] => .error .doctypePrematureEnd

/-! ## The calls -/

/-- One round of the loop in `XML_Next`. -/
inductive Turn where
  | again (self : XML)
  | event (event : Event) (self : XML)
  | done (self : XML)

/-- A parsed element ends the loop. -/
def Turn.ofEvent (out : Event × XML) : Turn := .event out.1 out.2

/-- `_ParseCharData`. -/
def XML.parseCharData (self : XML) : Except Fault Turn :=
  if self.stack = [] then .ok (.done self)
  else
    match self.ptr with
    | 60 :: p => .ok (.again { self with ptr := p, state := .tag })
    | p =>
      match reduceCharData p with
      | .error fault => .error fault
      | .ok (data, rest) =>
        let self := { self with ptr := rest.tail, state := .tag }
        if data = [] then .ok (.again self)
        else .ok (.event ⟨plainElem .chars data, .text⟩ self)

/-- The case `STATE_TAG` of `XML_Next`. -/
def XML.parseTag (self : XML) : Except Fault Turn :=
  match skipSpaces self.ptr with
  | [] => .error .elementExpected
  | c :: p =>
    if c = 47 then (self.parseEndTag (c :: p)).map Turn.ofEvent
    else if isFirst c then (self.parseStartTag (c :: p)).map Turn.ofEvent
    else if c = 63 then (self.parseProcessingInstruction (c :: p)).map Turn.ofEvent
    else if c = 33 then
      if (ascii "--").isPrefixOf p then (self.parseComment p).map Turn.ofEvent
      else if (ascii "[CDATA[").isPrefixOf p then (self.parseCDATA p).map Turn.ofEvent
      else if (ascii "DOCTYPE").isPrefixOf p then (self.parseDOCTYPE p).map Turn.again
      else .error .commentCdataDoctypeExpected
    else .error .elementExpected

/-- The body of the loop in `XML_Next`. -/
def XML.turn (self : XML) : Except Fault Turn :=
  match self.state with
  | .start =>
    match skipSpaces self.ptr with
    | 60 :: p => .ok (.again { self with ptr := p, state := .tag })
    | _ => .error .openAngleBracketExpected
  | .tag => self.parseTag
  | .chars => self.parseCharData

end Omi.Xml
