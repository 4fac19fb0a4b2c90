import Omi.Xml.Parser

/-!
# What one round of the parser does

None of the reading functions goes back in the text, and every round of the loop
in `XML_Next` consumes at least one byte, so that the loop ends. `Reads` lists
what a round that hands over an element can do to the parser; later proofs about
whole runs start from its four cases and do not look into the parsing functions
again.
-/

namespace Omi.Xml

open List Option

/-! ## Lexical functions -/

theorem length_skipSpaces_le (p : List UInt8) : (skipSpaces p).length ≤ p.length :=
  length_dropWhile_le _ _

theorem length_skipInner_le (p : List UInt8) : (skipInner p).length ≤ p.length :=
  length_dropWhile_le _ _

theorem length_readName_le_skipInner (p : List UInt8) :
    (readName p).2.length ≤ (skipInner p).length := by
  unfold readName
  split
  · rename_i rest found
    rw [found]
    exact Nat.le_succ_of_le (length_skipInner_le rest)
  · exact Nat.le_refl _

theorem length_readName_le (p : List UInt8) : (readName p).2.length ≤ p.length :=
  (length_readName_le_skipInner p).trans (length_skipInner_le p)

theorem isInner_of_isFirst {c : UInt8} (first : isFirst c = true) : isInner c = true := by
  unfold isInner
  rw [first]
  rfl

variable {p rest elemName data : List UInt8} {self next : XML} {attrs out : List RawAttr}
  {event : Event}

/-- A name that starts with a first character is not empty. -/
theorem length_readName_lt {c : UInt8} (first : isFirst c = true) :
    (readName (c :: p)).2.length < (c :: p).length := by
  have drop : skipInner (c :: p) = skipInner p :=
    dropWhile_cons_of_pos (isInner_of_isFirst first)
  have named := length_readName_le_skipInner (c :: p)
  rw [drop] at named
  exact Nat.lt_succ_of_le (named.trans (length_skipInner_le p))

theorem map_eq_ok {ε α β : Type} {x : Except ε α} {f : α → β} {b : β}
    (mapped : x.map f = .ok b) : ∃ a, x = .ok a ∧ f a = b := by
  cases x with
  | error fault => cases mapped
  | ok a => exact ⟨a, rfl, Except.ok.inj mapped⟩

theorem head_isFirst (first : (p.head?.map isFirst).getD false = true) :
    ∃ c text, p = c :: text ∧ isFirst c = true := by
  cases p with
  | nil => cases first
  | cons c text => exact ⟨c, text, rfl, first⟩

/-- An attribute has at least a name. -/
theorem length_readAttr_lt {attr : RawAttr} (run : readAttr p = .ok (attr, rest)) :
    rest.length < p.length := by
  unfold readAttr at run
  split at run
  · rename_i first
    obtain ⟨c, text, rfl, isName⟩ := head_isFirst first
    have named := length_readName_lt (p := text) isName
    simp only at run
    split at run
    · rename_i afterEquals equals
      have spaces := length_skipSpaces_le (readName (c :: text)).2
      rw [equals, length_cons] at spaces
      split at run
      · cases run
      rename_i quote afterQuote opened
      have spaces' := length_skipSpaces_le afterEquals
      rw [opened, length_cons] at spaces'
      split at run
      · split at run
        · cases run
        · cases run
        rename_i value closing behind reduced
        have shorter := length_reduced_le reduced
        rw [length_cons] at shorter
        split at run
        · cases run
          have last := length_skipSpaces_le behind
          omega
        · cases run
      · cases run
    · cases run
  · cases run

/-! ## Attributes -/

/-- The entries that the declarations among some attributes add. -/
def XML.entries (self : XML) (attrs : List RawAttr) : List NameSpace :=
  attrs.filterMap fun attr => attr.declares.map fun declared => self.entry declared attr.value

/-- The parser with the declarations of some attributes added. -/
def XML.withEntries (self : XML) (attrs : List RawAttr) : XML :=
  { self with nameSpaces := self.nameSpaces ++ self.entries attrs }

theorem withEntries_nil : self.withEntries [] = self := by
  change { self with nameSpaces := self.nameSpaces ++ [] } = self
  rw [append_nil]

theorem withEntries_append (attrs more : List RawAttr) :
    self.withEntries (attrs ++ more) = (self.withEntries attrs).withEntries more := by
  unfold XML.withEntries
  have split : self.entries (attrs ++ more) = self.entries attrs ++ self.entries more :=
    filterMap_append
  rw [split, ← append_assoc]
  rfl

theorem declare_ok {attr : RawAttr} (run : self.declare attr = .ok next) :
    next = self.withEntries [attr] := by
  unfold XML.declare at run
  split at run
  · rename_i plain
    cases run
    have nothing : self.entries [attr] = [] := by
      simp only [XML.entries, filterMap_cons, plain, map_none, filterMap_nil]
    unfold XML.withEntries
    rw [nothing, append_nil]
  rename_i declared found
  split at run
  · cases run
  · cases run
    have one : self.entries [attr] = [self.entry declared attr.value] := by
      simp only [XML.entries, filterMap_cons, found, map_some, filterMap_nil]
    unfold XML.withEntries
    rw [one]

theorem parseAttr_ok (run : parseAttr self elemName attrs p = .ok (next, out, rest)) :
    ∃ attr, out = attrs ++ [attr] ∧ next = self.withEntries [attr] ∧ rest.length < p.length := by
  unfold parseAttr at run
  split at run
  · cases run
  rename_i attr after read
  split at run
  · cases run
  rename_i declared added
  split at run
  · cases run
  · cases run
    exact ⟨attr, rfl, declare_ok added, length_readAttr_lt read⟩

/-- The attribute loops add the declarations and consume the text of the attributes. -/
theorem parseAttrs_ok {stop : UInt8 → Bool} {fuel : Nat}
    (run : parseAttrs stop elemName fuel self attrs p = .ok (next, out, rest)) :
    ∃ new, out = attrs ++ new ∧ next = self.withEntries new ∧ rest.length ≤ p.length := by
  induction fuel generalizing self attrs p with
  | zero =>
    cases p with
    | nil =>
      cases run
      exact ⟨[], (append_nil _).symm, (withEntries_nil).symm, Nat.le_refl _⟩
    | cons c p => cases run
  | succ fuel ih =>
    cases p with
    | nil =>
      cases run
      exact ⟨[], (append_nil _).symm, (withEntries_nil).symm, Nat.le_refl _⟩
    | cons c p =>
      unfold parseAttrs at run
      split at run
      · cases run
        exact ⟨[], (append_nil _).symm, (withEntries_nil).symm, Nat.le_refl _⟩
      split at run
      · cases run
      rename_i mid attrs' p' first
      obtain ⟨attr, rfl, rfl, shorter⟩ := parseAttr_ok first
      obtain ⟨new, rfl, rfl, later⟩ := ih run
      refine ⟨attr :: new, append_assoc _ _ _, ?_, by omega⟩
      exact (withEntries_append [attr] new).symm

/-! ## Namespaces -/

/-- A lookup changes nothing but the cache. -/
theorem findNamespace_ok {nsPrefix : List UInt8} {ns : NameSpace}
    (run : self.findNamespace nsPrefix = .ok (ns, next)) :
    ∃ i, next = { self with nameSpacesCacheIndex := i } := by
  unfold XML.findNamespace at run
  repeat' split at run
  all_goals
    cases run
  all_goals exact ⟨_, rfl⟩

theorem translateAttrs_ok {out : List Attr} (run : translateAttrs self attrs = .ok (out, next)) :
    ∃ i, next = { self with nameSpacesCacheIndex := i } := by
  induction attrs generalizing self out with
  | nil =>
    cases run
    exact ⟨_, rfl⟩
  | cons attr attrs ih =>
    unfold translateAttrs at run
    simp only at run
    split at run
    · cases run
    rename_i ns mid found
    split at run
    · cases run
    rename_i later last rest
    cases run
    obtain ⟨j, rfl⟩ := ih rest
    split at found
    · cases found
      exact ⟨j, rfl⟩
    · obtain ⟨i, rfl⟩ := findNamespace_ok found
      exact ⟨j, rfl⟩

/-! ## Rounds -/

/-- The parser at another place of the document. -/
def XML.moved (self : XML) (p : List UInt8) (state : State) : XML :=
  { self with ptr := p, state := state }

/-- What a round that hands over an element does. -/
inductive Reads (self : XML) : Event → XML → Prop where
  | text {type : Kind} {data p : List UInt8} {state : State} :
      type = .chars ∨ type = .comment →
      Reads self ⟨plainElem type data, .text⟩ (self.moved p state)
  | instruction {elem : Elem} {attrs : List RawAttr} {p : List UInt8} {state : State} :
      elem.type = .instruction →
      Reads self ⟨elem, .instruction attrs⟩ ((self.withEntries attrs).moved p state)
  | startTag {name : QName} {attrs : List RawAttr} {ns : NameSpace} {out : List Attr}
      {empty : Bool} {rest : List UInt8} {found translated next : XML} :
      ({ self with foundRoot := true }.withEntries attrs).findNamespace name.nsPrefix
        = .ok (ns, found) →
      translateAttrs found attrs = .ok (out, translated) →
      translated.openElement ⟨.startTag, ⟨name.name, ns.uri, ns.id⟩, out⟩ rest
        = .ok (empty, next) →
      Reads self ⟨⟨.startTag, ⟨name.name, ns.uri, ns.id⟩, out⟩, .startTag ⟨name, attrs, empty⟩⟩ next
  | endTag {name : QName} {elem : Elem} {p : List UInt8} {state : State} {closed : XML} :
      self.closeElement name = .ok (elem, closed) →
      Reads self ⟨elem, .endTag name⟩ (closed.moved p state)

/-- A tag that is opened is either put on the stack of open tags, or, if it is empty, its end
is put on the stack of elements. -/
theorem openElement_ok {elem : Elem} {empty : Bool}
    (run : self.openElement elem rest = .ok (empty, next)) :
    ∃ p, p.length < rest.length ∧
      ((empty = true ∧ self.elemStack.length ≠ maxNested ∧
          next = { self with
            elemStack := { elem with type := .endTag } :: self.elemStack
            nesting := self.nesting + 1
            ptr := p
            state := .chars }) ∨
        (empty = false ∧ self.stack.length ≠ maxNested ∧
          next = { self with
            stack := elem.data :: self.stack
            nesting := self.nesting + 1
            ptr := p
            state := .chars })) := by
  unfold XML.openElement at run
  split at run
  · rename_i behind
    split at run
    · cases run
    rename_i room
    split at run
    · rename_i p closed
      cases run
      have spaces := length_skipSpaces_le behind
      rw [closed, length_cons] at spaces
      refine ⟨p, ?_, .inl ⟨rfl, room, rfl⟩⟩
      rw [length_cons]
      omega
    · cases run
  · rename_i p
    split at run
    · cases run
    rename_i room
    cases run
    exact ⟨p, Nat.lt_succ_self _, .inr ⟨rfl, room, rfl⟩⟩
  · cases run

/-- Leaving a scope only concerns the namespaces. -/
theorem leaveScope_eq (self : XML) :
    ∃ nameSpaces i, self.leaveScope =
      { self with nameSpaces := nameSpaces, nameSpacesCacheIndex := i } := by
  unfold XML.leaveScope
  simp only
  split
  · exact ⟨_, _, rfl⟩
  · exact ⟨_, _, rfl⟩

/-- An end tag closes the tag that was opened last. -/
theorem closeElement_ok {name : QName} {elem : Elem}
    (run : self.closeElement name = .ok (elem, next)) :
    ∃ ns found xn stack, self.findNamespace name.nsPrefix = .ok (ns, found) ∧
      self.stack = xn :: stack ∧ elem = ⟨.endTag, ⟨name.name, ns.uri, ns.id⟩, []⟩ ∧
      next = { found with stack := stack, nesting := self.nesting - 1 }.leaveScope := by
  unfold XML.closeElement at run
  split at run
  · cases run
  rename_i ns found lookup
  obtain ⟨i, rfl⟩ := findNamespace_ok lookup
  split at run
  · cases run
  rename_i xn stack here
  split at run
  · cases run
  · cases run
    exact ⟨ns, _, xn, stack, lookup, here, rfl, rfl⟩

theorem parseStartTag_ok (run : self.parseStartTag p = .ok (event, next)) :
    Reads self event next ∧ next.ptr.length < p.length := by
  unfold XML.parseStartTag at run
  split at run
  · simp only at run
    split at run
    · cases run
    split at run
    · cases run
    rename_i elem attrs rest mid read
    unfold XML.readStartTag at read
    split at read
    · cases read
    rename_i added attrs' rest' parsed
    split at read
    · cases read
    rename_i ns found lookup
    split at read
    · cases read
    rename_i out translated translation
    cases read
    split at run
    · cases run
    rename_i empty last opened
    cases run
    obtain ⟨new, rfl, rfl, shorter⟩ := parseAttrs_ok parsed
    refine ⟨Reads.startTag lookup translation opened, ?_⟩
    have named := length_readName_le p
    have spaces := length_skipSpaces_le (readName p).2
    obtain ⟨p', less, ⟨-, -, rfl⟩ | ⟨-, -, rfl⟩⟩ := openElement_ok opened
    · change p'.length < p.length
      omega
    · change p'.length < p.length
      omega
  · cases run

theorem parseEndTag_ok (run : self.parseEndTag p = .ok (event, next)) :
    Reads self event next ∧ next.ptr.length < p.length := by
  unfold XML.parseEndTag at run
  simp only at run
  split at run
  · split at run
    · cases run
    split at run
    · rename_i after gt
      split at run
      · cases run
      rename_i elem closed match'
      cases run
      refine ⟨Reads.endTag match', ?_⟩
      have named := length_readName_le (skipSpaces p.tail)
      have spaces := length_skipSpaces_le (readName (skipSpaces p.tail)).2
      have spaces' := length_skipSpaces_le p.tail
      have tail := length_tail (l := p)
      rw [gt, length_cons] at spaces
      change after.length < p.length
      omega
    · cases run
  · cases run

theorem parseProcessingInstruction_ok (run : self.parseProcessingInstruction p = .ok (event, next)) :
    Reads self event next ∧ next.ptr.length < p.length := by
  unfold XML.parseProcessingInstruction at run
  simp only at run
  split at run
  · cases run
  split at run
  · cases run
  rename_i added attrs rest parsed
  split at run
  · rename_i after gt
    cases run
    obtain ⟨new, rfl, rfl, shorter⟩ := parseAttrs_ok parsed
    refine ⟨Reads.instruction rfl, ?_⟩
    have named := length_readName_le p.tail
    have spaces := length_skipSpaces_le (readName p.tail).2
    have spaces' := length_skipSpaces_le rest.tail
    have tail := length_tail (l := p)
    have tail' := length_tail (l := rest)
    rw [gt, length_cons] at spaces'
    change after.length < p.length
    omega
  · cases run

theorem length_commentLoop_lt (run : commentLoop p = .ok (data, rest)) :
    rest.length < p.length := by
  induction p generalizing data with
  | nil => cases run
  | cons c p ih =>
    unfold commentLoop at run
    split at run
    · split at run
      · rename_i behind
        cases run
        have tail := length_tail (l := p)
        rw [behind, length_cons] at tail
        rw [length_cons]
        omega
      · cases run
    · obtain ⟨⟨data', rest'⟩, read, same⟩ := map_eq_ok run
      cases same
      exact Nat.lt_succ_of_lt (ih read)

theorem length_cdataLoop_lt (run : cdataLoop p = .ok (data, rest)) : rest.length < p.length := by
  induction p generalizing data with
  | nil => cases run
  | cons c p ih =>
    unfold cdataLoop at run
    split at run
    · cases run
      rw [length_drop, length_cons]
      omega
    · obtain ⟨⟨data', rest'⟩, read, same⟩ := map_eq_ok run
      cases same
      exact Nat.lt_succ_of_lt (ih read)

theorem parseComment_ok (run : self.parseComment p = .ok (event, next)) :
    Reads self event next ∧ next.ptr.length < p.length := by
  obtain ⟨⟨data, rest⟩, read, same⟩ := map_eq_ok run
  cases same
  refine ⟨Reads.text (.inr rfl), ?_⟩
  have shorter := length_commentLoop_lt read
  rw [length_drop] at shorter
  change rest.length < p.length
  omega

theorem parseCDATA_ok (run : self.parseCDATA p = .ok (event, next)) :
    Reads self event next ∧ next.ptr.length < p.length := by
  obtain ⟨⟨data, rest⟩, read, same⟩ := map_eq_ok run
  cases same
  refine ⟨Reads.text (.inl rfl), ?_⟩
  have shorter := length_cdataLoop_lt read
  rw [length_drop] at shorter
  change rest.length < p.length
  omega

theorem parseDOCTYPE_ok (run : self.parseDOCTYPE p = .ok next) :
    ∃ rest state, next = self.moved rest state ∧ rest.length < p.length := by
  unfold XML.parseDOCTYPE at run
  split at run
  · rename_i rest found
    cases run
    refine ⟨rest, _, rfl, ?_⟩
    have shorter : ((p.drop 7).dropWhile (· != 62)).length ≤ (p.drop 7).length :=
      length_dropWhile_le _ _
    rw [found, length_cons, length_drop] at shorter
    omega
  · cases run

/-- What a round can do: go on at a later place, hand over an element, or find the document
finished, which it does only outside of all elements. -/
inductive Turn.Fits (self : XML) : Turn → Prop where
  | again {p : List UInt8} {state : State} :
      p.length < self.ptr.length → Turn.Fits self (.again (self.moved p state))
  | event {event : Event} {next : XML} :
      Reads self event next → next.ptr.length < self.ptr.length →
      Turn.Fits self (.event event next)
  | done : self.stack = [] → Turn.Fits self (.done self)

theorem Turn.Fits.ofEvent {out : Event × XML}
    (reads : Reads self out.1 out.2 ∧ out.2.ptr.length < p.length)
    (shorter : p.length ≤ self.ptr.length) : Turn.Fits self (Turn.ofEvent out) :=
  .event reads.1 (Nat.lt_of_lt_of_le reads.2 shorter)

theorem parseCharData_fits {turn : Turn} (run : self.parseCharData = .ok turn) :
    turn.Fits self := by
  unfold XML.parseCharData at run
  split at run
  · rename_i finished
    cases run
    exact .done finished
  split at run
  · rename_i p here
    cases run
    refine .again ?_
    rw [here]
    exact Nat.lt_succ_self _
  split at run
  · cases run
  rename_i data rest reduced
  have shorter : rest.tail.length < self.ptr.length := by
    have le := length_reduced_le reduced
    have some : self.ptr ≠ [] := by
      intro empty
      have stops : dataDecoder.round none [] =
          .halt (some .charDataExpectedElementEndTag) := rfl
      rw [empty, reduceCharData, dropWhile_nil, InPlace.decode_halt stops] at reduced
      cases reduced
    have pos := length_pos_of_ne_nil some
    rw [length_tail]
    omega
  split at run
  · cases run
    exact .again shorter
  · cases run
    exact .event (Reads.text (.inl rfl)) shorter

theorem parseTag_fits {turn : Turn} (run : self.parseTag = .ok turn) : turn.Fits self := by
  have spaces := length_skipSpaces_le self.ptr
  unfold XML.parseTag at run
  split at run
  · cases run
  rename_i c p here
  rw [here] at spaces
  have behind : p.length ≤ self.ptr.length := Nat.le_of_succ_le spaces
  split at run
  · obtain ⟨out, read, rfl⟩ := map_eq_ok run
    exact .ofEvent (parseEndTag_ok read) spaces
  split at run
  · obtain ⟨out, read, rfl⟩ := map_eq_ok run
    exact .ofEvent (parseStartTag_ok read) spaces
  split at run
  · obtain ⟨out, read, rfl⟩ := map_eq_ok run
    exact .ofEvent (parseProcessingInstruction_ok read) spaces
  split at run
  · split at run
    · obtain ⟨out, read, rfl⟩ := map_eq_ok run
      exact .ofEvent (parseComment_ok read) behind
    split at run
    · obtain ⟨out, read, rfl⟩ := map_eq_ok run
      exact .ofEvent (parseCDATA_ok read) behind
    split at run
    · obtain ⟨out, read, rfl⟩ := map_eq_ok run
      obtain ⟨rest, state, rfl, shorter⟩ := parseDOCTYPE_ok read
      exact .again (Nat.lt_of_lt_of_le shorter behind)
    · cases run
  · cases run

theorem turn_fits {turn : Turn} (run : self.turn = .ok turn) : turn.Fits self := by
  unfold XML.turn at run
  split at run
  · split at run
    · rename_i p here
      cases run
      have spaces := length_skipSpaces_le self.ptr
      rw [here, length_cons] at spaces
      exact .again spaces
    · cases run
  · exact parseTag_fits run
  · exact parseCharData_fits run

end Omi.Xml
