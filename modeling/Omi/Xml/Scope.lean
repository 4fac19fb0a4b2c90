import Omi.Xml.Calls
import Omi.Data.Run

/-!
# Namespace scopes

A declaration is in force in the element whose start tag carries it, innermost
first. The parser keeps the declarations in an array, each with the number of tags
that were open, and a cache of the entry found last.

Two things break the scoping. A lookup believes the cache, so a prefix that is
declared again in an inner element keeps the meaning it had when it was last
looked up. And only an end tag removes entries, so the declarations of an empty
tag (and of a processing instruction) stay in force behind it. `Harmless` is the
condition on the next piece of the document under which neither shows.
-/

namespace Omi.Xml

/-! ## Lexical scoping -/

section Last

variable {α β : Type}

/-- The last element of a list that has a given name. -/
def lastNamed (name : α → List UInt8) (entries : List α) (wanted : List UInt8) : Option α :=
  (entries.filter fun entry => name entry == wanted).getLast?

theorem lastNamed_append (name : α → List UInt8) (entries more : List α) (wanted : List UInt8) :
    lastNamed name (entries ++ more) wanted =
      (lastNamed name more wanted).or (lastNamed name entries wanted) := by
  unfold lastNamed
  rw [List.filter_append, List.getLast?_append]

theorem lastNamed_map (name : α → List UInt8) (f : β → α) (entries : List β)
    (wanted : List UInt8) :
    lastNamed name (entries.map f) wanted = (lastNamed (name ∘ f) entries wanted).map f := by
  unfold lastNamed
  rw [List.filter_map, List.getLast?_map]
  rfl

theorem mem_of_lastNamed {name : α → List UInt8} {entries : List α} {wanted : List UInt8}
    {entry : α} (found : lastNamed name entries wanted = some entry) :
    entry ∈ entries ∧ name entry = wanted := by
  have inside := List.mem_filter.mp (List.mem_of_getLast? found)
  exact ⟨inside.1, eq_of_beq inside.2⟩

end Last

/-- A prefix and the URI that a declaration gives it. -/
structure Binding where
  nsPrefix : List UInt8
  uri : List UInt8
deriving DecidableEq, Repr

/-- The declarations among some attributes. -/
def bindings (attrs : List RawAttr) : List Binding :=
  attrs.filterMap fun attr => attr.declares.map fun declared => ⟨declared, attr.value⟩

/-- The binding of a prefix inside the given open elements, innermost first. -/
def lookup : List Tag → List UInt8 → Option Binding
  | [], _ => none
  | tag :: outer, nsPrefix =>
    (lastNamed Binding.nsPrefix (bindings tag.attrs) nsPrefix).or (lookup outer nsPrefix)

/-- The identifier that lexical scoping gives to a prefix: that of the URI it is bound to. The
empty prefix stands for no namespace where it is not bound. -/
def idOf (registered : List RegisteredNameSpace) (scope : List Tag) (nsPrefix : List UInt8) :
    Option UInt8 :=
  ((lookup scope nsPrefix).map fun b => findNamespaceID registered b.uri).or
    (if nsPrefix = [] then some 0 else none)

/-! ## Reading a document -/

/-- The parser and the elements that are open, innermost first. -/
structure Position where
  xml : XML
  scope : List Tag

/-- The open elements after an event. -/
def scopeAfter (scope : List Tag) (event : Event) : List Tag :=
  match event.origin, event.elem.type with
  | .startTag tag, _ => tag :: scope
  | _, .endTag => scope.tail
  | _, _ => scope

/-- The event that the next call hands over, if it does not fail. -/
def XML.event (xml : XML) : Option Event := xml.nextFrom.toOption >>= Prod.fst

theorem event_of_nextFrom {xml next : XML} {event : Option Event}
    (run : xml.nextFrom = .ok (event, next)) : xml.event = event := by
  unfold XML.event
  rw [run]
  rfl

theorem nextFrom_of_event {xml : XML} {event : Event} (found : xml.event = some event) :
    ∃ next, xml.nextFrom = .ok (some event, next) := by
  unfold XML.event at found
  cases run : xml.nextFrom with
  | error fault =>
    rw [run] at found
    cases found
  | ok out =>
    rw [run] at found
    obtain ⟨first, next⟩ := out
    change first = some event at found
    exact ⟨next, by rw [found]⟩

/-- A call of `XML_Next` that does not fail. -/
def advance (s : Position) (_ : Unit) : Option Position :=
  match s.xml.nextFrom with
  | .error _ => none
  | .ok (none, xml) => some ⟨xml, s.scope⟩
  | .ok (some event, xml) => some ⟨xml, scopeAfter s.scope event⟩

/-- A reported identifier is the one that the scope gives to the prefix, if it gives one. -/
def Gives (registered : List RegisteredNameSpace) (scope : List Tag) (nsPrefix : List UInt8)
    (id : UInt8) : Prop :=
  ∀ given ∈ idOf registered scope nsPrefix, id = given

/-- The identifiers of an event are those of lexical scoping: of the element name, where an
end that the parser made up for an empty tag has the name of that tag, and of each prefixed
attribute. -/
def Scoped (registered : List RegisteredNameSpace) (scope : List Tag) (event : Event) : Prop :=
  match event.origin with
  | .startTag tag =>
    Gives registered (tag :: scope) tag.name.nsPrefix event.elem.data.namespaceId ∧
      event.elem.attrs.length = tag.attrs.length ∧
      ∀ pair ∈ tag.attrs.zip event.elem.attrs, pair.1.name.nsPrefix ≠ [] →
        Gives registered (tag :: scope) pair.1.name.nsPrefix pair.2.name.namespaceId
  | .endTag name => Gives registered scope name.nsPrefix event.elem.data.namespaceId
  | .stacked =>
    ∀ tag ∈ scope.head?, Gives registered scope tag.name.nsPrefix event.elem.data.namespaceId
  | _ => True

/-- The next event of the document has the identifiers of lexical scoping. -/
def Reports (s : Position) (_ : Unit) : Prop :=
  ∀ event ∈ s.xml.event, Scoped s.xml.registeredNameSpaces s.scope event

/-! ## The condition -/

/-- The prefixes whose meaning is fixed. -/
def Reserved (nsPrefix : List UInt8) : Prop :=
  nsPrefix = ascii "xml" ∨ nsPrefix = ascii "xmlns"

/-- The cache does not hold the declared prefix with another identifier. -/
def Unmasked (xml : XML) (b : Binding) : Prop :=
  ∀ ns ∈ xml.cached b.nsPrefix, ns.id = findNamespaceID xml.registeredNameSpaces b.uri

/-- A declaration that stays behind says what the surrounding elements say. -/
def Lingers (xml : XML) (scope : List Tag) (b : Binding) : Prop :=
  Gives xml.registeredNameSpaces scope b.nsPrefix (findNamespaceID xml.registeredNameSpaces b.uri)

/-- The condition on what the document holds next: every prefix it declares is not cached with
another identifier, a reserved prefix is not declared with a registered URI, and what an empty
tag or a processing instruction declares agrees with the scope around it. -/
def HarmlessEvent (s : Position) (origin : Origin) : Prop :=
  match origin with
  | .startTag tag =>
    ∀ b ∈ bindings tag.attrs, Unmasked s.xml b ∧
      (Reserved b.nsPrefix → findNamespaceID s.xml.registeredNameSpaces b.uri = 0) ∧
      (tag.empty = true → Lingers s.xml s.scope b)
  | .instruction attrs =>
    ∀ b ∈ bindings attrs, Unmasked s.xml b ∧ Lingers s.xml s.scope b
  | _ => True

/-- The next call reads something harmless. -/
def Harmless (s : Position) (_ : Unit) : Prop :=
  ∀ event ∈ s.xml.event, HarmlessEvent s event.origin

/-! ## Checking given documents -/

instance (registered : List RegisteredNameSpace) (scope : List Tag) (nsPrefix : List UInt8)
    (id : UInt8) : Decidable (Gives registered scope nsPrefix id) :=
  inferInstanceAs (Decidable (∀ given ∈ idOf registered scope nsPrefix, id = given))

instance (registered : List RegisteredNameSpace) (scope : List Tag) :
    ∀ event, Decidable (Scoped registered scope event)
  | ⟨elem, .startTag tag⟩ =>
    inferInstanceAs (Decidable
      (Gives registered (tag :: scope) tag.name.nsPrefix elem.data.namespaceId ∧
        elem.attrs.length = tag.attrs.length ∧
        ∀ pair ∈ tag.attrs.zip elem.attrs, pair.1.name.nsPrefix ≠ [] →
          Gives registered (tag :: scope) pair.1.name.nsPrefix pair.2.name.namespaceId))
  | ⟨elem, .endTag name⟩ =>
    inferInstanceAs (Decidable (Gives registered scope name.nsPrefix elem.data.namespaceId))
  | ⟨elem, .stacked⟩ =>
    inferInstanceAs (Decidable (∀ tag ∈ scope.head?,
      Gives registered scope tag.name.nsPrefix elem.data.namespaceId))
  | ⟨_, .instruction _⟩ => isTrue trivial
  | ⟨_, .text⟩ => isTrue trivial

instance (s : Position) (u : Unit) : Decidable (Reports s u) :=
  inferInstanceAs (Decidable (∀ event ∈ s.xml.event, Scoped _ _ event))

instance (xml : XML) (b : Binding) : Decidable (Unmasked xml b) :=
  inferInstanceAs (Decidable (∀ ns ∈ xml.cached b.nsPrefix, ns.id = _))

instance (nsPrefix : List UInt8) : Decidable (Reserved nsPrefix) :=
  inferInstanceAs (Decidable (_ ∨ _))

instance (xml : XML) (scope : List Tag) (b : Binding) : Decidable (Lingers xml scope b) :=
  inferInstanceAs (Decidable (Gives _ _ _ _))

instance (s : Position) : ∀ origin, Decidable (HarmlessEvent s origin)
  | .startTag tag =>
    inferInstanceAs (Decidable (∀ b ∈ bindings tag.attrs, Unmasked s.xml b ∧
      (Reserved b.nsPrefix → findNamespaceID s.xml.registeredNameSpaces b.uri = 0) ∧
      (tag.empty = true → Lingers s.xml s.scope b)))
  | .instruction attrs =>
    inferInstanceAs (Decidable
      (∀ b ∈ bindings attrs, Unmasked s.xml b ∧ Lingers s.xml s.scope b))
  | .stacked => isTrue trivial
  | .endTag _ => isTrue trivial
  | .text => isTrue trivial

instance (s : Position) (u : Unit) : Decidable (Harmless s u) :=
  inferInstanceAs (Decidable (∀ event ∈ s.xml.event, HarmlessEvent s event.origin))

end Omi.Xml
