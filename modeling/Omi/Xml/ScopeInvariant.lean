import Omi.Xml.Scope

/-!
# The namespace array follows the scopes

The invariant relates the array to the elements that are open. All its entries
together agree with the whole scope, and for every outer part of the scope so do
the entries that will be left when the elements inside it have ended. The cache
holds an entry with the identifier that a search would find.
-/

namespace Omi.Xml

open List Option

/-! ## What a lookup finds -/

/-- The identifier that a search of the array gives to a prefix. -/
def entryId (entries : List NameSpace) (nsPrefix : List UInt8) : Option UInt8 :=
  ((lastNamed NameSpace.name entries nsPrefix).map NameSpace.id).or
    (if nsPrefix = [] then some 0 else none)

/-- The stored hash codes are those of the names. -/
def Hashed (entries : List NameSpace) : Prop := ∀ ns ∈ entries, ns.nameCode = hashCode ns.name

/-- The cache is valid: it points at an entry, and the entries of the same name that a search
would find before it have the same identifier. -/
def CacheFits (entries : List NameSpace) (cache : Option Nat) : Prop :=
  ∀ i ∈ cache, ∃ ns, entries[i]? = some ns ∧
    ∀ j later, i ≤ j → entries[j]? = some later → later.name = ns.name → later.id = ns.id

variable {entries : List NameSpace} {ns : NameSpace} {nsPrefix : List UInt8} {xml next : XML}
  {attrs : List RawAttr}

theorem named_iff (hashed : Hashed entries) (inside : ns ∈ entries) :
    ns.named nsPrefix = (ns.name == nsPrefix) := by
  unfold NameSpace.named
  rw [hashed ns inside]
  by_cases same : ns.name = nsPrefix
  · rw [same, beq_self_eq_true, beq_self_eq_true]
    rfl
  · rw [beq_eq_false_iff_ne.mpr same, Bool.and_false]

/-- The loop over the array finds the last entry with the name. -/
theorem searchDown_eq (hashed : Hashed entries) (nsPrefix : List UInt8) (n : Nat) :
    (searchDown entries nsPrefix n).map Prod.snd =
        lastNamed NameSpace.name (entries.take n) nsPrefix ∧
      ∀ i ns, searchDown entries nsPrefix n = some (i, ns) → entries[i]? = some ns ∧
        ∀ j later, i < j → j < n → entries[j]? = some later → later.name ≠ nsPrefix := by
  induction n with
  | zero => exact ⟨rfl, fun i ns found => by cases found⟩
  | succ n ih =>
    -- an index without the name is passed over
    have passed (other : ∀ ns ∈ entries[n]?, ns.name ≠ nsPrefix) (i : Nat) (ns : NameSpace)
        (hit : searchDown entries nsPrefix n = some (i, ns)) : entries[i]? = some ns ∧
        ∀ j later, i < j → j < n + 1 → entries[j]? = some later → later.name ≠ nsPrefix := by
      obtain ⟨placed, none⟩ := ih.2 i ns hit
      refine ⟨placed, ?_⟩
      intro j later above below at'
      by_cases top : j = n
      · subst top
        exact other later at'
      · exact none j later above (by omega) at'
    unfold searchDown
    rw [take_add_one, lastNamed_append]
    split
    · rename_i ns here
      have single : lastNamed NameSpace.name [ns] nsPrefix =
          if ns.name == nsPrefix then some ns else none := by
        unfold lastNamed
        rw [filter_singleton]
        cases ns.name == nsPrefix with
        | true | false => rfl
      rw [here, toList_some, single, named_iff hashed (mem_of_getElem? here)]
      split
      · refine ⟨rfl, ?_⟩
        rintro i found same
        cases same
        refine ⟨here, ?_⟩
        intro j later above below
        omega
      · rename_i other
        refine ⟨by rw [ih.1, none_or], passed ?_⟩
        rintro ns' is
        cases here.symm.trans is
        exact fun same => other (beq_iff_eq.mpr same)
    · rename_i gone
      rw [gone, toList_none]
      refine ⟨by rw [ih.1]; rfl, passed ?_⟩
      intro ns is
      cases gone.symm.trans is

theorem entryId_of_last (found : lastNamed NameSpace.name entries nsPrefix = some ns) :
    entryId entries nsPrefix = some ns.id := by
  unfold entryId
  rw [found]
  rfl

/-- A valid cache answers what a search would find. -/
theorem CacheFits.entryId_eq {cache : Option Nat} {i : Nat} (fits : CacheFits entries cache)
    (at' : cache = some i) (here : entries[i]? = some ns) :
    entryId entries ns.name = some ns.id := by
  obtain ⟨ns', there, same⟩ := fits i at'
  rw [here] at there
  cases there
  -- the entry itself is among those from its index on, so one of them is found
  have among : ns ∈ entries.drop i := mem_of_getElem? (i := 0) (by simpa using here)
  have found : (lastNamed NameSpace.name (entries.drop i) ns.name).isSome := by
    unfold lastNamed
    refine getLast?_isSome.mpr ?_
    exact ne_nil_of_mem (mem_filter.mpr ⟨among, beq_self_eq_true _⟩)
  obtain ⟨last, is⟩ := isSome_iff_exists.mp found
  have whole : lastNamed NameSpace.name entries ns.name = some last := by
    rw [← take_append_drop i entries, lastNamed_append, is]
    rfl
  obtain ⟨inside, named⟩ := mem_of_lastNamed is
  obtain ⟨k, at''⟩ := getElem?_of_mem inside
  rw [getElem?_drop] at at''
  rw [entryId_of_last whole, same (i + k) last (Nat.le_add_right _ _) at'' named]

/-- What `_FindNamespace` finds: the identifier of the last entry with the prefix. -/
theorem findNamespace_spec (hashed : Hashed xml.nameSpaces)
    (fits : CacheFits xml.nameSpaces xml.nameSpacesCacheIndex)
    (run : xml.findNamespace nsPrefix = .ok (ns, next)) :
    CacheFits next.nameSpaces next.nameSpacesCacheIndex ∧
      (Reserved nsPrefix → ns.id = 0) ∧
      (¬Reserved nsPrefix → entryId xml.nameSpaces nsPrefix = some ns.id) := by
  unfold XML.findNamespace at run
  split at run
  · rename_i reserved
    cases run
    exact ⟨fits, fun _ => rfl, fun not => absurd (.inl reserved) not⟩
  rename_i notXml
  split at run
  · rename_i reserved
    cases run
    exact ⟨fits, fun _ => rfl, fun not => absurd (.inr reserved) not⟩
  rename_i notXmlns
  have free : ¬Reserved nsPrefix := by
    rintro (is | is)
    · exact notXml is
    · exact notXmlns is
  split at run
  · rename_i entry hit
    cases run
    refine ⟨fits, fun is => absurd is free, fun _ => ?_⟩
    obtain ⟨pointed, matching⟩ := filter_eq_some_iff.mp hit
    obtain ⟨i, cache, here⟩ := bind_eq_some_iff.mp pointed
    rw [named_iff hashed (mem_of_getElem? here)] at matching
    rw [← eq_of_beq matching]
    exact fits.entryId_eq cache here
  obtain ⟨searched, placed⟩ :=
    searchDown_eq hashed nsPrefix xml.nameSpaces.length
  rw [take_length] at searched
  split at run
  · rename_i i entry hit
    cases run
    rw [hit] at searched
    have last := entryId_of_last searched.symm
    refine ⟨?_, fun is => absurd is free, fun _ => last⟩
    intro j at'
    cases at'
    obtain ⟨here, none⟩ := placed i ns hit
    refine ⟨ns, here, ?_⟩
    intro j later above at' same
    rw [(mem_of_lastNamed searched.symm).2] at same
    by_cases self : j = i
    · subst self
      rw [here] at at'
      cases at'
      rfl
    · have bound := (List.getElem?_eq_some_iff.mp at').1
      exact absurd same (none j later (by omega) bound at')
  rename_i miss
  rw [miss] at searched
  split at run
  · rename_i empty
    cases run
    refine ⟨fits, fun is => absurd is free, fun _ => ?_⟩
    unfold entryId
    rw [← searched, if_pos empty]
    rfl
  · cases run

theorem lookupPrefix_of_ne {attr : RawAttr} (prefixed : attr.name.nsPrefix ≠ []) :
    attr.lookupPrefix = attr.name.nsPrefix := by
  unfold RawAttr.lookupPrefix RawAttr.declares
  by_cases fixed : attr.name.nsPrefix = ascii "xmlns"
  · rw [if_pos fixed, fixed]
    rfl
  · have plain : ¬(attr.name.nsPrefix = [] ∧ attr.name.name = ascii "xmlns") :=
      fun both => prefixed both.1
    rw [if_neg fixed, if_neg plain]
    rfl

/-- What the loop over the attributes finds, one for one. -/
theorem translateAttrs_spec {out : List Attr} (hashed : Hashed xml.nameSpaces)
    (fits : CacheFits xml.nameSpaces xml.nameSpacesCacheIndex)
    (run : translateAttrs xml attrs = .ok (out, next)) :
    CacheFits next.nameSpaces next.nameSpacesCacheIndex ∧ out.length = attrs.length ∧
      ∀ pair ∈ attrs.zip out, pair.1.name.nsPrefix ≠ [] →
        (Reserved pair.1.name.nsPrefix → pair.2.name.namespaceId = 0) ∧
        (¬Reserved pair.1.name.nsPrefix →
          entryId xml.nameSpaces pair.1.name.nsPrefix = some pair.2.name.namespaceId) := by
  induction attrs generalizing xml out with
  | nil =>
    cases run
    exact ⟨fits, rfl, nofun⟩
  | cons attr attrs ih =>
    unfold translateAttrs at run
    simp only at run
    split at run
    · cases run
    rename_i ns mid found
    split at run
    · cases run
    · rename_i later last rest
      cases run
      -- the lookup for the first attribute, if it is prefixed, and a valid cache behind it
      have first : mid.nameSpaces = xml.nameSpaces ∧
          CacheFits mid.nameSpaces mid.nameSpacesCacheIndex ∧
          (attr.name.nsPrefix ≠ [] → (Reserved attr.name.nsPrefix → ns.id = 0) ∧
            (¬Reserved attr.name.nsPrefix →
              entryId xml.nameSpaces attr.name.nsPrefix = some ns.id)) := by
        split at found
        · rename_i plain
          cases found
          refine ⟨rfl, fits, fun prefixed => absurd ?_ prefixed⟩
          rw [← lookupPrefix_of_ne prefixed, plain]
        · obtain ⟨i, same⟩ := findNamespace_ok found
          obtain ⟨fits', spec⟩ := findNamespace_spec hashed fits found
          refine ⟨by rw [same], fits', fun prefixed => ?_⟩
          rw [lookupPrefix_of_ne prefixed] at spec
          exact spec
      obtain ⟨same, fits', spec⟩ := first
      obtain ⟨fits'', length, specs⟩ := ih (same ▸ hashed) fits' rest
      refine ⟨fits'', by rw [length_cons, length_cons, length], ?_⟩
      intro pair inside prefixed
      rcases mem_cons.mp inside with rfl | inside
      · exact spec prefixed
      · rw [← same]
        exact specs pair inside prefixed

/-! ## Agreement with a scope -/

/-- A search of the entries finds the identifier that lexical scoping gives. -/
def Agree (registered : List RegisteredNameSpace) (entries : List NameSpace)
    (scope : List Tag) : Prop :=
  ∀ nsPrefix id, idOf registered scope nsPrefix = some id → entryId entries nsPrefix = some id

variable {registered : List RegisteredNameSpace}

theorem agree_nil : Agree registered [] [] :=
  fun _ _ given => given

/-- The entries that some declarations add are made from their bindings. -/
theorem entries_eq :
    xml.entries attrs = (bindings attrs).map fun b => xml.entry b.nsPrefix b.uri := by
  unfold XML.entries bindings
  rw [map_filterMap]
  congr 1
  funext attr
  cases attr.declares with
  | none | some declared => rfl

theorem last_entries :
    lastNamed NameSpace.name (xml.entries attrs) nsPrefix =
      (lastNamed Binding.nsPrefix (bindings attrs) nsPrefix).map fun b =>
        xml.entry b.nsPrefix b.uri := by
  rw [entries_eq, lastNamed_map]
  rfl

/-- A search behind new declarations looks at them first. -/
theorem entryId_append :
    entryId (entries ++ xml.entries attrs) nsPrefix =
      ((lastNamed Binding.nsPrefix (bindings attrs) nsPrefix).map fun b =>
        findNamespaceID xml.registeredNameSpaces b.uri).or (entryId entries nsPrefix) := by
  unfold entryId
  rw [lastNamed_append, last_entries]
  cases lastNamed Binding.nsPrefix (bindings attrs) nsPrefix with
  | none | some b => rfl

theorem idOf_cons (tag : Tag) (scope : List Tag) :
    idOf registered (tag :: scope) nsPrefix =
      ((lastNamed Binding.nsPrefix (bindings tag.attrs) nsPrefix).map fun b =>
        findNamespaceID registered b.uri).or (idOf registered scope nsPrefix) := by
  unfold idOf
  rw [lookup]
  cases lastNamed Binding.nsPrefix (bindings tag.attrs) nsPrefix with
  | none | some b => rfl

variable {scope : List Tag}

/-- New declarations on both sides keep the agreement. -/
theorem Agree.declare (agree : Agree xml.registeredNameSpaces entries scope) (tag : Tag) :
    Agree xml.registeredNameSpaces (entries ++ xml.entries tag.attrs) (tag :: scope) := by
  intro nsPrefix id given
  rw [idOf_cons] at given
  rw [entryId_append]
  cases declared : lastNamed Binding.nsPrefix (bindings tag.attrs) nsPrefix with
  | none =>
    rw [declared] at given
    exact agree nsPrefix id given
  | some b =>
    rw [declared] at given
    exact given

/-- Declarations that say what the scope says do not disturb it. -/
theorem Agree.linger (agree : Agree xml.registeredNameSpaces entries scope)
    (lingers : ∀ b ∈ bindings attrs, Lingers xml scope b) :
    Agree xml.registeredNameSpaces (entries ++ xml.entries attrs) scope := by
  intro nsPrefix id given
  rw [entryId_append]
  cases declared : lastNamed Binding.nsPrefix (bindings attrs) nsPrefix with
  | none => exact agree nsPrefix id given
  | some b =>
    obtain ⟨inside, rfl⟩ := mem_of_lastNamed declared
    change some (findNamespaceID xml.registeredNameSpaces b.uri) = some id
    rw [lingers b inside id given]

/-- A valid cache stays valid if it does not mask what is declared. -/
theorem CacheFits.declare (hashed : Hashed xml.nameSpaces)
    (fits : CacheFits xml.nameSpaces xml.nameSpacesCacheIndex)
    (unmasked : ∀ b ∈ bindings attrs, Unmasked xml b) :
    CacheFits (xml.nameSpaces ++ xml.entries attrs) xml.nameSpacesCacheIndex := by
  intro i at'
  obtain ⟨ns, here, same⟩ := fits i at'
  have bound := (List.getElem?_eq_some_iff.mp here).1
  refine ⟨ns, by rw [getElem?_append_left bound, here], ?_⟩
  intro j later above at'' named
  by_cases old : j < xml.nameSpaces.length
  · rw [getElem?_append_left old] at at''
    exact same j later above at'' named
  · rw [getElem?_append_right (Nat.le_of_not_lt old), entries_eq] at at''
    obtain ⟨b, inside, rfl⟩ := mem_map.mp (mem_of_getElem? at'')
    change b.nsPrefix = ns.name at named
    have hit : xml.cached b.nsPrefix = some ns := by
      unfold XML.cached
      rw [show xml.nameSpacesCacheIndex = some i from at', named]
      change Option.filter _ xml.nameSpaces[i]? = some ns
      rw [here, filter_some, named_iff hashed (mem_of_getElem? here), beq_self_eq_true, if_pos rfl]
    exact (unmasked b inside ns hit).symm

theorem hashed_entries : Hashed (xml.entries attrs) := by
  intro ns inside
  rw [entries_eq] at inside
  obtain ⟨b, -, rfl⟩ := mem_map.mp inside
  rfl

theorem depth_entries (inside : ns ∈ xml.entries attrs) : ns.depth = xml.stack.length := by
  rw [entries_eq] at inside
  obtain ⟨b, -, rfl⟩ := mem_map.mp inside
  rfl

/-- A bound prefix has a declaration in one of the open elements. -/
theorem mem_of_lookup {b : Binding} (found : lookup scope nsPrefix = some b) :
    ∃ tag ∈ scope, b ∈ bindings tag.attrs ∧ b.nsPrefix = nsPrefix := by
  induction scope with
  | nil => cases found
  | cons tag outer ih =>
    unfold lookup at found
    rcases or_eq_some_iff.mp found with here | ⟨-, later⟩
    · exact ⟨tag, mem_cons_self, mem_of_lastNamed here⟩
    · obtain ⟨tag', inside, declared⟩ := ih later
      exact ⟨tag', mem_cons_of_mem _ inside, declared⟩

/-- The reserved prefixes are not declared with a registered URI. -/
def ReservedFree (registered : List RegisteredNameSpace) (scope : List Tag) : Prop :=
  ∀ tag ∈ scope, ∀ b ∈ bindings tag.attrs,
    Reserved b.nsPrefix → findNamespaceID registered b.uri = 0

/-- What a lookup finds is what the scope gives. -/
theorem gives_of_agree {id : UInt8} (agree : Agree registered entries scope)
    (free : ReservedFree registered scope) (reserved : Reserved nsPrefix → id = 0)
    (found : ¬Reserved nsPrefix → entryId entries nsPrefix = some id) :
    Gives registered scope nsPrefix id := by
  intro given is
  by_cases fixed : Reserved nsPrefix
  · have named : nsPrefix ≠ [] := by
      rcases fixed with rfl | rfl
      · decide
      · decide
    unfold idOf at is
    rw [if_neg named, or_none] at is
    obtain ⟨b, bound, rfl⟩ := map_eq_some_iff.mp is
    obtain ⟨tag, inside, declared, rfl⟩ := mem_of_lookup bound
    rw [reserved fixed, free tag inside b declared fixed]
  · have same := agree nsPrefix given is
    rw [found fixed] at same
    exact Option.some.inj same

/-! ## The invariant -/

/-- The end of an empty tag that is waiting has the identifier of the tag, and the entries also
agree with the scope around the tag. -/
def Waits (registered : List RegisteredNameSpace) (entries : List NameSpace) (scope : List Tag)
    (elem : Elem) : Prop :=
  elem.type = .endTag ∧ ∃ tag outer, scope = tag :: outer ∧
    Gives registered scope tag.name.nsPrefix elem.data.namespaceId ∧ Agree registered entries outer

/-- The array, the cache and the stacks of the parser follow the open elements. -/
structure Follows (s : Position) : Prop where
  hashed : Hashed s.xml.nameSpaces
  fits : CacheFits s.xml.nameSpaces s.xml.nameSpacesCacheIndex
  ordered : s.xml.nameSpaces.Pairwise fun a b => a.depth ≤ b.depth
  shallow : ∀ ns ∈ s.xml.nameSpaces, ns.depth ≤ s.xml.stack.length
  free : ReservedFree s.xml.registeredNameSpaces s.scope
  current : Agree s.xml.registeredNameSpaces s.xml.nameSpaces s.scope
  waiting : s.xml.elemStack = [] ∨
    ∃ elem, s.xml.elemStack = [elem] ∧
      Waits s.xml.registeredNameSpaces s.xml.nameSpaces s.scope elem
  outer : ∀ n, Agree s.xml.registeredNameSpaces
    (s.xml.nameSpaces.filter fun ns => ns.depth + n < s.xml.stack.length)
    ((s.scope.drop s.xml.elemStack.length).drop n)

/-- Entries in the order of their depth: removing as many from the end as are too deep leaves
the others. -/
theorem take_eq_filter (d : Nat) (ordered : entries.Pairwise fun a b => a.depth ≤ b.depth) :
    entries.take (entries.length - entries.countP fun ns => d ≤ ns.depth) =
      entries.filter fun ns => ns.depth < d := by
  induction entries with
  | nil => rfl
  | cons ns entries ih =>
    obtain ⟨first, rest⟩ := pairwise_cons.mp ordered
    by_cases deep : d ≤ ns.depth
    · -- all the entries behind it are too deep as well
      have all : ∀ other ∈ ns :: entries, d ≤ other.depth :=
        forall_mem_cons.mpr ⟨deep, fun other later => Nat.le_trans deep (first other later)⟩
      have count : (ns :: entries).countP (fun ns => d ≤ ns.depth) = (ns :: entries).length :=
        countP_eq_length.mpr fun other inside => decide_eq_true (all other inside)
      have none : (ns :: entries).filter (fun ns => ns.depth < d) = [] := by
        refine filter_eq_nil_iff.mpr ?_
        intro other inside
        have := all other inside
        simp only [decide_eq_true_eq]
        omega
      rw [count, none, Nat.sub_self, take_zero]
    · have shallow : ns.depth < d := by omega
      have le := countP_le_length (p := fun ns : NameSpace => decide (d ≤ ns.depth))
        (l := entries)
      rw [countP_cons_of_neg (by simpa using deep), length_cons,
        Nat.succ_sub le, take_succ_cons, ih rest,
        filter_cons_of_pos (by simpa using shallow)]

/-- Leaving a scope keeps exactly the entries that are less deep. -/
theorem leaveScope_nameSpaces (xml : XML)
    (ordered : xml.nameSpaces.Pairwise fun a b => a.depth ≤ b.depth) :
    xml.leaveScope.nameSpaces = xml.nameSpaces.filter fun ns => ns.depth < xml.stack.length := by
  rw [← take_eq_filter _ ordered]
  unfold XML.leaveScope
  simp only
  split
  · rename_i zero
    rw [zero, Nat.sub_zero, take_length]
  · rfl

/-- The cache is forgotten if its entry is removed. -/
theorem CacheFits.leaveScope (fits : CacheFits xml.nameSpaces xml.nameSpacesCacheIndex) :
    CacheFits xml.leaveScope.nameSpaces xml.leaveScope.nameSpacesCacheIndex := by
  unfold XML.leaveScope
  simp only
  split
  · exact fits
  intro i kept
  obtain ⟨was, small⟩ := filter_eq_some_iff.mp kept
  obtain ⟨ns, here, same⟩ := fits i was
  refine ⟨ns, by rw [getElem?_take_of_lt (of_decide_eq_true small), here], ?_⟩
  intro j later above at' named
  rw [getElem?_take] at at'
  split at at'
  · exact same j later above at' named
  · cases at'

/-! ## The rounds -/

section Rounds

section

variable (follows : Follows ⟨xml, scope⟩)
include follows

theorem Follows.hashed_append (attrs : List RawAttr) :
    Hashed (xml.nameSpaces ++ xml.entries attrs) :=
  forall_mem_append.mpr ⟨follows.hashed, hashed_entries⟩

theorem Follows.shallow_append (attrs : List RawAttr) :
    ∀ ns ∈ xml.nameSpaces ++ xml.entries attrs, ns.depth ≤ xml.stack.length :=
  forall_mem_append.mpr ⟨follows.shallow, fun _ new => Nat.le_of_eq (depth_entries new)⟩

theorem Follows.ordered_append (attrs : List RawAttr) :
    (xml.nameSpaces ++ xml.entries attrs).Pairwise fun a b => a.depth ≤ b.depth := by
  refine pairwise_append.mpr ⟨follows.ordered, ?_, ?_⟩
  · refine pairwise_of_forall_mem_list ?_
    intro a left b right
    rw [depth_entries left, depth_entries right]
  · intro a left b right
    rw [depth_entries right]
    exact follows.shallow a left

/-- The end of an empty tag closes the innermost open element. -/
theorem Follows.stacked {elem : Elem} {rest : List Elem} (here : xml.elemStack = elem :: rest) :
    Follows ⟨{ xml with elemStack := rest, nesting := xml.nesting - 1 },
        scopeAfter scope ⟨elem, .stacked⟩⟩ ∧
      Scoped xml.registeredNameSpaces scope ⟨elem, .stacked⟩ := by
  have outer := follows.outer
  rcases follows.waiting with idle | ⟨only, one, type, tag, around, inside, given, agree⟩
  · rw [show xml.elemStack = [] from idle] at here
    cases here
  · rw [show xml.elemStack = [only] from one] at here
    cases here
    change scope = tag :: around at inside
    subst inside
    have popped : scopeAfter (tag :: around) ⟨elem, .stacked⟩ = around := by
      unfold scopeAfter
      simp only [type, tail_cons]
    refine ⟨?_, ?_⟩
    · rw [popped]
      exact
        { follows with
          free := fun tag' later => follows.free tag' (mem_cons_of_mem _ later)
          current := agree
          waiting := .inl rfl
          outer := by
            intro n
            have outer := follows.outer n
            change Agree _ _ (((tag :: around).drop xml.elemStack.length).drop n) at outer
            rw [show xml.elemStack = [elem] from one] at outer
            exact outer }
    · rintro first ⟨⟩
      exact given

theorem Follows.moved (p : List UInt8) (state : State) : Follows ⟨xml.moved p state, scope⟩ :=
  { follows with }

section

variable (idle : xml.elemStack = [])
include idle

/-- Entries that are added now belong to no outer part of the scope. -/
theorem Follows.outer_append (attrs : List RawAttr) (n : Nat) :
    Agree xml.registeredNameSpaces
      ((xml.nameSpaces ++ xml.entries attrs).filter fun ns => ns.depth + n < xml.stack.length)
      (scope.drop n) := by
  have none : (xml.entries attrs).filter (fun ns => ns.depth + n < xml.stack.length) = [] := by
    refine filter_eq_nil_iff.mpr ?_
    intro ns inside
    have depth := depth_entries inside
    simp only [decide_eq_true_eq]
    omega
  have outer := follows.outer n
  change Agree _ (xml.nameSpaces.filter fun ns => ns.depth + n < xml.stack.length)
    ((scope.drop xml.elemStack.length).drop n) at outer
  rw [idle] at outer
  rw [filter_append, none, append_nil]
  exact outer

/-- The declarations of a processing instruction stay in the array. -/
theorem Follows.instruction
    (harmless : ∀ b ∈ bindings attrs, Unmasked xml b ∧ Lingers xml scope b) :
    Follows ⟨xml.withEntries attrs, scope⟩ where
  hashed := follows.hashed_append attrs
  fits := follows.fits.declare follows.hashed fun b inside => (harmless b inside).1
  ordered := follows.ordered_append attrs
  shallow := follows.shallow_append attrs
  free := follows.free
  current := follows.current.linger fun b inside => (harmless b inside).2
  waiting := .inl idle
  outer := by
    intro n
    change Agree _ _ ((scope.drop xml.elemStack.length).drop n)
    rw [idle]
    exact follows.outer_append idle attrs n

/-- A start tag opens an element; if it is empty, its end is waiting. -/
theorem Follows.opened {name : QName} {out : List Attr}
    {empty : Bool} {rest : List UInt8} {found translated : XML}
    (harmless : ∀ b ∈ bindings attrs, Unmasked xml b ∧
      (Reserved b.nsPrefix → findNamespaceID xml.registeredNameSpaces b.uri = 0) ∧
      (empty = true → Lingers xml scope b))
    (lookup : ({ xml with foundRoot := true }.withEntries attrs).findNamespace name.nsPrefix
      = .ok (ns, found))
    (translation : translateAttrs found attrs = .ok (out, translated))
    (opening : translated.openElement ⟨.startTag, ⟨name.name, ns.uri, ns.id⟩, out⟩ rest
      = .ok (empty, next)) :
    Follows ⟨next, ⟨name, attrs, empty⟩ :: scope⟩ ∧
      Scoped xml.registeredNameSpaces scope
        ⟨⟨.startTag, ⟨name.name, ns.uri, ns.id⟩, out⟩, .startTag ⟨name, attrs, empty⟩⟩ := by
  -- the lookups see the old entries and the new ones
  have hashed := follows.hashed_append attrs
  have declared := follows.fits.declare follows.hashed fun b inside => (harmless b inside).1
  obtain ⟨fits, reserved, searched⟩ :=
    @findNamespace_spec _ _ ({ xml with foundRoot := true }.withEntries attrs) _
      hashed declared lookup
  obtain ⟨i, rfl⟩ := findNamespace_ok lookup
  obtain ⟨fits', length, attributes⟩ :=
    @translateAttrs_spec { { xml with foundRoot := true }.withEntries attrs with
      nameSpacesCacheIndex := i } _ _ _ hashed fits translation
  obtain ⟨j, rfl⟩ := translateAttrs_ok translation
  -- and agree with the scope inside the tag
  have current : Agree xml.registeredNameSpaces (xml.nameSpaces ++ xml.entries attrs)
      (⟨name, attrs, empty⟩ :: scope) := follows.current.declare ⟨name, attrs, empty⟩
  have free : ReservedFree xml.registeredNameSpaces (⟨name, attrs, empty⟩ :: scope) :=
    forall_mem_cons.mpr ⟨fun b bound => (harmless b bound).2.1, follows.free⟩
  have given := gives_of_agree current free reserved searched
  refine ⟨?_, given, length, ?_⟩
  · obtain ⟨p, -, ⟨rfl, -, rfl⟩ | ⟨rfl, -, rfl⟩⟩ := openElement_ok opening
    · exact
        { hashed := hashed
          fits := fits'
          ordered := follows.ordered_append attrs
          shallow := follows.shallow_append attrs
          free := free
          current := current
          waiting := by
            refine .inr ⟨_, congrArg (cons _) idle, rfl, _, scope, rfl, given, ?_⟩
            exact follows.current.linger fun b inside => (harmless b inside).2.2 rfl
          outer := by
            intro n
            change Agree _ _ (((_ :: scope).drop (xml.elemStack.length + 1)).drop n)
            rw [idle]
            exact follows.outer_append idle attrs n }
    · exact
        { hashed := hashed
          fits := fits'
          ordered := follows.ordered_append attrs
          shallow := fun ns inside => Nat.le_succ_of_le (follows.shallow_append attrs ns inside)
          free := free
          current := current
          waiting := .inl idle
          outer := by
            intro n
            change Agree xml.registeredNameSpaces
              ((xml.nameSpaces ++ xml.entries attrs).filter fun ns =>
                ns.depth + n < xml.stack.length + 1)
              (((_ :: scope).drop xml.elemStack.length).drop n)
            rw [idle]
            cases n with
            | zero =>
              -- everything in the array belongs to the new element or to one around it
              have all : (xml.nameSpaces ++ xml.entries attrs).filter
                  (fun ns => ns.depth + 0 < xml.stack.length + 1) =
                  xml.nameSpaces ++ xml.entries attrs := by
                refine filter_eq_self.mpr ?_
                intro ns inside
                have shallow := follows.shallow_append attrs ns inside
                exact decide_eq_true (Nat.lt_succ_of_le shallow)
              rw [all]
              exact current
            | succ n =>
              have one : (fun ns : NameSpace =>
                  decide (ns.depth + (n + 1) < xml.stack.length + 1)) =
                  fun ns => decide (ns.depth + n < xml.stack.length) := by
                funext ns
                rw [← Nat.add_assoc]
                simp only [Nat.add_lt_add_iff_right]
              rw [one]
              exact follows.outer_append idle attrs n }
  · intro pair inside prefixed
    obtain ⟨fixed, seen⟩ := attributes pair inside prefixed
    exact gives_of_agree current free fixed seen

/-- An end tag closes the innermost open element and removes its declarations. -/
theorem Follows.closed {name : QName} {elem : Elem}
    (run : xml.closeElement name = .ok (elem, next)) :
    Follows ⟨next, scopeAfter scope ⟨elem, .endTag name⟩⟩ ∧
      Scoped xml.registeredNameSpaces scope ⟨elem, .endTag name⟩ := by
  obtain ⟨ns, found, xn, stack, lookup, here, rfl, rfl⟩ := closeElement_ok run
  obtain ⟨fits, reserved, searched⟩ := findNamespace_spec follows.hashed follows.fits lookup
  have given := gives_of_agree follows.current follows.free reserved searched
  obtain ⟨i, rfl⟩ := findNamespace_ok lookup
  have height : xml.stack.length = stack.length + 1 := by rw [here, List.length_cons]
  -- what is left of the array, and where the cache points
  have left := leaveScope_nameSpaces
    { xml with nameSpacesCacheIndex := i, stack := stack, nesting := xml.nesting - 1 }
    follows.ordered
  have cached := @CacheFits.leaveScope
    { xml with nameSpacesCacheIndex := i, stack := stack, nesting := xml.nesting - 1 } fits
  obtain ⟨entries, cache, same⟩ := leaveScope_eq
    { xml with nameSpacesCacheIndex := i, stack := stack, nesting := xml.nesting - 1 }
  rw [same] at left cached
  change entries = xml.nameSpaces.filter fun ns => ns.depth < stack.length at left
  have sub : ∀ ns ∈ entries, ns ∈ xml.nameSpaces ∧ ns.depth < stack.length := by
    intro ns inside
    rw [left] at inside
    obtain ⟨old, shallow⟩ := List.mem_filter.mp inside
    exact ⟨old, of_decide_eq_true shallow⟩
  refine ⟨?_, given⟩
  rw [same]
  refine
    { hashed := fun ns inside => follows.hashed ns (sub ns inside).1
      fits := cached
      ordered := ?_
      shallow := fun ns inside => Nat.le_of_lt (sub ns inside).2
      free := fun tag later => follows.free tag (List.mem_of_mem_tail later)
      current := ?_
      waiting := .inl idle
      outer := ?_ }
  · change entries.Pairwise _
    rw [left]
    exact follows.ordered.filter _
  · have outer := follows.outer 1
    have shallower : (fun ns : NameSpace => decide (ns.depth + 1 < xml.stack.length)) =
        fun ns => decide (ns.depth < stack.length) := by
      funext ns
      rw [height]
      simp only [Nat.add_lt_add_iff_right]
    change Agree xml.registeredNameSpaces entries scope.tail
    change Agree _ (List.filter _ xml.nameSpaces) ((scope.drop xml.elemStack.length).drop 1) at outer
    rw [shallower, idle, List.length_nil, List.drop_zero, List.drop_one, ← left] at outer
    exact outer
  · intro n
    have outer := follows.outer (n + 1)
    have twice : entries.filter (fun ns => ns.depth + n < stack.length) =
        xml.nameSpaces.filter fun ns => ns.depth + (n + 1) < xml.stack.length := by
      rw [left, List.filter_filter]
      refine List.filter_congr ?_
      intro ns _
      rw [height, ← Bool.decide_and, decide_eq_decide]
      omega
    change Agree xml.registeredNameSpaces (entries.filter fun ns => ns.depth + n < stack.length)
      ((scope.tail.drop xml.elemStack.length).drop n)
    change Agree _ _ ((scope.drop xml.elemStack.length).drop (n + 1)) at outer
    rw [idle, List.length_nil, List.drop_zero] at outer ⊢
    rw [twice, List.drop_tail]
    exact outer

/-- A harmless event keeps the invariant, and its identifiers are those of the scope. -/
theorem Follows.reads {event : Event} (harmless : HarmlessEvent ⟨xml, scope⟩ event.origin)
    (reads : Reads xml event next) :
    Follows ⟨next, scopeAfter scope event⟩ ∧ Scoped xml.registeredNameSpaces scope event := by
  cases reads with
  | text kind =>
    refine ⟨?_, trivial⟩
    rcases kind with rfl | rfl
    · exact follows.moved _ _
    · exact follows.moved _ _
  | instruction kind =>
    refine ⟨?_, trivial⟩
    have same : ∀ elem : Elem, ∀ attrs, elem.type = .instruction →
        scopeAfter scope ⟨elem, .instruction attrs⟩ = scope := by
      intro elem attrs type
      unfold scopeAfter
      simp only [type]
    rw [same _ _ kind]
    exact (follows.instruction idle harmless).moved _ _
  | startTag lookup translation opening =>
    exact follows.opened idle harmless lookup translation opening
  | endTag closing =>
    obtain ⟨follows', given⟩ := follows.closed idle closing
    exact ⟨follows'.moved _ _, given⟩

end

end

end Rounds

/-! ## Whole documents -/

theorem follows_of_nextFrom {s : Position} (follows : Follows s) (harmless : Harmless s ())
    {event : Option Event} (run : s.xml.nextFrom = .ok (event, next)) :
    (∀ e ∈ event, Follows ⟨next, scopeAfter s.scope e⟩ ∧
        Scoped s.xml.registeredNameSpaces s.scope e) ∧
      (event = none → Follows ⟨next, s.scope⟩) := by
  have read := event_of_nextFrom run
  obtain ⟨elem, rest, stacked, rfl, rfl⟩ | ⟨idle, ends⟩ := nextFrom_cases run
  · refine ⟨?_, fun none => by cases none⟩
    rintro e ⟨⟩
    exact follows.stacked stacked
  · cases ends with
    | @event p state _ _ reads =>
      refine ⟨?_, fun none => by cases none⟩
      rintro e ⟨⟩
      exact (follows.moved p state).reads idle (harmless _ read) reads
    | done =>
      refine ⟨?_, fun _ => follows.moved _ _⟩
      intro e none
      cases none

theorem advance_follows {s next : Position} (follows : Follows s) (harmless : Harmless s ())
    (run : advance s () = some next) : Follows next := by
  unfold advance at run
  split at run
  · cases run
  · rename_i xml here
    cases run
    exact (follows_of_nextFrom follows harmless here).2 rfl
  · rename_i event xml here
    cases run
    exact ((follows_of_nextFrom follows harmless here).1 event rfl).1

theorem reports_of_harmless {s : Position} (follows : Follows s) (harmless : Harmless s ()) :
    Reports s () := by
  intro event found
  obtain ⟨next, run⟩ := nextFrom_of_event found
  exact ((follows_of_nextFrom follows harmless run).1 event rfl).2

theorem reading_follows (text : ZString) :
    Follows ⟨reading registered text, []⟩ where
  hashed := nofun
  fits := fun i none => by cases none
  ordered := List.Pairwise.nil
  shallow := nofun
  free := nofun
  current := agree_nil
  waiting := .inl rfl
  outer := by
    intro n
    change Agree registered [] (drop n [])
    rw [drop_nil]
    exact agree_nil

/-- Over every document: as long as what `XML_Next` reads is harmless, it reports for every
element name and every prefixed attribute the identifier that lexical scoping gives. -/
theorem ids_follow_scopes (registered : List RegisteredNameSpace) (text : ZString)
    (calls : List Unit)
    (harmless : Run.Along advance Harmless ⟨reading registered text, []⟩ calls) :
    Run.Along advance Reports ⟨reading registered text, []⟩ calls := by
  refine Run.along_of_invariant (fun s _ (follows : Follows s) fine => ?_) ?_
    (reading_follows text) harmless
  · exact reports_of_harmless follows fine
  · intro s _ next follows fine run
    exact advance_follows follows fine run

/-- Two registered namespaces. -/
def twoNamespaces : List RegisteredNameSpace :=
  [⟨ZString.ofString "u1", 97⟩, ⟨ZString.ofString "u2", 98⟩]

/-- A prefix that is used in an inner element which declares another one. -/
theorem ids_follow_scopes_nested :
    Run.Along advance Reports
      ⟨reading twoNamespaces
        (ZString.ofString "<p:a xmlns:p=\"u1\"><q:b xmlns:q='u2' p:x='1'/><p:c/></p:a>"), []⟩
      (List.replicate 7 ()) :=
  ids_follow_scopes _ _ _ (by decide +kernel)

/-- A prefix that is declared again keeps its old identifier while it is cached, and what an
empty tag declares is still in force behind it. -/
theorem ids_miss_scopes :
    ¬Run.Along advance Reports
        ⟨reading twoNamespaces
          (ZString.ofString "<p:a xmlns:p='u1'><p:b xmlns:p='u2'></p:b></p:a>"), []⟩ [(), ()] ∧
      ¬Run.Along advance Reports
        ⟨reading twoNamespaces
          (ZString.ofString "<a xmlns:p='u1'><b xmlns:p='u2'/><p:c></p:c></a>"), []⟩
        [(), (), (), ()] := by
  decide +kernel

end Omi.Xml
