import Omi.Data.PowerOfTwo
import Omi.Data.ZString

/-!
# Dynamic instances

An instance has a class name, a namespace, a server name and a list of elements. Each
element carries the flags of its declaration and a value, which may be NULL and may
hold further instances. The functions below are those of `MI_Instance` through which
an instance comes into being: it is created empty or as a clone, and its elements are
added, set and cleared.

Memory is modelled only where it decides what a call does. `Room` is what is allocated
for the elements: `_FindCapacity` takes it to be a power of two, which a clone of more
than 32 elements need not have. An element that is stored behind the room, or at an
offset above 32 bits, has no defined result. Sizes are those of a 64-bit build.
-/

namespace Omi.Base

open List Option

/-! ## Types and values -/

/-- The element types whose values are plain bytes. -/
inductive PlainType where
  | boolean | uint8 | sint8 | uint16 | sint16 | uint32 | sint32 | uint64 | sint64
  | real32 | real64 | char16 | datetime
deriving DecidableEq, Repr

/-- The size of a value; an `MI_Datetime` is nine 32-bit words. -/
def PlainType.width : PlainType → Nat
  | .boolean | .uint8 | .sint8 => 1
  | .uint16 | .sint16 | .char16 => 2
  | .uint32 | .sint32 | .real32 => 4
  | .uint64 | .sint64 | .real64 => 8
  | .datetime => 36

/-- The element types that are not arrays. -/
inductive ScalarType where
  | plain (t : PlainType)
  | string
  | reference
  | embedded
deriving DecidableEq, Repr

/-- `MI_Type`. -/
inductive MiType where
  | scalar (t : ScalarType)
  | array (t : ScalarType)
deriving DecidableEq, Repr

/-- A reference or an embedded instance. -/
def ScalarType.object (isReference : Bool) : ScalarType :=
  if isReference then .reference else .embedded

mutual

/-- The value of an element, which determines the element's type. A plain value is the number
that its bytes spell. -/
inductive Value where
  | null (type : MiType)
  | plain (t : PlainType) (x : Fin (256 ^ t.width))
  | string (s : ZString)
  | object (isReference : Bool) (i : Instance)
  | plains (t : PlainType) (xs : List (Fin (256 ^ t.width)))
  | strings (xs : List (Option ZString))
  | objects (isReference : Bool) (xs : List (Option Instance))

/-- An element with the flags it was declared with. -/
structure Element where
  name : ZString
  flags : UInt32
  value : Value

/-- An instance with the flags of its class declaration. -/
structure Instance where
  className : ZString
  flags : UInt32
  nameSpace : Option ZString
  serverName : Option ZString
  elements : List Element

end

/-- The type of an element that has the value. -/
def Value.type : Value → MiType
  | .null type => type
  | .plain t _ => .scalar (.plain t)
  | .string _ => .scalar .string
  | .object isReference _ => .scalar (.object isReference)
  | .plains t _ => .array (.plain t)
  | .strings _ => .array .string
  | .objects isReference _ => .array (.object isReference)

/-- The value is NULL. -/
def Value.isNull : Value → Bool
  | .null _ => true
  | _ => false

/-- The instances that a value holds directly. -/
def Value.instances : Value → List Instance
  | .object _ i => [i]
  | .objects _ xs => xs.filterMap id
  | _ => []

/-! ## Flags and names -/

/-- One of the flags is set. -/
def hasFlag (flags mask : UInt32) : Bool := flags &&& mask != 0

/-- `MI_FLAG_CLASS`. -/
def flagClass : UInt32 := 1

/-- `MI_FLAG_METHOD`. -/
def flagMethod : UInt32 := 2

/-- `MI_FLAG_PARAMETER`. -/
def flagParameter : UInt32 := 8

/-- `MI_FLAG_ASSOCIATION`. -/
def flagAssociation : UInt32 := 16

/-- `MI_FLAG_INDICATION`. -/
def flagIndication : UInt32 := 32

/-- `MI_FLAG_KEY`. -/
def flagKey : UInt32 := 0x1000

/-- `MI_FLAG_OUT`. -/
def flagOut : UInt32 := 0x4000

/-- `MI_FLAG_NULL`. -/
def flagNull : UInt32 := 0x20000000

/-- `MI_FLAG_BORROW`. -/
def flagBorrow : UInt32 := 0x40000000

/-- The table of first characters of `LegalName`. -/
def firstChar (c : UInt8) : Bool :=
  (65 ≤ c && c ≤ 90) || c == 95 || (97 ≤ c && c ≤ 122)

/-- The table of inner characters of `LegalName`. -/
def innerChar (c : UInt8) : Bool := firstChar c || (48 ≤ c && c ≤ 57)

/-- `LegalName`. -/
def legalName (name : ZString) : Bool :=
  match name.chars with
  | [] => false
  | c :: rest => firstChar c && rest.all innerChar

/-- `Hash`: the folded first and last characters and the length, in 32 bits. -/
def hash (name : ZString) : Nat :=
  let n := name.length % 2 ^ 32
  if n = 0 then 0
  else
    (toLower (name.chars.getD 0 0)).toNat <<< 16 |||
      (toLower (name.chars.getD (n - 1) 0)).toNat <<< 8 ||| n

/-- The comparison of `_FindPropertyDecl`. -/
def sameName (declared name : ZString) : Bool :=
  hash declared == hash name && tcscasecmp declared.chars name.chars == 0

/-- The code depends on the folded name only. -/
theorem hash_eq_of_tcscasecmp {a b : ZString} (same : tcscasecmp a.chars b.chars = 0) :
    hash a = hash b := by
  have folded := map_toLower_of_tcscasecmp a.nul_free b.nul_free same
  have length : a.length = b.length := by
    have := congrArg List.length folded
    rwa [length_map, length_map] at this
  have byte (i : Nat) : toLower (a.chars.getD i 0) = toLower (b.chars.getD i 0) := by
    rw [← List.getD_map _ _ toLower, folded, List.getD_map]
  unfold hash
  simp only [length, byte]

theorem sameName_eq (declared name : ZString) :
    sameName declared name = (tcscasecmp declared.chars name.chars == 0) := by
  unfold sameName
  by_cases same : tcscasecmp declared.chars name.chars = 0
  · rw [hash_eq_of_tcscasecmp same, BEq.rfl, Bool.true_and]
  · rw [beq_eq_false_iff_ne.mpr same, Bool.and_false]

/-- `_FindPropertyDecl`. -/
def findPropertyDecl (elements : List Element) (name : ZString) : Option Nat :=
  elements.findIdx? fun e => sameName e.name name

/-- `_FindCapacity`. -/
def findCapacity (x : Nat) : Nat := if x ≤ 32 then 32 else PowerOfTwo.smear (x - 1) + 1

/-! ## Cloning -/

mutual

/-- `Field_Construct` for a value that is copied. A NULL entry of an array is refused. -/
def Value.clone : Value → Option Value
  | .null type => some (.null type)
  | .plain t x => some (.plain t x)
  | .string s => some (.string s)
  | .object isReference i => i.clone.map (.object isReference)
  | .plains t xs => some (.plains t xs)
  | .strings xs => if none ∈ xs then none else some (.strings xs)
  | .objects isReference xs => (cloneItems xs).map (.objects isReference)

/-- `_CloneInstanceArray`. -/
def cloneItems : List (Option Instance) → Option (List (Option Instance))
  | [] => some []
  | none :: _ => none
  | some i :: rest => do
      let copy ← i.clone
      let copies ← cloneItems rest
      return some copy :: copies

/-- The loop over the fields in `Instance_Clone`, with the declarations cloned. -/
def cloneElements : List Element → Option (List Element)
  | [] => some []
  | ⟨name, flags, value⟩ :: rest => do
      let copy ← value.clone
      let copies ← cloneElements rest
      return ⟨name, flags, copy⟩ :: copies

/-- `Instance_Clone` of a dynamic instance. `_CloneClassDecl` leaves the class flags out. -/
def Instance.clone : Instance → Option Instance
  | ⟨className, _, nameSpace, serverName, elements⟩ => do
      let copies ← cloneElements elements
      return ⟨className, 0, nameSpace, serverName, copies⟩

end

/-! ## The interface -/

/-- What is allocated for elements: slots in the array of declarations, and fields behind the
instance. -/
structure Room where
  pointers : Nat
  fields : Nat
deriving DecidableEq

/-- There is room for the element at an index. -/
def Room.Holds (room : Room) (index : Nat) : Prop := index < room.pointers ∧ index < room.fields

instance (room : Room) (index : Nat) : Decidable (room.Holds index) :=
  inferInstanceAs (Decidable (_ ∧ _))

/-- The offset of a field: `MI_Instance` takes 64 bytes and a field takes 40. -/
def fieldOffset (index : Nat) : Nat := 64 + 40 * index

/-- A dynamic instance and the room for its elements. -/
structure Handle where
  inst : Instance
  room : Room

/-- The room of a new instance. The array of declarations is allocated for 32 declarations of 72
bytes, though it holds pointers. -/
def newRoom : Room := ⟨32 * 72 / 8, 32⟩

/-- The class flags that `Instance_NewDynamic` keeps. -/
def dynamicFlags (metaType : UInt32) : UInt32 :=
  if hasFlag metaType flagAssociation then flagAssociation
  else if hasFlag metaType flagIndication then flagIndication
  else if hasFlag metaType flagMethod then flagMethod
  else flagClass

/-- `Instance_NewDynamic`. -/
def newDynamic (className : ZString) (metaType : UInt32) : Option Handle :=
  if legalName className then some ⟨⟨className, dynamicFlags metaType, none, none, []⟩, newRoom⟩
  else none

/-- `Field_Construct`. Without `allocated` some allocation fails, or an array of no entries has a
data pointer, which the cloning of string and instance arrays takes for a failure. -/
def fieldConstruct (allocated : Bool) (value : Value) (flags : UInt32) : Option Value :=
  if hasFlag flags flagNull then some (.null value.type)
  else if hasFlag flags flagBorrow then some value
  else if allocated then value.clone
  else none

namespace Handle

/-- `__MI_Instance_SetNameSpace`. -/
def setNameSpace (h : Handle) (nameSpace : Option ZString) : Handle :=
  { h with inst := { h.inst with nameSpace } }

/-- `__MI_Instance_SetServerName`. -/
def setServerName (h : Handle) (serverName : Option ZString) : Handle :=
  { h with inst := { h.inst with serverName } }

/-- The room after `__MI_Instance_AddElement` has extended the arrays as needed. -/
def extended (h : Handle) : Room :=
  if h.inst.elements.length = findCapacity h.inst.elements.length then
    ⟨2 * h.inst.elements.length, 2 * h.inst.elements.length⟩
  else h.room

/-- `__MI_Instance_AddElement`: whether the call succeeds, and the instance after it. An element
whose field cannot be constructed stays, with a NULL value. -/
def addElement (allocated : Bool) (h : Handle) (name : ZString) (value : Value) (flags : UInt32) :
    Option (Bool × Handle) :=
  if !legalName name then some (false, h)
  else if (findPropertyDecl h.inst.elements name).isSome then some (false, h)
  else if h.extended.Holds h.inst.elements.length ∧
      fieldOffset (h.inst.elements.length + 1) < 2 ^ 32 then
    let field := fieldConstruct allocated value flags
    some (field.isSome,
      ⟨{ h.inst with
          elements := h.inst.elements ++ [⟨name, flags, field.getD (.null value.type)⟩] },
        h.extended⟩)
  else none

/-- `__MI_Instance_SetElement`, by `__MI_Instance_SetElementAt`. -/
def setElement (allocated : Bool) (h : Handle) (name : ZString) (value : Value) (flags : UInt32) :
    Bool × Handle :=
  match findPropertyDecl h.inst.elements name with
  | none => (false, h)
  | some index =>
    match h.inst.elements[index]? with
    | none => (false, h)
    | some e =>
      if value.type ≠ e.value.type then (false, h)
      else
        match fieldConstruct allocated value flags with
        | none => (false, h)
        | some field =>
          (true, { h with inst := { h.inst with
            elements := h.inst.elements.set index { e with value := field } } })

/-- `__MI_Instance_ClearElement`. -/
def clearElement (h : Handle) (name : ZString) : Bool × Handle :=
  match findPropertyDecl h.inst.elements name with
  | none => (false, h)
  | some index =>
    match h.inst.elements[index]? with
    | none => (false, h)
    | some e =>
      (true, { h with inst := { h.inst with
        elements := h.inst.elements.set index { e with value := .null e.value.type } } })

/-- `MI_Instance_Clone`. There is no room to spare above 32 elements. -/
def clone (h : Handle) : Option Handle :=
  h.inst.clone.map fun i => ⟨i, ⟨max 32 i.elements.length, max 32 i.elements.length⟩⟩

end Handle

/-- The instances that come from the interface, after any history of calls, successful or not. A
value that is stored holds instances that come from it too. -/
inductive Reachable : Handle → Prop where
  | created {className : ZString} {metaType : UInt32} {h : Handle}
      (new : newDynamic className metaType = some h) : Reachable h
  | nameSpaceSet {h : Handle} (before : Reachable h) (nameSpace : Option ZString) :
      Reachable (h.setNameSpace nameSpace)
  | serverNameSet {h : Handle} (before : Reachable h) (serverName : Option ZString) :
      Reachable (h.setServerName serverName)
  | elementAdded {h h' : Handle} {allocated result : Bool} {name : ZString} {value : Value}
      {flags : UInt32} (before : Reachable h) (room : Instance → Room)
      (nested : ∀ i ∈ value.instances, Reachable ⟨i, room i⟩)
      (added : h.addElement allocated name value flags = some (result, h')) : Reachable h'
  | elementSet {h : Handle} {value : Value} (before : Reachable h) (room : Instance → Room)
      (nested : ∀ i ∈ value.instances, Reachable ⟨i, room i⟩) (allocated : Bool)
      (name : ZString) (flags : UInt32) : Reachable (h.setElement allocated name value flags).2
  | elementCleared {h : Handle} (before : Reachable h) (name : ZString) :
      Reachable (h.clearElement name).2
  | cloned {h h' : Handle} (before : Reachable h) (copied : h.clone = some h') : Reachable h'

/-! ## The invariant of an instance -/

/-- No two names are found for one another. -/
def DistinctNames (names : List ZString) : Prop :=
  names.Pairwise fun declared name => sameName declared name = false

mutual

/-- The instances in the value are well formed. -/
def Value.WellFormed : Value → Prop
  | .null _ => True
  | .plain _ _ => True
  | .string _ => True
  | .object _ i => i.WellFormed
  | .plains _ _ => True
  | .strings _ => True
  | .objects _ xs => itemsWellFormed xs

/-- The entries of an instance array are well formed. -/
def itemsWellFormed : List (Option Instance) → Prop
  | [] => True
  | none :: rest => itemsWellFormed rest
  | some i :: rest => i.WellFormed ∧ itemsWellFormed rest

/-- The elements have legal names and well-formed values. -/
def elementsWellFormed : List Element → Prop
  | [] => True
  | ⟨name, _, value⟩ :: rest =>
    legalName name = true ∧ value.WellFormed ∧ elementsWellFormed rest

/-- All names are legal, the elements of an instance have distinct ones, and their offsets fit in
32 bits. -/
def Instance.WellFormed : Instance → Prop
  | ⟨className, _, _, _, elements⟩ =>
    (legalName className = true ∧ fieldOffset elements.length < 2 ^ 32) ∧
      DistinctNames (elements.map Element.name) ∧ elementsWellFormed elements

end

theorem itemsWellFormed_iff {xs : List (Option Instance)} :
    itemsWellFormed xs ↔ ∀ i, some i ∈ xs → i.WellFormed := by
  induction xs with
  | nil => simp [itemsWellFormed]
  | cons x xs ih =>
    cases x with
    | none | some i => simp [itemsWellFormed, ih]

theorem elementsWellFormed_iff {elements : List Element} :
    elementsWellFormed elements ↔
      ∀ e ∈ elements, legalName e.name = true ∧ e.value.WellFormed := by
  induction elements with
  | nil => simp [elementsWellFormed]
  | cons e elements ih =>
    obtain ⟨name, flags, value⟩ := e
    simp [elementsWellFormed, ih, and_assoc]

theorem Value.wellFormed_iff {v : Value} : v.WellFormed ↔ ∀ i ∈ v.instances, i.WellFormed := by
  cases v with
  | objects isReference xs =>
    simp [Value.WellFormed, Value.instances, itemsWellFormed_iff, mem_filterMap]
  | _ => simp [Value.WellFormed, Value.instances]

theorem Instance.wellFormed_iff {i : Instance} :
    i.WellFormed ↔
      (legalName i.className = true ∧ fieldOffset i.elements.length < 2 ^ 32) ∧
      DistinctNames (i.elements.map Element.name) ∧
      ∀ e ∈ i.elements, legalName e.name = true ∧ e.value.WellFormed := by
  obtain ⟨className, flags, nameSpace, serverName, elements⟩ := i
  rw [Instance.WellFormed, elementsWellFormed_iff]

mutual

/-- A value without the flags and server names in it. -/
def Value.forget : Value → Value
  | .null type => .null type
  | .plain t x => .plain t x
  | .string s => .string s
  | .object isReference i => .object isReference i.forget
  | .plains t xs => .plains t xs
  | .strings xs => .strings xs
  | .objects isReference xs => .objects isReference (forgetItems xs)

/-- The entries of an array without flags and server names. -/
def forgetItems : List (Option Instance) → List (Option Instance)
  | [] => []
  | none :: rest => none :: forgetItems rest
  | some i :: rest => some i.forget :: forgetItems rest

/-- Names, types and values of elements. -/
def forgetElements : List Element → List Element
  | [] => []
  | ⟨name, _, value⟩ :: rest => ⟨name, 0, value.forget⟩ :: forgetElements rest

/-- Class name, namespace and elements of an instance. -/
def Instance.forget : Instance → Instance
  | ⟨className, _, nameSpace, _, elements⟩ =>
    ⟨className, 0, nameSpace, none, forgetElements elements⟩

end

mutual

/-- A clone can be cloned again, differs from its original in flags only and is well formed. -/
theorem Value.clone_spec : ∀ {v c : Value}, v.clone = some c →
    c.clone = some c ∧ c.forget = v.forget ∧ (v.WellFormed → c.WellFormed)
  | .null _, _, copied => by cases copied; exact ⟨rfl, rfl, id⟩
  | .plain _ _, _, copied => by cases copied; exact ⟨rfl, rfl, id⟩
  | .string _, _, copied => by cases copied; exact ⟨rfl, rfl, id⟩
  | .object isReference i, _, copied => by
    rw [Value.clone] at copied
    obtain ⟨j, cloned, rfl⟩ := map_eq_some_iff.mp copied
    obtain ⟨again, same, wf⟩ := Instance.clone_spec cloned
    rw [Value.clone, again, Value.forget, same]
    exact ⟨rfl, rfl, wf⟩
  | .plains _ _, _, copied => by cases copied; exact ⟨rfl, rfl, id⟩
  | .strings xs, _, copied => by
    have kept := copied
    rw [Value.clone] at copied
    split at copied
    · cases copied
    · cases copied
      exact ⟨kept, rfl, id⟩
  | .objects isReference xs, _, copied => by
    rw [Value.clone] at copied
    obtain ⟨ys, cloned, rfl⟩ := map_eq_some_iff.mp copied
    obtain ⟨again, same, wf⟩ := cloneItems_spec cloned
    rw [Value.clone, again, Value.forget, same]
    exact ⟨rfl, rfl, wf⟩

theorem cloneItems_spec : ∀ {xs copies : List (Option Instance)}, cloneItems xs = some copies →
    cloneItems copies = some copies ∧ forgetItems copies = forgetItems xs ∧
      (itemsWellFormed xs → itemsWellFormed copies)
  | [], _, copied => by cases copied; exact ⟨rfl, rfl, id⟩
  | none :: _, _, copied => by cases copied
  | some i :: rest, _, copied => by
    rw [cloneItems] at copied
    obtain ⟨j, first, later⟩ := bind_eq_some_iff.mp copied
    obtain ⟨js, others, done⟩ := bind_eq_some_iff.mp later
    cases done
    obtain ⟨again, same, wf⟩ := Instance.clone_spec first
    obtain ⟨agains, sames, wfs⟩ := cloneItems_spec others
    rw [cloneItems, again, agains, forgetItems, same, sames]
    exact ⟨rfl, rfl, And.imp wf wfs⟩

theorem cloneElements_spec : ∀ {es copies : List Element}, cloneElements es = some copies →
    cloneElements copies = some copies ∧ forgetElements copies = forgetElements es ∧
      copies.map Element.name = es.map Element.name ∧
      (elementsWellFormed es → elementsWellFormed copies)
  | [], _, copied => by cases copied; exact ⟨rfl, rfl, rfl, id⟩
  | ⟨name, flags, value⟩ :: rest, _, copied => by
    rw [cloneElements] at copied
    obtain ⟨v, first, later⟩ := bind_eq_some_iff.mp copied
    obtain ⟨es, others, done⟩ := bind_eq_some_iff.mp later
    cases done
    obtain ⟨again, same, wf⟩ := Value.clone_spec first
    obtain ⟨agains, sames, names, wfs⟩ := cloneElements_spec others
    rw [cloneElements, again, agains, forgetElements, same, sames]
    exact ⟨rfl, rfl, congrArg (name :: ·) names, And.imp id (And.imp wf wfs)⟩

theorem Instance.clone_spec : ∀ {i c : Instance}, i.clone = some c →
    c.clone = some c ∧ c.forget = i.forget ∧ (i.WellFormed → c.WellFormed)
  | ⟨className, flags, nameSpace, serverName, elements⟩, _, copied => by
    rw [Instance.clone] at copied
    obtain ⟨es, others, done⟩ := bind_eq_some_iff.mp copied
    cases done
    obtain ⟨agains, sames, names, wfs⟩ := cloneElements_spec others
    have length : es.length = elements.length := by
      have both := congrArg length names
      rwa [length_map, length_map] at both
    rw [Instance.clone, agains, Instance.forget, sames]
    exact ⟨rfl, rfl, fun wf => ⟨length ▸ wf.1, names ▸ wf.2.1, wfs wf.2.2⟩⟩

end

variable {value field : Value} {flags : UInt32}

theorem fieldConstruct_wellFormed {allocated : Bool} (wf : value.WellFormed)
    (built : fieldConstruct allocated value flags = some field) : field.WellFormed := by
  unfold fieldConstruct at built
  split at built
  · cases built
    trivial
  split at built
  · cases built
    exact wf
  split at built
  · exact (Value.clone_spec built).2.2 wf
  · cases built

/-- A value stored under an existing name keeps the invariant. -/
theorem Instance.wellFormed_set {i : Instance} {index : Nat} {e : Element} (wf : i.WellFormed)
    (found : i.elements[index]? = some e) (fieldWf : field.WellFormed) :
    Instance.WellFormed
      { i with elements := i.elements.set index { e with value := field } } := by
  rw [Instance.wellFormed_iff] at wf ⊢
  obtain ⟨legal, distinct, elements⟩ := wf
  obtain ⟨inside, rfl⟩ := List.getElem?_eq_some_iff.mp found
  refine ⟨by rw [length_set]; exact legal, ?_, ?_⟩
  · rw [map_set]
    have same : (i.elements.map Element.name).set index i.elements[index].name =
        i.elements.map Element.name := by
      apply ext_getElem?
      intro k
      rw [getElem?_set]
      split
      · rename_i here
        subst here
        simp [inside]
      · rfl
    rw [same]
    exact distinct
  · intro x stored
    rcases mem_or_eq_of_mem_set stored with old | rfl
    · exact elements x old
    · exact ⟨(elements _ (getElem_mem inside)).1, fieldWf⟩

variable {name : ZString}

theorem findPropertyDecl_none {elements : List Element}
    (absent : findPropertyDecl elements name = none) :
    ∀ e ∈ elements, sameName e.name name = false :=
  findIdx?_eq_none_iff.mp absent

/-- A new element keeps the invariant. -/
theorem Instance.wellFormed_append {i : Instance} {e : Element} (wf : i.WellFormed)
    (legal : legalName e.name = true) (absent : findPropertyDecl i.elements e.name = none)
    (fits : fieldOffset (i.elements.length + 1) < 2 ^ 32) (fieldWf : e.value.WellFormed) :
    Instance.WellFormed { i with elements := i.elements ++ [e] } := by
  rw [Instance.wellFormed_iff] at wf ⊢
  obtain ⟨className, distinct, elements⟩ := wf
  refine ⟨⟨className.1, by rw [length_append]; exact fits⟩, ?_, ?_⟩
  · unfold DistinctNames
    rw [map_append, pairwise_append]
    refine ⟨distinct, pairwise_singleton _ _, ?_⟩
    intro declared inside name last
    obtain ⟨x, old, rfl⟩ := mem_map.mp inside
    obtain rfl := mem_singleton.mp last
    exact findPropertyDecl_none absent x old
  · exact forall_mem_append.mpr ⟨elements, forall_mem_singleton.mpr ⟨legal, fieldWf⟩⟩

theorem Handle.addElement_wellFormed {h h' : Handle} {allocated result : Bool}
    (wf : h.inst.WellFormed) (valueWf : value.WellFormed)
    (added : h.addElement allocated name value flags = some (result, h')) : h'.inst.WellFormed := by
  unfold Handle.addElement at added
  split at added
  · cases added
    exact wf
  rename_i legal
  split at added
  · cases added
    exact wf
  rename_i absent
  split at added
  · rename_i placed
    cases added
    refine Instance.wellFormed_append wf (by simpa using legal) (by simpa using absent)
      placed.2 ?_
    cases built : fieldConstruct allocated value flags with
    | none => trivial
    | some field => exact fieldConstruct_wellFormed valueWf built
  · cases added

variable {h : Handle}

theorem Handle.setElement_wellFormed (wf : h.inst.WellFormed) (valueWf : value.WellFormed)
    (allocated : Bool) : (h.setElement allocated name value flags).2.inst.WellFormed := by
  unfold Handle.setElement
  split
  · exact wf
  split
  · exact wf
  rename_i found
  split
  · exact wf
  split
  · exact wf
  · rename_i built
    exact Instance.wellFormed_set wf found (fieldConstruct_wellFormed valueWf built)

theorem Handle.clearElement_wellFormed (wf : h.inst.WellFormed) :
    (h.clearElement name).2.inst.WellFormed := by
  unfold Handle.clearElement
  split
  · exact wf
  split
  · exact wf
  · rename_i found
    exact Instance.wellFormed_set wf found trivial

/-- Every history of calls leads to a well-formed instance. -/
theorem Reachable.wellFormed (reachable : Reachable h) : h.inst.WellFormed := by
  induction reachable with
  | created new =>
    unfold newDynamic at new
    split at new
    · rename_i legal
      cases new
      exact ⟨⟨legal, by decide⟩, List.Pairwise.nil, trivial⟩
    · cases new
  | nameSpaceSet before nameSpace ih | serverNameSet before serverName ih =>
    rw [Instance.wellFormed_iff] at ih ⊢
    exact ih
  | elementAdded before room nested added ih values =>
    exact Handle.addElement_wellFormed ih (Value.wellFormed_iff.mpr values) added
  | elementSet before room nested allocated name flags ih values =>
    exact Handle.setElement_wellFormed ih (Value.wellFormed_iff.mpr values) allocated
  | elementCleared before name ih => exact Handle.clearElement_wellFormed ih
  | cloned before copied ih =>
    obtain ⟨i, done, rfl⟩ := map_eq_some_iff.mp copied
    exact (Instance.clone_spec done).2.2 ih

/-! ## Room for elements -/

theorem findCapacity_eq {x m : Nat} (lower : 2 ^ m < x) (upper : x ≤ 2 ^ (m + 1)) (large : 5 ≤ m)
    (small : m < 32) : findCapacity x = 2 ^ (m + 1) := by
  have most : 2 ^ 5 ≤ 2 ^ m := Nat.pow_le_pow_right (by decide) large
  unfold findCapacity
  rw [if_neg (by omega)]
  exact PowerOfTwo.smear_eq (by omega) (by omega) small

/-- There is the room that `_FindCapacity` computes. -/
def Handle.Roomy (h : Handle) : Prop :=
  findCapacity h.inst.elements.length ≤ h.room.pointers ∧
    findCapacity h.inst.elements.length ≤ h.room.fields

theorem newRoom_roomy : findCapacity 0 ≤ newRoom.pointers ∧ findCapacity 0 ≤ newRoom.fields := by
  decide

/-- The room computed for one more element. -/
theorem findCapacity_succ {n : Nat} (small : n < 2 ^ 32) :
    (n < findCapacity n ∧ findCapacity (n + 1) = findCapacity n) ∨
      (n = findCapacity n ∧ findCapacity (n + 1) = 2 * n ∧ 0 < n) := by
  by_cases few : n < 32
  · left
    unfold findCapacity
    rw [if_pos (by omega), if_pos (by omega)]
    exact ⟨few, rfl⟩
  by_cases least : n = 32
  · right
    subst least
    decide
  · -- n - 1 has its highest bit at position m
    have log := Nat.log2_lt (n := n - 1) (k := 32) (by omega)
    have lower := Nat.log2_self_le (n := n - 1) (by omega)
    have upper := Nat.lt_log2_self (n := n - 1)
    have large : 5 ≤ (n - 1).log2 := (Nat.le_log2 (by omega)).mpr (by omega)
    have bound : (n - 1).log2 < 32 := log.mpr (by omega)
    generalize (n - 1).log2 = m at lower upper large bound
    have here := @findCapacity_eq n m (by omega) (by omega) large bound
    rcases Nat.lt_or_ge n (2 ^ (m + 1)) with inside | full
    · left
      rw [here]
      exact ⟨inside, findCapacity_eq (by omega) (by omega) large bound⟩
    · right
      have exact_ : n = 2 ^ (m + 1) := by omega
      have next : m + 1 < 32 := by
        by_contra high
        have : m = 31 := by omega
        subst this
        omega
      refine ⟨by rw [here]; exact exact_, ?_, by omega⟩
      rw [findCapacity_eq (by omega) (by rw [Nat.pow_succ 2 (m + 1)]; omega) (by omega) next,
        Nat.pow_succ 2 (m + 1), ← exact_, Nat.mul_comm]

/-- Where the room is what `_FindCapacity` computes, it is extended in time. -/
theorem Handle.Roomy.extended (roomy : h.Roomy) (small : h.inst.elements.length < 2 ^ 32) :
    h.extended.Holds h.inst.elements.length ∧
      findCapacity (h.inst.elements.length + 1) ≤ h.extended.pointers ∧
      findCapacity (h.inst.elements.length + 1) ≤ h.extended.fields := by
  obtain ⟨pointers, fields⟩ := roomy
  unfold Handle.extended Room.Holds
  rcases findCapacity_succ small with ⟨room, same⟩ | ⟨full, doubled, positive⟩
  · rw [if_neg (by omega), same]
    exact ⟨⟨by omega, by omega⟩, pointers, fields⟩
  · rw [if_pos full, doubled]
    dsimp only
    exact ⟨⟨by omega, by omega⟩, Nat.le_refl _, Nat.le_refl _⟩

end Omi.Base
