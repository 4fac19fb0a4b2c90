import Omi.Base.Packing

/-!
# The binary round trip of instances

An instance that is packed and unpacked keeps its class name, namespace and elements,
with references cut down to their keys and an output parameter `MIReturn` renamed.
`Instance.trim` makes these two changes; the flags of declarations and the server name,
which `Instance.forget` leaves out, are not in the format.

The proof follows the packed bytes field by field with the rules of `Codec.Agrees`, by
induction over the nested values. What it needs of an instance beyond the invariant of
the interface is `Instance.Packable`: sizes fit their 32 bits, the renamed elements
stay distinct, and an element declared with `MI_FLAG_NULL` is NULL.
-/

namespace Omi.Base

open List Option Codec Value ZString

/-! ## What is kept -/

mutual

/-- References keep only their keys. -/
def Value.trim : Value → Value
  | .null type => .null type
  | .plain t x => .plain t x
  | .string s => .string s
  | .object isReference i => .object isReference (i.trim isReference)
  | .plains t xs => .plains t xs
  | .strings xs => .strings xs
  | .objects isReference xs => .objects isReference (trimItems isReference xs)

/-- The entries of an array, trimmed. -/
def trimItems (keysOnly : Bool) : List (Option Instance) → List (Option Instance)
  | [] => []
  | none :: rest => none :: trimItems keysOnly rest
  | some i :: rest => some (i.trim keysOnly) :: trimItems keysOnly rest

/-- The elements that are packed, under their packed names. -/
def trimElements (keysOnly : Bool) : List Element → List Element
  | [] => []
  | ⟨name, flags, value⟩ :: rest =>
    if (Element.mk name flags value).skipped keysOnly none then trimElements keysOnly rest
    else ⟨(Element.mk name flags value).packedName, flags, value.trim⟩ ::
      trimElements keysOnly rest

/-- The instance with what is packed of it. -/
def Instance.trim (keysOnly : Bool) : Instance → Instance
  | ⟨className, flags, nameSpace, serverName, elements⟩ =>
    ⟨className, flags, nameSpace, serverName, trimElements keysOnly elements⟩

end

@[simp] theorem Value.isNull_trim (v : Value) : v.trim.isNull = v.isNull := by cases v <;> rfl

@[simp] theorem Value.isNull_forget (v : Value) : v.forget.isNull = v.isNull := by cases v <;> rfl

theorem forgetElements_append (as bs : List Element) :
    forgetElements (as ++ bs) = forgetElements as ++ forgetElements bs := by
  induction as with
  | nil => rfl
  | cons a as ih =>
    obtain ⟨name, flags, value⟩ := a
    rw [cons_append, forgetElements, ih]
    rfl

/-! ## Cloning an unpacked value -/

/-- The value has no NULL entries in its arrays, so that it can be cloned. -/
def Value.Clonable (v : Value) : Prop := ∃ c, v.clone = some c

/-- All values in the instance can be cloned. -/
def Instance.Clonable (i : Instance) : Prop := ∃ c, i.clone = some c

theorem cloneElements_of_clonable {es : List Element} (all : ∀ e ∈ es, e.value.Clonable) :
    ∃ copies, cloneElements es = some copies := by
  induction es with
  | nil => exact ⟨[], rfl⟩
  | cons e es ih =>
    obtain ⟨c, first⟩ := all e mem_cons_self
    obtain ⟨copies, others⟩ := ih fun x inside => all x (mem_cons_of_mem _ inside)
    obtain ⟨name, flags, value⟩ := e
    refine ⟨⟨name, flags, c⟩ :: copies, ?_⟩
    rw [cloneElements, first, others]
    rfl

theorem Instance.clonable_of_elements {i : Instance} (all : ∀ e ∈ i.elements, e.value.Clonable) :
    i.Clonable := by
  obtain ⟨copies, cloned⟩ := cloneElements_of_clonable all
  obtain ⟨className, flags, nameSpace, serverName, elements⟩ := i
  refine ⟨⟨className, 0, nameSpace, serverName, copies⟩, ?_⟩
  rw [Instance.clone, cloned]
  rfl

theorem cloneItems_of_clonable {items : List Instance} (all : ∀ j ∈ items, j.Clonable) :
    ∃ copies, cloneItems (items.map some) = some copies := by
  induction items with
  | nil => exact ⟨[], rfl⟩
  | cons j items ih =>
    obtain ⟨c, first⟩ := all j mem_cons_self
    obtain ⟨copies, others⟩ := ih fun x inside => all x (mem_cons_of_mem _ inside)
    refine ⟨some c :: copies, ?_⟩
    rw [map_cons, cloneItems, first, others]
    rfl

/-- The field of an unpacked element holds the unpacked value, borrowed or copied, as long as
`MI_FLAG_NULL` is set for NULL only. -/
theorem fieldConstruct_spec {v : Value} {flags : UInt32} (clonable : v.Clonable)
    (honest : hasFlag flags flagNull = true → v.isNull = true) :
    ∃ field, fieldConstruct true v flags = some field ∧ field.forget = v.forget ∧
      field.Clonable := by
  unfold fieldConstruct
  by_cases null : hasFlag flags flagNull = true
  · rw [if_pos null]
    cases v with
    | null type => exact ⟨_, rfl, rfl, _, rfl⟩
    | _ => cases honest null
  · rw [if_neg null]
    split
    · exact ⟨v, rfl, rfl, clonable⟩
    · obtain ⟨c, copied⟩ := clonable
      obtain ⟨again, same, -⟩ := clone_spec copied
      exact ⟨c, copied, same, c, again⟩

/-! ## Which instances are packed faithfully -/

mutual

/-- Sizes fit in 32 bits, and so do those of the instances in the value. -/
def Value.Packable : Value → Prop
  | .null _ => True
  | .plain _ _ => True
  | .string s => ShortString s
  | .object isReference i => i.Packable isReference
  | .plains t xs => xs.length < 2 ^ 32 ∧ xs.length * t.width < 2 ^ 32
  | .strings xs => xs.length < 2 ^ 32 ∧ ∀ s, some s ∈ xs → ShortString s
  | .objects isReference xs => xs.length < 2 ^ 32 ∧ itemsPackable isReference xs

/-- The entries of an array of instances. -/
def itemsPackable (keysOnly : Bool) : List (Option Instance) → Prop
  | [] => True
  | none :: rest => itemsPackable keysOnly rest
  | some i :: rest => i.Packable keysOnly ∧ itemsPackable keysOnly rest

/-- The elements that are packed; one that is declared NULL is NULL. -/
def elementsPackable (keysOnly : Bool) : List Element → Prop
  | [] => True
  | ⟨name, flags, value⟩ :: rest =>
    ((Element.mk name flags value).skipped keysOnly none = false →
      (hasFlag flags flagNull = true → value.isNull = true) ∧
        ShortString (Element.mk name flags value).packedName ∧ value.Packable) ∧
      elementsPackable keysOnly rest

/-- The packed names are distinct, and the conditions on sizes and NULL flags hold. -/
def Instance.Packable (keysOnly : Bool) : Instance → Prop
  | ⟨className, _, nameSpace, _, elements⟩ =>
    ShortString className ∧ (∀ s, nameSpace = some s → ShortString s) ∧
      DistinctNames ((trimElements keysOnly elements).map Element.name) ∧
      elementsPackable keysOnly elements

end

mutual

/-- How deep instances are nested in what is packed of a value. -/
def Value.depth : Value → Nat
  | .null _ => 0
  | .plain _ _ => 0
  | .string _ => 0
  | .object isReference i => i.depth isReference
  | .plains _ _ => 0
  | .strings _ => 0
  | .objects isReference xs => depthItems isReference xs

/-- The depth of an array of instances. -/
def depthItems (keysOnly : Bool) : List (Option Instance) → Nat
  | [] => 0
  | none :: rest => depthItems keysOnly rest
  | some i :: rest => max (i.depth keysOnly) (depthItems keysOnly rest)

/-- The depth of the elements that are packed. -/
def depthElements (keysOnly : Bool) : List Element → Nat
  | [] => 0
  | ⟨name, flags, value⟩ :: rest =>
    if (Element.mk name flags value).skipped keysOnly none then depthElements keysOnly rest
    else max value.depth (depthElements keysOnly rest)

/-- The depth of an instance. -/
def Instance.depth (keysOnly : Bool) : Instance → Nat
  | ⟨_, _, _, _, elements⟩ => depthElements keysOnly elements + 1

end

/-! ## Names and flags -/

theorem Element.nameLen_packedName (e : Element) :
    nameLen e.packedName (hash e.name) = e.packedName.length % 2 ^ 32 := by
  unfold Element.packedName
  split
  · rename_i renamed
    have same : e.name = ofString "MIReturn" := by
      simp only [Bool.and_eq_true, beq_iff_eq] at renamed
      exact renamed.2
    rw [same]
    decide
  · exact nameLen_hash e.name

theorem Element.legalName_packedName {e : Element} (legal : legalName e.name = true) :
    legalName e.packedName = true := by
  unfold Element.packedName
  split
  · decide
  · exact legal

theorem packedCount_eq (keysOnly : Bool) (elements : List Element) :
    packedCount keysOnly none elements = (trimElements keysOnly elements).length := by
  induction elements with
  | nil => cases keysOnly <;> rfl
  | cons e elements ih =>
    obtain ⟨name, flags, value⟩ := e
    cases keysOnly with
    | false =>
      rw [trimElements, if_neg (by simp [Element.skipped]), length_cons, ← ih]
      rfl
    | true =>
      simp only [packedCount, if_true] at ih ⊢
      rw [countP_cons, ih, trimElements]
      by_cases key : hasFlag flags flagKey = true
      · rw [if_pos key, if_neg (by simp [Element.skipped, key]), length_cons]
      · rw [if_neg key, if_pos (by simp [Element.skipped, key]), Nat.add_zero]

theorem length_trimElements_le (keysOnly : Bool) (elements : List Element) :
    (trimElements keysOnly elements).length ≤ elements.length := by
  induction elements with
  | nil => exact Nat.le_refl _
  | cons e elements ih =>
    obtain ⟨name, flags, value⟩ := e
    rw [trimElements]
    split
    · exact Nat.le_succ_of_le ih
    · exact Nat.succ_le_succ ih

/-- Borrowing does not make a value NULL. -/
theorem hasFlag_borrow (flags : UInt32) :
    hasFlag (flags ||| flagBorrow) flagNull = hasFlag flags flagNull := by
  have apart : flagBorrow &&& flagNull = 0 := by decide
  have same : (flags ||| flagBorrow) &&& flagNull = flags &&& flagNull := by
    apply UInt32.toBitVec_inj.mp
    rw [UInt32.toBitVec_and, UInt32.toBitVec_or, BitVec.and_or_distrib_right,
      ← UInt32.toBitVec_and, ← UInt32.toBitVec_and, apart]
    exact BitVec.or_zero
  unfold hasFlag
  rw [same]

/-! ## Adding an unpacked element -/

/-- An unpacked element finds its place behind those that are there. -/
theorem addUnpacked_spec {copy : Bool} {h : Handle} {name : ZString} {v : Value} {flags : UInt32}
    (roomy : h.Roomy) (small : fieldOffset (h.inst.elements.length + 1) < 2 ^ 32)
    (legal : legalName name = true)
    (absent : ∀ e ∈ h.inst.elements, sameName e.name name = false) (clonable : v.Clonable)
    (honest : hasFlag flags flagNull = true → v.isNull = true) :
    ∃ e after, addUnpacked copy h (some name) v flags = some after ∧ after.Roomy ∧
      after.inst = { h.inst with elements := h.inst.elements ++ [e] } ∧
      e.name = name ∧ e.value.forget = v.forget ∧ e.value.Clonable := by
  have stored : hasFlag (if copy then flags else flags ||| flagBorrow) flagNull = true →
      v.isNull = true := by
    cases copy with
    | true => exact honest
    | false =>
      intro null
      rw [if_neg Bool.false_ne_true, hasFlag_borrow] at null
      exact honest null
  obtain ⟨field, built, same, again⟩ := fieldConstruct_spec clonable stored
  unfold addUnpacked
  obtain ⟨room, more⟩ := roomy.extended (by unfold fieldOffset at small; omega)
  have none_ : findPropertyDecl h.inst.elements name = none := findIdx?_eq_none_iff.mpr absent
  generalize (if copy then flags else flags ||| flagBorrow) = passed at *
  have added : h.addElement true name v passed = some (true,
      ⟨{ h.inst with elements := h.inst.elements ++ [⟨name, passed, field⟩] }, h.extended⟩) := by
    unfold Handle.addElement
    rw [if_neg (by simp [legal]), if_neg (by simp [none_]), if_pos ⟨room, small⟩]
    simp only [built, isSome_some, getD_some]
  refine ⟨⟨name, passed, field⟩,
    ⟨{ h.inst with elements := h.inst.elements ++ [⟨name, passed, field⟩] }, h.extended⟩,
    ?_, ?_, rfl, rfl, same, again⟩
  · simp only [bind_eq_bind, bind_some, added, if_true]
  · unfold Handle.Roomy
    simp only [length_append, length_singleton]
    exact more

/-- What the loop over packed elements has made of a handle. -/
structure Built (h : Handle) (added : List Element) (after : Handle) : Prop where
  className : after.inst.className = h.inst.className
  nameSpace : after.inst.nameSpace = h.inst.nameSpace
  serverName : after.inst.serverName = h.inst.serverName
  elements : forgetElements after.inst.elements =
    forgetElements h.inst.elements ++ forgetElements added
  clonable : ∀ e ∈ after.inst.elements, e.value.Clonable

/-! ## Agreement -/

section Agreement

variable {garbage : Nat → UInt8} {copy : Bool}

theorem PlainType.boundary_pos (t : PlainType) : 0 < t.boundary := by cases t <;> decide

theorem PlainType.arrayBoundary_pos (t : PlainType) : 0 < t.arrayBoundary := by
  cases t <;> decide

variable {nested : Unpack Instance}

/-- A value that exists is packed behind a one. -/
theorem agrees_existing {w : Pack Unit} {type : MiType} {post : Value → Prop}
    (value : Agrees w (unpackExisting nested type) post) :
    Agrees (packU8 garbage 1 >>= fun _ => w) (unpackField nested type) post := by
  refine (agrees_u8 (by decide)).bind fun x same => ?_
  rw [if_neg (by omega)]
  exact value

theorem agrees_null (type : MiType) :
    Agrees (packU8 garbage 0) (unpackField nested type) (· = .null type) := by
  refine (agrees_u8 (by decide)).finish fun x same => ?_
  rw [if_pos same]
  exact .nothing rfl

theorem unpackExisting_object (isReference : Bool) :
    unpackExisting nested (.scalar (.object isReference)) =
      nested >>= fun i => pure (.object isReference i) := by
  cases isReference <;> rfl

theorem unpackExisting_objects (isReference : Bool) :
    unpackExisting nested (.array (.object isReference)) =
      unpackU32 >>= fun size => many nested size >>= fun items =>
        pure (.objects isReference (items.map some)) := by
  cases isReference <;> rfl

mutual

/-- A packed value is unpacked. -/
theorem Value.agrees : ∀ {v : Value} {fuel : Nat}, v.WellFormed → v.Packable → v.depth ≤ fuel →
    Agrees (v.packField garbage) (unpackField (unpackWithin copy fuel) v.type)
      fun u => u.forget = v.trim.forget ∧ u.Clonable
  | .null type, _, _, _, _ => by
    rw [packField]
    refine (agrees_null type).weaken ?_
    rintro _ rfl
    exact ⟨rfl, _, rfl⟩
  | .plain t x, _, _, _, _ => by
    rw [packField]
    refine agrees_existing ((agrees_scalar t.boundary_pos x.isLt).map fun y same => ?_)
    obtain rfl := Fin.ext same
    exact ⟨rfl, _, rfl⟩
  | .string s, _, _, packable, _ => by
    rw [packField]
    refine agrees_existing ((agrees_str ?_).map ?_)
    · rintro t ⟨⟩
      exact packable
    · rintro _ rfl
      exact ⟨rfl, _, rfl⟩
  | .object isReference i, fuel, wf, packable, deep => by
    rw [packField, type]
    apply agrees_existing
    rw [unpackExisting_object]
    refine (Instance.agrees wf packable deep).map ?_
    rintro j ⟨same, ⟨c, cloned⟩, -⟩
    rw [trim, forget, forget, same]
    exact ⟨rfl, .object isReference c, by rw [clone, cloned]; rfl⟩
  | .plains t xs, _, _, packable, _ => by
    rw [packField]
    refine agrees_existing
      ((agrees_array t.arrayBoundary_pos packable.1 packable.2).map ?_)
    rintro _ rfl
    exact ⟨rfl, _, rfl⟩
  | .strings xs, _, _, packable, _ => by
    rw [packField]
    refine agrees_existing ((agrees_strA packable.1 packable.2).map ?_)
    rintro strings same
    rw [same]
    refine ⟨rfl, .strings xs, ?_⟩
    rw [clone, if_neg (by rw [← same]; simp)]
  | .objects isReference xs, fuel, wf, packable, deep => by
    rw [packField, type]
    apply agrees_existing
    rw [unpackExisting_objects]
    refine (agrees_u32 packable.1).bind fun size same => ?_
    rw [same]
    refine (packItems_agrees wf packable.2 deep).map ?_
    rintro items ⟨kept, all⟩
    obtain ⟨copies, cloned⟩ := cloneItems_of_clonable all
    rw [trim, forget, forget, kept]
    exact ⟨rfl, .objects isReference copies, by rw [clone, cloned]; rfl⟩

theorem packItems_agrees : ∀ {xs : List (Option Instance)} {keysOnly : Bool} {fuel : Nat},
    itemsWellFormed xs → itemsPackable keysOnly xs → depthItems keysOnly xs ≤ fuel →
    Agrees (packItems garbage keysOnly xs) (many (unpackWithin copy fuel) xs.length)
      fun items => forgetItems (items.map some) = forgetItems (trimItems keysOnly xs) ∧
        ∀ j ∈ items, j.Clonable
  | [], _, _, _, _, _ => .nothing ⟨rfl, nofun⟩
  | none :: _, _, _, _, _, _ => .failure
  | some i :: rest, keysOnly, fuel, wf, packable, deep => by
    rw [packItems]
    refine (Instance.agrees wf.1 packable.1 (Nat.le_trans (Nat.le_max_left _ _) deep)).bind ?_
    rintro j ⟨same, clonable, -⟩
    refine (packItems_agrees wf.2 packable.2 (Nat.le_trans (Nat.le_max_right _ _) deep)).map ?_
    rintro items ⟨kept, all⟩
    rw [List.map_cons, forgetItems, trimItems, forgetItems, same, kept]
    exact ⟨rfl, List.forall_mem_cons.mpr ⟨clonable, all⟩⟩

theorem packElements_agrees : ∀ {es : List Element} {keysOnly : Bool} {fuel : Nat} {h : Handle},
    elementsWellFormed es → elementsPackable keysOnly es → depthElements keysOnly es ≤ fuel →
    h.Roomy → fieldOffset (h.inst.elements.length + es.length) < 2 ^ 32 →
    DistinctNames (h.inst.elements.map Element.name ++
      (trimElements keysOnly es).map Element.name) →
    (∀ e ∈ h.inst.elements, e.value.Clonable) →
    Agrees (packElements garbage keysOnly none es)
      (unpackElements copy (unpackWithin copy fuel) (trimElements keysOnly es).length h)
      (Built h (trimElements keysOnly es))
  | [], _, _, h, _, _, _, _, _, _, all =>
    .nothing ⟨rfl, rfl, rfl, (List.append_nil _).symm, all⟩
  | ⟨name, flags, value⟩ :: rest, keysOnly, fuel, h, wf, packable, deep, roomy, small, distinct,
      all => by
      unfold fieldOffset at small
      rw [List.length_cons] at small
      rw [depthElements] at deep
      rw [packElements]
      by_cases skipped : (Element.mk name flags value).skipped keysOnly none = true
      · rw [if_pos skipped] at deep ⊢
        rw [trimElements, if_pos skipped] at distinct ⊢
        exact packElements_agrees wf.2.2 packable.2 deep roomy
          (by unfold fieldOffset; omega) distinct all
      · rw [if_neg skipped] at deep ⊢
        rw [trimElements, if_neg skipped] at distinct ⊢
        obtain ⟨honest, short, valuePackable⟩ := packable.1 (Bool.eq_false_iff.mpr skipped)
        have length := Element.nameLen_packedName (Element.mk name flags value)
        have legal := @Element.legalName_packedName (Element.mk name flags value) wf.1
        dsimp only at length ⊢
        rw [length, Nat.mod_eq_of_lt (Nat.lt_of_succ_lt short)]
        generalize (Element.mk name flags value).packedName = packed at *
        refine (agrees_u32 flags.toNat_lt).bind fun flags' sameFlags => ?_
        refine (agrees_sized short).bind fun name' sameName_ => ?_
        refine (agrees_u32 (Nat.lt_trans value.type.code_lt (by decide))).bind fun code sameCode => ?_
        rw [sameCode, MiType.ofCode_code]
        apply Agrees.after_check
        refine (Value.agrees wf.2.1 valuePackable
          (Nat.le_trans (Nat.le_max_left _ _) deep)).bind ?_
        rintro v ⟨same, clonable⟩
        have null : v.isNull = value.isNull := by
          rw [← Value.isNull_forget, same, Value.isNull_forget, Value.isNull_trim]
        obtain ⟨e, after, added, room, inst, named, kept, again⟩ :=
          @addUnpacked_spec copy h packed v flags roomy (by unfold fieldOffset; omega) legal
            (fun e inside => (pairwise_append.mp distinct).2.2 e.name
              (mem_map_of_mem inside) packed mem_cons_self)
            clonable (fun set => null.trans (honest set))
        rw [sameFlags, UInt32.ofNat_toNat, sameName_, added]
        apply Agrees.after_check
        have names : after.inst.elements.map Element.name =
            h.inst.elements.map Element.name ++ [packed] := by
          rw [inst, map_append, map_singleton, named]
        refine (@packElements_agrees rest keysOnly fuel after wf.2.2 packable.2
          (Nat.le_trans (Nat.le_max_right _ _) deep) room ?_ ?_ ?_).weaken ?_
        · rw [inst, length_append, length_singleton]
          unfold fieldOffset
          omega
        · rw [names, append_assoc]
          exact distinct
        · rw [inst]
          exact forall_mem_append.mpr ⟨all, forall_mem_singleton.mpr again⟩
        · intro last built
          refine ⟨built.className.trans (by rw [inst]), built.nameSpace.trans (by rw [inst]),
            built.serverName.trans (by rw [inst]), ?_, built.clonable⟩
          obtain ⟨name', flags', value'⟩ := e
          dsimp only at named kept
          rw [built.elements, inst, forgetElements_append, forgetElements, forgetElements,
            forgetElements, named, kept, same, append_assoc, singleton_append]

/-- A packed instance is unpacked. -/
theorem Instance.agrees : ∀ {i : Instance} {keysOnly : Bool} {fuel : Nat}, i.WellFormed →
    i.Packable keysOnly → i.depth keysOnly ≤ fuel →
    Agrees (i.pack garbage keysOnly none) (unpackWithin copy fuel)
      fun j => j.forget = (i.trim keysOnly).forget ∧ j.Clonable ∧ j.serverName = none
  | ⟨className, flags, nameSpace, serverName, elements⟩, keysOnly, 0, _, _, deep => by
    rw [Instance.depth] at deep
    omega
  | ⟨className, flags, nameSpace, serverName, elements⟩, keysOnly, fuel + 1, wf, packable, deep => by
    rw [Instance.depth] at deep
    obtain ⟨short, shortSpace, distinct, elementsOk⟩ := packable
    obtain ⟨legal, small⟩ := wf.1
    have fewer := length_trimElements_le keysOnly elements
    rw [Instance.pack, unpackWithin, nameLen_hash, Nat.mod_eq_of_lt (Nat.lt_of_succ_lt short),
      packedCount_eq]
    refine (agrees_u32 (by decide)).bind fun magic sameMagic => ?_
    rw [if_pos sameMagic]
    apply Agrees.after_check
    refine (agrees_u32 flags.toNat_lt).bind fun flags' sameFlags => ?_
    refine (agrees_sized short).bind fun name' sameName_ => ?_
    refine (agrees_str shortSpace).bind fun space sameSpace => ?_
    refine (agrees_u32 (by unfold fieldOffset at small; omega)).bind fun number sameNumber => ?_
    have created : name'.bind (fun name => newDynamic name (UInt32.ofNat flags')) =
        some ⟨⟨className, dynamicFlags (UInt32.ofNat flags'), none, none, []⟩, newRoom⟩ := by
      rw [sameName_]
      unfold newDynamic
      rw [bind_some, if_pos legal]
    rw [created]
    apply Agrees.after_check
    rw [sameNumber]
    have roomy : Handle.Roomy (Handle.setNameSpace
        ⟨⟨className, dynamicFlags (UInt32.ofNat flags'), none, none, []⟩, newRoom⟩ space) :=
      newRoom_roomy
    have all : ∀ e ∈ ([] : List Element), e.value.Clonable := nofun
    refine (packElements_agrees wf.2.2 elementsOk (by omega) roomy ?_ distinct all).bind ?_
    · change fieldOffset (0 + elements.length) < 2 ^ 32
      rw [Nat.zero_add]
      exact small
    · intro after built
      refine (agrees_u32 (by decide)).finish fun magic sameMagic => ?_
      rw [if_pos sameMagic]
      apply Agrees.after_check
      refine .nothing ⟨?_, Instance.clonable_of_elements built.clonable, built.serverName⟩
      have classNames := built.className
      have nameSpaces := built.nameSpace
      have elements_ := built.elements
      revert classNames nameSpaces elements_
      cases after.inst with
      | mk className' flags' nameSpace' serverName' elements' =>
        intro classNames nameSpaces elements_
        dsimp only [Handle.setNameSpace] at classNames nameSpaces elements_
        rw [Instance.trim, Instance.forget, Instance.forget, classNames, nameSpaces, sameSpace,
          elements_]
        rfl

end

/-! ## The fuel -/

mutual

theorem Value.grows : ∀ (v : Value), Grows v.depth (v.packField garbage)
  | .null _ => by rw [packField, depth]; exact grows_u8 0
  | .plain t x => by
    rw [packField, depth]
    exact (grows_u8 1).before ((grows_scalar _ _ _).mono (Nat.zero_le _))
  | .string s => by
    rw [packField, depth]
    exact (grows_u8 1).before (grows_str _)
  | .object isReference i => by
    rw [packField, depth]
    exact (grows_u8 1).before (Instance.grows i isReference)
  | .plains t xs => by
    rw [packField, depth]
    exact (grows_u8 1).before (grows_array _ _ _)
  | .strings xs => by
    rw [packField, depth]
    exact (grows_u8 1).before (grows_strA _)
  | .objects isReference xs => by
    rw [packField, depth]
    exact (grows_u8 1).before ((grows_u32 _).before (packItems_grows xs isReference))

theorem packItems_grows : ∀ (xs : List (Option Instance)) (keysOnly : Bool),
    Grows (depthItems keysOnly xs) (packItems garbage keysOnly xs)
  | [], _ => by rw [packItems, depthItems]; exact .nothing
  | none :: _, _ => by rw [packItems]; exact .failure
  | some i :: rest, keysOnly => by
    rw [packItems, depthItems]
    exact ((Instance.grows i keysOnly).bind (packItems_grows rest keysOnly)).mono (by omega)

theorem packElements_grows : ∀ (es : List Element) (keysOnly : Bool),
    Grows (depthElements keysOnly es) (packElements garbage keysOnly none es)
  | [], _ => by rw [packElements, depthElements]; exact .nothing
  | ⟨name, flags, value⟩ :: rest, keysOnly => by
    rw [packElements, depthElements]
    split
    · exact packElements_grows rest keysOnly
    · have tail := (Value.grows value).bind (packElements_grows rest keysOnly)
      exact (grows_u32 _).before ((grows_sized _ _).before ((grows_u32 _).before
        (tail.mono (by omega))))

/-- Each level of nesting takes at least a byte. -/
theorem Instance.grows : ∀ (i : Instance) (keysOnly : Bool),
    Grows (i.depth keysOnly) (i.pack garbage keysOnly none)
  | ⟨className, flags, nameSpace, serverName, elements⟩, keysOnly => by
    rw [Instance.pack, Instance.depth]
    have magic : Grows 1 (packU32 garbage instanceMagic) := (grows_scalar 4 4 _).mono (by decide)
    have last : Grows 0 (packU32 garbage endMagic) := grows_u32 endMagic
    have body := (packElements_grows elements keysOnly).bind last
    exact (magic.bind ((grows_u32 _).before ((grows_sized _ _).before ((grows_str _).before
      ((grows_u32 _).before body))))).mono (by omega)

end

end Agreement

/-! ## The round trip -/

/-- What arrives of an instance that is packed into an empty buffer. -/
def roundTrip (garbage : Nat → UInt8) (copy : Bool) (i : Instance) : Option Instance := do
  let (_, bytes) ← i.pack garbage false none []
  let (j, _) ← Instance.unpack copy bytes 0
  return j

/-- The bytes of a packed instance are consumed exactly, and give back its class name, namespace
and elements in their order, with references cut down to their keys and `MIReturn` renamed. The
server name does not travel. -/
theorem instance_roundTrip (garbage : Nat → UInt8) (copy : Bool) {h : Handle}
    (reachable : Reachable h) (packable : h.inst.Packable false) {bytes : List UInt8}
    (packed : h.inst.pack garbage false none [] = some ((), bytes)) :
    ∃ j, Instance.unpack copy bytes 0 = some (j, bytes.length) ∧
      j.forget = (h.inst.trim false).forget ∧ j.serverName = none := by
  have enough : h.inst.depth false ≤ bytes.length := by
    have grows := Instance.grows h.inst false [] bytes packed
    rwa [length_nil, Nat.zero_add] at grows
  obtain ⟨-, reads⟩ := Instance.agrees reachable.wellFormed packable enough [] bytes packed
  obtain ⟨j, read, same, -, noServer⟩ := reads []
  rw [append_nil] at read
  exact ⟨j, read, same, noServer⟩

/-- A new instance of a class `C`. -/
def blank : Handle := ⟨⟨ZString.ofString "C", flagClass, none, none, []⟩, newRoom⟩

theorem blank_reachable : Reachable blank :=
  @Reachable.created (ofString "C") flagClass blank rfl

/-- The clone of an instance of `C` with one string. -/
def embedded : Handle :=
  ⟨⟨ofString "C", 0, none, none, [⟨ofString "S", 0, .string (ofString "s")⟩]⟩, ⟨32, 32⟩⟩

/-- A number, an array, a NULL string, an embedded instance and the result of a method. -/
def kinds : List Element :=
  [⟨ofString "P", 0, .plain .uint8 ⟨5, by decide⟩⟩,
    ⟨ofString "A", 0, .plains .uint16 [⟨1, by decide⟩, ⟨258, by decide⟩]⟩,
    ⟨ofString "Z", flagNull, .null (.scalar .string)⟩,
    ⟨ofString "E", 0, .object false embedded.inst⟩,
    ⟨ofString "MIReturn", flagParameter ||| flagOut, .plain .uint32 ⟨7, by decide⟩⟩]

/-- An instance of `C` with these elements. -/
def allKinds (elements : List Element) : Handle :=
  ⟨⟨ofString "C", flagClass, none, none, elements⟩, newRoom⟩

theorem allKinds_reachable : Reachable (allKinds kinds) := by
  have string : Reachable
      (allKinds [⟨ofString "S", 0, .string (ofString "s")⟩]) :=
    .elementAdded blank_reachable (fun _ => newRoom) (fun _ inside => absurd inside not_mem_nil)
      (rfl : blank.addElement true (ofString "S") (.string (ofString "s")) 0 = some (true, _))
  have inner : Reachable embedded := .cloned string rfl
  have add (n : Fin 5) (before : Reachable (allKinds (kinds.take n)))
      (nested : ∀ i ∈ (kinds.get n).value.instances, i = embedded.inst)
      (added : (allKinds (kinds.take n)).addElement true (kinds.get n).name (kinds.get n).value
        (kinds.get n).flags = some (true, allKinds (kinds.take (n + 1)))) :
      Reachable (allKinds (kinds.take (n + 1))) :=
    .elementAdded before (fun _ => ⟨32, 32⟩) (fun i inside => nested i inside ▸ inner) added
  have number := add 0 blank_reachable nofun rfl
  have array := add 1 number nofun rfl
  have null := add 2 array nofun rfl
  have object := add 3 null (fun _ inside => mem_singleton.mp inside) rfl
  exact add 4 object nofun rfl

theorem allKinds_packable : (allKinds kinds).inst.Packable false := by
  have short (s : ZString) (length : s.length ≤ 100) : ShortString s := by
    unfold ShortString
    omega
  have inner : embedded.inst.Packable false :=
    ⟨short _ (by decide), nofun, by unfold DistinctNames; decide,
      fun _ => ⟨by decide, short _ (by decide), short _ (by decide)⟩, trivial⟩
  refine ⟨short _ (by decide), nofun, by unfold DistinctNames; decide, ?_⟩
  exact ⟨fun _ => ⟨by decide, short _ (by decide), trivial⟩,
    fun _ => ⟨by decide, short _ (by decide), by decide, by decide⟩,
    fun _ => ⟨by decide, short _ (by decide), trivial⟩,
    fun _ => ⟨by decide, short _ (by decide), inner⟩,
    fun _ => ⟨by decide, short _ (by decide), trivial⟩, trivial⟩

theorem instance_roundTrip_allKinds :
    ∃ bytes, (allKinds kinds).inst.pack (fun _ => 0) false none [] = some ((), bytes) ∧
      ∃ j, Instance.unpack true bytes 0 = some (j, bytes.length) ∧
        j.forget = ((allKinds kinds).inst.trim false).forget ∧ j.serverName = none := by
  have accepted : ((allKinds kinds).inst.pack (fun _ => 0) false none []).isSome := by
    decide +kernel
  obtain ⟨⟨⟨⟩, bytes⟩, packed⟩ := Option.isSome_iff_exists.mp accepted
  exact ⟨bytes, packed,
    instance_roundTrip (fun _ => 0) true allKinds_reachable allKinds_packable packed⟩

/-- An element that is declared NULL and set to five later. -/
def declaredNull : Handle :=
  ⟨⟨ZString.ofString "C", flagClass, none, none,
    [⟨ZString.ofString "P", flagNull, .plain .uint8 ⟨5, by decide⟩⟩]⟩, newRoom⟩

theorem declaredNull_reachable : Reachable declaredNull := by
  have added : blank.addElement true (ofString "P") (.null (.scalar (.plain .uint8)))
      flagNull = some (true, ⟨⟨ofString "C", flagClass, none, none,
        [⟨ofString "P", flagNull, .null (.scalar (.plain .uint8))⟩]⟩, newRoom⟩) := rfl
  have declared := Reachable.elementAdded blank_reachable (fun _ => newRoom)
    (fun _ inside => absurd inside not_mem_nil) added
  exact @Reachable.elementSet _ (.plain .uint8 ⟨5, by decide⟩) declared (fun _ => newRoom)
    nofun true (ofString "P") 0

/-- The server name is not packed; and the value of an element that was declared NULL is packed
but not unpacked. -/
theorem instance_roundTrip_loses :
    (Reachable (blank.setServerName (some (ZString.ofString "h"))) ∧
      (roundTrip (fun _ => 0) true (blank.setServerName (some (ZString.ofString "h"))).inst).map
        Instance.serverName = some none) ∧
    (Reachable declaredNull ∧ declaredNull.inst.elements.map (fun e => e.value.isNull) = [false] ∧
      (roundTrip (fun _ => 0) true declaredNull.inst).map
        (fun j => j.elements.map fun e => e.value.isNull) = some [true]) :=
  ⟨⟨.serverNameSet blank_reachable _, by decide +kernel⟩, declaredNull_reachable, rfl,
    by decide +kernel⟩

end Omi.Base
