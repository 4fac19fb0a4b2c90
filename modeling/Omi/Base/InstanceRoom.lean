import Omi.Base.Instance
import Omi.Data.Run

/-!
# Room for the elements of dynamic instances

`__MI_Instance_AddElement` does not know how much memory an instance has. It computes
a power of two from the number of elements and extends the arrays when that number is
reached. `Instance_Clone` allocates what the elements of the original need, so a clone
of more than 32 elements whose number is no power of two is full although the
computed room says otherwise, and the next element is stored behind its arrays.

The system here is a pool of instances that are created, extended and cloned in any
order. A run stores every element in the room of its instance if and only if it never
extends such a clone, and no instance outgrows its 32-bit offsets.
-/

namespace Omi.Base

open List Option Run

/-- An instance, with the number of elements it was cloned with if it is a clone. -/
structure Pooled where
  handle : Handle
  clonedWith : Option Nat

/-- The number of elements. -/
def Pooled.count (p : Pooled) : Nat := p.handle.inst.elements.length

/-- A call on one of the instances, which are numbered in the order of their creation. -/
inductive PoolCall where
  | newDynamic (className : ZString) (metaType : UInt32)
  | addElement (index : Nat) (allocated : Bool) (name : ZString) (value : Value) (flags : UInt32)
  | clone (index : Nat)

/-- The instances after a call. A call that fails leaves them as they are, and so does one on an
instance that does not exist. -/
def poolStep (pool : List Pooled) : PoolCall → Option (List Pooled)
  | .newDynamic className metaType =>
    match newDynamic className metaType with
    | none => some pool
    | some h => some (pool ++ [⟨h, none⟩])
  | .addElement index allocated name value flags =>
    match pool[index]? with
    | none => some pool
    | some p =>
      (p.handle.addElement allocated name value flags).map fun result =>
        pool.set index ⟨result.2, p.clonedWith⟩
  | .clone index =>
    match pool[index]? with
    | none => some pool
    | some p =>
      match p.handle.clone with
      | none => some pool
      | some h => some (pool ++ [⟨h, some h.inst.elements.length⟩])

/-- The call stores an element in the instance. -/
def PoolCall.StoresIn (pool : List Pooled) (call : PoolCall) (p : Pooled) : Prop :=
  ∃ index allocated name value flags, call = .addElement index allocated name value flags ∧
    pool[index]? = some p ∧ legalName name = true ∧
    findPropertyDecl p.handle.inst.elements name = none

variable {p : Pooled} {h h' : Handle}

theorem PoolCall.StoresIn.mem {pool : List Pooled} {call : PoolCall} (stores : call.StoresIn pool p) :
    p ∈ pool := by
  obtain ⟨index, allocated, name, value, flags, -, found, -⟩ := stores
  exact mem_of_getElem? found

/-- An element that is stored has its place, in the array of declarations and among the fields. -/
def StoredInRoom (pool : List Pooled) (call : PoolCall) : Prop :=
  ∀ p, call.StoresIn pool p →
    p.handle.extended.Holds p.count ∧ fieldOffset (p.count + 1) < 2 ^ 32

/-- The instance is a clone that is full without being known to be. -/
def Pooled.Tight (p : Pooled) : Prop :=
  p.clonedWith = some p.count ∧ 32 < p.count ∧ ¬∃ m, p.count = 2 ^ m

/-- No element is stored in a tight clone, or in an instance of 107374180 elements. -/
def StoredInLoose (pool : List Pooled) (call : PoolCall) : Prop :=
  ∀ p, call.StoresIn pool p → ¬p.Tight ∧ p.count < 107374180

/-! ## The room of an instance -/

/-- What is known of an instance in a pool: it has the computed room, or it is a clone that has
exactly what its elements need. -/
structure Pooled.Inv (p : Pooled) : Prop where
  fits : fieldOffset p.count < 2 ^ 32
  grown : ∀ n, p.clonedWith = some n → n ≤ p.count
  exact_ : p.clonedWith = some p.count → 32 < p.count → p.handle.room = ⟨p.count, p.count⟩
  roomy : p.handle.Roomy ∨ (p.clonedWith = some p.count ∧ 32 < p.count)

theorem findCapacity_eq_self_iff {n : Nat} (large : 32 < n) (small : n < 2 ^ 32) :
    n = findCapacity n ↔ ∃ m, n = 2 ^ m := by
  constructor
  · intro full
    have lower := Nat.log2_self_le (n := n - 1) (by omega)
    have upper := Nat.lt_log2_self (n := n - 1)
    have most : 5 ≤ (n - 1).log2 := (Nat.le_log2 (by omega)).mpr (by omega)
    have bound : (n - 1).log2 < 32 := (Nat.log2_lt (by omega)).mpr (by omega)
    refine ⟨(n - 1).log2 + 1, ?_⟩
    rw [← findCapacity_eq (x := n) (by omega) (by omega) most bound]
    exact full
  · rintro ⟨m, rfl⟩
    have base : 1 < 2 := by decide
    have above : 5 < m := (Nat.pow_lt_pow_iff_right base).mp (show 2 ^ 5 < 2 ^ m from large)
    have below : m < 32 := (Nat.pow_lt_pow_iff_right base).mp small
    obtain ⟨k, rfl⟩ : ∃ k, m = k + 1 := ⟨m - 1, by omega⟩
    exact (findCapacity_eq (Nat.pow_lt_pow_right (by decide) (Nat.lt_succ_self k))
      (Nat.le_refl _) (by omega) (by omega)).symm

theorem Pooled.extended_eq : p.handle.extended =
    if p.count = findCapacity p.count then ⟨2 * p.count, 2 * p.count⟩ else p.handle.room := rfl

theorem Pooled.Inv.small (inv : p.Inv) : p.count < 2 ^ 32 := by
  have fits := inv.fits
  unfold fieldOffset at fits
  omega

/-- A clone that has exactly what its elements need is known to be full if it is not tight. -/
theorem Pooled.Inv.full (inv : p.Inv) (loose : ¬p.Tight) (cloned : p.clonedWith = some p.count)
    (large : 32 < p.count) : p.count = findCapacity p.count := by
  refine (findCapacity_eq_self_iff large inv.small).mpr ?_
  by_contra odd
  exact loose ⟨cloned, large, odd⟩

/-- The computed extension finds room exactly if the instance is no tight clone. -/
theorem Pooled.Inv.holds_iff (inv : p.Inv) : p.handle.extended.Holds p.count ↔ ¬p.Tight := by
  rw [Pooled.extended_eq]
  constructor
  · rintro holds ⟨cloned, large, odd⟩
    have notFull : ¬p.count = findCapacity p.count := fun full =>
      odd ((findCapacity_eq_self_iff large inv.small).mp full)
    rw [if_neg notFull, inv.exact_ cloned large] at holds
    exact Nat.lt_irrefl _ holds.1
  · intro loose
    rcases inv.roomy with roomy | ⟨cloned, large⟩
    · exact (roomy.extended inv.small).1
    · rw [if_pos (inv.full loose cloned large)]
      change p.count < 2 * p.count ∧ p.count < 2 * p.count
      omega

theorem Pooled.Inv.stored_iff (inv : p.Inv) :
    (p.handle.extended.Holds p.count ∧ fieldOffset (p.count + 1) < 2 ^ 32) ↔
      ¬p.Tight ∧ p.count < 107374180 := by
  rw [inv.holds_iff]
  have bound : fieldOffset (p.count + 1) < 2 ^ 32 ↔ p.count < 107374180 := by
    unfold fieldOffset
    omega
  rw [bound]

/-! ## One call -/

/-- What `__MI_Instance_AddElement` does to the instance. -/
theorem Handle.addElement_cases {allocated result : Bool} {name : ZString} {value : Value}
    {flags : UInt32} (added : h.addElement allocated name value flags = some (result, h')) :
    h' = h ∨ (legalName name = true ∧ findPropertyDecl h.inst.elements name = none ∧
      fieldOffset (h.inst.elements.length + 1) < 2 ^ 32 ∧ h'.room = h.extended ∧
      h'.inst.elements.length = h.inst.elements.length + 1) := by
  unfold Handle.addElement at added
  split at added
  · cases added
    exact .inl rfl
  rename_i legal
  split at added
  · cases added
    exact .inl rfl
  rename_i absent
  split at added
  · rename_i placed
    cases added
    exact .inr ⟨by simpa using legal, by simpa using absent, placed.2, rfl, length_append⟩
  · cases added

theorem cloneElements_length {elements copies : List Element}
    (copied : cloneElements elements = some copies) : copies.length = elements.length := by
  induction elements generalizing copies with
  | nil =>
    cases copied
    rfl
  | cons e elements ih =>
    obtain ⟨name, flags, value⟩ := e
    rw [cloneElements] at copied
    obtain ⟨v, -, later⟩ := bind_eq_some_iff.mp copied
    obtain ⟨es, others, done⟩ := bind_eq_some_iff.mp later
    cases done
    rw [length_cons, length_cons, ih others]

/-- A clone has as many elements, and room for these only above 32. -/
theorem Handle.clone_room (copied : h.clone = some h') :
    h'.inst.elements.length = h.inst.elements.length ∧
      h'.room = ⟨max 32 h'.inst.elements.length, max 32 h'.inst.elements.length⟩ := by
  obtain ⟨i, cloned, rfl⟩ := map_eq_some_iff.mp copied
  refine ⟨?_, rfl⟩
  obtain ⟨⟨className, flags, nameSpace, serverName, elements⟩, room⟩ := h
  rw [Instance.clone] at cloned
  obtain ⟨copies, done, last⟩ := bind_eq_some_iff.mp cloned
  cases last
  exact cloneElements_length done

theorem Pooled.inv_new {className : ZString} {metaType : UInt32}
    (new : newDynamic className metaType = some h) : Pooled.Inv ⟨h, none⟩ := by
  unfold newDynamic at new
  split at new
  · cases new
    have fits : fieldOffset 0 < 2 ^ 32 := by decide
    exact ⟨fits, nofun, nofun, .inl newRoom_roomy⟩
  · cases new

theorem Pooled.Inv.clone (inv : p.Inv) (copied : p.handle.clone = some h) :
    Pooled.Inv ⟨h, some h.inst.elements.length⟩ := by
  obtain ⟨length, room⟩ := Handle.clone_room copied
  have fits := inv.fits
  unfold Pooled.count at fits
  rw [← length] at fits
  refine ⟨fits, ?_, ?_, ?_⟩
  · rintro n ⟨⟩
    exact Nat.le_refl _
  · intro _ large
    unfold Pooled.count at large ⊢
    dsimp only at large ⊢
    rw [room, Nat.max_eq_right (by omega)]
  · unfold Pooled.count Handle.Roomy
    rcases Nat.lt_or_ge 32 h.inst.elements.length with large | few
    · exact .inr ⟨rfl, large⟩
    · left
      rw [room]
      unfold findCapacity
      rw [if_pos few]
      exact ⟨Nat.le_max_left _ _, Nat.le_max_left _ _⟩

/-- An element that is stored in its room leaves the computed room behind. -/
theorem Pooled.Inv.store (inv : p.Inv) (loose : ¬p.Tight)
    (fits : fieldOffset (p.count + 1) < 2 ^ 32) (room : h.room = p.handle.extended)
    (length : h.inst.elements.length = p.count + 1) : Pooled.Inv ⟨h, p.clonedWith⟩ := by
  have count : Pooled.count ⟨h, p.clonedWith⟩ = p.count + 1 := length
  refine ⟨by rw [count]; exact fits, ?_, ?_, .inl ?_⟩
  · intro n cloned
    rw [count]
    exact Nat.le_succ_of_le (inv.grown n cloned)
  · intro cloned
    rw [count] at cloned
    exact absurd (inv.grown _ cloned) (Nat.not_succ_le_self _)
  · unfold Handle.Roomy
    rw [length, room]
    rcases inv.roomy with roomy | ⟨cloned, large⟩
    · exact (roomy.extended inv.small).2
    · have full := inv.full loose cloned large
      rw [Pooled.extended_eq, if_pos full]
      rcases findCapacity_succ inv.small with ⟨spare, -⟩ | ⟨-, doubled, -⟩
      · omega
      · rw [doubled]
        exact ⟨Nat.le_refl _, Nat.le_refl _⟩

/-- The invariant of a pool. -/
def PoolInv (pool : List Pooled) : Prop := ∀ p ∈ pool, p.Inv

theorem PoolInv.append {pool : List Pooled} (inv : PoolInv pool) (last : p.Inv) :
    PoolInv (pool ++ [p]) :=
  forall_mem_append.mpr ⟨inv, forall_mem_singleton.mpr last⟩

theorem poolStep_inv {pool next : List Pooled} {call : PoolCall} (inv : PoolInv pool)
    (loose : StoredInLoose pool call) (taken : poolStep pool call = some next) :
    PoolInv next := by
  cases call with
  | newDynamic className metaType =>
    rw [poolStep] at taken
    split at taken
    · cases taken
      exact inv
    · rename_i new
      cases taken
      exact inv.append (Pooled.inv_new new)
  | addElement index allocated name value flags =>
    rw [poolStep] at taken
    split at taken
    · cases taken
      exact inv
    · rename_i p found
      obtain ⟨⟨result, h⟩, added, rfl⟩ := map_eq_some_iff.mp taken
      have here : p.Inv := inv p (mem_of_getElem? found)
      intro q inside
      rcases mem_or_eq_of_mem_set inside with old | rfl
      · exact inv q old
      · rcases Handle.addElement_cases added with rfl | ⟨legal, absent, fits, room, length⟩
        · exact here
        · have stores : PoolCall.StoresIn pool (.addElement index allocated name value flags) p :=
            ⟨index, allocated, name, value, flags, rfl, found, legal, absent⟩
          exact here.store (loose p stores).1 fits room length
  | clone index =>
    rw [poolStep] at taken
    split at taken
    · cases taken
      exact inv
    rename_i p found
    split at taken
    · cases taken
      exact inv
    · rename_i copied
      cases taken
      exact inv.append ((inv p (mem_of_getElem? found)).clone copied)

/-- In every run of calls, all elements are stored in the room of their instances if and only if
none is stored in a tight clone or in an instance of 107374180 elements. -/
theorem elements_stored_in_room_iff (calls : List PoolCall) :
    Along poolStep StoredInRoom [] calls ↔ Along poolStep StoredInLoose [] calls := by
  refine @along_iff_of_invariant _ _ poolStep PoolInv calls StoredInRoom StoredInLoose ?_ ?_ []
    nofun
  · intro pool call inv
    constructor
    · intro stored p stores
      exact (inv p stores.mem).stored_iff.mp (stored p stores)
    · intro stored p stores
      exact (inv p stores.mem).stored_iff.mpr (stored p stores)
  · intro pool call next inv loose taken
    exact poolStep_inv inv loose taken

/-! ## A clone of 33 elements -/

/-- A name of `n + 1` letters. -/
def letters (n : Nat) : ZString where
  chars := List.replicate (n + 1) 65
  nul_free := by simp

/-- Create an instance, add elements with names of different lengths, and clone it. -/
def fillAndClone (n : Nat) : List PoolCall :=
  .newDynamic (letters 0) flagClass ::
    (List.range n).map (fun k => .addElement 0 true (letters k) (.null (.scalar .string)) 0) ++
      [.clone 0]

/-- Add an element to the clone. -/
def addToClone (n : Nat) : PoolCall :=
  .addElement 1 true (letters n) (.null (.scalar .string)) 0

/-- The 33 elements of the clone, its room, and that it has no element of the next name. -/
theorem fillAndClone_33 : ((run poolStep [] (fillAndClone 33)).bind fun pool => pool[1]?.map fun p =>
    (p.count, p.handle.extended, findPropertyDecl p.handle.inst.elements (letters 33))) =
      some (33, ⟨33, 33⟩, none) := by
  decide +kernel

/-- The element added to a clone of 33 elements is stored behind its room. -/
theorem clone_of_33_overflows :
    ¬Along poolStep StoredInRoom [] (fillAndClone 33 ++ [addToClone 33]) := by
  intro along
  obtain ⟨pool, reached, summary⟩ := bind_eq_some_iff.mp fillAndClone_33
  obtain ⟨p, found, same⟩ := map_eq_some_iff.mp summary
  obtain ⟨count, room, absent⟩ : p.count = 33 ∧ p.handle.extended = ⟨33, 33⟩ ∧
      findPropertyDecl p.handle.inst.elements (letters 33) = none := by
    simpa only [Prod.mk.injEq] using same
  have stores : (addToClone 33).StoresIn pool p :=
    ⟨1, true, letters 33, _, 0, rfl, found, by decide, absent⟩
  have holds := ((along.suffix reached).1 p stores).1
  rw [count, room] at holds
  exact Nat.lt_irrefl _ holds.1

end Omi.Base
