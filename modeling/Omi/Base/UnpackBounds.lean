import Omi.Base.Packing

/-!
# Bounds of the unpacking

`Instance_Unpack` reads lengths, types and offsets from a buffer that nobody has checked.
The calls are modelled on arbitrary bytes, with the 32-bit sums of `Buf.offset`, and
record what they read or hand back: ranges, and strings by where they start and where the
search for a terminator has to end.

The scalars and the arrays of numbers stay inside the buffer. The other calls trust it:
`Buf_UnpackStr` never looks for the terminator, `Buf_UnpackDTA` has no test at all,
`Buf_UnpackDT` tests a sum that wraps, and `Buf_UnpackStrA` tests its table against the
end of the buffer only, so that an entry below the first one, or so far above it that the
difference overflows, points before the buffer. An unknown type indexes `_fieldSizes` beyond
its end.
-/

namespace Omi.Base.Bounds

open List Option Bytes

/-- The readers of `Buf`; a scalar has its own width as boundary. -/
inductive Call where
  | scalar (width : Nat)
  | datetime
  | string
  | array (boundary width : Nat)
  | datetimeA
  | stringA
deriving DecidableEq

/-- What a call that returns `MI_RESULT_OK` leaves: the number it read, the ranges that it read
or handed back, the strings as start and limit, the buffer and the offset. -/
structure Done where
  value : Nat
  ranges : List (Int × Nat)
  strings : List (Int × Nat)
  data : List UInt8
  offset : Nat
deriving DecidableEq

/-! ## The readers -/

section Readers

variable (data : List UInt8)

/-- `Buf_Align32` and `Buf_Align64`. -/
def alignTo (boundary offset : Nat) : Option Nat :=
  if aligned boundary offset > data.length then none else some (aligned boundary offset)

/-- `Buf_UnpackU8` and its companions. -/
def unpackScalar (width offset : Nat) : Option Done :=
  let start := aligned width offset
  if start + width > data.length then none
  else some ⟨readLE data start width, [(start, width)], [], data, (start + width) % 2 ^ 32⟩

/-- `Buf_UnpackDT`, which keeps the end in 32 bits before it tests it. -/
def unpackDT (offset : Nat) : Option Done := do
  let start ← alignTo data 4 offset
  let fin := (start + 36) % 2 ^ 32
  if fin > data.length then none else some ⟨0, [(start, 36)], [], data, fin⟩

/-- `Buf_UnpackStr`. -/
def unpackStr (offset : Nat) : Option Done := do
  let size ← unpackScalar data 4 offset
  if size.value = 0 then some size
  else if size.offset + size.value > data.length then none
  else
    let fin := size.offset + size.value
    some ⟨size.value, (size.offset, size.value) :: size.ranges, [(size.offset, fin)], data,
      fin % 2 ^ 32⟩

/-- `Buf_UnpackU8A` and its companions; the byte count is a `size_t`. -/
def unpackArray (boundary width offset : Nat) : Option Done := do
  let size ← unpackScalar data 4 offset
  if size.value = 0 then some size
  else
    let start ← alignTo data boundary size.offset
    if start + size.value * width > data.length then none
    else some ⟨size.value, (start, size.value * width) :: size.ranges, [], data,
      (start + size.value * width) % 2 ^ 32⟩

/-- `Buf_UnpackDTA`. -/
def unpackDTA (offset : Nat) : Option Done := do
  let size ← unpackScalar data 4 offset
  if size.value = 0 then some size
  else some ⟨size.value, (size.offset, size.value * 36) :: size.ranges, [], data,
    (size.offset + size.value * 36) % 2 ^ 32⟩

/-- The table of a string array: one entry for each string and one for the end. -/
def tableWords (table size : Nat) : List Nat :=
  (List.range (size + 1)).map fun i => readLE data (table + 8 * i) 8

/-- `Buf_UnpackStrA` on a buffer at the address `base`. The loop reads every entry before it
replaces that entry by the pointer to the string. -/
def unpackStrA (base offset : Nat) : Option Done := do
  let size ← unpackScalar data 4 offset
  if size.value = 0 then some size
  else
    let table ← alignTo data 8 size.offset
    let first := (table + (size.value + 1) % 2 ^ 32 * 8) % 2 ^ 32
    let positions := stringPositions first (tableWords data table size.value)
    if first > data.length ∨ table + 8 * (size.value + 1) > data.length
        ∨ ∃ position ∈ positions, position > data.length then none
    else some ⟨size.value, (table, 8 * (size.value + 1)) :: size.ranges,
      (positions.take size.value).map (·, data.length),
      overwrite data table
        (positions.flatMap fun position => leBytes 8 ((base + position) % 2 ^ 64).toNat),
      (positions.getLastD 0 % 2 ^ 32).toNat⟩

/-- One call. -/
def Call.perform (base offset : Nat) : Call → Option Done
  | .scalar width => unpackScalar data width offset
  | .datetime => unpackDT data offset
  | .string => unpackStr data offset
  | .array boundary width => unpackArray data boundary width offset
  | .datetimeA => unpackDTA data offset
  | .stringA => unpackStrA data base offset

end Readers

/-! ## Staying inside -/

/-- The offset and the ranges are inside the buffer, and every string ends before its limit. -/
def Done.Inside (d : Done) : Prop :=
  d.offset ≤ d.data.length ∧
    (∀ range ∈ d.ranges, 0 ≤ range.1 ∧ range.1 + range.2 ≤ d.data.length) ∧
    ∀ s ∈ d.strings, 0 ≤ s.1 ∧ ∃ k < s.2, s.1 ≤ k ∧ d.data[k]? = some 0

/-- What the bytes at the offset have to satisfy. -/
def Call.Sound (data : List UInt8) (offset : Nat) : Call → Prop
  | .scalar _ | .array _ _ => True
  | .datetime => aligned 4 offset + 36 ≤ data.length
  | .string => ∀ size, unpackScalar data 4 offset = some size → size.value ≠ 0 →
      ∃ k, size.offset ≤ k ∧ k < size.offset + size.value ∧ data[k]? = some 0
  | .datetimeA => ∀ size, unpackScalar data 4 offset = some size → size.value ≠ 0 →
      size.offset + size.value * 36 ≤ data.length
  | .stringA => ∀ size table, unpackScalar data 4 offset = some size →
      alignTo data 8 size.offset = some table →
      let behind := table + 8 * (size.value + 1)
      let positions := stringPositions behind (tableWords data table size.value)
      (∀ position ∈ positions, (behind : Int) ≤ position) ∧
        ∀ position ∈ positions.take size.value, ∃ k : Nat, position ≤ k ∧ data[k]? = some 0

section Inside

variable {data : List UInt8} {d size : Done} {base offset width : Nat}

theorem inside_scalar (read : unpackScalar data width offset = some d) :
    d.data = data ∧ d.strings = [] ∧ d.Inside := by
  unfold unpackScalar at read
  obtain ⟨room, ⟨⟩⟩ := ite_none_left_eq_some.mp read
  refine ⟨rfl, rfl, ?_, ?_, by simp⟩
  · change _ % 2 ^ 32 ≤ data.length
    omega
  · simp only [mem_singleton, forall_eq]
    omega

/-- A call that reads a size of zero hands back nothing else. -/
theorem inside_of_zero {rest : Option Done} (read : unpackScalar data width offset = some size)
    (done : (if size.value = 0 then some size else rest) = some d) :
    (size.value = 0 ∧ d.data = data ∧ d.Inside) ∨ (size.value ≠ 0 ∧ rest = some d) := by
  split at done
  · next zero =>
      cases done
      exact .inl ⟨zero, (inside_scalar read).1, (inside_scalar read).2.2⟩
  · next positive => exact .inr ⟨positive, done⟩

/-- A condition on the size that is read, unless it is zero. -/
theorem sized_iff (read : unpackScalar data 4 offset = some size) {P : Done → Prop} :
    (∀ other, unpackScalar data 4 offset = some other → other.value ≠ 0 → P other) ↔
      (size.value ≠ 0 → P size) := by
  simp only [read, Option.some.injEq, forall_eq']

/-- Another range behind the size. -/
theorem inside_cons_iff (read : unpackScalar data width offset = some size)
    {value start length fin : Nat} {strings : List (Int × Nat)} :
    (Done.mk value ((start, length) :: size.ranges) strings data fin).Inside ↔
      fin ≤ data.length ∧ start + length ≤ data.length ∧
        ∀ s ∈ strings, 0 ≤ s.1 ∧ ∃ k < s.2, s.1 ≤ k ∧ data[k]? = some 0 := by
  obtain ⟨same, -, -, ranges, -⟩ := inside_scalar read
  rw [same] at ranges
  constructor
  · rintro ⟨offset, inside, strings⟩
    have here := (inside _ mem_cons_self).2
    dsimp only at here
    exact ⟨offset, by omega, strings⟩
  · rintro ⟨offset, inside, strings⟩
    refine ⟨offset, ?_, strings⟩
    intro range member
    cases member with
    | head =>
      dsimp only
      omega
    | tail _ member => exact ranges range member

theorem inside_datetime_iff (read : unpackDT data offset = some d) :
    d.data = data ∧ (d.Inside ↔ aligned 4 offset + 36 ≤ data.length) := by
  obtain ⟨start, found, rest⟩ := bind_eq_some_iff.mp read
  obtain ⟨-, ⟨⟩⟩ := ite_none_left_eq_some.mp found
  obtain ⟨room, ⟨⟩⟩ := ite_none_left_eq_some.mp rest
  refine ⟨rfl, fun inside => ?_, fun fits => ⟨Nat.le_of_not_lt room, ?_, by simp⟩⟩
  · have here := (inside.2.1 _ mem_cons_self).2
    dsimp only at here
    omega
  · simp only [mem_singleton, forall_eq]
    omega

theorem inside_string_iff (read : unpackStr data offset = some d) :
    d.data = data ∧ (d.Inside ↔ Call.string.Sound data offset) := by
  obtain ⟨size, first, rest⟩ := bind_eq_some_iff.mp read
  obtain ⟨zero, same, inside⟩ | ⟨positive, rest⟩ := inside_of_zero first rest
  · exact ⟨same, iff_of_true inside ((sized_iff first).mpr fun nonzero => absurd zero nonzero)⟩
  · obtain ⟨room, ⟨⟩⟩ := ite_none_left_eq_some.mp rest
    refine ⟨rfl, (inside_cons_iff first).trans ?_⟩
    simp only [mem_singleton, forall_eq, Call.Sound, first, Option.some.injEq, forall_eq',
      Int.natCast_nonneg, true_and, Int.ofNat_le]
    constructor
    · rintro ⟨-, -, k, below, above, null⟩ -
      exact ⟨k, above, below, null⟩
    · intro sound
      obtain ⟨k, above, below, null⟩ := sound positive
      exact ⟨by omega, by omega, k, below, above, null⟩

theorem inside_array {boundary : Nat} (read : unpackArray data boundary width offset = some d) :
    d.data = data ∧ d.Inside := by
  obtain ⟨size, first, rest⟩ := bind_eq_some_iff.mp read
  obtain ⟨-, same, inside⟩ | ⟨-, rest⟩ := inside_of_zero first rest
  · exact ⟨same, inside⟩
  · obtain ⟨start, -, rest⟩ := bind_eq_some_iff.mp rest
    obtain ⟨room, ⟨⟩⟩ := ite_none_left_eq_some.mp rest
    exact ⟨rfl, (inside_cons_iff first).mpr ⟨by omega, by omega, by simp⟩⟩

theorem inside_datetimeA_iff (read : unpackDTA data offset = some d) :
    d.data = data ∧ (d.Inside ↔ Call.datetimeA.Sound data offset) := by
  obtain ⟨size, first, rest⟩ := bind_eq_some_iff.mp read
  obtain ⟨zero, same, inside⟩ | ⟨positive, rest⟩ := inside_of_zero first rest
  · exact ⟨same, iff_of_true inside ((sized_iff first).mpr fun nonzero => absurd zero nonzero)⟩
  · cases rest
    refine ⟨rfl, (inside_cons_iff first).trans ?_⟩
    simp only [Call.Sound, first, Option.some.injEq, forall_eq']
    constructor
    · rintro ⟨-, fits, -⟩ -
      exact fits
    · intro sound
      have fits := sound positive
      exact ⟨by omega, fits, by simp⟩

theorem getLastD_mem {α : Type} {l : List α} (nonempty : l ≠ []) (a : α) : l.getLastD a ∈ l := by
  rw [getLastD_eq_getLast?, getLast?_eq_some_getLast nonempty]
  exact getLast_mem nonempty

theorem getElem?_overwrite {buffer chunk : List UInt8} {position k : Nat}
    (fits : position + chunk.length ≤ buffer.length) (behind : position + chunk.length ≤ k) :
    (overwrite buffer position chunk)[k]? = buffer[k]? := by
  unfold overwrite
  rw [getElem?_append_right (by simp; omega), getElem?_drop]
  congr 1
  simp
  omega

theorem inside_stringA (small : data.length < 2 ^ 32)
    (read : unpackStrA data base offset = some d) :
    d.data.length = data.length ∧ (Call.stringA.Sound data offset → d.Inside) := by
  obtain ⟨size, first, rest⟩ := bind_eq_some_iff.mp read
  obtain ⟨-, same, inside⟩ | ⟨positive, rest⟩ := inside_of_zero first rest
  · exact ⟨congrArg length same, fun _ => inside⟩
  · obtain ⟨table, found, rest⟩ := bind_eq_some_iff.mp rest
    obtain ⟨room, ⟨⟩⟩ := ite_none_left_eq_some.mp rest
    simp only [not_or, not_lt, not_exists, not_and] at room
    obtain ⟨-, room, below⟩ := room
    -- a table that fits has no wrapped sum
    have behind : (table + (size.value + 1) % 2 ^ 32 * 8) % 2 ^ 32
        = table + 8 * (size.value + 1) := by omega
    rw [behind] at below ⊢
    generalize listed : stringPositions (table + 8 * (size.value + 1))
      (tableWords data table size.value) = positions at below ⊢
    have count : positions.length = size.value + 1 := by
      rw [← listed, stringPositions, tableWords]
      simp
    have written : (positions.flatMap fun position =>
        leBytes 8 ((base + position) % 2 ^ 64).toNat).length = 8 * (size.value + 1) := by
      simp [length_flatMap, count, Nat.mul_comm]
    have kept := length_overwrite (room.trans_eq' (by rw [written]))
    refine ⟨kept, fun sound => ?_⟩
    obtain ⟨above, ended⟩ := sound size table first found
    rw [listed] at above ended
    have last := getLastD_mem (ne_nil_of_length_pos (by omega)) 0 (l := positions)
    have lastAbove := above _ last
    have lastBelow := below _ last
    refine ⟨?_, ?_, ?_⟩
    · rw [kept]
      dsimp only
      omega
    · rw [kept]
      intro range member
      cases member with
      | head =>
        omega
      | tail _ member =>
        obtain ⟨same, -, -, ranges, -⟩ := inside_scalar first
        rw [same] at ranges
        exact ranges range member
    · intro s member
      obtain ⟨position, taken, rfl⟩ := mem_map.mp member
      have start := above position (mem_of_mem_take taken)
      obtain ⟨k, reached, null⟩ := ended position taken
      have inside := (List.getElem?_eq_some_iff.mp null).1
      refine ⟨by dsimp only; omega, k, inside, reached, ?_⟩
      rw [getElem?_overwrite (by rw [written]; exact room) (by rw [written]; omega)]
      exact null

/-- What one call guarantees. -/
theorem Call.inside {c : Call} (small : data.length < 2 ^ 32)
    (done : c.perform data base offset = some d) :
    d.data.length = data.length ∧ (c.Sound data offset → d.Inside) ∧
      (c ≠ .stringA → d.Inside → c.Sound data offset) := by
  cases c with
  | scalar width =>
    obtain ⟨same, -, inside⟩ := inside_scalar done
    exact ⟨congrArg length same, fun _ => inside, fun _ _ => trivial⟩
  | datetime =>
    obtain ⟨same, inside⟩ := inside_datetime_iff done
    exact ⟨congrArg length same, inside.mpr, fun _ => inside.mp⟩
  | string =>
    obtain ⟨same, inside⟩ := inside_string_iff done
    exact ⟨congrArg length same, inside.mpr, fun _ => inside.mp⟩
  | array boundary width =>
    obtain ⟨same, inside⟩ := inside_array done
    exact ⟨congrArg length same, fun _ => inside, fun _ _ => trivial⟩
  | datetimeA =>
    obtain ⟨same, inside⟩ := inside_datetimeA_iff done
    exact ⟨congrArg length same, inside.mpr, fun _ => inside.mp⟩
  | stringA =>
    obtain ⟨same, inside⟩ := inside_stringA small done
    exact ⟨same, inside, fun other => absurd rfl other⟩

end Inside

/-! ## Instance_Unpack -/

/-- What the log of a run holds: the calls that returned `MI_RESULT_OK`, with the buffer and the
offset at which they were made, and the look-ups of the size of a field. -/
inductive Event where
  | call (c : Call) (data : List UInt8) (offset : Nat)
  | lookup (type : Nat)
deriving DecidableEq

/-- The buffer, its offset and the log. -/
structure Session where
  data : List UInt8
  offset : Nat
  log : List Event

/-- A failure keeps the log. -/
abbrev Attempt := ExceptT Unit (StateM Session)

section Run

/- The address of the buffer, and what the instance and the allocator decide: whether a name is
legal and new, whether there is memory. -/
variable (base : Nat) (decides : List Event → Bool)

/-- `MI_RETURN_ERR` around a call of `Buf`. -/
def perform (c : Call) : Attempt Nat := fun s =>
  match c.perform s.data base s.offset with
  | none => (.error (), s)
  | some d => (.ok d.value, ⟨d.data, d.offset, s.log ++ [.call c s.data s.offset]⟩)

/-- A step that may fail for reasons outside the buffer. -/
def decision : Attempt Unit := fun s => (if decides s.log then .ok () else .error (), s)

/-- `FieldSizeOf`. -/
def fieldSizeOf (type : Nat) : Attempt Unit := fun s =>
  (.ok (), { s with log := s.log ++ [.lookup type] })

/-- A number that must be read. -/
def expect (value : Nat) : Attempt Unit := do
  let x ← perform base (.scalar 4)
  if x = value then pure () else throw ()

/-- A loop of a counted number of steps. -/
def times (body : Attempt Unit) : Nat → Attempt Unit
  | 0 => pure ()
  | n + 1 => do
      body
      times body n

variable (nested : Attempt Unit)

/-- The switch of `_UnpackField`, which has no default. -/
def unpackExisting : Option MiType → Attempt Unit
  | none => pure ()
  | some (.scalar (.plain .datetime)) => discard (perform base .datetime)
  | some (.scalar (.plain t)) => discard (perform base (.scalar t.width))
  | some (.scalar .string) => discard (perform base .string)
  | some (.scalar .reference) | some (.scalar .embedded) => nested
  | some (.array (.plain .datetime)) => discard (perform base .datetimeA)
  | some (.array (.plain t)) => discard (perform base (.array t.arrayBoundary t.width))
  | some (.array .string) => discard (perform base .stringA)
  | some (.array .reference) | some (.array .embedded) => do
      let size ← perform base (.scalar 4)
      if size = 0 then pure ()
      else do
        decision decides
        times nested size

/-- `_UnpackField`. -/
def unpackField (type : Nat) : Attempt Unit := do
  let exists_ ← perform base (.scalar 1)
  if exists_ = 0 then pure () else unpackExisting base decides nested (MiType.ofCode type)

/-- One element. `MI_Instance_AddElement` looks up the size of the field once the name is
accepted. -/
def unpackElement : Attempt Unit := do
  let _ ← perform base (.scalar 4)
  let _ ← perform base .string
  let type ← perform base (.scalar 4)
  unpackField base decides nested type
  decision decides
  fieldSizeOf type
  decision decides

/-- `Instance_Unpack`, stopped where the nesting exceeds the fuel. -/
def unpackInstance : Nat → Attempt Unit
  | 0 => throw ()
  | fuel + 1 => do
      expect base instanceMagic
      let _ ← perform base (.scalar 4)
      let _ ← perform base .string
      let _ ← perform base .string
      let numProperties ← perform base (.scalar 4)
      decision decides
      times (unpackElement base decides (unpackInstance fuel)) numProperties
      expect base endMagic

/-! ## What a run logs -/

/-- A call is logged on a buffer of the original length after it returned. -/
def Event.Returned (length : Nat) : Event → Prop
  | .call c data offset => data.length = length ∧ ∃ d, c.perform data base offset = some d
  | .lookup _ => True

/-- The event stays inside the buffer, or inside the table of field sizes. -/
def Event.Inside : Event → Prop
  | .call c data offset => ∀ d, c.perform data base offset = some d → d.Inside
  | .lookup type => type < 32

/-- The condition on the bytes that the event reads. -/
def Event.Sound : Event → Prop
  | .call c data offset => c.Sound data offset
  | .lookup type => type < 32

/-- The event is no string array. -/
def Event.Exact : Event → Prop
  | .call c _ _ => c ≠ .stringA
  | .lookup _ => True

/-- The invariant of a session on a buffer of some length. -/
def Session.Faithful (length : Nat) (s : Session) : Prop :=
  s.data.length = length ∧ ∀ e ∈ s.log, e.Returned base length

/-- The step keeps the invariant, also when it fails. -/
def Keeps (length : Nat) {α : Type} (m : Attempt α) : Prop :=
  ∀ s : Session, s.Faithful base length → Session.Faithful base length (m s).2

end Run

section Keeps

variable {base length : Nat} {decides : List Event → Bool} {nested : Attempt Unit} {α β : Type}

theorem Keeps.nothing (a : α) : Keeps base length (pure a) := fun _ faithful => faithful

theorem Keeps.failure : Keeps base length (throw () : Attempt α) := fun _ faithful => faithful

theorem Keeps.bind {m : Attempt α} {f : α → Attempt β} (first : Keeps base length m)
    (next : ∀ a, Keeps base length (f a)) : Keeps base length (m >>= f) := by
  intro s faithful
  have middle := first s faithful
  change Session.Faithful base length (ExceptT.bindCont f (m s).1 (m s).2).2
  cases (m s).1 with
  | ok a => exact next a _ middle
  | error e => exact middle

theorem Keeps.discard {m : Attempt α} (first : Keeps base length m) :
    Keeps base length (Functor.discard m) :=
  first.bind fun _ => .nothing _

theorem Session.Faithful.log {s : Session} {e : Event} (faithful : s.Faithful base length)
    (returned : e.Returned base length) : ∀ e' ∈ s.log ++ [e], e'.Returned base length :=
  forall_mem_append.mpr ⟨faithful.2, forall_mem_singleton.mpr returned⟩

theorem keeps_perform (small : length < 2 ^ 32) (c : Call) :
    Keeps base length (perform base c) := by
  intro s faithful
  unfold perform
  cases done : c.perform s.data base s.offset with
  | none => exact faithful
  | some d =>
    have same := (c.inside (faithful.1 ▸ small) done).1
    exact ⟨same.trans faithful.1, faithful.log ⟨faithful.1, d, done⟩⟩

theorem keeps_decision : Keeps base length (decision decides) := fun _ faithful => faithful

theorem keeps_fieldSizeOf (type : Nat) : Keeps base length (fieldSizeOf type) :=
  fun _ faithful => ⟨faithful.1, faithful.log trivial⟩

theorem keeps_expect (small : length < 2 ^ 32) (value : Nat) :
    Keeps base length (expect base value) := by
  refine (keeps_perform small _).bind fun x => ?_
  split
  · exact .nothing ()
  · exact .failure

theorem keeps_times {body : Attempt Unit} (one : Keeps base length body) (n : Nat) :
    Keeps base length (times body n) := by
  induction n with
  | zero => exact .nothing ()
  | succ n ih => exact one.bind fun _ => ih

section

variable (small : length < 2 ^ 32) (inner : Keeps base length nested)
include small inner

theorem keeps_existing
    (type : Option MiType) : Keeps base length (unpackExisting base decides nested type) := by
  have call : ∀ c, Keeps base length (perform base c) := keeps_perform small
  unfold unpackExisting
  split
  case h_1 => exact .nothing ()
  case h_5 | h_6 => exact inner
  case h_10 | h_11 =>
    refine (call _).bind fun size => ?_
    split
    · exact .nothing ()
    · exact keeps_decision.bind fun _ => keeps_times inner size
  all_goals exact (call _).discard

theorem keeps_field (type : Nat) : Keeps base length (unpackField base decides nested type) := by
  refine (keeps_perform small _).bind fun exists_ => ?_
  split
  · exact .nothing ()
  · exact keeps_existing small inner _

theorem keeps_element : Keeps base length (unpackElement base decides nested) := by
  refine (keeps_perform small _).bind fun _ => (keeps_perform small _).bind fun _ =>
    (keeps_perform small _).bind fun type => ?_
  exact (keeps_field small inner type).bind fun _ => keeps_decision.bind fun _ =>
    (keeps_fieldSizeOf type).bind fun _ => keeps_decision

end

/-- A whole run keeps the invariant, by induction on the nesting. -/
theorem keeps_unpackInstance (small : length < 2 ^ 32) (fuel : Nat) :
    Keeps base length (unpackInstance base decides fuel) := by
  induction fuel with
  | zero => exact .failure
  | succ fuel ih =>
    refine (keeps_expect small _).bind fun _ => (keeps_perform small _).bind fun _ =>
      (keeps_perform small _).bind fun _ => (keeps_perform small _).bind fun _ =>
      (keeps_perform small _).bind fun numProperties => keeps_decision.bind fun _ => ?_
    exact (keeps_times (keeps_element small ih) numProperties).bind fun _ =>
      keeps_expect small _

end Keeps

/-- A run of `Instance_Unpack` on any bytes stays inside the buffer if each of its calls finds
what it trusts the buffer to hold: a string its terminator, a datetime and an array of datetimes
their bytes, an array of strings a table without an entry below the first and a terminator behind
every string, an element one of the known types. Apart from the string arrays each event that
stays inside satisfies its condition. -/
theorem unpackInstance_inside_iff (base : Nat) (decides : List Event → Bool) (fuel offset : Nat)
    {data : List UInt8} (small : data.length < 2 ^ 32) :
    let log := (unpackInstance base decides fuel ⟨data, offset, []⟩).2.log
    ((∀ e ∈ log, e.Sound) → ∀ e ∈ log, e.Inside base) ∧
      ∀ e ∈ log, e.Exact → (e.Inside base ↔ e.Sound) := by
  intro log
  have faithful : Session.Faithful base data.length ⟨data, offset, []⟩ := ⟨rfl, by simp⟩
  have keeps : Keeps base data.length (unpackInstance base decides fuel) :=
    keeps_unpackInstance small fuel
  have returned := (keeps _ faithful).2
  have each : ∀ e ∈ log, (e.Sound → e.Inside base) ∧ (e.Exact → e.Inside base → e.Sound) := by
    intro e member
    cases e with
    | lookup type => exact ⟨id, fun _ => id⟩
    | call c before position =>
      obtain ⟨same, d, done⟩ := returned _ member
      obtain ⟨-, inside, exact⟩ := c.inside (same ▸ small) done
      refine ⟨fun sound d' again => ?_, fun other stays => exact other (stays d done)⟩
      cases done.symm.trans again
      exact inside sound
  exact ⟨fun sound e member => (each e member).1 (sound e member),
    fun e member other => ⟨(each e member).2 other, (each e member).1⟩⟩

/-- The packed form of the start of an instance of the class `A`, up to the number of elements. -/
def header (numProperties : Nat) : List UInt8 :=
  leBytes 4 instanceMagic ++ leBytes 4 0 ++ leBytes 4 2 ++ [65, 0, 0, 0] ++ leBytes 4 0 ++
    leBytes 4 numProperties

/-- The packed form of an element with a name of one letter, up to its value. -/
def elementHeader (letter : UInt8) (type : MiType) : List UInt8 :=
  leBytes 4 0 ++ leBytes 4 2 ++ [letter, 0, 0, 0] ++ leBytes 4 type.code ++ leBytes 4 1

/-- The packed form of an instance with a datetime and an array of strings. -/
def packedInstance : List UInt8 :=
  header 2 ++ elementHeader 68 (.scalar (.plain .datetime)) ++ leBytes 36 0 ++
    elementHeader 83 (.array .string) ++ leBytes 4 1 ++ leBytes 8 0 ++ leBytes 8 2 ++
    [120, 0, 0, 0] ++ leBytes 4 endMagic

/-- The buffer after the array of strings: the table holds pointers. -/
def unpackedStrings : List UInt8 :=
  overwrite packedInstance 104 (leBytes 8 120 ++ leBytes 8 122)

theorem unpackInstance_inside_packed :
    packedInstance.length < 2 ^ 32 ∧
      (unpackInstance 0 (fun _ => true) 1 ⟨packedInstance, 0, []⟩).1 = .ok () ∧
      ∀ e ∈ (unpackInstance 0 (fun _ => true) 1 ⟨packedInstance, 0, []⟩).2.log, e.Inside 0 := by
  have small : packedInstance.length < 2 ^ 32 := by decide +kernel
  refine ⟨small, by decide +kernel, ?_⟩
  refine (unpackInstance_inside_iff 0 (fun _ => true) 1 0 small).1 ?_
  have log : (unpackInstance 0 (fun _ => true) 1 ⟨packedInstance, 0, []⟩).2.log =
      [.call (.scalar 4) packedInstance 0, .call (.scalar 4) packedInstance 4,
        .call .string packedInstance 8, .call .string packedInstance 14,
        .call (.scalar 4) packedInstance 20,
        .call (.scalar 4) packedInstance 24, .call .string packedInstance 28,
        .call (.scalar 4) packedInstance 34, .call (.scalar 1) packedInstance 40,
        .call .datetime packedInstance 41, .lookup 12,
        .call (.scalar 4) packedInstance 80, .call .string packedInstance 84,
        .call (.scalar 4) packedInstance 90, .call (.scalar 1) packedInstance 96,
        .call .stringA packedInstance 97, .lookup 29,
        .call (.scalar 4) unpackedStrings 122] := by
    decide +kernel
  have strings : Call.stringA.Sound packedInstance 97 := by
    intro size table found aligned
    have read : unpackScalar packedInstance 4 97 =
      some ⟨1, [(100, 4)], [], packedInstance, 104⟩ := by decide +kernel
    cases read.symm.trans found
    have start : alignTo packedInstance 8 104 = some 104 := by decide +kernel
    cases start.symm.trans aligned
    have positions : stringPositions 120 (tableWords packedInstance 104 1) = [120, 122] := by
      decide +kernel
    change (∀ position ∈ stringPositions 120 (tableWords packedInstance 104 1), (120 : Int) ≤ position) ∧
      ∀ position ∈ (stringPositions 120 (tableWords packedInstance 104 1)).take 1, _
    rw [positions]
    refine ⟨by decide, ?_⟩
    simp only [take_succ_cons, take_zero, mem_singleton, forall_eq]
    exact ⟨121, by decide, by decide +kernel⟩
  have string (offset value k : Nat) (read : unpackScalar packedInstance 4 offset =
        some ⟨value, [(offset, 4)], [], packedInstance, offset + 4⟩)
      (ends : value ≠ 0 → offset + 4 ≤ k ∧ k < offset + 4 + value ∧ packedInstance[k]? = some 0) :
      Call.string.Sound packedInstance offset :=
    (sized_iff read).mpr fun nonzero => ⟨k, ends nonzero⟩
  rw [log]
  simp only [forall_mem_cons]
  refine ⟨trivial, trivial, string 8 2 13 (by decide +kernel) (by decide +kernel), ?_,
    trivial, trivial, string 28 2 33 (by decide +kernel) (by decide +kernel), trivial, trivial,
    (by decide +kernel : aligned 4 41 + 36 ≤ packedInstance.length), (by decide : 12 < 32),
    trivial, string 84 2 89 (by decide +kernel) (by decide +kernel), trivial, trivial,
    strings, (by decide : 29 < 32), trivial, by simp⟩
  have none_ : unpackScalar packedInstance 4 14 =
    some ⟨0, [(16, 4)], [], packedInstance, 20⟩ := by decide +kernel
  exact (sized_iff none_).mpr fun nonzero => absurd rfl nonzero

/-- An instance whose only element is an array of 16 datetimes, with none of them. -/
def datetimesMissing : List UInt8 :=
  header 1 ++ elementHeader 68 (.array (.plain .datetime)) ++ leBytes 4 16

/-- The datetimes are handed on although they are behind the buffer; a string of one byte has no
terminator; the second string of an array starts before the buffer; and the end of an array whose
difference overflows is behind the buffer. -/
theorem unpackInstance_leaves_buffer :
    (∃ e ∈ (unpackInstance 0 (fun _ => true) 1 ⟨datetimesMissing, 0, []⟩).2.log, ¬ e.Inside 0) ∧
      (∃ d, Call.string.perform (leBytes 4 1 ++ [65]) 0 0 = some d ∧ ¬ d.Inside) ∧
      ((Call.stringA.perform (leBytes 8 2 ++ leBytes 8 100 ++ leBytes 8 0 ++ leBytes 8 100) 0 0).map
        (·.strings) = some [(32, 32), (-68, 32)]) ∧
      ((Call.stringA.perform (leBytes 8 1 ++ leBytes 8 (2 ^ 64 - 1001) ++ leBytes 8 (2 ^ 63 - 1) ++
        leBytes 8 0) 0 0).map (·.offset) = some 1024) := by
  have logged : .call .datetimeA datetimesMissing 41 ∈
      (unpackInstance 0 (fun _ => true) 1 ⟨datetimesMissing, 0, []⟩).2.log := by decide +kernel
  have missing : Call.datetimeA.perform datetimesMissing 0 41 =
      some ⟨16, [(48, 576), (44, 4)], [], datetimesMissing, 624⟩ := by decide +kernel
  have open_ : Call.string.perform (leBytes 4 1 ++ [65]) 0 0 =
      some ⟨1, [(4, 1), (0, 4)], [(4, 5)], leBytes 4 1 ++ [65], 5⟩ := by decide
  refine ⟨⟨_, logged, fun inside => ?_⟩, ⟨_, open_, fun inside => ?_⟩, by decide, by decide⟩
  · exact absurd (inside _ missing).1 (by decide +kernel)
  · obtain ⟨-, k, below, above, null⟩ := inside.2.2 _ mem_cons_self
    have only : k = 4 := by
      omega
    subst only
    exact absurd null (by decide)

end Omi.Base.Bounds
