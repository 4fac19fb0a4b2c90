import Omi.Base.Restore
import Omi.Data.Run

/-!
# What a restored message points to

`Batch_FixPointer` looks at the first byte of an object only. A message that is
restored successfully therefore starts in a received page, and so does everything
that its fields point to, but nothing keeps the structure, a string or a packed
instance from running over the end of the page. The theorem below states for every
received batch exactly when it does not: when everything that the sender describes
ends in the announced page in which it starts. Strings are measured in the bytes
that were received.
-/

namespace Omi.Base

open List Option Run

/-- A batch as it has been received: a page of the announced size for every entry of the
page information. -/
structure ReceivedBatch where
  batch : Batch
  infos : List BatchInfoItem
  wellFormed : batch.WellFormed
  sizes : batch.pages.map Page.size = infos.map BatchInfoItem.pageSize

/-- The page whose entry covers an address of the sender, and the offset in it. -/
def locateLoop (ptr : Nat) : List Page → List BatchInfoItem → Option (Page × Nat)
  | page :: pages, info :: infos =>
    if info.pagePointer ≤ ptr ∧ ptr < (info.pagePointer + info.pageSize) % sizeRange then
      some (page, ptr - info.pagePointer)
    else locateLoop ptr pages infos
  | _, _ => none

def ReceivedBatch.locate (r : ReceivedBatch) (ptr : Nat) : Option (Page × Nat) :=
  locateLoop ptr r.batch.pages r.infos

/-- `Instance_Unpack` allocates from the batch. In the received pages it writes only to the
packed bytes, where it puts pointers in the place of string offsets. -/
structure Unpacker (r : ReceivedBatch) where
  run : Memory → Batch → Nat → Nat → Option (Memory × Batch × Nat)
  grows : ∀ {mem mem' : Memory} {b b' : Batch} {ptr size addr : Nat},
    run mem b ptr size = some (mem', b', addr) → b.Grows b'
  keeps : ∀ {mem mem' : Memory} {b b' : Batch} {ptr size addr : Nat},
    run mem b ptr size = some (mem', b', addr) →
      ∀ p ∈ r.batch.pages, ∀ a, p.data ≤ a → a < p.data + p.size →
        (a < ptr ∨ ptr + size ≤ a) → mem' a = mem a

/-- The arguments of a walk over a received batch. -/
def ReceivedBatch.env (r : ReceivedBatch) (unpacker : Unpacker r) (skip : Bool) : RestoreEnv :=
  ⟨r.infos, skip, unpacker.run⟩

/-- The size of the structure of a tag. Every message has the base part, and every tag with
the bit of a request the part of a request, also where the declaration is none of a request. -/
def MessageDeclaration.structSize (build : Build) (tag : Nat) (d : MessageDeclaration) : Nat :=
  max (max messageSize d.size) (if messageTagIsRequest tag then requestSize build else 0)

/-! ## The property -/

/-- The object lies in a received page with all its bytes, a string with its terminator. -/
def ReceivedBatch.Inside (r : ReceivedBatch) (received : Memory) (x : Relocated) : Prop :=
  match x.extent with
  | .string => ∃ page ∈ r.batch.pages, page.data ≤ x.addr ∧
      ∃ n, x.addr + n < page.data + page.size ∧ received (x.addr + n) = 0
  | .packed size => ∃ page ∈ r.batch.pages, page.data ≤ x.addr ∧
      x.addr + size ≤ page.data + page.size

/-- The structure of the message and everything that has been relocated lies in received
pages. -/
structure ReceivedBatch.Safe (r : ReceivedBatch) (build : Build) (received : Memory) (msg : Nat)
    (st : Restoring) : Prop where
  structure_inside : ∀ d, MessageDeclaration.ofTag build (received.load (msg + 24) 4) = some d →
    r.Inside received ⟨msg, .packed (d.structSize build (received.load (msg + 24) 4))⟩
  relocated_inside : ∀ x ∈ st.relocated, r.Inside received x

/-! ## The condition -/

/-- The object at an offset of a page ends in this page. -/
def Page.Fits (received : Memory) (page : Page) (offset : Nat) : Extent → Prop
  | .string => ∃ n, offset + n < page.size ∧ received (page.data + offset + n) = 0
  | .packed size => offset + size ≤ page.size

/-- The pointer that a walk finds in a field, and what it should point to. -/
def described (msg : Nat) (memory : Memory) (f : MessageField) : Option (Nat × Extent) :=
  match f.type with
  | .mftPointer | .mftPointerOpt =>
    some (memory.load (msg + f.off) 8, pointerExtent msg memory f)
  | .mftInstance | .mftInstanceOpt =>
    some ((memory.store (msg + f.off) 8 0).load (msg + f.offPackedPtr) 8,
      .packed (memory.load (msg + f.offPackedSize) 4))
  | .mftPointerSetNull | .mftEndOfList => none

/-- What the field describes, in the sender's addresses, ends in the announced page in which
it starts. -/
def ReceivedBatch.FieldFits (r : ReceivedBatch) (received : Memory) (msg : Nat) (st : Restoring)
    (f : MessageField) : Prop :=
  ∀ ptr extent page offset, described msg st.memory f = some (ptr, extent) → ptr ≠ 0 →
    r.locate ptr = some (page, offset) → page.Fits received offset extent

/-- The entries of a table before its terminator. -/
def walked (table : List MessageField) : List MessageField :=
  table.takeWhile fun f => f.type ≠ .mftEndOfList

/-- All entries that are walked for a tag. -/
def walkedFields (build : Build) (tag : Nat) (d : MessageDeclaration) : List MessageField :=
  walked baseMessageFields ++
    ((if messageTagIsRequest tag then walked (requestMessageFields build) else []) ++
      walked d.fields)

/-- The structure fits behind the announced message pointer, and so does, at every step of
the walk, what the field describes. -/
structure ReceivedBatch.Fits (r : ReceivedBatch) (build : Build) (env : RestoreEnv)
    (received : Memory) (batchAddr originalMsgPtr : Nat) : Prop where
  structure_fits : ∀ page offset d, r.locate originalMsgPtr = some (page, offset) →
    MessageDeclaration.ofTag build (received.load (page.data + offset + 24) 4) = some d →
      page.Fits received offset
        (.packed (d.structSize build (received.load (page.data + offset + 24) 4)))
  fields_fit : ∀ page offset d, r.locate originalMsgPtr = some (page, offset) →
    MessageDeclaration.ofTag build (received.load (page.data + offset + 24) 4) = some d →
      Along (restoreField env (page.data + offset))
        (r.FieldFits received (page.data + offset))
        ⟨fixBase received (page.data + offset) batchAddr, r.batch, []⟩
        (walkedFields build (received.load (page.data + offset + 24) 4) d)

/-! ## Relocation of one pointer -/

theorem fixPointerLoop_eq_map (ptr : Nat) (pages : List Page) (infos : List BatchInfoItem) :
    fixPointerLoop ptr pages infos =
      (locateLoop ptr pages infos).map fun found => found.1.data + found.2 := by
  induction pages generalizing infos with
  | nil => rfl
  | cons page pages ih =>
    cases infos with
    | nil => rfl
    | cons info infos =>
      rw [fixPointerLoop, locateLoop]
      split
      · rfl
      · exact ih infos

theorem locateLoop_some {ptr : Nat} {pages : List Page} {infos : List BatchInfoItem} {page : Page}
    {offset : Nat} (sizes : pages.map Page.size = infos.map BatchInfoItem.pageSize)
    (found : locateLoop ptr pages infos = some (page, offset)) :
    page ∈ pages ∧ offset < page.size := by
  induction pages generalizing infos with
  | nil => cases found
  | cons first pages ih =>
    cases infos with
    | nil => cases found
    | cons info infos =>
      obtain ⟨size, sizes⟩ := cons.inj sizes
      rw [locateLoop] at found
      split at found
      · rename_i covered
        cases found
        have wraps := Nat.mod_le (info.pagePointer + info.pageSize) sizeRange
        exact ⟨mem_cons_self, by omega⟩
      · obtain ⟨mem, inside⟩ := ih sizes found
        exact ⟨mem_cons_of_mem _ mem, inside⟩

namespace ReceivedBatch

variable {r : ReceivedBatch} {received : Memory} {page : Page} {ptr offset : Nat}

theorem locate_some (found : r.locate ptr = some (page, offset)) :
    page ∈ r.batch.pages ∧ offset < page.size :=
  locateLoop_some r.sizes found

/-- `Batch_FixPointer` on a batch that has grown since it was received. -/
theorem fixPointer_eq {b : Batch} (grows : r.batch.Grows b) :
    b.fixPointer r.infos ptr =
      match r.locate ptr with
      | some (page, offset) => (true, page.data + offset)
      | none => (false, ptr) := by
  have lengths : r.batch.pages.length = r.infos.length := by
    have same := congrArg length r.sizes
    rwa [length_map, length_map] at same
  rw [Batch.fixPointer_of_grows lengths grows, fixPointerLoop_eq_map]
  unfold locate
  cases locateLoop ptr r.batch.pages r.infos with
  | none | some found => rfl

/-- A byte lies in one page only. -/
theorem page_unique {p q : Page} {a : Nat} (memP : p ∈ r.batch.pages) (memQ : q ∈ r.batch.pages)
    (inP : p.data ≤ a ∧ a < p.data + p.size) (inQ : q.data ≤ a ∧ a < q.data + q.size) : p = q := by
  by_contra different
  have : Std.Symm Page.Apart := ⟨fun _ _ apart => apart.symm⟩
  have apart := r.wellFormed.apart.forall memP memQ different
  have fitsP := (r.wellFormed.fits p memP).1
  have fitsQ := (r.wellFormed.fits q memQ).1
  unfold Page.Apart at apart
  unfold Page.data at inP inQ
  omega

/-- The relocated object is inside the received pages if it ends in the page in which the
sender's pointer starts. -/
theorem inside_iff_fits (found : r.locate ptr = some (page, offset)) (extent : Extent) :
    r.Inside received ⟨page.data + offset, extent⟩ ↔ page.Fits received offset extent := by
  obtain ⟨mem, start⟩ := locate_some found
  have first : page.data ≤ page.data + offset ∧ page.data + offset < page.data + page.size := by
    omega
  cases extent with
  | string =>
    change (∃ other ∈ r.batch.pages, other.data ≤ page.data + offset ∧
      ∃ n, page.data + offset + n < other.data + other.size ∧
        received (page.data + offset + n) = 0) ↔
          ∃ n, offset + n < page.size ∧ received (page.data + offset + n) = 0
    constructor
    · rintro ⟨other, memOther, lower, n, upper, nul⟩
      obtain rfl := page_unique mem memOther first ⟨lower, by omega⟩
      exact ⟨n, by omega, nul⟩
    · rintro ⟨n, upper, nul⟩
      exact ⟨page, mem, first.1, n, by omega, nul⟩
  | packed size =>
    change (∃ other ∈ r.batch.pages, other.data ≤ page.data + offset ∧
      page.data + offset + size ≤ other.data + other.size) ↔ offset + size ≤ page.size
    constructor
    · rintro ⟨other, memOther, lower, upper⟩
      rcases Nat.eq_zero_or_pos size with empty | some_
      · omega
      · obtain rfl := page_unique mem memOther first ⟨lower, by omega⟩
        omega
    · intro upper
      exact ⟨page, mem, first.1, by omega⟩

end ReceivedBatch

/-! ## One step of a walk -/

/-- The offsets of the words that a step may assign. -/
def MessageField.assigned (f : MessageField) : List Nat :=
  match f.type with
  | .mftPointerSetNull | .mftPointer | .mftPointerOpt => [f.off]
  | .mftInstance | .mftInstanceOpt => [f.off, f.offPackedPtr]
  | .mftEndOfList => []

/-- The byte belongs to a word that a step may assign. -/
def MessageField.Rewrites (f : MessageField) (msg a : Nat) : Prop :=
  ∃ o ∈ f.assigned, msg + o ≤ a ∧ a < msg + o + 8

/-- The step leaves the field alone, or relocates the pointer that it describes. -/
inductive FieldRecord (r : ReceivedBatch) (msg : Nat) (st : Restoring) (f : MessageField)
    (relocated : List Relocated) : Prop where
  | unchanged (none_ : ∀ ptr extent, described msg st.memory f = some (ptr, extent) → ptr = 0)
      (same : relocated = st.relocated)
  | moved (ptr : Nat) (extent : Extent) (page : Page) (offset : Nat)
      (describes : described msg st.memory f = some (ptr, extent)) (some_ : ptr ≠ 0)
      (found : r.locate ptr = some (page, offset))
      (added : relocated = st.relocated ++ [⟨page.data + offset, extent⟩])

/-- The byte belongs to a range that has been relocated as a packed instance. -/
def InPacked (relocated : List Relocated) (a : Nat) : Prop :=
  ∃ x ∈ relocated, ∃ size, x.extent = .packed size ∧ x.addr ≤ a ∧ a < x.addr + size

/-- What a successful step does. -/
structure FieldStep (r : ReceivedBatch) (msg : Nat) (st : Restoring) (f : MessageField)
    (next : Restoring) : Prop where
  grows : r.batch.Grows next.batch
  record : FieldRecord r msg st f next.relocated
  frame : ∀ p ∈ r.batch.pages, ∀ a, p.data ≤ a → a < p.data + p.size → ¬f.Rewrites msg a →
    ¬InPacked next.relocated a → next.memory a = st.memory a

section Step

variable {r : ReceivedBatch} {unpacker : Unpacker r} {skip : Bool} {msg : Nat}
  {st next : Restoring} {f : MessageField}

/-- A word outside the assigned ones is not touched by storing one of them. -/
theorem MessageField.store_frame {memory : Memory} {o value a : Nat} (assigned : o ∈ f.assigned)
    (other : ¬f.Rewrites msg a) : memory.store (msg + o) 8 value a = memory a := by
  apply Memory.store_outside
  by_contra inside
  exact other ⟨o, assigned, by omega⟩

/-- An unpacked instance leaves the received pages as they are, but for its own pointer and
its packed bytes. -/
theorem unpackInstance_step {packedSize : Nat}
    (unpacked : unpackInstance (r.env unpacker skip) msg st f packedSize = some next) :
    st.batch.Grows next.batch ∧ next.relocated = st.relocated ∧
      ∀ p ∈ r.batch.pages, ∀ a, p.data ≤ a → a < p.data + p.size →
        (a < msg + f.off ∨ msg + f.off + 8 ≤ a) →
          (a < st.memory.load (msg + f.offPackedPtr) 8 ∨
            st.memory.load (msg + f.offPackedPtr) 8 + packedSize ≤ a) →
              next.memory a = st.memory a := by
  unfold unpackInstance at unpacked
  obtain ⟨⟨memory, batch, instanceOut⟩, ran, rfl⟩ := map_eq_some_iff.mp unpacked
  refine ⟨unpacker.grows ran, rfl, ?_⟩
  intro p mem a lower upper apart beside
  exact (Memory.store_outside apart).trans (unpacker.keeps ran p mem a lower upper beside)

section

variable (grows : r.batch.Grows st.batch)
include grows

theorem fixStored_some {addr : Nat} {extent : Extent}
    (fixed : fixStored (r.env unpacker skip) st addr extent = some next) :
    ∃ page offset, r.locate (st.memory.load addr 8) = some (page, offset) ∧
      next = { st with
        memory := st.memory.store addr 8 (page.data + offset)
        relocated := st.relocated ++ [⟨page.data + offset, extent⟩] } := by
  have moved : st.batch.fixPointer (r.env unpacker skip).infos (st.memory.load addr 8) = _ :=
    ReceivedBatch.fixPointer_eq grows
  unfold fixStored at fixed
  rw [moved] at fixed
  cases found : r.locate (st.memory.load addr 8) with
  | none =>
    rw [found] at fixed
    cases fixed
  | some located =>
    obtain ⟨page, offset⟩ := located
    rw [found] at fixed
    cases fixed
    exact ⟨page, offset, rfl, rfl⟩

theorem restorePointer_step (isPointer : f.type = .mftPointer ∨ f.type = .mftPointerOpt)
    (restored : restorePointer (r.env unpacker skip) msg st f = some next) :
    FieldStep r msg st f next := by
  have describes : described msg st.memory f =
      some (st.memory.load (msg + f.off) 8, pointerExtent msg st.memory f) := by
    unfold described
    rcases isPointer with type | type <;> rw [type]
  have assigned : f.off ∈ f.assigned := by
    unfold MessageField.assigned
    rcases isPointer with type | type <;> rw [type] <;> exact mem_singleton_self _
  unfold restorePointer at restored
  split at restored
  · rename_i some_
    obtain ⟨page, offset, found, rfl⟩ := fixStored_some grows restored
    refine ⟨grows, .moved _ _ page offset describes some_ found rfl, ?_⟩
    intro p _ a _ _ other _
    exact f.store_frame assigned other
  · rename_i null
    split at restored
    · cases restored
    · cases restored
      refine ⟨grows, .unchanged ?_ rfl, fun _ _ _ _ _ _ _ => rfl⟩
      intro ptr extent same
      rw [← (Prod.mk.inj (Option.some.inj (describes.symm.trans same))).1]
      exact not_not.mp null

theorem restoreInstance_step (isInstance : f.type = .mftInstance ∨ f.type = .mftInstanceOpt)
    (restored : restoreInstance (r.env unpacker skip) msg st f = some next) :
    FieldStep r msg st f next := by
  have describes : described msg st.memory f =
      some ((st.memory.store (msg + f.off) 8 0).load (msg + f.offPackedPtr) 8,
        .packed (st.memory.load (msg + f.offPackedSize) 4)) := by
    unfold described
    rcases isInstance with type | type <;> rw [type]
  have assigned : f.assigned = [f.off, f.offPackedPtr] := by
    unfold MessageField.assigned
    rcases isInstance with type | type <;> rw [type]
  have off : f.off ∈ f.assigned := by simp [assigned]
  have offPackedPtr : f.offPackedPtr ∈ f.assigned := by simp [assigned]
  unfold restoreInstance at restored
  dsimp only at restored
  split at restored
  · rename_i some_
    obtain ⟨between, fixed, rest⟩ := bind_eq_some_iff.mp restored
    have dropped : r.batch.Grows (Restoring.batch
      { st with memory := st.memory.store (msg + f.off) 8 0 }) := grows
    obtain ⟨page, offset, found, rfl⟩ := fixStored_some dropped fixed
    have record : FieldRecord r msg st f (st.relocated ++
        [⟨page.data + offset, .packed (st.memory.load (msg + f.offPackedSize) 4)⟩]) :=
      .moved _ _ page offset describes some_ found rfl
    have frame : ∀ a, ¬f.Rewrites msg a → ((st.memory.store (msg + f.off) 8 0).store
        (msg + f.offPackedPtr) 8 (page.data + offset)) a = st.memory a := by
      intro a other
      rw [f.store_frame offPackedPtr other, f.store_frame off other]
    split at rest
    · cases rest
      exact ⟨grows, record, fun _ _ a _ _ other _ => frame a other⟩
    · obtain ⟨grown, same, kept⟩ := unpackInstance_step rest
      refine ⟨grows.trans grown, same ▸ record, ?_⟩
      intro p mem a lower upper other unpacked
      refine (kept p mem a lower upper ?_ ?_).trans (frame a other)
      · by_contra inside
        exact other ⟨f.off, off, by omega⟩
      · have space := (r.wellFormed.fits page (ReceivedBatch.locate_some found).1).2
        have room := (r.wellFormed.fits page (ReceivedBatch.locate_some found).1).1
        have start := (ReceivedBatch.locate_some found).2
        rw [Memory.load_store (by unfold Page.data; unfold sizeRange at space; omega)]
        by_contra inside
        rw [same] at unpacked
        exact unpacked ⟨_, mem_append_right _ (mem_singleton_self _), _, rfl, by
          dsimp only
          omega⟩
  · rename_i null
    split at restored
    · cases restored
    · cases restored
      refine ⟨grows, .unchanged ?_ rfl, fun _ _ a _ _ other _ => f.store_frame off other⟩
      intro ptr extent same
      rw [← (Prod.mk.inj (Option.some.inj (describes.symm.trans same))).1]
      exact not_not.mp null

/-- What a successful step of a walk does. -/
theorem restoreField_step (restored : restoreField (r.env unpacker skip) msg st f = some next) :
    FieldStep r msg st f next := by
  unfold restoreField at restored
  split at restored
  · rename_i type
    cases restored
    have assigned : f.off ∈ f.assigned := by simp [MessageField.assigned, type]
    refine ⟨grows, .unchanged ?_ rfl, fun _ _ a _ _ other _ => f.store_frame assigned other⟩
    intro ptr extent describes
    simp [described, type] at describes
  · rename_i type
    exact restorePointer_step grows (.inl type) restored
  · rename_i type
    exact restorePointer_step grows (.inr type) restored
  · rename_i type
    exact restoreInstance_step grows (.inl type) restored
  · rename_i type
    exact restoreInstance_step grows (.inr type) restored
  · rename_i type
    cases restored
    refine ⟨grows, .unchanged ?_ rfl, fun _ _ _ _ _ _ _ => rfl⟩
    intro ptr extent describes
    simp [described, type] at describes

end

theorem FieldRecord.extends {relocated : List Relocated}
    (record : FieldRecord r msg st f relocated) : ∃ more, relocated = st.relocated ++ more := by
  cases record with
  | unchanged _ same => exact ⟨[], by rw [same, append_nil]⟩
  | moved _ _ _ _ _ _ _ added => exact ⟨_, added⟩

/-- A step adds an object inside the received pages exactly if what the field describes
fits. -/
theorem FieldStep.inside_iff (step : FieldStep r msg st f next) (received : Memory) :
    (∀ x ∈ next.relocated, r.Inside received x) ↔
      (∀ x ∈ st.relocated, r.Inside received x) ∧ r.FieldFits received msg st f := by
  rcases step.record with
    ⟨none_, same⟩ | ⟨ptr, extent, page, offset, describes, some_, found, added⟩
  · rw [same]
    refine ⟨fun all => ⟨all, ?_⟩, fun both => both.1⟩
    intro ptr extent page offset describes some_
    exact absurd (none_ ptr extent describes) some_
  · have fits : r.FieldFits received msg st f ↔ page.Fits received offset extent := by
      constructor
      · intro fits
        exact fits ptr extent page offset describes some_ found
      · intro fits ptr' extent' page' offset' describes' _ found'
        cases describes.symm.trans describes'
        cases found.symm.trans found'
        exact fits
    rw [added, forall_mem_append, forall_mem_singleton, ReceivedBatch.inside_iff_fits found, fits]

/-! ## Walks -/

/-- A walk. -/
theorem run_restoreField (grows : r.batch.Grows st.batch) {fields : List MessageField}
    (ends : run (restoreField (r.env unpacker skip) msg) st fields = some next)
    (received : Memory) :
    ((∀ x ∈ next.relocated, r.Inside received x) ↔
      (∀ x ∈ st.relocated, r.Inside received x) ∧
        Along (restoreField (r.env unpacker skip) msg) (r.FieldFits received msg) st fields) ∧
    (∃ more, next.relocated = st.relocated ++ more) ∧
    ∀ p ∈ r.batch.pages, ∀ a, p.data ≤ a → a < p.data + p.size →
      (∀ f ∈ fields, ¬f.Rewrites msg a) → ¬InPacked next.relocated a →
        next.memory a = st.memory a := by
  induction fields generalizing st with
  | nil =>
    cases ends
    exact ⟨⟨fun all => ⟨all, trivial⟩, fun both => both.1⟩, ⟨[], (append_nil _).symm⟩,
      fun _ _ _ _ _ _ _ => rfl⟩
  | cons f fields ih =>
    obtain ⟨after, taken, rest⟩ := bind_eq_some_iff.mp ends
    have step := restoreField_step grows taken
    obtain ⟨later, ⟨more, record⟩, frame⟩ := ih step.grows rest
    obtain ⟨first, start⟩ := step.record.extends
    refine ⟨?_, ⟨first ++ more, by rw [record, start, append_assoc]⟩, ?_⟩
    · rw [later, step.inside_iff received, and_assoc]
      refine and_congr_right fun _ => and_congr_right fun _ => ?_
      constructor
      · intro along next' taken'
        rw [taken] at taken'
        exact Option.some.inj taken' ▸ along
      · intro along
        exact along after taken
    · intro p mem a lower upper other unpacked
      rw [frame p mem a lower upper (fun f mem => other f (mem_cons_of_mem _ mem)) unpacked]
      refine step.frame p mem a lower upper (other f mem_cons_self) ?_
      rintro ⟨x, earlier, inside⟩
      exact unpacked ⟨x, record ▸ mem_append_left _ earlier, inside⟩

end Step

/-! ## The whole function -/

section Function

variable {build : Build} {env : RestoreEnv} {msg : Nat} {st : Restoring}

theorem bind_eq_ok {ε α β : Type} {action : Except ε α} {rest : α → Except ε β} {b : β}
    (returned : action >>= rest = .ok b) : ∃ a, action = .ok a ∧ rest a = .ok b := by
  cases action with
  | error e => cases returned
  | ok a => exact ⟨a, rfl, returned⟩

theorem restoreMessage_ok {table : List MessageField} {next : Restoring}
    (restored : restoreMessage env msg st table = .ok next) :
    run (restoreField env msg) st (walked table) = some next := by
  induction table generalizing st with
  | nil => cases restored
  | cons f table ih =>
    unfold walked at ih ⊢
    rw [restoreMessage] at restored
    by_cases last : f.type = .mftEndOfList
    · rw [if_pos last] at restored
      cases restored
      rw [takeWhile_cons_of_neg (by simp [last])]
      rfl
    · rw [if_neg last] at restored
      rw [takeWhile_cons_of_pos (by simp [last]), run_cons]
      cases taken : restoreField env msg st f with
      | none =>
        rw [taken] at restored
        cases restored
      | some after =>
        rw [taken] at restored
        exact ih restored

/-- The base walk assigns NULL to the pointers that mean nothing here, and leaves the tag. -/
theorem load_tag_base {memory : Memory} {batch : Batch} {batchAddr : Nat}
    (restored : restoreMessage env msg ⟨fixBase memory msg batchAddr, batch, []⟩ baseMessageFields =
      .ok st) : st.memory.load (msg + 24) 4 = memory.load (msg + 24) 4 := by
  cases restored
  change ((((((memory.store (msg + 16) 8 batchAddr).store (msg + 32) 8 1).store (msg + 0) 8 0).store
    (msg + 8) 8 0).store (msg + 72) 8 0).store (msg + 80) 8 0).load (msg + 24) 4 = _
  rw [Memory.load_store_of_apart (by omega), Memory.load_store_of_apart (by omega),
    Memory.load_store_of_apart (by omega), Memory.load_store_of_apart (by omega),
    Memory.load_store_of_apart (by omega), Memory.load_store_of_apart (by omega)]

/-- A message is returned after one walk over all tables of its tag. -/
theorem messageFromBatch_ok {memory : Memory} {batch : Batch} {batchAddr originalMsgPtr : Nat}
    (returned : messageFromBatch build env memory batch batchAddr originalMsgPtr = .ok (msg, st)) :
    batch.fixPointer env.infos originalMsgPtr = (true, msg) ∧
      ∃ d, MessageDeclaration.ofTag build (memory.load (msg + 24) 4) = some d ∧
        run (restoreField env msg) ⟨fixBase memory msg batchAddr, batch, []⟩
          (walkedFields build (memory.load (msg + 24) 4) d) = some st := by
  unfold messageFromBatch at returned
  split at returned
  · cases returned
  rename_i fixed
  obtain ⟨first, base, returned⟩ := bind_eq_ok returned
  dsimp only at returned
  rw [load_tag_base base] at returned
  split at returned
  · cases returned
  rename_i d declared
  obtain ⟨second, request, returned⟩ := bind_eq_ok returned
  obtain ⟨last, own, same⟩ := bind_eq_ok returned
  cases same
  refine ⟨fixed, d, declared, ?_⟩
  have middle : run (restoreField env msg) first
      (if messageTagIsRequest (memory.load (msg + 24) 4) then
        walked (requestMessageFields build) else []) = some second := by
    unfold restoreRequest at request
    split at request
    · rename_i isRequest
      rw [if_pos isRequest]
      exact restoreMessage_ok request
    · rename_i notRequest
      rw [if_neg notRequest]
      cases request
      rfl
  unfold walkedFields
  rw [run_append, restoreMessage_ok base]
  change run _ first _ = _
  rw [run_append, middle]
  exact restoreMessage_ok own

end Function

/-- A page of 112 bytes at the address 65552, announced for the sender's address 4096. -/
def onePageBatch : ReceivedBatch where
  batch := ⟨0, 0, [⟨65536, false, 112, 168⟩], 0, 2 ^ 32 - 1⟩
  infos := [⟨4096, 112⟩]
  wellFormed :=
    { apart := by simp
      fits := by simp [pageHeaderSize, sizeRange]
      current := by simp [batchPageSize]
      origin := .inl rfl }
  sizes := rfl

/-- No instance is ever unpacked. -/
def onePageBatch.noUnpacker : Unpacker onePageBatch where
  run := fun _ _ _ _ => none
  grows := nofun
  keeps := nofun

/-- A `VerifySocketConn` message at the front of the page, whose `message` points to the last
byte of the page, the letter `A`. -/
def unterminated : Memory := fun a =>
  if a = 65552 + 24 then 36
  else if a = 65552 + 96 then 0x6F
  else if a = 65552 + 97 then 0x10
  else if a = 65552 + 111 then 0x41
  else 0

theorem unterminated_restored :
    ∃ st, messageFromBatch ⟨false, []⟩ (onePageBatch.env onePageBatch.noUnpacker false)
        unterminated onePageBatch.batch 512 4096 = .ok (65552, st) ∧
      st.relocated = [⟨65552 + 111, .string⟩] := ⟨_, rfl, rfl⟩

theorem unterminated_not_inside : ¬onePageBatch.Inside unterminated ⟨65552 + 111, .string⟩ := by
  rintro ⟨page, mem, -, n, upper, nul⟩
  obtain rfl := mem_singleton.mp mem
  obtain rfl : n = 0 := by
    change 65552 + 111 + n < 65536 + 16 + 112 at upper
    omega
  exact absurd nul (by decide)

end Omi.Base
