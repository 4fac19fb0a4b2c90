import Omi.Data.Bytes

/-!
# Packing into a growing buffer

A `Pack` appends to a buffer and an `Unpack` reads a buffer from an offset; both may
fail. `Agrees` relates the two: whatever was appended is read back from where it
starts, up to where it ends, no matter what is appended later. The relation is closed
under sequencing, so the codec of a record is verified by following its fields.
Padding bytes are never initialised and come from an arbitrary `garbage`.
-/

namespace Omi.Codec

open List Option

/-- Append to a buffer. -/
abbrev Pack := StateT (List UInt8) Option

/-- Read a buffer from an offset. -/
abbrev Unpack := ReaderT (List UInt8) (StateT Nat Option)

/-- A computation that reads nothing. -/
def check {α : Type} (result : Option α) : Unpack α := fun _ offset => result.map (·, offset)

/-- Run a reader a number of times. -/
def many {α : Type} (r : Unpack α) : Nat → Unpack (List α)
  | 0 => pure []
  | n + 1 => do
      let first ← r
      let rest ← many r n
      pure (first :: rest)

/-- What `w` appends is what `r` reads, with a result that satisfies `post`. -/
def Agrees {α : Type} (w : Pack Unit) (r : Unpack α) (post : α → Prop) : Prop :=
  ∀ buf out, w buf = some ((), out) →
    buf <+: out ∧ ∀ rest, ∃ v, r (out ++ rest) buf.length = some (v, out.length) ∧ post v

section Rules

variable {α β : Type} {w w' : Pack Unit} {r : Unpack α} {post : α → Prop} {post' : β → Prop}

theorem Agrees.nothing {v : α} (holds : post v) : Agrees (pure ()) (pure v) post := by
  intro buf out written
  cases written
  exact ⟨prefix_rfl, fun _ => ⟨v, rfl, holds⟩⟩

/-- A reader that first computes something from what is known. -/
theorem Agrees.after_check {v : α} {f : α → Unpack β} (agrees : Agrees w (f v) post') :
    Agrees w (check (some v) >>= f) post' := agrees

/-- A writer that fails agrees with every reader. -/
theorem Agrees.failure : Agrees (fun _ => none) r post := by
  intro buf out written
  cases written

theorem Agrees.weaken {weaker : α → Prop} (agrees : Agrees w r post)
    (implies : ∀ v, post v → weaker v) : Agrees w r weaker := by
  intro buf out written
  obtain ⟨extends_, reads⟩ := agrees buf out written
  refine ⟨extends_, fun rest => ?_⟩
  obtain ⟨v, read, holds⟩ := reads rest
  exact ⟨v, read, implies v holds⟩

/-- Two writers in sequence are read by two readers in sequence. -/
theorem Agrees.bind {f : α → Unpack β} (first : Agrees w r post)
    (second : ∀ v, post v → Agrees w' (f v) post') :
    Agrees (w >>= fun _ => w') (r >>= f) post' := by
  intro buf out written
  obtain ⟨⟨⟨⟩, middle⟩, begun, ended⟩ := bind_eq_some_iff.mp written
  obtain ⟨early, readFirst⟩ := first buf middle begun
  -- the second writer extends the buffer whatever the first reader returns
  obtain ⟨v₀, -, holds₀⟩ := readFirst []
  obtain ⟨late, -⟩ := second v₀ holds₀ middle out ended
  refine ⟨early.trans late, fun rest => ?_⟩
  obtain ⟨more, rfl⟩ := late
  obtain ⟨v, read, holds⟩ := readFirst (more ++ rest)
  obtain ⟨-, readSecond⟩ := second v holds middle _ ended
  obtain ⟨u, last, result⟩ := readSecond rest
  refine ⟨u, ?_, result⟩
  rw [← append_assoc] at read
  change ((r (middle ++ more ++ rest) buf.length).bind fun p => f p.1 _ p.2) = _
  rw [read]
  exact last

/-- A reader that goes on without consuming anything. -/
theorem Agrees.finish {f : α → Unpack β} (first : Agrees w r post)
    (second : ∀ v, post v → Agrees (pure ()) (f v) post') : Agrees w (r >>= f) post' := by
  have both := first.bind second
  have same : (w >>= fun _ => (pure () : Pack Unit)) = w := bind_pure w
  rwa [same] at both

theorem Agrees.map {f : α → β} (agrees : Agrees w r post)
    (implies : ∀ v, post v → post' (f v)) : Agrees w (r >>= fun v => pure (f v)) post' :=
  agrees.finish fun v holds => .nothing (implies v holds)

end Rules

/-! ## Bytes and padding -/

/-- The next multiple of `boundary`. -/
def alignUp (boundary n : Nat) : Nat := (n + (boundary - 1)) / boundary * boundary

variable {boundary limit : Nat}

theorem le_alignUp (positive : 0 < boundary) (n : Nat) : n ≤ alignUp boundary n := by
  have division := Nat.div_add_mod (n + (boundary - 1)) boundary
  have small := Nat.mod_lt (n + (boundary - 1)) positive
  unfold alignUp
  rw [Nat.mul_comm] at division
  omega

theorem alignUp_of_dvd {n : Nat} (positive : 0 < boundary) (aligned : boundary ∣ n) :
    alignUp boundary n = n := by
  obtain ⟨k, rfl⟩ := aligned
  unfold alignUp
  rw [Nat.mul_add_div positive, Nat.div_eq_of_lt (Nat.sub_lt positive Nat.one_pos), Nat.add_zero,
    Nat.mul_comm]

theorem dvd_alignUp (boundary n : Nat) : boundary ∣ alignUp boundary n :=
  Nat.dvd_mul_left _ _

/-- Append bytes to a buffer that holds at most `limit`. -/
def append (limit : Nat) (bytes : List UInt8) : Pack Unit := fun buf =>
  if buf.length + bytes.length ≤ limit then some ((), buf ++ bytes) else none

/-- Extend the buffer to a boundary. -/
def pad (limit : Nat) (garbage : Nat → UInt8) (boundary : Nat) : Pack Unit := fun buf =>
  append limit
    ((List.range (alignUp boundary buf.length - buf.length)).map fun i => garbage (buf.length + i))
    buf

/-- Read a number of bytes. -/
def take (n : Nat) : Unpack (List UInt8) := fun data offset =>
  if offset + n ≤ data.length then some ((data.drop offset).take n, offset + n) else none

/-- Move the offset to a boundary. -/
def align (boundary : Nat) : Unpack Unit := fun data offset =>
  if alignUp boundary offset ≤ data.length then some ((), alignUp boundary offset) else none

theorem append_some {bytes buf out : List UInt8} (written : append limit bytes buf = some ((), out)) :
    out = buf ++ bytes ∧ out.length ≤ limit := by
  unfold append at written
  split at written
  · rename_i fits
    cases written
    exact ⟨rfl, by rw [length_append]; exact fits⟩
  · cases written

theorem pad_some {garbage : Nat → UInt8} {buf out : List UInt8} (positive : 0 < boundary)
    (written : pad limit garbage boundary buf = some ((), out)) :
    buf <+: out ∧ out.length = alignUp boundary buf.length := by
  obtain ⟨rfl, -⟩ := append_some written
  refine ⟨prefix_append _ _, ?_⟩
  have grows := le_alignUp positive buf.length
  rw [length_append, length_map, length_range]
  omega

theorem agrees_append (limit : Nat) (bytes : List UInt8) :
    Agrees (append limit bytes) (take bytes.length) (· = bytes) := by
  intro buf out written
  obtain ⟨rfl, -⟩ := append_some written
  refine ⟨prefix_append _ _, fun rest => ⟨bytes, ?_, rfl⟩⟩
  unfold take
  rw [if_pos (by simp only [length_append]; omega), append_assoc, drop_left,
    take_left, length_append]

theorem agrees_pad (limit : Nat) (garbage : Nat → UInt8) (positive : 0 < boundary) :
    Agrees (pad limit garbage boundary) (align boundary) fun _ => True := by
  intro buf out written
  obtain ⟨extends_, length⟩ := pad_some positive written
  refine ⟨extends_, fun rest => ⟨(), ?_, trivial⟩⟩
  unfold align
  rw [if_pos (by rw [length_append]; omega), length]

/-! ## How much is written -/

/-- The writer appends at least `n` bytes. -/
def Grows (n : Nat) (w : Pack Unit) : Prop :=
  ∀ buf out, w buf = some ((), out) → buf.length + n ≤ out.length

section Growth

variable {n m : Nat} {w w' : Pack Unit}

theorem Grows.nothing : Grows 0 (pure ()) := by
  intro buf out written
  cases written
  exact Nat.le_refl _

theorem Grows.failure : Grows n (fun _ => none) := by
  intro buf out written
  cases written

theorem Grows.mono (grows : Grows n w) (less : m ≤ n) : Grows m w := by
  intro buf out written
  have bound := grows buf out written
  omega

theorem Grows.bind (first : Grows n w) (second : Grows m w') :
    Grows (n + m) (w >>= fun _ => w') := by
  intro buf out written
  obtain ⟨⟨⟨⟩, middle⟩, begun, ended⟩ := bind_eq_some_iff.mp written
  have early := first buf middle begun
  have late := second middle out ended
  omega

/-- What follows does not shrink the buffer. -/
theorem Grows.before (first : Grows 0 w) (second : Grows m w') : Grows m (w >>= fun _ => w') := by
  have both := first.bind second
  rwa [Nat.zero_add] at both

end Growth

theorem grows_append (limit : Nat) (bytes : List UInt8) :
    Grows bytes.length (append limit bytes) := by
  intro buf out written
  obtain ⟨rfl, -⟩ := append_some written
  apply Nat.le_of_eq
  rw [length_append]

theorem grows_pad (limit : Nat) (garbage : Nat → UInt8) (boundary : Nat) :
    Grows 0 (pad limit garbage boundary) := by
  intro buf out written
  obtain ⟨rfl, -⟩ := append_some written
  rw [length_append]
  exact Nat.le_add_right _ _

end Omi.Codec
