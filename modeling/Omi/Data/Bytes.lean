import Mathlib

/-!
# Little-endian fields and byte buffers

Records travel as byte strings. `leBytes` writes an unsigned field of a given
width, `readLE` reads one from any position of a buffer, and `overwrite` is a copy
into a buffer. A buffer that has been filled from its start is `padded` with zeros
behind what has arrived, so a field reads as if its missing bytes were zero.
-/

namespace Omi.Bytes

open List

/-- The `width` low bytes of a number, least significant first. -/
def leBytes : Nat → Nat → List UInt8
  | 0, _ => []
  | width + 1, value => UInt8.ofNat value :: leBytes width (value / 256)

/-- The unsigned field of `width` bytes at a position; bytes behind the end read as zero. -/
def readLE (buffer : List UInt8) (position : Nat) : Nat → Nat
  | 0 => 0
  | width + 1 => (buffer.getD position 0).toNat + 256 * readLE buffer (position + 1) width

/-- Copy a chunk into a buffer. -/
def overwrite {α : Type} (buffer : List α) (position : Nat) (chunk : List α) : List α :=
  buffer.take position ++ chunk ++ buffer.drop (position + chunk.length)

/-- What has arrived, in a zeroed buffer of the given size. -/
def padded (size : Nat) (arrived : List UInt8) : List UInt8 :=
  arrived ++ List.replicate (size - arrived.length) 0

@[simp] theorem length_leBytes (width value : Nat) : (leBytes width value).length = width := by
  induction width generalizing value with
  | zero => rfl
  | succ width ih => rw [leBytes, length_cons, ih]

theorem readLE_lt (buffer : List UInt8) (position width : Nat) :
    readLE buffer position width < 256 ^ width := by
  induction width generalizing position with
  | zero => exact Nat.one_pos
  | succ width ih =>
    have low := (buffer.getD position 0).toNat_lt
    have high := ih (position + 1)
    rw [readLE, Nat.pow_succ]
    omega

variable {p width value position : Nat}

/-- A field depends on its own bytes only. -/
theorem readLE_congr {a b : List UInt8} {q : Nat}
    (same : ∀ i < width, a.getD (p + i) 0 = b.getD (q + i) 0) :
    readLE a p width = readLE b q width := by
  induction width generalizing p q with
  | zero => rfl
  | succ width ih =>
    have first := same 0 (Nat.succ_pos width)
    rw [Nat.add_zero, Nat.add_zero] at first
    rw [readLE, readLE, first, ih]
    intro i inside
    have next := same (i + 1) (Nat.succ_lt_succ inside)
    rw [show p + 1 + i = p + (i + 1) by omega, show q + 1 + i = q + (i + 1) by omega]
    exact next

/-- Larger bytes make a larger field. -/
theorem readLE_mono {a b : List UInt8} (larger : ∀ i, (a.getD i 0).toNat ≤ (b.getD i 0).toNat) :
    readLE a p width ≤ readLE b p width := by
  induction width generalizing p with
  | zero => exact Nat.le_refl 0
  | succ width ih =>
    have here := larger p
    have later := @ih (p + 1)
    rw [readLE, readLE]
    omega

theorem readLE_leBytes (fits : value < 256 ^ width) (rest : List UInt8) :
    readLE (leBytes width value ++ rest) 0 width = value := by
  induction width generalizing value with
  | zero =>
    have zero : value = 0 := by simpa using fits
    rw [zero, readLE]
  | succ width ih =>
    have high : value / 256 < 256 ^ width := by
      apply Nat.div_lt_of_lt_mul
      omega
    have shifted : readLE (leBytes (width + 1) value ++ rest) 1 width =
        readLE (leBytes width (value / 256) ++ rest) 0 width := by
      apply readLE_congr
      intro i _
      rw [leBytes, cons_append, Nat.zero_add, Nat.add_comm 1 i]
      rfl
    rw [readLE, Nat.zero_add, shifted, ih high, leBytes, cons_append]
    change (UInt8.ofNat value).toNat + _ = _
    rw [UInt8.toNat_ofNat']
    omega

/-- A field behind a known number of bytes. -/
theorem readLE_append (before : List UInt8) (fits : value < 256 ^ width) (rest : List UInt8)
    (here : position = before.length) :
    readLE (before ++ (leBytes width value ++ rest)) position width = value := by
  have shifted : readLE (before ++ (leBytes width value ++ rest)) position width =
      readLE (leBytes width value ++ rest) 0 width := by
    apply readLE_congr
    intro i _
    rw [here, getD_append_right _ _ _ _ (Nat.le_add_right _ _), Nat.add_sub_cancel_left,
      Nat.zero_add]
  rw [shifted, readLE_leBytes fits]

theorem length_overwrite {α : Type} {buffer chunk : List α}
    (fits : position + chunk.length ≤ buffer.length) :
    (overwrite buffer position chunk).length = buffer.length := by
  unfold overwrite
  rw [length_append, length_append, length_take, length_drop]
  omega

/-- A chunk copied behind what has arrived. -/
theorem overwrite_padded (size : Nat) (arrived chunk : List UInt8) :
    overwrite (padded size arrived) arrived.length chunk = padded size (arrived ++ chunk) := by
  unfold overwrite padded
  rw [take_left, drop_append, drop_eq_nil_of_le (Nat.le_add_right _ _),
    nil_append, drop_replicate, length_append, Nat.add_sub_cancel_left,
    Nat.sub_sub]

theorem getD_padded (size : Nat) (arrived : List UInt8) (i : Nat) :
    (padded size arrived).getD i 0 = arrived.getD i 0 := by
  unfold padded
  rcases Nat.lt_or_ge i arrived.length with inside | behind
  · rw [getD_append _ _ _ _ inside]
  · rw [getD_append_right _ _ _ _ behind, getD_eq_default _ _ behind]
    rcases Nat.lt_or_ge (i - arrived.length) (size - arrived.length) with zero | out
    · rw [getD_replicate _ zero]
    · rw [getD_eq_default]
      rw [length_replicate]
      exact out

/-- Fields grow while a zeroed buffer is filled. -/
theorem readLE_padded_le (size : Nat) (arrived chunk : List UInt8) (p width : Nat) :
    readLE (padded size arrived) p width ≤ readLE (padded size (arrived ++ chunk)) p width := by
  apply readLE_mono
  intro i
  rw [getD_padded, getD_padded]
  rcases Nat.lt_or_ge i arrived.length with inside | behind
  · apply Nat.le_of_eq
    rw [getD_append _ _ _ _ inside]
  · rw [getD_eq_default _ _ behind]
    exact Nat.zero_le _

end Omi.Bytes
