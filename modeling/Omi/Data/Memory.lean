import Omi.Data.Bytes

/-!
# Byte-addressed memory

A memory is a total function from addresses to bytes. `write` puts a byte string at an
address, `store` a little-endian word, and `bytesAt` and `load` read them back. A
write is felt inside its own range only, so everything that lies apart from it reads
as before.
-/

namespace Omi

open List Bytes

/-- The contents of an address space. -/
abbrev Memory := Nat → UInt8

namespace Memory

variable {mem mem' : Memory} {addr other width value n : Nat} {bytes : List UInt8}

/-- `memcpy` of a byte string to an address. -/
def write (mem : Memory) (addr : Nat) (bytes : List UInt8) : Memory := fun a =>
  if addr ≤ a ∧ a < addr + bytes.length then bytes.getD (a - addr) 0 else mem a

/-- The bytes from an address on. -/
def bytesAt (mem : Memory) (addr n : Nat) : List UInt8 :=
  (List.range n).map fun i => mem (addr + i)

/-- An unsigned word is assigned. -/
def store (mem : Memory) (addr width value : Nat) : Memory :=
  mem.write addr (leBytes width value)

/-- An unsigned word is read. -/
def load (mem : Memory) (addr width : Nat) : Nat := readLE (mem.bytesAt addr width) 0 width

@[simp] theorem length_bytesAt : (mem.bytesAt addr n).length = n := by
  unfold bytesAt
  rw [length_map, length_range]

theorem getElem?_bytesAt {i : Nat} (inside : i < n) :
    (mem.bytesAt addr n)[i]? = some (mem (addr + i)) := by
  unfold bytesAt
  rw [getElem?_map, getElem?_range inside]
  rfl

theorem write_outside (apart : other < addr ∨ addr + bytes.length ≤ other) :
    mem.write addr bytes other = mem other := by
  unfold write
  rw [if_neg (by omega)]

theorem store_outside (apart : other < addr ∨ addr + width ≤ other) :
    mem.store addr width value other = mem other := by
  apply write_outside
  rwa [length_leBytes]

/-- Reading depends on the bytes of the range only. -/
theorem bytesAt_congr (same : ∀ a, addr ≤ a → a < addr + n → mem a = mem' a) :
    mem.bytesAt addr n = mem'.bytesAt addr n := by
  unfold bytesAt
  apply map_congr_left
  intro i inside
  rw [mem_range] at inside
  exact same (addr + i) (Nat.le_add_right _ _) (by omega)

theorem load_congr (same : ∀ a, addr ≤ a → a < addr + width → mem a = mem' a) :
    mem.load addr width = mem'.load addr width := by
  unfold load
  rw [bytesAt_congr same]

theorem bytesAt_write : (mem.write addr bytes).bytesAt addr bytes.length = bytes := by
  apply ext_getElem?
  intro i
  rcases Nat.lt_or_ge i bytes.length with inside | behind
  · rw [getElem?_bytesAt inside, getElem?_eq_getElem inside]
    unfold write
    rw [if_pos (by omega), Nat.add_sub_cancel_left, getD_eq_getElem _ _ inside]
  · rw [getElem?_eq_none behind, getElem?_eq_none (by rwa [length_bytesAt])]

theorem load_store (fits : value < 256 ^ width) :
    (mem.store addr width value).load addr width = value := by
  have stored : (mem.store addr width value).bytesAt addr width = leBytes width value := by
    have written := @bytesAt_write mem addr (leBytes width value)
    rwa [length_leBytes] at written
  unfold load
  rw [stored]
  have read := readLE_leBytes fits []
  rwa [append_nil] at read

theorem load_store_of_apart {width' : Nat}
    (apart : other + width' ≤ addr ∨ addr + width ≤ other) :
    (mem.store addr width value).load other width' = mem.load other width' :=
  load_congr fun a _ _ => store_outside (by omega)

end Memory

end Omi
