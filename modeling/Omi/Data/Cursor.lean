import Omi.Data.Bytes

/-!
# Cursors into a list of blocks

A vectored transfer moves a cursor, given by the index of a block and an offset in
it, over a list of blocks. `advance` is the bookkeeping after a transfer of `n`
elements and `fill` the effect of a scattering read. Both are related to the
concatenation of the blocks, in which a cursor is a single position, so that a
sequence of partial transfers composes like a sequence of slices.
-/

namespace Omi.Cursor

open List Bytes

variable {α : Type}

/-- Index steps and offset after `n` elements, from an offset in the first block. -/
def advance : List (List α) → Nat → Nat → Nat × Nat
  | [], offset, _ => (0, offset)
  | block :: blocks, offset, n =>
    if n = 0 then (0, offset)
    else if block.length - offset ≤ n then
      let rest := advance blocks 0 (n - (block.length - offset))
      (rest.1 + 1, rest.2)
    else (0, offset + n)

/-- The blocks after a chunk has been scattered over them, from an offset in the first. -/
def fill : List (List α) → Nat → List α → List (List α)
  | [], _, _ => []
  | block :: blocks, offset, chunk =>
    let room := block.length - offset
    overwrite block offset (chunk.take room) :: fill blocks 0 (chunk.drop room)

/-- The position of a cursor in the concatenation. -/
def position (blocks : List (List α)) (index offset : Nat) : Nat :=
  (blocks.take index).flatten.length + offset

/-- The cursor stands on an element, or behind the last block. -/
def OnElement (blocks : List (List α)) (index offset : Nat) : Prop :=
  (∃ block, blocks[index]? = some block ∧ offset < block.length) ∨
    (index = blocks.length ∧ offset = 0)

variable {block : List α} {blocks a b : List (List α)} {offset n index k : Nat}

theorem OnElement.offset_lt (start : OnElement (block :: blocks) 0 offset) :
    offset < block.length := by
  rcases start with ⟨first, found, below⟩ | ⟨none, -⟩
  · cases found
    exact below
  · cases none

/-- The start of a list of blocks without an empty one. -/
theorem onElement_zero (nonempty : ∀ block ∈ blocks, block ≠ []) : OnElement blocks 0 0 := by
  cases blocks with
  | nil => exact .inr ⟨rfl, rfl⟩
  | cons block blocks =>
    exact .inl ⟨block, rfl, length_pos_iff.mpr (nonempty block mem_cons_self)⟩

/-- Advancing by `n` moves the position by `n` and ends on an element again. -/
theorem advance_spec (nonempty : ∀ block ∈ blocks, block ≠ []) (start : OnElement blocks 0 offset)
    (room : offset + n ≤ blocks.flatten.length) :
    position blocks (advance blocks offset n).1 (advance blocks offset n).2 = offset + n ∧
      OnElement blocks (advance blocks offset n).1 (advance blocks offset n).2 := by
  induction blocks generalizing offset n with
  | nil =>
    have empty : offset + n = 0 := Nat.le_zero.mp room
    obtain ⟨rfl, rfl⟩ : offset = 0 ∧ n = 0 := by omega
    exact ⟨rfl, .inr ⟨rfl, rfl⟩⟩
  | cons block blocks ih =>
    have inside := start.offset_lt
    rw [flatten_cons, length_append] at room
    by_cases stop : n = 0
    · subst stop
      rw [advance, if_pos rfl]
      exact ⟨Nat.zero_add _, .inl ⟨block, rfl, inside⟩⟩
    by_cases whole : block.length - offset ≤ n
    · have others : ∀ b ∈ blocks, b ≠ [] :=
        fun b mem => nonempty b (mem_cons_of_mem _ mem)
      obtain ⟨moved, ends⟩ := ih others (n := n - (block.length - offset))
        (onElement_zero others) (by omega)
      rw [advance, if_neg stop, if_pos whole]
      dsimp only
      refine ⟨?_, ?_⟩
      · unfold position at moved ⊢
        rw [take_succ_cons, flatten_cons, length_append]
        omega
      · rcases ends with ⟨b, found, below⟩ | ⟨last, zero⟩
        · exact .inl ⟨b, found, below⟩
        · exact .inr ⟨congrArg Nat.succ last, zero⟩
    · rw [advance, if_neg stop, if_neg whole]
      exact ⟨Nat.zero_add _, .inl ⟨block, rfl, by dsimp only; omega⟩⟩

/-- Advancing stays within the blocks. -/
theorem advance_index_le (blocks : List (List α)) (offset n : Nat) :
    (advance blocks offset n).1 ≤ blocks.length := by
  induction blocks generalizing offset n with
  | nil => exact Nat.le_refl 0
  | cons block blocks ih =>
    rw [advance]
    split
    · exact Nat.zero_le _
    split
    · exact Nat.succ_le_succ (ih 0 _)
    · exact Nat.zero_le _

/-- The offset lies in the first block, if there is one. -/
def InFirst (blocks : List (List α)) (offset : Nat) : Prop :=
  ∀ block, blocks[0]? = some block → offset ≤ block.length

/-- After a transfer over the first `k` blocks the offset lies in its block, also when there
are empty blocks. -/
theorem advance_take_offset_le (k n : Nat) (start : InFirst blocks offset)
    (found : blocks[(advance (blocks.take k) offset n).1]? = some block) :
    (advance (blocks.take k) offset n).2 ≤ block.length := by
  induction blocks generalizing offset k n with
  | nil => cases found
  | cons first blocks ih =>
    have inside := start first rfl
    cases k with
    | zero =>
      cases found
      exact inside
    | succ k =>
      rw [take_succ_cons, advance] at found ⊢
      split
      · rename_i stop
        rw [if_pos stop] at found
        cases found
        exact inside
      rename_i go
      rw [if_neg go] at found
      split
      · rename_i whole
        rw [if_pos whole] at found
        exact ih k _ (fun _ _ => Nat.zero_le _) found
      · rename_i part
        rw [if_neg part] at found
        cases found
        omega

/-- Scattering keeps the size of every block. -/
theorem map_length_fill {chunk : List α} (start : InFirst blocks offset) :
    (fill blocks offset chunk).map List.length = blocks.map List.length := by
  induction blocks generalizing offset chunk with
  | nil => rfl
  | cons block blocks ih =>
    have inside := start block rfl
    have written : (overwrite block offset (chunk.take (block.length - offset))).length =
        block.length := by
      apply length_overwrite
      rw [length_take]
      omega
    rw [fill, map_cons, map_cons, written, ih (fun _ _ => Nat.zero_le _)]

/-- A copy that may run over the end of a first part. -/
theorem overwrite_append {first : List α} (second chunk : List α) (inside : offset ≤ first.length) :
    overwrite first offset (chunk.take (first.length - offset)) ++
        overwrite second 0 (chunk.drop (first.length - offset)) =
      overwrite (first ++ second) offset chunk := by
  unfold overwrite
  rw [take_zero, nil_append, Nat.zero_add, length_take, length_drop,
    take_append_of_le_length inside, drop_append]
  rcases Nat.le_total chunk.length (first.length - offset) with short | long
  · rw [take_of_length_le short, drop_eq_nil_of_le short, Nat.min_eq_right short,
      Nat.sub_eq_zero_of_le short, Nat.sub_eq_zero_of_le (by omega), drop_zero,
      nil_append, append_assoc (first.take offset ++ chunk)]
  · rw [Nat.min_eq_left long, Nat.add_sub_cancel' inside, drop_length, append_nil,
      drop_eq_nil_of_le (by omega : first.length ≤ offset + chunk.length), nil_append,
      show chunk.length - (first.length - offset) = offset + chunk.length - first.length by omega,
      append_assoc, ← append_assoc (chunk.take _), take_append_drop,
      ← append_assoc]

/-- Scattering writes the chunk into the concatenation. -/
theorem flatten_fill {chunk : List α} (start : OnElement blocks 0 offset)
    (nonempty : ∀ block ∈ blocks, block ≠ []) (room : offset + chunk.length ≤ blocks.flatten.length) :
    (fill blocks offset chunk).flatten = overwrite blocks.flatten offset chunk := by
  induction blocks generalizing offset chunk with
  | nil =>
    have empty : offset + chunk.length = 0 := Nat.le_zero.mp room
    obtain rfl : offset = 0 := by omega
    obtain rfl : chunk = [] := length_eq_zero_iff.mp (by omega)
    rfl
  | cons block blocks ih =>
    have inside := start.offset_lt
    have others : ∀ b ∈ blocks, b ≠ [] :=
      fun b mem => nonempty b (mem_cons_of_mem _ mem)
    rw [flatten_cons, length_append] at room
    have later := @ih 0 (chunk.drop (block.length - offset)) (onElement_zero others) others
      (by rw [length_drop]; omega)
    rw [fill, flatten_cons, later, flatten_cons]
    exact overwrite_append blocks.flatten chunk (Nat.le_of_lt inside)

/-! ## Windows -/

/-- What lies behind a cursor. -/
theorem drop_position (blocks : List (List α)) (index offset : Nat) :
    blocks.flatten.drop (position blocks index offset) =
      (blocks.drop index).flatten.drop offset := by
  unfold position
  conv_lhs => rw [← take_append_drop index blocks, flatten_append]
  rw [take_append_drop, drop_append, drop_eq_nil_of_le (Nat.le_add_right _ _),
    nil_append, Nat.add_sub_cancel_left]

theorem position_add (index steps offset : Nat) :
    position blocks (index + steps) offset =
      (blocks.take index).flatten.length + position (blocks.drop index) steps offset := by
  unfold position
  rw [take_add, flatten_append, length_append, Nat.add_assoc]

section

variable (on : OnElement blocks index offset)
include on

/-- A cursor before the end has elements behind it. -/
theorem OnElement.position_lt (before : index ≠ blocks.length) :
    position blocks index offset < blocks.flatten.length := by
  rcases on with ⟨block, found, below⟩ | ⟨last, -⟩
  · have split := drop_position blocks index 0
    obtain ⟨inside, rfl⟩ := List.getElem?_eq_some_iff.mp found
    have lengths := congrArg length split
    rw [length_drop, length_drop, drop_eq_getElem_cons inside, flatten_cons, length_append] at lengths
    unfold position at *
    omega
  · exact absurd last before

/-- A cursor behind the last block has nothing behind it. -/
theorem OnElement.position_eq (ended : index = blocks.length) :
    position blocks index offset = blocks.flatten.length := by
  rcases on with ⟨block, found, -⟩ | ⟨-, zero⟩
  · have inside := (List.getElem?_eq_some_iff.mp found).1
    omega
  · unfold position
    rw [zero, ended, take_length, Nat.add_zero]

/-- A cursor before the end leaves room in the blocks that start with its own. -/
theorem OnElement.offset_lt_window (before : index ≠ blocks.length) (wide : 0 < k) :
    offset < ((blocks.drop index).take k).flatten.length := by
  rcases on with ⟨block, found, below⟩ | ⟨last, -⟩
  · obtain ⟨inside, rfl⟩ := List.getElem?_eq_some_iff.mp found
    obtain ⟨k, rfl⟩ := Nat.exists_eq_succ_of_ne_zero (Nat.ne_of_gt wide)
    rw [drop_eq_getElem_cons inside, take_succ_cons, flatten_cons, length_append]
    omega
  · exact absurd last before

theorem OnElement.index_le : index ≤ blocks.length := by
  rcases on with ⟨block, found, -⟩ | ⟨last, -⟩
  · exact Nat.le_of_lt (List.getElem?_eq_some_iff.mp found).1
  · exact Nat.le_of_eq last

/-- The same cursor, counted from its own block on. -/
theorem OnElement.drop : OnElement (blocks.drop index) 0 offset := by
  rcases on with ⟨block, found, below⟩ | ⟨last, zero⟩
  · refine .inl ⟨block, ?_, below⟩
    rw [getElem?_drop, Nat.add_zero]
    exact found
  · refine .inr ⟨?_, zero⟩
    rw [last, drop_length, length_nil]

end

theorem OnElement.inFirst (on : OnElement blocks 0 offset) : InFirst blocks offset := by
  intro block found
  rcases on with ⟨first, here, below⟩ | ⟨-, zero⟩
  · cases here.symm.trans found
    exact Nat.le_of_lt below
  · rw [zero]
    exact Nat.zero_le _

/-- A transfer over the first `k` blocks from a cursor on. -/
theorem advance_window (nonempty : ∀ block ∈ blocks, block ≠ []) (wide : 0 < k)
    (start : OnElement blocks index offset)
    (room : offset + n ≤ ((blocks.drop index).take k).flatten.length) :
    position blocks (index + (advance ((blocks.drop index).take k) offset n).1)
        (advance ((blocks.drop index).take k) offset n).2 =
          position blocks index offset + n ∧
      OnElement blocks (index + (advance ((blocks.drop index).take k) offset n).1)
        (advance ((blocks.drop index).take k) offset n).2 := by
  have some_ : ∀ block ∈ (blocks.drop index).take k, block ≠ [] :=
    fun block mem => nonempty block (mem_of_mem_drop (mem_of_mem_take mem))
  have begins : OnElement ((blocks.drop index).take k) 0 offset := by
    rcases start.drop with ⟨block, found, below⟩ | ⟨last, zero⟩
    · refine .inl ⟨block, ?_, below⟩
      rw [getElem?_take_of_lt wide]
      exact found
    · refine .inr ⟨?_, zero⟩
      rw [length_take, ← last, Nat.min_zero]
  obtain ⟨moved, ends⟩ := advance_spec some_ begins room
  have steps := advance_index_le ((blocks.drop index).take k) offset n
  generalize advance ((blocks.drop index).take k) offset n = r at moved ends steps
  rw [length_take, length_drop] at steps
  have within : r.1 ≤ k := Nat.le_trans steps (Nat.min_le_left _ _)
  refine ⟨?_, ?_⟩
  · rw [position_add]
    unfold position at moved ⊢
    rw [take_take, Nat.min_eq_left within] at moved
    omega
  · rcases ends with ⟨block, found, below⟩ | ⟨last, zero⟩
    · refine .inl ⟨block, ?_, below⟩
      rw [getElem?_take] at found
      split at found
      · rw [getElem?_drop] at found
        exact found
      · cases found
    · -- the window is used up: the next block follows, or there is none
      rw [zero]
      rcases Nat.lt_or_ge (index + r.1) blocks.length with more | done
      · refine .inl ⟨blocks.get ⟨index + r.1, more⟩, ?_, ?_⟩
        · exact getElem?_eq_getElem more
        · exact length_pos_iff.mpr (nonempty _ (getElem_mem more))
      · refine .inr ⟨?_, rfl⟩
        have inside := start.index_le
        omega

/-- The elements that a vectored call offers come next. -/
theorem take_window_eq (blocks : List (List α)) (index offset k n : Nat) :
    ((((blocks.drop index).take k).flatten.drop offset).take n) <+:
      blocks.flatten.drop (position blocks index offset) := by
  rw [drop_position]
  refine List.IsPrefix.trans (List.take_prefix _ _) ?_
  apply List.IsPrefix.drop
  conv_rhs => rw [← take_append_drop k (blocks.drop index), flatten_append]
  exact prefix_append _ _

/-- Cursors depend on the sizes of the blocks only. -/
theorem position_congr (same : a.map List.length = b.map List.length) (index offset : Nat) :
    position a index offset = position b index offset := by
  unfold position
  rw [length_flatten, length_flatten, map_take, map_take, same]

theorem OnElement.congr (same : a.map List.length = b.map List.length)
    (on : OnElement a index offset) : OnElement b index offset := by
  have lengths : a.length = b.length := by
    have := congrArg length same
    rwa [length_map, length_map] at this
  rcases on with ⟨block, found, below⟩ | ⟨last, zero⟩
  · have sized : (b.map length)[index]? = some block.length := by
      rw [← same, getElem?_map, found]
      rfl
    rw [getElem?_map] at sized
    obtain ⟨other, there, length⟩ := Option.map_eq_some_iff.mp sized
    exact .inl ⟨other, there, by omega⟩
  · exact .inr ⟨last.trans lengths, zero⟩

end Omi.Cursor
