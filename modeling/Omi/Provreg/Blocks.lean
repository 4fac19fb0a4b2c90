import Omi.Xml.Text

/-!
# The blocks of a registration

A class of a provider is registered with its base classes in one text,
`derived:base:root`. It is taken apart from its end: each call truncates the text
in front of the block that it returns, so the blocks that were returned stay as
they are.
-/

namespace Omi.Provreg

open List Xml

/-- `_GetNextReverse`: the last block, and the text that is left. The search for the delimiter
ends at the first character without looking at it. -/
def getNextReverse (delim : UInt8) (text : List UInt8) : Option (List UInt8 × List UInt8) :=
  let trimmed := text.rdropWhile isBlank
  let block := trimmed.tail.rtakeWhile (· != delim)
  if text = [] then none
  else if block = trimmed.tail then some (trimmed.dropWhile isBlank, [])
  else some (block.dropWhile isBlank, trimmed.rdrop (block.length + 1))

/-- What the calls return until one returns NULL. -/
inductive Yields (delim : UInt8) : List UInt8 → List (List UInt8) → Prop where
  | null {text : List UInt8} (ended : getNextReverse delim text = none) : Yields delim text []
  | block {text block left : List UInt8} {blocks : List (List UInt8)}
      (next : getNextReverse delim text = some (block, left)) (more : Yields delim left blocks) :
      Yields delim text (block :: blocks)

/-- A text between two delimiters that is not blank. -/
structure Segment (delim : UInt8) (segment : List UInt8) : Prop where
  free : delim ∉ segment
  used : ∃ c ∈ segment, isBlank c = false

/-- A segment without the white space around it. -/
def trim (segment : List UInt8) : List UInt8 := (segment.rdropWhile isBlank).dropWhile isBlank

variable {delim : UInt8} {segment : List UInt8} (proper : Segment delim segment)
include proper

theorem Segment.ne_nil : segment ≠ [] := by
  obtain ⟨c, inside, -⟩ := proper.used
  exact ne_nil_of_mem inside

/-- Only the segment is trimmed, which stays free of delimiters. -/
theorem Segment.rdropWhile_append (text : List UInt8) :
    (text ++ segment).rdropWhile isBlank = text ++ segment.rdropWhile isBlank := by
  obtain ⟨c, inside, used⟩ := proper.used
  have left : (segment.reverse.dropWhile isBlank).isEmpty = false := by
    rw [isEmpty_eq_false_iff, Ne, dropWhile_eq_nil_iff]
    intro blank
    cases used.symm.trans (blank c (mem_reverse.mpr inside))
  rw [rdropWhile, reverse_append, dropWhile_append, left, if_neg Bool.false_ne_true,
    reverse_append, reverse_reverse]
  rfl

theorem Segment.ne_delim {c : UInt8} (inside : c ∈ segment.rdropWhile isBlank) :
    (c != delim) = true := by
  rw [bne_iff_ne]
  rintro rfl
  exact proper.free (( rdropWhile_prefix _ _).subset inside)

/-- The last call returns the whole text. -/
theorem getNextReverse_last : getNextReverse delim segment = some (trim segment, []) := by
  have all : (segment.rdropWhile isBlank).tail.rtakeWhile (· != delim) =
      (segment.rdropWhile isBlank).tail :=
    rtakeWhile_eq_self_iff.mpr fun c inside => proper.ne_delim (mem_of_mem_tail inside)
  rw [getNextReverse, if_neg proper.ne_nil, if_pos all, trim]

/-- A call returns the segment behind the last delimiter and leaves what stands before. -/
theorem getNextReverse_append {text : List UInt8} (more : text ≠ []) :
    getNextReverse delim (text ++ delim :: segment) = some (trim segment, text) := by
  have trimmed : (text ++ delim :: segment).rdropWhile isBlank =
      text ++ delim :: segment.rdropWhile isBlank := by
    rw [append_cons, proper.rdropWhile_append, ← append_cons]
  have block : (text.tail ++ delim :: segment.rdropWhile isBlank).rtakeWhile (· != delim) =
      segment.rdropWhile isBlank := by
    have stop := (takeWhile_stop (fun c inside => proper.ne_delim (mem_reverse.mp inside))
      (bne_self_eq_false delim) text.tail.reverse).1
    rw [rtakeWhile, reverse_append, reverse_cons, append_assoc, singleton_append, stop,
      reverse_reverse]
  have shorter : segment.rdropWhile isBlank ≠ text.tail ++ delim :: segment.rdropWhile isBlank := by
    intro same
    have := congrArg List.length same
    rw [length_append, length_cons] at this
    omega
  have left := @rdrop_append_length _ text (delim :: segment.rdropWhile isBlank)
  simp only [getNextReverse, trimmed, tail_append_of_ne_nil more, block]
  rw [if_neg (by simp), if_neg shorter, trim]
  exact congrArg _ (congrArg _ left)

omit proper

/-- The segments of a text come from last to first, each once and trimmed. -/
theorem yields_segments {first : List UInt8} {rest : List (List UInt8)}
    (proper : ∀ segment ∈ first :: rest, Segment 58 segment) :
    Yields 58 (first ++ rest.flatMap (58 :: ·)) ((first :: rest).reverse.map trim) := by
  induction rest using reverseRecOn with
  | nil =>
    rw [flatMap_nil, append_nil]
    exact .block (getNextReverse_last (proper first mem_cons_self)) (.null rfl)
  | append_singleton rest last ih =>
    rw [← cons_append, forall_mem_append, forall_mem_singleton] at proper
    rw [← cons_append, reverse_append, flatMap_append, flatMap_singleton, ← append_assoc]
    have more : first ++ rest.flatMap (58 :: ·) ≠ [] :=
      append_ne_nil_of_left_ne_nil (proper.1 first mem_cons_self).ne_nil _
    exact .block (getNextReverse_append proper.2 more) (ih proper.1)

theorem yields_segments_three :
    Yields 58 (ascii "A : B:C ") [ascii "C", ascii "B", ascii "A"] := by
  refine @yields_segments (ascii "A ") [ascii " B", ascii "C "] ?_
  have segment (text : List UInt8) (free : 58 ∉ text) (used : ∃ c ∈ text, isBlank c = false) :
      Segment 58 text := ⟨free, used⟩
  simp only [forall_mem_cons]
  exact ⟨segment _ (by decide) (by decide), segment _ (by decide) (by decide),
    segment _ (by decide) (by decide), nofun⟩

end Omi.Provreg
