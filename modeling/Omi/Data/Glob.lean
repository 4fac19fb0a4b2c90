import Mathlib

/-!
# Patterns with wildcards

A pattern is a list of parts. A part stands for any sequence, or for one letter out of a
set. `fits` is the recursive meaning of a pattern. A matcher that reads the pattern from
left to right keeps, for the parts it has read, the front parts of the text that they fit;
the lemmas say how these change when a part is added at the end.
-/

namespace Omi

open List

variable {α : Type}

/-- A part of a pattern. -/
inductive Glob (α : Type) where
  | many
  | one (accepts : α → Bool)

namespace Glob

/-- The text fits the pattern. -/
def fits : List (Glob α) → List α → Bool
  | [], text => text.isEmpty
  | .many :: parts, text => text.tails.any (fits parts)
  | .one _ :: _, [] => false
  | .one accepts :: parts, c :: text => accepts c && fits parts text

variable {text : List α} {parts before after : List (Glob α)}

theorem fits_nil_iff : fits [] text = true ↔ text = [] := List.isEmpty_iff

theorem fits_many_iff :
    fits (.many :: parts) text = true ↔ ∃ u v, text = u ++ v ∧ fits parts v = true := by
  rw [fits, any_eq_true]
  constructor
  · rintro ⟨v, inside, rest⟩
    obtain ⟨u, rfl⟩ := (mem_tails _ _).mp inside
    exact ⟨u, v, rfl, rest⟩
  · rintro ⟨u, v, rfl, rest⟩
    exact ⟨v, (mem_tails _ _).mpr (suffix_append u v), rest⟩

theorem fits_one_iff {accepts : α → Bool} :
    fits (.one accepts :: parts) text = true ↔
      ∃ c v, text = c :: v ∧ accepts c = true ∧ fits parts v = true := by
  cases text with
  | nil => exact ⟨nofun, fun ⟨_, _, same, _⟩ => absurd same nofun⟩
  | cons c text =>
    rw [fits, Bool.and_eq_true]
    constructor
    · rintro ⟨accepted, rest⟩
      exact ⟨c, text, rfl, accepted, rest⟩
    · rintro ⟨_, _, same, accepted, rest⟩
      cases same
      exact ⟨accepted, rest⟩

/-- A text fits two patterns in a row if it has a place at which it can be cut. -/
theorem fits_append : ∀ {text : List α},
    fits (before ++ after) text = true ↔
      ∃ u v, text = u ++ v ∧ fits before u = true ∧ fits after v = true := by
  induction before with
  | nil =>
    intro text
    constructor
    · exact fun h => ⟨[], text, rfl, rfl, h⟩
    · rintro ⟨u, v, rfl, empty, h⟩
      rw [fits_nil_iff.mp empty]
      exact h
  | cons part before ih =>
    intro text
    cases part with
    | many =>
      rw [cons_append, fits_many_iff]
      constructor
      · rintro ⟨u, v, rfl, h⟩
        obtain ⟨x, y, rfl, first, second⟩ := ih.mp h
        exact ⟨u ++ x, y, (append_assoc u x y).symm, fits_many_iff.mpr ⟨u, x, rfl, first⟩, second⟩
      · rintro ⟨u, v, rfl, first, second⟩
        obtain ⟨x, y, rfl, inner⟩ := fits_many_iff.mp first
        exact ⟨x, y ++ v, append_assoc x y v, ih.mpr ⟨y, v, rfl, inner, second⟩⟩
    | one accepts =>
      rw [cons_append, fits_one_iff]
      constructor
      · rintro ⟨c, v, rfl, accepted, h⟩
        obtain ⟨x, y, rfl, first, second⟩ := ih.mp h
        exact ⟨c :: x, y, rfl, fits_one_iff.mpr ⟨c, x, rfl, accepted, first⟩, second⟩
      · rintro ⟨u, v, rfl, first, second⟩
        obtain ⟨c, x, rfl, accepted, inner⟩ := fits_one_iff.mp first
        exact ⟨c, x ++ v, rfl, accepted, ih.mpr ⟨x, v, rfl, inner, second⟩⟩

/-- The front part of length `j` fits the pattern. -/
def FitsTo (parts : List (Glob α)) (text : List α) (j : Nat) : Prop :=
  fits parts (text.take j) = true

theorem fitsTo_nil {j : Nat} (bound : j ≤ text.length) : FitsTo [] text j ↔ j = 0 := by
  rw [FitsTo, fits_nil_iff, take_eq_nil_iff]
  constructor
  · rintro (zero | rfl)
    · exact zero
    · exact Nat.le_zero.mp bound
  · exact .inl

theorem fitsTo_length : FitsTo parts text text.length ↔ fits parts text = true := by
  rw [FitsTo, take_length]

/-- What fits a longer pattern fits the first parts up to some place. -/
theorem FitsTo.front {j : Nat} (h : FitsTo (before ++ after) text j) (bound : j ≤ text.length) :
    ∃ i ≤ j, FitsTo before text i := by
  obtain ⟨u, v, same, first, -⟩ := fits_append.mp h
  have length : u.length ≤ j := by
    have lengths := congrArg length same
    rw [length_take, Nat.min_eq_left bound, length_append] at lengths
    omega
  refine ⟨u.length, length, ?_⟩
  have front : text.take u.length = u := by
    rw [← Nat.min_eq_left length, ← take_take, same, take_left]
  rw [FitsTo, front]
  exact first

theorem fitsTo_concat_many {j : Nat} (bound : j ≤ text.length) :
    FitsTo (parts ++ [.many]) text j ↔ ∃ i ≤ j, FitsTo parts text i := by
  constructor
  · exact fun h => h.front bound
  · rintro ⟨i, le, h⟩
    refine fits_append.mpr ⟨text.take i, (text.take j).drop i, ?_, h, ?_⟩
    · conv_lhs => rw [← take_append_drop i (text.take j)]
      rw [take_take, Nat.min_eq_left le]
    · exact fits_many_iff.mpr ⟨_, [], (append_nil _).symm, rfl⟩

theorem fitsTo_concat_one {accepts : α → Bool} {j : Nat} (bound : j ≤ text.length) :
    FitsTo (parts ++ [.one accepts]) text j ↔
      ∃ i c, j = i + 1 ∧ text[i]? = some c ∧ accepts c = true ∧ FitsTo parts text i := by
  constructor
  · intro h
    obtain ⟨u, v, same, first, second⟩ := fits_append.mp h
    obtain ⟨c, w, rfl, accepted, rest⟩ := fits_one_iff.mp second
    rw [fits_nil_iff.mp rest] at same
    have length : j = u.length + 1 := by
      have lengths := congrArg length same
      rw [length_take, Nat.min_eq_left bound, length_append] at lengths
      exact lengths
    have front : text.take u.length = u := by
      have shorter : text.take u.length = (text.take j).take u.length := by
        rw [take_take, Nat.min_eq_left (by omega)]
      rw [shorter, same, take_left]
    refine ⟨u.length, c, length, ?_, accepted, ?_⟩
    · have here : (text.take j)[u.length]? = some c := by
        rw [same, getElem?_append_right (Nat.le_refl _), Nat.sub_self]
        rfl
      rw [getElem?_take_of_lt (by omega)] at here
      exact here
    · rw [FitsTo, front]
      exact first
  · rintro ⟨i, c, rfl, here, accepted, h⟩
    refine fits_append.mpr ⟨text.take i, [c], ?_, h, fits_one_iff.mpr ⟨c, [], rfl, accepted, rfl⟩⟩
    rw [take_add_one, here]
    rfl

end Glob

end Omi
