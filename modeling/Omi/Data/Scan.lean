import Mathlib

/-!
# Loops over a text

A C function that walks over a buffer reads it at every place where its loop
stops or goes on. The loops below return where they end, or `none` if they read
behind the end of the text. A loop that checks its limit before it reads stays
inside a text that reaches to the limit.
-/

namespace Omi.Scan

open List Option

variable {α : Type}

/-- Move on while the element satisfies `p`, over at most `room` elements. -/
def scanWhile (p : α → Bool) (text : List α) : Nat → Nat → Option Nat
  | 0, i => some i
  | room + 1, i =>
    text[i]? >>= fun c => if p c then scanWhile p text room (i + 1) else some i

/-- Move on until the element is `a` and the next one is `b`, over at most `room` elements. -/
def scanUntil [DecidableEq α] (a b : α) (text : List α) : Nat → Nat → Option Nat
  | 0, i => some i
  | room + 1, i =>
    text[i]? >>= fun c =>
      if c = a then
        text[i + 1]? >>= fun d => if d = b then some i else scanUntil a b text room (i + 1)
      else scanUntil a b text room (i + 1)

/-- Compare with a word, up to the first difference. -/
def comparesTo (same : α → α → Bool) (text : List α) : List α → Nat → Option Bool
  | [], _ => some true
  | c :: word, i =>
    text[i]? >>= fun d =>
      if same d c then comparesTo same text word (i + 1) else some false

theorem scanWhile_spec (p : α → Bool) {text : List α} {room i : Nat}
    (inside : i + room ≤ text.length) :
    ∃ j, scanWhile p text room i = some j ∧ i ≤ j ∧ j ≤ i + room
      ∧ (j < i + room → ∃ c, text[j]? = some c ∧ p c = false) := by
  induction room generalizing i with
  | zero => exact ⟨i, rfl, Nat.le_refl i, Nat.le_refl i, fun less => absurd less (Nat.lt_irrefl i)⟩
  | succ room ih =>
    have here : text[i]? = some text[i] := getElem?_eq_getElem (by omega)
    rw [scanWhile, here, bind_eq_bind, bind_some]
    cases holds : p text[i] with
    | true =>
      obtain ⟨j, found, low, high, last⟩ := ih (i := i + 1) (by omega)
      rw [if_pos rfl]
      exact ⟨j, found, by omega, by omega, fun less => last (by omega)⟩
    | false =>
      rw [if_neg Bool.false_ne_true]
      exact ⟨i, rfl, Nat.le_refl i, by omega, fun _ => ⟨text[i], here, holds⟩⟩

theorem scanUntil_spec [DecidableEq α] (a b : α) {text : List α} {room i : Nat}
    (inside : i + room < text.length ∨ room = 0) :
    ∃ j, scanUntil a b text room i = some j ∧ i ≤ j ∧ j ≤ i + room
      ∧ (j < i + room → text[j]? = some a ∧ text[j + 1]? = some b) := by
  induction room generalizing i with
  | zero => exact ⟨i, rfl, Nat.le_refl i, Nat.le_refl i, fun less => absurd less (Nat.lt_irrefl i)⟩
  | succ room ih =>
    have here : text[i]? = some text[i] := getElem?_eq_getElem (by omega)
    have there : text[i + 1]? = some text[i + 1] := getElem?_eq_getElem (by omega)
    obtain ⟨j, found, low, high, last⟩ := ih (i := i + 1) (by omega)
    rw [scanUntil, here, bind_eq_bind, bind_some]
    by_cases first : text[i] = a
    · rw [if_pos first, there, bind_some]
      by_cases second : text[i + 1] = b
      · rw [if_pos second]
        refine ⟨i, rfl, Nat.le_refl i, by omega, fun _ => ?_⟩
        rw [here, there, first, second]
        exact ⟨rfl, rfl⟩
      · rw [if_neg second]
        exact ⟨j, found, by omega, by omega, fun less => last (by omega)⟩
    · rw [if_neg first]
      exact ⟨j, found, by omega, by omega, fun less => last (by omega)⟩

theorem comparesTo_spec (same : α → α → Bool) {text word : List α} {i : Nat}
    (inside : i + word.length ≤ text.length) : ∃ equal, comparesTo same text word i = some equal := by
  induction word generalizing i with
  | nil => exact ⟨true, rfl⟩
  | cons c word ih =>
    rw [length_cons] at inside
    have here : text[i]? = some text[i] := getElem?_eq_getElem (by omega)
    rw [comparesTo, here, bind_eq_bind, bind_some]
    split
    · exact ih (by omega)
    · exact ⟨false, rfl⟩

end Omi.Scan
