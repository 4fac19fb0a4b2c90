import Mathlib

/-!
# Decoding in place

A decoder reads some input in each round and emits at most one element for it, so
it can write its output over the input it has read. `decode` is the decoder on a
list; `decodeInPlace` works on one buffer with a read and a write position, and
gives up when it would store at a position it has not read yet. That never
happens, and both compute the same.
-/

namespace Omi.InPlace

open List

variable {α σ ε : Type}

/-- A round either halts, or emits an element and leaves a rest of the input. -/
inductive Round (σ α ε : Type) where
  | halt (ending : ε)
  | emit (c : α) (next : σ) (rest : List α)

/-- A decoder, of which every round that emits something consumes something. -/
structure Decoder (σ α ε : Type) where
  round : σ → List α → Round σ α ε
  suffix : ∀ {s text c next rest}, round s text = .emit c next rest → rest <:+ text
  shorter : ∀ {s text c next rest}, round s text = .emit c next rest → rest.length < text.length

/-- What a decoder emits, how it ends, and what it leaves. -/
structure Decoded (α ε : Type) where
  out : List α
  ending : ε
  rest : List α

/-- The decoder on a list. -/
def Decoder.decode (d : Decoder σ α ε) (s : σ) (text : List α) : Decoded α ε :=
  match _here : d.round s text with
  | .halt ending => ⟨[], ending, text⟩
  | .emit c next rest =>
    let later := d.decode next rest
    ⟨c :: later.out, later.ending, later.rest⟩
termination_by text.length
decreasing_by exact d.shorter _here

variable {text rest : List α}

theorem decode_halt {d : Decoder σ α ε} {s : σ} {ending : ε} (here : d.round s text = .halt ending) :
    d.decode s text = ⟨[], ending, text⟩ := by
  rw [Decoder.decode]
  split
  · rename_i here'
    rw [here] at here'
    cases here'
    rfl
  · rename_i here'
    rw [here] at here'
    cases here'

theorem decode_emit {d : Decoder σ α ε} {s next : σ} {c : α}
    (here : d.round s text = .emit c next rest) :
    d.decode s text = ⟨c :: (d.decode next rest).out, (d.decode next rest).ending,
      (d.decode next rest).rest⟩ := by
  rw [Decoder.decode]
  split
  · rename_i here'
    rw [here] at here'
    cases here'
  · rename_i here'
    rw [here] at here'
    cases here'
    rfl

theorem decode_rest_suffix (d : Decoder σ α ε) (s : σ) (text : List α) :
    (d.decode s text).rest <:+ text := by
  fun_induction Decoder.decode d s text with
  | case1 => exact suffix_refl _
  | case2 s text c next rest here later ih => exact ih.trans (d.suffix here)

/-- A buffer with the position of the next element to read and of the next one to write. -/
structure Buffer (α : Type) where
  data : List α
  read : Nat
  write : Nat

/-- The decoder on a buffer. A store at or behind the read position is refused. -/
def Decoder.decodeInPlace (d : Decoder σ α ε) (s : σ) (b : Buffer α) : Option (ε × Buffer α) :=
  match _here : d.round s (b.data.drop b.read) with
  | .halt ending => some (ending, b)
  | .emit c next rest =>
    if b.write < b.data.length - rest.length then
      d.decodeInPlace next
        ⟨b.data.set b.write c, b.data.length - rest.length, b.write + 1⟩
    else none
termination_by b.data.length - b.read
decreasing_by
  have shorter := d.shorter _here
  rw [List.length_drop] at shorter
  simp only [List.length_set]
  omega

/-- In place, a decoder never stores at a position it has not read, and what it leaves behind
the start of its writing is what it emits. -/
theorem decodeInPlace_eq (d : Decoder σ α ε) (s : σ) (b : Buffer α) (behind : b.write ≤ b.read)
    (inside : b.read ≤ b.data.length) :
    ∃ after, d.decodeInPlace s b = some ((d.decode s (b.data.drop b.read)).ending, after) ∧
      after.data.length = b.data.length ∧
      after.read ≤ after.data.length ∧
      after.write ≤ after.read ∧
      after.data.drop after.read = (d.decode s (b.data.drop b.read)).rest ∧
      after.data.take after.write =
        b.data.take b.write ++ (d.decode s (b.data.drop b.read)).out := by
  fun_induction Decoder.decodeInPlace d s b with
  | case1 s b ending here =>
    rw [decode_halt here]
    exact ⟨b, rfl, rfl, inside, behind, rfl, (append_nil _).symm⟩
  | case2 s b c next rest here room ih =>
    have suffix := (d.suffix here).trans (drop_suffix b.read b.data)
    have shorter := d.shorter here
    have more := decode_emit here
    -- the store is in front of what remains to be read
    have unread : (b.data.set b.write c).drop (b.data.length - rest.length) = rest := by
      rw [drop_set_of_lt room]
      exact (suffix_iff_eq_drop.mp suffix).symm
    have written : (b.data.set b.write c).take (b.write + 1) = b.data.take b.write ++ [c] := by
      have bound : b.write < b.data.length := by omega
      rw [take_add_one, getElem?_set_self bound, take_set_of_le (Nat.le_refl _)]
      rfl
    simp only [length_set] at ih
    obtain ⟨after, run, length, bounded, order, left, out⟩ := ih (by omega) (by omega)
    rw [unread] at run left out
    rw [written] at out
    refine ⟨after, ?_, length, bounded, order, ?_, ?_⟩
    · rw [run, more]
    · rw [left, more]
    · rw [out, more, append_assoc]
      rfl
  | case3 s b c next rest here room =>
    have shorter := d.shorter here
    rw [length_drop] at shorter
    omega

end Omi.InPlace
