import Mathlib

/-!
# Rounding up to a power of two

The usual 32-bit idiom copies the highest bit of a number into every lower bit by
five shifts and adds one. `smear` is the five shifts. On a positive number below
`2^32` the result is the next power of two.
-/

namespace Omi.PowerOfTwo

/-- Copy every bit into the positions below it, as far as 31 places. -/
def smear (x : Nat) : Nat :=
  let x := x ||| x >>> 1
  let x := x ||| x >>> 2
  let x := x ||| x >>> 4
  let x := x ||| x >>> 8
  x ||| x >>> 16

/-- Bit `i` of `y` is set where one of `k` bits of `x` from `i` on is. -/
def Covers (k x y : Nat) : Prop := ∀ i, y.testBit i = true ↔ ∃ j < k, x.testBit (i + j) = true

/-- One shift doubles the reach. -/
theorem Covers.step {k x y : Nat} (covers : Covers k x y) : Covers (k + k) x (y ||| y >>> k) := by
  intro i
  rw [Nat.testBit_or, Bool.or_eq_true, Nat.testBit_shiftRight, covers i, covers (k + i)]
  constructor
  · rintro (⟨j, small, set⟩ | ⟨j, small, set⟩)
    · exact ⟨j, by omega, set⟩
    · exact ⟨k + j, by omega, by rwa [show i + (k + j) = k + i + j by omega]⟩
  · rintro ⟨j, small, set⟩
    by_cases near : j < k
    · exact .inl ⟨j, near, set⟩
    · exact .inr ⟨j - k, by omega, by rwa [show k + i + (j - k) = i + j by omega]⟩

theorem smear_covers (x : Nat) : Covers 32 x (smear x) := by
  have start : Covers 1 x x := by
    intro i
    constructor
    · exact fun set => ⟨0, Nat.one_pos, set⟩
    · rintro ⟨j, small, set⟩
      obtain rfl : j = 0 := by omega
      exact set
  exact start.step.step.step.step.step

/-- All bits up to the highest one are set. -/
theorem smear_eq {x m : Nat} (lower : 2 ^ m ≤ x) (upper : x < 2 ^ (m + 1)) (small : m < 32) :
    smear x + 1 = 2 ^ (m + 1) := by
  have same : smear x = 2 ^ (m + 1) - 1 := by
    apply Nat.eq_of_testBit_eq
    intro i
    rw [Nat.testBit_two_pow_sub_one, Bool.eq_iff_iff, smear_covers x i, decide_eq_true_iff]
    constructor
    · rintro ⟨j, -, set⟩
      by_contra high
      have clear : x.testBit (i + j) = false :=
        Nat.testBit_lt_two_pow (Nat.lt_of_lt_of_le upper (Nat.pow_le_pow_right (by decide) (by omega)))
      rw [clear] at set
      cases set
    · intro low
      refine ⟨m - i, by omega, ?_⟩
      rw [show i + (m - i) = m by omega]
      exact Nat.testBit_of_two_pow_le_and_two_pow_add_one_gt lower upper
  omega

end Omi.PowerOfTwo
