import Mathlib

/-!
# NUL-terminated strings

A `ZString` is the sequence of bytes before the terminator, so a value of the
type is always a well-formed C string: a byte `0` inside it cannot be built.
A pointer that may be `NULL` is an `Option ZString`. The comparison functions
follow the C library in the default locale, byte by byte.
-/

namespace Omi

/-- What holds of the 256 byte values holds of every byte. -/
theorem forall_byte {p : UInt8 → Prop} (h : ∀ n : Fin 256, p (UInt8.ofFin n)) (c : UInt8) : p c :=
  h c.toFin

/-- Bytes that satisfy `p`, in front of one that does not. -/
theorem takeWhile_stop {p : UInt8 → Bool} {w : List UInt8} {c : UInt8}
    (all : ∀ x ∈ w, p x = true) (stop : p c = false) (rest : List UInt8) :
    (w ++ c :: rest).takeWhile p = w ∧ (w ++ c :: rest).dropWhile p = c :: rest := by
  have stops : ¬p c = true := Bool.eq_false_iff.mp stop
  rw [List.takeWhile_append_of_pos all, List.dropWhile_append_of_pos all,
    List.takeWhile_cons_of_neg stops, List.dropWhile_cons_of_neg stops, List.append_nil]
  exact ⟨rfl, rfl⟩

theorem mapM_eq_some {α β : Type} {f : α → Option β} {as : List α} {bs : List β}
    (mapped : as.mapM f = some bs) : List.Forall₂ (fun a b => f a = some b) as bs := by
  induction as generalizing bs with
  | nil =>
    cases mapped
    exact .nil
  | cons a as ih =>
    rw [List.mapM_cons] at mapped
    obtain ⟨b, first, rest⟩ := Option.bind_eq_some_iff.mp mapped
    obtain ⟨bs', others, same⟩ := Option.bind_eq_some_iff.mp rest
    cases same
    exact .cons first (ih others)

/-- The bytes of a C string, without its terminator. -/
@[ext] structure ZString where
  chars : List UInt8
  nul_free : (0 : UInt8) ∉ chars
deriving DecidableEq

namespace ZString

/-- `Tcslen`. -/
def length (s : ZString) : Nat := s.chars.length

/-- The stored bytes, including the terminator that every reader relies on. -/
def bytes (s : ZString) : List UInt8 := s.chars ++ [0]

/-- Build a string from ASCII text. Characters outside the byte range are dropped,
and so is `NUL`, which keeps the result well formed. -/
def ofString (text : String) : ZString where
  chars := (text.toList.map (fun c => UInt8.ofNat c.toNat)).filter (· != 0)
  nul_free := by simp

end ZString

/-- `tolower` in the C locale. -/
def toLower (c : UInt8) : UInt8 := if 65 ≤ c ∧ c ≤ 90 then c + 32 else c

/-- `Tcscasecmp`: the difference of the first pair of folded bytes that differ,
where the end of a string compares as its terminator. -/
def tcscasecmp : List UInt8 → List UInt8 → Int
  | [], [] => 0
  | [], b :: _ => -(toLower b).toNat
  | a :: _, [] => (toLower a).toNat
  | a :: as, b :: bs =>
    if toLower a = toLower b then tcscasecmp as bs
    else (toLower a).toNat - (toLower b).toNat

/-- Only the terminator is folded to the terminator. -/
theorem toNat_toLower_pos : ∀ {c : UInt8}, c ≠ 0 → 0 < (toLower c).toNat :=
  @forall_byte (fun c => c ≠ 0 → 0 < (toLower c).toNat) (by decide +kernel)

/-- Strings that compare equal are folded to the same text. -/
theorem map_toLower_of_tcscasecmp : ∀ {a b : List UInt8}, 0 ∉ a → 0 ∉ b →
    tcscasecmp a b = 0 → a.map toLower = b.map toLower
  | [], [], _, _, _ => rfl
  | [], b :: _, _, free, same => by
    have positive : 0 < (toLower b).toNat :=
      toNat_toLower_pos (List.ne_of_not_mem_cons free).symm
    unfold tcscasecmp at same
    omega
  | a :: _, [], free, _, same => by
    have positive : 0 < (toLower a).toNat :=
      toNat_toLower_pos (List.ne_of_not_mem_cons free).symm
    unfold tcscasecmp at same
    omega
  | a :: as, b :: bs, freeA, freeB, same => by
    unfold tcscasecmp at same
    split at same
    · rename_i head
      have tail := map_toLower_of_tcscasecmp (List.not_mem_of_not_mem_cons freeA)
        (List.not_mem_of_not_mem_cons freeB) same
      rw [List.map_cons, List.map_cons, head, tail]
    · rename_i differ
      exact absurd (UInt8.toNat_inj.mp (by omega)) differ

end Omi
