import Omi.Data.ZString

/-!
# Base64

`Base64Enc` and `Base64Dec`. Both collect what they produce in a buffer of 512 bytes and
hand it to a callback when the next group might not fit. The callback is a function on
a state of its own, which fails with `none`; the pointer that the source passes to it is
that state.

What is encoded is decoded again. The size that is returned is that of the last block
alone, and the decoder takes padding anywhere and ignores the eighth bit.
-/

namespace Omi.Base

open List Option

/-! ## Blocks -/

section Blocks

variable {σ : Type}

/-- A group is appended to the buffer. If there is no room for the largest one, the buffer is
sent first. -/
def push (callback : σ → List UInt8 → Option σ) (room : Nat) (state : σ × List UInt8)
    (group : List UInt8) : Option (σ × List UInt8) :=
  if state.2.length + room > 512 then (callback state.1 state.2).map (·, group)
  else some (state.1, state.2 ++ group)

/-- The remaining bytes are sent. -/
def flush (callback : σ → List UInt8 → Option σ) (state : σ × List UInt8) : Option σ :=
  if state.2 = [] then some state.1 else callback state.1 state.2

/-- The callback that keeps what it is given. -/
def collect (sent block : List UInt8) : Option (List UInt8) := some (sent ++ block)

variable {state : List UInt8 × List UInt8}

/-- The groups are kept in their order, sent or not. -/
theorem push_collect (room : Nat) (group : List UInt8) :
    ∃ next, push collect room state group = some next ∧
      next.1 ++ next.2 = state.1 ++ state.2 ++ group := by
  unfold push
  split
  · exact ⟨_, rfl, rfl⟩
  · exact ⟨_, rfl, by simp⟩

theorem flush_collect : flush collect state = some (state.1 ++ state.2) := by
  unfold flush
  split
  next nothing => rw [nothing, append_nil]
  · rfl

end Blocks

/-! ## Characters -/

def encTable : List UInt8 :=
  (ZString.ofString "ABCDEFGHIJKLMNOPQRSTUVWXYZabcdefghijklmnopqrstuvwxyz0123456789+/").chars

/-- `Enc6Bits`. -/
def enc6Bits (x : UInt8) : UInt8 := encTable.getD x.toNat 0

/-- `0` to `63` are values, `64` is padding, `0xFF` is invalid. -/
def decTable : List UInt8 :=
  List.replicate 43 0xFF ++ [62, 0xFF, 0xFF, 0xFF, 63] ++ (List.range' 52 10).map Nat.toUInt8 ++
    [0xFF, 0xFF, 0xFF, 64, 0xFF, 0xFF, 0xFF] ++ (List.range' 0 26).map Nat.toUInt8 ++
    List.replicate 6 0xFF ++ (List.range' 26 26).map Nat.toUInt8 ++ List.replicate 5 0xFF

/-- `DecChar`. -/
def decChar (c : UInt8) : UInt8 := if 128 ≤ c then 0xFF else decTable.getD c.toNat 0xFF

theorem decChar_enc6Bits (x : UInt8) (small : x < 64) : decChar (enc6Bits x &&& 0x7f) = x :=
  forall_byte (p := fun x => x < 64 → decChar (enc6Bits x &&& 0x7f) = x) (by decide +kernel) x small

/-- A character of seven bits that is decoded is one of the alphabet or the padding. -/
theorem mem_encTable_of_decChar {c : UInt8} (seven : c < 128)
    (valid : decChar (c &&& 0x7f) ≠ 0xFF) : c ∈ encTable ∨ c = 61 :=
  forall_byte (p := fun c => c < 128 → decChar (c &&& 0x7f) ≠ 0xFF → c ∈ encTable ∨ c = 61)
    (by decide +kernel) c seven valid

theorem encTable_plain {c : UInt8} (inside : c ∈ encTable) : c < 128 ∧ c ≠ 61 :=
  forall_byte (p := fun c => c ∈ encTable → c < 128 ∧ c ≠ 61) (by decide +kernel) c inside

/-! ## Groups -/

/-- The characters for one, two or three bytes. -/
def encGroup (b1 : UInt8) : List UInt8 → List UInt8
  | [] => [enc6Bits ((b1 &&& 0xFC) >>> 2), enc6Bits ((b1 &&& 0x03) <<< 4), 61, 61]
  | [b2] =>
    [enc6Bits ((b1 &&& 0xFC) >>> 2), enc6Bits ((b1 &&& 0x03) <<< 4 ||| (b2 &&& 0xF0) >>> 4),
      enc6Bits ((b2 &&& 0x0F) <<< 2), 61]
  | b2 :: b3 :: _ =>
    [enc6Bits ((b1 &&& 0xFC) >>> 2), enc6Bits ((b1 &&& 0x03) <<< 4 ||| (b2 &&& 0xF0) >>> 4),
      enc6Bits ((b2 &&& 0x0F) <<< 2 ||| (b3 &&& 0xCF) >>> 6), enc6Bits (b3 &&& 0x3F)]

/-- The bytes for four characters, where the third and the fourth may be padding. -/
def decGroup (a b c d : UInt8) : Option (List UInt8) :=
  let c1 := decChar (a &&& 0x7f)
  let c2 := decChar (b &&& 0x7f)
  let c3 := decChar (c &&& 0x7f)
  let c4 := decChar (d &&& 0x7f)
  if c1 = 0xFF ∨ c2 = 0xFF ∨ c3 = 0xFF ∨ c4 = 0xFF then none
  else
    some ((c1 <<< 2 ||| c2 >>> 4) ::
      ((if c3 ≠ 64 then [(c2 &&& 0xF) <<< 4 ||| c3 >>> 2] else []) ++
        if c4 ≠ 64 then [(c3 &&& 0x3) <<< 6 ||| c4] else []))

section Loops

variable {σ : Type} (callback : σ → List UInt8 → Option σ)

/-- The loop of `Base64Enc`. -/
def encLoop : List UInt8 → σ × List UInt8 → Option (σ × List UInt8)
  | [], state => some state
  | [b1], state => push callback 4 state (encGroup b1 [])
  | [b1, b2], state => push callback 4 state (encGroup b1 [b2])
  | b1 :: b2 :: b3 :: data, state =>
    (push callback 4 state (encGroup b1 [b2, b3])).bind (encLoop data)

/-- `Base64Enc`: the state of the callback, or `none` where it returns `-1`. -/
def base64Enc (data : List UInt8) (state : σ) : Option σ :=
  (encLoop callback data (state, [])).bind (flush callback)

/-- The loop of `Base64Dec`. A text that ends inside a group is an error. -/
def decLoop : List UInt8 → σ × List UInt8 → Option (σ × List UInt8)
  | [], state => some state
  | a :: b :: c :: d :: data, state =>
    (decGroup a b c d).bind fun group => (push callback 3 state group).bind (decLoop data)
  | _, _ => none

/-- `Base64Dec`: the state of the callback and the size that is returned, that of the buffer
at the end. -/
def base64Dec (data : List UInt8) (state : σ) : Option (σ × Nat) :=
  (decLoop callback data (state, [])).bind fun last =>
    (flush callback last).map (·, last.2.length)

end Loops

/-! ## What is encoded is decoded -/

/-- The text of a byte string: that of its groups, one after the other. -/
def encText : List UInt8 → List UInt8
  | [] => []
  | [b1] => encGroup b1 []
  | [b1, b2] => encGroup b1 [b2]
  | b1 :: b2 :: b3 :: data => encGroup b1 [b2, b3] ++ encText data

theorem encLoop_collect (data : List UInt8) (state : List UInt8 × List UInt8) :
    ∃ next, encLoop collect data state = some next ∧
      next.1 ++ next.2 = state.1 ++ state.2 ++ encText data := by
  fun_induction encText data generalizing state with
  | case1 => exact ⟨state, rfl, (append_nil _).symm⟩
  | case2 b1 | case3 b1 b2 => exact push_collect 4 _
  | case4 b1 b2 b3 data ih =>
    obtain ⟨next, pushed, kept⟩ := push_collect 4 (encGroup b1 [b2, b3])
    obtain ⟨last, rest, kept'⟩ := ih next
    refine ⟨last, ?_, ?_⟩
    · rw [encLoop, pushed]
      exact rest
    · rw [kept', kept, append_assoc _ _ (encText data)]

theorem base64Enc_collect (data : List UInt8) : base64Enc collect data [] = some (encText data) := by
  obtain ⟨next, ran, kept⟩ := encLoop_collect data ([], [])
  rw [base64Enc, ran, bind_some, flush_collect, kept]
  rfl

theorem lt_of_and_eq {x : UInt8} (six : x &&& 0x3F = x) : x < 64 := by
  have bound := UInt8.and_le_right (a := x) (b := 0x3F)
  rw [six] at bound
  exact UInt8.lt_of_le_of_lt bound (by decide)

/-- The six-bit values of a group are below 64. -/
theorem group_bits_lt (b1 b2 b3 : UInt8) :
    (b1 &&& 0xFC) >>> 2 < 64 ∧ (b1 &&& 0x03) <<< 4 ||| (b2 &&& 0xF0) >>> 4 < 64 ∧
      (b2 &&& 0x0F) <<< 2 ||| (b3 &&& 0xCF) >>> 6 < 64 ∧ b3 &&& 0x3F < 64 := by
  refine ⟨lt_of_and_eq ?_, lt_of_and_eq ?_, lt_of_and_eq ?_, lt_of_and_eq ?_⟩ <;>
  · apply UInt8.toBitVec_inj.mp
    ext i inside
    interval_cases i <;> simp

/-- The bytes of a group come back from its six-bit values. -/
theorem group_bits (b1 b2 b3 : UInt8) :
    ((b1 &&& 0xFC) >>> 2) <<< 2 ||| ((b1 &&& 0x03) <<< 4 ||| (b2 &&& 0xF0) >>> 4) >>> 4 = b1 ∧
    (((b1 &&& 0x03) <<< 4 ||| (b2 &&& 0xF0) >>> 4) &&& 0xF) <<< 4 |||
      ((b2 &&& 0x0F) <<< 2 ||| (b3 &&& 0xCF) >>> 6) >>> 2 = b2 ∧
    (((b2 &&& 0x0F) <<< 2 ||| (b3 &&& 0xCF) >>> 6) &&& 0x3) <<< 6 ||| (b3 &&& 0x3F) = b3 := by
  refine ⟨?_, ?_, ?_⟩ <;>
  · apply UInt8.toBitVec_inj.mp
    ext i inside
    interval_cases i <;> simp

/-- A group that was encoded is decoded to its bytes. -/
theorem decLoop_encGroup {σ : Type} (callback : σ → List UInt8 → Option σ) (b1 : UInt8)
    (more : List UInt8) (few : more.length ≤ 2) (rest : List UInt8) (state : σ × List UInt8) :
    decLoop callback (encGroup b1 more ++ rest) state =
      (push callback 3 state (b1 :: more)).bind (decLoop callback rest) := by
  have valid : ∀ x : UInt8, x < 64 → x ≠ 0xFF ∧ x ≠ 64 := forall_byte (by decide +kernel)
  have padding : decChar (61 &&& 0x7f) = 64 := by decide
  match more, few with
  | [], _ =>
    obtain ⟨s1, s2, -, -⟩ := group_bits_lt b1 0 0
    obtain ⟨r1, -, -⟩ := group_bits b1 0 0
    simp only [UInt8.zero_and, UInt8.zero_shiftRight, UInt8.or_zero] at s2 r1
    simp [encGroup, decLoop, decGroup, decChar_enc6Bits, padding, s1, s2, valid _ s1, valid _ s2,
      r1]
  | [b2], _ =>
    obtain ⟨s1, s2, s3, -⟩ := group_bits_lt b1 b2 0
    obtain ⟨r1, r2, -⟩ := group_bits b1 b2 0
    simp only [UInt8.zero_and, UInt8.zero_shiftRight, UInt8.or_zero] at s3 r2
    simp [encGroup, decLoop, decGroup, decChar_enc6Bits, padding, s1, s2, s3, valid _ s1,
      valid _ s2, valid _ s3, r1, r2]
  | [b2, b3], _ =>
    obtain ⟨s1, s2, s3, s4⟩ := group_bits_lt b1 b2 b3
    obtain ⟨r1, r2, r3⟩ := group_bits b1 b2 b3
    simp [encGroup, decLoop, decGroup, decChar_enc6Bits, s1, s2, s3, s4, valid _ s1, valid _ s2,
      valid _ s3, valid _ s4, r1, r2, r3]

/-- While whole groups fill the buffer, it is sent at 510 bytes. -/
theorem push_group {state : List UInt8 × List UInt8} {group : List UInt8}
    (whole : state.2.length % 3 = 0) (inside : state.2.length ≤ 510) (some' : group ≠ [])
    (few : group.length ≤ 3) :
    ∃ next, push collect 3 state group = some next ∧
      next.1 ++ next.2 = state.1 ++ state.2 ++ group ∧ state.1.length ≤ next.1.length ∧
      next.2.length ≤ 510 ∧ (group.length = 3 → next.2.length % 3 = 0) ∧
      (next.1.length = state.1.length ↔ state.2.length + group.length ≤ 510) := by
  have positive := length_pos_iff.mpr some'
  unfold push
  split
  next full =>
    refine ⟨_, rfl, rfl, ?_⟩
    simp only [length_append]
    omega
  next room =>
    refine ⟨_, rfl, (append_assoc _ _ _).symm, ?_⟩
    simp only [length_append, true_iff]
    omega

/-- The last group. -/
theorem decLoop_last {state : List UInt8 × List UInt8} (whole : state.2.length % 3 = 0)
    (inside : state.2.length ≤ 510) (b1 : UInt8) {more : List UInt8} (few : more.length ≤ 2) :
    ∃ next, decLoop collect (encGroup b1 more) state = some next ∧
      next.1 ++ next.2 = state.1 ++ state.2 ++ b1 :: more ∧ state.1.length ≤ next.1.length ∧
      (next.1.length = state.1.length ↔ state.2.length + (b1 :: more).length ≤ 510) := by
  obtain ⟨next, pushed, kept, sent, -, -, all⟩ :=
    push_group whole inside (cons_ne_nil b1 more) (Nat.succ_le_succ few)
  have turn := decLoop_encGroup collect b1 more few [] state
  rw [append_nil, pushed] at turn
  exact ⟨next, turn, kept, sent, all⟩

/-- The bytes come back in their order; nothing has been sent exactly if they fit one block. -/
theorem decLoop_encText (data : List UInt8) (state : List UInt8 × List UInt8)
    (whole : state.2.length % 3 = 0) (inside : state.2.length ≤ 510) :
    ∃ next, decLoop collect (encText data) state = some next ∧
      next.1 ++ next.2 = state.1 ++ state.2 ++ data ∧ state.1.length ≤ next.1.length ∧
      (next.1.length = state.1.length ↔ state.2.length + data.length ≤ 510) := by
  fun_induction encText data generalizing state with
  | case1 =>
    refine ⟨state, rfl, (append_nil _).symm, le_rfl, ?_⟩
    simpa using inside
  | case2 b1 => exact decLoop_last whole inside b1 (Nat.zero_le 2)
  | case3 b1 b2 => exact decLoop_last whole inside b1 (Nat.le_succ 1)
  | case4 b1 b2 b3 data ih =>
    obtain ⟨next, pushed, kept, sent, inside', whole', all⟩ :=
      push_group whole inside (cons_ne_nil b1 [b2, b3]) (Nat.le_refl 3)
    obtain ⟨final, ran, kept', sent', all'⟩ := ih next (whole' rfl) inside'
    have lengths := congrArg length kept
    simp only [length_append, length_cons, length_nil] at lengths all ⊢
    refine ⟨final, ?_, ?_, by omega, by omega⟩
    · rw [decLoop_encGroup collect b1 [b2, b3] (Nat.le_refl 2), pushed]
      exact ran
    · rw [kept', kept, append_assoc]
      rfl

/-! ## What is accepted -/

/-- Padded Base64 text: groups of four characters of the alphabet, of which the last may end
with one or two of padding. -/
def IsBase64 : List UInt8 → Prop
  | [] => True
  | a :: b :: c :: d :: rest =>
    a ∈ encTable ∧ b ∈ encTable ∧
      if rest = [] then c ∈ encTable ∧ (d ∈ encTable ∨ d = 61) ∨ c = 61 ∧ d = 61
      else c ∈ encTable ∧ d ∈ encTable ∧ IsBase64 rest
  | _ => False

/-- Padding is nowhere but at the end, where it is at most two characters. -/
def PaddedAtEnd (t : List UInt8) : Prop :=
  61 ∉ t.dropLast.dropLast ∧ (t.dropLast.getLast? = some 61 → t.getLast? = some 61)

/-- What the decoder accepts are whole groups of characters that it can decode. -/
theorem decLoop_groups {σ : Type} {callback : σ → List UInt8 → Option σ} :
    ∀ (t : List UInt8) {state next : σ × List UInt8}, decLoop callback t state = some next →
      t.length % 4 = 0 ∧ ∀ c ∈ t, decChar (c &&& 0x7f) ≠ 0xFF
  | [], _, _, _ => ⟨rfl, nofun⟩
  | a :: b :: c :: d :: data, state, next, accepted => by
    obtain ⟨group, decoded, rest⟩ := bind_eq_some_iff.mp accepted
    obtain ⟨next', -, further⟩ := bind_eq_some_iff.mp rest
    obtain ⟨length, valid⟩ := decLoop_groups data further
    unfold decGroup at decoded
    obtain ⟨ok, -⟩ := ite_none_left_eq_some.mp decoded
    simp only [not_or] at ok
    simp only [length_cons, forall_mem_cons]
    exact ⟨by omega, ok.1, ok.2.1, ok.2.2.1, ok.2.2.2, valid⟩
  | [_], _, _, accepted => absurd accepted nofun
  | [_, _], _, _, accepted => absurd accepted nofun
  | [_, _, _], _, _, accepted => absurd accepted nofun

theorem paddedAtEnd_cons (a x y : UInt8) (t : List UInt8) :
    PaddedAtEnd (a :: x :: y :: t) ↔ a ≠ 61 ∧ PaddedAtEnd (x :: y :: t) := by
  simp only [PaddedAtEnd, dropLast_cons_cons, getLast?_cons_cons, mem_cons, not_or,
    and_assoc, ne_comm, ne_eq]

theorem paddedAtEnd_pair (c d : UInt8) : PaddedAtEnd [c, d] ↔ (c = 61 → d = 61) := by
  simp [PaddedAtEnd]

/-- Among such texts those with padding at the end, and without the eighth bit, are the valid
ones. -/
theorem isBase64_iff : ∀ (t : List UInt8), t.length % 4 = 0 →
    (∀ c ∈ t, decChar (c &&& 0x7f) ≠ 0xFF) →
      (IsBase64 t ↔ (∀ c ∈ t, c < 128) ∧ PaddedAtEnd t)
  | [], _, _ => by simp [IsBase64, PaddedAtEnd]
  | a :: b :: c :: d :: rest, whole, valid => by
    have alphabet : ∀ x ∈ a :: b :: c :: d :: rest, (x ∈ encTable ↔ x < 128 ∧ x ≠ 61) :=
      fun x inside => ⟨encTable_plain, fun plain =>
        (mem_encTable_of_decChar plain.1 (valid x inside)).resolve_right plain.2⟩
    simp only [forall_mem_cons] at alphabet valid ⊢
    obtain ⟨ha, hb, hc, hd, -⟩ := alphabet
    match rest, whole, valid with
    | [], _, _ =>
      have pair : (c ∈ encTable ∧ (d ∈ encTable ∨ d = 61) ∨ c = 61 ∧ d = 61) ↔
          (c < 128 ∧ d < 128) ∧ (c = 61 → d = 61) := by
        rw [hc, hd]
        by_cases padding : d = 61
        · by_cases both : c = 61 <;> simp [padding, both]
        · simp only [padding, or_false, and_false, imp_false]
          exact ⟨fun both => ⟨⟨both.1.1, both.2.1⟩, both.1.2⟩,
            fun both => ⟨⟨both.1.1, both.2⟩, both.1.2, padding⟩⟩
      rw [IsBase64, if_pos rfl, pair, paddedAtEnd_cons, paddedAtEnd_cons, paddedAtEnd_pair, ha, hb]
      constructor
      · rintro ⟨⟨a1, a2⟩, ⟨b1, b2⟩, ⟨c1, d1⟩, padded⟩
        exact ⟨⟨a1, b1, c1, d1, nofun⟩, a2, b2, padded⟩
      · rintro ⟨⟨a1, b1, c1, d1, -⟩, a2, b2, padded⟩
        exact ⟨⟨a1, a2⟩, ⟨b1, b2⟩, ⟨c1, d1⟩, padded⟩
    | e :: f :: rest, whole, valid =>
      have further := isBase64_iff (e :: f :: rest)
        (by simp only [length_cons] at whole ⊢; omega) valid.2.2.2.2
      rw [IsBase64, if_neg nofun, further, paddedAtEnd_cons, paddedAtEnd_cons, paddedAtEnd_cons,
        paddedAtEnd_cons, ha, hb, hc, hd]
      constructor
      · rintro ⟨⟨a1, a2⟩, ⟨b1, b2⟩, ⟨c1, c2⟩, ⟨d1, d2⟩, small, padded⟩
        exact ⟨⟨a1, b1, c1, d1, small⟩, a2, b2, c2, d2, padded⟩
      · rintro ⟨⟨a1, b1, c1, d1, small⟩, a2, b2, c2, d2, padded⟩
        exact ⟨⟨a1, a2⟩, ⟨b1, b2⟩, ⟨c1, c2⟩, ⟨d1, d2⟩, small, padded⟩
    | [e], whole, _ => exact absurd whole (by simp)
  | [_], whole, _ => absurd whole (by simp)
  | [_, _], whole, _ => absurd whole (by simp)
  | [_, _, _], whole, _ => absurd whole (by simp)

/-- Every byte string comes back from its text. The size that is returned is its size exactly
up to 510 bytes; and a text that is accepted is valid exactly if it has no eighth bit set
and padding at its end only. -/
theorem base64_correct_iff (x : List UInt8) :
    (∃ t n, base64Enc collect x [] = some t ∧ base64Dec collect t [] = some (x, n) ∧
      (n = x.length ↔ x.length ≤ 510)) ∧
    ∀ (σ : Type) (callback : σ → List UInt8 → Option σ) (t : List UInt8) (state : σ)
      (result : σ × Nat), base64Dec callback t state = some result →
        (IsBase64 t ↔ (∀ c ∈ t, c < 128) ∧ PaddedAtEnd t) := by
  constructor
  · obtain ⟨next, ran, kept, -, all⟩ := decLoop_encText x ([], []) rfl (by decide)
    have lengths := congrArg length kept
    simp only [nil_append, length_append, length_nil] at kept lengths all
    refine ⟨encText x, next.2.length, base64Enc_collect x, ?_, by omega⟩
    rw [base64Dec, ran, bind_some, flush_collect, kept]
    rfl
  · intro σ callback t state result accepted
    obtain ⟨last, ran, -⟩ := bind_eq_some_iff.mp accepted
    obtain ⟨whole, valid⟩ := decLoop_groups t ran
    exact isBase64_iff t whole valid

/-- Four bytes, which take two groups and padding. -/
theorem base64_correct_padded :
    (∃ t n, base64Enc collect [77, 97, 110, 255] [] = some t ∧
      base64Dec collect t [] = some ([77, 97, 110, 255], n) ∧ n = 4) ∧
    IsBase64 [84, 87, 70, 117, 47, 119, 61, 61] := by
  obtain ⟨⟨t, n, encoded, decoded, size⟩, accepted⟩ := base64_correct_iff [77, 97, 110, 255]
  refine ⟨⟨t, n, encoded, decoded, size.mpr (by decide)⟩, ?_⟩
  exact (accepted _ collect [84, 87, 70, 117, 47, 119, 61, 61] [] ([77, 97, 110, 255], 4)
    (by decide)).mpr ⟨by decide +kernel, by unfold PaddedAtEnd; decide⟩

/-- Padding is accepted in front of a group, a set eighth bit is ignored, and of 513 bytes the
size of the last block is returned. -/
theorem base64Dec_faults :
    ((base64Dec collect [61, 61, 65, 65] []).isSome ∧ ¬ IsBase64 [61, 61, 65, 65]) ∧
    ((base64Dec collect [193, 65, 65, 65] []).isSome ∧ ¬ IsBase64 [193, 65, 65, 65]) ∧
    base64Dec collect (encText (List.replicate 513 0)) [] = some (List.replicate 513 0, 3) := by
  refine ⟨⟨by decide, ?_⟩, ⟨by decide, ?_⟩, by decide +kernel⟩
  · exact fun valid => absurd (encTable_plain valid.1).2 (by decide)
  · exact fun valid => absurd (encTable_plain valid.1).1 (by decide)

end Omi.Base
