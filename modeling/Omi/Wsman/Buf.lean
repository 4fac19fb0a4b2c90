import Omi.Base.Batch
import Omi.Xml.Text

/-!
# The response buffer

A `WSBuf` is one page that grows. Its text is always terminated, so a write needs
room for one byte more than it adds. Sizes and positions are `MI_Uint32` and wrap.
A write that would leave the page is not defined behaviour; the model gives up
there, as it does where the source reports a failure.

`WSBuf_AddString` writes a string with the characters that mean something in XML
replaced by references.
-/

namespace Omi.Wsman

open List Option
open Xml (ascii)

/-- `WSMAN_BUF_CAPACITY`. -/
def bufCapacity : Nat := 1024

/-- `WSMAN_ALLOCATION_LIMIT`, twice `MAX_ENVELOPE_SIZE`. -/
def allocationLimit : Nat := 250 * 1024 * 2

/-- A value stored in an `MI_Uint32`. -/
def uint32 (n : Nat) : Nat := n % 2 ^ 32

/-- `WSBuf`: the bytes in front of the position, and the size of the page. -/
structure WSBuf where
  text : List UInt8
  size : Nat
deriving DecidableEq, Repr

/-- `position`. -/
def WSBuf.position (buf : WSBuf) : Nat := buf.text.length

/-! ## The encoding table -/

/-- The decimal digits of a byte. -/
def decimal (c : UInt8) : List UInt8 :=
  if c < 10 then [48 + c]
  else if c < 100 then [48 + c / 10, 48 + c % 10]
  else [48 + c / 100, 48 + c / 10 % 10, 48 + c % 10]

/-- `s_specialCharEncodings` without the length byte, and the case of `WSBuf_AddString` for
bytes that the table does not have. -/
def specialCharEncoding (c : UInt8) : List UInt8 :=
  if c < 32 ∨ c = 127 then ascii "&#" ++ decimal c ++ ascii ";"
  else if c = 34 then ascii "&quot;"
  else if c = 38 then ascii "&amp;"
  else if c = 39 then ascii "&apos;"
  else if c = 60 then ascii "&lt;"
  else if c = 62 then ascii "&gt;"
  else [c]

/-- `s_specialChars`. The terminator is special, which ends the search for one. -/
def specialChar (c : UInt8) : Bool :=
  c < 32 || c == 34 || c == 38 || c == 39 || c == 60 || c == 62 || 127 ≤ c

/-- The encoding of a whole string. -/
def escape (s : List UInt8) : List UInt8 := s.flatMap specialCharEncoding

/-! ## Writing -/

section Writing

-- whether `PAL_Realloc` can give a block of the size
variable (alloc : Nat → Bool)

/-- `_ReallocPage`. -/
def WSBuf.reallocPage (buf : WSBuf) (newSize : Nat) : Option WSBuf :=
  let newSize := uint32 (uint32 newSize + bufCapacity) / bufCapacity * bufCapacity
  if allocationLimit < newSize + Base.pageHeaderSize then none
  else if alloc (Base.pageHeaderSize + newSize) then some { buf with size := newSize }
  else none

/-- Store bytes at the position, and a terminator behind them. -/
def WSBuf.store (buf : WSBuf) (bytes : List UInt8) : Option WSBuf :=
  if buf.position + bytes.length < buf.size then some { buf with text := buf.text ++ bytes }
  else none

/-- `__WSBuf_AddLit`. The largest size wraps to an empty reservation, from which the number of
bytes to copy is then computed. -/
def WSBuf.addLitSlow (buf : WSBuf) (str : List UInt8) (size : Nat) : Option WSBuf :=
  let n := uint32 (size + 1)
  if n = 0 then none
  else buf.reallocPage alloc (n + buf.position) >>= fun buf => buf.store (str.take size)

/-- `WSBuf_AddLit`. -/
def WSBuf.addLit (buf : WSBuf) (str : List UInt8) (size : Nat) : Option WSBuf :=
  if uint32 (size + buf.position) < buf.size then buf.store (str.take size)
  else buf.addLitSlow alloc str size

/-- `WSBuf_AddStartTag`. It copies more bytes than the tag has, and overwrites them. -/
def WSBuf.addStartTag (buf : WSBuf) (tag : List UInt8) : Option WSBuf :=
  buf.reallocPage alloc (uint32 (tag.length + 3) + buf.position) >>= fun buf =>
    buf.store (ascii "<" ++ tag ++ ascii ">")

/-- `WSBuf_AddEndTag`. -/
def WSBuf.addEndTag (buf : WSBuf) (tag : List UInt8) : Option WSBuf :=
  buf.reallocPage alloc (uint32 (tag.length + 4) + buf.position) >>= fun buf =>
    buf.store (ascii "</" ++ tag ++ ascii ">")

/-- The loop of `WSBuf_AddString`, which makes room for the next item and one byte more. -/
def WSBuf.encodeLoop : WSBuf → List UInt8 → Option WSBuf
  | buf, [] => some buf
  | buf, c :: str =>
    let item := specialCharEncoding c
    let room :=
      if buf.position ≤ buf.size ∧ buf.size - buf.position ≤ item.length + 1 then
        buf.reallocPage alloc (buf.size + item.length)
      else some buf
    room >>= fun buf => buf.store item >>= fun buf => buf.encodeLoop str

/-- `WSBuf_AddString`. The length of the part in front of the first special character is
passed on as an `MI_Uint32`. -/
def WSBuf.addString (buf : WSBuf) (str : ZString) : Option WSBuf :=
  let lead := str.chars.takeWhile fun c => !specialChar c
  let rest := str.chars.dropWhile fun c => !specialChar c
  let first := if lead = [] then some buf else buf.addLit alloc lead (uint32 lead.length)
  first >>= fun buf => buf.encodeLoop alloc rest

end Writing

/-! ## What is written -/

variable {buf after : WSBuf} {alloc : Nat → Bool}

/-- Neither the page nor its text is larger than the allocation limit. -/
def WSBuf.Bounded (buf : WSBuf) : Prop :=
  buf.size ≤ allocationLimit ∧ buf.position ≤ allocationLimit

/-- The buffer after bytes were added to it. -/
structure WSBuf.Wrote (buf : WSBuf) (bytes : List UInt8) (after : WSBuf) : Prop where
  text : after.text = buf.text ++ bytes
  bounded : buf.Bounded → after.Bounded

theorem WSBuf.Wrote.nothing (buf : WSBuf) : buf.Wrote [] buf where
  text := (append_nil _).symm
  bounded := id

theorem WSBuf.Wrote.trans {between : WSBuf} {first second : List UInt8}
    (one : buf.Wrote first between) (two : between.Wrote second after) :
    buf.Wrote (first ++ second) after where
  text := by rw [two.text, one.text, append_assoc]
  bounded bounded := two.bounded (one.bounded bounded)

theorem store_ok {bytes : List UInt8} (run : buf.store bytes = some after) :
    buf.Wrote bytes after := by
  unfold WSBuf.store at run
  split at run
  · rename_i room
    cases run
    refine ⟨rfl, fun bounded => ⟨bounded.1, ?_⟩⟩
    rw [WSBuf.position, length_append]
    exact Nat.le_trans (Nat.le_of_lt room) bounded.1
  · cases run

theorem reallocPage_ok {newSize : Nat} (run : buf.reallocPage alloc newSize = some after) :
    buf.Wrote [] after := by
  unfold WSBuf.reallocPage at run
  simp only at run
  split at run
  · cases run
  · rename_i small
    split at run
    · cases run
      refine ⟨(append_nil _).symm, fun bounded => ⟨?_, bounded.2⟩⟩
      dsimp only
      omega
    · cases run

/-- Room is made for the bytes that are stored, as both kinds of tag do. -/
theorem reallocPage_store_ok {newSize : Nat} {bytes : List UInt8}
    (run : (buf.reallocPage alloc newSize >>= (·.store bytes)) = some after) :
    buf.Wrote bytes after := by
  obtain ⟨grown, made, stored⟩ := bind_eq_some_iff.mp run
  exact (reallocPage_ok made).trans (store_ok stored)

theorem addLit_ok {str : List UInt8} {size : Nat} (run : buf.addLit alloc str size = some after) :
    buf.Wrote (str.take size) after := by
  unfold WSBuf.addLit at run
  split at run
  · exact store_ok run
  · unfold WSBuf.addLitSlow at run
    simp only at run
    split at run
    · cases run
    · exact reallocPage_store_ok run

theorem encodeLoop_ok {str : List UInt8} (run : buf.encodeLoop alloc str = some after) :
    buf.Wrote (escape str) after := by
  induction str generalizing buf with
  | nil =>
    cases run
    exact .nothing _
  | cons c str ih =>
    unfold WSBuf.encodeLoop at run
    obtain ⟨grown, made, run⟩ := bind_eq_some_iff.mp run
    obtain ⟨written, stored, run⟩ := bind_eq_some_iff.mp run
    have same : buf.Wrote [] grown := by
      split at made
      · exact reallocPage_ok made
      · cases made
        exact .nothing _
    exact same.trans ((store_ok stored).trans (ih run))

theorem encoding_of_not_special (c : UInt8) :
    specialChar c = false → specialCharEncoding c = [c] := by
  revert c
  exact forall_byte (by decide +kernel)

theorem escape_of_plain {s : List UInt8} (plain : ∀ c ∈ s, specialChar c = false) :
    escape s = s := by
  induction s with
  | nil => rfl
  | cons c s ih =>
    change specialCharEncoding c ++ escape s = c :: s
    rw [encoding_of_not_special c (plain c mem_cons_self),
      ih fun d inside => plain d (mem_cons_of_mem _ inside)]
    rfl

theorem escape_append (s t : List UInt8) : escape (s ++ t) = escape s ++ escape t :=
  flatMap_append

/-- What a call that succeeds has written: the part in front of the first special character, as
far as its length is an `MI_Uint32`, and the encoding of the rest. -/
theorem addString_text {str : ZString} (run : buf.addString alloc str = some after) :
    buf.Wrote ((str.chars.takeWhile fun c => !specialChar c).take
        (uint32 (str.chars.takeWhile fun c => !specialChar c).length) ++
      escape (str.chars.dropWhile fun c => !specialChar c)) after := by
  unfold WSBuf.addString at run
  obtain ⟨first, led, run⟩ := bind_eq_some_iff.mp run
  refine .trans ?_ (encodeLoop_ok run)
  split at led
  · rename_i none
    cases led
    rw [none, take_nil]
    exact .nothing _
  · exact addLit_ok led

/-- A call that succeeds has written the encoding, unless the count of leading plain bytes does
not fit 32 bits. -/
theorem addString_ok {str : ZString} (run : buf.addString alloc str = some after)
    (few : (str.chars.takeWhile fun c => !specialChar c).length < 2 ^ 32) :
    after.text = buf.text ++ escape str.chars := by
  have plain : escape (str.chars.takeWhile fun c => !specialChar c) =
      str.chars.takeWhile fun c => !specialChar c := by
    refine escape_of_plain ?_
    intro c inside
    have kept := mem_takeWhile_imp inside
    simpa using kept
  have parts : escape str.chars = (str.chars.takeWhile fun c => !specialChar c) ++
      escape (str.chars.dropWhile fun c => !specialChar c) := by
    conv_lhs => rw [← takeWhile_append_dropWhile (p := fun c => !specialChar c)
      (l := str.chars), escape_append, plain]
  have all : (str.chars.takeWhile fun c => !specialChar c).take
      (uint32 (str.chars.takeWhile fun c => !specialChar c).length) =
      str.chars.takeWhile fun c => !specialChar c := by
    refine take_of_length_le (Nat.le_of_eq ?_)
    exact (Nat.mod_eq_of_lt few).symm
  rw [(addString_text run).text, all, parts]

end Omi.Wsman
