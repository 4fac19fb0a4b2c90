import Omi.Data.Codec
import Omi.Data.ZString

/-!
# The packing buffer

`Buf` appends scalars, strings and arrays at their natural alignment and reads them
back from an offset. A packed buffer holds at most `2^31` bytes: `Buf_Reserve` rounds
the capacity up to a power of two in 32 bits, which is zero for anything larger, so a
larger append has no defined result. All offsets stay below that bound and the 32-bit
sums of the reader do not wrap on a packed buffer.

A string is packed as a pointer into the buffer: it is read up to its terminator, and
the packed size only moves the offset.
-/

namespace Omi.Base

open List Bytes Codec

/-- The largest capacity that `Buf_Reserve` provides. -/
def bufLimit : Nat := 2 ^ 31

/-- `(offset + boundary - 1) & ~(boundary - 1)` in 32 bits. -/
def aligned (boundary offset : Nat) : Nat :=
  (offset + (boundary - 1)) % 2 ^ 32 / boundary * boundary

section Pack

variable (garbage : Nat → UInt8)

/-- Append an object of `width` bytes at a boundary. -/
def packScalar (boundary width value : Nat) : Pack Unit := do
  pad bufLimit garbage boundary
  append bufLimit (leBytes width value)

/-- `Buf_PackU8`. -/
def packU8 (x : Nat) : Pack Unit := packScalar garbage 1 1 x

/-- `Buf_PackU32`. -/
def packU32 (x : Nat) : Pack Unit := packScalar garbage 4 4 x

/-- `Buf_PackU64`, which is also `Buf_PackPtrdiff_t`. -/
def packU64 (x : Nat) : Pack Unit := packScalar garbage 8 8 x

/-- A size and that many bytes of a string. -/
def packSized (s : ZString) (size : Nat) : Pack Unit := do
  packU32 garbage size
  append bufLimit (s.bytes.take size)

/-- `Buf_PackStr`. -/
def packStr : Option ZString → Pack Unit
  | none => packU32 garbage 0
  | some s => packSized garbage s ((s.length + 1) % 2 ^ 32)

/-- `Buf_PackStrLen`. -/
def packStrLen (s : ZString) (size : Nat) : Pack Unit :=
  packSized garbage s ((size + 1) % 2 ^ 32)

/-- The data of an array. -/
def arrayBytes {width : Nat} (items : List (Fin (256 ^ width))) : List UInt8 :=
  items.flatMap fun x => leBytes width x.val

/-- `Buf_PackU8A` and its companions. Only the 64-bit arrays have a boundary of their own; the
byte count of the data is a 32-bit argument. -/
def packArray (boundary width : Nat) (items : List (Fin (256 ^ width))) : Pack Unit := do
  packU32 garbage items.length
  if items = [] then pure ()
  else do
    pad bufLimit garbage boundary
    append bufLimit ((arrayBytes items).take (items.length * width % 2 ^ 32))

/-- The table of `Buf_PackStrA`: where each string starts behind the table, and where the last
one ends. -/
def packOffsets : Nat → List ZString → Pack Unit
  | offset, [] => packU64 garbage offset
  | offset, s :: rest => do
      packU64 garbage offset
      packOffsets (offset + (s.length + 1)) rest

/-- The strings of `Buf_PackStrA`, one after the other. -/
def packStrings : List ZString → Pack Unit
  | [] => pure ()
  | s :: rest => do
      append bufLimit (s.bytes.take ((s.length + 1) % 2 ^ 32))
      packStrings rest

/-- `Buf_PackStrA`; an array with a NULL string is refused. -/
def packStrA (items : List (Option ZString)) : Pack Unit := do
  packU32 garbage items.length
  if items = [] then pure ()
  else
    match items.mapM id with
    | none => fun _ => none
    | some strings => do
        pad bufLimit garbage 8
        packOffsets garbage 0 strings
        packStrings strings

end Pack

/-! ## Reading -/

/-- Read an object of `width` bytes at a boundary. -/
def unpackScalar (boundary width : Nat) : Unpack (Fin (256 ^ width)) := do
  align boundary
  let bytes ← take width
  pure ⟨readLE bytes 0 width, readLE_lt bytes 0 width⟩

/-- `Buf_UnpackU8`. -/
def unpackU8 : Unpack (Fin (256 ^ 1)) := unpackScalar 1 1

/-- `Buf_UnpackU32`. -/
def unpackU32 : Unpack (Fin (256 ^ 4)) := unpackScalar 4 4

/-- `Buf_UnpackU64`, which is also `Buf_UnpackPtrdiff_t`. -/
def unpackU64 : Unpack (Fin (256 ^ 8)) := unpackScalar 8 8

/-- The C string at a position; without a terminator the reader would leave the buffer. -/
def stringAt (data : List UInt8) (position : Nat) : Option ZString :=
  if 0 ∈ data.drop position then
    some ⟨(data.drop position).takeWhile (· != 0), fun inside => by
      simpa using List.mem_takeWhile_imp inside⟩
  else none

/-- A string that occupies `size` bytes. -/
def takeStr (size : Nat) : Unpack ZString := fun data offset =>
  if offset + size ≤ data.length then (stringAt data offset).map (·, offset + size) else none

/-- `Buf_UnpackStr`. -/
def unpackStr : Unpack (Option ZString) := do
  let size ← unpackU32
  if size.val = 0 then pure none
  else do
    let s ← takeStr size
    pure (some s)

/-- Consecutive objects of one width. -/
def numbersOf (width : Nat) : Nat → List UInt8 → List (Fin (256 ^ width))
  | 0, _ => []
  | n + 1, bytes => ⟨readLE bytes 0 width, readLE_lt bytes 0 width⟩ ::
      numbersOf width n (bytes.drop width)

/-- `Buf_UnpackU8A` and its companions. `Buf_UnpackDTA` leaves the bound of the data to whoever
reads them. -/
def unpackArray (boundary width : Nat) : Unpack (List (Fin (256 ^ width))) := do
  let size ← unpackU32
  if size.val = 0 then pure []
  else do
    align boundary
    let bytes ← take (size * width)
    pure (numbersOf width size bytes)

/-- The table of a string array. -/
def unpackOffsets : Nat → Unpack (List Nat)
  | 0 => pure []
  | n + 1 => do
      let offset ← unpackU64
      let rest ← unpackOffsets n
      pure (offset.val :: rest)

/-- A 64-bit word as a `ptrdiff_t`. -/
def ptrdiff (word : Nat) : Int := if word < 2 ^ 63 then word else word - 2 ^ 64

/-- Where the strings of a table start: the offsets count from the first one, and `first` is
behind the table. The sum `offset + (n-start)` has 64 bits and a sign. -/
def stringPositions (first : Nat) (offsets : List Nat) : List Int :=
  offsets.map fun n => (first + (ptrdiff n - ptrdiff (offsets.headD 0))).bmod (2 ^ 64)

/-- The C string at a computed position. -/
def stringAtInt (data : List UInt8) (position : Int) : Option ZString :=
  if 0 ≤ position then stringAt data position.toNat else none

/-- The loop of `Buf_UnpackStrA`. It also replaces each offset by the pointer to its string;
nothing reads the table as offsets again. -/
def unpackStrings (size : Nat) : Unpack (List ZString) := fun data table => do
  let first := (table + (size + 1) * 8) % 2 ^ 32
  guard (first ≤ data.length)
  let (offsets, _) ← unpackOffsets (size + 1) data table
  let positions := stringPositions first offsets
  guard (∀ position ∈ positions, position ≤ data.length)
  let strings ← (positions.take size).mapM (stringAtInt data)
  return (strings, (positions.getLastD 0 % 2 ^ 32).toNat)

/-- `Buf_UnpackStrA`. -/
def unpackStrA : Unpack (List ZString) := do
  let size ← unpackU32
  if size.val = 0 then pure []
  else do
    align 8
    unpackStrings size

/-! ## Scalars and strings -/

section RoundTrip

variable {garbage : Nat → UInt8}
  {boundary width x offset : Nat} {data rest buf out : List UInt8} {strings : List ZString}

theorem agrees_scalar {value : Nat} (positive : 0 < boundary) (fits : value < 256 ^ width) :
    Agrees (packScalar garbage boundary width value) (unpackScalar boundary width)
      fun x => x.val = value := by
  have read := agrees_append bufLimit (leBytes width value)
  rw [length_leBytes] at read
  refine (agrees_pad bufLimit garbage positive).bind fun _ _ => read.map ?_
  rintro _ rfl
  have whole := readLE_leBytes fits []
  rw [append_nil] at whole
  exact whole

theorem agrees_u8 (fits : x < 256) : Agrees (packU8 garbage x) unpackU8 fun y => y.val = x :=
  agrees_scalar Nat.one_pos fits

theorem agrees_u32 (fits : x < 2 ^ 32) : Agrees (packU32 garbage x) unpackU32 fun y => y.val = x :=
  agrees_scalar (by decide) fits

theorem agrees_u64 (fits : x < 2 ^ 64) : Agrees (packU64 garbage x) unpackU64 fun y => y.val = x :=
  agrees_scalar (by decide) fits

theorem length_bytes (s : ZString) : s.bytes.length = s.length + 1 := by
  unfold ZString.bytes
  rw [length_append]
  rfl

/-- A string is found where its bytes are. -/
theorem stringAt_of_drop {position : Nat} {s : ZString}
    (here : data.drop position = s.bytes ++ rest) : stringAt data position = some s := by
  have clean : ∀ c ∈ s.chars, (c != 0) = true := by
    intro c inside
    rw [bne_iff_ne]
    rintro rfl
    exact s.nul_free inside
  have chars : (s.bytes ++ rest).takeWhile (· != 0) = s.chars := by
    unfold ZString.bytes
    rw [append_assoc]
    exact (takeWhile_stop clean (by decide) rest).1
  have ends : (0 : UInt8) ∈ s.bytes ++ rest := by
    unfold ZString.bytes
    simp
  have inside : (0 : UInt8) ∈ data.drop position := by rw [here]; exact ends
  unfold stringAt
  rw [if_pos inside]
  refine congrArg some (ZString.ext ?_)
  change (data.drop position).takeWhile (· != 0) = s.chars
  rw [here, chars]

theorem agrees_takeStr (s : ZString) :
    Agrees (append bufLimit s.bytes) (takeStr (s.length + 1)) (· = s) := by
  intro buf out written
  obtain ⟨rfl, -⟩ := append_some written
  refine ⟨prefix_append _ _, fun rest => ⟨s, ?_, rfl⟩⟩
  have size := length_bytes s
  have here : (buf ++ s.bytes ++ rest).drop buf.length = s.bytes ++ rest := by
    rw [append_assoc, drop_left]
  unfold takeStr
  rw [if_pos (by simp only [length_append]; omega), stringAt_of_drop here, length_append, size]
  rfl

theorem agrees_sized {s : ZString} (fits : s.length + 1 < 2 ^ 32) :
    Agrees (packSized garbage s ((s.length + 1) % 2 ^ 32)) unpackStr (· = some s) := by
  rw [Nat.mod_eq_of_lt fits]
  unfold packSized
  rw [take_of_length_le (Nat.le_of_eq (length_bytes s))]
  refine (agrees_u32 fits).bind fun size same => ?_
  rw [if_neg (by omega), same]
  exact (agrees_takeStr s).map fun _ => congrArg some

/-- The string is short enough for its 32-bit size. -/
def ShortString (s : ZString) : Prop := s.length + 1 < 2 ^ 32

theorem agrees_str {s : Option ZString} (fits : ∀ t, s = some t → ShortString t) :
    Agrees (packStr garbage s) unpackStr (· = s) := by
  cases s with
  | some s => exact agrees_sized (fits s rfl)
  | none =>
    refine (agrees_u32 (by decide)).finish fun size same => ?_
    rw [if_pos same]
    exact .nothing rfl

/-! ## Arrays -/

variable {items : List (Fin (256 ^ width))}

theorem length_arrayBytes : (arrayBytes items).length = items.length * width := by
  unfold arrayBytes
  induction items with
  | nil => rw [flatMap_nil, length_nil, length_nil, Nat.zero_mul]
  | cons x items ih =>
    rw [flatMap_cons, length_append, ih, length_leBytes, length_cons, Nat.succ_mul, Nat.add_comm]

theorem numbersOf_arrayBytes : numbersOf width items.length (arrayBytes items) = items := by
  unfold arrayBytes
  induction items with
  | nil => rfl
  | cons x items ih =>
    rw [flatMap_cons, length_cons, numbersOf, drop_left' (length_leBytes width x.val), ih]
    exact congrArg (· :: items) (Fin.ext (readLE_leBytes x.isLt _))

/-- An array whose data are counted by 32 bits comes back. -/
theorem agrees_array (positive : 0 < boundary) (count : items.length < 2 ^ 32)
    (fits : items.length * width < 2 ^ 32) :
    Agrees (packArray garbage boundary width items) (unpackArray boundary width) (· = items) := by
  unfold packArray
  by_cases empty : items = []
  · rw [if_pos empty]
    subst empty
    refine (agrees_u32 count).bind fun size same => ?_
    have zero : size.val = 0 := same
    rw [if_pos zero]
    exact .nothing rfl
  · rw [if_neg empty, Nat.mod_eq_of_lt fits,
      take_of_length_le (Nat.le_of_eq (length_arrayBytes))]
    refine (agrees_u32 count).bind fun size same => ?_
    have some_ := length_pos_iff.mpr empty
    rw [if_neg (by omega)]
    refine (agrees_pad bufLimit garbage positive).bind fun _ _ => ?_
    have read := agrees_append bufLimit (arrayBytes items)
    rw [length_arrayBytes, ← same] at read
    refine read.map ?_
    rintro _ rfl
    rw [same, numbersOf_arrayBytes]

/-! ## String arrays -/

/-- The bytes of strings that follow one another. -/
def stringsBytes (strings : List ZString) : List UInt8 := strings.flatMap ZString.bytes

/-- The table of a string array. -/
def offsetsOf : Nat → List ZString → List Nat
  | offset, [] => [offset]
  | offset, s :: rest => offset :: offsetsOf (offset + (s.length + 1)) rest

theorem stringsBytes_cons (s : ZString) (rest : List ZString) :
    stringsBytes (s :: rest) = s.bytes ++ stringsBytes rest := flatMap_cons

/-- The offsets go from the first string to the end of the last one. -/
theorem offsetsOf_le :
    ∀ n ∈ offsetsOf offset strings, n ≤ offset + (stringsBytes strings).length := by
  induction strings generalizing offset with
  | nil =>
    intro n inside
    obtain rfl := mem_singleton.mp inside
    exact Nat.le_add_right _ _
  | cons s rest ih =>
    intro n inside
    have size := length_bytes s
    rw [stringsBytes_cons, length_append]
    rcases mem_cons.mp inside with rfl | later
    · exact Nat.le_add_right _ _
    · have bound := ih n later
      omega

theorem getLastD_positions (first offset : Nat) (default : Int) :
    ((offsetsOf offset strings).map fun n => ((first + n : Nat) : Int)).getLastD default =
      ((first + (offset + (stringsBytes strings).length) : Nat) : Int) := by
  induction strings generalizing offset default with
  | nil => rfl
  | cons s rest ih =>
    rw [offsetsOf, map_cons, getLastD_cons, ih, stringsBytes_cons, length_append, length_bytes]
    omega

theorem headD_offsetsOf (default : Nat) : (offsetsOf offset strings).headD default = offset := by
  cases strings <;> rfl

theorem agrees_offsets (fits : offset + (stringsBytes strings).length < 2 ^ 64) :
    Agrees (packOffsets garbage offset strings) (unpackOffsets (strings.length + 1))
      (· = offsetsOf offset strings) := by
  induction strings generalizing offset with
  | nil =>
    refine (agrees_u64 fits).finish fun x same => ?_
    exact .nothing (congrArg (· :: []) same)
  | cons s rest ih =>
    rw [stringsBytes_cons, length_append, length_bytes] at fits
    refine (agrees_u64 (by omega)).bind fun x same => ?_
    refine (ih (by omega)).map ?_
    rintro _ rfl
    exact congrArg (· :: _) same

/-- The table takes a word for each string and one for the end. -/
theorem packOffsets_length (aligned : 8 ∣ buf.length)
    (written : packOffsets garbage offset strings buf = some ((), out)) :
    out.length = buf.length + (strings.length + 1) * 8 := by
  have word : ∀ {x : Nat} {start next : List UInt8}, 8 ∣ start.length →
      packU64 garbage x start = some ((), next) → next.length = start.length + 8 := by
    intro x start next even packed
    obtain ⟨⟨⟨⟩, middle⟩, padded, appended⟩ := Option.bind_eq_some_iff.mp packed
    obtain ⟨-, same⟩ := pad_some (by decide) padded
    obtain ⟨rfl, -⟩ := append_some appended
    rw [length_append, same, alignUp_of_dvd (by decide) even, length_leBytes]
  induction strings generalizing offset buf with
  | nil => exact word aligned written
  | cons s rest ih =>
    obtain ⟨⟨⟨⟩, middle⟩, begun, ended⟩ := Option.bind_eq_some_iff.mp written
    have first := word aligned begun
    have later := ih (by omega) ended
    rw [length_cons]
    omega

theorem packStrings_some (short : ∀ s ∈ strings, ShortString s)
    (written : packStrings strings buf = some ((), out)) :
    out = buf ++ stringsBytes strings ∧ (strings ≠ [] → out.length ≤ bufLimit) := by
  induction strings generalizing buf with
  | nil =>
    cases written
    exact ⟨(append_nil _).symm, fun some_ => absurd rfl some_⟩
  | cons s rest ih =>
    obtain ⟨⟨⟨⟩, middle⟩, begun, ended⟩ := Option.bind_eq_some_iff.mp written
    have small : s.length + 1 < 2 ^ 32 := short s mem_cons_self
    rw [Nat.mod_eq_of_lt small, take_of_length_le (Nat.le_of_eq (length_bytes s))] at begun
    obtain ⟨rfl, fits⟩ := append_some begun
    obtain ⟨rfl, bounded⟩ := ih (fun t inside => short t (mem_cons_of_mem _ inside)) ended
    rw [stringsBytes_cons, ← append_assoc]
    refine ⟨rfl, fun _ => ?_⟩
    by_cases last : rest = []
    · subst last
      rw [show stringsBytes [] = [] from rfl, append_nil]
      exact fits
    · exact bounded last

theorem ptrdiff_of_lt {word : Nat} (small : word < 2 ^ 63) : ptrdiff word = word := by
  unfold ptrdiff
  rw [if_pos small]

theorem stringPositions_offsetsOf (first : Nat)
    (small : first + (stringsBytes strings).length < 2 ^ 63) :
    stringPositions first (offsetsOf 0 strings) =
      (offsetsOf 0 strings).map fun n => ((first + n : Nat) : Int) := by
  unfold stringPositions
  apply map_congr_left
  intro n inside
  have bound := offsetsOf_le n inside
  rw [headD_offsetsOf, ptrdiff_of_lt (by omega), ptrdiff_of_lt (by decide),
    Int.bmod_eq_of_le_mul_two (by omega) (by omega)]
  omega

/-- Each offset of the table leads to its string. -/
theorem mapM_stringAtInt {first : Nat}
    (here : data.drop (first + offset) = stringsBytes strings ++ rest) :
    (((offsetsOf offset strings).map fun n => ((first + n : Nat) : Int)).take
      strings.length).mapM (stringAtInt data) = some strings := by
  induction strings generalizing offset with
  | nil => rfl
  | cons s tail ih =>
    rw [stringsBytes_cons, append_assoc] at here
    have next : data.drop (first + (offset + (s.length + 1))) = stringsBytes tail ++ rest := by
      rw [← Nat.add_assoc, ← drop_drop, here, drop_left' (length_bytes s)]
    have found : stringAtInt data ((first + offset : Nat) : Int) = some s := by
      unfold stringAtInt
      rw [if_pos (Int.natCast_nonneg _), Int.toNat_natCast]
      exact stringAt_of_drop here
    rw [offsetsOf, map_cons, length_cons, take_succ_cons, mapM_cons, found, ih next]
    rfl

/-- The loop of `Buf_UnpackStrA` over a table and the strings behind it. -/
theorem unpackStrings_packed {table offsets : List UInt8} (aligned : 8 ∣ table.length)
    (packed : packOffsets garbage 0 strings table = some ((), offsets))
    (bounded : offsets.length + (stringsBytes strings).length ≤ bufLimit) :
    unpackStrings strings.length (offsets ++ stringsBytes strings ++ rest) table.length =
      some (strings, offsets.length + (stringsBytes strings).length) := by
  unfold bufLimit at bounded
  have size := packOffsets_length aligned packed
  obtain ⟨-, reads⟩ := agrees_offsets (by omega) table offsets packed
  obtain ⟨_, read, rfl⟩ := reads (stringsBytes strings ++ rest)
  have first : (table.length + (strings.length + 1) * 8) % 2 ^ 32 = offsets.length := by
    rw [← size]
    exact Nat.mod_eq_of_lt (by omega)
  have positions := @stringPositions_offsetsOf strings offsets.length (by omega)
  have here : (offsets ++ (stringsBytes strings ++ rest)).drop (offsets.length + 0) =
      stringsBytes strings ++ rest := drop_left
  have inside : ∀ position ∈ (offsetsOf 0 strings).map fun n => ((offsets.length + n : Nat) : Int),
      position ≤ ((offsets ++ (stringsBytes strings ++ rest)).length : Int) := by
    intro position listed
    obtain ⟨n, entry, rfl⟩ := mem_map.mp listed
    have bound := offsetsOf_le n entry
    simp only [length_append]
    omega
  rw [append_assoc]
  unfold unpackStrings
  rw [first, read]
  simp only [Option.bind_eq_bind, Option.bind_some, positions, guard, if_pos inside,
    mapM_stringAtInt here, getLastD_positions]
  rw [if_pos (by rw [length_append]; omega)]
  change some (strings, (((_ : Nat) : Int) % 2 ^ 32).toNat) = _
  congr 2
  omega

theorem mapM_id_eq_some {α : Type} {items : List (Option α)} {values : List α}
    (all : items.mapM id = some values) : items = values.map some := by
  rw [← forall₂_eq_eq_eq, forall₂_map_right_iff]
  exact mapM_eq_some all

theorem agrees_stringTable (some_ : strings ≠ []) (short : ∀ s ∈ strings, ShortString s) :
    Agrees (do pad bufLimit garbage 8; packOffsets garbage 0 strings; packStrings strings)
      (align 8 >>= fun _ => unpackStrings strings.length) (· = strings) := by
  intro buf out written
  obtain ⟨⟨⟨⟩, table⟩, padded, later⟩ := Option.bind_eq_some_iff.mp written
  obtain ⟨⟨⟨⟩, offsets⟩, tabled, ended⟩ := Option.bind_eq_some_iff.mp later
  obtain ⟨rfl, bounded⟩ := packStrings_some short ended
  obtain ⟨early, size⟩ := pad_some (by decide) padded
  have aligned : 8 ∣ table.length := size ▸ dvd_alignUp 8 buf.length
  have limit := bounded some_
  rw [length_append] at limit
  have small : 0 + (stringsBytes strings).length < 2 ^ 64 := by
    unfold bufLimit at limit
    omega
  obtain ⟨middle, -⟩ := agrees_offsets small table offsets tabled
  refine ⟨(early.trans middle).trans (prefix_append _ _), fun rest => ⟨strings, ?_, rfl⟩⟩
  have grown : table.length ≤ offsets.length := middle.length_le
  change ((align 8 _ buf.length).bind fun p => unpackStrings _ _ p.2) = _
  unfold align
  rw [if_pos (by simp only [length_append]; omega), Option.bind_some, ← size,
    unpackStrings_packed aligned tabled limit, length_append]

/-- A string array without NULL strings comes back. -/
theorem agrees_strA {items : List (Option ZString)} (count : items.length < 2 ^ 32)
    (short : ∀ s, some s ∈ items → ShortString s) :
    Agrees (packStrA garbage items) unpackStrA fun strings => strings.map some = items := by
  unfold packStrA
  by_cases empty : items = []
  · rw [if_pos empty]
    subst empty
    refine (agrees_u32 count).bind fun size same => ?_
    have zero : size.val = 0 := same
    rw [if_pos zero]
    exact .nothing rfl
  · rw [if_neg empty]
    refine (agrees_u32 count).bind fun size same => ?_
    have positive := length_pos_iff.mpr empty
    rw [if_neg (by omega)]
    cases all : items.mapM id with
    | none => exact .failure
    | some strings =>
      obtain rfl := mapM_id_eq_some all
      rw [length_map] at same positive
      rw [same]
      refine (agrees_stringTable (length_pos_iff.mp positive) ?_).weaken ?_
      · exact fun s inside => short s (mem_map_of_mem inside)
      · rintro _ rfl
        rfl

/-! ## How much is packed -/

theorem grows_scalar (boundary width value : Nat) :
    Grows width (packScalar garbage boundary width value) := by
  have bytes := grows_append bufLimit (leBytes width value)
  rw [length_leBytes] at bytes
  exact (grows_pad bufLimit garbage boundary).before bytes

theorem grows_u8 (x : Nat) : Grows 0 (packU8 garbage x) :=
  (grows_scalar 1 1 x).mono (Nat.zero_le _)

theorem grows_u32 (x : Nat) : Grows 0 (packU32 garbage x) :=
  (grows_scalar 4 4 x).mono (Nat.zero_le _)

theorem grows_sized (s : ZString) (size : Nat) : Grows 0 (packSized garbage s size) :=
  (grows_u32 size).before ((grows_append bufLimit _).mono (Nat.zero_le _))

theorem grows_str (s : Option ZString) : Grows 0 (packStr garbage s) := by
  cases s with
  | none => exact grows_u32 0
  | some s => exact grows_sized s _

theorem grows_array (boundary width : Nat) (items : List (Fin (256 ^ width))) :
    Grows 0 (packArray garbage boundary width items) := by
  refine (grows_u32 _).before ?_
  split
  · exact .nothing
  · exact (grows_pad bufLimit garbage boundary).before
      ((grows_append bufLimit _).mono (Nat.zero_le _))

theorem grows_offsets (offset : Nat) (strings : List ZString) :
    Grows 0 (packOffsets garbage offset strings) := by
  induction strings generalizing offset with
  | nil => exact (grows_scalar 8 8 offset).mono (Nat.zero_le _)
  | cons s rest ih => exact ((grows_scalar 8 8 offset).mono (Nat.zero_le _)).before (ih _)

theorem grows_strings : Grows 0 (packStrings strings) := by
  induction strings with
  | nil => exact .nothing
  | cons s rest ih => exact ((grows_append bufLimit _).mono (Nat.zero_le _)).before ih

theorem grows_strA (items : List (Option ZString)) : Grows 0 (packStrA garbage items) := by
  refine (grows_u32 _).before ?_
  split
  · exact .nothing
  · split
    · exact .failure
    · exact (grows_pad bufLimit garbage 8).before
        ((grows_offsets 0 _).before (grows_strings))

end RoundTrip

end Omi.Base
