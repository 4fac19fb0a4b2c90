import Omi.Protocol.Framing

/-!
# The header on both sides

The sender's header is a record of little-endian fields; the receiver reads the
same fields from its zeroed buffer while the header arrives. What it sees of a
header that has arrived in part: a page count of zero until the first byte of the
count is there and the real count from then on, and page sizes that never exceed
the real ones. A complete header reads as it was written.
-/

namespace Omi.Protocol

open List Base Bytes Cursor

/-- A message that can be sent: its pages are not empty, and count, sizes and addresses are
inside the limits of the header. -/
structure WireMessage.Valid (m : WireMessage) : Prop where
  some_page : m.pages ≠ []
  pages_le : m.pages.length ≤ headerMaxPages
  address : m.originalMessagePointer < 2 ^ 64
  page : ∀ p ∈ m.pages, p.content ≠ [] ∧ p.content.length ≤ maxEnvelopeSize ∧
    p.pagePointer < 2 ^ 64

/-- The page information that announces a page. -/
def WirePage.info (p : WirePage) : BatchInfoItem := ⟨p.pagePointer, p.content.length⟩

/-- The contents of the pages. -/
def WireMessage.contents (m : WireMessage) : List (List UInt8) := m.pages.map WirePage.content

/-- The receiver's view of a message that has arrived unchanged. -/
def WireMessage.received (m : WireMessage) : Received :=
  ⟨m.originalMessagePointer, m.pages.map WirePage.info, m.contents⟩

/-- The receive state while the header comes in. -/
def RecvState.ofHeader (arrived : List UInt8) : RecvState :=
  ⟨padded headerSize arrived, arrived.length, 0, none⟩

theorem RecvState.ofHeader_nil : RecvState.ofHeader [] = RecvState.reset := rfl

theorem length_flatMap_encodeItem (pages : List WirePage) :
    (pages.flatMap WirePage.encodeItem).length = 16 * pages.length := by
  induction pages with
  | nil => rfl
  | cons p pages ih =>
    rw [flatMap_cons, length_append, ih, length_cons, WirePage.encodeItem,
      length_append, length_leBytes, length_leBytes]
    omega

variable {version : Nat} {m : WireMessage}

@[simp] theorem length_header : (m.header version).length = headerBytes m.pages.length := by
  unfold WireMessage.header headerBytes
  simp only [length_append, length_leBytes, length_flatMap_encodeItem]
  omega

/-! ## Fields of a complete header -/

theorem readLE_padded (size : Nat) (bytes : List UInt8) (p width : Nat) :
    readLE (padded size bytes) p width = readLE bytes p width :=
  readLE_congr fun _ _ => getD_padded _ _ _

theorem readLE_header_magic : readLE (m.header version) 0 4 = protocolMagic :=
  readLE_leBytes (by decide) _

theorem readLE_header_count (valid : m.Valid) :
    readLE (m.header version) 12 4 = m.pages.length := by
  have count := valid.pages_le
  rw [WireMessage.header, ← append_assoc, ← append_assoc]
  apply readLE_append
  · unfold headerMaxPages at count
    omega
  · simp only [length_append, length_leBytes]

theorem readLE_header_address (valid : m.Valid) :
    readLE (m.header version) 16 8 = m.originalMessagePointer := by
  rw [WireMessage.header, ← append_assoc, ← append_assoc, ← append_assoc]
  apply readLE_append _ valid.address
  simp only [length_append, length_leBytes]

/-- The entry of a page, behind the entries of the pages before it. -/
theorem header_split_item {before after : List WirePage} {p : WirePage}
    (split : m.pages = before ++ p :: after) :
    ∃ front : List UInt8, front.length = 32 + 16 * before.length ∧
      m.header version = front ++ (leBytes 8 p.pagePointer ++ (leBytes 8 p.content.length ++
        after.flatMap WirePage.encodeItem)) := by
  refine ⟨(leBytes 4 protocolMagic ++ leBytes 4 version ++ leBytes 4 0 ++
    leBytes 4 m.pages.length ++ leBytes 8 m.originalMessagePointer ++ leBytes 8 0) ++
      before.flatMap WirePage.encodeItem, ?_, ?_⟩
  · simp only [length_append, length_leBytes, length_flatMap_encodeItem]
  · rw [WireMessage.header]
    conv_lhs => rw [split]
    rw [flatMap_append, flatMap_cons, WirePage.encodeItem]
    simp only [append_assoc, split]

theorem readLE_header_item (valid : m.Valid) {index : Nat} {p : WirePage}
    (found : m.pages[index]? = some p) :
    readLE (m.header version) (32 + 16 * index) 8 = p.pagePointer ∧
      readLE (m.header version) (40 + 16 * index) 8 = p.content.length := by
  obtain ⟨inside, rfl⟩ := List.getElem?_eq_some_iff.mp found
  have split : m.pages = m.pages.take index ++ m.pages[index] :: m.pages.drop (index + 1) := by
    rw [← drop_eq_getElem_cons inside, take_append_drop]
  obtain ⟨-, size, address⟩ := valid.page _ (getElem_mem inside)
  obtain ⟨front, length, bytes⟩ := @header_split_item version m _ _ _ split
  rw [length_take, Nat.min_eq_left (Nat.le_of_lt inside)] at length
  rw [bytes]
  refine ⟨readLE_append front address _ length.symm, ?_⟩
  rw [← append_assoc]
  apply readLE_append
  · unfold maxEnvelopeSize at size
    omega
  · rw [length_append, length_leBytes, length]
    omega

/-! ## A header that has arrived in part -/

variable {arrived rest : List UInt8}

section

variable (split : m.header version = arrived ++ rest)
include split

theorem getD_arrived {i : Nat}
    (inside : i < arrived.length) : arrived.getD i 0 = (m.header version).getD i 0 := by
  rw [split, getD_append _ _ _ _ inside]

theorem readLE_arrived {p width : Nat} (inside : p + width ≤ arrived.length) :
    readLE (padded headerSize arrived) p width = readLE (m.header version) p width := by
  rw [readLE_padded]
  apply readLE_congr
  intro i below
  exact getD_arrived split (by omega)

theorem magic_ofHeader
    (base : 4 ≤ arrived.length) : (RecvState.ofHeader arrived).magic = protocolMagic :=
  (readLE_arrived split base).trans readLE_header_magic

end

/-- The count is one byte and three zeros. -/
theorem header_count_bytes (valid : m.Valid) (i : Nat) (here : i < 3) :
    (m.header version).getD (13 + i) 0 = 0 := by
  have count := valid.pages_le
  unfold headerMaxPages at count
  have bytes : leBytes 4 m.pages.length = [UInt8.ofNat m.pages.length, 0, 0, 0] := by
    have high : m.pages.length / 256 = 0 := by omega
    simp only [leBytes, high]
    rfl
  rw [WireMessage.header, ← append_assoc, ← append_assoc, bytes, getD_append_right]
  · simp only [length_append, length_leBytes]
    rw [show 13 + i - (4 + 4 + 4) = i + 1 by omega]
    interval_cases i <;> rfl
  · simp only [length_append, length_leBytes]
    omega

section

variable (valid : m.Valid) (split : m.header version = arrived ++ rest)
include valid split

theorem getD_arrived_count (i : Nat) (here : i < 3) : arrived.getD (13 + i) 0 = 0 := by
  rcases Nat.lt_or_ge (13 + i) arrived.length with inside | behind
  · rw [getD_arrived split inside, header_count_bytes valid i here]
  · exact getD_eq_default _ _ behind

/-- The page count as the receiver sees it. -/
theorem pageCount_ofHeader :
    (RecvState.ofHeader arrived).pageCount =
      if arrived.length ≤ 12 then 0 else m.pages.length := by
  have count := @readLE_header_count version m valid
  have first := getD_arrived_count valid split 0 (by decide)
  have second := getD_arrived_count valid split 1 (by decide)
  have third := getD_arrived_count valid split 2 (by decide)
  have same : readLE arrived 12 4 = (arrived.getD 12 0).toNat := by
    simp only [readLE, first, second, third]
    rfl
  change readLE (padded headerSize arrived) 12 4 = _
  rw [readLE_padded, same]
  split
  · rename_i short
    rw [getD_eq_default _ _ short]
    rfl
  · rename_i long
    rw [getD_arrived split (by omega), ← count]
    have a := @header_count_bytes version m valid 0 (by decide)
    have b := @header_count_bytes version m valid 1 (by decide)
    have c := @header_count_bytes version m valid 2 (by decide)
    simp only [readLE, a, b, c]
    rfl

/-- No announced size is over the limit, also of entries that have not arrived. -/
theorem batchInfo_ofHeader_fits (base : 12 < arrived.length) :
    (RecvState.ofHeader arrived).batchInfo.any
      (fun info => maxEnvelopeSize < info.pageSize) = false := by
  rw [any_eq_false]
  intro info mem
  obtain ⟨index, inside, rfl⟩ := mem_map.mp mem
  rw [mem_range, pageCount_ofHeader valid split, if_neg (Nat.not_le.mpr base)] at inside
  have found := getElem?_eq_getElem inside
  obtain ⟨-, size, -⟩ := valid.page _ (getElem_mem inside)
  have grown := readLE_padded_le headerSize arrived rest (40 + 16 * index) 8
  rw [← split, readLE_padded headerSize (m.header version),
    (readLE_header_item valid found).2] at grown
  change ¬ decide (maxEnvelopeSize < readLE (padded headerSize arrived) (40 + 16 * index) 8) = true
  rw [decide_eq_true_eq]
  omega

end

/-! ## The complete header in the receive buffer -/

/-- A receive state that holds the whole header. -/
structure RecvState.Holds (s : RecvState) (version : Nat) (m : WireMessage) : Prop where
  buffer : s.recvBuffer = padded headerSize (m.header version)

variable {s : RecvState}

section

variable (holds : s.Holds version m) (valid : m.Valid)
include holds valid

theorem RecvState.Holds.pageCount : s.pageCount = m.pages.length := by
  unfold RecvState.pageCount
  rw [holds.buffer, readLE_padded, readLE_header_count valid]

theorem RecvState.Holds.originalMessagePointer :
    s.originalMessagePointer = m.originalMessagePointer := by
  unfold RecvState.originalMessagePointer
  rw [holds.buffer, readLE_padded, readLE_header_address valid]

theorem RecvState.Holds.batchInfo : s.batchInfo = m.pages.map WirePage.info := by
  apply ext_getElem?
  intro index
  unfold RecvState.batchInfo
  rw [getElem?_map, getElem?_map, holds.pageCount valid]
  rcases Nat.lt_or_ge index m.pages.length with inside | behind
  · obtain ⟨address, size⟩ := @readLE_header_item version m valid index _
      (getElem?_eq_getElem inside)
    rw [getElem?_range inside, getElem?_eq_getElem inside]
    unfold RecvState.batchInfoItem
    simp only [Option.map_some, holds.buffer, readLE_padded, address, size, WirePage.info]
  · rw [getElem?_eq_none behind, getElem?_eq_none (by simpa using behind)]
    rfl

end

end Omi.Protocol
