import Omi.Protocol.HeaderSafety
import Omi.Protocol.Header

/-!
# Messages over a link

A sender and a receiver are joined by a stream of bytes. Every socket call may
transfer less than it is offered, or nothing, so that header and pages are cut
anywhere. The receiver is described by what it still awaits of the message it is
reading: an iteration takes bytes off the front of that, and the message is handed
over when nothing is left. On the other side an iteration of the sender moves bytes
from the front of what is unsent to the end of the stream. The link invariant
follows: stream and unsent bytes together are the awaited rest of one message and
the messages after it.
-/

namespace Omi.Protocol

open List Base Bytes Cursor Run RecvState

/-- The bytes of a message on the wire. -/
def WireMessage.stream (version : Nat) (m : WireMessage) : List UInt8 :=
  (m.blocks version).flatten

theorem WireMessage.stream_eq (version : Nat) (m : WireMessage) :
    m.stream version = m.header version ++ m.contents.flatten := flatten_cons

theorem WireMessage.length_blocks (version : Nat) (m : WireMessage) :
    (m.blocks version).length = m.pages.length + 1 := by
  unfold WireMessage.blocks
  rw [length_cons, length_map]

theorem WireMessage.length_contents (m : WireMessage) : m.contents.length = m.pages.length :=
  length_map _

variable {m : WireMessage}

theorem WireMessage.Valid.contents_ne_nil (valid : m.Valid) : ∀ block ∈ m.contents, block ≠ [] := by
  intro block mem
  obtain ⟨p, inside, rfl⟩ := mem_map.mp mem
  exact (valid.page p inside).1

theorem WireMessage.Valid.blocks_ne_nil (valid : m.Valid) (version : Nat) :
    ∀ block ∈ m.blocks version, block ≠ [] := by
  refine forall_mem_cons.mpr ⟨length_pos_iff.mp ?_, valid.contents_ne_nil⟩
  rw [length_header]
  exact Nat.lt_of_lt_of_le (by decide) (Nat.le_add_right 32 _)

theorem WireMessage.Valid.body_ne_nil (valid : m.Valid) : m.contents.flatten ≠ [] := by
  obtain ⟨p, mem⟩ := exists_mem_of_ne_nil _ valid.some_page
  intro empty
  exact (valid.page p mem).1 (flatten_eq_nil_iff.mp empty _ (mem_map_of_mem mem))

/-! ## The sender -/

/-- The bytes that the sender has still to write. -/
def SendState.unsent (version : Nat) (s : SendState) : List UInt8 :=
  match s.message with
  | none => []
  | some m => (m.stream version).drop
      (position (m.blocks version) s.sendingPageIndex s.sentCurrentBlockBytes)

/-- The cursor of a busy sender is on a byte of its message. -/
def SendState.Busy (version : Nat) (s : SendState) : Prop :=
  ∀ m, s.message = some m → m.Valid ∧ s.sendingPageIndex < m.pages.length + 1 ∧
    OnElement (m.blocks version) s.sendingPageIndex s.sentCurrentBlockBytes

theorem SendState.busy_prepared (version : Nat) (valid : m.Valid) :
    (prepareMessageForSending m).Busy version := by
  intro m' same
  cases same
  exact ⟨valid, Nat.succ_pos _, onElement_zero (valid.blocks_ne_nil version)⟩

theorem SendState.unsent_prepared (version : Nat) :
    (prepareMessageForSending m).unsent version = m.stream version := rfl

/-- A write moves a nonempty part from the front of the unsent bytes to the stream. -/
theorem writeIteration_accepted {version : Nat} {s : SendState} (busy : s.Busy version)
    (sending : s.message = some m) (n : Nat) :
    let step := writeIteration version s (.accepted (n + 1))
    step.returned = none ∧ step.sent ≠ [] ∧ step.state.Busy version ∧
      s.unsent version = step.sent ++ step.state.unsent version := by
  obtain ⟨valid, index, on⟩ := busy m sending
  have lengths := m.length_blocks version
  have room := on.offset_lt_window (k := ioVecCount) (by omega) (by decide)
  have next := take_window_eq (m.blocks version) s.sendingPageIndex s.sentCurrentBlockBytes
    ioVecCount (n + 1)
  unfold writeIteration window
  simp only [sending]
  set buffers := ((m.blocks version).drop s.sendingPageIndex).take ioVecCount
  set sent := (buffers.flatten.drop s.sentCurrentBlockBytes).take (n + 1) with cut
  have size : sent.length = min (n + 1) (buffers.flatten.length - s.sentCurrentBlockBytes) := by
    rw [cut, length_take, length_drop]
  have some_ : sent ≠ [] := by
    apply length_pos_iff.mp
    omega
  obtain ⟨moved, lands⟩ := advance_window (n := sent.length) (valid.blocks_ne_nil version)
    (by decide) on (by omega : _ ≤ buffers.flatten.length)
  -- what has been sent comes off the front
  have unsent : s.unsent version = sent ++ (m.stream version).drop
      (position (m.blocks version) s.sendingPageIndex s.sentCurrentBlockBytes + sent.length) := by
    obtain ⟨rest, split⟩ := next
    unfold SendState.unsent
    simp only [sending]
    rw [← drop_drop, WireMessage.stream, ← split, drop_left]
  rw [if_neg some_]
  rw [← moved] at unsent
  split
  · rename_i done
    refine ⟨rfl, some_, fun _ none_ => (Option.some_ne_none _ none_.symm).elim, ?_⟩
    rw [lands.position_eq (done.trans lengths.symm), WireMessage.stream, drop_length] at unsent
    exact unsent
  · rename_i more
    refine ⟨rfl, some_, ?_, unsent⟩
    rintro _ ⟨⟩
    refine ⟨valid, ?_, lands⟩
    exact Nat.lt_of_le_of_ne (lands.index_le.trans (Nat.le_of_eq lengths)) more

/-! ## The receiver -/

/-- The number of bytes that the next socket call asks for. -/
def RecvState.requested (s : RecvState) : Nat :=
  if s.receivingPageIndex = 0 then headerBytes s.pageCount - s.receivedCurrentBlockBytes
  else
    match s.receivingBatch with
    | none => 0
    | some pages =>
      (window pages (s.receivingPageIndex - 1)).flatten.length - s.receivedCurrentBlockBytes

/-- While pages come in: the header is complete, the pages have their final sizes, and what
has arrived is filled in before the cursor. -/
structure RecvState.Filling (s : RecvState) (version : Nat) (m : WireMessage)
    (pages : List (List UInt8)) (index : Nat) (arrived : List UInt8) : Prop where
  holds : s.Holds version m
  batch : s.receivingBatch = some pages
  next : s.receivingPageIndex = index + 1
  sizes : pages.map List.length = m.contents.map List.length
  on : OnElement pages index s.receivedCurrentBlockBytes
  here : position pages index s.receivedCurrentBlockBytes = arrived.length
  filled : arrived <+: pages.flatten

/-- The receiver is in the middle of a message and has all of it but the given rest. -/
inductive RecvState.Awaits (version : Nat) (m : WireMessage) : RecvState → List UInt8 → Prop where
  | header {arrived rest : List UInt8} (split : m.header version = arrived ++ rest)
      (more : rest ≠ []) : Awaits version m (.ofHeader arrived) (rest ++ m.contents.flatten)
  | body {s : RecvState} {pages : List (List UInt8)} {index : Nat} {arrived rest : List UInt8}
      (filling : s.Filling version m pages index arrived)
      (split : m.contents.flatten = arrived ++ rest) (more : rest ≠ []) : Awaits version m s rest

variable {version : Nat}

theorem RecvState.awaits_reset (version : Nat) (m : WireMessage) :
    reset.Awaits version m (m.stream version) := by
  rw [m.stream_eq version, ← ofHeader_nil]
  refine .header (nil_append _).symm ?_
  apply length_pos_iff.mp
  rw [length_header]
  exact Nat.lt_of_lt_of_le (by decide) (Nat.le_add_right 32 _)

/-! ### While the header comes in -/

variable {chunk : List UInt8} {input : ReadInput}

section Header

variable {arrived rest : List UInt8}

section

variable (valid : m.Valid) (split : m.header version = arrived ++ rest)
include valid split

/-- The size asked for never goes beyond the real header. -/
theorem headerBytes_ofHeader_le :
    headerBytes (ofHeader arrived).pageCount ≤ (m.header version).length := by
  rw [pageCount_ofHeader valid split, length_header]
  unfold headerBytes
  split <;> omega

theorem readingHeader_ofHeader (more : rest ≠ []) : (ofHeader arrived).ReadingHeader where
  index := rfl
  arrived := ⟨arrived, rfl, rfl⟩
  short := by
    have lengths := congrArg length split
    have positive := length_pos_iff.mpr more
    rw [length_append, length_header] at lengths
    change arrived.length < _
    rw [pageCount_ofHeader valid split]
    unfold headerBytes at lengths ⊢
    split <;> omega
  count_le := by
    have count := valid.pages_le
    rw [pageCount_ofHeader valid split]
    split <;> omega

/-- A read that ends where the receiver asked for, before the end of the header. -/
theorem headerRead_base
    (long : 12 < arrived.length) {bufSize : Nat} (other : bufSize ≠ headerBytes m.pages.length)
    (verdict : CallbackResult) :
    headerRead (.ofHeader arrived) bufSize true verdict =
      .ok (.ofHeader arrived) none .prtContinue := by
  have count := pageCount_ofHeader valid split
  rw [if_neg (Nat.not_le.mpr long)] at count
  unfold headerRead
  rw [count, if_neg (Nat.not_lt.mpr valid.pages_le),
    if_neg (not_not.mpr (magic_ofHeader split (by omega))),
    batchInfo_ofHeader_fits valid split long, if_neg Bool.false_ne_true, if_pos other]

end

theorem requested_ofHeader : (ofHeader arrived).requested =
    headerBytes (ofHeader arrived).pageCount - arrived.length :=
  if_pos rfl

theorem afterBytes_ofHeader (clipped : chunk.length ≤ (ofHeader arrived).requested) :
    (ofHeader arrived).afterBytes chunk = .ofHeader (arrived ++ chunk) := by
  have whole : chunk.take (headerBytes (ofHeader arrived).pageCount -
      (ofHeader arrived).receivedCurrentBlockBytes) = chunk :=
    take_of_length_le clipped
  unfold afterBytes
  rw [whole]
  unfold fillHeader ofHeader
  simp only [overwrite_padded, length_append]

/-- The last byte of the header: pages of the announced sizes are allocated. -/
theorem headerRead_complete (valid : m.Valid) (verdict : CallbackResult) :
    ∃ next, headerRead (.ofHeader (m.header version)) (headerBytes m.pages.length) true verdict =
        .ok next none .prtContinue ∧ next.Awaits version m m.contents.flatten := by
  have holds : (ofHeader (m.header version)).Holds version m := ⟨rfl⟩
  have count := holds.pageCount valid
  have info := holds.batchInfo valid
  have whole : m.header version = m.header version ++ [] := (append_nil _).symm
  have long : 12 < (m.header version).length := by
    rw [length_header]
    exact Nat.lt_of_lt_of_le (by decide) (Nat.le_add_right 32 _)
  have created : createPages true (m.pages.map WirePage.info) =
      some (some (m.contents.map fun content => replicate content.length 0)) := by
    obtain ⟨p, pages, some_⟩ := exists_cons_of_ne_nil valid.some_page
    unfold WireMessage.contents
    rw [some_, map_cons, createPages, if_pos rfl]
    · simp only [map_cons, map_map, WirePage.info]
      rfl
    · simp
  have sizes : (m.contents.map fun content => replicate content.length (0 : UInt8)).map
      length = m.contents.map length := by
    rw [map_map]
    exact map_congr_left fun _ _ => length_replicate
  unfold headerRead
  rw [count, if_neg (Nat.not_lt.mpr valid.pages_le),
    if_neg (not_not.mpr (magic_ofHeader whole (by omega))),
    batchInfo_ofHeader_fits valid whole long, if_neg Bool.false_ne_true,
    if_neg (not_not.mpr rfl), info, created]
  dsimp only
  rw [if_neg (mt length_eq_zero_iff.mp valid.some_page)]
  have on := (onElement_zero valid.contents_ne_nil).congr sizes.symm
  exact ⟨_, rfl, .body ⟨⟨rfl⟩, rfl, rfl, sizes, on, rfl, nil_prefix⟩ rfl valid.body_ne_nil⟩

/-- A read of header bytes. -/
theorem readIteration_awaits_header (valid : m.Valid)
    (split : m.header version = arrived ++ (chunk ++ rest)) (some_ : chunk ≠ [])
    (clipped : chunk.length ≤ (ofHeader arrived).requested)
    (outcome : input.outcome = .bytes chunk) (allocates : input.allocates = true) :
    ∃ next, readIteration (.ofHeader arrived) input = .ok next none .prtContinue ∧
      next.Awaits version m (rest ++ m.contents.flatten) := by
  have reading := readingHeader_ofHeader valid split (by simp [some_])
  have bound := headerBytes_ofHeader_le valid split
  have split' : m.header version = (arrived ++ chunk) ++ rest := by
    rw [split, append_assoc]
  have lengths := congrArg length split'
  rw [length_append, length_header] at lengths
  rw [length_header] at bound
  rw [readIteration_bytes reading outcome some_, afterBytes_ofHeader clipped, allocates]
  by_cases complete : rest = []
  · have whole : arrived ++ chunk = m.header version := by
      rw [split', complete, append_nil]
    have size : (ofHeader (m.header version)).receivedCurrentBlockBytes =
        headerBytes m.pages.length := length_header
    have asked : headerBytes (ofHeader arrived).pageCount =
        headerBytes m.pages.length := by
      have lengths := congrArg length whole
      rw [length_append, length_header] at lengths
      have positive := length_pos_iff.mpr some_
      rw [requested_ofHeader] at clipped
      omega
    rw [whole, asked, if_pos size, complete, nil_append]
    exact headerRead_complete valid input.verdict
  · have short : (arrived ++ chunk).length < headerBytes m.pages.length := by
      have positive := length_pos_iff.mpr complete
      omega
    refine ⟨.ofHeader (arrived ++ chunk), ?_, .header split' complete⟩
    split
    · rename_i full
      have base : 32 ≤ headerBytes (ofHeader arrived).pageCount :=
        Nat.le_add_right 32 _
      change (arrived ++ chunk).length = _ at full
      exact headerRead_base valid split' (by omega) (by omega) input.verdict
    · rfl

end Header

/-! ### While the pages come in -/

/-- What arrives is added to what is filled in before the cursor. -/
theorem prefix_filledPages {pages : List (List UInt8)} {index offset : Nat}
    {chunk arrived : List UInt8} (nonempty : ∀ page ∈ pages, page ≠ [])
    (on : OnElement pages index offset)
    (room : offset + chunk.length ≤ (pages.drop index).flatten.length)
    (here : position pages index offset = arrived.length) (filled : arrived <+: pages.flatten) :
    arrived ++ chunk <+: (filledPages pages index offset chunk).flatten := by
  have front : arrived = (pages.take index).flatten ++ (pages.drop index).flatten.take offset := by
    rw [prefix_iff_eq_take.mp filled, ← here, position]
    conv_lhs => rw [← take_append_drop index pages, flatten_append]
    rw [take_append_drop, take_append, take_of_length_le (Nat.le_add_right _ _),
      Nat.add_sub_cancel_left]
  have flat : (filledPages pages index offset chunk).flatten = (pages.take index).flatten ++
      overwrite (pages.drop index).flatten offset chunk := by
    unfold filledPages
    rw [flatten_append, flatten_fill on.drop ?_ room]
    intro page mem
    exact nonempty page (mem_of_mem_drop mem)
  rw [flat, front, overwrite, ← append_assoc, ← append_assoc]
  exact prefix_append _ _

theorem length_window_le (pages : List (List UInt8)) (index : Nat) :
    (window pages index).flatten.length ≤ (pages.drop index).flatten.length := by
  conv_rhs => rw [← take_append_drop ioVecCount (pages.drop index), flatten_append, length_append]
  exact Nat.le_add_right _ _

namespace RecvState.Filling

variable {s : RecvState} {pages : List (List UInt8)} {index : Nat} {arrived : List UInt8}

section

variable (filling : s.Filling version m pages index arrived)
include filling

theorem length_pages : pages.length = m.pages.length := by
  have lengths := congrArg length filling.sizes
  rwa [length_map, length_map, m.length_contents] at lengths

theorem length_flatten : pages.flatten.length = m.contents.flatten.length := by
  rw [List.length_flatten, List.length_flatten, filling.sizes]

theorem pages_ne_nil (valid : m.Valid) : ∀ page ∈ pages, page ≠ [] := by
  intro page mem empty
  have size : page.length ∈ m.contents.map length :=
    filling.sizes ▸ mem_map_of_mem mem
  obtain ⟨content, inside, same⟩ := mem_map.mp size
  apply valid.contents_ne_nil content inside
  rw [← length_eq_zero_iff, same, empty, length_nil]

theorem requested_eq :
    s.requested = (window pages index).flatten.length - s.receivedCurrentBlockBytes := by
  have next := filling.next
  unfold requested
  rw [if_neg (by omega), filling.batch, next]
  rfl

/-- Some bytes are missing as long as the cursor is before the end, and none after it. -/
theorem index_eq_iff {rest : List UInt8} (split : m.contents.flatten = arrived ++ rest) :
    index = pages.length ↔ rest = [] := by
  have total := filling.length_flatten
  rw [split, length_append, ← filling.here] at total
  constructor
  · intro last
    rw [filling.on.position_eq last] at total
    exact length_eq_zero_iff.mp (by omega)
  · intro empty
    by_contra before
    have inside := filling.on.position_lt before
    rw [empty, length_nil] at total
    omega

end

/-- When everything has arrived the pages are those of the message. -/
theorem pages_eq (filling : s.Filling version m pages index m.contents.flatten) :
    pages = m.contents := by
  have flat : m.contents.flatten = pages.flatten :=
    filling.filled.eq_of_length filling.length_flatten.symm
  exact eq_iff_flatten_eq.mpr ⟨flat.symm, filling.sizes⟩

section

variable (filling : s.Filling version m pages index arrived)
include filling

/-- The receiver asks for at least one byte, and for none behind the message. -/
theorem requested_bounds
    {rest : List UInt8} (split : m.contents.flatten = arrived ++ rest) (more : rest ≠ []) :
    0 < s.requested ∧ s.requested ≤ rest.length := by
  have total := filling.length_flatten
  have behind := congrArg length
    (drop_position pages index s.receivedCurrentBlockBytes)
  have room := filling.on.offset_lt_window (k := ioVecCount)
    (mt (filling.index_eq_iff split).mp more) (by decide)
  have part := length_window_le pages index
  change _ < (window pages index).flatten.length at room
  rw [length_drop, length_drop, filling.here, total, split, length_append] at behind
  rw [filling.requested_eq]
  omega

/-- A chunk goes into the pages and moves the cursor behind it. -/
theorem fillPages (valid : m.Valid) (clipped : chunk.length ≤ s.requested) (some_ : chunk ≠ []) :
    (s.fillPages pages chunk).Filling version m
      (filledPages pages index s.receivedCurrentBlockBytes chunk)
      (index + (advance (window pages index) s.receivedCurrentBlockBytes chunk.length).1)
      (arrived ++ chunk) := by
  have nonempty := filling.pages_ne_nil valid
  have positive := length_pos_iff.mpr some_
  have part := length_window_le pages index
  rw [filling.requested_eq] at clipped
  obtain ⟨moved, lands⟩ := advance_window nonempty (n := chunk.length) (k := ioVecCount)
    (by decide) filling.on (by change _ ≤ (window pages index).flatten.length; omega)
  have same := map_length_filledPages chunk filling.on.drop.inFirst
  have back : s.receivingPageIndex - 1 = index := by
    rw [filling.next, Nat.add_sub_cancel]
  unfold RecvState.fillPages
  rw [back]
  refine ⟨⟨filling.holds.buffer⟩, rfl, ?_, same.trans filling.sizes, lands.congr same.symm, ?_, ?_⟩
  · change s.receivingPageIndex + _ = _
    rw [filling.next, Nat.add_right_comm]
  · rw [position_congr same, length_append, ← filling.here]
    exact moved
  · exact prefix_filledPages nonempty filling.on (by omega) filling.here filling.filled

/-- A read of bytes of the pages, with the guards resolved. -/
theorem readIteration_eq (valid : m.Valid) (clipped : chunk.length ≤ s.requested)
    (some_ : chunk ≠ []) (outcome : input.outcome = .bytes chunk) :
    readIteration s input =
      if index + (advance (window pages index) s.receivedCurrentBlockBytes chunk.length).1 =
          pages.length then
        .ok .reset (some ⟨m.originalMessagePointer, m.pages.map WirePage.info,
          filledPages pages index s.receivedCurrentBlockBytes chunk⟩) input.verdict
      else .ok (s.fillPages pages chunk) none .prtContinue := by
  have filled := filling.fillPages valid clipped some_
  have back : s.receivingPageIndex - 1 = index := by
    rw [filling.next, Nat.add_sub_cancel]
  have processed : processReceived (s.fillPages pages chunk) input.verdict =
      .ok .reset (some ⟨m.originalMessagePointer, m.pages.map WirePage.info,
        filledPages pages index s.receivedCurrentBlockBytes chunk⟩) input.verdict := by
    unfold processReceived
    rw [filled.batch, filled.holds.originalMessagePointer valid, filled.holds.batchInfo valid]
  rw [filling.requested_eq] at clipped
  unfold readIteration readPagesIteration
  rw [if_neg (by rw [filling.next]; exact Nat.succ_ne_zero _), filling.batch, outcome, back]
  dsimp only
  rw [take_of_length_le clipped, if_neg some_, filled.next, filled.holds.pageCount valid,
    filling.length_pages]
  simp only [Nat.add_right_cancel_iff, processed]

end

end RecvState.Filling

/-! ### One read -/

variable {s : RecvState} {rest : List UInt8}

/-- The receiver asks for at least one byte, and for none behind the message. -/
theorem RecvState.Awaits.requested_bounds (awaits : s.Awaits version m rest) (valid : m.Valid) :
    0 < s.requested ∧ s.requested ≤ rest.length := by
  cases awaits with
  | header split more =>
    have short := (readingHeader_ofHeader valid split more).short
    have bound := headerBytes_ofHeader_le valid split
    rw [requested_ofHeader, length_append]
    rw [split, length_append] at bound
    change length _ < _ at short
    omega
  | body filling split more => exact filling.requested_bounds split more

/-- A read takes bytes off the front of what is awaited. The message is handed over, as it
was sent, when nothing is left. -/
theorem RecvState.Awaits.read (awaits : s.Awaits version m (chunk ++ rest))
    (valid : m.Valid) (some_ : chunk ≠ []) (clipped : chunk.length ≤ s.requested)
    (outcome : input.outcome = .bytes chunk) (allocates : input.allocates = true) :
    (∃ next, readIteration s input = .ok next none .prtContinue ∧
      next.Awaits version m rest) ∨
    (rest = [] ∧ readIteration s input = .ok .reset (some m.received) input.verdict) := by
  generalize whole : chunk ++ rest = awaited at awaits
  cases awaits with
  | @header arrived headerRest split more =>
    have inHeader : chunk.length ≤ headerRest.length := by
      have bound := headerBytes_ofHeader_le valid split
      rw [split, length_append] at bound
      rw [requested_ofHeader] at clipped
      omega
    obtain ⟨left, rfl⟩ : chunk <+: headerRest :=
      prefix_of_prefix_length_le ⟨rest, whole⟩ ⟨_, rfl⟩ inHeader
    rw [append_assoc, append_cancel_left_eq] at whole
    rw [whole]
    exact .inl (readIteration_awaits_header valid split some_ clipped outcome allocates)
  | @body _ pages index arrived _ filling split more =>
    subst whole
    have filled := filling.fillPages valid clipped some_
    have split' : m.contents.flatten = (arrived ++ chunk) ++ rest := by
      rw [split, append_assoc]
    have last := filled.index_eq_iff split'
    rw [filled.length_pages, ← filling.length_pages] at last
    rw [filling.readIteration_eq valid clipped some_ outcome]
    by_cases done : rest = []
    · rw [done, append_nil] at split'
      rw [if_pos (last.mpr done)]
      rw [← split'] at filled
      exact .inr ⟨done, by rw [filled.pages_eq]; rfl⟩
    · rw [if_neg (mt last.mp done)]
      exact .inl ⟨_, rfl, .body filled split' done⟩

end Omi.Protocol
