import Omi.Data.Run
import Omi.Protocol.Framing

/-!
# Reception of a header from an untrusted peer

The loop of `_ReadHeader` asks for as many bytes as the page count calls for, even
while the count itself has not been validated: the bound is checked only when a
read ends exactly at the size that was asked for. A read that ends inside the base
of the header can leave any count behind, and the next request then reaches behind
the buffer. A count of zero is never rejected. The theorem characterises the byte
streams and chunkings on which reception stays inside its bounds.
-/

namespace Omi.Protocol

open List Base Bytes Cursor Run RecvState

/-- The state after an iteration, as long as the connection is open. -/
def receive (s : RecvState) (input : ReadInput) : Option RecvState :=
  match readIteration s input with
  | .ok next _ .prtContinue => some next
  | .ok next _ .prtReturnTrue => some next
  | .ok _ _ .prtReturnFalse => none
  | .overflow => none
  | .nullBatch => none

/-- The page information has been validated: a count between one and the maximum, no
page over the limit, and a batch with a page for each entry. -/
structure RecvState.Validated (s : RecvState) : Prop where
  count_pos : 0 < s.pageCount
  count_le : s.pageCount ≤ headerMaxPages
  sizes : ∀ info ∈ s.batchInfo, info.pageSize ≤ maxEnvelopeSize
  batch : ∃ pages, s.receivingBatch = some pages ∧
    pages.map List.length = s.batchInfo.map BatchInfoItem.pageSize

/-- What must hold when an iteration goes from `s` to `next`. The request that follows at
once stays inside `recv_buffer`, and so does what has been written; pages are read only
after a complete and validated header; a message that is processed has pages. -/
structure SafeStep (s : RecvState) (input : ReadInput) (next : RecvState)
    (received : Option Received) (r : CallbackResult) : Prop where
  requested : r = .prtContinue → next.receivingPageIndex = 0 →
    headerBytes next.pageCount ≤ headerSize ∧ next.receivedCurrentBlockBytes ≤ headerSize
  complete : s.receivingPageIndex = 0 → next.receivingPageIndex ≠ 0 →
    ∃ chunk, input.outcome = .bytes chunk ∧ s.receivedCurrentBlockBytes +
      (chunk.take (headerBytes s.pageCount - s.receivedCurrentBlockBytes)).length =
        headerBytes next.pageCount
  validated : next.receivingPageIndex ≠ 0 → next.Validated
  nonempty : ∀ message, received = some message → message.pages ≠ []

/-- An iteration that requests no byte behind `recv_buffer`, uses no NULL batch and is
otherwise a safe step. -/
def SafeIteration (s : RecvState) (input : ReadInput) : Prop :=
  (s.receivingPageIndex = 0 → headerBytes s.pageCount ≤ headerSize) ∧
    ∃ next received r, readIteration s input = .ok next received r ∧
      SafeStep s input next received r

/-- The header buffer after the bytes of an iteration. -/
def RecvState.afterBytes (s : RecvState) (chunk : List UInt8) : RecvState :=
  s.fillHeader (chunk.take (headerBytes s.pageCount - s.receivedCurrentBlockBytes))

/-- The condition on a read of header bytes: if it ends before the size that was asked for,
the count that is now in the buffer is within the maximum; if it completes a header with
the right magic number, the count is not zero. -/
def SoundCount (s : RecvState) (input : ReadInput) : Prop :=
  s.receivingPageIndex = 0 → ∀ chunk, input.outcome = .bytes chunk → chunk ≠ [] →
    ((s.afterBytes chunk).receivedCurrentBlockBytes ≠ headerBytes s.pageCount →
      (s.afterBytes chunk).pageCount ≤ headerMaxPages) ∧
    ((s.afterBytes chunk).receivedCurrentBlockBytes = headerBytes (s.afterBytes chunk).pageCount →
      (s.afterBytes chunk).magic = protocolMagic → (s.afterBytes chunk).pageCount ≠ 0)

/-! ## The invariant -/

/-- While a header is read: the bytes that have arrived stand at the front of a zeroed
buffer, fewer than the count in it calls for, and the count is within the maximum. -/
structure RecvState.ReadingHeader (s : RecvState) : Prop where
  index : s.receivingPageIndex = 0
  arrived : ∃ arrived, s.recvBuffer = padded headerSize arrived ∧
    arrived.length = s.receivedCurrentBlockBytes
  short : s.receivedCurrentBlockBytes < headerBytes s.pageCount
  count_le : s.pageCount ≤ headerMaxPages

/-- While pages are read: the header is validated and the cursor is in a page. -/
structure RecvState.ReadingPages (s : RecvState) : Prop where
  index_pos : 0 < s.receivingPageIndex
  index_le : s.receivingPageIndex ≤ s.pageCount
  validated : s.Validated
  inside : ∀ pages, s.receivingBatch = some pages →
    InFirst (pages.drop (s.receivingPageIndex - 1)) s.receivedCurrentBlockBytes

def RecvState.Sound (s : RecvState) : Prop := s.ReadingHeader ∨ s.ReadingPages

theorem headerBytes_le_iff (count : Nat) :
    headerBytes count ≤ headerSize ↔ count ≤ headerMaxPages := by
  unfold headerSize headerBytes
  omega

theorem RecvState.readingHeader_reset : reset.ReadingHeader where
  index := rfl
  arrived := ⟨[], rfl, rfl⟩
  short := by decide
  count_le := by decide

section Header

variable {s : RecvState} {input : ReadInput}

section

variable (reading : s.ReadingHeader)
include reading

/-- The request of a sound header state stays inside the buffer. -/
theorem readHeaderIteration_defined :
    ¬(headerSize < headerBytes s.pageCount ∨
      headerBytes s.pageCount < s.receivedCurrentBlockBytes) := by
  have bound := (headerBytes_le_iff s.pageCount).mpr reading.count_le
  have short := reading.short
  omega

/-- The buffer after the bytes of an iteration. -/
theorem afterBytes_arrived (chunk : List UInt8) :
    ∃ arrived, (s.afterBytes chunk).recvBuffer = padded headerSize arrived ∧
      arrived.length = (s.afterBytes chunk).receivedCurrentBlockBytes := by
  obtain ⟨arrived, buffer, length⟩ := reading.arrived
  refine ⟨arrived ++ chunk.take (headerBytes s.pageCount - s.receivedCurrentBlockBytes), ?_, ?_⟩
  · change overwrite s.recvBuffer s.receivedCurrentBlockBytes _ = _
    rw [buffer, ← length, overwrite_padded]
  · change _ = s.receivedCurrentBlockBytes + _
    rw [length_append, length]

/-- The count in the buffer never falls while the header arrives. -/
theorem pageCount_le_afterBytes (chunk : List UInt8) :
    s.pageCount ≤ (s.afterBytes chunk).pageCount := by
  obtain ⟨arrived, buffer, length⟩ := reading.arrived
  have after : (s.afterBytes chunk).recvBuffer = padded headerSize
      (arrived ++ chunk.take (headerBytes s.pageCount - s.receivedCurrentBlockBytes)) := by
    change overwrite s.recvBuffer s.receivedCurrentBlockBytes _ = _
    rw [buffer, ← length, overwrite_padded]
  unfold pageCount at *
  rw [after, buffer]
  exact readLE_padded_le headerSize arrived _ 12 4

theorem afterBytes_received_le (chunk : List UInt8) :
    (s.afterBytes chunk).receivedCurrentBlockBytes ≤ headerBytes s.pageCount := by
  have short := reading.short
  change s.receivedCurrentBlockBytes + (chunk.take _).length ≤ _
  rw [length_take]
  omega

end

variable {chunk : List UInt8}

theorem clipped_ne_nil (reading : s.ReadingHeader) (some_ : chunk ≠ []) :
    chunk.take (headerBytes s.pageCount - s.receivedCurrentBlockBytes) ≠ [] := by
  have short := reading.short
  have positive := length_pos_iff.mpr some_
  apply length_pos_iff.mp
  rw [length_take]
  omega

/-- The iteration on received bytes, with the guards of a sound state resolved. -/
theorem readIteration_bytes (reading : s.ReadingHeader)
    (outcome : input.outcome = .bytes chunk) (some_ : chunk ≠ []) :
    readIteration s input =
      if (s.afterBytes chunk).receivedCurrentBlockBytes = headerBytes s.pageCount then
        headerRead (s.afterBytes chunk) (headerBytes s.pageCount) input.allocates input.verdict
      else .ok (s.afterBytes chunk) none .prtContinue := by
  unfold readIteration readHeaderIteration
  rw [if_pos reading.index]
  rw [if_neg (readHeaderIteration_defined reading), outcome]
  dsimp only
  rw [if_neg (clipped_ne_nil reading some_)]
  rfl

/-- The iteration when no bytes came. -/
theorem readIteration_no_bytes (reading : s.ReadingHeader)
    (none_ : ∀ chunk, input.outcome = .bytes chunk → chunk = []) :
    ∃ r, readIteration s input = .ok s none r ∧ r ≠ .prtContinue := by
  unfold readIteration readHeaderIteration
  rw [if_pos reading.index]
  rw [if_neg (readHeaderIteration_defined reading)]
  cases outcome : input.outcome with
  | failed | wouldBlock => exact ⟨_, rfl, nofun⟩
  | bytes chunk =>
    obtain rfl := none_ chunk outcome
    refine ⟨.prtReturnFalse, ?_, nofun⟩
    dsimp only
    rw [take_nil, if_pos rfl]

/-- What an iteration of a sound header state can come to under the condition. -/
inductive HeaderResult (s : RecvState) (input : ReadInput) : ReadStep → Prop where
  | waiting : HeaderResult s input (.ok s none .prtReturnTrue)
  | closed {next : RecvState} :
      next.receivingPageIndex = 0 → HeaderResult s input (.ok next none .prtReturnFalse)
  | more {next : RecvState} :
      next.ReadingHeader → HeaderResult s input (.ok next none .prtContinue)
  | complete {next : RecvState} {chunk : List UInt8} :
      input.outcome = .bytes chunk →
      (s.afterBytes chunk).receivedCurrentBlockBytes = headerBytes next.pageCount →
      next.ReadingPages → HeaderResult s input (.ok next none .prtContinue)

/-- Pages are allocated for all entries or not at all. -/
theorem createPages_eq_some {allocates : Bool} {infos : List BatchInfoItem}
    {batch : Option (List (List UInt8))} (some_ : infos ≠ [])
    (created : createPages allocates infos = some batch) :
    ∃ pages, batch = some pages ∧
      pages.map List.length = infos.map BatchInfoItem.pageSize := by
  cases infos with
  | nil => exact absurd rfl some_
  | cons info infos =>
    rw [createPages] at created
    split at created
    · cases created
      refine ⟨_, rfl, ?_⟩
      rw [map_map]
      apply map_congr_left
      intro i _
      exact length_replicate
    · cases created
    · nofun

theorem RecvState.length_batchInfo : s.batchInfo.length = s.pageCount := by
  unfold batchInfo
  rw [length_map, length_range]

section

variable (reading : s.ReadingHeader)
include reading

/-- A header of which as much has been read as was asked for. -/
theorem headerRead_result (outcome : input.outcome = .bytes chunk) (some_ : chunk ≠ [])
    (sound : SoundCount s input)
    (full : (s.afterBytes chunk).receivedCurrentBlockBytes = headerBytes s.pageCount) :
    HeaderResult s input (headerRead (s.afterBytes chunk) (headerBytes s.pageCount)
      input.allocates input.verdict) := by
  have index : (s.afterBytes chunk).receivingPageIndex = 0 := reading.index
  unfold headerRead
  split
  · exact .closed index
  rename_i count
  split
  · exact .closed index
  rename_i magic
  split
  · exact .closed index
  rename_i sizes
  have grown := pageCount_le_afterBytes reading chunk
  split
  · rename_i base
    refine .more ⟨index, afterBytes_arrived reading chunk, ?_, by omega⟩
    unfold headerBytes at *
    omega
  rename_i whole
  have nonzero : (s.afterBytes chunk).pageCount ≠ 0 := by
    refine (sound reading.index chunk outcome some_).2 ?_ (not_not.mp magic)
    rw [full]
    exact not_not.mp whole
  split
  · exact .closed index
  rename_i batch created
  rw [if_neg nonzero]
  have entries : (s.afterBytes chunk).batchInfo ≠ [] := by
    apply length_pos_iff.mp
    rw [length_batchInfo]
    omega
  obtain ⟨pages, rfl, lengths⟩ := createPages_eq_some entries created
  refine .complete outcome (full.trans (not_not.mp whole)) ⟨Nat.one_pos, ?_, ⟨?_, ?_, ?_, ?_⟩, ?_⟩
  · exact Nat.pos_of_ne_zero nonzero
  · exact Nat.pos_of_ne_zero nonzero
  · exact Nat.le_of_not_lt count
  · intro info mem
    refine Nat.le_of_not_lt ?_
    intro large
    exact sizes (any_eq_true.mpr ⟨info, mem, decide_eq_true large⟩)
  · exact ⟨pages, rfl, lengths⟩
  · intro pages' _ page _
    exact Nat.zero_le _

/-- The result of an iteration of a sound header state. -/
theorem readIteration_header (sound : SoundCount s input) :
    HeaderResult s input (readIteration s input) := by
  by_cases bytes : ∃ chunk, input.outcome = .bytes chunk ∧ chunk ≠ []
  · obtain ⟨chunk, outcome, some_⟩ := bytes
    rw [readIteration_bytes reading outcome some_]
    split
    · rename_i full
      exact headerRead_result reading outcome some_ sound full
    · rename_i part
      have received := afterBytes_received_le reading chunk
      have grown := pageCount_le_afterBytes reading chunk
      have count := (sound reading.index chunk outcome some_).1 part
      refine .more ⟨reading.index, afterBytes_arrived reading chunk, ?_, count⟩
      unfold headerBytes at *
      omega
  · have none_ : ∀ chunk, input.outcome = .bytes chunk → chunk = [] := by
      intro chunk outcome
      exact not_not.mp (fun some_ => bytes ⟨chunk, outcome, some_⟩)
    obtain ⟨r, result, stops⟩ := readIteration_no_bytes reading none_
    rw [result]
    cases r with
    | prtContinue => exact absurd rfl stops
    | prtReturnTrue => exact .waiting
    | prtReturnFalse => exact .closed reading.index

/-- A header iteration with such a result is safe. -/
theorem HeaderResult.safe
    (result : HeaderResult s input (readIteration s input)) : SafeIteration s input := by
  refine ⟨fun _ => (headerBytes_le_iff _).mpr reading.count_le, ?_⟩
  generalize taken : readIteration s input = step at result
  cases result with
  | waiting =>
    exact ⟨s, none, _, rfl, nofun, fun _ moved => absurd reading.index moved,
      fun moved => absurd reading.index moved, nofun⟩
  | @closed next index =>
    exact ⟨next, none, _, rfl, nofun, fun _ moved => absurd index moved,
      fun moved => absurd index moved, nofun⟩
  | @more next still =>
    have bound := (headerBytes_le_iff next.pageCount).mpr still.count_le
    exact ⟨next, none, _, rfl,
      fun _ _ => ⟨bound, Nat.le_trans (Nat.le_of_lt still.short) bound⟩,
      fun _ moved => absurd still.index moved, fun moved => absurd still.index moved, nofun⟩
  | @complete next chunk outcome received pages =>
    exact ⟨next, none, _, rfl,
      fun _ index => absurd index (Nat.ne_of_gt pages.index_pos),
      fun _ _ => ⟨chunk, outcome, received⟩, fun _ => pages.validated, nofun⟩

/-- The converse: a safe iteration meets the condition. -/
theorem SafeIteration.soundCount (safe : SafeIteration s input) : SoundCount s input := by
  intro _ chunk outcome some_
  obtain ⟨-, next, received, r, taken, step⟩ := safe
  rw [readIteration_bytes reading outcome some_] at taken
  constructor
  · intro part
    rw [if_neg part] at taken
    cases taken
    exact (headerBytes_le_iff _).mp (step.requested rfl reading.index).1
  · intro whole magic zero
    -- a complete header without pages leads to the use of a NULL batch
    have grown := pageCount_le_afterBytes reading chunk
    have count : s.pageCount = 0 := by omega
    rw [zero] at whole
    rw [if_pos (by rw [whole, count]), count] at taken
    have noEntries : (s.afterBytes chunk).batchInfo = [] := by
      apply length_eq_zero_iff.mp
      rw [length_batchInfo, zero]
    unfold headerRead at taken
    rw [zero, noEntries, if_neg (Nat.not_lt_zero _), if_neg (not_not.mpr magic)] at taken
    cases taken

end

end Header

/-! ## Pages -/

section Pages

variable {s : RecvState} {input : ReadInput}

/-- What an iteration can come to while pages are read. -/
inductive PagesResult (s : RecvState) : ReadStep → Prop where
  | waiting : PagesResult s (.ok s none .prtReturnTrue)
  | closed : PagesResult s (.ok s none .prtReturnFalse)
  | more {next : RecvState} :
      next.ReadingPages → PagesResult s (.ok next none .prtContinue)
  | delivered {message : Received} {r : CallbackResult} :
      message.pages ≠ [] → PagesResult s (.ok RecvState.reset (some message) r)

variable {pages : List (List UInt8)}

theorem map_length_filledPages {index offset : Nat}
    (chunk : List UInt8) (inside : InFirst (pages.drop index) offset) :
    (filledPages pages index offset chunk).map List.length = pages.map List.length := by
  unfold filledPages
  rw [map_append, map_length_fill inside, ← map_append, take_append_drop]

/-- The cursor after a transfer lies in a page again. -/
theorem inFirst_filledPages {index offset : Nat}
    (chunk : List UInt8) (n : Nat) (inside : InFirst (pages.drop index) offset) :
    InFirst ((filledPages pages index offset chunk).drop
      (index + (advance (window pages index) offset n).1))
      (advance (window pages index) offset n).2 := by
  intro block found
  rw [getElem?_drop, Nat.add_zero] at found
  -- the block has the size it had before the transfer
  have sized : (pages.map length)[index + (advance (window pages index) offset n).1]? =
      some block.length := by
    rw [← map_length_filledPages chunk inside, getElem?_map, found]
    rfl
  rw [getElem?_map] at sized
  obtain ⟨old, atOld, same⟩ := Option.map_eq_some_iff.mp sized
  rw [← same]
  apply advance_take_offset_le ioVecCount n inside
  rw [getElem?_drop]
  exact atOld

/-- A transfer keeps the state sound until the last page is full. -/
theorem readingPages_fillPages (reading : s.ReadingPages)
    (batch : s.receivingBatch = some pages) {chunk : List UInt8}
    (unfinished : (s.fillPages pages chunk).receivingPageIndex ≠ s.pageCount + 1) :
    (s.fillPages pages chunk).ReadingPages := by
  obtain ⟨pages', batch', lengths⟩ := reading.validated.batch
  cases batch.symm.trans batch'
  have inside := reading.inside pages batch
  have positive := reading.index_pos
  have below := reading.index_le
  have count : pages.length = s.pageCount := by
    have := congrArg length lengths
    rwa [length_map, length_map, length_batchInfo] at this
  have moved : (advance (window pages (s.receivingPageIndex - 1)) s.receivedCurrentBlockBytes
      chunk.length).1 ≤ pages.length - (s.receivingPageIndex - 1) := by
    refine Nat.le_trans (advance_index_le _ _ _) ?_
    unfold window
    rw [length_take, length_drop]
    exact Nat.min_le_right _ _
  change s.receivingPageIndex + _ ≠ _ at unfinished
  refine ⟨Nat.add_pos_left positive _, ?_, ⟨?_, ?_, ?_, ?_⟩, ?_⟩
  · change s.receivingPageIndex + _ ≤ s.pageCount
    omega
  · exact reading.validated.count_pos
  · exact reading.validated.count_le
  · exact reading.validated.sizes
  · exact ⟨_, rfl, (map_length_filledPages chunk inside).trans lengths⟩
  · intro filled same
    cases same
    have shifted := inFirst_filledPages chunk chunk.length inside
    rwa [← Nat.sub_add_comm positive] at shifted

/-- The result of an iteration that reads pages. -/
theorem readIteration_pages (input : ReadInput) (reading : s.ReadingPages) :
    PagesResult s (readIteration s input) := by
  obtain ⟨pages, batch, lengths⟩ := reading.validated.batch
  have some_ : ∀ chunk, filledPages pages (s.receivingPageIndex - 1)
      s.receivedCurrentBlockBytes chunk ≠ [] := by
    intro chunk
    apply length_pos_iff.mp
    have sized := congrArg length
      ((map_length_filledPages chunk (reading.inside pages batch)).trans lengths)
    rw [length_map, length_map, length_batchInfo] at sized
    rw [sized]
    exact reading.validated.count_pos
  unfold readIteration readPagesIteration
  rw [if_neg (Nat.ne_of_gt reading.index_pos), batch]
  dsimp only
  split
  · exact .closed
  · exact .waiting
  split
  · exact .closed
  split
  · exact .delivered (some_ _)
  · rename_i unfinished
    exact .more (readingPages_fillPages reading batch unfinished)

/-- Reading pages is safe without any condition. -/
theorem PagesResult.safe (reading : s.ReadingPages)
    (result : PagesResult s (readIteration s input)) : SafeIteration s input := by
  have moving : s.receivingPageIndex ≠ 0 := Nat.ne_of_gt reading.index_pos
  refine ⟨fun index => absurd index moving, ?_⟩
  generalize taken : readIteration s input = step at result
  cases result with
  | waiting | closed =>
    exact ⟨s, none, _, rfl, nofun, fun index => absurd index moving,
      fun _ => reading.validated, nofun⟩
  | @more next still =>
    exact ⟨next, none, _, rfl, fun _ index => absurd index (Nat.ne_of_gt still.index_pos),
      fun index => absurd index moving, fun _ => still.validated, nofun⟩
  | @delivered message r some_ =>
    refine ⟨reset, some message, r, rfl, fun _ _ => by decide, fun _ moved => ?_,
      fun moved => absurd rfl moved, ?_⟩
    · exact absurd rfl moved
    · rintro _ ⟨⟩
      exact some_

end Pages

/-! ## Runs -/

/-- In a sound state the condition is exactly what makes an iteration safe. -/
theorem safeIteration_iff (s : RecvState) (input : ReadInput) (sound : s.Sound) :
    SafeIteration s input ↔ SoundCount s input := by
  rcases sound with reading | reading
  · exact ⟨fun safe => safe.soundCount reading,
      fun count => (readIteration_header reading count).safe reading⟩
  · refine ⟨fun _ index => ?_, fun _ => (readIteration_pages input reading).safe reading⟩
    exact absurd index (Nat.ne_of_gt reading.index_pos)

theorem sound_receive (s : RecvState) (input : ReadInput) (next : RecvState)
    (sound : s.Sound) (count : SoundCount s input) (taken : receive s input = some next) : next.Sound := by
  unfold receive at taken
  rcases sound with reading | reading
  · have result := readIteration_header reading count
    generalize readIteration s input = step at result taken
    cases result with
    | waiting =>
      cases taken
      exact .inl reading
    | closed => cases taken
    | more still =>
      cases taken
      exact .inl still
    | complete _ _ pages =>
      cases taken
      exact .inr pages
  · have result := readIteration_pages input reading
    generalize readIteration s input = step at result taken
    cases result with
    | waiting =>
      cases taken
      exact .inr reading
    | closed => cases taken
    | more still =>
      cases taken
      exact .inr still
    | @delivered message r _ =>
      cases r with
      | prtReturnFalse => cases taken
      | prtContinue | prtReturnTrue =>
        cases taken
        exact .inl readingHeader_reset

/-- On a new connection, for every byte stream and every way it is cut into reads, all
iterations of the receive loops are safe if and only if no read leaves a count over the
maximum in an unfinished header or completes a header with a count of zero. -/
theorem reception_safe_iff (inputs : List ReadInput) :
    Along receive SafeIteration RecvState.reset inputs ↔
      Along receive SoundCount RecvState.reset inputs :=
  along_iff_of_invariant safeIteration_iff sound_receive (.inl readingHeader_reset)

/-! ## Two hostile streams -/

/-- The base of a header with the given page count. -/
def hostileBase (count : Nat) : List UInt8 :=
  leBytes 4 protocolMagic ++ leBytes 4 0 ++ leBytes 4 0 ++ leBytes 4 count ++
    leBytes 8 0 ++ leBytes 8 0

/-- Sixteen bytes with a large count, cut before the rest of the base, make the next request
one for over a million bytes; a whole base with a count of zero makes the message be
processed without a batch. -/
theorem hostile_headers_unsafe :
    ¬Along receive SafeIteration RecvState.reset
        [⟨.bytes ((hostileBase 65536).take 16), true, .prtContinue⟩] ∧
      ¬Along receive SafeIteration RecvState.reset
        [⟨.bytes (hostileBase 0), true, .prtContinue⟩] := by
  constructor
  · rintro ⟨safe, -⟩
    have sound := safe.soundCount readingHeader_reset rfl _ rfl (by decide)
    exact absurd (sound.1 (by decide)) (by decide)
  · rintro ⟨safe, -⟩
    have sound := safe.soundCount readingHeader_reset rfl _ rfl (by decide)
    exact sound.2 (by decide) (by decide) (by decide)

end Omi.Protocol
