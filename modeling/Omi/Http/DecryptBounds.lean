import Omi.Http.Decrypt

/-!
# The bounds of decryption

The loops of `HttpClient_DecryptData` check their limits, so they read inside
the page by themselves. The values they find are used without a check: the
number behind `length=`, the texts of type and charset, the size of the
signature and the end of the last line. `Scanner.Harmless` says, for the line or
entry that an iteration is about to read, that these values can be used, and a
call stays in bounds and returns exactly if this is so at every iteration.
-/

namespace Omi.Http

open List Option Scan Xml Scanner

/-- The line that begins behind the line breaks at `scanp`. -/
structure LineAt (page : List UInt8) (scanp linep linelimit : Nat) : Prop where
  first : scanWhile isBreak page (page.length - scanp) scanp = some linep
  last : scanUntil 13 10 page (page.length - 1 - linep) linep = some linelimit

/-- The entry that begins behind the separators at `linep`. -/
structure EntryAt (page : List UInt8) (linep linelimit entryp entrylimit : Nat) : Prop where
  first : scanWhile (fun c => isBlank c || c == 59) page (linelimit - linep) linep = some entryp
  last : scanWhile (· != 59) page (linelimit - entryp) entryp = some entrylimit

/-- The encrypted bytes behind a line lie in the page, and if they can be unwrapped the type
and the charset of the original content are there. -/
def Scanner.DataFits (unwrap : List UInt8 → Option (List UInt8)) (page : List UInt8)
    (s : Scanner) (linelimit : Nat) : Prop :=
  ∃ sigLen, signatureAt page (linelimit + 2) = some sigLen
    ∧ linelimit + 6 + (s.originalContentLength + sigLen).toNat ≤ page.length
    ∧ (unwrap ((page.drop (linelimit + 6)).take
          (s.originalContentLength + sigLen).toNat) ≠ none →
        stringIn s.originalContentType ≠ none ∧ stringIn s.originalEncoding ≠ none)

/-- The value of an entry fits where it goes: the digits of a length end in the page, a type
and a charset fit their buffers. -/
def FieldFits (page : List UInt8) (entryp entrylimit : Nat) : Field → Prop
  | .length => atoi page (entryp + lengthField.length) ≠ none
  | .type => entrylimit - (entryp + typeField.length) ≤ typeSaveSize
  | .charset => entrylimit - (entryp + charsetField.length) ≤ encodingSaveSize

/-- What the next iteration reads can be used. -/
def Scanner.Harmless (unwrap : List UInt8 → Option (List UInt8)) (page : List UInt8)
    (s : Scanner) : Prop :=
  match s.loop with
  | .page => True
  | .segment =>
    -- A part does not end with a single byte behind its last line.
    (∀ c, s.scanp + 1 = page.length → page[s.scanp]? = some c → isBreak c = true)
    ∧ ∀ linep linelimit, s.scanp < page.length → LineAt page s.scanp linep linelimit →
        lineKind page linep linelimit = some .octetStream → s.DataFits unwrap page linelimit
  | .entries linep =>
    ∀ entryp entrylimit field, EntryAt page linep s.scanp entryp entrylimit →
      entryField page entryp entrylimit = some (some field) →
      FieldFits page entryp entrylimit field

/-- The states in which the iterations start. -/
inductive Scanner.Visited (page : List UInt8) : Scanner → Prop where
  | start : Visited page .start
  | step {s next : Scanner} (visited : Visited page s) (taken : s.step page = .ok (.next next)) :
      Visited page next

/-! ## Reading in bounds -/

variable {linelimit : Nat}

section

variable {page : List UInt8}

theorem startsWith_spec {word : List UInt8} {p : Nat} {fits : Prop} [Decidable fits]
    (inside : fits → p + word.length ≤ page.length) :
    ∃ equal, startsWith page word p fits = some equal ∧ (equal = true → fits) := by
  by_cases holds : fits
  · obtain ⟨equal, found⟩ := comparesTo_spec (fun c d => toLower c == toLower d) (inside holds)
    refine ⟨equal, ?_, fun _ => holds⟩
    rw [startsWith, if_pos (decide_eq_true holds), found]
  · refine ⟨false, ?_, nofun⟩
    rw [startsWith, if_neg (by simpa using holds)]

theorem lineAt_spec {scanp : Nat} (inside : scanp < page.length) :
    ∃ linep linelimit, LineAt page scanp linep linelimit ∧ scanp ≤ linep ∧ linep ≤ linelimit
      ∧ linelimit ≤ page.length ∧ (scanp = linelimit → scanp + 1 = page.length ∧
        ∃ c, page[scanp]? = some c ∧ isBreak c = false) := by
  obtain ⟨linep, first, low, high, stopped⟩ :=
    scanWhile_spec isBreak (show scanp + (page.length - scanp) ≤ page.length by omega)
  obtain ⟨linelimit, last, low', high', stopped'⟩ := scanUntil_spec 13 10
    (show linep + (page.length - 1 - linep) < page.length ∨ page.length - 1 - linep = 0 by omega)
  refine ⟨linep, linelimit, ⟨first, last⟩, low, low', by omega, ?_⟩
  rintro rfl
  obtain rfl : scanp = linep := by omega
  obtain ⟨c, here, other⟩ := stopped (by omega)
  refine ⟨?_, c, here, other⟩
  by_contra more
  have break_ := (stopped' (by omega)).1
  rw [here] at break_
  cases break_
  cases other

theorem lineKind_spec (linep : Nat) (inside : linelimit ≤ page.length) :
    ∃ kind, lineKind page linep linelimit = some kind
      ∧ (kind = .originalContent → linep + originalContent.length ≤ linelimit)
      ∧ (kind = .boundary → linep + 1 < linelimit) := by
  have typeInside : linep + contentTypeName.length < linelimit →
      linep + contentTypeName.chars.length ≤ page.length := by
    intro fits
    exact Nat.le_trans (Nat.le_of_lt fits) inside
  obtain ⟨isType, type, typeFits⟩ := startsWith_spec typeInside
  rw [lineKind]
  simp only [type, bind_eq_bind, bind_some]
  cases isType with
  | true =>
    have room := typeFits rfl
    obtain ⟨valuep, value, low, high, -⟩ := scanWhile_spec isBlank
      (show linep + contentTypeName.length + 1
        + (linelimit - (linep + contentTypeName.length + 1)) ≤ page.length by omega)
    have octetsInside : valuep + octetStream.length ≤ linelimit →
        valuep + octetStream.length ≤ page.length := by
      intro fits
      omega
    obtain ⟨isOctets, octets, -⟩ := startsWith_spec octetsInside
    simp only [if_true, value, octets, bind_some]
    cases isOctets with
    | true => exact ⟨.octetStream, rfl, nofun, nofun⟩
    | false => exact ⟨.contentType, rfl, nofun, nofun⟩
  | false =>
    have originalInside : linep + originalContent.length ≤ linelimit →
        linep + originalContent.length ≤ page.length := by
      intro fits
      omega
    obtain ⟨isOriginal, original, originalFits⟩ := startsWith_spec originalInside
    simp only [Bool.false_eq_true, if_false, original, bind_some]
    cases isOriginal with
    | true => exact ⟨.originalContent, rfl, fun _ => originalFits rfl, nofun⟩
    | false =>
      rw [if_neg Bool.false_ne_true]
      by_cases more : linep + 1 < linelimit
      · obtain ⟨dashes, found⟩ := comparesTo_spec (· == ·)
          (show linep + [(45 : UInt8), 45].length ≤ page.length by
            change linep + 2 ≤ page.length
            omega)
        rw [if_pos more, dashesAt, found]
        cases dashes with
        | true => exact ⟨.boundary, rfl, nofun, fun _ => more⟩
        | false => exact ⟨.other, rfl, nofun, nofun⟩
      · rw [if_neg more]
        exact ⟨.other, rfl, nofun, nofun⟩

theorem entryAt_spec (linep : Nat) (inside : linelimit ≤ page.length) :
    ∃ entryp entrylimit, EntryAt page linep linelimit entryp entrylimit ∧ linep ≤ entryp
      ∧ entryp ≤ entrylimit ∧ (linep < linelimit → linep < entrylimit ∧ entrylimit ≤ linelimit)
      ∧ (linelimit ≤ linep → entrylimit = linep) := by
  by_cases more : linep < linelimit
  · obtain ⟨entryp, first, low, high, stopped⟩ :=
      scanWhile_spec (fun c => isBlank c || c == 59)
        (show linep + (linelimit - linep) ≤ page.length by omega)
    obtain ⟨entrylimit, last, low', high', stopped'⟩ := scanWhile_spec (· != 59)
      (show entryp + (linelimit - entryp) ≤ page.length by omega)
    refine ⟨entryp, entrylimit, ⟨first, last⟩, low, low', fun _ => ⟨?_, by omega⟩, by omega⟩
    by_contra same
    -- Standing still would need a separator that is none.
    obtain rfl : entryp = linep := by omega
    obtain rfl : entrylimit = entryp := by omega
    obtain ⟨c, here, other⟩ := stopped (by omega)
    obtain ⟨d, here', separator⟩ := stopped' (by omega)
    rw [here] at here'
    cases here'
    rw [bne_eq_false_iff_eq] at separator
    subst separator
    cases other
  · refine ⟨linep, linep, ⟨?_, ?_⟩, Nat.le_refl _, Nat.le_refl _, fun less => absurd less more,
      fun _ => rfl⟩
    all_goals
      rw [Nat.sub_eq_zero_of_le (by omega)]
      rfl

theorem entryField_spec {entryp entrylimit linelimit : Nat} (inside : linelimit ≤ page.length)
    (last : entryp + 1 ≤ entrylimit → entrylimit ≤ linelimit) :
    ∃ field, entryField page entryp entrylimit = some field
      ∧ ∀ f, field = some f → entryp + f.word.length ≤ entrylimit ∧ entrylimit ≤ page.length := by
  have ends : ∀ f : Field, entryp + f.word.length ≤ entrylimit → entrylimit ≤ page.length := by
    intro f fits
    have positive : 1 ≤ f.word.length := by cases f <;> decide
    exact Nat.le_trans (last (by omega)) inside
  have has : ∀ f : Field, ∃ equal, startsWith page f.word entryp
      (entryp + f.word.length ≤ entrylimit) = some equal
        ∧ (equal = true → entryp + f.word.length ≤ entrylimit) :=
    fun f => startsWith_spec fun fits => Nat.le_trans fits (ends f fits)
  obtain ⟨isLength, length, lengthFits⟩ := has .length
  obtain ⟨isType, type, typeFits⟩ := has .type
  obtain ⟨isCharset, charset, charsetFits⟩ := has .charset
  rw [entryField]
  simp only [length, type, charset, bind_eq_bind, bind_some]
  cases isLength with
  | true =>
    refine ⟨some .length, rfl, ?_⟩
    rintro _ ⟨⟩
    exact ⟨lengthFits rfl, ends _ (lengthFits rfl)⟩
  | false =>
    cases isType with
    | true =>
      refine ⟨some .type, rfl, ?_⟩
      rintro _ ⟨⟩
      exact ⟨typeFits rfl, ends _ (typeFits rfl)⟩
    | false =>
      cases isCharset with
      | true =>
        refine ⟨some .charset, rfl, ?_⟩
        rintro _ ⟨⟩
        exact ⟨charsetFits rfl, ends _ (charsetFits rfl)⟩
      | false => exact ⟨none, rfl, nofun⟩

end

/-! ## The invariant of the loops -/

/-- A buffer of the given size whose text takes less than `room` bytes. -/
def Keeps (size room : Nat) : Option (List UInt8) → Prop
  | none => True
  | some bytes => bytes.length = size ∧ ∃ extent < room, ∀ i, extent ≤ i → bytes.getD i 0 = 0

namespace Scanner

/-- The part of the page that has been read. -/
def used (s : Scanner) : Nat :=
  match s.loop with
  | .page => s.scanp
  | .segment => s.scanp
  | .entries linep => min linep s.scanp

/-- The loops stay in the page, and the texts that were copied lie apart in the part that has
been read. -/
structure Placed (page : List UInt8) (s : Scanner) : Prop where
  inside : s.scanp ≤ page.length
  copied : ∃ typeRoom encodingRoom, Keeps typeSaveSize typeRoom s.originalContentType
    ∧ Keeps encodingSaveSize encodingRoom s.originalEncoding
    ∧ typeRoom + encodingRoom ≤ s.used

theorem placed_start (page : List UInt8) : start.Placed page where
  inside := Nat.zero_le _
  copied := ⟨0, 0, trivial, trivial, Nat.le_refl 0⟩

variable {page : List UInt8} {s : Scanner} {linep entryp entrylimit : Nat}

/-- How much is left to do. -/
def rank (s : Scanner) : Nat :=
  match s.loop with
  | .page => 0
  | .segment => 1
  | .entries linep => 2 + (s.scanp - linep)

def remaining (page : List UInt8) (s : Scanner) : ℕ ×ₗ ℕ :=
  toLex (page.length - s.scanp, s.rank)

theorem remaining_lt_of_scanp {next : Scanner} (later : s.scanp < next.scanp)
    (inside : next.scanp ≤ page.length) : next.remaining page < s.remaining page := by
  refine Prod.Lex.toLex_lt_toLex.mpr (.inl ?_)
  change page.length - next.scanp < page.length - s.scanp
  omega

theorem remaining_lt_of_rank {next : Scanner} (same : next.scanp = s.scanp)
    (less : next.rank < s.rank) : next.remaining page < s.remaining page := by
  refine Prod.Lex.toLex_lt_toLex.mpr (.inr ⟨?_, less⟩)
  change page.length - next.scanp = page.length - s.scanp
  rw [same]

/-- An iteration that goes on, in bounds and nearer to the end. -/
def GoesOn (page : List UInt8) (s : Scanner) : Prop :=
  ∃ next, s.step page = .ok (.next next) ∧ next.Placed page
    ∧ next.remaining page < s.remaining page

/-- An iteration over a line. -/
theorem step_line (loop : s.loop = .segment) (inside : s.scanp < page.length)
    (line : LineAt page s.scanp linep linelimit) {kind : LineKind}
    (is : lineKind page linep linelimit = some kind) :
    s.step page = reads (s.readLine page linep linelimit kind) := by
  rw [step, loop]
  change reads (s.segmentStep page) = _
  rw [segmentStep, if_pos inside]
  simp only [line.first, line.last, is, bind_eq_bind, bind_some]

/-- Behind the page the loop over a part ends. -/
theorem step_segment_end (loop : s.loop = .segment) (outside : ¬s.scanp < page.length) :
    s.step page = .ok (.next { s with loop := .page }) := by
  rw [step, loop]
  change reads (s.segmentStep page) = _
  rw [segmentStep, if_neg outside]
  rfl

/-- The data that a harmless part leads to. -/
def Finds (unwrap : List UInt8 → Option (List UInt8)) (page : List UInt8) (s : Scanner) : Prop :=
  ∃ linelimit sigLen, s.scanp ≤ linelimit
    ∧ s.step page = .ok (.found ⟨linelimit + 6, (s.originalContentLength + sigLen).toNat,
        s.originalContentType, s.originalEncoding⟩)
    ∧ linelimit + 6 + (s.originalContentLength + sigLen).toNat ≤ page.length
    ∧ (unwrap ((page.drop (linelimit + 6)).take
          (s.originalContentLength + sigLen).toNat) ≠ none →
        stringIn s.originalContentType ≠ none ∧ stringIn s.originalEncoding ≠ none)

variable {unwrap : List UInt8 → Option (List UInt8)}

/-- A copy that fits its buffer takes no more room than its own. -/
theorem copyTo_spec {size room : Nat} {buffer : Option (List UInt8)} {chunk : List UInt8}
    (keeps : Keeps size room buffer) (fits : chunk.length ≤ size) :
    ∃ bytes, copyTo size buffer chunk = some bytes
      ∧ Keeps size (room + chunk.length + 1) (some bytes) := by
  have before : (buffer.getD (replicate size 0)).length = size ∧ ∃ extent ≤ room,
      ∀ i, extent ≤ i → (buffer.getD (replicate size 0)).getD i 0 = 0 := by
    cases buffer with
    | none =>
      refine ⟨length_replicate, 0, Nat.zero_le _, ?_⟩
      intro i _
      change (replicate size (0 : UInt8)).getD i 0 = 0
      rw [getD_eq_getElem?_getD, getElem?_replicate]
      split <;> rfl
    | some bytes =>
      obtain ⟨length, extent, less, zero⟩ := keeps
      exact ⟨length, extent, Nat.le_of_lt less, zero⟩
  obtain ⟨length, extent, less, zero⟩ := before
  refine ⟨_, if_pos fits, ?_, max extent chunk.length, by omega, ?_⟩
  · rw [Bytes.overwrite]
    simp only [take_zero, nil_append, length_append, length_drop, length]
    omega
  · intro i behind
    have split : Bytes.overwrite (buffer.getD (replicate size 0)) 0 chunk
        = chunk ++ (buffer.getD (replicate size 0)).drop chunk.length := by
      rw [Bytes.overwrite, take_zero, nil_append, Nat.zero_add]
    rw [split, getD_append_right _ _ _ _ (by omega), getD_eq_getElem?_getD,
      getElem?_drop, ← getD_eq_getElem?_getD]
    exact zero _ (by omega)

/-- An iteration over an entry. -/
theorem step_entry (loop : s.loop = .entries linep)
    (entry : EntryAt page linep s.scanp entryp entrylimit) {field : Option Field}
    (is : entryField page entryp entrylimit = some field) :
    s.step page = s.readEntry page entryp entrylimit field >>= fun read =>
      .ok (.next { read with
        loop := if entrylimit < s.scanp then .entries entrylimit else .segment }) := by
  rw [step, loop]
  change s.entriesStep page linep = _
  rw [entriesStep, entry.first]
  change reads (scanWhile (· != 59) page (s.scanp - entryp) entryp) >>= _ = _
  rw [entry.last]
  change reads (entryField page entryp entrylimit) >>= _ = _
  rw [is]
  rfl

section

variable (placed : s.Placed page)
include placed

/-- Moving on keeps what was copied. -/
theorem Placed.move {loop : Loop} {scanp : Nat}
    (inside : scanp ≤ page.length) (later : s.used ≤ used { s with loop := loop, scanp := scanp }) :
    Placed page { s with loop := loop, scanp := scanp } := by
  obtain ⟨typeRoom, encodingRoom, type, encoding, room⟩ := placed.copied
  exact ⟨inside, typeRoom, encodingRoom, type, encoding, Nat.le_trans room later⟩

theorem pageStep_spec (loop : s.loop = .page) : s.step page = .ok .ended ∨ s.GoesOn page := by
  have goes : ∀ scanp loop', s.scanp < scanp → scanp ≤ page.length →
      (loop' = .page ∨ loop' = .segment) →
      s.pageStep page = some (.next { s with loop := loop', scanp := scanp }) →
      s.GoesOn page := by
    intro scanp loop' later inside kind taken
    refine ⟨{ s with loop := loop', scanp := scanp }, ?_, placed.move inside ?_,
      remaining_lt_of_scanp later inside⟩
    · rw [step, loop]
      change reads (s.pageStep page) = _
      rw [taken]
      rfl
    · rcases kind with rfl | rfl
      all_goals
        simp only [used, loop]
        exact Nat.le_of_lt later
  by_cases last : page.length ≤ s.scanp + 1
  · refine .inl ?_
    rw [step, loop]
    change reads (s.pageStep page) = _
    rw [pageStep, if_pos last]
    rfl
  refine .inr ?_
  obtain ⟨dashes, found⟩ := comparesTo_spec (· == ·)
    (show s.scanp + [(45 : UInt8), 45].length ≤ page.length by
      change s.scanp + 2 ≤ page.length
      omega)
  cases dashes with
  | true =>
    obtain ⟨behind, blanks, low, high, -⟩ := scanWhile_spec isBlank
      (show s.scanp + 2 + (page.length - (s.scanp + 2)) ≤ page.length by omega)
    refine goes behind .page (by omega) (by omega) (.inl rfl) ?_
    rw [pageStep, if_neg last, dashesAt, found, ← loop]
    simp only [bind_eq_bind, bind_some, if_true, blanks]
    rfl
  | false =>
    have segmentInside : s.scanp + encryptedSegment.length < page.length →
        s.scanp + encryptedSegment.length ≤ page.length := Nat.le_of_lt
    obtain ⟨isSegment, segment, fits⟩ := startsWith_spec segmentInside
    have taken : s.pageStep page = if isSegment = true
        then some (.next { s with
          loop := .segment, scanp := s.scanp + encryptedSegment.length })
        else some (.next { s with scanp := s.scanp + 1 }) := by
      rw [pageStep, if_neg last, dashesAt, found]
      simp only [bind_eq_bind, bind_some, Bool.false_eq_true, if_false, segment]
      rfl
    cases isSegment with
    | true =>
      have room := fits rfl
      have positive : 0 < encryptedSegment.length := by decide
      exact goes _ .segment (by omega) (by omega) (.inr rfl) taken
    | false =>
      refine goes (s.scanp + 1) .page (by omega) (by omega) (.inl rfl) ?_
      rw [taken, ← loop]
      rfl

theorem segmentStep_spec (loop : s.loop = .segment)
    (harmless : s.Harmless unwrap page) : s.Finds unwrap page ∨ s.GoesOn page := by
  have used : s.used = s.scanp := by rw [used, loop]
  by_cases inside : s.scanp < page.length
  · obtain ⟨linep, linelimit, line, low, mid, high, still⟩ := lineAt_spec inside
    obtain ⟨kind, is, originalFits, boundaryFits⟩ := lineKind_spec linep high
    have step := step_line loop inside line is
    rw [Harmless, loop] at harmless
    -- The loop stands still only on a single byte behind the last line.
    have moves : s.scanp < linelimit := by
      refine Nat.lt_of_le_of_ne (Nat.le_trans low mid) ?_
      intro same
      obtain ⟨last, c, here, other⟩ := still same
      cases (harmless.1 c last here).symm.trans other
    have further : s.step page = .ok (.next { s with scanp := linelimit }) → s.GoesOn page := by
      intro taken
      refine ⟨{ s with scanp := linelimit }, taken, placed.move high ?_,
        remaining_lt_of_scanp moves high⟩
      simp only [used, loop]
      exact Nat.le_of_lt moves
    cases kind with
    | octetStream =>
      obtain ⟨sigLen, signature, fits, strings⟩ := harmless.2 linep linelimit inside line is
      refine .inl ⟨linelimit, sigLen, Nat.le_of_lt moves, ?_, fits, strings⟩
      rw [step, readLine, signature]
      rfl
    | originalContent =>
      have room := originalFits rfl
      refine .inr ⟨_, step, placed.move high ?_, remaining_lt_of_scanp moves high⟩
      rw [used]
      change s.scanp ≤ min _ linelimit
      omega
    | boundary =>
      refine .inr ⟨_, step, placed.move (by omega) ?_, ?_⟩
      · rw [used]
        exact low
      · rcases Nat.lt_or_eq_of_le low with later | same
        · exact remaining_lt_of_scanp later (show linep ≤ page.length by omega)
        · refine remaining_lt_of_rank same.symm ?_
          rw [rank, rank, loop]
          exact Nat.zero_lt_one
    | contentType | other => exact .inr (further step)
  · refine .inr ⟨_, step_segment_end loop inside, placed.move placed.inside ?_, ?_⟩
    · rw [used]
      exact Nat.le_refl _
    · refine remaining_lt_of_rank rfl ?_
      rw [rank, rank, loop]
      exact Nat.zero_lt_one

/-- What reading a harmless entry gives. -/
theorem readEntry_spec {field : Option Field}
    (room : ∀ f, field = some f → s.used ≤ entryp ∧ entryp + f.word.length ≤ entrylimit)
    (fits : ∀ f, field = some f → FieldFits page entryp entrylimit f) :
    ∃ read, s.readEntry page entryp entrylimit field = .ok read ∧ read.scanp = s.scanp
      ∧ ∃ typeRoom encodingRoom, Keeps typeSaveSize typeRoom read.originalContentType
        ∧ Keeps encodingSaveSize encodingRoom read.originalEncoding
        ∧ typeRoom + encodingRoom ≤ max s.used (if field = none then 0 else entrylimit) := by
  obtain ⟨typeRoom, encodingRoom, type, encoding, sum⟩ := placed.copied
  cases field with
  | none =>
    exact ⟨s, rfl, rfl, typeRoom, encodingRoom, type, encoding, by omega⟩
  | some field =>
    obtain ⟨first, last⟩ := room field rfl
    have fits := fits field rfl
    rw [if_neg (by nofun)]
    have short (valuep : Nat) :
        ((page.drop valuep).take (entrylimit - valuep)).length ≤ entrylimit - valuep :=
      length_take_le _ _
    cases field with
    | length =>
      obtain ⟨length, digits⟩ := ne_none_iff_exists'.mp fits
      refine ⟨{ s with originalContentLength := length }, ?_, rfl, typeRoom, encodingRoom,
        type, encoding, by omega⟩
      rw [readEntry]
      change reads (atoi page (entryp + lengthField.length)) >>= _ = _
      rw [digits]
      rfl
    | type =>
      have value := short (entryp + typeField.length)
      obtain ⟨bytes, copied, keeps⟩ := copyTo_spec type (Nat.le_trans value fits)
      refine ⟨{ s with originalContentType := some bytes }, ?_, rfl, _, encodingRoom, keeps,
        encoding, ?_⟩
      · simp only [readEntry, Field.word, copied]
      · change entryp + 5 ≤ entrylimit at last
        change _ ≤ entrylimit - (entryp + 5) at value
        omega
    | charset =>
      have value := short (entryp + charsetField.length)
      obtain ⟨bytes, copied, keeps⟩ := copyTo_spec encoding (Nat.le_trans value fits)
      refine ⟨{ s with originalEncoding := some bytes }, ?_, rfl, typeRoom, _, type, keeps, ?_⟩
      · simp only [readEntry, Field.word, copied]
      · change entryp + 8 ≤ entrylimit at last
        change _ ≤ entrylimit - (entryp + 8) at value
        omega

theorem entriesStep_spec (loop : s.loop = .entries linep)
    (harmless : s.Harmless unwrap page) : s.GoesOn page := by
  have used : s.used = min linep s.scanp := by rw [Scanner.used, loop]
  obtain ⟨entryp, entrylimit, entry, low, mid, further, ended⟩ :=
    entryAt_spec linep placed.inside
  obtain ⟨field, is, fieldFits⟩ := entryField_spec placed.inside
    (show entryp + 1 ≤ entrylimit → entrylimit ≤ s.scanp by omega)
  rw [Harmless, loop] at harmless
  have room : ∀ f, field = some f → s.used ≤ entryp ∧ entryp + f.word.length ≤ entrylimit :=
    fun f has => ⟨by omega, (fieldFits f has).1⟩
  have before : field ≠ none → entrylimit ≤ s.scanp := by
    intro has
    obtain ⟨f, rfl⟩ := ne_none_iff_exists'.mp has
    have positive : 1 ≤ f.word.length := by cases f <;> decide
    have := (fieldFits f rfl).1
    omega
  obtain ⟨read, reading, same, typeRoom, encodingRoom, type, encoding, sum⟩ :=
    readEntry_spec placed room fun f has => harmless entryp entrylimit f entry (by rw [is, has])
  refine ⟨{ read with
    loop := if entrylimit < s.scanp then .entries entrylimit else .segment }, ?_, ?_, ?_⟩
  · rw [step_entry loop entry is, reading]
    rfl
  · refine ⟨same.trans_le placed.inside, typeRoom, encodingRoom, type, encoding,
      Nat.le_trans sum ?_⟩
    have bound : max s.used (if field = none then 0 else entrylimit)
        ≤ min (max linep entrylimit) s.scanp := by
      split
      · omega
      · have := before ‹_›
        omega
    refine Nat.le_trans bound ?_
    by_cases more : entrylimit < s.scanp
    · rw [if_pos more, Scanner.used]
      change _ ≤ min entrylimit read.scanp
      omega
    · rw [if_neg more, Scanner.used]
      change _ ≤ read.scanp
      omega
  · refine remaining_lt_of_rank same ?_
    by_cases more : entrylimit < s.scanp
    · rw [if_pos more, rank, rank, loop]
      change 2 + (read.scanp - entrylimit) < 2 + (s.scanp - linep)
      omega
    · rw [if_neg more, rank, rank, loop]
      change 1 < 2 + _
      omega

end

end Scanner

/-! ## Behind the loops -/

/-- A text takes less room than its buffer keeps. -/
theorem length_stringIn_le {size room : Nat} {buffer : Option (List UInt8)} {text : ZString}
    (keeps : Keeps size room buffer) (found : stringIn buffer = some text) :
    text.bytes.length ≤ room := by
  cases buffer with
  | none => cases found
  | some bytes =>
    obtain ⟨-, extent, less, zero⟩ := keeps
    rw [stringIn] at found
    split at found
    · cases found
      change (bytes.takeWhile (· != 0) ++ [0]).length ≤ room
      rw [length_append]
      have short : (bytes.takeWhile (· != 0)).length ≤ extent := by
        by_contra long
        have inside : extent < (bytes.takeWhile (· != 0)).length := by omega
        have other := mem_takeWhile_imp (getElem_mem inside)
        have same := (List.takeWhile_prefix (l := bytes) (· != 0)).getElem inside
        rw [same] at other
        have here := zero extent (Nat.le_refl _)
        rw [getD_eq_getElem _ _ (by
          exact Nat.lt_of_lt_of_le inside (List.takeWhile_prefix _).length_le)] at here
        rw [here] at other
        cases other
      change _ + 1 ≤ room
      omega
    · cases found

variable {unwrap : List UInt8 → Option (List UInt8)} {fields : List ResponseHeader}
  {page : List UInt8} {s : Scanner}

/-- Unwrapping does not lengthen, so there is room for the texts that stood before the
encrypted bytes. -/
theorem useData_of_fits
    (shrinks : ∀ bytes output, unwrap bytes = some output → output.length ≤ bytes.length)
    (placed : s.Placed page) {linelimit length : Nat} (later : s.used ≤ linelimit)
    (fits : linelimit + 6 + length ≤ page.length)
    (strings : unwrap ((page.drop (linelimit + 6)).take length) ≠ none →
      stringIn s.originalContentType ≠ none ∧ stringIn s.originalEncoding ≠ none) :
    ∃ result, useData unwrap fields page
      ⟨linelimit + 6, length, s.originalContentType, s.originalEncoding⟩ = .ok result := by
  rw [useData, if_neg (Nat.not_lt.mpr fits)]
  cases unwrapped : unwrap ((page.drop (linelimit + 6)).take length) with
  | none => exact ⟨_, rfl⟩
  | some output =>
    obtain ⟨hasType, hasEncoding⟩ := strings (by rw [unwrapped]; nofun)
    obtain ⟨type, isType⟩ := ne_none_iff_exists'.mp hasType
    obtain ⟨encoding, isEncoding⟩ := ne_none_iff_exists'.mp hasEncoding
    obtain ⟨typeRoom, encodingRoom, keepsType, keepsEncoding, sum⟩ := placed.copied
    have typeLength := length_stringIn_le keepsType isType
    have encodingLength := length_stringIn_le keepsEncoding isEncoding
    have outputLength : output.length ≤ length :=
      Nat.le_trans (shrinks _ _ unwrapped) (length_take_le _ _)
    have restored : restorePage page output
        ⟨linelimit + 6, length, s.originalContentType, s.originalEncoding⟩
        = .ok (Bytes.overwrite page 0 (output ++ type.bytes ++ encoding.bytes), type) := by
      simp only [restorePage, isType, isEncoding, length_append]
      rw [if_neg (by omega), if_neg (by omega), if_neg (by omega)]
    simp only [restored]
    exact ⟨_, rfl⟩

variable {data : Encrypted}

theorem fits_of_useData {result : Decrypted} (ok : useData unwrap fields page data = .ok result) :
    data.start + data.length ≤ page.length
      ∧ (unwrap ((page.drop data.start).take data.length) ≠ none →
        stringIn data.originalContentType ≠ none ∧ stringIn data.originalEncoding ≠ none) := by
  rw [useData] at ok
  split at ok
  · cases ok
  · refine ⟨Nat.le_of_not_lt ‹_›, ?_⟩
    intro unwraps
    obtain ⟨output, unwrapped⟩ := ne_none_iff_exists'.mp unwraps
    rw [unwrapped] at ok
    cases hasType : stringIn data.originalContentType with
    | none =>
      simp only [restorePage, hasType] at ok
      split at ok <;> cases ok
    | some type =>
      refine ⟨nofun, ?_⟩
      intro missing
      simp only [restorePage, hasType, missing] at ok
      split at ok
      · cases ok
      · split at ok <;> cases ok

/-! ## Whole calls -/

variable {fuel : Nat}

/-- One iteration. -/
theorem decryptFrom_succ : decryptFrom unwrap fields page (fuel + 1) s =
    match s.step page with
    | .error violation => .error violation
    | .ok (.next next) => decryptFrom unwrap fields page fuel next
    | .ok .ended => .ok ⟨false, some fields, some page, page.length⟩
    | .ok (.found data) => useData unwrap fields page data := by
  rw [decryptFrom, scan]
  rcases s.step page with _ | _ | _ | _ <;> rfl

/-- An iteration that changes nothing is repeated for ever. -/
theorem decryptFrom_stuck (taken : s.step page = .ok (.next s)) :
    decryptFrom unwrap fields page fuel s = .error .running := by
  induction fuel with
  | zero => rfl
  | succ fuel ih =>
    rw [decryptFrom_succ, taken]
    exact ih

/-- The call returns from here on, without a violation. -/
def Returns (unwrap : List UInt8 → Option (List UInt8)) (fields : List ResponseHeader)
    (page : List UInt8) (s : Scanner) : Prop :=
  ∃ fuel result, decryptFrom unwrap fields page fuel s = .ok result

section

variable (returns : Returns unwrap fields page s)
include returns

theorem Returns.next {next : Scanner}
    (taken : s.step page = .ok (.next next)) : Returns unwrap fields page next := by
  obtain ⟨fuel, result, ok⟩ := returns
  cases fuel with
  | zero => cases ok
  | succ fuel =>
    rw [decryptFrom_succ, taken] at ok
    exact ⟨fuel, result, ok⟩

theorem Returns.step_ok : ∃ outcome, s.step page = .ok outcome := by
  obtain ⟨fuel, result, ok⟩ := returns
  cases fuel with
  | zero => cases ok
  | succ fuel =>
    cases taken : s.step page with
    | ok outcome => exact ⟨outcome, rfl⟩
    | error violation =>
      rw [decryptFrom_succ, taken] at ok
      cases ok

theorem Returns.useData (taken : s.step page = .ok (.found data)) :
    ∃ result, useData unwrap fields page data = .ok result := by
  obtain ⟨fuel, result, ok⟩ := returns
  cases fuel with
  | zero => cases ok
  | succ fuel =>
    rw [decryptFrom_succ, taken] at ok
    exact ⟨result, ok⟩

end

/-- On a single byte behind the last line the loop stands still. -/
theorem step_stuck (loop : s.loop = .segment) (last : s.scanp + 1 = page.length) {c : UInt8}
    (here : page[s.scanp]? = some c) (other : isBreak c = false) : s.step page = .ok (.next s) := by
  have line : LineAt page s.scanp s.scanp s.scanp := by
    constructor
    · rw [show page.length - s.scanp = 0 + 1 by omega, scanWhile, here, bind_eq_bind,
        bind_some, other]
      rfl
    · rw [show page.length - 1 - s.scanp = 0 by omega]
      rfl
  have kind : lineKind page s.scanp s.scanp = some .other := by
    have none (word : List UInt8) {fits : Prop} [Decidable fits] (not : ¬fits) :
        startsWith page word s.scanp fits = some false := by
      rw [startsWith, if_neg (by simpa using not)]
    have positive : 0 < originalContent.length := by decide
    rw [lineKind, none _ (by omega), none _ (by omega)]
    simp
  rw [step_line loop (by omega) line kind]
  rfl

/-- A copy that was made fits. -/
theorem fits_of_copyTo {p limit : Nat} (inside : limit ≤ page.length) (size : Nat)
    (buffer : Option (List UInt8))
    (copied : copyTo size buffer ((page.drop p).take (limit - p)) ≠ none) :
    limit - p ≤ size := by
  rw [copyTo] at copied
  split at copied
  · rename_i fits
    rw [length_take, length_drop] at fits
    omega
  · exact absurd rfl copied

theorem fieldFits_of_readEntry {read : Scanner} {entryp entrylimit : Nat} {field : Field}
    (inside : entrylimit ≤ page.length)
    (ok : s.readEntry page entryp entrylimit (some field) = .ok read) :
    FieldFits page entryp entrylimit field := by
  cases field with
  | length =>
    intro none
    rw [readEntry] at ok
    change reads (atoi page (entryp + lengthField.length)) >>= _ = _ at ok
    rw [none] at ok
    cases ok
  | type =>
    refine fits_of_copyTo inside typeSaveSize s.originalContentType ?_
    intro none
    simp only [readEntry, Field.word, none] at ok
    cases ok
  | charset =>
    refine fits_of_copyTo inside encodingSaveSize s.originalEncoding ?_
    intro none
    simp only [readEntry, Field.word, none] at ok
    cases ok

/-- A call that returns has been harmless. -/
theorem Returns.harmless (placed : s.Placed page) (returns : Returns unwrap fields page s) :
    s.Harmless unwrap page := by
  rw [Scanner.Harmless]
  split
  · trivial
  · rename_i loop
    refine ⟨?_, ?_⟩
    · intro c last here
      cases other : isBreak c with
      | true => rfl
      | false =>
        obtain ⟨fuel, result, ok⟩ := returns
        rw [decryptFrom_stuck (step_stuck loop last here other)] at ok
        cases ok
    · intro linep linelimit inside line kind
      have step := step_line loop inside line kind
      rw [readLine] at step
      cases signature : signatureAt page (linelimit + 2) with
      | none =>
        obtain ⟨outcome, ok⟩ := returns.step_ok
        rw [step, signature] at ok
        cases ok
      | some sigLen =>
        rw [signature] at step
        obtain ⟨result, ok⟩ := returns.useData step
        obtain ⟨fits, strings⟩ := fits_of_useData ok
        exact ⟨sigLen, signature, fits, strings⟩
  · rename_i linep loop
    intro entryp entrylimit field entry is
    obtain ⟨entryp', entrylimit', entry', low, mid, further, ended⟩ :=
      entryAt_spec linep placed.inside
    obtain rfl : entryp' = entryp := Option.some.inj (entry'.first.symm.trans entry.first)
    obtain rfl : entrylimit' = entrylimit := Option.some.inj (entry'.last.symm.trans entry.last)
    obtain ⟨field', is', fieldFits⟩ := entryField_spec placed.inside
      (show entryp' + 1 ≤ entrylimit' → entrylimit' ≤ s.scanp by omega)
    obtain rfl : field' = some field := Option.some.inj (is'.symm.trans is)
    obtain ⟨outcome, ok⟩ := returns.step_ok
    rw [step_entry loop entry is] at ok
    cases reading : s.readEntry page entryp' entrylimit' (some field) with
    | error violation =>
      rw [reading] at ok
      cases ok
    | ok read => exact fieldFits_of_readEntry (fieldFits field rfl).2 reading

/-- One harmless iteration. -/
theorem Scanner.Harmless.step_spec (placed : s.Placed page) (harmless : s.Harmless unwrap page) :
    s.step page = .ok .ended ∨ s.Finds unwrap page ∨ s.GoesOn page := by
  cases loop : s.loop with
  | page =>
    rcases pageStep_spec placed loop with ended | goesOn
    · exact .inl ended
    · exact .inr (.inr goesOn)
  | segment => exact .inr (segmentStep_spec placed loop harmless)
  | entries linep => exact .inr (.inr (entriesStep_spec placed loop harmless))

/-- Every state that a returning call visits is in place and returns. -/
theorem Scanner.Visited.returns (visited : s.Visited page)
    (returns : Returns unwrap fields page .start) :
    s.Placed page ∧ Returns unwrap fields page s := by
  induction visited with
  | start => exact ⟨placed_start page, returns⟩
  | step visited taken ih =>
    obtain ⟨placed, later⟩ := ih
    refine ⟨?_, later.next taken⟩
    rcases (later.harmless placed).step_spec placed with ended | finds | goesOn
    · cases ended.symm.trans taken
    · obtain ⟨linelimit, sigLen, -, found, -⟩ := finds
      cases found.symm.trans taken
    · obtain ⟨next, went, nextPlaced, -⟩ := goesOn
      cases went.symm.trans taken
      exact nextPlaced

/-- A call that stays harmless returns. The induction is on what is left to do. -/
theorem returns_of_harmless
    (shrinks : ∀ bytes output, unwrap bytes = some output → output.length ≤ bytes.length)
    (harmless : ∀ s : Scanner, s.Visited page → s.Harmless unwrap page) (visited : s.Visited page)
    (placed : s.Placed page) : Returns unwrap fields page s := by
  induction measured : s.remaining page using WellFoundedLT.induction generalizing s with
  | ind remaining ih =>
    subst measured
    rcases (harmless s visited).step_spec placed with ended | finds | goesOn
    · exact ⟨1, _, decryptFrom_succ.trans (by rw [ended])⟩
    · obtain ⟨linelimit, sigLen, low, found, fits, strings⟩ := finds
      have before : s.used ≤ s.scanp := by
        rw [used]
        split <;> omega
      obtain ⟨result, ok⟩ : ∃ result, useData unwrap fields page ⟨linelimit + 6,
          (s.originalContentLength + sigLen).toNat, s.originalContentType,
          s.originalEncoding⟩ = .ok result :=
        useData_of_fits shrinks placed (Nat.le_trans before low) fits strings
      exact ⟨1, result, by rw [decryptFrom_succ, found, ← ok]⟩
    · obtain ⟨next, went, nextPlaced, less⟩ := goesOn
      obtain ⟨fuel, result, ok⟩ := ih _ less (visited.step went) nextPlaced rfl
      exact ⟨fuel + 1, result, by rw [decryptFrom_succ, went, ← ok]⟩

/-- The loops start if the response is encrypted and can be decrypted. -/
theorem decryptData_encrypted {type : ZString}
    (isType : ResponseHeader.contentType fields = some type) (encrypted : isEncrypted type = true) :
    decryptData unwrap fuel (some fields) true (some page)
      = decryptFrom unwrap fields page fuel .start := by
  simp only [decryptData, isType, encrypted, Bool.not_true, Bool.false_eq_true, if_false]

/-- A call of `HttpClient_DecryptData` returns without leaving the page and its buffers exactly
if no iteration meets a value that it cannot use, given that unwrapping does not lengthen. A
response that is not encrypted, or cannot be decrypted, is not looked at. -/
theorem decryptData_inBounds_iff
    (shrinks : ∀ bytes output, unwrap bytes = some output → output.length ≤ bytes.length)
    (headers : Option (List ResponseHeader)) (authContext : Bool) (body : Option (List UInt8)) :
    (∃ fuel result, decryptData unwrap fuel headers authContext body = .ok result)
      ↔ ∀ fields type bytes, headers = some fields →
        ResponseHeader.contentType fields = some type → isEncrypted type = true →
        authContext = true → body = some bytes →
        ∀ s : Scanner, s.Visited bytes → s.Harmless unwrap bytes := by
  constructor
  · rintro ⟨fuel, result, ok⟩ fields type bytes rfl isType encrypted rfl rfl s visited
    rw [decryptData_encrypted isType encrypted] at ok
    obtain ⟨placed, returns⟩ := visited.returns ⟨fuel, result, ok⟩
    exact returns.harmless placed
  · intro harmless
    cases headers with
    | none => exact ⟨0, _, rfl⟩
    | some fields =>
      cases isType : ResponseHeader.contentType fields with
      | none =>
        refine ⟨0, ⟨false, some fields, body, (body.getD []).length⟩, ?_⟩
        simp only [decryptData, isType]
      | some type =>
        cases encrypted : isEncrypted type with
        | false =>
          refine ⟨0, ⟨true, some fields, body, (body.getD []).length⟩, ?_⟩
          simp only [decryptData, isType, encrypted, Bool.not_false, if_true]
        | true =>
          cases authContext with
          | false =>
            refine ⟨0, ⟨false, some fields, body, (body.getD []).length⟩, ?_⟩
            simp only [decryptData, isType, encrypted, Bool.not_true, Bool.not_false,
              Bool.false_eq_true, if_false, if_true]
          | true =>
            cases body with
            | none =>
              refine ⟨0, ⟨false, some fields, none, 0⟩, ?_⟩
              simp only [decryptData, isType, encrypted, Bool.not_true,
                Bool.false_eq_true, if_false]
              rfl
            | some bytes =>
              obtain ⟨fuel, result, ok⟩ : Returns unwrap fields bytes .start :=
                returns_of_harmless shrinks
                  (harmless fields type bytes rfl isType encrypted rfl rfl)
                  .start (placed_start bytes)
              exact ⟨fuel, result, (decryptData_encrypted isType encrypted).trans ok⟩

/-- The header of an encrypted response. -/
def encryptedHeaders : List ResponseHeader := [⟨contentTypeName, multipartEncrypted⟩]

/-- A part that describes the original content and one with the encrypted bytes. -/
def smallBody : List UInt8 :=
  ascii "--Encrypted Boundary\r\nOriginalContent: type=a;charset=b;length=1\r\n"
    ++ ascii "--Encrypted Boundary\r\nContent-Type: application/octet-stream\r\n"
    ++ [1, 0, 0, 0, 7, 7]

theorem decryptData_inBounds_iff_smallBody :
    (decryptData (fun bytes => some (bytes.drop 1)) 10 (some encryptedHeaders) true
        (some smallBody)).toOption.map Decrypted.returned = some true
      ∧ ∀ s : Scanner, s.Visited smallBody →
        s.Harmless (fun bytes => some (bytes.drop 1)) smallBody := by
  have returned : (decryptData (fun bytes => some (bytes.drop 1)) 10 (some encryptedHeaders) true
      (some smallBody)).toOption.map Decrypted.returned = some true := by decide +kernel
  refine ⟨returned, ?_⟩
  refine (decryptData_inBounds_iff ?_ (some encryptedHeaders) true (some smallBody)).mp ?_
    encryptedHeaders multipartEncrypted smallBody rfl (by decide +kernel) (by decide +kernel)
    rfl rfl
  · rintro bytes _ ⟨⟩
    rw [length_drop]
    exact Nat.sub_le _ _
  · cases ok : decryptData (fun bytes => some (bytes.drop 1)) 10 (some encryptedHeaders) true
        (some smallBody) with
    | ok result => exact ⟨10, result, ok⟩
    | error violation =>
      rw [ok] at returned
      cases returned

/-- The violation that one fuel meets is met by every other that is enough. -/
theorem scan_error {violation : Violation} (other : violation ≠ .running)
    (error : s.scan page fuel = .error violation) (fuel' : Nat) :
    s.scan page fuel' = .error violation ∨ s.scan page fuel' = .error .running := by
  induction fuel generalizing s fuel' with
  | zero =>
    cases error
    exact absurd rfl other
  | succ fuel ih =>
    cases fuel' with
    | zero => exact .inr rfl
    | succ fuel' =>
      rw [scan] at error ⊢
      cases taken : s.step page with
      | error v =>
        rw [taken] at error
        exact .inl error
      | ok outcome =>
        rw [taken] at error
        cases outcome with
        | next next => exact ih error fuel'
        | ended | found data => cases error

/-- The body ends where the size of the signature should be. -/
def truncatedBody : List UInt8 :=
  ascii "--Encrypted Boundary\r\nContent-Type: application/octet-stream\r\n"

/-- The last line has no line break. -/
def unterminatedBody : List UInt8 := ascii "Encrypted Boundary\nx"

/-- A truncated body is read behind its end, and a body whose last line has no line break
keeps the loop over the lines going. -/
theorem decryptData_reads_outside :
    (decryptData (fun _ => none) 10 (some encryptedHeaders) true (some truncatedBody)
        = .error .readOutside
      ∧ ∀ fuel result, decryptData (fun _ => none) fuel (some encryptedHeaders) true
        (some truncatedBody) ≠ .ok result)
    ∧ ∀ fuel, decryptData (fun _ => none) fuel (some encryptedHeaders) true
      (some unterminatedBody) = .error .running := by
  have isType : ResponseHeader.contentType encryptedHeaders = some multipartEncrypted := by
    decide
  have encrypted : isEncrypted multipartEncrypted = true := by decide
  refine ⟨⟨by decide, ?_⟩, ?_⟩
  · intro fuel result ok
    have error : start.scan truncatedBody 10 = .error .readOutside := by decide
    rw [decryptData_encrypted isType encrypted, decryptFrom] at ok
    rcases scan_error (by nofun) error fuel with again | again
    all_goals
      rw [again] at ok
      cases ok
  · intro fuel
    rw [decryptData_encrypted isType encrypted]
    have first : start.step unterminatedBody
        = .ok (.next ⟨.segment, 18, 0, none, none⟩) := by decide
    have second : Scanner.step unterminatedBody ⟨.segment, 18, 0, none, none⟩
        = .ok (.next ⟨.segment, 19, 0, none, none⟩) := by decide
    have third : Scanner.step unterminatedBody ⟨.segment, 19, 0, none, none⟩
        = .ok (.next ⟨.segment, 19, 0, none, none⟩) := by decide
    match fuel with
    | 0 => rfl
    | 1 => rw [decryptFrom_succ, first]; rfl
    | fuel + 2 => simp only [decryptFrom_succ, first, second, decryptFrom_stuck third]

end Omi.Http
