import Omi.Base.Batch

/-!
# Relocation of a batch

The page list of the sender, the vector in the header and the page list of the
receiver run in the same order, although each is built from its other end. Because
the pages of a well-formed batch do not overlap, at most one entry of the vector
covers a pointer, and the search of `Batch_FixPointer` ends at the page with the
same index.
-/

namespace Omi.Base

open List

variable {b rebuilt grown : Batch}

/-- The address lies in the part of the page that is sent. -/
def Batch.Covers (b : Batch) (p : Page) (ptr : Nat) : Prop :=
  p.data ≤ ptr ∧ ptr < p.data + b.pageSize p

/-- For a page in the address space the test of the search is this one. -/
theorem Batch.WellFormed.covers_iff (wf : b.WellFormed) {p : Page} (mem : p ∈ b.pages)
    (ptr : Nat) :
    (p.data ≤ ptr ∧ ptr < (p.data + b.pageSize p) % sizeRange) ↔ b.Covers p ptr := by
  have inside := wf.pageSize_le mem
  have space := (wf.fits p mem).2
  rw [Nat.mod_eq_of_lt (by omega)]
  exact Iff.rfl

/-- Two pages of different position do not cover the same address. -/
theorem Batch.WellFormed.covers_unique (wf : b.WellFormed) {i j : Nat} {p q : Page} {ptr : Nat}
    (atI : b.pages[i]? = some p) (atJ : b.pages[j]? = some q) (different : j < i)
    (inP : b.Covers p ptr) : ¬b.Covers q ptr := by
  intro inQ
  have memP := mem_of_getElem? atI
  have memQ := mem_of_getElem? atJ
  have apart : q.Apart p := by
    obtain ⟨hi, rfl⟩ := List.getElem?_eq_some_iff.mp atI
    obtain ⟨hj, rfl⟩ := List.getElem?_eq_some_iff.mp atJ
    exact pairwise_iff_getElem.mp wf.apart j i hj hi different
  have endP := wf.pageSize_le memP
  have endQ := wf.pageSize_le memQ
  unfold Batch.Covers at inP inQ
  unfold Page.data at *
  rcases apart with before | after
  · omega
  · omega

theorem Batch.getPageInfo_get (i : Nat) :
    b.getPageInfo[i]? = b.pages[i]?.map fun p => ⟨p.data, b.pageSize p⟩ := by
  unfold Batch.getPageInfo
  rw [getElem?_map]

/-- The search in the rebuilt pages for a pointer into page `i`. -/
theorem fixPointerLoop_covered (wf : b.WellFormed) {i : Nat} {old new : Page} {o : Nat}
    {pages : List Page} (atOld : b.pages[i]? = some old) (atNew : pages[i]? = some new)
    (inside : o < b.pageSize old) :
    fixPointerLoop (old.data + o) pages b.getPageInfo = some (new.data + o) := by
  have covered : b.Covers old (old.data + o) := ⟨Nat.le_add_right _ _, by omega⟩
  have atInfo : b.getPageInfo[i]? = some ⟨old.data, b.pageSize old⟩ := by
    rw [b.getPageInfo_get, atOld]
    rfl
  have found := fixPointerLoop_eq_some atNew atInfo
    ((wf.covers_iff (mem_of_getElem? atOld) _).mpr covered) ?_
  · rw [found, Nat.add_sub_cancel_left]
  · intro j earlier before known test
    rw [b.getPageInfo_get] at known
    obtain ⟨q, atQ, rfl⟩ := Option.map_eq_some_iff.mp known
    have covers := (wf.covers_iff (mem_of_getElem? atQ) _).mp test
    exact wf.covers_unique atOld atQ before covered covers

/-- The search for a pointer that no page covers. -/
theorem fixPointerLoop_uncovered (wf : b.WellFormed) {ptr : Nat} {pages : List Page}
    (outside : ∀ p ∈ b.pages, ¬b.Covers p ptr) :
    fixPointerLoop ptr pages b.getPageInfo = none := by
  apply fixPointerLoop_eq_none
  intro info mem test
  obtain ⟨p, memP, rfl⟩ := mem_map.mp mem
  exact outside p memP ((wf.covers_iff memP ptr).mp test)

/-- Relocation between a batch and its rebuilt image, to which pages may have been added:
a pointer at offset `o` of page `i` moves to offset `o` of the rebuilt page `i`, and a
pointer into no page is refused and left alone. -/
theorem fixPointer_relocates (wf : b.WellFormed) {malloc : Nat → Nat → Option Nat}
    (created : createBatchByPageInfo malloc b.getPageInfo = some (some rebuilt))
    (grows : rebuilt.Grows grown) :
    rebuilt.pages.length = b.pages.length ∧
      (∀ (i : Nat) (old new : Page) (o : Nat), b.pages[i]? = some old → rebuilt.pages[i]? = some new →
        o < b.pageSize old →
        grown.fixPointer b.getPageInfo (old.data + o) = (true, new.data + o)) ∧
      ∀ ptr, (∀ p ∈ b.pages, ¬b.Covers p ptr) →
        grown.fixPointer b.getPageInfo ptr = (false, ptr) := by
  have length : rebuilt.pages.length = b.getPageInfo.length :=
    createBatchByPageInfo_length created
  refine ⟨?_, ?_, ?_⟩
  · rw [length]
    exact length_map _
  · intro i old new o atOld atNew inside
    rw [Batch.fixPointer_of_grows length grows, fixPointerLoop_covered wf atOld atNew inside]
  · intro ptr outside
    rw [Batch.fixPointer_of_grows length grows, fixPointerLoop_uncovered wf outside]

/-! ## A batch of two pages -/

/-- A small message in the current page and a large block in a page of its own. -/
def twoPages : Batch where
  avail := 4160
  endAddr := 5120
  pages := [⟨8192, true, 600, 616⟩, ⟨4096, false, 1008, 1024⟩]
  numPages := 1
  maxPages := 2 ^ 32 - 1

theorem wellFormed_twoPages : twoPages.WellFormed where
  apart := by
    simp [twoPages, Page.Apart]
  fits := by
    simp [twoPages, pageHeaderSize, sizeRange]
  current := by
    simp [twoPages, batchPageSize]
  origin := by
    simp [twoPages, batchPageSize]

/-- The receiver's copy of it, with pages from the address 65536 on. -/
def twoPagesRebuilt : Batch where
  avail := 0
  endAddr := 0
  pages := [⟨131072, false, 600, 616⟩, ⟨65536, false, 48, 104⟩]
  numPages := 0
  maxPages := 2 ^ 32 - 1

/-- A pointer into the second page and one into no page, after a further allocation. -/
theorem fixPointer_relocates_twoPages :
    ∃ grown : Batch, twoPagesRebuilt.get (fun _ => some 262144) 100 = some (262160, grown) ∧
      grown.fixPointer twoPages.getPageInfo 4120 = (true, 65560) ∧
      grown.fixPointer twoPages.getPageInfo 9000 = (false, 9000) := by
  have created : createBatchByPageInfo (fun n _ => some (65536 * (n + 1)))
      twoPages.getPageInfo = some (some twoPagesRebuilt) := by decide
  obtain ⟨grown, got⟩ : ∃ grown,
      twoPagesRebuilt.get (fun _ => some 262144) 100 = some (262160, grown) := ⟨_, rfl⟩
  obtain ⟨-, moved, refused⟩ :=
    fixPointer_relocates wellFormed_twoPages created (.get (.refl _) got)
  refine ⟨grown, got, moved 1 ⟨4096, false, 1008, 1024⟩ ⟨65536, false, 48, 104⟩ 8 rfl rfl
    (by decide), refused 9000 ?_⟩
  intro p mem
  simp only [twoPages, mem_cons, not_mem_nil, or_false] at mem
  rcases mem with rfl | rfl
  · simp [Batch.Covers, Page.data, Batch.pageSize, twoPages, batchPageSize, pageHeaderSize]
  · simp [Batch.Covers, Page.data, Batch.pageSize, twoPages, batchPageSize, pageHeaderSize]

end Omi.Base
