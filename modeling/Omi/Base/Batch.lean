import Mathlib

/-!
# Batches of memory pages

A batch hands out blocks from a linked list of pages. Small blocks are carved from
the current page; large ones get a page of their own, and every new page goes to
the front of the list. The page list is also what travels over the wire: the
sender describes its pages by address and size, the receiver allocates pages of
the same sizes in the same order, and pointers are relocated from one list to the
other. Addresses are natural numbers below `2 ^ 64`; a page additionally records
how many bytes its allocation spans.
-/

namespace Omi.Base

open List Option

/-- One past the largest `size_t`. -/
def sizeRange : Nat := 2 ^ 64

/-- `sizeof(Page)`. -/
def pageHeaderSize : Nat := 16

/-- `sizeof(Batch)`. -/
def batchStructSize : Nat := 40

/-- `BATCH_PAGE_SIZE`. -/
def batchPageSize : Nat := 1024

/-- `BLOCK_SIZE`. -/
def blockSize : Nat := 512

/-- A value stored in the 31-bit field `size` of a page. -/
def sizeField (size : Nat) : Nat := size % 2 ^ 31

/-- `Page`. The field `allocated` is the size of the allocation that holds it. -/
structure Page where
  addr : Nat
  independent : Bool
  size : Nat
  allocated : Nat
deriving DecidableEq, Repr

/-- The first byte behind the page header. -/
def Page.data (p : Page) : Nat := p.addr + pageHeaderSize

/-- `Header_BatchInfoItem`. -/
structure BatchInfoItem where
  pagePointer : Nat
  pageSize : Nat
deriving DecidableEq, Repr

/-- `Batch`; the list `pages` is the chain of `next` pointers. -/
structure Batch where
  avail : Nat
  endAddr : Nat
  pages : List Page
  numPages : Nat
  maxPages : Nat
deriving DecidableEq, Repr

/-- `Batch_Init`. -/
def Batch.init (maxPages : Nat) : Batch := ⟨0, 0, [], 0, maxPages⟩

/-- `(size + 7) & ~7` in `size_t`. -/
def roundUp8 (size : Nat) : Nat := (size + 7) % sizeRange / 8 * 8

namespace Batch

/-- `__Batch_Get`: the address of a block and the batch afterwards. -/
def get (malloc : Nat → Option Nat) (b : Batch) (size : Nat) : Option (Nat × Batch) :=
  let size8 := roundUp8 size
  if size8 ≤ blockSize ∧ size8 ≤ b.endAddr - b.avail then
    some (b.avail, { b with avail := b.avail + size8 })
  else if size8 ≤ blockSize ∧ b.numPages < b.maxPages then
    (malloc batchPageSize).map fun addr =>
      (addr + pageHeaderSize,
        { b with
          avail := addr + pageHeaderSize + size8
          endAddr := addr + batchPageSize
          pages := ⟨addr, false, batchPageSize - pageHeaderSize, batchPageSize⟩ :: b.pages
          numPages := b.numPages + 1 })
  else
    -- the block gets a page of its own, which never becomes the current page
    let bytes := (pageHeaderSize + size8) % sizeRange
    (malloc bytes).map fun addr =>
      (addr + pageHeaderSize,
        { b with pages := ⟨addr, true, sizeField size8, bytes⟩ :: b.pages })

/-- `Batch_GetPageCount`. -/
def getPageCount (b : Batch) : Nat := b.pages.length

/-- How many bytes of a page are sent: the current page only up to `avail`. -/
def pageSize (b : Batch) (p : Page) : Nat :=
  if b.endAddr = p.addr + batchPageSize then b.avail - p.data else p.size

/-- `Batch_GetPageInfo`. -/
def getPageInfo (b : Batch) : List BatchInfoItem :=
  b.pages.map fun p => ⟨p.data, b.pageSize p⟩

/-- The pages from an index on, as `Batch_GetPageByIndex` finds them. -/
def pagesFrom (b : Batch) (index : Nat) : List Page := b.pages.drop index

end Batch

/-- One iteration of `Batch_CreateBatchByPageInfo`: a page for `info` in front of what has
been built. The first page that is allocated also holds the batch itself. -/
def addReceivedPage (malloc : Nat → Option Nat) (info : BatchInfoItem) :
    Option Batch → Option Batch
  | none =>
    if sizeRange ≤ pageHeaderSize + info.pageSize then none
    else
      let size8 := roundUp8 (pageHeaderSize + info.pageSize)
      if sizeRange ≤ size8 + batchStructSize then none
      else
        (malloc (size8 + batchStructSize)).map fun addr =>
          { Batch.init (2 ^ 32 - 1) with
            pages := [⟨addr, false, sizeField info.pageSize, size8 + batchStructSize⟩] }
  | some b =>
    if sizeRange ≤ pageHeaderSize + info.pageSize then none
    else
      (malloc (pageHeaderSize + info.pageSize)).map fun addr =>
        { b with
          pages := ⟨addr, false, sizeField info.pageSize, pageHeaderSize + info.pageSize⟩ ::
            b.pages }

/-- `Batch_CreateBatchByPageInfo` from a NULL batch. The vector is processed from its end,
and without any entry the result is success with the batch still NULL. The call of
`malloc` is numbered by the entries that are already done. -/
def createBatchByPageInfo (malloc : Nat → Nat → Option Nat) :
    List BatchInfoItem → Option (Option Batch)
  | [] => some none
  | info :: rest =>
    (createBatchByPageInfo malloc rest).bind fun built =>
      (addReceivedPage (malloc rest.length) info built).map some

/-- The loop of `Batch_FixPointer` over pages and page information side by side. -/
def fixPointerLoop (ptr : Nat) : List Page → List BatchInfoItem → Option Nat
  | page :: pages, info :: infos =>
    if info.pagePointer ≤ ptr ∧ ptr < (info.pagePointer + info.pageSize) % sizeRange then
      some (page.data + (ptr - info.pagePointer))
    else fixPointerLoop ptr pages infos
  | _, _ => none

/-- `Batch_FixPointer`: the returned boolean and the pointer afterwards. Pages in front of
the received ones are skipped; with fewer pages than entries the unsigned difference lies
behind the end of the list. -/
def Batch.fixPointer (b : Batch) (infos : List BatchInfoItem) (ptr : Nat) : Bool × Nat :=
  if infos.length ≤ b.getPageCount then
    match fixPointerLoop ptr (b.pagesFrom (b.getPageCount - infos.length)) infos with
    | some fixed => (true, fixed)
    | none => (false, ptr)
  else (false, ptr)

/-! ## Well-formed batches -/

/-- Two pages lie in different allocations. -/
def Page.Apart (p q : Page) : Prop :=
  p.addr + p.allocated ≤ q.addr ∨ q.addr + q.allocated ≤ p.addr

/-- What the allocator and the operations above guarantee: the pages lie in separate
allocations inside the address space, and `avail` points into the current page. -/
structure Batch.WellFormed (b : Batch) : Prop where
  apart : b.pages.Pairwise Page.Apart
  fits : ∀ p ∈ b.pages, pageHeaderSize + p.size ≤ p.allocated ∧
    p.addr + p.allocated < sizeRange
  current : ∀ p ∈ b.pages, b.endAddr = p.addr + batchPageSize →
    b.avail ≤ b.endAddr ∧ batchPageSize ≤ p.allocated
  origin : b.endAddr = 0 ∨ ∃ p ∈ b.pages, b.endAddr = p.addr + batchPageSize

variable {b b' : Batch} {size ptr : Nat} {infos : List BatchInfoItem}

/-- The part of a page that is sent lies inside its allocation. -/
theorem Batch.WellFormed.pageSize_le (wf : b.WellFormed) {p : Page} (mem : p ∈ b.pages) :
    p.data + b.pageSize p ≤ p.addr + p.allocated := by
  obtain ⟨fits, -⟩ := wf.fits p mem
  unfold Batch.pageSize Page.data
  split
  · rename_i isCurrent
    obtain ⟨avail, wide⟩ := wf.current p mem isCurrent
    simp only [batchPageSize, pageHeaderSize] at *
    omega
  · omega

/-- What `malloc` promises to a batch: a block inside the address space and apart from the
pages it already has. -/
def Batch.FreshMalloc (b : Batch) (malloc : Nat → Option Nat) : Prop :=
  ∀ bytes addr, malloc bytes = some addr →
    addr + bytes < sizeRange ∧
      ∀ p ∈ b.pages, p.addr + p.allocated ≤ addr ∨ addr + bytes ≤ p.addr

theorem Batch.wellFormed_init (maxPages : Nat) : (Batch.init maxPages).WellFormed where
  apart := .nil
  fits := nofun
  current := nofun
  origin := .inl rfl

/-- A new page in front of a well-formed batch. The current page stays, or the new one becomes
the current one. -/
theorem Batch.WellFormed.addPage (wf : b.WellFormed) (page : Page) {avail endAddr numPages : Nat}
    (fits : pageHeaderSize + page.size ≤ page.allocated ∧ page.addr + page.allocated < sizeRange)
    (fresh : ∀ p ∈ b.pages, p.addr + p.allocated ≤ page.addr ∨ page.addr + page.allocated ≤ p.addr)
    (stays : (avail = b.avail ∧ endAddr = b.endAddr) ∨
      (endAddr = page.addr + batchPageSize ∧ avail ≤ endAddr ∧ batchPageSize ≤ page.allocated)) :
    Batch.WellFormed ⟨avail, endAddr, page :: b.pages, numPages, b.maxPages⟩ := by
  have header : 0 < pageHeaderSize := by decide
  have other : ∀ p ∈ b.pages, p.addr ≠ page.addr := by
    intro p mem
    have room := (wf.fits p mem).1
    have apart := fresh p mem
    omega
  refine ⟨.cons (fun p mem => (fresh p mem).symm) wf.apart, forall_mem_cons.mpr ⟨fits, wf.fits⟩,
    ?_, ?_⟩
  · intro p mem isCurrent
    dsimp only at mem isCurrent
    rcases stays with ⟨rfl, rfl⟩ | ⟨rfl, inside, wide⟩
    · rcases mem_cons.mp mem with rfl | old
      · have positive : 0 < batchPageSize := by decide
        rcases wf.origin with zero | ⟨q, old, same⟩
        · omega
        · exact absurd (Nat.add_right_cancel (same.symm.trans isCurrent)) (other q old)
      · exact wf.current p old isCurrent
    · rcases mem_cons.mp mem with rfl | old
      · exact ⟨inside, wide⟩
      · exact absurd (Nat.add_right_cancel isCurrent).symm (other p old)
  · rcases stays with ⟨rfl, rfl⟩ | ⟨rfl, -⟩
    · exact wf.origin.imp_right fun ⟨p, mem, same⟩ => ⟨p, mem_cons_of_mem _ mem, same⟩
    · exact .inr ⟨page, mem_cons_self, rfl⟩

theorem roundUp8_bounds (small : size + 32 ≤ sizeRange) :
    size ≤ roundUp8 size ∧ roundUp8 size < size + 8 := by
  unfold roundUp8
  rw [Nat.mod_eq_of_lt (by omega)]
  omega

variable {malloc : Nat → Option Nat}

/-- Allocation keeps a batch well formed. -/
theorem Batch.WellFormed.get (wf : b.WellFormed)
    (fresh : b.FreshMalloc malloc) (small : size + 32 ≤ sizeRange)
    (got : b.get malloc size = some (ptr, b')) : b'.WellFormed := by
  obtain ⟨-, rounded⟩ := roundUp8_bounds small
  unfold Batch.get at got
  dsimp only at got
  split at got
  · rename_i room
    cases got
    refine ⟨wf.apart, wf.fits, ?_, wf.origin⟩
    intro p mem isCurrent
    obtain ⟨avail, wide⟩ := wf.current p mem isCurrent
    exact ⟨by dsimp only; omega, wide⟩
  split at got
  · rename_i block
    obtain ⟨addr, allocated, same⟩ := map_eq_some_iff.mp got
    cases same
    obtain ⟨inside, apart⟩ := fresh _ _ allocated
    have header : pageHeaderSize + (batchPageSize - pageHeaderSize) ≤ batchPageSize := by
      decide
    refine wf.addPage ⟨addr, false, batchPageSize - pageHeaderSize, batchPageSize⟩
      ⟨header, inside⟩ apart (.inr ⟨rfl, ?_, Nat.le_refl _⟩)
    simp only [blockSize, batchPageSize, pageHeaderSize] at *
    omega
  · obtain ⟨addr, allocated, same⟩ := map_eq_some_iff.mp got
    cases same
    obtain ⟨inside, apart⟩ := fresh _ _ allocated
    have whole : (pageHeaderSize + roundUp8 size) % sizeRange =
        pageHeaderSize + roundUp8 size := by
      apply Nat.mod_eq_of_lt
      simp only [pageHeaderSize]
      omega
    refine wf.addPage _ ⟨?_, inside⟩ apart (.inl ⟨rfl, rfl⟩)
    rw [whole]
    exact Nat.add_le_add_left (Nat.mod_le _ _) _

/-! ## Growth -/

/-- A batch after any number of further allocations. -/
inductive Batch.Grows : Batch → Batch → Prop where
  | refl (b : Batch) : Grows b b
  | get {b b' b'' : Batch} {malloc : Nat → Option Nat} {size : Nat} {ptr : Nat} :
      Grows b b' → b'.get malloc size = some (ptr, b'') → Grows b b''

theorem Batch.Grows.trans {a c : Batch} (first : a.Grows b) (second : b.Grows c) : a.Grows c := by
  induction second with
  | refl => exact first
  | get _ got ih => exact .get ih got

/-- An allocation leaves the pages where they are and adds at most one in front. -/
theorem Batch.get_pages (got : b.get malloc size = some (ptr, b')) :
    ∃ new, b'.pages = new ++ b.pages := by
  unfold Batch.get at got
  dsimp only at got
  split at got
  · cases got
    exact ⟨[], rfl⟩
  split at got
  · obtain ⟨addr, -, same⟩ := map_eq_some_iff.mp got
    cases same
    exact ⟨[_], rfl⟩
  · obtain ⟨addr, -, same⟩ := map_eq_some_iff.mp got
    cases same
    exact ⟨[_], rfl⟩

theorem Batch.Grows.pages (grows : b.Grows b') : ∃ new, b'.pages = new ++ b.pages := by
  induction grows with
  | refl => exact ⟨[], rfl⟩
  | get _ got ih =>
    obtain ⟨old, same⟩ := ih
    obtain ⟨new, same'⟩ := Batch.get_pages got
    exact ⟨new ++ old, by rw [same', same, append_assoc]⟩

/-! ## Relocation -/

/-- The pages built so far. -/
def builtPages (built : Option Batch) : List Page := built.elim [] Batch.pages

/-- An iteration puts one page in front, for the size of its entry, in a block of its own. -/
theorem addReceivedPage_spec {info : BatchInfoItem}
    {built : Option Batch} (added : addReceivedPage malloc info built = some b) :
    ∃ addr bytes, malloc bytes = some addr
      ∧ (bytes = pageHeaderSize + info.pageSize
        ∨ bytes = roundUp8 (pageHeaderSize + info.pageSize) + batchStructSize)
      ∧ b = { built.getD (.init (2 ^ 32 - 1)) with
        pages := ⟨addr, false, sizeField info.pageSize, bytes⟩ :: builtPages built } := by
  cases built with
  | none =>
    change (if _ then none else (if _ then none else Option.map _ _)) = some b at added
    split at added
    · cases added
    split at added
    · cases added
    · obtain ⟨addr, allocated, rfl⟩ := map_eq_some_iff.mp added
      exact ⟨addr, _, allocated, .inr rfl, rfl⟩
  | some built =>
    change (if _ then none else Option.map _ _) = some b at added
    split at added
    · cases added
    · obtain ⟨addr, allocated, rfl⟩ := map_eq_some_iff.mp added
      exact ⟨addr, _, allocated, .inl rfl, rfl⟩

/-- The rebuilt batch has one page for each entry; without entries it is still NULL. -/
theorem createBatchByPageInfo_length {malloc : Nat → Nat → Option Nat} {built : Option Batch}
    (created : createBatchByPageInfo malloc infos = some built) :
    (builtPages built).length = infos.length := by
  induction infos generalizing built with
  | nil =>
    cases created
    rfl
  | cons info rest ih =>
    obtain ⟨before, inner, outer⟩ := bind_eq_some_iff.mp created
    obtain ⟨b, added, rfl⟩ := map_eq_some_iff.mp outer
    obtain ⟨addr, bytes, -, -, rfl⟩ := addReceivedPage_spec added
    exact congrArg (· + 1) (ih inner)

/-- A pointer into no entry stops nowhere. -/
theorem fixPointerLoop_eq_none {pages : List Page} (outside : ∀ info ∈ infos,
      ¬(info.pagePointer ≤ ptr ∧ ptr < (info.pagePointer + info.pageSize) % sizeRange)) :
    fixPointerLoop ptr pages infos = none := by
  induction infos generalizing pages with
  | nil =>
    cases pages with
    | nil | cons page pages => rfl
  | cons info infos ih =>
    cases pages with
    | nil => rfl
    | cons page pages =>
      rw [fixPointerLoop, if_neg (outside info mem_cons_self)]
      exact ih (fun i mem => outside i (mem_cons_of_mem _ mem))

/-- A pointer into entry `i` and no earlier one is moved to page `i`. -/
theorem fixPointerLoop_eq_some {pages : List Page} {i : Nat} {page : Page} {info : BatchInfoItem}
    (atPage : pages[i]? = some page) (atInfo : infos[i]? = some info)
    (inside : info.pagePointer ≤ ptr ∧ ptr < (info.pagePointer + info.pageSize) % sizeRange)
    (first : ∀ j earlier, j < i → infos[j]? = some earlier →
      ¬(earlier.pagePointer ≤ ptr ∧
        ptr < (earlier.pagePointer + earlier.pageSize) % sizeRange)) :
    fixPointerLoop ptr pages infos = some (page.data + (ptr - info.pagePointer)) := by
  induction i generalizing pages infos with
  | zero =>
    cases pages with
    | nil => cases atPage
    | cons page' pages =>
      cases infos with
      | nil => cases atInfo
      | cons info' infos =>
        cases atPage
        cases atInfo
        rw [fixPointerLoop, if_pos inside]
  | succ i ih =>
    cases pages with
    | nil => cases atPage
    | cons page' pages =>
      cases infos with
      | nil => cases atInfo
      | cons info' infos =>
        rw [fixPointerLoop, if_neg (first 0 info' (Nat.succ_pos i) rfl)]
        refine ih atPage atInfo ?_
        intro j earlier before known
        exact first (j + 1) earlier (Nat.succ_lt_succ before) known

/-- Relocation looks at the rebuilt pages only, however many have been added since. -/
theorem Batch.fixPointer_of_grows {rebuilt grown : Batch}
    (length : rebuilt.pages.length = infos.length) (grows : rebuilt.Grows grown) (ptr : Nat) :
    grown.fixPointer infos ptr =
      match fixPointerLoop ptr rebuilt.pages infos with
      | some fixed => (true, fixed)
      | none => (false, ptr) := by
  obtain ⟨new, same⟩ := grows.pages
  have count : grown.getPageCount = new.length + infos.length := by
    unfold Batch.getPageCount
    rw [same, length_append, length]
  have from_ : grown.pagesFrom (grown.getPageCount - infos.length) = rebuilt.pages := by
    unfold Batch.pagesFrom
    rw [count, Nat.add_sub_cancel, same, drop_left]
  unfold Batch.fixPointer
  rw [if_pos (by omega), from_]

end Omi.Base
