import Xv6.Param

/-!
# The user heap allocator (`umalloc.c`)

The allocator of Kernighan and Ritchie with the page allocator `pmalloc` and `pfree` added.
The heap is a circular list of free blocks through the static header `base`, ordered by
address; each block starts with a `Header` holding the next free block and the block's size
in `Header` units. `malloc` takes the first block that fits and cuts the tail off it;
`morecore` gets more memory from `sbrk` and puts it on the list with `free`, which keeps the
list ordered and joins neighbouring blocks.

`pmalloc` hands out a page-aligned block of one page (`PGSIZE / sizeof(Header)` units) and
marks its page with `PTE_PMALLOCED` through `light_page_flags`; `pfree` checks the mark and
gives the page back.

Memory is modelled by the two fields of the header at each address. The user-visible page
flags of the heap's pages are what the page-flag system calls read and change; `sbrk` is the
kernel's `growproc`, which gives memory up to `top`. The loops of `free`, `malloc` and
`pmalloc` follow pointers, so each takes a bound and returns `none` when it would run past it.

## Main definitions

* `Heap`: the header fields, `freep`, the program break and the page flags.
* `free`, `morecore`, `malloc`, `pmalloc`, `pfree`, `protectPage`.

## Main results

* `malloc_then_pmalloc_loses_remainder`: `malloc(1)` then `pmalloc()` from the empty heap
  leaves units of the heap in no block.
* `pmalloc_unaligned_marks_header_page`: `pmalloc` from an unaligned block marks the wrong page.
-/

namespace Xv6.Umalloc

/-- `sizeof(Header)`: a pointer and an `uint`. -/
def headerSize : UInt32 := 8

/-- `p + n` on `Header *`. -/
def hadd (p n : UInt32) : UInt32 := p + headerSize * n

/-- The user memory the allocator reads and writes. -/
structure Heap where
  /-- `h->s.ptr` of the header at each address. -/
  ptrAt : UInt32 → UInt32
  /-- `h->s.size` of the header at each address. -/
  sizeAt : UInt32 → UInt32
  /-- `freep`; `0` before the first call. -/
  freep : UInt32
  /-- The program break. -/
  brk : UInt32
  /-- The break past which `sbrk` fails. -/
  top : UInt32
  /-- The flags of the entry of each page, as `check_page_flags` reads them. -/
  pageFlags : UInt32 → UInt32

namespace Heap

/-- `h->s.ptr = v`. -/
def setPtr (h : Heap) (a v : UInt32) : Heap := { h with ptrAt := Function.update h.ptrAt a v }

/-- `h->s.size = v`. -/
def setSize (h : Heap) (a v : UInt32) : Heap := { h with sizeAt := Function.update h.sizeAt a v }

/-- `light_page_flags(addr, flags)` on the page of `addr`. -/
def lightPageFlags (h : Heap) (addr flags : UInt32) : Heap :=
  let pg := pgRoundDown addr
  { h with pageFlags := Function.update h.pageFlags pg (h.pageFlags pg ||| flags) }

/-- `turn_off_page_flags(addr, flags)` on the page of `addr`. -/
def turnOffPageFlags (h : Heap) (addr flags : UInt32) : Heap :=
  let pg := pgRoundDown addr
  { h with pageFlags := Function.update h.pageFlags pg (h.pageFlags pg &&& ~~~flags) }

/-- `check_page_flags(addr, flags)`. -/
def checkPageFlags (h : Heap) (addr flags : UInt32) : UInt32 :=
  h.pageFlags (pgRoundDown addr) &&& flags

/-- `sbrk(n)`: the old break, or `none` for `(char *) -1`. -/
def sbrk (h : Heap) (n : Int32) : Option (UInt32 × Heap) :=
  let brk := h.brk + n.toUInt32
  if (0 ≤ n ∧ (brk < h.brk ∨ brk > h.top)) ∨ (n < 0 ∧ brk > h.brk) then none
  else some (h.brk, { h with brk })

end Heap

/-! ## `free`, `morecore` and `malloc` -/

/-- The search loop of `free`: the free block `p` after which `bp` belongs, either between
`p` and its successor or at the wrap-around point of the list. -/
def freeScan (bp : UInt32) (h : Heap) : ℕ → UInt32 → Option UInt32
  | 0, _ => none
  | scan + 1, p =>
    if bp > p ∧ bp < h.ptrAt p then some p
    else if p ≥ h.ptrAt p ∧ (bp > p ∨ bp < h.ptrAt p) then some p
    else freeScan bp h scan (h.ptrAt p)

/-- `free(ap)`: put the block of `ap` on the free list, joined with the free blocks right
above and right below it. -/
def free (scan : ℕ) (ap : UInt32) (h : Heap) : Option Heap := do
  let bp := ap - headerSize
  let p ← freeScan bp h scan h.freep
  -- join with the block above, when `bp` ends where it starts
  let h := if hadd bp (h.sizeAt bp) = h.ptrAt p then
      let h := h.setSize bp (h.sizeAt bp + h.sizeAt (h.ptrAt p))
      h.setPtr bp (h.ptrAt (h.ptrAt p))
    else h.setPtr bp (h.ptrAt p)
  -- join with `p`, when `p` ends where `bp` starts
  let h := if hadd p (h.sizeAt p) = bp then
      let h := h.setSize p (h.sizeAt p + h.sizeAt bp)
      h.setPtr p (h.ptrAt bp)
    else h.setPtr p bp
  return { h with freep := p }

/-- `morecore(nu, p_flag)`: grow the heap by `nu` units (at least 4096 for `malloc`) and free
the new block. Returns `freep`, or `0` when `sbrk` fails. -/
def morecore (scan : ℕ) (nu : UInt32) (pFlag : Bool) (h : Heap) : Option (UInt32 × Heap) := do
  let nu := if nu < 4096 ∧ !pFlag then 4096 else nu
  match h.sbrk (nu * headerSize).toInt32 with
  | none => return (0, h)
  | some (p, h) =>
    let h ← free scan (hadd p 1) (h.setSize p nu)
    return (h.freep, h)

/-- `base.s.ptr = freep = prevp = &base; base.s.size = 0;` on the first call. -/
def initBase (base : UInt32) (h : Heap) : Heap :=
  if h.freep = 0 then { (h.setPtr base base).setSize base 0 with freep := base } else h

/-- The loop of `malloc`, from `p` with predecessor `prevp`: take the first block of at least
`nunits` units, whole when it fits exactly and its tail otherwise; grow the heap once the
scan is back at `freep`. -/
def mallocLoop (scan : ℕ) (nunits : UInt32) : ℕ → Heap → UInt32 → UInt32 →
    Option (UInt32 × Heap)
  | 0, _, _, _ => none
  | n + 1, h, prevp, p =>
    if h.sizeAt p ≥ nunits then
      -- an exact fit leaves the list; a larger block gives its tail and keeps its place
      if h.sizeAt p = nunits then
        some (hadd p 1, { h.setPtr prevp (h.ptrAt p) with freep := prevp })
      else
        let h := h.setSize p (h.sizeAt p - nunits)
        let p := hadd p (h.sizeAt p)
        some (hadd p 1, { h.setSize p nunits with freep := prevp })
    else if p = h.freep then do
      let (p, h) ← morecore scan nunits false h
      if p = 0 then return (0, h)
      mallocLoop scan nunits n h p (h.ptrAt p)
    else mallocLoop scan nunits n h p (h.ptrAt p)

/-- `malloc(nbytes)`: a block of `nbytes` bytes after its header, or `0`. -/
def malloc (base : UInt32) (scan : ℕ) (nbytes : UInt32) (h : Heap) : Option (UInt32 × Heap) :=
  let nunits := (nbytes + headerSize - 1) / headerSize + 1
  let h := initBase base h
  mallocLoop scan nunits scan h h.freep (h.ptrAt h.freep)

/-! ## `pmalloc` and `pfree` -/

/-- `OFFSET_UNTIL_NEXT_ALIGNED_PAGE(p)`. -/
def offsetUntilNextAlignedPage (p : UInt32) : UInt32 := (pgSize - p % pgSize) % pgSize

/-- `IS_ALIGNED(p)`. -/
def isAligned (p : UInt32) : Bool := p % 4096 = 0

/-- The units of a page, `PGSIZE / sizeof(Header)`. -/
def pageUnits : UInt32 := pgSize / headerSize

/-- The loop of `pmalloc`, from `p` with predecessor `prevp`. An aligned block of at least a
page gives its first page; an unaligned block gives the first aligned page inside it when it
holds the prefix and the page. -/
def pmallocLoop (scan : ℕ) : ℕ → Heap → UInt32 → UInt32 → Option (UInt32 × Heap)
  | 0, _, _, _ => none
  | n + 1, h, prevp, p =>
    let required := offsetUntilNextAlignedPage p / headerSize + pageUnits
    let prefixUnits := (offsetUntilNextAlignedPage p - 1) / headerSize + 1
    if isAligned p ∧ h.sizeAt p ≥ pageUnits then
      if h.sizeAt p = pageUnits then
        let h := h.setPtr prevp (h.ptrAt p)
        some (hadd p 1, { h with freep := prevp }.lightPageFlags p ptePmalloced)
      else
        -- `nextp` is overwritten with `p->s.ptr` before the remainder is linked in
        let nextp := hadd p pageUnits
        let h := h.setSize nextp (h.sizeAt p - pageUnits)
        let nextp := h.ptrAt p
        let h := h.setPtr prevp nextp
        let h := h.setSize p pageUnits
        some (hadd p 1, { h with freep := nextp }.lightPageFlags p ptePmalloced)
    else if !isAligned p ∧ h.sizeAt p > required then
      -- `p` keeps the prefix up to the page, and the rest after the page becomes a free
      -- block linked after `p`
      let alignedPage := hadd p prefixUnits
      let pageAfter := hadd alignedPage pageUnits
      let h := h.setPtr pageAfter (h.ptrAt p)
      let oldSize := h.sizeAt p
      let h := h.setSize p prefixUnits
      let h := h.setPtr p pageAfter
      let h := h.setSize alignedPage pageUnits
      let h := h.setSize pageAfter (oldSize - h.sizeAt p - pageUnits)
      some (hadd alignedPage 1, { h.lightPageFlags p ptePmalloced with freep := p })
    else if !isAligned p ∧ h.sizeAt p = required then
      -- nothing after the page: `p` just keeps the prefix
      let alignedPage := hadd p prefixUnits
      let h := h.setSize p prefixUnits
      let h := h.setSize alignedPage pageUnits
      some (hadd alignedPage 1, { h.lightPageFlags p ptePmalloced with freep := p })
    else if p = h.freep then do
      let (p, h) ← morecore scan pageUnits true h
      if p = 0 then return (0, h)
      pmallocLoop scan n h p (h.ptrAt p)
    else pmallocLoop scan n h p (h.ptrAt p)

/-- `pmalloc()`: a page-aligned page after its header, or `0`. -/
def pmalloc (base : UInt32) (scan : ℕ) (h : Heap) : Option (UInt32 × Heap) :=
  let h := initBase base h
  pmallocLoop scan scan h h.freep (h.ptrAt h.freep)

/-- `check_page_was_pmalloced(ap)`: `ap` is a present page-aligned header of one page, on a
page marked `PTE_PMALLOCED`. -/
def checkPageWasPmalloced (h : Heap) (ap : UInt32) : Bool :=
  h.checkPageFlags ap pteP ≠ 0 ∧ h.checkPageFlags ap ptePmalloced ≠ 0 ∧
    h.sizeAt ap = pgSize / headerSize ∧ ap % pgSize = 0

/-- `protect_page(ap)`: make a page from `pmalloc` read-only. -/
def protectPage (ap : UInt32) (h : Heap) : Int32 × Heap :=
  let ph := ap - headerSize
  if !checkPageWasPmalloced h ph then (-1, h) else (1, h.turnOffPageFlags ph pteW)

/-- `pfree(ap)`: give a page from `pmalloc` back: writable again, unmarked, and freed. -/
def pfree (scan : ℕ) (ap : UInt32) (h : Heap) : Option (Int32 × Heap) := do
  let ph := ap - headerSize
  if !checkPageWasPmalloced h ph then return (-1, h)
  let h := (h.lightPageFlags ph pteW).turnOffPageFlags ph ptePmalloced
  let h ← free scan ap h
  return (1, h)

/-- From the empty heap with the page-aligned break `0x3000` (that of a fresh one-page
program) and `base` at `0xC18`: `malloc(1)` gets 4096 units from `morecore` and takes the last
two, and `pmalloc()` takes the first page of the aligned rest. After it the free list is
`base` alone: of the 4096 units obtained from `sbrk`, 2 are in the `malloc` block and 512 in
the page, and the other 3582 are in no block. -/
theorem malloc_then_pmalloc_loses_remainder :
    (do
      let (q, h) ← malloc 0xC18 8 1
        ⟨fun _ => 0, fun _ => 0, 0, 0x3000, 0x20000, fun _ => pteP ||| pteW ||| pteU⟩
      let (r, h) ← pmalloc 0xC18 8 h
      return (q, r, h.ptrAt 0xC18, h.sizeAt (q - headerSize), h.sizeAt (r - headerSize),
        (h.brk - 0x3000) / headerSize)) =
      some (0xAFF8, 0x3008, 0xC18, 2, 512, 4096) := by
  decide

/-- From the empty heap with the break at `0x3000`: `malloc(40000)` takes 5001 units from
`morecore`, which leaves the break unaligned at `0xCC48`. `pmalloc()` grows the heap twice and
takes the aligned page `0xD000` out of the unaligned block at `0xCC48`, but marks the page of
that block's header, `0xC000`, with `PTE_PMALLOCED`. `protect_page` and `pfree` of the page it
returned both fail. -/
theorem pmalloc_unaligned_marks_header_page :
    (do
      let (_, h) ← malloc 0xC18 8 40000
        ⟨fun _ => 0, fun _ => 0, 0, 0x3000, 0x20000, fun _ => pteP ||| pteW ||| pteU⟩
      let (r, h) ← pmalloc 0xC18 8 h
      let (fr, _) ← pfree 8 r h
      return (r, h.sizeAt (r - headerSize), h.checkPageFlags (r - headerSize) ptePmalloced,
        h.checkPageFlags 0xCC48 ptePmalloced, (protectPage r h).1, fr)) =
      some (0xD008, 512, 0, ptePmalloced, -1, -1) := by
  decide

end Xv6.Umalloc
