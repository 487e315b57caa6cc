import Xv6.Vm.Vm

/-!
# Paging to the swap file (`proc.c`, `fs.c`)

The paging extension of `proc.c`: the choice of a page to evict under `SCFIFO` (second
chance over the queue `pages_on_ram`) or `LIFO` (the stack `pages_on_ram` with its stack
pointer), the slot table `swapped_pages_entry` of the swap file, swapping pages out and back
in, the page-fault handler, and `growproc`, which swaps pages out before it grows the process
so that at most `MAX_PSYC_PAGES` pages stay resident.

The swap file is reached through `writeToSwapFile` and `readFromSwapFile` of `fs.c`, which go
through `filewrite`/`fileread` to `writei`/`readi`: their offset and size checks are kept, and
the bytes are stored faithfully. The kernel copies pages between the swap file and user
memory through the current page table, so a page that is not present (or, for a copy into
it, not writable) makes the kernel fault.

## Main definitions

* `SwapFile.writei`, `SwapFile.readi`, `writeToSwapFile`, `readFromSwapFile`.
* `getPageToSwapLIFO`, `getSwappedPageOffset`, `getPageToSwapSCFIFO`,
  `getAddressOfPageToSwap`, `writeToSwapFilePage`, `swapOutNumPages`, `restorePageFromDisk`.
* `pageFaultHandler`: the handler of user-mode page faults (`rcr2()` is its argument).
* `growprocHelper`, `minInt`, `growproc`.

## Main results

* `growprocLoop_stuck`: at `MAX_PSYC_PAGES` resident pages with none to evict, the loop of
  `growproc` never ends.
-/

namespace Xv6

open KM StateExcept

/-! ## The swap file (`fs.c`) -/

/-- `writei` on the swap file's inode: store `n` bytes of `src` at `off`. -/
def SwapFile.writei (f : SwapFile) (src : UInt32 → UInt8) (off n : UInt32) : SwapFile × Int32 :=
  if off > f.size ∨ off + n < off then (f, -1)
  else if off + n > maxFileBytes then (f, -1)
  else
    ({ data := fun a => if off ≤ a ∧ a < off + n then src (a - off) else f.data a
       size := if 0 < n ∧ off + n > f.size then off + n else f.size }, n.toInt32)

/-- `readi` on the swap file's inode: the bytes from `off`, and how many of them there are. -/
def SwapFile.readi (f : SwapFile) (off n : UInt32) : (UInt32 → UInt8) × Int32 :=
  if off > f.size ∨ off + n < off then (fun _ => 0, -1)
  else
    let n := if off + n > f.size then f.size - off else n
    (fun o => f.data (off + o), n.toInt32)

/-- Bytes `filewrite` writes per transaction: `((MAXOPBLOCKS-1-1-2) / 2) * 512`. -/
def filewriteMax : UInt32 := 1536

/-- The loop of `filewrite`: write the bytes from `i` on, in pieces of at most
`filewriteMax`, at the file offset `off`. Reading the source buffer can fault. -/
def SwapFile.filewriteLoop (src : Except Fault (UInt32 → UInt8)) (n : UInt32) :
    ℕ → SwapFile → UInt32 → UInt32 → Except Fault (SwapFile × UInt32)
  | 0, _, _, _ => .error .outOfFuel
  | fuel + 1, f, off, i =>
    if i < n then do
      let n1 := if n - i > filewriteMax then filewriteMax else n - i
      -- `writei` checks the offsets before it copies from the buffer
      if off > f.size ∨ off + n1 < off ∨ off + n1 > maxFileBytes then return (f, i)
      let bytes ← src
      let (f, r) := f.writei (fun o => bytes (i + o)) off n1
      if r.toUInt32 ≠ n1 then .error (.panic "short filewrite")
      SwapFile.filewriteLoop src n fuel f (off + n1) (i + n1)
    else return (f, i)

/-- `writeToSwapFile(p, buffer, placeOnFile, size)`: `filewrite` of `size` bytes from the
buffer, at `placeOnFile`. Returns `size`, or `-1` when not every byte was written. -/
def writeToSwapFile (src : Except Fault (UInt32 → UInt8)) (placeOnFile size : UInt32) :
    KM Int32 := do
  let k ← get
  let some f := k.proc.swapFile | throw .nullDeref
  let (f, i) ← SwapFile.filewriteLoop src size ((size / filewriteMax).toNat + 2) f placeOnFile 0
  set { k with proc := { k.proc with swapFile := some f } }
  return if i = size then size.toInt32 else -1

/-- The frame the kernel reaches at the user address `va` through the current page table. A
kernel-mode access faults when the page is not present or, for a write, not writable
(`CR0_WP` is set). -/
def kernelFrame (k : Kernel) (va : UInt32) (write : Bool) : Except Fault UInt32 :=
  match k.proc.pgdir.walk va with
  | none => .error (.kernelPageFault va)
  | some v =>
    let pte := k.proc.pgdir.entries v
    if pte &&& pteP = 0 ∨ (write ∧ pte &&& pteW = 0) then .error (.kernelPageFault va)
    else .ok (pteAddr pte)

/-- The bytes of the user page at `va`, as the kernel reads them. -/
def userPageBytes (k : Kernel) (va : UInt32) : Except Fault (UInt32 → UInt8) :=
  (kernelFrame k va false).map fun pa o => k.phys (pa + o)

/-- `readFromSwapFile(p, buffer, placeOnFile, size)` into the user page at `buffer`:
`fileread` of `size` bytes at `placeOnFile`. -/
def readFromSwapFile (buffer placeOnFile size : UInt32) : KM Int32 := do
  let k ← get
  let some f := k.proc.swapFile | throw .nullDeref
  let (bytes, r) := f.readi placeOnFile size
  if 0 < r then
    -- the copy goes through the current page table: the page must be present and writable
    let pa ← kernelFrame k buffer true
    set { k with phys := fun a =>
      if pa ≤ a ∧ a < pa + r.toUInt32 then bytes (a - pa) else k.phys a }
  return r

/-! ## Choosing a page to evict -/

/-- `get_page_to_swapLIFO`: pop the most recently pushed page. -/
def getPageToSwapLIFO : KM UInt32 := do
  let k ← get
  let sp := k.proc.pagesOnRamStackPointer
  if sp = 0 then throw (.panic "No pages to swap out")
  let page ← readEntry k.proc.pagesOnRam (sp - 1)
  set { k with proc := { k.proc with pagesOnRamStackPointer := sp - 1 } }
  return page

/-- `get_swapped_page_offset(page)`: take the first free slot of the swap file for `page` and
return its offset. -/
def getSwappedPageOffset (page : UInt32) : KM UInt32 := do
  let k ← get
  let i ← firstIndex k.proc.swappedPagesEntry (· = 0)
  let e ← writeEntry k.proc.swappedPagesEntry i page
  set { k with proc := { k.proc with swappedPagesEntry := e } }
  return i * pgSize

/-- The second-chance scan of `get_page_to_swap_SCFIFO` from index `i`: skip empty slots,
clear `PTE_A` of a recently used page and move on, stop at the first page with `PTE_A`
clear. `counter` allows 33 examinations before the panic. Returns the index and the page. -/
def scfifoScan : ℕ → UInt32 → KM (UInt32 × UInt32)
  | 0, _ => throw (.panic "No pages found to swap out")
  | counter + 1, i => do
    let k ← get
    let page ← readEntry k.proc.pagesOnRam i
    if page = 0 then return ← scfifoScan counter ((i + 1) % maxPsycPages)
    let some v := k.proc.pgdir.walk page | throw .nullDeref
    if k.proc.pgdir.entries v &&& pteA ≠ 0 then
      -- a second chance: clear the accessed bit and go on
      let _ ← turnOffPageFlags page pteA.toInt32
      scfifoScan counter ((i + 1) % maxPsycPages)
    else return (i, page)

/-- `for (; i < MAX_PSYC_PAGES - 1; ++i) pages_on_ram[i] = pages_on_ram[i + 1];` followed by
`pages_on_ram[15] = 0`: close the gap at index `i`. -/
def closeGap (a : Vector UInt32 16) (i : ℕ) : Vector UInt32 16 :=
  ((List.finRange 15).foldl
    (fun a j => if i ≤ j.val then a.set j.val (a.get j.succ) else a) a).set 15 0

/-- `get_page_to_swap_SCFIFO`: the first page of the queue without a second chance, removed
from the queue. -/
def getPageToSwapSCFIFO : KM UInt32 := do
  let (i, page) ← scfifoScan (maxTotalPages.toNat + 1) 0
  modifyProc fun p => { p with pagesOnRam := closeGap p.pagesOnRam i.toNat }
  return page

/-- `get_address_of_page_to_swap`: the victim under the configured policy. -/
def getAddressOfPageToSwap (sel : Selection) : KM UInt32 :=
  match sel with
  | .scfifo => getPageToSwapSCFIFO
  | .lifo => getPageToSwapLIFO
  | .none => return 0

/-! ## Swapping out and in -/

/-- `write_to_swap_file(page)`: copy the page to a free slot of the swap file, then mark it
paged out and not present. -/
def writeToSwapFilePage (page : UInt32) : KM Unit := do
  let off ← getSwappedPageOffset page
  let _ ← writeToSwapFile (userPageBytes (← get) page) off pgSize
  let _ ← lightPageFlags page ptePg.toInt32
  let _ ← turnOffPageFlags page pteP.toInt32

/-- The loop of `swap_out_num_pages`. -/
def swapOutLoop (sel : Selection) : ℕ → KM Unit
  | 0 => return ()
  | m + 1 => do
    let page ← getAddressOfPageToSwap sel
    writeToSwapFilePage page
    modifyProc fun p =>
      { p with ramSize := p.ramSize - pgSize, totalPagedOut := p.totalPagedOut + 1 }
    swapOutLoop sel m

/-- `swap_out_num_pages(num_pages)`: evict `num_pages` pages, if it is positive. -/
def swapOutNumPages (sel : Selection) (numPages : Int32) : KM Unit :=
  if numPages ≤ 0 then return () else swapOutLoop sel numPages.toNatClampNeg

theorem swapOutNumPages_of_nonpos {sel : Selection} {n : Int32} (hn : n ≤ 0) (k : Kernel) :
    (swapOutNumPages sel n).run k = .ok ((), k) := by
  simp [swapOutNumPages, hn]

/-- `restore_page_from_disk(page)`: read the page back from its slot, writable for the copy,
and free the slot. -/
def restorePageFromDisk (page : UInt32) : KM Unit := do
  -- the first slot naming the page; when none does, the scan reads `swapped_pages_entry[16]`
  -- before its bound check, ahead of the panic
  let i ← firstIndex (← get).proc.swappedPagesEntry (· = page)
  if (← checkPageFlags page pteW.toInt32) = 0 then
    let _ ← lightPageFlags page (pteW ||| pteWasProtected).toInt32
  let _ ← readFromSwapFile page (i * pgSize) pgSize
  if (← checkPageFlags page pteWasProtected.toInt32) ≠ 0 then
    let _ ← turnOffPageFlags page (pteW ||| pteWasProtected).toInt32
  let e ← writeEntry (← get).proc.swappedPagesEntry i 0
  modifyProc fun p => { p with swappedPagesEntry := e }

/-- The `#ifdef LIFO` and `#ifdef SCFIFO` blocks at the end of `page_fault_handler`: record
the page just read back as resident. -/
def pushResident (sel : Selection) (page : UInt32) : KM Unit := do
  let k ← get
  match sel with
  | .lifo =>
    let sp := k.proc.pagesOnRamStackPointer
    let ram ← writeEntry k.proc.pagesOnRam sp page
    set { k with proc := { k.proc with pagesOnRam := ram, pagesOnRamStackPointer := sp + 1 } }
  | .scfifo =>
    let i ← firstIndex k.proc.pagesOnRam (· = 0)
    let ram ← writeEntry k.proc.pagesOnRam i page
    set { k with proc := { k.proc with pagesOnRam := ram } }
  | .none => return ()

/-- `page_fault_handler()` for a fault at `addr` (`rcr2()`): bring a paged-out page back,
evicting pages if more than `MAX_PSYC_PAGES` are resident. Returns `1` when the faulting
access can be retried and `0` when the process is to be killed. -/
def pageFaultHandler (sel : Selection) (addr : UInt32) : KM UInt32 := do
  modifyProc fun p => { p with pageFaults := p.pageFaults + 1 }
  let page := pgRoundDown addr
  let k ← get
  let some v := k.proc.pgdir.walk addr | throw .nullDeref
  let pte := k.proc.pgdir.entries v
  -- a write-protected page that is not paged out
  if pte &&& pteW = 0 ∧ pte &&& ptePg = 0 then
    modifyProc fun p => { p with trapno := 13 }
    return 0
  if sel = .none then return 0
  if pte &&& ptePg = 0 then return 0
  let _ ← turnOffPageFlags addr ptePg.toInt32
  let _ ← lightPageFlags addr pteP.toInt32
  restorePageFromDisk page
  modifyProc fun p => { p with ramSize := p.ramSize + pgSize }
  -- `uint` division: a partial last page does not count towards the pages to evict
  swapOutNumPages sel ((← get).proc.ramSize / pgSize - maxPsycPages).toInt32
  pushResident sel page
  return 1

/-! ## Growing the process -/

/-- `growproc_helper(n)`: grow or shrink the address space by `n` bytes with `allocuvm` or
`deallocuvm`; `ram_size` moves by `n` as well. -/
def growprocHelper (sel : Selection) (n : Int32) : KM Int32 := do
  let p := (← get).proc
  let (pgdir, sz) ← if 0 < n then allocuvm sel p.pgdir p.totalSize (p.totalSize + n.toUInt32)
    else if n < 0 then deallocuvm p.pgdir p.totalSize (p.totalSize + n.toUInt32)
    else pure (p.pgdir, p.totalSize)
  modifyProc fun p => { p with pgdir := pgdir }
  if n ≠ 0 ∧ sz = 0 then return -1
  modifyProc fun p => { p with totalSize := sz, ramSize := p.ramSize + n.toUInt32 }
  return 0

/-- `int min(int a, int b)` of `proc.c`. -/
def minInt (a b : Int32) : Int32 := if a < b then a else b

/-- `PGROUNDUP` on an `int`. -/
def pgRoundUpInt (x : Int32) : Int32 := (x + 4095) &&& ~~~4095

/-- The resident pages the policy could evict: the non-empty queue slots under `SCFIFO`, the
stack pointer under `LIFO`. -/
def availablePagesToSwap (sel : Selection) (p : Proc) : UInt32 :=
  match sel with
  | .scfifo => UInt32.ofNat ((List.finRange 16).countP fun i => p.pagesOnRam.get i ≠ 0)
  | .lifo => p.pagesOnRamStackPointer
  | .none => 0

/-- The `while (n > 0)` loop of `growproc`: swap out what the growth needs, grow by at most
what fits in `MAX_PSYC_PAGES` pages, and repeat with the rest. -/
def growprocLoop (sel : Selection) : ℕ → Int32 → KM Unit
  | 0, _ => throw .outOfFuel
  | fuel + 1, n =>
    if 0 < n then do
      let p := (← get).proc
      -- computed in `int` and stored in a `uint`: below 16 pages it wraps to a huge value,
      -- which `min` sees as a negative `int` again
      let needToSwap : UInt32 :=
        (pgRoundUpInt (p.ramSize + n.toUInt32).toInt32 / pgSize.toInt32 -
          maxPsycPages.toInt32).toUInt32
      let pagesToSwap := minInt needToSwap.toInt32 (availablePagesToSwap sel p).toInt32
      swapOutNumPages sel pagesToSwap
      let p := (← get).proc
      -- `MAX_PSYC_PAGES * PGSIZE - ram_size` is `uint`; `min` takes both sides as `int`
      let curMem : UInt32 := (minInt n (maxPsycPages * pgSize - p.ramSize).toInt32).toUInt32
      let _ ← growprocHelper sel curMem.toInt32
      growprocLoop sel fuel (n.toUInt32 - curMem).toInt32
    else return ()

/-- `growproc(n)`: grow the current process by `n` bytes, swapping out pages as needed.
Returns `0`, or `-1` when the process would pass `MAX_TOTAL_PAGES` pages. -/
def growproc (sel : Selection) (n : Int32) : KM Int32 := do
  if sel = .none then return ← growprocHelper sel n
  let sz := (← get).proc.totalSize
  if n < 0 then return ← growprocHelper sel n
  -- the limit divides without rounding up: a last partial page is not counted
  let overallPages := (sz + n.toUInt32) / pgSize
  if overallPages > maxTotalPages then return -1
  growprocLoop sel pageFuel n
  return 0

/-- `growproc_helper(0)` changes nothing. -/
theorem growprocHelper_zero (sel : Selection) (k : Kernel) :
    (growprocHelper sel 0).run k = .ok (0, k) := by
  simp [growprocHelper, modifyProc, show (0 : Int32).toUInt32 = 0 from rfl]

theorem minInt_nonpos_of_nonpos {a b : Int32} (hb : b ≤ 0) : minInt a b ≤ 0 := by
  unfold minInt
  split
  · rename_i h
    exact Int32.le_of_lt (Int32.lt_of_lt_of_le h hb)
  · exact hb

/-- With `ram_size` at `MAX_PSYC_PAGES` pages and no page the policy could evict, an iteration
of the loop swaps nothing out and grows by `min(n, 0) = 0` bytes, so it comes back to the same
state and the same `n`: no amount of fuel ends the loop. -/
theorem growprocLoop_stuck {sel : Selection} {k : Kernel} {n : Int32} (hn : 0 < n)
    (hram : k.proc.ramSize = maxPsycPages * pgSize)
    (havail : availablePagesToSwap sel k.proc = 0) (fuel : ℕ) :
    (growprocLoop sel fuel n).run k = .error .outOfFuel := by
  induction fuel with
  | zero => rfl
  | succ fuel ih =>
    rw [growprocLoop, if_pos hn]
    -- nothing to evict, so `min(need_to_swap, 0)` pages are swapped out: none
    have hswap : (swapOutNumPages sel (minInt (pgRoundUpInt (k.proc.ramSize + n.toUInt32).toInt32 /
        pgSize.toInt32 - maxPsycPages.toInt32).toUInt32.toInt32
          (availablePagesToSwap sel k.proc).toInt32)).run k = .ok ((), k) :=
      swapOutNumPages_of_nonpos (minInt_nonpos_of_nonpos
        (show (availablePagesToSwap sel k.proc).toInt32 ≤ 0 by rw [havail]; decide)) k
    -- `min(n, MAX_PSYC_PAGES * PGSIZE - ram_size)` is `min(n, 0) = 0`
    have hcur : (minInt n (maxPsycPages * pgSize - k.proc.ramSize).toInt32).toUInt32 = 0 := by
      rw [hram, UInt32.sub_self]
      simp [minInt, Int32.not_lt.mpr (Int32.le_of_lt hn)]
      rfl
    -- `rw` with `hswap`: a `simp` rewrite there costs seconds of kernel checking
    simp only [StateT.run_bind, StateT.run_get, pure_bind]
    rw [hswap, ok_bind]
    simp only [hcur]
    rw [show UInt32.toInt32 0 = 0 from rfl, growprocHelper_zero, ok_bind, UInt32.sub_zero,
      Int32.toInt32_toUInt32]
    exact ih

end Xv6
