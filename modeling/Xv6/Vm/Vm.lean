import Xv6.Vm.State

/-!
# Frames and page tables (`kalloc.c`, `vm.c`)

`kalloc` and `kfree` over the free list, and the page-table code of `vm.c` in `KM`: the
functions take a page directory and return it changed, because `exec` and `fork` work on a
directory other than the current process's. `allocuvm` registers each new page in the
current process's `pages_on_ram`, as the `#ifdef SCFIFO` and `#ifdef LIFO` blocks do.

Loops over address ranges take fuel; `pageFuel` covers every page of the 32-bit address space,
so no call in this file runs out of it.

## Main definitions

* `kalloc`, `kfree`.
* `walkpgdir`, `mappages`, `setupkvm`, `allocuvm`, `deallocuvm`, `freevm`, `clearpteu`,
  `copyuvm`.
* `lightPageFlags`, `checkPageFlags`, `turnOffPageFlags`: the page-flag calls behind the
  `sys_*_page_flags` system calls.
-/

namespace Xv6

open KM StateExcept

/-! ## `kalloc.c` -/

/-- `kalloc`: the head of the free list, or `0` when it is empty. -/
def kalloc : KM UInt32 := do
  let k ← get
  match k.freelist with
  | [] => return 0
  | r :: rest =>
    set { k with freelist := rest }
    return r

/-- `kfree`: check the address, fill the page with junk and push it on the free list. -/
def kfree (v : UInt32) : KM Unit := do
  let k ← get
  if v % pgSize ≠ 0 ∨ v < k.kernEnd ∨ v2p v ≥ phyStop then throw (.panic "kfree")
  set { k with phys := fillFrame k.phys (v2p v) 1, freelist := v :: k.freelist }

/-! ## Page tables -/

/-- Iterations enough for any loop over the pages of the address space. -/
def pageFuel : ℕ := 2 ^ 20 + 1

/-- `walkpgdir(pgdir, va, alloc)`: the entry of `va`, creating its page table when `alloc` is
set. A new table starts out with every entry `0` (`memset(pgtab, 0, PGSIZE)`). -/
def walkpgdir (pgdir : PageDir) (va : UInt32) (alloc : Bool) : KM (PageDir × Option UInt32) := do
  match pgdir.tables (pdx va) with
  | some _ => return (pgdir, some (vpn va))
  | none =>
    if !alloc then return (pgdir, none)
    let pgtab ← kalloc
    if pgtab = 0 then return (pgdir, none)
    -- the 1024 entries of the new table are those whose virtual page number lies in the slot
    let pgdir := { pgdir with
      tables := Function.update pgdir.tables (pdx va) (some pgtab)
      entries := fun v => if v >>> 10 = pdx va then 0 else pgdir.entries v }
    return (pgdir, some (vpn va))

/-- The loop of `mappages`, from page `a` up to page `last`, mapping `a` to `pa`. -/
def mappagesLoop (perm : UInt32) : ℕ → PageDir → UInt32 → UInt32 → UInt32 →
    KM (PageDir × Int32)
  | 0, _, _, _, _ => throw .outOfFuel
  | fuel + 1, pgdir, a, last, pa => do
    let (pgdir, pte) ← walkpgdir pgdir a true
    let some v := pte | return (pgdir, -1)
    -- only `PTE_P` is checked: an entry left with `PTE_PG` is overwritten, flags and all
    if pgdir.entries v &&& pteP ≠ 0 then throw (.panic "remap")
    let pgdir := pgdir.setEntry v (pa ||| perm ||| pteP)
    if a = last then return (pgdir, 0)
    mappagesLoop perm fuel pgdir (a + pgSize) last (pa + pgSize)

/-- `mappages(pgdir, va, size, pa, perm)`: map the pages of `[va, va + size)` to the frames from
`pa` on. -/
def mappages (pgdir : PageDir) (va size pa : UInt32) (perm : Int32) : KM (PageDir × Int32) :=
  mappagesLoop perm.toUInt32 pageFuel pgdir (pgRoundDown va) (pgRoundDown (va + size - 1)) pa

/-- The page-directory slots of `kmap`'s ranges, in the order `setupkvm` maps them:
`KERNBASE` to `KERNBASE + PHYSTOP`, then `DEVSPACE` to the top of memory. -/
def kernelPdxs : List UInt32 :=
  (List.range 56).map (fun i => 512 + UInt32.ofNat i) ++
    (List.range 8).map (fun i => 1016 + UInt32.ofNat i)

/-- Free the page-table pages of the present page-directory slots among `pdxs`. -/
def freeTables (pgdir : PageDir) : List UInt32 → KM Unit
  | [] => return ()
  | i :: is => do
    if let some t := pgdir.tables i then kfree t
    freeTables pgdir is

/-- The body of `deallocuvm`'s loop at the entry `v`: free the page and clear the entry when
it is present. -/
def deallocPage (pgdir : PageDir) (v : UInt32) : KM PageDir := do
  if pgdir.entries v &&& pteP = 0 then return pgdir
  let pa := pteAddr (pgdir.entries v)
  if pa = 0 then throw (.panic "kfree")
  kfree (p2v pa)
  return pgdir.setEntry v 0

/-- The loop of `deallocuvm`: free the present pages from `a` up to `oldsz`, and skip a whole
page-directory slot whose table is absent. -/
def deallocuvmLoop (oldsz : UInt32) : ℕ → PageDir → UInt32 → KM PageDir
  | 0, _, _ => throw .outOfFuel
  | fuel + 1, pgdir, a =>
    if a < oldsz then
      match pgdir.walk a with
      | none =>
        -- no page table: `a = PGADDR(PDX(a) + 1, 0, 0) - PGSIZE`, then the increment
        deallocuvmLoop oldsz fuel pgdir (pgAddr (pdx a + 1) - pgSize + pgSize)
      | some v => do
        let pgdir ← deallocPage pgdir v
        deallocuvmLoop oldsz fuel pgdir (a + pgSize)
    else return pgdir

/-- `deallocuvm(pgdir, oldsz, newsz)`: free the user pages from `newsz` up to `oldsz`. Only
present pages are freed. Returns the new size. -/
def deallocuvm (pgdir : PageDir) (oldsz newsz : UInt32) : KM (PageDir × UInt32) := do
  if newsz ≥ oldsz then return (pgdir, oldsz)
  let pgdir ← deallocuvmLoop oldsz pageFuel pgdir (pgRoundUp newsz)
  return (pgdir, newsz)

/-- `freevm(pgdir)`: free the user pages, the page tables and the page directory. -/
def freevm (pgdir : PageDir) : KM Unit := do
  if pgdir.root = 0 then throw (.panic "freevm: no pgdir")
  let (pgdir, _) ← deallocuvm pgdir kernBase 0
  -- the `NPDENTRIES` slots: the user ones below `PDX(KERNBASE)`, then the kernel's
  freeTables pgdir ((List.range 512).map UInt32.ofNat)
  pgdir.kernelTables.forM kfree
  kfree pgdir.root

/-- The `kmap` loop of `setupkvm`: `mappages` gives each kernel page-directory slot its page
table, allocated by `walkpgdir` at the slot's first page. When a table cannot be allocated,
`mappages` fails and `setupkvm` frees what it built. -/
def setupkvmLoop : PageDir → List UInt32 → KM (Option PageDir)
  | pgdir, [] => return some pgdir
  | pgdir, _ :: is => do
    let pgtab ← kalloc
    if pgtab = 0 then
      freevm pgdir
      return none
    setupkvmLoop { pgdir with kernelTables := pgdir.kernelTables ++ [pgtab] } is

/-- `setupkvm`: a new page directory holding the kernel's mappings. -/
def setupkvm : KM (Option PageDir) := do
  let root ← kalloc
  if root = 0 then return none
  setupkvmLoop ⟨root, [], fun _ => none, fun _ => 0⟩ kernelPdxs

/-! ## The page-flag calls -/

/-- `light_page_flags(uva, flags)`: `*pte |= flags` on the current process's entry for `uva`,
one fewer protected page when `flags` includes `PTE_W`. -/
def lightPageFlags (uva : UInt32) (flags : Int32) : KM Int32 := do
  let k ← get
  let some v := k.proc.pgdir.walk uva | throw .nullDeref
  let pgdir := k.proc.pgdir.setEntry v (k.proc.pgdir.entries v ||| flags.toUInt32)
  let pp := if flags.toUInt32 &&& pteW ≠ 0 then k.proc.protectedPages - 1
    else k.proc.protectedPages
  set { k with proc := { k.proc with pgdir := pgdir, protectedPages := pp } }
  return 1

/-- `check_page_flags(uva, flags)`: `*pte & flags`, or `-1` when `uva` has no page table. -/
def checkPageFlags (uva : UInt32) (flags : Int32) : KM Int32 := do
  let k ← get
  match k.proc.pgdir.walk uva with
  | none => return -1
  | some v => return (k.proc.pgdir.entries v &&& flags.toUInt32).toInt32

/-- `turn_off_page_flags(uva, flags)`: `*pte &= ~flags` on the current process's entry for
`uva`, one more protected page when `flags` includes `PTE_W`. -/
def turnOffPageFlags (uva : UInt32) (flags : Int32) : KM Int32 := do
  let k ← get
  let some v := k.proc.pgdir.walk uva | throw .nullDeref
  let pgdir := k.proc.pgdir.setEntry v (k.proc.pgdir.entries v &&& ~~~flags.toUInt32)
  let pp := if flags.toUInt32 &&& pteW ≠ 0 then k.proc.protectedPages + 1
    else k.proc.protectedPages
  set { k with proc := { k.proc with pgdir := pgdir, protectedPages := pp } }
  return 1

/-! ## Growing, copying and marking address spaces -/

/-- The `#ifdef LIFO` and `#ifdef SCFIFO` blocks of `allocuvm`: record the new page `a` in the
current process's `pages_on_ram`. -/
def registerPage (sel : Selection) (a : UInt32) : KM Unit := do
  let k ← get
  match sel with
  | .lifo =>
    -- `p->pages_on_ram[p->pages_on_ram_stack_pointer++] = a`
    let sp := k.proc.pagesOnRamStackPointer
    let ram ← writeEntry k.proc.pagesOnRam sp a
    set { k with proc := { k.proc with pagesOnRam := ram, pagesOnRamStackPointer := sp + 1 } }
  | .scfifo =>
    -- the first empty slot; `i > MAX_PSYC_PAGES` cannot hold once `a[16]` has been read
    let i ← firstIndex k.proc.pagesOnRam (· = 0)
    let ram ← writeEntry k.proc.pagesOnRam i a
    set { k with proc := { k.proc with pagesOnRam := ram } }
  | .none => return ()

/-- The loop of `allocuvm`, from page `a` up to `newsz`. -/
def allocuvmLoop (sel : Selection) (oldsz newsz : UInt32) : ℕ → PageDir → UInt32 →
    KM (PageDir × UInt32)
  | 0, _, _ => throw .outOfFuel
  | fuel + 1, pgdir, a =>
    if a < newsz then do
      let mem ← kalloc
      if mem = 0 then
        let (pgdir, _) ← deallocuvm pgdir newsz oldsz
        return (pgdir, 0)
      -- the page is registered before it is mapped: a failed `mappages` leaves it in
      -- `pages_on_ram`
      registerPage sel a
      modify fun k => { k with phys := fillFrame k.phys (v2p mem) 0 }
      let (pgdir, r) ← mappages pgdir a pgSize (v2p mem) (pteW ||| pteU).toInt32
      if r < 0 then
        let (pgdir, _) ← deallocuvm pgdir newsz oldsz
        kfree mem
        return (pgdir, 0)
      allocuvmLoop sel oldsz newsz fuel pgdir (a + pgSize)
    else return (pgdir, newsz)

/-- `allocuvm(pgdir, oldsz, newsz)`: map zeroed pages from `oldsz` up to `newsz`. Returns the
new size, or `0` on failure. -/
def allocuvm (sel : Selection) (pgdir : PageDir) (oldsz newsz : UInt32) :
    KM (PageDir × UInt32) := do
  if newsz ≥ kernBase then return (pgdir, 0)
  if newsz < oldsz then return (pgdir, oldsz)
  allocuvmLoop sel oldsz newsz pageFuel pgdir (pgRoundUp oldsz)

/-- `clearpteu(pgdir, uva)`: make the page of `uva` inaccessible to user code. -/
def clearpteu (pgdir : PageDir) (uva : UInt32) : KM PageDir := do
  let some v := pgdir.walk uva | throw (.panic "clearpteu")
  return pgdir.setEntry v (pgdir.entries v &&& ~~~pteU)

/-- The loop of `copyuvm`: copy the pages from `i` up to `sz` into `d`. A paged-out page gets a
fresh frame whose entry keeps the parent's flags with `PTE_P` cleared; its contents are in
the swap file, which `fork` copies. -/
def copyuvmLoop (pgdir : PageDir) (sz : UInt32) : ℕ → PageDir → UInt32 → KM (Option PageDir)
  | 0, _, _ => throw .outOfFuel
  | fuel + 1, d, i =>
    if i < sz then do
      let some v := pgdir.walk i | throw (.panic "copyuvm: pte should exist")
      let pte := pgdir.entries v
      let shouldCopy := pte &&& ptePg = 0
      if shouldCopy ∧ pte &&& pteP = 0 then throw (.panic "copyuvm: page not present")
      let mem ← kalloc
      if mem = 0 then
        freevm d
        return none
      -- a paged-out page gets a frame of its own but no copy: its bytes are in the swap file
      if shouldCopy then
        modify fun k => { k with
          phys := storeFrame k.phys (v2p mem) (fun o => k.phys (pteAddr pte + o)) }
      let (d, r) ← mappages d i pgSize (v2p mem) (pteFlags pte).toInt32
      if r < 0 then
        freevm d
        return none
      let some w := d.walk i | throw .nullDeref
      let d := if shouldCopy then d else d.setEntry w (d.entries w &&& ~~~pteP)
      copyuvmLoop pgdir sz fuel d (i + pgSize)
    else return some d

/-- `copyuvm(pgdir, sz)`: a copy of the first `sz` bytes of an address space, or `0`. -/
def copyuvm (pgdir : PageDir) (sz : UInt32) : KM (Option PageDir) := do
  let some d ← setupkvm | return none
  copyuvmLoop pgdir sz pageFuel d 0

end Xv6
