import Xv6.Param
import Xv6.Lib.StateExcept

/-!
# Process and kernel state of the paging subsystem

The data the paging code of `proc.c` and `vm.c` reads and writes: the current process's
`struct proc` fields, its page directory, its swap file, the physical frames and `kalloc`'s
free list. Kernel code runs in `KM`, a state monad over `Kernel` that can stop with a `Fault`:
a `panic`, a null or out-of-bounds dereference, or a kernel-mode page fault (which `trap`
turns into a panic).

Page directories keep which page-directory entries are present (with the frame of their page
table) and the page-table entries by virtual page number, so `walkpgdir` returns the virtual
page number of the entry it finds. The kernel half's entries, which `setupkvm` fills and no
paging path reads, are not represented; the frames of its page tables are.

The swap file is a byte store with the size and offset checks of `readi` and `writei`: its
blocks are assumed to store and return bytes faithfully.

## Main definitions

* `Selection`: the page-replacement policy (`SCFIFO`, `LIFO` or `NONE`) chosen at build time.
* `Fault`, `KM`: how kernel code can fail, and the monad it runs in.
* `PageDir`, `SwapFile`, `Proc`, `Kernel`: the state.
* `firstIndex`: the index scans over the 16-entry arrays of `struct proc`.
-/

namespace Xv6

/-- The page-replacement policy, `SELECTION` in the `Makefile` (default `SCFIFO`). -/
inductive Selection where
  | scfifo
  | lifo
  | none
  deriving DecidableEq, Repr

/-- How a kernel path stops without returning. -/
inductive Fault where
  /-- `panic(msg)`. -/
  | panic (msg : String)
  /-- A dereference of a null pointer: a `pte_t *` from `walkpgdir`, or `p->swapFile`. -/
  | nullDeref
  /-- An access to entry `i ≥ 16` of one of the 16-entry arrays of `struct proc`. -/
  | outOfBounds (i : UInt32)
  /-- A kernel-mode access to the user address `va` whose page is not present or not
  writable; `trap` panics on a page fault from kernel mode. -/
  | kernelPageFault (va : UInt32)
  /-- A loop ran past the fuel it was given. Loops with a known bound get that bound. -/
  | outOfFuel
  deriving DecidableEq, Repr

/-- A page directory: the page-directory page, the page-table pages of the kernel's slots, the
present user slots with the page-table page each points to, and the page-table entries by
virtual page number. -/
structure PageDir where
  /-- The page-directory page, as `kalloc` returned it. -/
  root : UInt32
  /-- The page-table pages of the kernel's slots, from `PDX(KERNBASE)` up, in slot order. -/
  kernelTables : List UInt32
  /-- `PDX` to the page-table page, for the present slots below `PDX(KERNBASE)`. -/
  tables : UInt32 → Option UInt32
  /-- The page-table entry of each virtual page number. -/
  entries : UInt32 → UInt32

/-- A swap file `/.swap<pid>`: its bytes and its size (`ip->size`). -/
structure SwapFile where
  data : UInt32 → UInt8
  size : UInt32

/-- The fields of `struct proc` the paging code reads or writes. -/
structure Proc where
  totalSize : UInt32
  ramSize : UInt32
  pgdir : PageDir
  /-- `kstack`: the frame of the kernel stack, from `kalloc`. -/
  kstack : UInt32
  pid : Int32
  /-- `tf->trapno`, which `page_fault_handler` overwrites for a write-protected page. -/
  trapno : UInt32
  /-- `tf->esp`: the user stack pointer, from which `argint` fetches system-call arguments. -/
  esp : UInt32
  /-- `swapFile`, created by `allocproc` only for `pid > 2`. -/
  swapFile : Option SwapFile
  swappedPagesEntry : Vector UInt32 16
  pagesOnRamStackPointer : UInt32
  pagesOnRam : Vector UInt32 16
  protectedPages : UInt32
  pageFaults : UInt32
  totalPagedOut : UInt32

/-- The kernel state the paging code reaches: `kmem.freelist`, the linker symbol `end` that
`kfree` checks against, physical memory, and `myproc()`. -/
structure Kernel where
  freelist : List UInt32
  kernEnd : UInt32
  phys : UInt32 → UInt8
  proc : Proc

/-- Kernel code: a state transformer over `Kernel` that may stop with a `Fault`. -/
abbrev KM := StateT Kernel (Except Fault)

namespace KM

/-- Run `f` on the current process, `myproc()`. -/
def modifyProc (f : Proc → Proc) : KM Unit :=
  modify fun k => { k with proc := f k.proc }

end KM

/-! ## The 16-entry arrays -/

/-- The scans `for (i = 0; cond(a[i]); i++);` over a 16-entry array: the first index whose
entry satisfies `found`. Every such loop in the source reads `a[i]` before any bound check,
so when no entry qualifies it reads `a[16]`, past the array. -/
def firstIndex (a : Vector UInt32 16) (found : UInt32 → Bool) : Except Fault UInt32 :=
  match (List.finRange 16).find? (fun i => found a[i]) with
  | some i => .ok (UInt32.ofNat i)
  | none => .error (.outOfBounds 16)

/-- `a[i]` for an unsigned index. -/
def readEntry (a : Vector UInt32 16) (i : UInt32) : Except Fault UInt32 :=
  if h : i.toNat < 16 then .ok a[i.toNat] else .error (.outOfBounds i)

/-- `a[i] = x` for an unsigned index. -/
def writeEntry (a : Vector UInt32 16) (i x : UInt32) : Except Fault (Vector UInt32 16) :=
  if h : i.toNat < 16 then .ok (a.set i.toNat x) else .error (.outOfBounds i)

/-! ## Physical memory -/

/-- `memset(P2V(pa), c, PGSIZE)` on the page-aligned frame `pa`. -/
def fillFrame (phys : UInt32 → UInt8) (pa : UInt32) (c : UInt8) : UInt32 → UInt8 :=
  fun a => if pgRoundDown a = pa then c else phys a

/-- Copy the bytes `src 0, …, src (PGSIZE - 1)` into the page-aligned frame `pa`. -/
def storeFrame (phys : UInt32 → UInt8) (pa : UInt32) (src : UInt32 → UInt8) : UInt32 → UInt8 :=
  fun a => if pgRoundDown a = pa then src (a - pa) else phys a

/-! ## Page directories -/

/-- The entry `walkpgdir(pgdir, va, 0)` returns: its virtual page number, when the
page-directory entry of `va` is present, and null otherwise. -/
def PageDir.walk (pd : PageDir) (va : UInt32) : Option UInt32 :=
  (pd.tables (pdx va)).map fun _ => vpn va

/-- Set the entry of virtual page number `v`. -/
def PageDir.setEntry (pd : PageDir) (v x : UInt32) : PageDir :=
  { pd with entries := Function.update pd.entries v x }

@[simp]
theorem PageDir.setEntry_entries (pd : PageDir) (v x : UInt32) :
    (pd.setEntry v x).entries = Function.update pd.entries v x := rfl

@[simp]
theorem PageDir.setEntry_tables (pd : PageDir) (v x : UInt32) :
    (pd.setEntry v x).tables = pd.tables := rfl

@[simp]
theorem PageDir.walk_setEntry (pd : PageDir) (v x va : UInt32) :
    (pd.setEntry v x).walk va = pd.walk va := rfl

end Xv6
