import Mathlib.Data.UInt
import Mathlib.Tactic

/-!
# Machine constants and address macros

The constants of `param.h`, `proc.h`, `memlayout.h`, `mmu.h` and `fs.h` that the paging,
allocator and log models read, and the macros of `mmu.h` over 32-bit words. Addresses and
page-table entries are `uint` in the source and `UInt32` here; `int` values are `Int32`.

Each macro keeps its source name in lower camel case: `PGROUNDUP` is `pgRoundUp`,
`PTE_ADDR` is `pteAddr`, `PTE_PG` is `ptePg`.
-/

namespace Xv6

/-- `PGSIZE`: bytes mapped by a page. -/
def pgSize : UInt32 := 4096

/-- `MAX_PSYC_PAGES`: pages of a process that may be resident at once. -/
def maxPsycPages : UInt32 := 16

/-- `MAX_TOTAL_PAGES`: pages a process may own in RAM and in its swap file together. -/
def maxTotalPages : UInt32 := 32

/-- `NPROC`: slots of the process table. -/
def nproc : ℕ := 64

/-- `MAXARG`: arguments `exec` accepts. -/
def maxArg : ℕ := 32

/-- `KERNBASE`: the first kernel virtual address. -/
def kernBase : UInt32 := 0x80000000

/-- `PHYSTOP`: the top of physical memory. -/
def phyStop : UInt32 := 0xE000000

/-- `V2P`: kernel virtual address to physical address. -/
def v2p (a : UInt32) : UInt32 := a - kernBase

/-- `P2V`: physical address to kernel virtual address. -/
def p2v (a : UInt32) : UInt32 := a + kernBase

/-! ## Page-table entry flags -/

/-- `PTE_P`: present. -/
def pteP : UInt32 := 0x001
/-- `PTE_W`: writeable. -/
def pteW : UInt32 := 0x002
/-- `PTE_U`: user. -/
def pteU : UInt32 := 0x004
/-- `PTE_A`: accessed, set by the MMU. -/
def pteA : UInt32 := 0x020
/-- `PTE_D`: dirty, set by the MMU on a store. -/
def pteD : UInt32 := 0x040
/-- `PTE_PG`: paged out to the swap file. -/
def ptePg : UInt32 := 0x200
/-- `PTE_WAS_PROTECTED`: set while a write-protected page is read back from the swap file. -/
def pteWasProtected : UInt32 := 0x400
/-- `PTE_PMALLOCED`: the page was handed out by `pmalloc`. -/
def ptePmalloced : UInt32 := 0x800

/-! ## Address macros -/

/-- `PGROUNDUP(sz)`, on `uint`. -/
def pgRoundUp (sz : UInt32) : UInt32 := (sz + pgSize - 1) &&& ~~~(pgSize - 1)

/-- `PGROUNDDOWN(a)`, on `uint`. -/
def pgRoundDown (a : UInt32) : UInt32 := a &&& ~~~(pgSize - 1)

/-- `PDX(va)`: the page-directory index. -/
def pdx (va : UInt32) : UInt32 := (va >>> 22) &&& 0x3FF

/-- `PGADDR(d, 0, 0)`: the first address of page-directory slot `d`. -/
def pgAddr (d : UInt32) : UInt32 := d <<< 22

/-- `PTE_ADDR(pte)`: the frame address held by an entry. -/
def pteAddr (pte : UInt32) : UInt32 := pte &&& ~~~0xFFF

/-- `PTE_FLAGS(pte)`: the low twelve flag bits of an entry. -/
def pteFlags (pte : UInt32) : UInt32 := pte &&& 0xFFF

/-- The virtual page number `va >> PGSHIFT`, which indexes page-table entries in the model. -/
def vpn (va : UInt32) : UInt32 := va >>> 12

/-! ## File-system constants -/

/-- `BSIZE`: bytes in a disk block. -/
def bSize : Nat := 512

/-- `MAXOPBLOCKS`: blocks one file-system operation may write. -/
def maxOpBlocks : Nat := 10

/-- `LOGSIZE`: data blocks the on-disk log can hold. -/
def logSize : Nat := maxOpBlocks * 3

/-- `NBUF`: buffers in the block cache. -/
def nbuf : Nat := maxOpBlocks * 3

/-- `FSSIZE`: blocks in the file-system image. -/
def fsSize : Nat := 1000

/-- `NINODE`: entries of the in-memory inode cache. -/
def nInode : Nat := 50

/-- `NDEV`: device major numbers have to be below this. -/
def nDev : Nat := 10

/-- `ROOTDEV`: the device number of the disk holding the file system. -/
def rootDev : UInt32 := 1

/-- `MAXFILE * BSIZE`: the largest file, in bytes (`NDIRECT + NINDIRECT` blocks). -/
def maxFileBytes : UInt32 := (12 + 128) * 512

end Xv6
