import Xv6.Vm.Paging

/-!
# User accesses, system-call arguments and `fork` (`trap.c`, `syscall.c`, `sysproc.c`,
`proc.c`)

A user-mode load or store goes through the MMU. When the page is not present, not
user-accessible or, for a store, not writable, the processor raises a page fault; `trap`
calls `page_fault_handler` for a fault from user mode and retries the instruction when it
returns `1`, and otherwise kills the process.

System calls read their arguments from user memory in kernel mode: `fetchint` and
`fetchstr` check the address against `total_size` only, then dereference it through the
current page table. A kernel-mode page fault makes `trap` panic.

## Main definitions

* `mmu`, `userAccess`, `userLoad`, `userStore`: user-mode memory accesses and the trap path.
* `kernelLoad`, `fetchint`, `fetchstr`, `argint`, `argptr`, `argstr`.
* `sysSbrk`, `sysLightPageFlags`, `sysCheckPageFlags`, `sysTurnOffPageFlags`.
* `fork`: the address-space part of `fork`, with `allocproc`'s outcome as its argument.
-/

namespace Xv6

open KM StateExcept

/-! ## User-mode accesses -/

/-- The MMU on a user-mode access to `va`: the entry's virtual page number and the physical
address, when the entry is present and user-accessible, and writable for a store. -/
def mmu (pd : PageDir) (va : UInt32) (write : Bool) : Option (UInt32 × UInt32) :=
  match pd.walk va with
  | none => none
  | some v =>
    let pte := pd.entries v
    if pte &&& pteP ≠ 0 ∧ pte &&& pteU ≠ 0 ∧ (write = false ∨ pte &&& pteW ≠ 0) then
      some (v, pteAddr pte + (va &&& 0xFFF))
    else none

/-- A user-mode access to `va`, retried after each page fault the handler serves. The MMU
sets `PTE_A`, and `PTE_D` for a store. Returns the physical address, or `none` when the
process is killed. Three attempts cover every case: a fault on a paged-out page is served,
and a retried store to a write-protected page faults once more and kills the process. -/
def userAccess (sel : Selection) (va : UInt32) (write : Bool) : ℕ → KM (Option UInt32)
  | 0 => throw .outOfFuel
  | fuel + 1 => do
    let k ← get
    match mmu k.proc.pgdir va write with
    | some (v, pa) =>
      let pte := k.proc.pgdir.entries v
      let pte := pte ||| pteA ||| (if write then pteD else 0)
      set { k with proc := { k.proc with pgdir := k.proc.pgdir.setEntry v pte } }
      return some pa
    | none =>
      -- `T_PGFLT` from user mode
      if (← pageFaultHandler sel va) = 0 then return none
      userAccess sel va write fuel

/-- A user-mode load of the byte at `va`; `none` when the process is killed. -/
def userLoad (sel : Selection) (va : UInt32) : KM (Option UInt8) := do
  let some pa ← userAccess sel va false 3 | return none
  return some ((← get).phys pa)

/-- A user-mode store of `b` at `va`; `false` when the process is killed. -/
def userStore (sel : Selection) (va : UInt32) (b : UInt8) : KM Bool := do
  let some pa ← userAccess sel va true 3 | return false
  modify fun k => { k with phys := Function.update k.phys pa b }
  return true

/-! ## Kernel-mode reads of user memory -/

/-- The kernel's read of the user byte at `va` through the current page table. -/
def kernelLoad (va : UInt32) : KM UInt8 := do
  let k ← get
  let pa ← kernelFrame k va false
  return k.phys (pa + (va &&& 0xFFF))

/-- `fetchint(addr)`: the `int` at `addr`, when the four bytes lie below `total_size`. -/
def fetchint (addr : UInt32) : KM (Option Int32) := do
  let p := (← get).proc
  if addr ≥ p.totalSize ∨ addr + 4 > p.totalSize then return none
  -- the bound is the only check: the bytes are read through the page table as it is
  let b0 ← kernelLoad addr
  let b1 ← kernelLoad (addr + 1)
  let b2 ← kernelLoad (addr + 2)
  let b3 ← kernelLoad (addr + 3)
  return some (UInt32.ofNat (b0.toNat + 256 * b1.toNat + 65536 * b2.toNat +
    16777216 * b3.toNat)).toInt32

/-- The loop of `fetchstr`: look for the terminating NUL from `s` on, below `ep`. -/
def fetchstrLoop (addr ep : UInt32) : ℕ → UInt32 → KM Int32
  | 0, _ => throw .outOfFuel
  | fuel + 1, s =>
    if s < ep then do
      if (← kernelLoad s) = 0 then return (s - addr).toInt32
      fetchstrLoop addr ep fuel (s + 1)
    else return -1

/-- `fetchstr(addr)`: the length of the NUL-terminated string at `addr`, which must end below
`total_size`, or `-1`. -/
def fetchstr (addr : UInt32) : KM Int32 := do
  let p := (← get).proc
  if addr ≥ p.totalSize then return -1
  fetchstrLoop addr p.totalSize ((p.totalSize - addr).toNat + 1) addr

/-- `argint(n)`: the `n`-th word-sized argument, above the saved user stack pointer. -/
def argint (n : UInt32) : KM (Option Int32) := do
  fetchint ((← get).proc.esp + 4 + 4 * n)

/-- `argptr(n, pp, size)`: the `n`-th argument as a pointer to `size` bytes below
`total_size`. -/
def argptr (n : UInt32) (size : Int32) : KM (Option UInt32) := do
  let some i ← argint n | return none
  let p := (← get).proc
  -- `(uint)i`: a negative argument is an address past `total_size`
  if size < 0 ∨ i.toUInt32 ≥ p.totalSize ∨ i.toUInt32 + size.toUInt32 > p.totalSize then
    return none
  return some i.toUInt32

/-- `argstr(n, pp)`: the `n`-th argument as a NUL-terminated string, and its length or `-1`. -/
def argstr (n : UInt32) : KM (Option (UInt32 × Int32)) := do
  let some addr ← argint n | return none
  return some (addr.toUInt32, ← fetchstr addr.toUInt32)

/-! ## `sysproc.c` -/

/-- `sys_sbrk()`: grow by the first argument and return the old size, or `-1`. -/
def sysSbrk (sel : Selection) : KM Int32 := do
  let some n ← argint 0 | return -1
  let addr := (← get).proc.totalSize
  if (← growproc sel n) < 0 then return -1
  return addr.toInt32

/-- The argument checks of the three page-flag system calls, then `call addr flags`:
`argptr(0, &addr, sizeof(addr)) < 0 || argint(1, &flags)`. -/
def pageFlagsSyscall (call : UInt32 → Int32 → KM Int32) : KM Int32 := do
  let some addr ← argptr 0 4 | return -1
  let some flags ← argint 1 | return -1
  call addr flags

/-- `sys_light_page_flags()`. -/
def sysLightPageFlags : KM Int32 := pageFlagsSyscall lightPageFlags

/-- `sys_check_page_flags()`. -/
def sysCheckPageFlags : KM Int32 := pageFlagsSyscall checkPageFlags

/-- `sys_turn_off_page_flags()`. -/
def sysTurnOffPageFlags : KM Int32 := pageFlagsSyscall turnOffPageFlags

/-! ## `fork` -/

/-- The swap-file copy loop of `fork`: read 1024 bytes of the parent's file into `buf` and
write them to the child's file at the same offset. -/
def copySwapFile (src : SwapFile) : ℕ → Option SwapFile → UInt32 → (UInt32 → UInt8) →
    Except Fault (Option SwapFile)
  | 0, _, _, _ => .error .outOfFuel
  | fuel + 1, dst, i, buf =>
    if i < src.size then do
      let (bytes, r) := src.readi i 1024
      let buf := fun o => if 0 < r ∧ o < r.toUInt32 then bytes o else buf o
      let some d := dst | .error .nullDeref
      let (d, _) ← SwapFile.filewriteLoop (.ok buf) 1024 2 d i 0
      copySwapFile src fuel (some d) (i + 1024) buf
    else return dst

/-- The address-space part of `fork(void)`. `slot` is what `allocproc` found: the pid it gave
an `UNUSED` slot (which got a swap file when the pid is above 2), or `none` when every slot
was taken. Returns the child and `fork`'s result. -/
def fork (slot : Option Int32) : KM (Option Proc × Int32) := do
  let some pid := slot | return (none, -1)
  let swapFile : Option SwapFile := if 2 < pid then some ⟨fun _ => 0, 0⟩ else none
  let kstack ← kalloc
  if kstack = 0 then return (none, -1)
  let cur := (← get).proc
  match ← copyuvm cur.pgdir cur.totalSize with
  | none =>
    kfree kstack
    return (none, -1)
  | some pgdir =>
    let swapFile ← match cur.swapFile with
      | none => pure swapFile
      | some f => copySwapFile f ((f.size / 1024).toNat + 1) swapFile 0 fun _ => 0
    let child : Proc := { cur with
      pgdir, kstack, pid, swapFile, pageFaults := 0, totalPagedOut := 0 }
    return (some child, pid)

end Xv6
