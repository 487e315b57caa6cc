import Xv6.Vm.Syscall

/-!
# Loading a program (`exec.c`, `vm.c`)

`exec` builds a new address space: `setupkvm`, one `allocuvm` and `loaduvm` per loadable
segment, two more pages of which the first loses `PTE_U` (the guard page) and the second is
the user stack, the argument strings and the initial stack frame copied out with `copyout`.
Only then does it commit: the process gets the new page directory and size, its paging arrays
are cleared, and the old page directory is freed.

`allocuvm` registers the new image's pages in the arrays of the *calling* process, which
`exec` clears again when it commits.

The executable's ELF header and program headers are not parsed: `exec` takes the loadable
segments, and `readi` on the executable is assumed to return the bytes asked for.

## Main definitions

* `ProgHeader`: a loadable segment.
* `loaduvm`, `uva2ka`, `copyout`.
* `exec`: the address-space part of `exec(path, argv)`.
* `fetchArgv`, `sysExec`: `sys_exec`, which fetches the path and the argument strings from
  user memory first.
-/

namespace Xv6

open KM

/-- A loadable program header (`ph.type == ELF_PROG_LOAD`), with the executable's bytes from
`ph.off` on. -/
structure ProgHeader where
  vaddr : UInt32
  memsz : UInt32
  filesz : UInt32
  data : UInt32 → UInt8

/-- The loop of `loaduvm`: copy the segment's bytes page by page into the frames mapped at
`addr + i`. -/
def loaduvmLoop (pgdir : PageDir) (addr : UInt32) (data : UInt32 → UInt8) (sz : UInt32) :
    ℕ → UInt32 → KM Int32
  | 0, _ => throw .outOfFuel
  | fuel + 1, i =>
    if i < sz then do
      let some v := pgdir.walk (addr + i) | throw (.panic "loaduvm: address should exist")
      let pa := pteAddr (pgdir.entries v)
      let n := if sz - i < pgSize then sz - i else pgSize
      modify fun k => { k with
        phys := fun a => if pa ≤ a ∧ a < pa + n then data (i + (a - pa)) else k.phys a }
      loaduvmLoop pgdir addr data sz fuel (i + pgSize)
    else return 0

/-- `loaduvm(pgdir, addr, ip, offset, sz)`: load `sz` bytes of the executable at the
page-aligned `addr`. -/
def loaduvm (pgdir : PageDir) (addr : UInt32) (data : UInt32 → UInt8) (sz : UInt32) :
    KM Int32 := do
  if addr % pgSize ≠ 0 then throw (.panic "loaduvm: addr must be page aligned")
  loaduvmLoop pgdir addr data sz pageFuel 0

/-- `uva2ka(pgdir, uva)`: the kernel address of the frame of a present user page, or `0`.
The entry pointer from `walkpgdir` is dereferenced unchecked. -/
def uva2ka (pgdir : PageDir) (uva : UInt32) : Except Fault UInt32 :=
  match pgdir.walk uva with
  | none => .error .nullDeref
  | some v =>
    let pte := pgdir.entries v
    if pte &&& pteP = 0 then .ok 0
    else if pte &&& pteU = 0 then .ok 0
    else .ok (p2v (pteAddr pte))

/-- The loop of `copyout`: copy `buf` to the user address `va`, one page at a time. -/
def copyoutLoop (pgdir : PageDir) : ℕ → UInt32 → List UInt8 → KM Int32
  | 0, _, _ => throw .outOfFuel
  | fuel + 1, va, buf =>
    if buf.isEmpty then return 0
    else do
      let va0 := pgRoundDown va
      let pa0 ← liftM (m := Except Fault) (uva2ka pgdir va0)
      if pa0 = 0 then return -1
      let n := min (pgSize - (va - va0)).toNat buf.length
      let base := v2p pa0 + (va - va0)
      modify fun k => { k with
        phys := fun a => if base ≤ a ∧ (a - base).toNat < n then buf.getD (a - base).toNat 0
          else k.phys a }
      copyoutLoop pgdir fuel (va0 + pgSize) (buf.drop n)

/-- `copyout(pgdir, va, p, len)`: copy the bytes `buf` to `va` in the address space `pgdir`;
`-1` when a page on the way is not a present user page. -/
def copyout (pgdir : PageDir) (va : UInt32) (buf : List UInt8) : KM Int32 :=
  copyoutLoop pgdir (buf.length / pgSize.toNat + 2) va buf

/-- The little-endian bytes of a word, as `copyout` copies an `uint` array. -/
def wordBytes (w : UInt32) : List UInt8 :=
  [w.toUInt8, (w >>> 8).toUInt8, (w >>> 16).toUInt8, (w >>> 24).toUInt8]

/-- The program-header loop of `exec`: grow the image over each segment and load it. The
page directory is returned also on failure, for `bad:` to free. -/
def loadSegments (sel : Selection) : List ProgHeader → PageDir → UInt32 →
    KM (PageDir × Option UInt32)
  | [], pgdir, sz => return (pgdir, some sz)
  | ph :: phs, pgdir, sz => do
    if ph.memsz < ph.filesz ∨ ph.vaddr + ph.memsz < ph.vaddr then return (pgdir, none)
    let (pgdir, sz) ← allocuvm sel pgdir sz (ph.vaddr + ph.memsz)
    if sz = 0 ∨ ph.vaddr % pgSize ≠ 0 then return (pgdir, none)
    if (← loaduvm pgdir ph.vaddr ph.data ph.filesz) < 0 then return (pgdir, none)
    loadSegments sel phs pgdir sz

/-- The argument-string loop of `exec`: push each string with its NUL below `sp`, word
aligned, and collect the addresses for `ustack`. -/
def pushArgs (pgdir : PageDir) : List (List UInt8) → UInt32 → List UInt32 →
    KM (Option (UInt32 × List UInt32))
  | [], sp, ptrs => return some (sp, ptrs)
  | s :: ss, sp, ptrs => do
    if ptrs.length ≥ maxArg then return none
    let sp := (sp - (UInt32.ofNat s.length + 1)) &&& ~~~3
    if (← copyout pgdir sp (s ++ [0])) < 0 then return none
    pushArgs pgdir ss sp (ptrs ++ [sp])

/-- `exec(path, argv)` from the program's loadable segments: `0`, or `-1` with the new page
directory freed and the process otherwise as it was, apart from what `allocuvm` registered
in its arrays. -/
def exec (sel : Selection) (phs : List ProgHeader) (argv : List (List UInt8)) : KM Int32 := do
  let some pgdir ← setupkvm | return -1
  match ← loadSegments sel phs pgdir 0 with
  | (pgdir, none) =>
    freevm pgdir
    return -1
  | (pgdir, some sz) =>
    -- the guard page and the user stack at the next page boundary
    let sz := pgRoundUp sz
    let (pgdir, sz) ← allocuvm sel pgdir sz (sz + 2 * pgSize)
    if sz = 0 then
      freevm pgdir
      return -1
    let pgdir ← clearpteu pgdir (sz - 2 * pgSize)
    match ← pushArgs pgdir argv sz [] with
    | none =>
      freevm pgdir
      return -1
    | some (sp, ptrs) =>
      let argc := UInt32.ofNat ptrs.length
      -- fake return PC, argc, argv, then the argument pointers and a null
      let ustack := [0xffffffff, argc, sp - (argc + 1) * 4] ++ ptrs ++ [0]
      let sp := sp - (3 + argc + 1) * 4
      if (← copyout pgdir sp (ustack.flatMap wordBytes)) < 0 then
        freevm pgdir
        return -1
      let oldpgdir := (← get).proc.pgdir
      modifyProc fun p => { p with
        totalSize := sz, ramSize := sz, pgdir := pgdir, pagesOnRamStackPointer := 0,
        pagesOnRam := Vector.replicate 16 0, swappedPagesEntry := Vector.replicate 16 0,
        esp := sp, totalPagedOut := 0, pageFaults := 0, protectedPages := 0 }
      freevm oldpgdir
      return 0

/-! ## `sys_exec` -/

/-- The argument loop of `sys_exec`: fetch the pointers `argv[i]` from the user array at
`uargv` up to the null one, and the strings they point to. At most `MAXARG` strings fit. -/
def fetchArgv (uargv : UInt32) : ℕ → List (List UInt8) → KM (Option (List (List UInt8)))
  | 0, _ => return none
  | k + 1, argv => do
    let some uarg ← fetchint (uargv + 4 * UInt32.ofNat argv.length) | return none
    if uarg = 0 then return some argv
    let len ← fetchstr uarg.toUInt32
    if len < 0 then return none
    -- `exec` reads the string from user memory as it was fetched
    let s ← (List.range len.toNatClampNeg).mapM fun j => kernelLoad (uarg.toUInt32 + UInt32.ofNat j)
    fetchArgv uargv k (argv ++ [s])

/-- `sys_exec()`: the path and the argument vector from user memory, then `exec` of the
program `phs` that the path names. -/
def sysExec (sel : Selection) (phs : List ProgHeader) : KM Int32 := do
  let some (_, r) ← argstr 0 | return -1
  if r < 0 then return -1
  let some uargv ← argint 1 | return -1
  let some argv ← fetchArgv uargv.toUInt32 maxArg [] | return -1
  exec sel phs argv

end Xv6
