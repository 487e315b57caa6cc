import Xv6.Vm.Exec

/-!
# Runs of a user process

What the paging code must keep holds in every state a process can reach, so the process is
modelled as a state machine: a step is one thing its user code does that the kernel takes part in. A
load or store goes through the MMU and, on a page fault, through `trap` and
`page_fault_handler`; a system call pushes its arguments and the return address on the user
stack, traps, and the kernel fetches the arguments back from there; `fork` continues in the
parent or in the child; `exit` ends the run, after which the parent's `wait` frees the
kernel stack and the address space.

A run starts from `spawn`, a new process with a kernel stack, a swap file when its pid is
above 2, and a page directory with only the kernel's mappings, in a kernel whose free list is
given; `start` then loads its first program with `exec`, as the kernel does for `init`.

## Main definitions

* `UserOp`, `Obs`: the steps of user code and what user code sees of each.
* `callSyscall`, `step`, `run`.
* `spawn`, `boot`, `start`, `runFrom`: the start of a run.
* `residentPages`, `protectedUserPages`: the user pages present in memory, and those made
  read-only by `protect_page`.

## Main results

Runs of a process that execs `onePageProgram`, one for each way the paging code breaks what
the rest of the kernel and user code rely on:

* `swapped_page_reads_stale_slot`: a load reads bytes of a page that was freed and allocated
  again since, from a swap slot the shrink left behind.
* `shrink_leaves_swap_entry_above_size`: `swapped_pages_entry` names a page above the size.
* `page_fault_leaves_seventeen_resident`: a page fault leaves 17 pages resident.
* `sbrk_cycles_overflow_pages_on_ram`: growing and shrinking writes past `pages_on_ram`.
* `exec_path_in_paged_out_page_panics`: a validated path in a paged-out page panics the kernel.
* `exit_leaks_paged_out_frame`: the frame of a paged-out page never returns to the free list.
* `light_page_flags_moves_frame`: `light_page_flags` points an entry at another frame.
* `fork_panics_after_present_bit_cleared`: `fork` panics after `turn_off_page_flags`.
* `growproc_spins_after_sixteen_page_exec`: `growproc` never returns after a 16-page `exec`.
* `failed_growth_leaves_page_registered`: a failed `allocuvm` leaves a page in `pages_on_ram`.
* `page_fault_outside_image`: the fault handler dereferences a null entry pointer, and serves a
  page above the size.
* `pfree_unprotected_wraps_counter`: `protected_pages` wraps below zero.
* `scfifo_evicts_accessed_duplicate`: a page queued twice is evicted right after its second
  chance.
* `exec_seventeen_page_program_overflows`, `exec_unaligned_segment_overflows`: `exec` of a large
  image, or of a segment it should reject, writes past `pages_on_ram` before it returns.
-/

namespace Xv6

open KM

/-- One thing user code does that the kernel takes part in. -/
inductive UserOp where
  | sbrk (n : Int32)
  | load (va : UInt32)
  | store (va : UInt32) (b : UInt8)
  | lightPageFlags (addr : UInt32) (flags : Int32)
  | checkPageFlags (addr : UInt32) (flags : Int32)
  | turnOffPageFlags (addr : UInt32) (flags : Int32)
  /-- `fork()`, with what `allocproc` finds; the run goes on in the child when `child`. -/
  | fork (slot : Option Int32) (child : Bool)
  /-- `exec(path, argv)` from user code, with `phs` the program at `path`. -/
  | exec (phs : List ProgHeader) (path argv : UInt32)
  /-- `exit()`, and the parent's `wait()` reaping the process. -/
  | exit

/-- What user code sees of a step. -/
inductive Obs where
  /-- A system call returned `r` in `%eax`. -/
  | ret (r : Int32)
  /-- A load read `b`. -/
  | byte (b : UInt8)
  | stored
  /-- A page fault the handler did not serve: `trap` kills the process. -/
  | killed
  | exited
  deriving DecidableEq, Repr

/-- A user-mode store of the word `w` at `va`, byte by byte; `false` when the process is
killed. -/
def userStoreWord (sel : Selection) (va w : UInt32) : KM Bool :=
  [0, 1, 2, 3].allM fun j => userStore sel (va + j) (w >>> (8 * j)).toUInt8

/-- The entry of a system call: push the arguments and the return address of `call` below the
stack pointer, and trap with that stack pointer saved in the trap frame. `false` when a push
faults and the process is killed. -/
def syscallEntry (sel : Selection) (args : List Int32) : KM Bool := do
  let sp := (← get).proc.esp - 4 * (UInt32.ofNat args.length + 1)
  let words := args.zipIdx.map (fun (a, i) => (sp + 4 + 4 * UInt32.ofNat i, a.toUInt32)) ++
    [(sp, 0)]
  if !(← words.allM fun (va, w) => userStoreWord sel va w) then return false
  modifyProc fun p => { p with esp := sp }
  return true

/-- A system call from user code: enter, run `body`, and return to the caller, which pops the
arguments again. -/
def callSyscall (sel : Selection) (args : List Int32) (body : KM Int32) : KM Obs := do
  let sp0 := (← get).proc.esp
  if !(← syscallEntry sel args) then return .killed
  let r ← body
  modifyProc fun p => { p with esp := sp0 }
  return .ret r

/-- `exec` from user code: as `callSyscall`, but on success the new program starts on the
stack `exec` built. -/
def callExec (sel : Selection) (phs : List ProgHeader) (path argv : UInt32) : KM Obs := do
  let sp0 := (← get).proc.esp
  if !(← syscallEntry sel [path.toInt32, argv.toInt32]) then return .killed
  let r ← sysExec sel phs
  if r < 0 then modifyProc fun p => { p with esp := sp0 }
  return .ret r

/-- `fork()` as the system call sees it: the parent gets the child's pid, and the run goes on
in the child, which sees `0`, when `child` is set and the fork succeeded. -/
def sysFork (slot : Option Int32) (child : Bool) : KM Int32 := do
  let (np, pid) ← fork slot
  match np, child with
  | some c, true =>
    modify fun k => { k with proc := c }
    return 0
  | _, _ => return pid

/-- `exit()` and the parent's `wait()`: the swap file is removed, then the kernel stack and the
whole address space are freed. -/
def exitAndWait : KM Unit := do
  modifyProc fun p => { p with swapFile := none }
  let p := (← get).proc
  kfree p.kstack
  freevm p.pgdir

/-- One step of user code. -/
def step (sel : Selection) : UserOp → KM Obs
  | .sbrk n => callSyscall sel [n] (sysSbrk sel)
  | .load va => do
    match ← userLoad sel va with
    | some b => return .byte b
    | none => return .killed
  | .store va b => do
    if ← userStore sel va b then return .stored else return .killed
  | .lightPageFlags addr flags => callSyscall sel [addr.toInt32, flags] sysLightPageFlags
  | .checkPageFlags addr flags => callSyscall sel [addr.toInt32, flags] sysCheckPageFlags
  | .turnOffPageFlags addr flags => callSyscall sel [addr.toInt32, flags] sysTurnOffPageFlags
  | .fork slot child => callSyscall sel [] (sysFork slot child)
  | .exec phs path argv => callExec sel phs path argv
  | .exit => do
    exitAndWait
    return .exited

/-- A run of user code: the steps in order, until the process is killed or exits. -/
def run (sel : Selection) : List UserOp → KM (List Obs)
  | [] => return []
  | op :: ops => do
    let o ← step sel op
    if o = .killed ∨ o = .exited then return [o]
    return o :: (← run sel ops)

/-! ## The start of a run -/

/-- A new process `pid`: `allocproc`'s kernel stack and swap file, and a page directory with
only the kernel's mappings, as `userinit` builds with `setupkvm`. -/
def spawn (pid : Int32) : KM Unit := do
  let kstack ← kalloc
  if kstack = 0 then throw (.panic "allocproc")
  let some pgdir ← setupkvm | throw (.panic "userinit: out of memory?")
  modifyProc fun p => { p with
    pid, kstack, pgdir, swapFile := if 2 < pid then some ⟨fun _ => 0, 0⟩ else none }

/-- A kernel after `kinit1` and `kinit2` with `n` free frames from `P2V(4MB)` on, every byte
of them junk (`1`), and a process table entry with every field zero. -/
def boot (n : ℕ) : Kernel where
  freelist := (List.range n).map fun i => 0x80400000 + UInt32.ofNat i * pgSize
  kernEnd := 0x8010a000
  phys := fun _ => 1
  proc :=
    { totalSize := 0, ramSize := 0, pgdir := ⟨0, [], fun _ => none, fun _ => 0⟩, kstack := 0,
      pid := 0, trapno := 0, esp := 0, swapFile := none,
      swappedPagesEntry := Vector.replicate 16 0, pagesOnRamStackPointer := 0,
      pagesOnRam := Vector.replicate 16 0, protectedPages := 0, pageFaults := 0,
      totalPagedOut := 0 }

/-- The process with pid `3` (the first with a swap file) in `boot n`, running the program
`phs` with the arguments `argv`: `exec`'s result and the kernel state. -/
def start (sel : Selection) (n : ℕ) (phs : List ProgHeader) (argv : List (List UInt8)) :
    Except Fault (Int32 × Kernel) :=
  (do spawn 3; exec sel phs argv).run (boot n)

/-- A run of user code from `start`. -/
def runFrom (sel : Selection) (n : ℕ) (phs : List ProgHeader) (argv : List (List UInt8))
    (ops : List UserOp) : Except Fault (List Obs × Kernel) := do
  let (_, k) ← start sel n phs argv
  (run sel ops).run k

/-! ## Runs that break the paging contract

Each run starts with a process that has just exec'd `onePageProgram`: its code page at `0`,
the guard page at `0x1000` and the stack page at `0x2000`, so `total_size` is `0x3000` and
the paging arrays are empty. `sbrk(53248)` then grows it to the 16 pages `MAX_PSYC_PAGES`
allows in memory, registering the 13 new ones. -/

/-- A program of one page: 100 bytes of code at address `0`. -/
def onePageProgram : List ProgHeader := [⟨0, 100, 100, fun _ => 0x90⟩]

-- `sbrk(53248)` grows the process to `0x10000` bytes and registers its 13 new pages.
example :
    (runFrom .scfifo 200 onePageProgram [] [.sbrk 53248]).map
        (fun r => (r.1, r.2.proc.totalSize, r.2.proc.pagesOnRam.toList)) =
      .ok ([.ret 12288], 65536,
        [0x3000, 0x4000, 0x5000, 0x6000, 0x7000, 0x8000, 0x9000, 0xA000, 0xB000, 0xC000, 0xD000,
          0xE000, 0xF000, 0, 0, 0]) := by
  decide +kernel

/-- Under `LIFO`: page `0xF000` is stored to and swapped out to slot 0, removed by
`sbrk(-8192)` (`deallocuvm` skips it and nothing clears the slot), allocated again as a zero
page, and swapped out once more, to slot 1. The fault on it reads slot 0, the first slot that
names it: the load sees the `7` stored before the page was freed, not `0`. -/
theorem swapped_page_reads_stale_slot :
    (runFrom .lifo 200 onePageProgram []
        [.sbrk 53248, .store 61440 7, .sbrk 4096, .sbrk (-8192), .sbrk 4096, .sbrk 8192,
          .load 61440]).map Prod.fst =
      .ok [.ret 12288, .stored, .ret 65536, .ret 69632, .ret 61440, .ret 65536, .byte 7] := by
  decide +kernel

/-- `sbrk(4096)` swaps page `0x3000` out to slot 0; `sbrk(-57344)` then shrinks the process to
`0x3000` bytes. The slot still names the page, which is no longer below `total_size`, and
`ram_size` has lost the 14 pages removed although one of them was not resident. -/
theorem shrink_leaves_swap_entry_above_size :
    (runFrom .scfifo 200 onePageProgram [] [.sbrk 53248, .sbrk 4096, .sbrk (-57344)]).map
        (fun r => (r.2.proc.swappedPagesEntry[0], r.2.proc.totalSize, r.2.proc.ramSize)) =
      .ok (12288, 12288, 8192) := by
  decide +kernel

/-- Each `sbrk(4096)` registers page `0x3000` in the first empty slot of `pages_on_ram`, and
each `sbrk(-4096)` frees it without clearing the slot. After 16 rounds every slot is taken and
the 17th `sbrk(4096)` writes `pages_on_ram[16]`. -/
theorem sbrk_cycles_overflow_pages_on_ram :
    (runFrom .scfifo 200 onePageProgram []
        ((List.replicate 16 [UserOp.sbrk 4096, .sbrk (-4096)]).flatten ++ [.sbrk 4096])).map
        Prod.fst =
      .error (.outOfBounds 16) := by
  decide +kernel

/-- The string `"a"` is stored at `0x3000`; `sbrk(8192)` swaps out two pages, page `0x4000`
and then page `0x3000`, whose second chance the first scan used up. `exec("a", 0)` passes
`argstr`, which checks only `0x3000 < total_size`, and `fetchstr`'s read of the paged-out
page faults in the kernel. -/
theorem exec_path_in_paged_out_page_panics :
    (runFrom .scfifo 200 onePageProgram []
        [.sbrk 53248, .store 12288 97, .store 12289 0, .sbrk 8192,
          .exec onePageProgram 12288 0]).map Prod.fst =
      .error (.kernelPageFault 12288) := by
  decide +kernel

/-- The user pages below `PGROUNDUP(total_size)` whose entry has `PTE_P` set. -/
def residentPages (k : Kernel) : ℕ :=
  (List.range (pgRoundUp k.proc.totalSize / pgSize).toNat).countP fun i =>
    match k.proc.pgdir.walk (UInt32.ofNat i * pgSize) with
    | some v => k.proc.pgdir.entries v &&& pteP ≠ 0
    | none => false

-- After `sbrk(53248)` all 16 pages are resident.
example :
    (runFrom .scfifo 200 onePageProgram [] [.sbrk 53248]).map (fun r => residentPages r.2) =
      .ok 16 := by
  decide +kernel

/-- `sbrk(1)` from 16 resident pages swaps out page `0x3000` and maps a 17th page for the one
byte: 16 pages resident out of 17. The fault on page `0x3000` brings it back, and
`ram_size / PGSIZE - MAX_PSYC_PAGES` is `0`, so nothing is evicted: 17 pages are resident. -/
theorem page_fault_leaves_seventeen_resident :
    (runFrom .scfifo 200 onePageProgram [] [.sbrk 53248, .sbrk 1]).map
        (fun r => (residentPages r.2, r.2.proc.totalSize)) = .ok (16, 65537) ∧
      (runFrom .scfifo 200 onePageProgram [] [.sbrk 53248, .sbrk 1, .load 12288]).map
        (fun r => (r.1, residentPages r.2)) = .ok ([.ret 12288, .ret 65536, .byte 0], 17) := by
  constructor <;> decide +kernel

/-- A process that exits returns every frame it held; one that had page `0x3000` swapped out
does not return that page's frame `0x401000`, which its entry still names: 199 of the 200
frames come back. -/
theorem exit_leaks_paged_out_frame :
    (runFrom .scfifo 200 onePageProgram [] [.exit]).map (fun r => r.2.freelist.length) =
        .ok 200 ∧
      (runFrom .scfifo 200 onePageProgram [] [.sbrk 53248, .sbrk 4096]).map
          (fun r => pteAddr (r.2.proc.pgdir.entries (vpn 12288))) = .ok 0x401000 ∧
      (runFrom .scfifo 200 onePageProgram [] [.sbrk 53248, .sbrk 4096, .exit]).map
          (fun r => (r.2.freelist.length, decide (p2v 0x401000 ∈ r.2.freelist))) =
        .ok (199, false) := by
  refine ⟨?_, ?_, ?_⟩ <;> decide +kernel

/-- `light_page_flags(0, 0x10000)` passes `argptr` and ORs `0x10000` into the entry of the code
page: it now maps frame `0x493000` in place of `0x483000`. -/
theorem light_page_flags_moves_frame :
    (runFrom .scfifo 200 onePageProgram [] []).map
        (fun r => pteAddr (r.2.proc.pgdir.entries 0)) = .ok 0x483000 ∧
      (runFrom .scfifo 200 onePageProgram [] [.lightPageFlags 0 0x10000]).map
          (fun r => (r.1, pteAddr (r.2.proc.pgdir.entries 0))) = .ok ([.ret 1], 0x493000) := by
  constructor <;> decide +kernel

/-- `turn_off_page_flags(0x1000, PTE_P)` on the guard page leaves its entry neither present
nor paged out, and the next `fork` panics in `copyuvm`. -/
theorem fork_panics_after_present_bit_cleared :
    (runFrom .scfifo 200 onePageProgram [] [.turnOffPageFlags 4096 1, .fork (some 4) false]).map
        Prod.fst =
      .error (.panic "copyuvm: page not present") := by
  decide +kernel

/-- The user pages below `PGROUNDUP(total_size)` whose entry has `PTE_PMALLOCED` set and `PTE_W`
clear: the pages `protect_page` has made read-only. -/
def protectedUserPages (k : Kernel) : ℕ :=
  (List.range (pgRoundUp k.proc.totalSize / pgSize).toNat).countP fun i =>
    match k.proc.pgdir.walk (UInt32.ofNat i * pgSize) with
    | some v => k.proc.pgdir.entries v &&& (ptePmalloced ||| pteW) = ptePmalloced
    | none => false

-- `protect_page` on a heap page: `PTE_PMALLOCED` set, then `PTE_W` cleared.
example :
    (runFrom .scfifo 200 onePageProgram []
        [.sbrk 4096, .lightPageFlags 12288 0x800, .turnOffPageFlags 12288 2]).map
        (fun r => (protectedUserPages r.2, r.2.proc.protectedPages)) = .ok (1, 1) := by
  decide +kernel

/-- The calls `pmalloc()` and then `pfree` of its page make on a page that was never protected:
`light_page_flags(PTE_PMALLOCED)`, then `light_page_flags(PTE_W)` and
`turn_off_page_flags(PTE_PMALLOCED)`. The second takes one off `protected_pages`, which wraps
from `0` to `2^32 - 1`, while no page is protected. -/
theorem pfree_unprotected_wraps_counter :
    (runFrom .scfifo 200 onePageProgram []
        [.sbrk 4096, .lightPageFlags 12288 0x800, .lightPageFlags 12288 2,
          .turnOffPageFlags 12288 0x800]).map
        (fun r => (r.1, r.2.proc.protectedPages, protectedUserPages r.2)) =
      .ok ([.ret 12288, .ret 1, .ret 1, .ret 1], 4294967295, 0) := by
  decide +kernel

/-- A load at `0x40000000`, whose page-directory entry is absent, page-faults, and the handler
dereferences the null entry pointer `walkpgdir` returns. After `sbrk(-57344)` has left page
`0x3000` above the size with `PTE_PG` set, a load there is served: the handler reads the page
back from the swap file, frees its slot and adds a page to `ram_size`. -/
theorem page_fault_outside_image :
    (runFrom .scfifo 200 onePageProgram [] [.load 0x40000000]).map Prod.fst = .error .nullDeref ∧
      (runFrom .scfifo 200 onePageProgram [] [.sbrk 53248, .sbrk 4096, .sbrk (-57344)]).map
          (fun r => (r.2.proc.totalSize, r.2.proc.ramSize, r.2.proc.swappedPagesEntry[0])) =
        .ok (12288, 8192, 12288) ∧
      (runFrom .scfifo 200 onePageProgram []
          [.sbrk 53248, .sbrk 4096, .sbrk (-57344), .load 12288]).map
          (fun r => (r.1, r.2.proc.totalSize, r.2.proc.ramSize, r.2.proc.swappedPagesEntry[0])) =
        .ok ([.ret 12288, .ret 65536, .ret 69632, .byte 0], 12288, 12288, 0) := by
  refine ⟨?_, ?_, ?_⟩ <;> decide +kernel

/-- After `sbrk(8192)`, `sbrk(-8192)` and `sbrk(8192)` the queue names pages `0x3000` and `0x4000`
twice each (the shrink left their slots), and eleven more pages fill it to fifteen entries. Both
pages are then loaded, so `PTE_A` is set on them and clear on `0x5000`. The next `sbrk(4096)`
needs one page out: the scan clears `PTE_A` of `0x3000` at its first slot, finds it clear at its
second and swaps out `0x3000`, the page just used, while `0x5000` stays resident. -/
theorem scfifo_evicts_accessed_duplicate :
    (runFrom .scfifo 200 onePageProgram []
        [.sbrk 8192, .sbrk (-8192), .sbrk 8192, .sbrk 45056, .load 0x3000, .load 0x4000]).map
        (fun r => (r.2.proc.pagesOnRam.toList.take 5,
          r.2.proc.pgdir.entries (vpn 0x3000) &&& pteA, r.2.proc.pgdir.entries (vpn 0x4000) &&& pteA,
          r.2.proc.pgdir.entries (vpn 0x5000) &&& pteA)) =
      .ok ([0x3000, 0x4000, 0x3000, 0x4000, 0x5000], pteA, pteA, 0) ∧
    (runFrom .scfifo 200 onePageProgram []
        [.sbrk 8192, .sbrk (-8192), .sbrk 8192, .sbrk 45056, .load 0x3000, .load 0x4000,
          .sbrk 4096]).map
        (fun r => (r.2.proc.pgdir.entries (vpn 0x3000) &&& (ptePg ||| pteP),
          r.2.proc.pgdir.entries (vpn 0x5000) &&& (ptePg ||| pteP),
          r.2.proc.swappedPagesEntry[0])) =
      .ok (ptePg, pteP, 0x3000) := by
  refine ⟨?_, ?_⟩ <;> decide +kernel

/-- A program of fourteen pages: with the guard page and the stack, `exec` gives it the 16
pages `MAX_PSYC_PAGES` allows in memory. -/
def fourteenPageProgram : List ProgHeader := [⟨0, 57344, 100, fun _ => 0x90⟩]

example :
    (runFrom .scfifo 200 fourteenPageProgram [] []).map (fun r => residentPages r.2) = .ok 16 := by
  decide +kernel

/-- A program of seventeen pages, `0` to `0x10FFF`. -/
def seventeenPageProgram : List ProgHeader := [⟨0, 69632, 100, fun _ => 0x90⟩]

/-- After `exec` of `fourteenPageProgram`, 16 pages are resident and none is in
`pages_on_ram`, since `exec` clears the arrays its own `allocuvm` filled. `sbrk(4096)` asks for
a 17th page, well within `MAX_TOTAL_PAGES`, and the loop of `growproc` never ends. -/
theorem growproc_spins_after_sixteen_page_exec :
    ∃ k, start .scfifo 200 fourteenPageProgram [] = .ok (0, k) ∧
      pgRoundUp (k.proc.totalSize + 4096) ≤ maxTotalPages * pgSize ∧
      ∀ fuel, (growprocLoop .scfifo fuel 4096).run k = .error .outOfFuel := by
  have h : (start .scfifo 200 fourteenPageProgram []).map
      (fun r => (r.1, r.2.proc.totalSize, r.2.proc.ramSize, availablePagesToSwap .scfifo r.2.proc)) =
        .ok (0, 65536, 65536, 0) := by
    decide +kernel
  cases hs : start .scfifo 200 fourteenPageProgram [] with
  | error e => simp [hs, Except.map] at h
  | ok r =>
    obtain ⟨r0, k⟩ := r
    simp only [hs, Except.map, Except.ok.injEq, Prod.mk.injEq] at h
    obtain ⟨rfl, hsz, hram, havail⟩ := h
    refine ⟨k, rfl, by rw [hsz]; decide, fun fuel => ?_⟩
    exact growprocLoop_stuck (by decide) (by rw [hram]; rfl) havail fuel

/-- With 141 frames, `fork` leaves one free frame. `sbrk(8192)` takes it for page `0x3000` and
registers the page in `pages_on_ram`; the second `kalloc` fails and `deallocuvm` gives the
frame back, but the slot stays, and `growproc` returns `0` all the same. With 138 frames, an
`exec` that runs out of frames at its stack page returns `-1` with its guard page `0x1000` left
in the caller's `pages_on_ram`. -/
theorem failed_growth_leaves_page_registered :
    (runFrom .scfifo 141 onePageProgram [] [.fork (some 4) false]).map
        (fun r => (r.1, r.2.freelist.length, r.2.proc.pagesOnRam[0], r.2.proc.totalSize)) =
      .ok ([.ret 4], 1, 0, 12288) ∧
    (runFrom .scfifo 141 onePageProgram [] [.fork (some 4) false, .sbrk 8192]).map
        (fun r => (r.1, r.2.freelist.length, r.2.proc.pagesOnRam[0], r.2.proc.totalSize)) =
      .ok ([.ret 4, .ret 12288], 1, 12288, 12288) ∧
    (runFrom .scfifo 138 onePageProgram [] [.exec onePageProgram 0 100]).map
        (fun r => (r.1, r.2.proc.pagesOnRam[0], r.2.proc.totalSize)) =
      .ok ([.ret (-1)], 4096, 12288) := by
  refine ⟨?_, ?_, ?_⟩ <;> decide +kernel


/-- `exec` of `seventeenPageProgram`, with an empty `argv`: `allocuvm` registers the image's
pages `0x1000` to `0x10000` in the caller's `pages_on_ram`, which fills its 16 slots, and then
the guard page `0x11000`, for which the scan reads `pages_on_ram[16]`, past the array. `exec`
neither returns nor builds a stack. -/
theorem exec_seventeen_page_program_overflows :
    (runFrom .scfifo 200 onePageProgram [] [.exec seventeenPageProgram 0 100]).map Prod.fst =
      .error (.outOfBounds 16) := by
  decide +kernel

/-- A loadable segment at the unaligned address `1` with `memsz` `0x12000`: `allocuvm` grows the
image over its 19 pages, registering each in the caller's `pages_on_ram`, before `exec` checks
the alignment, and the 17th finds no free slot. -/
theorem exec_unaligned_segment_overflows :
    (runFrom .scfifo 200 onePageProgram [] [.exec [⟨1, 0x12000, 0, fun _ => 0⟩] 0 100]).map
        Prod.fst =
      .error (.outOfBounds 16) := by
  decide +kernel

end Xv6
