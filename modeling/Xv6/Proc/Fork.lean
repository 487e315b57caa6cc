import Xv6.Fs.SysFile
import Xv6.Proc.SwapPath
import Xv6.Vm.Process

/-!
# `fork` across the kernel (`proc.c`, `fs.c`, `file.c`)

`fork` reaches every part of the kernel that the other modules model on its own. `allocproc`
takes a slot of `ptable`; for a pid above `2`, under a page-replacement policy other than
`NONE`, it calls `createSwapFile`, which creates `/.swap<pid>` in the file system and takes an
entry of `ftable` for it; only then does it allocate the kernel stack. `fork` copies the address
space with `copyuvm`, duplicates the open files and the current directory, copies the parent's
swap file and makes the child runnable.

`Sys` holds the parts: the process table, the per-slot pointers of `struct proc` that these
paths write (`ofile`, `cwd`, `swapFile`), `ftable`, the file system, and the paging state. The
running process's paging state is `kern.proc`; the child's is stored in `vm` when `fork`
succeeds. The bytes of a swap file are those of the paging model (`Proc.swapFile`); its inode,
its directory entry and its open file are the file system's and `ftable`'s.

The transaction around `createSwapFile` (`begin_op`, `end_op`) is left out as `Fs.Inode` leaves
it out, and so are the locks, the trap frame, the context and the name the child gets.

## Main definitions

* `File`, `filealloc`, `filedup`: `struct file` and the functions of `file.c` on `ftable`.
* `swapPath`, `createSwapFile`: the path of a swap file and the file's creation.
* `Sys`, `SysM`, `allocproc`, `fork`.

## Main results

* `fork_keeps_swap_file`: a `fork` whose kernel stack cannot be allocated returns `-1` and leaves
  the child's swap file behind, in the root directory and in `ftable`.
-/

namespace Xv6

open KM

/-- `NFILE`: entries of `ftable`. -/
def nFile : ℕ := 100

/-- `NOFILE`: open files of a process. -/
def noFile : ℕ := 16

instance : NeZero nFile := ⟨by decide⟩

/-- `O_WRONLY`. -/
def oWronly : UInt8 := 1

/-- `O_RDWR`. -/
def oRdwr : UInt8 := 2

/-- The `type` of `struct file`. -/
inductive FdType where
  | none
  | pipe
  | inode
  deriving DecidableEq, Repr

/-- `struct file`, without the pipe pointer, which no path here reads or writes. -/
structure File where
  type : FdType
  ref : Int32
  readable : UInt8
  writable : UInt8
  ip : Option (Fin nInode)
  off : UInt32
  deriving DecidableEq, Repr

/-- An entry of the zero-initialised `ftable`. -/
def File.zero : File := ⟨.none, 0, 0, 0, none, 0⟩

/-- How a path through the whole kernel stops: a fault of kernel code, a `panic` of the file
system among them, or an access outside a stack buffer (a store past `path[DIGITS]`, or a read
outside `itoa`'s table of digits). -/
inductive SysFault where
  | fault (f : Fault)
  | overrun
  deriving DecidableEq, Repr

/-- The kernel state `fork` reaches. -/
structure Sys where
  ptable : ProcTable.PTable
  /-- `p->ofile` of each slot. -/
  ofile : Fin nproc → Fin noFile → Option (Fin nFile)
  /-- `p->cwd` of each slot that holds a process. -/
  cwd : Fin nproc → Fin nInode
  /-- `p->swapFile`: the entry of `ftable` of the slot's swap file, or null. -/
  swapFile : Fin nproc → Option (Fin nFile)
  /-- `ftable.file`. -/
  ftable : Fin nFile → File
  fs : Fs.FsState
  /-- The running process's paging state, `kalloc`'s free list and physical memory. -/
  kern : Kernel
  /-- The paging state of the other slots, as `fork` gave it to each child. -/
  vm : Fin nproc → Option Proc

/-- Kernel code over `Sys`. -/
abbrev SysM := StateT Sys (Except SysFault)

namespace Sys

/-- A computation of the file system, on `fs`; its `panic` stops the kernel. -/
def liftFs {α : Type} (x : Fs.FsM α) : SysM α := fun s =>
  match x.run s.fs with
  | .ok (a, fs) => .ok (a, { s with fs })
  | .error msg => .error (.fault (.panic msg))

/-- A computation of the paging code, on `kern`. -/
def liftKm {α : Type} (x : KM α) : SysM α := fun s =>
  match x.run s.kern with
  | .ok (a, kern) => .ok (a, { s with kern })
  | .error f => .error (.fault f)

/-- Change the entry `f` of `ftable`. -/
def modifyFile (f : Fin nFile) (g : File → File) : SysM Unit :=
  modify fun s => { s with ftable := Function.update s.ftable f (g (s.ftable f)) }

/-- Change the slot `i` of `ptable`. -/
def modifySlot (i : Fin nproc) (g : ProcTable.PSlot → ProcTable.PSlot) : SysM Unit :=
  modify fun s => { s with
    ptable := { s.ptable with procs := Function.update s.ptable.procs i (g (s.ptable.procs i)) } }

/-! ## `file.c` -/

/-- The scan of `filealloc`: the first entry of `ftable` without references. -/
def firstFree (ft : Fin nFile → File) : Option (Fin nFile) :=
  (List.finRange nFile).find? fun f => (ft f).ref = 0

/-- `filealloc()`: the first entry without references, which gets one, or null. -/
def filealloc : SysM (Option (Fin nFile)) := do
  match firstFree (← get).ftable with
  | none => return none
  | some f =>
    modifyFile f fun x => { x with ref := 1 }
    return some f

/-- `filedup(f)`: one more reference to an entry that has one. -/
def filedup (f : Fin nFile) : SysM (Fin nFile) := do
  if ((← get).ftable f).ref < 1 then throw (.fault (.panic "filedup"))
  modifyFile f fun x => { x with ref := x.ref + 1 }
  return f

/-! ## The swap file -/

/-- `path` after the stores `stores`, made in order: the byte at each offset, `none` where no
store wrote. -/
def storeAll (stores : List (ℕ × UInt8)) : ℕ → Option UInt8 :=
  stores.foldl (fun buf st => Function.update buf st.1 (some st.2)) fun _ => none

/-- The string at offset `j` of `buf`: its bytes before the first NUL among the next `n`, or
`none` when it meets a byte no store wrote or no NUL comes in time. -/
def cString (buf : ℕ → Option UInt8) : ℕ → ℕ → Option (List UInt8)
  | 0, _ => none
  | n + 1, j =>
    match buf j with
    | none => none
    | some 0 => some []
    | some c => (cString buf n (j + 1)).map (c :: ·)

/-- The path `createSwapFile` passes to `create` for the pid `pid`: the string in `path` after
`memmove` and `itoa`, or `none` when building it accesses memory outside a buffer. -/
def swapPath (pid : Int32) : Option (List UInt8) := do
  let stores ← SwapPath.swapPathStores pid
  if stores.any fun st => SwapPath.digits ≤ st.1 then none
  cString (storeAll stores) SwapPath.digits 0

/-- `createSwapFile(p)` for the process in slot `i`, called by a process whose current directory
is `cwd`: create `/.swap<pid>`, and give the slot an entry of `ftable` open on it. -/
def createSwapFile (cwd : Fin nInode) (i : Fin nproc) : SysM Unit := do
  let some path := swapPath ((← get).ptable.procs i).pid | throw .overrun
  -- `iunlock` of the null inode `create` returns when it fails
  let some ip ← liftFs (Fs.create cwd path Fs.tFile 0 0) | throw (.fault (.panic "iunlock"))
  liftFs (Fs.iunlock ip)
  let some f ← filealloc | throw (.fault (.panic "no slot for files on /store"))
  modify fun s => { s with swapFile := Function.update s.swapFile i (some f) }
  modifyFile f fun x =>
    { x with ip := some ip, type := .inode, off := 0, readable := oWronly, writable := oRdwr }

/-! ## `proc.c` -/

/-- `allocproc()`, called by a process whose current directory is `cwd`: the slot it made an
`EMBRYO` and the kernel stack it allocated, or `none`. When the kernel stack cannot be allocated
the slot goes back to `UNUSED`, after `createSwapFile` has run. -/
def allocproc (sel : Selection) (cwd : Fin nInode) : SysM (Option (Fin nproc × UInt32)) := do
  let some (t, i) := ProcTable.allocproc (← get).ptable | return none
  modify fun s => { s with ptable := t }
  -- `#ifndef NONE`
  if sel ≠ .none ∧ 2 < (t.procs i).pid then createSwapFile cwd i
  let kstack ← liftKm kalloc
  if kstack = 0 then
    modifySlot i fun q => { q with state := .unused }
    return none
  return some (i, kstack)

/-- The loop of `fork` over the open files of `cur`: each one is duplicated into slot `np`. An
entry of `np` whose entry in `cur` is null is not written. -/
def dupFiles (cur np : Fin nproc) : List (Fin noFile) → SysM Unit
  | [] => pure ()
  | fd :: fds => do
    match (← get).ofile cur fd with
    | none => pure ()
    | some f =>
      let f ← filedup f
      modify fun s => { s with
        ofile := Function.update s.ofile np (Function.update (s.ofile np) fd (some f)) }
    dupFiles cur np fds

/-- `fork()` by the process in slot `cur`: the child's pid, or `-1`. -/
def fork (sel : Selection) (cur : Fin nproc) : SysM Int32 := do
  let some (i, kstack) ← allocproc sel ((← get).cwd cur) | return -1
  let p := (← get).kern.proc
  match ← liftKm (copyuvm p.pgdir p.totalSize) with
  | none =>
    liftKm (kfree kstack)
    modifySlot i fun q => { q with state := .unused }
    return -1
  | some pgdir =>
    modifySlot i fun q => { q with parent := some cur }
    dupFiles cur i (List.finRange noFile)
    let cwd ← liftFs (Fs.idup ((← get).cwd cur))
    modify fun s => { s with cwd := Function.update s.cwd i cwd }
    let pid := ((← get).ptable.procs i).pid
    -- the child has a swap file when `allocproc` created one
    let swapFile : Option SwapFile :=
      if sel ≠ .none ∧ 2 < pid then some ⟨fun _ => 0, 0⟩ else none
    let swapFile ← match p.swapFile with
      | none => pure swapFile
      | some f =>
        match copySwapFile f ((f.size / 1024).toNat + 1) swapFile 0 fun _ => 0 with
        | .ok d => pure d
        | .error e => throw (.fault e)
    let child : Proc := { p with pgdir, kstack, pid, swapFile, pageFaults := 0, totalPagedOut := 0 }
    modify fun s => { s with vm := Function.update s.vm i (some child) }
    modifySlot i fun q => { q with state := .runnable }
    return pid

/-! ## A fork without memory -/

/-- A disk of 16 blocks whose root directory is empty: inode `1` is the root, and the bitmap
marks the boot block, the superblock, the inode block and itself in use. -/
def tinyFs : Fs.FsState where
  disk := fun b =>
    if b = 2 then Fs.setDinodeAt Fs.zeroBlock 1 { Fs.DInode.zero with type := Fs.tDir, nlink := 1 }
    else if b = 3 then Mkfs.bitmapOf 4 else Fs.zeroBlock
  sb := ⟨16, 12, 8, 0, 0, 2, 3⟩
  icache := fun _ => Fs.Inode.zero

/-- `initproc` in slot `0` with `nextpid = 3`, no open files, an empty root, and no free frame. -/
def tiny : Sys where
  ptable := ProcTable.canon 3
  ofile := fun _ _ => none
  cwd := fun _ => 0
  swapFile := fun _ => none
  ftable := fun _ => File.zero
  fs := tinyFs
  kern := Xv6.boot 0
  vm := fun _ => none

/-- `fork` by `initproc` when no frame is free: `allocproc` gives the child the pid `3` and
creates `/.swap3` before its kernel stack cannot be allocated, and `fork` returns `-1` with the
slot `UNUSED` again. The swap file stays: the first entry of `ftable`, free before, is open on
it, and `namei` finds `/.swap3`, which it did not find before. -/
theorem fork_keeps_swap_file :
    ((fork .scfifo 0).run tiny).map (fun r => (r.1, (r.2.ptable.procs 1).state, r.2.ftable 0,
        (Fs.namei 0 (SwapPath.swapPrefix ++ [51])).run' r.2.fs)) =
      .ok (-1, .unused, ⟨.inode, 1, oWronly, oRdwr, some 1, 0⟩, .ok (some 1)) ∧
    tiny.ftable 0 = File.zero ∧
    (Fs.namei 0 (SwapPath.swapPrefix ++ [51])).run' tiny.fs = .ok none := by
  refine ⟨?_, rfl, ?_⟩
  · decide +kernel
  · decide +kernel

/-! ## The process table under `fork` -/

section Peel

variable {β : Type} {s s' : Sys} {b : β}

/-- A successful run that starts by reading the state goes on from the same state. -/
theorem run_get_bind_eq_ok {f : Sys → SysM β} (h : (get >>= f).run s = .ok (b, s')) :
    (f s).run s = .ok (b, s') := h

/-- A successful run that starts with `modify g` goes on from `g s`. -/
theorem run_modify_bind_eq_ok {g : Sys → Sys} {f : Unit → SysM β}
    (h : (modify g >>= f).run s = .ok (b, s')) : (f ()).run (g s) = .ok (b, s') := h

/-- A successful run that starts with `pure a` goes on with `a`. -/
theorem run_pure_bind_eq_ok {α : Type} {a : α} {f : α → SysM β}
    (h : (pure a >>= f).run s = .ok (b, s')) : (f a).run s = .ok (b, s') := h

end Peel

/-- A computation that leaves the process table as it is. -/
def KeepsTable {α : Type} (x : SysM α) : Prop :=
  ∀ s a s', x.run s = .ok (a, s') → s'.ptable = s.ptable

section KeepsTable

variable {α β : Type}

theorem KeepsTable.bind {x : SysM α} {f : α → SysM β} (hx : KeepsTable x)
    (hf : ∀ a, KeepsTable (f a)) : KeepsTable (x >>= f) := by
  intro s b s'' h
  obtain ⟨a, s', h₁, h₂⟩ := StateExcept.run_bind_eq_ok h
  rw [hf a s' b s'' h₂, hx s a s' h₁]

theorem keepsTable_pure (a : α) : KeepsTable (pure a : SysM α) := by
  intro s b s' h
  cases h
  rfl

theorem keepsTable_throw (e : SysFault) : KeepsTable (throw e : SysM α) := by
  intro s b s' h
  cases h

theorem keepsTable_get : KeepsTable (get : SysM Sys) := by
  intro s b s' h
  cases h
  rfl

theorem keepsTable_liftFs (x : Fs.FsM α) : KeepsTable (liftFs x) := by
  intro s a s' h
  unfold liftFs at h
  dsimp only [StateT.run] at h
  split at h
  · cases h
    rfl
  · cases h

theorem keepsTable_liftKm (x : KM α) : KeepsTable (liftKm x) := by
  intro s a s' h
  unfold liftKm at h
  dsimp only [StateT.run] at h
  split at h
  · cases h
    rfl
  · cases h

theorem keepsTable_modifyFile (f : Fin nFile) (g : File → File) : KeepsTable (modifyFile f g) := by
  intro s a s' h
  cases h
  rfl

theorem keepsTable_filealloc : KeepsTable filealloc := by
  refine KeepsTable.bind keepsTable_get fun s => ?_
  split
  · exact keepsTable_pure _
  · exact KeepsTable.bind (keepsTable_modifyFile _ _) fun _ => keepsTable_pure _

theorem keepsTable_modify {g : Sys → Sys} (hg : ∀ s, (g s).ptable = s.ptable) :
    KeepsTable (modify g : SysM Unit) := by
  intro s a s' h
  cases h
  exact hg s

theorem keepsTable_filedup (f : Fin nFile) : KeepsTable (filedup f) := by
  have hrest : KeepsTable (modifyFile f (fun x => { x with ref := x.ref + 1 }) >>= fun _ => pure f) :=
    KeepsTable.bind (keepsTable_modifyFile _ _) fun _ => keepsTable_pure _
  refine KeepsTable.bind keepsTable_get fun s => ?_
  dsimp only
  split
  · exact KeepsTable.bind (keepsTable_throw _) fun _ => hrest
  · exact hrest

theorem keepsTable_createSwapFile (cwd : Fin nInode) (i : Fin nproc) :
    KeepsTable (createSwapFile cwd i) := by
  refine KeepsTable.bind keepsTable_get fun s => ?_
  split
  · refine KeepsTable.bind (keepsTable_liftFs _) fun o => ?_
    split
    · refine KeepsTable.bind (keepsTable_liftFs _) fun _ =>
        KeepsTable.bind keepsTable_filealloc fun o' => ?_
      split
      · exact KeepsTable.bind (keepsTable_modify fun _ => rfl) fun _ => keepsTable_modifyFile _ _
      · exact keepsTable_throw _
    · exact keepsTable_throw _
  · exact keepsTable_throw _

theorem keepsTable_dupFiles (cur np : Fin nproc) :
    ∀ fds, KeepsTable (dupFiles cur np fds)
  | [] => keepsTable_pure _
  | fd :: fds => by
    rw [dupFiles]
    refine KeepsTable.bind keepsTable_get fun s => ?_
    dsimp only
    split
    · exact keepsTable_dupFiles cur np fds
    · exact KeepsTable.bind (keepsTable_filedup _) fun _ =>
        KeepsTable.bind (keepsTable_modify fun _ => rfl) fun _ => keepsTable_dupFiles cur np fds

end KeepsTable

/-- What `allocproc` does to the process table: nothing when no slot is `UNUSED`; otherwise it
takes the slot `ProcTable.allocproc` takes, and gives it back `UNUSED` when the kernel stack
cannot be allocated. -/
theorem allocproc_table {sel : Selection} {cwd : Fin nInode} {s s' : Sys}
    {o : Option (Fin nproc × UInt32)} (h : (allocproc sel cwd).run s = .ok (o, s')) :
    (ProcTable.allocproc s.ptable = none ∧ o = none ∧ s'.ptable = s.ptable) ∨
      ∃ t i, ProcTable.allocproc s.ptable = some (t, i) ∧
        ((o = none ∧ s'.ptable =
            { t with procs := Function.update t.procs i { t.procs i with state := .unused } }) ∨
          ∃ k, o = some (i, k) ∧ s'.ptable = t) := by
  unfold allocproc at h
  replace h := run_get_bind_eq_ok h
  dsimp only at h
  split at h
  · rename_i t i halloc
    replace h := run_modify_bind_eq_ok h
    -- `createSwapFile` runs or not; either way the table is `t` before the kernel stack
    have hswap : ∃ s₃ : Sys, s₃.ptable = t ∧ (liftKm kalloc >>= fun kstack =>
        if kstack = 0 then
          (modifySlot i fun q => { q with state := .unused }) >>= fun _ => pure none
        else pure (some (i, kstack))).run s₃ = .ok (o, s') := by
      split at h
      · obtain ⟨_, s₃, hc, h⟩ := StateExcept.run_bind_eq_ok h
        exact ⟨s₃, keepsTable_createSwapFile cwd i _ _ _ hc, h⟩
      · exact ⟨_, rfl, h⟩
    obtain ⟨s₃, ht, h⟩ := hswap
    obtain ⟨k, s₄, hk, h⟩ := StateExcept.run_bind_eq_ok h
    have ht₄ : s₄.ptable = t := (keepsTable_liftKm _ _ _ _ hk).trans ht
    refine .inr ⟨t, i, halloc, ?_⟩
    split at h
    · cases run_modify_bind_eq_ok h
      exact .inl ⟨rfl, by simp only [ht₄]⟩
    · cases h
      exact .inr ⟨k, rfl, ht₄⟩
  · rename_i hnone
    cases h
    refine .inl ⟨?_, rfl, rfl⟩
    cases ha : ProcTable.allocproc s.ptable with
    | none => rfl
    | some p => exact absurd ha (hnone p.1 p.2)

/-- The process table under `fork` is the table model's `fork`: the system's `fork` refines
`ProcTable.fork`, whose argument says whether the kernel stack and the copy of the address
space could be allocated. -/
theorem fork_table {sel : Selection} {cur : Fin nproc} {s s' : Sys} {r : Int32}
    (h : (fork sel cur).run s = .ok (r, s')) :
    ∃ fits, (s'.ptable, r) = ProcTable.fork s.ptable cur fits := by
  unfold fork at h
  replace h := run_get_bind_eq_ok h
  obtain ⟨o, s₁, ha, h⟩ := StateExcept.run_bind_eq_ok h
  rcases allocproc_table ha with ⟨hnone, rfl, ht⟩ | ⟨t, i, halloc, ⟨rfl, ht⟩ | ⟨k, rfl, ht⟩⟩
  · -- no slot is `UNUSED`
    cases h
    exact ⟨true, by simp [ProcTable.fork, hnone, ht]⟩
  · -- no kernel stack
    cases h
    exact ⟨false, by simp [ProcTable.fork, halloc, ht]⟩
  · -- a slot and a kernel stack: `fork` copies the address space, which leaves the table as is
    dsimp only at h
    replace h := run_get_bind_eq_ok h
    obtain ⟨c, s₂, hc, h⟩ := StateExcept.run_bind_eq_ok h
    have ht₂ : s₂.ptable = t := (keepsTable_liftKm _ _ _ _ hc).trans ht
    split at h
    · -- the copy of the address space failed: the kernel stack is freed, the slot `UNUSED`
      obtain ⟨_, s₃, hf, h⟩ := StateExcept.run_bind_eq_ok h
      have ht₃ : s₃.ptable = t := (keepsTable_liftKm _ _ _ _ hf).trans ht₂
      cases run_modify_bind_eq_ok h
      exact ⟨false, by simp [ProcTable.fork, halloc, ht₃]⟩
    · -- the child gets its parent, then files and directory, and becomes runnable
      obtain ⟨_, s₄, hd, h⟩ := StateExcept.run_bind_eq_ok (run_modify_bind_eq_ok h)
      have ht₄ := keepsTable_dupFiles cur i _ _ _ _ hd
      obtain ⟨_, s₅, hi, h⟩ := StateExcept.run_bind_eq_ok (run_get_bind_eq_ok h)
      have ht₅ := keepsTable_liftFs _ _ _ _ hi
      replace h := run_get_bind_eq_ok (run_modify_bind_eq_ok h)
      -- the swap-file copy either gives the child its swap file or stops with a fault
      split at h
      on_goal 2 =>
        split at h
        on_goal 2 =>
          obtain ⟨_, _, he, _⟩ := StateExcept.run_bind_eq_ok h
          cases he
      all_goals
        cases run_modify_bind_eq_ok (run_modify_bind_eq_ok (run_pure_bind_eq_ok h))
        exact ⟨true, by simp [ProcTable.fork, halloc, ht₅, ht₄, ht₂]⟩

/-- At `tiny` the refinement is the `fork` whose kernel stack cannot be allocated. -/
theorem fork_table_tiny : ∃ r s', (fork .scfifo 0).run tiny = .ok (r, s') ∧
    ∃ fits, (s'.ptable, r) = ProcTable.fork tiny.ptable 0 fits := by
  have hok : ((fork .scfifo 0).run tiny).isOk = true := by decide +kernel
  match hrun : (fork .scfifo 0).run tiny, hok with
  | .ok (r, s'), _ => exact ⟨r, s', rfl, fork_table hrun⟩

end Sys

end Xv6
