import Xv6.Lib.Ring
import Xv6.Lib.Trace

/-!
# Pipes (`pipe.c`)

A pipe is a ring of `PIPESIZE` bytes with two free-running unsigned counters: `nwrite` counts
the bytes `pipewrite` has stored and `nread` those `piperead` has taken. `pipewrite` stores its
bytes one by one and sleeps while the pipe is full; `piperead` sleeps while the pipe is empty
and its write end open, then copies what is there, up to `n` bytes.

All of a call between acquiring the pipe's lock and sleeping or returning runs under the lock,
so the system takes one such run at a time (`pipeStep`). A sleeping process keeps its place
in its loop and resumes at a `wake` step; a wakeup may come at any time, which covers every
order in which `wakeup` and `kill` can make a sleeper runnable. Beside the kernel's state, the
system records the bytes stored and returned so far and what each `pipewrite` returned.

## Main definitions

* `Pipe`, `pipewriteLoop`, `piperead`, `pipeclose`: `struct pipe` and the functions of
  `pipe.c`.
* `pipeStep`, `pipeBoot`: any number of processes calling `pipewrite` and `piperead` on one
  pipe after `pipealloc`; `sysPipeStep` makes the calls as `sys_write` and `sys_read` do.

## Main results

* `pipewriteLoop_fifo`, `pipereadCopy_fifo`: each loop keeps the counters at most `PIPESIZE`
  apart, and keeps the bytes returned followed by the bytes in the pipe equal to the bytes
  stored (`Fifo`).
* `PipeInv.reachable`: so does every interleaving of the calls, and a `pipewrite` of `n ≥ 0`
  bytes that returns `n` has stored them all.
* `pipe_fifo_safe`: for the calls the system calls make, all of the above, and a `pipewrite`
  returns `n` only after storing `n` bytes and `-1` only when the read end is closed or the
  writer killed.
-/

namespace Xv6.Ipc

/-- `PIPESIZE`. -/
def pipeSize : ℕ := 512

/-- `struct pipe`, without its lock. -/
structure Pipe where
  data : ℕ → UInt8
  /-- `nread`: the number of bytes read. -/
  nread : UInt32
  /-- `nwrite`: the number of bytes written. -/
  nwrite : UInt32
  readopen : Bool
  writeopen : Bool

/-- The pipe `pipealloc` sets up in a page from `kalloc`, whose bytes `data` it leaves as
they are. -/
def pipealloc (data : ℕ → UInt8) : Pipe := ⟨data, 0, 0, true, true⟩

/-- `p->data[p->nwrite++ % PIPESIZE] = b`. -/
def Pipe.put (p : Pipe) (b : UInt8) : Pipe :=
  { p with data := Function.update p.data (p.nwrite.toNat % pipeSize) b, nwrite := p.nwrite + 1 }

/-- How a run of a call under the lock ends: asleep on the pipe, or returning `r`. -/
inductive Stop where
  | sleeps
  | returns (r : Int32)
  deriving DecidableEq, Repr

/-- The loop of `pipewrite(p, addr, n)` from byte `i` until the writer sleeps on a full pipe or
returns; the result is the pipe, the byte reached and how the run ended. The loop stores at
most `n - i` bytes, and the system passes more fuel than that, so the fuel never runs out. -/
def pipewriteLoop (addr : ℕ → UInt8) (n : Int32) (killed : Bool) :
    ℕ → Int32 → Pipe → Pipe × Int32 × Stop
  | 0, i, p => (p, i, .sleeps)
  | fuel + 1, i, p =>
    if i < n then
      if p.nwrite = p.nread + 512 then
        if !p.readopen || killed then (p, i, .returns (-1)) else (p, i, .sleeps)
      else pipewriteLoop addr n killed fuel (i + 1) (p.put (addr i.toInt.toNat))
    else (p, i, .returns n)

/-- The copy loop of `piperead(p, addr, n)` from byte `i`: it stops after `n` bytes or on an
empty pipe, and gives the pipe, the count and the bytes copied to `addr`. -/
def pipereadCopy (n : Int32) : ℕ → Int32 → Pipe → Pipe × Int32 × List UInt8
  | 0, i, p => (p, i, [])
  | fuel + 1, i, p =>
    if i < n then
      if p.nread = p.nwrite then (p, i, [])
      else
        let b := p.data (p.nread.toNat % pipeSize)
        let (p', i', out) := pipereadCopy n fuel (i + 1) { p with nread := p.nread + 1 }
        (p', i', b :: out)
    else (p, i, [])

/-- `piperead(p, addr, n)`: `none` while the reader sleeps on an empty pipe whose write end is
open, else the pipe, the return value and the bytes copied to `addr`. -/
def piperead (killed : Bool) (n : Int32) (p : Pipe) : Option (Pipe × Int32 × List UInt8) :=
  if p.nread = p.nwrite && p.writeopen then
    if killed then some (p, -1, []) else none
  else some (pipereadCopy n n.toInt.toNat 0 p)

/-- `pipeclose(p, writable)`. Freeing the pipe once both ends are closed is not modelled:
no file refers to it then. -/
def pipeclose (p : Pipe) (writable : Bool) : Pipe :=
  if writable then { p with writeopen := false } else { p with readopen := false }

/-! ## Processes calling into one pipe -/

/-- Where a process is: outside the pipe, or asleep in `pipewrite` at byte `i` of `addr`, or
asleep in `piperead`. -/
inductive Task where
  | idle
  | writing (addr : ℕ → UInt8) (n i : Int32)
  | reading (n : Int32)

/-- A return of `pipewrite(p, addr, n)`: the value `r`, the bytes stored (the loop's `i`), and
whether the read end was open and the writer killed when it returned. -/
structure WriteReturn where
  n : Int32
  r : Int32
  stored : Int32
  readopen : Bool
  killed : Bool
  deriving DecidableEq, Repr

/-- The pipe, the processes, and what the calls did so far. -/
structure PipeSys where
  pipe : Pipe
  task : ℕ → Task
  /-- `p->killed` of each process. -/
  killed : ℕ → Bool
  /-- Every byte `pipewrite` stored, in store order. -/
  stored : List UInt8
  /-- Every byte `piperead` returned, in order. -/
  returned : List UInt8
  /-- Every return of `pipewrite`, in order. -/
  writes : List WriteReturn

/-- The bytes `addr[i], …, addr[i' - 1]`. -/
def slice (addr : ℕ → UInt8) (i i' : Int32) : List UInt8 :=
  (List.range (i'.toInt - i.toInt).toNat).map fun j => addr (i.toInt.toNat + j)

/-- Process `q` runs `pipewrite(p, addr, n)` from byte `i` to its next sleep or its return. -/
def PipeSys.runWrite (s : PipeSys) (q : ℕ) (addr : ℕ → UInt8) (n i : Int32) : PipeSys :=
  match pipewriteLoop addr n (s.killed q) ((n.toInt - i.toInt).toNat + 1) i s.pipe with
  | (pipe, i', .sleeps) =>
    { s with pipe, stored := s.stored ++ slice addr i i',
             task := Function.update s.task q (.writing addr n i') }
  | (pipe, i', .returns r) =>
    { s with pipe, stored := s.stored ++ slice addr i i', task := Function.update s.task q .idle,
             writes := s.writes ++ [⟨n, r, i', pipe.readopen, s.killed q⟩] }

/-- Process `q` runs `piperead(p, addr, n)` to its sleep or its return. -/
def PipeSys.runRead (s : PipeSys) (q : ℕ) (n : Int32) : PipeSys :=
  match piperead (s.killed q) n s.pipe with
  | none => { s with task := Function.update s.task q (.reading n) }
  | some (pipe, _, out) =>
    { s with pipe, returned := s.returned ++ out, task := Function.update s.task q .idle }

/-- One step of the system. -/
inductive PipeEvent where
  /-- Process `q` calls `pipewrite(p, addr, n)`. -/
  | write (q : ℕ) (addr : ℕ → UInt8) (n : Int32)
  /-- Process `q` calls `piperead(p, addr, n)`. -/
  | read (q : ℕ) (n : Int32)
  /-- Process `q`, asleep on the pipe, runs again. -/
  | wake (q : ℕ)
  /-- The last file of one end is closed. -/
  | close (writable : Bool)
  /-- `kill` sets `killed` of process `q`. -/
  | kill (q : ℕ)

/-- One step, or `none` when it is not enabled: a call by a process that is asleep in one, or a
wakeup of a process that is not asleep. -/
def pipeStep (s : PipeSys) : PipeEvent → Option PipeSys
  | .write q addr n =>
    match s.task q with
    | .idle => some (s.runWrite q addr n 0)
    | _ => none
  | .read q n =>
    match s.task q with
    | .idle => some (s.runRead q n)
    | _ => none
  | .wake q =>
    match s.task q with
    | .idle => none
    | .writing addr n i => some (s.runWrite q addr n i)
    | .reading n => some (s.runRead q n)
  | .close writable => some { s with pipe := pipeclose s.pipe writable }
  | .kill q => some { s with killed := Function.update s.killed q true }

/-- The system after `pipealloc`, with no process in a call and none killed. -/
def pipeBoot (data : ℕ → UInt8) : PipeSys :=
  ⟨pipealloc data, fun _ => .idle, fun _ => false, [], [], []⟩

/-- The size check of `argptr`, which `sys_write` and `sys_read` make before `filewrite` and
`fileread` reach the pipe. -/
def PipeEvent.sizeOk : PipeEvent → Bool
  | .write _ _ n | .read _ n => 0 ≤ n
  | _ => true

/-- The steps of the calls the system calls make. -/
def sysPipeStep (s : PipeSys) (e : PipeEvent) : Option PipeSys :=
  if e.sizeOk then pipeStep s e else none

/-! ## Loop indices and the bytes between them -/

/-- A loop index below some `n` is incremented without overflow. -/
theorem toInt_succ_of_lt {i n : Int32} (h : i < n) : (i + 1).toInt = i.toInt + 1 := by
  have hlt := Int32.lt_iff_toInt_lt.mp h
  have hmax := Int32.toInt_lt n
  have hmin := Int32.le_toInt i
  rw [Int32.toInt_add, show (1 : Int32).toInt = 1 from rfl, Int.bmod_eq_of_le] <;> omega

@[simp]
theorem slice_self (addr : ℕ → UInt8) (i : Int32) : slice addr i i = [] := by
  simp [slice]

/-- A non-empty slice starts with the byte at its first index. -/
theorem slice_cons (addr : ℕ → UInt8) {i i' : Int32} (h0 : 0 ≤ i.toInt)
    (hsucc : (i + 1).toInt = i.toInt + 1) (h : i.toInt < i'.toInt) :
    slice addr i i' = addr i.toInt.toNat :: slice addr (i + 1) i' := by
  unfold slice
  rw [show (i'.toInt - i.toInt).toNat = (i'.toInt - (i + 1).toInt).toNat + 1 by omega,
    List.range_succ_eq_map, List.map_cons, List.map_map]
  refine List.cons_eq_cons.mpr ⟨by simp, List.map_congr_left fun j _ => ?_⟩
  simp only [Function.comp_apply]
  congr 1
  omega

/-! ## The bytes in the pipe -/

theorem pipeSize_dvd : pipeSize ∣ 2 ^ 32 := ⟨2 ^ 23, rfl⟩

/-- The pipe holds at most `PIPESIZE` bytes, and the bytes returned followed by the bytes in the
pipe, oldest first, are the bytes stored. -/
structure Fifo (returned : List UInt8) (p : Pipe) (stored : List UInt8) : Prop where
  bound : (p.nwrite - p.nread).toNat ≤ pipeSize
  conserve : returned ++ Ring.view p.data pipeSize p.nread p.nwrite = stored

variable {returned stored : List UInt8} {p p' : Pipe}

/-- A store into a pipe that is not full appends its byte. -/
theorem Fifo.put (h : Fifo returned p stored) (hfull : p.nwrite ≠ p.nread + 512) (b : UInt8) :
    Fifo returned (p.put b) (stored ++ [b]) := by
  -- not full: the counters are fewer than `PIPESIZE` apart
  have hlt : (p.nwrite - p.nread).toNat < pipeSize := by
    have hne : p.nwrite - p.nread ≠ 512 := fun heq => hfull (by rw [← heq, add_sub_cancel])
    have hne' : (p.nwrite - p.nread).toNat ≠ 512 := fun heq =>
      hne (UInt32.toNat_inj.mp (by rw [heq]; rfl))
    have hb := h.bound
    unfold pipeSize at hb ⊢
    omega
  constructor
  · show (p.nwrite + 1 - p.nread).toNat ≤ pipeSize
    rw [Ring.toNat_add_one_sub (by unfold pipeSize at hlt; omega)]
    exact hlt
  · show returned ++ Ring.view (Function.update p.data (p.nwrite.toNat % pipeSize) b) pipeSize
      p.nread (p.nwrite + 1) = stored ++ [b]
    rw [Ring.view_push pipeSize_dvd (by decide) hlt, ← List.append_assoc, h.conserve]

/-- Taking the oldest byte of a non-empty pipe moves it to the bytes returned. -/
theorem Fifo.get (h : Fifo returned p stored) (hne : p.nread ≠ p.nwrite) :
    Fifo (returned ++ [p.data (p.nread.toNat % pipeSize)]) { p with nread := p.nread + 1 }
      stored := by
  constructor
  · show (p.nwrite - (p.nread + 1)).toNat ≤ pipeSize
    have hsucc := Ring.toNat_sub_succ hne
    have hb := h.bound
    omega
  · show returned ++ [_] ++ Ring.view p.data pipeSize (p.nread + 1) p.nwrite = stored
    rw [List.append_assoc, List.singleton_append, ← Ring.view_pop pipeSize_dvd hne, h.conserve]

theorem Fifo.close (h : Fifo returned p stored) (writable : Bool) :
    Fifo returned (pipeclose p writable) stored := by
  unfold pipeclose
  split
  · exact ⟨h.bound, h.conserve⟩
  · exact ⟨h.bound, h.conserve⟩

/-! ## The loops of `pipewrite` and `piperead` -/

section Loops

variable {addr : ℕ → UInt8} {n i i' : Int32} {killed : Bool} {fuel : ℕ} {stop : Stop}

/-- The write loop's index only grows, and stays at most `n` once it is. -/
theorem pipewriteLoop_index (h : pipewriteLoop addr n killed fuel i p = (p', i', stop)) :
    i.toInt ≤ i'.toInt ∧ (i.toInt ≤ n.toInt → i'.toInt ≤ n.toInt) := by
  induction fuel generalizing i p with
  | zero =>
    cases h
    exact ⟨le_rfl, id⟩
  | succ fuel ih =>
    simp only [pipewriteLoop] at h
    split_ifs at h with hlt hfull hstop
    · cases h
      exact ⟨le_rfl, id⟩
    · cases h
      exact ⟨le_rfl, id⟩
    · -- one byte stored: the index moves to `i + 1 ≤ n`
      have hsucc := toInt_succ_of_lt hlt
      have hlt' := Int32.lt_iff_toInt_lt.mp hlt
      have hrest := ih h
      exact ⟨by omega, fun _ => hrest.2 (by omega)⟩
    · cases h
      exact ⟨le_rfl, id⟩

/-- The write loop sleeps only before storing byte `i < n`. -/
theorem pipewriteLoop_sleeps (h : pipewriteLoop addr n killed (fuel + 1) i p = (p', i', .sleeps)) :
    i.toInt < n.toInt := by
  by_contra hge
  simp only [pipewriteLoop] at h
  rw [if_neg (by rwa [Int32.lt_iff_toInt_lt])] at h
  simp at h

/-- The write loop returns `n` once its index reaches `n`, and `-1` only with the read end
closed or the writer killed. -/
theorem pipewriteLoop_returns {r : Int32}
    (h : pipewriteLoop addr n killed fuel i p = (p', i', .returns r)) :
    (r = n ∧ n.toInt ≤ i'.toInt) ∨ (r = -1 ∧ (p'.readopen = false ∨ killed = true)) := by
  induction fuel generalizing i p with
  | zero => simp [pipewriteLoop] at h
  | succ fuel ih =>
    simp only [pipewriteLoop] at h
    split_ifs at h with hlt hfull hstop
    · cases h
      exact .inr ⟨rfl, by simpa using hstop⟩
    · simp at h
    · exact ih h
    · cases h
      exact .inl ⟨rfl, by simpa [Int32.lt_iff_toInt_lt] using hlt⟩

/-- The write loop appends the bytes it stores, `addr[i], …, addr[i' - 1]`. -/
theorem pipewriteLoop_fifo (h : pipewriteLoop addr n killed fuel i p = (p', i', stop))
    (hf : Fifo returned p stored) (h0 : 0 ≤ i.toInt) :
    Fifo returned p' (stored ++ slice addr i i') := by
  induction fuel generalizing i p stored with
  | zero =>
    cases h
    simpa using hf
  | succ fuel ih =>
    simp only [pipewriteLoop] at h
    split_ifs at h with hlt hfull hstop
    · cases h
      simpa using hf
    · cases h
      simpa using hf
    · -- byte `i` stored, then the rest of the loop from `i + 1`
      have hsucc := toInt_succ_of_lt hlt
      have hi' := (pipewriteLoop_index h).1
      rw [slice_cons addr h0 hsucc (by omega), ← List.singleton_append, ← List.append_assoc]
      exact ih h (hf.put hfull _) (by omega)
    · cases h
      simpa using hf

/-- The copy loop moves the bytes it copies from the pipe to the bytes returned. -/
theorem pipereadCopy_fifo {out : List UInt8} (h : pipereadCopy n fuel i p = (p', i', out))
    (hf : Fifo returned p stored) : Fifo (returned ++ out) p' stored := by
  induction fuel generalizing i p returned out with
  | zero =>
    cases h
    simpa using hf
  | succ fuel ih =>
    simp only [pipereadCopy] at h
    split_ifs at h with hlt hempty
    · cases h
      simpa using hf
    · -- the oldest byte copied, then the rest of the loop
      rcases hrest : pipereadCopy n fuel (i + 1) { p with nread := p.nread + 1 } with
        ⟨p₁, i₁, out₁⟩
      rw [hrest] at h
      cases h
      simpa using ih hrest (hf.get hempty)
    · cases h
      simpa using hf

theorem piperead_fifo {r : Int32} {out : List UInt8} (h : piperead killed n p = some (p', r, out))
    (hf : Fifo returned p stored) : Fifo (returned ++ out) p' stored := by
  unfold piperead at h
  split_ifs at h with hempty hkilled
  · cases h
    simpa using hf
  · exact pipereadCopy_fifo (Option.some.inj h) hf

end Loops

/-! ## Every interleaving -/

/-- Every process asleep in `pipewrite` is at a byte between `0` and its `n`. -/
def WritersOk (task : ℕ → Task) : Prop :=
  ∀ q addr n i, task q = .writing addr n i → 0 ≤ i.toInt ∧ i.toInt ≤ n.toInt

theorem WritersOk.update {task : ℕ → Task} {t : Task} (h : WritersOk task)
    (ht : ∀ addr n i, t = .writing addr n i → 0 ≤ i.toInt ∧ i.toInt ≤ n.toInt) (q : ℕ) :
    WritersOk (Function.update task q t) := by
  intro q' addr n i hq'
  rw [Function.update_apply] at hq'
  split_ifs at hq'
  · exact ht addr n i hq'
  · exact h q' addr n i hq'

/-- A return of `pipewrite` is `n`, with all `n` bytes stored when `n` is not negative, or `-1`
with the read end closed or the writer killed. -/
def WriteReturn.Ok (w : WriteReturn) : Prop :=
  (w.r = w.n ∧ (0 ≤ w.n.toInt → w.stored = w.n)) ∨ (w.r = -1 ∧ (w.readopen = false ∨ w.killed))

/-- What holds in every state the calls reach. -/
structure PipeInv (s : PipeSys) : Prop where
  fifo : Fifo s.returned s.pipe s.stored
  writers : WritersOk s.task
  writes : ∀ w ∈ s.writes, w.Ok

variable {s s' : PipeSys} {e : PipeEvent}

/-- A run of `pipewrite` from a byte `i ≥ 0`, not past `n` unless `n` is negative. -/
theorem runWrite_inv (hs : PipeInv s) (q : ℕ) (addr : ℕ → UInt8) {n i : Int32}
    (h0 : 0 ≤ i.toInt) (hin : 0 ≤ n.toInt → i.toInt ≤ n.toInt) :
    PipeInv (s.runWrite q addr n i) := by
  unfold PipeSys.runWrite
  rcases hl : pipewriteLoop addr n (s.killed q) ((n.toInt - i.toInt).toNat + 1) i s.pipe with
    ⟨p', i', stop⟩
  have hfifo := pipewriteLoop_fifo hl hs.fifo h0
  have hidx := pipewriteLoop_index hl
  cases stop with
  | sleeps =>
    -- asleep on a full pipe before byte `i' < n`
    have hlt := pipewriteLoop_sleeps hl
    refine ⟨hfifo, hs.writers.update (fun _ _ _ ht => ?_) q, hs.writes⟩
    cases ht
    have := hidx.2 (by omega)
    omega
  | returns r =>
    refine ⟨hfifo, hs.writers.update (fun _ _ _ ht => by cases ht) q, fun w hw => ?_⟩
    rcases List.mem_append.mp hw with hw | hw
    · exact hs.writes w hw
    · rw [List.mem_singleton] at hw
      subst hw
      rcases pipewriteLoop_returns hl with ⟨rfl, hge⟩ | ⟨rfl, hclosed⟩
      · -- returned `n` at `i' ≥ n`, and `i'` never passes a non-negative `n`
        exact .inl ⟨rfl, fun hn => Int32.toInt_inj.mp (le_antisymm (hidx.2 (hin hn)) hge)⟩
      · exact .inr ⟨rfl, by simpa using hclosed⟩

theorem runRead_inv (hs : PipeInv s) (q : ℕ) (n : Int32) : PipeInv (s.runRead q n) := by
  unfold PipeSys.runRead
  rcases hr : piperead (s.killed q) n s.pipe with _ | ⟨p', r, out⟩
  · exact ⟨hs.fifo, hs.writers.update (fun _ _ _ ht => by cases ht) q, hs.writes⟩
  · exact ⟨piperead_fifo hr hs.fifo, hs.writers.update (fun _ _ _ ht => by cases ht) q, hs.writes⟩

theorem pipeStep_inv (hs : PipeInv s) (h : pipeStep s e = some s') : PipeInv s' := by
  cases e with
  | write q addr n =>
    simp only [pipeStep] at h
    split at h
    · cases h
      exact runWrite_inv hs q addr le_rfl fun hn => hn
    · cases h
  | read q n =>
    simp only [pipeStep] at h
    split at h
    · cases h
      exact runRead_inv hs q n
    · cases h
  | wake q =>
    simp only [pipeStep] at h
    split at h
    · cases h
    · -- a writer resumes where it slept
      rename_i addr n i htask
      cases h
      have hw := hs.writers q addr n i htask
      exact runWrite_inv hs q addr hw.1 fun _ => hw.2
    · cases h
      exact runRead_inv hs q _
  | close writable =>
    cases h
    exact ⟨hs.fifo.close writable, hs.writers, hs.writes⟩
  | kill q =>
    cases h
    exact ⟨hs.fifo, hs.writers, hs.writes⟩

theorem pipeBoot_inv (data : ℕ → UInt8) : PipeInv (pipeBoot data) where
  fifo := ⟨by simp [pipeBoot, pipealloc, pipeSize], by simp [pipeBoot, pipealloc]⟩
  writers := fun _ _ _ _ ht => by cases ht
  writes := fun _ hw => by cases hw

theorem PipeInv.reachable {data : ℕ → UInt8} (hs : Trace.Reachable pipeStep (pipeBoot data) s) :
    PipeInv s :=
  Trace.Reachable.induction_of_step (pipeBoot_inv data) (fun _ _ _ hs h => pipeStep_inv hs h) hs

/-! ## The calls of `sys_write` and `sys_read` -/

theorem sysPipeStep_pipeStep (h : sysPipeStep s e = some s') : pipeStep s e = some s' := by
  unfold sysPipeStep at h
  split_ifs at h
  exact h

/-- Every `pipewrite` the system calls make has a non-negative size. -/
def SizesOk (s : PipeSys) : Prop := ∀ w ∈ s.writes, 0 ≤ w.n.toInt

theorem runWrite_sizesOk (hs : SizesOk s) (q : ℕ) (addr : ℕ → UInt8) {n i : Int32}
    (hn : 0 ≤ n.toInt) : SizesOk (s.runWrite q addr n i) := by
  unfold PipeSys.runWrite
  split
  · exact hs
  · intro w hw
    rcases List.mem_append.mp hw with hw | hw
    · exact hs w hw
    · rw [List.mem_singleton] at hw
      subst hw
      exact hn

theorem runRead_sizesOk (hs : SizesOk s) (q : ℕ) (n : Int32) : SizesOk (s.runRead q n) := by
  unfold PipeSys.runRead
  split
  · exact hs
  · exact hs

theorem sysPipeStep_sizesOk (hi : PipeInv s) (hs : SizesOk s) (h : sysPipeStep s e = some s') :
    SizesOk s' := by
  unfold sysPipeStep at h
  split_ifs at h with hsize
  cases e with
  | write q addr n =>
    simp only [pipeStep] at h
    split at h
    · cases h
      have hn : (0 : Int32) ≤ n := by simpa [PipeEvent.sizeOk] using hsize
      exact runWrite_sizesOk hs q addr (by simpa using Int32.le_iff_toInt_le.mp hn)
    · cases h
  | read q n =>
    simp only [pipeStep] at h
    split at h
    · cases h
      exact runRead_sizesOk hs q n
    · cases h
  | wake q =>
    simp only [pipeStep] at h
    split at h
    · cases h
    · -- a resumed writer's size was checked when it called
      rename_i addr n i htask
      cases h
      have hw := hi.writers q addr n i htask
      exact runWrite_sizesOk hs q addr (by omega)
    · cases h
      exact runRead_sizesOk hs q _
  | close writable =>
    cases h
    exact hs
  | kill q =>
    cases h
    exact hs

/-- What holds in every state the calls of the system calls reach. -/
structure SysPipeInv (s : PipeSys) : Prop where
  inv : PipeInv s
  sizes : SizesOk s

theorem SysPipeInv.reachable {data : ℕ → UInt8}
    (hs : Trace.Reachable sysPipeStep (pipeBoot data) s) : SysPipeInv s := by
  refine Trace.Reachable.induction_of_step ?_ ?_ hs
  · exact ⟨pipeBoot_inv data, fun _ hw => by cases hw⟩
  · intro s₁ e s₂ hs₁ h
    exact ⟨pipeStep_inv hs₁.inv (sysPipeStep_pipeStep h), sysPipeStep_sizesOk hs₁.inv hs₁.sizes h⟩

/-- For the calls the system calls make: the counters stay at most `PIPESIZE` apart, the bytes
returned are the bytes stored up to those still in the pipe, and a `pipewrite` returns `n` only
after storing all `n` bytes and `-1` only with the read end closed or the writer killed. -/
theorem pipe_fifo_safe (data : ℕ → UInt8) {s : PipeSys}
    (hs : Trace.Reachable sysPipeStep (pipeBoot data) s) :
    (s.pipe.nwrite - s.pipe.nread).toNat ≤ pipeSize ∧ s.returned <+: s.stored ∧
      s.returned ++ Ring.view s.pipe.data pipeSize s.pipe.nread s.pipe.nwrite = s.stored ∧
      ∀ w ∈ s.writes, (w.r = w.n → w.stored = w.n) ∧ (w.r = -1 → w.readopen = false ∨ w.killed) := by
  obtain ⟨hi, hsize⟩ := SysPipeInv.reachable hs
  refine ⟨hi.fifo.bound, ⟨_, hi.fifo.conserve⟩, hi.fifo.conserve, fun w hw => ?_⟩
  have hn := hsize w hw
  -- a non-negative `n` is not `-1`, so the two ways of returning are told apart by `r`
  have hne : w.n ≠ -1 := fun h => by rw [h] at hn; exact absurd hn (by decide)
  rcases hi.writes w hw with ⟨hr, hst⟩ | ⟨hr, hcl⟩
  · exact ⟨fun _ => hst hn, fun hr' => absurd (hr.symm.trans hr') hne⟩
  · exact ⟨fun hr' => absurd (hr'.symm.trans hr) hne, fun _ => hcl⟩

/-- One `pipewrite` of three bytes, as `sys_write` makes it. -/
def threeByteWrite : PipeSys := (pipeBoot fun _ => 0).runWrite 0 (fun j => j.toUInt8) 3 0

theorem pipe_fifo_safe_three_bytes :
    Trace.Reachable sysPipeStep (pipeBoot fun _ => 0) threeByteWrite ∧
      (threeByteWrite.pipe.nwrite - threeByteWrite.pipe.nread).toNat ≤ pipeSize ∧
      threeByteWrite.returned <+: threeByteWrite.stored ∧
      threeByteWrite.returned ++ Ring.view threeByteWrite.pipe.data pipeSize
        threeByteWrite.pipe.nread threeByteWrite.pipe.nwrite = threeByteWrite.stored ∧
      ∀ w ∈ threeByteWrite.writes, (w.r = w.n → w.stored = w.n) ∧
        (w.r = -1 → w.readopen = false ∨ w.killed) := by
  have hs : Trace.Reachable sysPipeStep (pipeBoot fun _ => 0) threeByteWrite :=
    Trace.Reachable.init.step (.write 0 (fun j => j.toUInt8) 3) rfl
  exact ⟨hs, pipe_fifo_safe _ hs⟩

end Xv6.Ipc
