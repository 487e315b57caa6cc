import Xv6.Param
import Xv6.Lib.StateExcept
import Xv6.Lib.Trace

/-!
# The process table (`proc.c`)

The `NPROC` slots of `ptable` and what `fork`, `exit`, `wait` and `kill` do to them under
`ptable.lock`. Each call is one atomic step: `allocproc`'s pid assignment and the failure paths
of `fork` happen inside it, and a `wait` that would sleep is a step that is not enabled (it
runs again once a child has exited). The address space, the open files and the swap file that
these calls also create and free are left to the other modules; only the fields that make up
the process tree are kept: the state, the pid, the parent pointer and `killed`.

## Main definitions

* `PSlot`, `PTable`: a slot of the table and the table with `nextpid` and `initproc`.
* `allocproc`, `fork`, `reparent`, `exit`, `wait`, `kill`: the functions of `proc.c` on the
  table.
* `step`, `boot`: interleavings of the four calls after `userinit`.

## Main results

* `TreeInv.reachable`: in every reachable state each process other than `initproc` has a
  parent that is neither `UNUSED` nor `ZOMBIE`.
* `run_cycles`: a `fork`, `exit`, `wait` round trip only advances `nextpid`.
* `pid_reused_after_wrap`: after `2^32 - 1` such rounds `fork` hands out `initproc`'s pid.
-/

namespace Xv6.ProcTable

instance : NeZero nproc := ⟨by decide⟩

/-- `enum procstate`. -/
inductive ProcState where
  | unused
  | embryo
  | sleeping
  | runnable
  | running
  | zombie
  deriving DecidableEq, Repr

/-- The fields of `struct proc` that make up the process tree. -/
structure PSlot where
  state : ProcState
  pid : Int32
  /-- `parent`, the slot of the parent, `none` for a null pointer. -/
  parent : Option (Fin nproc)
  killed : Bool
  deriving DecidableEq, Repr

/-- `ptable.proc`, `nextpid` and `initproc`. -/
structure PTable where
  procs : Fin nproc → PSlot
  nextpid : Int32
  initproc : Fin nproc

/-- A slot of the zero-initialised `ptable`, and one `wait` has reaped. -/
def emptySlot : PSlot := ⟨.unused, 0, none, false⟩

/-- A process that may make a system call. -/
def Live (st : ProcState) : Prop := st = .runnable ∨ st = .running

instance (st : ProcState) : Decidable (Live st) := inferInstanceAs (Decidable (_ ∨ _))

/-- The scan of `allocproc`: the first `UNUSED` slot. -/
def firstUnused (procs : Fin nproc → PSlot) : Option (Fin nproc) :=
  (List.finRange nproc).find? fun i => (procs i).state = .unused

/-- `allocproc()` up to its kernel stack: the first `UNUSED` slot becomes an `EMBRYO` with the
pid `nextpid++`. -/
def allocproc (t : PTable) : Option (PTable × Fin nproc) := do
  let i ← firstUnused t.procs
  let p := { t.procs i with state := .embryo, pid := t.nextpid }
  return ({ t with procs := Function.update t.procs i p, nextpid := t.nextpid + 1 }, i)

/-- `fork()` by the process in slot `cur`; `fits` says whether the kernel stack and the copy of
the address space could be allocated. On either failure the slot goes back to `UNUSED`, keeping
its new pid. -/
def fork (t : PTable) (cur : Fin nproc) (fits : Bool) : PTable × Int32 :=
  match allocproc t with
  | none => (t, -1)
  | some (t, i) =>
    if !fits then
      (⟨Function.update t.procs i { t.procs i with state := .unused }, t.nextpid, t.initproc⟩, -1)
    else
      let np := { t.procs i with parent := some cur, state := .runnable }
      (⟨Function.update t.procs i np, t.nextpid, t.initproc⟩, np.pid)

/-- "Pass abandoned children to init": every parent pointer to `cur` now points to `init`. -/
def reparent (procs : Fin nproc → PSlot) (cur init : Fin nproc) : Fin nproc → PSlot :=
  fun i => if (procs i).parent = some cur then { procs i with parent := some init } else procs i

/-- `exit()` by the process in slot `cur`: its children pass to `initproc`, and it becomes a
`ZOMBIE`. `initproc` may not exit. -/
def exit (t : PTable) (cur : Fin nproc) : Except String PTable := do
  if cur = t.initproc then throw "init exiting"
  let procs := reparent t.procs cur t.initproc
  return { t with procs := Function.update procs cur { procs cur with state := .zombie } }

/-- The scan of `wait`: the first child of `cur` that is a `ZOMBIE`. -/
def firstZombieChild (procs : Fin nproc → PSlot) (cur : Fin nproc) : Option (Fin nproc) :=
  (List.finRange nproc).find? fun i => (procs i).parent = some cur ∧ (procs i).state = .zombie

/-- `wait()` by the process in slot `cur`: reap a `ZOMBIE` child and return its pid, or return
`-1` without children or when killed; `none` when it would sleep. -/
def wait (t : PTable) (cur : Fin nproc) : Option (PTable × Int32) :=
  match firstZombieChild t.procs cur with
  | some i =>
    some ({ t with procs := Function.update t.procs i emptySlot }, (t.procs i).pid)
  | none =>
    let havekids := decide (∃ i, (t.procs i).parent = some cur)
    if !havekids || (t.procs cur).killed then some (t, -1) else none

/-- `kill(pid)`: mark the first slot with that pid killed, and wake it if it sleeps. -/
def kill (t : PTable) (pid : Int32) : PTable × Int32 :=
  match (List.finRange nproc).find? fun i => (t.procs i).pid = pid with
  | none => (t, -1)
  | some i =>
    let p := t.procs i
    let p := { p with killed := true, state := if p.state = .sleeping then .runnable else p.state }
    ({ t with procs := Function.update t.procs i p }, 0)

/-! ## Interleavings of the calls -/

/-- A system call of the process in slot `p`. -/
inductive Call where
  | fork (p : Fin nproc) (fits : Bool)
  | exit (p : Fin nproc)
  | wait (p : Fin nproc)
  | kill (p : Fin nproc) (pid : Int32)
  deriving DecidableEq, Repr

/-- The process that makes a call. -/
def Call.caller : Call → Fin nproc
  | .fork p _ | .exit p | .wait p | .kill p _ => p

/-- One call, by a process that is running or runnable; a panic stops the system. -/
def step : Except String PTable → Call → Option (Except String PTable)
  | .error _, _ => none
  | .ok t, c =>
    if ¬ Live (t.procs c.caller).state then none
    else match c with
      | .fork p fits => some (.ok (fork t p fits).1)
      | .exit p => some (exit t p)
      | .wait p => (wait t p).map fun r => .ok r.1
      | .kill _ pid => some (.ok (kill t pid).1)

/-- The slot `userinit` fills: `allocproc` gives slot 0 the pid 1. -/
def initSlot : PSlot := ⟨.runnable, 1, none, false⟩

/-- The table after `userinit`: `initproc` in slot 0, every other slot as the zeroed `ptable`
has it, and `nextpid = 2`. -/
def boot : PTable := ⟨Function.update (fun _ => emptySlot) 0 initSlot, 2, 0⟩

/-! ## What each call does -/

theorem Live.ne_unused {st : ProcState} (h : Live st) : st ≠ .unused := by
  rcases h with rfl | rfl <;> decide

theorem Live.ne_zombie {st : ProcState} (h : Live st) : st ≠ .zombie := by
  rcases h with rfl | rfl <;> decide

theorem allocproc_eq_some {t t' : PTable} {i : Fin nproc} (h : allocproc t = some (t', i)) :
    (t.procs i).state = .unused ∧
      t' = { t with
        procs := Function.update t.procs i ({ t.procs i with state := .embryo, pid := t.nextpid }),
        nextpid := t.nextpid + 1 } := by
  unfold allocproc at h
  cases hf : firstUnused t.procs with
  | none => simp [hf] at h
  | some j =>
    simp only [hf, Option.bind_eq_bind, Option.bind_some, Option.pure_def, Option.some.injEq,
      Prod.mk.injEq] at h
    obtain ⟨rfl, rfl⟩ := h
    have := List.find?_some hf
    exact ⟨by simpa using this, rfl⟩

/-- Reparenting changes parent pointers only. -/
@[simp]
theorem reparent_state (procs : Fin nproc → PSlot) (cur init i : Fin nproc) :
    (reparent procs cur init i).state = (procs i).state := by
  unfold reparent
  split <;> rfl

theorem reparent_parent (procs : Fin nproc → PSlot) (cur init i : Fin nproc) :
    (reparent procs cur init i).parent =
      if (procs i).parent = some cur then some init else (procs i).parent := by
  unfold reparent
  split <;> rfl

theorem exit_eq_ok {t t' : PTable} {cur : Fin nproc} (h : exit t cur = .ok t') :
    cur ≠ t.initproc ∧ t' = { t with procs := (Function.update (reparent t.procs cur t.initproc)
      cur { reparent t.procs cur t.initproc cur with state := .zombie }) } := by
  unfold exit at h
  by_cases hc : cur = t.initproc
  · rw [if_pos hc] at h
    simp [StateExcept.throw_eq_error] at h
  · simp only [if_neg hc, StateExcept.pure_eq_ok, Except.ok.injEq] at h
    exact ⟨hc, h.symm⟩

/-- After `exit`, only `cur` has changed state, to `ZOMBIE`. -/
theorem exit_state {t t' : PTable} {cur : Fin nproc} (h : exit t cur = .ok t') (j : Fin nproc) :
    (t'.procs j).state = if j = cur then .zombie else (t.procs j).state := by
  obtain ⟨-, rfl⟩ := exit_eq_ok h
  by_cases hjc : j = cur
  · subst hjc
    simp
  · simp [hjc]

/-- After `exit`, the parent pointers are those `reparent` left. -/
theorem exit_parent {t t' : PTable} {cur : Fin nproc} (h : exit t cur = .ok t') (j : Fin nproc) :
    (t'.procs j).parent = if (t.procs j).parent = some cur then some t.initproc
      else (t.procs j).parent := by
  obtain ⟨-, rfl⟩ := exit_eq_ok h
  rw [← reparent_parent]
  by_cases hjc : j = cur
  · subst hjc
    simp
  · simp [Function.update_of_ne hjc]

/-- `wait` either reaps a `ZOMBIE` child, emptying its slot, or leaves the table alone. -/
theorem wait_eq_some {t t' : PTable} {cur : Fin nproc} {r : Int32} (h : wait t cur = some (t', r)) :
    (∃ i, (t.procs i).state = .zombie ∧ t' = { t with procs := Function.update t.procs i emptySlot })
      ∨ t' = t := by
  unfold wait at h
  split at h
  · rename_i i hi
    have hz := List.find?_some hi
    simp only [decide_eq_true_eq] at hz
    simp only [Option.some.injEq, Prod.mk.injEq] at h
    exact .inl ⟨i, hz.2, h.1.symm⟩
  · dsimp only at h
    split at h
    · simp only [Option.some.injEq, Prod.mk.injEq] at h
      exact .inr h.1.symm
    · cases h

/-- The scan of `wait` reads only the parents and the states. -/
theorem firstZombieChild_congr {f g : Fin nproc → PSlot} (cur : Fin nproc)
    (h : ∀ i, (f i).parent = (g i).parent ∧ (f i).state = (g i).state) :
    firstZombieChild f cur = firstZombieChild g cur := by
  unfold firstZombieChild
  simp only [(h _).1, (h _).2]

/-! ## The process tree -/

/-- The parent pointer of slot `i` names a process that is neither `UNUSED` nor `ZOMBIE`. -/
def HasLiveParent (t : PTable) (i : Fin nproc) : Prop :=
  ∃ p, (t.procs i).parent = some p ∧ (t.procs p).state ≠ .unused ∧ (t.procs p).state ≠ .zombie

/-- The process tree: `initproc` is neither `UNUSED` nor `ZOMBIE`, and every other process has
a parent that is neither. -/
structure TreeInv (t : PTable) : Prop where
  init_ne_unused : (t.procs t.initproc).state ≠ .unused
  init_ne_zombie : (t.procs t.initproc).state ≠ .zombie
  parent : ∀ i, i ≠ t.initproc → (t.procs i).state ≠ .unused → HasLiveParent t i

/-- Filling a slot that was `UNUSED`: the new process is `UNUSED` or has a parent in another
slot that is neither `UNUSED` nor `ZOMBIE`. No process had the free slot as its parent. -/
theorem TreeInv.update_unused {t : PTable} (hinv : TreeInv t) {i : Fin nproc} {q : PSlot}
    (hi : (t.procs i).state = .unused)
    (hpar : q.state ≠ .unused → ∃ p ≠ i, q.parent = some p ∧ (t.procs p).state ≠ .unused ∧
      (t.procs p).state ≠ .zombie) (n : Int32) :
    TreeInv ⟨Function.update t.procs i q, n, t.initproc⟩ := by
  have hinit : t.initproc ≠ i := fun h => hinv.init_ne_unused (h ▸ hi)
  refine ⟨?_, ?_, ?_⟩
  · simpa [Function.update_of_ne hinit] using hinv.init_ne_unused
  · simpa [Function.update_of_ne hinit] using hinv.init_ne_zombie
  · intro j hj hju
    by_cases hji : j = i
    · subst hji
      simp only [Function.update_self] at hju
      obtain ⟨p, hpi, hp, hpu, hpz⟩ := hpar hju
      exact ⟨p, by simpa using hp, by simpa [Function.update_of_ne hpi] using hpu,
        by simpa [Function.update_of_ne hpi] using hpz⟩
    · simp only [Function.update_of_ne hji] at hju
      obtain ⟨p, hp, hpu, hpz⟩ := hinv.parent j hj hju
      -- the parent was not the free slot
      have hpi : p ≠ i := fun h => hpu (h ▸ hi)
      exact ⟨p, by simpa [Function.update_of_ne hji] using hp,
        by simpa [Function.update_of_ne hpi] using hpu, by simpa [Function.update_of_ne hpi] using hpz⟩

theorem fork_inv {t : PTable} {cur : Fin nproc} (fits : Bool) (hinv : TreeInv t)
    (hcur : Live (t.procs cur).state) : TreeInv (fork t cur fits).1 := by
  unfold fork
  cases ha : allocproc t with
  | none => exact hinv
  | some r =>
    obtain ⟨t', i⟩ := r
    obtain ⟨hi, rfl⟩ := allocproc_eq_some ha
    have hicur : cur ≠ i := fun h => hcur.ne_unused (h ▸ hi)
    cases fits with
    | false =>
      simp only [Bool.not_false, if_true, Function.update_idem, Function.update_self]
      exact hinv.update_unused hi (fun h => absurd rfl h) _
    | true =>
      simp only [Bool.not_true, Bool.false_eq_true, if_false, Function.update_idem,
        Function.update_self]
      exact hinv.update_unused hi (fun _ => ⟨cur, hicur, rfl, hcur.ne_unused,
        hcur.ne_zombie⟩) _

theorem kill_inv {t : PTable} (pid : Int32) (hinv : TreeInv t) : TreeInv (kill t pid).1 := by
  unfold kill
  split
  · exact hinv
  · rename_i i _
    -- only `killed` changes, and a sleeping process becomes runnable: no process becomes or
    -- stops being `UNUSED` or `ZOMBIE`, and no parent changes
    let q : PSlot := ⟨if (t.procs i).state = .sleeping then .runnable else (t.procs i).state,
      (t.procs i).pid, (t.procs i).parent, true⟩
    show TreeInv ⟨Function.update t.procs i q, t.nextpid, t.initproc⟩
    have hshape : ∀ j, (Function.update t.procs i q j).parent = (t.procs j).parent ∧
        ((Function.update t.procs i q j).state = .unused ↔ (t.procs j).state = .unused) ∧
        ((Function.update t.procs i q j).state = .zombie ↔ (t.procs j).state = .zombie) := by
      intro j
      by_cases hj : j = i
      · subst hj
        simp only [Function.update_self, q]
        split <;> simp_all
      · simp [Function.update_of_ne hj]
    refine ⟨?_, ?_, ?_⟩
    · exact fun h => hinv.init_ne_unused ((hshape _).2.1.mp h)
    · exact fun h => hinv.init_ne_zombie ((hshape _).2.2.mp h)
    · intro j hj hju
      obtain ⟨p, hp, hpu, hpz⟩ := hinv.parent j hj (fun h => hju ((hshape j).2.1.mpr h))
      exact ⟨p, (hshape j).1.trans hp, fun h => hpu ((hshape p).2.1.mp h),
        fun h => hpz ((hshape p).2.2.mp h)⟩

theorem exit_inv {t t' : PTable} {cur : Fin nproc} (hinv : TreeInv t)
    (hcur : Live (t.procs cur).state) (h : exit t cur = .ok t') : TreeInv t' := by
  obtain ⟨hc, ht'⟩ := exit_eq_ok h
  have hinit' : t'.initproc = t.initproc := by rw [ht']
  -- `initproc` keeps its state, since it is not `cur`
  have hinit : (t'.procs t'.initproc).state = (t.procs t.initproc).state := by
    rw [hinit', exit_state h, if_neg (Ne.symm hc)]
  refine ⟨hinit ▸ hinv.init_ne_unused, hinit ▸ hinv.init_ne_zombie, ?_⟩
  intro j hj hju
  rw [hinit'] at hj
  -- `j` was a process before the exit as well
  have hju' : (t.procs j).state ≠ .unused := by
    by_cases hjc : j = cur
    · subst hjc
      exact hcur.ne_unused
    · simpa [exit_state h, hjc] using hju
  by_cases hchild : (t.procs j).parent = some cur
  · -- a child of `cur` now has `initproc` as its parent
    refine ⟨t.initproc, by rw [exit_parent h, if_pos hchild], ?_, ?_⟩ <;>
      rw [← hinit', hinit]
    exacts [hinv.init_ne_unused, hinv.init_ne_zombie]
  · obtain ⟨p, hp, hpu, hpz⟩ := hinv.parent j hj hju'
    have hpc : p ≠ cur := fun h => hchild (h ▸ hp)
    refine ⟨p, by rw [exit_parent h, if_neg hchild, hp], ?_, ?_⟩ <;>
      rw [exit_state h, if_neg hpc]
    exacts [hpu, hpz]

theorem wait_inv {t t' : PTable} {cur : Fin nproc} {r : Int32} (hinv : TreeInv t)
    (h : wait t cur = some (t', r)) : TreeInv t' := by
  rcases wait_eq_some h with ⟨i, hi, rfl⟩ | rfl
  · -- no process has the zombie as its parent, and `initproc` is not a zombie
    have hinit : t.initproc ≠ i := fun h => hinv.init_ne_zombie (h ▸ hi)
    refine ⟨?_, ?_, ?_⟩
    · simpa [Function.update_of_ne hinit] using hinv.init_ne_unused
    · simpa [Function.update_of_ne hinit] using hinv.init_ne_zombie
    · intro j hj hju
      have hji : j ≠ i := by
        rintro rfl
        simp [emptySlot] at hju
      simp only [Function.update_of_ne hji] at hju
      obtain ⟨p, hp, hpu, hpz⟩ := hinv.parent j hj hju
      have hpi : p ≠ i := fun h => hpz (h ▸ hi)
      exact ⟨p, by simpa [Function.update_of_ne hji] using hp,
        by simpa [Function.update_of_ne hpi] using hpu, by simpa [Function.update_of_ne hpi] using hpz⟩
  · exact hinv

/-- Every call keeps the process tree. -/
theorem step_inv {t t' : PTable} {c : Call} (hinv : TreeInv t)
    (h : step (.ok t) c = some (.ok t')) : TreeInv t' := by
  simp only [step] at h
  split at h
  · cases h
  · rename_i hlive
    have hlive : Live (t.procs c.caller).state := not_not.mp hlive
    cases c with
    | fork p fits =>
      simp only [Option.some.injEq, Except.ok.injEq] at h
      exact h ▸ fork_inv fits hinv hlive
    | exit p =>
      simp only [Option.some.injEq] at h
      exact exit_inv hinv hlive h
    | wait p =>
      obtain ⟨⟨t'', r⟩, hw, he⟩ := Option.map_eq_some_iff.mp h
      cases he
      exact wait_inv hinv hw
    | kill p pid =>
      simp only [Option.some.injEq, Except.ok.injEq] at h
      exact h ▸ kill_inv pid hinv

theorem boot_inv : TreeInv boot := by
  refine ⟨by decide, by decide, fun j hj hju => absurd ?_ hju⟩
  -- every slot but `initproc`'s is as the zeroed table has it
  show (Function.update (fun _ => emptySlot) 0 initSlot j).state = .unused
  rw [Function.update_of_ne (show j ≠ 0 from hj)]
  rfl

/-- In every state that interleavings of `fork`, `exit`, `wait` and `kill` reach from `boot`,
`initproc` is neither `UNUSED` nor `ZOMBIE`, and every other process has a parent that is
neither. -/
theorem TreeInv.reachable {t : PTable} (h : Trace.Reachable step (.ok boot) (.ok t)) :
    TreeInv t := by
  refine Trace.Reachable.induction_of_step (P := fun x => ∀ t, x = .ok t → TreeInv t)
    ?_ ?_ h t rfl
  · rintro t ht
    cases ht
    exact boot_inv
  · rintro (m | s) c x hP hstep t' rfl
    · simp [step] at hstep
    · exact step_inv (hP s rfl) hstep

/-! ## Reuse of pids

`init` forks a shell and waits for it, and forks a new one when it exits. Each round takes a
pid from `nextpid`, an `int` that only counts up: after `2^32 - 1` rounds it wraps to `1`, the
pid of `initproc`, which is still alive. -/

/-- The table with `initproc` alone in slot 0 and `nextpid = x`. -/
def canon (x : Int32) : PTable := { boot with nextpid := x }

/-- The child of `initproc` in slot 1, in state `st` with pid `x`. -/
def childSlot (st : ProcState) (x : Int32) : PSlot := ⟨st, x, some 0, false⟩

/-- A round: `initproc` forks, the child exits, `initproc` reaps it. -/
def cycle : List Call := [.fork 0 true, .exit 1, .wait 0]

theorem firstUnused_boot : firstUnused boot.procs = some 1 := by decide

theorem boot_procs_one : boot.procs 1 = emptySlot := by decide

theorem boot_procs_parent (i : Fin nproc) : (boot.procs i).parent = none := by
  revert i
  decide

theorem step_fork_canon (x : Int32) :
    step (.ok (canon x)) (.fork 0 true) =
      some (.ok ⟨Function.update boot.procs 1 (childSlot .runnable x), x + 1, 0⟩) := by
  simp [step, canon, fork, allocproc, firstUnused_boot, Call.caller, boot_procs_one]
  exact ⟨by decide, rfl, rfl⟩

theorem exit_child (x y : Int32) :
    exit ⟨Function.update boot.procs 1 (childSlot .runnable x), y, 0⟩ 1 =
      .ok ⟨Function.update boot.procs 1 (childSlot .zombie x), y, 0⟩ := by
  -- no slot has the child as its parent, so the reparenting changes nothing
  have hnone : ∀ i, (Function.update boot.procs 1 (childSlot .runnable x) i).parent ≠ some 1 := by
    intro i
    by_cases hi : i = 1
    · subst hi
      rw [Function.update_self]
      simp only [childSlot, ne_eq, Option.some.injEq]
      decide
    · rw [Function.update_of_ne hi, boot_procs_parent]
      simp
  have hrep : reparent (Function.update boot.procs 1 (childSlot .runnable x)) 1 0 =
      Function.update boot.procs 1 (childSlot .runnable x) :=
    funext fun i => if_neg (hnone i)
  have h10 : (1 : Fin nproc) ≠ 0 := by decide
  simp only [exit, if_neg h10, hrep, StateExcept.pure_eq_ok]
  simp only [Function.update_self, Function.update_idem]
  rfl

theorem step_exit_child (x y : Int32) :
    step (.ok ⟨Function.update boot.procs 1 (childSlot .runnable x), y, 0⟩) (.exit 1) =
      some (.ok ⟨Function.update boot.procs 1 (childSlot .zombie x), y, 0⟩) := by
  have hlive : Live (Function.update boot.procs 1 (childSlot .runnable x) 1).state := by
    rw [Function.update_self]
    exact Or.inl rfl
  simp only [step, Call.caller, hlive, not_true_eq_false, if_false, exit_child]

theorem wait_zombie_child (x y : Int32) :
    wait ⟨Function.update boot.procs 1 (childSlot .zombie x), y, 0⟩ 0 = some (canon y, x) := by
  -- the scan finds the zombie in slot 1 whatever its pid
  have hscan : firstZombieChild (Function.update boot.procs 1 (childSlot .zombie x)) 0 = some 1 := by
    rw [firstZombieChild_congr 0 (g := Function.update boot.procs 1 (childSlot .zombie 0))]
    · decide
    · intro i
      by_cases hi : i = 1
      · subst hi
        simp [childSlot]
      · simp [Function.update_of_ne hi]
  simp only [wait, hscan, Function.update_idem, Function.update_self]
  rw [← boot_procs_one, Function.update_eq_self]
  rfl

theorem step_wait_init (x y : Int32) :
    step (.ok ⟨Function.update boot.procs 1 (childSlot .zombie x), y, 0⟩) (.wait 0) =
      some (.ok (canon y)) := by
  have hlive : Live (Function.update boot.procs 1 (childSlot .zombie x) 0).state := by
    rw [Function.update_of_ne (by decide)]
    decide
  simp only [step, Call.caller, hlive, not_true_eq_false, if_false, wait_zombie_child,
    Option.map_some]

/-- A round of `fork` by `initproc`, `exit` by the child and `wait` by `initproc` leaves the
table as it was, with `nextpid` one further. -/
theorem run_cycle (x : Int32) :
    Trace.run step (.ok (canon x)) cycle = some (.ok (canon (x + 1))) := by
  simp only [cycle, Trace.run_cons, Trace.run_nil]
  rw [step_fork_canon, Option.bind_some, step_exit_child, Option.bind_some, step_wait_init,
    Option.bind_some]

/-- `k` rounds only advance `nextpid` by `k`. -/
theorem run_cycles (k : ℕ) (x : Int32) :
    Trace.run step (.ok (canon x)) (List.replicate k cycle).flatten =
      some (.ok (canon (x + Int32.ofNat k))) := by
  induction k generalizing x with
  | zero => simp
  | succ k ih =>
    rw [List.replicate_succ, List.flatten_cons, Trace.run_append, run_cycle, Option.bind_some,
      ih, Int32.ofNat_add, Int32.add_assoc, Int32.add_comm 1]
    rfl

/-- After `2^32 - 1` rounds `nextpid` is `1` again, and the next `fork` gives its child the pid
of `initproc`: two processes of the table share a pid. -/
theorem pid_reused_after_wrap :
    ∃ t, Trace.Reachable step (.ok boot) (.ok t) ∧
      ∃ i j, i ≠ j ∧ (t.procs i).state ≠ .unused ∧ (t.procs j).state ≠ .unused ∧
        (t.procs i).pid = (t.procs j).pid := by
  have hwrap : (2 : Int32) + Int32.ofNat (2 ^ 32 - 1) = 1 := by decide
  have hrun : Trace.run step (.ok boot)
      ((List.replicate (2 ^ 32 - 1) cycle).flatten ++ [.fork 0 true]) =
        some (.ok ⟨Function.update boot.procs 1 (childSlot .runnable 1), 1 + 1, 0⟩) := by
    rw [Trace.run_append, show boot = canon 2 from rfl, run_cycles, Option.bind_some, hwrap,
      Trace.run_cons, step_fork_canon, Option.bind_some, Trace.run_nil]
    rfl
  refine ⟨_, Trace.Reachable.init.of_run hrun, 0, 1, by decide, by decide, by decide, by decide⟩

end Xv6.ProcTable
