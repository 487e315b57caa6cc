import Xv6.Fs.Log
import Xv6.Lib.StateExcept
import Xv6.Lib.Trace

/-!
# Transactions of the log (`log.c`)

Every file-system system call brackets its block writes with `begin_op` and `end_op`, and
records each block it modifies with `log_write`. `begin_op` admits a call only while the log
has room for it to write `MAXOPBLOCKS` blocks on top of what the calls already admitted may
write: `lh.n + (outstanding + 1) * MAXOPBLOCKS ≤ LOGSIZE`. `log_write` absorbs a block the
transaction has already logged, and panics once `lh.n` reaches `log.size - 1`, the data
blocks of the on-disk log (`mkfs` gives the log `LOGSIZE` blocks, header included). The last
`end_op` commits the transaction.

Calls run concurrently and interleave at `begin_op`, which sleeps while it may not admit the
call, and between their steps. The system is a step function over the log, the disk and where
each process is (`logStep`); a call's contract that it writes at most `MAXOPBLOCKS` distinct
blocks is a guard of its `log_write` steps. A kernel panic is the state `.error msg`.

## Main definitions

* `TxnLog`: `struct log` with the fields of the transaction paths.
* `beginOp`, `logWrite`, `endOp`: the functions of `log.c`.
* `logStep`, `logBoot`: the interleavings of file-system calls after `initlog`.

## Main results

* `logWrite_inv`, `LogInv.reachable`: the logged blocks stay distinct and `lh.n` stays at most
  `log.size - 1` in every reachable state.
* `three_full_calls_overflow_log`: three admitted calls of `MAXOPBLOCKS` blocks each reach the
  panic of `log_write`.
-/

namespace Xv6.Fs

/-- `struct log`: the fields `Log` keeps for commit and recovery, and those of the
transaction paths. -/
structure TxnLog extends Log where
  /-- `outstanding`: the file-system calls between `begin_op` and `end_op`. -/
  outstanding : Int32
  /-- `committing`: the last `end_op` is in `commit()`. -/
  committing : Bool

/-- `begin_op()`: admit a file-system call, or `none` while the caller sleeps, during a commit
or while the log may lack room for one more call of `MAXOPBLOCKS` blocks. -/
def beginOp (lg : TxnLog) : Option TxnLog :=
  if lg.committing then none
  else if lg.lh.n + (lg.outstanding + 1) * Int32.ofNat maxOpBlocks > Int32.ofNat logSize then none
  else some { lg with outstanding := lg.outstanding + 1 }

/-- Where the absorption loop of `log_write` stops for block `b`: at the first logged entry
naming `b`, or at `lh.n`. -/
def absorbIndex (lh : LogHeader) (b : UInt32) : ℕ :=
  ((List.range (tripCount lh.n)).find? fun i => (lh.block i).toUInt32 = b).getD (tripCount lh.n)

/-- `log_write(bp)` for a buffer of block `b`: record `b` in the header unless it is there
already. The `B_DIRTY` pin of the buffer is the cache's business and is not modelled. -/
def logWrite (lg : TxnLog) (b : UInt32) : Except String TxnLog := do
  if lg.lh.n.toInt ≥ logSize ∨ lg.lh.n.toInt ≥ (lg.size : ℤ) - 1 then
    throw "too big a transaction"
  if lg.outstanding < 1 then throw "log_write outside of trans"
  let i := absorbIndex lg.lh b
  -- `block[i]` is an `int`; the comparison above converted it to `uint`
  let block := Function.update lg.lh.block i b.toInt32
  let n := if i = tripCount lg.lh.n then lg.lh.n + 1 else lg.lh.n
  return { lg with lh := { n, block } }

/-- `end_op()` up to the commit: the call leaves, and the last one out starts the commit
(`true`). -/
def endOp (lg : TxnLog) : Except String (TxnLog × Bool) := do
  let lg := { lg with outstanding := lg.outstanding - 1 }
  if lg.committing then throw "log.committing"
  if lg.outstanding = 0 then return ({ lg with committing := true }, true)
  return (lg, false)

/-! ### What each function does -/

theorem toInt_succ_of_lt {n : Int32} (h0 : 0 ≤ n.toInt) (h : n.toInt < 2 ^ 31 - 1) :
    (n + 1).toInt = n.toInt + 1 := by
  rw [Int32.toInt_add, show (1 : Int32).toInt = 1 from rfl, Int.bmod_eq_of_le] <;> omega

theorem tripCount_eq_toNat (n : Int32) : tripCount n = n.toInt.toNat := (Int32.toNat_toInt n).symm

/-- Where the absorption loop stops: at an entry below `n` naming `b`, or at `n` when none
does. -/
theorem absorbIndex_spec (lh : LogHeader) (b : UInt32) :
    (absorbIndex lh b < tripCount lh.n ∧ (lh.block (absorbIndex lh b)).toUInt32 = b) ∨
      (absorbIndex lh b = tripCount lh.n ∧ ∀ j < tripCount lh.n, (lh.block j).toUInt32 ≠ b) := by
  unfold absorbIndex
  cases h : (List.range (tripCount lh.n)).find? fun i => (lh.block i).toUInt32 = b with
  | some i =>
    have hmem := List.mem_of_find?_eq_some h
    have hi := List.find?_some h
    left
    simp only [Option.getD_some]
    exact ⟨List.mem_range.mp hmem, by simpa using hi⟩
  | none =>
    right
    refine ⟨rfl, fun j hj => ?_⟩
    have := List.find?_eq_none.mp h j (List.mem_range.mpr hj)
    simpa using this

/-- A `log_write` that returns passed both checks, and wrote block `b` at the index the
absorption loop stopped at. -/
theorem logWrite_eq_ok {lg lg' : TxnLog} {b : UInt32} (h : logWrite lg b = .ok lg') :
    lg.lh.n.toInt < logSize ∧ lg.lh.n.toInt < (lg.size : ℤ) - 1 ∧
      lg' = { lg with lh := {
        n := if absorbIndex lg.lh b = tripCount lg.lh.n then lg.lh.n + 1 else lg.lh.n,
        block := Function.update lg.lh.block (absorbIndex lg.lh b) b.toInt32 } } := by
  unfold logWrite at h
  -- each guard either throws, which cannot give `.ok`, or lets the update through
  by_cases hroom : lg.lh.n.toInt ≥ logSize ∨ lg.lh.n.toInt ≥ (lg.size : ℤ) - 1
  · rw [if_pos hroom] at h
    simp [StateExcept.throw_eq_error] at h
  · rw [if_neg hroom] at h
    by_cases hout : lg.outstanding < 1
    · rw [if_pos hout] at h
      simp [StateExcept.throw_eq_error] at h
    · simp only [if_neg hout, StateExcept.pure_eq_ok, Except.ok.injEq] at h
      exact ⟨by omega, by omega, h.symm⟩

/-- `end_op` changes only `outstanding` and `committing`. -/
theorem endOp_toLog {lg lg' : TxnLog} {c : Bool} (h : endOp lg = .ok (lg', c)) :
    lg'.toLog = lg.toLog := by
  unfold endOp at h
  by_cases hc : lg.committing
  · simp [hc, StateExcept.throw_eq_error] at h
  · by_cases h0 : lg.outstanding - 1 = 0 <;>
      simp [hc, h0] at h <;>
      rw [← h.1]

/-- The log after `commit()`: the header cleared when it named a block. -/
theorem commit_fst (lg : Log) (dev : Dev) :
    (commit lg dev).1 = if 0 < lg.lh.n then { lg with lh := { lg.lh with n := 0 } } else lg := by
  unfold commit
  split <;> rfl

/-! ## Interleavings of file-system calls -/

/-- Where the file-system call of a process is. -/
inductive Phase where
  /-- Not in a file-system call. -/
  | idle
  /-- Between `begin_op` and `end_op`. -/
  | inOp
  /-- In the `commit()` of its `end_op`. -/
  | committing
  deriving DecidableEq, Repr

/-- One atomic step of the file-system call of process `p`. -/
inductive LogEvent where
  | beginOp (p : ℕ)
  | logWrite (p : ℕ) (b : UInt32)
  | endOp (p : ℕ)
  /-- `commit()` and the rest of `end_op`: clear `committing` and wake the sleepers. -/
  | commit (p : ℕ)
  deriving DecidableEq, Repr

/-- The log, the disk, and where each process is. -/
structure LogSys where
  log : TxnLog
  dev : Dev
  phase : ℕ → Phase
  /-- The distinct blocks the current call of each process has passed to `log_write`. This is
  not kernel state: it states the callers' contract of at most `MAXOPBLOCKS` blocks. -/
  written : ℕ → List UInt32

/-- One step of the system, or `none` when it is not enabled: a `begin_op` that sleeps, a step
of a process not at that point of its call, or a `log_write` that would break the callers'
contract. A panic stops the system. -/
def logStep : Except String LogSys → LogEvent → Option (Except String LogSys)
  | .error _, _ => none
  | .ok s, .beginOp p =>
    if s.phase p ≠ .idle then none
    else (beginOp s.log).map fun lg =>
      .ok { s with log := lg, phase := Function.update s.phase p .inOp,
                   written := Function.update s.written p [] }
  | .ok s, .logWrite p b =>
    if s.phase p ≠ .inOp then none
    else if maxOpBlocks < ((s.written p).insert b).length then none
    else some ((logWrite s.log b).map fun lg =>
      { s with log := lg, written := Function.update s.written p ((s.written p).insert b) })
  | .ok s, .endOp p =>
    if s.phase p ≠ .inOp then none
    else some ((endOp s.log).map fun (lg, doCommit) =>
      { s with log := lg,
               phase := Function.update s.phase p (if doCommit then .committing else .idle) })
  | .ok s, .commit p =>
    if s.phase p ≠ .committing then none
    else
      let (lg, dev) := commit s.log.toLog s.dev
      some (.ok { s with log := { s.log with toLog := lg, committing := false }, dev,
                         phase := Function.update s.phase p .idle })

/-- The system after `initlog` on a disk of zero blocks, as `mkfs` leaves it: the log starts at
block 2 and has `LOGSIZE` blocks, `recover_from_log` found no transaction, and no process is
in a file-system call. -/
def logBoot : LogSys :=
  let lg : Log := { start := 2, size := logSize, lh := ⟨0, fun _ => 0⟩ }
  let (lg, dev) := recoverFromLog lg ⟨fun _ => Vector.replicate bSize 0, []⟩
  { log := { lg with outstanding := 0, committing := false }, dev,
    phase := fun _ => .idle, written := fun _ => [] }

/-! ## What the log keeps -/

/-- The header names pairwise distinct blocks, and `lh.n` is between `0` and `log.size - 1`. -/
structure LogInv (lg : TxnLog) : Prop where
  nonneg : 0 ≤ lg.lh.n.toInt
  le_size : lg.lh.n.toInt ≤ (lg.size : ℤ) - 1
  distinct : ∀ i < tripCount lg.lh.n, ∀ j < tripCount lg.lh.n, i ≠ j →
    (lg.lh.block i).toUInt32 ≠ (lg.lh.block j).toUInt32

/-- The invariant reads only the header and the size. -/
theorem LogInv.of_toLog {lg lg' : TxnLog} (h : LogInv lg) (hlog : lg'.toLog = lg.toLog) :
    LogInv lg' := by
  obtain ⟨hn, hs, hd⟩ := h
  have hlh : lg'.lh = lg.lh := congrArg Log.lh hlog
  have hsz : lg'.size = lg.size := congrArg Log.size hlog
  exact ⟨hlh ▸ hn, hlh ▸ hsz ▸ hs, hlh ▸ hd⟩

/-- `log_write` keeps the invariant: an absorbed block rewrites the entry that names it, and a
new block is appended below `log.size - 1`, which the panic check guarantees. -/
theorem logWrite_inv {lg lg' : TxnLog} {b : UInt32} (hinv : LogInv lg)
    (h : logWrite lg b = .ok lg') : LogInv lg' := by
  obtain ⟨hlog, hsize, rfl⟩ := logWrite_eq_ok h
  have hn := hinv.nonneg
  rcases absorbIndex_spec lg.lh b with ⟨hlt, hb⟩ | ⟨heq, hnone⟩
  · -- absorbed: the count stays, and entry `i` is rewritten with the block it names already
    have hne : absorbIndex lg.lh b ≠ tripCount lg.lh.n := by omega
    have hsame : ∀ j, (Function.update lg.lh.block (absorbIndex lg.lh b) b.toInt32 j).toUInt32 =
        (lg.lh.block j).toUInt32 := by
      intro j
      by_cases hj : j = absorbIndex lg.lh b
      · subst hj
        simp [hb, UInt32.toUInt32_toInt32]
      · rw [Function.update_of_ne hj]
    refine ⟨by simpa [hne] using hn, by simpa [hne] using hinv.le_size, ?_⟩
    simp only [hne, if_false, hsame]
    exact hinv.distinct
  · -- appended: one entry more, naming a block no earlier entry names
    have hlog30 : lg.lh.n.toInt < 30 := hlog
    have hsucc : (lg.lh.n + 1).toInt = lg.lh.n.toInt + 1 := toInt_succ_of_lt hn (by omega)
    have htrip : tripCount (lg.lh.n + 1) = tripCount lg.lh.n + 1 := by
      rw [tripCount_eq_toNat, tripCount_eq_toNat, hsucc]
      omega
    refine ⟨by simp [heq, hsucc]; omega, by simp [heq, hsucc]; omega, ?_⟩
    simp only [heq, if_true, htrip]
    intro i hi j hj hij
    -- the new entry `n` names `b`; the entries below `n` are as before
    rcases Nat.lt_succ_iff_lt_or_eq.mp hi with hi' | rfl <;>
      rcases Nat.lt_succ_iff_lt_or_eq.mp hj with hj' | rfl
    · rw [Function.update_of_ne (by omega), Function.update_of_ne (by omega)]
      exact hinv.distinct i hi' j hj' hij
    · rw [Function.update_of_ne (by omega), Function.update_self, UInt32.toUInt32_toInt32]
      exact hnone i hi'
    · rw [Function.update_self, Function.update_of_ne (by omega), UInt32.toUInt32_toInt32]
      exact (hnone j hj').symm
    · exact absurd rfl hij

/-- Every step of the system keeps the invariant of the log. -/
theorem logStep_inv {s s' : LogSys} {e : LogEvent} (hinv : LogInv s.log)
    (h : logStep (.ok s) e = some (.ok s')) : LogInv s'.log := by
  cases e with
  | beginOp p =>
    simp only [logStep] at h
    split at h
    · cases h
    · obtain ⟨lg, hb, hs⟩ := Option.map_eq_some_iff.mp h
      cases hs
      -- `begin_op` changes only `outstanding`
      unfold beginOp at hb
      split at hb
      · cases hb
      · split at hb
        · cases hb
        · cases hb
          exact hinv.of_toLog rfl
  | logWrite p b =>
    simp only [logStep] at h
    split at h
    · cases h
    · split at h
      · cases h
      · simp only [Option.some.injEq] at h
        cases hw : logWrite s.log b with
        | error m => simp [hw, Except.map] at h
        | ok lg =>
          simp only [hw, Except.map, Except.ok.injEq] at h
          rw [← h]
          exact logWrite_inv hinv hw
  | endOp p =>
    simp only [logStep] at h
    split at h
    · cases h
    · simp only [Option.some.injEq] at h
      cases he : endOp s.log with
      | error m => simp [he, Except.map] at h
      | ok r =>
        simp only [he, Except.map, Except.ok.injEq] at h
        rw [← h]
        exact hinv.of_toLog (endOp_toLog he)
  | commit p =>
    simp only [logStep] at h
    split at h
    · cases h
    · simp only [Option.some.injEq, Except.ok.injEq] at h
      rw [← h]
      -- the commit clears the header or leaves it
      show LogInv { s.log with toLog := (commit s.log.toLog s.dev).1, committing := false }
      rw [commit_fst]
      split
      · exact ⟨le_refl _, by have := hinv.nonneg; have := hinv.le_size; simp; omega,
          fun i hi => absurd hi (by simp [tripCount])⟩
      · exact hinv.of_toLog rfl

theorem logBoot_inv : LogInv logBoot.log := by
  have hn : logBoot.log.lh.n = 0 := by decide
  have hs : logBoot.log.size = 30 := rfl
  refine ⟨by rw [hn]; decide, by rw [hn, hs]; decide, ?_⟩
  rw [hn]
  intro i hi
  exact absurd hi (by simp [tripCount])

/-- In every state an interleaving of file-system calls reaches, the header names distinct
blocks and `lh.n` is at most `log.size - 1`. -/
theorem LogInv.reachable {s : LogSys} (h : Trace.Reachable logStep (.ok logBoot) (.ok s)) :
    LogInv s.log := by
  refine Trace.Reachable.induction_of_step (P := fun x => ∀ s, x = .ok s → LogInv s.log)
    ?_ ?_ h s rfl
  · rintro s hs
    cases hs
    exact logBoot_inv
  · rintro (m | s) e x hP hstep s' rfl
    · simp [logStep] at hstep
    · exact logStep_inv (hP s rfl) hstep

/-! ## Three calls that fill the log -/

/-- Processes `0`, `1` and `2` enter `begin_op` in turn, and each then logs ten blocks of its
own: `MAXOPBLOCKS` distinct blocks per call. -/
def threeFullCalls : List LogEvent :=
  [.beginOp 0, .beginOp 1, .beginOp 2] ++
    ((List.range 3).flatMap fun p => (List.range 10).map fun j =>
      LogEvent.logWrite p (UInt32.ofNat (100 + 10 * p + j)))

/-- `begin_op` admits all three calls, since `0 + 3 * MAXOPBLOCKS ≤ LOGSIZE`, but the header
holds only `log.size - 1 = 29` blocks: the thirtieth `log_write` panics. -/
theorem three_full_calls_overflow_log :
    ∃ s, Trace.Reachable logStep (.ok logBoot) s ∧ s = .error "too big a transaction" := by
  have hrun : (Trace.run logStep (.ok logBoot) threeFullCalls).map
      (fun (s : Except String LogSys) => match s with
        | .error m => m == "too big a transaction"
        | .ok _ => false) = some true := by
    decide +kernel
  obtain ⟨s, hs, hp⟩ := Trace.exists_of_run hrun
  refine ⟨s, hs, ?_⟩
  cases s with
  | error m => simpa using hp
  | ok _ => simp at hp

end Xv6.Fs
