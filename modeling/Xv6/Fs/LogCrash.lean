import Xv6.Fs.Log

/-!
# Crash atomicity of a commit

A crash lets some prefix of the writes `commit` issues reach the disk (single-block writes are
atomic). At the next boot `recover_from_log` runs on that disk, and it may itself be cut short
by crashes and run again. We show that once a recovery completes, the blocks the transaction
logged are either all at their new contents (the cache's, when `commit` started) or all at
their old ones.

The argument follows the header block. Before a commit the on-disk header names no block
(`Reachable.headerClear`). Until `write_head` reaches the disk the crash leaves the home
blocks untouched (`OldState`); from then on the header names the transaction and the log
holds its blocks (`CommittedState`), which every partial recovery keeps and a complete one
turns into `NewState`. Recovery of an old or new state installs nothing.

## Main definitions

* `Reachable`: disks between transactions: after a boot recovery or a completed commit.
* `Recovers lg d d'`: recovery from `d` ends with `d'`, after any number of crashes.

## Main results

* `Reachable.headerClear`: between transactions the on-disk header names no block.
* `commit_crash_atomic`: crash atomicity of `commit` under `recover_from_log`.
-/

namespace Xv6.Fs

open LittleEndian Writes

/-- Disks between transactions, for a log whose header is block `start`: the disk left by a
boot-time `recover_from_log` on any disk, or by a completed commit of any transaction. -/
inductive Reachable (start : ℕ) : (ℕ → Block) → Prop
  | boot (lg : Log) (d : ℕ → Block) :
      lg.start = start → Reachable start (applyWrites (recoverWrites lg d) d)
  | commit (lg : Log) (cache : ℕ → Block) {d : ℕ → Block} :
      lg.start = start → Reachable start d → Reachable start (applyWrites (commitWrites lg cache) d)

/-- Recovery from the disk `d` ends with the disk `d'`: either it runs to completion, or a
crash stops it after some prefix of its writes and recovery starts again at the next boot. -/
inductive Recovers (lg : Log) : (ℕ → Block) → (ℕ → Block) → Prop
  | finish (d : ℕ → Block) : Recovers lg d (applyWrites (recoverWrites lg d) d)
  | crash (d : ℕ → Block) (j : ℕ) {d' : ℕ → Block} :
      Recovers lg (applyWrites ((recoverWrites lg d).take j) d) d' → Recovers lg d d'

/-- The on-disk header block `b` names no block. -/
def HeaderClear (b : Block) : Prop := tripCount (wordAt b 0).toInt32 = 0

/-! ## The last write of a recovery and of a commit clears the header -/

/-- Recovery ends with a write of a cleared header block. -/
theorem recoverWrites_last (lg : Log) (d : ℕ → Block) :
    ∃ ws b, recoverWrites lg d = ws ++ [(lg.start, b)] ∧ HeaderClear b :=
  ⟨_, _, rfl, tripCount_headerBlock_clear _ _⟩

/-- A commit of a transaction that logged a block ends with a write of a cleared header. -/
theorem commitWrites_last (lg : Log) (cache : ℕ → Block) (hpos : 0 < lg.lh.n) :
    ∃ ws b, commitWrites lg cache = ws ++ [(lg.start, b)] ∧ HeaderClear b := by
  simp only [commitWrites, commit, hpos, if_true]
  exact ⟨_, _, rfl, tripCount_headerBlock_clear _ _⟩

/-- A commit of a transaction that logged no block issues no write. -/
theorem commitWrites_of_not_pos (lg : Log) (cache : ℕ → Block) (hpos : ¬ 0 < lg.lh.n) :
    commitWrites lg cache = [] := by
  simp [commitWrites, commit, hpos]

/-- Between transactions the on-disk header names no block. -/
theorem Reachable.headerClear {start : ℕ} {d : ℕ → Block} (hd : Reachable start d) :
    HeaderClear (d start) := by
  induction hd with
  | boot lg d hstart =>
    obtain ⟨ws, b, hws, hb⟩ := recoverWrites_last lg d
    rw [hws, ← hstart, applyWrites_append_singleton]
    exact hb
  | commit lg cache hstart _ ih =>
    by_cases hpos : 0 < lg.lh.n
    · obtain ⟨ws, b, hws, hb⟩ := commitWrites_last lg cache hpos
      rw [hws, ← hstart, applyWrites_append_singleton]
      exact hb
    · rwa [commitWrites_of_not_pos lg cache hpos, applyWrites_nil]

/-! ## The writes of a commit -/

namespace Log

/-- The home block number of the `i`-th logged block. -/
def home (lg : Log) (i : ℕ) : ℕ := blockOf (lg.lh.block i)

/-- The transaction's logged blocks lie outside the header and the log blocks it uses. -/
def Disjoint (lg : Log) : Prop :=
  ∀ i < tripCount lg.lh.n, lg.home i < lg.start ∨ lg.start + tripCount lg.lh.n < lg.home i

/-- `write_log`'s writes: log block `i` receives the cache's copy of the `i`-th logged block. -/
def logWrites (lg : Log) (cache : ℕ → Block) : List (ℕ × Block) :=
  (List.range (tripCount lg.lh.n)).map fun i => (lg.start + i + 1, cache (lg.home i))

/-- `install_trans`'s writes during a commit: each logged block receives its new contents. -/
def homeWrites (lg : Log) (cache : ℕ → Block) : List (ℕ × Block) :=
  (List.range (tripCount lg.lh.n)).map fun i => (lg.home i, cache (lg.home i))

/-- The header block of the commit point, naming the transaction's blocks. -/
def committedHeader (lg : Log) (cache : ℕ → Block) : Block :=
  headerBlock lg.lh (cache lg.start)

variable {lg : Log}

theorem Disjoint.home_ne_start (h : lg.Disjoint) {i : ℕ} (hi : i < tripCount lg.lh.n) :
    lg.home i ≠ lg.start := by
  have := h i hi
  omega

theorem Disjoint.home_ne_log (h : lg.Disjoint) {i j : ℕ} (hi : i < tripCount lg.lh.n)
    (hj : j < tripCount lg.lh.n) : lg.home i ≠ lg.start + j + 1 := by
  have := h i hi
  omega

/-- `write_log` names the header block nowhere. -/
theorem logWrites_ne_start (cache : ℕ → Block) : ∀ w ∈ lg.logWrites cache, w.1 ≠ lg.start := by
  intro w hw
  obtain ⟨i, -, rfl⟩ := List.mem_map.mp hw
  simp only
  omega

/-- `write_log` names no logged block. -/
theorem logWrites_ne_home (h : lg.Disjoint) (cache : ℕ → Block) {i : ℕ}
    (hi : i < tripCount lg.lh.n) : ∀ w ∈ lg.logWrites cache, w.1 ≠ lg.home i := by
  intro w hw
  obtain ⟨j, hj, rfl⟩ := List.mem_map.mp hw
  exact (h.home_ne_log hi (List.mem_range.mp hj)).symm

/-- The installs name the header block nowhere. -/
theorem homeWrites_ne_start (h : lg.Disjoint) (cache : ℕ → Block) :
    ∀ w ∈ lg.homeWrites cache, w.1 ≠ lg.start := by
  intro w hw
  obtain ⟨i, hi, rfl⟩ := List.mem_map.mp hw
  exact h.home_ne_start (List.mem_range.mp hi)

/-- The installs name no log block the transaction uses. -/
theorem homeWrites_ne_log (h : lg.Disjoint) (cache : ℕ → Block) {j : ℕ}
    (hj : j < tripCount lg.lh.n) : ∀ w ∈ lg.homeWrites cache, w.1 ≠ lg.start + j + 1 := by
  intro w hw
  obtain ⟨i, hi, rfl⟩ := List.mem_map.mp hw
  exact h.home_ne_log (List.mem_range.mp hi) hj

/-- After `write_log`, log block `i` holds the `i`-th logged block. -/
theorem applyWrites_logWrites (cache d : ℕ → Block) {i : ℕ} (hi : i < tripCount lg.lh.n) :
    applyWrites (lg.logWrites cache) d (lg.start + i + 1) = cache (lg.home i) := by
  apply applyWrites_eq_of_mem
  · intro w hw hwi
    obtain ⟨j, -, rfl⟩ := List.mem_map.mp hw
    have : j = i := by simp at hwi; omega
    subst this
    rfl
  · exact ⟨_, List.mem_map_of_mem (List.mem_range.mpr hi), rfl⟩

/-- After the installs, each logged block holds its new contents. -/
theorem applyWrites_homeWrites (cache d : ℕ → Block) {i : ℕ} (hi : i < tripCount lg.lh.n) :
    applyWrites (lg.homeWrites cache) d (lg.home i) = cache (lg.home i) := by
  apply applyWrites_eq_of_mem
  · -- two entries naming one block carry that block's contents
    intro w hw hwi
    obtain ⟨j, -, rfl⟩ := List.mem_map.mp hw
    simp only at hwi ⊢
    rw [hwi]
  · exact ⟨_, List.mem_map_of_mem (List.mem_range.mpr hi), rfl⟩

/-- The writes a commit issues: the log blocks, the header naming the transaction, the
installs, and the cleared header. -/
theorem commitWrites_eq (cache : ℕ → Block) (hpos : 0 < lg.lh.n) (h : lg.Disjoint) :
    commitWrites lg cache = lg.logWrites cache ++ (lg.start, lg.committedHeader cache) ::
      (lg.homeWrites cache ++
        [(lg.start, headerBlock { lg.lh with n := 0 } (lg.committedHeader cache))]) := by
  -- after `write_log`
  have h1 : writeLog lg ⟨cache, []⟩ =
      ⟨applyWrites (lg.logWrites cache) cache, lg.logWrites cache⟩ := by
    rw [writeLog_eq _ _ fun i hi j hj => (h.home_ne_log hj hi).symm]
    rfl
  have hstart : applyWrites (lg.logWrites cache) cache lg.start = cache lg.start :=
    applyWrites_of_not_mem (logWrites_ne_start cache) _
  -- after `write_head`, the log blocks still hold the transaction's blocks
  set d2 := Function.update (applyWrites (lg.logWrites cache) cache) lg.start
    (lg.committedHeader cache) with hd2
  have h2 : writeHead lg ⟨applyWrites (lg.logWrites cache) cache, lg.logWrites cache⟩ =
      ⟨d2, lg.logWrites cache ++ [(lg.start, lg.committedHeader cache)]⟩ := by
    simp only [writeHead, bwrite, bread, hstart, committedHeader, hd2]
  have hlog : ∀ i ∈ List.range (tripCount lg.lh.n), d2 (lg.start + i + 1) = cache (lg.home i) := by
    intro i hi
    rw [hd2, Function.update_of_ne (by omega), applyWrites_logWrites _ _ (List.mem_range.mp hi)]
  -- after `install_trans`
  have h3 : installTrans lg ⟨d2, lg.logWrites cache ++ [(lg.start, lg.committedHeader cache)]⟩ =
      ⟨applyWrites (lg.homeWrites cache) d2,
        lg.logWrites cache ++ [(lg.start, lg.committedHeader cache)] ++ lg.homeWrites cache⟩ := by
    rw [installTrans_eq _ _ fun i hi j hj => h.home_ne_log hi hj]
    simp only [homeWrites, home]
    rw [List.map_congr_left fun i hi => by rw [hlog i hi]]
    rfl
  have hH : applyWrites (lg.homeWrites cache) d2 lg.start = lg.committedHeader cache := by
    rw [applyWrites_of_not_mem (homeWrites_ne_start h cache), hd2, Function.update_self]
  simp only [commitWrites, commit, hpos, if_true, h1, h2, h3]
  simp [writeHead, bwrite, bread, hH]

/-! ## Crash states -/

/-- Before the commit point: the header names no block and every logged block holds its
old contents, those of `disk`. -/
def OldState (lg : Log) (disk d : ℕ → Block) : Prop :=
  HeaderClear (d lg.start) ∧ ∀ i < tripCount lg.lh.n, d (lg.home i) = disk (lg.home i)

/-- Past the commit point: the header names the transaction and log block `i` holds the new
contents of the `i`-th logged block. -/
def CommittedState (lg : Log) (cache d : ℕ → Block) : Prop :=
  d lg.start = lg.committedHeader cache ∧
    ∀ i < tripCount lg.lh.n, d (lg.start + i + 1) = cache (lg.home i)

/-- Installed: the header names no block and every logged block holds its new contents. -/
def NewState (lg : Log) (cache d : ℕ → Block) : Prop :=
  HeaderClear (d lg.start) ∧ ∀ i < tripCount lg.lh.n, d (lg.home i) = cache (lg.home i)

/-- The disks a crash during a commit, or during a later recovery, can leave. -/
def CrashState (lg : Log) (cache disk d : ℕ → Block) : Prop :=
  lg.OldState disk d ∨ lg.CommittedState cache d ∨ lg.NewState cache d

/-! ## Recovery from each crash state -/

/-- On a disk whose header names no block, recovery only rewrites the header, cleared. -/
theorem recoverWrites_of_headerClear {d : ℕ → Block} (hd : HeaderClear (d lg.start)) :
    ∃ b, recoverWrites lg d = [(lg.start, b)] ∧ HeaderClear b := by
  have hnone : installTrans (readHead lg ⟨d, []⟩) ⟨d, []⟩ = ⟨d, []⟩ :=
    installTrans_of_tripCount_eq_zero _ _ hd
  simp only [recoverWrites, recoverFromLog, hnone]
  exact ⟨_, rfl, tripCount_headerBlock_clear _ _⟩

/-- On a disk past the commit point, recovery installs every logged block from the log, then
clears the header. -/
theorem recoverWrites_of_committed (cache : ℕ → Block) {d : ℕ → Block}
    (hn : tripCount lg.lh.n ≤ logSize) (h : lg.Disjoint)
    (hd : d lg.start = lg.committedHeader cache) :
    ∃ b, recoverWrites lg d =
      (List.range (tripCount lg.lh.n)).map (fun i => (lg.home i, d (lg.start + i + 1))) ++
        [(lg.start, b)] ∧ HeaderClear b := by
  -- `read_head` recovers the transaction's header
  obtain ⟨hcount, hblock⟩ := readHead_of_headerBlock lg ⟨d, []⟩ hd hn
  set lg1 := readHead lg ⟨d, []⟩ with hlg1
  have hstart : lg1.start = lg.start := rfl
  have hhome : ∀ i < tripCount lg.lh.n, blockOf (lg1.lh.block i) = lg.home i := fun i hi => by
    rw [hblock i hi]
    rfl
  have hsep : ∀ i < tripCount lg1.lh.n, ∀ j < tripCount lg1.lh.n,
      blockOf (lg1.lh.block i) ≠ lg1.start + j + 1 := by
    intro i hi j hj
    rw [hcount] at hi hj
    rw [hhome i hi, hstart]
    exact h.home_ne_log hi hj
  have hinst := installTrans_eq lg1 ⟨d, []⟩ hsep
  rw [hcount, hstart] at hinst
  refine ⟨headerBlock { lg1.lh with n := 0 }
    (applyWrites ((List.range (tripCount lg.lh.n)).map
      fun i => (blockOf (lg1.lh.block i), d (lg.start + i + 1))) d lg.start), ?_,
    tripCount_headerBlock_clear _ _⟩
  simp only [recoverWrites, recoverFromLog, ← hlg1, hinst, writeHead, bwrite, bread, hstart,
    List.nil_append]
  congr 1
  exact List.map_congr_left fun i hi => by rw [hhome i (List.mem_range.mp hi)]

variable {cache disk : ℕ → Block}

/-- A prefix of a write list that names only the header block keeps an old state old. -/
theorem OldState.of_header_writes (h : lg.Disjoint) {d : ℕ → Block} (hd : lg.OldState disk d)
    {b : Block} (hb : HeaderClear b) (j : ℕ) :
    lg.OldState disk (applyWrites ([(lg.start, b)].take j) d) := by
  rcases j with _ | j
  · simpa using hd
  · simp only [List.take_succ_cons, List.take_nil, applyWrites_singleton]
    refine ⟨by simpa using hb, fun i hi => ?_⟩
    rw [Function.update_of_ne (h.home_ne_start hi)]
    exact hd.2 i hi

/-- A prefix of a write list that names only the header block keeps a new state new. -/
theorem NewState.of_header_writes (h : lg.Disjoint) {d : ℕ → Block} (hd : lg.NewState cache d)
    {b : Block} (hb : HeaderClear b) (j : ℕ) :
    lg.NewState cache (applyWrites ([(lg.start, b)].take j) d) := by
  rcases j with _ | j
  · simpa using hd
  · simp only [List.take_succ_cons, List.take_nil, applyWrites_singleton]
    refine ⟨by simpa using hb, fun i hi => ?_⟩
    rw [Function.update_of_ne (h.home_ne_start hi)]
    exact hd.2 i hi

/-- Past the commit point, recovery's installs are the commit's own. -/
theorem CommittedState.recoverWrites_eq (hn : tripCount lg.lh.n ≤ logSize) (h : lg.Disjoint)
    {d : ℕ → Block} (hd : lg.CommittedState cache d) :
    ∃ b, recoverWrites lg d = lg.homeWrites cache ++ [(lg.start, b)] ∧ HeaderClear b := by
  obtain ⟨b, hb, hclear⟩ := recoverWrites_of_committed cache hn h hd.1
  refine ⟨b, ?_, hclear⟩
  rw [hb, homeWrites]
  congr 1
  exact List.map_congr_left fun i hi => by rw [hd.2 i (List.mem_range.mp hi)]

/-- Installing some of the logged blocks keeps a committed state committed. -/
theorem CommittedState.applyWrites_take (h : lg.Disjoint) {d : ℕ → Block}
    (hd : lg.CommittedState cache d) (q : ℕ) :
    lg.CommittedState cache (applyWrites ((lg.homeWrites cache).take q) d) := by
  have hsub : ∀ w ∈ (lg.homeWrites cache).take q, w ∈ lg.homeWrites cache :=
    fun w hw => List.mem_of_mem_take hw
  refine ⟨?_, fun i hi => ?_⟩
  · rw [applyWrites_of_not_mem fun w hw => homeWrites_ne_start h cache w (hsub w hw)]
    exact hd.1
  · rw [applyWrites_of_not_mem fun w hw => homeWrites_ne_log h cache hi w (hsub w hw)]
    exact hd.2 i hi

/-- Installing every logged block and then clearing the header leaves a new state. -/
theorem CommittedState.applyWrites_install (h : lg.Disjoint) {d : ℕ → Block} {b : Block}
    (hb : HeaderClear b) :
    lg.NewState cache (applyWrites (lg.homeWrites cache ++ [(lg.start, b)]) d) := by
  refine ⟨by rw [applyWrites_append_singleton]; exact hb, fun i hi => ?_⟩
  rw [applyWrites_append, applyWrites_singleton, Function.update_of_ne (h.home_ne_start hi)]
  exact applyWrites_homeWrites cache d hi

/-- Any prefix of the installs followed by the header clearing, from a committed state, leaves
a committed or a new state. -/
theorem CommittedState.applyWrites_take_install (h : lg.Disjoint) {d : ℕ → Block}
    (hd : lg.CommittedState cache d) {b : Block} (hb : HeaderClear b) (q : ℕ) :
    lg.CrashState cache disk (applyWrites ((lg.homeWrites cache ++ [(lg.start, b)]).take q) d) := by
  by_cases hq : q ≤ (lg.homeWrites cache).length
  · rw [List.take_append_of_le_length hq]
    exact .inr (.inl (hd.applyWrites_take h q))
  · rw [List.take_of_length_le (by simp at hq ⊢; omega)]
    exact .inr (.inr (CommittedState.applyWrites_install h hb))

/-- A crash during recovery, or its completion, leaves a crash state. -/
theorem CrashState.recover (hn : tripCount lg.lh.n ≤ logSize) (h : lg.Disjoint)
    {d : ℕ → Block} (hd : lg.CrashState cache disk d) (j : ℕ) :
    lg.CrashState cache disk (applyWrites ((recoverWrites lg d).take j) d) := by
  rcases hd with hold | hcom | hnew
  · obtain ⟨b, hb, hclear⟩ := recoverWrites_of_headerClear hold.1
    rw [hb]
    exact .inl (hold.of_header_writes h hclear j)
  · obtain ⟨b, hb, hclear⟩ := hcom.recoverWrites_eq hn h
    rw [hb]
    exact hcom.applyWrites_take_install h hclear j
  · obtain ⟨b, hb, hclear⟩ := recoverWrites_of_headerClear hnew.1
    rw [hb]
    exact .inr (.inr (hnew.of_header_writes h hclear j))

/-- A completed recovery from a crash state leaves an old or a new state. -/
theorem CrashState.recover_finish (hn : tripCount lg.lh.n ≤ logSize) (h : lg.Disjoint)
    {d : ℕ → Block} (hd : lg.CrashState cache disk d) :
    lg.OldState disk (applyWrites (recoverWrites lg d) d) ∨
      lg.NewState cache (applyWrites (recoverWrites lg d) d) := by
  rcases hd with hold | hcom | hnew
  · obtain ⟨b, hb, hclear⟩ := recoverWrites_of_headerClear hold.1
    have := hold.of_header_writes h hclear 1
    rw [hb]
    exact .inl this
  · obtain ⟨b, hb, hclear⟩ := hcom.recoverWrites_eq hn h
    rw [hb]
    exact .inr (CommittedState.applyWrites_install h hclear)
  · obtain ⟨b, hb, hclear⟩ := recoverWrites_of_headerClear hnew.1
    have := hnew.of_header_writes h hclear 1
    rw [hb]
    exact .inr this

/-! ## A crash during a commit -/

/-- A crash after any prefix of a commit's writes, on a disk whose header named no block,
leaves a crash state. -/
theorem crashState_commit (h : lg.Disjoint) (hclear : HeaderClear (disk lg.start)) (k : ℕ) :
    lg.CrashState cache disk (applyWrites ((commitWrites lg cache).take k) disk) := by
  by_cases hpos : 0 < lg.lh.n
  swap
  · -- nothing was logged: nothing is written
    rw [commitWrites_of_not_pos lg cache hpos, List.take_nil, applyWrites_nil]
    exact .inl ⟨hclear, fun _ _ => rfl⟩
  rw [commitWrites_eq cache hpos h]
  by_cases hk : k ≤ (lg.logWrites cache).length
  · -- the crash came before the commit point: only log blocks were written
    rw [List.take_append_of_le_length hk]
    have hsub : ∀ w ∈ (lg.logWrites cache).take k, w ∈ lg.logWrites cache :=
      fun w hw => List.mem_of_mem_take hw
    refine .inl ⟨?_, fun i hi => ?_⟩
    · rw [applyWrites_of_not_mem fun w hw => logWrites_ne_start cache w (hsub w hw)]
      exact hclear
    · exact applyWrites_of_not_mem (fun w hw => logWrites_ne_home h cache hi w (hsub w hw)) _
  · -- the header reached the disk: from there on the disk is committed, then new
    obtain ⟨q, hq⟩ : ∃ q, k = (lg.logWrites cache).length + (q + 1) :=
      ⟨k - (lg.logWrites cache).length - 1, by omega⟩
    rw [hq, List.take_append, List.take_of_length_le (by omega), Nat.add_sub_cancel_left,
      List.take_succ_cons, applyWrites_append, applyWrites_cons]
    have hcom : lg.CommittedState cache (Function.update (applyWrites (lg.logWrites cache) disk)
        lg.start (lg.committedHeader cache)) := by
      refine ⟨Function.update_self _ _ _, fun i hi => ?_⟩
      rw [Function.update_of_ne (by omega)]
      exact applyWrites_logWrites cache disk hi
    exact hcom.applyWrites_take_install h (tripCount_headerBlock_clear _ _) q

end Log

/-- However many crashes interrupt it, a recovery that completes from a crash state leaves an
old or a new state. -/
theorem Recovers.oldOrNew {lg : Log} {cache disk : ℕ → Block} (hn : tripCount lg.lh.n ≤ logSize)
    (h : lg.Disjoint) {d d' : ℕ → Block} (hrec : Recovers lg d d') (hd : lg.CrashState cache disk d) :
    lg.OldState disk d' ∨ lg.NewState cache d' := by
  induction hrec with
  | finish d => exact hd.recover_finish hn h
  | crash d j _ ih => exact ih (hd.recover hn h j)

/-- Crash atomicity of the log: take a disk between transactions, and a transaction whose
logged blocks lie outside the log region, with fewer blocks than the region holds (as
`log_write` guarantees). Crash `commit` after any prefix of its block writes. Then every
recovery that completes, after any number of crashes of its own, leaves the logged blocks
either all at their new contents, the cache's when `commit` started, or all at their old
ones. -/
theorem commit_crash_atomic {lg : Log} {d : ℕ → Block} (hd : Reachable lg.start d)
    (cache : ℕ → Block) (hn : tripCount lg.lh.n < lg.size) (hlog : tripCount lg.lh.n ≤ logSize)
    (hout : ∀ i < tripCount lg.lh.n,
      blockOf (lg.lh.block i) < lg.start ∨ lg.start + lg.size ≤ blockOf (lg.lh.block i))
    (k : ℕ) {d' : ℕ → Block}
    (hrec : Recovers lg (applyWrites ((commitWrites lg cache).take k) d) d') :
    (∀ i < tripCount lg.lh.n, d' (blockOf (lg.lh.block i)) = cache (blockOf (lg.lh.block i))) ∨
      (∀ i < tripCount lg.lh.n, d' (blockOf (lg.lh.block i)) = d (blockOf (lg.lh.block i))) := by
  have h : lg.Disjoint := fun i hi => by
    have := hout i hi
    unfold Log.home
    omega
  rcases hrec.oldOrNew hlog h (Log.crashState_commit h hd.headerClear k) with hold | hnew
  · exact .inr hold.2
  · exact .inl hnew.2

/-- The log of `mkfs`'s layout (header at block 2, 30 blocks), committing one block, block 40. -/
def oneBlockLog : Log := ⟨2, 30, ⟨1, fun _ => 40⟩⟩

/-- A crash after the log write and the header write of a one-block transaction, on the disk a
boot recovery leaves on an all-zero disk, recovered in one go. -/
theorem commit_crash_atomic_one_block :
    tripCount oneBlockLog.lh.n < oneBlockLog.size ∧ tripCount oneBlockLog.lh.n ≤ logSize ∧
      ((∀ i < 1, applyWrites (recoverWrites oneBlockLog
          (applyWrites ((commitWrites oneBlockLog fun _ => Vector.replicate bSize 7).take 2)
            (applyWrites (recoverWrites oneBlockLog fun _ => Vector.replicate bSize 0)
              fun _ => Vector.replicate bSize 0)))
          (applyWrites ((commitWrites oneBlockLog fun _ => Vector.replicate bSize 7).take 2)
            (applyWrites (recoverWrites oneBlockLog fun _ => Vector.replicate bSize 0)
              fun _ => Vector.replicate bSize 0)) 40 = Vector.replicate bSize 7) ∨
        (∀ i < 1, applyWrites (recoverWrites oneBlockLog
          (applyWrites ((commitWrites oneBlockLog fun _ => Vector.replicate bSize 7).take 2)
            (applyWrites (recoverWrites oneBlockLog fun _ => Vector.replicate bSize 0)
              fun _ => Vector.replicate bSize 0)))
          (applyWrites ((commitWrites oneBlockLog fun _ => Vector.replicate bSize 7).take 2)
            (applyWrites (recoverWrites oneBlockLog fun _ => Vector.replicate bSize 0)
              fun _ => Vector.replicate bSize 0)) 40 =
          applyWrites (recoverWrites oneBlockLog fun _ => Vector.replicate bSize 0)
            (fun _ => Vector.replicate bSize 0) 40)) :=
  ⟨by decide, by decide,
    commit_crash_atomic (Reachable.boot oneBlockLog _ rfl) _ (by decide) (by decide)
      (by decide) 2 (Recovers.finish _)⟩

end Xv6.Fs
