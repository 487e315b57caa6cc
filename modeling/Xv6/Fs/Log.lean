import Xv6.Param
import Xv6.Lib.Writes
import Xv6.Lib.LittleEndian

/-!
# The write-ahead log (`log.c`)

The file system groups the block writes of each system call into a transaction. `commit`
first copies the modified blocks into the log region (`write_log`), then writes the log
header (`write_head`), which is the commit point, then copies the logged blocks to their home
locations (`install_trans`), and last clears the header. After a crash, `recover_from_log`
reads the header and installs whatever it names.

The disk is reached through the buffer cache: `bread` returns the cache's copy of a block and
`bwrite` sends a block to the disk. `Dev` keeps what `bread` returns for every block and the
list of `bwrite` calls issued so far, oldest first, so that a crash can be placed after any
prefix of them (`Writes.applyWrites`). The header block is read through the byte layout of
`struct logheader`: `n` is the word at index 0 and `block[i]` the word at index `i + 1`.

## Main definitions

* `installTrans`, `readHead`, `writeHead`, `recoverFromLog`, `writeLog`, `commit`: the
  functions of `log.c`.
* `commitWrites`, `recoverWrites`: the block writes a commit, and a recovery after a reboot,
  issue.

## Main results

* `writeLog_eq`, `installTrans_eq`: the two copy loops as lists of writes, when no block they
  write is one they later read.
* `readHead_of_headerBlock`: the header read back from a written header block.
-/

namespace Xv6.Fs

open LittleEndian Writes

/-- A disk block's data, `uchar data[BSIZE]`. -/
abbrev Block := Vector UInt8 bSize

/-- `struct logheader`: how many blocks are logged and their block numbers. The array
`int block[LOGSIZE]` is a function of the index; the code reads entries below `n` only. -/
structure LogHeader where
  /-- `n`: the number of logged blocks. -/
  n : Int32
  /-- `block[i]`: the home block number of the `i`-th logged block. -/
  block : ℕ → Int32

/-- The fields of `struct log` that the commit and recovery paths read. -/
structure Log where
  /-- `start`: the block number of the log header; log data blocks follow it. -/
  start : ℕ
  /-- `size`: the number of blocks of the log region, header included. -/
  size : ℕ
  /-- `lh`: the in-memory copy of the log header. -/
  lh : LogHeader

/-- The disk through the buffer cache: the data `bread` returns for each block, and the
`bwrite` calls issued so far, oldest first. -/
structure Dev where
  /-- The data of each block as the cache holds it, dirty buffers included. -/
  cache : ℕ → Block
  /-- The blocks sent to the disk, in order. -/
  writes : List (ℕ × Block)

/-- `bread`: the buffer's data for block `b`. -/
def bread (dev : Dev) (b : ℕ) : Block := dev.cache b

/-- `bwrite` of block `b` holding `data`: the disk write is recorded and the cache keeps it. -/
def bwrite (dev : Dev) (b : ℕ) (data : Block) : Dev :=
  { cache := Function.update dev.cache b data, writes := dev.writes ++ [(b, data)] }

/-- A block number stored as `int` in the header, read back as the `uint` that `bread` takes. -/
def blockOf (x : Int32) : ℕ := x.toUInt32.toNat

/-- The trip count of `for (i = 0; i < n; i++)` for an `int` bound `n`. -/
def tripCount (n : Int32) : ℕ := n.toNatClampNeg

/-- `install_trans`: copy each logged block from the log to its home location. -/
def installTrans (lg : Log) (dev : Dev) : Dev :=
  (List.range (tripCount lg.lh.n)).foldl
    (fun dev tail => bwrite dev (blockOf (lg.lh.block tail)) (bread dev (lg.start + tail + 1)))
    dev

/-- `read_head`: read the on-disk header into the in-memory one. -/
def readHead (lg : Log) (dev : Dev) : Log :=
  let hb := bread dev lg.start
  let n := (wordAt hb 0).toInt32
  -- the loop copies the first `n` entries only; the others keep what memory held
  { lg with
    lh := { n := n
            block := fun i => if i < tripCount n then (wordAt hb (i + 1)).toInt32
              else lg.lh.block i } }

/-- The header block `write_head` builds from the buffer `buf`: `n`, then the first `n`
entries; the rest of the buffer is kept. -/
def headerBlock (lh : LogHeader) (buf : Block) : Block :=
  (List.range (tripCount lh.n)).foldl (fun b i => setWordAt b (i + 1) (lh.block i).toUInt32)
    (setWordAt buf 0 lh.n.toUInt32)

/-- `write_head`: write the in-memory header to the header block. This is the commit point. -/
def writeHead (lg : Log) (dev : Dev) : Dev :=
  bwrite dev lg.start (headerBlock lg.lh (bread dev lg.start))

/-- `recover_from_log`: install what the on-disk header names, then clear the header. -/
def recoverFromLog (lg : Log) (dev : Dev) : Log × Dev :=
  let lg := readHead lg dev
  let dev := installTrans lg dev
  let lg := { lg with lh := { lg.lh with n := 0 } }
  (lg, writeHead lg dev)

/-- `write_log`: copy each modified block from the cache to the log. -/
def writeLog (lg : Log) (dev : Dev) : Dev :=
  (List.range (tripCount lg.lh.n)).foldl
    (fun dev tail => bwrite dev (lg.start + tail + 1) (bread dev (blockOf (lg.lh.block tail))))
    dev

/-- `commit`: log, commit, install and clear, when the transaction logged any block. -/
def commit (lg : Log) (dev : Dev) : Log × Dev :=
  if 0 < lg.lh.n then
    let dev := writeLog lg dev
    let dev := writeHead lg dev
    let dev := installTrans lg dev
    -- the second header write, with `n = 0`, ends the transaction
    let lg := { lg with lh := { lg.lh with n := 0 } }
    (lg, writeHead lg dev)
  else (lg, dev)

/-- The block writes `commit` issues, from a cache holding the transaction's blocks. -/
def commitWrites (lg : Log) (cache : ℕ → Block) : List (ℕ × Block) :=
  (commit lg ⟨cache, []⟩).2.writes

/-- The block writes `recover_from_log` issues after a reboot, when the cache starts out as
the disk `d`. -/
def recoverWrites (lg : Log) (d : ℕ → Block) : List (ℕ × Block) :=
  (recoverFromLog lg ⟨d, []⟩).2.writes

/-! ## The copy loops -/

/-- A loop that copies block `src i` to block `dst i` for each `i` of `l`, in order, issues the
writes `(dst i, data of src i)`, when no block it writes is one it reads. -/
theorem foldl_copy_eq (src dst : ℕ → ℕ) (l : List ℕ) (dev : Dev)
    (hsep : ∀ i ∈ l, ∀ j ∈ l, dst i ≠ src j) :
    l.foldl (fun dev i => bwrite dev (dst i) (bread dev (src i))) dev =
      ⟨applyWrites (l.map fun i => (dst i, dev.cache (src i))) dev.cache,
        dev.writes ++ l.map fun i => (dst i, dev.cache (src i))⟩ := by
  induction l generalizing dev with
  | nil => simp
  | cons i l ih =>
    rw [List.foldl_cons, ih]
    · -- the first write does not touch the blocks the rest of the loop reads
      have hread : ∀ j ∈ l, Function.update dev.cache (dst i) (dev.cache (src i)) (src j) =
          dev.cache (src j) := fun j hj =>
        Function.update_of_ne (hsep i List.mem_cons_self j (List.mem_cons_of_mem _ hj)).symm _ _
      simp only [bwrite, bread, List.map_cons, applyWrites_cons, List.append_assoc,
        List.singleton_append, Dev.mk.injEq]
      rw [List.map_congr_left (fun j hj => by rw [hread j hj])]
      exact ⟨rfl, rfl⟩
    · exact fun a ha b hb => hsep a (List.mem_cons_of_mem _ ha) b (List.mem_cons_of_mem _ hb)

/-- `write_log` as a list of writes: block `i` of the log receives logged block `i`. -/
theorem writeLog_eq (lg : Log) (dev : Dev)
    (hsep : ∀ i < tripCount lg.lh.n, ∀ j < tripCount lg.lh.n,
      lg.start + i + 1 ≠ blockOf (lg.lh.block j)) :
    writeLog lg dev =
      ⟨applyWrites ((List.range (tripCount lg.lh.n)).map
          fun i => (lg.start + i + 1, dev.cache (blockOf (lg.lh.block i)))) dev.cache,
        dev.writes ++ (List.range (tripCount lg.lh.n)).map
          fun i => (lg.start + i + 1, dev.cache (blockOf (lg.lh.block i)))⟩ :=
  foldl_copy_eq _ _ _ dev fun i hi j hj =>
    hsep i (List.mem_range.mp hi) j (List.mem_range.mp hj)

/-- `install_trans` as a list of writes: each logged block receives its copy in the log. -/
theorem installTrans_eq (lg : Log) (dev : Dev)
    (hsep : ∀ i < tripCount lg.lh.n, ∀ j < tripCount lg.lh.n,
      blockOf (lg.lh.block i) ≠ lg.start + j + 1) :
    installTrans lg dev =
      ⟨applyWrites ((List.range (tripCount lg.lh.n)).map
          fun i => (blockOf (lg.lh.block i), dev.cache (lg.start + i + 1))) dev.cache,
        dev.writes ++ (List.range (tripCount lg.lh.n)).map
          fun i => (blockOf (lg.lh.block i), dev.cache (lg.start + i + 1))⟩ :=
  foldl_copy_eq _ _ _ dev fun i hi j hj =>
    hsep i (List.mem_range.mp hi) j (List.mem_range.mp hj)

/-- `install_trans` of a header naming no block issues no write. -/
theorem installTrans_of_tripCount_eq_zero (lg : Log) (dev : Dev) (h : tripCount lg.lh.n = 0) :
    installTrans lg dev = dev := by
  simp [installTrans, h]

/-! ## The header block -/

/-- Writing words `1, …, m` leaves word `0` and every word past `m` alone, and word `i + 1`
holds entry `i`. -/
theorem wordAt_foldl_setWordAt (f : ℕ → UInt32) (b : Block) (m j : ℕ)
    (hm : 4 * m + 3 < bSize) :
    wordAt ((List.range m).foldl (fun b i => setWordAt b (i + 1) (f i)) b) j =
      if 1 ≤ j ∧ j ≤ m then f (j - 1) else wordAt b j := by
  induction m with
  | zero => simp only [List.range_zero, List.foldl_nil]; rw [if_neg (by omega)]
  | succ m ih =>
    rw [List.range_succ, List.foldl_append, List.foldl_cons, List.foldl_nil]
    by_cases hj : j = m + 1
    · subst hj
      rw [wordAt_setWordAt_self (by omega)]
      simp
    · rw [wordAt_setWordAt_of_ne (Ne.symm hj), ih (by omega)]
      by_cases hlo : 1 ≤ j ∧ j ≤ m
      · simp [hlo, show 1 ≤ j ∧ j ≤ m + 1 by omega]
      · simp [hlo, show ¬ (1 ≤ j ∧ j ≤ m + 1) by omega]

/-- The count field of a written header block. -/
theorem wordAt_headerBlock_zero (lh : LogHeader) (buf : Block) (hn : tripCount lh.n ≤ logSize) :
    wordAt (headerBlock lh buf) 0 = lh.n.toUInt32 := by
  rw [headerBlock, wordAt_foldl_setWordAt _ _ _ _ (by simp [logSize, maxOpBlocks, bSize] at *; omega),
    if_neg (by omega)]
  exact wordAt_setWordAt_self (by simp [bSize]) _

/-- Entry `i < n` of a written header block. -/
theorem wordAt_headerBlock_succ (lh : LogHeader) (buf : Block) (hn : tripCount lh.n ≤ logSize)
    {i : ℕ} (hi : i < tripCount lh.n) :
    wordAt (headerBlock lh buf) (i + 1) = (lh.block i).toUInt32 := by
  rw [headerBlock, wordAt_foldl_setWordAt _ _ _ _ (by simp [logSize, maxOpBlocks, bSize] at *; omega)]
  simp [show 1 ≤ i + 1 ∧ i + 1 ≤ tripCount lh.n by omega]

/-- A header block written with count `0` reads back as naming no block. -/
theorem tripCount_headerBlock_clear (lh : LogHeader) (buf : Block) :
    tripCount (wordAt (headerBlock { lh with n := 0 } buf) 0).toInt32 = 0 := by
  rw [wordAt_headerBlock_zero _ _ (by simp [tripCount, logSize])]
  rfl

/-- What `read_head` reads from a header block that `write_head` built: the same count and
the same first `n` entries. -/
theorem readHead_of_headerBlock (lg : Log) (dev : Dev) {lh : LogHeader} {buf : Block}
    (hblk : bread dev lg.start = headerBlock lh buf) (hn : tripCount lh.n ≤ logSize) :
    (readHead lg dev).lh.n = lh.n ∧
      ∀ i < tripCount lh.n, (readHead lg dev).lh.block i = lh.block i := by
  have hcount : (wordAt (bread dev lg.start) 0).toInt32 = lh.n := by
    rw [hblk, wordAt_headerBlock_zero _ _ hn, Int32.toInt32_toUInt32]
  refine ⟨hcount, fun i hi => ?_⟩
  simp only [readHead, hcount, hi, if_true]
  rw [hblk, wordAt_headerBlock_succ _ _ hn hi, Int32.toInt32_toUInt32]

end Xv6.Fs
