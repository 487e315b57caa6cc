import Xv6.Fs.Layout
import Xv6.Lib.StateExcept

/-!
# Inodes (`fs.c`)

The kernel's file system below the directories: the block allocator (`balloc`, `bfree`), the
inode allocator (`ialloc`, `iupdate`), the inode cache (`iget`, `idup`, `ilock`, `iunlock`,
`iput`) and the contents of an inode (`bmap`, `itrunc`, `readi`, `writei`).

The state is the block data as `bread` returns it, the superblock and the cache `icache`. A
write goes through `log_write` and `bread` sees it at once: the commit and the buffer cache are
`Fs.Log`, `Fs.LogTxn` and `Fs.Bio`, and a system call here runs inside one transaction. There is
one disk, so the device numbers kept in the cache do not select a disk. The model runs one
system call at a time: an inode's sleep lock never waits, and `iunlock` checks the reference
count only. A pointer into `icache` is the index of its entry.

`readi` and `writei` of a device inode hand the call to `devsw[major]`, which only the console
fills; the model checks the major number as the code does and ends there.

## Main definitions

* `FsState`, `iinit`, `FsM`: the state, the state at boot, and the kernel's computations on it,
  which may panic.
* `balloc`, `bfree`, `ialloc`, `iupdate`, `iget`, `idup`, `ilock`, `iunlock`, `iput`, `itrunc`,
  `bmap`, `readi`, `writei`: the functions of `fs.c`.
-/

namespace Xv6.Fs

open LittleEndian

/-! ## The state -/

/-- `struct inode`: an entry of `icache`. -/
structure Inode where
  dev : UInt32
  inum : UInt32
  /-- `ref`: the pointers to the entry held outside the cache. -/
  ref : Int32
  /-- `valid`: `din` has been read from disk. -/
  valid : Int32
  /-- The copy of the on-disk inode, `type` to `addrs`: `ilock` reads it, `iupdate` writes it. -/
  din : DInode
  deriving DecidableEq, Repr

/-- `icache` has entries: its first ones are named by numerals. -/
instance : NeZero nInode := ⟨by decide⟩

/-- A zeroed entry of `icache`, as the kernel starts. -/
def Inode.zero : Inode := ⟨0, 0, 0, 0, DInode.zero⟩

/-- What the kernel's file system reads and writes. -/
structure FsState where
  /-- The data `bread` returns for each block: the disk under the transaction's writes. -/
  disk : ℕ → Block
  /-- `sb`: the superblock, as `iinit` and `bfree` read it. -/
  sb : Superblock
  /-- `icache.inode`. -/
  icache : Fin nInode → Inode

/-- The file system as the kernel starts on a disk: `iinit` reads the superblock, and every entry
of `icache` is zero. -/
def iinit (disk : ℕ → Block) : FsState where
  disk := disk
  sb := readsb (disk 1)
  icache := fun _ => Inode.zero

/-- A computation of the file system, which may `panic`. -/
abbrev FsM := StateT FsState (Except String)

/-- `bread(dev, b)->data`. -/
def readBlock (b : ℕ) : FsM Block := do return (← get).disk b

/-- `log_write` of a buffer of block `b` that now holds `data`. -/
def writeBlock (b : ℕ) (data : Block) : FsM Unit :=
  modify fun s => { s with disk := Function.update s.disk b data }

/-- The global `sb`. -/
def getSb : FsM Superblock := do return (← get).sb

/-- `*ip` for `ip = &icache.inode[i]`. -/
def getInode (ip : Fin nInode) : FsM Inode := do return (← get).icache ip

/-- A change to the fields of `icache.inode[ip]`. -/
def modifyInode (ip : Fin nInode) (f : Inode → Inode) : FsM Unit :=
  modify fun s => { s with icache := Function.update s.icache ip (f (s.icache ip)) }

@[simp]
theorem run_readBlock (s : FsState) (b : ℕ) : (readBlock b).run s = .ok (s.disk b, s) := rfl

@[simp]
theorem run_writeBlock (s : FsState) (b : ℕ) (data : Block) :
    (writeBlock b data).run s = .ok ((), { s with disk := Function.update s.disk b data }) := rfl

@[simp]
theorem run_getSb (s : FsState) : getSb.run s = .ok (s.sb, s) := rfl

@[simp]
theorem run_getInode (s : FsState) (ip : Fin nInode) :
    (getInode ip).run s = .ok (s.icache ip, s) := rfl

@[simp]
theorem run_modifyInode (s : FsState) (ip : Fin nInode) (f : Inode → Inode) :
    (modifyInode ip f).run s =
      .ok ((), { s with icache := Function.update s.icache ip (f (s.icache ip)) }) := rfl

/-! ## Blocks -/

/-- `bzero(dev, bno)`. -/
def bzero (bno : ℕ) : FsM Unit := writeBlock bno zeroBlock

/-- The inner loop of `balloc` over the bitmap block of blocks `b` to `b + BPB - 1`: the first
block inside the disk whose bit is clear. -/
def ballocScan (bp : Block) (b size : ℕ) : Option ℕ :=
  (List.range bpb).find? fun bi => decide (b + bi < size) && !bitAt bp bi

/-- The outer loop of `balloc`, from the bitmap block of block `b` on. -/
def ballocLoop (size : ℕ) : ℕ → ℕ → FsM UInt32
  | 0, _ => throw "balloc: out of blocks"
  | fuel + 1, b =>
    if b < size then do
      let sb ← getSb
      let bp ← readBlock (bblock sb b)
      match ballocScan bp b size with
      | some bi => do
        -- mark the block in use, and zero it
        writeBlock (bblock sb b) (setBit bp bi)
        bzero (b + bi)
        pure (UInt32.ofNat (b + bi))
      | none => ballocLoop size fuel (b + bpb)
    else throw "balloc: out of blocks"

/-- `balloc(dev)`: allocate a zeroed disk block. -/
def balloc : FsM UInt32 := do
  let sb ← getSb
  ballocLoop sb.size.toNat (sb.size.toNat / bpb + 1) 0

/-- `bfree(dev, b)`: clear the bit of block `b`, which has to be set. -/
def bfree (b : ℕ) : FsM Unit := do
  -- readsb(dev, &sb)
  let sb := readsb (← readBlock 1)
  modify fun s => { s with sb := sb }
  let bp ← readBlock (bblock sb b)
  let bi := b % bpb
  if !bitAt bp bi then throw "freeing free block"
  writeBlock (bblock sb b) (clearBit bp bi)

/-! ## The inode cache -/

/-- `ip->ref > 0 && ip->dev == dev && ip->inum == inum`. -/
def Inode.holds (x : Inode) (dev inum : UInt32) : Bool := 0 < x.ref && x.dev == dev && x.inum == inum

/-- `iget(dev, inum)`: another reference to the entry that holds the inode, or else the first
entry without references, taken for it and not yet read. -/
def iget (dev inum : UInt32) : FsM (Fin nInode) := do
  let c := (← get).icache
  match (List.finRange nInode).find? fun ip => (c ip).holds dev inum with
  | some ip => do
    modifyInode ip fun x => { x with ref := x.ref + 1 }
    pure ip
  | none =>
    -- Recycle an inode cache entry.
    match (List.finRange nInode).find? fun ip => (c ip).ref == 0 with
    | some ip => do
      modifyInode ip fun x => { x with dev := dev, inum := inum, ref := 1, valid := 0 }
      pure ip
    | none => throw "iget: no inodes"

/-- `idup(ip)`. -/
def idup (ip : Fin nInode) : FsM (Fin nInode) := do
  modifyInode ip fun x => { x with ref := x.ref + 1 }
  pure ip

/-- `iupdate(ip)`: copy the entry's inode to its slot on disk. -/
def iupdate (ip : Fin nInode) : FsM Unit := do
  let x ← getInode ip
  let sb ← getSb
  let bp ← readBlock (iblock sb x.inum.toNat)
  writeBlock (iblock sb x.inum.toNat) (setDinodeAt bp (x.inum.toNat % ipb) x.din)

/-- The loop of `ialloc` from inode `inum` on. -/
def iallocLoop (dev : UInt32) (type : Int16) : ℕ → ℕ → FsM (Fin nInode)
  | 0, _ => throw "ialloc: no inodes"
  | fuel + 1, inum => do
    let sb ← getSb
    if inum < sb.ninodes.toNat then do
      let bp ← readBlock (iblock sb inum)
      if (dinodeAt bp (inum % ipb)).type = 0 then do
        -- a free inode: zero it, give it the type, and take a reference
        writeBlock (iblock sb inum) (setDinodeAt bp (inum % ipb) { DInode.zero with type := type })
        iget dev (UInt32.ofNat inum)
      else iallocLoop dev type fuel (inum + 1)
    else throw "ialloc: no inodes"

/-- `ialloc(dev, type)`: the first inode on disk with type `0`, given `type`. -/
def ialloc (dev : UInt32) (type : Int16) : FsM (Fin nInode) := do
  iallocLoop dev type (← getSb).ninodes.toNat 1

/-- `ilock(ip)`: read the inode from disk unless the entry holds it already. -/
def ilock (ip : Fin nInode) : FsM Unit := do
  let x ← getInode ip
  if x.ref < 1 then throw "ilock"
  if x.valid = 0 then do
    let sb ← getSb
    let bp ← readBlock (iblock sb x.inum.toNat)
    let din := dinodeAt bp (x.inum.toNat % ipb)
    modifyInode ip fun x => { x with din := din, valid := 1 }
    if din.type = 0 then throw "ilock: no type"

/-- `iunlock(ip)`. -/
def iunlock (ip : Fin nInode) : FsM Unit := do
  if (← getInode ip).ref < 1 then throw "iunlock"

/-- The direct blocks of `itrunc`: free each one in use and clear its address. -/
def itruncDirect (ip : Fin nInode) : List ℕ → FsM Unit
  | [] => pure ()
  | i :: is => do
    let a := (← getInode ip).din.addr i
    if a ≠ 0 then do
      bfree a.toNat
      modifyInode ip fun x => { x with din := x.din.setAddr i 0 }
    itruncDirect ip is

/-- The entries of the indirect block `ind` in `itrunc`: free each one in use. -/
def itruncIndirect (ind : ℕ) : List ℕ → FsM Unit
  | [] => pure ()
  | j :: js => do
    let a := wordAt (← readBlock ind) j
    if a ≠ 0 then bfree a.toNat
    itruncIndirect ind js

/-- `itrunc(ip)`: free the blocks of the inode and make it empty. -/
def itrunc (ip : Fin nInode) : FsM Unit := do
  itruncDirect ip (List.range nDirect)
  let ind := (← getInode ip).din.addr nDirect
  if ind ≠ 0 then do
    itruncIndirect ind.toNat (List.range nIndirect)
    bfree ind.toNat
    modifyInode ip fun x => { x with din := x.din.setAddr nDirect 0 }
  modifyInode ip fun x => { x with din := { x.din with size := 0 } }
  iupdate ip

/-- `iput(ip)`: drop a reference; the last one to an inode without links frees it on disk. -/
def iput (ip : Fin nInode) : FsM Unit := do
  let x ← getInode ip
  if x.valid ≠ 0 ∧ x.din.nlink = 0 then
    -- the reference count, read under `icache.lock`
    if x.ref = 1 then do
      itrunc ip
      modifyInode ip fun x => { x with din := { x.din with type := 0 } }
      iupdate ip
      modifyInode ip fun x => { x with valid := 0 }
  modifyInode ip fun x => { x with ref := x.ref - 1 }

/-- `iunlockput(ip)`. -/
def iunlockput (ip : Fin nInode) : FsM Unit := do
  iunlock ip
  iput ip

/-! ## Inode contents -/

/-- `bmap(ip, bn)`: the block holding block `bn` of the inode, allocated if there is none. -/
def bmap (ip : Fin nInode) (bn : ℕ) : FsM UInt32 := do
  if bn < nDirect then do
    let addr := (← getInode ip).din.addr bn
    if addr = 0 then do
      let addr ← balloc
      modifyInode ip fun x => { x with din := x.din.setAddr bn addr }
      pure addr
    else pure addr
  else if bn - nDirect < nIndirect then do
    -- Load indirect block, allocating if necessary.
    let ind ← do
      let addr := (← getInode ip).din.addr nDirect
      if addr = 0 then do
        let addr ← balloc
        modifyInode ip fun x => { x with din := x.din.setAddr nDirect addr }
        pure addr
      else pure addr
    let addr := wordAt (← readBlock ind.toNat) (bn - nDirect)
    if addr = 0 then do
      let addr ← balloc
      -- `a[bn] = addr` in the buffer of the indirect block, then `log_write(bp)`
      let bp ← readBlock ind.toNat
      writeBlock ind.toNat (setWordAt bp (bn - nDirect) addr)
      pure addr
    else pure addr
  else throw "bmap: out of range"

/-- `CONSOLE`: the one major number `devsw` has a driver for. -/
def consoleMajor : Int16 := 1

/-- `ip->major < 0 || ip->major >= NDEV || !devsw[ip->major].read` (or `.write`). -/
def noDriver (major : Int16) : Bool := major < 0 || nDev ≤ major.toInt || major != consoleMajor

/-- The copy loop of `readi`: `tot` of the `n` bytes copied, the next from offset `off`. -/
def readiLoop (ip : Fin nInode) (n : UInt32) : ℕ → UInt32 → UInt32 → List UInt8 → FsM (List UInt8)
  | 0, _, _, dst => pure dst
  | fuel + 1, tot, off, dst =>
    if tot < n then do
      let addr ← bmap ip (off / UInt32.ofNat bSize).toNat
      let bp ← readBlock addr.toNat
      let m := min (n - tot) (UInt32.ofNat bSize - off % UInt32.ofNat bSize)
      readiLoop ip n fuel (tot + m) (off + m)
        (dst ++ bytesAt bp (off % UInt32.ofNat bSize).toNat m.toNat)
    else pure dst

/-- `readi(ip, dst, off, n)`: the count read, or `-1`, and the bytes copied to `dst`. -/
def readi (ip : Fin nInode) (off n : UInt32) : FsM (Int32 × List UInt8) := do
  let x ← getInode ip
  if x.din.type = tDev then
    if noDriver x.din.major then pure (-1, []) else throw "devsw read"
  else if off > x.din.size || off + n < off then pure (-1, [])
  else do
    let n := if off + n > x.din.size then x.din.size - off else n
    let dst ← readiLoop ip n (n.toNat + 1) 0 off []
    pure (n.toInt32, dst)

/-- The copy loop of `writei`; it returns the offset it stops at. -/
def writeiLoop (ip : Fin nInode) (src : List UInt8) (n : UInt32) :
    ℕ → UInt32 → UInt32 → FsM UInt32
  | 0, _, off => pure off
  | fuel + 1, tot, off =>
    if tot < n then do
      let addr ← bmap ip (off / UInt32.ofNat bSize).toNat
      let bp ← readBlock addr.toNat
      let m := min (n - tot) (UInt32.ofNat bSize - off % UInt32.ofNat bSize)
      writeBlock addr.toNat
        (copyAt bp (off % UInt32.ofNat bSize).toNat ((src.drop tot.toNat).take m.toNat))
      writeiLoop ip src n fuel (tot + m) (off + m)
    else pure off

/-- `writei(ip, src, off, n)`: the count written, or `-1`. -/
def writei (ip : Fin nInode) (src : List UInt8) (off n : UInt32) : FsM Int32 := do
  let x ← getInode ip
  if x.din.type = tDev then
    if noDriver x.din.major then pure (-1) else throw "devsw write"
  else if off > x.din.size || off + n < off then pure (-1)
  else if off + n > UInt32.ofNat (maxFile * bSize) then pure (-1)
  else do
    let off ← writeiLoop ip src n (n.toNat + 1) 0 off
    if n > 0 && off > (← getInode ip).din.size then do
      modifyInode ip fun x => { x with din := { x.din with size := off } }
      iupdate ip
    pure n.toInt32

/-! ## Runs of the inode layer

Each lemma gives the run of one function from a state where its case is known, in the form
callers rewrite with: the value and the state after it. -/

/-- The first entry of `icache` with a property, as the scans of `iget` find it. -/
theorem find?_finRange_eq_some {n : ℕ} {p : Fin n → Bool} {k : Fin n} (hk : p k)
    (hbefore : ∀ i < k, p i = false) : (List.finRange n).find? p = some k := by
  rw [List.find?_eq_some_iff_getElem]
  refine ⟨hk, k.val, by simp, by simp, fun j hj => ?_⟩
  simp only [List.getElem_finRange, Bool.not_eq_true']
  exact hbefore _ (by simp [Fin.lt_def]; omega)

/-- `iget` of an inode no entry holds takes the first entry without references. -/
theorem run_iget_new (s : FsState) {dev inum : UInt32} {k : Fin nInode}
    (hnone : ∀ i, (s.icache i).holds dev inum = false) (hfree : (s.icache k).ref = 0)
    (hbefore : ∀ i < k, (s.icache i).ref ≠ 0) :
    (iget dev inum).run s = .ok (k, { s with icache := (Function.update s.icache k
      { s.icache k with dev := dev, inum := inum, ref := 1, valid := 0 }) }) := by
  have h₁ : (List.finRange nInode).find? (fun ip => (s.icache ip).holds dev inum) = none :=
    List.find?_eq_none.mpr fun i _ => by simp [hnone i]
  have h₂ : (List.finRange nInode).find? (fun ip => (s.icache ip).ref == 0) = some k :=
    find?_finRange_eq_some (by simp [hfree]) fun i hi => by simp [hbefore i hi]
  simp only [iget, StateT.run_bind, StateT.run_get, pure_bind, bind_pure_comp]
  rw [h₁, h₂]
  rfl

/-- `iget` of an inode an entry with references holds: one more reference to the first such
entry. -/
theorem run_iget_hit (s : FsState) {dev inum : UInt32} {k : Fin nInode}
    (hk : (s.icache k).holds dev inum = true)
    (hbefore : ∀ i < k, (s.icache i).holds dev inum = false) :
    (iget dev inum).run s = .ok (k, { s with icache := (Function.update s.icache k
      { s.icache k with ref := (s.icache k).ref + 1 }) }) := by
  have h : (List.finRange nInode).find? (fun ip => (s.icache ip).holds dev inum) = some k :=
    find?_finRange_eq_some hk hbefore
  simp only [iget, StateT.run_bind, StateT.run_get, pure_bind, bind_pure_comp]
  rw [h]
  rfl

/-- `ilock` of an entry not read yet reads its inode from disk. -/
theorem run_ilock_load (s : FsState) (ip : Fin nInode) (href : ¬ (s.icache ip).ref < 1)
    (hvalid : (s.icache ip).valid = 0)
    (htype : (dinodeAt (s.disk (iblock s.sb (s.icache ip).inum.toNat))
      ((s.icache ip).inum.toNat % ipb)).type ≠ 0) :
    (ilock ip).run s = .ok ((), { s with icache := (Function.update s.icache ip
      { s.icache ip with din := (dinodeAt (s.disk (iblock s.sb (s.icache ip).inum.toNat))
          ((s.icache ip).inum.toNat % ipb)), valid := 1 }) }) := by
  -- one bind at a time: `simp` over the whole body builds a term the kernel cannot check
  unfold ilock
  rw [StateT.run_bind, run_getInode, StateExcept.ok_bind]
  dsimp only
  rw [if_neg href, if_pos hvalid, StateT.run_bind, run_getSb, StateExcept.ok_bind]
  dsimp only
  rw [StateT.run_bind, run_readBlock, StateExcept.ok_bind]
  dsimp only
  rw [StateT.run_bind, run_modifyInode, StateExcept.ok_bind]
  dsimp only
  rw [if_neg htype]
  rfl

/-- `iunlock` of an entry with references changes nothing. -/
theorem run_iunlock (s : FsState) (ip : Fin nInode) (href : ¬ (s.icache ip).ref < 1) :
    (iunlock ip).run s = .ok ((), s) := by
  rw [iunlock, StateT.run_bind, run_getInode, StateExcept.ok_bind]
  dsimp only
  rw [if_neg href]
  rfl

/-- `iput` of an inode that has links, or has not been read: one reference fewer, and the inode
stays on disk and in the entry. -/
theorem run_iput_linked (s : FsState) (ip : Fin nInode)
    (hlink : ¬ ((s.icache ip).valid ≠ 0 ∧ (s.icache ip).din.nlink = 0)) :
    (iput ip).run s = .ok ((), { s with icache := (Function.update s.icache ip
      { s.icache ip with ref := (s.icache ip).ref - 1 }) }) := by
  rw [iput, StateT.run_bind, run_getInode, StateExcept.ok_bind]
  dsimp only
  rw [if_neg hlink]
  rfl

/-- `iupdate` writes the entry's inode into its slot of the inode block. -/
theorem run_iupdate (s : FsState) (ip : Fin nInode) :
    (iupdate ip).run s = .ok ((), { s with disk := (Function.update s.disk
      (iblock s.sb (s.icache ip).inum.toNat)
      (setDinodeAt (s.disk (iblock s.sb (s.icache ip).inum.toNat))
        ((s.icache ip).inum.toNat % ipb) (s.icache ip).din)) }) := rfl

/-- The first clear bit of a bitmap block that marks exactly the blocks below `used`. -/
theorem ballocScan_eq_some {bp : Block} {used size : ℕ} (hused : used < size) (hroom : used < bpb)
    (hbits : ∀ bi < bpb, bitAt bp bi = decide (bi < used)) :
    ballocScan bp 0 size = some used := by
  rw [ballocScan, List.find?_range_eq_some]
  refine ⟨by simp [hbits used hroom, hused], List.mem_range.mpr hroom, fun j hj => ?_⟩
  simp [hbits j (by omega), hj]

/-- `balloc` on a disk whose bitmap block marks exactly the blocks below `used`: block `used` is
taken, marked in the bitmap and zeroed. -/
theorem run_balloc_next (s : FsState) {used : ℕ} (hused : used < s.sb.size.toNat)
    (hroom : used < bpb)
    (hbits : ∀ bi < bpb, bitAt (s.disk s.sb.bmapstart.toNat) bi = decide (bi < used)) :
    balloc.run s = .ok (UInt32.ofNat used, { s with disk := (Function.update
      (Function.update s.disk s.sb.bmapstart.toNat (setBit (s.disk s.sb.bmapstart.toNat) used))
      used zeroBlock) }) := by
  have hb0 : bblock s.sb 0 = s.sb.bmapstart.toNat := by rw [bblock, Nat.zero_div, Nat.zero_add]
  rw [balloc, StateT.run_bind, run_getSb, StateExcept.ok_bind]
  dsimp only
  -- one pass of the loop, through its recursor: the equations of `ballocLoop` cannot be
  -- generated, since reducing its `match` evaluates `List.range BPB`
  delta ballocLoop
  dsimp only
  delta ballocLoop._f
  dsimp only
  -- the first bitmap block holds the clear bit
  rw [if_pos (by omega), StateT.run_bind, run_getSb, StateExcept.ok_bind]
  dsimp only
  rw [StateT.run_bind, run_readBlock, StateExcept.ok_bind]
  dsimp only
  rw [hb0, ballocScan_eq_some hused hroom hbits]
  dsimp only
  rw [Nat.zero_add]
  rfl

/-- `bmap` of a direct block the inode does not have yet: `balloc` gives one, and the entry's
address is set in the cache, not on disk. -/
theorem run_bmap_alloc (s : FsState) (ip : Fin nInode) {bn : ℕ} (hbn : bn < nDirect)
    (h : (s.icache ip).din.addr bn = 0) {a : UInt32} {s' : FsState}
    (hb : balloc.run s = .ok (a, s')) :
    (bmap ip bn).run s = .ok (a, { s' with icache := (Function.update s'.icache ip
      { s'.icache ip with din := (s'.icache ip).din.setAddr bn a }) }) := by
  unfold bmap
  rw [if_pos hbn, StateT.run_bind, run_getInode, StateExcept.ok_bind]
  dsimp only
  rw [if_pos h, StateT.run_bind, hb, StateExcept.ok_bind]
  rfl

/-- `bmap` of a block that is there returns it and allocates nothing. -/
theorem run_bmap_mapped (s : FsState) (ip : Fin nInode) {bn : ℕ} (hbn : bn < maxFile)
    (h : blockAddr s.disk (s.icache ip).din bn ≠ 0) :
    (bmap ip bn).run s = .ok (UInt32.ofNat (blockAddr s.disk (s.icache ip).din bn), s) := by
  by_cases hd : bn < nDirect
  · have ha : (s.icache ip).din.addr bn ≠ 0 := by
      intro h0
      simp [blockAddr, hd, h0] at h
    simp [bmap, hd, ha, blockAddr]
  · -- past the direct blocks: the indirect block and its entry are there
    have hind : (s.icache ip).din.addr nDirect ≠ 0 := by
      intro h0
      simp [blockAddr, hd, h0] at h
    have hent : wordAt (s.disk ((s.icache ip).din.addr nDirect).toNat) (bn - nDirect) ≠ 0 := by
      intro h0
      simp [blockAddr, hd, hind, h0] at h
    have hi : bn - nDirect < nIndirect := by simp [maxFile] at hbn; omega
    simp [bmap, hd, hind, hent, hi, blockAddr]

/-- The bytes one pass of the copy loop takes: those of block `off / BSIZE` from `off` on. -/
theorem bytesAt_eq_bytesFrom (disk : ℕ → Block) (d : DInode) {off m : ℕ}
    (hm : off % bSize + m ≤ bSize) :
    bytesAt (disk (blockAddr disk d (off / bSize))) (off % bSize) m = bytesFrom disk d off m := by
  refine List.map_congr_left fun i hi => ?_
  have hi' := List.mem_range.mp hi
  have h512 : bSize = 512 := rfl
  have hdiv : (off + i) / bSize = off / bSize := by rw [h512] at hm ⊢; omega
  have hmod : (off + i) % bSize = off % bSize + i := by rw [h512] at hm ⊢; omega
  simp only [fileByte, hdiv, hmod]

/-- The copy loop of `readi` over blocks that are all there copies the bytes from `off` on and
changes nothing. -/
theorem run_readiLoop_mapped (s : FsState) (ip : Fin nInode) {n : UInt32} {fuel : ℕ}
    {tot off : UInt32} (dst : List UInt8) (htot : tot ≤ n) (hfuel : (n - tot).toNat < fuel)
    (hend : off.toNat + (n - tot).toNat ≤ maxFile * bSize)
    (hmapped : ∀ j, off.toNat ≤ j → j < off.toNat + (n - tot).toNat →
      blockAddr s.disk (s.icache ip).din (j / bSize) ≠ 0) :
    (readiLoop ip n fuel tot off dst).run s =
      .ok (dst ++ bytesFrom s.disk (s.icache ip).din off.toNat (n - tot).toNat, s) := by
  -- induction on the fuel, from any count copied, offset and bytes copied so far
  induction fuel generalizing tot off dst with
  | zero => omega
  | succ fuel ih =>
    have h512 : bSize = 512 := rfl
    have hsub : (n - tot).toNat = n.toNat - tot.toNat := UInt32.toNat_sub_of_le _ _ htot
    rw [UInt32.le_iff_toNat_le] at htot
    by_cases hlt : tot < n
    · rw [UInt32.lt_iff_toNat_lt] at hlt
      have hbn : (off / UInt32.ofNat bSize).toNat = off.toNat / bSize := UInt32.toNat_div _ _
      have hmax : maxFile * bSize = 71680 := rfl
      have hmap := hmapped off.toNat le_rfl (by omega)
      -- the pass copies `m` bytes, to the end of the request or of the block
      set m := min (n - tot) (UInt32.ofNat bSize - off % UInt32.ofNat bSize) with hm
      have hmod : (off % UInt32.ofNat bSize).toNat = off.toNat % bSize := UInt32.toNat_mod _ _
      have hm' : m.toNat = min (n.toNat - tot.toNat) (bSize - off.toNat % bSize) := by
        rw [hm, UInt32.toNat_min, hsub, UInt32.toNat_sub_of_le _ _ (by
          rw [UInt32.le_iff_toNat_le, hmod]; exact le_of_lt (Nat.mod_lt _ (by decide))), hmod]
        rfl
      have hmpos : 0 < m.toNat := by rw [hm', h512]; omega
      have htot' : (tot + m).toNat = tot.toNat + m.toNat := by
        rw [UInt32.toNat_add]; exact Nat.mod_eq_of_lt (by have := UInt32.toNat_lt n; omega)
      have hoff' : (off + m).toNat = off.toNat + m.toNat := by
        rw [UInt32.toNat_add]; exact Nat.mod_eq_of_lt (by omega)
      have hrest : (n - (tot + m)).toNat = (n - tot).toNat - m.toNat := by
        rw [UInt32.toNat_sub_of_le _ _ (by rw [UInt32.le_iff_toNat_le]; omega), htot', hsub]
        omega
      have hih := @ih (tot + m) (off + m)
        (dst ++ bytesAt (s.disk (blockAddr s.disk (s.icache ip).din (off.toNat / bSize)))
          (off.toNat % bSize) m.toNat)
        (by rw [UInt32.le_iff_toNat_le]; omega) (by omega) (by omega)
        (fun j h₁ h₂ => hmapped j (by omega) (by omega))
      rw [readiLoop, if_pos (UInt32.lt_iff_toNat_lt.mpr hlt), StateT.run_bind, hbn,
        run_bmap_mapped s ip (Nat.div_lt_of_lt_mul (by rw [Nat.mul_comm]; omega)) hmap,
        StateExcept.ok_bind]
      dsimp only
      rw [StateT.run_bind, run_readBlock, StateExcept.ok_bind]
      dsimp only
      rw [UInt32.toNat_ofNat_of_lt' (blockAddr_lt _ _ _), hmod, hih, bytesAt_eq_bytesFrom _ _
        (by rw [h512] at hm' ⊢; omega), hoff', hrest, List.append_assoc, ← bytesFrom_add,
        Nat.add_sub_cancel' (by omega)]
    · have hzero : (n - tot).toNat = 0 := by
        rw [UInt32.lt_iff_toNat_lt] at hlt
        omega
      rw [readiLoop, if_neg hlt, hzero]
      simp [bytesFrom]

/-- `readi` of `n` bytes from `off` inside the file: the count, and what the copy loop over the
`n` bytes returns. -/
theorem run_readi_inside (s : FsState) (ip : Fin nInode) {off n : UInt32}
    (htype : (s.icache ip).din.type ≠ tDev)
    (hin : off.toNat + n.toNat ≤ (s.icache ip).din.size.toNat) {r : List UInt8 × FsState}
    (hloop : (readiLoop ip n (n.toNat + 1) 0 off []).run s = .ok r) :
    (readi ip off n).run s = .ok ((n.toInt32, r.1), r.2) := by
  have hU : UInt32.size = 4294967296 := rfl
  have hsz := UInt32.toNat_lt (s.icache ip).din.size
  have hle : ¬ (s.icache ip).din.size < off := by
    rw [UInt32.lt_iff_toNat_lt]
    omega
  have hover : ¬ off + n < off := by
    rw [UInt32.lt_iff_toNat_lt, UInt32.toNat_add, Nat.mod_eq_of_lt (by omega)]
    omega
  have hfit : ¬ (s.icache ip).din.size < off + n := by
    rw [UInt32.lt_iff_toNat_lt, UInt32.toNat_add, Nat.mod_eq_of_lt (by omega)]
    omega
  unfold readi
  rw [StateT.run_bind, run_getInode, StateExcept.ok_bind]
  dsimp only
  rw [if_neg htype]
  simp only [gt_iff_lt, hle, hover, hfit, Bool.false_or, decide_false, Bool.false_eq_true,
    if_false, StateT.run_bind, hloop, StateExcept.ok_bind]
  rfl

/-- `readi` of `n` bytes from `off` inside a file whose blocks there are all present: the bytes
of the file, and nothing changes. -/
theorem run_readi_mapped (s : FsState) (ip : Fin nInode) {off n : UInt32}
    (htype : (s.icache ip).din.type ≠ tDev)
    (hin : off.toNat + n.toNat ≤ (s.icache ip).din.size.toNat)
    (hsize : (s.icache ip).din.size.toNat ≤ maxFile * bSize)
    (hmapped : ∀ j, off.toNat ≤ j → j < off.toNat + n.toNat →
      blockAddr s.disk (s.icache ip).din (j / bSize) ≠ 0) :
    (readi ip off n).run s = .ok ((n.toInt32, bytesFrom s.disk (s.icache ip).din off.toNat n.toNat), s) := by
  have hloop := @run_readiLoop_mapped s ip n (n.toNat + 1) 0 off []
    UInt32.zero_le (by simp) (by simpa using hin.trans hsize) (by simpa using hmapped)
  rw [UInt32.sub_zero, List.nil_append] at hloop
  exact run_readi_inside s ip htype hin hloop

/-- `readi` of bytes inside one block of the file that is there and all zero: zeros, and nothing
changes. -/
theorem run_readi_zeroBlock (s : FsState) (ip : Fin nInode) {off n : UInt32}
    (htype : (s.icache ip).din.type ≠ tDev)
    (hin : off.toNat + n.toNat ≤ (s.icache ip).din.size.toNat)
    (hsize : (s.icache ip).din.size.toNat ≤ maxFile * bSize)
    (hblock : off.toNat % bSize + n.toNat ≤ bSize)
    (hmapped : blockAddr s.disk (s.icache ip).din (off.toNat / bSize) ≠ 0)
    (hzero : s.disk (blockAddr s.disk (s.icache ip).din (off.toNat / bSize)) = zeroBlock) :
    (readi ip off n).run s = .ok ((n.toInt32, List.replicate n.toNat 0), s) := by
  have h512 : bSize = 512 := rfl
  have hsame : ∀ j, off.toNat ≤ j → j < off.toNat + n.toNat → j / bSize = off.toNat / bSize :=
    fun j h₁ h₂ => by rw [h512] at hblock ⊢; omega
  rw [run_readi_mapped s ip htype hin hsize fun j h₁ h₂ => by rw [hsame j h₁ h₂]; exact hmapped,
    ← bytesAt_eq_bytesFrom _ _ hblock, hzero, bytesAt_zeroBlock]

/-- One pass of the copy loop of `readi` over bytes inside a direct block the inode does not
have: `bmap` allocates it, `balloc` has zeroed it, and the bytes copied are zeros. -/
theorem run_readiLoop_hole (s : FsState) (ip : Fin nInode) {off n : UInt32} (hn : 0 < n.toNat)
    (hblock : off.toNat % bSize + n.toNat ≤ bSize) (hdirect : off.toNat / bSize < nDirect)
    (hhole : (s.icache ip).din.addr (off.toNat / bSize) = 0) {a : UInt32} {s' : FsState}
    (hb : balloc.run s = .ok (a, s')) (hzero : s'.disk a.toNat = zeroBlock) (fuel : ℕ) :
    (readiLoop ip n (fuel + 1) 0 off []).run s = .ok (List.replicate n.toNat 0,
      { s' with icache := (Function.update s'.icache ip
        { s'.icache ip with din := (s'.icache ip).din.setAddr (off.toNat / bSize) a }) }) := by
  have h512 : bSize = 512 := rfl
  have hbn : (off / UInt32.ofNat bSize).toNat = off.toNat / bSize := UInt32.toNat_div _ _
  have hmod : (off % UInt32.ofNat bSize).toNat = off.toNat % bSize := UInt32.toNat_mod _ _
  -- the pass copies all `n` bytes: they end inside the block
  have hm : min (n - 0) (UInt32.ofNat bSize - off % UInt32.ofNat bSize) = n := by
    apply UInt32.toNat_inj.mp
    rw [UInt32.toNat_min, UInt32.sub_zero, UInt32.toNat_sub_of_le _ _ (by
      rw [UInt32.le_iff_toNat_le, hmod]; exact le_of_lt (Nat.mod_lt _ (by decide))), hmod]
    show min n.toNat (bSize - off.toNat % bSize) = n.toNat
    omega
  rw [readiLoop, if_pos (UInt32.lt_iff_toNat_lt.mpr (by simpa using hn)), StateT.run_bind, hbn,
    run_bmap_alloc s ip hdirect hhole hb, StateExcept.ok_bind]
  dsimp only
  rw [StateT.run_bind, run_readBlock, StateExcept.ok_bind]
  dsimp only
  rw [hzero, hm, bytesAt_zeroBlock, List.nil_append, UInt32.zero_add]
  -- all `n` bytes are copied: the loop stops
  cases fuel with
  | zero => rfl
  | succ fuel => simp [readiLoop]

end Xv6.Fs
