import Xv6.Fs.MkfsKernel

/-!
# The root's missing block, seen by the kernel

`main` of `mkfs` rounds the root's size up past its entries. With thirty input files the
entries fill the root's first block exactly, and the size covers a second block the root does
not have (`mkfs_root_hole`). A `dirlookup` in the root that does not find its name reads the
whole size, so it reaches `bmap` of that block: `balloc` marks a block in the bitmap, and the
address is recorded in the root's entry of `icache` only, since no `iupdate` of the root
follows.

This file follows such a lookup from a state between system calls (`Idle`). `userinit` takes
the root as `init`'s current directory with `namei("/")` (`rootHeld`), and `init` never
changes directory or exits, so the root's entry of `icache` keeps that reference for the life
of the system. `namei` of a name the root does not hold then returns `0` and leaves the root's
entry valid with an address that the inode on disk does not have (`run_namei_miss_held`). The
bitmap on disk marks the block, and no inode on disk holds it. When the kernel starts again on
that disk (`Idle.restart`), the address is gone: the next lookup takes another block, and the
first stays marked with no inode holding it, on disk or in `icache`.

## Main definitions

* `Idle img used s`: a state of the kernel on the image between system calls.
* `missState img used s`: the state a lookup that misses leaves.
* `rootHeld s`, `heldMissState img used s`: the state `userinit` leaves, and the state a lookup
  that misses leaves while `init` holds the root.

## Main results

* `run_namei_miss_held`: `namei` of a name the root does not hold while `init` holds the root.
* `Idle.restart`: the kernel started again on the disk of an idle state is idle.
* `namei_root_entry_disagrees`: a lookup leaves the root's valid cache entry with a block its
  inode on disk does not have.
* `lookups_leak_block`: a lookup marks a block in the bitmap that no inode on disk holds, and
  after a restart no inode holds it anywhere.
-/

namespace Xv6.Mkfs

open Fs LittleEndian

variable {img : Img}

/-! ## The root of the image of thirty files -/

theorem Image.thirty_size (himg : Image thirtyFiles img) :
    (rinode img rootIno.toNat).size.toNat = 2 * bSize := by
  rw [himg.rootSize]
  rfl

/-- The root has no second block. -/
theorem Image.thirty_addr_one (himg : Image thirtyFiles img) :
    (rinode img rootIno.toNat).addr 1 = 0 := by
  have h := himg.rootUnmapped 1 (by decide) (by decide)
  simp only [blockAddr, show 1 < nDirect from by decide, if_true] at h
  exact UInt32.toNat_inj.mp h

/-- The root's first block is the first block of the data region, the one block `main` gave it. -/
theorem Placed.thirty_addr_zero (himg : Image thirtyFiles img) (hpl : Placed thirtyFiles img)
    (hfb : img.freeblock = 60) : ((rinode img rootIno.toNat).addr 0).toNat = nMeta := by
  have hne : ((rinode img rootIno.toNat).addr 0).toNat ≠ 0 := by
    have h := himg.rootMapped 0 (by decide)
    simp only [blockAddr, show 0 < nDirect from by decide, if_true] at h
    exact h
  have h := hpl.held rootIno.toNat (by decide) (by decide) _ hne (.inl ⟨0, by decide, rfl⟩)
  rw [hfb] at h
  rw [nMeta_eq] at h ⊢
  omega

/-- The image of the thirty files, with what the kernel finds in it. -/
theorem thirtyFiles_placed : ∃ img, mkfs thirtyFiles = .ok img ∧ Image thirtyFiles img ∧
    Placed thirtyFiles img ∧ img.freeblock = 60 := by
  obtain ⟨img, hrun, himg, hpl⟩ := mkfs_placed thirtyFiles (by decide) (by decide) (by decide)
    (by decide)
  exact ⟨img, hrun, himg, hpl, by rw [himg.freeblock]; decide⟩

/-- A byte of the first block of an inode at `nmeta` is read from that block: it is the same for
an inode with the same first address. -/
theorem fileByte_rootBlock {disk disk' : ℕ → Block} {d d' : DInode} (haddr : (d.addr 0).toNat = nMeta)
    (haddr' : d'.addr 0 = d.addr 0) (hdisk : disk' nMeta = disk nMeta) {j : ℕ} (hj : j < bSize) :
    fileByte disk' d' j = fileByte disk d j := by
  simp only [fileByte, blockAddr, Nat.div_eq_of_lt hj, show 0 < nDirect from by decide, if_true,
    haddr', haddr, hdisk]

/-! ## A lookup that misses -/

/-- A state of the kernel on the image `img` of the thirty files between two system calls: no
entry of `icache` has references; the superblock, the root's inode and the root's first block
are as `main` wrote them; and the bitmap marks exactly the blocks below `used`, the image's own
and maybe more. -/
structure Idle (img : Img) (used : ℕ) (s : FsState) : Prop where
  super : s.sb = sb
  rootInode : s.disk (iblock sb rootIno.toNat) = img.disk (iblock sb rootIno.toNat)
  rootBlock : s.disk nMeta = img.disk nMeta
  bitmap : ∀ bi < bpb, bitAt (s.disk s.sb.bmapstart.toNat) bi = decide (bi < used)
  past : img.freeblock ≤ used
  room : used < fsSize
  unref : ∀ k, (s.icache k).ref = 0

/-- The kernel as it starts on the image is idle. -/
theorem Image.idle (himg : Image thirtyFiles img) (hfb : img.freeblock = 60) :
    Idle img img.freeblock (iinit img.disk) where
  super := himg.iinit_sb
  rootInode := rfl
  rootBlock := rfl
  bitmap bi _ := by
    have hu : img.freeblock ≤ bpb := by rw [hfb]; decide
    show bitAt (img.disk (iinit img.disk).sb.bmapstart.toNat) bi = _
    rw [himg.iinit_sb, himg.bitmap, bitAt_bitmapOf hu]
  past := le_rfl
  room := by rw [hfb]; decide
  unref _ := rfl

/-- The state a lookup in the root that misses leaves: block `used` is marked and zeroed, and the
root's entry of `icache`, valid and without references, gives its second block that address. -/
def missState (img : Img) (used : ℕ) (s : FsState) : FsState where
  disk := Function.update (Function.update s.disk s.sb.bmapstart.toNat
    (setBit (s.disk s.sb.bmapstart.toNat) used)) used zeroBlock
  sb := s.sb
  icache := Function.update s.icache 0
    ⟨rootDev, rootIno, 0, 1, (rinode img rootIno.toNat).setAddr 1 (UInt32.ofNat used)⟩

/-- The entries of the root as `main` wrote them, read through an entry of `icache` that has the
root's type, size and first block, from a disk that keeps the block at `nmeta`: each read returns
the entry and changes nothing. -/
theorem run_root_entry_read (himg : Image thirtyFiles img) (hpl : Placed thirtyFiles img)
    (hfb : img.freeblock = 60) {s : FsState} (hblock : s.disk nMeta = img.disk nMeta)
    (htype : (s.icache 0).din.type = tDir)
    (hsz : (s.icache 0).din.size = (rinode img rootIno.toNat).size)
    (haddr : (s.icache 0).din.addr 0 = (rinode img rootIno.toNat).addr 0)
    {i : ℕ} (hi : i < (rootEntries thirtyFiles).length) :
    (readi 0 (UInt32.ofNat (direntSize * i)) (UInt32.ofNat direntSize)).run s =
      .ok (((UInt32.ofNat direntSize).toInt32, (rootEntries thirtyFiles)[i].bytes), s) := by
  have hlen : (rootEntries thirtyFiles).length = 32 := rfl
  have haddr0 := hpl.thirty_addr_zero himg hfb
  have hsize : direntSize * (rootEntries thirtyFiles).length ≤ (s.icache 0).din.size.toNat := by
    rw [hsz, himg.thirty_size]
    decide
  -- the entries as `main` wrote them, read from the block at `nmeta`
  have hbytes : dataBytes s.disk (s.icache 0).din (direntSize * (rootEntries thirtyFiles).length) =
      entryBytes (rootEntries thirtyFiles) := by
    rw [← himg.rootBytes, show direntSize * (rootEntries thirtyFiles).length =
      (thirtyFiles.length + 2) * direntSize from rfl]
    exact dataBytes_congr fun j hj => fileByte_rootBlock haddr0 haddr hblock (by
      simp only [thirtyFiles, List.length_map, List.length_range, direntSize, bSize] at hj ⊢
      omega)
  have hmapped : ∀ i < direntSize * (rootEntries thirtyFiles).length,
      blockAddr s.disk (s.icache 0).din (i / bSize) ≠ 0 := by
    intro i hi
    rw [hlen] at hi
    rw [Nat.div_eq_of_lt (by simp only [direntSize, bSize] at hi ⊢; omega)]
    simp only [blockAddr, show 0 < nDirect from by decide, if_true, haddr, haddr0, nMeta_eq]
    decide
  exact run_readi_entry s 0 (by rw [htype]; decide) hsize
    (by rw [hsz, himg.thirty_size]; decide) hbytes hmapped hi

/-- The scan of `dirlookup` over the root's thirty-two entries, in its first block, for a
one-byte name none of them has: each is read and passed over. -/
theorem run_root_entries_pass (himg : Image thirtyFiles img) (hpl : Placed thirtyFiles img)
    (hfb : img.freeblock = 60) {s : FsState} (hblock : s.disk nMeta = img.disk nMeta)
    (htype : (s.icache 0).din.type = tDir)
    (hsz : (s.icache 0).din.size = (rinode img rootIno.toNat).size)
    (haddr : (s.icache 0).din.addr 0 = (rinode img rootIno.toNat).addr 0) {c : UInt8}
    (hname : ∀ i (h : i < (rootEntries thirtyFiles).length),
      namecmp [c] (rootEntries thirtyFiles)[i].name.toList ≠ 0) (fuel : ℕ) :
    (dirlookupLoop 0 [c] (fuel + (32 - 0)) (UInt32.ofNat (direntSize * 0))).run s =
      (dirlookupLoop 0 [c] fuel (UInt32.ofNat (direntSize * 32))).run s := by
  have hlen : (rootEntries thirtyFiles).length = 32 := rfl
  have hsize : direntSize * 32 ≤ (s.icache 0).din.size.toNat := by
    rw [hsz, himg.thirty_size]
    decide
  refine run_dirlookupLoop_skip s 0 [c] (Nat.zero_le 32) hsize fuel fun i _ hi => ?_
  have hi' : i < (rootEntries thirtyFiles).length := by rw [hlen]; exact hi
  refine ⟨(rootEntries thirtyFiles)[i].bytes,
    run_root_entry_read himg hpl hfb hblock htype hsz haddr hi', ?_⟩
  rw [Dirent.ofBytes_bytes]
  exact .inr (hname i hi')

/-- The read of the root's thirty-third entry, at offset `512`: `bmap` finds no second block, and
`balloc` takes block `used`, the first one the bitmap does not mark; the entry read is zero. -/
theorem run_root_hole_entry (himg : Image thirtyFiles img) {used : ℕ} {s : FsState}
    (hbits : ∀ bi < bpb, bitAt (s.disk s.sb.bmapstart.toNat) bi = decide (bi < used))
    (hroom : used < fsSize) (hsb : s.sb = sb) (hdin : (s.icache 0).din = rinode img rootIno.toNat) :
    (readi 0 (UInt32.ofNat (direntSize * 32)) (UInt32.ofNat direntSize)).run s =
      .ok (((UInt32.ofNat direntSize).toInt32, List.replicate direntSize 0), { s with
        disk := Function.update (Function.update s.disk s.sb.bmapstart.toNat
          (setBit (s.disk s.sb.bmapstart.toNat) used)) used zeroBlock
        icache := Function.update s.icache 0
          { s.icache 0 with din := (s.icache 0).din.setAddr 1 (UInt32.ofNat used) } }) := by
  have hfs : fsSize = 1000 := rfl
  have hU : (UInt32.ofNat used).toNat = used :=
    UInt32.toNat_ofNat_of_lt' (by rw [hfs] at hroom; norm_num [UInt32.size]; omega)
  have hb := @run_balloc_next s used (by rw [hsb]; exact hroom)
    (by simp only [bpb, bSize]; rw [hfs] at hroom; omega) hbits
  have hloop := @run_readiLoop_hole s 0 (UInt32.ofNat bSize) (UInt32.ofNat direntSize)
    (by decide) (by decide) (by decide) (by rw [hdin]; exact himg.thirty_addr_one) _ _ hb
    (by rw [hU]; exact Function.update_self ..) (UInt32.ofNat direntSize).toNat
  exact @run_readi_inside s 0 (UInt32.ofNat bSize) (UInt32.ofNat direntSize)
    (by rw [hdin, himg.root.1]; decide) (by rw [hdin, himg.thirty_size]; decide) _ hloop

/-- A read of an entry of the root's second block, once the entry of `icache` gives that block
the zeroed block `used`: a free entry, and nothing changes. -/
theorem run_root_zero_entry_read (himg : Image thirtyFiles img) {used : ℕ} {t : FsState}
    (hroom : used < fsSize) (hused : 60 ≤ used)
    (hdin : (t.icache 0).din = (rinode img rootIno.toNat).setAddr 1 (UInt32.ofNat used))
    (hzero : t.disk used = zeroBlock) {i : ℕ} (h₁ : 32 ≤ i) (h₂ : i < 64) :
    (readi 0 (UInt32.ofNat (direntSize * i)) (UInt32.ofNat direntSize)).run t =
      .ok (((UInt32.ofNat direntSize).toInt32,
        List.replicate (UInt32.ofNat direntSize).toNat 0), t) := by
  have hfs : fsSize = 1000 := rfl
  have hU : (UInt32.ofNat used).toNat = used :=
    UInt32.toNat_ofNat_of_lt' (by rw [hfs] at hroom; norm_num [UInt32.size]; omega)
  have hsize : (t.icache 0).din.size.toNat = 2 * bSize := by
    rw [hdin]
    exact himg.thirty_size
  have haddr : blockAddr t.disk (t.icache 0).din 1 = used := by
    rw [hdin]
    simp only [blockAddr, show 1 < nDirect from by decide, if_true]
    rw [DInode.addr_setAddr _ (by decide), if_pos rfl, hU]
  have hoff : (UInt32.ofNat (direntSize * i)).toNat = direntSize * i :=
    UInt32.toNat_ofNat_of_lt' (by simp only [direntSize]; norm_num [UInt32.size]; omega)
  have hbn : (UInt32.ofNat (direntSize * i)).toNat / bSize = 1 := by
    rw [hoff]
    simp only [direntSize, bSize]
    omega
  exact run_readi_zeroBlock t 0
    (by rw [hdin]; exact (himg.root.1).trans_ne (by decide))
    (by rw [hoff, hsize]; show 16 * i + 16 ≤ 2 * 512; omega)
    (by rw [hsize]; decide) (by rw [hoff]; show 16 * i % 512 + 16 ≤ 512; omega)
    (by rw [hbn, haddr]; omega) (by rw [hbn, haddr]; exact hzero)

/-- The scan of `dirlookup` over the root's entries in the block `balloc` gave it, from entry `k`
on: all zero. -/
theorem run_root_zero_entries_pass (himg : Image thirtyFiles img) {used : ℕ} {t : FsState}
    (hroom : used < fsSize) (hused : 60 ≤ used)
    (hdin : (t.icache 0).din = (rinode img rootIno.toNat).setAddr 1 (UInt32.ofNat used))
    (hzero : t.disk used = zeroBlock) (name : List UInt8) {k : ℕ} (hk : 32 ≤ k) (hk' : k ≤ 64)
    (fuel : ℕ) :
    (dirlookupLoop 0 name (fuel + (64 - k)) (UInt32.ofNat (direntSize * k))).run t =
      (dirlookupLoop 0 name fuel (UInt32.ofNat (direntSize * 64))).run t := by
  have hsize : (t.icache 0).din.size.toNat = 2 * bSize := by
    rw [hdin]
    exact himg.thirty_size
  refine run_dirlookupLoop_skip t 0 name hk' (by rw [hsize]; decide) fuel fun i h₁ h₂ => ?_
  exact ⟨_, run_root_zero_entry_read himg hroom hused hdin hzero (by omega) h₂, .inl (by decide)⟩

/-- A lookup that misses writes the bitmap block and block `used` only. -/
theorem missState_disk (used : ℕ) (s : FsState) {b : ℕ} (hbm : b ≠ s.sb.bmapstart.toNat)
    (hu : b ≠ used) : (missState img used s).disk b = s.disk b := by
  show Function.update (Function.update s.disk s.sb.bmapstart.toNat _) used zeroBlock b = _
  rw [Function.update_of_ne hu, Function.update_of_ne hbm]

/-- `dirlookup` in the root of a one-byte name no entry of it has, with the root locked in the
first entry of `icache`: the root's thirty-two entries are passed over, the read of the
thirty-third reaches `balloc`, and the thirty-one after it lie in the zeroed block. -/
theorem run_root_lookup_miss (himg : Image thirtyFiles img) (hpl : Placed thirtyFiles img)
    (hfb : img.freeblock = 60) {used : ℕ} {s : FsState} (hsb : s.sb = sb)
    (hblock : s.disk nMeta = img.disk nMeta)
    (hbits : ∀ bi < bpb, bitAt (s.disk s.sb.bmapstart.toNat) bi = decide (bi < used))
    (hused : 60 ≤ used) (hroom : used < fsSize) {r : Int32}
    (h0 : s.icache 0 = ⟨rootDev, rootIno, r, 1, rinode img rootIno.toNat⟩) {c : UInt8}
    (hname : ∀ i (h : i < (rootEntries thirtyFiles).length),
      namecmp [c] (rootEntries thirtyFiles)[i].name.toList ≠ 0) :
    (dirlookup 0 [c]).run s = .ok (none, { s with
      disk := Function.update (Function.update s.disk s.sb.bmapstart.toNat
        (setBit (s.disk s.sb.bmapstart.toNat) used)) used zeroBlock
      icache := Function.update s.icache 0
        ⟨rootDev, rootIno, r, 1, (rinode img rootIno.toNat).setAddr 1 (UInt32.ofNat used)⟩ }) := by
  have hdin : (s.icache 0).din = rinode img rootIno.toNat := by rw [h0]
  have hsize : direntSize * 64 ≤ (s.icache 0).din.size.toNat := by
    rw [hdin, himg.thirty_size]
    decide
  -- the state after the read at offset `512`
  set t : FsState := { s with
    disk := Function.update (Function.update s.disk s.sb.bmapstart.toNat
      (setBit (s.disk s.sb.bmapstart.toNat) used)) used zeroBlock
    icache := Function.update s.icache 0
      { s.icache 0 with din := (s.icache 0).din.setAddr 1 (UInt32.ofNat used) } } with ht
  have hdin₃ : (t.icache 0).din = (rinode img rootIno.toNat).setAddr 1 (UInt32.ofNat used) := by
    rw [ht]
    dsimp only
    rw [Function.update_self, hdin]
  have hend : ¬ UInt32.ofNat (direntSize * 64) < (t.icache 0).din.size := by
    rw [hdin₃, UInt32.lt_iff_toNat_lt]
    show ¬ 1024 < (rinode img rootIno.toNat).size.toNat
    rw [himg.thirty_size]
    decide
  rw [run_dirlookup_eq_loop s 0 [c] (by rw [hdin]; exact himg.root.1), hdin, himg.thirty_size]
  show (dirlookupLoop 0 [c] (32 + 1 + (32 - 0)) (UInt32.ofNat (direntSize * 0))).run s = _
  rw [run_root_entries_pass himg hpl hfb hblock (by rw [hdin]; exact himg.root.1) (by rw [hdin])
      (by rw [hdin]) hname,
    run_dirlookupLoop_pass s 0 [c] (entryOff_lt (by decide) hsize)
      (run_root_hole_entry himg hbits hroom hsb hdin) (.inl (by decide)), entryOff_succ]
  show (dirlookupLoop 0 [c] (1 + (64 - 33)) (UInt32.ofNat (direntSize * 33))).run t = _
  rw [run_root_zero_entries_pass himg hroom hused hdin₃ (by rw [ht]; exact Function.update_self ..)
      [c] (by decide) (by decide),
    run_dirlookupLoop_end t 0 [c] 1 hend, ht, h0]

/-- The only element of `/c`. -/
theorem skipelem_root_one {c : UInt8} (hc : c ≠ slash) : skipelem [slash, c] = some ([c], []) := by
  simp [skipelem, hc, dirSiz]

/-- The walk of `namex` over `/c` from the root, held in the first entry of `icache` with `r`
references and not read yet: `ilock` reads the root's inode, the lookup misses, and the root is
put back with one reference fewer, its entry valid. -/
theorem run_namexLoop_root_miss (himg : Image thirtyFiles img) (hpl : Placed thirtyFiles img)
    (hfb : img.freeblock = 60) {used : ℕ} {s : FsState} (hsb : s.sb = sb)
    (hinode : s.disk (iblock sb rootIno.toNat) = img.disk (iblock sb rootIno.toNat))
    (hblock : s.disk nMeta = img.disk nMeta)
    (hbits : ∀ bi < bpb, bitAt (s.disk s.sb.bmapstart.toNat) bi = decide (bi < used))
    (hused : 60 ≤ used) (hroom : used < fsSize) {r : Int32} (hr : ¬ r < 1) {d : DInode}
    (h0 : s.icache 0 = ⟨rootDev, rootIno, r, 0, d⟩) {c : UInt8} (hc : c ≠ slash)
    (hname : ∀ i (h : i < (rootEntries thirtyFiles).length),
      namecmp [c] (rootEntries thirtyFiles)[i].name.toList ≠ 0) :
    (namexLoop false (2 + 1) 0 [slash, c] []).run s = .ok (none, { s with
      disk := Function.update (Function.update s.disk s.sb.bmapstart.toNat
        (setBit (s.disk s.sb.bmapstart.toNat) used)) used zeroBlock
      icache := Function.update s.icache 0
        ⟨rootDev, rootIno, r - 1, 1, (rinode img rootIno.toNat).setAddr 1 (UInt32.ofNat used)⟩ }) := by
  -- `ilock` reads the root's inode as `main` wrote it
  have hdin : dinodeAt (s.disk (iblock s.sb (s.icache 0).inum.toNat))
      ((s.icache 0).inum.toNat % ipb) = rinode img rootIno.toNat := by
    rw [h0]
    show dinodeAt (s.disk (iblock s.sb rootIno.toNat)) (rootIno.toNat % ipb) = _
    rw [hsb, hinode]
    rfl
  have hlock := run_ilock_load s 0 (by rw [h0]; exact hr) (by rw [h0])
    (by rw [hdin, himg.root.1]; decide)
  rw [hdin] at hlock
  set s₂ : FsState := { s with icache := (Function.update s.icache 0
    { s.icache 0 with din := rinode img rootIno.toNat, valid := 1 }) } with hs₂
  have h2 : s₂.icache 0 = ⟨rootDev, rootIno, r, 1, rinode img rootIno.toNat⟩ := by
    rw [hs₂]
    dsimp only
    rw [Function.update_self, h0]
  -- the lookup misses, through the root's missing block
  have hlook := @run_root_lookup_miss img himg hpl hfb used s₂ hsb hblock hbits hused hroom r h2 c
    hname
  set s₃ : FsState := { s₂ with
    disk := Function.update (Function.update s₂.disk s₂.sb.bmapstart.toNat
      (setBit (s₂.disk s₂.sb.bmapstart.toNat) used)) used zeroBlock
    icache := Function.update s₂.icache 0
      ⟨rootDev, rootIno, r, 1, (rinode img rootIno.toNat).setAddr 1 (UInt32.ofNat used)⟩ } with hs₃
  have h3 : s₃.icache 0 =
      ⟨rootDev, rootIno, r, 1, (rinode img rootIno.toNat).setAddr 1 (UInt32.ofNat used)⟩ := by
    rw [hs₃]
    dsimp only
    rw [Function.update_self]
  -- the root is unlocked and put: it keeps its link, and its entry stays valid
  have hlink : ¬ ((s₃.icache 0).valid ≠ 0 ∧ (s₃.icache 0).din.nlink = 0) := by
    rintro ⟨-, hn⟩
    have hn' : (rinode img rootIno.toNat).nlink = 0 := by rw [h3] at hn; exact hn
    rw [himg.root.2.2.2] at hn'
    exact absurd hn' (by decide)
  have hput : (iunlockput 0).run s₃ = .ok ((), { s₃ with icache := (Function.update s₃.icache 0
      { s₃.icache 0 with ref := (s₃.icache 0).ref - 1 }) }) := by
    rw [iunlockput, StateT.run_bind, run_iunlock s₃ 0 (by rw [h3]; exact hr), StateExcept.ok_bind]
    exact run_iput_linked s₃ 0 hlink
  rw [run_namexLoop_miss s false 2 0 (skipelem_root_one hc) hlock (by rw [h2]; exact himg.root.1)
    (by simp) hlook hput, h3]
  simp only [hs₃, hs₂, Function.update_idem]

/-- The state `namei("/")` leaves from an idle state, as `userinit` takes the first process's
current directory: the root in the first entry of `icache`, with that one reference, not read
yet. `init` never changes its directory and never exits, so the reference stays. -/
def rootHeld (s : FsState) : FsState :=
  { s with icache := Function.update s.icache 0 ⟨rootDev, rootIno, 1, 0, (s.icache 0).din⟩ }

/-- The state a lookup in the root that misses leaves when `init` holds the root: as
`missState`, with the root's entry keeping `init`'s reference. -/
def heldMissState (img : Img) (used : ℕ) (s : FsState) : FsState :=
  { missState img used s with icache := (Function.update s.icache 0
    ⟨rootDev, rootIno, 1, 1, (rinode img rootIno.toNat).setAddr 1 (UInt32.ofNat used)⟩) }

/-- `iget` of the root while `init` holds it: the first entry of `icache` takes a second
reference. -/
theorem run_iget_rootHeld (s : FsState) :
    (iget rootDev rootIno).run (rootHeld s) = .ok (0, { s with icache :=
      (Function.update s.icache 0 ⟨rootDev, rootIno, 2, 0, (s.icache 0).din⟩) }) := by
  have h1 : (rootHeld s).icache 0 = ⟨rootDev, rootIno, 1, 0, (s.icache 0).din⟩ := by
    simp only [rootHeld, Function.update_self]
  rw [run_iget_hit (rootHeld s) (by rw [h1]; rfl) (fun i hi => absurd hi (Fin.not_lt_zero i)), h1]
  simp only [rootHeld, Function.update_idem]
  rfl

/-- `namei("/")` from an idle state, as `userinit` takes the first process's current
directory: the first entry of `icache` takes the root, not read yet. -/
theorem run_namei_root {used : ℕ} {s : FsState} (hidle : Idle img used s) (cwd : Fin nInode) :
    (namei cwd [slash]).run s = .ok (some 0, rootHeld s) := by
  have hget := @run_iget_new s rootDev rootIno 0 (fun i => by simp [Inode.holds, hidle.unref i])
    (hidle.unref 0) (fun i hi => absurd hi (Fin.not_lt_zero i))
  rw [namei, StateT.run_bind, run_namex_root s cwd false rfl, StateT.run_bind, hget,
    StateExcept.ok_bind]
  dsimp only
  rw [show ([slash] : List UInt8).length + 1 = 1 + 1 from rfl,
    run_namexLoop_done _ 1 0 (by decide)]
  rfl

/-- After a lookup that misses, the kernel is idle again, with one more block marked. -/
theorem Idle.after_miss (hfb : img.freeblock = 60) {used : ℕ} {s : FsState}
    (hidle : Idle img used s) (hroom : used + 1 < fsSize) :
    Idle img (used + 1) (missState img used s) := by
  have hused : 60 ≤ used := hfb ▸ hidle.past
  have hbm : s.sb.bmapstart.toNat = 58 := by rw [hidle.super]; rfl
  have hbm' : s.sb.bmapstart.toNat ≠ used := by omega
  have hbpb : used < bpb := by simp only [bpb, bSize, fsSize] at hroom ⊢; omega
  -- the blocks below `nmeta + 1` other than the bitmap are kept
  have hkeep : ∀ b, b < 60 → b ≠ 58 → (missState img used s).disk b = s.disk b :=
    fun b hb h58 => missState_disk used s (by omega) (by omega)
  constructor
  · exact hidle.super
  · rw [hkeep (iblock sb rootIno.toNat) (by decide) (by decide)]
    exact hidle.rootInode
  · rw [hkeep nMeta (by decide) (by decide)]
    exact hidle.rootBlock
  · intro bi hbi
    show bitAt (Function.update (Function.update s.disk s.sb.bmapstart.toNat
      (setBit (s.disk s.sb.bmapstart.toNat) used)) used zeroBlock s.sb.bmapstart.toNat) bi = _
    rw [Function.update_of_ne hbm', Function.update_self, bitAt_setBit _ hbpb,
      hidle.bitmap bi hbi]
    -- bit `used` is set, and the bits below it were
    by_cases h : used = bi
    · simp [h]
    · simp only [h, decide_false, Bool.false_or, decide_eq_decide]
      omega
  · have := hidle.past
    omega
  · exact hroom
  · intro k
    show (Function.update s.icache 0 _ k).ref = 0
    by_cases hk : k = 0
    · rw [hk, Function.update_self]
    · rw [Function.update_of_ne hk]
      exact hidle.unref k

/-- `namei` of a one-byte name the root does not hold, while `init` holds the root: `iget`
takes a second reference to it, the lookup misses, and the root keeps `init`'s reference. -/
theorem run_namei_miss_held (himg : Image thirtyFiles img) (hpl : Placed thirtyFiles img)
    (hfb : img.freeblock = 60) {used : ℕ} {s : FsState} (hidle : Idle img used s)
    (cwd : Fin nInode) {c : UInt8} (hc : c ≠ slash)
    (hname : ∀ i (h : i < (rootEntries thirtyFiles).length),
      namecmp [c] (rootEntries thirtyFiles)[i].name.toList ≠ 0) :
    (namei cwd [slash, c]).run (rootHeld s) = .ok (none, heldMissState img used s) := by
  set s₁ : FsState := { s with icache :=
    (Function.update s.icache 0 ⟨rootDev, rootIno, 2, 0, (s.icache 0).din⟩) } with hs₁
  have h1 : s₁.icache 0 = ⟨rootDev, rootIno, 2, 0, (s.icache 0).din⟩ := by
    simp only [hs₁, Function.update_self]
  have hwalk := @run_namexLoop_root_miss img himg hpl hfb used s₁ hidle.super hidle.rootInode
    hidle.rootBlock hidle.bitmap (hfb ▸ hidle.past) hidle.room 2 (by decide) _ h1 c hc hname
  rw [namei, StateT.run_bind, run_namex_root (rootHeld s) cwd false rfl, StateT.run_bind,
    run_iget_rootHeld, StateExcept.ok_bind]
  dsimp only
  rw [show ([slash, c] : List UInt8).length + 1 = 2 + 1 from rfl, hwalk]
  -- the walk puts the second reference back
  have hsub : (2 : Int32) - 1 = 1 := by decide
  simp only [heldMissState, missState, hs₁, Function.update_idem, hsub]
  rfl

/-- `iinit` reads the superblock from block `1`: on a disk that keeps the image's block `1`, it
reads the image's superblock. -/
theorem Image.iinit_sb_of_disk (himg : Image thirtyFiles img) {d : ℕ → Block}
    (h1 : d 1 = img.disk 1) : (iinit d).sb = sb := by
  rw [← himg.iinit_sb]
  simp only [iinit, h1]

/-- The kernel restarted on the disk of an idle state whose superblock is the image's is idle:
`iinit` reads the superblock from the disk and leaves every entry of `icache` empty. -/
theorem Idle.restart (himg : Image thirtyFiles img) {used : ℕ} {t : FsState}
    (hidle : Idle img used t) (h1 : t.disk 1 = img.disk 1) : Idle img used (iinit t.disk) where
  super := himg.iinit_sb_of_disk h1
  rootInode := hidle.rootInode
  rootBlock := hidle.rootBlock
  bitmap bi hbi := by
    show bitAt (t.disk (iinit t.disk).sb.bmapstart.toNat) bi = _
    rw [himg.iinit_sb_of_disk h1, ← hidle.super]
    exact hidle.bitmap bi hbi
  past := hidle.past
  room := hidle.room
  unref _ := rfl

/-! ## What the lookups leave -/

/-- The kernel started on the image of thirty files takes the root as the first process's current
directory, as `userinit` does with `namei("/")`, and then looks up `/x`, which the root does not
hold. The lookup returns `0`. Afterwards the root's entry of `icache`, still referenced and
valid, gives the root a second block at `60`, while the root's inode on disk, written by no
`iupdate` since, has none: the entry and the inode disagree in `addrs`. -/
theorem namei_root_entry_disagrees : ∃ img s₁ s₂,
    mkfs thirtyFiles = .ok img ∧
    (namei 0 [slash]).run (iinit img.disk) = .ok (some 0, s₁) ∧
    (namei 0 [slash, 120]).run s₁ = .ok (none, s₂) ∧
    (s₂.icache 0).ref = 1 ∧ (s₂.icache 0).valid = 1 ∧ (s₂.icache 0).din.addr 1 = 60 ∧
    (dinodeAt (s₂.disk (iblock s₂.sb rootIno.toNat)) (rootIno.toNat % ipb)).addr 1 = 0 := by
  obtain ⟨img, hrun, himg, hpl, hfb⟩ := thirtyFiles_placed
  have hidle : Idle img 60 (iinit img.disk) := hfb ▸ himg.idle hfb
  have h2 : (heldMissState img 60 (iinit img.disk)).icache 0 =
      ⟨rootDev, rootIno, 1, 1, (rinode img rootIno.toNat).setAddr 1 (UInt32.ofNat 60)⟩ := by
    simp only [heldMissState, Function.update_self]
  refine ⟨img, _, _, hrun, run_namei_root hidle 0,
    run_namei_miss_held himg hpl hfb hidle 0 (by decide) (by decide), by rw [h2], by rw [h2], ?_, ?_⟩
  · rw [h2]
    show ((rinode img rootIno.toNat).setAddr 1 (UInt32.ofNat 60)).addr 1 = 60
    rw [DInode.addr_setAddr _ (by decide), if_pos rfl]
    rfl
  · -- the root's inode block is neither the bitmap block nor block `60`
    show (dinodeAt (Function.update (Function.update img.disk (iinit img.disk).sb.bmapstart.toNat _)
      60 zeroBlock (iblock (iinit img.disk).sb rootIno.toNat)) (rootIno.toNat % ipb)).addr 1 = 0
    rw [himg.iinit_sb, Function.update_of_ne (by decide), Function.update_of_ne (by decide)]
    exact himg.thirty_addr_one

/-- Block `60` lost for good. The kernel started on the image of thirty files takes the root as
`init`'s current directory and looks up `/x`, which the root does not hold: the lookup takes
block `60` for the root's missing second block, in the root's entry of `icache` only. On disk
the bitmap now marks block `60`, which lies past the metadata, and no inode holds it. The kernel
then starts again on that disk, `init` takes the root again, and a lookup of `/y` takes block
`61` for the same missing block. Block `60` stays marked, and no inode holds it, on disk or in
`icache`. -/
theorem lookups_leak_block : ∃ img s₁ s₂ s₃ s₄,
    mkfs thirtyFiles = .ok img ∧
    (namei 0 [slash]).run (iinit img.disk) = .ok (some 0, s₁) ∧
    (namei 0 [slash, 120]).run s₁ = .ok (none, s₂) ∧
    bitAt (s₂.disk s₂.sb.bmapstart.toNat) 60 = true ∧ nMeta ≤ 60 ∧
    (∀ inum < nInodeSlots,
      ¬ Refers s₂.disk (dinodeAt (s₂.disk (iblock s₂.sb inum)) (inum % ipb)) 60) ∧
    (namei 0 [slash]).run (iinit s₂.disk) = .ok (some 0, s₃) ∧
    (namei 0 [slash, 121]).run s₃ = .ok (none, s₄) ∧
    bitAt (s₄.disk s₄.sb.bmapstart.toNat) 60 = true ∧
    (∀ inum < nInodeSlots,
      ¬ Refers s₄.disk (dinodeAt (s₄.disk (iblock s₄.sb inum)) (inum % ipb)) 60) ∧
    ∀ k, ¬ Refers s₄.disk (s₄.icache k).din 60 := by
  obtain ⟨img, hrun, himg, hpl, hfb⟩ := thirtyFiles_placed
  have hidle₀ : Idle img 60 (iinit img.disk) := hfb ▸ himg.idle hfb
  have hidle₁ := hidle₀.after_miss hfb (by decide)
  set s₂ := heldMissState img 60 (iinit img.disk) with hs₂
  -- the restart reads the superblock the first boot left alone
  have hidle₂ : Idle img 61 (iinit s₂.disk) :=
    hidle₁.restart himg (@missState_disk img 60 _ 1 (by rw [hidle₀.super]; decide) (by decide))
  have hidle₃ := hidle₂.after_miss hfb (by decide)
  set s₄ := heldMissState img 61 (iinit s₂.disk) with hs₄
  -- each boot's lookup wrote the bitmap block and one block past `60` only
  have hkeep₂ : ∀ b, b < 60 → b ≠ 58 → s₂.disk b = img.disk b := fun b hb h58 =>
    @missState_disk img 60 _ b (by rw [hidle₀.super]; exact h58) (by omega)
  have hkeep₄ : ∀ b, b < 60 → b ≠ 58 → s₄.disk b = img.disk b := fun b hb h58 =>
    (@missState_disk img 61 _ b (by rw [hidle₂.super]; exact h58) (by omega)).trans (hkeep₂ b hb h58)
  have hnot : ∀ d : ℕ → Block, (∀ b, b < 60 → b ≠ 58 → d b = img.disk b) →
      ∀ inum < nInodeSlots, ¬ Refers d (dinodeAt (d (iblock sb inum)) (inum % ipb)) 60 := by
    intro d hkeep inum hi
    -- the inode blocks are the image's, and the image's inodes hold no block past its own
    have hlt := iblock_lt_bmapstart hi
    rw [hkeep _ (lt_of_lt_of_le hlt (by decide)) hlt.ne]
    exact hpl.not_refers (by rw [hfb]; decide) (fun b hb₁ hb₂ => hkeep b (by omega)
      (by rw [nMeta_eq] at hb₁; omega)) hi hfb.le
  refine ⟨img, _, s₂, _, s₄, hrun, run_namei_root hidle₀ 0,
    run_namei_miss_held himg hpl hfb hidle₀ 0 (by decide) (by decide),
    (hidle₁.bitmap 60 (by decide)).trans (by decide), by rw [nMeta_eq]; decide,
    fun inum hi => ?_, run_namei_root hidle₂ 0,
    run_namei_miss_held himg hpl hfb hidle₂ 0 (by decide) (by decide),
    (hidle₃.bitmap 60 (by decide)).trans (by decide), fun inum hi => ?_, fun k => ?_⟩
  · rw [show s₂.sb = sb from hidle₁.super]
    exact hnot _ hkeep₂ inum hi
  · rw [show s₄.sb = sb from hidle₃.super]
    exact hnot _ hkeep₄ inum hi
  · -- the root's entry holds block `61` now, and the other entries nothing
    by_cases hk : k = 0
    · intro hr
      rw [hk] at hr
      rcases refers_setAddr (by decide) hr with h | h
      · exact absurd h (by decide)
      · exact hnot _ hkeep₄ rootIno.toNat (by decide) (by
          rw [hkeep₄ _ (by decide) (by decide)]
          exact h)
    · intro hr
      have hz : (s₄.icache k).din = DInode.zero := by
        show (Function.update (iinit s₂.disk).icache 0 _ k).din = _
        rw [Function.update_of_ne hk]
        rfl
      rw [hz] at hr
      exact absurd (refers_zero hr) (by decide)

end Xv6.Mkfs
