import Xv6.Fs.Dir
import Xv6.Fs.MkfsImage

/-!
# `mkfs` and the kernel read one format

`mkfs` on the build host and `fs.c` in the kernel are two implementations of one on-disk format.
This file proves that the kernel, started on the image `mkfs` writes, reads it as `mkfs` meant:
`iinit` finds the superblock, the bitmap marks the blocks in use, every file's blocks lie where
`bmap` looks for them, and each input file is found by its name in the root with `dirlookup` and
read back by `readi`, which allocates nothing on the way.

The one place where the two part is the root's size. `main` rounds it up with
`((off / BSIZE) + 1) * BSIZE`. When the entries fill their last block exactly, as they do for
thirty input files, the size covers one block more, which the root does not have: a `readi` of
the root there reaches `balloc`.

## Main definitions

* `Agrees files img`: what the kernel finds in the image `img` of the input files `files`.

## Main results

* `mkfs_kernel_agree`: for input files that fit in the image and have distinct names other than
  `.` and `..`, the kernel finds `Agrees`.
* `mkfs_root_hole`: thirty input files leave the root a size past its blocks.
-/

namespace Xv6.Mkfs

open Fs LittleEndian

/-! ## The root's entries -/

theorem rootEntries_getElem_file (files : List InputFile) {i : ℕ} (hi : i < files.length)
    (hi' : i + 2 < (rootEntries files).length) :
    (rootEntries files)[i + 2] = entry (i + 2) (stripName files[i].name) := by
  simp [rootEntries]

/-- The name of an entry `main` wrote compares equal to a name exactly when their C strings, cut
to `DIRSIZ`, agree. -/
theorem namecmp_entry_eq_zero (key : List UInt8) (inum : ℕ) (name : List UInt8) :
    namecmp key (entry inum name).name.toList = 0 ↔ cstr key dirSiz = cstr name dirSiz := by
  rw [namecmp, strncmp_eq_zero_iff, entry, cstr_strncpy]

/-- The inode number of an entry `main` wrote, as `iget` takes it. -/
theorem entry_inum_toUInt32 {inum : ℕ} (h : inum < 2 ^ 16) (name : List UInt8) :
    (entry inum name).inum.toUInt32 = UInt32.ofNat inum := by
  have hU : UInt32.size = 4294967296 := rfl
  apply UInt32.toNat_inj.mp
  rw [UInt32.toNat_ofNat_of_lt' (by omega)]
  simp [entry, UInt16.toNat_ofNat_of_lt' h]

/-- The inode number of an entry `main` wrote is not `0`: the entry is live. -/
theorem entry_inum_ne_zero {inum : ℕ} (h0 : 0 < inum) (h : inum < 2 ^ 16) (name : List UInt8) :
    (entry inum name).inum ≠ 0 := by
  intro heq
  have h' := congrArg UInt16.toNat heq
  simp only [entry, UInt16.toNat_ofNat_of_lt' h, UInt16.toNat_zero] at h'
  omega

/-! ## The kernel on the image -/

variable {files : List InputFile} {img : Img}

theorem Image.iinit_sb (himg : Image files img) : (iinit img.disk).sb = sb := by
  simp [iinit, himg.super, readsb_setWords]

/-- The kernel takes the root, the first entry of `icache`, and reads its inode. -/
theorem run_root_locked (himg : Image files img) : ∃ s₁ s₂,
    (iget rootDev rootIno).run (iinit img.disk) = .ok (0, s₁) ∧ (ilock 0).run s₁ = .ok ((), s₂) ∧
    s₂.disk = img.disk ∧ s₂.sb = sb ∧
    s₂.icache 0 = ⟨rootDev, rootIno, 1, 1, rinode img rootIno.toNat⟩ ∧
    ∀ k, k ≠ 0 → s₂.icache k = Inode.zero := by
  have hget := @run_iget_new (iinit img.disk) rootDev rootIno 0 (fun _ => rfl) rfl
    (fun i hi => absurd hi (Fin.not_lt_zero i))
  set s₁ := { iinit img.disk with icache := (Function.update (iinit img.disk).icache 0
    { (iinit img.disk).icache 0 with dev := rootDev, inum := rootIno, ref := 1, valid := 0 }) }
  have h0 : s₁.icache 0 = ⟨rootDev, rootIno, 1, 0, DInode.zero⟩ := by
    simp only [s₁, Function.update_self]
    rfl
  have hsb : s₁.sb = sb := himg.iinit_sb
  -- the root's inode, where `main` wrote it
  have hdin : dinodeAt (s₁.disk (iblock s₁.sb (s₁.icache 0).inum.toNat))
      ((s₁.icache 0).inum.toNat % ipb) = rinode img rootIno.toNat := by
    rw [hsb, h0]
    rfl
  have hlock := run_ilock_load s₁ 0 (by rw [h0]; decide) (by rw [h0]) (by
    rw [hdin, himg.root.1]
    decide)
  refine ⟨s₁, _, hget, hlock, rfl, hsb, ?_, fun k hk => ?_⟩
  · simp only [Function.update_self]
    rw [hdin, h0]
  · simp only [Function.update_of_ne hk, s₁]
    rfl

/-- The root's size, rounded up past its entries, and its bound. -/
theorem Image.rootSize_bounds (himg : Image files img) (hslot : files.length + 2 ≤ nInodeSlots) :
    direntSize * (files.length + 2) ≤ (rinode img rootIno.toNat).size.toNat ∧
      (rinode img rootIno.toNat).size.toNat ≤ maxFile * bSize := by
  rw [himg.rootSize]
  simp only [nInodeSlots, nInodeBlocks, nInodes, ipb, bSize, direntSize, maxFile, nDirect,
    nIndirect] at hslot ⊢
  omega

/-- The name of file `i` compares equal to no entry before its own: not to `.` or `..`, and not to
the names of the files before it. -/
theorem rootEntries_skip (hnames : (files.map fun f => cstr (stripName f.name) dirSiz).Nodup)
    (hdots : ∀ f ∈ files, cstr (stripName f.name) dirSiz ≠ dot ∧
      cstr (stripName f.name) dirSiz ≠ dotdot)
    {i : ℕ} (hi : i < files.length) (k : ℕ) (hk : k < i + 2)
    (hk' : k < (rootEntries files).length) :
    namecmp ((stripName files[i].name).take dirSiz) (rootEntries files)[k].name.toList ≠ 0 := by
  have hcstr := cstr_take (stripName files[i].name) dirSiz
  have hdot := hdots files[i] (List.getElem_mem hi)
  match k, hk with
  | 0, _ =>
    rw [show (rootEntries files)[0] = entry rootIno.toNat dot from rfl, Ne, namecmp_entry_eq_zero,
      hcstr]
    exact hdot.1
  | 1, _ =>
    rw [show (rootEntries files)[1] = entry rootIno.toNat dotdot from rfl, Ne, namecmp_entry_eq_zero,
      hcstr]
    exact hdot.2
  | k + 2, hk =>
    -- a file before: its name differs, since the names are distinct
    have hkf : k < files.length := by omega
    rw [rootEntries_getElem_file files hkf hk', Ne, namecmp_entry_eq_zero, hcstr]
    intro heq
    have hinj := (@List.Nodup.getElem_inj_iff _ _ hnames i (by simpa) k (by simpa)).mp
      (by simpa using heq)
    omega

/-- In the root as the kernel has read it, `dirlookup` of the name of file `i` finds its entry
and takes its inode into the next entry of `icache`, not yet read. -/
theorem run_lookup_file (himg : Image files img) (hslot : files.length + 2 ≤ nInodeSlots)
    (hnames : (files.map fun f => cstr (stripName f.name) dirSiz).Nodup)
    (hdots : ∀ f ∈ files, cstr (stripName f.name) dirSiz ≠ dot ∧
      cstr (stripName f.name) dirSiz ≠ dotdot)
    {s : FsState} (hdisk : s.disk = img.disk)
    (h0 : s.icache 0 = ⟨rootDev, rootIno, 1, 1, rinode img rootIno.toNat⟩)
    (hz : ∀ k, k ≠ 0 → s.icache k = Inode.zero) {i : ℕ} (hi : i < files.length) :
    ∃ s', (dirlookup 0 ((stripName files[i].name).take dirSiz)).run s =
        .ok (some (1, UInt32.ofNat (direntSize * (i + 2))), s') ∧
      s'.disk = img.disk ∧ s'.sb = s.sb ∧
      s'.icache 1 = ⟨rootDev, UInt32.ofNat (i + 2), 1, 0, DInode.zero⟩ := by
  have hslots : nInodeSlots = 208 := rfl
  have hdin : (s.icache 0).din = rinode img rootIno.toNat := by rw [h0]
  have hlen : (rootEntries files).length = files.length + 2 := length_rootEntries files
  obtain ⟨hsize, hmax⟩ := himg.rootSize_bounds hslot
  have hinum : (rootEntries files)[i + 2].inum.toUInt32 = UInt32.ofNat (i + 2) := by
    rw [rootEntries_getElem_file files hi (by omega)]
    exact entry_inum_toUInt32 (by omega) _
  have hfound := @run_dirlookup_found s 0 ((stripName files[i].name).take dirSiz)
    (rootEntries files) (by rw [hdin]; exact himg.root.1) (by rw [hdin, hlen]; exact hsize)
    (by rw [hdin]; exact hmax)
    (by rw [hdisk, hdin, hlen, Nat.mul_comm]; exact himg.rootBytes)
    (fun j hj => by
      rw [hdisk, hdin]
      exact himg.rootMapped _ (div_lt_blocksOf (by rw [hlen] at hj; rw [Nat.mul_comm]; exact hj)))
    (i + 2) (by omega) ⟨by
      rw [rootEntries_getElem_file files hi (by omega)]
      exact entry_inum_ne_zero (by omega) (by omega) _, by
      rw [rootEntries_getElem_file files hi (by omega), namecmp_entry_eq_zero, cstr_take]⟩
    (fun k hk => .inr (rootEntries_skip hnames hdots hi k hk (by omega)))
  -- the inode of the entry: held by no entry of `icache`, so the first free one takes it
  have hne : UInt32.ofNat (i + 2) ≠ rootIno := by
    intro h
    have h' := congrArg UInt32.toNat h
    rw [UInt32.toNat_ofNat_of_lt' (by have : UInt32.size = 4294967296 := rfl; omega)] at h'
    have hroot : rootIno.toNat = 1 := rfl
    omega
  have hget := @run_iget_new s rootDev (UInt32.ofNat (i + 2)) 1
    (fun k => by
      by_cases hk : k = 0
      · rw [hk, h0]
        simp only [Inode.holds, Bool.and_eq_false_iff]
        exact .inr (beq_false_of_ne (Ne.symm hne))
      · rw [hz k hk]
        rfl)
    (by rw [hz 1 (by decide)]; rfl)
    (fun k hk => by
      have hk0 : k = 0 := Fin.ext (show k.val = 0 by have : k.val < 1 := hk; omega)
      rw [hk0, h0]
      show (1 : Int32) ≠ 0
      decide)
  have hrun : (dirlookup 0 ((stripName files[i].name).take dirSiz)).run s =
      .ok (some (1, UInt32.ofNat (direntSize * (i + 2))), { s with icache := (Function.update
        s.icache 1 ⟨rootDev, UInt32.ofNat (i + 2), 1, 0, (s.icache 1).din⟩) }) := by
    rw [hfound, StateT.run_bind, h0]
    dsimp only
    rw [hinum, hget, StateExcept.ok_bind]
    rfl
  refine ⟨_, hrun, hdisk, rfl, ?_⟩
  simp only [Function.update_self]
  rw [hz 1 (by decide)]
  rfl

/-- `ilock` of the entry `dirlookup` gave file `i` reads the inode `main` wrote, and `readi` over
its size returns the file's bytes and changes nothing. -/
theorem run_read_file (himg : Image files img) (hslot : files.length + 2 ≤ nInodeSlots)
    (hsize : ∀ f ∈ files, f.content.length ≤ maxFile * bSize)
    {s : FsState} (hdisk : s.disk = img.disk) (hsb : s.sb = sb) {i : ℕ} (hi : i < files.length)
    (h1 : s.icache 1 = ⟨rootDev, UInt32.ofNat (i + 2), 1, 0, DInode.zero⟩) :
    ∃ s', (ilock 1).run s = .ok ((), s') ∧ s'.disk = img.disk ∧ s'.sb = s.sb ∧
      (s'.icache 1).din.size.toNat = files[i].content.length ∧
      (readi 1 0 (s'.icache 1).din.size).run s' =
        .ok (((s'.icache 1).din.size.toInt32, files[i].content), s') := by
  have hU : UInt32.size = 4294967296 := rfl
  have hinum : (UInt32.ofNat (i + 2)).toNat = i + 2 :=
    UInt32.toNat_ofNat_of_lt' (by have : nInodeSlots = 208 := rfl; omega)
  obtain ⟨hmade, hbytes, hmapped⟩ := himg.file i hi
  -- the slot `ilock` reads is the one `main` wrote
  have hdin : dinodeAt (s.disk (iblock s.sb (s.icache 1).inum.toNat))
      ((s.icache 1).inum.toNat % ipb) = rinode img (i + 2) := by
    rw [h1, hdisk, hsb]
    show dinodeAt (img.disk (iblock sb (UInt32.ofNat (i + 2)).toNat)) _ = _
    rw [hinum]
    rfl
  have hlock := run_ilock_load s 1 (by rw [h1]; show ¬ (1 : Int32) < 1; decide) (by rw [h1])
    (by rw [hdin, hmade.1]; decide)
  rw [hdin] at hlock
  refine ⟨_, hlock, hdisk, rfl, ?_⟩
  have hlen : (rinode img (i + 2)).size.toNat = files[i].content.length := by
    rw [← hbytes, fileBytes, length_dataBytes]
  have hmax : (rinode img (i + 2)).size.toNat ≤ maxFile * bSize := by
    rw [hlen]
    exact hsize _ (List.getElem_mem hi)
  simp only [Function.update_self]
  refine ⟨hlen, ?_⟩
  rw [run_readi_mapped _ 1 (by simp only [Function.update_self]; rw [hmade.1]; decide)
    (by simp) (by simpa using hmax)
    (fun j _ hj => by
      simp only [Function.update_self, UInt32.toNat_zero, Nat.zero_add] at hj ⊢
      rw [hdisk]
      exact hmapped _ (div_lt_blocksOf hj))]
  simp only [Function.update_self, hdisk, UInt32.toNat_zero, ← dataBytes_eq_bytesFrom]
  rw [show dataBytes img.disk (rinode img (i + 2)) (rinode img (i + 2)).size.toNat =
    fileBytes img.disk (rinode img (i + 2)) from rfl, hbytes]

/-- The root has every block below its size exactly when its entries do not end on a block
boundary: when they do, the rounding of `main` adds a block that is not there. -/
theorem Image.rootMapped_iff (himg : Image files img) (hslot : files.length + 2 ≤ nInodeSlots) :
    (∀ bn < blocksOf (rinode img rootIno.toNat).size.toNat,
      blockAddr img.disk (rinode img rootIno.toNat) bn ≠ 0) ↔ (files.length + 2) % 32 ≠ 0 := by
  have hslots : nInodeSlots = 208 := rfl
  have hsz : blocksOf (rinode img rootIno.toNat).size.toNat =
      (files.length + 2) * direntSize / bSize + 1 := by
    rw [himg.rootSize]
    simp only [blocksOf, direntSize, bSize]
    omega
  constructor
  · intro hall hz
    -- the last block below the size lies past the entries: a hole
    have hlast := himg.rootUnmapped ((files.length + 2) * direntSize / bSize)
      (by simp only [blocksOf, direntSize, bSize]; omega)
      (by simp only [direntSize, bSize, maxFile, nDirect, nIndirect]; omega)
    exact hall _ (by rw [hsz]; omega) hlast
  · intro hne bn hbn
    apply himg.rootMapped
    rw [hsz] at hbn
    simp only [blocksOf, direntSize, bSize] at hbn ⊢
    omega

/-- What the kernel finds on the image `img` that `main` built from the input files `files`. -/
structure Agrees (files : List InputFile) (img : Img) : Prop where
  /-- `iinit` reads the superblock `main` wrote. -/
  super : (iinit img.disk).sb = sb
  /-- The bitmap marks the blocks `0` to `freeblock - 1`, and no other. -/
  bitmap : ∀ b < bpb, bitAt (img.disk (bblock sb b)) (b % bpb) = decide (b < img.freeblock)
  fits : img.freeblock ≤ fsSize
  /-- Every block below a file's size is there, where `bmap` looks for it. -/
  fileMapped : ∀ i < files.length, ∀ bn < blocksOf (rinode img (i + 2)).size.toNat,
    blockAddr img.disk (rinode img (i + 2)) bn ≠ 0
  /-- The root has every block below its size exactly when its entries do not fill their last
  block. -/
  rootMapped : (∀ bn < blocksOf (rinode img rootIno.toNat).size.toNat,
      blockAddr img.disk (rinode img rootIno.toNat) bn ≠ 0) ↔ (files.length + 2) % 32 ≠ 0
  /-- From boot, the kernel finds file `i` by its name in the root and reads its bytes back,
  changing nothing. -/
  lookup : ∀ i (h : i < files.length), ∃ s₁ s₂ ip off s₃ s₄,
    (iget rootDev rootIno).run (iinit img.disk) = .ok (0, s₁) ∧ (ilock 0).run s₁ = .ok ((), s₂) ∧
    (dirlookup 0 ((stripName files[i].name).take dirSiz)).run s₂ = .ok (some (ip, off), s₃) ∧
    (ilock ip).run s₃ = .ok ((), s₄) ∧ (s₄.icache ip).din.size.toNat = files[i].content.length ∧
    (readi ip 0 (s₄.icache ip).din.size).run s₄ =
      .ok (((s₄.icache ip).din.size.toInt32, files[i].content), s₄)

theorem mkfs_kernel_agree (files : List InputFile) (hslash : ∀ f ∈ files, slash ∉ f.name)
    (hsize : ∀ f ∈ files, f.content.length ≤ maxFile * bSize)
    (hslot : files.length + 2 ≤ nInodeSlots)
    (hfit : nMeta + held (blocksOf ((files.length + 2) * direntSize)) +
      (files.map fun f => held (blocksOf f.content.length)).sum ≤ fsSize)
    (hnames : (files.map fun f => cstr (stripName f.name) dirSiz).Nodup)
    (hdots : ∀ f ∈ files, cstr (stripName f.name) dirSiz ≠ dot ∧
      cstr (stripName f.name) dirSiz ≠ dotdot) :
    ∃ img, mkfs files = .ok img ∧ Agrees files img := by
  obtain ⟨img, hrun, himg⟩ := mkfs_image files hslash hsize hslot hfit
  have hfb : img.freeblock ≤ fsSize := by rw [himg.freeblock]; exact hfit
  refine ⟨img, hrun, ⟨himg.iinit_sb, fun b hb => ?_, hfb, fun i hi => (himg.file i hi).2.2,
    himg.rootMapped_iff hslot, fun i hi => ?_⟩⟩
  · -- one bitmap block: `balloc`'s bits for the blocks below `freeblock`
    have hbb : bblock sb b = sb.bmapstart.toNat := by
      rw [bblock, Nat.div_eq_of_lt hb, Nat.zero_add]
    rw [hbb, himg.bitmap, Nat.mod_eq_of_lt hb,
      bitAt_bitmapOf (le_trans hfb (by simp only [fsSize, bpb, bSize]; omega))]
  · -- boot, the lookup of the name in the root, and the read of the file
    obtain ⟨s₁, s₂, h1, h2, hd2, hsb2, h0, hz⟩ := run_root_locked himg
    obtain ⟨s₃, h3, hd3, hsb3, hic3⟩ := run_lookup_file himg hslot hnames hdots hd2 h0 hz hi
    obtain ⟨s₄, h4, -, -, hsz, hread⟩ :=
      run_read_file himg hslot hsize hd3 (hsb3.trans hsb2) hi hic3
    exact ⟨s₁, s₂, 1, _, s₃, s₄, h1, h2, h3, h4, hsz, hread⟩

/-- A one-file image: the file `a` of three bytes. -/
theorem mkfs_kernel_agree_one_file :
    ∃ img, mkfs [⟨[97], [1, 2, 3]⟩] = .ok img ∧ Agrees [⟨[97], [1, 2, 3]⟩] img :=
  mkfs_kernel_agree _ (by decide) (by decide) (by decide) (by decide) (by decide) (by decide)

/-- Thirty empty input files, with the one-letter names `A` to `^`. -/
def thirtyFiles : List InputFile := (List.range 30).map fun i => ⟨[UInt8.ofNat (65 + i)], []⟩

/-- The image of `thirtyFiles`, and what it holds: the root's 32 entries fill its first block,
which is block `59`, and `freeblock` is `60`. -/
theorem thirtyFiles_image : ∃ img, mkfs thirtyFiles = .ok img ∧ Image thirtyFiles img ∧
    img.freeblock = 60 := by
  obtain ⟨img, hrun, himg⟩ := mkfs_image thirtyFiles (by decide) (by decide) (by decide)
    (by decide)
  exact ⟨img, hrun, himg, by rw [himg.freeblock]; decide⟩

/-- With thirty input files the root's 32 entries fill its first block exactly, and `main`
rounds its size up to two blocks, of which block 1 is not there. The kernel's `readi` of the
root inside its size, at offset 512, reaches `balloc`: block `60` is marked in the bitmap and
given to the root, in the cache. -/
theorem mkfs_root_hole : ∃ img s₁ s₂ s₃,
    mkfs thirtyFiles = .ok img ∧
    (rinode img rootIno.toNat).size.toNat = 2 * bSize ∧
    blockAddr img.disk (rinode img rootIno.toNat) 1 = 0 ∧
    (iget rootDev rootIno).run (iinit img.disk) = .ok (0, s₁) ∧ (ilock 0).run s₁ = .ok ((), s₂) ∧
    (readi 0 (UInt32.ofNat bSize) (UInt32.ofNat direntSize)).run s₂ =
      .ok (((UInt32.ofNat direntSize).toInt32, List.replicate direntSize 0), s₃) ∧
    bitAt (s₂.disk sb.bmapstart.toNat) 60 = false ∧ bitAt (s₃.disk sb.bmapstart.toNat) 60 = true ∧
    (s₃.icache 0).din.addr 1 = 60 := by
  obtain ⟨img, hrun, himg, hfb⟩ := thirtyFiles_image
  have hsize : (rinode img rootIno.toNat).size.toNat = 2 * bSize := by
    rw [himg.rootSize]
    rfl
  have hhole : blockAddr img.disk (rinode img rootIno.toNat) 1 = 0 :=
    himg.rootUnmapped 1 (by decide) (by decide)
  obtain ⟨s₁, s₂, h1, h2, hd2, hsb2, h0, -⟩ := run_root_locked himg
  have hbits : ∀ bi < bpb, bitAt (s₂.disk s₂.sb.bmapstart.toNat) bi = decide (bi < 60) := by
    intro bi _
    rw [hd2, hsb2, himg.bitmap, hfb, bitAt_bitmapOf (by decide)]
  -- `bmap` finds no address for block 1, and `balloc` takes block 60
  have hb := run_balloc_next s₂ (by rw [hsb2]; decide) (by decide) hbits
  have hdin : (s₂.icache 0).din = rinode img rootIno.toNat := by rw [h0]
  have hloop := @run_readiLoop_hole s₂ 0 (UInt32.ofNat bSize) (UInt32.ofNat direntSize)
    (by decide) (by decide) (by decide)
    (by
      rw [hdin]
      have h := hhole
      simp only [blockAddr, show 1 < nDirect from by decide, if_true] at h
      exact UInt32.toNat_inj.mp h)
    _ _ hb (by simp) (UInt32.ofNat direntSize).toNat
  have hread := @run_readi_inside s₂ 0 (UInt32.ofNat bSize) (UInt32.ofNat direntSize)
    (by rw [hdin, himg.root.1]; decide) (by rw [hdin, hsize]; decide) _ hloop
  refine ⟨img, s₁, s₂, _, hrun, hsize, hhole, h1, h2, hread, ?_, ?_, ?_⟩
  · rw [hd2, himg.bitmap, hfb, bitAt_bitmapOf (by decide)]
    decide
  · simp only [hsb2, Function.update_of_ne (show 60 ≠ sb.bmapstart.toNat by decide).symm,
      Function.update_self]
    rw [bitAt_setBit _ (by decide)]
    simp
  · simp only [Function.update_self]
    rw [DInode.addr_setAddr _ (by decide), if_pos (by decide)]
    rfl

end Xv6.Mkfs
