import Xv6.Fs.MkfsLayout

/-!
# The image `mkfs` writes

`ImgInv` is what `mkfs` keeps of its image from the superblock on: every inode it has handed out
is laid out as the kernel's `bmap` reads it, every block held by an inode lies in the data
region below `freeblock`, the blocks from `freeblock` on are still zero, and the superblock
stays where `main` wrote it. `ialloc`, `iappend` and `copyFile` keep it, and each changes the
inodes and bytes it is meant to and no others (`Appends`).

`Built files img` follows `main` over the input files: after the root and the files `files`,
the root holds the entries `.`, `..` and one per file, and the inode of file `i` holds its bytes.

## Main definitions

* `ImgInv`: the invariant of the image.
* `Appends A p img img'`: from `img` to `img'`, the bytes `p` were appended to inode `A`.
* `Unused img`: the inode slots not handed out are zero.
* `rootEntries`, `Built`: the root's entries, and the image after a list of files.
* `Image`, `Placed`: what the kernel finds in the image `main` writes.

## Main results

* `ialloc_inv`, `iappend_inv`, `copyFile_inv`: each step keeps the invariant.
* `addFile_built`: the loop of `main` adds one file.
* `mkfs_spec`: `main` builds the image, its last steps written out.
* `mkfs_image`, `mkfs_placed`: the image `main` writes.
-/

namespace Xv6.Mkfs

open Fs LittleEndian

/-! ## Where the inodes lie -/

/-- The slots of the inode blocks: inodes past them would share the bitmap block. -/
def nInodeSlots : ℕ := nInodeBlocks * ipb

theorem iblock_eq (inum : ℕ) : iblock sb inum = inum / ipb + 32 := rfl

/-- The block of an inode that has a slot lies before the bitmap. -/
theorem iblock_lt_bmapstart {inum : ℕ} (h : inum < nInodeSlots) :
    iblock sb inum < sb.bmapstart.toNat := by
  rw [iblock_eq, show sb.bmapstart.toNat = 58 from rfl]
  simp only [nInodeSlots, nInodeBlocks, nInodes, ipb, bSize] at h ⊢
  omega

/-- The block of an inode that has a slot lies below the data. -/
theorem iblock_lt_nMeta {inum : ℕ} (h : inum < nInodeSlots) : iblock sb inum < nMeta :=
  lt_of_lt_of_le (iblock_lt_bmapstart h) (by decide)

/-- The block of an inode is not the superblock. -/
theorem one_lt_iblock (inum : ℕ) : 1 < iblock sb inum := by
  simp only [iblock_eq, ipb, bSize]
  omega

/-! ## The invariant -/

/-- What `mkfs` keeps of its image, with `own` telling which inode holds each block. -/
structure ImgInv (img : Img) (own : ℕ → Option (ℕ × Part)) : Prop where
  bounded : Bounded own img.freeblock
  fresh : Fresh img
  dataStart : nMeta ≤ img.freeblock
  slots : img.freeinode ≤ nInodeSlots
  owner : ∀ b y, own b = some y → 0 < y.1 ∧ y.1 < img.freeinode
  laid : ∀ inum, 0 < inum → inum < img.freeinode →
    Laid img.disk own inum (rinode img inum) (blocksOf (rinode img inum).size.toNat)
  super : img.disk 1 = setWords zeroBlock 0 sb.words

/-- The inode slots `main` has not handed out, and slot `0`, which it never hands out, are zero. -/
def Unused (img : Img) : Prop :=
  ∀ inum < nInodeSlots, (inum = 0 ∨ img.freeinode ≤ inum) → rinode img inum = DInode.zero

variable {img img' : Img} {own : ℕ → Option (ℕ × Part)} {A : ℕ}

/-- A block below `nmeta` is held by no inode. -/
theorem Bounded.ne_of_lt_nMeta {fb b : ℕ} (hB : Bounded own fb) (hb : b < nMeta) {b' : ℕ}
    {y : ℕ × Part} (hb' : own b' = some y) : b' ≠ b := by
  have := (hB b' y hb').1
  omega

/-- A write below `nmeta` keeps every file's blocks and bytes. -/
theorem Laid.update_meta {disk : ℕ → Block} {fb nb b : ℕ} {d : DInode} (hL : Laid disk own A d nb)
    (hB : Bounded own fb) (hb : b < nMeta) (blk : Block) :
    Laid (Function.update disk b blk) own A d nb ∧
      ∀ j < nb * bSize, fileByte (Function.update disk b blk) d j = fileByte disk d j :=
  hL.frame (fun _ _ h => h) fun _ _ hb' => Function.update_of_ne (hB.ne_of_lt_nMeta hb hb') _ _

/-- A file of `size` bytes lies in the blocks `blocksOf size`. -/
theorem le_blocksOf_mul (size : ℕ) : size ≤ blocksOf size * bSize := by
  simp only [blocksOf, bSize]
  omega

theorem dataBytes_congr {disk disk' : ℕ → Block} {d d' : DInode} {n : ℕ}
    (h : ∀ j < n, fileByte disk' d' j = fileByte disk d j) :
    dataBytes disk' d' n = dataBytes disk d n :=
  List.map_congr_left fun j hj => h j (List.mem_range.mp hj)

/-- The bytes of a file are those below its size. -/
theorem fileBytes_congr {disk disk' : ℕ → Block} {d : DInode}
    (h : ∀ j < d.size.toNat, fileByte disk' d j = fileByte disk d j) :
    fileBytes disk' d = fileBytes disk d :=
  dataBytes_congr h

/-- `Laid` reads the inode only at its addresses. -/
theorem Laid.of_addrs {disk : ℕ → Block} {nb : ℕ} {d d' : DInode} (hL : Laid disk own A d nb)
    (h : d'.addrs = d.addrs) : Laid disk own A d' nb := by
  have haddr : ∀ k, d'.addr k = d.addr k := fun k => by simp only [DInode.addr, h]
  have hblock : ∀ bn, blockAddr disk d' bn = blockAddr disk d bn := fun bn => by
    simp only [blockAddr, haddr]
  exact ⟨fun bn hbn => hblock bn ▸ hL.data bn hbn, fun bn h₁ h₂ => (haddr bn).trans (hL.direct bn h₁ h₂),
    fun hd => haddr nDirect ▸ hL.indirect hd, fun hd => (haddr nDirect).trans (hL.noIndirect hd),
    fun hd bn h₁ h₂ => (hblock bn).trans (hL.entries hd bn h₁ h₂), hL.bound⟩

theorem rinode_congr {inum : ℕ} (h : img'.disk (iblock sb inum) = img.disk (iblock sb inum)) :
    rinode img' inum = rinode img inum := by
  simp [rinode, h]

/-- A file keeps its bytes while its blocks are kept. -/
theorem Laid.fileBytes_eq {disk disk' : ℕ → Block} {own' : ℕ → Option (ℕ × Part)} {d : DInode}
    (hL : Laid disk own A d (blocksOf d.size.toNat)) (hown : ∀ b y, own b = some y → own' b = some y)
    (hkeep : ∀ b q, own b = some (A, q) → disk' b = disk b) :
    fileBytes disk' d = fileBytes disk d :=
  fileBytes_congr fun j hj =>
    (hL.frame hown hkeep).2 j (lt_of_lt_of_le hj (le_blocksOf_mul _))

/-- An inode whose addresses are all zero has no blocks. -/
theorem laid_zero (disk : ℕ → Block) (own : ℕ → Option (ℕ × Part)) (A : ℕ) {d : DInode}
    (h : ∀ k, d.addr k = 0) : Laid disk own A d 0 where
  data _ hbn := absurd hbn (Nat.not_lt_zero _)
  direct bn _ _ := h bn
  indirect hd := absurd hd (Nat.not_lt_zero _)
  noIndirect _ := h nDirect
  entries hd := absurd hd (Nat.not_lt_zero _)
  bound := Nat.zero_le _

/-! ## `ialloc` -/

/-- The inode `ialloc` writes: type `type`, one link, and nothing else. -/
theorem rinode_ialloc_self (img : Img) (type : Int16) :
    rinode (ialloc img type).2 img.freeinode = { DInode.zero with type := type, nlink := 1 } := by
  simp [ialloc]

theorem rinode_ialloc_of_ne (img : Img) (type : Int16) {inum : ℕ} (h : inum ≠ img.freeinode) :
    rinode (ialloc img type).2 inum = rinode img inum := by
  simp only [ialloc]
  rw [rinode_winode_of_ne _ (Ne.symm h)]
  rfl

@[simp]
theorem ialloc_fst (img : Img) (type : Int16) : (ialloc img type).1 = img.freeinode := rfl

@[simp]
theorem ialloc_freeinode (img : Img) (type : Int16) :
    (ialloc img type).2.freeinode = img.freeinode + 1 := rfl

@[simp]
theorem ialloc_freeblock (img : Img) (type : Int16) :
    (ialloc img type).2.freeblock = img.freeblock := rfl

/-- `ialloc` writes the block of the new inode only. -/
theorem ialloc_disk (img : Img) (type : Int16) :
    (ialloc img type).2.disk = Function.update img.disk (iblock sb img.freeinode)
      (setDinodeAt (img.disk (iblock sb img.freeinode)) (img.freeinode % ipb)
        { DInode.zero with type := type, nlink := 1 }) := rfl

/-- `ialloc` keeps the invariant while an inode slot is left, and the new inode is empty. -/
theorem ialloc_inv (hI : ImgInv img own) (hroom : img.freeinode < nInodeSlots) (type : Int16) :
    ImgInv (ialloc img type).2 own := by
  have hib : iblock sb img.freeinode < nMeta := iblock_lt_nMeta hroom
  -- the blocks of every file lie at `nmeta` or above, away from the new inode's block
  have hframe : ∀ inum, 0 < inum → inum < img.freeinode →
      Laid (ialloc img type).2.disk own inum (rinode img inum)
        (blocksOf (rinode img inum).size.toNat) := fun inum h0 h =>
    ((hI.laid inum h0 h).update_meta hI.bounded hib _).1
  constructor
  · exact hI.bounded
  · intro b hb
    rw [ialloc_disk, Function.update_of_ne (by simp at hb; have := hI.dataStart; omega)]
    exact hI.fresh b hb
  · exact hI.dataStart
  · simp only [ialloc_freeinode]
    omega
  · intro b y hb
    have := hI.owner b y hb
    simp only [ialloc_freeinode]
    omega
  · intro inum h0 h
    simp only [ialloc_freeinode] at h
    by_cases hnew : inum = img.freeinode
    · -- the new inode: size `0`, no blocks
      subst hnew
      have hsize : ({ DInode.zero with type := type, nlink := 1 } : DInode).size.toNat = 0 := rfl
      rw [rinode_ialloc_self, hsize]
      exact laid_zero _ _ _ fun k => DInode.addr_zero k
    · rw [rinode_ialloc_of_ne _ _ hnew]
      exact hframe inum h0 (by omega)
  · rw [ialloc_disk, Function.update_of_ne (one_lt_iblock _).ne]
    exact hI.super

/-- `ialloc` writes the slot it hands out and no other. -/
theorem Unused.ialloc (hu : Unused img) (h0 : 0 < img.freeinode) (type : Int16) :
    Unused (ialloc img type).2 := by
  intro inum hi hz
  simp only [ialloc_freeinode] at hz
  rw [rinode_ialloc_of_ne _ _ (by omega)]
  exact hu inum hi (by omega)

/-! ## `iappend` -/

/-- From `img` to `img'`, the bytes `p` were appended to inode `A`: its size and blocks changed
and nothing else of it, and every other inode kept its fields and bytes. -/
structure Appends (A : ℕ) (p : List UInt8) (img img' : Img) : Prop where
  freeinode : img'.freeinode = img.freeinode
  count : img'.freeblock + held (blocksOf (rinode img A).size.toNat) =
    img.freeblock + held (blocksOf ((rinode img A).size.toNat + p.length))
  shape : rinode img' A =
    { rinode img A with size := (rinode img' A).size, addrs := (rinode img' A).addrs }
  bytes : fileBytes img'.disk (rinode img' A) = fileBytes img.disk (rinode img A) ++ p
  others : ∀ B < nInodeSlots, B ≠ A → rinode img' B = rinode img B
  otherBytes : ∀ B, 0 < B → B < img.freeinode → B ≠ A →
    fileBytes img'.disk (rinode img' B) = fileBytes img.disk (rinode img B)

theorem Appends.refl (A : ℕ) (img : Img) : Appends A [] img img where
  freeinode := rfl
  count := rfl
  shape := rfl
  bytes := (List.append_nil _).symm
  others _ _ _ := rfl
  otherBytes _ _ _ _ := rfl

theorem Appends.size {p : List UInt8} (h : Appends A p img img') :
    (rinode img' A).size.toNat = (rinode img A).size.toNat + p.length := by
  have hlen := congrArg List.length h.bytes
  simpa [fileBytes] using hlen

theorem Appends.trans {img'' : Img} {p q : List UInt8} (h₁ : Appends A p img img')
    (h₂ : Appends A q img' img'') : Appends A (p ++ q) img img'' where
  freeinode := h₂.freeinode.trans h₁.freeinode
  count := by
    have c₁ := h₁.count
    have c₂ := h₂.count
    rw [h₁.size] at c₂
    rw [List.length_append, ← Nat.add_assoc]
    omega
  shape := by
    rw [h₂.shape, h₁.shape]
  bytes := by rw [h₂.bytes, h₁.bytes, List.append_assoc]
  others B hB hBA := (h₂.others B hB hBA).trans (h₁.others B hB hBA)
  otherBytes B h₀ hB hBA :=
    (h₂.otherBytes B h₀ (h₁.freeinode ▸ hB) hBA).trans (h₁.otherBytes B h₀ hB hBA)

/-- Appending to an inode handed out writes no slot past it. -/
theorem Appends.unused {p : List UInt8} (h : Appends A p img img') (hA0 : 0 < A)
    (hA : A < img.freeinode) (hu : Unused img) : Unused img' := by
  intro inum hi hz
  rw [h.freeinode] at hz
  rw [h.others inum hi (by omega)]
  exact hu inum hi hz

/-- `iappend` keeps the invariant, given room in the file and in the image for the blocks it
takes. -/
theorem iappend_inv (hI : ImgInv img own) (hA0 : 0 < A) (hA : A < img.freeinode)
    {p : List UInt8} (hmax : (rinode img A).size.toNat + p.length ≤ maxFile * bSize)
    (hfit : img.freeblock + (held (blocksOf ((rinode img A).size.toNat + p.length)) -
      held (blocksOf (rinode img A).size.toNat)) ≤ fsSize) :
    ∃ img' own', iappend img A p = .ok img' ∧ ImgInv img' own' ∧ Appends A p img img' := by
  have hib : iblock sb A < nMeta := iblock_lt_nMeta (lt_of_lt_of_le hA hI.slots)
  obtain ⟨img2, own', d', hrun, hap, hshape⟩ := iappend_spec (hI.laid A hA0 hA) hI.bounded
    hI.fresh hI.dataStart hmax (by simp only [fsSize] at hfit; omega)
  set size := (rinode img A).size.toNat
  set d'' : DInode := { d' with size := UInt32.ofNat (size + p.length) } with hd''
  have hsz : d''.size.toNat = size + p.length :=
    UInt32.toNat_ofNat_of_lt' (lt_of_le_of_lt hmax (by decide))
  have hdisk : (winode img2 A d'').disk = Function.update img2.disk (iblock sb A)
      (setDinodeAt (img2.disk (iblock sb A)) (A % ipb) d'') := rfl
  -- the loop wrote only blocks of `A`, which lie at `nmeta` or above
  have hwritten : ∀ b, img2.disk b ≠ img.disk b → nMeta ≤ b ∧ ∃ q, own' b = some (A, q) :=
    fun b hb => by
      obtain ⟨q, hq⟩ := hap.grows.written b hb
      exact ⟨(hap.bounded b _ hq).1, q, hq⟩
  have hkeep2 : ∀ b, b < nMeta → img2.disk b = img.disk b := by
    intro b hb
    by_contra hne
    have := (hwritten b hne).1
    omega
  have hkeepMeta : ∀ b, b < nMeta → b ≠ iblock sb A → (winode img2 A d'').disk b = img.disk b := by
    intro b hb hbA
    rw [hdisk, Function.update_of_ne hbA]
    exact hkeep2 b hb
  have hkeepB : ∀ b B q, own b = some (B, q) → B ≠ A → (winode img2 A d'').disk b = img.disk b := by
    intro b B q hb hBA
    rw [hdisk, Function.update_of_ne (hI.bounded.ne_of_lt_nMeta hib hb)]
    by_contra hne
    obtain ⟨-, q', hq'⟩ := hwritten b hne
    rw [hap.grows.ext b _ hb, Option.some.injEq, Prod.mk.injEq] at hq'
    exact hBA hq'.1
  have hothers : ∀ B < nInodeSlots, B ≠ A → rinode (winode img2 A d'') B = rinode img B :=
    fun B hB hBA => by
      rw [rinode_winode_of_ne _ (Ne.symm hBA)]
      exact rinode_congr (hkeep2 _ (iblock_lt_nMeta hB))
  -- `A` itself: its blocks as the loop left them, under the inode written back
  have hlaidA : Laid (winode img2 A d'').disk own' A d'' (blocksOf (size + p.length)) := by
    rw [hdisk]
    exact ((hap.laid.update_meta hap.bounded hib _).1).of_addrs rfl
  have hbytesA : fileBytes (winode img2 A d'').disk d'' = fileBytes img.disk (rinode img A) ++ p := by
    show dataBytes _ d'' d''.size.toNat = dataBytes img.disk (rinode img A) size ++ p
    rw [hsz, ← hap.bytes, hdisk]
    exact dataBytes_congr fun j hj =>
      (hap.laid.update_meta hap.bounded hib _).2 j
        (lt_of_lt_of_le hj (le_blocksOf_mul _))
  refine ⟨winode img2 A d'', own', by rw [hrun], ⟨hap.bounded, fun b hb => ?_,
    hI.dataStart.trans hap.grows.freeblock, ?_, fun b y hb => ?_, fun inum h0 h => ?_,
    hkeepMeta 1 (by rw [nMeta_eq]; omega) (one_lt_iblock A).ne ▸ hI.super⟩, ?_⟩
  · -- the blocks from `freeblock` on
    have hb' : b ≠ iblock sb A := by
      have := hI.dataStart.trans hap.grows.freeblock
      simp only [winode_freeblock] at hb
      omega
    rw [hdisk, Function.update_of_ne hb']
    exact hap.fresh b hb
  · rw [winode_freeinode, hap.grows.freeinode]
    exact hI.slots
  · rcases hap.grows.new b y hb with hold | ⟨hyA, -⟩
    · rw [winode_freeinode, hap.grows.freeinode]
      exact hI.owner b y hold
    · rw [winode_freeinode, hap.grows.freeinode, hyA]
      exact ⟨hA0, hA⟩
  · rw [winode_freeinode, hap.grows.freeinode] at h
    by_cases hiA : inum = A
    · subst hiA
      rw [rinode_winode_self, hsz]
      exact hlaidA
    · rw [hothers inum (lt_of_lt_of_le h hI.slots) hiA]
      exact ((hI.laid inum h0 h).frame hap.grows.ext fun b q hb => hkeepB b inum q hb hiA).1
  · refine ⟨by rw [winode_freeinode, hap.grows.freeinode], ?_, ?_, ?_, hothers, ?_⟩
    · rw [winode_freeblock]
      exact hap.count
    · rw [rinode_winode_self, hd'', hshape]
    · rw [rinode_winode_self]
      exact hbytesA
    · intro B h0 hB hBA
      rw [hothers B (lt_of_lt_of_le hB hI.slots) hBA]
      exact (hI.laid B h0 hB).fileBytes_eq hap.grows.ext fun b q hb => hkeepB b B q hb hBA

/-! ## `copyFile` -/

/-- `copyFile` appends the bytes of the file not read yet, a block of them at a time. -/
theorem copyFile_inv (hI : ImgInv img own) (hA0 : 0 < A) (hA : A < img.freeinode) {fuel : ℕ}
    {rest : List UInt8} (hfuel : rest.length < fuel)
    (hmax : (rinode img A).size.toNat + rest.length ≤ maxFile * bSize)
    (hfit : img.freeblock + (held (blocksOf ((rinode img A).size.toNat + rest.length)) -
      held (blocksOf (rinode img A).size.toNat)) ≤ fsSize) :
    ∃ img' own', copyFile A fuel img rest = .ok img' ∧ ImgInv img' own' ∧
      Appends A rest img img' := by
  -- induction on the fuel, from any image and any rest of the file
  induction fuel generalizing img own rest with
  | zero => omega
  | succ fuel ih =>
    by_cases hr : rest = []
    · subst hr
      exact ⟨img, own, by simp [copyFile], hI, Appends.refl A img⟩
    have hchunk : 0 < (rest.take bSize).length := by
      simp only [List.length_take, bSize]
      have := List.length_pos_of_ne_nil hr
      omega
    have hlen : (rest.take bSize).length + (rest.drop bSize).length = rest.length := by
      simp only [List.length_take, List.length_drop]
      omega
    have hmono₁ := held_blocksOf_mono (Nat.le_add_right (rinode img A).size.toNat
      (rest.take bSize).length)
    have hmono₂ := held_blocksOf_mono (show (rinode img A).size.toNat + (rest.take bSize).length ≤
      (rinode img A).size.toNat + rest.length by omega)
    obtain ⟨img1, own1, h1, hI1, hap1⟩ := iappend_inv hI hA0 hA (p := rest.take bSize)
      (by omega) (by omega)
    have hc := hap1.count
    obtain ⟨img2, own2, h2, hI2, hap2⟩ := ih hI1
      (by rw [hap1.freeinode]; exact hA) (show (rest.drop bSize).length < fuel by omega)
      (by rw [hap1.size]; omega)
      (by rw [hap1.size, Nat.add_assoc, hlen]; omega)
    refine ⟨img2, own2, ?_, hI2, ?_⟩
    · simp only [copyFile]
      rw [if_pos hchunk, h1]
      exact h2
    · have h := hap1.trans hap2
      rwa [List.take_append_drop] at h

/-- `ialloc` keeps the bytes of every inode handed out before. -/
theorem ialloc_fileBytes (hI : ImgInv img own) (hroom : img.freeinode < nInodeSlots) (type : Int16)
    {B : ℕ} (h0 : 0 < B) (hB : B < img.freeinode) :
    fileBytes (ialloc img type).2.disk (rinode (ialloc img type).2 B) =
      fileBytes img.disk (rinode img B) := by
  rw [rinode_ialloc_of_ne _ _ hB.ne, ialloc_disk]
  exact (hI.laid B h0 hB).fileBytes_eq (fun _ _ h => h) fun _ _ hb =>
    Function.update_of_ne (hI.bounded.ne_of_lt_nMeta (iblock_lt_nMeta hroom) hb) _ _

/-! ## The root and the files -/

/-- The root's entries after the files `files`: `.` and `..`, then one per file, file `i` as
inode `i + 2`. -/
def rootEntries (files : List InputFile) : List Dirent :=
  entry rootIno.toNat dot :: entry rootIno.toNat dotdot ::
    files.mapIdx fun i f => entry (i + 2) (stripName f.name)

@[simp]
theorem length_rootEntries (files : List InputFile) : (rootEntries files).length = files.length + 2 := by
  simp [rootEntries]

theorem rootEntries_concat (files : List InputFile) (f : InputFile) :
    rootEntries (files ++ [f]) = rootEntries files ++ [entry (files.length + 2) (stripName f.name)] := by
  simp [rootEntries, List.mapIdx_concat]

/-- An inode as `ialloc` made it: type `type`, no device numbers and one link, whatever its size
and blocks. -/
def Made (d : DInode) (type : Int16) : Prop :=
  d.type = type ∧ d.major = 0 ∧ d.minor = 0 ∧ d.nlink = 1

theorem Made.shape {d d' : DInode} {type : Int16} (h : Made d type)
    (h' : d' = { d with size := d'.size, addrs := d'.addrs }) : Made d' type := by
  rw [h']
  exact h

theorem made_ialloc (img : Img) (type : Int16) :
    Made (rinode (ialloc img type).2 img.freeinode) type := by
  rw [rinode_ialloc_self]
  exact ⟨rfl, rfl, rfl, rfl⟩

/-- The image after the root and the files `files`: the root lists them all, and each file's
inode holds its bytes. -/
structure Built (files : List InputFile) (img : Img) (own : ℕ → Option (ℕ × Part)) : Prop where
  inv : ImgInv img own
  freeinode : img.freeinode = files.length + 2
  freeblock : img.freeblock = nMeta + held (blocksOf ((files.length + 2) * direntSize)) +
    (files.map fun f => held (blocksOf f.content.length)).sum
  root : Made (rinode img rootIno.toNat) tDir
  rootBytes : fileBytes img.disk (rinode img rootIno.toNat) = entryBytes (rootEntries files)
  file : ∀ i (h : i < files.length),
    Made (rinode img (i + 2)) tFile ∧ fileBytes img.disk (rinode img (i + 2)) = files[i].content

/-- The size of the root is that of its entries. -/
theorem Built.rootSize {files : List InputFile} (hb : Built files img own) :
    (rinode img rootIno.toNat).size.toNat = (files.length + 2) * direntSize := by
  have h := congrArg List.length hb.rootBytes
  simpa [fileBytes] using h

/-- One pass of the loop of `main`: `addFile` adds file `f` after the files `files`, given an inode
slot, room in the root and room in the image for the blocks it takes. -/
theorem addFile_built {files : List InputFile} (hb : Built files img own) {f : InputFile}
    (hslash : slash ∉ f.name) (hsize : f.content.length ≤ maxFile * bSize)
    (hslot : files.length + 3 ≤ nInodeSlots)
    (hfit : img.freeblock + (held (blocksOf ((files.length + 3) * direntSize)) -
      held (blocksOf ((files.length + 2) * direntSize))) + held (blocksOf f.content.length) ≤
      fsSize) :
    ∃ img' own', addFile rootIno.toNat img f = .ok img' ∧ Built (files ++ [f]) img' own' ∧
      (Unused img → Unused img') := by
  have hroot : rootIno.toNat = 1 := rfl
  have hC := hb.freeinode
  have hroom : img.freeinode < nInodeSlots := by omega
  have hslots : nInodeSlots = 208 := rfl
  have hI1 := ialloc_inv hb.inv hroom tFile
  -- the root's entry for the new file
  have hr1 : rinode (ialloc img tFile).2 rootIno.toNat = rinode img rootIno.toNat :=
    rinode_ialloc_of_ne _ _ (by omega)
  have hsize1 : (rinode (ialloc img tFile).2 rootIno.toNat).size.toNat =
      (files.length + 2) * direntSize := by
    rw [hr1]
    exact hb.rootSize
  have hmono := held_blocksOf_mono (show (files.length + 2) * direntSize ≤
    (files.length + 2) * direntSize + direntSize by omega)
  obtain ⟨img2, own2, h2, hI2, hap2⟩ := iappend_inv hI1 (A := rootIno.toNat) (by omega)
    (by simp only [ialloc_freeinode]; omega) (p := (entry img.freeinode (stripName f.name)).bytes)
    (by rw [hsize1, Dirent.length_bytes]; simp only [maxFile, nDirect, nIndirect, bSize, direntSize] at hslots ⊢; omega)
    (by rw [hsize1, Dirent.length_bytes, ialloc_freeblock]
        rw [show (files.length + 2) * direntSize + direntSize = (files.length + 3) * direntSize by ring]
        omega)
  -- the file's bytes, from an empty inode
  have hC2 : rinode img2 img.freeinode = rinode (ialloc img tFile).2 img.freeinode :=
    hap2.others _ hroom (by omega)
  have hsize2 : (rinode img2 img.freeinode).size.toNat = 0 := by
    rw [hC2, rinode_ialloc_self]
    rfl
  have hc2 := hap2.count
  rw [hsize1, Dirent.length_bytes, ialloc_freeblock] at hc2
  obtain ⟨img3, own3, h3, hI3, hap3⟩ := copyFile_inv hI2 (A := img.freeinode) (by omega)
    (by rw [hap2.freeinode, ialloc_freeinode]; omega) (Nat.lt_succ_self f.content.length)
    (by rw [hsize2]; omega)
    (by
      rw [hsize2, Nat.zero_add, show held (blocksOf 0) = 0 from rfl, Nat.sub_zero]
      rw [show (files.length + 2) * direntSize + direntSize = (files.length + 3) * direntSize by ring]
        at hc2
      omega)
  have hc3 := hap3.count
  rw [hsize2, Nat.zero_add, show held (blocksOf 0) = 0 from rfl] at hc3
  refine ⟨img3, own3, ?_, ⟨hI3, ?_, ?_, ?_, ?_, ?_⟩, fun hu => ?_⟩
  · simp only [addFile, if_neg hslash, ialloc_fst]
    rw [h2]
    exact h3
  · rw [hap3.freeinode, hap2.freeinode, ialloc_freeinode, List.length_append, List.length_singleton]
    omega
  · rw [List.length_append, List.length_singleton, List.map_append, List.sum_append,
      List.map_singleton, List.sum_singleton,
      show (files.length + 1 + 2) * direntSize = (files.length + 2) * direntSize + direntSize by ring]
    have := hb.freeblock
    omega
  · -- the root: an entry more
    have hmade : Made (rinode (ialloc img tFile).2 rootIno.toNat) tDir := by
      rw [hr1]
      exact hb.root
    rw [hap3.others _ (by omega) (by omega)]
    exact hmade.shape hap2.shape
  · rw [hap3.otherBytes _ (by omega) (by rw [hap2.freeinode, ialloc_freeinode]; omega) (by omega),
      hap2.bytes, ialloc_fileBytes hb.inv hroom tFile (by omega) (by omega), hb.rootBytes,
      rootEntries_concat, entryBytes_append, hC]
    simp [entryBytes]
  · intro i hi
    rw [List.length_append, List.length_singleton] at hi
    by_cases hik : i < files.length
    · -- a file added before: kept
      have hne : i + 2 ≠ img.freeinode := by omega
      have hkeep : rinode img3 (i + 2) = rinode img (i + 2) := by
        rw [hap3.others _ (by omega) hne, hap2.others _ (by omega) (by omega),
          rinode_ialloc_of_ne _ _ hne]
      refine ⟨?_, ?_⟩
      · rw [hkeep]
        exact (hb.file i hik).1
      rw [hap3.otherBytes _ (by omega) (by rw [hap2.freeinode, ialloc_freeinode]; omega) hne,
        hap2.otherBytes _ (by omega) (by rw [ialloc_freeinode]; omega) (by omega),
        ialloc_fileBytes hb.inv hroom tFile (by omega) (by omega), (hb.file i hik).2,
        List.getElem_append_left hik]
    · -- the new file
      have hi' : i + 2 = img.freeinode := by omega
      refine ⟨?_, ?_⟩
      · have hmade : Made (rinode img2 img.freeinode) tFile := by
          rw [hC2]
          exact made_ialloc img tFile
        rw [hi']
        exact hmade.shape hap3.shape
      · rw [hi', hap3.bytes, List.getElem_concat_length (by omega)]
        simp [fileBytes, dataBytes, hsize2]
  · -- the slots past the new file are untouched
    exact hap3.unused (by omega) (by rw [hap2.freeinode, ialloc_freeinode]; omega)
      (hap2.unused (by decide) (by rw [ialloc_freeinode]; omega) (hu.ialloc (by omega) tFile))

/-- The loop of `main` over the files `rest`, after the files `pre`: it adds them all, given inode
slots and room in the image for the files of both. -/
theorem foldlM_addFile_built {pre : List InputFile} (hb : Built pre img own) (rest : List InputFile)
    (hslash : ∀ f ∈ rest, slash ∉ f.name) (hsize : ∀ f ∈ rest, f.content.length ≤ maxFile * bSize)
    (hslot : (pre ++ rest).length + 2 ≤ nInodeSlots)
    (hfit : nMeta + held (blocksOf (((pre ++ rest).length + 2) * direntSize)) +
      ((pre ++ rest).map fun f => held (blocksOf f.content.length)).sum ≤ fsSize) :
    ∃ img' own', rest.foldlM (addFile rootIno.toNat) img = .ok img' ∧
      Built (pre ++ rest) img' own' ∧ (Unused img → Unused img') := by
  -- induction on the files left, moving each one to those done
  induction rest generalizing pre img own with
  | nil => exact ⟨img, own, rfl, by simpa using hb, id⟩
  | cons f rest ih =>
    have hlen : (pre ++ f :: rest).length = pre.length + rest.length + 1 := by simp; omega
    have hmono₀ := held_blocksOf_mono (Nat.mul_le_mul_right direntSize
      (show pre.length + 2 ≤ pre.length + 3 by omega))
    have hmono := held_blocksOf_mono (Nat.mul_le_mul_right direntSize
      (show pre.length + 3 ≤ (pre ++ f :: rest).length + 2 by omega))
    have hsum : ((pre ++ f :: rest).map fun f => held (blocksOf f.content.length)).sum =
        (pre.map fun f => held (blocksOf f.content.length)).sum + held (blocksOf f.content.length) +
          (rest.map fun f => held (blocksOf f.content.length)).sum := by
      simp only [List.map_append, List.map_cons, List.sum_append, List.sum_cons]
      omega
    have hfb := hb.freeblock
    obtain ⟨img1, own1, h1, hb1, hu1⟩ := addFile_built hb (hslash f (by simp)) (hsize f (by simp))
      (by omega) (by omega)
    have hsplit : pre ++ f :: rest = (pre ++ [f]) ++ rest := by simp
    obtain ⟨img2, own2, h2, hb2, hu2⟩ := ih hb1 (fun g hg => hslash g (by simp [hg]))
      (fun g hg => hsize g (by simp [hg])) (by rwa [← hsplit]) (by rwa [← hsplit])
    refine ⟨img2, own2, ?_, by rwa [hsplit], fun hu => hu2 (hu1 hu)⟩
    rw [List.foldlM_cons, h1]
    exact h2

/-- `open(…, O_TRUNC)` and the loop that zeroes the first `FSSIZE` blocks: the image stays all
zero. -/
theorem foldl_wsect_zero (l : List ℕ) (img : Img) (h : img.disk = fun _ => zeroBlock) :
    l.foldl (fun img i => wsect img i zeroBlock) img = img := by
  induction l with
  | nil => rfl
  | cons i l ih =>
    have hstep : wsect img i zeroBlock = img := by
      cases img
      simp only [wsect] at h ⊢
      subst h
      simp
    rw [List.foldl_cons, hstep, ih]

/-- The image once the superblock is written: no inode yet. -/
theorem super_inv :
    ImgInv (wsect ⟨fun _ => zeroBlock, 1, nMeta⟩ 1 (setWords zeroBlock 0 sb.words)) fun _ => none where
  bounded _ _ h := absurd h (by simp)
  fresh b hb := by
    simp only [wsect_freeblock, nMeta_eq] at hb
    simp [Function.update_of_ne (show b ≠ 1 by omega)]
  dataStart := le_rfl
  slots := by decide
  owner _ _ h := absurd h (by simp)
  laid _ h0 h := absurd h (by simp only [wsect_freeinode]; omega)
  super := by simp

/-- The image once the superblock is written: every inode slot is zero. -/
theorem super_unused :
    Unused (wsect ⟨fun _ => zeroBlock, 1, nMeta⟩ 1 (setWords zeroBlock 0 sb.words)) := by
  intro inum _ _
  rw [rinode, rsect_eq, wsect_disk, Function.update_of_ne (one_lt_iblock inum).ne']
  exact dinodeAt_zeroBlock _

/-- `main` up to the loop over the files: the root with `.` and `..`. -/
theorem root_built : ∃ img' img own,
    iappend (ialloc (wsect ⟨fun _ => zeroBlock, 1, nMeta⟩ 1 (setWords zeroBlock 0 sb.words))
        tDir).2 rootIno.toNat (entry rootIno.toNat dot).bytes = .ok img' ∧
      iappend img' rootIno.toNat (entry rootIno.toNat dotdot).bytes = .ok img ∧
      Built [] img own ∧ Unused img := by
  have hroot : rootIno.toNat = 1 := rfl
  set img0 := wsect ⟨fun _ => zeroBlock, 1, nMeta⟩ 1 (setWords zeroBlock 0 sb.words)
  have hI1 := ialloc_inv super_inv (show img0.freeinode < nInodeSlots by decide) tDir
  have hsize1 : (rinode (ialloc img0 tDir).2 rootIno.toNat).size.toNat = 0 := by
    rw [hroot, show (1 : ℕ) = img0.freeinode from rfl, rinode_ialloc_self]
    rfl
  obtain ⟨img2, own2, h2, hI2, hap2⟩ := iappend_inv hI1 (A := rootIno.toNat) (by decide)
    (by decide) (p := (entry rootIno.toNat dot).bytes) (by rw [hsize1]; decide)
    (by rw [hsize1]; decide)
  obtain ⟨img3, own3, h3, hI3, hap3⟩ := iappend_inv hI2 (A := rootIno.toNat) (by decide)
    (by rw [hap2.freeinode]; decide) (p := (entry rootIno.toNat dotdot).bytes)
    (by rw [hap2.size, hsize1]; decide)
    (by
      have hc := hap2.count
      rw [hsize1] at hc
      rw [hap2.size, hsize1]
      simp only [Dirent.length_bytes, ialloc_freeblock, wsect_freeblock] at hc ⊢
      rw [nMeta_eq] at hc
      have h16 : held (blocksOf (0 + direntSize)) = 1 := rfl
      have h32 : held (blocksOf (0 + direntSize + direntSize)) = 1 := rfl
      rw [h16] at hc
      rw [h16, h32]
      simp only [fsSize]
      omega)
  refine ⟨img2, img3, own3, h2, h3, ⟨hI3, ?_, ?_, ?_, ?_, fun i h => absurd h (by simp)⟩, ?_⟩
  · rw [hap3.freeinode, hap2.freeinode]
    rfl
  · have hc2 := hap2.count
    have hc3 := hap3.count
    rw [hap2.size, hsize1] at hc3
    rw [hsize1] at hc2
    simp only [Dirent.length_bytes, ialloc_freeblock, wsect_freeblock] at hc2 hc3
    have h16 : held (blocksOf (0 + direntSize)) = 1 := rfl
    have h32 : held (blocksOf (0 + direntSize + direntSize)) = 1 := rfl
    rw [h16] at hc2 hc3
    rw [h32] at hc3
    simp only [List.length_nil, List.map_nil, List.sum_nil, Nat.add_zero]
    have h0 : held (blocksOf 0) = 0 := rfl
    have h2e : held (blocksOf ((0 + 2) * direntSize)) = 1 := rfl
    rw [h0] at hc2
    rw [h2e]
    omega
  · have hmade : Made (rinode (ialloc img0 tDir).2 rootIno.toNat) tDir := by
      rw [hroot, show (1 : ℕ) = img0.freeinode from rfl]
      exact made_ialloc img0 tDir
    exact (hmade.shape hap2.shape).shape hap3.shape
  · rw [hap3.bytes, hap2.bytes]
    have hempty : fileBytes (ialloc img0 tDir).2.disk (rinode (ialloc img0 tDir).2 rootIno.toNat) = [] := by
      simp [fileBytes, dataBytes, hsize1]
    rw [hempty]
    simp [rootEntries, entryBytes]
  · -- only the root's slot was written
    exact hap3.unused (by decide) (by rw [hap2.freeinode]; decide)
      (hap2.unused (by decide) (by decide) (super_unused.ialloc (by decide) tDir))

/-- `main` over input files whose names have no `/`, each of at most `MAXFILE` blocks, in the
inode slots and in the `FSSIZE` blocks: it builds the root and the files, then rounds the root's
size up and writes the bitmap of the blocks `0` to `freeblock - 1`. -/
theorem mkfs_spec (files : List InputFile) (hslash : ∀ f ∈ files, slash ∉ f.name)
    (hsize : ∀ f ∈ files, f.content.length ≤ maxFile * bSize)
    (hslot : files.length + 2 ≤ nInodeSlots)
    (hfit : nMeta + held (blocksOf ((files.length + 2) * direntSize)) +
      (files.map fun f => held (blocksOf f.content.length)).sum ≤ fsSize) :
    ∃ img own, Built files img own ∧ mkfs files = .ok (wsect (winode img rootIno.toNat
      { rinode img rootIno.toNat with
        size := UInt32.ofNat (((rinode img rootIno.toNat).size.toNat / bSize + 1) * bSize) })
      sb.bmapstart.toNat (bitmapOf img.freeblock)) ∧ Unused img := by
  obtain ⟨img2, img3, own3, h2, h3, hb3, hu3⟩ := root_built
  obtain ⟨img4, own4, h4, hb4, hu4⟩ := foldlM_addFile_built hb3 files hslash hsize (by simpa)
    (by simpa using hfit)
  rw [List.nil_append] at hb4
  refine ⟨img4, own4, hb4, ?_, hu4 hu3⟩
  have hfb : img4.freeblock < bSize * 8 := by
    rw [hb4.freeblock]
    simp only [fsSize, bSize] at hfit ⊢
    omega
  -- the steps of `main`, one after the other
  simp only [mkfs, foldl_wsect_zero (List.range fsSize) ⟨fun _ => zeroBlock, 1, nMeta⟩ rfl,
    ialloc_fst, wsect_freeinode]
  rw [if_neg (by decide)]
  rw [show rootIno.toNat = 1 from rfl] at h2 h3 h4 ⊢
  rw [h2]
  dsimp only [bind, Except.bind]
  rw [h3]
  dsimp only [bind, Except.bind]
  rw [h4]
  dsimp only [bind, Except.bind]
  simp only [balloc, winode_freeblock]
  exact if_pos hfb

/-! ## The image the kernel finds -/

/-- `balloc(used)` marks the blocks `0` to `used - 1`, and no other. -/
theorem bitAt_bitmapOf {used : ℕ} (hu : used ≤ bpb) (j : ℕ) :
    bitAt (bitmapOf used) j = decide (j < used) := by
  -- induction on `used`: the fold sets one bit more
  induction used with
  | zero => simp [bitmapOf]
  | succ u ih =>
    rw [bitmapOf, List.range_succ, List.foldl_append, List.foldl_cons, List.foldl_nil, ← bitmapOf,
      bitAt_setBit _ (by omega), ih (by omega)]
    by_cases hj : j = u
    · simp [hj]
    · have hne : u ≠ j := Ne.symm hj
      simp only [hne, decide_false, Bool.false_or, decide_eq_decide]
      omega

/-- What the kernel finds in the image `main` writes for the files `files`. -/
structure Image (files : List InputFile) (img : Img) : Prop where
  super : img.disk 1 = setWords zeroBlock 0 sb.words
  bitmap : img.disk sb.bmapstart.toNat = bitmapOf img.freeblock
  freeblock : img.freeblock = nMeta + held (blocksOf ((files.length + 2) * direntSize)) +
    (files.map fun f => held (blocksOf f.content.length)).sum
  root : Made (rinode img rootIno.toNat) tDir
  rootSize : (rinode img rootIno.toNat).size.toNat =
    ((files.length + 2) * direntSize / bSize + 1) * bSize
  rootBytes : dataBytes img.disk (rinode img rootIno.toNat) ((files.length + 2) * direntSize) =
    entryBytes (rootEntries files)
  rootMapped : ∀ bn < blocksOf ((files.length + 2) * direntSize),
    blockAddr img.disk (rinode img rootIno.toNat) bn ≠ 0
  rootUnmapped : ∀ bn, blocksOf ((files.length + 2) * direntSize) ≤ bn → bn < maxFile →
    blockAddr img.disk (rinode img rootIno.toNat) bn = 0
  file : ∀ i (h : i < files.length), Made (rinode img (i + 2)) tFile ∧
    fileBytes img.disk (rinode img (i + 2)) = files[i].content ∧
    ∀ bn < blocksOf (rinode img (i + 2)).size.toNat, blockAddr img.disk (rinode img (i + 2)) bn ≠ 0

/-- The last two writes of `main`, the root's inode and the bitmap, keep the data blocks. -/
theorem finish_data (img : Img) (d : DInode) (bm : Block) {b : ℕ} (hb : nMeta ≤ b) :
    (wsect (winode img rootIno.toNat d) sb.bmapstart.toNat bm).disk b = img.disk b := by
  have hm : nMeta = 59 := nMeta_eq
  rw [wsect_disk, Function.update_of_ne (show b ≠ sb.bmapstart.toNat by
      rw [show sb.bmapstart.toNat = 58 from rfl]; omega), winode, wsect_disk,
    Function.update_of_ne (by simp only [iblock_eq, show rootIno.toNat = 1 from rfl, ipb, bSize]; omega)]

/-- The last two writes of `main` keep every inode but the root's. -/
theorem finish_rinode (img : Img) (d : DInode) (bm : Block) {inum : ℕ} (h : inum < nInodeSlots)
    (hne : inum ≠ rootIno.toNat) :
    rinode (wsect (winode img rootIno.toNat d) sb.bmapstart.toNat bm) inum = rinode img inum := by
  rw [rinode_wsect _ (iblock_lt_bmapstart h).ne', rinode_winode_of_ne _ (Ne.symm hne)]

theorem finish_root (img : Img) (d : DInode) (bm : Block) :
    rinode (wsect (winode img rootIno.toNat d) sb.bmapstart.toNat bm) rootIno.toNat = d := by
  rw [rinode_wsect _ (by decide), rinode_winode_self]

/-- The last two writes of `main`, the root's inode and the bitmap, leave what `Built` says of
the files and the root's entries. -/
theorem Built.image {files : List InputFile} (hb : Built files img own) :
    Image files (wsect (winode img rootIno.toNat
      { rinode img rootIno.toNat with
        size := UInt32.ofNat (((rinode img rootIno.toNat).size.toNat / bSize + 1) * bSize) })
      sb.bmapstart.toNat (bitmapOf img.freeblock)) := by
  have hroot : rootIno.toNat = 1 := rfl
  have hbm : sb.bmapstart.toNat = 58 := rfl
  have hslot := hb.inv.slots
  have hfi := hb.freeinode
  set droot : DInode := { rinode img rootIno.toNat with
    size := UInt32.ofNat (((rinode img rootIno.toNat).size.toNat / bSize + 1) * bSize) }
  set img' := wsect (winode img rootIno.toNat droot) sb.bmapstart.toNat (bitmapOf img.freeblock)
  have hdisk : img'.disk = Function.update (Function.update img.disk (iblock sb rootIno.toNat)
      (setDinodeAt (img.disk (iblock sb rootIno.toNat)) (rootIno.toNat % ipb) droot)) 58
      (bitmapOf img.freeblock) := rfl
  -- the data blocks are as `Built` left them
  have hdata : ∀ b, nMeta ≤ b → img'.disk b = img.disk b := fun b hb' => finish_data img _ _ hb'
  have hframe : ∀ inum, 0 < inum → inum < img.freeinode →
      Laid img'.disk own inum (rinode img inum) (blocksOf (rinode img inum).size.toNat) ∧
      fileBytes img'.disk (rinode img inum) = fileBytes img.disk (rinode img inum) := by
    intro inum h0 h
    have hL := hb.inv.laid inum h0 h
    have hkeep : ∀ b q, own b = some (inum, q) → img'.disk b = img.disk b :=
      fun b q hq => hdata b (hb.inv.bounded b _ hq).1
    exact ⟨(hL.frame (fun _ _ h => h) hkeep).1, hL.fileBytes_eq (fun _ _ h => h) hkeep⟩
  have hrinode : ∀ inum, inum < nInodeSlots → inum ≠ rootIno.toNat →
      rinode img' inum = rinode img inum := fun inum h hne => finish_rinode img _ _ h hne
  have hrootd : rinode img' rootIno.toNat = droot := finish_root img _ _
  have hsize := hb.rootSize
  have hlaid := (hframe rootIno.toNat (by decide) (by omega)).1
  rw [hsize] at hlaid
  refine ⟨?_, ?_, ?_, ?_, ?_, ?_, ?_, ?_, ?_⟩
  · rw [hdisk, Function.update_of_ne (by decide), Function.update_of_ne (by decide)]
    exact hb.inv.super
  · rw [hdisk, hbm, Function.update_self]
    rfl
  · exact hb.freeblock
  · rw [hrootd]
    exact hb.root
  · rw [hrootd]
    have hle : ((files.length + 2) * direntSize / bSize + 1) * bSize ≤ 4096 := by
      simp only [nInodeSlots, nInodeBlocks, nInodes, ipb, bSize, direntSize] at hslot ⊢
      omega
    have hdsize : droot.size =
        UInt32.ofNat (((rinode img rootIno.toNat).size.toNat / bSize + 1) * bSize) := rfl
    rw [hdsize, hsize]
    exact UInt32.toNat_ofNat_of_lt' (lt_of_le_of_lt hle (by norm_num [UInt32.size]))
  · rw [hrootd, ← hb.rootBytes, fileBytes, hsize]
    exact dataBytes_congr fun j hj =>
      (hb.inv.laid _ (by decide) (by omega)).frame (fun _ _ h => h)
        (fun b q hq => hdata b (hb.inv.bounded b _ hq).1) |>.2 j
        (lt_of_lt_of_le hj (by rw [hsize]; exact le_blocksOf_mul _))
  · intro bn hbn
    rw [hrootd]
    exact (hlaid.of_addrs rfl).blockAddr_ne_zero hb.inv.bounded hbn
  · intro bn h₁ h₂
    rw [hrootd]
    exact (hlaid.of_addrs rfl).blockAddr_eq_zero h₁ h₂
  · intro i hi
    have h2 : i + 2 < img.freeinode := by omega
    rw [hrinode (i + 2) (by omega) (by rw [hroot]; omega)]
    obtain ⟨hL', hbytes⟩ := hframe (i + 2) (by omega) h2
    exact ⟨(hb.file i hi).1, hbytes.trans (hb.file i hi).2,
      fun bn hbn => hL'.blockAddr_ne_zero hb.inv.bounded hbn⟩

/-- What the kernel finds of the inode slots in the image `main` writes for the files `files`:
the slots past the files, and slot `0`, are zero, and every block the root or a file holds lies
in the data region below `freeblock`. -/
structure Placed (files : List InputFile) (img : Img) : Prop where
  unused : ∀ inum < nInodeSlots, (inum = 0 ∨ files.length + 2 ≤ inum) →
    rinode img inum = DInode.zero
  held : ∀ inum, 0 < inum → inum < files.length + 2 → ∀ b, b ≠ 0 →
    Refers img.disk (rinode img inum) b → nMeta ≤ b ∧ b < img.freeblock

/-- The last two writes of `main` keep the slots not handed out and the blocks every inode
holds. -/
theorem Built.placed {files : List InputFile} (hb : Built files img own) (hu : Unused img) :
    Placed files (wsect (winode img rootIno.toNat
      { rinode img rootIno.toNat with
        size := UInt32.ofNat (((rinode img rootIno.toNat).size.toNat / bSize + 1) * bSize) })
      sb.bmapstart.toNat (bitmapOf img.freeblock)) := by
  have hroot : rootIno.toNat = 1 := rfl
  have hfi := hb.freeinode
  have hslot := hb.inv.slots
  set droot : DInode := { rinode img rootIno.toNat with
    size := UInt32.ofNat (((rinode img rootIno.toNat).size.toNat / bSize + 1) * bSize) }
  set img' := wsect (winode img rootIno.toNat droot) sb.bmapstart.toNat (bitmapOf img.freeblock)
  constructor
  · intro inum hi hz
    rw [finish_rinode img _ _ hi (by rw [hroot]; omega)]
    exact hu inum hi (by rw [hfi]; exact hz)
  · intro inum h0 hi b hb0 hr
    have hL := hb.inv.laid inum h0 (by rw [hfi]; exact hi)
    -- the inode keeps its addresses, and the blocks it holds are kept
    have haddrs : (rinode img' inum).addrs = (rinode img inum).addrs := by
      by_cases hr1 : inum = rootIno.toNat
      · rw [hr1, finish_root]
      · rw [finish_rinode img _ _ (by omega) hr1]
    have hkeep : ∀ b q, own b = some (inum, q) → img'.disk b = img.disk b :=
      fun b q hq => finish_data img _ _ (hb.inv.bounded b _ hq).1
    exact ((hL.frame (fun _ _ h => h) hkeep).1.of_addrs haddrs).refers_bounded hb.inv.bounded hr hb0

/-- No inode of the image holds a block from `freeblock` on, on any disk that keeps the data
blocks below `freeblock`. -/
theorem Placed.not_refers {files : List InputFile} (hpl : Placed files img)
    (hmeta : nMeta ≤ img.freeblock) {disk : ℕ → Block}
    (hkeep : ∀ b, nMeta ≤ b → b < img.freeblock → disk b = img.disk b) {inum : ℕ}
    (hi : inum < nInodeSlots)
    {b : ℕ} (hb : img.freeblock ≤ b) : ¬ Refers disk (rinode img inum) b := by
  intro hr
  by_cases hz : inum = 0 ∨ files.length + 2 ≤ inum
  · -- a slot not handed out: a zeroed inode holds nothing
    rw [hpl.unused inum hi hz] at hr
    have := refers_zero hr
    rw [nMeta_eq] at hmeta
    omega
  · -- an inode of the image: its indirect block lies below `freeblock`, where the disks agree
    have hheld := hpl.held inum (by omega) (by omega)
    have hind : (rinode img inum).addr nDirect ≠ 0 → disk ((rinode img inum).addr nDirect).toNat =
        img.disk ((rinode img inum).addr nDirect).toNat := fun h =>
      have hr := hheld _ (fun h0 => h (UInt32.toNat_inj.mp h0)) (.inr ⟨h, .inl rfl⟩)
      hkeep _ hr.1 hr.2
    have := hheld b (by rw [nMeta_eq] at hmeta; omega) ((refers_congr hind).mp hr)
    omega

/-- `main` writes an image that the kernel reads as `Image` says, for input files whose names
have no `/`, each of at most `MAXFILE` blocks, in the inode slots and in the `FSSIZE` blocks. -/
theorem mkfs_image (files : List InputFile) (hslash : ∀ f ∈ files, slash ∉ f.name)
    (hsize : ∀ f ∈ files, f.content.length ≤ maxFile * bSize)
    (hslot : files.length + 2 ≤ nInodeSlots)
    (hfit : nMeta + held (blocksOf ((files.length + 2) * direntSize)) +
      (files.map fun f => held (blocksOf f.content.length)).sum ≤ fsSize) :
    ∃ img, mkfs files = .ok img ∧ Image files img := by
  obtain ⟨img, own, hb, hrun, -⟩ := mkfs_spec files hslash hsize hslot hfit
  exact ⟨_, hrun, hb.image⟩

/-- `main` writes an image that the kernel reads as `Image` and `Placed` say. -/
theorem mkfs_placed (files : List InputFile) (hslash : ∀ f ∈ files, slash ∉ f.name)
    (hsize : ∀ f ∈ files, f.content.length ≤ maxFile * bSize)
    (hslot : files.length + 2 ≤ nInodeSlots)
    (hfit : nMeta + held (blocksOf ((files.length + 2) * direntSize)) +
      (files.map fun f => held (blocksOf f.content.length)).sum ≤ fsSize) :
    ∃ img, mkfs files = .ok img ∧ Image files img ∧ Placed files img := by
  obtain ⟨img, own, hb, hrun, hu⟩ := mkfs_spec files hslash hsize hslot hfit
  exact ⟨_, hrun, hb.image, hb.placed hu⟩

end Xv6.Mkfs
