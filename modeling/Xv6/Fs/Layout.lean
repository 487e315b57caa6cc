import Mathlib.Data.List.TakeWhile
import Xv6.Fs.Log

/-!
# The on-disk format (`fs.h`)

`mkfs` and the kernel both include `fs.h` and lay its structures over block data as C does on
x86, least significant byte first:

* `struct superblock`: seven `uint`s at the start of block 1;
* `struct dinode`: four `short`s, `size` and `NDIRECT + 1` block addresses, sixteen words,
  `IPB` of them to a block from block `sb.inodestart` on;
* `struct dirent`: a `ushort` inode number and `DIRSIZ` name bytes, sixteen bytes to each entry
  of a directory's data;
* the free bitmap: block `b` is in use when bit `b % 8` of byte `b / 8` of its bitmap block is
  set.

Names are C strings. `strncpy` and `strncmp` of `string.c` are modelled over lists of bytes, a
list ending where the string's NUL stands; reading past the end reads NUL.

Block numbers and inode numbers, `uint` in C, are natural numbers here where the code only
computes with them (`IBLOCK`, `BBLOCK`): they stay far below `2^32` on a disk of `FSSIZE`
blocks. The fields stored on disk keep their C types.

## Main definitions

* `Superblock`, `readsb`; `DInode`, `dinodeAt`, `setDinodeAt`; `Dirent`; `bitAt`, `setBit`,
  `clearBit`; `strncpy`, `strncmp`.

## Main results

* `readsb_setWords`, `dinodeAt_setDinodeAt_self`, `Dirent.ofBytes_bytes`: each structure reads
  back as written; `dinodeAt_setDinodeAt_of_ne`: the other inodes of the block are kept.
* `bitAt_setBit`: marking one bit keeps all others.
* `strncmp_eq_zero_iff`: two names compare equal when their first `n` bytes before the NUL
  agree.
-/

namespace Xv6.Fs

open LittleEndian

/-! ## Constants -/

/-- `ROOTINO`: the inode number of the root directory. -/
def rootIno : UInt32 := 1

/-- `NDIRECT`: the direct block addresses of an inode. -/
def nDirect : ℕ := 12

/-- `NINDIRECT`: the block addresses an indirect block holds, `BSIZE / sizeof(uint)`. -/
def nIndirect : ℕ := bSize / 4

/-- `MAXFILE`: the most blocks a file can have. -/
def maxFile : ℕ := nDirect + nIndirect

/-- `IPB`: inodes per block, `BSIZE / sizeof(struct dinode)`. -/
def ipb : ℕ := bSize / 64

/-- `BPB`: bitmap bits per block. -/
def bpb : ℕ := bSize * 8

/-- `DIRSIZ`: the bytes of a directory entry's name. -/
def dirSiz : ℕ := 14

/-- `sizeof(struct dirent)`. -/
def direntSize : ℕ := 16

/-- `T_DIR`: a directory. -/
def tDir : Int16 := 1

/-- `T_FILE`: a regular file. -/
def tFile : Int16 := 2

/-- `T_DEV`: a device. -/
def tDev : Int16 := 3

/-- A block of zeroes: `mkfs`'s `zeroes`, and what the kernel's `bzero` leaves. -/
def zeroBlock : Block := Vector.replicate bSize 0

@[simp]
theorem byteAt_zeroBlock (j : ℕ) : byteAt zeroBlock j = 0 := by
  by_cases hj : j < bSize <;> simp [byteAt, zeroBlock, hj]

@[simp]
theorem bytesAt_zeroBlock (j m : ℕ) : bytesAt zeroBlock j m = List.replicate m 0 := by
  simp [bytesAt, List.map_const']

/-! ## The superblock -/

/-- `struct superblock`: the disk layout `mkfs` computed. -/
structure Superblock where
  size : UInt32
  nblocks : UInt32
  ninodes : UInt32
  nlog : UInt32
  logstart : UInt32
  inodestart : UInt32
  bmapstart : UInt32
  deriving DecidableEq, Repr

/-- The fields of the superblock in the order of the structure. -/
def Superblock.words (sb : Superblock) : List UInt32 :=
  [sb.size, sb.nblocks, sb.ninodes, sb.nlog, sb.logstart, sb.inodestart, sb.bmapstart]

/-- `readsb`: `memmove(sb, bp->data, sizeof(*sb))` from the data of block 1. -/
def readsb (b : Block) : Superblock :=
  ⟨wordAt b 0, wordAt b 1, wordAt b 2, wordAt b 3, wordAt b 4, wordAt b 5, wordAt b 6⟩

/-- `IBLOCK(i, sb)`: the block holding inode `i`. -/
def iblock (sb : Superblock) (i : ℕ) : ℕ := i / ipb + sb.inodestart.toNat

/-- `BBLOCK(b, sb)`: the bitmap block holding the bit of block `b`. -/
def bblock (sb : Superblock) (b : ℕ) : ℕ := b / bpb + sb.bmapstart.toNat

/-- A superblock copied into a buffer reads back. -/
theorem readsb_setWords (b : Block) (sb : Superblock) : readsb (setWords b 0 sb.words) = sb := by
  have h := @wordAt_setWords bSize b 0 sb.words (by simp [Superblock.words, bSize])
  rw [readsb]
  simp only [h]
  simp [Superblock.words]

/-! ## Inodes on disk -/

/-- Two `short`s side by side in one word, the first in the low half. -/
def halves (lo hi : Int16) : UInt32 := UInt32.ofNat (lo.toUInt16.toNat + 65536 * hi.toUInt16.toNat)

/-- The `short` in the low half of a word. -/
def loHalf (w : UInt32) : Int16 := (UInt16.ofNat w.toNat).toInt16

/-- The `short` in the high half of a word. -/
def hiHalf (w : UInt32) : Int16 := (UInt16.ofNat (w.toNat / 65536)).toInt16

theorem toNat_halves (lo hi : Int16) :
    (halves lo hi).toNat = lo.toUInt16.toNat + 65536 * hi.toUInt16.toNat := by
  have := lo.toUInt16.toNat_lt
  have := hi.toUInt16.toNat_lt
  simp only [halves, UInt32.toNat_ofNat']
  omega

@[simp]
theorem loHalf_halves (lo hi : Int16) : loHalf (halves lo hi) = lo := by
  have hlo := lo.toUInt16.toNat_lt
  have h : UInt16.ofNat (halves lo hi).toNat = lo.toUInt16 := by
    apply UInt16.toNat.inj
    rw [UInt16.toNat_ofNat', toNat_halves]
    omega
  rw [loHalf, h, Int16.toInt16_toUInt16]

@[simp]
theorem hiHalf_halves (lo hi : Int16) : hiHalf (halves lo hi) = hi := by
  have hlo := lo.toUInt16.toNat_lt
  have hhi := hi.toUInt16.toNat_lt
  have h : UInt16.ofNat ((halves lo hi).toNat / 65536) = hi.toUInt16 := by
    apply UInt16.toNat.inj
    rw [UInt16.toNat_ofNat', toNat_halves]
    omega
  rw [hiHalf, h, Int16.toInt16_toUInt16]

/-- `struct dinode`. -/
structure DInode where
  type : Int16
  major : Int16
  minor : Int16
  nlink : Int16
  size : UInt32
  /-- `NDIRECT` direct addresses, then the address of the indirect block. -/
  addrs : Vector UInt32 (nDirect + 1)
  deriving DecidableEq, Repr

/-- A zeroed `struct dinode`, as `memset(dip, 0, sizeof(*dip))` and `bzero(&din, …)` leave it. -/
def DInode.zero : DInode := ⟨0, 0, 0, 0, 0, Vector.replicate _ 0⟩

/-- `addrs[k]`, `0` past the array. -/
def DInode.addr (d : DInode) (k : ℕ) : UInt32 := d.addrs[k]?.getD 0

/-- `addrs[k] = a`. -/
def DInode.setAddr (d : DInode) (k : ℕ) (a : UInt32) : DInode :=
  { d with addrs := d.addrs.setIfInBounds k a }

@[simp]
theorem DInode.addr_setAddr (d : DInode) {k : ℕ} (hk : k < nDirect + 1) (a : UInt32) (j : ℕ) :
    (d.setAddr k a).addr j = if k = j then a else d.addr j := by
  by_cases hj : k = j
  · subst hj
    simp [DInode.addr, DInode.setAddr, hk]
  · simp [DInode.addr, DInode.setAddr, hj, Vector.getElem?_setIfInBounds_ne hj]

@[simp]
theorem DInode.addr_zero (k : ℕ) : DInode.zero.addr k = 0 := by
  by_cases hk : k < nDirect + 1 <;> simp [DInode.addr, DInode.zero, hk]

/-- The sixteen words of a `struct dinode`. -/
def DInode.words (d : DInode) : List UInt32 :=
  [halves d.type d.major, halves d.minor d.nlink, d.size] ++ d.addrs.toList

@[simp]
theorem DInode.length_words (d : DInode) : d.words.length = 16 := by
  rw [DInode.words, List.length_append, Vector.length_toList]
  rfl

/-- `(struct dinode*)b + k`: inode `k` of a block of inodes. -/
def dinodeAt (b : Block) (k : ℕ) : DInode where
  type := loHalf (wordAt b (16 * k))
  major := hiHalf (wordAt b (16 * k))
  minor := loHalf (wordAt b (16 * k + 1))
  nlink := hiHalf (wordAt b (16 * k + 1))
  size := wordAt b (16 * k + 2)
  addrs := Vector.ofFn fun a => wordAt b (16 * k + 3 + a.val)

/-- A zeroed block holds zeroed inodes. -/
theorem dinodeAt_zeroBlock (k : ℕ) : dinodeAt zeroBlock k = DInode.zero := by
  have hw : ∀ j, wordAt zeroBlock j = 0 := fun j => by simp [wordAt, byteAt_zeroBlock]
  simp only [dinodeAt, hw]
  decide

/-- `*dip = *d` for `dip = (struct dinode*)b + k`. -/
def setDinodeAt (b : Block) (k : ℕ) (d : DInode) : Block := setWords b (16 * k) d.words

theorem wordAt_setDinodeAt (b : Block) {k : ℕ} (hk : k < ipb) (d : DInode) (j : ℕ) :
    wordAt (setDinodeAt b k d) j =
      if 16 * k ≤ j ∧ j < 16 * k + 16 then d.words.getD (j - 16 * k) 0 else wordAt b j := by
  rw [setDinodeAt, wordAt_setWords (by simp [ipb, bSize] at *; omega), DInode.length_words]

/-- An inode is read from its sixteen words alone. -/
theorem dinodeAt_congr {b b' : Block} {k : ℕ}
    (h : ∀ a < 16, wordAt b (16 * k + a) = wordAt b' (16 * k + a)) : dinodeAt b k = dinodeAt b' k := by
  have h0 := h 0 (by norm_num)
  simp only [Nat.add_zero] at h0
  simp only [dinodeAt, h0, h 1 (by norm_num), h 2 (by norm_num), DInode.mk.injEq, true_and]
  refine Vector.ext fun a ha => ?_
  simp only [nDirect] at ha
  simp [Nat.add_assoc, h (3 + a) (by omega)]

/-- An inode stored in a block reads back. -/
theorem dinodeAt_setDinodeAt_self (b : Block) {k : ℕ} (hk : k < ipb) (d : DInode) :
    dinodeAt (setDinodeAt b k d) k = d := by
  obtain ⟨type, major, minor, nlink, size, addrs⟩ := d
  simp only [dinodeAt, wordAt_setDinodeAt b hk]
  -- the four halves, the size, and the thirteen addresses
  simp only [DInode.words, DInode.mk.injEq]
  refine ⟨by simp, by simp, by simp, by simp, by simp, Vector.ext fun a ha => ?_⟩
  have ha' : a < 13 := ha
  have hw : 16 * k + 3 + a - 16 * k = a + 3 := by omega
  rw [Vector.getElem_ofFn]
  dsimp only
  rw [if_pos (by omega), hw]
  simp [ha]

/-- Storing one inode of a block keeps the others. -/
theorem dinodeAt_setDinodeAt_of_ne (b : Block) {k k' : ℕ} (hk : k < ipb) (hne : k ≠ k')
    (d : DInode) : dinodeAt (setDinodeAt b k d) k' = dinodeAt b k' :=
  -- every word of inode `k'` lies outside the words of inode `k`
  dinodeAt_congr fun a ha => by rw [wordAt_setDinodeAt b hk, if_neg (by omega)]

/-! ## Directory entries -/

/-- `struct dirent`: an inode number, `0` for a free entry, and the name. -/
structure Dirent where
  inum : UInt16
  name : Vector UInt8 dirSiz
  deriving DecidableEq, Repr

/-- The sixteen bytes of an entry: the `ushort`, least significant byte first, then the name. -/
def Dirent.bytes (de : Dirent) : List UInt8 :=
  UInt8.ofNat de.inum.toNat :: UInt8.ofNat (de.inum.toNat / 256) :: de.name.toList

/-- The entry that `readi` of sixteen bytes into `struct dirent de` leaves. -/
def Dirent.ofBytes (l : List UInt8) : Dirent where
  inum := UInt16.ofNat ((l.getD 0 0).toNat + 256 * (l.getD 1 0).toNat)
  name := Vector.ofFn fun j => l.getD (2 + j.val) 0

@[simp]
theorem Dirent.length_bytes (de : Dirent) : de.bytes.length = direntSize := by
  rw [Dirent.bytes, List.length_cons, List.length_cons, Vector.length_toList]
  rfl

/-- An entry read back from its bytes. -/
@[simp]
theorem Dirent.ofBytes_bytes (de : Dirent) : Dirent.ofBytes de.bytes = de := by
  obtain ⟨inum, name⟩ := de
  have hi := inum.toNat_lt
  simp only [Dirent.ofBytes, Dirent.bytes, Dirent.mk.injEq]
  constructor
  · apply UInt16.toNat.inj
    simp only [List.getD_cons_zero, List.getD_cons_succ, UInt8.toNat_ofNat', UInt16.toNat_ofNat']
    omega
  · ext j hj
    simp [show 2 + j = j + 2 by omega, hj]

/-- The bytes of a list of entries, one after the other. -/
def entryBytes (des : List Dirent) : List UInt8 := (des.map Dirent.bytes).flatten

@[simp]
theorem length_entryBytes (des : List Dirent) : (entryBytes des).length = des.length * direntSize := by
  induction des with
  | nil => rfl
  | cons de des ih =>
    simp only [entryBytes, List.map_cons, List.flatten_cons, List.length_append,
      Dirent.length_bytes, List.length_cons] at ih ⊢
    rw [ih]
    ring

theorem entryBytes_append (des des' : List Dirent) :
    entryBytes (des ++ des') = entryBytes des ++ entryBytes des' := by
  simp [entryBytes]

/-- Entry `j` of a list of entries: the `DIRSIZ + 2` bytes from byte `16 j` on. -/
theorem entryBytes_drop_take {des : List Dirent} {j : ℕ} (hj : j < des.length) :
    ((entryBytes des).drop (direntSize * j)).take direntSize = des[j].bytes := by
  -- induction on the entries, down to the one at the front
  induction des generalizing j with
  | nil => exact absurd hj (Nat.not_lt_zero _)
  | cons de des ih =>
    cases j with
    | zero => simp [entryBytes]
    | succ j =>
      have h := ih (Nat.lt_of_succ_lt_succ hj)
      simp only [entryBytes, List.map_cons, List.flatten_cons] at h ⊢
      rw [Nat.mul_succ, Nat.add_comm, ← List.drop_drop, List.drop_left' (Dirent.length_bytes de)]
      simpa using h

/-! ## The blocks and bytes of a file -/

/-- Where block `bn` of inode `d` lies, as `bmap` finds it when it allocates nothing: a direct
address, or an entry of the indirect block; `0` where there is none. -/
def blockAddr (disk : ℕ → Block) (d : DInode) (bn : ℕ) : ℕ :=
  if bn < nDirect then (d.addr bn).toNat
  else if d.addr nDirect = 0 then 0
  else (wordAt (disk (d.addr nDirect).toNat) (bn - nDirect)).toNat

/-- Byte `j` of the data of inode `d`: byte `j % BSIZE` of the block holding block `j / BSIZE`. -/
def fileByte (disk : ℕ → Block) (d : DInode) (j : ℕ) : UInt8 :=
  byteAt (disk (blockAddr disk d (j / bSize))) (j % bSize)

/-- The first `n` bytes of the data of inode `d`. -/
def dataBytes (disk : ℕ → Block) (d : DInode) (n : ℕ) : List UInt8 :=
  (List.range n).map (fileByte disk d)

/-- The `n` bytes of the data of inode `d` from byte `off` on. -/
def bytesFrom (disk : ℕ → Block) (d : DInode) (off n : ℕ) : List UInt8 :=
  (List.range n).map fun i => fileByte disk d (off + i)

@[simp]
theorem length_bytesFrom (disk : ℕ → Block) (d : DInode) (off n : ℕ) :
    (bytesFrom disk d off n).length = n := by
  simp [bytesFrom]

theorem bytesFrom_add (disk : ℕ → Block) (d : DInode) (off a b : ℕ) :
    bytesFrom disk d off (a + b) = bytesFrom disk d off a ++ bytesFrom disk d (off + a) b := by
  simp only [bytesFrom, List.range_add, List.map_append, List.map_map]
  congr 1
  exact List.map_congr_left fun i _ => by simp [Nat.add_assoc]

theorem dataBytes_eq_bytesFrom (disk : ℕ → Block) (d : DInode) (n : ℕ) :
    dataBytes disk d n = bytesFrom disk d 0 n := by
  simp [dataBytes, bytesFrom]

/-- The data of a file: its first `size` bytes. -/
def fileBytes (disk : ℕ → Block) (d : DInode) : List UInt8 := dataBytes disk d d.size.toNat

@[simp]
theorem length_dataBytes (disk : ℕ → Block) (d : DInode) (n : ℕ) :
    (dataBytes disk d n).length = n := by
  simp [dataBytes]

/-- The data of one inode extended by `q`: the first `n` bytes kept, and `q` after them. -/
theorem dataBytes_eq_append {disk disk' : ℕ → Block} {d d' : DInode} {n : ℕ} {q : List UInt8}
    (hold : ∀ j < n, fileByte disk' d' j = fileByte disk d j)
    (hnew : ∀ i < q.length, fileByte disk' d' (n + i) = q.getD i 0) :
    dataBytes disk' d' (n + q.length) = dataBytes disk d n ++ q := by
  rw [dataBytes, List.range_add, List.map_append, dataBytes]
  congr 1
  · exact List.map_congr_left fun j hj => hold j (List.mem_range.mp hj)
  · apply List.ext_getElem (by simp)
    intro i hi _
    simp only [List.length_map, List.length_range] at hi
    simp [hnew i hi, hi]

/-- The bytes from `off` on are a piece of the data. -/
theorem bytesFrom_eq_drop_take (disk : ℕ → Block) (d : DInode) {off m n : ℕ} (h : off + m ≤ n) :
    bytesFrom disk d off m = ((dataBytes disk d n).drop off).take m := by
  apply List.ext_getElem (by simp; omega)
  intro i h₁ _
  simp [bytesFrom, dataBytes]

/-- A block address is a `uint` read from the inode or its indirect block. -/
theorem blockAddr_lt (disk : ℕ → Block) (d : DInode) (bn : ℕ) : blockAddr disk d bn < 2 ^ 32 := by
  unfold blockAddr
  split_ifs
  · exact UInt32.toNat_lt _
  · exact Nat.two_pow_pos 32
  · exact UInt32.toNat_lt _

/-- `blockAddr` reads the disk only at the indirect block. -/
theorem blockAddr_update (disk : ℕ → Block) (d : DInode) {x : ℕ} (hx : x ≠ (d.addr nDirect).toNat)
    (blk : Block) (bn : ℕ) : blockAddr (Function.update disk x blk) d bn = blockAddr disk d bn := by
  simp only [blockAddr, Function.update_of_ne (Ne.symm hx)]

/-- Setting a direct address moves that block and no other. -/
theorem blockAddr_setAddr_direct (disk : ℕ → Block) (d : DInode) {k : ℕ} (hk : k < nDirect)
    (a : UInt32) (bn : ℕ) :
    blockAddr disk (d.setAddr k a) bn = if bn = k then a.toNat else blockAddr disk d bn := by
  have hk' : k < nDirect + 1 := by omega
  by_cases hbn : bn < nDirect
  · by_cases hb : bn = k
    · subst hb
      simp [blockAddr, hbn, hk']
    · simp [blockAddr, hbn, hk', hb, Ne.symm hb]
  · have hb : bn ≠ k := by omega
    have hkn : k ≠ nDirect := by omega
    simp [blockAddr, hbn, hk', hb, hkn]

/-- Setting the indirect address keeps the direct blocks and reads the later ones from the new
indirect block. -/
theorem blockAddr_setAddr_indirect (disk : ℕ → Block) (d : DInode) (a : UInt32) (bn : ℕ) :
    blockAddr disk (d.setAddr nDirect a) bn =
      if bn < nDirect then blockAddr disk d bn
      else if a = 0 then 0 else (wordAt (disk a.toNat) (bn - nDirect)).toNat := by
  by_cases hbn : bn < nDirect
  · have hb : nDirect ≠ bn := by omega
    simp [blockAddr, hbn, hb]
  · simp [blockAddr, hbn]

/-- Writing the indirect block changes where the later blocks lie, and nothing else. -/
theorem blockAddr_update_indirect (disk : ℕ → Block) (d : DInode) (blk : Block) (bn : ℕ) :
    blockAddr (Function.update disk (d.addr nDirect).toNat blk) d bn =
      if bn < nDirect then blockAddr disk d bn
      else if d.addr nDirect = 0 then 0 else (wordAt blk (bn - nDirect)).toNat := by
  by_cases hbn : bn < nDirect <;> simp [blockAddr, hbn]

/-- Block `b` is one of inode `d`'s: a direct address, its indirect block, or an entry of its
indirect block. -/
def Refers (disk : ℕ → Block) (d : DInode) (b : ℕ) : Prop :=
  (∃ k < nDirect, (d.addr k).toNat = b) ∨
    (d.addr nDirect ≠ 0 ∧ ((d.addr nDirect).toNat = b ∨
      ∃ j < nIndirect, (wordAt (disk (d.addr nDirect).toNat) j).toNat = b))

/-- A zeroed inode holds no block. -/
theorem refers_zero {disk : ℕ → Block} {b : ℕ} (h : Refers disk DInode.zero b) : b = 0 := by
  rcases h with ⟨k, -, hk⟩ | ⟨hind, -⟩
  · rw [DInode.addr_zero] at hk
    exact hk.symm
  · exact absurd (DInode.addr_zero _) hind

/-- Setting a direct address adds that block and keeps the others. -/
theorem refers_setAddr {disk : ℕ → Block} {d : DInode} {k : ℕ} (hk : k < nDirect) {a : UInt32}
    {b : ℕ} (h : Refers disk (d.setAddr k a) b) : a.toNat = b ∨ Refers disk d b := by
  have hk' : k < nDirect + 1 := by omega
  have hnd : (d.setAddr k a).addr nDirect = d.addr nDirect := by
    rw [DInode.addr_setAddr _ hk', if_neg (by omega)]
  rcases h with ⟨j, hj, hb⟩ | ⟨hind, hb⟩
  · rw [DInode.addr_setAddr _ hk'] at hb
    by_cases hkj : k = j
    · rw [if_pos hkj] at hb
      exact .inl hb
    · rw [if_neg hkj] at hb
      exact .inr (.inl ⟨j, hj, hb⟩)
  · rw [hnd] at hind hb
    exact .inr (.inr ⟨hind, hb⟩)

/-- Which blocks an inode holds reads the disk only at its indirect block. -/
theorem refers_congr {disk disk' : ℕ → Block} {d : DInode} {b : ℕ}
    (h : d.addr nDirect ≠ 0 → disk' (d.addr nDirect).toNat = disk (d.addr nDirect).toNat) :
    Refers disk' d b ↔ Refers disk d b := by
  constructor
  · rintro (hd | ⟨hind, hb⟩)
    · exact .inl hd
    · exact .inr ⟨hind, by rwa [h hind] at hb⟩
  · rintro (hd | ⟨hind, hb⟩)
    · exact .inl hd
    · exact .inr ⟨hind, by rwa [h hind]⟩

/-! ## Names -/

/-- `'/'`, which separates the elements of a path. -/
def slash : UInt8 := 47

/-- `strncpy(s, t, n)` into an `n`-byte array: the bytes of `t` up to its NUL, then NULs. -/
def strncpy (t : List UInt8) (n : ℕ) : Vector UInt8 n :=
  Vector.ofFn fun j => (t.takeWhile (· ≠ 0)).getD j.val 0

/-- `strncmp(p, q, n)` of `string.c`: stop at the `n`-th byte, at a NUL of `p` or at the first
difference, and return the difference there. -/
def strncmp : List UInt8 → List UInt8 → ℕ → Int
  | _, _, 0 => 0
  | p, q, n + 1 =>
    if p.headD 0 ≠ 0 ∧ p.headD 0 = q.headD 0 then strncmp p.tail q.tail n
    else (p.headD 0).toNat - (q.headD 0).toNat

/-- The C string `p` holds, cut to `n` bytes. -/
def cstr (p : List UInt8) (n : ℕ) : List UInt8 := (p.takeWhile (· ≠ 0)).take n

/-- The C string cut to `n + 1` bytes: empty at a NUL, else the first byte and the rest cut to
`n`. -/
theorem cstr_succ (p : List UInt8) (n : ℕ) :
    cstr p (n + 1) = if p.headD 0 = 0 then [] else p.headD 0 :: cstr p.tail n := by
  cases p with
  | nil => simp [cstr]
  | cons a p => by_cases ha : a = 0 <;> simp [cstr, ha]

/-- The buffer `strncpy` fills: the string up to its NUL, cut to the buffer, then NULs. -/
theorem strncpy_toList (t : List UInt8) (n : ℕ) :
    (strncpy t n).toList = ((t.takeWhile (· ≠ 0)).take n) ++
      List.replicate (n - (t.takeWhile (· ≠ 0)).length) 0 := by
  simp only [strncpy]
  generalize t.takeWhile (· ≠ 0) = u
  apply List.ext_getElem (by rw [Vector.length_toList]; simp; omega)
  intro i h₁ h₂
  rw [Vector.length_toList] at h₁
  rw [Vector.getElem_toList, Vector.getElem_ofFn]
  dsimp only
  by_cases hi : i < u.length
  · rw [List.getElem_append_left (by simp; omega), List.getElem_take,
      List.getD_eq_getElem?_getD, List.getElem?_eq_getElem hi, Option.getD_some]
  · rw [List.getElem_append_right (by simp; omega), List.getElem_replicate,
      List.getD_eq_getElem?_getD, List.getElem?_eq_none (by omega), Option.getD_none]

/-- The C string `strncpy` copies is the source's, cut to the buffer. -/
theorem cstr_strncpy (t : List UInt8) (n : ℕ) : cstr (strncpy t n).toList n = cstr t n := by
  have hne : ∀ a ∈ (t.takeWhile (· ≠ 0)).take n, (decide (a ≠ 0)) = true := fun a ha =>
    List.mem_takeWhile_imp (p := fun x => decide (x ≠ 0)) (List.mem_of_mem_take ha)
  rw [cstr, strncpy_toList, List.takeWhile_append_of_pos hne, List.takeWhile_replicate]
  simp [cstr]

/-- A name cut to `n` bytes is the same C string, cut to `n`. -/
theorem cstr_take (t : List UInt8) (n : ℕ) : cstr (t.take n) n = cstr t n := by
  simp [cstr, ← List.take_takeWhile]

/-- Two names compare equal exactly when their C strings, cut to `n` bytes, agree. -/
theorem strncmp_eq_zero_iff (p q : List UInt8) (n : ℕ) :
    strncmp p q n = 0 ↔ cstr p n = cstr q n := by
  induction n generalizing p q with
  | zero => simp [strncmp, cstr]
  | succ n ih =>
    rw [strncmp, cstr_succ, cstr_succ]
    by_cases h : p.headD 0 ≠ 0 ∧ p.headD 0 = q.headD 0
    · -- the same byte, not a NUL: compare the rest
      rw [if_pos h, ih, if_neg h.1, if_neg (h.2 ▸ h.1), h.2, List.cons_eq_cons]
      simp
    · -- the strings end or differ here
      rw [if_neg h]
      have hsub : ((p.headD 0).toNat : Int) - (q.headD 0).toNat = 0 ↔ p.headD 0 = q.headD 0 := by
        rw [sub_eq_zero, Nat.cast_inj, UInt8.toNat_inj]
      rw [hsub]
      by_cases ha : p.headD 0 = 0
      · rw [if_pos ha, ha]
        by_cases hb : q.headD 0 = 0
        · rw [if_pos hb, hb]
          exact iff_of_true rfl rfl
        · rw [if_neg hb]
          exact iff_of_false (Ne.symm hb) (List.cons_ne_nil _ _).symm
      · have hab : p.headD 0 ≠ q.headD 0 := fun hab => h ⟨ha, hab⟩
        rw [if_neg ha]
        by_cases hb : q.headD 0 = 0
        · rw [if_pos hb]
          exact iff_of_false hab (List.cons_ne_nil _ _)
        · rw [if_neg hb, List.cons_eq_cons]
          exact ⟨fun h => absurd h hab, fun h => absurd h.1 hab⟩

/-! ## The free bitmap -/

/-- `m = 1 << (bi % 8)`: the bit of block `bi` in its byte. -/
def bitMask (bi : ℕ) : UInt8 := UInt8.ofNat (1 <<< (bi % 8))

/-- `(bp->data[bi/8] & m) != 0`: block `bi` is marked in use. -/
def bitAt (b : Block) (bi : ℕ) : Bool := byteAt b (bi / 8) &&& bitMask bi != 0

/-- `bp->data[bi/8] |= m`. -/
def setBit (b : Block) (bi : ℕ) : Block := b.setIfInBounds (bi / 8) (byteAt b (bi / 8) ||| bitMask bi)

/-- `bp->data[bi/8] &= ~m`. -/
def clearBit (b : Block) (bi : ℕ) : Block :=
  b.setIfInBounds (bi / 8) (byteAt b (bi / 8) &&& ~~~(bitMask bi))

theorem bitMask_toBitVec (bi : ℕ) : (bitMask bi).toBitVec = BitVec.twoPow 8 (bi % 8) := by
  apply BitVec.eq_of_toNat_eq
  have hpow : 2 ^ (bi % 8) < 256 := by
    calc 2 ^ (bi % 8) < 2 ^ 8 := Nat.pow_lt_pow_right (by norm_num) (Nat.mod_lt _ (by norm_num))
      _ = 256 := by norm_num
  simp [bitMask, Nat.shiftLeft_eq, Nat.mod_eq_of_lt hpow, BitVec.toNat_twoPow]

/-- The bit of block `bi` is bit `bi % 8` of its byte. -/
theorem bitAt_eq_getLsbD (b : Block) (bi : ℕ) :
    bitAt b bi = (byteAt b (bi / 8)).toBitVec.getLsbD (bi % 8) := by
  have hk : bi % 8 < 8 := Nat.mod_lt _ (by norm_num)
  rw [bitAt, Bool.eq_iff_iff, bne_iff_ne, ne_eq, ← UInt8.toBitVec_inj, UInt8.toBitVec_and,
    bitMask_toBitVec, BitVec.and_twoPow]
  cases h : (byteAt b (bi / 8)).toBitVec.getLsbD (bi % 8)
  · simp
  · simp only [if_true, iff_true]
    intro h0
    have := congrArg (fun v => v.getLsbD (bi % 8)) h0
    simp [hk] at this

@[simp]
theorem bitAt_zeroBlock (bi : ℕ) : bitAt zeroBlock bi = false := by
  simp [bitAt_eq_getLsbD]

/-- Marking block `i` in use keeps every other block's bit. -/
theorem bitAt_setBit (b : Block) {i : ℕ} (hi : i < bpb) (j : ℕ) :
    bitAt (setBit b i) j = (decide (i = j) || bitAt b j) := by
  simp only [bitAt_eq_getLsbD, setBit]
  by_cases hb : i / 8 = j / 8
  · -- the same byte: bit `i % 8` is set in it and the others kept
    have hij : i % 8 = j % 8 ↔ i = j := by omega
    rw [← hb, byteAt_setIfInBounds_self (by simp only [bpb, bSize] at hi ⊢; omega)]
    simp only [UInt8.toBitVec_or, bitMask_toBitVec, BitVec.getLsbD_or, BitVec.getLsbD_twoPow,
      Nat.mod_lt i (by norm_num : 8 > 0), decide_true, Bool.true_and, hij]
    exact Bool.or_comm _ _
  · have hij : i ≠ j := fun h => hb (h ▸ rfl)
    rw [byteAt_setIfInBounds_ne hb]
    simp [hij]

end Xv6.Fs
