import Xv6.Fs.Mkfs

/-!
# How `mkfs` lays out a file

`iappend` places each block of a file where the kernel's `bmap` looks for it: block `bn < NDIRECT`
at `addrs[bn]`, and a later one at entry `bn - NDIRECT` of the indirect block `addrs[NDIRECT]`.
This file proves that one call appends its bytes to the file as `bmap` reads them, and keeps
every other file.

The proof follows who holds each block: `own b = some (inum, part)` when block `b` is the block
`part` of inode `inum`. `Laid disk own inum d nb` says that the inode `d` has exactly its first
`nb` blocks, each held by it. Every block `iappend` writes is held by the file it appends to, or
taken fresh from `freeblock`, so a block held by any other inode is never written.

## Main definitions

* `Part`, `blocksOf`, `Laid`: the blocks of a file and who holds them.

## Main results

* `iappendBlock_of_lt`, `iappendBlock_fresh`: the block of the next byte, taken or allocated.
-/

namespace Xv6.Mkfs

open Fs LittleEndian

/-- What a block holds for an inode: block `bn` of its data, or its indirect block. -/
inductive Part where
  | data (bn : ℕ)
  | indirect
  deriving DecidableEq

/-- The blocks a file of `size` bytes spans. -/
def blocksOf (size : ℕ) : ℕ := (size + bSize - 1) / bSize

/-- A file of `off` bytes has its block `off / BSIZE` already when `off` is inside it. -/
theorem blocksOf_eq_or (off : ℕ) : blocksOf off = off / bSize ∨ blocksOf off = off / bSize + 1 := by
  simp only [blocksOf, bSize]
  omega

/-- The byte `j` of the data lies in one of the blocks the data spans. -/
theorem div_lt_blocksOf {j off : ℕ} (hj : j < off) : j / bSize < blocksOf off := by
  simp only [blocksOf, bSize]
  omega

/-- A pass of the loop fills the block of byte `off` from `off` on, so the file then spans
that block and the ones before it. -/
theorem blocksOf_add {off k : ℕ} (hk : 0 < k) (hle : k ≤ (off / bSize + 1) * bSize - off) :
    blocksOf (off + k) = off / bSize + 1 := by
  simp only [blocksOf, bSize] at *
  omega

/-- Inode `d`, number `inum`, has its first `nb` blocks and no others, and each one is held by it
for its part. -/
structure Laid (disk : ℕ → Block) (own : ℕ → Option (ℕ × Part)) (inum : ℕ) (d : DInode)
    (nb : ℕ) : Prop where
  data : ∀ bn < nb, own (blockAddr disk d bn) = some (inum, .data bn)
  direct : ∀ bn, nb ≤ bn → bn < nDirect → d.addr bn = 0
  indirect : nDirect < nb → own (d.addr nDirect).toNat = some (inum, .indirect)
  noIndirect : nb ≤ nDirect → d.addr nDirect = 0
  entries : nDirect < nb → ∀ bn, nb ≤ bn → bn < maxFile → blockAddr disk d bn = 0
  bound : nb ≤ maxFile

/-- The blocks held lie in the data region below `freeblock`. -/
def Bounded (own : ℕ → Option (ℕ × Part)) (freeblock : ℕ) : Prop :=
  ∀ b x, own b = some x → nMeta ≤ b ∧ b < freeblock

/-- The blocks from `freeblock` on are still zero. -/
def Fresh (img : Img) : Prop := ∀ b, img.freeblock ≤ b → img.disk b = zeroBlock

variable {img : Img} {own : ℕ → Option (ℕ × Part)} {A nb fbn : ℕ} {d : DInode}

theorem Bounded.ne_zero {fb : ℕ} (h : Bounded own fb) {b : ℕ} {x : ℕ × Part}
    (hb : own b = some x) : b ≠ 0 := by
  have := (h b x hb).1
  rw [nMeta_eq] at this
  omega

/-- Each block of a file lies somewhere: its address is not `0`. -/
theorem Laid.blockAddr_ne_zero {disk : ℕ → Block} {fb bn : ℕ} (hL : Laid disk own A d nb)
    (hB : Bounded own fb) (h : bn < nb) : blockAddr disk d bn ≠ 0 :=
  hB.ne_zero (hL.data bn h)

/-- Past the blocks of a file, `bmap` finds no block. -/
theorem Laid.blockAddr_eq_zero {disk : ℕ → Block} {bn : ℕ} (hL : Laid disk own A d nb)
    (h₁ : nb ≤ bn) (h₂ : bn < maxFile) : blockAddr disk d bn = 0 := by
  by_cases hd : bn < nDirect
  · simp [blockAddr, hd, hL.direct bn h₁ hd]
  · by_cases hi : nDirect < nb
    · exact hL.entries hi bn h₁ h₂
    · simp [blockAddr, hd, hL.noIndirect (by omega)]

/-- Every block an inode laid out by `main` holds, as a direct address, as its indirect block or
as an entry of it, is one it owns, and so lies where `Bounded` puts the blocks held. -/
theorem Laid.refers_bounded {disk : ℕ → Block} {fb b : ℕ} (hL : Laid disk own A d nb)
    (hB : Bounded own fb) (h : Refers disk d b) (hb : b ≠ 0) : nMeta ≤ b ∧ b < fb := by
  rcases h with ⟨k, hk, rfl⟩ | ⟨hind, rfl | ⟨j, hj, rfl⟩⟩
  · -- a direct address: one of the first `nb` blocks, or none
    by_cases hkn : k < nb
    · have hown := hL.data k hkn
      rw [show blockAddr disk d k = (d.addr k).toNat by simp [blockAddr, hk]] at hown
      exact hB _ _ hown
    · exact absurd (by rw [hL.direct k (by omega) hk]; rfl) hb
  · -- the indirect block: there only when the file has more than `NDIRECT` blocks
    by_cases hn : nDirect < nb
    · exact hB _ _ (hL.indirect hn)
    · exact absurd (hL.noIndirect (by omega)) hind
  · -- an entry of the indirect block: one of the file's blocks, or none
    have hn : nDirect < nb := by
      by_contra hn
      exact hind (hL.noIndirect (by omega))
    have hba : blockAddr disk d (nDirect + j) = (wordAt (disk (d.addr nDirect).toNat) j).toNat := by
      simp [blockAddr, hind]
    by_cases hjn : nDirect + j < nb
    · have hown := hL.data _ hjn
      rw [hba] at hown
      exact hB _ _ hown
    · have hz := hL.entries hn (nDirect + j) (by omega) (by simp only [maxFile]; omega)
      rw [hba] at hz
      exact absurd hz hb

/-- Block `fbn` of the file is there: `iappend` takes it and changes nothing. -/
theorem iappendBlock_of_lt (hL : Laid img.disk own A d nb) (hB : Bounded own img.freeblock)
    (hfbn : fbn < nb) : iappendBlock img d fbn = (img, d, blockAddr img.disk d fbn) := by
  have hne : blockAddr img.disk d fbn ≠ 0 := hB.ne_zero (hL.data fbn hfbn)
  unfold iappendBlock
  by_cases hd : fbn < nDirect
  · have ha : d.addr fbn ≠ 0 := by
      intro h
      simp [blockAddr, hd, h] at hne
    simp [hd, ha, blockAddr]
  · -- past the direct blocks: the indirect block is there, and so is the entry
    have hind : d.addr nDirect ≠ 0 := by
      intro h
      simp [blockAddr, hd, h] at hne
    have hent : wordAt (img.disk (d.addr nDirect).toNat) (fbn - nDirect) ≠ 0 := by
      intro h
      simp [blockAddr, hd, hind, h] at hne
    simp [hd, hind, hent, blockAddr]

/-- `Laid` reads the disk only through `blockAddr`. -/
theorem Laid.of_blockAddr {disk disk' : ℕ → Block} (hL : Laid disk own A d nb)
    (h : ∀ bn, blockAddr disk' d bn = blockAddr disk d bn) : Laid disk' own A d nb where
  data bn hbn := by
    rw [h]
    exact hL.data bn hbn
  direct := hL.direct
  indirect := hL.indirect
  noIndirect := hL.noIndirect
  entries hd bn h₁ h₂ := (h bn).trans (hL.entries hd bn h₁ h₂)
  bound := hL.bound

/-- A write to a block that is not the indirect block of the file moves none of its blocks. -/
theorem Laid.blockAddr_update {disk : ℕ → Block} {fb : ℕ} (hL : Laid disk own A d nb)
    (hB : Bounded own fb) {x : ℕ} {y : ℕ × Part} (hx : own x = some y) (hy : y ≠ (A, .indirect))
    (blk : Block) (bn : ℕ) : blockAddr (Function.update disk x blk) d bn = blockAddr disk d bn := by
  apply Fs.blockAddr_update
  intro hxi
  by_cases hd : nDirect < nb
  · have h := hL.indirect hd
    rw [← hxi, hx, Option.some.injEq] at h
    exact hy h
  · rw [hL.noIndirect (by omega)] at hxi
    exact hB.ne_zero hx (by simpa using hxi)

/-- From `(img, own)` to `(img', own')` the blocks taken are fresh ones for inode `A`, and the
blocks written are held by `A`. -/
structure Grows (A : ℕ) (img : Img) (own : ℕ → Option (ℕ × Part)) (img' : Img)
    (own' : ℕ → Option (ℕ × Part)) : Prop where
  freeinode : img'.freeinode = img.freeinode
  freeblock : img.freeblock ≤ img'.freeblock
  ext : ∀ b y, own b = some y → own' b = some y
  new : ∀ b y, own' b = some y → own b = some y ∨ (y.1 = A ∧ img.freeblock ≤ b)
  written : ∀ b, img'.disk b ≠ img.disk b → ∃ p, own' b = some (A, p)

theorem Grows.refl (A : ℕ) (img : Img) (own : ℕ → Option (ℕ × Part)) : Grows A img own img own :=
  ⟨rfl, le_rfl, fun _ _ h => h, fun _ _ h => .inl h, fun _ h => absurd rfl h⟩

theorem Grows.trans {img' img'' : Img} {own' own'' : ℕ → Option (ℕ × Part)}
    (h₁ : Grows A img own img' own') (h₂ : Grows A img' own' img'' own'') :
    Grows A img own img'' own'' where
  freeinode := h₂.freeinode.trans h₁.freeinode
  freeblock := h₁.freeblock.trans h₂.freeblock
  ext b y hb := h₂.ext b y (h₁.ext b y hb)
  new b y hb := by
    rcases h₂.new b y hb with hb' | ⟨hA, hfb⟩
    · rcases h₁.new b y hb' with hb'' | ⟨hA, hfb⟩
      · exact .inl hb''
      · exact .inr ⟨hA, hfb⟩
    · exact .inr ⟨hA, h₁.freeblock.trans hfb⟩
  written b hb := by
    by_cases h : img''.disk b = img'.disk b
    · obtain ⟨p, hp⟩ := h₁.written b (h ▸ hb)
      exact ⟨p, h₂.ext b _ hp⟩
    · exact h₂.written b h

/-- A word of a zeroed block. -/
@[simp]
theorem wordAt_zeroBlock (i : ℕ) : wordAt zeroBlock i = 0 := by
  simp [wordAt]

/-- The blocks a file of `nb` blocks holds: its data blocks, and its indirect block past
`NDIRECT`. -/
def held (nb : ℕ) : ℕ := nb + if nDirect < nb then 1 else 0

/-- A longer file holds at least the blocks of a shorter one. -/
theorem held_blocksOf_mono {a b : ℕ} (h : a ≤ b) : held (blocksOf a) ≤ held (blocksOf b) := by
  have hab : blocksOf a ≤ blocksOf b := Nat.div_le_div_right (by omega)
  simp only [held]
  split_ifs <;> omega

/-- The facts `iappend` needs of the block `iappendBlock` returns. -/
structure Allocated (A fbn nb : ℕ) (img : Img) (own : ℕ → Option (ℕ × Part)) (d : DInode)
    (img' : Img) (own' : ℕ → Option (ℕ × Part)) (d' : DInode) (x : ℕ) : Prop where
  grows : Grows A img own img' own'
  bounded : Bounded own' img'.freeblock
  fresh : Fresh img'
  laid : Laid img'.disk own' A d' (fbn + 1)
  addr : blockAddr img'.disk d' fbn = x
  kept : ∀ bn < nb, blockAddr img'.disk d' bn = blockAddr img.disk d bn
  written : ∀ b, img'.disk b ≠ img.disk b → own' b = some (A, .indirect)
  count : img'.freeblock + held nb = img.freeblock + held (fbn + 1)

/-- A direct block the file does not have yet. -/
theorem iappendBlock_direct (hL : Laid img.disk own A d fbn) (hB : Bounded own img.freeblock)
    (hF : Fresh img) (hmeta : nMeta ≤ img.freeblock) (hcap : img.freeblock < 2 ^ 32)
    (hd : fbn < nDirect) :
    Allocated A fbn fbn img own d { img with freeblock := img.freeblock + 1 }
      (Function.update own img.freeblock (some (A, .data fbn)))
      (d.setAddr fbn (UInt32.ofNat img.freeblock)) img.freeblock ∧
    iappendBlock img d fbn = ({ img with freeblock := img.freeblock + 1 },
      d.setAddr fbn (UInt32.ofNat img.freeblock), img.freeblock) := by
  have ha : d.addr fbn = 0 := hL.direct fbn le_rfl hd
  have hfb : (UInt32.ofNat img.freeblock).toNat = img.freeblock := UInt32.toNat_ofNat_of_lt' hcap
  -- a block held before lies below `freeblock`, so the update leaves it
  have hold : ∀ b y, own b = some y → b ≠ img.freeblock := fun b y hb => (hB b y hb).2.ne
  have hkept : ∀ bn < fbn, blockAddr img.disk (d.setAddr fbn (UInt32.ofNat img.freeblock)) bn =
      blockAddr img.disk d bn := fun bn hbn => by
    rw [blockAddr_setAddr_direct _ _ hd, if_neg (by omega)]
  refine ⟨⟨⟨rfl, by simp, fun b y hb => ?_, fun b y hb => ?_, fun b hb => absurd rfl hb⟩,
    fun b y hb => ?_, fun b hb => hF b (by simp at hb; omega), ⟨fun bn hbn => ?_, fun bn hbn hbd => ?_,
    fun h => absurd h (by omega), fun _ => ?_, fun h => absurd h (by omega), ?_⟩, ?_, hkept,
    fun b hb => absurd rfl hb, ?_⟩, ?_⟩
  · rw [Function.update_of_ne (hold b y hb)]
    exact hb
  · by_cases hbf : b = img.freeblock
    · subst hbf
      simp only [Function.update_self, Option.some.injEq] at hb
      exact .inr ⟨by rw [← hb], le_rfl⟩
    · rw [Function.update_of_ne hbf] at hb
      exact .inl hb
  · by_cases hbf : b = img.freeblock
    · subst hbf
      exact ⟨hmeta, by simp⟩
    · rw [Function.update_of_ne hbf] at hb
      exact ⟨(hB b y hb).1, Nat.lt_succ_of_lt (hB b y hb).2⟩
  · -- the blocks of the file, with the new one last
    by_cases hb : bn = fbn
    · subst hb
      simp [blockAddr_setAddr_direct _ _ hd, hfb]
    · have hlt : bn < fbn := by omega
      rw [hkept bn hlt, Function.update_of_ne (hold _ _ (hL.data bn hlt))]
      exact hL.data bn hlt
  · rw [DInode.addr_setAddr _ (by omega), if_neg (by omega)]
    exact hL.direct bn (by omega) hbd
  · rw [DInode.addr_setAddr _ (by omega), if_neg (by omega)]
    exact hL.noIndirect (by omega)
  · exact Nat.succ_le_of_lt (by simp only [maxFile] at *; omega)
  · simp [blockAddr_setAddr_direct _ _ hd, hfb]
  · simp only [held, if_neg (show ¬ nDirect < fbn by omega), if_neg (show ¬ nDirect < fbn + 1 by omega)]
    omega
  · simp [iappendBlock, hd, ha, DInode.addr_setAddr _ (show fbn < nDirect + 1 by omega), hfb]

/-- A block past the direct ones, when the file has its indirect block but not the entry. -/
theorem iappendBlock_entry (hL : Laid img.disk own A d fbn) (hB : Bounded own img.freeblock)
    (hF : Fresh img) (hmeta : nMeta ≤ img.freeblock) (hcap : img.freeblock < 2 ^ 32)
    (hd : nDirect < fbn) (hf : fbn < maxFile) :
    Allocated A fbn fbn img own d
      { wsect img (d.addr nDirect).toNat (setWordAt (img.disk (d.addr nDirect).toNat)
          (fbn - nDirect) (UInt32.ofNat img.freeblock)) with freeblock := img.freeblock + 1 }
      (Function.update own img.freeblock (some (A, .data fbn))) d img.freeblock ∧
    iappendBlock img d fbn =
      ({ wsect img (d.addr nDirect).toNat (setWordAt (img.disk (d.addr nDirect).toNat)
          (fbn - nDirect) (UInt32.ofNat img.freeblock)) with freeblock := img.freeblock + 1 },
        d, img.freeblock) := by
  have hfb : (UInt32.ofNat img.freeblock).toNat = img.freeblock := UInt32.toNat_ofNat_of_lt' hcap
  have hind : own (d.addr nDirect).toNat = some (A, .indirect) := hL.indirect hd
  have hind0 : d.addr nDirect ≠ 0 := by
    intro h
    exact hB.ne_zero hind (by simp [h])
  have hindfb : (d.addr nDirect).toNat ≠ img.freeblock := (hB _ _ hind).2.ne
  have hent : wordAt (img.disk (d.addr nDirect).toNat) (fbn - nDirect) = 0 := by
    have h := hL.entries hd fbn le_rfl hf
    simp only [blockAddr, show ¬ fbn < nDirect by omega, hind0, if_false] at h
    exact UInt32.toNat_inj.mp (by simpa using h)
  have hold : ∀ b y, own b = some y → b ≠ img.freeblock := fun b y hb => (hB b y hb).2.ne
  -- the file's blocks: the new entry at `fbn`, every other one as before
  have haddr : ∀ bn, blockAddr (Function.update img.disk (d.addr nDirect).toNat
      (setWordAt (img.disk (d.addr nDirect).toNat) (fbn - nDirect) (UInt32.ofNat img.freeblock)))
        d bn = if bn = fbn then img.freeblock else blockAddr img.disk d bn := by
    intro bn
    rw [blockAddr_update_indirect]
    by_cases hbn : bn < nDirect
    · rw [if_pos hbn, if_neg (by omega)]
    · rw [if_neg hbn, if_neg hind0]
      by_cases hb : bn = fbn
      · subst hb
        rw [wordAt_setWordAt_self (by simp [maxFile, nIndirect, bSize, nDirect] at *; omega), hfb,
          if_pos rfl]
      · rw [wordAt_setWordAt_of_ne (by omega), if_neg hb]
        simp [blockAddr, hbn, hind0]
  refine ⟨⟨⟨rfl, by simp, fun b y hb => ?_, fun b y hb => ?_, fun b hb => ?_⟩, fun b y hb => ?_,
    fun b hb => ?_, ⟨fun bn hbn => ?_, fun bn hbn hbd => absurd hbd (by omega), fun _ => ?_,
    fun h => absurd h (by omega), fun _ bn hbn hbm => ?_, ?_⟩,
    by simp only [wsect_disk, haddr]; simp,
    fun bn hbn => by simp only [wsect_disk, haddr]; simp [show bn ≠ fbn by omega],
    fun b hb => ?_, ?_⟩, ?_⟩
  · rw [Function.update_of_ne (hold b y hb)]
    exact hb
  · by_cases hbf : b = img.freeblock
    · subst hbf
      simp only [Function.update_self, Option.some.injEq] at hb
      exact .inr ⟨by rw [← hb], le_rfl⟩
    · rw [Function.update_of_ne hbf] at hb
      exact .inl hb
  · -- the only block written is the indirect one
    have hb' : b = (d.addr nDirect).toNat := by
      by_contra hne
      simp [Function.update_of_ne hne] at hb
    subst hb'
    exact ⟨.indirect, by rw [Function.update_of_ne hindfb]; exact hind⟩
  · by_cases hbf : b = img.freeblock
    · subst hbf
      exact ⟨hmeta, by simp⟩
    · rw [Function.update_of_ne hbf] at hb
      exact ⟨(hB b y hb).1, Nat.lt_succ_of_lt (hB b y hb).2⟩
  · have hne : b ≠ (d.addr nDirect).toNat := fun h => by
      have := (hB _ _ hind).2
      simp at hb
      omega
    simp only [wsect_disk, Function.update_of_ne hne]
    exact hF b (by simp at hb; omega)
  · simp only [wsect_disk]
    by_cases hb : bn = fbn
    · subst hb
      simp [haddr]
    · have hlt : bn < fbn := by omega
      rw [haddr, if_neg hb, Function.update_of_ne (hold _ _ (hL.data bn hlt))]
      exact hL.data bn hlt
  · rw [Function.update_of_ne hindfb]
    exact hind
  · simp only [wsect_disk]
    rw [haddr, if_neg (by omega)]
    exact hL.entries hd bn (by omega) hbm
  · exact Nat.succ_le_of_lt hf
  · have hb' : b = (d.addr nDirect).toNat := by
      by_contra hne
      simp [Function.update_of_ne hne] at hb
    subst hb'
    rw [Function.update_of_ne hindfb]
    exact hind
  · simp only [held, if_pos hd, if_pos (show nDirect < fbn + 1 by omega)]
    show img.freeblock + 1 + (fbn + 1) = img.freeblock + (fbn + 1 + 1)
    omega
  · simp [iappendBlock, show ¬ fbn < nDirect by omega, hind0, hent]

/-- The first block past the direct ones: `iappend` allocates the indirect block and then the
block, the two next blocks from `freeblock`. -/
theorem iappendBlock_indirect (hL : Laid img.disk own A d nDirect) (hB : Bounded own img.freeblock)
    (hF : Fresh img) (hmeta : nMeta ≤ img.freeblock) (hcap : img.freeblock + 1 < 2 ^ 32) :
    Allocated A nDirect nDirect img own d
      { wsect img img.freeblock (setWordAt zeroBlock 0 (UInt32.ofNat (img.freeblock + 1))) with
          freeblock := img.freeblock + 2 }
      (Function.update (Function.update own img.freeblock (some (A, .indirect)))
        (img.freeblock + 1) (some (A, .data nDirect)))
      (d.setAddr nDirect (UInt32.ofNat img.freeblock)) (img.freeblock + 1) ∧
    iappendBlock img d nDirect =
      ({ wsect img img.freeblock (setWordAt zeroBlock 0 (UInt32.ofNat (img.freeblock + 1))) with
          freeblock := img.freeblock + 2 },
        d.setAddr nDirect (UInt32.ofNat img.freeblock), img.freeblock + 1) := by
  have hfb : (UInt32.ofNat img.freeblock).toNat = img.freeblock :=
    UInt32.toNat_ofNat_of_lt' (lt_trans (Nat.lt_succ_self _) hcap)
  have hfb1 : (UInt32.ofNat (img.freeblock + 1)).toNat = img.freeblock + 1 :=
    UInt32.toNat_ofNat_of_lt' hcap
  have hfb0 : UInt32.ofNat img.freeblock ≠ 0 := by
    intro h
    have h0 := congrArg UInt32.toNat h
    rw [hfb, UInt32.toNat_zero] at h0
    rw [nMeta_eq] at hmeta
    omega
  have hind0 : d.addr nDirect = 0 := hL.noIndirect le_rfl
  have hold : ∀ b y, own b = some y → b < img.freeblock := fun b y hb => (hB b y hb).2
  -- the new indirect block names the new block first, and nothing else
  have haddr : ∀ bn, blockAddr (Function.update img.disk img.freeblock
      (setWordAt zeroBlock 0 (UInt32.ofNat (img.freeblock + 1))))
        (d.setAddr nDirect (UInt32.ofNat img.freeblock)) bn =
        if bn < nDirect then blockAddr img.disk d bn
        else if bn = nDirect then img.freeblock + 1 else 0 := by
    intro bn
    rw [blockAddr_setAddr_indirect, if_neg hfb0, hfb]
    by_cases hbn : bn < nDirect
    · rw [if_pos hbn, if_pos hbn]
      simp [blockAddr, hbn]
    · rw [if_neg hbn, if_neg hbn, Function.update_self]
      by_cases hb : bn = nDirect
      · subst hb
        rw [if_pos rfl, Nat.sub_self, wordAt_setWordAt_self (by simp [bSize]), hfb1]
      · rw [if_neg hb, wordAt_setWordAt_of_ne (by omega), wordAt_zeroBlock]
        rfl
  refine ⟨⟨⟨rfl, by simp, fun b y hb => ?_, fun b y hb => ?_, fun b hb => ?_⟩, fun b y hb => ?_,
    fun b hb => ?_, ⟨fun bn hbn => ?_, fun bn hbn hbd => absurd hbd (by omega), fun _ => ?_,
    fun h => absurd h (by omega), fun _ bn hbn hbm => ?_, ?_⟩, by simp only [wsect_disk, haddr]; simp,
    fun bn hbn => by simp only [wsect_disk, haddr]; simp [hbn], fun b hb => ?_, ?_⟩, ?_⟩
  · have := hold b y hb
    rw [Function.update_of_ne (by omega), Function.update_of_ne (by omega)]
    exact hb
  · by_cases hb1 : b = img.freeblock + 1
    · subst hb1
      simp only [Function.update_self, Option.some.injEq] at hb
      exact .inr ⟨by rw [← hb], by omega⟩
    · rw [Function.update_of_ne hb1] at hb
      by_cases hb0 : b = img.freeblock
      · subst hb0
        simp only [Function.update_self, Option.some.injEq] at hb
        exact .inr ⟨by rw [← hb], le_rfl⟩
      · rw [Function.update_of_ne hb0] at hb
        exact .inl hb
  · -- the only block written is the new indirect one
    have hb' : b = img.freeblock := by
      by_contra hne
      simp [Function.update_of_ne hne] at hb
    subst hb'
    exact ⟨.indirect, by simp⟩
  · by_cases hb1 : b = img.freeblock + 1
    · subst hb1
      exact ⟨by omega, by simp⟩
    · rw [Function.update_of_ne hb1] at hb
      by_cases hb0 : b = img.freeblock
      · subst hb0
        exact ⟨hmeta, by simp⟩
      · rw [Function.update_of_ne hb0] at hb
        have := (hB b y hb).2
        exact ⟨(hB b y hb).1, show b < img.freeblock + 2 by omega⟩
  · simp only [wsect_disk, Function.update_of_ne (show b ≠ img.freeblock by simp at hb; omega)]
    exact hF b (by simp at hb; omega)
  · simp only [wsect_disk]
    rw [haddr]
    by_cases hlt : bn < nDirect
    · rw [if_pos hlt]
      have := hold _ _ (hL.data bn hlt)
      rw [Function.update_of_ne (by omega), Function.update_of_ne (by omega)]
      exact hL.data bn hlt
    · rw [if_neg hlt, if_pos (by omega), Function.update_self]
      congr
      omega
  · rw [DInode.addr_setAddr _ (by omega), if_pos rfl, hfb, Function.update_of_ne (by omega),
      Function.update_self]
  · simp only [wsect_disk]
    rw [haddr, if_neg (by omega), if_neg (by omega)]
  · exact Nat.succ_le_of_lt (by simp [maxFile, nDirect, nIndirect, bSize])
  · have hb' : b = img.freeblock := by
      by_contra hne
      simp [Function.update_of_ne hne] at hb
    subst hb'
    simp
  · simp only [held, lt_irrefl, if_false, if_pos (show nDirect < nDirect + 1 by omega)]
    show img.freeblock + 2 + nDirect = img.freeblock + (nDirect + 1 + 1)
    omega
  · have hzero : img.disk img.freeblock = zeroBlock := hF _ le_rfl
    simp only [iappendBlock, lt_irrefl, if_false, hind0, if_true, rsect_eq,
      DInode.addr_setAddr _ (show nDirect < nDirect + 1 by omega), hfb, hzero, wordAt_zeroBlock,
      Nat.sub_self]
    rfl

/-- From `(img, d)`, whose data is `off` bytes, to `(img', d')`: the bytes `q` were appended to
inode `A`, which holds every block taken on the way. -/
structure Appended (A : ℕ) (img : Img) (own : ℕ → Option (ℕ × Part)) (d : DInode) (off : ℕ)
    (img' : Img) (own' : ℕ → Option (ℕ × Part)) (d' : DInode) (q : List UInt8) : Prop where
  grows : Grows A img own img' own'
  bounded : Bounded own' img'.freeblock
  fresh : Fresh img'
  laid : Laid img'.disk own' A d' (blocksOf (off + q.length))
  bytes : dataBytes img'.disk d' (off + q.length) = dataBytes img.disk d off ++ q
  count : img'.freeblock + held (blocksOf off) = img.freeblock + held (blocksOf (off + q.length))

theorem Appended.nil {off : ℕ} (hL : Laid img.disk own A d (blocksOf off))
    (hB : Bounded own img.freeblock) (hF : Fresh img) : Appended A img own d off img own d [] :=
  ⟨Grows.refl A img own, hB, hF, hL, by simp, rfl⟩

theorem Appended.trans {img' img'' : Img} {own' own'' : ℕ → Option (ℕ × Part)} {d' d'' : DInode}
    {off : ℕ} {q r : List UInt8} (h₁ : Appended A img own d off img' own' d' q)
    (h₂ : Appended A img' own' d' (off + q.length) img'' own'' d'' r) :
    Appended A img own d off img'' own'' d'' (q ++ r) where
  grows := h₁.grows.trans h₂.grows
  bounded := h₂.bounded
  fresh := h₂.fresh
  laid := by
    rw [List.length_append, ← Nat.add_assoc]
    exact h₂.laid
  bytes := by rw [List.length_append, ← Nat.add_assoc, h₂.bytes, h₁.bytes, List.append_assoc]
  count := by
    have h₁c := h₁.count
    have h₂c := h₂.count
    rw [List.length_append, ← Nat.add_assoc]
    omega

/-- One pass of the loop of `iappend`: the bytes `q` are written into the block `x` that
`iappendBlock` returned for the block of byte `off`, from `off` on and within that block. -/
theorem Allocated.copy {img1 : Img} {own1 : ℕ → Option (ℕ × Part)} {d1 : DInode} {x off : ℕ}
    {q : List UInt8} (hA : Allocated A (off / bSize) (blocksOf off) img own d img1 own1 d1 x)
    (hL : Laid img.disk own A d (blocksOf off)) (hq : 0 < q.length)
    (hle : q.length ≤ (off / bSize + 1) * bSize - off) :
    Appended A img own d off
      (wsect img1 x (copyAt (img1.disk x) (off - off / bSize * bSize) q)) own1 d1 q := by
  have h512 : bSize = 512 := rfl
  have hx : own1 x = some (A, .data (off / bSize)) := by
    rw [← hA.addr]
    exact hA.laid.data _ (Nat.lt_succ_self _)
  have hxfb : x < img1.freeblock := (hA.bounded x _ hx).2
  -- the write moves no block of the file
  have haddr : ∀ bn, blockAddr (Function.update img1.disk x
      (copyAt (img1.disk x) (off - off / bSize * bSize) q)) d1 bn = blockAddr img1.disk d1 bn :=
    hA.laid.blockAddr_update hA.bounded hx (by simp) _
  have hnb : blocksOf (off + q.length) = off / bSize + 1 := blocksOf_add hq hle
  refine ⟨hA.grows.trans ⟨rfl, le_rfl, fun _ _ h => h, fun _ _ h => .inl h, fun b hb => ?_⟩,
    hA.bounded, fun b hb => ?_, ?_, ?_, ?_⟩
  · -- only `x` is written
    have hb' : b = x := by
      by_contra hne
      simp [Function.update_of_ne hne] at hb
    exact ⟨_, hb' ▸ hx⟩
  · simp only [wsect_disk, wsect_freeblock] at hb ⊢
    rw [Function.update_of_ne (by omega)]
    exact hA.fresh b hb
  · rw [hnb, wsect_disk]
    exact hA.laid.of_blockAddr haddr
  · apply dataBytes_eq_append
    · -- a byte before `off`: its block is where it was, and the write leaves it
      intro j hj
      have hbn : j / bSize < blocksOf off := div_lt_blocksOf hj
      have hown : own (blockAddr img.disk d (j / bSize)) = some (A, .data (j / bSize)) :=
        hL.data _ hbn
      have hkeep : img1.disk (blockAddr img.disk d (j / bSize)) =
          img.disk (blockAddr img.disk d (j / bSize)) := by
        by_contra hne
        have h := hA.written _ hne
        rw [hA.grows.ext _ _ hown] at h
        simp at h
      simp only [fileByte, wsect_disk, haddr, hA.kept _ hbn]
      by_cases hb : blockAddr img.disk d (j / bSize) = x
      · -- the block of byte `off` itself, below `off`
        have hj' : j / bSize = off / bSize := by
          have h := hA.grows.ext _ _ hown
          rw [hb, hx] at h
          simpa using h.symm
        have hout : ¬ (j % bSize < bSize ∧ off - off / bSize * bSize ≤ j % bSize ∧
            j % bSize < off - off / bSize * bSize + q.length) := by
          rw [h512] at hj' ⊢
          omega
        rw [hb, Function.update_self, byteAt_copyAt, if_neg hout, ← hb, hkeep]
      · rw [Function.update_of_ne hb, hkeep]
    · -- a byte of `q`: it lies in block `x`, at its place in the block
      intro i hi
      rw [h512] at hle
      have hdiv : (off + i) / bSize = off / bSize := by
        rw [h512]
        omega
      simp only [fileByte, wsect_disk, haddr, hdiv, hA.addr, Function.update_self]
      rw [byteAt_copyAt, if_pos (by rw [h512]; omega)]
      congr 1
      rw [h512]
      omega
  · rw [hnb, wsect_freeblock]
    exact hA.count

/-- One block of `iappend`: whether the file has block `fbn` or it is the first one missing,
`iappendBlock` returns it, held by the file. -/
theorem iappendBlock_spec (hL : Laid img.disk own A d nb) (hB : Bounded own img.freeblock)
    (hF : Fresh img) (hmeta : nMeta ≤ img.freeblock) (hcap : img.freeblock + 1 < 2 ^ 32)
    (hnb : nb = fbn ∨ nb = fbn + 1) (hf : fbn < maxFile) :
    ∃ own', Allocated A fbn nb img own d (iappendBlock img d fbn).1 own' (iappendBlock img d fbn).2.1
      (iappendBlock img d fbn).2.2 := by
  rcases hnb with rfl | rfl
  · -- the first block missing: allocate it, and the indirect block with block `NDIRECT`
    rcases lt_trichotomy nb nDirect with hd | rfl | hd
    · obtain ⟨h, heq⟩ := iappendBlock_direct hL hB hF hmeta (by omega) hd
      exact ⟨_, by rw [heq]; exact h⟩
    · obtain ⟨h, heq⟩ := iappendBlock_indirect hL hB hF hmeta hcap
      exact ⟨_, by rw [heq]; exact h⟩
    · obtain ⟨h, heq⟩ := iappendBlock_entry hL hB hF hmeta (by omega) hd hf
      exact ⟨_, by rw [heq]; exact h⟩
  · -- the file has the block
    rw [iappendBlock_of_lt hL hB (Nat.lt_succ_self fbn)]
    exact ⟨own, Grows.refl A img own, hB, hF, hL, rfl, fun _ _ => rfl,
      fun b hb => absurd rfl hb, rfl⟩

/-- The loop of `iappend` appends all of `p`: it is given fuel past the length of `p`, room in the
file for it, and numbers below `2^32` for the blocks it takes. -/
theorem iappendLoop_spec {fuel off : ℕ} {p : List UInt8} (hfuel : p.length < fuel)
    (hL : Laid img.disk own A d (blocksOf off)) (hB : Bounded own img.freeblock) (hF : Fresh img)
    (hmeta : nMeta ≤ img.freeblock) (hmax : off + p.length ≤ maxFile * bSize)
    (hcap : img.freeblock + (held (blocksOf (off + p.length)) - held (blocksOf off)) + 1 < 2 ^ 32) :
    ∃ img' own' d', iappendLoop fuel img d off p = .ok (img', d', off + p.length) ∧
      Appended A img own d off img' own' d' p := by
  -- induction on the fuel, from any image, inode, offset and bytes
  induction fuel generalizing img own d off p with
  | zero => omega
  | succ fuel ih =>
    by_cases hp : p = []
    · subst hp
      exact ⟨img, own, d, by simp [iappendLoop], Appended.nil hL hB hF⟩
    have h512 : bSize = 512 := rfl
    have hlen : 0 < p.length := List.length_pos_of_ne_nil hp
    have hf : off / bSize < maxFile := by
      rw [h512] at hmax ⊢
      omega
    have hmono := held_blocksOf_mono (Nat.le_add_right off p.length)
    obtain ⟨own1, hA⟩ := iappendBlock_spec hL hB hF hmeta (by omega) (blocksOf_eq_or off) hf
    generalize hr : iappendBlock img d (off / bSize) = r at hA
    obtain ⟨img1, d1, x⟩ := r
    -- the bytes of this pass: up to the end of the block of `off`
    set n1 := min p.length ((off / bSize + 1) * bSize - off) with hn1
    have hn1pos : 0 < n1 := by
      rw [hn1, h512]
      omega
    have hq1 : (p.take n1).length = n1 := by simp [hn1]
    have hstep := hA.copy hL (q := p.take n1) (by rw [hq1]; exact hn1pos) (by rw [hq1]; omega)
    have hrest : (p.drop n1).length = p.length - n1 := List.length_drop
    have hend : off + n1 + (p.length - n1) = off + p.length := by omega
    have hmono' := held_blocksOf_mono (show off + n1 ≤ off + p.length by omega)
    have hc := hstep.count
    rw [hq1] at hc
    obtain ⟨img', own', d', hrun, hA'⟩ := ih (p := p.drop n1) (by omega) hstep.laid
      hstep.bounded hstep.fresh (hmeta.trans hstep.grows.freeblock) (by rw [hq1]; omega)
      (by rw [hq1, hrest, hend]; omega)
    refine ⟨img', own', d', ?_, ?_⟩
    · rw [hq1, hrest, hend] at hrun
      simp only [iappendLoop, if_neg hp, if_pos hf, hr, rsect_eq]
      exact hrun
    · have h := hstep.trans hA'
      rwa [List.take_append_drop] at h

/-- `iappendBlock` changes the addresses of the inode and nothing else of it. -/
theorem iappendBlock_shape (img : Img) (d : DInode) (fbn : ℕ) :
    (iappendBlock img d fbn).2.1 = { d with addrs := (iappendBlock img d fbn).2.1.addrs } := by
  unfold iappendBlock
  split_ifs <;> dsimp only <;> (try split_ifs) <;> rfl

/-- The loop of `iappend` changes the addresses of the inode and nothing else of it. -/
theorem iappendLoop_shape {fuel off off' : ℕ} {img' : Img} {d' : DInode} {p : List UInt8}
    (h : iappendLoop fuel img d off p = .ok (img', d', off')) :
    d' = { d with addrs := d'.addrs } := by
  induction fuel generalizing img d off p with
  | zero =>
    simp only [iappendLoop, Except.ok.injEq, Prod.mk.injEq] at h
    rw [← h.2.1]
  | succ fuel ih =>
    simp only [iappendLoop] at h
    split_ifs at h with hp hf
    · simp only [Except.ok.injEq, Prod.mk.injEq] at h
      rw [← h.2.1]
    · generalize hr : iappendBlock img d (off / bSize) = r at h
      obtain ⟨img1, d1, x⟩ := r
      have hd1 := iappendBlock_shape img d (off / bSize)
      rw [hr] at hd1
      dsimp only at hd1
      calc d' = { d1 with addrs := d'.addrs } := ih h
        _ = { d with addrs := d'.addrs } := by rw [hd1]

/-- `iappend(inum, p, n)`: the loop appends `p` to the inode, which is then written back with its
new size. -/
theorem iappend_spec {p : List UInt8}
    (hL : Laid img.disk own A (rinode img A) (blocksOf (rinode img A).size.toNat))
    (hB : Bounded own img.freeblock) (hF : Fresh img) (hmeta : nMeta ≤ img.freeblock)
    (hmax : (rinode img A).size.toNat + p.length ≤ maxFile * bSize)
    (hcap : img.freeblock + (held (blocksOf ((rinode img A).size.toNat + p.length)) -
      held (blocksOf (rinode img A).size.toNat)) + 1 < 2 ^ 32) :
    ∃ img' own' d', iappend img A p = .ok (winode img' A
        { d' with size := UInt32.ofNat ((rinode img A).size.toNat + p.length) }) ∧
      Appended A img own (rinode img A) (rinode img A).size.toNat img' own' d' p ∧
      d' = { rinode img A with addrs := d'.addrs } := by
  obtain ⟨img', own', d', hrun, hA⟩ := iappendLoop_spec (Nat.lt_succ_self p.length)
    hL hB hF hmeta hmax hcap
  exact ⟨img', own', d', by simp [iappend, hrun], hA, iappendLoop_shape hrun⟩

/-- A file whose blocks are not written keeps them, and its bytes. -/
theorem Laid.frame {disk disk' : ℕ → Block} {own' : ℕ → Option (ℕ × Part)}
    (hL : Laid disk own A d nb) (hown : ∀ b y, own b = some y → own' b = some y)
    (hkeep : ∀ b q, own b = some (A, q) → disk' b = disk b) :
    Laid disk' own' A d nb ∧ ∀ j < nb * bSize, fileByte disk' d j = fileByte disk d j := by
  -- the indirect block, the one block `blockAddr` reads, is the file's own
  have haddr : ∀ bn, blockAddr disk' d bn = blockAddr disk d bn := by
    intro bn
    by_cases hd : nDirect < nb
    · simp only [blockAddr, hkeep _ _ (hL.indirect hd)]
    · simp [blockAddr, hL.noIndirect (by omega)]
  refine ⟨⟨fun bn hbn => ?_, hL.direct, fun hd => hown _ _ (hL.indirect hd), hL.noIndirect,
    fun hd bn h₁ h₂ => (haddr bn).trans (hL.entries hd bn h₁ h₂), hL.bound⟩, fun j hj => ?_⟩
  · rw [haddr]
    exact hown _ _ (hL.data bn hbn)
  · have hbn : j / bSize < nb := Nat.div_lt_of_lt_mul (by rwa [Nat.mul_comm])
    simp only [fileByte, haddr, hkeep _ _ (hL.data _ hbn)]

end Xv6.Mkfs
