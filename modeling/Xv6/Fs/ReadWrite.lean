import Xv6.Fs.Inode
import Xv6.Fs.MkfsImage

/-!
# A write read back (`fs.c`)

`writei` copies its bytes block by block, and `bmap` finds each block or takes a new one from
`balloc`: a direct address, the indirect block, or an entry of it. This file follows a file
through a write under the invariant `FileOk`: the file has exactly the blocks its size spans,
laid out where `bmap` looks (`Mkfs.Laid`), each one held by it for its own part; the blocks held
are data blocks marked in the bitmap, the blocks the bitmap marks free are data blocks, and the
inode's own block lies before the bitmap.

`balloc` takes the first free block of the bitmap, and panics when there is none. A write that
needs a block on a full disk therefore panics instead of returning `n`
(`writei_full_disk_panics`). With a free block for each block the file comes to hold, `writei`
returns `n`, the size becomes `max(size, off + n)`, the file stays well formed, and `readi`
returns at each position the byte last written there (`writei_readi`).

## Main definitions

* `inUse`, `freeBlocks`, `allocState`: the bitmap, and the state after `balloc` took a block.
* `Held`, `FileOk`: the blocks held, and the file laid out.
* `Bmapped`, `Copied`: what `bmap` and the copy loop of `writei` leave.
* `writtenByte`: a byte of the file after a write.

## Main results

* `run_balloc_first`, `run_balloc_full`: `balloc` takes the first free block, or panics.
* `run_bmap_spec`: `bmap` of a block of a well-formed file, or of its next block.
* `run_writeiLoop_spec`, `writei_spec`, `run_readi_spec`: the copy loops.
* `writei_readi`: a write read back.
-/

namespace Xv6.Mkfs

open Fs LittleEndian

variable {disk : ℕ → Block} {own : ℕ → Option (ℕ × Part)} {A nb f : ℕ} {d : DInode}

/-- A block no inode holds is none of a file's. -/
theorem ne_of_held_of_none (hf : own f = none) {b : ℕ} {y : ℕ × Part} (hb : own b = some y) :
    b ≠ f := by
  rintro rfl
  rw [hf] at hb
  cases hb

/-- Block `f`, which no inode holds, given to a file of `nb < NDIRECT` blocks as its block
`nb`: the file has `nb + 1` blocks, the new one at `f`. -/
theorem Laid.setAddr_direct (hL : Laid disk own A d nb) (hd : nb < nDirect) (hf : own f = none)
    (hfw : f < 2 ^ 32) :
    Laid disk (Function.update own f (some (A, .data nb))) A (d.setAddr nb (UInt32.ofNat f))
      (nb + 1) ∧ blockAddr disk (d.setAddr nb (UInt32.ofNat f)) nb = f ∧
      ∀ bn < nb, blockAddr disk (d.setAddr nb (UInt32.ofNat f)) bn = blockAddr disk d bn := by
  have hkept : ∀ bn < nb, blockAddr disk (d.setAddr nb (UInt32.ofNat f)) bn =
      blockAddr disk d bn := fun bn hbn => by
    rw [blockAddr_setAddr_direct _ _ hd, if_neg (by omega)]
  have hnew : blockAddr disk (d.setAddr nb (UInt32.ofNat f)) nb = f := by
    rw [blockAddr_setAddr_direct _ _ hd, if_pos rfl, UInt32.toNat_ofNat_of_lt' hfw]
  refine ⟨⟨fun bn hbn => ?_, fun bn h₁ h₂ => ?_, fun h => absurd h (by omega), fun _ => ?_,
    fun h => absurd h (by omega), ?_⟩, hnew, hkept⟩
  · -- the blocks of the file, with the new one last
    rcases Nat.lt_succ_iff_lt_or_eq.mp hbn with hlt | rfl
    · rw [hkept bn hlt, Function.update_of_ne (ne_of_held_of_none hf (hL.data bn hlt))]
      exact hL.data bn hlt
    · rw [hnew, Function.update_self]
  · rw [DInode.addr_setAddr _ (by omega), if_neg (by omega)]
    exact hL.direct bn (by omega) h₂
  · rw [DInode.addr_setAddr _ (by omega), if_neg (by omega)]
    exact hL.noIndirect (by omega)
  · simp only [maxFile] at hL ⊢
    omega

/-- Block `f`, which no inode holds, entered in the indirect block of a file of `nb` blocks,
`NDIRECT < nb`, as its block `nb`. -/
theorem Laid.setEntry (hL : Laid disk own A d nb) (hd : nDirect < nb) (hnb : nb < maxFile)
    (hind0 : d.addr nDirect ≠ 0) (hf : own f = none) (hfw : f < 2 ^ 32) :
    Laid (Function.update disk (d.addr nDirect).toNat (setWordAt (disk (d.addr nDirect).toNat)
        (nb - nDirect) (UInt32.ofNat f))) (Function.update own f (some (A, .data nb))) A d
      (nb + 1) ∧
    blockAddr (Function.update disk (d.addr nDirect).toNat (setWordAt (disk (d.addr nDirect).toNat)
        (nb - nDirect) (UInt32.ofNat f))) d nb = f ∧
    ∀ bn < nb, blockAddr (Function.update disk (d.addr nDirect).toNat
      (setWordAt (disk (d.addr nDirect).toNat) (nb - nDirect) (UInt32.ofNat f))) d bn =
        blockAddr disk d bn := by
  have hind : own (d.addr nDirect).toNat = some (A, .indirect) := hL.indirect hd
  -- the file's blocks: the new entry at `nb`, every other one as before
  have haddr : ∀ bn, blockAddr (Function.update disk (d.addr nDirect).toNat
      (setWordAt (disk (d.addr nDirect).toNat) (nb - nDirect) (UInt32.ofNat f))) d bn =
        if bn = nb then f else blockAddr disk d bn := by
    intro bn
    rw [blockAddr_update_indirect]
    by_cases hbn : bn < nDirect
    · rw [if_pos hbn, if_neg (by omega)]
    · rw [if_neg hbn, if_neg hind0]
      by_cases hb : bn = nb
      · subst hb
        rw [wordAt_setWordAt_self (by simp [maxFile, nIndirect, bSize, nDirect] at *; omega),
          UInt32.toNat_ofNat_of_lt' hfw, if_pos rfl]
      · rw [wordAt_setWordAt_of_ne (by omega), if_neg hb]
        simp [blockAddr, hbn, hind0]
  refine ⟨⟨fun bn hbn => ?_, fun bn h₁ h₂ => absurd h₂ (by omega), fun _ => ?_,
    fun h => absurd h (by omega), fun _ bn h₁ h₂ => ?_, hnb⟩, by rw [haddr, if_pos rfl],
    fun bn hbn => by rw [haddr, if_neg (by omega)]⟩
  · rw [haddr]
    rcases Nat.lt_succ_iff_lt_or_eq.mp hbn with hlt | rfl
    · rw [if_neg (by omega), Function.update_of_ne (ne_of_held_of_none hf (hL.data bn hlt))]
      exact hL.data bn hlt
    · rw [if_pos rfl, Function.update_self]
  · rw [Function.update_of_ne (ne_of_held_of_none hf hind)]
    exact hind
  · rw [haddr, if_neg (by omega)]
    exact hL.entries hd bn (by omega) h₂

/-- Blocks `f₁` and `f₂`, which no inode holds, given to a file of `NDIRECT` blocks as its
indirect block and as the first entry of it. -/
theorem Laid.setIndirect {f₁ f₂ : ℕ} (hL : Laid disk own A d nDirect) (hf₁ : own f₁ = none)
    (hf₂ : own f₂ = none) (h12 : f₁ ≠ f₂) (hf0 : f₁ ≠ 0) (hw₁ : f₁ < 2 ^ 32) (hw₂ : f₂ < 2 ^ 32) :
    Laid (Function.update disk f₁ (setWordAt zeroBlock 0 (UInt32.ofNat f₂)))
        (Function.update (Function.update own f₁ (some (A, .indirect))) f₂
          (some (A, .data nDirect))) A (d.setAddr nDirect (UInt32.ofNat f₁)) (nDirect + 1) ∧
      blockAddr (Function.update disk f₁ (setWordAt zeroBlock 0 (UInt32.ofNat f₂)))
        (d.setAddr nDirect (UInt32.ofNat f₁)) nDirect = f₂ ∧
      ∀ bn < nDirect, blockAddr (Function.update disk f₁ (setWordAt zeroBlock 0
        (UInt32.ofNat f₂))) (d.setAddr nDirect (UInt32.ofNat f₁)) bn = blockAddr disk d bn := by
  have hfb : (UInt32.ofNat f₁).toNat = f₁ := UInt32.toNat_ofNat_of_lt' hw₁
  have hfb0 : UInt32.ofNat f₁ ≠ 0 := fun h => hf0 (by rw [← hfb, h]; rfl)
  -- the new indirect block names the new block first, and nothing else
  have haddr : ∀ bn, blockAddr (Function.update disk f₁ (setWordAt zeroBlock 0 (UInt32.ofNat f₂)))
      (d.setAddr nDirect (UInt32.ofNat f₁)) bn =
        if bn < nDirect then blockAddr disk d bn else if bn = nDirect then f₂ else 0 := by
    intro bn
    rw [blockAddr_setAddr_indirect, if_neg hfb0, hfb]
    by_cases hbn : bn < nDirect
    · rw [if_pos hbn, if_pos hbn]
      simp [blockAddr, hbn]
    · rw [if_neg hbn, if_neg hbn, Function.update_self]
      by_cases hb : bn = nDirect
      · subst hb
        rw [if_pos rfl, Nat.sub_self, wordAt_setWordAt_self (by simp [bSize]),
          UInt32.toNat_ofNat_of_lt' hw₂]
      · rw [if_neg hb, wordAt_setWordAt_of_ne (by omega), wordAt_zeroBlock]
        rfl
  have hind0 : d.addr nDirect = 0 := hL.noIndirect le_rfl
  refine ⟨⟨fun bn hbn => ?_, fun bn h₁ h₂ => absurd h₂ (by omega), fun _ => ?_,
    fun h => absurd h (by omega), fun _ bn h₁ h₂ => ?_, by simp [maxFile, nIndirect, bSize]⟩,
    by rw [haddr, if_neg (lt_irrefl _), if_pos rfl], fun bn hbn => by rw [haddr, if_pos hbn]⟩
  · rw [haddr]
    rcases Nat.lt_succ_iff_lt_or_eq.mp hbn with hlt | rfl
    · have hb := hL.data bn hlt
      rw [if_pos hlt, Function.update_of_ne (ne_of_held_of_none hf₂ hb),
        Function.update_of_ne (ne_of_held_of_none hf₁ hb)]
      exact hb
    · rw [if_neg (lt_irrefl _), if_pos rfl, Function.update_self]
  · rw [DInode.addr_setAddr _ (by omega), if_pos rfl, hfb, Function.update_of_ne h12,
      Function.update_self]
  · rw [haddr, if_neg (by omega), if_neg (by omega)]

end Xv6.Mkfs

namespace Xv6.Fs

open LittleEndian Mkfs

/-! ## The bitmap and `balloc` -/

/-- Block `b` is marked in use: its bit in the bitmap is set. -/
def inUse (s : FsState) (b : ℕ) : Bool := bitAt (s.disk (bblock s.sb b)) (b % bpb)

/-- The blocks of the disk the bitmap marks free. -/
def freeBlocks (s : FsState) : Finset ℕ :=
  (Finset.range s.sb.size.toNat).filter fun b => inUse s b = false

/-- The state after `balloc` took block `f`: its bit set, and the block zeroed. -/
def allocState (s : FsState) (f : ℕ) : FsState :=
  { s with disk := Function.update (Function.update s.disk (bblock s.sb f)
      (setBit (s.disk (bblock s.sb f)) (f % bpb))) f zeroBlock }

theorem bpb_eq : bpb = 4096 := rfl

/-- The bitmap block of the blocks from `k * BPB` holds their bits in order. -/
theorem inUse_group (s : FsState) (k : ℕ) {bi : ℕ} (hi : bi < bpb) :
    inUse s (k * bpb + bi) = bitAt (s.disk (bblock s.sb (k * bpb))) bi := by
  rw [bpb_eq] at hi ⊢
  have hdiv : (k * 4096 + bi) / 4096 = k * 4096 / 4096 := by omega
  have hmod : (k * 4096 + bi) % 4096 = bi := by omega
  simp only [inUse, bblock, bpb_eq, hdiv, hmod]

/-- `ballocScan` finds the first block from `b` in the bitmap block `bp` whose bit is clear. -/
theorem ballocScan_eq_some_iff {bp : Block} {b size bi : ℕ} :
    ballocScan bp b size = some bi ↔ bi < bpb ∧ b + bi < size ∧ bitAt bp bi = false ∧
      ∀ j < bi, b + j < size → bitAt bp j = true := by
  rw [ballocScan, List.find?_range_eq_some, List.mem_range]
  simp only [Bool.and_eq_true, decide_eq_true_eq, Bool.not_eq_true', Bool.not_and, Bool.not_not,
    Bool.or_eq_true, decide_eq_false_iff_not, not_lt]
  constructor
  · rintro ⟨⟨hlt, hbit⟩, hbi, hbefore⟩
    refine ⟨hbi, hlt, hbit, fun j hj hjs => ?_⟩
    rcases hbefore j hj with h | h
    · omega
    · exact h
  · rintro ⟨hbi, hlt, hbit, hbefore⟩
    exact ⟨⟨hlt, hbit⟩, hbi, fun j hj => by
      by_cases hjs : b + j < size
      · exact .inr (hbefore j hj hjs)
      · exact .inl (by omega)⟩

theorem ballocScan_eq_none_iff {bp : Block} {b size : ℕ} :
    ballocScan bp b size = none ↔ ∀ bi < bpb, b + bi < size → bitAt bp bi = true := by
  rw [ballocScan, List.find?_eq_none]
  simp only [List.mem_range, Bool.and_eq_true, decide_eq_true_eq, Bool.not_eq_true', not_and,
    Bool.not_eq_false]

/-! The equations of `ballocLoop` cannot be generated: they would evaluate `List.range BPB`
inside the match on `ballocScan`. Each turn of the loop is taken through its recursor. -/

/-- A turn of `ballocLoop` whose bitmap block has a free block: it is taken. -/
theorem run_ballocLoop_some (s : FsState) {size fuel b bi : ℕ} (hb : b < size)
    (hsome : ballocScan (s.disk (bblock s.sb b)) b size = some bi) :
    (ballocLoop size (fuel + 1) b).run s = .ok (UInt32.ofNat (b + bi), { s with
      disk := Function.update (Function.update s.disk (bblock s.sb b)
        (setBit (s.disk (bblock s.sb b)) bi)) (b + bi) zeroBlock }) := by
  delta ballocLoop
  dsimp only
  delta ballocLoop._f
  dsimp only
  rw [if_pos hb, StateT.run_bind, run_getSb, StateExcept.ok_bind]
  dsimp only
  rw [StateT.run_bind, run_readBlock, StateExcept.ok_bind]
  dsimp only
  rw [hsome]
  rfl

/-- A turn of `ballocLoop` whose bitmap block has no free block goes on to the next. -/
theorem run_ballocLoop_none (s : FsState) {size fuel b : ℕ} (hb : b < size)
    (hnone : ballocScan (s.disk (bblock s.sb b)) b size = none) :
    (ballocLoop size (fuel + 1) b).run s = (ballocLoop size fuel (b + bpb)).run s := by
  conv_lhs =>
    delta ballocLoop
    dsimp only
    delta ballocLoop._f
    dsimp only
  rw [if_pos hb, StateT.run_bind, run_getSb, StateExcept.ok_bind]
  dsimp only
  rw [StateT.run_bind, run_readBlock, StateExcept.ok_bind]
  dsimp only
  rw [hnone]
  dsimp only
  conv_rhs =>
    delta ballocLoop
    dsimp only
    delta ballocLoop._f
    dsimp only

/-- `ballocLoop` past the last block, or out of turns, panics. -/
theorem run_ballocLoop_stop (s : FsState) {size fuel b : ℕ} (h : fuel = 0 ∨ size ≤ b) :
    (ballocLoop size fuel b).run s = .error "balloc: out of blocks" := by
  rcases h with rfl | h
  · rfl
  · cases fuel with
    | zero => rfl
    | succ fuel =>
      delta ballocLoop
      dsimp only
      delta ballocLoop._f
      dsimp only
      rw [if_neg (by omega)]
      rfl

/-- From the bitmap block of block `k * BPB` on, `ballocLoop` takes the first free block. -/
theorem run_ballocLoop_first (s : FsState) {size fuel k f : ℕ} (hf : f < size)
    (hfree : inUse s f = false) (hbefore : ∀ c, k * bpb ≤ c → c < f → inUse s c = true)
    (hkf : k * bpb ≤ f) (hfuel : f / bpb - k < fuel) :
    (ballocLoop size fuel (k * bpb)).run s = .ok (UInt32.ofNat f, allocState s f) := by
  -- induction on the fuel, one bitmap block a turn
  induction fuel generalizing k with
  | zero => omega
  | succ fuel ih =>
    have hk : k * bpb < size := by omega
    by_cases hgroup : f / bpb = k
    · -- the block is in this bitmap block: the scan finds it
      have hoff : k * bpb + f % bpb = f := by rw [← hgroup]; exact Nat.div_add_mod' f bpb
      have hsome : ballocScan (s.disk (bblock s.sb (k * bpb))) (k * bpb) size =
          some (f % bpb) := by
        rw [ballocScan_eq_some_iff]
        refine ⟨Nat.mod_lt _ (by decide), by omega, ?_, fun j hj hjs => ?_⟩
        · rw [← inUse_group s k (Nat.mod_lt _ (by decide)), hoff]
          exact hfree
        · rw [← inUse_group s k (by have := Nat.mod_lt f (show 0 < bpb by decide); omega)]
          exact hbefore _ (by omega) (by omega)
      have hbb : bblock s.sb (k * bpb) = bblock s.sb f := by
        simp only [bblock, Nat.mul_div_cancel _ (show 0 < bpb by decide), hgroup]
      rw [run_ballocLoop_some s hk hsome, hoff, hbb]
      rfl
    · -- no free block in this bitmap block
      have hlt : k < f / bpb := by
        have := (Nat.le_div_iff_mul_le (show 0 < bpb by decide)).mpr hkf
        omega
      have hnext : k * bpb + bpb ≤ f := by
        rw [← add_one_mul]
        exact (Nat.le_div_iff_mul_le (by decide)).mp hlt
      have hnone : ballocScan (s.disk (bblock s.sb (k * bpb))) (k * bpb) size = none := by
        rw [ballocScan_eq_none_iff]
        intro bi hbi _
        rw [← inUse_group s k hbi]
        exact hbefore _ (by omega) (by omega)
      rw [run_ballocLoop_none s hk hnone, ← add_one_mul]
      refine ih (fun c h₁ h₂ => hbefore c ?_ h₂) (by rwa [add_one_mul]) ?_
      · rw [add_one_mul] at h₁
        omega
      · omega

/-- From the bitmap block of block `k * BPB` on, with no free block left there, `ballocLoop`
panics. -/
theorem run_ballocLoop_full (s : FsState) {size fuel k : ℕ}
    (hfull : ∀ c, k * bpb ≤ c → c < size → inUse s c = true) :
    (ballocLoop size fuel (k * bpb)).run s = .error "balloc: out of blocks" := by
  -- induction on the fuel, one bitmap block a turn
  induction fuel generalizing k with
  | zero => exact run_ballocLoop_stop s (.inl rfl)
  | succ fuel ih =>
    by_cases hk : k * bpb < size
    · have hnone : ballocScan (s.disk (bblock s.sb (k * bpb))) (k * bpb) size = none := by
        rw [ballocScan_eq_none_iff]
        intro bi hbi hbs
        rw [← inUse_group s k hbi]
        exact hfull _ (by omega) hbs
      rw [run_ballocLoop_none s hk hnone, ← add_one_mul]
      exact ih fun c h₁ h₂ => hfull c (by rw [add_one_mul] at h₁; omega) h₂
    · exact run_ballocLoop_stop s (.inr (by omega))

/-- `balloc` takes the first free block: it is marked in use and zeroed. -/
theorem run_balloc_first (s : FsState) {f : ℕ} (hf : f < s.sb.size.toNat)
    (hfree : inUse s f = false) (hbefore : ∀ c < f, inUse s c = true) :
    balloc.run s = .ok (UInt32.ofNat f, allocState s f) := by
  have hfuel : f / bpb - 0 < s.sb.size.toNat / bpb + 1 :=
    Nat.lt_succ_of_le (Nat.sub_zero _ ▸ Nat.div_le_div_right hf.le)
  have h := @run_ballocLoop_first s s.sb.size.toNat (s.sb.size.toNat / bpb + 1) 0 f hf hfree
    (fun c _ hc => hbefore c hc) (by rw [Nat.zero_mul]; exact Nat.zero_le f) hfuel
  rw [Nat.zero_mul] at h
  rw [balloc, StateT.run_bind, run_getSb, StateExcept.ok_bind]
  exact h

/-- On a disk with no free block, `balloc` panics. -/
theorem run_balloc_full (s : FsState) (hfull : ∀ c < s.sb.size.toNat, inUse s c = true) :
    balloc.run s = .error "balloc: out of blocks" := by
  have h := @run_ballocLoop_full s s.sb.size.toNat (s.sb.size.toNat / bpb + 1) 0
    (fun c _ hc => hfull c hc)
  rw [Nat.zero_mul] at h
  rw [balloc, StateT.run_bind, run_getSb, StateExcept.ok_bind]
  exact h

/-- With a free block on the disk, `balloc` takes one of the free blocks. -/
theorem exists_run_balloc (s : FsState) (h : (freeBlocks s).Nonempty) :
    ∃ f ∈ freeBlocks s, balloc.run s = .ok (UInt32.ofNat f, allocState s f) := by
  obtain ⟨m, hm, hleast⟩ : ∃ m ∈ freeBlocks s, ∀ c ∈ freeBlocks s, m ≤ c :=
    ⟨_, Finset.min'_mem _ h, fun c hc => Finset.min'_le _ c hc⟩
  refine ⟨m, hm, ?_⟩
  simp only [freeBlocks, Finset.mem_filter, Finset.mem_range] at hm hleast
  refine run_balloc_first s hm.1 hm.2 fun c hc => ?_
  -- a free block below the least one would be less than it
  by_contra hne
  exact absurd (hleast c ⟨by omega, by simpa using hne⟩) (not_le.mpr hc)

/-- After `balloc` took block `f`, which is no bitmap block, `f` is in use and every other
block as before. -/
theorem inUse_allocState {s : FsState} {f : ℕ} (hf : ∀ c < s.sb.size.toNat, f ≠ bblock s.sb c)
    {c : ℕ} (hc : c < s.sb.size.toNat) : inUse (allocState s f) c = (decide (c = f) || inUse s c) := by
  simp only [inUse, allocState]
  rw [Function.update_of_ne (hf c hc).symm]
  by_cases hbb : bblock s.sb c = bblock s.sb f
  · -- the same bitmap block: one more bit is set in it
    rw [hbb, Function.update_self, bitAt_setBit _ (Nat.mod_lt _ (by decide))]
    have hsame : f % bpb = c % bpb ↔ c = f := by
      simp only [bblock] at hbb
      constructor
      · intro h
        have hdiv : c / bpb = f / bpb := Nat.add_right_cancel hbb
        rw [← Nat.div_add_mod c bpb, ← Nat.div_add_mod f bpb, hdiv, h]
      · rintro rfl
        rfl
    by_cases hcf : c = f
    · subst hcf
      simp
    · simp [hcf, show ¬ f % bpb = c % bpb from fun h => hcf (hsame.mp h)]
  · rw [Function.update_of_ne hbb]
    have hcf : c ≠ f := by
      rintro rfl
      exact hbb rfl
    simp [hcf]

theorem freeBlocks_allocState {s : FsState} {f : ℕ} (hf : ∀ c < s.sb.size.toNat, f ≠ bblock s.sb c) :
    freeBlocks (allocState s f) = (freeBlocks s).erase f := by
  ext c
  simp only [freeBlocks, Finset.mem_filter, Finset.mem_range, Finset.mem_erase]
  by_cases hc : c < s.sb.size.toNat
  · rw [show (allocState s f).sb = s.sb from rfl, inUse_allocState hf hc]
    by_cases hcf : c = f <;> simp [hcf, hc]
  · simp [allocState, hc]

/-! ## The data blocks and the bitmap -/

/-- The first data block: the bitmap of `size` blocks takes `size / BPB + 1` blocks from
`bmapstart` (`nbitmap` in `mkfs`). -/
def dataStart (sb : Superblock) : ℕ := sb.bmapstart.toNat + sb.size.toNat / bpb + 1

/-- The bitmap block of a block of the disk lies before the data blocks. -/
theorem bblock_lt_dataStart (sb : Superblock) {c : ℕ} (hc : c < sb.size.toNat) :
    bblock sb c < dataStart sb := by
  have hdiv : c / bpb ≤ sb.size.toNat / bpb := Nat.div_le_div_right hc.le
  unfold bblock dataStart
  omega

theorem bmapstart_lt_dataStart (sb : Superblock) : sb.bmapstart.toNat < dataStart sb :=
  Nat.lt_succ_of_le (Nat.le_add_right _ _)

/-- A block outside the bitmap is no bitmap block. -/
theorem ne_bblock {sb : Superblock} {x : ℕ} (hx : x < sb.bmapstart.toNat ∨ dataStart sb ≤ x)
    {c : ℕ} (hc : c < sb.size.toNat) : x ≠ bblock sb c := by
  have h₁ : sb.bmapstart.toNat ≤ bblock sb c := Nat.le_add_left _ _
  have h₂ := bblock_lt_dataStart sb hc
  omega

/-- `inUse` reads the bitmap blocks only. -/
theorem inUse_update {s : FsState} {x : ℕ} (hx : x < s.sb.bmapstart.toNat ∨ dataStart s.sb ≤ x)
    (blk : Block) {c : ℕ} (hc : c < s.sb.size.toNat) :
    inUse { s with disk := Function.update s.disk x blk } c = inUse s c := by
  simp only [inUse, Function.update_of_ne (ne_bblock hx hc).symm]

theorem freeBlocks_update {s : FsState} {x : ℕ} (hx : x < s.sb.bmapstart.toNat ∨ dataStart s.sb ≤ x)
    (blk : Block) : freeBlocks { s with disk := Function.update s.disk x blk } = freeBlocks s :=
  Finset.filter_congr fun c hc => by rw [inUse_update hx blk (Finset.mem_range.mp hc)]

/-- The blocks `own` gives to inodes are data blocks of the disk marked in use, and the blocks
the bitmap marks free are data blocks. -/
structure Held (s : FsState) (own : ℕ → Option (ℕ × Part)) : Prop where
  held : ∀ b y, own b = some y → dataStart s.sb ≤ b ∧ b < s.sb.size.toNat ∧ inUse s b = true
  free : ∀ b ∈ freeBlocks s, dataStart s.sb ≤ b

/-- `Held` reads the disk and the superblock only. -/
theorem Held.icache {s : FsState} {own : ℕ → Option (ℕ × Part)} (hH : Held s own)
    (c : Fin nInode → Inode) : Held { s with icache := c } own :=
  ⟨hH.held, hH.free⟩

/-- A free block is held by no inode. -/
theorem Held.not_held {s : FsState} {own : ℕ → Option (ℕ × Part)} (hH : Held s own) {f : ℕ}
    (hf : f ∈ freeBlocks s) : own f = none := by
  simp only [freeBlocks, Finset.mem_filter] at hf
  cases hown : own f with
  | none => rfl
  | some y => simp [(hH.held f y hown).2.2] at hf

/-- A write outside the bitmap keeps the blocks held and free. -/
theorem Held.update {s : FsState} {own : ℕ → Option (ℕ × Part)} (hH : Held s own) {x : ℕ}
    (hx : x < s.sb.bmapstart.toNat ∨ dataStart s.sb ≤ x) (blk : Block) :
    Held { s with disk := Function.update s.disk x blk } own where
  held b y hb := by
    obtain ⟨h₁, h₂, h₃⟩ := hH.held b y hb
    exact ⟨h₁, h₂, by rw [inUse_update hx blk h₂]; exact h₃⟩
  free b hb := hH.free b (by rwa [freeBlocks_update hx blk] at hb)

/-- `balloc` taking a free block, given to an inode. -/
theorem Held.alloc {s : FsState} {own : ℕ → Option (ℕ × Part)} (hH : Held s own) {f : ℕ}
    (hf : f ∈ freeBlocks s) (y : ℕ × Part) :
    Held (allocState s f) (Function.update own f (some y)) ∧
      freeBlocks (allocState s f) = (freeBlocks s).erase f := by
  have hstart := hH.free f hf
  have hbm : ∀ c < s.sb.size.toNat, f ≠ bblock s.sb c := fun c hc => ne_bblock (.inr hstart) hc
  have hfs : f < s.sb.size.toNat := by
    simp only [freeBlocks, Finset.mem_filter, Finset.mem_range] at hf
    exact hf.1
  refine ⟨⟨fun b y' hb => ?_, fun b hb => ?_⟩, freeBlocks_allocState hbm⟩
  · by_cases hbf : b = f
    · subst hbf
      exact ⟨hstart, hfs, by rw [inUse_allocState hbm hfs]; simp⟩
    · rw [Function.update_of_ne hbf] at hb
      obtain ⟨h₁, h₂, h₃⟩ := hH.held b y' hb
      exact ⟨h₁, h₂, by rw [inUse_allocState hbm h₂, h₃, Bool.or_true]⟩
  · rw [freeBlocks_allocState hbm] at hb
    exact hH.free b (Finset.mem_of_mem_erase hb)

/-- `balloc` writes no block an inode holds. -/
theorem Held.allocState_disk {s : FsState} {own : ℕ → Option (ℕ × Part)} (hH : Held s own)
    {f : ℕ} (hf : f ∈ freeBlocks s) {b : ℕ} {y : ℕ × Part} (hb : own b = some y) :
    (allocState s f).disk b = s.disk b := by
  obtain ⟨h₁, h₂, -⟩ := hH.held b y hb
  have hbf : b ≠ f := by
    rintro rfl
    rw [hH.not_held hf] at hb
    cases hb
  simp only [allocState, Function.update_of_ne hbf, Function.update_of_ne (ne_bblock (.inr h₁)
    (show f < s.sb.size.toNat from (Finset.mem_range.mp (Finset.mem_filter.mp hf).1)))]


@[simp]
theorem allocState_sb (s : FsState) (f : ℕ) : (allocState s f).sb = s.sb := rfl

@[simp]
theorem allocState_icache (s : FsState) (f : ℕ) : (allocState s f).icache = s.icache := rfl

/-- `balloc` zeroes the block it takes. -/
theorem allocState_disk_self (s : FsState) (f : ℕ) : (allocState s f).disk f = zeroBlock :=
  Function.update_self _ _ _

theorem lt_of_mem_freeBlocks {s : FsState} {f : ℕ} (hf : f ∈ freeBlocks s) :
    f < s.sb.size.toNat :=
  Finset.mem_range.mp (Finset.mem_filter.mp hf).1

/-- A free block has a block number `balloc` can return. -/
theorem lt_two_pow_of_mem_freeBlocks {s : FsState} {f : ℕ} (hf : f ∈ freeBlocks s) :
    f < 2 ^ 32 :=
  lt_trans (lt_of_mem_freeBlocks hf) (UInt32.toNat_lt _)

theorem held_of_le {nb : ℕ} (h : nb ≤ nDirect) : held nb = nb := by
  simp [held, show ¬ nDirect < nb by omega]

theorem held_of_gt {nb : ℕ} (h : nDirect < nb) : held nb = nb + 1 := by
  simp [held, h]

/-- The file of entry `ip` of `icache` has its first `nb` blocks, where `bmap` finds them and
held by it; the bitmap agrees with the blocks held, and the inode's own block lies before the
bitmap. -/
structure FileOk (s : FsState) (own : ℕ → Option (ℕ × Part)) (ip : Fin nInode) (nb : ℕ) :
    Prop where
  laid : Laid s.disk own (s.icache ip).inum.toNat (s.icache ip).din nb
  held : Held s own
  inode : iblock s.sb (s.icache ip).inum.toNat < s.sb.bmapstart.toNat

variable {s : FsState} {own : ℕ → Option (ℕ × Part)} {ip : Fin nInode} {nb : ℕ}

/-- A block of the file is a data block. -/
theorem FileOk.dataStart_le (hok : FileOk s own ip nb) {bn : ℕ} (h : bn < nb) :
    dataStart s.sb ≤ blockAddr s.disk (s.icache ip).din bn :=
  (hok.held.held _ _ (hok.laid.data bn h)).1

/-- A block of the file is there. -/
theorem FileOk.blockAddr_ne_zero (hok : FileOk s own ip nb) {bn : ℕ} (h : bn < nb) :
    blockAddr s.disk (s.icache ip).din bn ≠ 0 := by
  have h₁ := hok.dataStart_le h
  have h₂ : 0 < dataStart s.sb := Nat.succ_pos _
  omega

/-- `balloc` taking a free block keeps the file and its bytes. -/
theorem FileOk.alloc (hok : FileOk s own ip nb) {f : ℕ} (hf : f ∈ freeBlocks s) :
    Laid (allocState s f).disk own (s.icache ip).inum.toNat (s.icache ip).din nb ∧
      ∀ j < nb * bSize, fileByte (allocState s f).disk (s.icache ip).din j =
        fileByte s.disk (s.icache ip).din j :=
  hok.laid.frame (fun _ _ h => h) fun _ _ hb => hok.held.allocState_disk hf hb

/-- A byte read through the same block, of the same disk. -/
theorem fileByte_of_blockAddr {disk disk' : ℕ → Block} {d d' : DInode} {j : ℕ}
    (h : blockAddr disk' d' (j / bSize) = blockAddr disk d (j / bSize))
    (hb : disk' (blockAddr disk d (j / bSize)) = disk (blockAddr disk d (j / bSize))) :
    fileByte disk' d' j = fileByte disk d j := by
  simp only [fileByte, h, hb]

/-- What `bmap` leaves when it returns block `bn` of a file of `nb` blocks: the file with that
block too, the bytes of its blocks kept, a new block zeroed, the inode changed in its addresses
only, and one free block used for each block the file holds more. -/
structure Bmapped (s : FsState) (ip : Fin nInode) (nb bn : ℕ) (s' : FsState)
    (own' : ℕ → Option (ℕ × Part)) : Prop where
  ok : FileOk s' own' ip (max nb (bn + 1))
  kept : ∀ j < nb * bSize,
    fileByte s'.disk (s'.icache ip).din j = fileByte s.disk (s.icache ip).din j
  fresh : nb ≤ bn → s'.disk (blockAddr s'.disk (s'.icache ip).din bn) = zeroBlock
  addrs : s'.icache ip =
    { s.icache ip with din := { (s.icache ip).din with addrs := (s'.icache ip).din.addrs } }
  sb : s'.sb = s.sb
  count : (freeBlocks s').card + held (max nb (bn + 1)) = (freeBlocks s).card + held nb

/-- `bmap` of a block the file has. -/
theorem run_bmap_held (hok : FileOk s own ip nb) {bn : ℕ} (hbn : bn < nb) :
    (bmap ip bn).run s = .ok (UInt32.ofNat (blockAddr s.disk (s.icache ip).din bn), s) ∧
      Bmapped s ip nb bn s own := by
  have hmax : max nb (bn + 1) = nb := max_eq_left hbn
  refine ⟨run_bmap_mapped s ip (lt_of_lt_of_le hbn hok.laid.bound) (hok.blockAddr_ne_zero hbn),
    ⟨by rw [hmax]; exact hok, fun _ _ => rfl, fun h => absurd h (by omega), rfl, rfl, by rw [hmax]⟩⟩

/-- `bmap` of the next block of a file of fewer than `NDIRECT` blocks: `balloc` gives it, and it
becomes a direct address. -/
theorem run_bmap_direct (hok : FileOk s own ip nb) (hd : nb < nDirect)
    (hfree : (freeBlocks s).Nonempty) :
    ∃ s' own', (bmap ip nb).run s =
      .ok (UInt32.ofNat (blockAddr s'.disk (s'.icache ip).din nb), s') ∧ Bmapped s ip nb nb s' own' := by
  obtain ⟨f, hf, hrun⟩ := exists_run_balloc s hfree
  obtain ⟨hH, hfree'⟩ := hok.held.alloc hf ((s.icache ip).inum.toNat, .data nb)
  obtain ⟨hL, hbytes⟩ := hok.alloc hf
  obtain ⟨hL', hnew, hkept⟩ := hL.setAddr_direct hd (hok.held.not_held hf)
    (lt_two_pow_of_mem_freeBlocks hf)
  have hmax : max nb (nb + 1) = nb + 1 := max_eq_right (Nat.le_succ nb)
  refine ⟨{ allocState s f with icache := (Function.update s.icache ip
      { s.icache ip with din := (s.icache ip).din.setAddr nb (UInt32.ofNat f) }) }, _, ?_,
    ⟨⟨?_, hH.icache _, ?_⟩, fun j hj => ?_, fun _ => ?_, ?_, rfl, ?_⟩⟩
  · rw [run_bmap_alloc s ip hd (hok.laid.direct nb le_rfl hd) hrun]
    simp only [Function.update_self, hnew, allocState_icache]
  · simp only [Function.update_self]
    rw [hmax]
    exact hL'
  · simpa using hok.inode
  · -- a byte of an old block: read through the same address, of a block `balloc` kept
    simp only [Function.update_self]
    rw [fileByte_of_blockAddr (hkept _ (Nat.div_lt_of_lt_mul (by rwa [Nat.mul_comm]))) rfl]
    exact hbytes j hj
  · simp only [Function.update_self, hnew]
    exact allocState_disk_self s f
  · simp only [Function.update_self]
    rfl
  · have hcard := Finset.card_erase_of_mem hf
    have hpos := Finset.card_pos.mpr ⟨f, hf⟩
    show (freeBlocks (allocState s f)).card + _ = _
    rw [hfree', hcard, hmax, held_of_le hd, held_of_le hd.le]
    omega


/-- `bmap` of a block past the direct ones whose entry in the indirect block is not set:
`balloc` gives a block, and it is entered there. -/
theorem run_bmap_entry (s : FsState) (ip : Fin nInode) {bn : ℕ} (hd : ¬ bn < nDirect)
    (hi : bn - nDirect < nIndirect) (hind : (s.icache ip).din.addr nDirect ≠ 0)
    (hent : wordAt (s.disk ((s.icache ip).din.addr nDirect).toNat) (bn - nDirect) = 0)
    {a : UInt32} {s' : FsState} (hb : balloc.run s = .ok (a, s')) :
    (bmap ip bn).run s = .ok (a, { s' with disk := (Function.update s'.disk
      ((s.icache ip).din.addr nDirect).toNat
      (setWordAt (s'.disk ((s.icache ip).din.addr nDirect).toNat) (bn - nDirect) a)) }) := by
  unfold bmap
  rw [if_neg hd, if_pos hi, StateT.run_bind, run_getInode, StateExcept.ok_bind]
  dsimp only
  rw [if_neg hind]
  simp only [pure_bind]
  rw [StateT.run_bind, run_readBlock, StateExcept.ok_bind]
  dsimp only
  rw [if_pos hent, StateT.run_bind, hb, StateExcept.ok_bind, StateT.run_bind, run_readBlock,
    StateExcept.ok_bind, StateT.run_bind, run_writeBlock, StateExcept.ok_bind]
  rfl

/-- `bmap` of a block past the direct ones of an inode with no indirect block: `balloc` gives
the indirect block, set in the cache, and then the block, entered in the indirect block. -/
theorem run_bmap_indirect (s : FsState) (ip : Fin nInode) {bn : ℕ} (hd : ¬ bn < nDirect)
    (hi : bn - nDirect < nIndirect) (hind : (s.icache ip).din.addr nDirect = 0)
    {a₁ : UInt32} {s₁ : FsState} (hb₁ : balloc.run s = .ok (a₁, s₁))
    (hent : wordAt (s₁.disk a₁.toNat) (bn - nDirect) = 0) {a₂ : UInt32} {s₂ : FsState}
    (hb₂ : balloc.run { s₁ with icache := (Function.update s₁.icache ip
      { s₁.icache ip with din := (s₁.icache ip).din.setAddr nDirect a₁ }) } = .ok (a₂, s₂)) :
    (bmap ip bn).run s = .ok (a₂, { s₂ with disk := (Function.update s₂.disk a₁.toNat
      (setWordAt (s₂.disk a₁.toNat) (bn - nDirect) a₂)) }) := by
  unfold bmap
  rw [if_neg hd, if_pos hi, StateT.run_bind, run_getInode, StateExcept.ok_bind]
  dsimp only
  rw [if_pos hind]
  simp only [pure_bind]
  rw [StateT.run_bind, hb₁, StateExcept.ok_bind, StateT.run_bind, run_modifyInode,
    StateExcept.ok_bind]
  dsimp only
  rw [StateT.run_bind, run_readBlock, StateExcept.ok_bind]
  dsimp only
  rw [if_pos hent, StateT.run_bind, hb₂, StateExcept.ok_bind, StateT.run_bind, run_readBlock,
    StateExcept.ok_bind, StateT.run_bind, run_writeBlock, StateExcept.ok_bind]
  rfl

/-- Past `NDIRECT` blocks a file has its indirect block, a data block. -/
theorem FileOk.dataStart_le_indirect (hok : FileOk s own ip nb) (hd : nDirect < nb) :
    dataStart s.sb ≤ ((s.icache ip).din.addr nDirect).toNat :=
  (hok.held.held _ _ (hok.laid.indirect hd)).1

theorem FileOk.indirect_ne_zero (hok : FileOk s own ip nb) (hd : nDirect < nb) :
    (s.icache ip).din.addr nDirect ≠ 0 := by
  intro h
  have h₁ := hok.dataStart_le_indirect hd
  rw [h, UInt32.toNat_zero] at h₁
  exact absurd h₁ (Nat.not_le.mpr (Nat.succ_pos _))

/-- `bmap` of the next block of a file past `NDIRECT` blocks: `balloc` gives it, and it is
entered in the indirect block. -/
theorem run_bmap_next_entry (hok : FileOk s own ip nb) (hd : nDirect < nb) (hnb : nb < maxFile)
    (hfree : (freeBlocks s).Nonempty) :
    ∃ s' own', (bmap ip nb).run s =
      .ok (UInt32.ofNat (blockAddr s'.disk (s'.icache ip).din nb), s') ∧ Bmapped s ip nb nb s' own' := by
  obtain ⟨f, hf, hrun⟩ := exists_run_balloc s hfree
  have hindown := hok.laid.indirect hd
  have hind0 := hok.indirect_ne_zero hd
  have hent : wordAt (s.disk ((s.icache ip).din.addr nDirect).toNat) (nb - nDirect) = 0 := by
    have h := hok.laid.entries hd nb le_rfl hnb
    simp only [blockAddr, show ¬ nb < nDirect by omega, hind0, if_false] at h
    exact UInt32.toNat_inj.mp (by simpa using h)
  have hi : nb - nDirect < nIndirect := by
    simp only [maxFile] at hnb
    omega
  obtain ⟨hH, hfree'⟩ := hok.held.alloc hf ((s.icache ip).inum.toNat, .data nb)
  obtain ⟨hL, hbytes⟩ := hok.alloc hf
  obtain ⟨hL', hnew, hkept⟩ := hL.setEntry hd hnb hind0 (hok.held.not_held hf)
    (lt_two_pow_of_mem_freeBlocks hf)
  have hstart := hok.dataStart_le_indirect hd
  -- the new block is not the indirect block, which the file holds
  have hfind : f ≠ ((s.icache ip).din.addr nDirect).toNat :=
    (ne_of_held_of_none (hok.held.not_held hf) hindown).symm
  have hmax : max nb (nb + 1) = nb + 1 := max_eq_right (Nat.le_succ nb)
  refine ⟨{ allocState s f with disk := (Function.update (allocState s f).disk
      ((s.icache ip).din.addr nDirect).toNat (setWordAt ((allocState s f).disk
        ((s.icache ip).din.addr nDirect).toNat) (nb - nDirect) (UInt32.ofNat f))) }, _, ?_,
    ⟨⟨?_, hH.update (.inr hstart) _, ?_⟩, fun j hj => ?_, fun _ => ?_, rfl, rfl, ?_⟩⟩
  · rw [run_bmap_entry s ip (by omega) hi hind0 hent hrun]
    simp only [allocState_icache, hnew]
  · simp only [allocState_icache]
    rw [hmax]
    exact hL'
  · simpa using hok.inode
  · -- a byte of an old block: read through the same address, of a block no write touched
    have hbn : j / bSize < nb := Nat.div_lt_of_lt_mul (by rwa [Nat.mul_comm])
    have hne : blockAddr (allocState s f).disk (s.icache ip).din (j / bSize) ≠
        ((s.icache ip).din.addr nDirect).toNat := by
      intro h
      have h₁ := hL.data _ hbn
      rw [h, hindown] at h₁
      cases h₁
    simp only [allocState_icache]
    rw [fileByte_of_blockAddr (hkept _ hbn) (Function.update_of_ne hne _ _)]
    exact hbytes j hj
  · simp only [allocState_icache, hnew]
    rw [Function.update_of_ne hfind]
    exact allocState_disk_self s f
  · have hcard := Finset.card_erase_of_mem hf
    have hpos := Finset.card_pos.mpr ⟨f, hf⟩
    rw [freeBlocks_update (s := allocState s f) (.inr hstart), hfree', hcard, hmax, held_of_gt (by omega : nDirect < nb + 1),
      held_of_gt hd]
    omega

/-- `bmap` of the first block past the direct ones: `balloc` gives the indirect block, set in
the cache, and then the block, entered first in the indirect block. -/
theorem run_bmap_first_indirect (hok : FileOk s own ip nDirect)
    (hfree : 2 ≤ (freeBlocks s).card) :
    ∃ s' own', (bmap ip nDirect).run s =
      .ok (UInt32.ofNat (blockAddr s'.disk (s'.icache ip).din nDirect), s') ∧
      Bmapped s ip nDirect nDirect s' own' := by
  obtain ⟨f₁, hf₁, hrun₁⟩ := exists_run_balloc s (Finset.card_pos.mp (by omega))
  obtain ⟨hH₁, hfree₁⟩ := hok.held.alloc hf₁ ((s.icache ip).inum.toNat, .indirect)
  have hw₁ := lt_two_pow_of_mem_freeBlocks hf₁
  have hfb₁ : (UInt32.ofNat f₁).toNat = f₁ := UInt32.toNat_ofNat_of_lt' hw₁
  have hstart₁ := hok.held.free f₁ hf₁
  -- the state once the indirect block is set in the cache
  set s₁ : FsState := { allocState s f₁ with icache := (Function.update s.icache ip
    { s.icache ip with din := (s.icache ip).din.setAddr nDirect (UInt32.ofNat f₁) }) }
  have hfree₁' : freeBlocks s₁ = (freeBlocks s).erase f₁ := hfree₁
  have hic₁ : s₁.icache ip =
      { s.icache ip with din := (s.icache ip).din.setAddr nDirect (UInt32.ofNat f₁) } :=
    Function.update_self _ _ _
  have hcard₁ := Finset.card_erase_of_mem hf₁
  obtain ⟨f₂, hf₂, hrun₂⟩ := exists_run_balloc s₁ (Finset.card_pos.mp (by
    rw [hfree₁', hcard₁]
    omega))
  rw [hfree₁'] at hf₂
  have h12 : f₁ ≠ f₂ := (Finset.ne_of_mem_erase hf₂).symm
  have hf₂s : f₂ ∈ freeBlocks s := Finset.mem_of_mem_erase hf₂
  obtain ⟨hH₂, hfree₂⟩ := (hH₁.icache s₁.icache).alloc (hfree₁' ▸ hf₂)
    ((s.icache ip).inum.toNat, .data nDirect)
  -- the indirect block is still zero after the second `balloc`
  have hz : (allocState s₁ f₂).disk f₁ = zeroBlock := by
    have hbb : f₁ ≠ bblock s₁.sb f₂ := ne_bblock (.inr hstart₁) (lt_of_mem_freeBlocks hf₂s)
    simp only [allocState, Function.update_of_ne h12, Function.update_of_ne hbb]
    exact allocState_disk_self s f₁
  have hent : wordAt (s₁.disk (UInt32.ofNat f₁).toNat) (nDirect - nDirect) = 0 := by
    rw [hfb₁, Nat.sub_self]
    show wordAt ((allocState s f₁).disk f₁) 0 = 0
    rw [allocState_disk_self, wordAt_zeroBlock]
  -- the blocks of the file are kept by both `balloc`s
  have hkeep : ∀ b q, own b = some ((s.icache ip).inum.toNat, q) →
      (allocState s₁ f₂).disk b = s.disk b := by
    intro b q hb
    have hb₁ : Function.update own f₁ (some ((s.icache ip).inum.toNat, .indirect)) b =
        some ((s.icache ip).inum.toNat, q) := by
      rw [Function.update_of_ne (ne_of_held_of_none (hok.held.not_held hf₁) hb)]
      exact hb
    rw [(hH₁.icache s₁.icache).allocState_disk (hfree₁' ▸ hf₂) hb₁]
    exact hok.held.allocState_disk hf₁ hb
  obtain ⟨hL, hbytes⟩ := hok.laid.frame (fun _ _ h => h) hkeep
  obtain ⟨hL', hnew, hkept⟩ := hL.setIndirect (hok.held.not_held hf₁) (hok.held.not_held hf₂s)
    h12 (by have := Nat.succ_pos (s.sb.bmapstart.toNat + s.sb.size.toNat / bpb); unfold dataStart at hstart₁; omega)
    hw₁ (lt_two_pow_of_mem_freeBlocks hf₂s)
  have hmax : max nDirect (nDirect + 1) = nDirect + 1 := max_eq_right (Nat.le_succ _)
  refine ⟨{ allocState s₁ f₂ with disk := (Function.update (allocState s₁ f₂).disk f₁
      (setWordAt zeroBlock 0 (UInt32.ofNat f₂))) }, _, ?_,
    ⟨⟨?_, hH₂.update (.inr hstart₁) _, ?_⟩, fun j hj => ?_, fun _ => ?_, ?_, rfl, ?_⟩⟩
  · rw [run_bmap_indirect s ip (lt_irrefl _) (by simp [nIndirect, bSize])
      (hok.laid.noIndirect le_rfl) hrun₁ hent hrun₂, hfb₁, hz, Nat.sub_self]
    simp only [allocState_icache, hic₁, hnew]
  · simp only [allocState_icache, hic₁]
    rw [hmax]
    exact hL'
  · simp only [allocState_icache, allocState_sb, hic₁]
    exact hok.inode
  · -- a byte of a direct block: read through the same address, of a block no write touched
    have hbn : j / bSize < nDirect := Nat.div_lt_of_lt_mul (by rwa [Nat.mul_comm])
    have hne : blockAddr (allocState s₁ f₂).disk (s.icache ip).din (j / bSize) ≠ f₁ :=
      ne_of_held_of_none (hok.held.not_held hf₁) (hL.data _ hbn)
    simp only [allocState_icache, hic₁]
    rw [fileByte_of_blockAddr (hkept _ hbn) (Function.update_of_ne hne _ _)]
    exact hbytes j hj
  · simp only [allocState_icache, hic₁, hnew]
    rw [Function.update_of_ne h12.symm]
    exact allocState_disk_self s₁ f₂
  · simp only [allocState_icache, hic₁]
    rfl
  · have hcard₂ := Finset.card_erase_of_mem hf₂
    rw [freeBlocks_update (s := allocState s₁ f₂) (.inr hstart₁), hfree₂, hfree₁', hcard₂, hcard₁,
      hmax, held_of_gt (Nat.lt_succ_self _), held_of_le le_rfl]
    omega

/-- `bmap` of block `bn ≤ nb` of a file of `nb` blocks, with a free block for each block the
file comes to hold more: one for a data block, and one more for the indirect block. -/
theorem run_bmap_spec (hok : FileOk s own ip nb) {bn : ℕ} (hbn : bn ≤ nb) (hmax : bn < maxFile)
    (hfree : held (bn + 1) - held nb ≤ (freeBlocks s).card) :
    ∃ s' own', (bmap ip bn).run s =
      .ok (UInt32.ofNat (blockAddr s'.disk (s'.icache ip).din bn), s') ∧ Bmapped s ip nb bn s' own' := by
  rcases Nat.lt_or_eq_of_le hbn with hlt | rfl
  · exact ⟨s, own, run_bmap_held hok hlt⟩
  · -- the next block: a direct one, the first past them, or an entry of the indirect block
    rcases lt_trichotomy bn nDirect with hd | rfl | hd
    · rw [held_of_le hd, held_of_le hd.le] at hfree
      exact run_bmap_direct hok hd (Finset.card_pos.mp (by omega))
    · rw [held_of_gt (Nat.lt_succ_self _), held_of_le le_rfl] at hfree
      exact run_bmap_first_indirect hok (by omega)
    · rw [held_of_gt (by omega : nDirect < bn + 1), held_of_gt hd] at hfree
      exact run_bmap_next_entry hok hd hmax (Finset.card_pos.mp (by omega))

/-! ## The copy loop of `writei` -/

theorem held_mono {a b : ℕ} (h : a ≤ b) : held a ≤ held b := by
  simp only [held]
  split_ifs <;> omega

theorem blocksOf_mono {a b : ℕ} (h : a ≤ b) : blocksOf a ≤ blocksOf b :=
  Nat.div_le_div_right (by omega)

/-- `blockAddr` reads the disk at the indirect block only, and only when there is one. -/
theorem blockAddr_update_of_ne {disk : ℕ → Block} {d : DInode} {x : ℕ}
    (hx : d.addr nDirect ≠ 0 → x ≠ (d.addr nDirect).toNat) (blk : Block) (bn : ℕ) :
    blockAddr (Function.update disk x blk) d bn = blockAddr disk d bn := by
  by_cases h0 : d.addr nDirect = 0
  · simp [blockAddr, h0]
  · exact blockAddr_update disk d (hx h0) blk bn

/-- A write to a block outside the bitmap that is not the indirect block keeps the file where
it is. -/
theorem FileOk.update (hok : FileOk s own ip nb) {x : ℕ}
    (hx : x < s.sb.bmapstart.toNat ∨ dataStart s.sb ≤ x)
    (hind : nDirect < nb → x ≠ ((s.icache ip).din.addr nDirect).toNat) (blk : Block) :
    FileOk { s with disk := Function.update s.disk x blk } own ip nb ∧
      ∀ bn, blockAddr (Function.update s.disk x blk) (s.icache ip).din bn =
        blockAddr s.disk (s.icache ip).din bn := by
  have haddr := @blockAddr_update_of_ne s.disk (s.icache ip).din x
    (fun h0 => hind (by
      by_contra hnb
      exact h0 (hok.laid.noIndirect (by omega)))) blk
  exact ⟨⟨hok.laid.of_blockAddr haddr, hok.held.update hx blk, hok.inode⟩, haddr⟩

/-- Distinct blocks of the file lie apart. -/
theorem FileOk.blockAddr_inj (hok : FileOk s own ip nb) {bn bn' : ℕ} (h : bn < nb) (h' : bn' < nb)
    (heq : blockAddr s.disk (s.icache ip).din bn = blockAddr s.disk (s.icache ip).din bn') :
    bn = bn' := by
  have h₁ := hok.laid.data bn h
  rw [heq, hok.laid.data bn' h'] at h₁
  cases h₁
  rfl

/-- A data block of the file is not its indirect block. -/
theorem FileOk.blockAddr_ne_indirect (hok : FileOk s own ip nb) {bn : ℕ} (h : bn < nb)
    (hd : nDirect < nb) :
    blockAddr s.disk (s.icache ip).din bn ≠ ((s.icache ip).din.addr nDirect).toNat := by
  intro heq
  have h₁ := hok.laid.data bn h
  rw [heq, hok.laid.indirect hd] at h₁
  cases h₁

/-- Writing block `bn` of the file: the file stays, and only the bytes of that block change. -/
theorem FileOk.update_data (hok : FileOk s own ip nb) {bn : ℕ} (hbn : bn < nb) (blk : Block) :
    FileOk { s with disk := Function.update s.disk (blockAddr s.disk (s.icache ip).din bn) blk }
      own ip nb ∧
    ∀ j < nb * bSize, fileByte (Function.update s.disk (blockAddr s.disk (s.icache ip).din bn) blk)
      (s.icache ip).din j = if j / bSize = bn then byteAt blk (j % bSize)
        else fileByte s.disk (s.icache ip).din j := by
  obtain ⟨hok', haddr⟩ := hok.update (.inr (hok.dataStart_le hbn))
    (hok.blockAddr_ne_indirect hbn) blk
  refine ⟨hok', fun j hj => ?_⟩
  have hjn : j / bSize < nb := Nat.div_lt_of_lt_mul (by rwa [Nat.mul_comm])
  simp only [fileByte, haddr]
  by_cases hjb : j / bSize = bn
  · rw [if_pos hjb, hjb, Function.update_self]
  · rw [if_neg hjb, Function.update_of_ne fun h => hjb (hok.blockAddr_inj hjn hbn h)]

/-- What the copy loop of `writei` leaves when it copies the `k` bytes of `src` from byte `i`
on to offset `off` of a file of `nb` blocks: the file grown to the end of the copy, the bytes
copied in place and the others kept, the inode changed in its addresses only, and one free
block used for each block the file holds more. -/
structure Copied (s : FsState) (ip : Fin nInode) (src : List UInt8) (i off k nb : ℕ)
    (s' : FsState) (own' : ℕ → Option (ℕ × Part)) : Prop where
  ok : FileOk s' own' ip (max nb (blocksOf (off + k)))
  bytes : ∀ j < max (nb * bSize) (off + k), fileByte s'.disk (s'.icache ip).din j =
    if off ≤ j ∧ j < off + k then src.getD (i + (j - off)) 0
    else fileByte s.disk (s.icache ip).din j
  addrs : s'.icache ip =
    { s.icache ip with din := { (s.icache ip).din with addrs := (s'.icache ip).din.addrs } }
  sb : s'.sb = s.sb
  count : (freeBlocks s').card + held (max nb (blocksOf (off + k))) =
    (freeBlocks s).card + held nb

/-- Nothing copied. -/
theorem Copied.refl (hok : FileOk s own ip nb) (src : List UInt8) (i : ℕ) {off : ℕ}
    (hoff : off ≤ nb * bSize) : Copied s ip src i off 0 nb s own := by
  have hnb : max nb (blocksOf (off + 0)) = nb :=
    max_eq_left (by simp only [blocksOf, bSize] at hoff ⊢; omega)
  refine ⟨by rw [hnb]; exact hok, fun j _ => ?_, rfl, rfl, by rw [hnb]⟩
  rw [if_neg (by omega)]

/-- Two copies one after the other. -/
theorem Copied.trans {src : List UInt8} {i off m k : ℕ} {s₁ s₂ : FsState}
    {own₁ own₂ : ℕ → Option (ℕ × Part)} (h₁ : Copied s ip src i off m nb s₁ own₁)
    (h₂ : Copied s₁ ip src (i + m) (off + m) (k - m) (max nb (blocksOf (off + m))) s₂ own₂)
    (hmk : m ≤ k) : Copied s ip src i off k nb s₂ own₂ := by
  have hend : off + m + (k - m) = off + k := by omega
  have hmax : max (max nb (blocksOf (off + m))) (blocksOf (off + m + (k - m))) =
      max nb (blocksOf (off + k)) := by
    rw [hend, max_assoc, max_eq_right (blocksOf_mono (by omega : off + m ≤ off + k))]
  refine ⟨hmax ▸ h₂.ok, fun j hj => ?_, ?_, h₂.sb.trans h₁.sb, ?_⟩
  · -- a byte of the second copy, or else whatever the first copy left there
    have hle : nb * bSize ≤ max nb (blocksOf (off + m)) * bSize :=
      Nat.mul_le_mul_right _ (le_max_left _ _)
    rw [h₂.bytes j (by rw [hend]; omega)]
    by_cases hj₂ : off + m ≤ j ∧ j < off + m + (k - m)
    · rw [if_pos hj₂, if_pos (by omega)]
      congr 1
      omega
    · rw [if_neg hj₂, h₁.bytes j (by omega)]
      by_cases hj₁ : off ≤ j ∧ j < off + m
      · rw [if_pos hj₁, if_pos (by omega)]
      · rw [if_neg hj₁, if_neg (by omega)]
  · calc s₂.icache ip = { s₁.icache ip with din :=
          { (s₁.icache ip).din with addrs := (s₂.icache ip).din.addrs } } := h₂.addrs
      _ = _ := by rw [h₁.addrs]
  · have h₂c := h₂.count
    rw [hmax] at h₂c
    have h₁c := h₁.count
    omega

/-- The bytes of a pass of the copy loops: to the end of the request or of the block. -/
theorem toNat_passLen {n tot off : UInt32} (htot : tot ≤ n) :
    (min (n - tot) (UInt32.ofNat bSize - off % UInt32.ofNat bSize)).toNat =
      min (n.toNat - tot.toNat) (bSize - off.toNat % bSize) := by
  have hmod : (off % UInt32.ofNat bSize).toNat = off.toNat % bSize := UInt32.toNat_mod _ _
  rw [UInt32.toNat_min, UInt32.toNat_sub_of_le _ _ htot, UInt32.toNat_sub_of_le _ _ (by
    rw [UInt32.le_iff_toNat_le, hmod]; exact le_of_lt (Nat.mod_lt _ (by decide))), hmod]
  rfl

/-- Byte `p` of the piece of `src` a pass copies. -/
theorem getD_take_drop {src : List UInt8} {i m p : ℕ} (hp : p < m) :
    ((src.drop i).take m).getD p 0 = src.getD (i + p) 0 := by
  simp [List.getD_eq_getElem?_getD, hp]

/-- One pass of the copy loop of `writei`: `bmap` finds or allocates the block of `off`, and
the pass copies its bytes into it. -/
theorem run_writeiLoop_pass (hok : FileOk s own ip nb) (src : List UInt8) {n tot off : UInt32}
    (hlt : tot < n) (hoff : off.toNat ≤ nb * bSize)
    (hend : off.toNat + (n - tot).toNat ≤ maxFile * bSize) (hsrc : n.toNat ≤ src.length)
    (hfree : held (max nb (blocksOf (off.toNat + (n - tot).toNat))) - held nb ≤
      (freeBlocks s).card) (fuel : ℕ) :
    ∃ s' own', (writeiLoop ip src n (fuel + 1) tot off).run s =
      (writeiLoop ip src n fuel (tot + min (n - tot) (UInt32.ofNat bSize - off % UInt32.ofNat bSize))
        (off + min (n - tot) (UInt32.ofNat bSize - off % UInt32.ofNat bSize))).run s' ∧
      Copied s ip src tot.toNat off.toNat
        (min (n - tot) (UInt32.ofNat bSize - off % UInt32.ofNat bSize)).toNat nb s' own' := by
  have h512 : bSize = 512 := rfl
  have hsub : (n - tot).toNat = n.toNat - tot.toNat := UInt32.toNat_sub_of_le _ _ (UInt32.le_of_lt hlt)
  have hlt' := UInt32.lt_iff_toNat_lt.mp hlt
  set m := min (n - tot) (UInt32.ofNat bSize - off % UInt32.ofNat bSize) with hm
  have hm' : m.toNat = min (n.toNat - tot.toNat) (bSize - off.toNat % bSize) :=
    toNat_passLen (UInt32.le_of_lt hlt)
  have hmpos : 0 < m.toNat := by rw [hm', h512]; omega
  have hbn : (off / UInt32.ofNat bSize).toNat = off.toNat / bSize := UInt32.toNat_div _ _
  have hmod : (off % UInt32.ofNat bSize).toNat = off.toNat % bSize := UInt32.toNat_mod _ _
  -- the pass stays in the block of `off`, the file's next block at most
  have hbnle : off.toNat / bSize ≤ nb := Nat.div_le_of_le_mul (by rwa [Nat.mul_comm])
  have hblocks : blocksOf (off.toNat + m.toNat) = off.toNat / bSize + 1 :=
    blocksOf_add hmpos (by rw [hm', h512]; omega)
  have hbmax : off.toNat / bSize < maxFile :=
    Nat.div_lt_of_lt_mul (by rw [Nat.mul_comm]; omega)
  have hfree' : held (off.toNat / bSize + 1) - held nb ≤ (freeBlocks s).card := by
    refine le_trans (Nat.sub_le_sub_right (held_mono ?_) _) hfree
    rw [← hblocks]
    exact le_trans (blocksOf_mono (by omega)) (le_max_right _ _)
  obtain ⟨s₁, own₁, hrun, hB⟩ := run_bmap_spec hok hbnle hbmax hfree'
  have hnb₁ : off.toNat / bSize < max nb (off.toNat / bSize + 1) :=
    lt_max_of_lt_right (Nat.lt_succ_self _)
  -- the block the pass writes, and what it writes there
  set x := blockAddr s₁.disk (s₁.icache ip).din (off.toNat / bSize) with hx
  set blk := copyAt (s₁.disk x) (off.toNat % bSize) ((src.drop tot.toNat).take m.toNat) with hblk
  obtain ⟨hok₂, hbytes₂⟩ := hB.ok.update_data hnb₁ blk
  refine ⟨{ s₁ with disk := Function.update s₁.disk x blk }, own₁, ?_,
    ⟨?_, fun j hj => ?_, hB.addrs, hB.sb, ?_⟩⟩
  · rw [writeiLoop, if_pos hlt, StateT.run_bind, hbn, hrun, StateExcept.ok_bind]
    dsimp only
    rw [StateT.run_bind, run_readBlock, StateExcept.ok_bind]
    dsimp only
    rw [StateT.run_bind, run_writeBlock, StateExcept.ok_bind,
      UInt32.toNat_ofNat_of_lt' (blockAddr_lt _ _ _), hmod]
  · rw [hblocks]
    exact hok₂
  · -- the byte `j`: copied when the pass reaches it, else as `bmap` left it
    have hq : ((src.drop tot.toNat).take m.toNat).length = m.toNat := by
      simp only [List.length_take, List.length_drop]
      omega
    have hm512 : m.toNat ≤ bSize - off.toNat % bSize := by rw [hm']; exact min_le_right _ _
    -- the bytes of the pass are those of the block of `off` from `off % BSIZE` on
    have hin_iff : j / bSize = off.toNat / bSize → (off.toNat ≤ j ∧ j < off.toNat + m.toNat ↔
        j % bSize < bSize ∧ off.toNat % bSize ≤ j % bSize ∧
          j % bSize < off.toNat % bSize + m.toNat) := by
      rw [h512] at hm512 ⊢
      omega
    have hblock : off.toNat ≤ j → j < off.toNat + m.toNat → j / bSize = off.toNat / bSize := by
      rw [h512] at hm512 ⊢
      omega
    have hjnb : ¬ (off.toNat ≤ j ∧ j < off.toNat + m.toNat) → j < nb * bSize := by
      intro hout
      rcases lt_max_iff.mp hj with h | h
      · exact h
      · omega
    have hj' : j < max nb (off.toNat / bSize + 1) * bSize := by
      rcases lt_max_iff.mp hj with h | h
      · exact lt_of_lt_of_le h (Nat.mul_le_mul_right _ (le_max_left _ _))
      · refine lt_of_lt_of_le ?_ (Nat.mul_le_mul_right _ (le_max_right _ _))
        rw [h512] at hm512 ⊢
        omega
    rw [hbytes₂ j hj']
    by_cases hjb : j / bSize = off.toNat / bSize
    · rw [if_pos hjb, hblk, byteAt_copyAt, hq]
      by_cases hin : off.toNat ≤ j ∧ j < off.toNat + m.toNat
      · have hoffj : j % bSize - off.toNat % bSize = j - off.toNat := by
          rw [h512] at hjb ⊢
          omega
        rw [if_pos ((hin_iff hjb).mp hin), if_pos hin, getD_take_drop (by omega), hoffj]
      · rw [if_neg (fun h => hin ((hin_iff hjb).mpr h)), if_neg hin, ← hB.kept j (hjnb hin)]
        simp only [fileByte, hjb, hx]
    · have hout : ¬ (off.toNat ≤ j ∧ j < off.toNat + m.toNat) := fun h => hjb (hblock h.1 h.2)
      rw [if_neg hjb, if_neg hout, hB.kept j (hjnb hout)]
  · rw [freeBlocks_update (s := s₁) (.inr (hB.ok.dataStart_le hnb₁)), hblocks]
    exact hB.count

/-- The copy loop of `writei` copies the `n - tot` bytes of `src` from `tot` on to `off`, with
a free block for each block the file comes to hold more. -/
theorem run_writeiLoop_spec (src : List UInt8) {n : UInt32} (hsrc : n.toNat ≤ src.length) :
    ∀ {fuel : ℕ} {tot off : UInt32} {s : FsState} {own : ℕ → Option (ℕ × Part)} {nb : ℕ},
    FileOk s own ip nb → tot ≤ n → (n - tot).toNat < fuel → off.toNat ≤ nb * bSize →
    off.toNat + (n - tot).toNat ≤ maxFile * bSize →
    held (max nb (blocksOf (off.toNat + (n - tot).toNat))) - held nb ≤ (freeBlocks s).card →
    ∃ s' own', (writeiLoop ip src n fuel tot off).run s = .ok (off + (n - tot), s') ∧
      Copied s ip src tot.toNat off.toNat (n - tot).toNat nb s' own' := by
  -- induction on the fuel, one pass a turn, from any count copied, offset and state
  intro fuel
  induction fuel with
  | zero => intro _ _ _ _ _ _ _ hfuel; omega
  | succ fuel ih =>
    intro tot off s own nb hok htot hfuel hoff hend hfree
    by_cases hlt : tot < n
    · obtain ⟨s₁, own₁, hrun, hC₁⟩ := run_writeiLoop_pass hok src hlt hoff hend hsrc hfree fuel
      set m := min (n - tot) (UInt32.ofNat bSize - off % UInt32.ofNat bSize) with hm
      have hm' : m.toNat = min (n.toNat - tot.toNat) (bSize - off.toNat % bSize) :=
        toNat_passLen (UInt32.le_of_lt hlt)
      have hsub : (n - tot).toNat = n.toNat - tot.toNat :=
        UInt32.toNat_sub_of_le _ _ (UInt32.le_of_lt hlt)
      have hlt' := UInt32.lt_iff_toNat_lt.mp hlt
      have hmk : m.toNat ≤ (n - tot).toNat := by rw [hm', hsub]; exact min_le_left _ _
      have hmpos : 0 < m.toNat := by
        rw [hm', show bSize = 512 from rfl]
        omega
      have htot' : (tot + m).toNat = tot.toNat + m.toNat := by
        rw [UInt32.toNat_add]
        exact Nat.mod_eq_of_lt (by have := UInt32.toNat_lt n; omega)
      have hoff' : (off + m).toNat = off.toNat + m.toNat := by
        rw [UInt32.toNat_add]
        exact Nat.mod_eq_of_lt (by have := UInt32.toNat_lt n; simp [maxFile, nDirect, nIndirect, bSize] at hend; omega)
      have hrest : (n - (tot + m)).toNat = (n - tot).toNat - m.toNat := by
        rw [UInt32.toNat_sub_of_le _ _ (by rw [UInt32.le_iff_toNat_le]; omega), htot', hsub]
        omega
      -- the rest of the loop, from the file the pass left
      have hfile : off.toNat + m.toNat ≤ max nb (blocksOf (off.toNat + m.toNat)) * bSize := by
        have := Nat.mul_le_mul_right bSize (le_max_right nb (blocksOf (off.toNat + m.toNat)))
        have hb : off.toNat + m.toNat ≤ blocksOf (off.toNat + m.toNat) * bSize := by
          simp only [blocksOf, bSize]
          omega
        omega
      have hfree₁ : held (max (max nb (blocksOf (off.toNat + m.toNat)))
          (blocksOf (off.toNat + m.toNat + ((n - tot).toNat - m.toNat)))) -
          held (max nb (blocksOf (off.toNat + m.toNat))) ≤ (freeBlocks s₁).card := by
        have hc := hC₁.count
        have hend' : off.toNat + m.toNat + ((n - tot).toNat - m.toNat) = off.toNat + (n - tot).toNat := by omega
        have hmax : max (max nb (blocksOf (off.toNat + m.toNat)))
            (blocksOf (off.toNat + m.toNat + ((n - tot).toNat - m.toNat))) =
            max nb (blocksOf (off.toNat + (n - tot).toNat)) := by
          rw [hend', max_assoc, max_eq_right (blocksOf_mono (by omega))]
        rw [hmax]
        have := held_mono (le_max_left nb (blocksOf (off.toNat + m.toNat)))
        omega
      obtain ⟨s₂, own₂, hrun₂, hC₂⟩ := @ih (tot + m) (off + m) s₁ own₁ _ hC₁.ok
        (by rw [UInt32.le_iff_toNat_le]; omega) (by rw [hrest]; omega) (by rw [hoff']; exact hfile)
        (by rw [hoff', hrest]; omega) (by rw [hoff', hrest]; exact hfree₁)
      rw [htot', hoff', hrest] at hC₂
      refine ⟨s₂, own₂, ?_, hC₁.trans hC₂ hmk⟩
      rw [hrun, hrun₂]
      congr 2
      apply UInt32.toNat_inj.mp
      rw [UInt32.toNat_add (off + m), hoff', hrest, UInt32.toNat_add off]
      congr 1
      omega
    · -- all `n` bytes copied: the loop stops
      have htn : tot = n := UInt32.le_antisymm htot (UInt32.not_lt.mp hlt)
      subst htn
      rw [UInt32.sub_self, UInt32.toNat_zero]
      refine ⟨s, own, ?_, Copied.refl hok src _ hoff⟩
      rw [writeiLoop, if_neg hlt, UInt32.add_zero]
      rfl

/-! ## `readi` of a well-formed file -/

/-- `readi` of a file whose blocks are all there: `-1` from past the end or on an overflow,
and otherwise the bytes from `o` to the end of the request or of the file; nothing changes. -/
theorem run_readi_spec (hok : FileOk s own ip (blocksOf (s.icache ip).din.size.toNat))
    (htype : (s.icache ip).din.type ≠ tDev) (o m : UInt32) :
    (readi ip o m).run s =
      if (s.icache ip).din.size.toNat < o.toNat ∨ 2 ^ 32 ≤ o.toNat + m.toNat then .ok ((-1, []), s)
      else .ok (((UInt32.ofNat (min m.toNat ((s.icache ip).din.size.toNat - o.toNat))).toInt32,
        bytesFrom s.disk (s.icache ip).din o.toNat
          (min m.toNat ((s.icache ip).din.size.toNat - o.toNat))), s) := by
  have hsz := UInt32.toNat_lt (s.icache ip).din.size
  unfold readi
  rw [StateT.run_bind, run_getInode, StateExcept.ok_bind]
  dsimp only
  rw [if_neg htype]
  by_cases hbad : (s.icache ip).din.size.toNat < o.toNat ∨ 2 ^ 32 ≤ o.toNat + m.toNat
  · -- past the end, or `o + m` wraps around
    have hcheck : ((s.icache ip).din.size < o || o + m < o) = true := by
      rcases hbad with h | h
      · simp [UInt32.lt_iff_toNat_lt, h]
      · have hw : o + m < o := by
          rw [UInt32.lt_iff_toNat_lt, UInt32.toNat_add]
          have := UInt32.toNat_lt o
          have := UInt32.toNat_lt m
          omega
        simp [hw]
    rw [if_pos (by simpa using hcheck), if_pos hbad]
    rfl
  · have hle : ¬ (s.icache ip).din.size < o := by
      rw [UInt32.lt_iff_toNat_lt]
      omega
    have hend : (o + m).toNat = o.toNat + m.toNat := by
      rw [UInt32.toNat_add]
      exact Nat.mod_eq_of_lt (by omega)
    have hover : ¬ o + m < o := by
      rw [UInt32.lt_iff_toNat_lt, hend]
      omega
    -- the count: to the end of the request or of the file
    set k := min m.toNat ((s.icache ip).din.size.toNat - o.toNat) with hk
    have hk32 : k < 2 ^ 32 := by
      have := UInt32.toNat_lt m
      omega
    have hn : (if (s.icache ip).din.size < o + m then (s.icache ip).din.size - o else m) =
        UInt32.ofNat k := by
      apply UInt32.toNat_inj.mp
      rw [UInt32.toNat_ofNat_of_lt' hk32]
      split_ifs with h
      · rw [UInt32.lt_iff_toNat_lt, hend] at h
        rw [UInt32.toNat_sub_of_le _ _ (UInt32.le_iff_toNat_le.mpr (by omega))]
        omega
      · rw [UInt32.lt_iff_toNat_lt, hend] at h
        omega
    have hkn : (UInt32.ofNat k).toNat = k := UInt32.toNat_ofNat_of_lt' hk32
    have hmax : (s.icache ip).din.size.toNat ≤ maxFile * bSize := by
      have := hok.laid.bound
      simp only [blocksOf, maxFile, nDirect, nIndirect, bSize] at this ⊢
      omega
    have hloop := @run_readiLoop_mapped s ip (UInt32.ofNat k) (k + 1) 0 o []
      UInt32.zero_le (by simp [hkn]) (by simp [hkn]; omega) (fun j h₁ h₂ => by
        simp only [UInt32.sub_zero, hkn] at h₂
        exact hok.blockAddr_ne_zero (div_lt_blocksOf (by omega)))
    rw [UInt32.sub_zero, hkn, List.nil_append] at hloop
    simp only [gt_iff_lt, hle, hover, decide_false, Bool.false_or, Bool.false_eq_true, if_false,
      hn, hkn, StateT.run_bind, hloop, StateExcept.ok_bind, if_neg hbad]
    rfl

/-! ## `writei` -/

/-- The state once `writei` has set the size of entry `ip` and written the inode back with
`iupdate`. -/
def grownState (s : FsState) (ip : Fin nInode) (size : UInt32) : FsState :=
  { s with
    disk := Function.update s.disk (iblock s.sb (s.icache ip).inum.toNat)
      (setDinodeAt (s.disk (iblock s.sb (s.icache ip).inum.toNat)) ((s.icache ip).inum.toNat % ipb)
        { (s.icache ip).din with size := size })
    icache := Function.update s.icache ip
      { s.icache ip with din := { (s.icache ip).din with size := size } } }

@[simp]
theorem grownState_sb (s : FsState) (ip : Fin nInode) (size : UInt32) :
    (grownState s ip size).sb = s.sb := rfl

theorem grownState_icache (s : FsState) (ip : Fin nInode) (size : UInt32) :
    (grownState s ip size).icache ip =
      { s.icache ip with din := { (s.icache ip).din with size := size } } :=
  Function.update_self _ _ _

/-- Setting the size and writing the inode back keeps the file, and its bytes. -/
theorem FileOk.grown (hok : FileOk s own ip nb) (size : UInt32) :
    FileOk (grownState s ip size) own ip nb ∧
      ∀ j < nb * bSize, fileByte (grownState s ip size).disk ((grownState s ip size).icache ip).din j =
        fileByte s.disk (s.icache ip).din j := by
  -- the inode block lies before the bitmap, and the blocks of the file after it
  have hbefore := lt_trans hok.inode (bmapstart_lt_dataStart s.sb)
  have hind : nDirect < nb → iblock s.sb (s.icache ip).inum.toNat ≠
      ((s.icache ip).din.addr nDirect).toNat := fun hd =>
    Nat.ne_of_lt (lt_of_lt_of_le hbefore (hok.dataStart_le_indirect hd))
  obtain ⟨hok', haddr⟩ := hok.update (.inl hok.inode) hind
    (setDinodeAt (s.disk (iblock s.sb (s.icache ip).inum.toNat)) ((s.icache ip).inum.toNat % ipb)
      { (s.icache ip).din with size := size })
  have hL : Laid (grownState s ip size).disk own ((grownState s ip size).icache ip).inum.toNat
      ((grownState s ip size).icache ip).din nb := by
    rw [grownState_icache]
    exact hok'.laid.of_addrs rfl
  refine ⟨⟨hL, hok'.held.icache _, by rw [grownState_icache]; exact hok.inode⟩, fun j hj => ?_⟩
  have hjn : j / bSize < nb := Nat.div_lt_of_lt_mul (by rwa [Nat.mul_comm])
  rw [grownState_icache]
  exact fileByte_of_blockAddr (haddr _) (Function.update_of_ne
    (Nat.ne_of_gt (lt_of_lt_of_le hbefore (hok.dataStart_le hjn))) _ _)

/-- `writei` of a request its checks refuse: `-1`, and nothing changes. -/
theorem run_writei_reject (s : FsState) (ip : Fin nInode) (src : List UInt8) {off n : UInt32}
    (htype : (s.icache ip).din.type ≠ tDev)
    (hbad : (s.icache ip).din.size.toNat < off.toNat ∨ 2 ^ 32 ≤ off.toNat + n.toNat ∨
      maxFile * bSize < off.toNat + n.toNat) :
    (writei ip src off n).run s = .ok (-1, s) := by
  unfold writei
  rw [StateT.run_bind, run_getInode, StateExcept.ok_bind]
  dsimp only
  rw [if_neg htype]
  by_cases hwrap : (s.icache ip).din.size < off || off + n < off
  · rw [if_pos hwrap]
    rfl
  · rw [if_neg hwrap]
    -- neither past the end nor wrapping around: the request ends past `MAXFILE * BSIZE`
    simp only [Bool.or_eq_true, decide_eq_true_eq, not_or, UInt32.lt_iff_toNat_lt,
      UInt32.toNat_add] at hwrap
    have := UInt32.toNat_lt off
    have := UInt32.toNat_lt n
    have hend : (off.toNat + n.toNat) % 2 ^ 32 = off.toNat + n.toNat := Nat.mod_eq_of_lt (by omega)
    rw [hend] at hwrap
    have hmax : UInt32.ofNat (maxFile * bSize) < off + n := by
      rw [UInt32.lt_iff_toNat_lt, UInt32.toNat_add, hend,
        UInt32.toNat_ofNat_of_lt' (show maxFile * bSize < 2 ^ 32 by decide)]
      omega
    rw [if_pos hmax]
    rfl

/-- `writei` of a request its checks pass: the copy loop, and then, when the file grew, its new
size set and written back. -/
theorem run_writei_accept (s : FsState) (ip : Fin nInode) (src : List UInt8) {off n : UInt32}
    (htype : (s.icache ip).din.type ≠ tDev) (hoff : off.toNat ≤ (s.icache ip).din.size.toNat)
    (hend : off.toNat + n.toNat ≤ maxFile * bSize) {s₁ : FsState}
    (hloop : (writeiLoop ip src n (n.toNat + 1) 0 off).run s = .ok (off + n, s₁))
    (hsize : (s₁.icache ip).din.size = (s.icache ip).din.size) :
    (writei ip src off n).run s = .ok (n.toInt32,
      if 0 < n ∧ (s.icache ip).din.size < off + n then grownState s₁ ip (off + n) else s₁) := by
  have hmf : maxFile * bSize < 2 ^ 32 := by decide
  have hsum : (off + n).toNat = off.toNat + n.toNat := by
    rw [UInt32.toNat_add]
    exact Nat.mod_eq_of_lt (by omega)
  have hle : ¬ (s.icache ip).din.size < off := by
    rw [UInt32.lt_iff_toNat_lt]
    omega
  have hover : ¬ off + n < off := by
    rw [UInt32.lt_iff_toNat_lt, hsum]
    omega
  have hmax : ¬ UInt32.ofNat (maxFile * bSize) < off + n := by
    rw [UInt32.lt_iff_toNat_lt, hsum, UInt32.toNat_ofNat_of_lt' hmf]
    omega
  unfold writei
  rw [StateT.run_bind, run_getInode, StateExcept.ok_bind]
  dsimp only
  rw [if_neg htype]
  simp only [gt_iff_lt, hle, hover, hmax, decide_false, Bool.false_or, Bool.false_eq_true,
    if_false]
  rw [StateT.run_bind, hloop, StateExcept.ok_bind]
  dsimp only
  rw [StateT.run_bind, run_getInode, StateExcept.ok_bind]
  dsimp only
  rw [hsize]
  by_cases hgrow : 0 < n ∧ (s.icache ip).din.size < off + n
  · -- the file grew: its size is set in the cache and written back by `iupdate`
    rw [if_pos (by simpa using hgrow), if_pos hgrow, StateT.run_bind, run_modifyInode,
      StateExcept.ok_bind]
    dsimp only
    rw [StateT.run_bind, run_iupdate, StateExcept.ok_bind]
    simp only [Function.update_self]
    rfl
  · rw [if_neg (by simpa using hgrow), if_neg hgrow]
    rfl

/-- Byte `j` of a file after `n` bytes of `src` were written at offset `off` over the bytes
`old`: the last byte written there. -/
def writtenByte (old : ℕ → UInt8) (src : List UInt8) (off n j : ℕ) : UInt8 :=
  if off ≤ j ∧ j < off + n then src.getD (j - off) 0 else old j

theorem blocksOf_max (a b : ℕ) : max (blocksOf a) (blocksOf b) = blocksOf (max a b) := by
  rcases le_total a b with h | h
  · rw [max_eq_right h, max_eq_right (blocksOf_mono h)]
  · rw [max_eq_left h, max_eq_left (blocksOf_mono h)]

/-- `writei` of a request its checks pass, into a file whose blocks are all there: it returns
`n`, the size becomes `max(size, off + n)`, and the bytes are those written over the old ones;
the file stays well formed. -/
theorem writei_spec (hok : FileOk s own ip (blocksOf (s.icache ip).din.size.toNat))
    (htype : (s.icache ip).din.type ≠ tDev) (src : List UInt8) {off n : UInt32}
    (hoff : off.toNat ≤ (s.icache ip).din.size.toNat)
    (hend : off.toNat + n.toNat ≤ maxFile * bSize) (hsrc : n.toNat ≤ src.length)
    (hfree : held (blocksOf (max (s.icache ip).din.size.toNat (off.toNat + n.toNat))) -
      held (blocksOf (s.icache ip).din.size.toNat) ≤ (freeBlocks s).card) :
    ∃ s' own', (writei ip src off n).run s = .ok (n.toInt32, s') ∧
      FileOk s' own' ip (blocksOf (s'.icache ip).din.size.toNat) ∧
      (s'.icache ip).din.size.toNat = max (s.icache ip).din.size.toNat (off.toNat + n.toNat) ∧
      (s'.icache ip).din.type = (s.icache ip).din.type ∧
      ∀ j < (s'.icache ip).din.size.toNat, fileByte s'.disk (s'.icache ip).din j =
        writtenByte (fileByte s.disk (s.icache ip).din) src off.toNat n.toNat j := by
  have hmf : maxFile * bSize < 2 ^ 32 := by decide
  have hsum : (off + n).toNat = off.toNat + n.toNat := by
    rw [UInt32.toNat_add]
    exact Nat.mod_eq_of_lt (by omega)
  -- the copy loop over the `n` bytes
  obtain ⟨s₁, own₁, hloop, hC⟩ := run_writeiLoop_spec src hsrc hok UInt32.zero_le
    (show (n - 0).toNat < n.toNat + 1 by simp) (le_trans hoff (le_blocksOf_mul _))
    (by simpa using hend)
    (by simpa [blocksOf_max] using hfree)
  rw [UInt32.sub_zero] at hloop hC
  rw [UInt32.toNat_zero] at hC
  have hsize : (s₁.icache ip).din.size = (s.icache ip).din.size := by
    rw [hC.addrs]
  have hbytes : ∀ j < max (blocksOf (s.icache ip).din.size.toNat * bSize) (off.toNat + n.toNat),
      fileByte s₁.disk (s₁.icache ip).din j =
        writtenByte (fileByte s.disk (s.icache ip).din) src off.toNat n.toNat j := fun j hj => by
    rw [hC.bytes j hj, Nat.zero_add]
    rfl
  have hok₁ := hC.ok
  rw [blocksOf_max] at hok₁
  rw [run_writei_accept s ip src htype hoff hend hloop hsize]
  by_cases hgrow : 0 < n ∧ (s.icache ip).din.size < off + n
  · -- the file grew to `off + n`
    have hgrow' : (s.icache ip).din.size.toNat < off.toNat + n.toNat := by
      rw [← hsum, ← UInt32.lt_iff_toNat_lt]
      exact hgrow.2
    have hsz' : max (s.icache ip).din.size.toNat (off.toNat + n.toNat) = off.toNat + n.toNat :=
      max_eq_right hgrow'.le
    obtain ⟨hok', hkept⟩ := hok₁.grown (off + n)
    refine ⟨_, own₁, by rw [if_pos hgrow], ?_, ?_, ?_, fun j hj => ?_⟩
    · rw [grownState_icache]
      simpa [hsum, hsz'] using hok'
    · rw [grownState_icache]
      simpa [hsum] using hsz'.symm
    · rw [grownState_icache, hC.addrs]
    · rw [grownState_icache] at hj
      simp only [hsum] at hj
      have hj' : j < blocksOf (max (s.icache ip).din.size.toNat (off.toNat + n.toNat)) * bSize := by
        rw [hsz']
        exact lt_of_lt_of_le hj (le_blocksOf_mul _)
      rw [hkept j hj']
      exact hbytes j (lt_max_of_lt_right hj)
  · -- nothing past the end: the size stays
    have hsz' : max (s.icache ip).din.size.toNat (off.toNat + n.toNat) =
        (s.icache ip).din.size.toNat := by
      refine max_eq_left ?_
      rw [not_and_or, UInt32.lt_iff_toNat_lt, UInt32.lt_iff_toNat_lt, hsum] at hgrow
      rcases hgrow with h | h
      · have : n.toNat = 0 := by simpa using h
        omega
      · omega
    refine ⟨s₁, own₁, by rw [if_neg hgrow], ?_, by rw [hsize, hsz'], ?_, fun j hj => ?_⟩
    · rw [hsize, ← hsz']
      exact hok₁
    · rw [hC.addrs]
    · rw [hsize] at hj
      exact hbytes j (lt_max_of_lt_left (lt_of_lt_of_le hj (le_blocksOf_mul _)))

/-! ## A write read back -/

/-- The bytes `readi` copies, byte by byte. -/
theorem bytesFrom_eq_map {disk : ℕ → Block} {d : DInode} {o k : ℕ} {g : ℕ → UInt8}
    (h : ∀ i < k, fileByte disk d (o + i) = g (o + i)) :
    bytesFrom disk d o k = (List.range k).map fun i => g (o + i) :=
  List.map_congr_left fun i hi => h i (List.mem_range.mp hi)

/-- A write read back. For every inode of type `T_FILE` or `T_DIR`, `writei` of a request its
checks refuse returns `-1` and changes nothing. A request they pass, into a well-formed file,
with `n` bytes in `src` and a free block for each block the file comes to hold, returns `n`,
sets the size to `max(size, off + n)`, leaves the file well formed, and `readi` then returns the
bytes last written at each position. -/
theorem writei_readi (s : FsState) (own : ℕ → Option (ℕ × Part)) (ip : Fin nInode)
    (src : List UInt8) (off n : UInt32)
    (htype : (s.icache ip).din.type = tFile ∨ (s.icache ip).din.type = tDir) :
    ((s.icache ip).din.size.toNat < off.toNat ∨ 2 ^ 32 ≤ off.toNat + n.toNat ∨
        maxFile * bSize < off.toNat + n.toNat → (writei ip src off n).run s = .ok (-1, s)) ∧
    (¬ ((s.icache ip).din.size.toNat < off.toNat ∨ 2 ^ 32 ≤ off.toNat + n.toNat ∨
        maxFile * bSize < off.toNat + n.toNat) →
      FileOk s own ip (blocksOf (s.icache ip).din.size.toNat) →
      n.toNat ≤ src.length →
      held (blocksOf (max (s.icache ip).din.size.toNat (off.toNat + n.toNat))) -
        held (blocksOf (s.icache ip).din.size.toNat) ≤ (freeBlocks s).card →
      ∃ s', (writei ip src off n).run s = .ok (n.toInt32, s') ∧
        (s'.icache ip).din.size.toNat = max (s.icache ip).din.size.toNat (off.toNat + n.toNat) ∧
        (∃ own', FileOk s' own' ip (blocksOf (s'.icache ip).din.size.toNat)) ∧
        ∀ o m : UInt32, (readi ip o m).run s' =
          if (s'.icache ip).din.size.toNat < o.toNat ∨ 2 ^ 32 ≤ o.toNat + m.toNat then
            .ok ((-1, []), s')
          else .ok (((UInt32.ofNat (min m.toNat ((s'.icache ip).din.size.toNat - o.toNat))).toInt32,
            (List.range (min m.toNat ((s'.icache ip).din.size.toNat - o.toNat))).map fun i =>
              writtenByte (fileByte s.disk (s.icache ip).din) src off.toNat n.toNat (o.toNat + i)),
            s')) := by
  have hdev : (s.icache ip).din.type ≠ tDev := by
    rcases htype with h | h <;> rw [h] <;> decide
  refine ⟨run_writei_reject s ip src hdev, fun hgood hok hsrc hfree => ?_⟩
  simp only [not_or, not_lt] at hgood
  obtain ⟨s', own', hrun, hok', hsize, htype', hbytes⟩ :=
    writei_spec hok hdev src hgood.1 hgood.2.2 hsrc hfree
  refine ⟨s', hrun, hsize, ⟨own', hok'⟩, fun o m => ?_⟩
  -- `readi` on the file `writei` left: the bytes written, read back
  rw [run_readi_spec hok' (by rw [htype']; exact hdev) o m]
  split_ifs
  · rfl
  · rw [bytesFrom_eq_map fun i hi => hbytes (o.toNat + i) (by omega)]

/-- A disk of sixteen blocks whose bitmap marks the first `used` in use, with an empty regular
file, inode 1, in every entry of `icache`. -/
def smallDisk (used : ℕ) : FsState where
  disk := fun b => if b = 3 then bitmapOf used else zeroBlock
  sb := ⟨16, 12, 8, 0, 0, 2, 3⟩
  icache := fun _ => ⟨1, 1, 1, 1, { DInode.zero with type := tFile }⟩

theorem inUse_smallDisk {used c : ℕ} (hu : used ≤ bpb) (hc : c < 16) :
    inUse (smallDisk used) c = decide (c < used) := by
  have hb : bblock (smallDisk used).sb c = 3 := by
    simp only [bblock, smallDisk, bpb_eq, Nat.div_eq_of_lt (show c < 4096 by omega)]
    rfl
  have hdisk : (smallDisk used).disk 3 = bitmapOf used := rfl
  simp only [inUse, hb, hdisk, bpb_eq]
  rw [bitAt_bitmapOf hu, Nat.mod_eq_of_lt (by omega)]

/-- The empty file of `smallDisk 4` is well formed: it holds no block, and the free blocks are
those past the bitmap. -/
theorem smallDisk_fileOk : FileOk (smallDisk 4) (fun _ => none) 0 (blocksOf 0) where
  laid := ⟨fun _ h => absurd h (Nat.not_lt_zero _), fun bn _ _ => DInode.addr_zero bn,
    fun h => absurd h (Nat.not_lt_zero _), fun _ => DInode.addr_zero nDirect,
    fun h => absurd h (Nat.not_lt_zero _), Nat.zero_le _⟩
  held := ⟨fun _ _ h => by simp at h, fun b hb => by
    simp only [freeBlocks, Finset.mem_filter, Finset.mem_range] at hb
    rw [inUse_smallDisk (by decide) hb.1] at hb
    rw [show dataStart (smallDisk 4).sb = 4 from rfl]
    simpa using hb.2⟩
  inode := by decide

theorem four_mem_freeBlocks_smallDisk : 4 ∈ freeBlocks (smallDisk 4) := by
  simp only [freeBlocks, Finset.mem_filter, Finset.mem_range]
  exact ⟨by decide, by rw [inUse_smallDisk (by decide) (by decide)]; decide⟩

/-- On `smallDisk 4`, a write past the end of the empty file is refused, and a write of one byte
at its start returns `1` and is read back. -/
theorem writei_readi_smallDisk :
    (writei 0 [120] 2 1).run (smallDisk 4) = .ok (-1, smallDisk 4) ∧
    ∃ s', (writei 0 [120] 0 1).run (smallDisk 4) = .ok (1, s') ∧ (s'.icache 0).din.size.toNat = 1 ∧
      (readi 0 0 1).run s' = .ok ((1, [120]), s') := by
  have hfree : held (blocksOf (max ((smallDisk 4).icache 0).din.size.toNat ((0 : UInt32).toNat +
      (1 : UInt32).toNat))) - held (blocksOf ((smallDisk 4).icache 0).din.size.toNat) ≤
      (freeBlocks (smallDisk 4)).card :=
    le_trans (by decide) (Finset.card_pos.mpr ⟨4, four_mem_freeBlocks_smallDisk⟩)
  obtain ⟨s', hrun, hsize, -, hread⟩ :=
    (writei_readi (smallDisk 4) (fun _ => none) 0 [120] 0 1 (.inl rfl)).2 (by decide)
      smallDisk_fileOk (by decide) hfree
  refine ⟨(writei_readi (smallDisk 4) (fun _ => none) 0 [120] 2 1 (.inl rfl)).1 (.inl (by decide)),
    s', hrun, by rw [hsize]; rfl, ?_⟩
  rw [hread 0 1, if_neg (by rw [hsize]; decide), hsize]
  rfl

/-- On a disk with every block in use, a one-byte `writei` at the end of an empty file panics
in `balloc` instead of returning `1`. -/
theorem writei_full_disk_panics :
    (writei 0 [120] 0 1).run (smallDisk 16) = .error "balloc: out of blocks" := by
  have hb : balloc.run (smallDisk 16) = .error "balloc: out of blocks" :=
    run_balloc_full _ fun c hc => by
      have hc' : c < 16 := hc
      rw [inUse_smallDisk (by decide) hc']
      simpa using hc'
  have hbmap : (bmap 0 0).run (smallDisk 16) = .error "balloc: out of blocks" := by
    unfold bmap
    rw [if_pos (by decide), StateT.run_bind, run_getInode, StateExcept.ok_bind]
    dsimp only
    rw [if_pos (show ((smallDisk 16).icache 0).din.addr 0 = 0 from DInode.addr_zero 0),
      StateT.run_bind, hb]
    rfl
  have hloop : (writeiLoop 0 [120] 1 2 0 0).run (smallDisk 16) = .error "balloc: out of blocks" := by
    rw [writeiLoop, if_pos (by decide), StateT.run_bind,
      show ((0 : UInt32) / UInt32.ofNat bSize).toNat = 0 from rfl, hbmap]
    rfl
  unfold writei
  rw [StateT.run_bind, run_getInode, StateExcept.ok_bind]
  dsimp only
  rw [if_neg (by decide), if_neg (by decide), if_neg (by decide), StateT.run_bind,
    show (1 : UInt32).toNat + 1 = 2 from rfl, hloop]
  rfl

end Xv6.Fs
