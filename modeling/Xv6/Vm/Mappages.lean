import Xv6.Vm.Vm

/-!
# Page mapping ranges (`vm.c`)

`mappages(pgdir, va, size, pa, perm)` maps the pages from `PGROUNDDOWN(va)` through
`PGROUNDDOWN(va + size - 1)` one after another to the frames from `pa` on. Its loop stops when
the page it has just mapped is `last`, not on a bound. Both ends are page addresses, so the
loop reaches `last` after at most `2^20` passes, also when the range ends at the top of the
address space, as the `DEVSPACE` entry of `kmap` does, whose size wraps.

Page `i` of the range is `pageAt a0 i`, `a0 + i * PGSIZE` on `uint`. The lemmas on page
arithmetic read `PGROUNDDOWN`, `PDX` and the page number of an address on the number the
address stands for; `walkpgdir_alloc_cases` says once what `walkpgdir(pgdir, va, 1)` can do,
and `Mapped` is what the first passes of the loop leave.

## Main definitions

* `pageAt`: page `i` of a range.
* `extraPages`: the pages `mappages` maps after the first.
* `Mapped`, `MapOutcome`: the first passes of the loop, and how a run can end.

## Main results

* `walkpgdir_alloc_cases`: `walkpgdir` with `alloc` set either fails or returns the entry of
  `va`, in a table that is there afterwards, having changed only the entries of a new table.
* `mappagesLoop_outcome`: the loop panics, fails, or maps every page, and never runs out of
  passes.
* `mappages_spec`: `mappages` maps page `i` to `pa + i * PGSIZE` with `perm | PTE_P` and leaves
  every other entry as it was or, in a new table, `0`.
-/

namespace Xv6

open KM StateExcept

/-! ## Page arithmetic -/

section PageArith

/-- Clearing the low twelve bits of a 32-bit number rounds it down to a multiple of `4096`. -/
theorem and_pageMask (x : ℕ) (hx : x < 2 ^ 32) : x &&& (2 ^ 32 - 1 - 4095) = x / 2 ^ 12 * 2 ^ 12 := by
  apply Nat.eq_of_testBit_eq
  intro i
  have hM : (2 ^ 32 - 1 - 4095 : ℕ) = (2 ^ 20 - 1) * 2 ^ 12 := by norm_num
  rw [Nat.testBit_and, hM, Nat.testBit_mul_two_pow, Nat.testBit_mul_two_pow,
    Nat.testBit_two_pow_sub_one, Nat.testBit_div_two_pow]
  by_cases h12 : 12 ≤ i
  · by_cases h32 : i < 32
    · simp [h12, show i - 12 < 20 by omega, Nat.sub_add_cancel h12]
    · -- above bit 31 a 32-bit number has no bits
      have : x.testBit i = false :=
        Nat.testBit_lt_two_pow (lt_of_lt_of_le hx (Nat.pow_le_pow_right (by norm_num) (by omega)))
      simp [h12, show ¬ i - 12 < 20 by omega, Nat.sub_add_cancel h12, this]
  · simp [h12]

theorem toNat_pgRoundDown (a : UInt32) : (pgRoundDown a).toNat = a.toNat / 2 ^ 12 * 2 ^ 12 := by
  rw [pgRoundDown, UInt32.toNat_and, UInt32.toNat_not]
  exact and_pageMask a.toNat a.toNat_lt

theorem toNat_vpn (a : UInt32) : (vpn a).toNat = a.toNat / 2 ^ 12 := by
  rw [vpn, UInt32.toNat_shiftRight, Nat.shiftRight_eq_div_pow]
  rfl

theorem toNat_pdx (a : UInt32) : (pdx a).toNat = a.toNat / 2 ^ 22 := by
  rw [pdx, UInt32.toNat_and, UInt32.toNat_shiftRight, Nat.shiftRight_eq_div_pow]
  have h : (0x3FF : UInt32).toNat = 2 ^ 10 - 1 := rfl
  rw [h, Nat.and_two_pow_sub_one_eq_mod, Nat.mod_eq_of_lt]
  · rfl
  · have := a.toNat_lt
    show a.toNat / 2 ^ 22 < 2 ^ 10
    omega

/-- The page-table slot of a page number is the slot of its address. -/
theorem vpn_shiftRight_ten (a : UInt32) : vpn a >>> 10 = pdx a := by
  rw [← UInt32.toNat_inj, toNat_pdx, UInt32.toNat_shiftRight, toNat_vpn, Nat.shiftRight_eq_div_pow,
    show (10 : UInt32).toNat % 32 = 10 from rfl, Nat.div_div_eq_div_mul, ← pow_add]

/-- Two addresses of one page have its page number. -/
theorem vpn_eq_of_pgRoundDown {a p : UInt32} (h : pgRoundDown a = p) : vpn a = vpn p := by
  rw [← UInt32.toNat_inj, toNat_vpn, toNat_vpn, ← h, toNat_pgRoundDown]
  omega

/-- Two addresses of one page are in its page-table slot. -/
theorem pdx_eq_of_pgRoundDown {a p : UInt32} (h : pgRoundDown a = p) : pdx a = pdx p := by
  rw [← UInt32.toNat_inj, toNat_pdx, toNat_pdx, ← h, toNat_pgRoundDown]
  omega

/-- Page `i` of the range from `a0`: `a0 + i * PGSIZE` on `uint`. -/
def pageAt (a0 : UInt32) (i : ℕ) : UInt32 := a0 + pgSize * UInt32.ofNat i

theorem pageAt_zero (a0 : UInt32) : pageAt a0 0 = a0 := by
  simp [pageAt]

theorem pageAt_succ (a0 : UInt32) (i : ℕ) : pageAt a0 i + pgSize = pageAt a0 (i + 1) := by
  simp only [pageAt, UInt32.ofNat_add, UInt32.ofNat_one]
  grind

theorem toNat_pageAt (a0 : UInt32) (i : ℕ) :
    (pageAt a0 i).toNat = (a0.toNat + 2 ^ 12 * i) % 2 ^ 32 := by
  have hsize : UInt32.size = 2 ^ 32 := rfl
  rw [pageAt, UInt32.toNat_add, UInt32.toNat_mul, UInt32.toNat_ofNat',
    show pgSize.toNat = 2 ^ 12 from rfl]
  omega

/-- The first `2^20` pages of a range are distinct. -/
theorem pageAt_inj {a0 : UInt32} {i j : ℕ} (hi : i < 2 ^ 20) (hj : j < 2 ^ 20)
    (h : pageAt a0 i = pageAt a0 j) : i = j := by
  rw [← UInt32.toNat_inj, toNat_pageAt, toNat_pageAt] at h
  omega

/-- The first `2^20` pages of a range from a page address have distinct page numbers. -/
theorem vpn_pageAt_inj {a0 : UInt32} (ha0 : a0.toNat % 2 ^ 12 = 0) {i j : ℕ} (hi : i < 2 ^ 20)
    (hj : j < 2 ^ 20) (h : vpn (pageAt a0 i) = vpn (pageAt a0 j)) : i = j := by
  rw [← UInt32.toNat_inj, toNat_vpn, toNat_vpn, toNat_pageAt, toNat_pageAt] at h
  omega

end PageArith

/-! ## `walkpgdir` with `alloc` set -/

/-- What `walkpgdir(pgdir, va, 1)` can do: fail, leaving the directory as it was, or return the
entry of `va` in a table that is there afterwards. Tables that were there stay, and an entry
changes only to `0`, in the table of `va` when it is new. -/
theorem walkpgdir_alloc_cases (pd : PageDir) (va : UInt32) (k : Kernel) :
    ∃ pd₁ pte k₁, (walkpgdir pd va true).run k = .ok ((pd₁, pte), k₁) ∧
      (pte = none ∧ pd₁ = pd ∨
        pte = some (vpn va) ∧ pd₁.tables (pdx va) ≠ none ∧
          (∀ d, pd.tables d ≠ none → pd₁.tables d = pd.tables d) ∧
          ∀ v, pd₁.entries v = pd.entries v ∨
            (pd.tables (pdx va) = none ∧ v >>> 10 = pdx va ∧ pd₁.entries v = 0)) := by
  rcases ht : pd.tables (pdx va) with _ | t
  · -- no table: `kalloc` one
    rcases hfree : k.freelist with _ | ⟨r, rest⟩
    · refine ⟨pd, none, k, ?_, .inl ⟨rfl, rfl⟩⟩
      simp [walkpgdir, ht, kalloc, hfree]
    · by_cases hr : r = 0
      · refine ⟨pd, none, { k with freelist := rest }, ?_, .inl ⟨rfl, rfl⟩⟩
        simp [walkpgdir, ht, kalloc, hfree, hr]
      · refine ⟨{ pd with
            tables := Function.update pd.tables (pdx va) (some r)
            entries := fun v => if v >>> 10 = pdx va then 0 else pd.entries v },
          some (vpn va), { k with freelist := rest }, ?_, .inr ⟨rfl, by simp, ?_, ?_⟩⟩
        · simp [walkpgdir, ht, kalloc, hfree, hr]
        · intro d hd
          have hne : d ≠ pdx va := fun h => hd (h ▸ ht)
          simp [Function.update_of_ne hne]
        · intro v
          by_cases hv : v >>> 10 = pdx va
          · exact .inr ⟨rfl, hv, by simp [hv]⟩
          · exact .inl (by simp [hv])
  · -- a table: its entry
    refine ⟨pd, some (vpn va), k, ?_, .inr ⟨rfl, by simp [ht], fun _ _ => rfl, fun _ => .inl rfl⟩⟩
    simp [walkpgdir, ht]

/-! ## The loop of `mappages` -/

/-- What the first `j` passes of the loop of `mappages` from the directory `pd0` leave in `pd`,
for the range from `a0` and the frames from `pa`: pages `0 … j-1` map to their frames with
`perm | PTE_P` in tables that are there, tables that were there stay, every other entry is as
it was or, in a table allocated on the way, `0`, and no page mapped had a present entry. -/
structure Mapped (pd0 pd : PageDir) (a0 pa perm : UInt32) (j : ℕ) : Prop where
  entry : ∀ i < j, pd.entries (vpn (pageAt a0 i)) = pageAt pa i ||| perm ||| pteP
  present : ∀ i < j, pd.tables (pdx (pageAt a0 i)) ≠ none
  tables : ∀ d, pd0.tables d ≠ none → pd.tables d = pd0.tables d
  other : ∀ v, (∀ i < j, v ≠ vpn (pageAt a0 i)) →
    pd.entries v = pd0.entries v ∨ (pd0.tables (v >>> 10) = none ∧ pd.entries v = 0)
  fresh : ∀ i < j,
    pd0.tables (pdx (pageAt a0 i)) = none ∨ pd0.entries (vpn (pageAt a0 i)) &&& pteP = 0

theorem Mapped.zero (pd0 : PageDir) (a0 pa perm : UInt32) : Mapped pd0 pd0 a0 pa perm 0 where
  entry := by simp
  present := by simp
  tables := fun _ _ => rfl
  other := fun _ _ => .inl rfl
  fresh := by simp

section Step

variable {pd0 pd pd₁ : PageDir} {a0 pa perm : UInt32} {j : ℕ}

/-- The entry of page `j` found by `walkpgdir` is not present only when page `j` had no
present entry in `pd0`: its table was not there, or its entry was the one `pd0` had. -/
theorem Mapped.fresh_next (h : Mapped pd0 pd a0 pa perm j) (ha0 : a0.toNat % 2 ^ 12 = 0)
    (hj : j < 2 ^ 20)
    (hent : ∀ v, pd₁.entries v = pd.entries v ∨
      (pd.tables (pdx (pageAt a0 j)) = none ∧ v >>> 10 = pdx (pageAt a0 j) ∧ pd₁.entries v = 0))
    (hp : pd₁.entries (vpn (pageAt a0 j)) &&& pteP = 0) :
    pd0.tables (pdx (pageAt a0 j)) = none ∨ pd0.entries (vpn (pageAt a0 j)) &&& pteP = 0 := by
  -- a table `pd0` had is still in `pd`
  have hkeep : pd.tables (pdx (pageAt a0 j)) = none → pd0.tables (pdx (pageAt a0 j)) = none :=
    fun hnone => by
      by_contra hsome
      rw [h.tables _ hsome] at hnone
      exact hsome hnone
  rcases hent (vpn (pageAt a0 j)) with hsame | ⟨hnone, -, -⟩
  · have hnew : ∀ i < j, vpn (pageAt a0 j) ≠ vpn (pageAt a0 i) := fun i hi heq =>
      absurd (vpn_pageAt_inj ha0 hj (by omega) heq) (by omega)
    rcases h.other _ hnew with hold | ⟨hnone, -⟩
    · rw [hsame, hold] at hp
      exact .inr hp
    · rw [vpn_shiftRight_ten] at hnone
      exact .inl hnone
  · exact .inl (hkeep hnone)

/-- One pass of the loop: with the entry `walkpgdir` found for page `j` not present, setting it
to the frame of page `j` extends what the passes before left. -/
theorem Mapped.next (h : Mapped pd0 pd a0 pa perm j) (ha0 : a0.toNat % 2 ^ 12 = 0)
    (hj : j < 2 ^ 20) (hpres : pd₁.tables (pdx (pageAt a0 j)) ≠ none)
    (htab : ∀ d, pd.tables d ≠ none → pd₁.tables d = pd.tables d)
    (hent : ∀ v, pd₁.entries v = pd.entries v ∨
      (pd.tables (pdx (pageAt a0 j)) = none ∧ v >>> 10 = pdx (pageAt a0 j) ∧ pd₁.entries v = 0))
    (hp : pd₁.entries (vpn (pageAt a0 j)) &&& pteP = 0) :
    Mapped pd0 (pd₁.setEntry (vpn (pageAt a0 j)) (pageAt pa j ||| perm ||| pteP)) a0 pa perm
      (j + 1) := by
  -- the pages before `j` have other page numbers, in tables that were there
  have hne : ∀ i < j, vpn (pageAt a0 i) ≠ vpn (pageAt a0 j) := fun i hi heq =>
    absurd (vpn_pageAt_inj ha0 (by omega) hj heq) (by omega)
  have hold : ∀ i < j, pd₁.entries (vpn (pageAt a0 i)) = pd.entries (vpn (pageAt a0 i)) := by
    intro i hi
    rcases hent (vpn (pageAt a0 i)) with hsame | ⟨hnone, hslot, -⟩
    · exact hsame
    · rw [vpn_shiftRight_ten] at hslot
      exact absurd (hslot ▸ hnone) (h.present i hi)
  constructor
  · intro i hi
    rcases Nat.lt_succ_iff_lt_or_eq.mp hi with hi | rfl
    · rw [PageDir.setEntry_entries, Function.update_of_ne (hne i hi), hold i hi, h.entry i hi]
    · rw [PageDir.setEntry_entries, Function.update_self]
  · intro i hi
    rw [PageDir.setEntry_tables]
    rcases Nat.lt_succ_iff_lt_or_eq.mp hi with hi | rfl
    · rw [htab _ (h.present i hi)]
      exact h.present i hi
    · exact hpres
  · intro d hd
    rw [PageDir.setEntry_tables, htab _ (by rw [h.tables d hd]; exact hd), h.tables d hd]
  · intro v hv
    rw [PageDir.setEntry_entries, Function.update_of_ne (hv j (by omega))]
    rcases hent v with hsame | ⟨hnone, hslot, hzero⟩
    · rw [hsame]
      exact h.other v fun i hi => hv i (by omega)
    · -- a new table: `pd0` had none there either
      refine .inr ⟨?_, hzero⟩
      rw [hslot]
      by_contra hsome
      rw [h.tables _ hsome] at hnone
      exact hsome hnone
  · intro i hi
    rcases Nat.lt_succ_iff_lt_or_eq.mp hi with hi | rfl
    · exact h.fresh i hi
    · exact h.fresh_next ha0 hj hent hp

end Step

/-- How a run of the loop of `mappages` from `pd0` can end, for the pages `0 … n` of the range
from `a0`: a panic on an entry that is present, `-1` when a page table cannot be allocated, or
`0` with every page mapped. Running out of passes is not among them. -/
def MapOutcome (pd0 : PageDir) (a0 pa perm : UInt32) (n : ℕ) :
    Except Fault ((PageDir × Int32) × Kernel) → Prop
  | .ok ((pd, r), _) => r = -1 ∨ r = 0 ∧ Mapped pd0 pd a0 pa perm (n + 1)
  | .error e => e = .panic "remap"

section Loop

variable {pd0 : PageDir} {a0 pa perm : UInt32} {n : ℕ}

/-- One pass of the loop at page `j` of `0 … n`: it panics, fails, ends at `last` with every
page mapped, or goes on to page `j + 1` with one more mapped. -/
theorem mappagesLoop_pass (ha0 : a0.toNat % 2 ^ 12 = 0) (hn : n < 2 ^ 20) {j : ℕ} (hj : j ≤ n)
    (fuel : ℕ) {pd : PageDir} (k : Kernel) (h : Mapped pd0 pd a0 pa perm j)
    (hnext : j < n → ∀ pd' k', Mapped pd0 pd' a0 pa perm (j + 1) →
      MapOutcome pd0 a0 pa perm n
        ((mappagesLoop perm fuel pd' (pageAt a0 (j + 1)) (pageAt a0 n) (pageAt pa (j + 1))).run k')) :
    MapOutcome pd0 a0 pa perm n
      ((mappagesLoop perm (fuel + 1) pd (pageAt a0 j) (pageAt a0 n) (pageAt pa j)).run k) := by
  obtain ⟨pd₁, pte, k₁, hwalk, hcase⟩ := walkpgdir_alloc_cases pd (pageAt a0 j) k
  rw [mappagesLoop, StateT.run_bind, hwalk, StateExcept.ok_bind]
  rcases hcase with ⟨rfl, rfl⟩ | ⟨rfl, hpres, htab, hent⟩
  · -- no page table could be allocated
    exact .inl rfl
  · dsimp only
    by_cases hp : pd₁.entries (vpn (pageAt a0 j)) &&& pteP ≠ 0
    · -- the entry is present: `remap`
      rw [if_pos hp]
      rfl
    · rw [if_neg hp]
      have hm := h.next ha0 (by omega) hpres htab hent (not_not.mp hp)
      by_cases hlast : j = n
      · -- the last page
        subst hlast
        rw [if_pos rfl]
        exact .inr ⟨rfl, hm⟩
      · rw [if_neg fun heq => hlast (pageAt_inj (by omega) hn heq), pageAt_succ, pageAt_succ]
        exact hnext (by omega) _ _ hm

/-- The loop of `mappages` over pages `j … n` of a range from a page address panics, fails, or
maps every page; with more passes than pages left it never runs out. The induction is on the
pages left. -/
theorem mappagesLoop_outcome (ha0 : a0.toNat % 2 ^ 12 = 0) (hn : n < 2 ^ 20) (m : ℕ) :
    ∀ j fuel pd k, j + m = n → m < fuel → Mapped pd0 pd a0 pa perm j →
      MapOutcome pd0 a0 pa perm n
        ((mappagesLoop perm fuel pd (pageAt a0 j) (pageAt a0 n) (pageAt pa j)).run k) := by
  induction m with
  | zero =>
    intro j fuel pd k hjm hfuel h
    obtain ⟨fuel, rfl⟩ : ∃ f, fuel = f + 1 := ⟨fuel - 1, by omega⟩
    exact mappagesLoop_pass ha0 hn (by omega) fuel k h fun hlt => absurd hlt (by omega)
  | succ m ih =>
    intro j fuel pd k hjm hfuel h
    obtain ⟨fuel, rfl⟩ : ∃ f, fuel = f + 1 := ⟨fuel - 1, by omega⟩
    exact mappagesLoop_pass ha0 hn (by omega) fuel k h fun _ pd' k' h' =>
      ih (j + 1) fuel pd' k' (by omega) (by omega) h'

end Loop

/-! ## `mappages` -/

/-- The pages `mappages(pgdir, va, size, …)` maps after the first: from `PGROUNDDOWN(va)` to
`PGROUNDDOWN(va + size - 1)` in steps of `PGSIZE`, on `uint`. -/
def extraPages (va size : UInt32) : ℕ :=
  ((pgRoundDown (va + size - 1) - pgRoundDown va) / pgSize).toNat

theorem extraPages_lt (va size : UInt32) : extraPages va size < 2 ^ 20 := by
  have := (pgRoundDown (va + size - 1) - pgRoundDown va).toNat_lt
  rw [extraPages, UInt32.toNat_div, show pgSize.toNat = 2 ^ 12 from rfl]
  omega

/-- The last page of the range is page `extraPages` from the first: both are page addresses,
so their distance on `uint` is a whole number of pages, also when it wraps. -/
theorem pageAt_extraPages (va size : UInt32) :
    pageAt (pgRoundDown va) (extraPages va size) = pgRoundDown (va + size - 1) := by
  have hA := toNat_pgRoundDown va
  have hL := toNat_pgRoundDown (va + size - 1)
  have hA' := (pgRoundDown va).toNat_lt
  have hL' := (pgRoundDown (va + size - 1)).toNat_lt
  rw [← UInt32.toNat_inj, toNat_pageAt, extraPages, UInt32.toNat_div, UInt32.toNat_sub,
    show pgSize.toNat = 2 ^ 12 from rfl]
  omega

/-- `mappages(pgdir, va, size, pa, perm)` never runs out of passes: it panics (`remap`), fails,
or returns. When it returns `0`, page `i` of the range from `PGROUNDDOWN(va)` through
`PGROUNDDOWN(va + size - 1)` has a new entry, mapping it to `pa + i * PGSIZE` with
`perm | PTE_P`, which `walkpgdir(pgdir, a, 0)` returns for every address `a` of the page; every
other entry is as it was, or `0` in a table allocated on the way. Neither `size ≥ 1` nor an
aligned `pa` is needed. -/
theorem mappages_spec (pgdir : PageDir) (va size pa : UInt32) (perm : Int32) (k : Kernel) :
    (mappages pgdir va size pa perm).run k ≠ .error .outOfFuel ∧
      ∀ pd k', (mappages pgdir va size pa perm).run k = .ok ((pd, 0), k') →
        (∀ i ≤ extraPages va size,
          pd.entries (vpn (pageAt (pgRoundDown va) i)) = pageAt pa i ||| perm.toUInt32 ||| pteP ∧
            (pgdir.tables (pdx (pageAt (pgRoundDown va) i)) = none ∨
              pgdir.entries (vpn (pageAt (pgRoundDown va) i)) &&& pteP = 0) ∧
            ∀ a, pgRoundDown a = pageAt (pgRoundDown va) i →
              pd.walk a = some (vpn (pageAt (pgRoundDown va) i))) ∧
          ∀ v, (∀ i ≤ extraPages va size, v ≠ vpn (pageAt (pgRoundDown va) i)) →
            pd.entries v = pgdir.entries v ∨ (pgdir.tables (v >>> 10) = none ∧ pd.entries v = 0) := by
  have ha0 : (pgRoundDown va).toNat % 2 ^ 12 = 0 := by
    rw [toNat_pgRoundDown]
    exact Nat.mul_mod_left _ _
  have hout := @mappagesLoop_outcome pgdir (pgRoundDown va) pa perm.toUInt32 (extraPages va size)
    ha0 (extraPages_lt va size) (extraPages va size) 0 pageFuel pgdir k (by omega)
    (lt_of_lt_of_le (extraPages_lt va size) (by decide)) (Mapped.zero _ _ _ _)
  rw [pageAt_zero, pageAt_zero, pageAt_extraPages, ← mappages] at hout
  constructor
  · -- the outcomes do not include running out of passes
    intro hfuel
    rw [hfuel] at hout
    simp [MapOutcome] at hout
  · intro pd k' hrun
    rw [hrun] at hout
    rcases hout with hbad | ⟨-, hm⟩
    · exact absurd hbad (by decide)
    · refine ⟨fun i hi => ⟨hm.entry i (by omega), hm.fresh i (by omega), fun a ha => ?_⟩,
        fun v hv => hm.other v fun i hi => hv i (by omega)⟩
      -- an address of page `i` walks to the entry of page `i`
      obtain ⟨t, ht⟩ := Option.ne_none_iff_exists'.mp (hm.present i (by omega))
      rw [PageDir.walk, pdx_eq_of_pgRoundDown ha, ht, vpn_eq_of_pgRoundDown ha]
      rfl

/-- Two pages from `0x1000` into an empty directory, with a free frame for their page table:
`mappages` returns `0`, and the entries of pages `1` and `2` map `0x200000` and `0x201000`. -/
theorem mappages_spec_two_pages : ∃ k pd k',
    (mappages ⟨0, [], fun _ => none, fun _ => 0⟩ 0x1000 0x2000 0x200000 6).run k = .ok ((pd, 0), k') ∧
      pd.entries 1 = 0x200007 ∧ pd.entries 2 = 0x201007 ∧ pd.walk 0x2fff = some 2 := by
  -- a kernel whose one free frame becomes the page table of slot `0`
  let k : Kernel := ⟨[0x80400000], 0x8010a000, fun _ => 0, ⟨0, 0, ⟨0, [], fun _ => none, fun _ => 0⟩,
    0, 0, 0, 0, none, Vector.replicate 16 0, 0, Vector.replicate 16 0, 0, 0, 0⟩⟩
  have hok : ((mappages ⟨0, [], fun _ => none, fun _ => 0⟩ 0x1000 0x2000 0x200000 6).run k).toOption.map
      (fun r => r.1.2) = some 0 := by
    decide
  rcases hrun : (mappages ⟨0, [], fun _ => none, fun _ => 0⟩ 0x1000 0x2000 0x200000 6).run k with
    _ | ⟨⟨pd, r⟩, k'⟩
  · rw [hrun] at hok
    cases hok
  rw [hrun] at hok
  obtain rfl : r = 0 := Option.some.inj (hok : some r = some 0)
  -- pages `0x1000` and `0x2000`, entries `1` and `2`, mapped to `0x200000` and `0x201000`
  have hspec := (mappages_spec _ 0x1000 0x2000 0x200000 6 k).2 pd k' hrun
  obtain ⟨h0, -, -⟩ := hspec.1 0 (by decide)
  obtain ⟨h1, -, hw1⟩ := hspec.1 1 (by decide)
  refine ⟨k, pd, k', hrun, ?_, ?_, ?_⟩
  · rwa [show vpn (pageAt (pgRoundDown 0x1000) 0) = 1 by decide,
      show pageAt 0x200000 0 ||| (6 : Int32).toUInt32 ||| pteP = 0x200007 by decide] at h0
  · rwa [show vpn (pageAt (pgRoundDown 0x1000) 1) = 2 by decide,
      show pageAt 0x200000 1 ||| (6 : Int32).toUInt32 ||| pteP = 0x201007 by decide] at h1
  · rw [hw1 0x2fff (by decide)]
    decide

end Xv6
