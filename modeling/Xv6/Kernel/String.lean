import Mathlib.Data.UInt
import Mathlib.Logic.Function.Basic

/-!
# `memmove` of the kernel (`string.c`)

`memmove(dst, src, n)` copies `n` bytes over a 32-bit address space. When `src` lies below
`dst` and the two ranges overlap it copies backwards, from the last byte down, so that each
source byte is read before the copy can overwrite it; otherwise it copies forwards. `memcpy`
is `memmove`.

Memory is a function from addresses to bytes, and pointers are `UInt32`, so `s + n > d` is
the comparison the compiled code makes, on addresses that wrap. The loops are modelled with
the count of bytes left, `n` as the `uint` it is.

## Main definitions

* `copyForward`, `copyBackward`: the two loops.
* `memmove`, `memcpy`.

## Main results

* `copyForward_at`, `copyBackward_at` and their frame lemmas: what each loop writes when no
  byte it still has to read has been overwritten.
* `memmove_spec`: for ranges that do not wrap, the destination gets the bytes the source had,
  and nothing else changes.
-/

namespace Xv6.Kernel

/-- `base + i` on byte pointers. -/
def addr (base : UInt32) (i : ℕ) : UInt32 := base + UInt32.ofNat i

/-- The forward loop `while(n-- > 0) *d++ = *s++;` with `k` bytes left. -/
def copyForward (mem : UInt32 → UInt8) (d s : UInt32) : ℕ → UInt32 → UInt8
  | 0 => mem
  | k + 1 => copyForward (Function.update mem d (mem s)) (d + 1) (s + 1) k

/-- The backward loop `while(n-- > 0) *--d = *--s;` from the ends `d` and `s`, with `k` bytes
left. -/
def copyBackward (mem : UInt32 → UInt8) (d s : UInt32) : ℕ → UInt32 → UInt8
  | 0 => mem
  | k + 1 => copyBackward (Function.update mem (d - 1) (mem (s - 1))) (d - 1) (s - 1) k

/-- `memmove(dst, src, n)`: memory afterwards. -/
def memmove (mem : UInt32 → UInt8) (dst src n : UInt32) : UInt32 → UInt8 :=
  if src < dst ∧ dst < src + n then copyBackward mem (dst + n) (src + n) n.toNat
  else copyForward mem dst src n.toNat

/-- `memcpy(dst, src, n)`, which is `memmove`. -/
def memcpy (mem : UInt32 → UInt8) (dst src n : UInt32) : UInt32 → UInt8 :=
  memmove mem dst src n

/-! ## Addresses -/

section Addr

theorem addr_zero (b : UInt32) : addr b 0 = b := by
  simp [addr]

theorem addr_succ (b : UInt32) (i : ℕ) : addr b (i + 1) = addr (b + 1) i := by
  simp only [addr, UInt32.ofNat_add, UInt32.ofNat_one]
  grind

theorem addr_succ_sub_one (b : UInt32) (i : ℕ) : addr b (i + 1) - 1 = addr b i := by
  simp only [addr, UInt32.ofNat_add, UInt32.ofNat_one]
  grind

theorem toNat_addr {base : UInt32} {i : ℕ} (h : base.toNat + i < 2 ^ 32) :
    (addr base i).toNat = base.toNat + i := by
  have hsize : UInt32.size = 2 ^ 32 := rfl
  rw [addr, UInt32.toNat_add, UInt32.toNat_ofNat_of_lt' (by omega)]
  exact Nat.mod_eq_of_lt h

/-- Two addresses inside ranges that do not wrap are equal exactly when their offsets from
address `0` are. -/
theorem addr_eq_addr_iff {b b' : UInt32} {i j : ℕ} (h : b.toNat + i < 2 ^ 32)
    (h' : b'.toNat + j < 2 ^ 32) : addr b i = addr b' j ↔ b.toNat + i = b'.toNat + j := by
  rw [← UInt32.toNat_inj, toNat_addr h, toNat_addr h']

end Addr

/-! ## The forward loop

The loops are stated over the addresses they store to and read from, so their lemmas hold
whether or not the ranges wrap; `memmove_spec` supplies the facts about the addresses. -/

section Forward

variable {mem : UInt32 → UInt8}

/-- The forward loop changes no byte other than the `k` it stores to. -/
theorem copyForward_of_ne (d s : UInt32) (k : ℕ) {a : UInt32} (ha : ∀ j < k, a ≠ addr d j) :
    copyForward mem d s k a = mem a := by
  induction k generalizing mem d s with
  | zero => rfl
  | succ k ih =>
    have hd : a ≠ d := by simpa [addr_zero] using ha 0 (by omega)
    rw [copyForward, ih (d + 1) (s + 1) (fun j hj => by simpa [addr_succ] using ha (j + 1) (by omega)),
      Function.update_of_ne hd]

/-- The forward loop stores the `i`-th source byte at `d + i`, when the `k` stores go to
distinct addresses and none lands on a source byte that a later pass reads. The induction is
on the passes left, each moving both pointers up by one. -/
theorem copyForward_at (d s : UInt32) (k : ℕ)
    (hdist : ∀ i j, i < j → j < k → addr d i ≠ addr d j)
    (hsafe : ∀ i j, i < j → j < k → addr d i ≠ addr s j) {i : ℕ} (hi : i < k) :
    copyForward mem d s k (addr d i) = mem (addr s i) := by
  induction k generalizing mem d s i with
  | zero => omega
  | succ k ih =>
    rw [copyForward]
    cases i with
    | zero =>
      -- the first store: the later passes store elsewhere
      rw [addr_zero, addr_zero, copyForward_of_ne _ _ _ (fun j hj => by
        simpa [addr_zero, addr_succ] using hdist 0 (j + 1) (by omega) (by omega)),
        Function.update_self]
    | succ i =>
      -- a later store: its source byte is not the one the first pass stored to
      have hne : addr s (i + 1) ≠ d := by
        simpa [addr_zero] using (hsafe 0 (i + 1) (by omega) hi).symm
      rw [addr_succ, addr_succ, ih (d + 1) (s + 1)
          (fun i j hij hj => by simpa [addr_succ] using hdist (i + 1) (j + 1) (by omega) (by omega))
          (fun i j hij hj => by simpa [addr_succ] using hsafe (i + 1) (j + 1) (by omega) (by omega))
          (by omega),
        ← addr_succ, Function.update_of_ne hne]

end Forward

/-! ## The backward loop -/

section Backward

variable {mem : UInt32 → UInt8}

/-- The backward loop from the ends `d + k` and `s + k` changes no byte other than the `k` it
stores to. -/
theorem copyBackward_of_ne (d s : UInt32) (k : ℕ) {a : UInt32} (ha : ∀ j < k, a ≠ addr d j) :
    copyBackward mem (addr d k) (addr s k) k a = mem a := by
  induction k generalizing mem with
  | zero => rfl
  | succ k ih =>
    rw [copyBackward, addr_succ_sub_one, addr_succ_sub_one,
      ih (fun j hj => ha j (by omega)), Function.update_of_ne (ha k (by omega))]

/-- The backward loop stores the `i`-th source byte at `d + i`, when the `k` stores go to
distinct addresses and none lands on a source byte that a later pass reads: the passes go down
from the last byte. -/
theorem copyBackward_at (d s : UInt32) (k : ℕ)
    (hdist : ∀ i j, i < j → j < k → addr d i ≠ addr d j)
    (hsafe : ∀ i j, j < i → i < k → addr d i ≠ addr s j) {i : ℕ} (hi : i < k) :
    copyBackward mem (addr d k) (addr s k) k (addr d i) = mem (addr s i) := by
  induction k generalizing mem with
  | zero => omega
  | succ k ih =>
    rw [copyBackward, addr_succ_sub_one, addr_succ_sub_one]
    by_cases hik : i = k
    · -- the first store, at the last byte: the later passes store below it
      subst hik
      rw [copyBackward_of_ne _ _ _ (fun j hj => (hdist j i hj (by omega)).symm),
        Function.update_self]
    · -- a later store: its source byte is not the last byte of the destination
      rw [ih (fun i j hij hj => hdist i j hij (by omega)) (fun i j hji hik => hsafe i j hji (by omega))
          (by omega),
        Function.update_of_ne (hsafe k i (by omega) (by omega)).symm]

end Backward

/-! ## `memmove` -/

/-- For ranges that do not wrap the address space, `memmove(dst, src, n)` leaves at `dst + i`
the byte that was at `src + i`, for each `i < n`, whether the ranges are apart or overlap either
way, and changes no byte outside `[dst, dst + n)`. -/
theorem memmove_spec (mem : UInt32 → UInt8) (dst src n : UInt32)
    (hdst : dst.toNat + n.toNat ≤ 2 ^ 32) (hsrc : src.toNat + n.toNat ≤ 2 ^ 32) :
    (∀ i < n.toNat, memmove mem dst src n (addr dst i) = mem (addr src i)) ∧
      ∀ a : UInt32, ¬ (dst.toNat ≤ a.toNat ∧ a.toNat < dst.toNat + n.toNat) →
        memmove mem dst src n a = mem a := by
  have hend : ∀ b : UInt32, b + n = addr b n.toNat := fun b => by
    simp [addr]
  -- the destination's addresses are distinct, and every other address is none of them
  have hdist : ∀ i j, i < j → j < n.toNat → addr dst i ≠ addr dst j := fun i j hij hj => by
    rw [Ne, addr_eq_addr_iff (by omega) (by omega)]
    omega
  have hout : ∀ a : UInt32, ¬ (dst.toNat ≤ a.toNat ∧ a.toNat < dst.toNat + n.toNat) →
      ∀ j < n.toNat, a ≠ addr dst j := fun a ha j hj heq => by
    rw [heq, toNat_addr (by omega)] at ha
    omega
  -- an overlap of a store with a read is an equation between offsets
  have hne : ∀ i j, i < n.toNat → j < n.toNat → dst.toNat + i ≠ src.toNat + j →
      addr dst i ≠ addr src j := fun i j hi hj h => by
    rwa [Ne, addr_eq_addr_iff (by omega) (by omega)]
  unfold memmove
  split
  · -- `src` below `dst` and overlapping: backwards, each store above the bytes still to read
    rename_i hback
    have hlt : src.toNat < dst.toNat := UInt32.lt_iff_toNat_lt.mp hback.1
    rw [hend dst, hend src]
    exact ⟨fun i hi => copyBackward_at _ _ _ hdist
        (fun i j hji hi => hne i j hi (by omega) (by omega)) hi,
      fun a ha => copyBackward_of_ne _ _ _ (hout a ha)⟩
  · -- otherwise forwards: `src` is not below `dst`, or the ranges are apart
    rename_i hfwd
    have hsafe : ∀ i j, i < j → j < n.toNat → dst.toNat + i ≠ src.toNat + j := by
      intro i j hij hj
      by_cases hlt : src < dst
      · -- `src + n` does not wrap, so the ranges are apart
        have hle : ¬ dst < src + n := fun h => hfwd ⟨hlt, h⟩
        have hlt' := UInt32.lt_iff_toNat_lt.mp hlt
        have hsize : UInt32.size = 2 ^ 32 := rfl
        rw [UInt32.lt_iff_toNat_lt, UInt32.toNat_add, Nat.mod_eq_of_lt (by omega)] at hle
        omega
      · rw [UInt32.lt_iff_toNat_lt] at hlt
        omega
    exact ⟨fun i hi => copyForward_at _ _ _ hdist
        (fun i j hij hj => hne i j (by omega) hj (hsafe i j hij hj)) hi,
      fun a ha => copyForward_of_ne _ _ _ (hout a ha)⟩

/-- A move of eight bytes four up, onto itself, which takes the backward loop. -/
theorem memmove_spec_up_four :
    (4 : UInt32).toNat + (8 : UInt32).toNat ≤ 2 ^ 32 ∧ (0 : UInt32).toNat + (8 : UInt32).toNat ≤ 2 ^ 32 ∧
      memmove UInt32.toUInt8 4 0 8 (addr 4 7) = UInt32.toUInt8 (addr 0 7) :=
  ⟨by decide, by decide, (memmove_spec UInt32.toUInt8 4 0 8 (by decide) (by decide)).1 7 (by decide)⟩

end Xv6.Kernel
