import Mathlib.Data.Nat.ModEq
import Mathlib.Data.UInt
import Mathlib.Tactic

/-!
# Ring buffers indexed by free-running 32-bit counters

A ring of `c` cells `data` is read at counter `r` and written at counter `w`, two unsigned
32-bit counters that only count up and wrap at `2^32`; cell `x % c` holds the element at
counter `x`. When `c` divides `2^32` the wrap does not disturb the cell numbering, and the
elements in the ring are those at counters `r, r + 1, …, w - 1`, with `w - r` computed modulo
`2^32`.

* `view data c r w`: the elements in the ring, oldest first.
* `view_push`: writing cell `w % c` and advancing `w` appends an element, while the ring holds
  fewer than `c`.
* `view_pop`: advancing `r` past a non-empty ring removes its oldest element.
-/

namespace Xv6.Ring

variable {α : Type*} {c : ℕ} {data : ℕ → α} {r w : UInt32}

/-- The elements at counters `r` up to `w`, oldest first. -/
def view (data : ℕ → α) (c : ℕ) (r w : UInt32) : List α :=
  (List.range (w - r).toNat).map fun i => data ((r.toNat + i) % c)

@[simp]
theorem view_length : (view data c r w).length = (w - r).toNat := by
  simp [view]

@[simp]
theorem view_self : view data c r r = [] := by
  simp [view]

/-- The cell of counter `r + i` is the cell `i` places after that of `r`: the counters wrap at a
multiple of `c`. -/
theorem toNat_add_mod (hc : c ∣ 2 ^ 32) (r : UInt32) (i : ℕ) :
    (r + UInt32.ofNat i).toNat % c = (r.toNat + i) % c := by
  have hc' : c ∣ 4294967296 := hc
  rw [UInt32.toNat_add, UInt32.toNat_ofNat', Nat.mod_mod_of_dvd _ hc', Nat.add_mod,
    Nat.mod_mod_of_dvd _ hc', ← Nat.add_mod]

/-- `w` is `w - r` counters after `r`. -/
theorem toNat_mod_eq (hc : c ∣ 2 ^ 32) (r w : UInt32) :
    w.toNat % c = (r.toNat + (w - r).toNat) % c := by
  rw [← toNat_add_mod hc, UInt32.ofNat_toNat, add_sub_cancel]

/-- A non-zero distance has a predecessor: `w - r` counters are one more than `w - (r + 1)`. -/
theorem toNat_sub_succ (h : r ≠ w) : (w - (r + 1)).toNat + 1 = (w - r).toNat := by
  have hne : w - r ≠ 0 := fun h0 => h (sub_eq_zero.mp h0).symm
  have hpos : 0 < (w - r).toNat :=
    Nat.pos_of_ne_zero fun h0 => hne (UInt32.toNat_inj.mp (by simpa using h0))
  rw [sub_add_eq_sub_sub, UInt32.toNat_sub_of_le _ _ (UInt32.le_iff_toNat_le.mpr (by simpa))]
  simp only [UInt32.toNat_one]
  omega

/-- Removing the oldest element: advance `r` past a non-empty ring. -/
theorem view_pop (hc : c ∣ 2 ^ 32) (h : r ≠ w) :
    view data c r w = data (r.toNat % c) :: view data c (r + 1) w := by
  unfold view
  rw [← toNat_sub_succ h, List.range_succ_eq_map, List.map_cons, List.map_map]
  refine List.cons_eq_cons.mpr ⟨by simp, List.map_congr_left fun i _ => ?_⟩
  -- the cell `i + 1` after `r` is the cell `i` after `r + 1`
  have hcell : ((r + 1).toNat + i) % c = (r.toNat + (i + 1)) % c := by
    have h1 : (r + 1).toNat % c = (r.toNat + 1) % c := toNat_add_mod hc r 1
    rw [← Nat.mod_add_mod, h1, Nat.mod_add_mod]
    ring_nf
  simp only [Function.comp_apply, hcell]

/-- Advancing `w` adds one to the distance, short of a wrap of the distance itself. -/
theorem toNat_add_one_sub (h : (w - r).toNat + 1 < 2 ^ 32) :
    (w + 1 - r).toNat = (w - r).toNat + 1 := by
  rw [add_sub_right_comm, UInt32.toNat_add, UInt32.toNat_one]
  exact Nat.mod_eq_of_lt h

/-- The elements up to `w'` are those up to `w` followed by those from `w` to `w'`, for `w`
between `r` and `w'`. -/
theorem view_append (hc : c ∣ 2 ^ 32) {w' : UInt32} (h : (w - r).toNat ≤ (w' - r).toNat) :
    view data c r w' = view data c r w ++ view data c w w' := by
  have hsub : (w' - w).toNat = (w' - r).toNat - (w - r).toNat := by
    rw [show w' - w = (w' - r) - (w - r) by abel,
      UInt32.toNat_sub_of_le _ _ (UInt32.le_iff_toNat_le.mpr h)]
  unfold view
  rw [hsub, show (w' - r).toNat = (w - r).toNat + ((w' - r).toNat - (w - r).toNat) by omega,
    List.range_add, List.map_append, List.map_map, Nat.add_sub_cancel_left]
  congr 1
  refine List.map_congr_left fun i _ => ?_
  -- the cell `w - r + i` after `r` is the cell `i` after `w`
  simp only [Function.comp_apply]
  rw [← Nat.add_assoc, ← Nat.mod_add_mod, ← toNat_mod_eq hc r w, Nat.mod_add_mod]

/-- A write to the cell of a counter at or past `w`, less than `c` after `r`, leaves the elements
from `r` to `w` alone. -/
theorem view_update_of_le {x : UInt32} (hc : c ∣ 2 ^ 32) (hw : (w - r).toNat ≤ (x - r).toNat)
    (hx : (x - r).toNat < c) (v : α) :
    view (Function.update data (x.toNat % c) v) c r w = view data c r w := by
  unfold view
  refine List.map_congr_left fun i hi => ?_
  rw [List.mem_range] at hi
  have hne : (r.toNat + i) % c ≠ (r.toNat + (x - r).toNat) % c := by
    intro heq
    have hmod : i % c = (x - r).toNat % c := Nat.ModEq.add_left_cancel' r.toNat heq
    rw [Nat.mod_eq_of_lt (by omega), Nat.mod_eq_of_lt hx] at hmod
    omega
  rw [toNat_mod_eq hc r x]
  exact Function.update_of_ne hne _ _

/-- The one element from `w` to `w + 1`. -/
theorem view_succ_self : view data c w (w + 1) = [data (w.toNat % c)] := by
  simp [view]

/-- Appending an element: write cell `w % c` and advance `w`, while the ring holds fewer than
`c` elements. -/
theorem view_push (hc : c ∣ 2 ^ 32) (hc32 : c < 2 ^ 32) (hlt : (w - r).toNat < c) (x : α) :
    view (Function.update data (w.toNat % c) x) c r (w + 1) = view data c r w ++ [x] := by
  have hle : (w - r).toNat ≤ (w + 1 - r).toNat := by
    rw [toNat_add_one_sub (by omega)]
    omega
  rw [view_append hc hle, view_update_of_le hc le_rfl hlt, view_succ_self, Function.update_self]

end Xv6.Ring
