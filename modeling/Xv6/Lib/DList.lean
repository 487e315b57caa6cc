import Mathlib.Data.List.Nodup
import Mathlib.Logic.Function.Basic

/-!
# Circular doubly linked lists with a head node

The nodes `ι` and a head node carry `next` and `prev` links; the head is `none` and a node `b`
is `some b`. The list of nodes `l` is stored when `next` leads from the head through `l` back to
the head, and `prev` leads back the same way.

* `Seg L x l y`: from `x` the links run through the nodes `l` to `y`, both ways.
* `Repr L l`: the list through the head holds the nodes `l`, each once.
* `Links.pushFront`, `Links.unlink`: insert a node after the head, take a node out;
  `Repr.pushFront` and `Repr.unlink` say they are `List.cons` and `List.erase`.
* `walk`: follow the links from a node until the head, stopping at the first node a test holds
  of; `Repr.walk_next` and `Repr.walk_prev` say it is `List.find?` forwards and backwards.
-/

namespace Xv6.DList

/-- The `next` and `prev` links of the head (`none`) and of the nodes. -/
structure Links (ι : Type*) where
  next : Option ι → Option ι
  prev : Option ι → Option ι

variable {ι : Type*}

/-- The links read backwards. -/
def Links.swap (L : Links ι) : Links ι := ⟨L.prev, L.next⟩

@[simp] theorem Links.swap_next (L : Links ι) : L.swap.next = L.prev := rfl

@[simp] theorem Links.swap_prev (L : Links ι) : L.swap.prev = L.next := rfl

/-- From `x`, `next` runs through the nodes `l` to `y`, and `prev` runs back. -/
def Seg (L : Links ι) : Option ι → List ι → Option ι → Prop
  | x, [], y => L.next x = y ∧ L.prev y = x
  | x, a :: l, y => L.next x = some a ∧ L.prev (some a) = x ∧ Seg L (some a) l y

/-- The list through the head holds the nodes `l` in order, each once. -/
structure Repr (L : Links ι) (l : List ι) : Prop where
  nodup : l.Nodup
  seg : Seg L none l none

variable {L L' : Links ι} {x y : Option ι} {l : List ι}

@[simp] theorem seg_nil : Seg L x [] y ↔ L.next x = y ∧ L.prev y = x := Iff.rfl

@[simp] theorem seg_cons (a : ι) :
    Seg L x (a :: l) y ↔ L.next x = some a ∧ L.prev (some a) = x ∧ Seg L (some a) l y :=
  Iff.rfl

/-- A segment splits at any of its nodes. -/
theorem seg_append_cons (l₁ : List ι) (a : ι) (l₂ : List ι) :
    Seg L x (l₁ ++ a :: l₂) y ↔ Seg L x l₁ (some a) ∧ Seg L (some a) l₂ y := by
  induction l₁ generalizing x with
  | nil => simp [and_assoc]
  | cons c l₁ ih => simp [ih, and_assoc]

/-- A segment holds for links that agree with `L` on the links it reads: `next` of its first
node and of `l`, `prev` of `l` and of its last node. -/
theorem Seg.transport (h : Seg L x l y)
    (hnext : ∀ u, (u = x ∨ ∃ a ∈ l, u = some a) → L'.next u = L.next u)
    (hprev : ∀ v, (v = y ∨ ∃ a ∈ l, v = some a) → L'.prev v = L.prev v) : Seg L' x l y := by
  induction l generalizing x with
  | nil =>
    obtain ⟨hn, hp⟩ := h
    exact ⟨(hnext x (.inl rfl)).trans hn, (hprev y (.inl rfl)).trans hp⟩
  | cons a l ih =>
    obtain ⟨hn, hp, hs⟩ := h
    refine ⟨(hnext x (.inl rfl)).trans hn, (hprev (some a) (.inr ⟨a, by simp, rfl⟩)).trans hp, ?_⟩
    refine ih hs (fun u hu => hnext u ?_) (fun v hv => hprev v ?_)
    · rcases hu with rfl | ⟨c, hc, rfl⟩
      · exact .inr ⟨a, by simp, rfl⟩
      · exact .inr ⟨c, List.mem_cons_of_mem a hc, rfl⟩
    · rcases hv with rfl | ⟨c, hc, rfl⟩
      · exact .inl rfl
      · exact .inr ⟨c, List.mem_cons_of_mem a hc, rfl⟩

/-- Read backwards, a segment runs from `y` through the reversed nodes to `x`. -/
theorem Seg.swap (h : Seg L x l y) : Seg L.swap y l.reverse x := by
  induction l generalizing x with
  | nil => exact ⟨h.2, h.1⟩
  | cons a l ih =>
    obtain ⟨hn, hp, hs⟩ := h
    rw [List.reverse_cons, seg_append_cons]
    exact ⟨ih hs, hp, hn⟩

/-- The node before the end of a non-empty segment is one of its nodes. -/
theorem Seg.prev_end_mem {a : ι} (h : Seg L x (a :: l) y) :
    ∃ c ∈ a :: l, L.prev y = some c := by
  induction l generalizing x a with
  | nil => exact ⟨a, by simp, h.2.2.2⟩
  | cons c l ih =>
    obtain ⟨c', hc', heq⟩ := ih h.2.2
    exact ⟨c', List.mem_cons_of_mem a hc', heq⟩

/-- The node after the start of a segment is its first node, or its end when it is empty. -/
theorem Seg.next_start (h : Seg L x l y) : L.next x = y ∨ ∃ c ∈ l, L.next x = some c := by
  cases l with
  | nil => exact .inl h.1
  | cons a l => exact .inr ⟨a, by simp, h.1⟩

/-! ## Inserting and taking out nodes -/

section Edit

variable [DecidableEq ι]

namespace Links

/-- `x->next = y`. -/
def setNext (L : Links ι) (x y : Option ι) : Links ι := ⟨Function.update L.next x y, L.prev⟩

/-- `x->prev = y`. -/
def setPrev (L : Links ι) (x y : Option ι) : Links ι := ⟨L.next, Function.update L.prev x y⟩

/-- Insert `b` after the head:
`b->next = head.next; b->prev = &head; head.next->prev = b; head.next = b;`. -/
def pushFront (L : Links ι) (b : ι) : Links ι :=
  let L := L.setNext (some b) (L.next none)
  let L := L.setPrev (some b) none
  let L := L.setPrev (L.next none) (some b)
  L.setNext none (some b)

/-- Take `b` out: `b->next->prev = b->prev; b->prev->next = b->next;`. -/
def unlink (L : Links ι) (b : ι) : Links ι :=
  let L := L.setPrev (L.next (some b)) (L.prev (some b))
  L.setNext (L.prev (some b)) (L.next (some b))

@[simp] theorem setNext_next (L : Links ι) (x y : Option ι) :
    (L.setNext x y).next = Function.update L.next x y := rfl

@[simp] theorem setNext_prev (L : Links ι) (x y : Option ι) : (L.setNext x y).prev = L.prev := rfl

@[simp] theorem setPrev_next (L : Links ι) (x y : Option ι) : (L.setPrev x y).next = L.next := rfl

@[simp] theorem setPrev_prev (L : Links ι) (x y : Option ι) :
    (L.setPrev x y).prev = Function.update L.prev x y := rfl

end Links


/-- Inserting a node that is not in the list after the head puts it first. -/
theorem Repr.pushFront {b : ι} (h : Repr L l) (hb : b ∉ l) : Repr (L.pushFront b) (b :: l) := by
  refine ⟨List.nodup_cons.mpr ⟨hb, h.nodup⟩, ?_⟩
  have hs := h.seg
  cases l with
  | nil =>
    -- the head pointed at itself both ways
    obtain ⟨hn, -⟩ := hs
    simp [Links.pushFront, hn]
  | cons a l =>
    obtain ⟨hn, hp, hs⟩ := hs
    have hba : b ≠ a := fun h => hb (h ▸ List.mem_cons_self)
    have hbl : b ∉ l := fun h => hb (List.mem_cons_of_mem a h)
    have hal : a ∉ l := (List.nodup_cons.mp h.nodup).1
    have hba' : some b ≠ some a := by simpa using hba
    refine ⟨by simp [Links.pushFront], by simp [Links.pushFront, hn, hba'], ?_⟩
    refine ⟨by simp [Links.pushFront, hn], by simp [Links.pushFront, hn], ?_⟩
    -- the rest of the list reads none of the four links written
    refine hs.transport (fun u hu => ?_) (fun v hv => ?_)
    · have hub : u ≠ some b := by
        rintro rfl
        rcases hu with h | ⟨c, hc, h⟩
        · exact hba (Option.some.inj h)
        · exact hbl (Option.some.inj h ▸ hc)
      have hun : u ≠ none := by
        rcases hu with rfl | ⟨c, _, rfl⟩ <;> simp
      simp [Links.pushFront, hub, hun]
    · have hvb : v ≠ some b := by
        rintro rfl
        rcases hv with h | ⟨c, hc, h⟩
        · cases h
        · exact hbl (Option.some.inj h ▸ hc)
      have hva : v ≠ some a := by
        rintro rfl
        rcases hv with h | ⟨c, hc, h⟩
        · cases h
        · exact hal (Option.some.inj h ▸ hc)
      simp [Links.pushFront, hn, hvb, hva]

/-- Once `q` is not `b`, unlinking `b` links its neighbours `p` and `q` to each other. -/
theorem Links.unlink_eq {b : ι} (hq : L.next (some b) ≠ some b) :
    L.unlink b = (L.setPrev (L.next (some b)) (L.prev (some b))).setNext (L.prev (some b))
      (L.next (some b)) := by
  simp [Links.unlink, Function.update_of_ne hq.symm]

/-- Two segments that meet at `b` make one without `b` once `b`'s neighbours are linked to each
other. -/
theorem Seg.join {b : ι} {l₁ l₂ : List ι} (h₁ : Seg L x l₁ (some b)) (h₂ : Seg L (some b) l₂ y)
    (hnd : (l₁ ++ b :: l₂).Nodup) (hx : ∀ a ∈ l₁ ++ b :: l₂, x ≠ some a)
    (hy : ∀ a ∈ l₁ ++ b :: l₂, y ≠ some a) :
    Seg ((L.setPrev (L.next (some b)) (L.prev (some b))).setNext (L.prev (some b))
      (L.next (some b))) x (l₁ ++ l₂) y := by
  induction l₁ generalizing x with
  | nil =>
    obtain ⟨hxb, hbx⟩ := h₁
    rw [hbx]
    cases l₂ with
    | nil =>
      obtain ⟨hby, -⟩ := h₂
      simp [hby]
    | cons c l₃ =>
      obtain ⟨hbc, -, hs⟩ := h₂
      rw [hbc]
      have hxc : x ≠ some c := hx c (by simp)
      refine ⟨by simp, by simp, ?_⟩
      -- past `c` nothing was relinked
      have hcl : c ∉ l₃ := (List.nodup_cons.mp (List.nodup_cons.mp hnd).2).1
      refine hs.transport (fun u hu => ?_) (fun v hv => ?_)
      · have hux : u ≠ x := by
          rcases hu with rfl | ⟨a, ha, rfl⟩
          · exact hxc.symm
          · exact (hx a (by simp [ha])).symm
        simp [hux]
      · have hvc : v ≠ some c := by
          rcases hv with rfl | ⟨a, ha, rfl⟩
          · exact hy c (by simp)
          · exact fun h => hcl (Option.some.inj h ▸ ha)
        simp [hvc]
  | cons a l₁ ih =>
    obtain ⟨hxa, hax, hs⟩ := h₁
    have hnd' : (l₁ ++ b :: l₂).Nodup := (List.nodup_cons.mp hnd).2
    have ha : a ∉ l₁ ++ b :: l₂ := (List.nodup_cons.mp hnd).1
    -- `b`'s neighbour before it is among `a :: l₁`, after it among `l₂` or the end
    have hp : L.prev (some b) ≠ x := by
      obtain ⟨c, hc, heq⟩ := Seg.prev_end_mem (show Seg L x (a :: l₁) (some b) from ⟨hxa, hax, hs⟩)
      rw [heq]
      exact (hx c (by simp at hc ⊢; tauto)).symm
    have hq : L.next (some b) ≠ some a := by
      rcases h₂.next_start with heq | ⟨c, hc, heq⟩
      · rw [heq]
        exact hy a (by simp)
      · rw [heq]
        exact fun h => ha (Option.some.inj h ▸ by simp [hc])
    refine ⟨by simp [hp.symm, hxa], by simp [hq.symm, hax], ?_⟩
    refine ih hs hnd' (fun c hc h => ha (Option.some.inj h ▸ hc)) (fun c hc => hy c (by simp [hc]))

/-- Taking a node out of the list erases it. -/
theorem Repr.unlink {b : ι} (h : Repr L l) (hb : b ∈ l) : Repr (L.unlink b) (l.erase b) := by
  have hnd := h.nodup.erase b
  obtain ⟨l₁, l₂, rfl⟩ := List.append_of_mem hb
  have hb₁ : b ∉ l₁ := fun hb₁ =>
    (List.nodup_append.mp h.nodup).2.2 b hb₁ b List.mem_cons_self rfl
  have hb₂ : b ∉ l₂ := (List.nodup_cons.mp (List.nodup_append.mp h.nodup).2.1).1
  rw [List.erase_append_right _ hb₁, List.erase_cons_head] at hnd ⊢
  obtain ⟨h₁, h₂⟩ := (seg_append_cons l₁ b l₂).mp h.seg
  -- `b`'s neighbour after it is not `b`
  have hq : L.next (some b) ≠ some b := by
    rcases h₂.next_start with heq | ⟨c, hc, heq⟩
    · rw [heq]
      simp
    · rw [heq]
      exact fun h => hb₂ (Option.some.inj h ▸ hc)
  rw [Links.unlink_eq hq]
  exact ⟨hnd, Seg.join h₁ h₂ h.nodup (by simp) (by simp)⟩

/-- Inserting distinct new nodes one after another after the head, as a loop does. -/
theorem Repr.foldl_pushFront {bs : List ι} (h : Repr L l) (hbs : bs.Nodup)
    (hdisj : ∀ b ∈ bs, b ∉ l) : Repr (bs.foldl Links.pushFront L) (bs.reverse ++ l) := by
  induction bs generalizing L l with
  | nil => exact h
  | cons b bs ih =>
    have hb := hdisj b List.mem_cons_self
    have hrest := ih (h.pushFront hb) (List.nodup_cons.mp hbs).2 fun c hc => by
      have hcb : c ≠ b := fun hcb => (List.nodup_cons.mp hbs).1 (hcb ▸ hc)
      simpa [hcb] using hdisj c (List.mem_cons_of_mem b hc)
    simpa using hrest

end Edit

/-! ## Walking the list -/

/-- `for(b = start; b != head; b = step(b)) if(p(b)) return b;`: the first node from `start` on
that `p` holds of, or `none` at the head. The fuel bounds the nodes visited. -/
def walk (step : Option ι → Option ι) (p : ι → Bool) : ℕ → Option ι → Option ι
  | 0, _ => none
  | _ + 1, none => none
  | fuel + 1, some b => if p b then some b else walk step p fuel (step (some b))

/-- Walking a segment to the head finds the first of its nodes that `p` holds of. -/
theorem Seg.walk_next (h : Seg L x l none) (p : ι → Bool) {fuel : ℕ} (hfuel : l.length ≤ fuel) :
    walk L.next p fuel (L.next x) = l.find? p := by
  induction l generalizing x fuel with
  | nil =>
    rw [h.1]
    cases fuel <;> rfl
  | cons a l ih =>
    obtain ⟨hxa, -, hs⟩ := h
    obtain ⟨fuel, rfl⟩ : ∃ f, fuel = f + 1 := ⟨fuel - 1, by simp at hfuel; omega⟩
    rw [hxa, walk, List.find?_cons, ih hs (by simpa using hfuel)]
    cases p a <;> rfl

/-- Following `next` from the head finds the first node of the list that `p` holds of. -/
theorem Repr.walk_next (h : Repr L l) (p : ι → Bool) {fuel : ℕ} (hfuel : l.length ≤ fuel) :
    walk L.next p fuel (L.next none) = l.find? p :=
  h.seg.walk_next p hfuel

/-- Following `prev` from the head finds the last node of the list that `p` holds of. -/
theorem Repr.walk_prev (h : Repr L l) (p : ι → Bool) {fuel : ℕ} (hfuel : l.length ≤ fuel) :
    walk L.prev p fuel (L.prev none) = l.reverse.find? p :=
  h.seg.swap.walk_next p (by simpa using hfuel)

end Xv6.DList
