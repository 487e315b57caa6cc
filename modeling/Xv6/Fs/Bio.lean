import Xv6.Param
import Xv6.Lib.DList
import Xv6.Lib.Trace

/-!
# The buffer cache (`bio.c`)

The cache has `NBUF` buffers on a circular doubly linked list through `bcache.head`, most
recently used first. `bget` looks for the block from the front, and otherwise recycles the
buffer nearest the back that no one holds and the log has not pinned (`B_DIRTY`); `brelse`
moves a buffer whose last reference is dropped to the front. The list is modelled with
`DList.Links`, and the buffers' data, locks and disk queue are left out.

Calls hold `bcache.lock` while they touch the list and the reference counts, so the system
(`bioStep`) takes one call at a time. A call that needs a buffer held (`bwrite`, `brelse` and
the pin of `log_write`) is taken only for a buffer with a reference. Beside the cache, the
system keeps the list the links should hold, most recently released first, and when each buffer
was last released.

## Main definitions

* `Buf`, `BCache`, `binit`, `bget`, `bread`, `bwrite`, `brelse`: the cache and the functions
  of `bio.c`.
* `bioStep`, `bioBoot`: the calls after `binit`.

## Main results

* `bget_cached`, `bget_recycle`, `bget_panic`: what `bget` returns, read off the list.
* `CacheInv.reachable`: the links hold every buffer once, in order of release, and two buffers
  name the same block only when both name block 0 of device 0.
* `bcache_lru_safe`: over every run, the list, the identities, what `bget` returns and where
  `brelse` puts a buffer.
* `binit_buffers_share_identity`: after `binit` all buffers name block 0 of device 0.
-/

namespace Xv6.Bio

instance : NeZero nbuf := ⟨by decide⟩

/-- `B_VALID`: the buffer data has been read from disk. -/
def bValid : Int32 := 0x2

/-- `B_DIRTY`: the buffer data needs to be written to disk. -/
def bDirty : Int32 := 0x4

/-- `struct buf`: the fields the cache reads. -/
structure Buf where
  flags : Int32
  dev : UInt32
  blockno : UInt32
  refcnt : UInt32
  deriving DecidableEq, Repr

/-- `bcache`: the buffers and the links of the list through `bcache.head`. -/
structure BCache where
  buf : Fin nbuf → Buf
  links : DList.Links (Fin nbuf)

/-- Change the fields of buffer `b`. -/
def BCache.modify (c : BCache) (b : Fin nbuf) (f : Buf → Buf) : BCache :=
  { c with buf := Function.update c.buf b (f (c.buf b)) }

/-- `binit()` on the zeroed `bcache`: the head points at itself, and each buffer in turn is
inserted after it. -/
def binit : BCache :=
  let head : DList.Links (Fin nbuf) := ⟨fun _ => none, fun _ => none⟩
  ⟨fun _ => ⟨0, 0, 0, 0⟩, (List.finRange nbuf).foldl DList.Links.pushFront head⟩

/-- The buffer of block `blockno` of device `dev`. -/
def Buf.names (dev blockno : UInt32) (x : Buf) : Bool := x.dev = dev ∧ x.blockno = blockno

/-- A buffer `bget` may recycle: `refcnt == 0 && (flags & B_DIRTY) == 0`. -/
def Buf.free (x : Buf) : Bool := x.refcnt = 0 ∧ x.flags &&& bDirty = 0

/-- `bget(dev, blockno)`: the buffer of the block with one more reference, found from the front
of the list or recycled from the back, or the panic when there is none to recycle. -/
def bget (c : BCache) (dev blockno : UInt32) : Except String (BCache × Fin nbuf) :=
  -- Is the block already cached?
  match DList.walk c.links.next (fun b => (c.buf b).names dev blockno) nbuf (c.links.next none) with
  | some b => .ok (c.modify b fun x => { x with refcnt := x.refcnt + 1 }, b)
  | none =>
    -- Not cached; recycle an unused buffer.
    match DList.walk c.links.prev (fun b => (c.buf b).free) nbuf (c.links.prev none) with
    | some b => .ok (c.modify b fun _ => ⟨0, dev, blockno, 1⟩, b)
    | none => .error "bget: no buffers"

/-- What `iderw` leaves in `flags`: the data is valid and clean. -/
def iderw (flags : Int32) : Int32 := (flags ||| bValid) &&& ~~~bDirty

/-- `bread(dev, blockno)`: `bget`, and a disk read unless the data is valid. -/
def bread (c : BCache) (dev blockno : UInt32) : Except String (BCache × Fin nbuf) := do
  let (c, b) ← bget c dev blockno
  if (c.buf b).flags &&& bValid = 0 then
    return (c.modify b fun x => { x with flags := iderw x.flags }, b)
  return (c, b)

/-- `bwrite(b)`: mark the buffer dirty and write it; the write leaves it clean. -/
def bwrite (c : BCache) (b : Fin nbuf) : BCache :=
  c.modify b fun x => { x with flags := iderw (x.flags ||| bDirty) }

/-- The pin of `log_write(b)`: `b->flags |= B_DIRTY`. -/
def logWritePin (c : BCache) (b : Fin nbuf) : BCache :=
  c.modify b fun x => { x with flags := x.flags ||| bDirty }

/-- `brelse(b)`: drop a reference, and move the buffer to the front once no one holds it. -/
def brelse (c : BCache) (b : Fin nbuf) : BCache :=
  let c := c.modify b fun x => { x with refcnt := x.refcnt - 1 }
  if (c.buf b).refcnt = 0 then { c with links := (c.links.unlink b).pushFront b } else c

/-! ## The calls -/

/-- The cache, the list its links should hold, and the release times. -/
structure BioSys where
  cache : BCache
  /-- The buffers most recently released first. -/
  order : List (Fin nbuf)
  /-- When each buffer was last released; `binit` counts as releasing them in array order. -/
  relTime : Fin nbuf → ℕ
  clock : ℕ

/-- One call of the file system into the cache. -/
inductive BioEvent where
  | bread (dev blockno : UInt32)
  | bwrite (b : Fin nbuf)
  | logWritePin (b : Fin nbuf)
  | brelse (b : Fin nbuf)
  deriving DecidableEq, Repr

/-- One call, or `none` when it is not enabled: a call on a buffer no one holds. A panic stops
the system. -/
def bioStep : Except String BioSys → BioEvent → Option (Except String BioSys)
  | .error _, _ => none
  | .ok s, .bread dev blockno => some ((bread s.cache dev blockno).map fun r => { s with cache := r.1 })
  | .ok s, .bwrite b =>
    if (s.cache.buf b).refcnt = 0 then none else some (.ok { s with cache := bwrite s.cache b })
  | .ok s, .logWritePin b =>
    if (s.cache.buf b).refcnt = 0 then none else some (.ok { s with cache := logWritePin s.cache b })
  | .ok s, .brelse b =>
    if (s.cache.buf b).refcnt = 0 then none
    else
      let c := brelse s.cache b
      if (c.buf b).refcnt = 0 then
        some (.ok ⟨c, b :: s.order.erase b, Function.update s.relTime b s.clock, s.clock + 1⟩)
      else some (.ok { s with cache := c })

/-- The system after `binit`. -/
def bioBoot : BioSys := ⟨binit, (List.finRange nbuf).reverse, fun b => b.val, nbuf⟩

/-! ## What `bget` returns -/

variable {c : BCache} {l : List (Fin nbuf)} {dev blockno : UInt32} {b : Fin nbuf}

/-- A list of buffers without repeats has at most `NBUF` of them, so the walks of `bget` reach
the head. -/
theorem length_le_nbuf (h : l.Nodup) : l.length ≤ nbuf := by
  simpa using h.length_le_card

/-- The block is cached: `bget` takes another reference to the first buffer that names it. -/
theorem bget_cached (h : DList.Repr c.links l)
    (hf : l.find? (fun b => (c.buf b).names dev blockno) = some b) :
    bget c dev blockno = .ok (c.modify b fun x => { x with refcnt := x.refcnt + 1 }, b) := by
  rw [bget, h.walk_next _ (length_le_nbuf h.nodup), hf]

/-- The block is not cached: `bget` recycles the last buffer of the list that is free. -/
theorem bget_recycle (h : DList.Repr c.links l)
    (hf : l.find? (fun b => (c.buf b).names dev blockno) = none)
    (hr : l.reverse.find? (fun b => (c.buf b).free) = some b) :
    bget c dev blockno = .ok (c.modify b fun _ => ⟨0, dev, blockno, 1⟩, b) := by
  rw [bget, h.walk_next _ (length_le_nbuf h.nodup), hf]
  dsimp only
  rw [h.walk_prev _ (length_le_nbuf h.nodup), hr]

/-- Neither cached nor any buffer free: `bget` panics. -/
theorem bget_panic (h : DList.Repr c.links l)
    (hf : l.find? (fun b => (c.buf b).names dev blockno) = none)
    (hr : l.reverse.find? (fun b => (c.buf b).free) = none) :
    bget c dev blockno = .error "bget: no buffers" := by
  rw [bget, h.walk_next _ (length_le_nbuf h.nodup), hf]
  dsimp only
  rw [h.walk_prev _ (length_le_nbuf h.nodup), hr]

/-- In a list ordered by decreasing time, the last element `p` holds of has the earliest time
of those `p` holds of. -/
theorem le_of_find?_reverse {t : Fin nbuf → ℕ} {p : Fin nbuf → Bool}
    (hl : l.Pairwise fun a b => t b < t a) (hf : l.reverse.find? p = some b) {b' : Fin nbuf}
    (hb' : b' ∈ l) (hp : p b') : t b ≤ t b' := by
  obtain ⟨-, as, bs, hrev, has⟩ := List.find?_eq_some_iff_append.mp hf
  have hl' : l = bs.reverse ++ b :: as.reverse := by
    rw [← List.reverse_reverse l, hrev]
    simp
  rw [hl'] at hl hb'
  rcases List.mem_append.mp hb' with hb' | hb'
  · exact le_of_lt ((List.pairwise_append.mp hl).2.2 b' hb' b List.mem_cons_self)
  · rcases List.mem_cons.mp hb' with rfl | hb'
    · exact le_rfl
    · have := has b' (List.mem_reverse.mp hb')
      simp [hp] at this

/-! ## What every call keeps -/

/-- What holds in every state the calls reach. -/
structure CacheInv (s : BioSys) : Prop where
  repr : DList.Repr s.cache.links s.order
  mem : ∀ b, b ∈ s.order
  /-- Two buffers name the same block only when both name block 0 of device 0. -/
  names : ∀ i j, i ≠ j → (s.cache.buf i).dev = (s.cache.buf j).dev →
    (s.cache.buf i).blockno = (s.cache.buf j).blockno →
      (s.cache.buf i).dev = 0 ∧ (s.cache.buf i).blockno = 0
  lru : s.order.Pairwise fun a b => s.relTime b < s.relTime a
  clock : ∀ b, s.relTime b < s.clock

variable {s : BioSys}

/-- A change to a buffer that keeps its device and block number and the links. -/
theorem CacheInv.modify (hs : CacheInv s) (b : Fin nbuf) {f : Buf → Buf}
    (hdev : ∀ x, (f x).dev = x.dev) (hblk : ∀ x, (f x).blockno = x.blockno) :
    CacheInv { s with cache := s.cache.modify b f } := by
  have hname : ∀ i, ((s.cache.modify b f).buf i).dev = (s.cache.buf i).dev ∧
      ((s.cache.modify b f).buf i).blockno = (s.cache.buf i).blockno := by
    intro i
    by_cases hi : i = b
    · subst hi
      simp [BCache.modify, hdev, hblk]
    · simp [BCache.modify, hi]
  refine ⟨hs.repr, hs.mem, fun i j hij hd hb => ?_, hs.lru, hs.clock⟩
  simp only [(hname i).1, (hname i).2, (hname j).1, (hname j).2] at hd hb ⊢
  exact hs.names i j hij hd hb

/-- Recycling a buffer for a block no buffer names. -/
theorem CacheInv.recycle (hs : CacheInv s)
    (hf : s.order.find? (fun b => (s.cache.buf b).names dev blockno) = none) (b : Fin nbuf) :
    CacheInv { s with cache := s.cache.modify b fun _ => ⟨0, dev, blockno, 1⟩ } := by
  -- no buffer named the block before
  have hnone : ∀ j, ¬((s.cache.buf j).dev = dev ∧ (s.cache.buf j).blockno = blockno) := by
    intro j hj
    have := List.find?_eq_none.mp hf j (hs.mem j)
    simp [Buf.names, hj] at this
  refine ⟨hs.repr, hs.mem, fun i j hij hd hb => ?_, hs.lru, hs.clock⟩
  by_cases hi : i = b
  · subst hi
    have hj : j ≠ i := Ne.symm hij
    simp [BCache.modify, hj] at hd hb
    exact absurd ⟨hd.symm, hb.symm⟩ (hnone j)
  · by_cases hj : j = b
    · subst hj
      simp [BCache.modify, hi] at hd hb
      exact absurd ⟨hd, hb⟩ (hnone i)
    · simp only [BCache.modify, Function.update_of_ne hi, Function.update_of_ne hj] at hd hb ⊢
      exact hs.names i j hij hd hb

theorem bread_inv (hs : CacheInv s) {c : BCache} (h : bread s.cache dev blockno = .ok (c, b)) :
    CacheInv { s with cache := c } := by
  cases hg : bget s.cache dev blockno with
  | error e =>
    simp only [bread, hg, bind, Except.bind] at h
    cases h
  | ok r =>
    obtain ⟨c₁, b₁⟩ := r
    -- what `bget` did: another reference, or a recycled buffer
    have h₁ : CacheInv { s with cache := c₁ } := by
      cases hf : s.order.find? (fun b => (s.cache.buf b).names dev blockno) with
      | some b₀ =>
        rw [bget_cached hs.repr hf, Except.ok.injEq, Prod.mk.injEq] at hg
        obtain ⟨rfl, -⟩ := hg
        exact hs.modify b₀ (fun _ => rfl) (fun _ => rfl)
      | none =>
        cases hr : s.order.reverse.find? (fun b => (s.cache.buf b).free) with
        | some b₀ =>
          rw [bget_recycle hs.repr hf hr, Except.ok.injEq, Prod.mk.injEq] at hg
          obtain ⟨rfl, -⟩ := hg
          exact hs.recycle hf b₀
        | none => simp [bget_panic hs.repr hf hr] at hg
    -- then the disk read, which changes only the flags
    simp only [bread, hg, bind, Except.bind] at h
    split at h
    · simp only [pure, Except.pure, Except.ok.injEq, Prod.mk.injEq] at h
      obtain ⟨rfl, rfl⟩ := h
      exact h₁.modify _ (fun _ => rfl) (fun _ => rfl)
    · simp only [pure, Except.pure, Except.ok.injEq, Prod.mk.injEq] at h
      obtain ⟨rfl, rfl⟩ := h
      exact h₁

/-- Besides the links, `brelse` changes only the reference count of its buffer. -/
theorem brelse_buf (c : BCache) (b : Fin nbuf) :
    (brelse c b).buf = Function.update c.buf b { c.buf b with refcnt := (c.buf b).refcnt - 1 } := by
  simp only [brelse]
  split <;> rfl

/-- `brelse` keeps every buffer's device and block number. -/
theorem brelse_names (c : BCache) (b k : Fin nbuf) :
    ((brelse c b).buf k).dev = (c.buf k).dev ∧ ((brelse c b).buf k).blockno = (c.buf k).blockno := by
  rw [brelse_buf]
  by_cases hk : k = b
  · subst hk
    simp
  · simp [hk]

/-- `brelse` of the last reference moves the buffer to the front of the list. -/
theorem brelse_links_last (hs : CacheInv s) (hb : (s.cache.buf b).refcnt = 1) :
    DList.Repr (brelse s.cache b).links (b :: s.order.erase b) := by
  have hzero : ((s.cache.modify b fun x => { x with refcnt := x.refcnt - 1 }).buf b).refcnt = 0 := by
    simp [BCache.modify, hb]
  simp only [brelse, hzero, if_true]
  exact (hs.repr.unlink (hs.mem b)).pushFront (hs.repr.nodup.not_mem_erase)

/-- `brelse` of a reference that is not the last leaves the list alone. -/
theorem brelse_links_of_ne (hb : (s.cache.buf b).refcnt ≠ 1) :
    (brelse s.cache b).links = s.cache.links := by
  have hne : ((s.cache.modify b fun x => { x with refcnt := x.refcnt - 1 }).buf b).refcnt ≠ 0 := by
    simp only [BCache.modify, Function.update_self]
    intro h
    exact hb (by rw [← sub_eq_zero]; exact h)
  simp only [brelse, hne, if_false]
  rfl

theorem brelse_inv_last (hs : CacheInv s) (hb : (s.cache.buf b).refcnt = 1) :
    CacheInv ⟨brelse s.cache b, b :: s.order.erase b, Function.update s.relTime b s.clock,
      s.clock + 1⟩ := by
  refine ⟨brelse_links_last hs hb, fun i => ?_, fun i j hij hd hbl => ?_, ?_, fun i => ?_⟩
  · by_cases hi : i = b
    · exact hi ▸ List.mem_cons_self
    · exact List.mem_cons_of_mem b ((List.mem_erase_of_ne hi).mpr (hs.mem i))
  · -- `brelse` changes no device or block number
    have hbuf := brelse_names s.cache b
    simp only [(hbuf i).1, (hbuf i).2, (hbuf j).1, (hbuf j).2] at hd hbl ⊢
    exact hs.names i j hij hd hbl
  · -- `b` is released last, after every other buffer
    refine List.Pairwise.cons (fun a ha => ?_) ?_
    · have hab : a ≠ b := fun h => hs.repr.nodup.not_mem_erase (h ▸ ha)
      simp [hab, hs.clock a]
    · refine (hs.lru.sublist (List.erase_sublist)).imp_of_mem fun {a a'} ha ha' hlt => ?_
      have hab : a ≠ b := fun h => hs.repr.nodup.not_mem_erase (h ▸ ha)
      have hab' : a' ≠ b := fun h => hs.repr.nodup.not_mem_erase (h ▸ ha')
      simpa [hab, hab'] using hlt
  · by_cases hi : i = b
    · subst hi
      simp
    · simp [hi]
      exact le_of_lt (hs.clock i)

theorem bioStep_inv {e : BioEvent} {s' : BioSys} (hs : CacheInv s)
    (h : bioStep (.ok s) e = some (.ok s')) : CacheInv s' := by
  cases e with
  | bread dev blockno =>
    simp only [bioStep, Option.some.injEq] at h
    cases hr : bread s.cache dev blockno with
    | error e => simp [hr, Except.map] at h
    | ok r =>
      simp only [hr, Except.map, Except.ok.injEq] at h
      subst h
      exact bread_inv hs hr
  | bwrite b =>
    simp only [bioStep] at h
    split at h
    · cases h
    · simp only [Option.some.injEq, Except.ok.injEq] at h
      subst h
      exact hs.modify b (fun _ => rfl) (fun _ => rfl)
  | logWritePin b =>
    simp only [bioStep] at h
    split at h
    · cases h
    · simp only [Option.some.injEq, Except.ok.injEq] at h
      subst h
      exact hs.modify b (fun _ => rfl) (fun _ => rfl)
  | brelse b =>
    simp only [bioStep] at h
    split at h
    · cases h
    · rename_i hheld
      split at h
      · -- the last reference: the buffer moves to the front
        rename_i hzero
        simp only [Option.some.injEq, Except.ok.injEq] at h
        subst h
        have hone : (s.cache.buf b).refcnt = 1 := by
          simpa [brelse_buf, sub_eq_zero] using hzero
        exact brelse_inv_last hs hone
      · rename_i hzero
        simp only [Option.some.injEq, Except.ok.injEq] at h
        subst h
        -- another reference is left: the list stays
        have hne : (s.cache.buf b).refcnt ≠ 1 := by
          intro hone
          apply hzero
          simp [brelse_buf, hone]
        have hlinks := brelse_links_of_ne hne
        refine ⟨hlinks ▸ hs.repr, hs.mem, ?_, hs.lru, hs.clock⟩
        have hbuf := brelse_names s.cache b
        intro i j hij hd hbl
        simp only [(hbuf i).1, (hbuf i).2, (hbuf j).1, (hbuf j).2] at hd hbl ⊢
        exact hs.names i j hij hd hbl

theorem bioBoot_inv : CacheInv bioBoot := by
  have hhead : DList.Repr (⟨fun _ => none, fun _ => none⟩ : DList.Links (Fin nbuf)) [] :=
    ⟨List.nodup_nil, rfl, rfl⟩
  refine ⟨?_, fun b => by simp [bioBoot], fun i j _ _ _ => ⟨rfl, rfl⟩, ?_, fun b => b.isLt⟩
  · simpa [bioBoot, binit] using
      hhead.foldl_pushFront (List.nodup_finRange nbuf) (fun _ _ h => by cases h)
  · exact List.pairwise_reverse.mpr (List.pairwise_lt_finRange nbuf)

theorem CacheInv.reachable {s : BioSys} (hs : Trace.Reachable bioStep (.ok bioBoot) (.ok s)) :
    CacheInv s := by
  refine Trace.Reachable.induction_of_step (P := fun r => ∀ s, r = .ok s → CacheInv s)
    ?_ ?_ hs s rfl
  · rintro s hs
    cases hs
    exact bioBoot_inv
  · rintro (m | s) e r hP hstep s' rfl
    · simp [bioStep] at hstep
    · exact bioStep_inv (hP s rfl) hstep

/-! ## The cache over every run -/

/-- In every state the calls reach, the links hold each of the `NBUF` buffers once; two buffers
name the same block only when both name block 0 of device 0; `bget` returns the buffer of a
cached block, otherwise recycles the free buffer released least recently, and panics only when
no buffer is free; and `brelse` of a last reference moves the buffer to the front, while one of
another reference leaves the links alone. -/
theorem bcache_lru_safe {s : BioSys} (hs : Trace.Reachable bioStep (.ok bioBoot) (.ok s)) :
    (DList.Repr s.cache.links s.order ∧ ∀ b, b ∈ s.order) ∧
    (∀ i j, i ≠ j → (s.cache.buf i).dev = (s.cache.buf j).dev →
      (s.cache.buf i).blockno = (s.cache.buf j).blockno →
        (s.cache.buf i).dev = 0 ∧ (s.cache.buf i).blockno = 0) ∧
    (∀ dev blockno,
      ((∃ b, (s.cache.buf b).names dev blockno) → ∃ b, (s.cache.buf b).names dev blockno ∧
        bget s.cache dev blockno =
          .ok (s.cache.modify b fun x => { x with refcnt := x.refcnt + 1 }, b)) ∧
      ((∀ b, ¬(s.cache.buf b).names dev blockno) → (∃ b, (s.cache.buf b).free) →
        ∃ b, (s.cache.buf b).free ∧ (∀ b', (s.cache.buf b').free → s.relTime b ≤ s.relTime b') ∧
          bget s.cache dev blockno = .ok (s.cache.modify b fun _ => ⟨0, dev, blockno, 1⟩, b)) ∧
      ((∀ b, ¬(s.cache.buf b).names dev blockno) → (∀ b, ¬(s.cache.buf b).free) →
        bget s.cache dev blockno = .error "bget: no buffers")) ∧
    (∀ b, (s.cache.buf b).refcnt = 1 → DList.Repr (brelse s.cache b).links (b :: s.order.erase b)) ∧
    (∀ b, (s.cache.buf b).refcnt ≠ 1 → (brelse s.cache b).links = s.cache.links) := by
  have hinv := CacheInv.reachable hs
  refine ⟨⟨hinv.repr, hinv.mem⟩, hinv.names, fun dev blockno => ⟨?_, ?_, ?_⟩,
    fun b hb => brelse_links_last hinv hb, fun b hb => brelse_links_of_ne hb⟩
  · -- the walk from the front finds the first buffer of the list that names the block
    rintro ⟨b, hb⟩
    cases hf : s.order.find? (fun b => (s.cache.buf b).names dev blockno) with
    | none => simpa [hb] using List.find?_eq_none.mp hf b (hinv.mem b)
    | some b₀ => exact ⟨b₀, by simpa using List.find?_some hf, bget_cached hinv.repr hf⟩
  · rintro hnone ⟨b, hb⟩
    have hf : s.order.find? (fun b => (s.cache.buf b).names dev blockno) = none :=
      List.find?_eq_none.mpr fun b _ => hnone b
    -- the walk from the back finds the free buffer released least recently
    cases hr : s.order.reverse.find? (fun b => (s.cache.buf b).free) with
    | none => simpa [hb] using List.find?_eq_none.mp hr b (List.mem_reverse.mpr (hinv.mem b))
    | some b₀ =>
      exact ⟨b₀, by simpa using List.find?_some hr,
        fun b' hb' => le_of_find?_reverse hinv.lru hr (hinv.mem b') hb',
        bget_recycle hinv.repr hf hr⟩
  · intro hnone hfree
    exact bget_panic hinv.repr (List.find?_eq_none.mpr fun b _ => hnone b)
      (List.find?_eq_none.mpr fun b _ => hfree b)

/-- Block 5 of device 1 read, and its buffer released. -/
def readAndRelease : List BioEvent := [.bread 1 5, .brelse 0]

theorem bcache_lru_safe_cached : ∃ s,
    Trace.run bioStep (.ok bioBoot) readAndRelease = some (.ok s) ∧ ∃ b, (s.cache.buf b).names 1 5 ∧
      bget s.cache 1 5 = .ok (s.cache.modify b fun x => { x with refcnt := x.refcnt + 1 }, b) := by
  have hok : ((Trace.run bioStep (.ok bioBoot) readAndRelease).bind Except.toOption).isSome = true := by
    decide
  obtain ⟨s, hs⟩ := Option.isSome_iff_exists.mp hok
  obtain ⟨r, hr, hrs⟩ := Option.bind_eq_some_iff.mp hs
  cases r with
  | error e => cases hrs
  | ok s' =>
    obtain rfl : s' = s := Option.some.inj hrs
    -- the buffer that `bread` took names the block after `brelse`
    have hname : ((Trace.run bioStep (.ok bioBoot) readAndRelease).bind Except.toOption).map
        (fun s => decide (∃ b, (s.cache.buf b).names 1 5 = true)) = some true := by
      decide
    rw [hs, Option.map_some, Option.some.injEq] at hname
    have hreach : Trace.Reachable bioStep (.ok bioBoot) (.ok s') := Trace.Reachable.init.of_run hr
    exact ⟨s', hr, ((bcache_lru_safe hreach).2.2.1 1 5).1 (of_decide_eq_true hname)⟩

/-- `bcache` is zeroed before `binit`, which sets only the links: every buffer names block 0 of
device 0, so before any call two buffers name the same block. -/
theorem binit_buffers_share_identity :
    ∃ s, Trace.Reachable bioStep (.ok bioBoot) (.ok s) ∧ ∃ i j, i ≠ j ∧
      (s.cache.buf i).dev = (s.cache.buf j).dev ∧
      (s.cache.buf i).blockno = (s.cache.buf j).blockno :=
  ⟨bioBoot, .init, 0, 1, by decide, rfl, rfl⟩

end Xv6.Bio
