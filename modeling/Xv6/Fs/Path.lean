import Xv6.Fs.Dir

/-!
# Path elements (`fs.c`)

`skipelem` copies the next element of a path into `name` and returns the path after it, with
the slashes that follow skipped; `namex` calls it until it returns `0`, looking up each element
in the directory reached so far. What the walk does for a path depends only on the path's
elements: the maximal runs of bytes other than `/`, whatever slashes lie around them.

## Main definitions

* `components`: the elements of a path, the maximal `/`-free substrings in order.
* `skipelemNames`: the names `skipelem` copies out, called again on what it returns each time.
* `walk`: the loop of `namex` over a list of names: one `dirlookup` per name, except the last
  in `nameiparent` mode.

## Main results

* `skipelem_eq_none_iff`, `skipelem_eq_some`: one call of `skipelem` takes the first element.
* `namexLoop_eq_walk`: the loop of `namex` is the walk over the names of the path's elements.
* `skipelem_components`: iterating `skipelem` yields the elements, each cut to `DIRSIZ` bytes,
  every rest it returns starts with a byte other than `/`, and `namex` is the walk over them.
-/

namespace Xv6.Fs

/-- The elements of a path: the maximal runs of bytes other than `/`, in order. -/
def components (path : List UInt8) : List (List UInt8) :=
  (path.splitOn slash).filter (· ≠ [])

/-- The names `skipelem` copies into `name`, each call on the path the call before returned,
until it returns `0`; `none` when `fuel` calls do not get there. -/
def skipelemNames : ℕ → List UInt8 → Option (List (List UInt8))
  | 0, _ => none
  | fuel + 1, path =>
    match skipelem path with
    | none => some []
    | some (name, rest) => (skipelemNames fuel rest).map (name :: ·)

/-- The loop of `namex` over the names `names` from the inode `ip`: lock each directory,
look up the next name in it, and move on; in `nameiparent` mode the last name is not looked
up, and the directory that holds it is returned. -/
def walk (nameiparent : Bool) : Fin nInode → List (List UInt8) → List UInt8 →
    FsM (Option (Fin nInode × List UInt8))
  | ip, [], name =>
    if nameiparent then do
      iput ip
      pure none
    else pure (some (ip, name))
  | ip, n :: ns, _ => do
    ilock ip
    if (← getInode ip).din.type ≠ tDir then do
      iunlockput ip
      pure none
    else if nameiparent ∧ ns = [] then do
      iunlock ip
      pure (some (ip, n))
    else
      match ← dirlookup ip n with
      | none => do
        iunlockput ip
        pure none
      | some (next, _) => do
        iunlockput ip
        walk nameiparent next ns n

/-! ## The elements of a path -/

/-- The first byte after the run that `dropWhile` skips does not satisfy its test. -/
theorem not_of_dropWhile_eq_cons (p : UInt8 → Prop) [DecidablePred p] {l xs : List UInt8}
    {x : UInt8} (h : l.dropWhile (fun y => decide (p y)) = x :: xs) : ¬ p x := by
  have := List.head_dropWhile_not (fun y => decide (p y)) (l := l) (by simp [h])
  simpa [h] using this

/-- After the slashes `dropWhile` skips, the next byte is not a slash. -/
theorem head?_dropWhile_slash (l : List UInt8) : (l.dropWhile (· = slash)).head? ≠ some slash := by
  rcases h : l.dropWhile (· = slash) with _ | ⟨x, xs⟩
  · simp
  · simpa using not_of_dropWhile_eq_cons (· = slash) h

theorem components_nil : components [] = [] := by
  simp [components]

theorem components_slash_cons (l : List UInt8) : components (slash :: l) = components l := by
  simp [components, List.splitOn, List.splitOnP_cons_eq_if_modifyHead]

/-- Leading slashes add no element. -/
theorem components_dropWhile_slash (l : List UInt8) :
    components (l.dropWhile (· = slash)) = components l := by
  induction l with
  | nil => rfl
  | cons x xs ih =>
    by_cases hx : x = slash
    · subst hx
      rw [List.dropWhile_cons_of_pos (by simp), ih, components_slash_cons]
    · rw [List.dropWhile_cons_of_neg (by simpa using hx)]

/-- A path that starts with a byte other than `/` starts with an element: the bytes up to the
next `/`. -/
theorem components_of_head_ne {x : UInt8} (hx : x ≠ slash) (xs : List UInt8) :
    components (x :: xs) =
      (x :: xs).takeWhile (· ≠ slash) :: components ((x :: xs).dropWhile (· ≠ slash)) := by
  set elem := (x :: xs).takeWhile (· ≠ slash) with helem
  have hall : ∀ y ∈ elem, (y == slash) = false := fun y hy => by
    simpa using List.mem_takeWhile_imp hy
  have hne : elem ≠ [] := by simp [helem, hx]
  rcases htail : (x :: xs).dropWhile (· ≠ slash) with _ | ⟨t, ts⟩
  · -- no `/` after the element: it is the whole path
    have hpath : x :: xs = elem := by
      have := List.takeWhile_append_dropWhile (p := fun y => decide (y ≠ slash)) (l := x :: xs)
      rw [htail, List.append_nil] at this
      exact this.symm
    rw [components_nil, hpath, components, List.splitOn, List.splitOnP_eq_singleton hall]
    simp [hne]
  · -- the element ends at a `/`
    have ht : t = slash := by
      simpa using not_of_dropWhile_eq_cons (· ≠ slash) htail
    subst ht
    have hpath : x :: xs = elem ++ slash :: ts := by
      rw [← htail, helem, List.takeWhile_append_dropWhile]
    rw [hpath, components_slash_cons, components, List.splitOn,
      List.splitOnP_append_cons_of_forall_mem hall slash (by simp)]
    simp [hne, components, List.splitOn]

/-! ## One call of `skipelem` -/

theorem skipelem_eq_none_iff (path : List UInt8) : skipelem path = none ↔ components path = [] := by
  rw [← components_dropWhile_slash, skipelem]
  rcases hp : path.dropWhile (· = slash) with _ | ⟨x, xs⟩
  · simp [components_nil]
  · simp [components_of_head_ne (not_of_dropWhile_eq_cons (· = slash) hp)]

/-- A call of `skipelem` that finds an element copies it, cut to `DIRSIZ` bytes, and returns a
shorter path that starts with a byte other than `/` and holds the other elements. -/
theorem skipelem_eq_some {path name rest : List UInt8} (h : skipelem path = some (name, rest)) :
    ∃ elem, components path = elem :: components rest ∧ name = elem.take dirSiz ∧
      rest.head? ≠ some slash ∧ rest.length < path.length := by
  rw [skipelem] at h
  rcases hp : path.dropWhile (· = slash) with _ | ⟨x, xs⟩
  · simp [hp] at h
  · have hx : x ≠ slash := not_of_dropWhile_eq_cons (· = slash) hp
    simp only [hp, reduceCtorEq, if_false, Option.some.injEq, Prod.mk.injEq] at h
    obtain ⟨rfl, rfl⟩ := h
    refine ⟨_, ?_, rfl, ?_, ?_⟩
    · rw [← components_dropWhile_slash path, hp, components_of_head_ne hx,
        components_dropWhile_slash]
    · exact head?_dropWhile_slash _
    · -- the element's first byte at least is gone
      have h1 := List.length_dropWhile_le (· = slash) ((x :: xs).dropWhile (· ≠ slash))
      have h2 : ((x :: xs).dropWhile (· ≠ slash)).length ≤ xs.length := by
        rw [List.dropWhile_cons_of_pos (by simpa using hx)]
        exact List.length_dropWhile_le _ _
      have h3 := List.length_dropWhile_le (· = slash) path
      rw [hp, List.length_cons] at h3
      omega

/-- `components` of a path has at most as many elements as the path has bytes. -/
theorem length_components_le (path : List UInt8) : (components path).length ≤ path.length := by
  induction h : path.length using Nat.strong_induction_on generalizing path with
  | _ n ih =>
    rcases hs : skipelem path with _ | ⟨name, rest⟩
    · rw [(skipelem_eq_none_iff path).mp hs]
      simp
    · obtain ⟨elem, hc, -, -, hlen⟩ := skipelem_eq_some hs
      rw [hc, List.length_cons]
      have := ih rest.length (by omega) rest rfl
      omega

/-! ## Iterating `skipelem`, and `namex` -/

/-- With a call for each element and one more, iterating `skipelem` copies out the elements of
the path, each cut to `DIRSIZ` bytes, and then returns `0`. -/
theorem skipelemNames_eq (fuel : ℕ) (path : List UInt8) (hfuel : (components path).length < fuel) :
    skipelemNames fuel path = some ((components path).map (·.take dirSiz)) := by
  induction fuel generalizing path with
  | zero => omega
  | succ fuel ih =>
    rw [skipelemNames]
    rcases hs : skipelem path with _ | ⟨name, rest⟩
    · rw [(skipelem_eq_none_iff path).mp hs]
      rfl
    · obtain ⟨elem, hc, rfl, -, -⟩ := skipelem_eq_some hs
      rw [hc, List.length_cons] at hfuel
      rw [hc]
      dsimp only
      rw [ih rest (by omega)]
      rfl

/-- The loop of `namex` is the walk over the names of the path's elements, given a pass for
each element and one more. The induction is on the passes, each taking one element. -/
theorem namexLoop_eq_walk (nameiparent : Bool) (fuel : ℕ) (ip : Fin nInode)
    (path name : List UInt8) (hfuel : (components path).length < fuel) :
    namexLoop nameiparent fuel ip path name =
      walk nameiparent ip ((components path).map (·.take dirSiz)) name := by
  induction fuel generalizing ip path name with
  | zero => omega
  | succ fuel ih =>
    rw [namexLoop]
    rcases hs : skipelem path with _ | ⟨elem', rest⟩
    · rw [(skipelem_eq_none_iff path).mp hs]
      rfl
    · obtain ⟨elem, hc, rfl, hhead, -⟩ := skipelem_eq_some hs
      rw [hc, List.length_cons] at hfuel
      -- `*path == '\0'` after the element says that no element is left, since the rest does
      -- not start with `/`
      have hrest : rest = [] ↔ (components rest).map (·.take dirSiz) = [] := by
        rw [List.map_eq_nil_iff]
        constructor
        · rintro rfl
          exact components_nil
        · intro hnil
          rcases rest with _ | ⟨y, ys⟩
          · rfl
          · have hy : y ≠ slash := fun hy => hhead (by simp [hy])
            simp [components_of_head_ne hy] at hnil
      have hloop : ∀ ip name, namexLoop nameiparent fuel ip rest name =
          walk nameiparent ip ((components rest).map (·.take dirSiz)) name :=
        fun ip name => ih ip rest name (by omega)
      rw [hc, List.map_cons]
      simp only [hrest, hloop]
      exact (walk.eq_2 ..).symm

/-- Iterating `skipelem` from a path copies out exactly its elements, in order, each cut to
`DIRSIZ` bytes, and then returns `0`; every path it returns starts with a byte other than `/`;
and `namex` is the walk over those names from the root or the current directory, which looks
up one entry per element and, for `nameiparent`, stops before the last. -/
theorem skipelem_components (path : List UInt8) :
    skipelemNames (path.length + 1) path = some ((components path).map (·.take dirSiz)) ∧
      (∀ name rest, skipelem path = some (name, rest) → rest.head? ≠ some slash) ∧
      ∀ (cwd : Fin nInode) (nameiparent : Bool),
        namex cwd path nameiparent =
          (do
            let ip ← if path.headD 0 = slash then iget rootDev rootIno else idup cwd
            walk nameiparent ip ((components path).map (·.take dirSiz)) []) := by
  have hfuel : (components path).length < path.length + 1 :=
    Nat.lt_succ_of_le (length_components_le path)
  refine ⟨skipelemNames_eq _ path hfuel, fun name rest h => ?_, fun cwd nameiparent => ?_⟩
  · obtain ⟨-, -, -, hhead, -⟩ := skipelem_eq_some h
    exact hhead
  rw [namex]
  simp only [namexLoop_eq_walk nameiparent _ _ path [] hfuel]

/-- `///a//bb/` has the elements `a` and `bb`, and `skipelem` on it returns `a//bb/`'s rest
`bb/` after the first. -/
theorem skipelem_components_slashes :
    skipelemNames 10 [47, 47, 47, 97, 47, 47, 98, 98, 47] = some [[97], [98, 98]] ∧
      ((skipelem [47, 47, 47, 97, 47, 47, 98, 98, 47]).map Prod.snd).bind List.head? ≠ some slash := by
  obtain ⟨hnames, hrest, -⟩ := skipelem_components [47, 47, 47, 97, 47, 47, 98, 98, 47]
  refine ⟨hnames.trans (by decide +kernel), ?_⟩
  rcases h : skipelem [47, 47, 47, 97, 47, 47, 98, 98, 47] with _ | ⟨name, rest⟩
  · simp
  · exact hrest name rest h

end Xv6.Fs
