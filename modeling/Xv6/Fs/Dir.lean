import Xv6.Fs.Inode

/-!
# Directories and path names (`fs.c`)

A directory is an inode of type `T_DIR` whose data is a sequence of `struct dirent`. `dirlookup`
reads the entries one by one with `readi` and takes a reference to the inode of the first live
entry whose name matches; `dirlink` adds an entry in the first free slot, or at the end.
`namex` walks a path one element at a time from the root or from the current directory.

A path is the bytes of the C string before its NUL.

## Main definitions

* `namecmp`, `dirlookup`, `dirlink`, `skipelem`, `namex`, `namei`, `nameiparent`.
-/

namespace Xv6.Fs

/-- `namecmp(s, t)`: `strncmp` over `DIRSIZ` bytes. -/
def namecmp (s t : List UInt8) : Int := strncmp s t dirSiz

/-- The loop of `dirlookup` from offset `off` on: the first live entry named `name`, its inode
taken with `iget`, and its offset. -/
def dirlookupLoop (dp : Fin nInode) (name : List UInt8) :
    ℕ → UInt32 → FsM (Option (Fin nInode × UInt32))
  | 0, _ => pure none
  | fuel + 1, off => do
    let x ← getInode dp
    if off < x.din.size then do
      let (r, bytes) ← readi dp off (UInt32.ofNat direntSize)
      if r ≠ Int32.ofNat direntSize then throw "dirlookup read"
      let de := Dirent.ofBytes bytes
      if de.inum = 0 then dirlookupLoop dp name fuel (off + UInt32.ofNat direntSize)
      else if namecmp name de.name.toList = 0 then do
        -- entry matches path element
        let ip ← iget x.dev de.inum.toUInt32
        pure (some (ip, off))
      else dirlookupLoop dp name fuel (off + UInt32.ofNat direntSize)
    else pure none

/-- `dirlookup(dp, name, poff)`: the inode of the entry `name` of the directory, and the entry's
offset. -/
def dirlookup (dp : Fin nInode) (name : List UInt8) : FsM (Option (Fin nInode × UInt32)) := do
  let x ← getInode dp
  if x.din.type ≠ tDir then throw "dirlookup not DIR"
  dirlookupLoop dp name (x.din.size.toNat / direntSize + 1) 0

/-- The scan of `dirlink` for a free entry from offset `off` on; it stops at the first free one,
or at the first offset past the size. -/
def dirlinkScan (dp : Fin nInode) : ℕ → UInt32 → FsM UInt32
  | 0, off => pure off
  | fuel + 1, off => do
    if off < (← getInode dp).din.size then do
      let (r, bytes) ← readi dp off (UInt32.ofNat direntSize)
      if r ≠ Int32.ofNat direntSize then throw "dirlink read"
      if (Dirent.ofBytes bytes).inum = 0 then pure off
      else dirlinkScan dp fuel (off + UInt32.ofNat direntSize)
    else pure off

/-- `dirlink(dp, name, inum)`: add the entry, `-1` if the name is there already. -/
def dirlink (dp : Fin nInode) (name : List UInt8) (inum : UInt32) : FsM Int32 := do
  -- Check that name is not present.
  match ← dirlookup dp name with
  | some (ip, _) => do
    iput ip
    pure (-1)
  | none => do
    -- Look for an empty dirent.
    let off ← dirlinkScan dp ((← getInode dp).din.size.toNat / direntSize + 1) 0
    let de : Dirent := ⟨inum.toUInt16, strncpy name dirSiz⟩
    let r ← writei dp de.bytes off (UInt32.ofNat direntSize)
    if r ≠ Int32.ofNat direntSize then throw "dirlink"
    pure 0

/-- `skipelem(path, name)`: `none` when no element is left; otherwise the element, which is cut
to `DIRSIZ` bytes as the name buffer holds it, and the path after it and the slashes that
follow. -/
def skipelem (path : List UInt8) : Option (List UInt8 × List UInt8) :=
  let path := path.dropWhile (· = slash)
  if path = [] then none
  else
    let elem := path.takeWhile (· ≠ slash)
    some (elem.take dirSiz, (path.dropWhile (· ≠ slash)).dropWhile (· = slash))

/-- The loop of `namex` from inode `ip` and the rest `path`; it returns the inode and the last
element copied to `name`. -/
def namexLoop (nameiparent : Bool) : ℕ → Fin nInode → List UInt8 → List UInt8 →
    FsM (Option (Fin nInode × List UInt8))
  | 0, _, _, _ => pure none
  | fuel + 1, ip, path, name =>
    match skipelem path with
    | none =>
      if nameiparent then do
        iput ip
        pure none
      else pure (some (ip, name))
    | some (name, path) => do
      ilock ip
      if (← getInode ip).din.type ≠ tDir then do
        iunlockput ip
        pure none
      else if nameiparent ∧ path = [] then do
        -- Stop one level early.
        iunlock ip
        pure (some (ip, name))
      else
        match ← dirlookup ip name with
        | none => do
          iunlockput ip
          pure none
        | some (next, _) => do
          iunlockput ip
          namexLoop nameiparent fuel next path name

/-- `namex(path, nameiparent, name)`, for a process whose current directory is `cwd`. -/
def namex (cwd : Fin nInode) (path : List UInt8) (nameiparent : Bool) :
    FsM (Option (Fin nInode × List UInt8)) := do
  let ip ← if path.headD 0 = slash then iget rootDev rootIno else idup cwd
  namexLoop nameiparent (path.length + 1) ip path []

/-- `namei(path)`. -/
def namei (cwd : Fin nInode) (path : List UInt8) : FsM (Option (Fin nInode)) := do
  pure ((← namex cwd path false).map Prod.fst)

/-- `nameiparent(path, name)`: the parent directory and the last element. -/
def nameiparent (cwd : Fin nInode) (path : List UInt8) : FsM (Option (Fin nInode × List UInt8)) :=
  namex cwd path true

/-! ## Runs of `dirlookup` -/

/-- `readi` of entry `j` of a directory whose data are the entries `des`, all in blocks that are
there. -/
theorem run_readi_entry (s : FsState) (dp : Fin nInode) {des : List Dirent} {j : ℕ}
    (htype : (s.icache dp).din.type ≠ tDev)
    (hsize : direntSize * des.length ≤ (s.icache dp).din.size.toNat)
    (hmax : (s.icache dp).din.size.toNat ≤ maxFile * bSize)
    (hbytes : dataBytes s.disk (s.icache dp).din (direntSize * des.length) = entryBytes des)
    (hmapped : ∀ i < direntSize * des.length, blockAddr s.disk (s.icache dp).din (i / bSize) ≠ 0)
    (hj : j < des.length) :
    (readi dp (UInt32.ofNat (direntSize * j)) (UInt32.ofNat direntSize)).run s =
      .ok (((UInt32.ofNat direntSize).toInt32, des[j].bytes), s) := by
  have hmf : maxFile * bSize = 71680 := rfl
  have hd : direntSize = 16 := rfl
  have hU : UInt32.size = 4294967296 := rfl
  have hoff : (UInt32.ofNat (direntSize * j)).toNat = direntSize * j :=
    UInt32.toNat_ofNat_of_lt' (by rw [hd, hU]; rw [hd] at hsize; rw [hmf] at hmax; omega)
  have h16 : (UInt32.ofNat direntSize).toNat = direntSize := rfl
  have hend : direntSize * j + direntSize ≤ direntSize * des.length := by rw [hd]; omega
  rw [run_readi_mapped s dp htype (by rw [hoff, h16]; omega) hmax
    (fun i h₁ h₂ => hmapped i (by rw [hoff, h16] at h₂; omega)), hoff, h16,
    bytesFrom_eq_drop_take _ _ hend, hbytes, entryBytes_drop_take hj]

/-- Entry `k` of a directory of more than `k` entries starts inside it. -/
theorem entryOff_lt {size : UInt32} {k n : ℕ} (hk : k < n) (hsize : direntSize * n ≤ size.toNat) :
    UInt32.ofNat (direntSize * k) < size := by
  have hd : direntSize = 16 := rfl
  have hU : UInt32.size = 4294967296 := rfl
  have hs := UInt32.toNat_lt size
  rw [hd] at hsize ⊢
  rw [UInt32.lt_iff_toNat_lt, UInt32.toNat_ofNat_of_lt' (by omega)]
  omega

theorem entryOff_succ (k : ℕ) :
    UInt32.ofNat (direntSize * k) + UInt32.ofNat direntSize = UInt32.ofNat (direntSize * (k + 1)) := by
  rw [Nat.mul_succ, UInt32.ofNat_add]

/-- One pass of the scan of `dirlookup` over an entry it does not take: a free entry, or one of
another name. -/
theorem run_dirlookupLoop_pass (s : FsState) (dp : Fin nInode) (name : List UInt8) {fuel : ℕ}
    {off : UInt32} (hoff : off < (s.icache dp).din.size) {bytes : List UInt8} {s' : FsState}
    (hread : (readi dp off (UInt32.ofNat direntSize)).run s =
      .ok (((UInt32.ofNat direntSize).toInt32, bytes), s'))
    (hpass : (Dirent.ofBytes bytes).inum = 0 ∨
      namecmp name (Dirent.ofBytes bytes).name.toList ≠ 0) :
    (dirlookupLoop dp name (fuel + 1) off).run s =
      (dirlookupLoop dp name fuel (off + UInt32.ofNat direntSize)).run s' := by
  rw [dirlookupLoop, StateT.run_bind, run_getInode, StateExcept.ok_bind]
  dsimp only
  rw [if_pos hoff, StateT.run_bind, hread, StateExcept.ok_bind]
  dsimp only
  rw [if_neg (by decide)]
  by_cases hfree : (Dirent.ofBytes bytes).inum = 0
  · rw [if_pos hfree]
  · rw [if_neg hfree, if_neg (hpass.resolve_left hfree)]

/-- The pass of the scan of `dirlookup` at the entry it takes: a reference to the entry's inode,
on the device of the directory. -/
theorem run_dirlookupLoop_hit (s : FsState) (dp : Fin nInode) (name : List UInt8) {fuel : ℕ}
    {off : UInt32} (hoff : off < (s.icache dp).din.size) {bytes : List UInt8} {s' : FsState}
    (hread : (readi dp off (UInt32.ofNat direntSize)).run s =
      .ok (((UInt32.ofNat direntSize).toInt32, bytes), s'))
    (hlive : (Dirent.ofBytes bytes).inum ≠ 0)
    (hname : namecmp name (Dirent.ofBytes bytes).name.toList = 0) :
    (dirlookupLoop dp name (fuel + 1) off).run s =
      (do
        let ip ← iget (s.icache dp).dev (Dirent.ofBytes bytes).inum.toUInt32
        pure (some (ip, off))).run s' := by
  rw [dirlookupLoop, StateT.run_bind, run_getInode, StateExcept.ok_bind]
  dsimp only
  rw [if_pos hoff, StateT.run_bind, hread, StateExcept.ok_bind]
  dsimp only
  rw [if_neg (by decide), if_neg hlive, if_pos hname]

/-- The scan of `dirlookup` at the end of the directory finds nothing and changes nothing. -/
theorem run_dirlookupLoop_end (s : FsState) (dp : Fin nInode) (name : List UInt8) (fuel : ℕ)
    {off : UInt32} (hoff : ¬ off < (s.icache dp).din.size) :
    (dirlookupLoop dp name fuel off).run s = .ok (none, s) := by
  cases fuel with
  | zero => rfl
  | succ fuel =>
    rw [dirlookupLoop, StateT.run_bind, run_getInode, StateExcept.ok_bind]
    dsimp only
    rw [if_neg hoff]
    rfl

/-- The scan of `dirlookup` over entries `k` to `n - 1` of a directory of at least `n` entries,
none of which it takes and each read without a change: it goes on at entry `n`. -/
theorem run_dirlookupLoop_skip (s : FsState) (dp : Fin nInode) (name : List UInt8) {k n : ℕ}
    (hkn : k ≤ n) (hsize : direntSize * n ≤ (s.icache dp).din.size.toNat) (fuel : ℕ)
    (hread : ∀ i, k ≤ i → i < n → ∃ bytes,
      (readi dp (UInt32.ofNat (direntSize * i)) (UInt32.ofNat direntSize)).run s =
        .ok (((UInt32.ofNat direntSize).toInt32, bytes), s) ∧
      ((Dirent.ofBytes bytes).inum = 0 ∨ namecmp name (Dirent.ofBytes bytes).name.toList ≠ 0)) :
    (dirlookupLoop dp name (fuel + (n - k)) (UInt32.ofNat (direntSize * k))).run s =
      (dirlookupLoop dp name fuel (UInt32.ofNat (direntSize * n))).run s := by
  -- induction on the entries left, from entry `k` on
  induction hd : n - k generalizing k with
  | zero =>
    rw [show k = n by omega, Nat.add_zero]
  | succ d ih =>
    have hk : k < n := by omega
    obtain ⟨bytes, hrd, hpass⟩ := hread k le_rfl hk
    rw [show fuel + (d + 1) = fuel + d + 1 by omega,
      run_dirlookupLoop_pass s dp name (entryOff_lt hk hsize) hrd hpass, entryOff_succ]
    exact ih (by omega) (fun i h₁ h₂ => hread i (by omega) h₂) (by omega)

/-- The scan of `dirlookup` from entry `k` on, when entry `j` is the first live one named `name`:
it takes a reference to that entry's inode. -/
theorem run_dirlookupLoop_found (s : FsState) (dp : Fin nInode) (name : List UInt8)
    {des : List Dirent} (htype : (s.icache dp).din.type ≠ tDev)
    (hsize : direntSize * des.length ≤ (s.icache dp).din.size.toNat)
    (hmax : (s.icache dp).din.size.toNat ≤ maxFile * bSize)
    (hbytes : dataBytes s.disk (s.icache dp).din (direntSize * des.length) = entryBytes des)
    (hmapped : ∀ i < direntSize * des.length, blockAddr s.disk (s.icache dp).din (i / bSize) ≠ 0)
    {j : ℕ} (hj : j < des.length)
    (hhit : des[j].inum ≠ 0 ∧ namecmp name des[j].name.toList = 0) {fuel k : ℕ}
    (hskip : ∀ i (h : i < j), k ≤ i → des[i].inum = 0 ∨ namecmp name des[i].name.toList ≠ 0)
    (hkj : k ≤ j) (hfuel : j - k < fuel) :
    (dirlookupLoop dp name fuel (UInt32.ofNat (direntSize * k))).run s =
      (do
        let ip ← iget (s.icache dp).dev des[j].inum.toUInt32
        pure (some (ip, UInt32.ofNat (direntSize * j)))).run s := by
  have hread : ∀ i (h : i < des.length),
      (readi dp (UInt32.ofNat (direntSize * i)) (UInt32.ofNat direntSize)).run s =
        .ok (((UInt32.ofNat direntSize).toInt32, des[i].bytes), s) :=
    fun i h => run_readi_entry s dp htype hsize hmax hbytes hmapped h
  have hsizej : direntSize * j ≤ (s.icache dp).din.size.toNat :=
    le_trans (Nat.mul_le_mul_left _ hj.le) hsize
  obtain ⟨f, rfl⟩ : ∃ f, fuel = f + 1 + (j - k) := ⟨fuel - (j - k) - 1, by omega⟩
  -- the entries before `j` are passed over, and entry `j` is taken
  rw [run_dirlookupLoop_skip s dp name hkj hsizej (f + 1) fun i h₁ h₂ =>
      ⟨des[i].bytes, hread i (by omega), by rw [Dirent.ofBytes_bytes]; exact hskip i h₂ h₁⟩,
    run_dirlookupLoop_hit s dp name (entryOff_lt hj hsize) (hread j hj)
      (by rw [Dirent.ofBytes_bytes]; exact hhit.1) (by rw [Dirent.ofBytes_bytes]; exact hhit.2),
    Dirent.ofBytes_bytes]

/-- `dirlookup` of a directory is its scan from offset `0`. -/
theorem run_dirlookup_eq_loop (s : FsState) (dp : Fin nInode) (name : List UInt8)
    (htype : (s.icache dp).din.type = tDir) :
    (dirlookup dp name).run s =
      (dirlookupLoop dp name ((s.icache dp).din.size.toNat / direntSize + 1) 0).run s := by
  rw [dirlookup, StateT.run_bind, run_getInode, StateExcept.ok_bind]
  dsimp only
  rw [if_neg (by rw [htype]; exact not_not.mpr rfl)]

/-- `dirlookup` of a directory whose entry `j` is the first live one named `name`. -/
theorem run_dirlookup_found (s : FsState) (dp : Fin nInode) (name : List UInt8)
    {des : List Dirent} (htype : (s.icache dp).din.type = tDir)
    (hsize : direntSize * des.length ≤ (s.icache dp).din.size.toNat)
    (hmax : (s.icache dp).din.size.toNat ≤ maxFile * bSize)
    (hbytes : dataBytes s.disk (s.icache dp).din (direntSize * des.length) = entryBytes des)
    (hmapped : ∀ i < direntSize * des.length, blockAddr s.disk (s.icache dp).din (i / bSize) ≠ 0)
    {j : ℕ} (hj : j < des.length)
    (hhit : des[j].inum ≠ 0 ∧ namecmp name des[j].name.toList = 0)
    (hskip : ∀ i (h : i < j), des[i].inum = 0 ∨ namecmp name des[i].name.toList ≠ 0) :
    (dirlookup dp name).run s =
      (do
        let ip ← iget (s.icache dp).dev des[j].inum.toUInt32
        pure (some (ip, UInt32.ofNat (direntSize * j)))).run s := by
  have hd : direntSize = 16 := rfl
  have hloop := run_dirlookupLoop_found s dp name (by rw [htype]; decide) hsize hmax
    hbytes hmapped hj hhit (fun i h _ => hskip i h) (Nat.zero_le j)
    (show j - 0 < (s.icache dp).din.size.toNat / direntSize + 1 by rw [hd] at hsize ⊢; omega)
  rw [run_dirlookup_eq_loop s dp name htype]
  exact hloop

/-! ## Runs of `dirlink` -/

/-- `namex` of a path that starts with `/` walks it from the root. -/
theorem run_namex_root (s : FsState) (cwd : Fin nInode) {path : List UInt8} (nameiparent : Bool)
    (hroot : path.headD 0 = slash) :
    (namex cwd path nameiparent).run s =
      (do
        let ip ← iget rootDev rootIno
        namexLoop nameiparent (path.length + 1) ip path []).run s := by
  rw [namex, if_pos hroot]

/-- The loop of `namex` once no element is left: the inode reached, still referenced. -/
theorem run_namexLoop_done (s : FsState) (fuel : ℕ) (ip : Fin nInode) {path name : List UInt8}
    (hskip : skipelem path = none) :
    (namexLoop false (fuel + 1) ip path name).run s = .ok (some (ip, name), s) := by
  rw [namexLoop, hskip]
  rfl

/-- A pass of the loop of `namex` whose element the directory does not have: the directory is
unlocked and put, and the walk fails. -/
theorem run_namexLoop_miss (s : FsState) (nameiparent : Bool) (fuel : ℕ) (ip : Fin nInode)
    {path name elem rest : List UInt8} (hskip : skipelem path = some (elem, rest))
    {s₁ s₂ s₃ : FsState} (hlock : (ilock ip).run s = .ok ((), s₁))
    (hdir : (s₁.icache ip).din.type = tDir) (hlast : ¬ (nameiparent = true ∧ rest = []))
    (hlook : (dirlookup ip elem).run s₁ = .ok (none, s₂))
    (hput : (iunlockput ip).run s₂ = .ok ((), s₃)) :
    (namexLoop nameiparent (fuel + 1) ip path name).run s = .ok (none, s₃) := by
  rw [namexLoop, hskip]
  dsimp only
  rw [StateT.run_bind, hlock, StateExcept.ok_bind]
  dsimp only
  rw [StateT.run_bind, run_getInode, StateExcept.ok_bind]
  dsimp only
  rw [if_neg (by rw [hdir]; exact not_not.mpr rfl), if_neg hlast, StateT.run_bind, hlook,
    StateExcept.ok_bind]
  dsimp only
  rw [StateT.run_bind, hput, StateExcept.ok_bind]
  rfl

end Xv6.Fs
