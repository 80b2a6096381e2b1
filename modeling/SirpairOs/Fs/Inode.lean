import SirpairOs.Fs.Kernel

/-! The block and inode layers of `kernel/fs.c`. -/
namespace SirpairOs.Fs

def readsb : KProg Superblock := do
  let bp ← bread 1
  brelse 1
  pure (Superblock.decode bp)

def bzero (bno : Nat) : KProg Unit := do
  let _ ← bread bno
  logWrite bno Bytes.zero
  brelse bno

/-- The inner loop of `balloc`: the first clear bit among the first `limit`. -/
def freeBit (bitmap : Block) (limit : Nat) : Option Nat :=
  (List.range limit).find? fun bi => !bitmap.bit bi

/-- The outer loop of `balloc` over the remaining values of `b`. -/
def ballocFrom (sb : Superblock) : List Nat → KProg Nat
  | [] => panic .outOfBlocks
  | b :: rest => do
    let bp ← bread (BBLOCK b sb.ninodes)
    match freeBit bp (min BPB (sb.size - b)) with
    | some bi => do
      logWrite (BBLOCK b sb.ninodes) (bp.setBit bi)
      brelse (BBLOCK b sb.ninodes)
      bzero (b + bi)
      pure (b + bi)
    | none => do
      brelse (BBLOCK b sb.ninodes)
      ballocFrom sb rest

/-- The values `0, BPB, 2 * BPB, ...` below `size`. -/
def bitmapStarts (size : Nat) : List Nat :=
  (List.range ((size + BPB - 1) / BPB)).map fun i => i * BPB

def balloc : KProg Nat := do
  let sb ← readsb
  ballocFrom sb (bitmapStarts sb.size)

def bfree (b : Nat) : KProg Unit := do
  let sb ← readsb
  let bp ← bread (BBLOCK b sb.ninodes)
  Prog.when (bp.bit (b % BPB) = false) (panic .freeingFree)
  logWrite (BBLOCK b sb.ninodes) (bp.clearBit (b % BPB))
  brelse (BBLOCK b sb.ninodes)

/-- The loop of `ialloc` over the remaining values of `inum`. -/
def iallocFrom (type : Int) : List Nat → KProg InodePtr
  | [] => panic .noInodes
  | inum :: rest => do
    let bp ← bread (IBLOCK inum)
    if (Dinode.decode bp (inum % IPB)).type = 0 then do
      logWrite (IBLOCK inum) (Dinode.encode bp (inum % IPB) { Dinode.zero with type := type })
      brelse (IBLOCK inum)
      iget inum
    else do
      brelse (IBLOCK inum)
      iallocFrom type rest

def ialloc (type : Int) : KProg InodePtr := do
  let sb ← readsb
  iallocFrom type ((List.range (sb.ninodes - 1)).map fun i => i + 1)

def iupdate (ip : InodePtr) : KProg Unit := do
  let e ← getInode ip
  let bp ← bread (IBLOCK e.inum)
  logWrite (IBLOCK e.inum) (Dinode.encode bp (e.inum % IPB) e.din)
  brelse (IBLOCK e.inum)

def ilock (ip : InodePtr) : KProg Unit := do
  let valid ← lockInode ip
  Prog.when (valid = false) do
    let e ← getInode ip
    let bp ← bread (IBLOCK e.inum)
    setDin ip (Dinode.decode bp (e.inum % IPB))
    brelse (IBLOCK e.inum)
    setValid ip
    let e ← getInode ip
    Prog.when (e.din.type = 0) (panic .ilockNoType)

def bfreeAll : List Nat → KProg Unit
  | [] => pure ()
  | addr :: rest => do
    Prog.when (addr ≠ 0) (bfree addr)
    bfreeAll rest

def entries (bp : Block) : List Nat := (List.range NINDIRECT).map fun j => bp.num (4 * j) 4

def setAddr (ip : InodePtr) (j : Fin (NDIRECT + 2)) (addr : Nat) : KProg Unit := do
  let e ← getInode ip
  setDin ip { e.din with addrs := Function.update e.din.addrs j addr }

def truncDirect (ip : InodePtr) : List (Fin (NDIRECT + 2)) → KProg Unit
  | [] => pure ()
  | i :: rest => do
    let e ← getInode ip
    Prog.when (e.din.addrs i ≠ 0) do
      bfree (e.din.addrs i)
      setAddr ip i 0
    truncDirect ip rest

/-- Free the entries of an index block and the block itself. -/
def truncIndex (addr : Nat) : KProg Unit := do
  let bp ← bread addr
  bfreeAll (entries bp)
  brelse addr
  bfree addr

/-- The loop of `itrunc` over the entries of the double-indirect block. -/
def truncIndexes : List Nat → KProg Unit
  | [] => pure ()
  | addr :: rest => do
    Prog.when (addr ≠ 0) (truncIndex addr)
    truncIndexes rest

def directs : List (Fin (NDIRECT + 2)) := (List.finRange NDIRECT).map (Fin.castAdd 2)

def itrunc (ip : InodePtr) : KProg Unit := do
  truncDirect ip directs
  let e ← getInode ip
  Prog.when (e.din.addrs INDIRECT ≠ 0) do
    truncIndex (e.din.addrs INDIRECT)
    setAddr ip INDIRECT 0
  let e ← getInode ip
  Prog.when (e.din.addrs DINDIRECT ≠ 0) do
    let dbp ← bread (e.din.addrs DINDIRECT)
    truncIndexes (entries dbp)
    brelse (e.din.addrs DINDIRECT)
    bfree (e.din.addrs DINDIRECT)
    setAddr ip DINDIRECT 0
  let e ← getInode ip
  setDin ip { e.din with size := 0 }
  iupdate ip

/-- Drop a reference to an in-memory inode. If that was the last reference and
the inode has no links to it, free the inode (and its content) on disk. -/
def iput (ip : InodePtr) : KProg Unit := do
  let free ← putRef ip
  Prog.when (free = true) do
    itrunc ip
    let e ← getInode ip
    setDin ip { e.din with type := 0 }
    iupdate ip
    dropRef ip

def iunlockput (ip : InodePtr) : KProg Unit := do
  iunlock ip
  iput ip

/-- Entry `j` of the index block `addr`, allocated when it is zero. -/
def mapEntry (addr j : Nat) : KProg Nat := do
  let bp ← bread addr
  let old := bp.num (4 * j) 4
  if old = 0 then do
    let new ← balloc
    logWrite addr (bp.setNum (4 * j) 4 new)
    brelse addr
    pure new
  else do
    brelse addr
    pure old

/-- `ip->addrs[j]`, allocated when it is zero. -/
def mapTop (ip : InodePtr) (j : Fin (NDIRECT + 2)) : KProg Nat := do
  let e ← getInode ip
  if e.din.addrs j = 0 then do
    let new ← balloc
    setAddr ip j new
    pure new
  else pure (e.din.addrs j)

theorem direct_lt {bn : Nat} (direct : bn < NDIRECT) : bn < NDIRECT + 2 := by omega

/-- Return the disk block address of the nth block in inode `ip`. If there is no
such block, `bmap` allocates one. -/
def bmap (ip : InodePtr) (bn : Nat) : KProg Nat :=
  if h : bn < NDIRECT then mapTop ip ⟨bn, direct_lt h⟩
  else if bn - NDIRECT < NINDIRECT then do
    let addr ← mapTop ip INDIRECT
    mapEntry addr (bn - NDIRECT)
  else if bn - NDIRECT - NINDIRECT < NDINDIRECT then do
    let addr ← mapTop ip DINDIRECT
    let addr ← mapEntry addr ((bn - NDIRECT - NINDIRECT) / NINDIRECT)
    mapEntry addr ((bn - NDIRECT - NINDIRECT) % NINDIRECT)
  else panic .bmapRange

/-- Return mapped disk block for reading without allocating new blocks. Returns 0
when the logical block is a hole or not mapped. -/
def bmapRead (ip : InodePtr) (bn : Nat) : KProg Nat := do
  let e ← getInode ip
  if h : bn < NDIRECT then pure (e.din.addrs ⟨bn, direct_lt h⟩)
  else if bn - NDIRECT < NINDIRECT then
    if e.din.addrs INDIRECT = 0 then pure 0
    else do
      let bp ← bread (e.din.addrs INDIRECT)
      brelse (e.din.addrs INDIRECT)
      pure (bp.num (4 * (bn - NDIRECT)) 4)
  else if bn - NDIRECT - NINDIRECT < NDINDIRECT then
    if e.din.addrs DINDIRECT = 0 then pure 0
    else do
      let dbp ← bread (e.din.addrs DINDIRECT)
      let addr := dbp.num (4 * ((bn - NDIRECT - NINDIRECT) / NINDIRECT)) 4
      if addr = 0 then do
        brelse (e.din.addrs DINDIRECT)
        pure 0
      else do
        let bp ← bread addr
        brelse addr
        brelse (e.din.addrs DINDIRECT)
        pure (bp.num (4 * ((bn - NDIRECT - NINDIRECT) % NINDIRECT)) 4)
  else pure 0

/-- The loop of `readi`: the `n` bytes from `off` on. Each round reads at least
one byte, so `n` rounds are enough. -/
def readLoop (ip : InodePtr) : Nat → Nat → Nat → KProg (List UInt8)
  | 0, _, _ => pure []
  | fuel + 1, off, n =>
    if n = 0 then pure []
    else do
      let m := min n (BSIZE - off % BSIZE)
      let addr ← bmapRead ip (off / BSIZE)
      if addr = 0 then do
        let rest ← readLoop ip fuel (off + m) (n - m)
        pure (List.replicate m 0 ++ rest)
      else do
        let bp ← bread addr
        brelse addr
        let rest ← readLoop ip fuel (off + m) (n - m)
        pure (bp.slice (off % BSIZE) m ++ rest)

/-- `devsw[ip->major].read`; the drivers release the inode while they wait. -/
def devRead (ip : InodePtr) (major : Int) (n : Nat) : KProg (Option (List UInt8)) :=
  if major < 0 ∨ major ≥ NDEV then pure none
  else do
    let driver ← devsw major.toNat
    match driver with
    | none => pure none
    | some read => do
      iunlock ip
      ilock ip
      pure (read n)

def readi (ip : InodePtr) (off n : Nat) : KProg (Option (List UInt8)) := do
  let e ← getInode ip
  if e.din.type = T_DEV then devRead ip e.din.major n
  else if off > e.din.size ∨ (off + n) % 2 ^ 32 < off then pure none
  else do
    let n := if off + n > e.din.size then e.din.size - off else n
    let bytes ← readLoop ip n off n
    pure (some bytes)

/-- The loop of `writei`; returns the final offset. -/
def writeLoop (ip : InodePtr) : Nat → Nat → List UInt8 → KProg Nat
  | 0, off, _ => pure off
  | fuel + 1, off, src =>
    if src = [] then pure off
    else do
      let addr ← bmap ip (off / BSIZE)
      let bp ← bread addr
      let m := min src.length (BSIZE - off % BSIZE)
      logWrite addr (bp.splice (off % BSIZE) (src.take m))
      brelse addr
      writeLoop ip fuel (off + m) (src.drop m)

/-- `devsw[ip->major].write`: both drivers release the inode, take all bytes and
lock it again. -/
def devWrite (ip : InodePtr) (major : Int) (n : Nat) : KProg (Option Nat) :=
  if major < 0 ∨ major ≥ NDEV then pure none
  else do
    let driver ← devsw major.toNat
    match driver with
    | none => pure none
    | some _ => do
      iunlock ip
      ilock ip
      pure (some n)

def writei (ip : InodePtr) (src : List UInt8) (off : Nat) : KProg (Option Nat) := do
  let e ← getInode ip
  if e.din.type = T_DEV then devWrite ip e.din.major src.length
  else if off > e.din.size ∨ (off + src.length) % 2 ^ 32 < off then pure none
  else if off + src.length > MAXFILE * BSIZE then pure none
  else do
    let off ← writeLoop ip src.length off src
    let e ← getInode ip
    Prog.when (src.length > 0 ∧ off > e.din.size) do
      setDin ip { e.din with size := off }
      iupdate ip
    pure (some src.length)

end SirpairOs.Fs
