import SirpairOs.Lib.Bytes

/-! Constants of `include/param.h` and `include/fs.h`, and the ways the kernel
stops: a panic, or a sleep that nobody ends. -/
namespace SirpairOs

def NBUF : Nat := 10
def NINODE : Nat := 50
def NFILE : Nat := 100
def NOFILE : Nat := 16
def NPROC : Nat := 64
def NDEV : Nat := 10
def LOGSIZE : Nat := 10
def FS_SIZE : Nat := 65536
def BSIZE : Nat := 512
def ROOTINO : Nat := 1
def NDIRECT : Nat := 11
def NINDIRECT : Nat := 128
def NDINDIRECT : Nat := NINDIRECT * NINDIRECT
def MAXFILE : Nat := NDIRECT + NINDIRECT + NDINDIRECT
def IPB : Nat := 8
def BPB : Nat := 4096
def DIRSIZ : Nat := 14

abbrev Block : Type := Bytes 512

instance : NeZero NPROC := ⟨by decide⟩

/-- The `panic` calls of `bio.c`, `log.c`, `disk.c`, `usb.c`, `fs.c`, `file.c` and
`sysfile.c`; each constructor names one message. -/
inductive Panic where
  /-- `bget: no buffers` -/
  | noBuffers
  /-- `bwrite` -/
  | bwrite
  /-- `brelse` -/
  | brelse
  /-- `diskrw: buf not busy` -/
  | diskrwNotBusy
  /-- `diskrw: nothing to do` -/
  | diskrwNothing
  /-- `too big a transaction` -/
  | tooBig
  /-- `write outside of trans` -/
  | outsideTrans
  /-- `balloc: out of blocks` -/
  | outOfBlocks
  /-- `freeing free block` -/
  | freeingFree
  /-- `ialloc: no inodes` -/
  | noInodes
  /-- `iget: no inodes` -/
  | igetNoInodes
  /-- `ilock` -/
  | ilock
  /-- `ilock: no type` -/
  | ilockNoType
  /-- `iunlock` -/
  | iunlock
  /-- `iput busy` -/
  | iputBusy
  /-- `bmap: out of range` -/
  | bmapRange
  /-- `dirlookup not DIR` -/
  | dirlookupNotDir
  /-- `dirlink read` -/
  | dirlinkRead
  /-- `dirlink` -/
  | dirlink
  /-- `isdirempty: readi` -/
  | isdirempty
  /-- `unlink: nlink < 1` -/
  | unlinkNlink
  /-- `unlink: writei` -/
  | unlinkWritei
  /-- `create dots` -/
  | createDots
  /-- `create: dirlink` -/
  | createDirlink
  /-- `filedup` -/
  | filedup
  /-- `fileclose` -/
  | fileclose
  /-- `short filewrite` -/
  | shortFilewrite
  /-- `getcwd read` -/
  | getcwdRead
  /-- `loaduvm: addr must be page aligned` -/
  | unaligned
  /-- `usb: recover failed after EHCI reset` -/
  | usbRecover
  deriving DecidableEq, Repr

/-- Why a run of kernel code stopped before its end. -/
inductive Halt where
  | panic (which : Panic)
  /-- Sleeping on a lock that is taken. -/
  | asleep
  /-- A buffer was used by a process that does not hold it; the
  `bread`/`brelse` discipline of the callers excludes this. -/
  | misuse
  deriving DecidableEq, Repr

/-- `sleep` makes a process wait; every other halt stops the kernel. -/
def Halt.waits : Halt → Bool
  | .asleep => true
  | _ => false

end SirpairOs
