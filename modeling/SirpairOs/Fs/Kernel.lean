import SirpairOs.Fs.Buffer
import SirpairOs.Fs.Layout

/-! The state of the file system code and its atomic steps. The block store is
seen through the buffer cache: `disk` is what `bread` returns, `holder` says
which process has a sector's buffer locked, and `log` is the in-memory log. -/
namespace SirpairOs

abbrev InodePtr : Type := Fin NINODE

abbrev FilePtr : Type := Fin NFILE

/-- `struct inode`; the device is always `ROOTDEV`. -/
structure Inode where
  inum : Nat
  /-- Reference count. -/
  ref : Int
  /-- `I_BUSY` -/
  busy : Bool
  /-- `I_VALID` -/
  valid : Bool
  /-- Copy of disk inode. -/
  din : Dinode

/-- Kinds of open files; pipes and sockets have no part in the file system. -/
inductive FileType where
  | none
  | inode
  deriving DecidableEq, Repr

structure File where
  type : FileType
  /-- Reference count. -/
  ref : Int
  readable : Bool
  writable : Bool
  ip : Option InodePtr
  off : Nat
  deriving DecidableEq

structure Proc where
  cwd : Option InodePtr
  ofile : Fin NOFILE → Option FilePtr

/-- A device driver: what it answers to a read of `n` bytes, where `none` is
`-1`. Both drivers there are take all bytes of a write. -/
abbrev Driver : Type := Nat → Option (List UInt8)

structure Kernel where
  disk : Nat → Block
  holder : Nat → Option Nat
  log : Log
  icache : InodePtr → Inode
  ftable : FilePtr → File
  procs : Nat → Proc
  devsw : Nat → Option Driver

namespace Kernel

def setInode (k : Kernel) (ip : InodePtr) (f : Inode → Inode) : Kernel :=
  { k with icache := Function.update k.icache ip (f (k.icache ip)) }

def setFile (k : Kernel) (f : FilePtr) (file : File) : Kernel :=
  { k with ftable := Function.update k.ftable f file }

def setProc (k : Kernel) (pid : Nat) (p : Proc) : Kernel :=
  { k with procs := Function.update k.procs pid p }

end Kernel

inductive KOp where
  /-- Lock the buffer of a sector and return its data. -/
  | bread (sector : Nat)
  /-- Give a held buffer new data and pass it to `log_write`. -/
  | logWrite (sector : Nat) (data : Block)
  | brelse (sector : Nat)
  | beginTrans
  | commitTrans
  | iget (inum : Nat)
  | idup (ip : InodePtr)
  /-- The first part of `ilock`: wait for `I_BUSY` and set it; returns `I_VALID`. -/
  | lockInode (ip : InodePtr)
  /-- Read `*ip`. -/
  | getInode (ip : InodePtr)
  /-- Assign the inode's copy of the disk inode. -/
  | setDin (ip : InodePtr) (din : Dinode)
  /-- `ip->flags |= I_VALID` -/
  | setValid (ip : InodePtr)
  | iunlock (ip : InodePtr)
  /-- The first critical section of `iput`: true when the inode has to be freed,
  else the reference is dropped. -/
  | putRef (ip : InodePtr)
  /-- The second critical section of `iput`, after the inode was freed. -/
  | dropRef (ip : InodePtr)
  | getCwd
  | setCwd (ip : Option InodePtr)
  | filealloc
  | getFile (f : FilePtr)
  | setFile (f : FilePtr) (file : File)
  /-- The critical section of `fileclose`: the old entry when it was the last
  reference. -/
  | dropFile (f : FilePtr)
  | filedup (f : FilePtr)
  | getFd (fd : Fin NOFILE)
  | setFd (fd : Fin NOFILE) (f : Option FilePtr)
  | fdalloc (f : FilePtr)
  | devsw (major : Nat)
  | panic (which : Panic)

namespace KOp

def Ret : KOp → Type
  | bread _ => Block
  | iget _ => InodePtr
  | lockInode _ => Bool
  | getInode _ => Inode
  | putRef _ => Bool
  | getCwd => InodePtr
  | filealloc => Option FilePtr
  | getFile _ => File
  | dropFile _ => Option File
  | getFd _ => Option FilePtr
  | fdalloc _ => Option (Fin NOFILE)
  | devsw _ => Option Driver
  | panic _ => Empty
  | _ => Unit

def cached (k : Kernel) (inum : Nat) : Option InodePtr :=
  (List.finRange NINODE).find? fun ip => 0 < (k.icache ip).ref ∧ (k.icache ip).inum = inum

def emptySlot (k : Kernel) : Option InodePtr :=
  (List.finRange NINODE).find? fun ip => (k.icache ip).ref = 0

/-- The header entries after one more `log_write` (log absorption). -/
def absorb (lh : List Nat) (sector : Nat) : List Nat :=
  if sector ∈ lh then lh else lh ++ [sector]

def exec (pid : Nat) : Handler KOp Ret Halt Kernel
  | bread s, k =>
    if k.holder s = none then
      .ok (k.disk s) { k with holder := Function.update k.holder s (some pid) }
    else .halt .asleep k
  | logWrite s data, k =>
    if k.holder s ≠ some pid then .halt .misuse k
    else if k.log.lh.length ≥ LOGSIZE ∨ k.log.lh.length ≥ k.log.size - 1 then
      .halt (.panic .tooBig) k
    else if k.log.owner = none then .halt (.panic .outsideTrans) k
    else .ok () { k with
      disk := Function.update k.disk s data
      log := { k.log with lh := absorb k.log.lh s } }
  | brelse s, k =>
    if k.holder s = some pid then
      .ok () { k with holder := Function.update k.holder s none }
    else .halt (.panic .brelse) k
  | beginTrans, k =>
    if k.log.owner = none then .ok () { k with log := { k.log with owner := some pid } }
    else .halt .asleep k
  | commitTrans, k => .ok () { k with log := { k.log with lh := [], owner := none } }
  | iget inum, k =>
    match cached k inum with
    | some ip => .ok ip (k.setInode ip fun e => { e with ref := e.ref + 1 })
    | none =>
      match emptySlot k with
      | some ip =>
        .ok ip (k.setInode ip fun e =>
          { e with inum := inum, ref := 1, busy := false, valid := false })
      | none => .halt (.panic .igetNoInodes) k
  | idup ip, k => .ok () (k.setInode ip fun e => { e with ref := e.ref + 1 })
  | lockInode ip, k =>
    if (k.icache ip).ref < 1 then .halt (.panic .ilock) k
    else if (k.icache ip).busy then .halt .asleep k
    else .ok (k.icache ip).valid (k.setInode ip fun e => { e with busy := true })
  | getInode ip, k => .ok (k.icache ip) k
  | setDin ip din, k => .ok () (k.setInode ip fun e => { e with din := din })
  | setValid ip, k => .ok () (k.setInode ip fun e => { e with valid := true })
  | iunlock ip, k =>
    if ¬ (k.icache ip).busy ∨ (k.icache ip).ref < 1 then .halt (.panic .iunlock) k
    else .ok () (k.setInode ip fun e => { e with busy := false })
  | putRef ip, k =>
    let e := k.icache ip
    if e.ref = 1 ∧ e.valid ∧ e.din.nlink = 0 then
      if e.busy then .halt (.panic .iputBusy) k
      else .ok true (k.setInode ip fun e => { e with busy := true })
    else .ok false (k.setInode ip fun e => { e with ref := e.ref - 1 })
  | dropRef ip, k =>
    .ok () (k.setInode ip fun e => { e with busy := false, valid := false, ref := e.ref - 1 })
  | getCwd, k =>
    match (k.procs pid).cwd with
    | some ip => .ok ip k
    | none => .halt .misuse k
  | setCwd ip, k => .ok () (k.setProc pid { k.procs pid with cwd := ip })
  | filealloc, k =>
    match (List.finRange NFILE).find? fun f => (k.ftable f).ref = 0 with
    | some f => .ok (some f) (k.setFile f { k.ftable f with ref := 1 })
    | none => .ok none k
  | getFile f, k => .ok (k.ftable f) k
  | setFile f file, k => .ok () (k.setFile f file)
  | dropFile f, k =>
    let file := k.ftable f
    if file.ref < 1 then .halt (.panic .fileclose) k
    else if file.ref - 1 > 0 then .ok none (k.setFile f { file with ref := file.ref - 1 })
    else .ok (some file) (k.setFile f { file with ref := 0, type := .none, ip := none, off := 0 })
  | filedup f, k =>
    if (k.ftable f).ref < 1 then .halt (.panic .filedup) k
    else .ok () (k.setFile f { k.ftable f with ref := (k.ftable f).ref + 1 })
  | getFd fd, k => .ok ((k.procs pid).ofile fd) k
  | setFd fd f, k =>
    .ok () (k.setProc pid { k.procs pid with ofile := Function.update (k.procs pid).ofile fd f })
  | fdalloc f, k =>
    match (List.finRange NOFILE).find? fun fd => (k.procs pid).ofile fd = none with
    | some fd => .ok (some fd) (k.setProc pid
        { k.procs pid with ofile := Function.update (k.procs pid).ofile fd (some f) })
    | none => .ok none k
  | devsw major, k => .ok (k.devsw major) k
  | panic which, k => .halt (.panic which) k

end KOp

abbrev KProg : Type → Type := Prog KOp KOp.Ret

namespace Fs

def bread (s : Nat) : KProg Block := .perform (KOp.bread s)
def logWrite (s : Nat) (data : Block) : KProg Unit := .perform (KOp.logWrite s data)
def brelse (s : Nat) : KProg Unit := .perform (KOp.brelse s)
def beginTrans : KProg Unit := .perform KOp.beginTrans
def commitTrans : KProg Unit := .perform KOp.commitTrans
def iget (inum : Nat) : KProg InodePtr := .perform (KOp.iget inum)
def getInode (ip : InodePtr) : KProg Inode := .perform (KOp.getInode ip)
def setDin (ip : InodePtr) (din : Dinode) : KProg Unit := .perform (KOp.setDin ip din)
def lockInode (ip : InodePtr) : KProg Bool := .perform (KOp.lockInode ip)
def setValid (ip : InodePtr) : KProg Unit := .perform (KOp.setValid ip)
def putRef (ip : InodePtr) : KProg Bool := .perform (KOp.putRef ip)
def dropRef (ip : InodePtr) : KProg Unit := .perform (KOp.dropRef ip)
def getCwd : KProg InodePtr := .perform KOp.getCwd
def setCwd (ip : Option InodePtr) : KProg Unit := .perform (KOp.setCwd ip)
def filealloc : KProg (Option FilePtr) := .perform KOp.filealloc
def setFile (f : FilePtr) (file : File) : KProg Unit := .perform (KOp.setFile f file)
def dropFile (f : FilePtr) : KProg (Option File) := .perform (KOp.dropFile f)
def filedup (f : FilePtr) : KProg Unit := .perform (KOp.filedup f)
def getFd (fd : Fin NOFILE) : KProg (Option FilePtr) := .perform (KOp.getFd fd)
def setFd (fd : Fin NOFILE) (f : Option FilePtr) : KProg Unit := .perform (KOp.setFd fd f)
def fdalloc (f : FilePtr) : KProg (Option (Fin NOFILE)) := .perform (KOp.fdalloc f)
def devsw (major : Nat) : KProg (Option Driver) := .perform (KOp.devsw major)
def iunlock (ip : InodePtr) : KProg Unit := .perform (KOp.iunlock ip)
def getFile (f : FilePtr) : KProg File := .perform (KOp.getFile f)
def panic {α : Type} (which : Panic) : KProg α := .op (.panic which) nofun

/-- Increment reference count for `ip`. Returns `ip` to enable the
`ip = idup(ip1)` idiom. -/
def idup (ip : InodePtr) : KProg InodePtr := do
  .perform (KOp.idup ip)
  pure ip

end Fs

end SirpairOs
