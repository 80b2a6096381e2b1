import SirpairOs.Lib.Program
import SirpairOs.Fs.Param

/-! The buffer cache of `kernel/bio.c` over the block device of `kernel/disk.c`.
Only `ROOTDEV` is ever passed as a device, so a buffer is identified by its
sector and a buffer that `binit` left without a device has none. The disk keeps
the list of single-sector writes issued to it, oldest first. -/
namespace SirpairOs

structure Buf where
  /-- `dev` and `sector`; `none` is the `dev == -1` of `binit`. -/
  sector : Option Nat
  /-- `B_BUSY`, with the process that set it. -/
  holder : Option Nat
  /-- `B_VALID` -/
  valid : Bool
  /-- `B_DIRTY` -/
  dirty : Bool
  data : Block
  deriving DecidableEq

namespace Buf

def lock (pid : Nat) (b : Buf) : Buf := { b with holder := some pid }

def put (data : Block) (b : Buf) : Buf := { b with data := data }

def mark (b : Buf) : Buf := { b with dirty := true }

/-- What `usb_rw` leaves after a read. -/
def filled (data : Block) (b : Buf) : Buf := { b with valid := true, data := data }

/-- What `usb_rw` leaves after a write. -/
def written (b : Buf) : Buf := { b with valid := true, dirty := false }

end Buf

/-- `struct log`: `busy` is kept with the process that set it, and `lh` is the
first `lh.n` entries of `lh.sector`. -/
structure Log where
  start : Nat
  size : Nat
  owner : Option Nat
  lh : List Nat

structure Machine where
  disk : Nat → Block
  trace : List (Nat × Block)
  /-- The buffers from `head.next` (most recently used) to `head.prev`. -/
  cache : List Buf
  log : Log

/-- What `binit` leaves: `NBUF` buffers without a device and without flags. -/
def binit : List Buf := List.replicate NBUF ⟨none, none, false, false, Bytes.zero⟩

namespace Cache

def find (cache : List Buf) (sector : Nat) : Option Buf :=
  List.find? (fun b => b.sector = some sector) cache

def update (cache : List Buf) (sector : Nat) (f : Buf → Buf) : List Buf :=
  cache.map fun b => if b.sector = some sector then f b else b

/-- Reassign the least recently used buffer that is neither busy nor dirty. -/
def recycle (sector pid : Nat) : List Buf → Option (List Buf)
  | [] => none
  | b :: rest =>
    match recycle sector pid rest with
    | some rest' => some (b :: rest')
    | none =>
      if b.holder = none ∧ b.dirty = false then
        some ({ sector := some sector, holder := some pid, valid := false, dirty := false,
                data := b.data } :: rest)
      else none

/-- Unlink the buffer of one sector and put it, no longer busy, at `head.next`. -/
def release (cache : List Buf) (sector : Nat) (b : Buf) : List Buf :=
  { b with holder := none } :: cache.filter fun b => ¬ b.sector = some sector

end Cache

/-- The atomic steps of the block layer: what happens under `bcache.lock`, one
transfer of the device, the owner's accesses to a buffer it holds, and the
accesses to `struct log`. -/
inductive BufOp where
  | bget (sector : Nat)
  /-- Read `*b` of a held buffer. -/
  | peek (sector : Nat)
  /-- Overwrite `b->data` of a held buffer. -/
  | poke (sector : Nat) (data : Block)
  /-- `b->flags |= B_DIRTY` on a held buffer. -/
  | setDirty (sector : Nat)
  | diskrw (sector : Nat)
  | brelse (sector : Nat)
  | getLog
  | setLh (lh : List Nat)
  /-- The body of `begin_trans`. -/
  | acquireLog
  /-- The last lines of `commit_trans`. -/
  | releaseLog
  | panic (which : Panic)

namespace BufOp

def Ret : BufOp → Type
  | peek _ => Buf
  | getLog => Log
  | panic _ => Empty
  | _ => Unit

/-- The held buffer of a sector, or the reason it cannot be used. -/
def held (m : Machine) (pid sector : Nat) : Option Buf :=
  match Cache.find m.cache sector with
  | some b => if b.holder = some pid then some b else none
  | none => none

def exec (pid : Nat) : Handler BufOp Ret Halt Machine
  | bget sector, m =>
    match Cache.find m.cache sector with
    | some b =>
      if b.holder = none then
        .ok () { m with cache := Cache.update m.cache sector (Buf.lock pid) }
      else .halt .asleep m
    | none =>
      match Cache.recycle sector pid m.cache with
      | some cache => .ok () { m with cache := cache }
      | none => .halt (.panic .noBuffers) m
  | peek sector, m =>
    match held m pid sector with
    | some b => .ok b m
    | none => .halt .misuse m
  | poke sector data, m =>
    match held m pid sector with
    | some _ => .ok () { m with cache := Cache.update m.cache sector (Buf.put data) }
    | none => .halt .misuse m
  | setDirty sector, m =>
    match held m pid sector with
    | some _ => .ok () { m with cache := Cache.update m.cache sector Buf.mark }
    | none => .halt .misuse m
  | diskrw sector, m =>
    match held m pid sector with
    | some b =>
      if b.valid = true ∧ b.dirty = false then .halt (.panic .diskrwNothing) m
      else if b.dirty then
        .ok () { m with
          disk := Function.update m.disk sector b.data
          trace := m.trace ++ [(sector, b.data)]
          cache := Cache.update m.cache sector Buf.written }
      else .ok () { m with cache := Cache.update m.cache sector (Buf.filled (m.disk sector)) }
    | none => .halt .misuse m
  | brelse sector, m =>
    match held m pid sector with
    | some b => .ok () { m with cache := Cache.release m.cache sector b }
    | none => .halt (.panic .brelse) m
  | getLog, m => .ok m.log m
  | setLh lh, m => .ok () { m with log := { m.log with lh := lh } }
  | acquireLog, m =>
    if m.log.owner = none then .ok () { m with log := { m.log with owner := some pid } }
    else .halt .asleep m
  | releaseLog, m => .ok () { m with log := { m.log with owner := none } }
  | panic which, m => .halt (.panic which) m

end BufOp

abbrev BufProg : Type → Type := Prog BufOp BufOp.Ret

namespace Bio

def bget (sector : Nat) : BufProg Unit := .perform (BufOp.bget sector)
def peek (sector : Nat) : BufProg Buf := .perform (BufOp.peek sector)
def poke (sector : Nat) (data : Block) : BufProg Unit := .perform (BufOp.poke sector data)
def setDirty (sector : Nat) : BufProg Unit := .perform (BufOp.setDirty sector)
def diskrw (sector : Nat) : BufProg Unit := .perform (BufOp.diskrw sector)
def brelse (sector : Nat) : BufProg Unit := .perform (BufOp.brelse sector)
def panic {α : Type} (which : Panic) : BufProg α := .op (.panic which) nofun

/-- Return a `B_BUSY` buf with the contents of the indicated disk sector. -/
def bread (sector : Nat) : BufProg Unit := do
  bget sector
  let b ← peek sector
  if b.valid then pure () else diskrw sector

/-- Write b's contents to disk. Must be `B_BUSY`. -/
def bwrite (sector : Nat) : BufProg Unit := do
  let _ ← peek sector
  setDirty sector
  diskrw sector

end Bio

end SirpairOs
