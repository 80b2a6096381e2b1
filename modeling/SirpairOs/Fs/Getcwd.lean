import SirpairOs.Fs.File

/-! `sys_getcwd` of `kernel/sysfile.c`, and what `userinit` and `fork` do with open
files and the current directory. -/
namespace SirpairOs.Fs

/-- The loop of `sys_getcwd` that looks for the entry of inode `inum` in the
directory `dp`: its name as a C string, empty if there is none. -/
def nameIn (dp : InodePtr) (inum : Nat) : List Nat → KProg (List UInt8)
  | [] => pure []
  | off :: rest => do
    let de ← readEntry dp off .getcwdRead
    if de.inum = inum then pure (cstr de.name) else nameIn dp inum rest

/-- The loop of `sys_getcwd` from the locked and referenced directory `ip` up to the
root. `room` entries of `comps` are left; the entries filled so far are given
from the last one on. -/
def climb (room : Nat) (ip : InodePtr) (comps : List (List UInt8)) :
    KProg (Option (List (List UInt8))) := do
  ilock ip
  let e ← getInode ip
  if e.inum = ROOTINO then do
    iunlock ip
    iput ip
    pure (some comps)
  else do
    let parent ← dirlookup ip DOTDOT
    match parent with
    | none => do
      iunlockput ip
      pure none
    | some (dp, _) => do
      ilock dp
      let d ← getInode dp
      let name ← nameIn dp e.inum (entryOffsets 0 d.din.size)
      iunlock dp
      iunlockput ip
      if name = [] then do
        iput dp
        pure none
      else
        match room with
        | 0 => do
          iput dp
          pure none
        | room + 1 => climb room dp (name :: comps)

/-- Entries of `comps`. -/
def NCOMPS : Nat := 64

/-- `sizeof(kbuf)` -/
def KBUF : Nat := 512

/-- The text that the loops over `comps` put into `kbuf`, without its terminator. -/
def pathOf (comps : List (List UInt8)) : List UInt8 := comps.flatMap fun name => SLASH :: name

/-- The part of `sys_getcwd` between `begin_trans` and `commit_trans`: the string
stored in the buffer of `size` bytes, without its terminator, or `none` for `-1`. -/
def findCwd (size : Int) : KProg (Option (List UInt8)) :=
  if size ≤ 0 then pure none
  else do
    let cwd ← getCwd
    let ip ← idup cwd
    let found ← climb NCOMPS ip []
    match found with
    | none => pure none
    | some [] => pure (if size < 2 then none else some [SLASH])
    | some comps =>
      pure (if (pathOf comps).length > KBUF - 1 ∨ (pathOf comps).length + 1 > size then none
        else some (pathOf comps))

def sysGetcwd (size : Int) : KProg (Option (List UInt8)) := do
  beginTrans
  let path ← findCwd size
  commitTrans
  pure path

def userinit : KProg Unit := do
  let root ← namei [SLASH]
  setCwd root

/-- The loop of `fork` that duplicates the open files: process `parent` runs, the
descriptors are those of `child`. -/
def forkFiles (parent child : Nat) : List (Fin NOFILE) → Kernel → Outcome Halt Kernel Unit
  | [], k => .ok () k
  | fd :: rest, k =>
    match (k.procs parent).ofile fd with
    | none => forkFiles parent child rest k
    | some f => (KOp.exec parent (.filedup f) k).bind fun _ k =>
      (KOp.exec child (.setFd fd (some f)) k).bind fun _ k => forkFiles parent child rest k

def fork (parent child : Nat) (k : Kernel) : Outcome Halt Kernel Unit :=
  (forkFiles parent child (List.finRange NOFILE) k).bind fun _ k =>
    ((getCwd >>= idup).run (KOp.exec parent) k).bind fun cwd k =>
      KOp.exec child (.setCwd (some cwd)) k

end SirpairOs.Fs
