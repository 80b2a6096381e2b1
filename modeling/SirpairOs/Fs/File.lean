import SirpairOs.Fs.Name
import SirpairOs.Mem.Proc

/-! Open files (`kernel/file.c`) and the file system calls of
`kernel/sysfile.c`, `kernel/exec.c` and `kernel/proc.c`. Arguments have been
fetched from user memory; `-1` is the result of a failed call. -/
namespace SirpairOs.Fs

def fileclose (f : FilePtr) : KProg Unit := do
  let last ← dropFile f
  match last with
  | some ⟨.inode, _, _, _, some ip, _⟩ => do
    beginTrans
    iput ip
    commitTrans
  | _ => pure ()

def fileread (f : FilePtr) (n : Nat) : KProg (Option (List UInt8)) := do
  let file ← getFile f
  match file.readable, file.type, file.ip with
  | true, .inode, some ip => do
    ilock ip
    let file ← getFile f
    let r ← readi ip file.off n
    match r with
    | some bytes => do
      setFile f { file with off := (file.off + bytes.length) % 2 ^ 32 }
      iunlock ip
      pure (some bytes)
    | none => do
      iunlock ip
      pure none
  | _, _, _ => pure none

/-- The largest number of bytes `filewrite` puts into one transaction. -/
def CHUNK : Nat := ((LOGSIZE - 1 - 1 - 2) / 2) * 512

def writeChunk (f : FilePtr) (ip : InodePtr) (src : List UInt8) : KProg (Option Nat) := do
  beginTrans
  ilock ip
  let file ← getFile f
  let r ← writei ip src file.off
  match r with
  | some n => do
    setFile f { file with off := (file.off + n) % 2 ^ 32 }
    iunlock ip
    commitTrans
    pure (some n)
  | none => do
    iunlock ip
    commitTrans
    pure none

/-- The loop of `filewrite` over what is left of `addr`; true if all of it was
written. Each round writes at least one byte. -/
def writeChunks (f : FilePtr) (ip : InodePtr) : Nat → List UInt8 → KProg Bool
  | 0, src => pure (src = [])
  | fuel + 1, src =>
    if src = [] then pure true
    else do
      let r ← writeChunk f ip (src.take CHUNK)
      match r with
      | none => pure false
      | some n =>
        if n ≠ (src.take CHUNK).length then panic .shortFilewrite
        else writeChunks f ip fuel (src.drop CHUNK)

def filewrite (f : FilePtr) (src : List UInt8) : KProg (Option Nat) := do
  let file ← getFile f
  match file.writable, file.type, file.ip with
  | true, .inode, some ip => do
    let all ← writeChunks f ip src.length src
    pure (if all then some src.length else none)
  | _, _, _ => pure none

def sysLink (old new : List UInt8) : KProg Int := do
  let found ← namei old
  match found with
  | none => pure (-1)
  | some ip => do
    beginTrans
    ilock ip
    let e ← getInode ip
    if e.din.type = T_DIR then do
      iunlockput ip
      commitTrans
      pure (-1)
    else do
      setDin ip { e.din with nlink := wrapShort (e.din.nlink + 1) }
      iupdate ip
      iunlock ip
      let linked ← linkAt new e.inum
      if linked then do
        iput ip
        commitTrans
        pure 0
      else do
        ilock ip
        let e ← getInode ip
        setDin ip { e.din with nlink := wrapShort (e.din.nlink - 1) }
        iupdate ip
        iunlockput ip
        commitTrans
        pure (-1)
where
  /-- The part of `sys_link` that adds the entry; false goes to `bad`. -/
  linkAt (new : List UInt8) (inum : Nat) : KProg Bool := do
    let parent ← nameiparent new
    match parent with
    | none => pure false
    | some (dp, name) => do
      ilock dp
      let linked ← dirlink dp name inum
      iunlockput dp
      pure linked

def emptyEntries (dp : InodePtr) : List Nat → KProg Bool
  | [] => pure true
  | off :: rest => do
    let de ← readEntry dp off .isdirempty
    if de.inum ≠ 0 then pure false else emptyEntries dp rest

def isdirempty (dp : InodePtr) : KProg Bool := do
  let e ← getInode dp
  emptyEntries dp (entryOffsets (2 * Dirent.SIZE) e.din.size)

/-- `ip->type != T_DIR || isdirempty(ip)` -/
def removable (ip : InodePtr) (type : Int) : KProg Bool :=
  if type = T_DIR then isdirempty ip else pure true

def DOT : List UInt8 := [46]
def DOTDOT : List UInt8 := [46, 46]

def sysUnlink (path : List UInt8) : KProg Int := do
  let parent ← nameiparent path
  match parent with
  | none => pure (-1)
  | some (dp, name) => do
    beginTrans
    ilock dp
    if namecmp name DOT ∨ namecmp name DOTDOT then bad dp
    else do
      let found ← dirlookup dp name
      match found with
      | none => bad dp
      | some (ip, off) => do
        ilock ip
        let e ← getInode ip
        Prog.when (e.din.nlink < 1) (panic .unlinkNlink)
        let free ← removable ip e.din.type
        if free = false then do
          iunlockput ip
          bad dp
        else do
          let written ← writei dp (Dirent.encode Dirent.empty) off
          Prog.when (written ≠ some Dirent.SIZE) (panic .unlinkWritei)
          Prog.when (e.din.type = T_DIR) do
            let d ← getInode dp
            setDin dp { d.din with nlink := wrapShort (d.din.nlink - 1) }
            iupdate dp
          iunlockput dp
          let e ← getInode ip
          setDin ip { e.din with nlink := wrapShort (e.din.nlink - 1) }
          iupdate ip
          iunlockput ip
          commitTrans
          pure 0
where
  bad (dp : InodePtr) : KProg Int := do
    iunlockput dp
    commitTrans
    pure (-1)

/-- Create the inode and the entry for a path whose parent is `dp`. -/
def createIn (dp : InodePtr) (name : List UInt8) (type major minor : Int) :
    KProg (Option InodePtr) := do
  let ip ← ialloc type
  ilock ip
  let e ← getInode ip
  setDin ip { e.din with major := wrapShort major, minor := wrapShort minor, nlink := 1 }
  iupdate ip
  Prog.when (type = T_DIR) do
    let d ← getInode dp
    setDin dp { d.din with nlink := wrapShort (d.din.nlink + 1) }
    iupdate dp
    let dot ← dirlink ip DOT e.inum
    Prog.when (dot = false) (panic .createDots)
    let dotdot ← dirlink ip DOTDOT d.inum
    Prog.when (dotdot = false) (panic .createDots)
  let linked ← dirlink dp name e.inum
  Prog.when (linked = false) (panic .createDirlink)
  iunlockput dp
  pure (some ip)

def create (path : List UInt8) (type major minor : Int) : KProg (Option InodePtr) := do
  let parent ← nameiparent path
  match parent with
  | none => pure none
  | some (dp, name) => do
    ilock dp
    let found ← dirlookup dp name
    match found with
    | some (ip, _) => do
      iunlockput dp
      ilock ip
      let e ← getInode ip
      if type = T_FILE ∧ e.din.type = T_FILE then pure (some ip)
      else do
        iunlockput ip
        pure none
    | none => createIn dp name type major minor

def O_RDONLY : Nat := 0x000
def O_WRONLY : Nat := 0x001
def O_RDWR : Nat := 0x002
def O_CREATE : Nat := 0x200
def O_APPEND : Nat := 0x400
def O_TRUNC : Nat := 0x800

/-- `omode & flag`. -/
def hasFlag (omode flag : Nat) : Bool := omode &&& flag ≠ 0

/-- The end of `sys_open`: a file structure and a descriptor for a locked inode. -/
def openFile (ip : InodePtr) (omode : Nat) (truncTrans : Bool) : KProg Int := do
  let f ← filealloc
  match f with
  | none => do
    iunlockput ip
    Prog.when (truncTrans = true) commitTrans
    pure (-1)
  | some f => do
    let fd ← fdalloc f
    match fd with
    | none => do
      fileclose f
      iunlockput ip
      Prog.when (truncTrans = true) commitTrans
      pure (-1)
    | some fd => do
      iunlock ip
      Prog.when (truncTrans = true) commitTrans
      let file ← getFile f
      let e ← getInode ip
      setFile f { file with
        type := .inode
        ip := some ip
        off := if hasFlag omode O_APPEND then e.din.size else 0
        readable := !hasFlag omode O_WRONLY
        writable := hasFlag omode O_WRONLY || hasFlag omode O_RDWR }
      pure fd

def sysOpen (path : List UInt8) (omode : Nat) : KProg Int :=
  if hasFlag omode O_CREATE then do
    beginTrans
    let ip ← create path T_FILE 0 0
    commitTrans
    match ip with
    | none => pure (-1)
    | some ip => openFile ip omode false
  else do
    let truncTrans := hasFlag omode O_TRUNC
    Prog.when (truncTrans = true) beginTrans
    let ip ← namei path
    match ip with
    | none => do
      Prog.when (truncTrans = true) commitTrans
      pure (-1)
    | some ip => do
      ilock ip
      let e ← getInode ip
      if e.din.type = T_DIR ∧ omode ≠ O_RDONLY then do
        iunlockput ip
        Prog.when (truncTrans = true) commitTrans
        pure (-1)
      else do
        Prog.when (truncTrans = true ∧ e.din.type = T_FILE) do
          itrunc ip
          iupdate ip
        openFile ip omode truncTrans

/-- `sys_mkdir` and `sys_mknod`. -/
def sysMake (path : List UInt8) (type major minor : Int) : KProg Int := do
  beginTrans
  let ip ← create path type major minor
  match ip with
  | none => do
    commitTrans
    pure (-1)
  | some ip => do
    iunlockput ip
    commitTrans
    pure 0

def sysMkdir (path : List UInt8) : KProg Int := sysMake path T_DIR 0 0

def sysMknod (path : List UInt8) (major minor : Int) : KProg Int := sysMake path T_DEV major minor

def sysChdir (path : List UInt8) : KProg Int := do
  beginTrans
  let found ← namei path
  match found with
  | none => do
    commitTrans
    pure (-1)
  | some ip => do
    ilock ip
    let e ← getInode ip
    if e.din.type ≠ T_DIR then do
      iunlockput ip
      commitTrans
      pure (-1)
    else do
      iunlock ip
      let cwd ← getCwd
      iput cwd
      setCwd (some ip)
      commitTrans
      pure 0

def sysClose (fd : Fin NOFILE) : KProg Int := do
  let f ← getFd fd
  match f with
  | none => pure (-1)
  | some f => do
    setFd fd none
    fileclose f
    pure 0

def sysDup (fd : Fin NOFILE) : KProg Int := do
  let f ← getFd fd
  match f with
  | none => pure (-1)
  | some f => do
    let new ← fdalloc f
    match new with
    | none => pure (-1)
    | some new => do
      filedup f
      pure new

def sysRead (fd : Fin NOFILE) (n : Nat) : KProg (Option (List UInt8)) := do
  let f ← getFd fd
  match f with
  | none => pure none
  | some f => fileread f n

def sysWrite (fd : Fin NOFILE) (src : List UInt8) : KProg (Option Nat) := do
  let f ← getFd fd
  match f with
  | none => pure none
  | some f => filewrite f src

/-- What the memory answers while `exec` builds an image: whether `setupkvm_impl` succeeds,
the result of `allocuvm` from one size to another, and whether stack and arguments find
their place above a size. -/
structure Memory where
  setupkvm : Bool
  allocuvm : Nat → Nat → Nat
  makeStack : Nat → Bool

/-- A read that must return all `n` bytes. -/
def readAll (ip : InodePtr) (off n : Nat) : KProg (Option (List UInt8)) := do
  let r ← readi ip off n
  pure (r.filter fun bytes => bytes.length = n)

/-- The loop of `loaduvm` for `n` pages, whose entries `allocuvm` has made. -/
def loadLoop (ip : InodePtr) (ph : Mem.ProgHdr) : Nat → Nat → KProg Bool
  | 0, _ => pure true
  | n + 1, j => do
    let r ← readAll ip ((ph.off + j * Mem.PGSIZE) % 2 ^ 32)
      (min (ph.filesz - j * Mem.PGSIZE) Mem.PGSIZE)
    match r with
    | none => pure false
    | some _ => loadLoop ip ph n (j + 1)

/-- The loop over `n` program headers from `off` on; `none` is a `goto bad`. -/
def loadSegments (memory : Memory) (ip : InodePtr) : Nat → Nat → Nat → KProg (Option Nat)
  | 0, _, sz => pure (some sz)
  | n + 1, off, sz => do
    let header ← readAll ip off 32
    match header.map Mem.proghdr with
    | none => pure none
    | some ph =>
      if ph.type ≠ Mem.ELF_PROG_LOAD then loadSegments memory ip n ((off + 32) % 2 ^ 32) sz
      else
        match Mem.segend ph with
        | none => pure none
        | some segend =>
          let sz := memory.allocuvm sz segend
          if sz = 0 then pure none
          else if ph.vaddr % Mem.PGSIZE ≠ 0 then panic .unaligned
          else do
            let loaded ← loadLoop ip ph (Mem.pgroundup ph.filesz) 0
            if loaded then loadSegments memory ip n ((off + 32) % 2 ^ 32) sz else pure none

/-- The label `bad` of `exec`. -/
def execBad : Option InodePtr → KProg Int
  | some ip => do
    iunlockput ip
    pure (-1)
  | none => pure (-1)

/-- The file system part of `exec`. An error of the first `readi` is taken as unsigned and so
is not below `sizeof(elf)`: the header then is what was in `elf` before. -/
def exec (memory : Memory) (elf path : List UInt8) : KProg Int := do
  let found ← namei path
  match found with
  | none => pure (-1)
  | some ip => do
    ilock ip
    let r ← readi ip 0 52
    let hdr := Mem.elfhdr (r.getD elf)
    if (r.any fun bytes => bytes.length < 52) ∨ hdr.magic ≠ Mem.ELF_MAGIC ∨ memory.setupkvm = false
    then execBad (some ip)
    else do
      let size ← loadSegments memory ip hdr.phnum hdr.phoff 0
      match size with
      | none => execBad (some ip)
      | some size => do
        iunlockput ip
        if memory.makeStack size then pure 0 else execBad none

def closeAll : List (Fin NOFILE) → KProg Unit
  | [] => pure ()
  | fd :: rest => do
    let f ← getFd fd
    match f with
    | none => closeAll rest
    | some f => do
      fileclose f
      setFd fd none
      closeAll rest

def exit : KProg Unit := do
  closeAll (List.finRange NOFILE)
  beginTrans
  let cwd ← getCwd
  iput cwd
  commitTrans
  setCwd none

inductive Syscall where
  | open (path : List UInt8) (omode : Nat)
  | read (fd : Fin NOFILE) (n : Nat)
  | write (fd : Fin NOFILE) (src : List UInt8)
  | close (fd : Fin NOFILE)
  | dup (fd : Fin NOFILE)
  | link (old new : List UInt8)
  | unlink (path : List UInt8)
  | mkdir (path : List UInt8)
  | mknod (path : List UInt8) (major minor : Int)
  | chdir (path : List UInt8)
  | exec (memory : Memory) (elf path : List UInt8)
  | exit

def Syscall.run : Syscall → KProg Unit
  | .open path omode => do let _ ← sysOpen path omode
  | .read fd n => do let _ ← sysRead fd n
  | .write fd src => do let _ ← sysWrite fd src
  | .close fd => do let _ ← sysClose fd
  | .dup fd => do let _ ← sysDup fd
  | .link old new => do let _ ← sysLink old new
  | .unlink path => do let _ ← sysUnlink path
  | .mkdir path => do let _ ← sysMkdir path
  | .mknod path major minor => do let _ ← sysMknod path major minor
  | .chdir path => do let _ ← sysChdir path
  | .exec memory elf path => do let _ ← Fs.exec memory elf path
  | .exit => Fs.exit

def runCalls : List Syscall → KProg Unit
  | [] => pure ()
  | call :: rest => do
    call.run
    runCalls rest

end SirpairOs.Fs
