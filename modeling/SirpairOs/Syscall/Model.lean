import SirpairOs.Fs.Param
import SirpairOs.Mem.Vm

/-! Buffers of system calls (`kernel/syscall.c`, `kernel/sysfile.c`, `kernel/sysproc.c`):
what the calls that get a buffer from `argptr` store, and where. What they store is left
out. -/
namespace SirpairOs.Syscall

def int (w : UInt32) : Int := if w < 0x80000000 then w.toNat else w.toNat - 2 ^ 32

structure Store where
  addr : UInt32
  len : Nat
  deriving DecidableEq, Repr

def Store.addrs (s : Store) : List UInt32 := (List.range s.len).map fun i => s.addr + UInt32.ofNat i

inductive File where
  /-- A pipe with so many bytes; `none` if the reader is killed while it waits. -/
  | pipe (readable : Bool) (data : Option Nat)
  /-- A connected socket, which reads from another file. -/
  | usock (readable : Bool) (rx : File)
  | unconnected (readable : Bool)
  /-- A TCP socket with so many bytes; `none` if it cannot be read. -/
  | tcp (readable : Bool) (data : Option Nat)
  /-- A UDP socket with a datagram of that length; `none` if it gets none. -/
  | udp (readable : Bool) (datagram : Option Nat)
  /-- The console and what is typed until the reader is satisfied or killed. -/
  | console (readable : Bool) (input : List UInt8)
  /-- The null device, or one without a read function. -/
  | device (readable : Bool)
  /-- A file or directory. -/
  | inode (readable : Bool) (size off : UInt32)

structure Env where
  sz : UInt32
  below : sz.toNat < Mem.KERNBASE
  esp : UInt32
  /-- The word at an address of the user. -/
  word : UInt32 → UInt32
  /-- `uva2ka` finds the page of the address. -/
  mapped : UInt32 → Bool
  ofile : Fin NOFILE → Option File
  /-- The names on the way from the root to the current directory; `none` if `getcwd` does
  not find them or they are more than 64. -/
  cwd : Option (List (List UInt8))
  /-- The names of the processes; `none` for an unused place. -/
  procs : List (Option (List UInt8))
  table : procs.length = NPROC
  /-- `sys_pipe` gets a pipe and two descriptors. -/
  pipes : Bool
  /-- `mouse_pop` has an event. -/
  event : Bool
  /-- `sys_dig` finds a name and an address for it. -/
  answer : Bool

def fetchint (e : Env) (addr : UInt32) : Option UInt32 :=
  if addr ≥ e.sz ∨ addr + 4 > e.sz then none else some (e.word addr)

def argint (e : Env) (n : UInt32) : Option UInt32 := fetchint e (e.esp + 4 + 4 * n)

def argptr (e : Env) (n size : UInt32) : Option UInt32 :=
  (argint e n).bind fun i => if i ≥ e.sz ∨ i + size > e.sz then none else some i

def argfd (e : Env) (n : UInt32) : Option File :=
  (argint e n).bind fun fd => if inside : fd.toNat < NOFILE then e.ofile ⟨fd.toNat, inside⟩ else none

/-- The loop of `readi` for `n` bytes: each block, or the zeros for a block that is not
there, goes to the next piece of the buffer. -/
def readiLoop (dst : UInt32) (off n : Nat) : List Store :=
  if 0 < n then
    let m := min n (BSIZE - off % BSIZE)
    ⟨dst, m⟩ :: readiLoop (dst + UInt32.ofNat m) (off + m) (n - m)
  else []
termination_by n
decreasing_by
  have := Nat.mod_lt off (show 0 < BSIZE by decide)
  omega

/-- `readi` on a file that is no device. -/
def readi (size off dst n : UInt32) : List Store :=
  if off > size ∨ off + n < off then []
  else readiLoop dst off.toNat (if off + n > size then size - off else n).toNat

/-- The bytes that `consoleread` stores: up to `n`, up to and with a newline, up to ^D. -/
def consoleread : Nat → List UInt8 → Nat
  | 0, _ => 0
  | _ + 1, [] => 0
  | n + 1, c :: rest => if c = 4 then 0 else if c = 10 then 1 else consoleread n rest + 1

def fileread : File → UInt32 → UInt32 → List Store
  | .pipe readable data, addr, n =>
    match readable, data with
    | true, some avail => [⟨addr, min (int n).toNat avail⟩]
    | _, _ => []
  | .usock readable rx, addr, n => if readable then fileread rx addr n else []
  | .unconnected _, _, _ => []
  | .tcp readable data, addr, n =>
    match readable, data with
    -- `MIN(size, remain)`, where `size` is unsigned.
    | true, some remain => [⟨addr, min n.toNat remain⟩]
    | _, _ => []
  | .udp _ _, _, _ => []
  | .console readable input, addr, n =>
    if readable then [⟨addr, consoleread (int n).toNat input⟩] else []
  | .device _, _, _ => []
  | .inode readable size off, addr, n => if readable then readi size off addr n else []

def copyout (mapped : UInt32 → Bool) (va : UInt32) (len : Nat) : List Store :=
  if 0 < len then
    if mapped (va - va % 4096) then
      let room := Mem.PGSIZE - va.toNat % Mem.PGSIZE
      ⟨va, min room len⟩ :: copyout mapped (va + UInt32.ofNat room) (len - min room len)
    else []
  else []
termination_by len
decreasing_by
  have := Nat.mod_lt va.toNat (show 0 < Mem.PGSIZE by decide)
  omega

/-- `sys_read`, and `sys_recv`, which is the same. -/
def sysRead (e : Env) : Option (List Store) := do
  let f ← argfd e 0
  let n ← argint e 2
  let p ← argptr e 1 n
  some (fileread f p n)

def sysRecv (e : Env) : Option (List Store) := sysRead e

/-- `sys_recvfrom` with `net_udp_user_recvfrom` -/
def sysRecvfrom (e : Env) : Option (List Store) := do
  let f ← argfd e 0
  let n ← argint e 2
  let buf ← argptr e 1 n
  let srcIp ← argptr e 3 4
  let srcPort ← argptr e 4 4
  match f with
  | .udp _ datagram =>
    if int n < 0 ∨ buf = 0 ∨ srcIp = 0 ∨ srcPort = 0 then none
    else if n = 0 then some []
    else
      let len ← datagram
      some [⟨buf, min n.toNat len⟩, ⟨srcIp, 4⟩, ⟨srcPort, 4⟩]
  | _ => none

/-- `sys_fstat` with `stati` -/
def sysFstat (e : Env) : Option (List Store) := do
  let f ← argfd e 0
  let st ← argptr e 1 20
  match f with
  | .console _ _ | .device _ | .inode _ _ _ =>
    some [⟨st + 4, 4⟩, ⟨st + 8, 4⟩, ⟨st, 2⟩, ⟨st + 12, 2⟩, ⟨st + 16, 4⟩]
  | _ => none

/-- The length of the path that `sys_getcwd` puts together, if it fits in `kbuf`. -/
def pathLength : List (List UInt8) → Nat → Option Nat
  | [], pos => some pos
  | name :: rest, pos =>
    let len := ((name.takeWhile (· ≠ 0)).take DIRSIZ).length
    if 511 < pos + 1 + len then none else pathLength rest (pos + 1 + len)

def sysGetcwd (e : Env) : Option (List Store) := do
  let size ← argint e 1
  if int size ≤ 0 then none
  else
    let ubuf ← argptr e 0 size
    let comps ← e.cwd
    if comps = [] then
      if int size < 2 then none else some [⟨ubuf, 1⟩, ⟨ubuf + 1, 1⟩]
    else
      let pos ← pathLength comps 0
      if int size < pos + 1 then none else some [⟨ubuf, pos + 1⟩]

def sysPipe (e : Env) : Option (List Store) := do
  let fd ← argptr e 0 8
  if e.pipes then some [⟨fd, 4⟩, ⟨fd + 4, 4⟩] else none

/-- `sys_statfs` with `fillstatfs` -/
def sysStatfs (e : Env) : Option (List Store) := do
  let st ← argptr e 0 24
  some [⟨st, 4⟩, ⟨st + 4, 4⟩, ⟨st + 8, 4⟩, ⟨st + 12, 4⟩, ⟨st + 16, 4⟩, ⟨st + 20, 4⟩]

def sysConsize (e : Env) : Option (List Store) := do
  let urows ← argptr e 0 4
  let ucols ← argptr e 1 4
  some [⟨urows, 4⟩, ⟨ucols, 4⟩]

def sysMouse (e : Env) : Option (List Store) := do
  let op ← argint e 0
  if op ≠ 1 then none
  else
    let pev ← argptr e 1 12
    if e.event then some (copyout e.mapped pev 12) else none

def sysGetnetcfg (e : Env) : Option (List Store) := do
  let ucfg ← argptr e 0 108
  some (copyout e.mapped ucfg 108)

def sysDig (e : Env) : Option (List Store) := do
  let uip ← argptr e 1 4
  if e.answer then some (copyout e.mapped uip 4) else none

/-- How many bytes `safestrcpy(s, t, n)` stores. The loop stores the zero of a string that
fits, and `*s = 0` stores another one behind it. -/
def safestrcpy : List UInt8 → Nat → Nat
  | _, 0 => 0
  | _, 1 => 1
  | [], _ + 2 => 2
  | c :: t, n + 2 => if c = 0 then 2 else safestrcpy t (n + 1) + 1

def getprocs (pinfos : UInt32) (max : Int) : List (Option (List UInt8)) → Nat → List Store
  | [], _ => []
  | p :: rest, count =>
    if (count : Int) < max then
      match p with
      | none => getprocs pinfos max rest count
      | some name =>
        let at' := pinfos + UInt32.ofNat (36 * count)
        [⟨at', 4⟩, ⟨at' + 4, 4⟩, ⟨at' + 8, 4⟩, ⟨at' + 12, 4⟩, ⟨at' + 16, 4⟩,
          ⟨at' + 20, safestrcpy name 16⟩] ++ getprocs pinfos max rest (count + 1)
    else []

def sysGetprocs (e : Env) : Option (List Store) := do
  let max ← argint e 1
  let pinfos ← argptr e 0 (max * 36)
  some (getprocs pinfos (int max) e.procs 0)

inductive Call where
  | read
  | write
  | fstat
  | getcwd
  | send
  | recv
  | recvfrom
  | sendto
  | pipe
  | statfs
  | consize
  | mouse
  | getnetcfg
  | dig
  | getprocs
  | gui
  deriving DecidableEq, Repr

def Call.stores (e : Env) : Call → List Store
  | read => (sysRead e).getD []
  | fstat => (sysFstat e).getD []
  | getcwd => (sysGetcwd e).getD []
  | recv => (sysRecv e).getD []
  | recvfrom => (sysRecvfrom e).getD []
  | pipe => (sysPipe e).getD []
  | statfs => (sysStatfs e).getD []
  | consize => (sysConsize e).getD []
  | mouse => (sysMouse e).getD []
  | getnetcfg => (sysGetnetcfg e).getD []
  | dig => (sysDig e).getD []
  | getprocs => (sysGetprocs e).getD []
  -- These only read their buffers.
  | write | send | sendto | gui => []

end SirpairOs.Syscall
