import SirpairOs.Lib.Ring
import SirpairOs.Lib.Transition
import SirpairOs.Fs.Param

/-! Pipes (`kernel/pipe.c`) with the parts of `kernel/proc.c` they use: `sleep`,
`wakeup` and `kill`. Every process is at some place of one of the calls; a step
takes one process from one lock operation to the next. -/
namespace SirpairOs.Pipes

def PIPESIZE : Nat := 512

/-- `struct pipe`, without its lock. -/
structure Pipe where
  data : Fin PIPESIZE → UInt8
  /-- Number of bytes read. -/
  nread : BitVec 32
  /-- Number of bytes written. -/
  nwrite : BitVec 32
  /-- Read fd is still open. -/
  readopen : Bool
  /-- Write fd is still open. -/
  writeopen : Bool

/-- What processes sleep on: `&p->nread` or `&p->nwrite`. -/
inductive Chan where
  | nread
  | nwrite
  deriving DecidableEq, Repr

inductive Call where
  | write (addr : Nat → UInt8) (n : Int)
  | read (n : Int)
  | close (writable : Bool)

/-- What a call has returned. For a `pipewrite` the bytes it stored are kept, for
a `piperead` those it delivered. -/
inductive Result where
  | wrote (addr : Nat → UInt8) (n : Int) (bytes : List UInt8) (value : Int)
  | read (n : Int) (bytes : List UInt8) (value : Int)
  | closed

inductive Wake where
  /-- Before the `sleep` of a `pipewrite` that found the pipe full. -/
  | full (addr : Nat → UInt8) (n : Int) (bytes : List UInt8)
  /-- Before the `release` at the end of a call. -/
  | finish (result : Result)

inductive Sleep where
  | write (addr : Nat → UInt8) (n : Int) (bytes : List UInt8)
  | read (n : Int)

inductive Pc where
  /-- In none of the calls; the result of the last one. -/
  | out (last : Option Result)
  /-- At `acquire(&p->lock)`. -/
  | start (call : Call)
  /-- At the loop tests of `pipewrite`, after `bytes` have been stored. -/
  | write (addr : Nat → UInt8) (n : Int) (bytes : List UInt8)
  /-- At the loop that waits for data. -/
  | read (n : Int)
  /-- At the loop that copies, after `bytes` have been delivered. -/
  | copy (n : Int) (bytes : List UInt8)
  /-- At `acquire(&ptable.lock)` in `wakeup(chan)`. -/
  | wake (chan : Chan) (next : Wake)
  /-- In `wakeup1(chan)`. -/
  | waking (chan : Chan) (next : Wake)
  /-- At `release(&p->lock)`. -/
  | finish (result : Result)
  /-- At `kfree((char*)p)`. -/
  | free
  /-- At `acquire(&ptable.lock)` in `sleep(chan, &p->lock)`. -/
  | sleep (chan : Chan) (next : Sleep)
  /-- At `release(lk)` in `sleep`. -/
  | unlock (chan : Chan) (next : Sleep)
  /-- About to set its state to `SLEEPING` and to call `sched`. -/
  | doze (chan : Chan) (next : Sleep)
  /-- In `sched`, until it is `RUNNABLE` and gets to run. -/
  | sched (next : Sleep)
  /-- At `acquire(lk)` at the end of `sleep`. -/
  | relock (next : Sleep)

structure State where
  pipe : Pipe
  /-- Who holds `p->lock`. -/
  lock : Option Nat
  /-- Who holds `ptable.lock`. -/
  ptlock : Option Nat
  pc : Nat → Pc
  /-- The channel of a process in state `SLEEPING`. -/
  sleeping : Nat → Option Chan
  killed : Nat → Bool
  /-- The files of the two ends still have references. -/
  readRef : Bool
  writeRef : Bool
  freed : Bool
  /-- All bytes that `pipewrite` calls have stored, in storage order, each with the
  process that stored it. -/
  writes : List (Nat × UInt8)
  /-- All bytes that `piperead` calls have delivered, in delivery order, each with
  the process that got it. -/
  reads : List (Nat × UInt8)
  /-- The lengths of the two lists when the process made its last call. -/
  begun : Nat → Nat × Nat

def pipealloc (data : Fin PIPESIZE → UInt8) (killed : Nat → Bool) : State where
  pipe := ⟨data, 0, 0, true, true⟩
  lock := none
  ptlock := none
  pc _ := .out none
  sleeping _ := none
  killed := killed
  readRef := true
  writeRef := true
  freed := false
  writes := []
  reads := []
  begun _ := (0, 0)

instance : NeZero PIPESIZE := ⟨by decide⟩

def slot (count : BitVec 32) : Fin PIPESIZE := Ring.index PIPESIZE count

/-- `p->nwrite == p->nread + PIPESIZE` -/
def Pipe.full (p : Pipe) : Bool := p.nwrite = p.nread + BitVec.ofNat 32 PIPESIZE

/-- `p->nread == p->nwrite` -/
def Pipe.empty (p : Pipe) : Bool := p.nread = p.nwrite

namespace State

def goto (s : State) (p : Nat) (pc : Pc) : State := { s with pc := Function.update s.pc p pc }

/-- `wakeup1(chan)` -/
def wakeup1 (s : State) (chan : Chan) : State :=
  { s with sleeping := fun q => if s.sleeping q = some chan then none else s.sleeping q }

def stored (s : State) : List UInt8 := s.writes.map Prod.snd

def delivered (s : State) : List UInt8 := s.reads.map Prod.snd

/-- `p->data[p->nwrite++ % PIPESIZE] = byte` in a call of process `p`. -/
def put (s : State) (p : Nat) (byte : UInt8) : State :=
  { s with
    pipe := { s.pipe with
      data := Function.update s.pipe.data (slot s.pipe.nwrite) byte
      nwrite := s.pipe.nwrite + 1#32 }
    writes := s.writes ++ [(p, byte)] }

/-- `p->data[p->nread % PIPESIZE]` -/
def front (s : State) : UInt8 := s.pipe.data (slot s.pipe.nread)

/-- `p->nread++`, with the byte handed to process `p`. -/
def take (s : State) (p : Nat) : State :=
  { s with
    pipe := { s.pipe with nread := s.pipe.nread + 1#32 }
    reads := s.reads ++ [(p, s.front)] }

/-- What `pipeclose` does to the pipe. -/
def close (s : State) (writable : Bool) : State :=
  if writable then { s with pipe := { s.pipe with writeopen := false } }
  else { s with pipe := { s.pipe with readopen := false } }

end State

/-- The channel that `pipeclose` wakes up. -/
def closeChan (writable : Bool) : Chan := if writable then .nread else .nwrite

def Wake.resume : Wake → Pc
  | full addr n bytes => .sleep .nwrite (.write addr n bytes)
  | finish result => .finish result

def Sleep.resume : Sleep → Pc
  | write addr n bytes => .write addr n bytes
  | read n => .read n

/-- One step of process `p`; `none` while it has to wait for a lock or sleeps. -/
def move (p : Nat) (s : State) : Option State :=
  match s.pc p with
  | .out _ => none
  | .start call =>
    if s.lock ≠ none then none
    else
      let s := { s with lock := some p }
      match call with
      | .write addr n => some (s.goto p (.write addr n []))
      | .read n => some (s.goto p (.read n))
      | .close writable =>
        some ((s.close writable).goto p (.wake (closeChan writable) (.finish .closed)))
  | .write addr n bytes =>
    if (bytes.length : Int) < n then
      if s.pipe.full then
        if s.pipe.readopen = false ∨ s.killed p = true then
          some (s.goto p (.finish (.wrote addr n bytes (-1))))
        else some (s.goto p (.wake .nread (.full addr n bytes)))
      else
        some ((s.put p (addr bytes.length)).goto p (.write addr n (bytes ++ [addr bytes.length])))
    else some (s.goto p (.wake .nread (.finish (.wrote addr n bytes n))))
  | .read n =>
    if s.pipe.empty ∧ s.pipe.writeopen = true then
      if s.killed p then some (s.goto p (.finish (.read n [] (-1))))
      else some (s.goto p (.sleep .nread (.read n)))
    else some (s.goto p (.copy n []))
  | .copy n bytes =>
    if (bytes.length : Int) < n ∧ s.pipe.empty = false then
      some ((s.take p).goto p (.copy n (bytes ++ [s.front])))
    else some (s.goto p (.wake .nwrite (.finish (.read n bytes bytes.length))))
  | .wake chan next =>
    if s.ptlock ≠ none then none
    else some ({ s with ptlock := some p }.goto p (.waking chan next))
  | .waking chan next => some ({ s.wakeup1 chan with ptlock := none }.goto p next.resume)
  | .finish result =>
    let s := { s with lock := none }
    match result with
    | .closed =>
      if s.pipe.readopen = false ∧ s.pipe.writeopen = false then some (s.goto p .free)
      else some (s.goto p (.out (some .closed)))
    | result => some (s.goto p (.out (some result)))
  | .free => some ({ s with freed := true }.goto p (.out (some .closed)))
  | .sleep chan next =>
    if s.ptlock ≠ none then none
    else some ({ s with ptlock := some p }.goto p (.unlock chan next))
  | .unlock chan next => some ({ s with lock := none }.goto p (.doze chan next))
  | .doze chan next =>
    some ({ s with
      sleeping := Function.update s.sleeping p (some chan)
      ptlock := none }.goto p (.sched next))
  | .sched next =>
    if s.sleeping p ≠ none ∨ s.ptlock ≠ none then none
    else some (s.goto p (.relock next))
  | .relock next =>
    if s.lock ≠ none then none
    else some ({ s with lock := some p }.goto p next.resume)

/-- What can happen: a process that is in no call makes one, a process moves on,
or somebody kills a process. -/
inductive Act where
  | call (p : Nat) (call : Call)
  | move (p : Nat)
  | kill (p : Nat)

/-- Closing an end drops the last reference to its file. -/
def State.unref (s : State) : Call → State
  | .close true => { s with writeRef := false }
  | .close false => { s with readRef := false }
  | _ => s

/-- Process `p` makes a call. -/
def State.enter (s : State) (p : Nat) (c : Call) : State :=
  { s.unref c with
    begun := Function.update s.begun p (s.writes.length, s.reads.length) }.goto p (.start c)

def step : Act → State → Option State
  | .call p c, s =>
    match s.pc p with
    | .out _ => some (s.enter p c)
    | _ => none
  | .move p, s => move p s
  | .kill p, s =>
    if s.ptlock ≠ none then none
    else some { s with
      killed := Function.update s.killed p true
      sleeping := Function.update s.sleeping p none }

/-! ### Who may make a call

A call goes through an open file, and `fileclose` calls `pipeclose` for the last
reference. A process inside `piperead` or `pipewrite` holds one. -/

def Pc.InWrite : Pc → Prop
  | .start (.write _ _) => True
  | .write _ _ _ => True
  | .wake _ (.full _ _ _) => True
  | .wake _ (.finish (.wrote _ _ _ _)) => True
  | .waking _ (.full _ _ _) => True
  | .waking _ (.finish (.wrote _ _ _ _)) => True
  | .finish (.wrote _ _ _ _) => True
  | .sleep _ (.write _ _ _) => True
  | .unlock _ (.write _ _ _) => True
  | .doze _ (.write _ _ _) => True
  | .sched (.write _ _ _) => True
  | .relock (.write _ _ _) => True
  | _ => False

def Pc.InRead : Pc → Prop
  | .start (.read _) => True
  | .read _ => True
  | .copy _ _ => True
  | .wake _ (.finish (.read _ _ _)) => True
  | .waking _ (.finish (.read _ _ _)) => True
  | .finish (.read _ _ _) => True
  | .sleep _ (.read _) => True
  | .unlock _ (.read _) => True
  | .doze _ (.read _) => True
  | .sched (.read _) => True
  | .relock (.read _) => True
  | _ => False

def Allowed : Act → State → Prop
  | .call _ (.write _ _), s => s.writeRef = true
  | .call _ (.read _), s => s.readRef = true
  | .call _ (.close true), s => s.writeRef = true ∧ ∀ q, ¬ (s.pc q).InWrite
  | .call _ (.close false), s => s.readRef = true ∧ ∀ q, ¬ (s.pc q).InRead
  | _, _ => True

/-- The steps of process `p`, one constructor for each way through the code. -/
inductive Moves (p : Nat) (s : State) : State → Prop where
  | lockWrite {addr : Nat → UInt8} {n : Int} (place : s.pc p = .start (.write addr n))
      (free : s.lock = none) : Moves p s ({ s with lock := some p }.goto p (.write addr n []))
  | lockRead {n : Int} (place : s.pc p = .start (.read n)) (free : s.lock = none) :
      Moves p s ({ s with lock := some p }.goto p (.read n))
  | lockClose {writable : Bool} (place : s.pc p = .start (.close writable)) (free : s.lock = none) :
      Moves p s ((State.close { s with lock := some p } writable).goto p
        (.wake (closeChan writable) (.finish .closed)))
  | store {addr : Nat → UInt8} {n : Int} {bytes : List UInt8}
      (place : s.pc p = .write addr n bytes) (more : (bytes.length : Int) < n)
      (room : s.pipe.full = false) : Moves p s ((s.put p (addr bytes.length)).goto p
        (.write addr n (bytes ++ [addr bytes.length])))
  | giveUp {addr : Nat → UInt8} {n : Int} {bytes : List UInt8}
      (place : s.pc p = .write addr n bytes) (more : (bytes.length : Int) < n)
      (full : s.pipe.full = true) (why : s.pipe.readopen = false ∨ s.killed p = true) :
      Moves p s (s.goto p (.finish (.wrote addr n bytes (-1))))
  | wakeReaders {addr : Nat → UInt8} {n : Int} {bytes : List UInt8}
      (place : s.pc p = .write addr n bytes) (full : s.pipe.full = true)
      (readers : s.pipe.readopen = true) : Moves p s (s.goto p (.wake .nread (.full addr n bytes)))
  | wroteAll {addr : Nat → UInt8} {n : Int} {bytes : List UInt8}
      (place : s.pc p = .write addr n bytes) (done : n ≤ bytes.length) :
      Moves p s (s.goto p (.wake .nread (.finish (.wrote addr n bytes n))))
  | readKilled {n : Int} (place : s.pc p = .read n) :
      Moves p s (s.goto p (.finish (.read n [] (-1))))
  | readSleep {n : Int} (place : s.pc p = .read n) (empty : s.pipe.empty = true)
      (writers : s.pipe.writeopen = true) : Moves p s (s.goto p (.sleep .nread (.read n)))
  | readGo {n : Int} (place : s.pc p = .read n)
      (ready : ¬ (s.pipe.empty = true ∧ s.pipe.writeopen = true)) :
      Moves p s (s.goto p (.copy n []))
  | take {n : Int} {bytes : List UInt8} (place : s.pc p = .copy n bytes)
      (some : s.pipe.empty = false) : Moves p s ((s.take p).goto p (.copy n (bytes ++ [s.front])))
  | copied {n : Int} {bytes : List UInt8} (place : s.pc p = .copy n bytes)
      (done : ¬ ((bytes.length : Int) < n ∧ s.pipe.empty = false)) :
      Moves p s (s.goto p (.wake .nwrite (.finish (.read n bytes bytes.length))))
  | wake {chan : Chan} {next : Wake} (place : s.pc p = .wake chan next) (free : s.ptlock = none) :
      Moves p s ({ s with ptlock := some p }.goto p (.waking chan next))
  | waking {chan : Chan} {next : Wake} (place : s.pc p = .waking chan next) :
      Moves p s ({ s.wakeup1 chan with ptlock := none }.goto p next.resume)
  | finish {result : Result} (place : s.pc p = .finish result) :
      Moves p s ({ s with lock := none }.goto p (.out (some result)))
  | finishFree (place : s.pc p = .finish .closed) (closed : s.pipe.readopen = false)
      (closed' : s.pipe.writeopen = false) : Moves p s ({ s with lock := none }.goto p .free)
  | free (place : s.pc p = .free) :
      Moves p s ({ s with freed := true }.goto p (.out (some .closed)))
  | sleep {chan : Chan} {next : Sleep} (place : s.pc p = .sleep chan next)
      (free : s.ptlock = none) : Moves p s ({ s with ptlock := some p }.goto p (.unlock chan next))
  | unlock {chan : Chan} {next : Sleep} (place : s.pc p = .unlock chan next) :
      Moves p s ({ s with lock := none }.goto p (.doze chan next))
  | doze {chan : Chan} {next : Sleep} (place : s.pc p = .doze chan next) : Moves p s ({ s with
        sleeping := Function.update s.sleeping p (some chan)
        ptlock := none }.goto p (.sched next))
  | sched {next : Sleep} (place : s.pc p = .sched next) (awake : s.sleeping p = none) :
      Moves p s (s.goto p (.relock next))
  | relock {next : Sleep} (place : s.pc p = .relock next) (free : s.lock = none) :
      Moves p s ({ s with lock := some p }.goto p next.resume)

theorem moves_of_move {p : Nat} {s s' : State} (moved : move p s = some s') : Moves p s s' := by
  unfold move at moved
  split at moved
  · cases moved
  · rename_i call place
    split at moved
    · cases moved
    rename_i free
    have free : s.lock = none := by simpa using free
    cases call with
    | write addr n => exact Option.some.inj moved ▸ .lockWrite place free
    | read n => exact Option.some.inj moved ▸ .lockRead place free
    | close writable => exact Option.some.inj moved ▸ .lockClose place free
  · rename_i addr n bytes place
    split at moved
    · rename_i more
      split at moved
      · rename_i full
        split at moved
        · rename_i why
          exact Option.some.inj moved ▸ .giveUp place more full why
        · rename_i stay
          have readers : s.pipe.readopen = true := by simpa using fun closed => stay (.inl closed)
          exact Option.some.inj moved ▸ .wakeReaders place full readers
      · rename_i room
        exact Option.some.inj moved ▸ .store place more (by simpa using room)
    · rename_i done
      exact Option.some.inj moved ▸ .wroteAll place (by omega)
  · rename_i n place
    split at moved
    · rename_i wait
      split at moved
      · exact Option.some.inj moved ▸ .readKilled place
      · exact Option.some.inj moved ▸ .readSleep place wait.1 wait.2
    · rename_i ready
      exact Option.some.inj moved ▸ .readGo place ready
  · rename_i n bytes place
    split at moved
    · rename_i more
      exact Option.some.inj moved ▸ .take place more.2
    · rename_i done
      exact Option.some.inj moved ▸ .copied place done
  · rename_i chan next place
    split at moved
    · cases moved
    · rename_i free
      exact Option.some.inj moved ▸ .wake place (by simpa using free)
  · rename_i chan next place
    exact Option.some.inj moved ▸ .waking place
  · rename_i result place
    cases result with
    | wrote addr n bytes value | read n bytes value => exact Option.some.inj moved ▸ .finish place
    | closed =>
      dsimp only at moved
      split at moved
      · rename_i both
        exact Option.some.inj moved ▸ .finishFree place both.1 both.2
      · exact Option.some.inj moved ▸ .finish place
  · rename_i place
    exact Option.some.inj moved ▸ .free place
  · rename_i chan next place
    split at moved
    · cases moved
    · rename_i free
      exact Option.some.inj moved ▸ .sleep place (by simpa using free)
  · rename_i chan next place
    exact Option.some.inj moved ▸ .unlock place
  · rename_i chan next place
    exact Option.some.inj moved ▸ .doze place
  · rename_i next place
    split at moved
    · cases moved
    · rename_i awake
      exact Option.some.inj moved ▸ .sched place (by simpa using fun asleep => awake (.inl asleep))
  · rename_i next place
    split at moved
    · cases moved
    · rename_i free
      exact Option.some.inj moved ▸ .relock place (by simpa using free)

end SirpairOs.Pipes
