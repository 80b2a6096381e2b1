import SirpairOs.Lib.Transition
import SirpairOs.Mem.Proc

/-! The process table of `kernel/proc.c`, step by step: what happens while `ptable.lock` is held
is one step, and so is each of the stores that `fork` makes to its child without the lock. Memory,
files and the contents of the processes are left out; an allocation succeeds or fails. -/
namespace SirpairOs.Proc

open Mem (ProcState)

/-- What a process sleeps on: the address of a process, in `wait`, or something else. -/
inductive Chan where
  | proc (p : Mem.Slot)
  | other (n : Nat)
  deriving DecidableEq, Repr

/-- `struct proc`, and the local variable `np` of a `fork` that it is in. -/
structure Entry where
  state : ProcState
  pid : Int
  parent : Option Mem.Slot
  killed : Bool
  chan : Option Chan
  np : Option Mem.Slot
  deriving DecidableEq, Repr

@[ext] structure Table where
  proc : Mem.Slot → Entry
  nextpid : Int
  initproc : Mem.Slot

namespace Table

def set (t : Table) (p : Mem.Slot) (e : Entry) : Table :=
  { t with proc := Function.update t.proc p e }

def zero : Table := ⟨fun _ => ⟨.unused, 0, none, false, none, none⟩, 1, 0⟩

/-- A step of `nextpid++`, on 32 bits. -/
def wrap (n : Int) : Int := n.bmod (2 ^ 32)

/-- `allocproc` up to the release of the lock. -/
def allocproc (t : Table) : Option Mem.Slot × Table :=
  match (List.finRange NPROC).find? fun p => (t.proc p).state = .unused with
  | none => (none, t)
  | some p =>
    (some p, { t with nextpid := wrap (t.nextpid + 1) }.set p
      { t.proc p with state := .embryo, pid := t.nextpid })

/-- `userinit`, where the memory suffices. -/
def userinit (t : Table) : Table :=
  match allocproc t with
  | (none, t) => t
  | (some p, t) => { t with initproc := p }.set p { t.proc p with state := .runnable }

def forkAlloc (cur : Mem.Slot) (t : Table) : Table :=
  match allocproc t with
  | (none, t) => t
  | (some p, t) => t.set cur { t.proc cur with np := some p }

/-- The last that `fork` does to its child. -/
def endFork (cur p : Mem.Slot) (e : Entry) (t : Table) : Table :=
  let t := t.set p e
  t.set cur { t.proc cur with np := none }

/-- The stack or the memory of the child cannot be allocated. -/
def forkFail (cur p : Mem.Slot) (t : Table) : Table :=
  t.endFork cur p { t.proc p with state := .unused }

def forkFinish (cur p : Mem.Slot) (t : Table) : Table :=
  t.endFork cur p { t.proc p with parent := some cur, state := .runnable }

def wakeup1 (chan : Option Chan) (t : Table) : Table :=
  { t with proc := fun p =>
    if (t.proc p).state = .sleeping ∧ (t.proc p).chan = chan then { t.proc p with state := .runnable }
    else t.proc p }

/-- The loop of `exit` over the children. -/
def passChildren (cur : Mem.Slot) (t : Table) : Table :=
  let zombies := ∃ p, (t.proc p).parent = some cur ∧ (t.proc p).state = .zombie
  let t := { t with proc := fun p =>
    if (t.proc p).parent = some cur then { t.proc p with parent := some t.initproc } else t.proc p }
  if zombies then t.wakeup1 (some (.proc t.initproc)) else t

def exit (cur : Mem.Slot) (t : Table) : Table :=
  let t := t.wakeup1 ((t.proc cur).parent.map Chan.proc)
  let t := t.passChildren cur
  t.set cur { t.proc cur with state := .zombie }

def reap (p : Mem.Slot) (t : Table) : Table :=
  t.set p { t.proc p with state := .unused, pid := 0, parent := none, killed := false }

inductive Waited where
  | pid (n : Int)
  | noChild
  | sleeps
  deriving DecidableEq, Repr

def wait (cur : Mem.Slot) (t : Table) : Waited × Table :=
  match (List.finRange NPROC).find? fun p =>
      (t.proc p).parent = some cur ∧ (t.proc p).state = .zombie with
  | some p => (.pid (t.proc p).pid, t.reap p)
  | none =>
    if (∀ p, (t.proc p).parent ≠ some cur) ∨ (t.proc cur).killed then (.noChild, t)
    else (.sleeps, t.set cur { t.proc cur with state := .sleeping, chan := some (.proc cur) })

def kill (pid : Int) (t : Table) : Int × Table :=
  match (List.finRange NPROC).find? fun p => (t.proc p).pid = pid with
  | none => (-1, t)
  | some p =>
    (0, t.set p { t.proc p with
      killed := true
      state := if (t.proc p).state = .sleeping then .runnable else (t.proc p).state })

end Table

inductive Event where
  | forkAlloc (cur : Mem.Slot)
  | forkFail (cur : Mem.Slot)
  | forkFinish (cur : Mem.Slot)
  | exit (cur : Mem.Slot)
  | wait (cur : Mem.Slot)
  | kill (pid : Int)
  /-- `scheduler` chooses the process. -/
  | schedule (p : Mem.Slot)
  | yield (cur : Mem.Slot)
  /-- `sleep`, on something that is no process. -/
  | sleep (cur : Mem.Slot) (n : Nat)
  | wakeup (n : Nat)
  deriving DecidableEq, Repr

namespace Table

/-- The process is in the kernel and not in the middle of a `fork`. -/
def idle (t : Table) (cur : Mem.Slot) : Bool :=
  (t.proc cur).state = .running ∧ (t.proc cur).np = none

/-- One step; a process acts only while it runs. `init` never exits. -/
def step : Event → Table → Option Table
  | .forkAlloc cur, t => if t.idle cur then some (t.forkAlloc cur) else none
  | .forkFail cur, t =>
    if (t.proc cur).state = .running then (t.proc cur).np.map fun p => t.forkFail cur p else none
  | .forkFinish cur, t =>
    if (t.proc cur).state = .running then (t.proc cur).np.map fun p => t.forkFinish cur p else none
  | .exit cur, t => if t.idle cur ∧ cur ≠ t.initproc then some (t.exit cur) else none
  | .wait cur, t => if t.idle cur then some (t.wait cur).2 else none
  | .kill pid, t => some (t.kill pid).2
  | .schedule p, t =>
    if (t.proc p).state = .runnable then some (t.set p { t.proc p with state := .running }) else none
  | .yield cur, t =>
    if (t.proc cur).state = .running then some (t.set cur { t.proc cur with state := .runnable })
    else none
  | .sleep cur n, t =>
    if (t.proc cur).state = .running then
      some (t.set cur { t.proc cur with state := .sleeping, chan := some (.other n) })
    else none
  | .wakeup n, t => some (t.wakeup1 (some (.other n)))

end Table

namespace Table

@[simp] theorem set_proc_self (t : Table) (p : Mem.Slot) (e : Entry) : (t.set p e).proc p = e :=
  Function.update_self ..

theorem set_proc_other (t : Table) {p q : Mem.Slot} (e : Entry) (other : q ≠ p) :
    (t.set p e).proc q = t.proc q :=
  Function.update_of_ne other ..

theorem allocproc_some {t t' : Table} {p : Mem.Slot} (found : t.allocproc = (some p, t')) :
    (t.proc p).state = .unused ∧ t' = { t with nextpid := wrap (t.nextpid + 1) }.set p
      { t.proc p with state := .embryo, pid := t.nextpid } := by
  unfold allocproc at found
  split at found
  · cases found
  · rename_i q first
    cases found
    exact ⟨by simpa using List.find?_some first, rfl⟩

theorem allocproc_none {t t' : Table} (full : t.allocproc = (none, t')) : t' = t := by
  unfold allocproc at full
  split at full
  · cases full
    rfl
  · cases full

/-- A kill that returns 0 has found a process with the number. -/
theorem kill_zero {t : Table} {pid : Int} (done : (t.kill pid).1 = 0) : ∃ p, (t.proc p).pid = pid := by
  unfold kill at done
  split at done
  · cases done
  · rename_i p first
    exact ⟨p, by simpa using List.find?_some first⟩

end Table

end SirpairOs.Proc
