import SirpairOs.Lib.Transition
import SirpairOs.Usock.Connect

/-! The socket calls of all processes side by side. A process runs from one lock
acquisition to the next; what it does there is a section of `Usock.Model`. -/
namespace SirpairOs.Usock

abbrev Pid : Type := Fin NPROC

inductive Call where
  | socket
  | bind (f : FilePtr) (path : Path)
  | listen (f : FilePtr) (backlog : Int)
  | connect (f : FilePtr) (path : Path)
  | accept (f : FilePtr)
  | close (f : FilePtr)
  deriving DecidableEq, Repr

def Call.file : Call → Option FilePtr
  | socket => none
  | bind f _ => some f
  | listen f _ => some f
  | connect f _ => some f
  | accept f => some f
  | close f => some f

/-- Which of the two pipes `usock_connect` is making. -/
inductive Dir where
  | c2s
  | s2c
  deriving DecidableEq, Repr

structure Conn where
  f : FilePtr
  path : Path
  lid : Lid
  c2s : Pair
  s2c : Pair

def Conn.set (c : Conn) (dir : Dir) (p : Pair) : Conn :=
  match dir with
  | .c2s => { c with c2s := p }
  | .s2c => { c with s2c := p }

inductive Task where
  | socket
  | bind (f : FilePtr) (path : Path)
  | listen (f : FilePtr) (backlog : Nat) (lid : Lid)
  /-- `usock_connect` at `find_listener_locked`. -/
  | find (f : FilePtr) (path : Path)
  /-- In `pipealloc`, at the first `filealloc`. -/
  | reader (c : Conn) (dir : Dir)
  /-- At the second `filealloc`. -/
  | writer (c : Conn) (dir : Dir) (r : FilePtr)
  /-- At `kalloc`. -/
  | page (c : Conn) (dir : Dir) (r w : FilePtr)
  /-- In `make_endpoint`, at `filealloc`. -/
  | endpoint (c : Conn)
  /-- At `acquire(&l->lock)` in `usock_connect`. -/
  | queue (c : Conn) (ep : FilePtr)
  /-- At `acquire(&l->lock)` in `usock_accept`, or asleep there. The `gen` of the
  listener when the call began is for the record. -/
  | accept (f : FilePtr) (lid : Lid) (gen : Nat)
  /-- Closing files, to return `value` in the end. -/
  | close (jobs : List Job) (value : Int)

/-- What a call returns: a value, with the serial number of the endpoint that a
successful `usock_connect` has queued, or a descriptor for a file. -/
inductive Result where
  | value (v : Int) (serial : Option Nat)
  | fd (f : FilePtr)
  deriving DecidableEq

inductive Next where
  | goon (task : Task)
  | done (result : Result)

/-- `return -1` -/
def Next.fails : Next := .done (.value (-1) none)

/-- A system call up to its first lock acquisition. Files of other types belong to
other subsystems. -/
def Call.begin (s : State) : Call → Next
  | socket => .goon .socket
  | bind f path =>
    if (s.file f).fresh = false then .fails
    else if validPath path = false then .fails
    else .goon (.bind f path)
  | listen f backlog =>
    match (s.file f).lid with
    | none => .fails
    | some lid =>
      if (s.file f).type ≠ .usock ∨ (s.file f).state ≠ .bound then .fails
      else .goon (.listen f (clampBacklog backlog) lid)
  | connect f path =>
    if (s.file f).fresh = false then .fails
    else if validPath path = false then .fails
    else .goon (.find f path)
  | accept f =>
    match (s.file f).lid with
    | none => .fails
    | some lid =>
      if (s.file f).type ≠ .usock ∨ (s.file f).state ≠ .listen then .fails
      else .goon (.accept f lid (s.listeners lid).gen)
  | close f => .goon (.close [.close f] 0)

/-- `pipealloc` has failed with the pointers `p`: its own cleanup, then that of
`usock_connect`. -/
def Conn.fail (c : Conn) (dir : Dir) (p : Pair) : Next :=
  .goon (.close (p.close ++ connectBad none (c.set dir p).c2s (c.set dir p).s2c) (-1))

/-- What follows a successful `pipealloc`. -/
def Conn.made (c : Conn) (dir : Dir) (r w : FilePtr) : Next :=
  match dir with
  | .c2s => .goon (.reader (c.set .c2s ⟨some r, some w⟩) .s2c)
  | .s2c => .goon (.endpoint (c.set .s2c ⟨some r, some w⟩))

/-- The end of `sys_accept` and of a failed `sys_socket`: without a free
descriptor the file is closed again. -/
def install (room : Bool) (f : FilePtr) : Next :=
  if room then .done (.fd f) else .goon (.close [.close f] (-1))

/-- From one lock acquisition to the next. `room` says whether the process has a
free descriptor. -/
def Task.step (killed room : Bool) : Task → State → Outcome Halt State Next
  | .socket, s =>
    match filealloc s with
    | (none, s) => .ok .fails s
    | (some f, s) =>
      if room then
        .ok (install room f) (s.setFile f { s.file f with
          type := .usock, readable := true, writable := true, state := .init, lid := none,
          rx := none, tx := none })
      else .ok (install room f) s
  | .bind f path, s =>
    let (value, s) := bindSection f path s
    .ok (.done (.value value none)) s
  | .listen f backlog lid, s =>
    let (value, s) := listenSection f backlog lid s
    .ok (.done (.value value none)) s
  | .find f path, s =>
    match findListener s path with
    | none => .ok .fails s
    | some lid => .ok (.goon (.reader ⟨f, path, lid, ⟨none, none⟩, ⟨none, none⟩⟩ .c2s)) s
  | .reader c dir, s =>
    match filealloc s with
    | (none, s) => .ok (c.fail dir ⟨none, none⟩) s
    | (some r, s) => .ok (.goon (.writer c dir r)) s
  | .writer c dir r, s =>
    match filealloc s with
    | (none, s) => .ok (c.fail dir ⟨some r, none⟩) s
    | (some w, s) => .ok (.goon (.page c dir r w)) s
  | .page c dir r w, s =>
    match s.kmem.kalloc with
    | (none, kmem) => .ok (c.fail dir ⟨some r, some w⟩) { s with kmem := kmem }
    | (some frame, kmem) => .ok (c.made dir r w) (initPipe frame r w { s with kmem := kmem })
  | .endpoint c, s =>
    match makeEndpoint c.c2s.r c.s2c.w s with
    | (none, s) => .ok (.goon (.close (connectBad none c.c2s c.s2c) (-1))) s
    | (some ep, s) => .ok (.goon (.queue c ep)) s
  | .queue c ep, s =>
    match queueSection c.f c.path c.lid ep c.s2c.r c.c2s.w s with
    | (none, s) => .ok (.goon (.close (connectBad (some ep) c.c2s c.s2c) (-1))) s
    | (some serial, s) => .ok (.done (.value 0 (some serial))) s
  | .accept f lid gen, s =>
    match acceptSection killed lid gen s with
    | (.sleep, s) => .ok (.goon (.accept f lid gen)) s
    | (.fail, s) => .ok .fails s
    | (.got ep, s) => .ok (install room ep) s
  | .close [] value, s => .ok (.done (.value value none)) s
  | .close (job :: rest) value, s =>
    (job.perform s).bind fun more s => .ok (.goon (.close (more ++ rest) value)) s

structure Machine where
  shared : State
  /-- The open files of every process. -/
  ofile : Pid → List FilePtr
  /-- The call a process is in. -/
  task : Pid → Option (Call × Task)
  /-- The last call that has returned. -/
  last : Pid → Option (Call × Result)
  panicked : Bool

namespace Machine

def room (m : Machine) (p : Pid) : Bool := (m.ofile p).length < NOFILE

/-- Process `p` goes on with call `c`. -/
def goon (m : Machine) (p : Pid) (c : Call) (s : State) : Next → Machine
  | .goon task => { m with shared := s, task := Function.update m.task p (some (c, task)) }
  | .done result => { m with
      shared := s
      task := Function.update m.task p none
      last := Function.update m.last p (some (c, result))
      ofile := match result with
        | .value _ _ => m.ofile
        | .fd f => Function.update m.ofile p (f :: m.ofile p) }

def enter (m : Machine) (p : Pid) : Call → Machine
  | .close f => { m with ofile := Function.update m.ofile p ((m.ofile p).erase f) }
  | _ => m

end Machine

/-- What can happen: a process makes a call on one of its files, a process in a
call moves on, or a process gets another reference to an open file of a process
(`fork`, `dup`). -/
inductive Act where
  | call (p : Pid) (c : Call)
  | move (p : Pid) (killed : Bool)
  | share (p q : Pid) (f : FilePtr)
  deriving DecidableEq, Repr

def step (act : Act) (m : Machine) : Option Machine :=
  if m.panicked then none
  else
    match act with
    | .call p c =>
      if m.task p ≠ none ∨ ∃ f ∈ c.file, f ∉ m.ofile p then none
      else some ((m.enter p c).goon p c m.shared (c.begin m.shared))
    | .move p killed =>
      match m.task p with
      | none => none
      | some (c, task) =>
        match task.step killed (m.room p) m.shared with
        | .ok next s => some (m.goon p c s next)
        | .halt _ s => some { m with shared := s, panicked := true }
    | .share p q f =>
      if m.task p ≠ none ∨ m.task q ≠ none ∨ f ∉ m.ofile p ∨ m.room q = false then none
      else if (m.shared.file f).ref < 1 then some { m with panicked := true }
      else some { m with
        shared := m.shared.setFile f { m.shared.file f with ref := (m.shared.file f).ref + 1 }
        ofile := Function.update m.ofile q (f :: m.ofile q) }

def Job.files : Job → List FilePtr
  | .fileclose f _ => [f]
  | _ => []

/-- The endpoint a job closes together with its listener. -/
def Job.tags : Job → List Tag
  | .fileclose _ tag => tag.toList
  | _ => []

/-- The slot a job will free. -/
def Job.frees : Job → List Lid
  | .unbind lid => [lid]
  | _ => []

def Pair.files (p : Pair) : List FilePtr := p.r.toList ++ p.w.toList

/-- What is left to close. -/
def Task.jobs : Task → List Job
  | .close jobs _ => jobs
  | _ => []

/-- The references that the local variables of a task stand for. The endpoint
takes over `c2s_r` and `s2c_w`. -/
def Task.files : Task → List FilePtr
  | .reader c _ => c.c2s.files ++ c.s2c.files
  | .writer c _ r => r :: (c.c2s.files ++ c.s2c.files)
  | .page c _ r w => r :: w :: (c.c2s.files ++ c.s2c.files)
  | .endpoint c => c.c2s.files ++ c.s2c.files
  | .queue c ep => ep :: (c.c2s.w.toList ++ c.s2c.r.toList)
  | .close jobs _ => jobs.flatMap Job.files
  | _ => []

def Task.conn : Task → Option Conn
  | .reader c _ => some c
  | .writer c _ _ => some c
  | .page c _ _ _ => some c
  | .endpoint c => some c
  | .queue c _ => some c
  | _ => none

namespace Machine

def todo (m : Machine) (p : Pid) : Option Task := (m.task p).map Prod.snd

def jobs (m : Machine) (p : Pid) : List Job := (m.todo p).elim [] Task.jobs

/-- A process is about to clear the slot that it has freed. -/
def Clearing (m : Machine) (lid : Lid) : Prop := ∃ p, .clear lid ∈ m.jobs p

/-- A process is in the middle of a connection to the slot. -/
def Connecting (m : Machine) (lid : Lid) : Prop :=
  ∃ p, ∃ task ∈ m.todo p, ∃ c ∈ task.conn, c.lid = lid

instance (m : Machine) (lid : Lid) : Decidable (m.Clearing lid) :=
  inferInstanceAs (Decidable (∃ p, .clear lid ∈ m.jobs p))

instance (m : Machine) (lid : Lid) : Decidable (m.Connecting lid) :=
  inferInstanceAs (Decidable (∃ p, ∃ task ∈ m.todo p, ∃ c ∈ task.conn, c.lid = lid))

end Machine

/-- The conditions on a step: a slot is bound anew only when no connection that
found it and no close that freed it is still under way, and a connection gets the
files and pages that it asks for. -/
def Task.Orderly (m : Machine) : Task → Prop
  | .bind _ _ => ∀ lid ∈ freeSlot m.shared, ¬ m.Clearing lid ∧ ¬ m.Connecting lid
  | .reader _ _ => freeFile m.shared ≠ none
  | .writer _ _ _ => freeFile m.shared ≠ none
  | .page _ _ _ _ => m.shared.kmem.Grants
  | .endpoint _ => freeFile m.shared ≠ none
  | _ => True

def Orderly (act : Act) (m : Machine) : Prop :=
  match act with
  | .move p _ => ∀ task ∈ m.todo p, task.Orderly m
  | _ => True

instance (m : Machine) (task : Task) : Decidable (task.Orderly m) := by
  unfold Task.Orderly
  split <;> infer_instance

instance (act : Act) (m : Machine) : Decidable (Orderly act m) := by
  unfold Orderly
  split <;> infer_instance

end SirpairOs.Usock
