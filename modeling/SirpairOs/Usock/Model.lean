import SirpairOs.Lib.Program
import SirpairOs.Lib.Tally
import SirpairOs.Fs.Param
import SirpairOs.Mem.Kalloc
import Mathlib.Algebra.BigOperators.Fin

/-! Unix sockets (`kernel/unixsock.c`) with the file table and the ends of pipes.
What happens between one lock acquisition and the next is one function on the
state. -/
namespace SirpairOs.Usock

open Mem (Kmem)

def NUSOCK : Nat := 32
def USOCK_PENDING_MAX : Nat := 16
def USOCK_PATH_MAX : Nat := 64

abbrev FilePtr : Type := Fin NFILE

abbrev Lid : Type := Fin NUSOCK

abbrev Path : Type := List UInt8

inductive FileType where
  | none
  | pipe
  | inode
  | usock
  | tcpsock
  | udpsock
  deriving DecidableEq, Repr

inductive SockState where
  | init
  | bound
  | listen
  | conn
  deriving DecidableEq, Repr

/-- The fields of `struct file` that pipes and Unix sockets use. A negative
`usock_lid` and a null pointer are `none`. -/
structure File where
  type : FileType
  ref : Nat
  readable : Bool
  writable : Bool
  /-- The page of the pipe. -/
  pipe : Option Nat
  state : SockState
  lid : Option Lid
  rx : Option FilePtr
  tx : Option FilePtr
  deriving DecidableEq, Repr

/-- `readopen` and `writeopen` of `struct pipe`. -/
structure Ends where
  readopen : Bool
  writeopen : Bool
  deriving DecidableEq, Repr

/-- What `pipeclose` does to the flags. -/
def Ends.close (p : Ends) (writable : Bool) : Ends :=
  if writable then { p with writeopen := false } else { p with readopen := false }

/-- A server endpoint in a queue. The serial number is not in the code: it says
which `usock_connect` made it. -/
structure Endpoint where
  file : FilePtr
  serial : Nat
  deriving DecidableEq, Repr

instance : NeZero NUSOCK := ⟨by decide⟩
instance : NeZero NFILE := ⟨by decide⟩

/-- `struct usock_listener`, without its lock. The ring buffer is the list of its
entries from `head` on: `backlog` never exceeds `USOCK_PENDING_MAX`, so no entry
is overwritten. -/
structure Listener where
  used : Bool
  listening : Bool
  backlog : Nat
  path : Path
  pending : List Endpoint
  /-- Not in the code: how often the slot has been bound. -/
  gen : Nat

def Listener.cnt (l : Listener) : Nat := l.pending.length

/-- What a successful `usock_connect` has done, for the record. -/
structure Queued where
  path : Path
  lid : Lid
  gen : Nat
  /-- The path that the listener was bound to at that moment. -/
  bound : Path

/-- The end of an endpoint's wait, for the record: where it was waiting. -/
structure Tag where
  serial : Nat
  lid : Lid
  gen : Nat
  deriving DecidableEq, Repr

structure State where
  file : FilePtr → File
  pipes : Nat → Ends
  kmem : Kmem
  listeners : Lid → Listener
  /-- The endpoints that were queued; the serial number is the position. -/
  queued : List Queued
  /-- The endpoints that `usock_accept` returned, with the listener as it was when
  the call began. -/
  accepted : List Tag
  /-- The endpoints that were closed with their listener. -/
  closed : List Tag

namespace State

def setFile (s : State) (f : FilePtr) (file : File) : State :=
  { s with file := Function.update s.file f file }

def setListener (s : State) (lid : Lid) (l : Listener) : State :=
  { s with listeners := Function.update s.listeners lid l }

def refs (s : State) : Nat := ∑ f, (s.file f).ref

end State

def freeFile (s : State) : Option FilePtr :=
  (List.finRange NFILE).find? fun f => (s.file f).ref = 0

def filealloc (s : State) : Option FilePtr × State :=
  match freeFile s with
  | some f => (some f, s.setFile f { s.file f with ref := 1 })
  | none => (none, s)

/-- What `fileclose` and the functions it calls still have to do: each of them
runs from one lock acquisition to the next. -/
inductive Job where
  /-- `fileclose(f)`. The tag marks the endpoints that `clear_listener_pending`
  closes. -/
  | fileclose (f : FilePtr) (tag : Option Tag)
  | pipeclose (page : Nat) (writable : Bool)
  | kfree (page : Nat)
  /-- The section of `usock_fileclose` under `usock_lock`. -/
  | unbind (lid : Lid)
  /-- `clear_listener_pending` -/
  | clear (lid : Lid)
  deriving DecidableEq, Repr

def Job.close (f : FilePtr) : Job := .fileclose f none

def closeIf (f : Option FilePtr) : List Job := f.toList.map Job.close

/-- What is left to do for a file whose last reference is gone; the rest of a
file that is neither pipe nor Unix socket is with other subsystems. -/
def File.release (ff : File) : List Job :=
  match ff.type with
  | .pipe => ff.pipe.toList.map fun page => .pipeclose page ff.writable
  | .usock =>
    match ff.state with
    | .conn => closeIf ff.rx ++ closeIf ff.tx
    | .bound | .listen => ff.lid.toList.map Job.unbind
    | .init => []
  | _ => []

/-- A file that `fileclose` has cleared. -/
def File.cleared (ff : File) : File :=
  { ff with ref := 0, type := .none, pipe := none, state := .init, lid := none, rx := none, tx := none }

def Job.perform : Job → State → Outcome Halt State (List Job)
  | .fileclose f tag, s =>
    let ff := s.file f
    if ff.ref < 1 then .halt (.panic .fileclose) s
    else
      let s := { s with closed := tag.toList ++ s.closed }
      if 0 < ff.ref - 1 then .ok [] (s.setFile f { ff with ref := ff.ref - 1 })
      else .ok ff.release (s.setFile f ff.cleared)
  | .pipeclose page writable, s =>
    let p := (s.pipes page).close writable
    let s := { s with pipes := Function.update s.pipes page p }
    if p.readopen = false ∧ p.writeopen = false then .ok [.kfree page] s else .ok [] s
  | .kfree page, s => .ok [] { s with kmem := s.kmem.kfree page }
  | .unbind lid, s =>
    let l := s.listeners lid
    if l.used = false then .ok [] s
    else .ok [.clear lid] (s.setListener lid
      { l with used := false, listening := false, backlog := 0, path := [] })
  | .clear lid, s =>
    let l := s.listeners lid
    .ok (l.pending.map fun e => .fileclose e.file (some ⟨e.serial, lid, l.gen⟩))
      (s.setListener lid { l with pending := [] })

/-- `strncmp(p, q, n) == 0` -/
def sameString (n : Nat) (p q : Path) : Bool := p.take n = q.take n

/-- `find_listener_locked` -/
def findListener (s : State) (path : Path) : Option Lid :=
  (List.finRange NUSOCK).find? fun lid =>
    (s.listeners lid).used && sameString USOCK_PATH_MAX (s.listeners lid).path path

/-- The slot that `usock_bind` takes. -/
def freeSlot (s : State) : Option Lid :=
  (List.finRange NUSOCK).find? fun lid => (s.listeners lid).used = false

/-- `usock_bind` from `acquire(&usock_lock)` on. -/
def bindSection (f : FilePtr) (path : Path) (s : State) : Int × State :=
  if (findListener s path).isSome then (-1, s)
  else
    match freeSlot s with
    | none => (-1, s)
    | some lid =>
      let l := s.listeners lid
      let s := s.setListener lid { l with
        used := true, listening := false, backlog := 0
        path := path.take (USOCK_PATH_MAX - 1)
        pending := [], gen := l.gen + 1 }
      (0, s.setFile f { s.file f with lid := some lid, state := .bound })

/-- What `usock_listen` makes of its argument. -/
def clampBacklog (backlog : Int) : Nat :=
  let backlog := if backlog ≤ 0 then 1 else backlog
  if backlog > USOCK_PENDING_MAX then USOCK_PENDING_MAX else backlog.toNat

/-- `usock_listen` from `acquire(&l->lock)` on. -/
def listenSection (f : FilePtr) (backlog : Nat) (lid : Lid) (s : State) : Int × State :=
  let l := s.listeners lid
  if l.used = false then (-1, s)
  else
    let s := s.setListener lid { l with listening := true, backlog := backlog }
    (0, s.setFile f { s.file f with state := .listen })

/-- The end of `pipealloc` after a successful `kalloc`. -/
def initPipe (page : Nat) (r w : FilePtr) (s : State) : State :=
  let s := { s with pipes := Function.update s.pipes page ⟨true, true⟩ }
  let s := s.setFile r { s.file r with type := .pipe, readable := true, writable := false, pipe := some page }
  s.setFile w { s.file w with type := .pipe, readable := false, writable := true, pipe := some page }

/-- The end of `make_endpoint` after a successful `filealloc`. -/
def initEndpoint (f : FilePtr) (rx tx : Option FilePtr) (s : State) : State :=
  s.setFile f { s.file f with
    type := .usock, readable := true, writable := true, state := .conn, lid := none, rx := rx, tx := tx }

/-- `usock_connect` from `acquire(&l->lock)` on, when it does not fail: the
serial number of the endpoint. `none` if the listener does not take it. -/
def queueSection (f : FilePtr) (path : Path) (lid : Lid) (ep : FilePtr) (rx tx : Option FilePtr)
    (s : State) : Option Nat × State :=
  let l := s.listeners lid
  if l.used = false ∨ l.listening = false ∨ l.backlog ≤ l.cnt then (none, s)
  else
    let serial := s.queued.length
    let entry : Queued := ⟨path, lid, l.gen, l.path⟩
    let s := { s.setListener lid { l with pending := l.pending ++ [⟨ep, serial⟩] } with
      queued := s.queued ++ [entry] }
    (some serial, s.setFile f
      { s.file f with readable := true, writable := true, state := .conn, rx := rx, tx := tx })

/-- What `usock_accept` does when it has the lock. -/
inductive Accept where
  | sleep
  | fail
  | got (ep : FilePtr)

/-- `usock_accept` from `acquire(&l->lock)`, or from the return of `sleep`, on. -/
def acceptSection (killed : Bool) (lid : Lid) (gen : Nat) (s : State) : Accept × State :=
  let l := s.listeners lid
  if l.used = true ∧ l.listening = true ∧ l.cnt = 0 then
    if killed then (.fail, s) else (.sleep, s)
  else if l.used = false ∨ l.listening = false then (.fail, s)
  else
    match l.pending with
    | [] => (.fail, s)
    | e :: rest =>
      (.got e.file, { s.setListener lid { l with pending := rest } with
        accepted := ⟨e.serial, lid, gen⟩ :: s.accepted })

/-- The test at the beginning of `usock_bind` and `usock_connect`. -/
def File.fresh (file : File) : Bool := file.type = .usock ∧ file.state = .init ∧ file.lid = none

/-- `0 < strlen(path) && strlen(path) < USOCK_PATH_MAX` -/
def validPath (path : Path) : Bool := 0 < path.length ∧ path.length < USOCK_PATH_MAX

/-- How many steps other than `fileclose` a job leads to. -/
def Job.weight : Job → Nat
  | .fileclose _ _ => 0
  | .kfree _ => 1
  | .clear _ => 1
  | .pipeclose _ _ => 2
  | .unbind _ => 2

theorem State.refs_setFile (s : State) (f : FilePtr) (file : File) :
    (s.setFile f file).refs + (s.file f).ref = s.refs + file.ref :=
  sum_update File.ref s.file f file

/-- `fileclose` drops a reference; the other jobs come closer to their end. -/
theorem Job.perform_decreases {job : Job} {s s' : State} {more : List Job}
    (done : job.perform s = .ok more s') :
    s'.refs < s.refs ∨ s'.refs = s.refs ∧ (more.map Job.weight).sum < job.weight := by
  cases job with
  | fileclose f tag =>
    left
    simp only [Job.perform] at done
    split at done
    · cases done
    · rename_i live
      split at done
      · cases done
        have := ({ s with closed := tag.toList ++ s.closed } : State).refs_setFile f
          { s.file f with ref := (s.file f).ref - 1 }
        simp only [State.refs] at this ⊢
        omega
      · cases done
        have := ({ s with closed := tag.toList ++ s.closed } : State).refs_setFile f
          (s.file f).cleared
        simp only [State.refs, File.cleared] at this ⊢
        omega
  | pipeclose page writable =>
    right
    have light : (more.map Job.weight).sum ≤ 1 ∧ s'.refs = s.refs := by
      simp only [Job.perform] at done
      split at done <;> cases done <;> exact ⟨by simp [Job.weight], rfl⟩
    exact ⟨light.2, Nat.lt_succ_of_le light.1⟩
  | kfree page =>
    right
    cases done
    exact ⟨rfl, Nat.one_pos⟩
  | unbind lid =>
    right
    simp only [Job.perform] at done
    split at done <;> cases done <;> exact ⟨rfl, by simp [Job.weight]⟩
  | clear lid =>
    right
    cases done
    refine ⟨rfl, ?_⟩
    rw [List.map_map]
    have : ∀ l : List Endpoint, (l.map (Job.weight ∘ fun e => Job.fileclose e.file
        (some ⟨e.serial, lid, (s.listeners lid).gen⟩))).sum = 0 := by
      intro l
      simp [Function.comp_def, Job.weight]
    rw [this]
    exact Nat.one_pos

/-- All jobs, one after the other, and what they lead to. -/
def runJobs (jobs : List Job) (s : State) : Outcome Halt State Unit :=
  match jobs with
  | [] => .ok () s
  | job :: rest =>
    match _done : job.perform s with
    | .ok more s' => runJobs (more ++ rest) s'
    | .halt reason s' => .halt reason s'
termination_by (s.refs, (jobs.map Job.weight).sum)
decreasing_by
  rcases job.perform_decreases _done with fewer | ⟨same, lighter⟩
  · exact .left _ _ fewer
  · rw [same]
    refine .right _ ?_
    rw [List.map_append, List.sum_append, List.map_cons, List.sum_cons]
    exact Nat.add_lt_add_right lighter _

theorem runJobs_cons (job : Job) (rest : List Job) (s : State) :
    runJobs (job :: rest) s = (job.perform s).bind fun more s' => runJobs (more ++ rest) s' := by
  rw [runJobs]
  split <;> rename_i done <;> rw [done] <;> rfl

@[simp] theorem runJobs_nil (s : State) : runJobs [] s = .ok () s := by
  rw [runJobs]

structure Pair where
  r : Option FilePtr
  w : Option FilePtr

/-- Closes the files of the pair that are not null. -/
def Pair.close (p : Pair) : List Job := closeIf p.r ++ closeIf p.w

/-- `pipealloc(&r, &w)`: whether it succeeded, and the two pointers. After a
failure they still point to the files that were closed. -/
def pipealloc (s : State) : Outcome Halt State (Bool × Pair) :=
  let bad (p : Pair) (s : State) : Outcome Halt State (Bool × Pair) :=
    (runJobs p.close s).bind fun _ s => .ok (false, p) s
  match filealloc s with
  | (none, s) => bad ⟨none, none⟩ s
  | (some r, s) =>
    match filealloc s with
    | (none, s) => bad ⟨some r, none⟩ s
    | (some w, s) =>
      match s.kmem.kalloc with
      | (none, kmem) => bad ⟨some r, some w⟩ { s with kmem := kmem }
      | (some page, kmem) =>
        .ok (true, ⟨some r, some w⟩) (initPipe page r w { s with kmem := kmem })

def makeEndpoint (rx tx : Option FilePtr) (s : State) : Option FilePtr × State :=
  match filealloc s with
  | (none, s) => (none, s)
  | (some f, s) => (some f, initEndpoint f rx tx s)

/-- The cleanup at the end of `usock_connect`. -/
def connectBad (ep : Option FilePtr) (c2s s2c : Pair) : List Job :=
  match ep with
  | some ep => [.close ep]
  | none => c2s.close ++ s2c.close

/-- `usock_connect` from `bad` on. -/
def connectFails (ep : Option FilePtr) (c2s s2c : Pair) (s : State) : Outcome Halt State Int :=
  (runJobs (connectBad ep c2s s2c) s).bind fun _ s => .ok (-1) s

/-- `usock_connect` from `make_endpoint` on. -/
def connectEndpoint (f : FilePtr) (path : Path) (lid : Lid) (c2s s2c : Pair) (s : State) :
    Outcome Halt State Int :=
  match makeEndpoint c2s.r s2c.w s with
  | (none, s) => connectFails none c2s s2c s
  | (some ep, s) =>
    match queueSection f path lid ep s2c.r c2s.w s with
    | (none, s) => connectFails (some ep) c2s s2c s
    | (some _, s) => .ok 0 s

def usockConnect (f : FilePtr) (path : Path) (s : State) : Outcome Halt State Int :=
  if (s.file f).fresh = false then .ok (-1) s
  else if validPath path = false then .ok (-1) s
  else
    match findListener s path with
    | none => .ok (-1) s
    | some lid =>
      (pipealloc s).bind fun (ok, c2s) s =>
      if ok = false then connectFails none c2s ⟨none, none⟩ s
      else
        (pipealloc s).bind fun (ok, s2c) s =>
        if ok = false then connectFails none c2s s2c s
        else connectEndpoint f path lid c2s s2c s

end SirpairOs.Usock
