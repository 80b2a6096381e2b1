import SirpairOs.Pipe.Model

/-! Pipes deliver what was stored, in order. The proof keeps one fact about the
ring buffer and one about the place of every process; a process that changes the
pipe holds its lock, so the others' facts stay true. -/
namespace SirpairOs.Pipes

namespace State

variable (s : State) (p : Nat) (pc : Pc)

@[simp] theorem goto_pc_self : (s.goto p pc).pc p = pc := Function.update_self ..

theorem goto_pc_of_ne {q : Nat} (other : q ≠ p) : (s.goto p pc).pc q = s.pc q :=
  Function.update_of_ne other ..

@[simp] theorem goto_pipe : (s.goto p pc).pipe = s.pipe := rfl
@[simp] theorem goto_lock : (s.goto p pc).lock = s.lock := rfl
@[simp] theorem goto_ptlock : (s.goto p pc).ptlock = s.ptlock := rfl
@[simp] theorem goto_sleeping : (s.goto p pc).sleeping = s.sleeping := rfl
@[simp] theorem goto_killed : (s.goto p pc).killed = s.killed := rfl
@[simp] theorem goto_stored : (s.goto p pc).stored = s.stored := rfl
@[simp] theorem goto_delivered : (s.goto p pc).delivered = s.delivered := rfl

theorem enter_pc (c : Call) : (s.enter p c).pc = Function.update s.pc p (.start c) := by
  rcases c with _ | _ | (_ | _) <;> rfl

@[simp] theorem put_stored (byte : UInt8) : (s.put p byte).stored = s.stored ++ [byte] :=
  List.map_append ..

@[simp] theorem take_delivered : (s.take p).delivered = s.delivered ++ [s.front] :=
  List.map_append ..

end State

def Pc.Locked : Pc → Prop
  | .write _ _ _ => True
  | .read _ => True
  | .copy _ _ => True
  | .wake _ _ => True
  | .waking _ _ => True
  | .finish _ => True
  | .sleep _ _ => True
  | .unlock _ _ => True
  | _ => False

/-- The result of the call, from the place on where it is known. -/
def Pc.result : Pc → Option Result
  | .out last => last
  | .wake _ (.finish result) => some result
  | .waking _ (.finish result) => some result
  | .finish result => some result
  | _ => none

/-- What an unfinished `pipewrite` has stored. -/
def Pc.pending : Pc → Option ((Nat → UInt8) × Int × List UInt8)
  | .write addr n bytes => some (addr, n, bytes)
  | .wake _ (.full addr n bytes) => some (addr, n, bytes)
  | .waking _ (.full addr n bytes) => some (addr, n, bytes)
  | .sleep _ (.write addr n bytes) => some (addr, n, bytes)
  | .unlock _ (.write addr n bytes) => some (addr, n, bytes)
  | .doze _ (.write addr n bytes) => some (addr, n, bytes)
  | .sched (.write addr n bytes) => some (addr, n, bytes)
  | .relock (.write addr n bytes) => some (addr, n, bytes)
  | _ => none

def buffer (addr : Nat → UInt8) (count : Nat) : List UInt8 := (List.range count).map addr

theorem buffer_succ (addr : Nat → UInt8) (count : Nat) :
    buffer addr count ++ [addr count] = buffer addr (count + 1) := by
  rw [buffer, buffer, List.range_succ, List.map_append, List.map_singleton]

/-- Everything stored has been delivered, and nothing more will come. -/
def State.Ended (s : State) : Prop := s.delivered = s.stored ∧ s.pipe.writeopen = false

structure Local (s : State) (p : Nat) (pc : Pc) : Prop where
  lock : pc.Locked → s.lock = some p
  write : pc.InWrite → s.writeRef = true
  read : pc.InRead → s.readRef = true
  closeWrite : pc = .start (.close true) → s.writeRef = false
  closeRead : pc = .start (.close false) → s.readRef = false
  pending : ∀ addr n bytes, pc.pending = some (addr, n, bytes) →
    bytes = buffer addr bytes.length ∧ bytes.length ≤ n.toNat
  wrote : ∀ addr n bytes, pc.result = some (.wrote addr n bytes n) → bytes = buffer addr n.toNat
  ended : ∀ n bytes, pc.result = some (.read n bytes 0) → 0 < n → s.Ended
  /-- Nothing has been copied yet, and `piperead` does not wait any more. -/
  copy : ∀ n, pc = .copy n [] → s.pipe.empty = true → s.pipe.writeopen = false

structure Inv (s : State) : Prop where
  ring : Ring.Holds s.pipe.data s.pipe.nread s.pipe.nwrite s.delivered s.stored
  places : ∀ p, Local s p (s.pc p)
  writeClosed : s.pipe.writeopen = false → s.writeRef = false
  readClosed : s.pipe.readopen = false → s.readRef = false

theorem inv_pipealloc (data : Fin PIPESIZE → UInt8) (killed : Nat → Bool) :
    Inv (pipealloc data killed) where
  ring := .new data
  places p := by
    constructor <;> simp [pipealloc, Pc.Locked, Pc.InWrite, Pc.InRead, Pc.pending, Pc.result]
  writeClosed := nofun
  readClosed := nofun

variable {s s' : State} {p : Nat} {pc : Pc}

/-- A process keeps its facts while another one, `p`, takes a step: `p` changes
the pipe only under the lock. -/
theorem Local.frame {q : Nat} (here : Local s q pc) (other : q ≠ p)
    (lock : s'.lock = s.lock ∨ s.lock = none ∨ s.lock = some p)
    (pipe : s'.pipe = s.pipe ∨ s.lock = none ∨ s.lock = some p)
    (writeRef : s'.writeRef = s.writeRef) (readRef : s'.readRef = s.readRef)
    (ended : s.Ended → s'.Ended) : Local s' q pc := by
  have mine (locked : pc.Locked) : ¬ (s.lock = none ∨ s.lock = some p) := by
    rw [here.lock locked]
    rintro (none' | same)
    · cases none'
    · exact other (Option.some.inj same)
  refine ⟨fun locked => ?_, fun inside => writeRef ▸ here.write inside,
    fun inside => readRef ▸ here.read inside, fun place => writeRef ▸ here.closeWrite place,
    fun place => readRef ▸ here.closeRead place, here.pending, here.wrote,
    fun n bytes result positive => ended (here.ended n bytes result positive), fun n place => ?_⟩
  · rw [lock.resolve_right (mine locked)]
    exact here.lock locked
  · have locked : pc.Locked := by
      rw [place]
      trivial
    rw [pipe.resolve_right (mine locked)]
    exact here.copy n place

/-- A step of process `p` that leaves the ring buffer and the references alone:
only its own place has to be looked at. -/
theorem Inv.moved (inv : Inv s) (pcs : s'.pc = Function.update s.pc p pc)
    (lock : s'.lock = s.lock ∨ s.lock = none ∨ s.lock = some p)
    (pipe : s'.pipe = s.pipe ∨ s.lock = none ∨ s.lock = some p)
    (writeRef : s'.writeRef = s.writeRef) (readRef : s'.readRef = s.readRef)
    (ended : s.Ended → s'.Ended)
    (ring : Ring.Holds s'.pipe.data s'.pipe.nread s'.pipe.nwrite s'.delivered s'.stored)
    (writeClosed : s'.pipe.writeopen = false → s'.writeRef = false)
    (readClosed : s'.pipe.readopen = false → s'.readRef = false) (here : Local s' p pc) :
    Inv s' where
  ring := ring
  places q := by
    rw [pcs]
    by_cases same : q = p
    · subst same
      rw [Function.update_self]
      exact here
    · rw [Function.update_of_ne same]
      exact (inv.places q).frame same lock pipe writeRef readRef ended
  writeClosed := writeClosed
  readClosed := readClosed

theorem Inv.same (inv : Inv s) (pcs : s'.pc = Function.update s.pc p pc)
    (lock : s'.lock = s.lock ∨ s.lock = none ∨ s.lock = some p) (here : Local s' p pc)
    (pipe : s'.pipe = s.pipe := by rfl) (writeRef : s'.writeRef = s.writeRef := by rfl)
    (readRef : s'.readRef = s.readRef := by rfl) (stored : s'.stored = s.stored := by rfl)
    (delivered : s'.delivered = s.delivered := by rfl) : Inv s' := by
  refine inv.moved pcs lock (.inl pipe) writeRef readRef (fun ended => ?_) ?_ ?_ ?_ here
  · rw [State.Ended, pipe, stored, delivered]
    exact ended
  · rw [pipe, stored, delivered]
    exact inv.ring
  · rw [pipe, writeRef]
    exact inv.writeClosed
  · rw [pipe, readRef]
    exact inv.readClosed

/-- The process goes on with the same call: what it has stored and what it will
return is known as before. -/
theorem Local.carry {pc' : Pc} (old : Local s p pc) (writeRef : s'.writeRef = s.writeRef)
    (readRef : s'.readRef = s.readRef) (ended : s.Ended → s'.Ended)
    (lock : pc'.Locked → s'.lock = some p)
    (inside : (pc'.InWrite → pc.InWrite) ∧ (pc'.InRead → pc.InRead))
    (further : (∀ c, pc' ≠ .start c) ∧ ∀ n, pc' ≠ .copy n [])
    (pending : ∀ x, pc'.pending = some x → pc.pending = some x)
    (result : ∀ r, pc'.result = some r → pc.result = some r) : Local s' p pc' where
  lock := lock
  write within := writeRef ▸ old.write (inside.1 within)
  read within := readRef ▸ old.read (inside.2 within)
  closeWrite place := absurd place (further.1 _)
  closeRead place := absurd place (further.1 _)
  pending addr n bytes known := old.pending addr n bytes (pending _ known)
  wrote addr n bytes known := old.wrote addr n bytes (result _ known)
  ended n bytes known positive := ended (old.ended n bytes (result _ known) positive)
  copy n place := absurd place (further.2 n)

theorem Inv.moves (inv : Inv s) (moves : Moves p s s') : Inv s' := by
  have old := inv.places p
  cases moves with
  | lockWrite place free =>
    rw [place] at old
    refine inv.same rfl (.inr (.inl free)) ?_
    refine ⟨fun _ => rfl, fun _ => old.write trivial, nofun, nofun, nofun, ?_, nofun, nofun, nofun⟩
    rintro addr n bytes ⟨⟩
    exact ⟨rfl, Nat.zero_le _⟩
  | lockRead place free =>
    rw [place] at old
    refine inv.same rfl (.inr (.inl free)) ?_
    exact ⟨fun _ => rfl, nofun, fun _ => old.read trivial, nofun, nofun, nofun, nofun, nofun, nofun⟩
  | lockClose place free =>
    rw [place] at old
    rename_i writable
    cases writable with
    | true =>
      refine inv.moved rfl (.inr (.inl free)) (.inr (.inl free)) rfl rfl
        (fun ended => ⟨ended.1, rfl⟩) inv.ring (fun _ => old.closeWrite rfl) inv.readClosed ?_
      exact ⟨fun _ => rfl, nofun, nofun, nofun, nofun, nofun, nofun, nofun, nofun⟩
    | false =>
      refine inv.moved rfl (.inr (.inl free)) (.inr (.inl free)) rfl rfl id inv.ring
        inv.writeClosed (fun _ => old.closeRead rfl) ?_
      exact ⟨fun _ => rfl, nofun, nofun, nofun, nofun, nofun, nofun, nofun, nofun⟩
  | store place more room =>
    rw [place] at old
    have mine := old.lock trivial
    have writers := old.write trivial
    have space : s.stored.length < s.delivered.length + PIPESIZE := by
      have full := (inv.ring.full_iff (by decide)).not.mp (by simpa [Pipe.full] using room)
      have := inv.ring.room
      omega
    refine inv.moved rfl (.inl rfl) (.inr (.inr mine)) rfl rfl (fun ended => ?_) ?_
      inv.writeClosed inv.readClosed ?_
    · -- a writer is inside, so the write side is open
      have := inv.writeClosed ended.2
      rw [writers] at this
      cases this
    · rw [State.goto_stored, State.put_stored]
      exact inv.ring.put (by decide) space _
    · refine ⟨fun _ => mine, fun _ => writers, nofun, nofun, nofun, ?_, nofun, nofun, nofun⟩
      rintro addr n bytes ⟨⟩
      obtain ⟨same, _⟩ := old.pending _ _ _ rfl
      rw [List.length_append, List.length_singleton, ← buffer_succ, ← same]
      exact ⟨rfl, by omega⟩
  | giveUp place more full why =>
    rw [place] at old
    refine inv.same rfl (.inl rfl) ?_
    refine ⟨fun _ => old.lock trivial, fun _ => old.write trivial, nofun, nofun, nofun, nofun, ?_,
      nofun, nofun⟩
    rintro addr n bytes ⟨⟩
    omega
  | wakeReaders place full readers =>
    rw [place] at old
    refine inv.same rfl (.inl rfl) ?_
    exact old.carry rfl rfl id (fun _ => old.lock trivial) ⟨fun _ => trivial, nofun⟩
      ⟨nofun, nofun⟩ (fun _ => id) nofun
  | wroteAll place done =>
    rw [place] at old
    refine inv.same rfl (.inl rfl) ?_
    refine ⟨fun _ => old.lock trivial, fun _ => old.write trivial, nofun, nofun, nofun, nofun, ?_,
      nofun, nofun⟩
    rintro addr n bytes ⟨⟩
    obtain ⟨same, short⟩ := old.pending _ _ _ rfl
    rwa [Nat.le_antisymm short (Int.toNat_le.mpr done)] at same
  | readKilled place =>
    rw [place] at old
    refine inv.same rfl (.inl rfl) ?_
    exact ⟨fun _ => old.lock trivial, nofun, fun _ => old.read trivial, nofun, nofun, nofun, nofun,
      nofun, nofun⟩
  | readSleep place empty writers =>
    rw [place] at old
    refine inv.same rfl (.inl rfl) ?_
    exact old.carry rfl rfl id (fun _ => old.lock trivial) ⟨nofun, fun _ => trivial⟩
      ⟨nofun, nofun⟩ nofun nofun
  | readGo place ready =>
    rw [place] at old
    refine inv.same rfl (.inl rfl) ?_
    refine ⟨fun _ => old.lock trivial, nofun, fun _ => old.read trivial, nofun, nofun, nofun,
      nofun, nofun, fun _ _ empty => ?_⟩
    by_contra writers
    exact ready ⟨empty, by simpa using writers⟩
  | take place some =>
    rw [place] at old
    have mine := old.lock trivial
    have more : s.delivered.length < s.stored.length := by
      have empty := (inv.ring.empty_iff (by decide)).not.mp (by simpa [Pipe.empty] using some)
      have := inv.ring.length_le
      by_contra none'
      exact empty (inv.ring.order.eq_of_length (by omega))
    refine inv.moved rfl (.inl rfl) (.inr (.inr mine)) rfl rfl (fun ended => ?_) ?_
      inv.writeClosed inv.readClosed ?_
    · rw [ended.1] at more
      omega
    · rw [State.goto_delivered, State.take_delivered]
      exact inv.ring.take (by decide) more
    · refine ⟨fun _ => mine, nofun, fun _ => old.read trivial, nofun, nofun, nofun, nofun, nofun,
        ?_⟩
      intro n same
      simp at same
  | copied place done =>
    rw [place] at old
    refine inv.same rfl (.inl rfl) ?_
    refine ⟨fun _ => old.lock trivial, nofun, fun _ => old.read trivial, nofun, nofun, nofun,
      nofun, fun n bytes known positive => ?_, nofun⟩
    -- nothing was copied although something was asked for: the pipe was empty
    rename_i n' bytes'
    have parts : n' = n ∧ bytes' = bytes ∧ (bytes'.length : Int) = 0 := by
      simpa [Pc.result] using known
    obtain ⟨rfl, rfl, none'⟩ := parts
    obtain rfl : bytes' = [] := List.length_eq_zero_iff.mp (by omega)
    have empty : s.pipe.empty = true := by
      by_contra some
      exact done ⟨by simpa using positive, by simpa using some⟩
    exact ⟨(inv.ring.empty_iff (by decide)).mp (by simpa [Pipe.empty] using empty),
      old.copy _ rfl empty⟩
  | wake place free | waking place =>
    rw [place] at old
    refine inv.same rfl (.inl rfl) ?_
    rename_i chan next
    cases next with
    | full addr n bytes =>
      exact old.carry rfl rfl id (fun _ => old.lock trivial) ⟨id, id⟩ ⟨nofun, nofun⟩
        (fun _ => id) (fun _ => id)
    | finish result =>
      refine old.carry rfl rfl id (fun _ => old.lock trivial) ?_ ⟨nofun, nofun⟩
        (fun _ => id) (fun _ => id)
      cases result <;> exact ⟨id, id⟩
  | finish place =>
    rw [place] at old
    refine inv.same rfl (.inr (.inr (old.lock trivial))) ?_
    exact old.carry rfl rfl id nofun ⟨nofun, nofun⟩ ⟨nofun, nofun⟩ nofun (fun _ => id)
  | finishFree place closed closed' =>
    rw [place] at old
    refine inv.same rfl (.inr (.inr (old.lock trivial))) ?_
    exact old.carry rfl rfl id nofun ⟨nofun, nofun⟩ ⟨nofun, nofun⟩ nofun nofun
  | free place =>
    rw [place] at old
    refine inv.same rfl (.inl rfl) ?_
    exact ⟨nofun, nofun, nofun, nofun, nofun, nofun, nofun, nofun, nofun⟩
  | sleep place free =>
    rw [place] at old
    refine inv.same rfl (.inl rfl) ?_
    rename_i chan next
    cases next <;> exact old.carry rfl rfl id (fun _ => old.lock trivial) ⟨id, id⟩
      ⟨nofun, nofun⟩ (fun _ => id) nofun
  | unlock place =>
    rw [place] at old
    refine inv.same rfl (.inr (.inr (old.lock trivial))) ?_
    rename_i chan next
    cases next <;> exact old.carry rfl rfl id nofun ⟨id, id⟩ ⟨nofun, nofun⟩ (fun _ => id) nofun
  | doze place | sched place awake =>
    rw [place] at old
    refine inv.same rfl (.inl rfl) ?_
    rename_i next
    cases next <;> exact old.carry rfl rfl id nofun ⟨id, id⟩ ⟨nofun, nofun⟩ (fun _ => id) nofun
  | relock place free =>
    rw [place] at old
    refine inv.same rfl (.inr (.inl free)) ?_
    rename_i next
    cases next <;> exact old.carry rfl rfl id (fun _ => rfl) ⟨id, id⟩ ⟨nofun, nofun⟩
      (fun _ => id) nofun

/-- A new call. Closing an end takes its reference, which no other call needs. -/
theorem Inv.call (inv : Inv s) {c : Call} (allowed : Allowed (.call p c) s) :
    Inv (s.enter p c) := by
  cases c with
  | write addr n =>
    refine inv.same rfl (.inl rfl) ?_
    exact ⟨nofun, fun _ => allowed, nofun, nofun, nofun, nofun, nofun, nofun, nofun⟩
  | read n =>
    refine inv.same rfl (.inl rfl) ?_
    exact ⟨nofun, nofun, fun _ => allowed, nofun, nofun, nofun, nofun, nofun, nofun⟩
  | close writable =>
    cases writable with
    | true =>
      refine ⟨inv.ring, fun q => ?_, fun _ => rfl, inv.readClosed⟩
      by_cases same : q = p
      · subst same
        rw [State.enter_pc, Function.update_self]
        exact ⟨nofun, nofun, nofun, fun _ => rfl, nofun, nofun, nofun, nofun, nofun⟩
      · rw [State.enter_pc, Function.update_of_ne same]
        have old := inv.places q
        exact ⟨old.lock, fun inside => absurd inside (allowed.2 q), old.read, fun _ => rfl,
          old.closeRead, old.pending, old.wrote, old.ended, old.copy⟩
    | false =>
      refine ⟨inv.ring, fun q => ?_, inv.writeClosed, fun _ => rfl⟩
      by_cases same : q = p
      · subst same
        rw [State.enter_pc, Function.update_self]
        exact ⟨nofun, nofun, nofun, nofun, fun _ => rfl, nofun, nofun, nofun, nofun⟩
      · rw [State.enter_pc, Function.update_of_ne same]
        have old := inv.places q
        exact ⟨old.lock, old.write, fun inside => absurd inside (allowed.2 q), old.closeWrite,
          fun _ => rfl, old.pending, old.wrote, old.ended, old.copy⟩

theorem Inv.step (inv : Inv s) {act : Act} (allowed : Allowed act s)
    (taken : step act s = some s') : Inv s' := by
  cases act with
  | move p => exact inv.moves (moves_of_move taken)
  | kill p =>
    simp only [Pipes.step] at taken
    split at taken
    · cases taken
    · cases taken
      have places (q : Nat) := inv.places q
      exact ⟨inv.ring, fun q => ⟨(places q).lock, (places q).write, (places q).read,
        (places q).closeWrite, (places q).closeRead, (places q).pending, (places q).wrote,
        (places q).ended, (places q).copy⟩, inv.writeClosed, inv.readClosed⟩
  | call p c =>
    simp only [Pipes.step] at taken
    split at taken
    · rename_i last place
      cases taken
      exact inv.call allowed
    · cases taken

/-- What holds in every state that permitted calls, steps and kills lead to. -/
theorem inv_of_run {data : Fin PIPESIZE → UInt8} {killed : Nat → Bool} {acts : List Act}
    (allowed : Transition.Along step Allowed acts (pipealloc data killed))
    (ran : Transition.run step acts (pipealloc data killed) = some s) : Inv s :=
  Transition.run_preserves (fun _ _ _ allowed inv taken => Inv.step inv allowed taken)
    (inv_pipealloc data killed) allowed ran

/-! ### The bytes of one call

Every process accounts for its own bytes: what it has stored and what it was handed
since its last call began is what the place it has reached says. -/

section Since

variable {α : Type} (list : List (Nat × α)) (count p : Nat)

/-- What `p` has added to the list since it was `count` long. -/
def since : List α := ((list.drop count).filter (·.1 = p)).map Prod.snd

theorem since_length : since list list.length p = [] := by
  rw [since, List.drop_length, List.filter_nil, List.map_nil]

variable {list count p} in
theorem since_append_self (old : count ≤ list.length) (more : List α) :
    since (list ++ more.map (p, ·)) count p = since list count p ++ more := by
  have mine : (more.map (p, ·)).filter (·.1 = p) = more.map (p, ·) :=
    List.filter_eq_self.mpr (by simp)
  have bytes : (more.map (p, ·)).map Prod.snd = more := by simp
  rw [since, List.drop_append_of_le_length old, List.filter_append, List.map_append, mine, bytes,
    since]

variable {list count p} in
theorem since_append_other {q : Nat} (old : count ≤ list.length) (other : q ≠ p) (more : List α) :
    since (list ++ more.map (p, ·)) count q = since list count q := by
  have foreign : (more.map (p, ·)).filter (·.1 = q) = [] :=
    List.filter_eq_nil_iff.mpr (by simpa using fun _ _ same => other same.symm)
  rw [since, List.drop_append_of_le_length old, List.filter_append, foreign, List.append_nil, since]

end Since

/-- The bytes that process `p` has stored in its current call, or in the last one. -/
def State.storedBy (s : State) (p : Nat) : List UInt8 := since s.writes (s.begun p).1 p

/-- The bytes that process `p` was handed in its current call, or in the last one. -/
def State.deliveredTo (s : State) (p : Nat) : List UInt8 := since s.reads (s.begun p).2 p

def Result.puts : Result → List UInt8
  | wrote _ _ bytes _ => bytes
  | _ => []

def Result.takes : Result → List UInt8
  | read _ bytes _ => bytes
  | _ => []

def Wake.puts : Wake → List UInt8
  | full _ _ bytes => bytes
  | finish result => result.puts

def Wake.takes : Wake → List UInt8
  | full _ _ _ => []
  | finish result => result.takes

def Sleep.puts : Sleep → List UInt8
  | write _ _ bytes => bytes
  | read _ => []

/-- What the call has stored when it has got to this place. -/
def Pc.puts : Pc → List UInt8
  | .out (some result) => result.puts
  | .write _ _ bytes => bytes
  | .wake _ next => next.puts
  | .waking _ next => next.puts
  | .finish result => result.puts
  | .sleep _ next => next.puts
  | .unlock _ next => next.puts
  | .doze _ next => next.puts
  | .sched next => next.puts
  | .relock next => next.puts
  | _ => []

/-- What the call has delivered when it has got to this place. -/
def Pc.takes : Pc → List UInt8
  | .out (some result) => result.takes
  | .copy _ bytes => bytes
  | .wake _ next => next.takes
  | .waking _ next => next.takes
  | .finish result => result.takes
  | _ => []

theorem Sleep.resume_puts (next : Sleep) : next.resume.puts = next.puts := by
  cases next <;> rfl

theorem Sleep.resume_takes (next : Sleep) : next.resume.takes = [] := by
  cases next <;> rfl

theorem Wake.resume_puts (next : Wake) : next.resume.puts = next.puts := by
  cases next <;> rfl

theorem Wake.resume_takes (next : Wake) : next.resume.takes = next.takes := by
  cases next <;> rfl

/-- `s'` is `s` after a step of process `p` in which its call stored `puts` and
delivered `takes`. -/
structure Adds (p : Nat) (s s' : State) (puts takes : List UInt8) : Prop where
  others : ∀ q, q ≠ p → s'.pc q = s.pc q
  begun : s'.begun = s.begun
  writes : s'.writes = s.writes ++ puts.map (p, ·)
  reads : s'.reads = s.reads ++ takes.map (p, ·)
  puts : (s'.pc p).puts = (s.pc p).puts ++ puts
  takes : (s'.pc p).takes = (s.pc p).takes ++ takes

theorem Adds.goto {pc' : Pc} {puts takes : List UInt8} (place : s.pc p = pc)
    (pcs : s'.pc = Function.update s.pc p pc') (begun : s'.begun = s.begun)
    (writes : s'.writes = s.writes ++ puts.map (p, ·))
    (reads : s'.reads = s.reads ++ takes.map (p, ·)) (puts' : pc'.puts = pc.puts ++ puts)
    (takes' : pc'.takes = pc.takes ++ takes) : Adds p s s' puts takes where
  others q other := by rw [pcs, Function.update_of_ne other]
  begun := begun
  writes := writes
  reads := reads
  puts := by rw [pcs, Function.update_self, place, puts']
  takes := by rw [pcs, Function.update_self, place, takes']

/-- A step that stores and delivers nothing. -/
theorem adds_none {pc' : Pc} (place : s.pc p = pc) (pcs : s'.pc = Function.update s.pc p pc')
    (lists : s'.begun = s.begun ∧ s'.writes = s.writes ∧ s'.reads = s.reads)
    (puts : pc'.puts = pc.puts) (takes : pc'.takes = pc.takes) :
    ∃ puts takes, Adds p s s' puts takes := by
  obtain ⟨begun, writes, reads⟩ := lists
  refine ⟨[], [], .goto place pcs begun ?_ ?_ ?_ ?_⟩
  · rw [writes, List.map_nil, List.append_nil]
  · rw [reads, List.map_nil, List.append_nil]
  · rw [puts, List.append_nil]
  · rw [takes, List.append_nil]

theorem Moves.adds (moves : Moves p s s') : ∃ puts takes, Adds p s s' puts takes := by
  cases moves with
  | store place more room =>
    refine ⟨[_], [], .goto place rfl rfl rfl ?_ rfl rfl⟩
    exact (List.append_nil _).symm
  | take place some =>
    refine ⟨[], [_], .goto place rfl rfl ?_ rfl rfl rfl⟩
    exact (List.append_nil _).symm
  | lockWrite place free | lockRead place free | giveUp place more full why
  | wakeReaders place full readers | wroteAll place done | readKilled place
  | readSleep place empty writers | readGo place ready | copied place done | wake place free
  | finish place | finishFree place closed closed' | free place | sleep place free | unlock place
  | doze place | sched place awake => exact adds_none place rfl ⟨rfl, rfl, rfl⟩ rfl rfl
  | lockClose place free =>
    rename_i writable
    cases writable <;> exact adds_none place rfl ⟨rfl, rfl, rfl⟩ rfl rfl
  | waking place =>
    exact adds_none place rfl ⟨rfl, rfl, rfl⟩ (Wake.resume_puts _) (Wake.resume_takes _)
  | relock place free =>
    exact adds_none place rfl ⟨rfl, rfl, rfl⟩ (Sleep.resume_puts _) (Sleep.resume_takes _)

/-- Since process `p` made its last call, it has stored and was handed what its
place says. -/
structure Accounted (s : State) (p : Nat) : Prop where
  begun : (s.begun p).1 ≤ s.writes.length ∧ (s.begun p).2 ≤ s.reads.length
  puts : s.storedBy p = (s.pc p).puts
  takes : s.deliveredTo p = (s.pc p).takes

theorem Accounted.adds {q : Nat} {puts takes : List UInt8} (old : Accounted s q)
    (adds : Adds p s s' puts takes) : Accounted s' q := by
  obtain ⟨before, before'⟩ := old.begun
  refine ⟨?_, ?_, ?_⟩
  · rw [adds.begun, adds.writes, adds.reads, List.length_append, List.length_append]
    omega
  · rw [State.storedBy, adds.begun, adds.writes]
    by_cases same : q = p
    · subst same
      rw [since_append_self before, adds.puts, ← old.puts, State.storedBy]
    · rw [since_append_other before same, adds.others q same]
      exact old.puts
  · rw [State.deliveredTo, adds.begun, adds.reads]
    by_cases same : q = p
    · subst same
      rw [since_append_self before', adds.takes, ← old.takes, State.deliveredTo]
    · rw [since_append_other before' same, adds.others q same]
      exact old.takes

theorem Accounted.enter {q : Nat} (old : Accounted s q) (c : Call) : Accounted (s.enter p c) q := by
  obtain ⟨writes, reads⟩ : (s.enter p c).writes = s.writes ∧ (s.enter p c).reads = s.reads := by
    rcases c with _ | _ | (_ | _) <;> exact ⟨rfl, rfl⟩
  have begun : (s.enter p c).begun = Function.update s.begun p (s.writes.length, s.reads.length) :=
    rfl
  by_cases same : q = p
  · subst same
    refine ⟨?_, ?_, ?_⟩
    · rw [begun, writes, reads, Function.update_self]
      exact ⟨Nat.le_refl _, Nat.le_refl _⟩
    · rw [State.storedBy, State.enter_pc, begun, writes, Function.update_self, Function.update_self]
      exact since_length ..
    · rw [State.deliveredTo, State.enter_pc, begun, reads, Function.update_self,
        Function.update_self]
      exact since_length ..
  · refine ⟨?_, ?_, ?_⟩
    · rw [begun, writes, reads, Function.update_of_ne same]
      exact old.begun
    · rw [State.storedBy, State.enter_pc, begun, writes, Function.update_of_ne same,
        Function.update_of_ne same]
      exact old.puts
    · rw [State.deliveredTo, State.enter_pc, begun, reads, Function.update_of_ne same,
        Function.update_of_ne same]
      exact old.takes

theorem Accounted.step {q : Nat} {act : Act} (old : Accounted s q) (taken : step act s = some s') :
    Accounted s' q := by
  cases act with
  | move p =>
    obtain ⟨puts, takes, adds⟩ := (moves_of_move taken).adds
    exact old.adds adds
  | kill p =>
    simp only [Pipes.step] at taken
    split at taken
    · cases taken
    · cases taken
      exact ⟨old.begun, old.puts, old.takes⟩
  | call p c =>
    simp only [Pipes.step] at taken
    split at taken
    · cases taken
      exact old.enter c
    · cases taken

theorem accounted_of_run {data : Fin PIPESIZE → UInt8} {killed : Nat → Bool} {acts : List Act}
    (ran : Transition.run step acts (pipealloc data killed) = some s) (p : Nat) :
    Accounted s p := by
  have new : Accounted (pipealloc data killed) p :=
    ⟨⟨Nat.le_refl _, Nat.le_refl _⟩, rfl, rfl⟩
  exact Transition.run_preserves (C := fun _ _ => True) (I := fun s => Accounted s p)
    (fun _ _ _ _ old taken => old.step taken) new (.of_forall (fun _ _ _ => trivial) _) ran

/-- Pipes are FIFO: what has been delivered is a prefix of what has been stored,
never more than `PIPESIZE` bytes are in between, a `pipewrite` that returned `n`
stored its `n` bytes and nothing else, a `piperead` handed out exactly the bytes it
counted, and it returned 0 for a positive request only at the end of the stream. -/
theorem pipe_fifo (data : Fin PIPESIZE → UInt8) (killed : Nat → Bool) (acts : List Act) (s : State)
    (allowed : Transition.Along step Allowed acts (pipealloc data killed))
    (ran : Transition.run step acts (pipealloc data killed) = some s) :
    s.delivered <+: s.stored ∧ (s.pipe.nwrite - s.pipe.nread).toNat ≤ PIPESIZE ∧
      (∀ p addr n bytes value, s.pc p = .out (some (.wrote addr n bytes value)) →
        s.storedBy p = bytes ∧ (value = n → bytes = buffer addr n.toNat)) ∧
      (∀ p n bytes value, s.pc p = .out (some (.read n bytes value)) →
        s.deliveredTo p = bytes) ∧
      ∀ p n bytes, s.pc p = .out (some (.read n bytes 0)) → 0 < n →
        s.delivered = s.stored ∧ s.pipe.writeopen = false := by
  have inv := inv_of_run allowed ran
  refine ⟨inv.ring.order, ?_, fun p addr n bytes value place => ⟨?_, fun all => ?_⟩,
    fun p n bytes value place => ?_, fun p n bytes place positive => ?_⟩
  · rw [inv.ring.used (by decide)]
    have := inv.ring.room
    omega
  · have puts := (accounted_of_run ran p).puts
    rw [place] at puts
    exact puts
  · have here := inv.places p
    rw [place, all] at here
    exact here.wrote addr n bytes rfl
  · have takes := (accounted_of_run ran p).takes
    rw [place] at takes
    exact takes
  · have here := inv.places p
    rw [place] at here
    exact here.ended n bytes rfl positive

/-- Process 1 writes "hi", then process 2 asks for five bytes. -/
def hello : List Act :=
  [.call 1 (.write (fun i => if i = 0 then 104 else 105) 2)] ++ List.replicate 7 (.move 1) ++
    [.call 2 (.read 5)] ++ List.replicate 8 (.move 2)

/-- The calls of a run in which nothing is closed. -/
def AllowedOpen : Act → State → Prop
  | .call _ (.write _ _), s => s.writeRef = true
  | .call _ (.read _), s => s.readRef = true
  | .call _ (.close _), _ => False
  | _, _ => True

instance : (act : Act) → (s : State) → Decidable (AllowedOpen act s)
  | .call _ (.write _ _), s => inferInstanceAs (Decidable (s.writeRef = true))
  | .call _ (.read _), s => inferInstanceAs (Decidable (s.readRef = true))
  | .call _ (.close _), _ => isFalse id
  | .move _, _ => isTrue trivial
  | .kill _, _ => isTrue trivial

theorem AllowedOpen.allowed (act : Act) (s : State) (open' : AllowedOpen act s) :
    Allowed act s := by
  cases act with
  | call p c =>
    cases c with
    | write addr n => exact open'
    | read n => exact open'
    | close writable => exact open'.elim
  | move p => trivial
  | kill p => trivial

theorem pipe_fifo_hello : ∃ s,
    Transition.run step hello (pipealloc (fun _ => 0) fun _ => false) = some s ∧
      s.delivered = [104, 105] ∧ s.delivered <+: s.stored ∧ s.storedBy 1 = [104, 105] ∧
      s.deliveredTo 2 = [104, 105] := by
  have allowed : Transition.Along step AllowedOpen hello (pipealloc (fun _ => 0) fun _ => false) := by
    decide +kernel
  have fifo := pipe_fifo _ _ hello _ (allowed.mono AllowedOpen.allowed) rfl
  obtain ⟨order, -, wrote, read, -⟩ := fifo
  exact ⟨_, rfl, rfl, order, (wrote 1 _ _ _ _ rfl).1, read 2 _ _ _ rfl⟩

end SirpairOs.Pipes
