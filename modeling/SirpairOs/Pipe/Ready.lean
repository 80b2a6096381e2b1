import SirpairOs.Pipe.Wakeup

/-! `pipecanread` and `pipecanwrite`, compared with what a call that asks for one
byte would do in the same pipe. -/
namespace SirpairOs.Pipes

def pipecanread (p : Pipe) : Int :=
  if p.nwrite ≠ p.nread then 1 else if p.writeopen = false then 1 else 0

/-- The comparison is one of unsigned numbers, and the sum wraps around. -/
def pipecanwrite (p : Pipe) : Int :=
  if p.nwrite < p.nread + BitVec.ofNat 32 PIPESIZE then 1 else 0

/-- The pipe with nobody inside one of its calls, and no process killed. -/
def Pipe.alone (pipe : Pipe) : State :=
  { pipealloc pipe.data fun _ => false with pipe := pipe }

/-- Process `p` gets out of its call if nobody else runs. In particular it does not
go to sleep, since nobody would wake it up. -/
def Returns (p : Nat) (s : State) : Prop :=
  ∃ n s', Transition.run step (List.replicate n (.move p)) s = some s' ∧
    ∃ result, s'.pc p = .out result

/-- The call, made by a live process, returns without sleeping. -/
def ReturnsAwake (call : Call) (pipe : Pipe) : Prop :=
  ∀ p, Returns p (pipe.alone.goto p (.start call))

section Alone

variable {p : Nat} {s : State}

theorem Returns.of_out {result : Option Result} (place : s.pc p = .out result) : Returns p s :=
  ⟨0, s, rfl, result, place⟩

/-- Inside a call the process has to take its next step. -/
theorem returns_iff (inside : ∀ result, s.pc p ≠ .out result) :
    Returns p s ↔ (move p s).elim False (Returns p) := by
  constructor
  · rintro ⟨n, t, ran, result, place⟩
    cases n with
    | zero => exact absurd (Option.some.inj ran ▸ place) (inside result)
    | succ n =>
      obtain ⟨s', moved, ran⟩ := Option.bind_eq_some_iff.mp ran
      rw [show move p s = some s' from moved]
      exact ⟨n, t, ran, result, place⟩
  · intro later
    cases moved : move p s with
    | none =>
      rw [moved] at later
      exact later.elim
    | some s' =>
      rw [moved] at later
      obtain ⟨n, t, ran, result, place⟩ := later
      refine ⟨n + 1, t, ?_, result, place⟩
      rw [List.replicate_succ, Transition.run, step, moved]
      exact ran

def Pc.isInside : Pc → Bool
  | .out _ => false
  | _ => true

theorem returns_at {place : Pc} (here : s.pc p = place) (inside : place.isInside = true) :
    Returns p s ↔ (move p s).elim False (Returns p) := by
  apply returns_iff
  intro result out
  rw [← here, out] at inside
  exact Bool.false_ne_true inside

theorem returns_of_finish {result : Result} (place : s.pc p = .finish result)
    (other : result ≠ .closed) : Returns p s := by
  rw [returns_at place rfl]
  cases result with
  | closed => exact absurd rfl other
  | wrote addr n bytes value | read n bytes value =>
    simp only [move, place]
    exact .of_out (State.goto_pc_self ..)

theorem returns_of_wake {chan : Chan} {result : Result} (place : s.pc p = .wake chan (.finish result))
    (free : s.ptlock = none) (other : result ≠ .closed) : Returns p s := by
  rw [returns_at place rfl]
  simp only [move, place, free, ne_eq, not_true_eq_false, if_false, Option.elim_some]
  rw [returns_at (State.goto_pc_self ..) rfl]
  simp only [move, State.goto_pc_self, Option.elim_some]
  exact returns_of_finish (State.goto_pc_self ..) other

/-- Nobody wakes up a process that is alone. -/
theorem not_returns_of_sleep {chan : Chan} {next : Sleep} (place : s.pc p = .sleep chan next)
    (free : s.ptlock = none) : ¬ Returns p s := by
  rw [returns_at place rfl]
  simp only [move, place, free, ne_eq, not_true_eq_false, if_false, Option.elim_some]
  rw [returns_at (State.goto_pc_self ..) rfl]
  simp only [move, State.goto_pc_self, Option.elim_some]
  rw [returns_at (State.goto_pc_self ..) rfl]
  simp only [move, State.goto_pc_self, Option.elim_some]
  rw [returns_at (State.goto_pc_self ..) rfl]
  simp [move, State.goto_pc_self, State.goto_sleeping]

end Alone

section OneByte

variable (pipe : Pipe)

/-- A `piperead` of one byte waits for data or the end of the stream. -/
theorem returnsAwake_read :
    ReturnsAwake (.read 1) pipe ↔ ¬ (pipe.empty = true ∧ pipe.writeopen = true) := by
  have here (p : Nat) : Returns p (pipe.alone.goto p (.start (.read 1))) ↔
      ¬ (pipe.empty = true ∧ pipe.writeopen = true) := by
    rw [returns_at (State.goto_pc_self ..) rfl]
    simp only [move, State.goto_pc_self, State.goto_lock, Pipe.alone, pipealloc, ne_eq,
      not_true_eq_false, if_false, Option.elim_some]
    rw [returns_at (State.goto_pc_self ..) rfl]
    simp only [move, State.goto_pc_self, State.goto_pipe, State.goto_killed]
    by_cases wait : pipe.empty = true ∧ pipe.writeopen = true
    · simp only [wait, and_self, if_true, Bool.false_eq_true, if_false, Option.elim_some,
        not_true_eq_false, iff_false]
      exact not_returns_of_sleep (State.goto_pc_self ..) rfl
    · simp only [wait, if_false, Option.elim_some, not_false_eq_true, iff_true]
      rw [returns_at (State.goto_pc_self ..) rfl]
      simp only [move, State.goto_pc_self]
      split
      · rw [Option.elim_some, returns_at (State.goto_pc_self ..) rfl]
        simp only [move, State.goto_pc_self, List.nil_append, List.length_singleton, Nat.cast_one,
          Int.lt_irrefl, false_and, if_false, Option.elim_some]
        exact returns_of_wake (State.goto_pc_self ..) rfl (by simp)
      · exact returns_of_wake (State.goto_pc_self ..) rfl (by simp)
  exact ⟨fun all => (here 0).mp (all 0), fun ready p => (here p).mpr ready⟩

/-- A `pipewrite` of one byte waits for room, as long as there is a reader. -/
theorem returnsAwake_write (addr : Nat → UInt8) :
    ReturnsAwake (.write addr 1) pipe ↔ ¬ (pipe.full = true ∧ pipe.readopen = true) := by
  have here (p : Nat) : Returns p (pipe.alone.goto p (.start (.write addr 1))) ↔
      ¬ (pipe.full = true ∧ pipe.readopen = true) := by
    rw [returns_at (State.goto_pc_self ..) rfl]
    simp only [move, State.goto_pc_self, State.goto_lock, Pipe.alone, pipealloc, ne_eq,
      not_true_eq_false, if_false, Option.elim_some]
    rw [returns_at (State.goto_pc_self ..) rfl]
    simp only [move, State.goto_pc_self, State.goto_pipe, State.goto_killed, List.length_nil,
      Nat.cast_zero, Int.zero_lt_one, if_true, Bool.false_eq_true, or_false]
    cases full : pipe.full with
    | false =>
      simp only [Bool.false_eq_true, if_false, Option.elim_some, false_and, not_false_eq_true,
        iff_true]
      rw [returns_at (State.goto_pc_self ..) rfl]
      simp only [move, State.goto_pc_self, List.nil_append, List.length_singleton, Nat.cast_one,
        Int.lt_irrefl, if_false, Option.elim_some]
      exact returns_of_wake (State.goto_pc_self ..) rfl (by simp)
    | true =>
      cases readers : pipe.readopen with
      | false =>
        simp only [if_true, Option.elim_some, Bool.false_eq_true, and_false, not_false_eq_true,
          iff_true]
        exact returns_of_finish (State.goto_pc_self ..) (by simp)
      | true =>
        simp only [Bool.true_eq_false, if_true, if_false, Option.elim_some, and_self,
          not_true_eq_false, iff_false]
        rw [returns_at (State.goto_pc_self ..) rfl]
        simp only [move, State.goto_pc_self, State.goto_ptlock, ne_eq, not_true_eq_false, if_false,
          Option.elim_some]
        rw [returns_at (State.goto_pc_self ..) rfl]
        simp only [move, State.goto_pc_self, Option.elim_some]
        exact not_returns_of_sleep (State.goto_pc_self ..) rfl
  exact ⟨fun all => (here 0).mp (all 0), fun ready p => (here p).mpr ready⟩

end OneByte

theorem pipecanread_iff (pipe : Pipe) : pipecanread pipe = 1 ↔ ReturnsAwake (.read 1) pipe := by
  rw [returnsAwake_read, pipecanread, Pipe.empty]
  by_cases same : pipe.nwrite = pipe.nread
  · cases pipe.writeopen <;> simp [same]
  · simp [same, Ne.symm same]

/-- What `pipecanwrite` needs: a full pipe still has a reader, and otherwise the
sum in its comparison does not wrap around before `nwrite` does. -/
def Pipe.Comparable (p : Pipe) : Prop :=
  if p.full then p.readopen = true
  else p.nread.toNat + PIPESIZE < 2 ^ 32 ∨ p.nwrite.toNat < p.nread.toNat

instance (p : Pipe) : Decidable p.Comparable :=
  inferInstanceAs (Decidable (ite _ _ _))

theorem pipecanwrite_iff {pipe : Pipe} (used : (pipe.nwrite - pipe.nread).toNat ≤ PIPESIZE)
    (addr : Nat → UInt8) :
    (pipecanwrite pipe = 1 ↔ ReturnsAwake (.write addr 1) pipe) ↔ pipe.Comparable := by
  rw [returnsAwake_write, pipecanwrite, Pipe.Comparable]
  have one (c : Prop) [Decidable c] : ((if c then (1 : Int) else 0) = 1) ↔ c := by
    split <;> simp [*]
  rw [one]
  cases full : pipe.full with
  | true =>
    have equal : pipe.nwrite = pipe.nread + BitVec.ofNat 32 PIPESIZE := by
      simpa only [Pipe.full, decide_eq_true_eq] using full
    have irrefl : ¬ pipe.nwrite < pipe.nread + BitVec.ofNat 32 PIPESIZE := by
      rw [equal]
      exact BitVec.lt_irrefl _
    cases pipe.readopen <;> simp [irrefl]
  | false =>
    have apart : pipe.nwrite ≠ pipe.nread + BitVec.ofNat 32 PIPESIZE := by
      simpa only [Pipe.full, decide_eq_false_iff_not] using full
    simp only [Bool.false_eq_true, if_false, false_and, not_false_eq_true, iff_true]
    generalize pipe.nwrite = w at *
    generalize pipe.nread = r at *
    rw [BitVec.lt_def]
    simp only [PIPESIZE] at *
    bv_omega

/-- In every state that can be reached, readiness tells the truth exactly if the
pipe is `Comparable`. -/
theorem pipe_readiness_iff (data : Fin PIPESIZE → UInt8) (killed : Nat → Bool) (acts : List Act)
    (s : State) (allowed : Transition.Along step Allowed acts (pipealloc data killed))
    (ran : Transition.run step acts (pipealloc data killed) = some s) :
    ((pipecanread s.pipe = 1 ↔ ReturnsAwake (.read 1) s.pipe) ∧
      ∀ addr, pipecanwrite s.pipe = 1 ↔ ReturnsAwake (.write addr 1) s.pipe) ↔
      s.pipe.Comparable := by
  have inv := inv_of_run allowed ran
  have used : (s.pipe.nwrite - s.pipe.nread).toNat ≤ PIPESIZE := by
    rw [inv.ring.used (by decide)]
    have := inv.ring.room
    omega
  constructor
  · intro truth
    exact (pipecanwrite_iff used fun _ => 0).mp (truth.2 _)
  · intro comparable
    exact ⟨pipecanread_iff s.pipe, fun addr => (pipecanwrite_iff used addr).mpr comparable⟩

/-- The reader leaves, and process 1 enters `pipewrite`. -/
def readerGone : List Act :=
  .call 2 (.close false) :: List.replicate 4 (.move 2) ++ [.call 1 (.write (fun _ => 0) 512), .move 1]

theorem readerGone_allowed :
    Transition.Along step Allowed readerGone (pipealloc (fun _ => 0) fun _ => false) := by
  refine ⟨⟨rfl, fun _ => nofun⟩, fun s' first => ?_⟩
  cases first
  have calls : Transition.Along step AllowedOpen
      (List.replicate 4 (.move 2) ++ [.call 1 (.write (fun _ => 0) 512), .move 1])
      ((pipealloc (fun _ => 0) fun _ => false).enter 2 (.close false)) := by
    decide +kernel
  exact calls.mono AllowedOpen.allowed

theorem along_moves {C : Act → State → Prop} {p : Nat} (every : ∀ s, C (.move p) s) (count : Nat)
    (s : State) : Transition.Along step C (List.replicate count (.move p)) s := by
  refine .of_forall (fun act member s => ?_) s
  rw [List.eq_of_mem_replicate member]
  exact every s

/-- The reader is gone and three bytes have been stored. -/
theorem pipe_readiness_stored : ∃ s,
    Transition.run step (readerGone ++ List.replicate 3 (.move 1))
      (pipealloc (fun _ => 0) fun _ => false) = some s ∧
      s.stored = [0, 0, 0] ∧ s.pipe.readopen = false ∧ s.pipe.Comparable ∧
      (pipecanread s.pipe = 1 ↔ ReturnsAwake (.read 1) s.pipe) ∧
      ∀ addr, pipecanwrite s.pipe = 1 ↔ ReturnsAwake (.write addr 1) s.pipe := by
  have comparable : ∃ s,
      Transition.run step (readerGone ++ List.replicate 3 (.move 1))
        (pipealloc (fun _ => 0) fun _ => false) = some s ∧
        s.stored = [0, 0, 0] ∧ s.pipe.readopen = false ∧ s.pipe.Comparable :=
    ⟨_, rfl, rfl, rfl, by decide⟩
  obtain ⟨s, ran, stored, closed, comparable⟩ := comparable
  have allowed := readerGone_allowed.append fun s _ =>
    along_moves (p := 1) (fun _ => trivial) 3 s
  exact ⟨s, ran, stored, closed, comparable,
    (pipe_readiness_iff _ _ _ s allowed ran).mpr comparable⟩

theorem Moves.readClosed {p : Nat} {s s' : State} (moves : Moves p s s')
    (closed : s.pipe.readopen = false) : s'.pipe.readopen = false := by
  cases moves with
  | @lockClose writable place free =>
    cases writable with
    | true => exact closed
    | false => rfl
  | _ => exact closed

/-- A full pipe without a reader does not count as writable, though `pipewrite`
returns at once. -/
theorem full_without_reader : ∃ acts s,
    Transition.Along step Allowed acts (pipealloc (fun _ => 0) fun _ => false) ∧
      Transition.run step acts (pipealloc (fun _ => 0) fun _ => false) = some s ∧
      pipecanwrite s.pipe = 0 ∧ ∀ addr, ReturnsAwake (.write addr 1) s.pipe := by
  obtain ⟨s, entered, place, pipe⟩ : ∃ s,
      Transition.run step readerGone (pipealloc (fun _ => 0) fun _ => false) = some s ∧
        s.pc 1 = .write (fun _ => 0) 512 [] ∧
        s.pipe.nread = 0 ∧ s.pipe.nwrite = 0 ∧ s.pipe.readopen = false :=
    ⟨_, rfl, rfl, rfl, rfl, rfl⟩
  obtain ⟨nread, nwrite, closed⟩ := pipe
  obtain ⟨t, filled, done⟩ := store_run PIPESIZE place (by decide) (by rw [nread, nwrite]; decide)
  have still : t.pipe.readopen = false := by
    refine Transition.run_preserves (C := fun act _ => act = .move 1)
      (I := fun s => s.pipe.readopen = false) (fun act s s' only old taken => ?_) closed
      (along_moves (fun _ => rfl) _ s) filled
    subst only
    exact (moves_of_move taken).readClosed old
  refine ⟨readerGone ++ List.replicate PIPESIZE (.move 1), t, readerGone_allowed.append fun s _ =>
    along_moves (fun _ => trivial) _ s, ?_, ?_, fun addr => ?_⟩
  · rw [Transition.run_append, entered, Option.bind_some, filled]
  · rw [pipecanwrite, done.nwrite, done.nread, nread, nwrite]
    decide
  · rw [returnsAwake_write, still]
    simp

end SirpairOs.Pipes
