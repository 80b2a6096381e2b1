import SirpairOs.Proc.Table

/-! Which processes `kill` marks, over whole histories of the process table. -/
namespace SirpairOs.Proc

open Mem (ProcState)

inductive Fate (a b : Entry) : Prop where
  /-- The slot stays unused, or in use, with the same mark. -/
  | keeps (state : b.state = .unused → a.state = .unused) (killed : b.killed = a.killed)
  /-- The process is reaped. -/
  | reaped (killed : b.killed = false)

namespace Fate

theorem refl (a : Entry) : Fate a a := .keeps id rfl

theorem trans {a b c : Entry} (first : Fate a b) (second : Fate b c) : Fate a c := by
  cases second with
  | reaped killed => exact .reaped killed
  | keeps state' killed' =>
    cases first with
    | reaped killed => exact .reaped (killed'.trans killed)
    | keeps state killed => exact .keeps (fun unused => state (state' unused)) (killed'.trans killed)

theorem set {t : Table} {p : Mem.Slot} {e : Entry} (fate : Fate (t.proc p) e) (q : Mem.Slot) :
    Fate (t.proc q) ((t.set p e).proc q) := by
  by_cases same : q = p
  · subst same
    rwa [Table.set_proc_self]
  · rw [Table.set_proc_other _ _ same]
    exact refl _

theorem wakeup1 (chan : Option Chan) (t : Table) (q : Mem.Slot) :
    Fate (t.proc q) ((t.wakeup1 chan).proc q) := by
  unfold Table.wakeup1
  dsimp only
  split
  · exact .keeps nofun rfl
  · exact refl _

variable (cur : Mem.Slot)

theorem passed (heir : Mem.Slot) (a : Entry) :
    Fate a (if a.parent = some cur then { a with parent := some heir } else a) := by
  split
  · exact .keeps id rfl
  · exact refl _

variable (t : Table) (q : Mem.Slot)

theorem passChildren : Fate (t.proc q) ((t.passChildren cur).proc q) := by
  unfold Table.passChildren
  dsimp only
  split
  · refine trans ?_ (wakeup1 _ _ q)
    exact passed cur t.initproc (t.proc q)
  · exact passed cur t.initproc (t.proc q)

theorem exit : Fate (t.proc q) ((t.exit cur).proc q) := by
  unfold Table.exit
  refine ((wakeup1 _ t q).trans (passChildren cur _ q)).trans (set ?_ q)
  exact .keeps nofun rfl

theorem wait : Fate (t.proc q) ((t.wait cur).2.proc q) := by
  unfold Table.wait
  split
  · refine set ?_ q
    exact .reaped rfl
  · split
    · exact refl _
    · refine set ?_ q
      exact .keeps nofun rfl

theorem allocproc {t t' : Table} {found : Option Mem.Slot} (result : t.allocproc = (found, t'))
    (q : Mem.Slot) : Fate (t.proc q) (t'.proc q) := by
  cases found with
  | none =>
    rw [Table.allocproc_none result]
    exact refl _
  | some p =>
    rw [(Table.allocproc_some result).2]
    refine set (t := { t with nextpid := Table.wrap (t.nextpid + 1) }) ?_ q
    exact .keeps nofun rfl

theorem forkAlloc : Fate (t.proc q) ((t.forkAlloc cur).proc q) := by
  unfold Table.forkAlloc
  split
  · rename_i result
    exact allocproc result q
  · rename_i result
    refine (allocproc result q).trans (set ?_ q)
    exact .keeps id rfl

theorem forkFinish (p : Mem.Slot) (t : Table) (q : Mem.Slot) :
    Fate (t.proc q) ((t.forkFinish cur p).proc q) := by
  unfold Table.forkFinish Table.endFork
  refine trans (set (p := p) ?_ q) (set ?_ q)
  · exact .keeps nofun rfl
  · exact .keeps id rfl

end Fate

/-- A step other than a kill or a failing fork marks nobody, and sets nobody free who is marked. -/
theorem fate_step {t t' : Table} {event : Event} (taken : t.step event = some t')
    (noKill : ∀ pid, event ≠ .kill pid) (noFail : ∀ cur, event ≠ .forkFail cur) (q : Mem.Slot) :
    Fate (t.proc q) (t'.proc q) := by
  cases event with
  | forkAlloc cur =>
    obtain ⟨_, ⟨⟩⟩ := Option.ite_none_right_eq_some.mp taken
    exact .forkAlloc cur t q
  | forkFail cur => exact absurd rfl (noFail cur)
  | forkFinish cur =>
    obtain ⟨_, taken⟩ := Option.ite_none_right_eq_some.mp taken
    obtain ⟨p, _, rfl⟩ := Option.map_eq_some_iff.mp taken
    exact .forkFinish cur p t q
  | exit cur =>
    obtain ⟨_, ⟨⟩⟩ := Option.ite_none_right_eq_some.mp taken
    exact .exit cur t q
  | wait cur =>
    obtain ⟨_, ⟨⟩⟩ := Option.ite_none_right_eq_some.mp taken
    exact .wait cur t q
  | kill pid => exact absurd rfl (noKill pid)
  | schedule p | yield cur | sleep cur n =>
    obtain ⟨_, ⟨⟩⟩ := Option.ite_none_right_eq_some.mp taken
    refine .set ?_ q
    exact .keeps nofun rfl
  | wakeup n =>
    cases taken
    exact .wakeup1 _ t q

/-- The table, and what has happened to each process since it was allocated. -/
structure World where
  table : Table
  /-- A kill has named its number. -/
  named : Mem.Slot → Bool
  /-- It has run. -/
  started : Mem.Slot → Bool

/-- The event is a kill with the number of the process. -/
def Event.names (event : Event) (t : Table) (p : Mem.Slot) : Bool :=
  match event with
  | .kill pid => (t.proc p).state ≠ .unused ∧ (t.proc p).pid = pid
  | _ => false

/-- The slot is taken in the step from `w` to `t`. -/
def World.begins (w : World) (t : Table) (p : Mem.Slot) : Bool :=
  (w.table.proc p).state = .unused ∧ (t.proc p).state ≠ .unused

def World.step (event : Event) (w : World) : Option World :=
  (w.table.step event).map fun t =>
    { table := t
      named := fun p => if w.begins t p then false else w.named p || event.names w.table p
      started := fun p => if w.begins t p then false else w.started p || event = .schedule p }

def World.boot : World := ⟨Table.zero.userinit, fun _ => false, fun _ => false⟩

/-- Only processes that a kill has named are marked, and no unused slot is. -/
def Marked (w : World) : Prop :=
  ∀ p, (w.table.proc p).killed → (w.table.proc p).state ≠ .unused ∧ w.named p

/-- No kill names the number in an unused slot, and no fork fails whose child is marked. -/
def Careful : Event → World → Prop
  | .kill pid, w => ∀ p, (w.table.proc p).state = .unused → (w.table.proc p).pid ≠ pid
  | .forkFail cur, w => ∀ p, (w.table.proc cur).np = some p → (w.table.proc p).killed = false
  | _, _ => True

instance : (event : Event) → (w : World) → Decidable (Careful event w)
  | .kill _, _ | .forkFail _, _ => by unfold Careful; infer_instance
  | .forkAlloc _, _ | .forkFinish _, _ | .exit _, _ | .wait _, _ | .schedule _, _ | .yield _, _
  | .sleep .., _ | .wakeup _, _ => isTrue trivial

/-- What is said about a step: a kill that returns 0 finds a living process with the number, a
new process is not marked, and a process that runs for the first time is marked only if a kill
has named its number. -/
def SparesOthers : Event → World → Prop
  | .kill pid, w => (w.table.kill pid).1 = 0 →
      ∃ p, (w.table.proc p).state ≠ .unused ∧ (w.table.proc p).pid = pid
  | .forkAlloc _, w => ∀ p t, w.table.allocproc = (some p, t) → (t.proc p).killed = false
  | .schedule p, w => w.started p = false → (w.table.proc p).killed → w.named p
  | _, _ => True

theorem Marked.spares {event : Event} {w : World} (careful : Careful event w) (marked : Marked w) :
    SparesOthers event w := by
  cases event with
  | kill pid =>
    intro done
    obtain ⟨p, same⟩ := Table.kill_zero done
    exact ⟨p, fun unused => careful p unused same, same⟩
  | forkAlloc cur =>
    intro p t found
    obtain ⟨unused, rfl⟩ := Table.allocproc_some found
    rw [Table.set_proc_self]
    exact eq_false_of_ne_true fun killed => (marked p killed).1 unused
  | schedule p => exact fun _ killed => (marked p killed).2
  | _ => trivial

theorem kill_proc (pid : Int) (t : Table) (q : Mem.Slot) :
    (t.kill pid).2.proc q = t.proc q ∨ (t.proc q).pid = pid ∧ ((t.kill pid).2.proc q).state =
        if (t.proc q).state = .sleeping then .runnable else (t.proc q).state := by
  unfold Table.kill
  split
  · exact .inl rfl
  · rename_i p first
    by_cases same : q = p
    · subst same
      exact .inr ⟨by simpa using List.find?_some first, by rw [Table.set_proc_self]⟩
    · exact .inl (Table.set_proc_other _ _ same)

theorem forkFail_proc (cur c : Mem.Slot) (t : Table) (q : Mem.Slot) :
    ((t.forkFail cur c).proc q).killed = (t.proc q).killed ∧
      (q ≠ c → ((t.forkFail cur c).proc q).state = (t.proc q).state) := by
  unfold Table.forkFail Table.endFork
  by_cases isChild : q = c <;> by_cases isCur : q = cur <;> by_cases same : cur = c <;>
    simp_all [Table.set_proc_other]

/-- A marked process has been marked before and lived before, or is named now. -/
theorem marked_before {event : Event} {w : World} {t : Table} (careful : Careful event w)
    (marked : Marked w) (taken : w.table.step event = some t) {p : Mem.Slot}
    (killed : (t.proc p).killed) : (w.table.proc p).state ≠ .unused ∧ (t.proc p).state ≠ .unused ∧
      (w.named p ∨ event.names w.table p) := by
  by_cases isKill : ∃ pid, event = .kill pid
  · obtain ⟨pid, rfl⟩ := isKill
    cases taken
    rcases kill_proc pid w.table p with same | ⟨named, state⟩
    · rw [same] at killed ⊢
      exact ⟨(marked p killed).1, (marked p killed).1, .inl (marked p killed).2⟩
    · have alive : (w.table.proc p).state ≠ .unused := fun unused => careful p unused named
      refine ⟨alive, ?_, .inr (decide_eq_true ⟨alive, named⟩)⟩
      rw [state]
      split
      · exact nofun
      · exact alive
  by_cases isFail : ∃ cur, event = .forkFail cur
  · obtain ⟨cur, rfl⟩ := isFail
    obtain ⟨_, taken⟩ := Option.ite_none_right_eq_some.mp taken
    obtain ⟨c, child, rfl⟩ := Option.map_eq_some_iff.mp taken
    obtain ⟨mark, state⟩ := forkFail_proc cur c w.table p
    rw [mark] at killed
    have other : p ≠ c := by
      rintro rfl
      rw [careful p child] at killed
      cases killed
    rw [state other]
    exact ⟨(marked p killed).1, (marked p killed).1, .inl (marked p killed).2⟩
  · have fate := fate_step taken (fun pid same => isKill ⟨pid, same⟩)
      (fun cur same => isFail ⟨cur, same⟩) p
    cases fate with
    | keeps state mark =>
      rw [mark] at killed
      obtain ⟨alive, named⟩ := marked p killed
      exact ⟨alive, fun unused => alive (state unused), .inl named⟩
    | reaped mark =>
      rw [mark] at killed
      cases killed

theorem Marked.keep {event : Event} {w w' : World} (careful : Careful event w) (marked : Marked w)
    (taken : w.step event = some w') : Marked w' := by
  obtain ⟨t, moved, rfl⟩ := Option.map_eq_some_iff.mp taken
  intro p killed
  obtain ⟨alive, alive', named⟩ := marked_before careful marked moved killed
  refine ⟨alive', ?_⟩
  dsimp only
  rw [if_neg (by simp [alive, World.begins])]
  simpa using named

theorem marked_boot : Marked World.boot := by
  unfold Marked
  decide +kernel

/-- In every run whose steps are careful, kill affects only living processes, and a process is
marked at its first run only if a kill has named it. -/
theorem kill_affects_living (events : List Event)
    (careful : Transition.Along World.step Careful events World.boot) :
    Transition.Along World.step SparesOthers events World.boot :=
  careful.of_invariant (fun _ _ _ allowed marked taken => marked.keep allowed taken)
    (fun _ _ allowed marked => marked.spares allowed) marked_boot

/-- A child is killed while `fork` makes it, runs, exits and is reaped. -/
theorem kill_affects_living_child :
    Transition.Along World.step SparesOthers [.schedule 0, .forkAlloc 0, .kill 2, .forkFinish 0,
      .yield 0, .schedule 1, .exit 1, .schedule 0, .wait 0, .kill 2] World.boot :=
  kill_affects_living _ (by decide +kernel)

/-- `kill(0)` finds a slot that was never used and returns 0; the next child starts marked. -/
theorem kill_marks_unborn : (Table.zero.userinit.kill 0).1 = 0 ∧
      (∀ p, (Table.zero.userinit.proc p).state ≠ .unused → (Table.zero.userinit.proc p).pid ≠ 0) ∧
      (∃ w, Transition.run World.step [.kill 0, .schedule 0, .forkAlloc 0, .forkFinish 0, .yield 0,
        .schedule 1] World.boot = some w ∧ (w.table.proc 1).state = .running ∧
        (w.table.proc 1).pid = 2 ∧ (w.table.proc 1).killed ∧ w.named 1 = false) ∧
      ¬ Transition.Along World.step SparesOthers [.kill 0] World.boot := by
  have dead : ∀ p, (Table.zero.userinit.proc p).state ≠ .unused →
      (Table.zero.userinit.proc p).pid ≠ 0 := by decide +kernel
  have done : (Table.zero.userinit.kill 0).1 = 0 := by decide +kernel
  have ends : (Transition.run World.step [.kill 0, .schedule 0, .forkAlloc 0, .forkFinish 0, .yield 0,
      .schedule 1] World.boot).any fun w => (w.table.proc 1).state = .running ∧
        (w.table.proc 1).pid = 2 ∧ (w.table.proc 1).killed ∧ w.named 1 = false := by decide +kernel
  obtain ⟨w, ran, facts⟩ := (Option.any_eq_true _ _).mp ends
  refine ⟨done, dead, ⟨w, ran, of_decide_eq_true facts⟩, ?_⟩
  rintro ⟨spares, _⟩
  obtain ⟨p, alive, number⟩ := spares done
  exact dead p alive number

end SirpairOs.Proc
