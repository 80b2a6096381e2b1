import SirpairOs.Proc.Table

/-! Parents and children in the process table: what every step keeps. -/
namespace SirpairOs.Proc

open Mem (ProcState)

/-- The process has been set up and has not exited. -/
def Entry.Alive (e : Entry) : Prop :=
  e.state = .sleeping ∨ e.state = .runnable ∨ e.state = .running

instance (e : Entry) : Decidable e.Alive := inferInstanceAs (Decidable (_ ∨ _))

theorem Entry.alive_of_running {e : Entry} (running : e.state = .running) : e.Alive :=
  .inr (.inr running)

theorem Entry.Alive.used {e : Entry} (alive : e.Alive) :
    e.state ≠ .unused ∧ e.state ≠ .embryo ∧ e.state ≠ .zombie := by
  rcases alive with state | state | state <;> rw [state] <;> decide

structure Table.Kin (t : Table) : Prop where
  unborn : ∀ p, (t.proc p).state = .unused ∨ (t.proc p).state = .embryo → (t.proc p).parent = none
  making : ∀ cur p, (t.proc cur).np = some p → (t.proc p).state = .embryo ∧ (t.proc cur).Alive
  maker : ∀ a b p, (t.proc a).np = some p → (t.proc b).np = some p → a = b
  init : (t.proc t.initproc).Alive
  root : (t.proc t.initproc).parent = none
  apart : ∀ p, (t.proc p).parent ≠ some p
  parent : ∀ p q, (t.proc p).parent = some q → (t.proc q).Alive
  child : ∀ p, (t.proc p).state ≠ .unused → (t.proc p).state ≠ .embryo → p ≠ t.initproc →
    (t.proc p).parent ≠ none
  /-- Whoever sleeps in `wait` has reason to. -/
  waiting : ∀ p q, (t.proc p).state = .sleeping → (t.proc p).chan = some (.proc q) →
    q = p ∧ ∀ c, (t.proc c).parent = some p → (t.proc c).state ≠ .zombie

structure Goes (a b : Entry) : Prop where
  parent : b.parent = a.parent
  np : b.np = a.np
  pid : b.pid = a.pid
  state : b.state = a.state ∨ a.Alive ∧ b.Alive

namespace Goes

theorem refl (a : Entry) : Goes a a := ⟨rfl, rfl, rfl, .inl rfl⟩

variable {a b : Entry} (goes : Goes a b)

include goes

theorem alive (before : a.Alive) : b.Alive := by
  rcases goes.state with same | ⟨_, after⟩
  · rw [Entry.Alive, same]
    exact before
  · exact after

theorem state_iff {s : ProcState} (dead : s = .unused ∨ s = .embryo ∨ s = .zombie) :
    b.state = s ↔ a.state = s := by
  rcases goes.state with same | ⟨before, after⟩
  · rw [same]
  · obtain ⟨unused, embryo, zombie⟩ := before.used
    obtain ⟨unused', embryo', zombie'⟩ := after.used
    rcases dead with rfl | rfl | rfl
    · exact iff_of_false unused' unused
    · exact iff_of_false embryo' embryo
    · exact iff_of_false zombie' zombie

theorem unused_iff : b.state = .unused ↔ a.state = .unused := goes.state_iff (.inl rfl)
theorem embryo_iff : b.state = .embryo ↔ a.state = .embryo := goes.state_iff (.inr (.inl rfl))
theorem zombie_iff : b.state = .zombie ↔ a.state = .zombie := goes.state_iff (.inr (.inr rfl))

end Goes

theorem Goes.set {t : Table} {p : Mem.Slot} {e : Entry} (goes : Goes (t.proc p) e) (q : Mem.Slot) :
    Goes (t.proc q) ((t.set p e).proc q) := by
  by_cases same : q = p
  · subst same
    rwa [Table.set_proc_self]
  · rw [Table.set_proc_other _ _ same]
    exact refl _

theorem Goes.wakeup1 (chan : Option Chan) (t : Table) (q : Mem.Slot) :
    Goes (t.proc q) ((t.wakeup1 chan).proc q) := by
  unfold Table.wakeup1
  dsimp only
  split
  · rename_i asleep
    exact ⟨rfl, rfl, rfl, .inr ⟨.inl asleep.1, .inr (.inl rfl)⟩⟩
  · exact refl _

/-- A kill stores the entry of a process that does not sleep any more. -/
theorem kill_cases (pid : Int) (t : Table) : (t.kill pid).2 = t ∨
    ∃ p e, (t.kill pid).2 = t.set p e ∧ Goes (t.proc p) e ∧ e.state ≠ .sleeping := by
  unfold Table.kill
  split
  · exact .inl rfl
  · rename_i p _
    refine .inr ⟨p, _, rfl, ⟨rfl, rfl, rfl, ?_⟩, ?_⟩
    · dsimp only
      split
      · rename_i asleep
        exact .inr ⟨.inl asleep, .inr (.inl rfl)⟩
      · exact .inl rfl
    · dsimp only
      split
      · nofun
      · assumption

/-- A step in which every process goes on keeps the family relations, if whoever
sleeps in `wait` afterwards has reason to. -/
theorem Table.Kin.goes {t t' : Table} (kin : t.Kin) (init : t'.initproc = t.initproc)
    (goes : ∀ p, Goes (t.proc p) (t'.proc p))
    (waiting : ∀ p q, (t'.proc p).state = .sleeping → (t'.proc p).chan = some (.proc q) →
      q = p ∧ ∀ c, (t.proc c).parent = some p → (t.proc c).state ≠ .zombie) : t'.Kin where
  unborn p := by
    rw [(goes p).unused_iff, (goes p).embryo_iff, (goes p).parent]
    exact kin.unborn p
  making cur p := by
    rw [(goes cur).np, (goes p).embryo_iff]
    intro child
    exact ⟨(kin.making cur p child).1, (goes cur).alive (kin.making cur p child).2⟩
  maker a b p := by
    rw [(goes a).np, (goes b).np]
    exact kin.maker a b p
  init := by
    rw [init]
    exact (goes _).alive kin.init
  root := by
    rw [init, (goes _).parent]
    exact kin.root
  apart p := by
    rw [(goes p).parent]
    exact kin.apart p
  parent p q := by
    rw [(goes p).parent]
    exact fun parent => (goes q).alive (kin.parent p q parent)
  child p := by
    rw [ne_eq, (goes p).unused_iff, ne_eq, (goes p).embryo_iff, init, (goes p).parent]
    exact kin.child p
  waiting p q asleep chan := by
    obtain ⟨same, none'⟩ := waiting p q asleep chan
    refine ⟨same, fun c => ?_⟩
    rw [(goes c).parent, ne_eq, (goes c).zombie_iff]
    exact none' c

section Fork

variable {t t' : Table} {cur p : Mem.Slot}

/-- Only the entries of the forking process and of its child change. -/
structure Forks (t t' : Table) (cur p : Mem.Slot) (child : Entry) (np : Option Mem.Slot) : Prop where
  other : cur ≠ p
  init : t'.initproc = t.initproc
  own : t'.proc cur = { t.proc cur with np := np }
  made : t'.proc p = child
  rest : ∀ q, q ≠ p → q ≠ cur → t'.proc q = t.proc q

theorem Forks.set (other : cur ≠ p) (e : Entry) (np : Option Mem.Slot) (nextpid : Int) :
    Forks t (({ t with nextpid := nextpid }.set p e).set cur
      { ({ t with nextpid := nextpid }.set p e).proc cur with np := np }) cur p e np := by
  refine ⟨other, rfl, ?_, ?_, fun q isChild isCur => ?_⟩
  · rw [Table.set_proc_self, Table.set_proc_other _ _ other]
  · rw [Table.set_proc_other _ _ other.symm, Table.set_proc_self]
  · rw [Table.set_proc_other _ _ isCur, Table.set_proc_other _ _ isChild]

theorem Forks.goes {child : Entry} {np : Option Mem.Slot} (forks : Forks t t' cur p child np)
    {q : Mem.Slot}
    (old : q ≠ p) : (t'.proc q).parent = (t.proc q).parent ∧ (t'.proc q).state = (t.proc q).state ∧
      (t'.proc q).chan = (t.proc q).chan ∧ (t'.proc q).pid = (t.proc q).pid := by
  by_cases isCur : q = cur
  · rw [isCur, forks.own]
    exact ⟨rfl, rfl, rfl, rfl⟩
  · rw [forks.rest q old isCur]
    exact ⟨rfl, rfl, rfl, rfl⟩

/-- The child becomes an embryo, dies as one, or becomes the child of the
process that forks. -/
theorem Table.Kin.forks {child : Entry} {np : Option Mem.Slot} (kin : t.Kin)
    (forks : Forks t t' cur p child np) (running : (t.proc cur).state = .running)
    (unborn : (t.proc p).state = .unused ∨ (t.proc p).state = .embryo)
    (awake : child.state ≠ .sleeping ∧ child.state ≠ .zombie)
    (parent : (child.state = .unused ∨ child.state = .embryo) ∧ child.parent = none ∨
      child.parent = some cur ∧ child.state = .runnable)
    (childNp : child.np = none) (one : ∀ a, a ≠ cur → (t.proc a).np ≠ some p)
    (making : ∀ q, np = some q → q = p ∧ child.state = .embryo) : t'.Kin := by
  have alive (q : Mem.Slot) (alive : (t.proc q).Alive) : (t'.proc q).Alive := by
    have old : q ≠ p := by
      rintro rfl
      obtain ⟨unused, embryo, _⟩ := alive.used
      exact unborn.elim unused embryo
    rw [Entry.Alive, (forks.goes old).2.1]
    exact alive
  have nps (a q : Mem.Slot) (child' : (t'.proc a).np = some q) :
      a = cur ∧ np = some q ∨ a ≠ cur ∧ a ≠ p ∧ (t.proc a).np = some q := by
    by_cases isCur : a = cur
    · rw [isCur, forks.own] at child'
      exact .inl ⟨isCur, child'⟩
    by_cases isChild : a = p
    · rw [isChild, forks.made, childNp] at child'
      cases child'
    · rw [forks.rest a isChild isCur] at child'
      exact .inr ⟨isCur, isChild, child'⟩
  have initOld : t.initproc ≠ p := by
    rintro same
    obtain ⟨unused, embryo, _⟩ := kin.init.used
    rw [same] at unused embryo
    exact unborn.elim unused embryo
  refine ⟨fun q => ?_, fun a q child' => ?_, fun a b q first second => ?_, ?_, ?_, fun q => ?_,
    fun q a => ?_, fun q => ?_, fun q a => ?_⟩
  · by_cases isChild : q = p
    · rw [isChild, forks.made]
      rcases parent with ⟨_, none'⟩ | ⟨_, runnable⟩
      · exact fun _ => none'
      · rw [runnable]
        nofun
    · rw [(forks.goes isChild).1, (forks.goes isChild).2.1]
      exact kin.unborn q
  · rcases nps a q child' with ⟨rfl, new⟩ | ⟨isCur, _, old⟩
    · obtain ⟨rfl, embryo⟩ := making q new
      rw [forks.made]
      exact ⟨embryo, alive a (Entry.alive_of_running running)⟩
    · obtain ⟨embryo, living⟩ := kin.making a q old
      have isChild : q ≠ p := fun same => one a isCur (same ▸ old)
      rw [(forks.goes isChild).2.1]
      exact ⟨embryo, alive a living⟩
  · rcases nps a q first with ⟨rfl, new⟩ | ⟨isCur, _, old⟩
    · rcases nps b q second with ⟨rfl, _⟩ | ⟨isCur, _, old⟩
      · rfl
      · rw [(making q new).1] at old
        exact absurd old (one b isCur)
    · rcases nps b q second with ⟨rfl, new⟩ | ⟨_, _, old'⟩
      · rw [(making q new).1] at old
        exact absurd old (one a isCur)
      · exact kin.maker a b q old old'
  · rw [forks.init]
    exact alive _ kin.init
  · rw [forks.init, (forks.goes initOld).1]
    exact kin.root
  · by_cases isChild : q = p
    · rw [isChild, forks.made]
      rcases parent with ⟨_, none'⟩ | ⟨own, _⟩
      · rw [none']
        nofun
      · rw [own]
        exact fun same => forks.other (Option.some.inj same)
    · rw [(forks.goes isChild).1]
      exact kin.apart q
  · by_cases isChild : q = p
    · rw [isChild, forks.made]
      rcases parent with ⟨_, none'⟩ | ⟨own, _⟩
      · rw [none']
        nofun
      · rw [own]
        rintro ⟨⟩
        exact alive cur (Entry.alive_of_running running)
    · rw [(forks.goes isChild).1]
      exact fun parent => alive a (kin.parent q a parent)
  · by_cases isChild : q = p
    · rw [isChild, forks.made]
      rcases parent with ⟨unborn | unborn, _⟩ | ⟨own, _⟩
      · exact fun used => absurd unborn used
      · exact fun _ used => absurd unborn used
      · rw [own]
        nofun
    · rw [(forks.goes isChild).1, (forks.goes isChild).2.1, forks.init]
      exact kin.child q
  · by_cases isChild : q = p
    · rw [isChild, forks.made]
      exact fun asleep => absurd asleep awake.1
    · rw [(forks.goes isChild).2.1, (forks.goes isChild).2.2.1]
      intro asleep chan
      obtain ⟨same, none'⟩ := kin.waiting q a asleep chan
      refine ⟨same, fun c => ?_⟩
      by_cases new : c = p
      · rw [new, forks.made]
        exact fun _ => awake.2
      · rw [(forks.goes new).1, (forks.goes new).2.1]
        exact none' c

end Fork

structure Exits (t : Table) (cur q : Mem.Slot) (b : Entry) : Prop where
  parent : b.parent = if (t.proc q).parent = some cur then some t.initproc else (t.proc q).parent
  np : b.np = (t.proc q).np
  pid : b.pid = (t.proc q).pid
  own : q = cur → b.state = .zombie
  other : q ≠ cur → b.state = (t.proc q).state ∨ (t.proc q).Alive ∧ b.Alive
  /-- Who stays asleep is neither the parent nor an heir of dead children. -/
  asleep : q ≠ cur → b.state = .sleeping → (t.proc q).state = .sleeping ∧
    b.chan = (t.proc q).chan ∧ b.chan ≠ (t.proc cur).parent.map Chan.proc ∧
    ((∃ c, (t.proc c).parent = some cur ∧ (t.proc c).state = .zombie) →
      b.chan ≠ some (.proc t.initproc))

/-- Who stays asleep was not called. -/
theorem wakeup1_sleeper {t : Table} {chan : Option Chan} {q : Mem.Slot}
    (asleep : ((t.wakeup1 chan).proc q).state = .sleeping) :
    (t.wakeup1 chan).proc q = t.proc q ∧ (t.proc q).chan ≠ chan := by
  unfold Table.wakeup1 at asleep ⊢
  dsimp only at asleep ⊢
  split at asleep
  · cases asleep
  · rename_i stays
    rw [if_neg stays]
    exact ⟨rfl, fun same => stays ⟨asleep, same⟩⟩

variable (t : Table)

/-- The entry of a child of `cur` once it has been passed on. -/
theorem passChildren_proc (cur q : Mem.Slot) :
    let b := (t.passChildren cur).proc q
    b.parent = (if (t.proc q).parent = some cur then some t.initproc else (t.proc q).parent) ∧
      (b.np = (t.proc q).np ∧ b.pid = (t.proc q).pid ∧
        (b.state = (t.proc q).state ∨ (t.proc q).Alive ∧ b.Alive)) ∧
      (b.state = .sleeping → (t.proc q).state = .sleeping ∧ b.chan = (t.proc q).chan ∧
        ((∃ c, (t.proc c).parent = some cur ∧ (t.proc c).state = .zombie) →
          b.chan ≠ some (.proc t.initproc))) := by
  let passed : Table :=
    { t with
      proc := fun p =>
        if (t.proc p).parent = some cur then { t.proc p with parent := some t.initproc }
        else t.proc p }
  have parent : (passed.proc q).parent =
      if (t.proc q).parent = some cur then some t.initproc else (t.proc q).parent := by
    dsimp only [passed]
    split <;> rfl
  have entry : passed.proc q = { t.proc q with parent := (passed.proc q).parent } := by
    dsimp only [passed]
    split <;> rfl
  have state : (passed.proc q).state = (t.proc q).state := by rw [entry]
  have chan : (passed.proc q).chan = (t.proc q).chan := by rw [entry]
  by_cases zombies : ∃ c, (t.proc c).parent = some cur ∧ (t.proc c).state = .zombie
  · have whole : t.passChildren cur = passed.wakeup1 (some (.proc t.initproc)) := if_pos zombies
    have goes := Goes.wakeup1 (some (.proc t.initproc)) passed q
    rw [whole]
    dsimp only
    refine ⟨goes.parent.trans parent, ⟨goes.np.trans ?_, goes.pid.trans ?_, ?_⟩, fun asleep => ?_⟩
    · rw [entry]
    · rw [entry]
    · have states := goes.state
      rw [state, Entry.Alive, state] at states
      exact states
    · obtain ⟨same, apart⟩ := wakeup1_sleeper asleep
      rw [same] at asleep ⊢
      exact ⟨state ▸ asleep, chan, fun _ => apart⟩
  · have whole : t.passChildren cur = passed := if_neg zombies
    rw [whole]
    dsimp only
    refine ⟨parent, ⟨?_, ?_, .inl state⟩,
      fun asleep => ⟨state ▸ asleep, chan, fun some => absurd some zombies⟩⟩
    · rw [entry]
    · rw [entry]

theorem exit_proc (cur q : Mem.Slot) : Exits t cur q ((t.exit cur).proc q) := by
  let woken := t.wakeup1 ((t.proc cur).parent.map Chan.proc)
  have goes := Goes.wakeup1 ((t.proc cur).parent.map Chan.proc) t q
  obtain ⟨parent, ⟨np, pid, state⟩, asleep⟩ := passChildren_proc woken cur q
  have zombies (some : ∃ c, (t.proc c).parent = some cur ∧ (t.proc c).state = .zombie) :
      ∃ c, (woken.proc c).parent = .some cur ∧ (woken.proc c).state = .zombie := by
    obtain ⟨c, child, dead⟩ := some
    have here := Goes.wakeup1 ((t.proc cur).parent.map Chan.proc) t c
    exact ⟨c, here.parent.trans child, here.zombie_iff.mpr dead⟩
  have whole : t.exit cur = (woken.passChildren cur).set cur
      { (woken.passChildren cur).proc cur with state := .zombie } := by
    rw [Table.exit]
  generalize woken.passChildren cur = passed at parent np pid state asleep whole
  have fields : ((t.exit cur).proc q).parent = (passed.proc q).parent ∧
      ((t.exit cur).proc q).np = (passed.proc q).np ∧
      ((t.exit cur).proc q).pid = (passed.proc q).pid := by
    rw [whole]
    by_cases own : q = cur
    · rw [own, Table.set_proc_self]
      exact ⟨rfl, rfl, rfl⟩
    · rw [Table.set_proc_other _ _ own]
      exact ⟨rfl, rfl, rfl⟩
  refine ⟨?_, ?_, ?_, fun own => ?_, fun other => ?_, fun other => ?_⟩
  · rw [fields.1, parent, goes.parent]
    rfl
  · exact fields.2.1.trans (np.trans goes.np)
  · exact fields.2.2.trans (pid.trans goes.pid)
  · rw [own, whole, Table.set_proc_self]
  · rw [whole, Table.set_proc_other _ _ other]
    rcases state with same | ⟨before, after⟩
    · refine goes.state.imp (fun still => same.trans still) fun alive => ⟨alive.1, ?_⟩
      rw [Entry.Alive, same]
      exact alive.2
    · refine .inr ⟨?_, after⟩
      rcases goes.state with same | ⟨alive, _⟩
      · rw [Entry.Alive, ← same]
        exact before
      · exact alive
  · rw [whole, Table.set_proc_other _ _ other]
    intro still
    obtain ⟨asleep', chan, heir⟩ := asleep still
    obtain ⟨same, apart⟩ := wakeup1_sleeper asleep'
    rw [same] at asleep' chan
    exact ⟨asleep', chan, chan ▸ apart, fun some => heir (zombies some)⟩

theorem exit_initproc (cur : Mem.Slot) : (t.exit cur).initproc = t.initproc := by
  unfold Table.exit Table.passChildren Table.wakeup1
  dsimp only
  split <;> rfl

section Exit

variable {t : Table} {cur : Mem.Slot}

theorem Exits.dead {q : Mem.Slot} {b : Entry} (exits : Exits t cur q b) {s : ProcState}
    (dead : s = .unused ∨ s = .embryo ∨ s = .zombie) (other : q ≠ cur) :
    b.state = s ↔ (t.proc q).state = s := by
  have goes : Goes { t.proc q with parent := b.parent } b :=
    ⟨rfl, exits.np, exits.pid, exits.other other⟩
  exact goes.state_iff dead

theorem exit_unborn {p : Mem.Slot} (running : (t.proc cur).state = .running) :
    (((t.exit cur).proc p).state = .unused ↔ (t.proc p).state = .unused) ∧
      (((t.exit cur).proc p).state = .embryo ↔ (t.proc p).state = .embryo) := by
  have here := exit_proc t cur p
  by_cases own : p = cur
  · rw [here.own own, own, running]
    decide
  · exact ⟨here.dead (.inl rfl) own, here.dead (.inr (.inl rfl)) own⟩

theorem Table.Kin.exit (kin : t.Kin) (running : (t.proc cur).state = .running)
    (idle : (t.proc cur).np = none) (other : cur ≠ t.initproc) : (t.exit cur).Kin := by
  have alive {q : Mem.Slot} (living : (t.proc q).Alive) (apart : q ≠ cur) :
      ((t.exit cur).proc q).Alive := by
    rcases (exit_proc t cur q).other apart with same | ⟨_, after⟩
    · rw [Entry.Alive, same]
      exact living
    · exact after
  have parents {p q : Mem.Slot} (parent : ((t.exit cur).proc p).parent = some q) :
      (t.proc p).parent = some cur ∧ q = t.initproc ∨ (t.proc p).parent = some q ∧ q ≠ cur := by
    rw [(exit_proc t cur p).parent] at parent
    split at parent
    · rename_i child
      exact .inl ⟨child, (Option.some.inj parent).symm⟩
    · rename_i elsewhere
      refine .inr ⟨parent, ?_⟩
      rintro rfl
      exact elsewhere parent
  have init := exit_initproc t cur
  refine ⟨fun p => ?_, fun a p => ?_, fun a b p => ?_, ?_, ?_, fun p self => ?_,
    fun p q parent => ?_, fun p => ?_, fun p q asleep chan => ?_⟩
  · rw [(exit_unborn running).1, (exit_unborn running).2, (exit_proc t cur p).parent]
    intro unborn
    rw [kin.unborn p unborn, if_neg nofun]
  · rw [(exit_proc t cur a).np, (exit_unborn running).2]
    intro child
    refine ⟨(kin.making a p child).1, alive (kin.making a p child).2 ?_⟩
    rintro rfl
    rw [idle] at child
    cases child
  · rw [(exit_proc t cur a).np, (exit_proc t cur b).np]
    exact kin.maker a b p
  · rw [init]
    exact alive kin.init other.symm
  · rw [init, (exit_proc t cur _).parent, kin.root, if_neg nofun]
  · rcases parents self with ⟨child, rfl⟩ | ⟨old, _⟩
    · rw [kin.root] at child
      cases child
    · exact kin.apart p old
  · rcases parents parent with ⟨_, rfl⟩ | ⟨old, apart⟩
    · exact alive kin.init other.symm
    · exact alive (kin.parent p q old) apart
  · rw [ne_eq, (exit_unborn running).1, ne_eq, (exit_unborn running).2, init,
      (exit_proc t cur p).parent]
    intro used born apart
    split
    · nofun
    · exact kin.child p used born apart
  · -- the parent and the heir of zombies have been woken up
    have own : p ≠ cur := by
      rintro rfl
      rw [(exit_proc t p p).own rfl] at asleep
      cases asleep
    obtain ⟨asleep', same, notParent, notHeir⟩ := (exit_proc t cur p).asleep own asleep
    rw [chan] at same notParent notHeir
    obtain ⟨rfl, none'⟩ := kin.waiting p q asleep' same.symm
    refine ⟨rfl, fun c parent zombie => ?_⟩
    by_cases isCur : c = cur
    · subst isCur
      rcases parents parent with ⟨self, _⟩ | ⟨old, _⟩
      · exact kin.apart c self
      · rw [old] at notParent
        exact notParent rfl
    · rw [(exit_proc t cur c).dead (.inr (.inr rfl)) isCur] at zombie
      rcases parents parent with ⟨child, rfl⟩ | ⟨old, _⟩
      · exact notHeir ⟨c, child, zombie⟩ rfl
      · exact none' c old zombie

end Exit

section Step

variable {t t' : Table} {cur : Mem.Slot}

/-- The child that `wait` finds. -/
def Table.zombieChild (t : Table) (cur : Mem.Slot) : Option Mem.Slot :=
  (List.finRange NPROC).find? fun p => (t.proc p).parent = some cur ∧ (t.proc p).state = .zombie

theorem Table.wait_eq (t : Table) (cur : Mem.Slot) : t.wait cur = match t.zombieChild cur with
    | some p => (.pid (t.proc p).pid, t.reap p)
    | none =>
      if (∀ p, (t.proc p).parent ≠ some cur) ∨ (t.proc cur).killed then (.noChild, t)
      else (.sleeps, t.set cur { t.proc cur with state := .sleeping, chan := some (.proc cur) }) := by
  rfl

theorem Table.zombieChild_some {p : Mem.Slot} (found : t.zombieChild cur = some p) :
    (t.proc p).parent = some cur ∧ (t.proc p).state = .zombie := by
  simpa using List.find?_some found

theorem Table.zombieChild_none (none' : t.zombieChild cur = none) (p : Mem.Slot)
    (parent : (t.proc p).parent = some cur) : (t.proc p).state ≠ .zombie := by
  have all := List.find?_eq_none.mp none' p (List.mem_finRange p)
  intro zombie
  exact all (by simp [parent, zombie])

theorem Table.Kin.reap (kin : t.Kin) {p : Mem.Slot} (zombie : (t.proc p).state = .zombie) :
    (t.reap p).Kin := by
  have dead : ¬ (t.proc p).Alive := fun alive => alive.used.2.2 zombie
  have self : (t.reap p).proc p = { t.proc p with
      state := .unused, pid := 0, parent := none, killed := false } := Table.set_proc_self ..
  have rest {q : Mem.Slot} (other : q ≠ p) : (t.reap p).proc q = t.proc q :=
    Table.set_proc_other _ _ other
  have living {q : Mem.Slot} (alive : (t.proc q).Alive) : q ≠ p := by
    rintro rfl
    exact dead alive
  have alive {q : Mem.Slot} (alive : (t.proc q).Alive) : ((t.reap p).proc q).Alive := by
    rw [rest (living alive)]
    exact alive
  have nps {a q : Mem.Slot} (child : ((t.reap p).proc a).np = some q) : (t.proc a).np = some q := by
    by_cases own : a = p
    · rw [own, self] at child
      rw [own]
      exact child
    · rwa [rest own] at child
  have parents {q a : Mem.Slot} (parent : ((t.reap p).proc q).parent = some a) :
      (t.proc q).parent = some a ∧ q ≠ p := by
    by_cases own : q = p
    · rw [own, self] at parent
      cases parent
    · rw [rest own] at parent
      exact ⟨parent, own⟩
  refine ⟨fun q => ?_, fun a q child => ?_, fun a b q first second => ?_, ?_, ?_, fun q self' => ?_,
    fun q a parent => ?_, fun q => ?_, fun q a asleep chan => ?_⟩
  · by_cases own : q = p
    · rw [own, self]
      exact fun _ => rfl
    · rw [rest own]
      exact kin.unborn q
  · obtain ⟨embryo, living'⟩ := kin.making a q (nps child)
    have own : q ≠ p := by
      rintro rfl
      rw [zombie] at embryo
      cases embryo
    rw [rest own]
    exact ⟨embryo, alive living'⟩
  · exact kin.maker a b q (nps first) (nps second)
  · exact alive kin.init
  · have own : t.initproc ≠ p := living kin.init
    change ((t.reap p).proc t.initproc).parent = none
    rw [rest own]
    exact kin.root
  · exact kin.apart q (parents self').1
  · exact alive (kin.parent q a (parents parent).1)
  · by_cases own : q = p
    · rw [own, self]
      exact fun used => absurd rfl used
    · rw [rest own]
      exact kin.child q
  · have own : q ≠ p := by
      rintro rfl
      rw [self] at asleep
      cases asleep
    rw [rest own] at asleep chan
    obtain ⟨same, none'⟩ := kin.waiting q a asleep chan
    refine ⟨same, fun c parent => ?_⟩
    rw [rest (parents parent).2]
    exact none' c (parents parent).1

end Step

/-- The steps, one constructor for each way in which they matter to families. -/
inductive Happens (t : Table) : Event → Table → Prop where
  | goes {event : Event} {t' : Table} (init : t'.initproc = t.initproc)
      (goes : ∀ p, Goes (t.proc p) (t'.proc p))
      (waiting : ∀ p q, (t'.proc p).state = .sleeping → (t'.proc p).chan = some (.proc q) →
        q = p ∧ ∀ c, (t.proc c).parent = some p → (t.proc c).state ≠ .zombie)
      (alloc : ∀ cur, event = .forkAlloc cur → t.allocproc.1 = none)
      (exit : ∀ cur, event ≠ .exit cur)
      (wait : ∀ cur, event = .wait cur → t.zombieChild cur = none) : Happens t event t'
  | alloc {cur p : Mem.Slot} {t₁ : Table} (running : (t.proc cur).state = .running)
      (found : t.allocproc = (some p, t₁)) : Happens t (.forkAlloc cur) (t.forkAlloc cur)
  | fail {cur p : Mem.Slot} (running : (t.proc cur).state = .running)
      (np : (t.proc cur).np = some p) : Happens t (.forkFail cur) (t.forkFail cur p)
  | finish {cur p : Mem.Slot} (running : (t.proc cur).state = .running)
      (np : (t.proc cur).np = some p) : Happens t (.forkFinish cur) (t.forkFinish cur p)
  | exit {cur : Mem.Slot} (running : (t.proc cur).state = .running) (idle : (t.proc cur).np = none)
      (other : cur ≠ t.initproc) : Happens t (.exit cur) (t.exit cur)
  | reap {cur p : Mem.Slot} (running : (t.proc cur).state = .running)
      (found : t.zombieChild cur = some p) : Happens t (.wait cur) (t.reap p)

section Step

variable {t t' : Table} (kin : t.Kin)

include kin

/-- Everybody goes on, and nobody goes to sleep in `wait`. -/
theorem happens_awake {event : Event} (init : t'.initproc = t.initproc)
    (goes : ∀ p, Goes (t.proc p) (t'.proc p))
    (awake : ∀ p q, (t'.proc p).state = .sleeping → (t'.proc p).chan = some (.proc q) →
      (t.proc p).state = .sleeping ∧ (t.proc p).chan = some (.proc q))
    (alloc : ∀ cur, event = .forkAlloc cur → t.allocproc.1 = none) (exit : ∀ cur, event ≠ .exit cur)
    (wait : ∀ cur, event = .wait cur → t.zombieChild cur = none) : Happens t event t' :=
  .goes init goes (fun p q asleep chan =>
    kin.waiting p q (awake p q asleep chan).1 (awake p q asleep chan).2) alloc exit wait

theorem happens_set {event : Event} {p : Mem.Slot} {e : Entry} (goes : Goes (t.proc p) e)
    (awake : e.state = .sleeping → ∀ q, e.chan ≠ some (.proc q))
    (alloc : ∀ cur, event ≠ .forkAlloc cur) (exit : ∀ cur, event ≠ .exit cur)
    (wait : ∀ cur, event ≠ .wait cur) : Happens t event (t.set p e) := by
  refine happens_awake kin rfl goes.set (fun q a asleep chan => ?_)
    (fun cur same => absurd same (alloc cur)) exit (fun cur same => absurd same (wait cur))
  by_cases own : q = p
  · rw [own, Table.set_proc_self] at asleep chan
    exact absurd chan (awake asleep a)
  · rw [Table.set_proc_other _ _ own] at asleep chan
    exact ⟨asleep, chan⟩

theorem happens_wait {cur : Mem.Slot} (running : (t.proc cur).state = .running) :
    Happens t (.wait cur) (t.wait cur).2 := by
  rw [Table.wait_eq]
  cases found : t.zombieChild cur with
  | some p => exact .reap running found
  | none =>
    dsimp only
    split
    · exact happens_awake kin rfl (fun p => .refl _) (fun _ _ asleep chan => ⟨asleep, chan⟩) nofun
        nofun fun c same => by cases same; exact found
    · refine .goes rfl (Goes.set ⟨rfl, rfl, rfl, .inr ⟨Entry.alive_of_running running, .inl rfl⟩⟩)
        (fun p q asleep chan => ?_) nofun nofun fun c same => by cases same; exact found
      by_cases own : p = cur
      · rw [own, Table.set_proc_self] at chan
        cases chan
        rw [own]
        exact ⟨rfl, Table.zombieChild_none found⟩
      · rw [Table.set_proc_other _ _ own] at asleep chan
        exact kin.waiting p q asleep chan

theorem happens_of_step {event : Event} (taken : t.step event = some t') : Happens t event t' := by
  cases event with
  | forkAlloc cur =>
    obtain ⟨idle, ⟨⟩⟩ := Option.ite_none_right_eq_some.mp taken
    have running : (t.proc cur).state = .running := (of_decide_eq_true idle).1
    cases found : t.allocproc with
    | mk slot t₁ =>
      cases slot with
      | some p => exact .alloc running found
      | none =>
        have same : t.forkAlloc cur = t := by
          rw [Table.forkAlloc, found]
          exact Table.allocproc_none found
        rw [same]
        exact happens_awake kin rfl (fun p => .refl _) (fun _ _ asleep chan => ⟨asleep, chan⟩)
          (fun _ _ => by rw [found]) nofun nofun
  | forkFail cur =>
    obtain ⟨running, taken⟩ := Option.ite_none_right_eq_some.mp taken
    obtain ⟨p, np, rfl⟩ := Option.map_eq_some_iff.mp taken
    exact .fail running np
  | forkFinish cur =>
    obtain ⟨running, taken⟩ := Option.ite_none_right_eq_some.mp taken
    obtain ⟨p, np, rfl⟩ := Option.map_eq_some_iff.mp taken
    exact .finish running np
  | exit cur =>
    obtain ⟨⟨idle, other⟩, ⟨⟩⟩ := Option.ite_none_right_eq_some.mp taken
    obtain ⟨running, np⟩ := of_decide_eq_true idle
    exact .exit running np other
  | wait cur =>
    obtain ⟨idle, ⟨⟩⟩ := Option.ite_none_right_eq_some.mp taken
    exact happens_wait kin (of_decide_eq_true idle).1
  | kill pid =>
    cases taken
    rcases kill_cases pid t with same | ⟨p, e, stored, goes, awake⟩
    · rw [same]
      exact happens_awake kin rfl (fun p => .refl _) (fun _ _ asleep chan => ⟨asleep, chan⟩) nofun
        nofun nofun
    · rw [stored]
      exact happens_set kin goes (fun asleep => absurd asleep awake) nofun nofun nofun
  | schedule p =>
    obtain ⟨runnable, ⟨⟩⟩ := Option.ite_none_right_eq_some.mp taken
    exact happens_set kin ⟨rfl, rfl, rfl, .inr ⟨.inr (.inl runnable), .inr (.inr rfl)⟩⟩ nofun nofun
      nofun nofun
  | yield cur =>
    obtain ⟨running, ⟨⟩⟩ := Option.ite_none_right_eq_some.mp taken
    exact happens_set kin ⟨rfl, rfl, rfl, .inr ⟨.inr (.inr running), .inr (.inl rfl)⟩⟩ nofun nofun
      nofun nofun
  | sleep cur n =>
    obtain ⟨running, ⟨⟩⟩ := Option.ite_none_right_eq_some.mp taken
    exact happens_set kin ⟨rfl, rfl, rfl, .inr ⟨.inr (.inr running), .inl rfl⟩⟩ (fun _ _ => nofun)
      nofun nofun nofun
  | wakeup n =>
    cases taken
    refine happens_awake kin rfl (Goes.wakeup1 _ t) (fun p q asleep chan => ?_) nofun nofun nofun
    have same := (wakeup1_sleeper asleep).1
    rw [same] at asleep chan
    exact ⟨asleep, chan⟩

end Step

section Keep

variable {t t' : Table} {event : Event} (kin : t.Kin)

include kin

/-- Who is not born yet makes no child. -/
theorem Table.Kin.np_none {p : Mem.Slot}
    (unborn : (t.proc p).state = .unused ∨ (t.proc p).state = .embryo) : (t.proc p).np = none := by
  cases np : (t.proc p).np with
  | none => rfl
  | some c =>
    obtain ⟨unused, embryo, _⟩ := (kin.making p c np).2.used
    exact (unborn.elim unused embryo).elim

theorem Table.Kin.np_ne {cur p : Mem.Slot} (running : (t.proc cur).state = .running)
    (np : (t.proc cur).np = some p) : cur ≠ p := by
  rintro rfl
  have embryo := (kin.making cur cur np).1
  rw [running] at embryo
  cases embryo

omit kin in
theorem forks_alloc {cur p : Mem.Slot} {t₁ : Table} (running : (t.proc cur).state = .running)
    (found : t.allocproc = (some p, t₁)) :
    Forks t (t.forkAlloc cur) cur p { t.proc p with state := .embryo, pid := t.nextpid } (some p) := by
  obtain ⟨unused, rfl⟩ := Table.allocproc_some found
  have other : cur ≠ p := by
    rintro rfl
    rw [running] at unused
    cases unused
  rw [Table.forkAlloc, found]
  exact .set other _ _ _

theorem forks_end {cur p : Mem.Slot} (running : (t.proc cur).state = .running)
    (np : (t.proc cur).np = some p) (e : Entry) : Forks t (t.endFork cur p e) cur p e none :=
  .set (kin.np_ne running np) e none t.nextpid

theorem Table.Kin.happens (happens : Happens t event t') : t'.Kin := by
  cases happens with
  | goes init goes waiting => exact kin.goes init goes waiting
  | @alloc cur p t₁ running found =>
    have unused := (Table.allocproc_some found).1
    refine kin.forks (forks_alloc running found) running (.inl unused) ⟨nofun, nofun⟩
      (.inl ⟨.inr rfl, kin.unborn p (.inl unused)⟩) (kin.np_none (.inl unused)) (fun a _ np => ?_)
      fun q same => ⟨(Option.some.inj same).symm, rfl⟩
    rw [(kin.making a p np).1] at unused
    cases unused
  | @fail cur p running np =>
    have embryo := (kin.making cur p np).1
    exact kin.forks (forks_end kin running np _) running (.inr embryo) ⟨nofun, nofun⟩
      (.inl ⟨.inl rfl, kin.unborn p (.inr embryo)⟩) (kin.np_none (.inr embryo))
      (fun a apart np' => apart (kin.maker a cur p np' np)) nofun
  | @finish cur p running np =>
    have embryo := (kin.making cur p np).1
    exact kin.forks (forks_end kin running np _) running (.inr embryo) ⟨nofun, nofun⟩
      (.inr ⟨rfl, rfl⟩) (kin.np_none (.inr embryo))
      (fun a apart np' => apart (kin.maker a cur p np' np)) nofun
  | exit running idle other => exact kin.exit running idle other
  | reap running found => exact kin.reap (Table.zombieChild_some found).2

end Keep

end SirpairOs.Proc
