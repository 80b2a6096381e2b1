import SirpairOs.Proc.Kin

/-! Every child is reaped once: whose pid `wait` returns, and to whom, over whole
histories of the process table. -/
namespace SirpairOs.Proc

open Mem (ProcState)

/-- The table, with a number for the life of every process, and what is known of
each life: its pid, who forked it, and whether it has exited. -/
structure Family where
  table : Table
  life : Mem.Slot → Nat
  born : Nat
  pid : Nat → Int
  maker : Nat → Nat
  exited : Nat → Bool
  /-- The lives that calls of `wait` have returned. -/
  returned : List Nat

namespace Family

def record (event : Event) (w : Family) : Family :=
  match event with
  | .forkAlloc cur =>
    match w.table.allocproc.1 with
    | none => w
    | some p =>
      { w with
        life := Function.update w.life p w.born
        born := w.born + 1
        pid := Function.update w.pid w.born w.table.nextpid
        maker := Function.update w.maker w.born (w.life cur) }
  | .exit cur => { w with exited := Function.update w.exited (w.life cur) true }
  | .wait cur =>
    match w.table.zombieChild cur with
    | none => w
    | some p => { w with returned := w.returned ++ [w.life p] }
  | _ => w

def step (event : Event) (w : Family) : Option Family :=
  (w.table.step event).map fun t => { w.record event with table := t }

def boot : Family := ⟨Table.zero.userinit, fun _ => 0, 1, fun _ => 1, fun _ => 0, fun _ => false, []⟩

/-- No process gets the number that `wait` returns for a failure. -/
def Numbered : Event → Family → Prop
  | .forkAlloc _, w => w.table.nextpid ≠ -1
  | _, _ => True

instance : (event : Event) → (w : Family) → Decidable (Numbered event w)
  | .forkAlloc _, w => inferInstanceAs (Decidable (w.table.nextpid ≠ -1))
  | .forkFail _, _ | .forkFinish _, _ | .exit _, _ | .wait _, _ | .kill _, _ | .schedule _, _
  | .yield _, _ | .sleep .., _ | .wakeup _, _ => isTrue trivial

end Family

def Table.Used (t : Table) (p : Mem.Slot) : Prop := (t.proc p).state ≠ .unused

structure Lives (w : Family) : Prop where
  fresh : ∀ p, w.table.Used p → w.life p < w.born
  distinct : ∀ p q, w.table.Used p → w.table.Used q → w.life p = w.life q → p = q
  number : ∀ p, w.table.Used p → (w.table.proc p).pid = w.pid (w.life p)
  exited : ∀ p, w.table.Used p → (w.exited (w.life p) = true ↔ (w.table.proc p).state = .zombie)
  later : ∀ l, w.born ≤ l → w.exited l = false
  making : ∀ cur p, (w.table.proc cur).np = some p → w.maker (w.life p) = w.life cur
  parent : ∀ p q, (w.table.proc p).parent = some q → w.life q = w.maker (w.life p) ∨
    w.exited (w.maker (w.life p)) = true ∧ q = w.table.initproc
  gone : ∀ l, w.exited l = true → (∀ p, w.table.Used p → w.life p ≠ l) → w.returned.count l = 1
  kept : ∀ l, (w.exited l = false ∨ ∃ p, w.table.Used p ∧ w.life p = l) → w.returned.count l = 0
  named : ∀ l, l < w.born → w.pid l ≠ -1

namespace Lives

variable {w : Family} (lives : Lives w)

include lives

variable {t' : Table} {cur p : Mem.Slot}

theorem goes (init : t'.initproc = w.table.initproc) (goes : ∀ p, Goes (w.table.proc p)
    (t'.proc p)) : Lives { w with table := t' } := by
  have used (p : Mem.Slot) : t'.Used p ↔ w.table.Used p := not_congr (goes p).unused_iff
  refine ⟨fun p => ?_, fun p q => ?_, fun p => ?_, fun p => ?_, lives.later, fun cur p => ?_,
    fun p q => ?_, fun l exited none' => ?_, fun l => ?_, lives.named⟩
  · rw [used]
    exact lives.fresh p
  · rw [used, used]
    exact lives.distinct p q
  · rw [used, (goes p).pid]
    exact lives.number p
  · rw [used, (goes p).zombie_iff]
    exact lives.exited p
  · rw [(goes cur).np]
    exact lives.making cur p
  · rw [(goes p).parent, init]
    exact lives.parent p q
  · exact lives.gone l exited fun p inUse => none' p ((used p).mpr inUse)
  · simp only [used]
    exact lives.kept l

theorem alloc (kin : w.table.Kin) {child : Entry} (forks : Forks w.table t' cur p child (some p))
    (unused : (w.table.proc p).state = .unused) (embryo : child.state = .embryo)
    (noParent : child.parent = none) (noChild : child.np = none) (pid : child.pid ≠ -1) :
    Lives { w with
      table := t'
      life := Function.update w.life p w.born
      born := w.born + 1
      pid := Function.update w.pid w.born child.pid
      maker := Function.update w.maker w.born (w.life cur) } := by
  have used {q : Mem.Slot} (old : q ≠ p) : t'.Used q ↔ w.table.Used q := by
    rw [Table.Used, (forks.goes old).2.1, Table.Used]
  have before {q : Mem.Slot} (inUse : w.table.Used q) : q ≠ p := by
    rintro rfl
    exact inUse unused
  have life {q : Mem.Slot} (old : q ≠ p) : Function.update w.life p w.born q = w.life q :=
    Function.update_of_ne old ..
  have earlier {q : Mem.Slot} (inUse : w.table.Used q) : w.life q ≠ w.born :=
    Nat.ne_of_lt (lives.fresh q inUse)
  have own : Function.update w.life p w.born p = w.born := Function.update_self ..
  have aliveUsed {q : Mem.Slot} (alive : (w.table.proc q).Alive) : w.table.Used q := alive.used.1
  refine ⟨fun q inUse => ?_, fun q a first second same => ?_, fun q inUse => ?_, fun q inUse => ?_,
    fun l later => lives.later l (Nat.le_of_succ_le later), fun a q np => ?_, fun q a parent => ?_,
    fun l exited none' => ?_, fun l here => ?_, fun l before' => ?_⟩
  · dsimp only
    by_cases new : q = p
    · rw [new, own]
      exact Nat.lt_succ_self _
    · rw [life new]
      exact Nat.lt_succ_of_lt (lives.fresh q ((used new).mp inUse))
  · dsimp only at same
    by_cases new : q = p
    · by_cases new' : a = p
      · rw [new, new']
      · rw [new, own, life new'] at same
        exact absurd same.symm (earlier ((used new').mp second))
    · by_cases new' : a = p
      · rw [new', own, life new] at same
        exact absurd same (earlier ((used new).mp first))
      · rw [life new, life new'] at same
        exact lives.distinct q a ((used new).mp first) ((used new').mp second) same
  · dsimp only
    by_cases new : q = p
    · rw [new, own, Function.update_self, forks.made]
    · have old := (used new).mp inUse
      rw [life new, Function.update_of_ne (earlier old), (forks.goes new).2.2.2]
      exact lives.number q old
  · dsimp only
    by_cases new : q = p
    · rw [new, own, forks.made, embryo, lives.later _ (Nat.le_refl _)]
      decide
    · rw [life new, (forks.goes new).2.1]
      exact lives.exited q ((used new).mp inUse)
  · dsimp only at np ⊢
    by_cases isCur : a = cur
    · rw [isCur, forks.own] at np
      cases np
      rw [own, Function.update_self, isCur, life forks.other]
    · have old : a ≠ p := by
        rintro rfl
        rw [forks.made, noChild] at np
        cases np
      rw [forks.rest a old isCur] at np
      have child := (kin.making a q np).1
      have inUse : w.table.Used q := by
        rw [Table.Used, child]
        nofun
      rw [life (before inUse), life old, Function.update_of_ne (earlier inUse)]
      exact lives.making a q np
  · dsimp only at parent ⊢
    by_cases new : q = p
    · rw [new, forks.made, noParent] at parent
      cases parent
    · rw [(forks.goes new).1] at parent
      have alive := kin.parent q a parent
      have inUse : w.table.Used q := by
        intro free
        rw [kin.unborn q (.inl free)] at parent
        cases parent
      rw [life new, life (before (aliveUsed alive)), Function.update_of_ne (earlier inUse), forks.init]
      exact lives.parent q a parent
  · refine lives.gone l exited fun q inUse => ?_
    rw [← life (before inUse)]
    exact none' q ((used (before inUse)).mpr inUse)
  · rcases here with alive | ⟨q, inUse, same⟩
    · exact lives.kept l (.inl alive)
    · dsimp only at inUse same
      by_cases new : q = p
      · rw [new, own] at same
        exact lives.kept l (.inl (lives.later l (Nat.le_of_eq same)))
      · rw [life new] at same
        exact lives.kept l (.inr ⟨q, (used new).mp inUse, same⟩)
  · dsimp only at before' ⊢
    by_cases new : l = w.born
    · rw [new, Function.update_self]
      exact pid
    · rw [Function.update_of_ne new]
      exact lives.named l (by omega)

/-- The child of a `fork` dies unborn, or begins to run. -/
theorem endFork {child : Entry} (forks : Forks w.table t' cur p child none)
    (embryo : (w.table.proc p).state = .embryo) (alive : child.state ≠ .zombie)
    (noChild : child.np = none) (pid : child.pid = (w.table.proc p).pid)
    (parent : ∀ q, child.parent = some q → w.life q = w.maker (w.life p)) :
    Lives { w with table := t' } := by
  have pUsed : w.table.Used p := by
    rw [Table.Used, embryo]
    nofun
  have used {q : Mem.Slot} (inUse : t'.Used q) : w.table.Used q := by
    by_cases own : q = p
    · rw [own]
      exact pUsed
    · rw [Table.Used, ← (forks.goes own).2.1]
      exact inUse
  have unexited : w.exited (w.life p) = false := by
    rw [Bool.eq_false_iff, ne_eq, lives.exited p pUsed, embryo]
    nofun
  refine ⟨fun q inUse => lives.fresh q (used inUse),
    fun q a first second => lives.distinct q a (used first) (used second), fun q inUse => ?_,
    fun q inUse => ?_, lives.later, fun a q np => ?_, fun q a parent' => ?_, fun l exited none' => ?_,
    fun l here => ?_, lives.named⟩
  · rw [← lives.number q (used inUse)]
    by_cases own : q = p
    · rw [own, forks.made]
      exact pid
    · exact (forks.goes own).2.2.2
  · rw [lives.exited q (used inUse)]
    by_cases own : q = p
    · rw [own, forks.made, embryo]
      exact iff_of_false nofun alive
    · rw [(forks.goes own).2.1]
  · by_cases isCur : a = cur
    · rw [isCur, forks.own] at np
      cases np
    by_cases own : a = p
    · rw [own, forks.made, noChild] at np
      cases np
    · rw [forks.rest a own isCur] at np
      exact lives.making a q np
  · by_cases own : q = p
    · rw [own, forks.made] at parent'
      rw [own]
      exact .inl (parent a parent')
    · rw [(forks.goes own).1] at parent'
      rw [forks.init]
      exact lives.parent q a parent'
  · refine lives.gone l exited fun q inUse same => ?_
    by_cases own : q = p
    · subst own
      subst same
      rw [unexited] at exited
      cases exited
    · refine none' q ?_ same
      rw [Table.Used, (forks.goes own).2.1]
      exact inUse
  · exact lives.kept l (here.imp id fun ⟨q, inUse, same⟩ => ⟨q, used inUse, same⟩)

theorem exit (running : (w.table.proc cur).state = .running) : Lives { w with
      table := w.table.exit cur
      exited := Function.update w.exited (w.life cur) true } := by
  have used (q : Mem.Slot) : (w.table.exit cur).Used q ↔ w.table.Used q :=
    not_congr (exit_unborn running).1
  have curUsed : w.table.Used cur := by
    rw [Table.Used, running]
    nofun
  have still {l : Nat} (exited : w.exited l = true) :
      Function.update w.exited (w.life cur) true l = true := by
    by_cases own : l = w.life cur
    · rw [own, Function.update_self]
    · rw [Function.update_of_ne own]
      exact exited
  refine ⟨fun q inUse => lives.fresh q ((used q).mp inUse),
    fun q a first second => lives.distinct q a ((used q).mp first) ((used a).mp second),
    fun q inUse => ?_, fun q inUse => ?_, fun l later => ?_, fun a q np => ?_, fun q a parent => ?_,
    fun l exited none' => ?_, fun l here => ?_, lives.named⟩
  · dsimp only
    rw [(exit_proc w.table cur q).pid]
    exact lives.number q ((used q).mp inUse)
  · have old := (used q).mp inUse
    dsimp only
    by_cases own : q = cur
    · rw [own, Function.update_self, (exit_proc w.table cur cur).own rfl]
      decide
    · have apart : w.life q ≠ w.life cur := fun same => own (lives.distinct q cur old curUsed same)
      rw [Function.update_of_ne apart, (exit_proc w.table cur q).dead (.inr (.inr rfl)) own]
      exact lives.exited q old
  · dsimp only at later ⊢
    have apart : l ≠ w.life cur := by
      have := lives.fresh cur curUsed
      omega
    rw [Function.update_of_ne apart]
    exact lives.later l later
  · dsimp only at np
    rw [(exit_proc w.table cur a).np] at np
    exact lives.making a q np
  · dsimp only at parent ⊢
    rw [(exit_proc w.table cur q).parent] at parent
    have init : (w.table.exit cur).initproc = w.table.initproc := exit_initproc w.table cur
    rw [init]
    split at parent
    · rename_i child
      cases parent
      refine .inr ⟨?_, rfl⟩
      rcases lives.parent q cur child with own | ⟨exited, _⟩
      · rw [← own, Function.update_self]
      · exact still exited
    · exact (lives.parent q a parent).imp id fun ⟨exited, same⟩ => ⟨still exited, same⟩
  · dsimp only at exited
    have apart : l ≠ w.life cur := by
      rintro rfl
      exact none' cur ((used cur).mpr curUsed) rfl
    rw [Function.update_of_ne apart] at exited
    exact lives.gone l exited fun q inUse => none' q ((used q).mpr inUse)
  · refine lives.kept l (here.imp (fun alive => ?_) fun ⟨q, inUse, same⟩ =>
      ⟨q, (used q).mp inUse, same⟩)
    rw [Bool.eq_false_iff] at alive ⊢
    exact fun exited => alive (still exited)

theorem reap (zombie : (w.table.proc p).state = .zombie) :
    Lives { w with table := w.table.reap p, returned := w.returned ++ [w.life p] } := by
  have pUsed : w.table.Used p := by
    rw [Table.Used, zombie]
    nofun
  have self : (w.table.reap p).proc p = { w.table.proc p with
      state := .unused, pid := 0, parent := none, killed := false } := Table.set_proc_self ..
  have rest {q : Mem.Slot} (other : q ≠ p) : (w.table.reap p).proc q = w.table.proc q :=
    Table.set_proc_other _ _ other
  have used {q : Mem.Slot} : (w.table.reap p).Used q ↔ q ≠ p ∧ w.table.Used q := by
    by_cases own : q = p
    · rw [own, Table.Used, self]
      simp
    · rw [Table.Used, rest own, Table.Used]
      simp [own]
  have exited : w.exited (w.life p) = true := (lives.exited p pUsed).mpr zombie
  refine ⟨fun q inUse => lives.fresh q (used.mp inUse).2,
    fun q a first second => lives.distinct q a (used.mp first).2 (used.mp second).2,
    fun q inUse => ?_, fun q inUse => ?_, lives.later, fun a q np => ?_, fun q a parent => ?_,
    fun l exited' none' => ?_, fun l here => ?_, lives.named⟩
  · dsimp only
    rw [rest (used.mp inUse).1]
    exact lives.number q (used.mp inUse).2
  · dsimp only
    rw [rest (used.mp inUse).1]
    exact lives.exited q (used.mp inUse).2
  · dsimp only at np
    by_cases own : a = p
    · rw [own, self] at np
      rw [own]
      exact lives.making p q np
    · rw [rest own] at np
      exact lives.making a q np
  · dsimp only at parent
    by_cases own : q = p
    · rw [own, self] at parent
      cases parent
    · rw [rest own] at parent
      exact lives.parent q a parent
  · dsimp only
    rw [List.count_append, List.count_singleton]
    by_cases own : w.life p = l
    · rw [lives.kept l (.inr ⟨p, pUsed, own⟩), own, beq_self_eq_true, if_pos rfl]
    · rw [lives.gone l exited' fun q inUse => ?_, if_neg (by simpa using own)]
      by_cases isP : q = p
      · rw [isP]
        exact own
      · exact none' q (used.mpr ⟨isP, inUse⟩)
  · dsimp only at here ⊢
    have own : w.life p ≠ l := by
      rintro rfl
      rcases here with alive | ⟨q, inUse, same⟩
      · rw [exited] at alive
        cases alive
      · exact (used.mp inUse).1 (lives.distinct q p (used.mp inUse).2 pUsed same)
    rw [List.count_append, List.count_singleton, if_neg (by simpa using own),
      lives.kept l (here.imp id fun ⟨q, inUse, same⟩ => ⟨q, (used.mp inUse).2, same⟩)]

theorem step {event : Event} {w' : Family} (kin : w.table.Kin) (numbered : w.Numbered event)
    (taken : w.step event = some w') : w'.table.Kin ∧ Lives w' := by
  obtain ⟨t', moved, rfl⟩ := Option.map_eq_some_iff.mp taken
  have happens := happens_of_step kin moved
  refine ⟨kin.happens happens, ?_⟩
  cases happens with
  | goes init goes waiting alloc exit wait =>
    have quiet : w.record event = w := by
      cases event with
      | forkAlloc cur => simp only [Family.record, alloc cur rfl]
      | exit cur => exact absurd rfl (exit cur)
      | wait cur => simp only [Family.record, wait cur rfl]
      | _ => rfl
    rw [quiet]
    exact lives.goes init goes
  | @alloc cur p t₁ running found =>
    have unused := (Table.allocproc_some found).1
    simp only [Family.record, found]
    exact lives.alloc kin (forks_alloc running found) unused rfl (kin.unborn p (.inl unused))
      (kin.np_none (.inl unused)) numbered
  | @fail cur p running np =>
    have embryo := (kin.making cur p np).1
    refine lives.endFork (forks_end kin running np _) embryo nofun (kin.np_none (.inr embryo))
      rfl fun q parent => ?_
    rw [show _ = none from kin.unborn p (.inr embryo)] at parent
    cases parent
  | @finish cur p running np =>
    have embryo := (kin.making cur p np).1
    refine lives.endFork (forks_end kin running np _) embryo nofun (kin.np_none (.inr embryo))
      rfl fun q parent => ?_
    cases parent
    exact (lives.making cur p np).symm
  | exit running => exact lives.exit running
  | reap running found =>
    simp only [Family.record, found]
    exact lives.reap (Table.zombieChild_some found).2

end Lives

/-- What a round of `wait` returns, if it returns. -/
def Waited.value : Table.Waited → Option Int
  | .pid n => some n
  | .noChild => some (-1)
  | .sleeps => none

/-- What is said about a step: `wait` returns -1 only without children or when
killed; otherwise it returns the pid of an exited process that no call has
returned before, to its parent, or to `init` if the parent has exited. -/
def Family.Proper : Event → Family → Prop
  | .wait cur, w => w.table.idle cur = true → (Waited.value (w.table.wait cur).1 = some (-1) →
        (∀ p, (w.table.proc p).parent ≠ some cur) ∨ (w.table.proc cur).killed = true) ∧
      ∀ p, w.table.zombieChild cur = some p →
        Waited.value (w.table.wait cur).1 = some (w.pid (w.life p)) ∧
          w.exited (w.life p) = true ∧ w.life p ∉ w.returned ∧
          if w.exited (w.maker (w.life p)) then cur = w.table.initproc
          else w.life cur = w.maker (w.life p)
  | _, _ => True

/-- What is said about a state. -/
structure Family.Settled (w : Family) : Prop where
  /-- Who has exited is a zombie that no `wait` has returned, or one call has returned it. -/
  once : ∀ l, w.exited l = true → w.returned.count l =
    if ∃ p, (w.table.proc p).state = .zombie ∧ w.life p = l then 0 else 1
  /-- Nobody else has been returned. -/
  only : ∀ l ∈ w.returned, w.exited l = true
  /-- A zombie has a living parent whose next `wait` returns a child. -/
  heard : ∀ p, (w.table.proc p).state = .zombie → ∃ q n, (w.table.proc p).parent = some q ∧
    (w.table.proc q).Alive ∧ (w.table.wait q).1 = .pid n
  /-- Nobody sleeps in `wait` while a child is a zombie. -/
  awake : ∀ p q, (w.table.proc p).state = .sleeping → (w.table.proc p).chan = some (.proc q) →
    ∀ c, (w.table.proc c).parent = some p → (w.table.proc c).state ≠ .zombie

theorem Lives.proper {event : Event} {w : Family} (lives : Lives w) : w.Proper event := by
  cases event with
  | wait cur =>
    intro idle
    have running : (w.table.proc cur).state = .running := (of_decide_eq_true idle).1
    refine ⟨?_, fun p found => ?_⟩
    · rw [Table.wait_eq]
      cases found : w.table.zombieChild cur with
      | some p =>
        have zombie := (Table.zombieChild_some found).2
        have used : w.table.Used p := by
          rw [Table.Used, zombie]
          nofun
        intro failed
        rw [Waited.value, lives.number p used] at failed
        exact absurd (Option.some.inj failed) (lives.named _ (lives.fresh p used))
      | none =>
        dsimp only
        split
        · rename_i reason
          exact fun _ => reason
        · nofun
    · obtain ⟨parent, zombie⟩ := Table.zombieChild_some found
      have used : w.table.Used p := by
        rw [Table.Used, zombie]
        nofun
      refine ⟨?_, (lives.exited p used).mpr zombie, ?_, ?_⟩
      · rw [Table.wait_eq, found, Waited.value, lives.number p used]
      · exact List.count_eq_zero.mp (lives.kept _ (.inr ⟨p, used, rfl⟩))
      · have curUsed : w.table.Used cur := by
          rw [Table.Used, running]
          nofun
        rcases lives.parent p cur parent with own | ⟨exited, heir⟩
        · rw [← own, if_neg]
          rw [lives.exited cur curUsed, running]
          nofun
        · rw [if_pos exited]
          exact heir
  | _ => trivial

theorem Lives.settled {w : Family} (lives : Lives w) (kin : w.table.Kin) : w.Settled := by
  have inUse {p : Mem.Slot} (zombie : (w.table.proc p).state = .zombie) : w.table.Used p := by
    rw [Table.Used, zombie]
    nofun
  refine ⟨fun l exited => ?_, fun l member => ?_, fun p zombie => ?_, fun p q asleep chan =>
    (kin.waiting p q asleep chan).2⟩
  · split
    · rename_i here
      obtain ⟨p, zombie, same⟩ := here
      exact lives.kept l (.inr ⟨p, inUse zombie, same⟩)
    · rename_i gone
      refine lives.gone l exited fun p used same => gone ⟨p, ?_, same⟩
      exact (lives.exited p used).mp (same ▸ exited)
  · by_contra alive
    have none' := lives.kept l (.inl (Bool.eq_false_iff.mpr alive))
    exact List.count_eq_zero.mp none' member
  · have notInit : p ≠ w.table.initproc := by
      rintro rfl
      exact kin.init.used.2.2 zombie
    obtain ⟨q, parent⟩ := Option.ne_none_iff_exists'.mp
      (kin.child p (inUse zombie) (by rw [zombie]; nofun) notInit)
    cases found : w.table.zombieChild q with
    | none => exact absurd zombie (Table.zombieChild_none found p parent)
    | some c => exact ⟨q, _, parent, kin.parent p q parent, by rw [Table.wait_eq, found]⟩

theorem boot_table : ∀ p, (Family.boot.table.Used p → p = 0) ∧
    (Family.boot.table.proc p).np = none ∧ (Family.boot.table.proc p).parent = none ∧
    (Family.boot.table.proc p).state ≠ .sleeping := by
  unfold Table.Used
  decide +kernel

theorem boot_used (p : Mem.Slot) : Family.boot.table.Used p → p = 0 := (boot_table p).1

theorem boot_np (p : Mem.Slot) : (Family.boot.table.proc p).np = none := (boot_table p).2.1

theorem boot_parent (p : Mem.Slot) : (Family.boot.table.proc p).parent = none := (boot_table p).2.2.1

theorem kin_boot : Family.boot.table.Kin where
  unborn p _ := boot_parent p
  making cur p np := absurd ((boot_np cur).symm.trans np) nofun
  maker a b p np _ := absurd ((boot_np a).symm.trans np) nofun
  init := by decide
  root := boot_parent _
  apart p parent := absurd ((boot_parent p).symm.trans parent) nofun
  parent p q parent := absurd ((boot_parent p).symm.trans parent) nofun
  child p used _ other := absurd (boot_used p used) other
  waiting p q asleep _ := absurd asleep (boot_table p).2.2.2

theorem lives_boot : Lives Family.boot := by
  refine ⟨fun _ _ => Nat.zero_lt_one, fun p q one two _ => (boot_used p one).trans (boot_used q two).symm,
    fun p used => ?_, fun p used => ?_, fun _ _ => rfl, fun cur p np => ?_, fun p q parent => ?_, nofun,
    fun _ _ => rfl, fun _ _ => by change (1 : Int) ≠ -1; decide⟩
  · rw [boot_used p used]
    rfl
  · rw [boot_used p used]
    decide
  · rw [boot_np] at np
    cases np
  · rw [boot_parent] at parent
    cases parent

/-- In every run in which no process gets the number -1, every child is reaped
once, by its parent or by `init`, and nobody sleeps in `wait` beside a zombie. -/
theorem reaped_once (events : List Event)
    (numbered : Transition.Along Family.step Family.Numbered events Family.boot) :
    Transition.Along Family.step Family.Proper events Family.boot ∧
      ∀ w, Transition.run Family.step events Family.boot = some w → w.Settled := by
  have keep (event : Event) (w w' : Family) (numbered : w.Numbered event)
      (both : w.table.Kin ∧ Lives w) (taken : w.step event = some w') : w'.table.Kin ∧ Lives w' :=
    both.2.step both.1 numbered taken
  have start : Family.boot.table.Kin ∧ Lives Family.boot := ⟨kin_boot, lives_boot⟩
  refine ⟨numbered.of_invariant keep (fun _ _ _ both => both.2.proper) start, fun w ran => ?_⟩
  have both := Transition.run_preserves keep start numbered ran
  exact both.2.settled both.1

/-- A child that its parent leaves behind exits and is reaped by `init`. -/
theorem reaped_once_orphan : ∃ w, Transition.run Family.step [.schedule 0, .forkAlloc 0,
    .forkFinish 0, .schedule 1, .forkAlloc 1, .forkFinish 1, .schedule 2, .wait 0, .exit 2, .exit 1,
    .schedule 0, .wait 0, .wait 0] Family.boot = some w ∧ w.returned = [1, 2] ∧ w.Settled := by
  let events : List Event := [.schedule 0, .forkAlloc 0,
    .forkFinish 0, .schedule 1, .forkAlloc 1, .forkFinish 1, .schedule 2, .wait 0, .exit 2, .exit 1,
    .schedule 0, .wait 0, .wait 0]
  have ends : (Transition.run Family.step events Family.boot).any fun w => w.returned = [1, 2] := by
    decide +kernel
  obtain ⟨w, ran, returned⟩ := (Option.any_eq_true _ _).mp ends
  exact ⟨w, ran, of_decide_eq_true returned, (reaped_once events (by decide +kernel)).2 w ran⟩

/-- Whatever forks, exits, waits and kills there have been: `init` is alive, every process that
has been set up has a parent, which is alive, no two forks make the same child, and nobody sleeps
in `wait` beside a dead child. -/
theorem family_kept (events : List Event) (t : Table)
    (ran : Transition.run Table.step events Table.zero.userinit = some t) :
    (t.proc t.initproc).Alive ∧ (∀ p, (t.proc p).state ≠ .unused → (t.proc p).state ≠ .embryo →
      p ≠ t.initproc → ∃ q, (t.proc p).parent = some q ∧ (t.proc q).Alive) ∧
      (∀ a b p, (t.proc a).np = some p → (t.proc b).np = some p → a = b) ∧
      ∀ p c, (t.proc p).state = .sleeping → (t.proc p).chan = some (.proc p) →
        (t.proc c).parent = some p → (t.proc c).state ≠ .zombie := by
  have kin : t.Kin := Transition.run_preserves (C := fun _ _ => True)
    (fun _ _ _ _ kin taken => kin.happens (happens_of_step kin taken)) kin_boot
    (.of_forall (fun _ _ _ => trivial) _) ran
  refine ⟨kin.init, fun p used born other => ?_, kin.maker, fun p c asleep chan =>
    (kin.waiting p p asleep chan).2 c⟩
  obtain ⟨q, parent⟩ := Option.ne_none_iff_exists'.mp (kin.child p used born other)
  exact ⟨q, parent, kin.parent p q parent⟩

theorem family_kept_child : ∃ t,
    Transition.run Table.step [.schedule 0, .forkAlloc 0, .forkFinish 0] Table.zero.userinit =
      some t ∧ (t.proc t.initproc).Alive :=
  ⟨_, rfl, (family_kept [.schedule 0, .forkAlloc 0, .forkFinish 0] _ rfl).1⟩

/-- The child of `init` that forks. -/
def forker : Entry := ⟨.running, 2, some 0, false, none, none⟩

/-- A slot that a fork gave up: the number stays. -/
def vacant (n : Int) : Entry := ⟨.unused, n, none, false, none, none⟩

def pair (a b : Entry) (n : Int) : Table :=
  ⟨fun p => if p = 0 then ⟨.runnable, 1, none, false, none, none⟩ else if p = 1 then a
    else if p = 2 then b else vacant 0, n, 0⟩

namespace pair

variable {a b e : Entry} {n : Int}

theorem set_one : (pair a b n).set 1 e = pair e b n := by
  have apart : (1 : Mem.Slot) ≠ 0 := by decide
  refine Table.ext ?_ rfl rfl
  funext p
  by_cases one : p = 1
  · simp only [pair, Table.set, one, Function.update_self, if_true, if_neg apart]
  · simp [pair, Table.set, one]

theorem set_two : (pair a b n).set 2 e = pair a e n := by
  have first : (2 : Mem.Slot) ≠ 0 := by decide
  have second : (2 : Mem.Slot) ≠ 1 := by decide
  refine Table.ext ?_ rfl rfl
  funext p
  by_cases two : p = 2
  · simp only [pair, Table.set, two, Function.update_self, if_true, if_neg first, if_neg second]
  · simp [pair, Table.set, two]

theorem all {P : Entry → Prop} (init : P ⟨.runnable, 1, none, false, none, none⟩) (first : P a)
    (second : P b) (others : P (vacant 0)) (p : Mem.Slot) : P ((pair a b n).proc p) := by
  unfold pair
  dsimp only
  split
  · exact init
  · split
    · exact first
    · split
      · exact second
      · exact others

theorem wakeup1 {chan : Option Chan} (first : a.state ≠ .sleeping) (second : b.state ≠ .sleeping) :
    (pair a b n).wakeup1 chan = pair a b n := by
  refine Table.ext ?_ rfl rfl
  funext p
  exact if_neg fun asleep =>
    all (P := fun e => e.state ≠ .sleeping) (by decide) first second (by decide) p asleep.1

theorem passChildren (first : a.parent ≠ some 2) (second : b.parent ≠ some 2) :
    (pair a b n).passChildren 2 = pair a b n := by
  have none' := all (a := a) (b := b) (n := n) (P := fun e => e.parent ≠ some 2) (by decide) first
    second (by decide)
  unfold Table.passChildren
  rw [if_neg fun ⟨p, child, _⟩ => none' p child]
  refine Table.ext ?_ rfl rfl
  funext p
  exact if_neg (none' p)

/-- `fork` takes the next number before it asks for memory. -/
theorem forkAlloc (k n : Int) : (pair forker (vacant k) n).step (.forkAlloc 1) = some (pair
    { forker with np := some 2 } ⟨.embryo, n, none, false, none, none⟩ (Table.wrap (n + 1))) := by
  have slot : (List.finRange NPROC).find?
      (fun p => ((pair forker (vacant k) n).proc p).state = .unused) = some 2 := rfl
  have found : (pair forker (vacant k) n).allocproc =
      (some 2, pair forker ⟨.embryo, n, none, false, none, none⟩ (Table.wrap (n + 1))) := by
    rw [Table.allocproc, slot]
    exact congrArg _ (pair.set_two (n := Table.wrap (n + 1)))
  have idle : (pair forker (vacant k) n).idle 1 = true := rfl
  rw [Table.step, if_pos idle, Table.forkAlloc, found]
  exact congrArg _ pair.set_one

end pair

def son (state : ProcState) (n : Int) : Entry := ⟨state, n, some 1, false, none, none⟩

/-- A fork that gets no memory. -/
def failing : List Event := [.forkAlloc 1, .forkFail 1]

theorem run_failing (k n : Int) : Transition.run Table.step failing (pair forker (vacant k) n) =
    some (pair forker (vacant n) (Table.wrap (n + 1))) := by
  let forking : Table := pair { forker with np := some 2 } ⟨.embryo, n, none, false, none, none⟩
    (Table.wrap (n + 1))
  have fail : forking.step (.forkFail 1) = some (pair forker (vacant n) (Table.wrap (n + 1))) := by
    have map : forking.step (.forkFail 1) = some (forking.forkFail 1 2) := rfl
    rw [map, Table.forkFail, Table.endFork, pair.set_two, pair.set_one]
    rfl
  rw [failing, Transition.run, pair.forkAlloc, Option.bind_some, Transition.run, fail,
    Option.bind_some, Transition.run]

/-- A fork whose child exits. -/
def bearing : List Event := [.forkAlloc 1, .forkFinish 1, .schedule 2, .exit 2]

theorem run_bearing (k n : Int) : Transition.run Table.step bearing (pair forker (vacant k) n) =
    some (pair forker (son .zombie n) (Table.wrap (n + 1))) := by
  let m := Table.wrap (n + 1)
  let forking : Table := pair { forker with np := some 2 } ⟨.embryo, n, none, false, none, none⟩ m
  have finish : forking.step (.forkFinish 1) = some (pair forker (son .runnable n) m) := by
    have map : forking.step (.forkFinish 1) = some (forking.forkFinish 1 2) := rfl
    rw [map, Table.forkFinish, Table.endFork, pair.set_two, pair.set_one]
    rfl
  have schedule : (pair forker (son .runnable n) m).step (.schedule 2) =
      some (pair forker (son .running n) m) := by
    have stored : (pair forker (son .runnable n) m).step (.schedule 2) =
        some ((pair forker (son .runnable n) m).set 2 (son .running n)) := rfl
    rw [stored, pair.set_two]
  have exit : (pair forker (son .running n) m).step (.exit 2) =
      some (pair forker (son .zombie n) m) := by
    have may : (pair forker (son .running n) m).idle 2 = true ∧
        2 ≠ (pair forker (son .running n) m).initproc := ⟨rfl, show (2 : Mem.Slot) ≠ 0 by decide⟩
    rw [Table.step, if_pos may, Table.exit,
      pair.wakeup1 (by decide) (show ProcState.running ≠ .sleeping by decide)]
    dsimp only
    rw [pair.passChildren (by decide) (show some (1 : Mem.Slot) ≠ some 2 by decide), pair.set_two]
    rfl
  rw [bearing, Transition.run, pair.forkAlloc, Option.bind_some, Transition.run, finish,
    Option.bind_some, Transition.run, schedule, Option.bind_some, Transition.run, exit,
    Option.bind_some, Transition.run]

theorem wait_son (n m : Int) : ((pair forker (son .zombie n) m).wait 1).1 = .pid n := by
  have found : (pair forker (son .zombie n) m).zombieChild 1 = some 2 := rfl
  simp only [Table.wait_eq, found]
  rfl

/-- `init` forks a process, which takes as many numbers as it tries to fork. -/
theorem run_attempts (count : Nat) : ∃ k, Transition.run Table.step
    ([.schedule 0, .forkAlloc 0, .forkFinish 0, .yield 0, .schedule 1] ++
      (List.replicate count failing).flatten) Table.zero.userinit =
      some (pair forker (vacant k) (Table.wrap (3 + count))) := by
  have start : Transition.run Table.step
      [.schedule 0, .forkAlloc 0, .forkFinish 0, .yield 0, .schedule 1] Table.zero.userinit =
        some (pair forker (vacant 0) 3) := by
    refine congrArg some (Table.ext ?_ rfl rfl)
    funext p
    revert p
    decide +kernel
  rw [Transition.run_append, start, Option.bind_some]
  induction count with
  | zero => exact ⟨0, rfl⟩
  | succ count ih =>
    obtain ⟨k, before⟩ := ih
    have next : Table.wrap (Table.wrap (3 + count) + 1) = Table.wrap (3 + (count + 1 : Nat)) := by
      rw [Table.wrap, Table.wrap, Table.wrap, Int.bmod_add_bmod, Nat.cast_succ, Int.add_assoc]
    refine ⟨Table.wrap (3 + count), ?_⟩
    rw [List.replicate_succ', List.flatten_append, List.flatten_singleton, Transition.run_append,
      before, Option.bind_some, run_failing, next]

/-- The number -1 is reached, and `wait` returns -1 for a child that it reaps. The forks
before it all fail, so that nothing of their children is left. -/
theorem wait_returns_minus_one : ∃ t, Transition.run Table.step
    ([.schedule 0, .forkAlloc 0, .forkFinish 0, .yield 0, .schedule 1] ++
      (List.replicate (2 ^ 32 - 4) failing).flatten ++ bearing) Table.zero.userinit = some t ∧
      Waited.value (t.wait 1).1 = some (-1) ∧ (t.proc 1).killed = false ∧
      (t.proc 2).parent = some 1 ∧ (t.proc 2).state = .zombie := by
  have number : Table.wrap (3 + ((2 ^ 32 - 4 : Nat) : Int)) = -1 := by decide
  obtain ⟨k, last⟩ := run_attempts (2 ^ 32 - 4)
  rw [number] at last
  refine ⟨pair forker (son .zombie (-1)) (Table.wrap (-1 + 1)), ?_, ?_, rfl, rfl, rfl⟩
  · rw [Transition.run_append, last, Option.bind_some, run_bearing]
  · rw [wait_son, Waited.value]

end SirpairOs.Proc
