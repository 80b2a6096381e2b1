import SirpairOs.Pipe.Fifo

/-! Sleepers and wakeups. A process that changes the pipe under somebody's sleep
owes a `wakeup` before it releases the lock. The exit of `pipewrite` for a killed
process is the one that does not pay. -/
namespace SirpairOs.Pipes

/-- Whoever sleeps on the channel has reason to. -/
def State.Calm (s : State) : Chan → Prop
  | .nread => s.pipe.empty = true ∧ s.pipe.writeopen = true
  | .nwrite => s.pipe.full = true ∧ s.pipe.readopen = true

/-- The holder of the lock will call `wakeup(chan)` before it releases it. -/
def Pc.Owes (chan : Chan) : Pc → Prop
  | .write _ _ _ => chan = .nread
  | .copy _ _ => chan = .nwrite
  | .wake c _ => chan = c
  | .waking c _ => chan = c
  | _ => False

/-- The holder of the lock has found reason to sleep on the channel. -/
def Pc.Tested (chan : Chan) : Pc → Prop
  | .wake _ (.full _ _ _) => chan = .nwrite
  | .waking _ (.full _ _ _) => chan = .nwrite
  | .sleep c _ => chan = c
  | .unlock c _ => chan = c
  | _ => False

def Pc.PtLocked : Pc → Prop
  | .waking _ _ => True
  | .unlock _ _ => True
  | .doze _ _ => True
  | _ => False

/-- The process is inside `pipewrite` and may still store bytes. -/
def Pc.Storing : Pc → Prop
  | .start (.write _ _) => True
  | pc => pc.pending ≠ none

def Sleep.chan : Sleep → Chan
  | write _ _ _ => .nwrite
  | read _ => .nread

/-- The process is `SLEEPING` on the channel or on its way there without the lock. -/
def State.Sleepy (s : State) (p : Nat) (chan : Chan) : Prop :=
  s.sleeping p = some chan ∨ ∃ next, s.pc p = .doze chan next

structure Woken (s : State) : Prop where
  pt : ∀ p, (s.pc p).PtLocked → s.ptlock = some p
  asleep : ∀ p chan, s.sleeping p = some chan → ∃ next, s.pc p = .sched next ∧ next.chan = chan
  dozing : ∀ p chan next, s.pc p = .sleep chan next ∨ s.pc p = .unlock chan next ∨
    s.pc p = .doze chan next → next.chan = chan
  waiting : ∀ p chan, s.Sleepy p chan → s.Calm chan ∨ ∃ q, s.lock = some q ∧ (s.pc q).Owes chan
  tested : ∀ p chan, (s.pc p).Tested chan → s.Calm chan
  alive : ∀ p, (s.pc p).Storing → s.killed p = false

/-- The calls and kills of a run in which no process is killed inside
`pipewrite`, nor enters it killed. -/
def Unharmed (act : Act) (s : State) : Prop :=
  Allowed act s ∧ match act with
    | .kill p => ¬ (s.pc p).Storing
    | .call p (.write _ _) => s.killed p = false
    | _ => True

theorem woken_pipealloc (data : Fin PIPESIZE → UInt8) (killed : Nat → Bool) :
    Woken (pipealloc data killed) where
  pt _ := nofun
  asleep _ _ := nofun
  dozing _ _ _ := by
    rintro (place | place | place) <;> cases place
  waiting _ _ := by
    rintro (asleep | ⟨_, place⟩)
    · cases asleep
    · cases place
  tested _ _ := nofun
  alive _ storing := absurd rfl storing

variable {chan : Chan} {pc : Pc} {s s' : State} {p : Nat}

theorem Pc.Tested.locked (tested : pc.Tested chan) : pc.Locked := by
  cases pc <;> trivial

theorem State.Calm.congr (pipe : s'.pipe = s.pipe) (calm : s.Calm chan) : s'.Calm chan := by
  cases chan <;> simpa only [State.Calm, pipe] using calm

theorem Woken.awake (woken : Woken s) (place : ∀ next, s.pc p ≠ .sched next) :
    s.sleeping p = none := by
  cases sleeping : s.sleeping p with
  | none => rfl
  | some chan =>
    obtain ⟨next, there, -⟩ := woken.asleep p chan sleeping
    exact absurd there (place next)

/-- Without anybody who owes a wakeup, sleepers have reason to sleep. -/
theorem Woken.calm (woken : Woken s) {q : Nat}
    (holder : s.lock = none ∨ s.lock = some p ∧ ¬ (s.pc p).Owes chan) (sleepy : s.Sleepy q chan) :
    s.Calm chan := by
  rcases woken.waiting q chan sleepy with calm | ⟨h, held, owes⟩
  · exact calm
  · rcases holder with free | ⟨mine, nothing⟩
    · rw [held] at free
      cases free
    · rw [held] at mine
      cases mine
      exact absurd owes nothing

/-- Process `p` moves on to `pc`; the pipe changes only if it may enter the lock.
One fact after the other, for the moving process and for the rest. -/
theorem Woken.advance (inv : Inv s) (woken : Woken s) (pcs : s'.pc = Function.update s.pc p pc)
    (killed : s'.killed = s.killed) (pipe : s'.pipe = s.pipe ∨ s.lock = none ∨ s.lock = some p)
    (pt : ∀ q, q ≠ p → (s.pc q).PtLocked → s'.ptlock = some q)
    (ptSelf : pc.PtLocked → s'.ptlock = some p) (asleep : ∀ q chan, s'.sleeping q = some chan →
      (q ≠ p ∧ s.sleeping q = some chan) ∨ (q = p ∧ ∃ next, pc = .sched next ∧ next.chan = chan))
    (dozing : ∀ chan next, pc = .sleep chan next ∨ pc = .unlock chan next ∨ pc = .doze chan next →
      next.chan = chan) (waiting : ∀ q chan, s'.Sleepy q chan →
      s'.Calm chan ∨ ∃ h, s'.lock = some h ∧ (s'.pc h).Owes chan)
    (tested : ∀ chan, pc.Tested chan → s'.Calm chan) (alive : pc.Storing → (s.pc p).Storing) :
    Woken s' := by
  have self : s'.pc p = pc := by rw [pcs, Function.update_self]
  have rest {q : Nat} (other : q ≠ p) : s'.pc q = s.pc q := by
    rw [pcs, Function.update_of_ne other]
  refine ⟨fun q locked => ?_, fun q chan sleeping => ?_, fun q chan next place => ?_, waiting,
    fun q chan test => ?_, fun q storing => ?_⟩
  · by_cases same : q = p
    · subst same
      exact ptSelf (self ▸ locked)
    · exact pt q same (rest same ▸ locked)
  · rcases asleep q chan sleeping with ⟨other, old⟩ | ⟨rfl, next, place, same⟩
    · rw [rest other]
      exact woken.asleep q chan old
    · rw [self]
      exact ⟨next, place, same⟩
  · by_cases same : q = p
    · subst same
      exact dozing chan next (self ▸ place)
    · exact woken.dozing q chan next (rest same ▸ place)
  · by_cases same : q = p
    · subst same
      exact tested chan (self ▸ test)
    · rw [rest same] at test
      have theirs := (inv.places q).lock test.locked
      -- `q` holds the lock, so `p` has not changed the pipe
      have pipe : s'.pipe = s.pipe := by
        refine pipe.resolve_right ?_
        rw [theirs]
        rintro (none' | mine)
        · cases none'
        · exact same (Option.some.inj mine)
      exact (woken.tested q chan test).congr pipe
  · rw [killed]
    by_cases same : q = p
    · subst same
      exact woken.alive q (alive (self ▸ storing))
    · exact woken.alive q (rest same ▸ storing)

/-- The process is not in `sched` or `doze` after the step, nor `SLEEPING` before. -/
theorem Woken.quiet (inv : Inv s) (woken : Woken s) (pcs : s'.pc = Function.update s.pc p pc)
    (killed : s'.killed = s.killed) (awake : s.sleeping p = none)
    (sleeping : s'.sleeping = s.sleeping)
    (pipe : s'.pipe = s.pipe ∨ s.lock = none ∨ s.lock = some p)
    (pt : s'.ptlock = s.ptlock ∨ s.ptlock = none) (ptSelf : pc.PtLocked → s'.ptlock = some p)
    (dozing : ∀ chan next, pc = .sleep chan next ∨ pc = .unlock chan next → next.chan = chan)
    (up : ∀ chan next, pc ≠ .doze chan next) (waiting : ∀ q chan, s.Sleepy q chan →
      s'.Calm chan ∨ ∃ h, s'.lock = some h ∧ (s'.pc h).Owes chan)
    (tested : ∀ chan, pc.Tested chan → s'.Calm chan) (alive : pc.Storing → (s.pc p).Storing) :
    Woken s' := by
  refine woken.advance inv pcs killed pipe (fun q other locked => ?_) ptSelf
    (fun q chan asleep => .inl ⟨?_, ?_⟩) (fun chan next place => ?_) (fun q chan sleepy => ?_)
    tested alive
  · have theirs := woken.pt q locked
    rcases pt with same | free
    · rw [same, theirs]
    · rw [free] at theirs
      cases theirs
  · rintro rfl
    rw [sleeping, awake] at asleep
    cases asleep
  · rwa [sleeping] at asleep
  · rcases place with place | place | place
    · exact dozing chan next (.inl place)
    · exact dozing chan next (.inr place)
    · exact absurd place (up chan next)
  · refine waiting q chan (sleepy.imp (fun asleep => sleeping ▸ asleep) fun ⟨next, place⟩ => ?_)
    by_cases same : q = p
    · subst same
      rw [pcs, Function.update_self] at place
      exact absurd place (up chan next)
    · rw [pcs, Function.update_of_ne same] at place
      exact ⟨next, place⟩

/-- A quiet step that leaves the pipe and its lock alone: what the process owed
it still owes. -/
theorem Woken.same (inv : Inv s) (woken : Woken s) (pcs : s'.pc = Function.update s.pc p pc)
    (awake : s.sleeping p = none) (pt : s'.ptlock = s.ptlock ∨ s.ptlock = none)
    (ptSelf : pc.PtLocked → s'.ptlock = some p)
    (dozing : ∀ chan next, pc = .sleep chan next ∨ pc = .unlock chan next → next.chan = chan)
    (up : ∀ chan next, pc ≠ .doze chan next)
    (owes : ∀ q chan, s.Sleepy q chan → (s.pc p).Owes chan → pc.Owes chan)
    (tested : ∀ chan, pc.Tested chan → s.Calm chan) (alive : pc.Storing → (s.pc p).Storing)
    (killed : s'.killed = s.killed := by rfl) (sleeping : s'.sleeping = s.sleeping := by rfl)
    (pipe : s'.pipe = s.pipe := by rfl) (lock : s'.lock = s.lock := by rfl) : Woken s' := by
  refine woken.quiet inv pcs killed awake sleeping (.inl pipe) pt ptSelf dozing up
    (fun q chan sleepy => ?_) (fun chan test => (tested chan test).congr pipe) alive
  rcases woken.waiting q chan sleepy with calm | ⟨h, held, due⟩
  · exact .inl (calm.congr pipe)
  · refine .inr ⟨h, lock ▸ held, ?_⟩
    by_cases same : h = p
    · subst same
      rw [pcs, Function.update_self]
      exact owes q chan sleepy due
    · rwa [pcs, Function.update_of_ne same]

/-- Who sleeps on `nread` is inside `piperead`. -/
theorem Woken.inRead (woken : Woken s) {q : Nat} (sleepy : s.Sleepy q .nread) :
    (s.pc q).InRead := by
  rcases sleepy with asleep | ⟨next, place⟩
  · obtain ⟨next, place, same⟩ := woken.asleep q _ asleep
    rw [place]
    cases next with
    | write => cases same
    | read => trivial
  · have same := woken.dozing q _ next (.inr (.inr place))
    rw [place]
    cases next with
    | write => cases same
    | read => trivial

/-- The process takes the lock and may change the pipe: it owes what it disturbs. -/
theorem Woken.locks (inv : Inv s) (woken : Woken s) (pcs : s'.pc = Function.update s.pc p pc)
    (killed : s'.killed = s.killed) (awake : s.sleeping p = none)
    (sleeping : s'.sleeping = s.sleeping) (free : s.lock = none) (held : s'.lock = some p)
    (ptlock : s'.ptlock = s.ptlock)
    (place : ¬ pc.PtLocked ∧ (∀ chan next, pc ≠ .sleep chan next) ∧ ∀ chan, ¬ pc.Tested chan)
    (owes : ∀ chan, s.Calm chan → s'.Calm chan ∨ pc.Owes chan)
    (alive : pc.Storing → (s.pc p).Storing) : Woken s' := by
  obtain ⟨noPt, noSleep, noTest⟩ := place
  refine woken.quiet inv pcs killed awake sleeping (.inr (.inl free)) (.inl ptlock)
    (fun locked => absurd locked noPt) (fun chan next there => ?_) (fun chan next there => ?_)
    (fun q chan sleepy => ?_) (fun chan test => absurd test (noTest chan)) alive
  · rcases there with rfl | rfl
    · exact absurd rfl (noSleep chan next)
    · exact absurd trivial noPt
  · subst there
    exact noPt trivial
  · refine (owes chan (woken.calm (p := p) (.inl free) sleepy)).imp_right fun due => ⟨p, held, ?_⟩
    rwa [pcs, Function.update_self]

theorem Woken.moves (inv : Inv s) (woken : Woken s) (moves : Moves p s s') : Woken s' := by
  have awake := woken.awake (p := p)
  have mine := (inv.places p).lock
  have calm {q : Nat} {chan : Chan} (holder : s.lock = none ∨ s.lock = some p ∧ ¬ (s.pc p).Owes chan)
      (sleepy : s.Sleepy q chan) : s.Calm chan := woken.calm holder sleepy
  cases moves with
  | lockWrite place free =>
    refine woken.locks inv rfl rfl (awake (by simp [place])) rfl free rfl rfl
      ⟨nofun, nofun, fun _ => nofun⟩ (fun chan calm => .inl (calm.congr rfl)) fun _ => ?_
    rw [place]
    trivial
  | lockRead place free =>
    exact woken.locks inv rfl rfl (awake (by simp [place])) rfl free rfl rfl
      ⟨nofun, nofun, fun _ => nofun⟩ (fun chan calm => .inl (calm.congr rfl))
      fun storing => absurd rfl storing
  | lockClose place free =>
    rename_i writable
    have sameRest : (State.close { s with lock := some p } writable).killed = s.killed ∧
        (State.close { s with lock := some p } writable).sleeping = s.sleeping ∧
        (State.close { s with lock := some p } writable).lock = some p ∧
        (State.close { s with lock := some p } writable).ptlock = s.ptlock ∧
        ((State.close { s with lock := some p } writable).goto p
          (.wake (closeChan writable) (.finish .closed))).pc =
          Function.update s.pc p (.wake (closeChan writable) (.finish .closed)) := by
      cases writable <;> exact ⟨rfl, rfl, rfl, rfl, rfl⟩
    obtain ⟨killed, sleeping, held, ptlock, pcs⟩ := sameRest
    refine woken.locks inv pcs killed (awake (by simp [place])) sleeping free held ptlock
      ⟨nofun, nofun, fun _ => nofun⟩ (fun chan calm => ?_) fun storing => absurd rfl storing
    cases writable <;> cases chan
    · exact .inl calm
    · exact .inr rfl
    · exact .inr rfl
    · exact .inl calm
  | store place more room =>
    rw [place] at mine
    refine woken.quiet inv rfl rfl (awake (by simp [place])) rfl (.inr (.inr (mine trivial)))
      (.inl rfl) nofun nofun nofun (fun q chan sleepy => ?_) (fun _ => nofun) fun _ => ?_
    · cases chan with
      | nread =>
        refine .inr ⟨p, mine trivial, ?_⟩
        rw [State.goto_pc_self]
        rfl
      | nwrite =>
        -- there is room, so nobody waits for it
        have full := (calm (.inr ⟨mine trivial, by rw [place]; nofun⟩) sleepy).1
        rw [room] at full
        cases full
    · rw [place]
      nofun
  | giveUp place more full why =>
    have storing : (s.pc p).Storing := by
      rw [place]
      nofun
    refine woken.same inv rfl (awake (by simp [place])) (.inl rfl) nofun nofun nofun
      (fun q chan sleepy owes => ?_) (fun _ => nofun) fun storing => absurd rfl storing
    rw [place] at owes
    subst owes
    -- the readers are gone: the writer itself is not killed
    have closed : s.pipe.readopen = false := by
      refine why.resolve_right ?_
      rw [woken.alive p storing]
      nofun
    have readers := (inv.places q).read (woken.inRead sleepy)
    rw [inv.readClosed closed] at readers
    cases readers
  | wakeReaders place full readers =>
    refine woken.same inv rfl (awake (by simp [place])) (.inl rfl) nofun nofun nofun
      (fun q chan sleepy owes => ?_) (fun chan test => ?_) fun _ => ?_
    · rwa [place] at owes
    · obtain rfl : chan = .nwrite := test
      exact ⟨full, readers⟩
    · rw [place]
      nofun
  | wroteAll place done | readKilled place | copied place done | free place =>
    refine woken.same inv rfl (awake (by simp [place])) (.inl rfl) nofun nofun nofun
      (fun q chan sleepy owes => ?_) (fun _ => nofun) fun storing => absurd rfl storing
    rwa [place] at owes
  | readSleep place empty writers =>
    refine woken.same inv rfl (awake (by simp [place])) (.inl rfl) nofun
      (fun chan next there => ?_) nofun (fun q chan sleepy owes => ?_) (fun chan test => ?_)
      fun storing => absurd rfl storing
    · rcases there with there | there <;> cases there
      rfl
    · rwa [place] at owes
    · obtain rfl : chan = .nread := test
      exact ⟨empty, writers⟩
  | readGo place ready =>
    refine woken.same inv rfl (awake (by simp [place])) (.inl rfl) nofun nofun nofun
      (fun q chan sleepy owes => ?_) (fun _ => nofun) fun storing => absurd rfl storing
    rw [place] at owes
    exact owes.elim
  | take place some =>
    rw [place] at mine
    refine woken.quiet inv rfl rfl (awake (by simp [place])) rfl (.inr (.inr (mine trivial)))
      (.inl rfl) nofun nofun nofun (fun q chan sleepy => ?_) (fun _ => nofun)
      fun storing => absurd rfl storing
    cases chan with
    | nread =>
      -- there is data, so nobody waits for it
      have empty := (calm (.inr ⟨mine trivial, by rw [place]; nofun⟩) sleepy).1
      rw [some] at empty
      cases empty
    | nwrite =>
      refine .inr ⟨p, mine trivial, ?_⟩
      rw [State.goto_pc_self]
      rfl
  | wake place free =>
    have tested := woken.tested p
    rw [place] at tested
    refine woken.same inv rfl (awake (by simp [place])) (.inr free) (fun _ => rfl)
      nofun nofun (fun q chan sleepy owes => ?_) (fun chan test => tested chan ?_) ?_
    · rwa [place] at owes
    · rename_i next
      cases next <;> exact test
    · rw [place]
      rename_i next
      cases next <;> exact id
  | waking place =>
    rename_i chan next
    have tested := woken.tested p
    rw [place] at tested mine
    have held := woken.pt p (by rw [place]; trivial)
    refine woken.advance inv rfl rfl (.inl rfl) (fun q other locked => ?_) (fun locked => ?_)
      (fun q chan' asleep => .inl ?_) (fun chan' sleep there => ?_) (fun q chan' sleepy => .inl ?_)
      (fun chan' test => ?_) ?_
    · -- only one process holds `ptable.lock`
      rw [woken.pt q locked] at held
      exact absurd (Option.some.inj held) other
    · cases next <;> exact locked.elim
    · have old : s.sleeping q = some chan' := by
        simp only [State.goto_sleeping, State.wakeup1] at asleep
        split at asleep
        · cases asleep
        · exact asleep
      refine ⟨?_, old⟩
      rintro rfl
      rw [awake (by simp [place])] at old
      cases old
    · cases next <;> rcases there with there | there | there <;> cases there
      rfl
    · -- whoever still sleeps does so on the other channel
      have old : s.sleeping q = some chan' ∧ chan ≠ chan' := by
        rcases sleepy with asleep | ⟨sleep, there⟩
        · simp only [State.goto_sleeping, State.wakeup1] at asleep
          split at asleep
          · cases asleep
          · rename_i stays
            exact ⟨asleep, fun same => stays (same ▸ asleep)⟩
        · by_cases same : q = p
          · subst same
            rw [State.goto_pc_self] at there
            cases next <;> cases there
          · rw [State.goto_pc_of_ne _ _ _ same] at there
            have theirs := woken.pt q (by rw [show s.pc q = _ from there]; trivial)
            rw [theirs] at held
            exact absurd (Option.some.inj held) same
      refine (calm (.inr ⟨mine trivial, ?_⟩) (.inl old.1)).congr rfl
      rw [place]
      exact fun same => old.2 same.symm
    · cases next with
      | full addr n bytes => exact (tested chan' test).congr rfl
      | finish result => exact test.elim
    · rw [place]
      cases next <;> exact id
  | finish place | finishFree place closed closed' =>
    rw [place] at mine
    refine woken.quiet inv rfl rfl (awake (by simp [place])) rfl (.inl rfl) (.inl rfl) nofun nofun
      nofun (fun q chan sleepy => .inl ?_) (fun _ => nofun) fun storing => absurd rfl storing
    exact calm (.inr ⟨mine trivial, by rw [place]; nofun⟩) sleepy
  | sleep place free =>
    have tested := woken.tested p
    rename_i chan next
    have same := woken.dozing p chan next (.inl place)
    rw [place] at tested
    refine woken.same inv rfl (awake (by simp [place])) (.inr free) (fun _ => rfl)
      (fun chan' next' there => ?_) nofun (fun q chan sleepy owes => ?_) tested ?_
    · rcases there with there | there <;> cases there
      exact same
    · rwa [place] at owes
    · rw [place]
      cases next <;> exact id
  | unlock place =>
    rename_i chan next
    have tested := woken.tested p
    have same := woken.dozing p chan next (.inr (.inl place))
    have held := woken.pt p (by rw [place]; trivial)
    rw [place] at tested mine
    refine woken.advance inv rfl rfl (.inl rfl) (fun q other locked => woken.pt q locked)
      (fun _ => held) (fun q chan' asleep => .inl ⟨?_, asleep⟩) (fun chan' next' there => ?_)
      (fun q chan' sleepy => .inl ?_) (fun _ => nofun) ?_
    · rintro rfl
      rw [State.goto_sleeping, awake (by simp [place])] at asleep
      cases asleep
    · rcases there with there | there | there <;> cases there
      exact same
    · have owesNot : ¬ (s.pc p).Owes chan' := by
        rw [place]
        nofun
      rcases sleepy with asleep | ⟨sleep, there⟩
      · exact calm (.inr ⟨mine trivial, owesNot⟩) (.inl asleep)
      · by_cases same : q = p
        · subst same
          rw [State.goto_pc_self] at there
          cases there
          exact tested chan rfl
        · rw [State.goto_pc_of_ne _ _ _ same] at there
          exact calm (.inr ⟨mine trivial, owesNot⟩) (.inr ⟨sleep, there⟩)
    · rw [place]
      cases next <;> exact id
  | doze place =>
    rename_i chan next
    have same := woken.dozing p chan next (.inr (.inr place))
    have held := woken.pt p (by rw [place]; trivial)
    refine woken.advance inv rfl rfl (.inl rfl) (fun q other locked => ?_) nofun
      (fun q chan' asleep => ?_) nofun (fun q chan' sleepy => ?_) (fun _ => nofun) ?_
    · rw [woken.pt q locked] at held
      exact absurd (Option.some.inj held) other
    · by_cases self : q = p
      · subst self
        simp only [State.goto_sleeping, Function.update_self] at asleep
        exact .inr ⟨rfl, next, rfl, same.trans (Option.some.inj asleep)⟩
      · simp only [State.goto_sleeping, Function.update_of_ne self] at asleep
        exact .inl ⟨self, asleep⟩
    · -- the new sleeper was on its way before
      have old : s.Sleepy q chan' := by
        by_cases self : q = p
        · subst self
          rcases sleepy with asleep | ⟨sleep, there⟩
          · simp only [State.goto_sleeping, Function.update_self] at asleep
            cases asleep
            exact .inr ⟨next, place⟩
          · rw [State.goto_pc_self] at there
            cases there
        · rcases sleepy with asleep | ⟨sleep, there⟩
          · simp only [State.goto_sleeping, Function.update_of_ne self] at asleep
            exact .inl asleep
          · rw [State.goto_pc_of_ne _ _ _ self] at there
            exact .inr ⟨sleep, there⟩
      refine (woken.waiting q chan' old).imp (fun calm => calm.congr rfl) ?_
      rintro ⟨h, locked, owes⟩
      refine ⟨h, locked, ?_⟩
      by_cases self : h = p
      · subst self
        rw [place] at owes
        exact owes.elim
      · rwa [State.goto_pc_of_ne _ _ _ self]
    · rw [place]
      cases next <;> exact id
  | sched place woke =>
    rename_i next
    refine woken.same inv rfl woke (.inl rfl) nofun nofun nofun
      (fun q chan sleepy owes => ?_) (fun _ => nofun) ?_
    · rwa [place] at owes
    · rw [place]
      cases next <;> exact id
  | relock place free =>
    rename_i next
    refine woken.locks inv rfl rfl (awake (by simp [place])) rfl free rfl rfl ?_
      (fun chan calm => .inl (calm.congr rfl)) ?_
    · cases next <;> exact ⟨nofun, nofun, fun _ => nofun⟩
    · rw [place]
      cases next <;> exact id

theorem Woken.call (woken : Woken s) {c : Call} {last : Option Result} (place : s.pc p = .out last)
    (alive : ∀ addr n, c = .write addr n → s.killed p = false) :
    Woken (s.enter p c) := by
  obtain ⟨pipe, lock, ptlock, sleeping, killed⟩ : (s.enter p c).pipe = s.pipe ∧
      (s.enter p c).lock = s.lock ∧ (s.enter p c).ptlock = s.ptlock ∧
      (s.enter p c).sleeping = s.sleeping ∧ (s.enter p c).killed = s.killed := by
    rcases c with _ | _ | (_ | _) <;> exact ⟨rfl, rfl, rfl, rfl, rfl⟩
  -- `p` was in no call, so every fact about a place is about another process
  have rest {q : Nat} {P : Pc → Prop} (start : ¬ P (.start c))
      (holds : P ((s.enter p c).pc q)) : P (s.pc q) := by
    by_cases same : q = p
    · subst same
      rw [State.enter_pc, Function.update_self] at holds
      exact absurd holds start
    · rwa [State.enter_pc, Function.update_of_ne same] at holds
  have mover {q : Nat} {P : Pc → Prop} (out : ¬ P (.out last)) (holds : P (s.pc q)) :
      P ((s.enter p c).pc q) := by
    by_cases same : q = p
    · subst same
      rw [place] at holds
      exact absurd holds out
    · rwa [State.enter_pc, Function.update_of_ne same]
  refine ⟨fun q locked => ?_, fun q chan asleep => ?_, fun q chan next there => ?_,
    fun q chan sleepy => ?_, fun q chan test => ?_, fun q storing => ?_⟩
  · exact ptlock.trans (woken.pt q (rest nofun locked))
  · rw [sleeping] at asleep
    obtain ⟨next, there, same⟩ := woken.asleep q chan asleep
    exact ⟨next, mover (P := fun pc => pc = .sched next) nofun there, same⟩
  · exact woken.dozing q chan next
      (rest (P := fun pc => pc = .sleep chan next ∨ pc = .unlock chan next ∨ pc = .doze chan next)
        (by rintro (there | there | there) <;> cases there) there)
  · have old : s.Sleepy q chan := by
      refine sleepy.imp (fun asleep => sleeping ▸ asleep) fun ⟨next, there⟩ => ⟨next, ?_⟩
      exact rest (P := fun pc => pc = .doze chan next) nofun there
    refine (woken.waiting q chan old).imp (fun calm => calm.congr pipe) ?_
    rintro ⟨h, held, owes⟩
    exact ⟨h, lock.trans held, mover nofun owes⟩
  · exact (woken.tested q chan (rest nofun test)).congr pipe
  · rw [killed]
    by_cases same : q = p
    · subst same
      rw [State.enter_pc, Function.update_self] at storing
      cases c with
      | write addr n => exact alive addr n rfl
      | read n => exact absurd rfl storing
      | close writable => exact absurd rfl storing
    · rw [State.enter_pc, Function.update_of_ne same] at storing
      exact woken.alive q storing

theorem Woken.step (inv : Inv s) (woken : Woken s) {act : Act} (unharmed : Unharmed act s)
    (taken : step act s = some s') : Woken s' := by
  cases act with
  | move p => exact woken.moves inv (moves_of_move taken)
  | kill p =>
    simp only [Pipes.step] at taken
    split at taken
    · cases taken
    · cases taken
      have fewer {q : Nat} {chan : Chan}
          (asleep : Function.update s.sleeping p none q = some chan) : s.sleeping q = some chan := by
        by_cases same : q = p
        · subst same
          rw [Function.update_self] at asleep
          cases asleep
        · rwa [Function.update_of_ne same] at asleep
      refine ⟨woken.pt, fun q chan asleep => woken.asleep q chan (fewer asleep), woken.dozing,
        fun q chan sleepy => ?_, woken.tested, fun q storing => ?_⟩
      · exact woken.waiting q chan (sleepy.imp_left fewer)
      · have other : q ≠ p := fun same => unharmed.2 (same ▸ storing)
        simp only [Function.update_of_ne other]
        exact woken.alive q storing
  | call p c =>
    simp only [Pipes.step] at taken
    split at taken
    · rename_i last place
      cases taken
      refine woken.call place ?_
      rintro addr n rfl
      exact unharmed.2
    · cases taken

/-- Pipes lose no wakeup as long as no writer is killed with bytes left to
store: while the lock is free, whoever sleeps has reason to. -/
theorem no_lost_wakeup (data : Fin PIPESIZE → UInt8) (killed : Nat → Bool) (acts : List Act)
    (s : State) (unharmed : Transition.Along step Unharmed acts (pipealloc data killed))
    (ran : Transition.run step acts (pipealloc data killed) = some s) (free : s.lock = none)
    (p : Nat) : (s.sleeping p = some .nread → s.pipe.empty = true ∧ s.pipe.writeopen = true) ∧
      (s.sleeping p = some .nwrite → s.pipe.full = true ∧ s.pipe.readopen = true) := by
  have both : Inv s ∧ Woken s :=
    Transition.run_preserves (I := fun s => Inv s ∧ Woken s)
      (fun _ _ _ unharmed ⟨inv, woken⟩ taken =>
        ⟨inv.step unharmed.1 taken, woken.step inv unharmed taken⟩)
      ⟨inv_pipealloc data killed, woken_pipealloc data killed⟩ unharmed ran
  have calm {chan : Chan} (asleep : s.sleeping p = some chan) : s.Calm chan :=
    both.2.calm (p := p) (.inl free) (.inl asleep)
  exact ⟨fun asleep => calm asleep, fun asleep => calm asleep⟩

/-- `s'` is `s` after process `p` has stored `count` more bytes. -/
structure Stored (p : Nat) (addr : Nat → UInt8) (n : Int) (bytes : List UInt8) (count : Nat)
    (s s' : State) : Prop where
  pcs : ∃ more : List UInt8, s'.pc = Function.update s.pc p (.write addr n (bytes ++ more)) ∧
    more.length = count
  nread : s'.pipe.nread = s.pipe.nread
  nwrite : s'.pipe.nwrite = s.pipe.nwrite + BitVec.ofNat 32 count
  lock : s'.lock = s.lock
  ptlock : s'.ptlock = s.ptlock
  sleeping : s'.sleeping = s.sleeping
  killed : s'.killed = s.killed

theorem store_run {addr : Nat → UInt8} {n : Int} (count : Nat) {bytes : List UInt8}
    (place : s.pc p = .write addr n bytes) (wanted : (bytes.length + count : Int) ≤ n)
    (room : (s.pipe.nwrite - s.pipe.nread).toNat + count ≤ PIPESIZE) :
    ∃ s', Transition.run step (List.replicate count (.move p)) s = some s' ∧
      Stored p addr n bytes count s s' := by
  induction count generalizing s bytes with
  | zero =>
    refine ⟨s, rfl, ⟨[], ?_, rfl⟩, rfl, by simp, rfl, rfl, rfl, rfl⟩
    rw [List.append_nil, ← place, Function.update_eq_self]
  | succ count ih =>
    have notFull : s.pipe.full = false := by
      simp only [Pipe.full, decide_eq_false_iff_not]
      intro full
      rw [full, BitVec.add_comm, BitVec.add_sub_cancel] at room
      simp [PIPESIZE] at room
    let t := (s.put p (addr bytes.length)).goto p (.write addr n (bytes ++ [addr bytes.length]))
    have first : step (.move p) s = some t := by
      have more : (bytes.length : Int) < n := by omega
      simp only [step, move, place, more, notFull, if_true, Bool.false_eq_true, if_false, t]
    have used : (t.pipe.nwrite - t.pipe.nread).toNat + count ≤ PIPESIZE := by
      simp only [t, State.goto_pipe, State.put, PIPESIZE] at room ⊢
      bv_omega
    have there : t.pc p = .write addr n (bytes ++ [addr bytes.length]) := State.goto_pc_self ..
    obtain ⟨s', ran, done⟩ := ih there (by simp; omega) used
    refine ⟨s', ?_, ?_, done.nread, ?_, done.lock, done.ptlock, done.sleeping, done.killed⟩
    · rw [List.replicate_succ, Transition.run, first]
      exact ran
    · obtain ⟨more, pcs, length⟩ := done.pcs
      refine ⟨addr bytes.length :: more, ?_, by rw [List.length_cons, length]⟩
      rw [pcs, List.append_assoc, List.singleton_append]
      exact Function.update_idem ..
    · rw [done.nwrite, Nat.add_comm count, BitVec.ofNat_add, ← BitVec.add_assoc]
      rfl

/-- Process 1 goes to sleep in `piperead`, and process 2 enters `pipewrite`. -/
def readerFirst : List Act :=
  [.call 1 (.read 1)] ++ List.replicate 5 (.move 1) ++ [.call 2 (.write (fun _ => 0) 513), .move 2]

/-- Process 2 fills the pipe, is killed before it finds it full, and leaves. -/
def killedWriter : List Act :=
  readerFirst ++ List.replicate PIPESIZE (.move 2) ++ [.kill 2, .move 2, .move 2]

theorem killed_writer_wakes_nobody : ∃ s,
    Transition.Along step Allowed killedWriter (pipealloc (fun _ => 0) fun _ => false) ∧
      Transition.run step killedWriter (pipealloc (fun _ => 0) fun _ => false) = some s ∧
      s.lock = none ∧ s.sleeping 1 = some .nread ∧ s.pipe.empty = false := by
  have along : Transition.Along step Allowed killedWriter
      (pipealloc (fun _ => 0) fun _ => false) := by
    have calls : Transition.Along step AllowedOpen readerFirst
        (pipealloc (fun _ => 0) fun _ => false) := by
      decide +kernel
    refine .append (.append (calls.mono AllowedOpen.allowed) fun s _ => ?_) fun s _ => ?_
    · refine .of_forall (fun act member _ => ?_) s
      rw [List.eq_of_mem_replicate member]
      trivial
    · exact ⟨trivial, fun _ _ => ⟨trivial, fun _ _ => ⟨trivial, fun _ _ => trivial⟩⟩⟩
  obtain ⟨s, entered, place, pipe, lock, ptlock, asleep⟩ : ∃ s,
      Transition.run step readerFirst (pipealloc (fun _ => 0) fun _ => false) = some s ∧
        s.pc 2 = .write (fun _ => 0) 513 [] ∧ (s.pipe.nread = 0 ∧ s.pipe.nwrite = 0) ∧
        s.lock = some 2 ∧ s.ptlock = none ∧ s.sleeping 1 = some .nread :=
    ⟨_, rfl, rfl, ⟨rfl, rfl⟩, rfl, rfl, rfl⟩
  obtain ⟨t, filled, done⟩ := store_run PIPESIZE place (by decide) (by rw [pipe.1, pipe.2]; decide)
  obtain ⟨bytes, pcs, length⟩ := done.pcs
  have full : t.pipe.full = true := by
    rw [Pipe.full, done.nwrite, done.nread, pipe.1, pipe.2]
    rfl
  have there : t.pc 2 = .write (fun _ => 0) 513 bytes := by
    rw [pcs, Function.update_self, List.nil_append]
  -- killed, it finds the pipe full and returns without a wakeup
  let u : State := { t with
    killed := Function.update t.killed 2 true
    sleeping := Function.update t.sleeping 2 none }
  have killed : step (.kill 2) t = some u := by
    simp only [step, done.ptlock, ptlock, ne_eq, not_true_eq_false, if_false, u]
  let result : Result := .wrote (fun _ => 0) 513 bytes (-1)
  have givesUp : step (.move 2) u = some (u.goto 2 (.finish result)) := by
    have more : (bytes.length : Int) < 513 := by
      rw [length]
      decide
    have flag : u.killed 2 = true := by simp only [u, Function.update_self]
    simp only [step, move, show u.pc 2 = _ from there, more, show u.pipe.full = true from full, flag,
      if_true, or_true, result]
  let v := { u.goto 2 (.finish result) with lock := none }.goto 2 (.out (some result))
  refine ⟨v, along, ?_, rfl, ?_, ?_⟩
  · rw [killedWriter, Transition.run_append, Transition.run_append, entered, Option.bind_some, filled,
      Option.bind_some, Transition.run, killed, Option.bind_some, Transition.run, givesUp,
      Option.bind_some]
    simp only [Transition.run, step, move, State.goto_pc_self, Option.bind_some, v, result]
  · have other : (1 : Nat) ≠ 2 := by decide
    simp only [v, u, State.goto_sleeping, Function.update_of_ne other, done.sleeping, asleep]
  · simp only [v, u, State.goto_pipe, Pipe.empty, done.nread, done.nwrite, pipe.1, pipe.2]
    decide

/-- The calls of a run without `pipeclose` and without kills. -/
def UnharmedOpen : Act → State → Prop
  | .call p (.write _ _), s => s.writeRef = true ∧ s.killed p = false
  | .call _ (.read _), s => s.readRef = true
  | .move _, _ => True
  | _, _ => False

instance : (act : Act) → (s : State) → Decidable (UnharmedOpen act s)
  | .call p (.write _ _), s => inferInstanceAs (Decidable (s.writeRef = true ∧ s.killed p = false))
  | .call _ (.read _), s => inferInstanceAs (Decidable (s.readRef = true))
  | .call _ (.close _), _ => isFalse id
  | .move _, _ => isTrue trivial
  | .kill _, _ => isFalse id

theorem UnharmedOpen.unharmed (act : Act) (s : State) (open' : UnharmedOpen act s) :
    Unharmed act s := by
  cases act with
  | call p c =>
    cases c with
    | write addr n => exact open'
    | read n => exact ⟨open', trivial⟩
    | close writable => exact open'.elim
  | move p => exact ⟨trivial, trivial⟩
  | kill p => exact open'.elim

theorem no_lost_wakeup_asleep : ∃ s,
    Transition.run step (.call 1 (.read 1) :: List.replicate 5 (.move 1))
        (pipealloc (fun _ => 0) fun _ => false) = some s ∧
      s.sleeping 1 = some .nread ∧ s.pipe.empty = true ∧ s.pipe.writeopen = true := by
  have along : Transition.Along step UnharmedOpen (.call 1 (.read 1) :: List.replicate 5 (.move 1))
      (pipealloc (fun _ => 0) fun _ => false) := by
    decide +kernel
  exact ⟨_, rfl, rfl, (no_lost_wakeup _ _ _ _ (along.mono UnharmedOpen.unharmed) rfl rfl 1).1 rfl⟩

end SirpairOs.Pipes
