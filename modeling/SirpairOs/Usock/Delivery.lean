import SirpairOs.Usock.Accounts

/-! Connections reach the right listener, once: what holds in every state that an
orderly run leads to. -/
namespace SirpairOs.Usock

namespace Machine

variable (m : Machine) (p : Pid) (c : Call) (s : State) (next : Next)

@[simp] theorem goon_shared : (m.goon p c s next).shared = s := by
  cases next <;> rfl

@[simp] theorem goon_panicked : (m.goon p c s next).panicked = m.panicked := by
  cases next <;> rfl

theorem goon_todo : (m.goon p c s next).todo = Function.update m.todo p next.task := by
  funext q
  by_cases same : q = p
  · subst same
    cases next <;> simp [goon, todo, Next.task]
  · cases next <;> simp [goon, todo, Function.update_of_ne same]

theorem goon_todo_cases (q : Pid) : (q = p ∧ (m.goon p c s next).todo q = next.task) ∨
      (q ≠ p ∧ (m.goon p c s next).todo q = m.todo q) := by
  rw [goon_todo]
  by_cases same : q = p
  · subst same
    exact .inl ⟨rfl, Function.update_self ..⟩
  · exact .inr ⟨same, Function.update_of_ne same ..⟩

theorem goon_ofile :
    (m.goon p c s next).ofile = Function.update m.ofile p (next.fds ++ m.ofile p) := by
  cases next with
  | goon task => exact (Function.update_eq_self p m.ofile).symm
  | done result =>
    cases result with
    | value v serial => exact (Function.update_eq_self p m.ofile).symm
    | fd f => rfl

/-- The references to `x` that somebody will give back. -/
def held (x : FilePtr) : Nat :=
  ∑ p, (m.ofile p).count x + ∑ p, (taskFiles (m.todo p)).count x + m.shared.keeps x

/-- Those who will free the slot. -/
def claimed (i : Lid) : Nat := m.shared.owned i + ∑ p, (taskFrees (m.todo p)).count i

def places (n : Nat) : Nat := m.shared.parked n + ∑ p, tally n (taskTags (m.todo p))

end Machine

/-- The endpoint was queued on the listener. -/
def State.Issued (s : State) (serial : Nat) (lid : Lid) (gen : Nat) : Prop :=
  ∃ q, s.queued[serial]? = some q ∧ q.lid = lid ∧ q.gen = gen

/-- Process `p` waits in `usock_accept` on the socket `f` for the listener in slot
`i`: the listener stays as long as the process keeps `f`. -/
structure Accepting (m : Machine) (p : Pid) (f : FilePtr) (i : Lid) (gen : Nat) : Prop where
  open' : f ∈ m.ofile p
  used : (m.shared.listeners i).used = true
  gen : (m.shared.listeners i).gen = gen
  kept : ∑ q, (taskFrees (m.todo q)).count i = 0
  owner : ∀ y, (m.shared.file y).owns i = 1 → y = f

/-- A call of `usock_connect` with the path. -/
def Task.Connects (path : Path) : Task → Prop
  | .find _ path' => path' = path
  | .reader c _ => c.path = path
  | .writer c _ _ => c.path = path
  | .page c _ _ _ => c.path = path
  | .endpoint c => c.path = path
  | .queue c _ => c.path = path
  | .close _ value => value = -1
  | _ => False

theorem Steps.connects {room : Bool} {s s' : State} {task task' : Task} {next : Next}
    (steps : Steps room s task next s') {path : Path} (connects : task.Connects path)
    (goes : next.task = some task') : task'.Connects path := by
  cases steps with
  | page =>
    rename_i c dir r w frame kmem
    cases dir <;> cases goes <;> exact connects
  | socketShed free | sleep | accept front used => cases connects
  | refuse => cases goes; rfl
  | _ => cases goes <;> exact connects

/-- `usock_connect` returns 0 only after it has queued the endpoint. -/
theorem Steps.returned {room : Bool} {s s' : State} {task : Task} {serial : Option Nat}
    (steps : Steps room s task (.done (.value 0 serial)) s') {path : Path}
    (connects : task.Connects path) :
    ∃ n q, serial = some n ∧ s'.queued[n]? = some q ∧ q.path = path := by
  generalize goes : Next.done (.value 0 serial) = next at steps
  cases steps with
  | bind slot | listen used | accept front used => cases connects
  | queue used =>
    cases goes
    exact ⟨_, _, rfl, List.getElem?_concat_length, connects⟩
  | page =>
    rename_i c dir r w frame kmem
    cases dir <;> cases goes
  | closed =>
    cases goes
    cases connects
  | _ => cases goes

/-- Holds between any two steps of an orderly run. -/
structure Sound (m : Machine) : Prop where
  calm : m.panicked = false
  held : ∀ x, m.held x ≤ (m.shared.file x).ref
  claimed : ∀ i, m.claimed i ≤ (m.shared.listeners i).inUse
  placed : ∀ n, m.places n = m.shared.issued n
  clearing : ∀ i, m.Clearing i → (m.shared.listeners i).used = false
  freed : ∀ i, (m.shared.listeners i).used = false → (m.shared.listeners i).pending ≠ [] →
    m.Clearing i
  accepting : ∀ p f i gen, m.todo p = some (.accept f i gen) → Accepting m p f i gen
  waiting : ∀ i, ∀ e ∈ (m.shared.listeners i).pending,
    m.shared.Issued e.serial i (m.shared.listeners i).gen
  tagged : ∀ t, t ∈ m.shared.accepted ∨ t ∈ m.shared.closed ∨ (∃ p, t ∈ taskTags (m.todo p)) →
    m.shared.Issued t.serial t.lid t.gen
  short : ∀ i, (m.shared.listeners i).path.length < USOCK_PATH_MAX
  finding : ∀ p f path, m.todo p = some (.find f path) → path.length < USOCK_PATH_MAX
  found : ∀ p, ∀ task ∈ m.todo p, ∀ c ∈ task.conn, (m.shared.listeners c.lid).used = true →
    (m.shared.listeners c.lid).path = c.path
  right : ∀ q ∈ m.shared.queued, q.bound = q.path
  connects : ∀ p f path task, m.task p = some (.connect f path, task) → task.Connects path
  returned : ∀ p f path serial, m.last p = some (.connect f path, .value 0 serial) →
    ∃ n q, serial = some n ∧ m.shared.queued[n]? = some q ∧ q.path = path

section Move

variable {m : Machine} {p : Pid} {c : Call} {task : Task} {s : State} {next : Next}
  (sound : Sound m) (place : m.task p = some (c, task)) (orderly : task.Orderly m)
  (steps : Steps (m.room p) m.shared task next s)

include place in
theorem todo_of_task : m.todo p = some task := by
  rw [Machine.todo, place]
  rfl

include sound place steps in
theorem held_goon (x : FilePtr) : (m.goon p c s next).held x ≤ (s.file x).ref := by
  have before := sound.held x
  have step := steps.refs x
  have files := sum_update (fun l : List FilePtr => l.count x) m.ofile p (next.fds ++ m.ofile p)
  have tasks := sum_update (fun t : Option Task => (taskFiles t).count x) m.todo p next.task
  have here : taskFiles (m.todo p) = task.files := by
    rw [todo_of_task place]
    rfl
  simp only [Machine.held, Machine.goon_ofile, Machine.goon_todo, Machine.goon_shared] at before ⊢
  rw [List.count_append] at files
  rw [here] at tasks
  omega

variable (i : Lid) (q : Pid)

include sound place steps in
theorem claimed_goon : (m.goon p c s next).claimed i ≤ (s.listeners i).inUse := by
  have before := sound.claimed i
  have step := steps.claims i
  have tasks := sum_update (fun t : Option Task => (taskFrees t).count i) m.todo p next.task
  rw [todo_of_task place] at tasks
  simp only [Machine.claimed, Machine.goon_todo, Machine.goon_shared] at before ⊢
  omega

include sound orderly in
theorem bound_empty (f : FilePtr) (path : Path) (binds : task = .bind f path) :
    ∀ lid ∈ freeSlot m.shared, (m.shared.listeners lid).pending = [] := by
  intro lid slot
  subst binds
  have unused : (m.shared.listeners lid).used = false := by simpa using List.find?_some slot
  by_contra some
  exact (orderly lid slot).1 (sound.freed lid unused some)

include sound place orderly steps in
theorem places_goon (n : Nat) : (m.goon p c s next).places n = s.issued n := by
  have before := sound.placed n
  have step := steps.places (bound_empty sound orderly) n
  have tasks := sum_update (fun t : Option Task => tally n (taskTags t)) m.todo p next.task
  rw [todo_of_task place] at tasks
  simp only [Machine.places, Machine.goon_todo, Machine.goon_shared] at before ⊢
  omega

include place in
theorem Machine.clearing_of_job {i : Lid} (member : .clear i ∈ task.jobs) : m.Clearing i := by
  refine ⟨p, ?_⟩
  rw [Machine.jobs, todo_of_task place]
  exact member

include sound place orderly steps in
theorem clearing_goon (clearing : (m.goon p c s next).Clearing i) :
    (s.listeners i).used = false := by
  have was : m.Clearing i ∨ (s.listeners i).used = false := by
    obtain ⟨q, member⟩ := clearing
    rw [Machine.jobs] at member
    rcases m.goon_todo_cases p c s next q with ⟨-, now⟩ | ⟨-, now⟩
    · rw [now] at member
      exact (steps.clears member).imp (Machine.clearing_of_job place) id
    · rw [now] at member
      exact .inl ⟨q, member⟩
  rcases was with was | done
  · have unused := sound.clearing i was
    cases steps.slot i with
    | bound binds slot _ _ =>
      subst binds
      exact absurd was (orderly i slot).1
    | freed _ _ used _ _ _ => exact used
    | same used _ _ _ | pushed _ _ _ used _ _ _ _ | popped _ _ used _ _ _ | cleared _ used _ _ _ =>
      exact used.trans unused
  · exact done

include sound place steps in
theorem freed_goon (unused : (s.listeners i).used = false) (left : (s.listeners i).pending ≠ []) :
    (m.goon p c s next).Clearing i := by
  -- A close that was about to clear the slot still is.
  have stays (was : m.Clearing i) : (m.goon p c s next).Clearing i := by
    obtain ⟨q, member⟩ := was
    refine ⟨q, ?_⟩
    rw [Machine.jobs] at member ⊢
    rcases m.goon_todo_cases p c s next q with ⟨rfl, now⟩ | ⟨-, now⟩
    · rw [todo_of_task place] at member
      rw [now]
      exact (steps.clear_stays member).resolve_right left
    · rw [now]
      exact member
  cases steps.slot i with
  | same used _ pending _ => exact stays (sound.freed i (used ▸ unused) (pending ▸ left))
  | bound _ _ _ pending | cleared _ _ _ _ pending => exact absurd pending left
  | pushed _ _ was used _ _ _ _ | popped _ was used _ _ _ => rw [used, was] at unused; cases unused
  | freed _ goes _ _ _ _ =>
    refine ⟨p, ?_⟩
    rw [Machine.jobs, Machine.goon_todo, Function.update_self, goes]
    exact List.mem_cons_self

include sound place steps in
/-- The others keep a listener that somebody waits for: closing the last reference
to its socket would take the waiting process's own reference. -/
theorem accepting_stays {q : Pid} {f : FilePtr} {i : Lid} {gen : Nat}
    (accepting : Accepting m q f i gen) : Accepting (m.goon p c s next) q f i gen := by
  have task_none : (taskFrees (some task)).count i = 0 := by
    have part := le_sum (fun t : Option Task => (taskFrees t).count i) m.todo p
    have all := accepting.kept
    rw [todo_of_task place] at part
    omega
  have next_none : (taskFrees next.task).count i = 0 := by
    refine (steps.frees task_none).resolve_right ?_
    rintro ⟨y, last, owns, mine⟩
    obtain rfl := accepting.owner y owns
    have fits := sound.held y
    have opened := le_sum (fun l : List FilePtr => l.count y) m.ofile q
    have closing := le_sum (fun t : Option Task => (taskFiles t).count y) m.todo p
    have has : 0 < (m.ofile q).count y := List.count_pos_iff.mpr accepting.open'
    rw [todo_of_task place] at closing
    simp only [Machine.held, taskFiles, Option.elim_some] at fits closing
    omega
  have slot : (s.listeners i).used = true ∧ (s.listeners i).gen = gen := by
    cases steps.slot i with
    | same used _ _ gen | pushed _ _ _ used _ gen _ _ | popped _ _ used _ gen _
    | cleared _ used _ gen _ => exact ⟨used.trans accepting.used, gen.trans accepting.gen⟩
    | bound _ slot _ _ =>
      have unused : (m.shared.listeners i).used = false := by simpa using List.find?_some slot
      rw [accepting.used] at unused
      cases unused
    | freed frees _ _ _ _ _ =>
      subst frees
      simp [taskFrees, Task.jobs, Job.frees] at task_none
  constructor
  · rw [Machine.goon_ofile]
    by_cases same : q = p
    · subst same
      rw [Function.update_self]
      exact List.mem_append_right _ accepting.open'
    · rw [Function.update_of_ne same]
      exact accepting.open'
  · rw [Machine.goon_shared]
    exact slot.1
  · rw [Machine.goon_shared]
    exact slot.2
  · have tasks := sum_update (fun t : Option Task => (taskFrees t).count i) m.todo p next.task
    have all := accepting.kept
    rw [todo_of_task place] at tasks
    rw [Machine.goon_todo]
    omega
  · intro y owns
    rw [Machine.goon_shared] at owns
    have less := steps.owners accepting.used y
    have most := File.owns_le_one (m.shared.file y) i
    exact accepting.owner y (by omega)

include sound place steps in
theorem accepting_goon (f : FilePtr) (i : Lid) (gen : Nat)
    (waits : (m.goon p c s next).todo q = some (.accept f i gen)) :
    Accepting (m.goon p c s next) q f i gen := by
  refine accepting_stays sound place steps (sound.accepting q f i gen ?_)
  rcases m.goon_todo_cases p c s next q with ⟨rfl, now⟩ | ⟨-, now⟩
  · rw [todo_of_task place, (steps.accept_sleeps (now.symm.trans waits)).1]
  · exact now.symm.trans waits

include steps in
theorem queued_stays {n : Nat} {q : Queued} (here : m.shared.queued[n]? = some q) :
    s.queued[n]? = some q := by
  rcases steps.queued with same | ⟨c, ep, -, -, -, grown⟩
  · rw [same]
    exact here
  · rw [grown, List.getElem?_append_left (List.getElem?_eq_some_iff.mp here).1]
    exact here

include steps in
theorem issued_goon {n : Nat} {i : Lid} {gen : Nat} (issued : m.shared.Issued n i gen) :
    s.Issued n i gen := by
  obtain ⟨q, here, lid, gen⟩ := issued
  exact ⟨q, queued_stays steps here, lid, gen⟩

include sound steps in
theorem waiting_goon (e : Endpoint) (member : e ∈ (s.listeners i).pending) :
    s.Issued e.serial i (s.listeners i).gen := by
  have old (was : e ∈ (m.shared.listeners i).pending)
      (gen : (s.listeners i).gen = (m.shared.listeners i).gen) :
      s.Issued e.serial i (s.listeners i).gen := by
    rw [gen]
    exact issued_goon steps (sound.waiting i e was)
  cases steps.slot i with
  | same _ _ pending gen | freed _ _ _ _ gen pending => exact old (pending ▸ member) gen
  | bound _ _ _ pending | cleared _ _ _ _ pending => rw [pending] at member; cases member
  | pushed _ _ _ _ _ gen pending record =>
    rw [pending, List.mem_append, List.mem_singleton] at member
    rcases member with was | rfl
    · exact old was gen
    · rw [gen]
      exact ⟨_, by rw [record, List.getElem?_concat_length], rfl, rfl⟩
  | popped _ _ _ _ gen pending => exact old (pending ▸ List.mem_cons_of_mem _ member) gen

include sound place steps in
theorem tagged_goon (t : Tag) (member : t ∈ s.accepted ∨ t ∈ s.closed ∨
      ∃ q, t ∈ taskTags ((m.goon p c s next).todo q)) : s.Issued t.serial t.lid t.gen := by
  have old (was : t ∈ m.shared.accepted ∨ t ∈ m.shared.closed ∨ ∃ q, t ∈ taskTags (m.todo q)) :
      s.Issued t.serial t.lid t.gen :=
    issued_goon steps (sound.tagged t was)
  have moved (now : t ∈ s.accepted ∨ t ∈ s.closed ∨ t ∈ taskTags next.task) :
      s.Issued t.serial t.lid t.gen := by
    rcases steps.tags now with was | ⟨f, e, waits, front, same⟩ | ⟨e, front, same, gen⟩
    · refine old (was.imp_right (Or.imp_right fun mine => ⟨p, ?_⟩))
      rw [todo_of_task place]
      exact mine
    · have accepting := sound.accepting p f t.lid t.gen ((todo_of_task place).trans (by rw [waits]))
      have issued := sound.waiting t.lid e front
      rw [same, accepting.gen] at issued
      exact issued_goon steps issued
    · have issued := sound.waiting t.lid e front
      rw [same, gen] at issued
      exact issued_goon steps issued
  rcases member with accepted | closed | ⟨q, mine⟩
  · exact moved (.inl accepted)
  · exact moved (.inr (.inl closed))
  · rcases m.goon_todo_cases p c s next q with ⟨rfl, now⟩ | ⟨-, now⟩
    · exact moved (.inr (.inr (now ▸ mine)))
    · exact old (.inr (.inr ⟨q, now ▸ mine⟩))

include sound steps in
theorem short_goon : (s.listeners i).path.length < USOCK_PATH_MAX := by
  have before := sound.short i
  cases steps.slot i with
  | same _ path _ _ => rwa [path]
  | bound _ _ named _ =>
    rw [named, List.length_take]
    exact Nat.lt_of_le_of_lt (Nat.min_le_left _ _) (by decide)
  | pushed _ _ _ _ path _ _ _ => rwa [path]
  | popped _ _ _ path _ _ => rwa [path]
  | freed _ _ _ path _ _ => rw [path]; decide
  | cleared _ _ path _ _ => rwa [path]

include sound steps in
theorem finding_goon (f : FilePtr) (path : Path)
    (finds : (m.goon p c s next).todo q = some (.find f path)) : path.length < USOCK_PATH_MAX := by
  rcases m.goon_todo_cases p c s next q with ⟨-, now⟩ | ⟨-, now⟩
  · exact absurd (now.symm.trans finds) (steps.not_find f path)
  · exact sound.finding q f path (now.symm.trans finds)

theorem path_of_findListener {path : Path} {lid : Lid} (short : path.length < USOCK_PATH_MAX)
    (stored : (s.listeners lid).path.length < USOCK_PATH_MAX)
    (found : findListener s path = some lid) : (s.listeners lid).path = path := by
  have same := List.find?_some found
  simp only [sameString, Bool.and_eq_true, decide_eq_true_eq] at same
  rw [List.take_of_length_le (by omega), List.take_of_length_le (by omega)] at same
  exact same.2

include sound orderly steps in
/-- A slot does not change hands while a connection to it is under way. -/
theorem found_stays {q : Pid} {other : Task} (at' : m.todo q = some other) {c : Conn}
    (conn : other.conn = some c) (used : (s.listeners c.lid).used = true) :
    (s.listeners c.lid).path = c.path := by
  have before := sound.found q other at' c conn
  cases steps.slot c.lid with
  | same same path _ _ | cleared _ same path _ _ => exact path.trans (before (same.symm.trans used))
  | bound binds slot _ _ =>
    subst binds
    exact absurd ⟨q, other, at', c, conn, rfl⟩ (orderly c.lid slot).2
  | pushed _ _ was _ path _ _ _ | popped _ was _ path _ _ => exact path.trans (before was)
  | freed _ _ unused _ _ _ => rw [used] at unused; cases unused

include sound place orderly steps in
theorem found_goon (other : Task) (at' : (m.goon p c s next).todo q = some other) (c' : Conn)
    (conn : other.conn = some c') (used : (s.listeners c'.lid).used = true) :
    (s.listeners c'.lid).path = c'.path := by
  rcases m.goon_todo_cases p c s next q with ⟨rfl, now⟩ | ⟨-, now⟩
  · rcases steps.conn (now.symm.trans at') conn with ⟨c₀, was, lid, path⟩ | ⟨f, finds, found, same⟩
    · rw [← lid] at used ⊢
      rw [← path]
      exact found_stays sound orderly steps (todo_of_task place) was used
    · subst same
      have short := sound.finding q f c'.path ((todo_of_task place).trans (by rw [finds]))
      exact path_of_findListener short (sound.short c'.lid) found
  · exact found_stays sound orderly steps (now.symm.trans at') conn used

include sound place steps in
theorem right_goon (q : Queued) (member : q ∈ s.queued) : q.bound = q.path := by
  rcases steps.queued with same | ⟨c', ep, queues, used, -, grown⟩
  · exact sound.right q (same ▸ member)
  · rw [grown, List.mem_append, List.mem_singleton] at member
    rcases member with was | rfl
    · exact sound.right q was
    · have at' : m.todo p = some (.queue c' ep) := (todo_of_task place).trans (by rw [queues])
      exact sound.found p _ at' c' rfl used

include sound place steps in
theorem connects_goon (f : FilePtr) (path : Path) (other : Task)
    (at' : (m.goon p c s next).task q = some (.connect f path, other)) : other.Connects path := by
  by_cases same : q = p
  · subst same
    cases next with
    | goon task' =>
      simp only [Machine.goon, Function.update_self, Option.some.injEq, Prod.mk.injEq] at at'
      obtain ⟨rfl, rfl⟩ := at'
      exact steps.connects (sound.connects q f path task place) rfl
    | done result => simp [Machine.goon] at at'
  · refine sound.connects q f path other ?_
    cases next <;> simpa [Machine.goon, Function.update_of_ne same] using at'

include sound place steps in
theorem returned_goon (f : FilePtr) (path : Path) (serial : Option Nat)
    (last : (m.goon p c s next).last q = some (.connect f path, .value 0 serial)) :
    ∃ n e, serial = some n ∧ s.queued[n]? = some e ∧ e.path = path := by
  have old (was : m.last q = some (.connect f path, .value 0 serial)) :
      ∃ n e, serial = some n ∧ s.queued[n]? = some e ∧ e.path = path := by
    obtain ⟨n, e, rfl, here, same⟩ := sound.returned q f path serial was
    exact ⟨n, e, rfl, queued_stays steps here, same⟩
  cases next with
  | goon task' => exact old last
  | done result =>
    by_cases same : q = p
    · subst same
      simp only [Machine.goon, Function.update_self, Option.some.injEq, Prod.mk.injEq] at last
      obtain ⟨rfl, rfl⟩ := last
      exact steps.returned (sound.connects q f path task place)
    · exact old (by simpa [Machine.goon, Function.update_of_ne same] using last)

end Move

theorem Sound.goon {m : Machine} {p : Pid} {c : Call} {task : Task} {s : State} {next : Next}
    (sound : Sound m) (place : m.task p = some (c, task)) (orderly : task.Orderly m)
    (steps : Steps (m.room p) m.shared task next s) : Sound (m.goon p c s next) where
  calm := by rw [Machine.goon_panicked, sound.calm]
  held x := by simpa using held_goon sound place steps x
  claimed i := by simpa using claimed_goon sound place steps i
  placed n := by simpa using places_goon sound place orderly steps n
  clearing i clearing := by simpa using clearing_goon sound place orderly steps i clearing
  freed i := by simpa using freed_goon sound place steps i
  accepting := accepting_goon sound place steps
  waiting i := by simpa using waiting_goon sound steps i
  tagged t := by simpa using tagged_goon sound place steps t
  short i := by simpa using short_goon sound steps i
  finding := finding_goon sound steps
  found q other at' c' conn := by simpa using found_goon sound place orderly steps q other at' c' conn
  right q := by simpa using right_goon sound place steps q
  connects := connects_goon sound place steps
  returned := by simpa using returned_goon sound place steps

/-- The only panic is that of `fileclose`. -/
theorem halt_of_step {task : Task} {killed room : Bool} {s s' : State} {why : Halt}
    (halted : task.step killed room s = .halt why s') :
    ∃ f tag rest value, task = .close (.fileclose f tag :: rest) value ∧ (s.file f).ref < 1 := by
  cases task with
  | close jobs value =>
    rcases jobs with _ | ⟨job, rest⟩
    · cases halted
    simp only [Task.step] at halted
    cases job with
    | fileclose f tag =>
      refine ⟨f, tag, rest, value, rfl, ?_⟩
      by_contra live
      simp only [Job.perform, live, if_false] at halted
      split at halted <;> cases halted
    | pipeclose page writable | unbind lid =>
      simp only [Job.perform] at halted
      split at halted <;> cases halted
    | _ => cases halted
  | bind f path => cases halted
  | listen f backlog lid => cases halted
  | socket =>
    simp only [Task.step] at halted
    split at halted
    · cases halted
    · split at halted <;> cases halted
  | _ =>
    simp only [Task.step] at halted
    split at halted <;> cases halted

/-- Nobody closes a file that is not open. -/
theorem Sound.no_panic {m : Machine} {p : Pid} {c : Call} {task : Task} (sound : Sound m)
    (place : m.task p = some (c, task)) {killed : Bool} {why : Halt} {s : State} :
    task.step killed (m.room p) m.shared ≠ .halt why s := by
  intro halted
  obtain ⟨f, tag, rest, value, rfl, dead⟩ := halt_of_step halted
  have fits := sound.held f
  have closing := le_sum (fun t : Option Task => (taskFiles t).count f) m.todo p
  rw [todo_of_task place] at closing
  simp only [Machine.held, taskFiles, Option.elim_some, Task.files, List.flatMap_cons, Job.files,
    List.singleton_append, List.count_cons_self] at fits closing
  omega

/-- The ways in which a call begins. -/
inductive Begins (s : State) : Call → Next → Prop where
  | fails {c : Call} (open' : ∀ f, c ≠ .close f) : Begins s c .fails
  | socket : Begins s .socket (.goon .socket)
  | bind {f : FilePtr} {path : Path} : Begins s (.bind f path) (.goon (.bind f path))
  | listen {f : FilePtr} {backlog : Int} {n : Nat} {lid : Lid} :
      Begins s (.listen f backlog) (.goon (.listen f n lid))
  | connect {f : FilePtr} {path : Path} (short : path.length < USOCK_PATH_MAX) :
      Begins s (.connect f path) (.goon (.find f path))
  | accept {f : FilePtr} {lid : Lid} (owns : (s.file f).owns lid = 1) :
      Begins s (.accept f) (.goon (.accept f lid (s.listeners lid).gen))
  | close {f : FilePtr} : Begins s (.close f) (.goon (.close [.close f] 0))

theorem begins_begin (s : State) (c : Call) : Begins s c (c.begin s) := by
  cases c with
  | socket => exact .socket
  | bind f path =>
    simp only [Call.begin]
    split
    · exact .fails nofun
    split
    · exact .fails nofun
    · exact .bind
  | listen f backlog =>
    simp only [Call.begin]
    split
    · exact .fails nofun
    split
    · exact .fails nofun
    · exact .listen
  | connect f path =>
    simp only [Call.begin]
    split
    · exact .fails nofun
    split
    · exact .fails nofun
    · rename_i valid
      simp only [validPath, Bool.not_eq_false, decide_eq_true_eq] at valid
      exact .connect valid.2
  | accept f =>
    simp only [Call.begin]
    split
    · exact .fails nofun
    · rename_i lid bound
      split
      · exact .fails nofun
      · rename_i listens
        refine .accept ?_
        rw [File.owns, if_pos ⟨not_not.mp fun other => listens (.inl other), bound⟩]
  | close f => exact .close

section Begin

variable {m : Machine} {p : Pid} {c : Call} {next : Next} (sound : Sound m)
  (idle : m.task p = none) (mine : ∀ f ∈ c.file, f ∈ m.ofile p) (begins : Begins m.shared c next)

/-- The process `p` has begun the call. -/
abbrev Machine.begun (m : Machine) (p : Pid) (c : Call) (next : Next) : Machine :=
  (m.enter p c).goon p c m.shared next

theorem Machine.begun_todo : (m.begun p c next).todo = Function.update m.todo p next.task := by
  rw [Machine.goon_todo]
  cases c <;> rfl

include begins in
/-- A call begins with nothing to close but the file it is about. -/
theorem Begins.plain : taskFrees next.task = [] ∧ taskTags next.task = [] ∧ next.fds = [] ∧
    (∀ i, .clear i ∉ next.task.elim [] Task.jobs) ∧ ∀ task ∈ next.task, task.conn = none := by
  cases begins <;> simp [taskFrees, taskTags, Next.task, Next.fails, Next.fds, Task.jobs, Job.close,
    Job.frees, Job.tags, Task.conn]

include mine begins in
/-- `sys_close` takes the reference along. -/
theorem Begins.files : ∃ files, (m.begun p c next).ofile = Function.update m.ofile p files ∧
    ∀ x, files.count x + (taskFiles next.task).count x = (m.ofile p).count x := by
  rw [Machine.goon_ofile, begins.plain.2.2.1, List.nil_append]
  cases begins with
  | close =>
    rename_i f
    refine ⟨(m.ofile p).erase f, ?_, fun x => ?_⟩
    · simp [Machine.enter]
    · have member := mine f rfl
      simp only [Next.task, taskFiles, Option.elim_some, Task.files, Job.close, Job.files,
        List.flatMap_cons, List.flatMap_nil, List.append_nil]
      have pos : 0 < (m.ofile p).count f := List.count_pos_iff.mpr member
      by_cases same : x = f
      · subst same
        rw [List.count_erase_self, List.count_cons_self, List.count_nil]
        omega
      · rw [List.count_erase_of_ne same, List.count_cons_of_ne (Ne.symm same), List.count_nil]
        rfl
  | fails open' =>
    refine ⟨m.ofile p, ?_, fun x => rfl⟩
    cases c with
    | close f => exact absurd rfl (open' f)
    | _ => rfl
  | _ => exact ⟨m.ofile p, rfl, fun x => rfl⟩

include idle in
theorem todo_of_idle : m.todo p = none := by
  rw [Machine.todo, idle]
  rfl

include idle begins in
theorem Begins.clearing (i : Lid) : (m.begun p c next).Clearing i ↔ m.Clearing i := by
  refine exists_congr fun q => ?_
  rw [Machine.jobs, Machine.jobs, Machine.begun_todo]
  by_cases same : q = p
  · subst same
    rw [Function.update_self, todo_of_idle idle]
    exact iff_of_false (begins.plain.2.2.2.1 i) List.not_mem_nil
  · rw [Function.update_of_ne same]

include idle begins in
theorem Begins.frees (i : Lid) : ∑ q, (taskFrees ((m.begun p c next).todo q)).count i =
    ∑ q, (taskFrees (m.todo q)).count i := by
  have tasks := sum_update (fun t : Option Task => (taskFrees t).count i) m.todo p next.task
  have nothing : taskFrees none = [] := rfl
  rw [todo_of_idle idle, begins.plain.1, nothing] at tasks
  rw [Machine.begun_todo]
  omega

include sound in
theorem Sound.owner {f : FilePtr} {i : Lid} (owns : (m.shared.file f).owns i = 1) :
    (m.shared.listeners i).used = true ∧ ∑ q, (taskFrees (m.todo q)).count i = 0 ∧
      ∀ y, (m.shared.file y).owns i = 1 → y = f := by
  have fits := sound.claimed i
  have one := le_sum (fun file : File => file.owns i) m.shared.file f
  have most : (m.shared.listeners i).inUse ≤ 1 := by
    unfold Listener.inUse
    split <;> omega
  simp only [Machine.claimed, State.owned] at fits
  refine ⟨?_, by omega, fun y owns' => ?_⟩
  · by_contra unused
    rw [Listener.inUse, if_neg unused] at fits
    omega
  · by_contra other
    have two := add_le_sum (fun file : File => file.owns i) m.shared.file other
    omega

include sound idle mine begins in
theorem accepting_begun (q : Pid) (f : FilePtr) (i : Lid) (gen : Nat)
    (waits : (m.begun p c next).todo q = some (.accept f i gen)) :
    Accepting (m.begun p c next) q f i gen := by
  obtain ⟨files, opened, same⟩ := begins.files mine
  have fresh := begins.frees idle i
  rw [Machine.begun_todo] at waits
  by_cases self : q = p
  · subst self
    rw [Function.update_self] at waits
    cases begins <;> cases waits
    rename_i owns
    obtain ⟨used, kept, owner⟩ := sound.owner owns
    refine ⟨?_, used, rfl, fresh.trans kept, owner⟩
    have member := mine f rfl
    rw [opened, Function.update_self, ← List.count_pos_iff]
    have all := same f
    rw [← List.count_pos_iff] at member
    simp only [Next.task, taskFiles, Option.elim_some, Task.files, List.count_nil] at all
    omega
  · rw [Function.update_of_ne self] at waits
    have before := sound.accepting q f i gen waits
    refine ⟨?_, ?_, ?_, fresh.trans before.kept, ?_⟩
    · rw [opened, Function.update_of_ne self]
      exact before.open'
    · rw [Machine.goon_shared]
      exact before.used
    · rw [Machine.goon_shared]
      exact before.gen
    · rw [Machine.goon_shared]
      exact before.owner

include sound idle mine begins in
theorem held_begun (x : FilePtr) : (m.begun p c next).held x ≤ (m.shared.file x).ref := by
  obtain ⟨files, opened, same⟩ := begins.files mine
  have before := sound.held x
  have fds := sum_update (fun l : List FilePtr => l.count x) m.ofile p files
  have tasks := sum_update (fun t : Option Task => (taskFiles t).count x) m.todo p next.task
  have nothing : taskFiles none = [] := rfl
  have here := same x
  rw [todo_of_idle idle, nothing, List.count_nil] at tasks
  simp only [Machine.held, Machine.begun_todo, opened, Machine.goon_shared] at before ⊢
  omega

include sound idle begins in
theorem places_begun (n : Nat) : (m.begun p c next).places n = m.shared.issued n := by
  have before := sound.placed n
  have tasks := sum_update (fun t : Option Task => tally n (taskTags t)) m.todo p next.task
  have nothing : taskTags none = [] := rfl
  rw [todo_of_idle idle, begins.plain.2.1, nothing] at tasks
  simp only [Machine.places, Machine.begun_todo, Machine.goon_shared] at before ⊢
  omega

include sound begins in
theorem tagged_begun (t : Tag) (member : t ∈ m.shared.accepted ∨ t ∈ m.shared.closed ∨
      ∃ q, t ∈ taskTags ((m.begun p c next).todo q)) : m.shared.Issued t.serial t.lid t.gen := by
  refine sound.tagged t (member.imp_right (Or.imp_right ?_))
  rintro ⟨q, mine⟩
  rw [Machine.begun_todo] at mine
  by_cases same : q = p
  · subst same
    rw [Function.update_self, begins.plain.2.1] at mine
    cases mine
  · rw [Function.update_of_ne same] at mine
    exact ⟨q, mine⟩

include sound begins in
theorem finding_begun (q : Pid) (f : FilePtr) (path : Path)
    (finds : (m.begun p c next).todo q = some (.find f path)) : path.length < USOCK_PATH_MAX := by
  rw [Machine.begun_todo] at finds
  by_cases same : q = p
  · subst same
    rw [Function.update_self] at finds
    cases begins <;> cases finds
    assumption
  · rw [Function.update_of_ne same] at finds
    exact sound.finding q f path finds

include sound begins in
theorem found_begun (q : Pid) (task : Task) (at' : (m.begun p c next).todo q = some task)
    (c' : Conn) (conn : task.conn = some c') (used : (m.shared.listeners c'.lid).used = true) :
    (m.shared.listeners c'.lid).path = c'.path := by
  rw [Machine.begun_todo] at at'
  by_cases same : q = p
  · subst same
    rw [Function.update_self] at at'
    rw [begins.plain.2.2.2.2 task at'] at conn
    cases conn
  · rw [Function.update_of_ne same] at at'
    exact sound.found q task at' c' conn used

theorem Machine.enter_rest : (m.enter p c).task = m.task ∧ (m.enter p c).last = m.last := by
  cases c <;> exact ⟨rfl, rfl⟩

include sound begins in
theorem connects_begun (q : Pid) (f : FilePtr) (path : Path) (task : Task)
    (at' : (m.begun p c next).task q = some (.connect f path, task)) : task.Connects path := by
  by_cases same : q = p
  · subst same
    cases begins <;> simp [Machine.begun, Machine.goon, Next.fails] at at'
    obtain ⟨⟨-, rfl⟩, rfl⟩ := at'
    rfl
  · refine sound.connects q f path task ?_
    cases next <;>
      simpa [Machine.begun, Machine.goon, Function.update_of_ne same, Machine.enter_rest] using at'

include sound begins in
theorem returned_begun (q : Pid) (f : FilePtr) (path : Path) (serial : Option Nat)
    (last : (m.begun p c next).last q = some (.connect f path, .value 0 serial)) :
    ∃ n e, serial = some n ∧ m.shared.queued[n]? = some e ∧ e.path = path := by
  refine sound.returned q f path serial ?_
  cases begins with
  | fails open' =>
    by_cases same : q = p
    · subst same
      simp [Machine.begun, Machine.goon, Next.fails] at last
    · simpa [Machine.goon, Next.fails, Function.update_of_ne same, Machine.enter_rest] using last
  | _ => exact last

include sound idle mine begins in
theorem Sound.begun : Sound (m.begun p c next) where
  calm := by
    rw [Machine.goon_panicked]
    cases c <;> exact sound.calm
  held x := by simpa using held_begun sound idle mine begins x
  claimed i := by
    have before := sound.claimed i
    simp only [Machine.claimed, Machine.goon_shared] at before ⊢
    rw [begins.frees idle i]
    exact before
  placed n := by simpa using places_begun sound idle begins n
  clearing i := by simpa [begins.clearing idle] using sound.clearing i
  freed i := by simpa [begins.clearing idle] using sound.freed i
  accepting := accepting_begun sound idle mine begins
  waiting := by simpa using sound.waiting
  tagged t := by simpa using tagged_begun sound begins t
  short := by simpa using sound.short
  finding := finding_begun sound begins
  found q task at' c' conn := by simpa using found_begun sound begins q task at' c' conn
  right := by simpa using sound.right
  connects := connects_begun sound begins
  returned := by simpa using returned_begun sound begins

end Begin

def File.dup (file : File) : File := { file with ref := file.ref + 1 }

/-- Process `q` gets another reference to `f`. -/
def Machine.given (m : Machine) (q : Pid) (f : FilePtr) : Machine :=
  { m with
    shared := m.shared.setFile f (m.shared.file f).dup
    ofile := Function.update m.ofile q (f :: m.ofile q) }

section Give

variable {m : Machine} (sound : Sound m) (q : Pid) (f : FilePtr)

include sound in
theorem held_given (x : FilePtr) :
    (m.given q f).held x ≤ ((m.shared.setFile f (m.shared.file f).dup).file x).ref := by
  have before := sound.held x
  have fds := sum_update (fun l : List FilePtr => l.count x) m.ofile q (f :: m.ofile q)
  have fair : (m.shared.file f).dup.ends.count x + (if x = f then 1 else 0) +
        (if x = f then (m.shared.file f).ref else 0) ≤
      (m.shared.file f).ends.count x + 0 + if x = f then (m.shared.file f).dup.ref else 0 := by
    have ends : (m.shared.file f).dup.ends = (m.shared.file f).ends := rfl
    have more : (m.shared.file f).dup.ref = (m.shared.file f).ref + 1 := rfl
    rw [ends, more]
    split <;> omega
  have keeps := State.keeps_setFile (t := m.shared) rfl rfl fair
  have todo : (m.given q f).todo = m.todo := rfl
  simp only [Machine.held, todo] at before ⊢
  simp only [Machine.given, List.count_cons, beq_iff_eq, eq_comm (a := f)] at fds ⊢
  omega

include sound in
theorem claimed_given (i : Lid) : (m.given q f).claimed i ≤ (m.shared.listeners i).inUse := by
  have before := sound.claimed i
  have fair : (m.shared.file f).dup.owns i + 0 ≤ (m.shared.file f).owns i + 0 := le_rfl
  have claims := State.claims_setFile (t := m.shared) rfl rfl fair
  have todo : (m.given q f).todo = m.todo := rfl
  simp only [Machine.claimed, todo] at before ⊢
  simp only [Machine.given, State.setFile_listeners] at claims ⊢
  omega

include sound in
theorem accepting_given (p : Pid) (g : FilePtr) (i : Lid) (gen : Nat)
    (waits : m.todo p = some (.accept g i gen)) : Accepting (m.given q f) p g i gen := by
  have before := sound.accepting p g i gen waits
  refine ⟨?_, before.used, before.gen, before.kept, fun y owns => before.owner y ?_⟩
  · have opened := before.open'
    simp only [Machine.given]
    by_cases same : p = q
    · subst same
      rw [Function.update_self]
      exact List.mem_cons_of_mem f opened
    · rwa [Function.update_of_ne same]
  · have less : (m.shared.file f).dup.owns i ≤ (m.shared.file f).owns i := le_rfl
    have most : (m.shared.file y).owns i ≤ 1 := File.owns_le_one _ i
    have same := State.owns_setFile (t := m.shared) rfl less y
    simp only [Machine.given] at owns
    omega

include sound in
theorem Sound.given : Sound (m.given q f) where
  calm := sound.calm
  held := held_given sound q f
  claimed := claimed_given sound q f
  placed := sound.placed
  clearing := sound.clearing
  freed := sound.freed
  accepting := accepting_given sound q f
  waiting := sound.waiting
  tagged := sound.tagged
  short := sound.short
  finding := sound.finding
  found := sound.found
  right := sound.right
  connects := sound.connects
  returned := sound.returned

end Give

theorem Sound.step {act : Act} {m m' : Machine} (orderly : Orderly act m) (sound : Sound m)
    (taken : step act m = some m') : Sound m' := by
  unfold Usock.step at taken
  rw [if_neg (by rw [sound.calm]; nofun)] at taken
  cases act with
  | call p c =>
    simp only at taken
    split at taken
    · cases taken
    · rename_i able
      push Not at able
      cases taken
      exact sound.begun able.1 able.2 (begins_begin m.shared c)
  | move p killed =>
    simp only at taken
    split at taken
    · cases taken
    · rename_i c task place
      have fair : task.Orderly m := orderly task (todo_of_task place)
      split at taken
      · rename_i done
        cases taken
        exact sound.goon place fair (steps_of_step fair done)
      · rename_i halted
        exact absurd halted (sound.no_panic place)
  | share p q f =>
    simp only at taken
    split at taken
    · cases taken
    · rename_i able
      push Not at able
      split at taken
      · rename_i dead
        have fits := sound.held f
        have opened := le_sum (fun l : List FilePtr => l.count f) m.ofile p
        have has : 0 < (m.ofile p).count f := List.count_pos_iff.mpr able.2.2.1
        simp only [Machine.held] at fits
        omega
      · cases taken
        exact sound.given q f

/-- No socket has been made and nothing has been recorded. -/
structure Start (m : Machine) : Prop where
  calm : m.panicked = false
  idle : ∀ p, m.task p = none
  new : ∀ p, m.last p = none
  files : ∀ x, ∑ p, (m.ofile p).count x ≤ (m.shared.file x).ref
  plain : ∀ y, (m.shared.file y).type ≠ .usock
  slots : ∀ i, (m.shared.listeners i).used = false ∧ (m.shared.listeners i).path = [] ∧
    (m.shared.listeners i).pending = []
  records : m.shared.queued = [] ∧ m.shared.accepted = [] ∧ m.shared.closed = []

theorem Start.sound {m : Machine} (start : Start m) : Sound m := by
  have todo : m.todo = fun _ => none := funext fun p => by rw [Machine.todo, start.idle]; rfl
  have jobs (p : Pid) : m.jobs p = [] := by rw [Machine.jobs, todo]; rfl
  have pending (i : Lid) : (m.shared.listeners i).pending = [] := (start.slots i).2.2
  constructor
  · exact start.calm
  · intro x
    have files := start.files x
    simpa [Machine.held, todo, taskFiles, State.keeps, pending, File.ends, start.plain] using files
  · intro i
    simp [Machine.claimed, todo, taskFrees, State.owned, File.owns, start.plain]
  · intro n
    simp [Machine.places, todo, taskTags, State.parked, State.issued, pending, start.records, tally]
  · rintro i ⟨p, member⟩
    rw [jobs] at member
    cases member
  · intro i _ some
    exact absurd (pending i) some
  · intro p f i gen waits
    rw [todo] at waits
    cases waits
  · intro i e member
    rw [pending] at member
    cases member
  · intro t member
    simp [start.records, todo, taskTags] at member
  · intro i
    rw [(start.slots i).2.1]
    decide
  · intro p f path finds
    rw [todo] at finds
    cases finds
  · intro p task at'
    rw [todo] at at'
    cases at'
  · intro q member
    rw [start.records.1] at member
    cases member
  · intro p f path task at'
    rw [start.idle] at at'
    cases at'
  · intro p f path serial last
    rw [start.new] at last
    cases last

/-- Connections have reached the right listener, once. -/
structure Delivered (m : Machine) : Prop where
  /-- A call that has returned 0 has queued an endpoint on a listener bound to its path. -/
  connected : ∀ p f path serial, m.last p = some (.connect f path, .value 0 serial) →
    ∃ n q, serial = some n ∧ m.shared.queued[n]? = some q ∧ q.path = path ∧ q.bound = path
  /-- An endpoint that was queued is in one place: it still is in a queue, it has been
  accepted once, it has been closed once, or a process is about to close it. -/
  once : ∀ n < m.shared.queued.length, m.places n = 1
  /-- It was accepted from, or closed with, the listener on which it was queued. -/
  accepted : ∀ t ∈ m.shared.accepted, m.shared.Issued t.serial t.lid t.gen
  closed : ∀ t ∈ m.shared.closed, m.shared.Issued t.serial t.lid t.gen
  closing : ∀ p, ∀ t ∈ taskTags (m.todo p), m.shared.Issued t.serial t.lid t.gen
  /-- No listener inherits an endpoint. -/
  queued : ∀ i, ∀ e ∈ (m.shared.listeners i).pending,
    m.shared.Issued e.serial i (m.shared.listeners i).gen
  /-- No endpoint stays in a slot that has been freed. -/
  kept : ∀ i, (m.shared.listeners i).pending ≠ [] →
    (m.shared.listeners i).used = true ∨ m.Clearing i

theorem Sound.delivered {m : Machine} (sound : Sound m) : Delivered m where
  connected p f path serial last := by
    obtain ⟨n, q, rfl, here, same⟩ := sound.returned p f path serial last
    exact ⟨n, q, rfl, here, same, (sound.right q (List.mem_of_getElem? here)).trans same⟩
  once n issued := by rw [sound.placed, State.issued, if_pos issued]
  accepted t member := sound.tagged t (.inl member)
  closed t member := sound.tagged t (.inr (.inl member))
  closing p t member := sound.tagged t (.inr (.inr ⟨p, member⟩))
  queued := sound.waiting
  kept i left := by
    by_cases used : (m.shared.listeners i).used = true
    · exact .inl used
    · exact .inr (sound.freed i (by simpa using used) left)

/-- Every orderly run delivers its connections. -/
theorem connections_delivered (m₀ m : Machine) (acts : List Act) (start : Start m₀)
    (orderly : Transition.Along step Orderly acts m₀)
    (ran : Transition.run step acts m₀ = some m) : Delivered m :=
  (Transition.run_preserves (fun _ _ _ fair sound taken => sound.step fair taken) start.sound
    orderly ran).delivered

/-- In an orderly run nothing is closed twice: no call panics, and every file that a descriptor,
a queue, a socket or a call in progress refers to has a reference for each of them. A slot is
given back by at most one of them, and only while it is in use. -/
theorem references_covered (m₀ m : Machine) (acts : List Act) (start : Start m₀)
    (orderly : Transition.Along step Orderly acts m₀)
    (ran : Transition.run step acts m₀ = some m) :
    m.panicked = false ∧ (∀ x, m.held x ≤ (m.shared.file x).ref) ∧
      (∀ p, ∀ f ∈ m.ofile p, 0 < (m.shared.file f).ref) ∧
      ∀ i, m.claimed i ≤ (m.shared.listeners i).inUse := by
  have sound := Transition.run_preserves (fun _ _ _ fair sound taken => sound.step fair taken)
    start.sound orderly ran
  refine ⟨sound.calm, sound.held, fun p f mine => ?_, sound.claimed⟩
  have one := List.count_pos_iff.mpr mine
  have all := le_sum (fun l : List FilePtr => l.count f) m.ofile p
  have held := sound.held f
  simp only [Machine.held] at held
  omega

def boot : Machine where
  shared := { oneListener true (fun _ => freshSocket.cleared) with
    kmem := ⟨[1, 2, 3, 4], by decide, 0, fun _ => false⟩, listeners := fun _ => emptyListener }
  ofile _ := []
  task _ := none
  last _ := none
  panicked := false

def moves (p : Pid) (n : Nat) : List Act := List.replicate n (.move p false)

/-- A process makes a socket, binds it to the path and listens. The socket is file 0
if that is free. -/
def listenAt (p : Pid) (path : Path) : List Act :=
  [.call p .socket, .move p false, .call p (.bind 0 path), .move p false,
    .call p (.listen 0 1), .move p false]

def pathA : Path := [47, 97]

def pathB : Path := [47, 98]

/-- Process 0 listens at `/a`, and process 1 has looked the listener up and made
everything up to the endpoint. -/
def lookedUp : List Act :=
  listenAt 0 pathA ++ [.call 1 .socket, .move 1 false, .call 1 (.connect 1 pathA)] ++ moves 1 8

theorem boot_start : Start boot where
  calm := rfl
  idle _ := rfl
  new _ := rfl
  files _ := by simp [boot]
  plain _ := nofun
  slots _ := ⟨rfl, rfl, rfl⟩
  records := ⟨rfl, rfl, rfl⟩

set_option maxRecDepth 10000 in
/-- Process 0 accepts the connection and process 1 closes its end of it. -/
theorem references_covered_closed :
    ∃ m, Transition.run step (lookedUp ++ moves 1 1 ++ [.call 0 (.accept 0), .move 0 false,
        .call 1 (.close 1)] ++ moves 1 6) boot = some m ∧ m.ofile 0 = [6, 0] ∧ m.ofile 1 = [] ∧
      m.panicked = false ∧ ∀ p, ∀ f ∈ m.ofile p, 0 < (m.shared.file f).ref := by
  have ran : ∃ m ∈ Transition.run step (lookedUp ++ moves 1 1 ++ [.call 0 (.accept 0),
      .move 0 false, .call 1 (.close 1)] ++ moves 1 6) boot, m.ofile 0 = [6, 0] ∧ m.ofile 1 = [] := by
    decide +kernel
  obtain ⟨m, ran, server, client⟩ := ran
  have covered := references_covered boot m _ boot_start (by decide +kernel) ran
  exact ⟨m, ran, server, client, covered.1, covered.2.2.1⟩

set_option maxRecDepth 10000 in
/-- The endpoint is queued and accepted. -/
theorem connections_delivered_accepted :
    ∃ m, Transition.run step (lookedUp ++ moves 1 1 ++ [.call 0 (.accept 0), .move 0 false]) boot =
        some m ∧ m.shared.accepted = [⟨0, 0, 1⟩] ∧ Delivered m := by
  have ran : ∃ m ∈ Transition.run step
      (lookedUp ++ moves 1 1 ++ [.call 0 (.accept 0), .move 0 false]) boot,
      m.shared.accepted = [⟨0, 0, 1⟩] := by decide +kernel
  obtain ⟨m, ran, accepted⟩ := ran
  exact ⟨m, ran, accepted, connections_delivered boot m _ boot_start (by decide +kernel) ran⟩

/-- Before process 1 queues the endpoint, the listener is closed and process 2 binds
the slot to `/b`. -/
def rebound : List Act :=
  lookedUp ++ [.call 0 (.close 0)] ++ moves 0 4 ++ listenAt 2 pathB ++ moves 1 1

/-- Process 0 has freed the slot and not yet cleared it when process 2 takes it. -/
def wiped : List Act :=
  lookedUp ++ moves 1 1 ++ [.call 0 (.close 0)] ++ moves 0 2 ++ listenAt 2 pathB ++ moves 0 2

set_option maxRecDepth 10000 in
/-- A `connect` to `/a` that returned 0 is queued at `/b`; an endpoint that was queued
is neither accepted nor closed nor waiting. -/
theorem endpoint_misrouted_and_lost : (∃ m, Transition.run step rebound boot = some m ∧
      (∃ r ∈ m.last 1, r.1 = .connect 1 pathA ∧ r.2 = .value 0 (some 0)) ∧
      m.shared.queued.map (fun q => (q.path, q.bound)) = [(pathA, pathB)]) ∧
    ∃ m, Transition.run step wiped boot = some m ∧ m.shared.queued.length = 1 ∧ m.places 0 = 0 := by
  have first : ∃ m ∈ Transition.run step rebound boot,
      (∃ r ∈ m.last 1, r.1 = .connect 1 pathA ∧ r.2 = .value 0 (some 0)) ∧
        m.shared.queued.map (fun q => (q.path, q.bound)) = [(pathA, pathB)] := by
    decide +kernel
  have second : ∃ m ∈ Transition.run step wiped boot,
      m.shared.queued.length = 1 ∧ m.places 0 = 0 := by
    decide +kernel
  exact ⟨first, second⟩

end SirpairOs.Usock
