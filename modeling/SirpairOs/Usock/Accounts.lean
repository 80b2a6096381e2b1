import SirpairOs.Usock.Machine

/-! What a step of the socket calls can do. Three accounts are kept: of the
references to files, of the slots and who will free them, and of the endpoints. -/
namespace SirpairOs.Usock

open Mem (Kmem)

@[simp] theorem State.setFile_setFile (s : State) (f : FilePtr) (a b : File) :
    (s.setFile f a).setFile f b = s.setFile f b := by
  simp only [State.setFile, Function.update_idem]

theorem filealloc_cases (s : State) : (freeFile s = none ∧ filealloc s = (none, s)) ∨
    ∃ f, (s.file f).ref = 0 ∧ filealloc s = (some f, s.setFile f { s.file f with ref := 1 }) := by
  cases found : freeFile s with
  | none => exact .inl ⟨rfl, by simp only [filealloc, found]⟩
  | some f =>
    refine .inr ⟨f, ?_, by simp only [filealloc, found]⟩
    simpa using List.find?_some found

def File.newSocket (file : File) : File :=
  { file with
    ref := 1, type := .usock, readable := true, writable := true, state := .init, lid := none,
    rx := none, tx := none }

def File.newEndpoint (file : File) (rx tx : Option FilePtr) : File :=
  { file with
    ref := 1, type := .usock, readable := true, writable := true, state := .conn, lid := none,
    rx := rx, tx := tx }

/-- The state after a successful `usock_bind`. -/
def State.bound (s : State) (f : FilePtr) (path : Path) (lid : Lid) : State :=
  (s.setListener lid { s.listeners lid with
    used := true, listening := false, backlog := 0, path := path.take (USOCK_PATH_MAX - 1)
    pending := [], gen := (s.listeners lid).gen + 1 }).setFile f
      { s.file f with lid := some lid, state := .bound }

def State.enqueue (s : State) (path : Path) (lid : Lid) (ep : FilePtr) : State :=
  State.setListener
    { s with queued := s.queued ++ [⟨path, lid, (s.listeners lid).gen, (s.listeners lid).path⟩] }
    lid { s.listeners lid with pending := (s.listeners lid).pending ++ [⟨ep, s.queued.length⟩] }

/-- The state after a successful `usock_connect`. -/
def State.connected (s : State) (c : Conn) (ep : FilePtr) : State :=
  (s.enqueue c.path c.lid ep).setFile c.f { s.file c.f with
    readable := true, writable := true, state := .conn, rx := c.s2c.r, tx := c.c2s.w }

/-- The ways from one lock acquisition to the next, when connections get what
they ask for. -/
inductive Steps (room : Bool) (s : State) : Task → Next → State → Prop where
  /-- Nothing has changed, and the call returns a failure. -/
  | fails {task : Task} (quiet : ∀ jobs value, task ≠ .close jobs value) : Steps room s task .fails s
  | socket {f : FilePtr} (free : (s.file f).ref = 0) :
      Steps room s .socket (.done (.fd f)) (s.setFile f (s.file f).newSocket)
  | socketShed {f : FilePtr} (free : (s.file f).ref = 0) :
      Steps room s .socket (.goon (.close [.close f] (-1))) (s.setFile f { s.file f with ref := 1 })
  | bind {f : FilePtr} {path : Path} {lid : Lid} (slot : freeSlot s = some lid) :
      Steps room s (.bind f path) (.done (.value 0 none)) (s.bound f path lid)
  | listen {f : FilePtr} {backlog : Nat} {lid : Lid} (used : (s.listeners lid).used = true) :
      Steps room s (.listen f backlog lid) (.done (.value 0 none))
        ((s.setListener lid { s.listeners lid with listening := true, backlog := backlog }).setFile f
          { s.file f with state := .listen })
  | find {f : FilePtr} {path : Path} {lid : Lid} (found : findListener s path = some lid) :
      Steps room s (.find f path)
        (.goon (.reader ⟨f, path, lid, ⟨none, none⟩, ⟨none, none⟩⟩ .c2s)) s
  | reader {c : Conn} {dir : Dir} {r : FilePtr} (free : (s.file r).ref = 0) :
      Steps room s (.reader c dir) (.goon (.writer c dir r)) (s.setFile r { s.file r with ref := 1 })
  | writer {c : Conn} {dir : Dir} {r w : FilePtr} (free : (s.file w).ref = 0) :
      Steps room s (.writer c dir r) (.goon (.page c dir r w))
        (s.setFile w { s.file w with ref := 1 })
  | page {c : Conn} {dir : Dir} {r w : FilePtr} {frame : Nat} {kmem : Kmem} :
      Steps room s (.page c dir r w) (c.made dir r w) (initPipe frame r w { s with kmem := kmem })
  | endpoint {c : Conn} {ep : FilePtr} (free : (s.file ep).ref = 0) :
      Steps room s (.endpoint c) (.goon (.queue c ep))
        (s.setFile ep ((s.file ep).newEndpoint c.c2s.r c.s2c.w))
  | refuse {c : Conn} {ep : FilePtr} :
      Steps room s (.queue c ep) (.goon (.close [.close ep] (-1))) s
  | queue {c : Conn} {ep : FilePtr} (used : (s.listeners c.lid).used = true) :
      Steps room s (.queue c ep) (.done (.value 0 (some s.queued.length))) (s.connected c ep)
  | sleep {f : FilePtr} {lid : Lid} {gen : Nat} :
      Steps room s (.accept f lid gen) (.goon (.accept f lid gen)) s
  | accept {f : FilePtr} {lid : Lid} {gen : Nat} {e : Endpoint} {rest : List Endpoint}
      (front : (s.listeners lid).pending = e :: rest) (used : (s.listeners lid).used = true) :
      Steps room s (.accept f lid gen) (install room e.file)
        (State.setListener { s with accepted := ⟨e.serial, lid, gen⟩ :: s.accepted } lid
          { s.listeners lid with pending := rest })
  | closed {value : Int} : Steps room s (.close [] value) (.done (.value value none)) s
  | job {job : Job} {rest more : List Job} {value : Int} {s' : State}
      (performed : job.perform s = .ok more s') :
      Steps room s (.close (job :: rest) value) (.goon (.close (more ++ rest) value)) s'

theorem acceptSection_cases (killed : Bool) (lid : Lid) (gen : Nat) (s : State) :
    acceptSection killed lid gen s = (.sleep, s) ∨ acceptSection killed lid gen s = (.fail, s) ∨
      ∃ e rest, (s.listeners lid).pending = e :: rest ∧ (s.listeners lid).used = true ∧
        acceptSection killed lid gen s = (.got e.file,
          { s.setListener lid { s.listeners lid with pending := rest } with
            accepted := ⟨e.serial, lid, gen⟩ :: s.accepted }) := by
  unfold acceptSection
  dsimp only
  split
  · cases killed
    · exact .inl rfl
    · exact .inr (.inl rfl)
  split
  · exact .inr (.inl rfl)
  · rename_i usable
    have used : (s.listeners lid).used = true := by simpa using fun unused => usable (.inl unused)
    split
    · exact .inr (.inl rfl)
    · rename_i e rest front
      exact .inr (.inr ⟨e, rest, front, used, rfl⟩)

theorem steps_of_step {m : Machine} {task : Task} (orderly : task.Orderly m) {killed room : Bool}
    {next : Next} {s' : State} (done : task.step killed room m.shared = .ok next s') :
    Steps room m.shared task next s' := by
  have alloc := filealloc_cases m.shared
  cases task with
  | socket =>
    rcases alloc with ⟨-, none'⟩ | ⟨f, free, taken⟩
    · simp only [Task.step, none'] at done
      cases done
      exact .fails (by simp)
    · simp only [Task.step, taken] at done
      split at done
      · rename_i yes
        cases done
        simp only [install, yes, if_true, State.setFile_setFile, State.setFile_file_self]
        exact .socket free
      · rename_i no
        cases done
        simp only [install, no]
        exact .socketShed free
  | bind f path =>
    simp only [Task.step, bindSection] at done
    split at done
    · cases done
      exact .fails (by simp)
    · split at done
      · cases done
        exact .fails (by simp)
      · rename_i lid slot
        cases done
        exact .bind slot
  | listen f backlog lid =>
    simp only [Task.step, listenSection] at done
    split at done
    · cases done
      exact .fails (by simp)
    · rename_i used
      cases done
      exact .listen (by simpa using used)
  | find f path =>
    simp only [Task.step] at done
    split at done
    · cases done
      exact .fails (by simp)
    · rename_i lid found
      cases done
      exact .find found
  | reader c dir =>
    rcases alloc with ⟨none', -⟩ | ⟨r, free, taken⟩
    · exact absurd none' orderly
    · simp only [Task.step, taken] at done
      cases done
      exact .reader free
  | writer c dir r =>
    rcases alloc with ⟨none', -⟩ | ⟨w, free, taken⟩
    · exact absurd none' orderly
    · simp only [Task.step, taken] at done
      cases done
      exact .writer free
  | page c dir r w =>
    obtain ⟨frame, kmem, taken, -⟩ := Kmem.kalloc_of_grants (m := m.shared.kmem) orderly
    simp only [Task.step, taken] at done
    cases done
    exact .page
  | endpoint c =>
    rcases alloc with ⟨none', -⟩ | ⟨ep, free, taken⟩
    · exact absurd none' orderly
    · simp only [Task.step, makeEndpoint, taken] at done
      cases done
      simp only [initEndpoint, State.setFile_setFile, State.setFile_file_self]
      exact .endpoint free
  | queue c ep =>
    by_cases shut : (m.shared.listeners c.lid).Shut
    · simp only [Task.step, queueSection_shut shut] at done
      cases done
      exact .refuse
    · have used : (m.shared.listeners c.lid).used = true := by
        simpa using fun unused => shut (.inl unused)
      simp only [Task.step, queueSection] at done
      rw [if_neg (show ¬ (_ ∨ _ ∨ _) from shut)] at done
      cases done
      exact .queue used
  | accept f lid gen =>
    rcases acceptSection_cases killed lid gen m.shared with again | failed | ⟨e, rest, front, used, got⟩
    · simp only [Task.step, again] at done
      cases done
      exact .sleep
    · simp only [Task.step, failed] at done
      cases done
      exact .fails (by simp)
    · simp only [Task.step, got] at done
      cases done
      exact .accept front used
  | close jobs value =>
    cases jobs with
    | nil =>
      cases done
      exact .closed
    | cons job rest =>
      simp only [Task.step] at done
      cases performed : job.perform m.shared with
      | halt reason t =>
        rw [performed] at done
        cases done
      | ok more t =>
        rw [performed] at done
        cases done
        exact .job performed

inductive Does (s : State) : Job → List Job → State → Prop where
  | drop {f : FilePtr} {tag : Option Tag} (many : 1 < (s.file f).ref) :
      Does s (.fileclose f tag) [] ({ s with closed := tag.toList ++ s.closed }.setFile f
        { s.file f with ref := (s.file f).ref - 1 })
  | last {f : FilePtr} {tag : Option Tag} (one : (s.file f).ref = 1) :
      Does s (.fileclose f tag) (s.file f).release
        ({ s with closed := tag.toList ++ s.closed }.setFile f (s.file f).cleared)
  | pipe {page : Nat} {writable : Bool} {pipes : Nat → Ends} {more : List Job}
      (pages : ∀ job ∈ more, job = .kfree page) :
      Does s (.pipeclose page writable) more { s with pipes := pipes }
  | kfree {page : Nat} {kmem : Kmem} : Does s (.kfree page) [] { s with kmem := kmem }
  | unbound {lid : Lid} (unused : (s.listeners lid).used = false) : Does s (.unbind lid) [] s
  | unbind {lid : Lid} (used : (s.listeners lid).used = true) :
      Does s (.unbind lid) [.clear lid] (s.setListener lid { s.listeners lid with
        used := false, listening := false, backlog := 0, path := [] })
  | clear {lid : Lid} : Does s (.clear lid) ((s.listeners lid).pending.map fun e =>
          .fileclose e.file (some ⟨e.serial, lid, (s.listeners lid).gen⟩))
        (s.setListener lid { s.listeners lid with pending := [] })

theorem does_of_perform {s s' : State} {job : Job} {more : List Job}
    (performed : job.perform s = .ok more s') : Does s job more s' := by
  cases job with
  | fileclose f tag =>
    simp only [Job.perform] at performed
    split at performed
    · cases performed
    · rename_i live
      split at performed
      · cases performed
        exact .drop (by omega)
      · cases performed
        exact .last (by omega)
  | pipeclose page writable =>
    simp only [Job.perform] at performed
    split at performed
    · cases performed
      exact .pipe fun job member => List.mem_singleton.mp member
    · cases performed
      exact .pipe fun job member => absurd member (List.not_mem_nil)
  | kfree page =>
    cases performed
    exact .kfree
  | unbind lid =>
    simp only [Job.perform] at performed
    split at performed
    · rename_i unused
      cases performed
      exact .unbound unused
    · rename_i used
      cases performed
      exact .unbind (by simpa using used)
  | clear lid =>
    cases performed
    exact .clear

theorem flatMap_pages {β : Type} {g : Job → List β} {more : List Job} {page : Nat}
    (pages : ∀ job ∈ more, job = .kfree page) (nothing : ∀ page, g (.kfree page) = []) :
    more.flatMap g = [] := by
  rw [List.flatMap_eq_nil_iff]
  intro job member
  rw [pages job member]
  exact nothing page

/-- The files that a socket holds. -/
def File.ends (file : File) : List FilePtr :=
  if file.type = .usock then file.rx.toList ++ file.tx.toList else []

namespace State

def keeps (s : State) (x : FilePtr) : Nat :=
  ∑ i, ((s.listeners i).pending.map Endpoint.file).count x + ∑ y, (s.file y).ends.count x

variable {s t : State} {f x : FilePtr} {file : File} {gain loss : Nat}

theorem keeps_setFile (files : t.file = s.file) (queues : t.listeners = s.listeners)
    (fair : file.ends.count x + gain + (if x = f then (s.file f).ref else 0) ≤
    (s.file f).ends.count x + loss + if x = f then file.ref else 0) :
    (t.setFile f file).keeps x + gain + (s.file x).ref ≤
      s.keeps x + loss + ((t.setFile f file).file x).ref := by
  have total := sum_update (fun file : File => file.ends.count x) s.file f file
  simp only [keeps, setFile, files, queues]
  by_cases self : x = f
  · subst self
    rw [Function.update_self]
    simp only [if_true] at fair
    omega
  · rw [Function.update_of_ne self]
    simp only [self, if_false] at fair
    omega

/-- A file that is no socket holds nothing. -/
theorem keeps_plain (files : t.file = s.file) (queues : t.listeners = s.listeners)
    (plain : file.type ≠ .usock) (same : file.ref = (s.file f).ref) :
    (t.setFile f file).keeps x + (s.file x).ref ≤ s.keeps x + ((t.setFile f file).file x).ref := by
  have fair : file.ends.count x + 0 + (if x = f then (s.file f).ref else 0) ≤
      (s.file f).ends.count x + 0 + if x = f then file.ref else 0 := by
    simp [File.ends, plain, same]
  simpa only [Nat.add_zero] using keeps_setFile files queues fair

theorem keeps_setListener {lid : Lid} {l : Listener} (files : t.file = s.file)
    (queues : t.listeners = s.listeners) (fair : (l.pending.map Endpoint.file).count x + gain ≤
    ((s.listeners lid).pending.map Endpoint.file).count x + loss) :
    (t.setListener lid l).keeps x + gain + (s.file x).ref ≤
      s.keeps x + loss + ((t.setListener lid l).file x).ref := by
  have total := sum_update (fun l : Listener => (l.pending.map Endpoint.file).count x)
    s.listeners lid l
  simp only [keeps, setListener, files, queues]
  omega

theorem keeps_setFile_setListener {lid : Lid} {l : Listener} {gain' loss' : Nat}
    (files : t.file = s.file) (queues : t.listeners = s.listeners)
    (fair : (l.pending.map Endpoint.file).count x + gain ≤
      ((s.listeners lid).pending.map Endpoint.file).count x + loss)
    (fair' : file.ends.count x + gain' + (if x = f then (s.file f).ref else 0) ≤
    (s.file f).ends.count x + loss' + if x = f then file.ref else 0) :
    ((t.setListener lid l).setFile f file).keeps x + (gain + gain') + (s.file x).ref ≤
      s.keeps x + (loss + loss') + (((t.setListener lid l).setFile f file).file x).ref := by
  have first := keeps_setListener (x := x) files queues fair
  have same : (t.setListener lid l).file = s.file := files
  rw [← same] at fair'
  have second := keeps_setFile (t := t.setListener lid l) rfl rfl fair'
  omega

end State

def Next.task : Next → Option Task
  | .goon task => some task
  | .done _ => none

/-- The files that get a descriptor. -/
def Next.fds : Next → List FilePtr
  | .done (.fd f) => [f]
  | _ => []

def taskFiles (task : Option Task) : List FilePtr := task.elim [] Task.files

theorem closeIf_files (f : Option FilePtr) : (closeIf f).flatMap Job.files = f.toList := by
  cases f <;> rfl

variable (file : File)

/-- Closing the last reference passes on what the file held. -/
theorem File.release_files (x : FilePtr) :
    (file.release.flatMap Job.files).count x ≤ file.ends.count x := by
  unfold File.release File.ends
  split
  · cases file.pipe <;> simp [Job.files]
  · rename_i sock
    rw [sock, if_pos rfl]
    split
    · rw [List.flatMap_append, closeIf_files, closeIf_files]
    · cases file.lid <;> simp [Job.files]
    · cases file.lid <;> simp [Job.files]
    · simp
  · simp

variable (l : List Endpoint) (lid : Lid)

theorem clear_files (gen : Nat) :
    (l.map fun e => Job.fileclose e.file (some ⟨e.serial, lid, gen⟩)).flatMap Job.files =
      l.map Endpoint.file := by
  induction l with
  | nil => rfl
  | cons e rest ih => rw [List.map_cons, List.flatMap_cons, ih, List.map_cons]; rfl

/-- A job gives up no more than it holds. -/
theorem Does.refs {s s' : State} {job : Job} {more : List Job} (does : Does s job more s')
    (x : FilePtr) : s'.keeps x + (more.flatMap Job.files).count x + (s.file x).ref ≤
      s.keeps x + job.files.count x + (s'.file x).ref := by
  cases does with
  | drop many =>
    rename_i f tag
    refine State.keeps_setFile (by rfl) (by rfl) ?_
    by_cases self : x = f
    · subst self
      simp only [File.ends, Job.files, List.flatMap_nil, List.count_nil, List.count_singleton_self,
        if_true]
      omega
    · simp [File.ends, self]
  | last one =>
    rename_i f tag
    refine State.keeps_setFile (by rfl) (by rfl) ?_
    have passed := (s.file f).release_files x
    have none' : (s.file f).cleared.ends.count x = 0 := rfl
    rw [none']
    by_cases self : x = f
    · subst self
      simp only [Job.files, List.count_singleton_self, if_true, one]
      omega
    · simp only [self, if_false]
      omega
  | pipe pages =>
    rw [flatMap_pages pages fun _ => rfl]
    exact le_rfl
  | kfree => exact le_rfl
  | unbound unused => exact le_rfl
  | unbind used => exact State.keeps_setListener (by rfl) (by rfl) le_rfl
  | clear =>
    refine State.keeps_setListener (by rfl) (by rfl) ?_
    rw [clear_files]
    simp

/-- So does a step of a task, which may also take new references. -/
theorem Steps.refs {room : Bool} {s s' : State} {task : Task} {next : Next}
    (steps : Steps room s task next s') (x : FilePtr) :
    s'.keeps x + (next.fds.count x + (taskFiles next.task).count x) + (s.file x).ref ≤
      s.keeps x + task.files.count x + (s'.file x).ref := by
  cases steps with
  | fails quiet =>
    simp only [Next.fails, Next.fds, Next.task, taskFiles, Option.elim, List.count_nil]
    omega
  | socket free =>
    rename_i f
    refine State.keeps_setFile (by rfl) (by rfl) ?_
    by_cases self : x = f
    · subst self
      simp [File.ends, File.newSocket, Next.fds, Next.task, taskFiles, free]
    · simp [File.ends, File.newSocket, Next.fds, Next.task, taskFiles, self, Ne.symm self]
  | socketShed free =>
    rename_i f
    refine State.keeps_setFile (by rfl) (by rfl) ?_
    by_cases self : x = f
    · subst self
      simp [File.ends, Next.fds, Next.task, taskFiles, Task.files, Job.close, Job.files, free]
    · simp [File.ends, Next.fds, Next.task, taskFiles, Task.files, Job.close, Job.files, self,
        Ne.symm self]
  | bind slot | listen used =>
    refine (State.keeps_setFile_setListener (by rfl) (by rfl) ?_ ?_ : _ + (0 + 0) + _ ≤ _ + (0 + 0) + _)
    · simp
    · simp [File.ends]
  | find found =>
    simp [Next.fds, Next.task, taskFiles, Task.files, Pair.files]
  | reader free =>
    rename_i c dir r
    refine State.keeps_setFile (by rfl) (by rfl) ?_
    by_cases self : x = r
    · subst self
      simp [File.ends, Next.fds, Next.task, taskFiles, Task.files, free]
      omega
    · simp [File.ends, Next.fds, Next.task, taskFiles, Task.files, self, Ne.symm self]
  | writer free =>
    rename_i c dir r w
    refine State.keeps_setFile (by rfl) (by rfl) ?_
    by_cases self : x = w
    · subst self
      simp [File.ends, Next.fds, Next.task, taskFiles, Task.files, free, List.count_cons]
      omega
    · simp [File.ends, Next.fds, Next.task, taskFiles, Task.files, self, Ne.symm self, List.count_cons]
  | page =>
    rename_i c dir r w frame kmem
    let t : State := { s with kmem := kmem, pipes := Function.update s.pipes frame ⟨true, true⟩ }
    let reader : File :=
      { s.file r with type := .pipe, readable := true, writable := false, pipe := some frame }
    have first : (t.setFile r reader).keeps x + (s.file x).ref ≤
        s.keeps x + ((t.setFile r reader).file x).ref :=
      State.keeps_plain rfl rfl (fun same => by cases same) rfl
    have second : (initPipe frame r w { s with kmem := kmem }).keeps x +
        ((t.setFile r reader).file x).ref ≤ (t.setFile r reader).keeps x +
          ((initPipe frame r w { s with kmem := kmem }).file x).ref :=
      State.keeps_plain rfl rfl (fun same => by cases same) rfl
    have files : (c.made dir r w).fds.count x + (taskFiles (c.made dir r w).task).count x ≤
        (Task.page c dir r w).files.count x := by
      cases dir <;> simp [Conn.made, Conn.set, Next.fds, Next.task, taskFiles, Task.files,
        Pair.files, List.count_cons]
      · omega
      · omega
    omega
  | endpoint free =>
    rename_i c ep
    refine State.keeps_setFile (by rfl) (by rfl) ?_
    have ends : ((s.file ep).newEndpoint c.c2s.r c.s2c.w).ends.count x =
        c.c2s.r.toList.count x + c.s2c.w.toList.count x := by
      simp [File.ends, File.newEndpoint]
    have worth : ((s.file ep).newEndpoint c.c2s.r c.s2c.w).ref = 1 := rfl
    simp only [ends, worth, free, Next.fds, Next.task, taskFiles, Option.elim, Task.files, Pair.files,
      List.count_cons, List.count_append, List.count_nil]
    by_cases self : x = ep
    · subst self
      simp only [beq_self_eq_true, if_true]
      omega
    · simp only [self, Ne.symm self, beq_iff_eq, if_false]
      omega
  | refuse =>
    simp [Next.fds, Next.task, taskFiles, Task.files, Job.close, Job.files, List.count_cons]
  | queue used =>
    rename_i c ep
    have files : (Task.queue c ep).files.count x =
        [ep].count x + (c.c2s.w.toList ++ c.s2c.r.toList).count x := by
      rw [← List.count_append]
      rfl
    rw [files, State.connected, State.enqueue]
    refine State.keeps_setFile_setListener (by rfl) (by rfl) ?_ ?_
    · simp [Next.fds]
    · simp only [File.ends, Next.task, taskFiles, Option.elim, List.count_nil]
      split
      · simp only [List.count_append]
        omega
      · simp
  | sleep =>
    simp [Next.fds, Next.task, taskFiles, Task.files]
  | accept front used =>
    rename_i f lid gen e rest
    refine State.keeps_setListener (by rfl) (by rfl) ?_
    rw [front]
    cases room <;> simp [install, Next.fds, Next.task, taskFiles, Task.files, Job.close, Job.files,
      List.count_cons]
  | closed => simp [Next.fds, Next.task, taskFiles]
  | job performed =>
    rename_i job rest more value
    have does := (does_of_perform performed).refs x
    simp only [Next.fds, Next.task, taskFiles, Option.elim, Task.files, List.flatMap_append,
      List.flatMap_cons, List.count_append, List.count_nil]
    omega

/-- Whether closing the file will free the slot. -/
def File.owns (file : File) (lid : Lid) : Nat :=
  if file.type = .usock ∧ file.lid = some lid then 1 else 0

theorem File.owns_le_one : file.owns lid ≤ 1 := by
  unfold File.owns
  split <;> omega

def taskFrees (task : Option Task) : List Lid :=
  (task.elim [] Task.jobs).flatMap Job.frees

def Listener.inUse (l : Listener) : Nat := if l.used then 1 else 0

namespace State

def owned (s : State) (lid : Lid) : Nat := ∑ y, (s.file y).owns lid

variable {s t : State} {i : Lid} {gain loss : Nat}

theorem claims_setFile {f : FilePtr} {file : File} (files : t.file = s.file)
    (slots : t.listeners = s.listeners) (fair : file.owns i + gain ≤ (s.file f).owns i + loss) :
    (t.setFile f file).owned i + gain + (s.listeners i).inUse ≤
      s.owned i + loss + ((t.setFile f file).listeners i).inUse := by
  have total := sum_update (fun file : File => file.owns i) s.file f file
  simp only [owned, setFile, files, slots]
  omega

theorem claims_setListener {lid : Lid} {l : Listener} (files : t.file = s.file)
    (slots : t.listeners = s.listeners) (fair : gain + (if i = lid then
    (s.listeners lid).inUse else 0) ≤ loss + if i = lid then l.inUse else 0) :
    (t.setListener lid l).owned i + gain + (s.listeners i).inUse ≤
      s.owned i + loss + ((t.setListener lid l).listeners i).inUse := by
  simp only [owned, setListener, files, slots]
  by_cases same : i = lid
  · subst same
    rw [Function.update_self]
    simp only [if_true] at fair
    omega
  · rw [Function.update_of_ne same]
    simp only [same, if_false] at fair
    omega

theorem claims_setFile_setListener {lid : Lid} {l : Listener} {f : FilePtr} {file : File}
    {gain' loss' : Nat} (files : t.file = s.file) (slots : t.listeners = s.listeners)
    (fair : gain + (if i = lid then (s.listeners lid).inUse else 0) ≤
      loss + if i = lid then l.inUse else 0)
    (fair' : file.owns i + gain' ≤ (s.file f).owns i + loss') :
    ((t.setListener lid l).setFile f file).owned i + (gain + gain') + (s.listeners i).inUse ≤
      s.owned i + (loss + loss') + (((t.setListener lid l).setFile f file).listeners i).inUse := by
  have first := claims_setListener files slots fair
  have same : (t.setListener lid l).file = s.file := files
  rw [← same] at fair'
  have second := claims_setFile (t := t.setListener lid l) rfl rfl fair'
  omega

end State

theorem File.release_frees : (file.release.flatMap Job.frees).count lid ≤ file.owns lid := by
  unfold File.release File.owns
  split
  · cases file.pipe <;> simp [Job.frees]
  · rename_i sock
    rw [sock]
    split
    · cases file.rx <;> cases file.tx <;> simp [closeIf, Job.close, Job.frees]
    all_goals cases file.lid with
      | none => simp
      | some other => simp [Job.frees, List.count_singleton]
  · simp

theorem Does.claims {s s' : State} {job : Job} {more : List Job} (does : Does s job more s')
    (i : Lid) : s'.owned i + (more.flatMap Job.frees).count i + (s.listeners i).inUse ≤
      s.owned i + job.frees.count i + (s'.listeners i).inUse := by
  cases does with
  | drop many => exact State.claims_setFile (by rfl) (by rfl) le_rfl
  | last one =>
    rename_i f tag
    refine State.claims_setFile (by rfl) (by rfl) ?_
    have none' : (s.file f).cleared.owns i = 0 := rfl
    have passed := (s.file f).release_frees i
    rw [none']
    omega
  | pipe pages =>
    rw [flatMap_pages pages fun _ => rfl]
    exact le_rfl
  | kfree => exact le_rfl
  | unbound unused =>
    simp only [List.flatMap_nil, List.count_nil]
    omega
  | unbind used =>
    rename_i lid
    refine State.claims_setListener (by rfl) (by rfl) ?_
    by_cases same : i = lid
    · subst same
      simp [Job.frees, Listener.inUse, used]
    · simp [Job.frees, same]
  | clear =>
    rename_i lid
    have none' : ((s.listeners lid).pending.map fun e => Job.fileclose e.file
        (some ⟨e.serial, lid, (s.listeners lid).gen⟩)).flatMap Job.frees = [] := by
      rw [List.flatMap_eq_nil_iff]
      intro job member
      obtain ⟨e, -, rfl⟩ := List.mem_map.mp member
      rfl
    rw [none']
    exact State.claims_setListener (by rfl) (by rfl) le_rfl

theorem Steps.claims {room : Bool} {s s' : State} {task : Task} {next : Next}
    (steps : Steps room s task next s') (i : Lid) :
    s'.owned i + (taskFrees next.task).count i + (s.listeners i).inUse ≤
      s.owned i + (taskFrees (some task)).count i + (s'.listeners i).inUse := by
  cases steps with
  | fails quiet =>
    simp only [Next.fails, Next.task, taskFrees, Option.elim, List.flatMap_nil, List.count_nil]
    omega
  | socket free | endpoint free => exact State.claims_setFile (by rfl) (by rfl) (Nat.zero_le _)
  | socketShed free | reader free | writer free =>
    exact State.claims_setFile (by rfl) (by rfl) le_rfl
  | bind slot =>
    rename_i f path lid
    have unused : (s.listeners lid).used = false := by simpa using List.find?_some slot
    have both : (s.bound f path lid).owned i + ((if i = lid then 1 else 0) + 0) +
        (s.listeners i).inUse ≤ s.owned i + (0 + if i = lid then 1 else 0) +
          ((s.bound f path lid).listeners i).inUse := by
      refine State.claims_setFile_setListener (by rfl) (by rfl) ?_ ?_
      · split <;> simp [Listener.inUse, unused]
      · by_cases same : i = lid
        · subst same
          simp only [File.owns, if_true]
          split <;> omega
        · simp [File.owns, same, Ne.symm same]
    simp only [Next.task, taskFrees, Option.elim, Task.jobs, List.flatMap_nil, List.count_nil]
    omega
  | listen used | queue used =>
    refine (State.claims_setFile_setListener (by rfl) (by rfl) ?_ ?_ :
      _ + (0 + 0) + _ ≤ _ + (0 + 0) + _)
    · simp [Listener.inUse]
    · simp [File.owns]
  | find found => exact le_rfl
  | page =>
    rename_i c dir r w frame kmem
    let t : State := { s with kmem := kmem, pipes := Function.update s.pipes frame ⟨true, true⟩ }
    let reader : File :=
      { s.file r with type := .pipe, readable := true, writable := false, pipe := some frame }
    have first : (t.setFile r reader).owned i + 0 + (s.listeners i).inUse ≤
        s.owned i + 0 + ((t.setFile r reader).listeners i).inUse :=
      State.claims_setFile rfl rfl (Nat.zero_le _)
    have second : (initPipe frame r w { s with kmem := kmem }).owned i + 0 +
        ((t.setFile r reader).listeners i).inUse ≤ (t.setFile r reader).owned i + 0 +
          ((initPipe frame r w { s with kmem := kmem }).listeners i).inUse :=
      State.claims_setFile rfl rfl (Nat.zero_le _)
    have none' : (taskFrees (c.made dir r w).task).count i = 0 := by
      cases dir <;> rfl
    omega
  | refuse => exact le_rfl
  | sleep => exact le_rfl
  | accept front used =>
    have none' (f : FilePtr) : (taskFrees (install room f).task).count i = 0 := by
      cases room <;> rfl
    rw [none']
    exact State.claims_setListener (by rfl) (by rfl) le_rfl
  | closed => exact le_rfl
  | job performed =>
    have does := (does_of_perform performed).claims i
    simp only [Next.task, taskFrees, Option.elim, Task.jobs, List.flatMap_append,
      List.flatMap_cons, List.count_append]
    omega

def tally (n : Nat) (tags : List Tag) : Nat := (tags.map Tag.serial).count n

@[simp] theorem tally_nil (n : Nat) : tally n [] = 0 := rfl

theorem tally_append (n : Nat) (first second : List Tag) :
    tally n (first ++ second) = tally n first + tally n second := by
  rw [tally, List.map_append, List.count_append, tally, tally]

/-- The endpoints that a task will close with their listener. -/
def taskTags (task : Option Task) : List Tag := (task.elim [] Task.jobs).flatMap Job.tags

namespace State

/-- How often the endpoint waits or has been dealt with. -/
def parked (s : State) (n : Nat) : Nat :=
  ∑ i, ((s.listeners i).pending.map Endpoint.serial).count n + tally n s.accepted + tally n s.closed

/-- Whether the serial number has been given out. -/
def issued (s : State) (n : Nat) : Nat := if n < s.queued.length then 1 else 0

theorem parked_setListener {s t : State} (queues : t.listeners = s.listeners) (lid : Lid)
    (l : Listener) (n : Nat) :
    (t.setListener lid l).parked n + ((s.listeners lid).pending.map Endpoint.serial).count n +
        (tally n s.accepted + tally n s.closed) =
      s.parked n + (l.pending.map Endpoint.serial).count n +
        (tally n t.accepted + tally n t.closed) := by
  have total := sum_update (fun l : Listener => (l.pending.map Endpoint.serial).count n)
    s.listeners lid l
  simp only [parked, setListener, queues]
  omega

/-- The queue of the slot does not change. -/
theorem parked_same (s : State) (lid : Lid) {l : Listener}
    (same : l.pending = (s.listeners lid).pending) (n : Nat) :
    (s.setListener lid l).parked n = s.parked n := by
  have moved := parked_setListener (s := s) rfl lid l n
  rw [same] at moved
  omega

theorem parked_move {s t : State} {lid : Lid} {l : Listener} {n more : Nat}
    (queues : t.listeners = s.listeners)
    (change : (l.pending.map Endpoint.serial).count n + (tally n t.accepted + tally n t.closed) =
      ((s.listeners lid).pending.map Endpoint.serial).count n +
        (tally n s.accepted + tally n s.closed) + more) :
    (t.setListener lid l).parked n = s.parked n + more := by
  have moved := parked_setListener queues lid l n
  omega

theorem parked_enqueue (s : State) (path : Path) (lid : Lid) (ep : FilePtr) (n : Nat) :
    (s.enqueue path lid ep).parked n = s.parked n + [s.queued.length].count n := by
  refine parked_move (by rfl) ?_
  rw [List.map_append, List.count_append]
  simp only [List.map_cons, List.map_nil]
  omega

theorem parked_accept {s : State} {lid : Lid} {e : Endpoint} {rest : List Endpoint}
    (front : (s.listeners lid).pending = e :: rest) (gen n : Nat) :
    (State.setListener { s with accepted := ⟨e.serial, lid, gen⟩ :: s.accepted } lid
      { s.listeners lid with pending := rest }).parked n = s.parked n + 0 := by
  refine parked_move (by rfl) ?_
  rw [front]
  simp only [tally, List.map_cons, List.count_cons]
  omega

@[simp] theorem parked_setFile (s : State) (f : FilePtr) (file : File) (n : Nat) :
    (s.setFile f file).parked n = s.parked n := rfl

@[simp] theorem issued_setFile (s : State) (f : FilePtr) (file : File) (n : Nat) :
    (s.setFile f file).issued n = s.issued n := rfl

@[simp] theorem issued_setListener (s : State) (lid : Lid) (l : Listener) (n : Nat) :
    (s.setListener lid l).issued n = s.issued n := rfl

end State

theorem File.release_tags : file.release.flatMap Job.tags = [] := by
  unfold File.release
  split
  · cases file.pipe <;> rfl
  · split
    · cases file.rx <;> cases file.tx <;> rfl
    · cases file.lid <;> rfl
    · cases file.lid <;> rfl
    · rfl
  · rfl

theorem clear_tags (gen n : Nat) :
    tally n ((l.map fun e => Job.fileclose e.file (some ⟨e.serial, lid, gen⟩)).flatMap Job.tags) =
      (l.map Endpoint.serial).count n := by
  induction l with
  | nil => rfl
  | cons e rest ih =>
    rw [List.map_cons, List.flatMap_cons, tally_append, ih, List.map_cons, List.count_cons]
    simp [tally, Job.tags, List.count_singleton, Nat.add_comm]

variable {s s' : State} {job : Job} {more : List Job} {task : Task} {room : Bool} {next : Next}
  {i : Lid}

theorem Does.places (does : Does s job more s') (n : Nat) :
    s'.parked n + tally n (more.flatMap Job.tags) = s.parked n + tally n job.tags ∧
      s'.queued = s.queued := by
  cases does with
  | drop many =>
    refine ⟨?_, rfl⟩
    simp only [State.parked, State.setFile, Job.tags, tally_append, List.flatMap_nil, tally_nil]
    omega
  | last one =>
    refine ⟨?_, rfl⟩
    rw [File.release_tags]
    simp only [State.parked, State.setFile, Job.tags, tally_append, tally_nil]
    omega
  | pipe pages =>
    rw [flatMap_pages pages fun _ => rfl]
    exact ⟨rfl, rfl⟩
  | kfree | unbound unused => exact ⟨rfl, rfl⟩
  | unbind used =>
    rename_i lid
    refine ⟨?_, rfl⟩
    have moved := State.parked_setListener (s := s) rfl lid
      { s.listeners lid with used := false, listening := false, backlog := 0, path := [] } n
    simp only [Job.tags, List.flatMap_cons, List.flatMap_nil, List.append_nil, tally_nil] at moved ⊢
    omega
  | clear =>
    rename_i lid
    refine ⟨?_, rfl⟩
    have moved := State.parked_setListener (s := s) rfl lid { s.listeners lid with pending := [] } n
    rw [clear_tags]
    simp only [Job.tags, tally_nil, List.map_nil, List.count_nil] at moved ⊢
    omega

theorem taskTags_of_quiet (quiet : ∀ jobs value, task ≠ .close jobs value) :
    taskTags (some task) = [] := by
  cases task with
  | close jobs value => exact absurd rfl (quiet jobs value)
  | _ => rfl

variable (steps : Steps room s task next s')

include steps

/-- A step moves endpoints, and loses none if a bound slot was empty. -/
theorem Steps.places
    (empty : ∀ f path, task = .bind f path → ∀ lid ∈ freeSlot s, (s.listeners lid).pending = [])
    (n : Nat) : s'.parked n + tally n (taskTags next.task) + s.issued n =
      s.parked n + tally n (taskTags (some task)) + s'.issued n := by
  cases steps with
  | fails quiet =>
    rw [taskTags_of_quiet quiet]
    rfl
  | socket free => rfl
  | socketShed free => rfl
  | bind slot =>
    rename_i f path lid
    have none' := empty f path rfl lid slot
    rw [State.bound, State.parked_setFile, State.parked_same s lid none'.symm, State.issued_setFile,
      State.issued_setListener]
    rfl
  | listen used =>
    rename_i f backlog lid
    rw [State.parked_setFile, State.issued_setFile, State.issued_setListener,
      State.parked_same s lid (l := { s.listeners lid with listening := true, backlog := backlog }) rfl]
    rfl
  | find found => rfl
  | reader free => rfl
  | writer free => rfl
  | page =>
    rename_i c dir r w frame kmem
    cases dir <;> rfl
  | endpoint free => rfl
  | refuse => rfl
  | queue used =>
    rename_i c ep
    have more : (s.connected c ep).issued n = s.issued n + [s.queued.length].count n := by
      simp only [State.issued, State.connected, State.enqueue, State.setFile, State.setListener,
        List.length_append, List.length_singleton, List.count_singleton, beq_iff_eq]
      split <;> split <;> split <;> omega
    rw [more, State.connected, State.parked_setFile, State.parked_enqueue]
    simp only [Next.task, taskTags, Option.elim, Task.jobs, List.flatMap_nil, tally_nil]
    omega
  | sleep => rfl
  | accept front used =>
    have none' (f : FilePtr) : tally n (taskTags (install room f).task) = 0 := by
      cases room <;> rfl
    rw [none', State.parked_accept front, State.issued_setListener]
    simp only [taskTags, Option.elim, Task.jobs, List.flatMap_nil, tally_nil, State.issued]
  | closed => rfl
  | job performed =>
    rename_i job rest more value
    obtain ⟨moved, queued⟩ := (does_of_perform performed).places n
    simp only [Next.task, taskTags, Option.elim, Task.jobs, List.flatMap_append, List.flatMap_cons,
      tally_append, State.issued, queued]
    omega

/-- The ways in which the slot `i` can change, to `l`, while the record of queued
endpoints becomes `queued`. -/
inductive SlotStep (s : State) (task : Task) (next : Next) (queued : List Queued) (i : Lid)
    (l : Listener) : Prop where
  | same (used : l.used = (s.listeners i).used) (path : l.path = (s.listeners i).path)
      (pending : l.pending = (s.listeners i).pending) (gen : l.gen = (s.listeners i).gen)
  | bound {f : FilePtr} {path : Path} (place : task = .bind f path) (slot : freeSlot s = some i)
      (named : l.path = path.take (USOCK_PATH_MAX - 1)) (pending : l.pending = [])
  | pushed {c : Conn} {ep : FilePtr} (place : task = .queue c ep) (mine : c.lid = i)
      (was : (s.listeners i).used = true) (used : l.used = (s.listeners i).used)
      (path : l.path = (s.listeners i).path) (gen : l.gen = (s.listeners i).gen)
      (pending : l.pending = (s.listeners i).pending ++ [⟨ep, s.queued.length⟩])
      (record : queued = s.queued ++ [⟨c.path, i, (s.listeners i).gen, (s.listeners i).path⟩])
  | popped {f : FilePtr} {gen : Nat} {e : Endpoint} (place : task = .accept f i gen)
      (was : (s.listeners i).used = true) (used : l.used = (s.listeners i).used)
      (path : l.path = (s.listeners i).path) (gen : l.gen = (s.listeners i).gen)
      (pending : (s.listeners i).pending = e :: l.pending)
  | freed {rest : List Job} {value : Int} (place : task = .close (.unbind i :: rest) value)
      (next : next = .goon (.close (.clear i :: rest) value)) (used : l.used = false)
      (path : l.path = []) (gen : l.gen = (s.listeners i).gen)
      (pending : l.pending = (s.listeners i).pending)
  | cleared {rest : List Job} {value : Int} (place : task = .close (.clear i :: rest) value)
      (used : l.used = (s.listeners i).used) (path : l.path = (s.listeners i).path)
      (gen : l.gen = (s.listeners i).gen) (pending : l.pending = [])

omit steps in
theorem SlotStep.refl (s : State) (task : Task) (next : Next) (queued : List Queued) (i : Lid) :
    SlotStep s task next queued i (s.listeners i) :=
  .same rfl rfl rfl rfl

omit steps in
theorem SlotStep.at {queued : List Queued} {lid : Lid} {l : Listener}
    (here : SlotStep s task next queued lid l) (i : Lid) :
    SlotStep s task next queued i (Function.update s.listeners lid l i) := by
  by_cases same : i = lid
  · subst same
    rw [Function.update_self]
    exact here
  · rw [Function.update_of_ne same]
    exact .refl s task next queued i

theorem Steps.slot (i : Lid) : SlotStep s task next s'.queued i (s'.listeners i) := by
  cases steps with
  | bind slot =>
    refine SlotStep.at ?_ i
    exact .bound rfl slot rfl rfl
  | listen used =>
    refine SlotStep.at ?_ i
    exact .same rfl rfl rfl rfl
  | queue used =>
    refine SlotStep.at ?_ i
    exact .pushed rfl rfl used rfl rfl rfl rfl rfl
  | accept front used =>
    refine SlotStep.at ?_ i
    exact .popped rfl used rfl rfl rfl front
  | job performed =>
    cases does_of_perform performed with
    | unbind used =>
      refine SlotStep.at ?_ i
      exact .freed rfl rfl rfl rfl rfl rfl
    | clear =>
      refine SlotStep.at ?_ i
      exact .cleared rfl rfl rfl rfl rfl
    | _ => exact .refl ..
  | _ => exact .refl ..

/-- The record of queued endpoints grows at its end. -/
theorem Steps.queued : s'.queued = s.queued ∨ ∃ c ep, task = .queue c ep ∧
      (s.listeners c.lid).used = true ∧ next = .done (.value 0 (some s.queued.length)) ∧
      s'.queued = s.queued ++
        [⟨c.path, c.lid, (s.listeners c.lid).gen, (s.listeners c.lid).path⟩] := by
  cases steps with
  | queue used => exact .inr ⟨_, _, rfl, used, rfl, rfl⟩
  | job performed =>
    cases does_of_perform performed <;> exact .inl rfl
  | _ => exact .inl rfl

omit steps in
theorem Does.tags (does : Does s job more s') {t : Tag}
    (member : t ∈ s'.accepted ∨ t ∈ s'.closed ∨ t ∈ more.flatMap Job.tags) :
    (t ∈ s.accepted ∨ t ∈ s.closed ∨ t ∈ job.tags) ∨
      ∃ e ∈ (s.listeners t.lid).pending, e.serial = t.serial ∧ (s.listeners t.lid).gen = t.gen := by
  have closing {f : FilePtr} {tag : Option Tag} (old : t ∈ s.accepted ∨ t ∈ tag.toList ++ s.closed) :
      t ∈ s.accepted ∨ t ∈ s.closed ∨ t ∈ (Job.fileclose f tag).tags := by
    rcases old with accepted | closed
    · exact .inl accepted
    · exact .inr ((List.mem_append.mp closed).symm)
  have keep (acc : s'.accepted = s.accepted) (closed : s'.closed = s.closed)
      (work : more.flatMap Job.tags = []) : t ∈ s.accepted ∨ t ∈ s.closed ∨ t ∈ job.tags := by
    rw [acc, closed, work] at member
    rcases member with accepted | closed | none'
    · exact .inl accepted
    · exact .inr (.inl closed)
    · cases none'
  cases does with
  | drop many =>
    refine .inl (closing (member.imp_right fun rest => rest.resolve_right ?_))
    simp
  | last one =>
    refine .inl (closing (member.imp_right fun rest => rest.resolve_right ?_))
    rw [File.release_tags]
    simp
  | pipe pages =>
    exact .inl (keep rfl rfl (flatMap_pages pages fun _ => rfl))
  | kfree | unbound unused | unbind used => exact .inl (keep rfl rfl rfl)
  | clear =>
    rename_i lid
    rcases member with accepted | closed | work
    · exact .inl (.inl accepted)
    · exact .inl (.inr (.inl closed))
    · obtain ⟨job, member, tag⟩ := List.mem_flatMap.mp work
      obtain ⟨e, waits, rfl⟩ := List.mem_map.mp member
      obtain rfl : t = ⟨e.serial, lid, (s.listeners lid).gen⟩ := by simpa [Job.tags] using tag
      exact .inr ⟨e, waits, rfl, rfl⟩

/-- Where the records of accepted and closed endpoints and the work left come from. -/
theorem Steps.tags {t : Tag} (member : t ∈ s'.accepted ∨ t ∈ s'.closed ∨ t ∈ taskTags next.task) :
    (t ∈ s.accepted ∨ t ∈ s.closed ∨ t ∈ taskTags (some task)) ∨
      (∃ f e, task = .accept f t.lid t.gen ∧ e ∈ (s.listeners t.lid).pending ∧ e.serial = t.serial) ∨
      ∃ e ∈ (s.listeners t.lid).pending, e.serial = t.serial ∧ (s.listeners t.lid).gen = t.gen := by
  have keep (acc : s'.accepted = s.accepted) (closed : s'.closed = s.closed)
      (work : ∀ t ∈ taskTags next.task, t ∈ taskTags (some task)) :
      (t ∈ s.accepted ∨ t ∈ s.closed ∨ t ∈ taskTags (some task)) := by
    rw [acc, closed] at member
    exact member.imp_right (Or.imp_right (work t))
  cases steps with
  | accept front used =>
    rename_i f lid gen e rest
    have none' : taskTags (install room e.file).task = [] := by
      cases room <;> rfl
    rw [none'] at member
    rcases member with accepted | closed | work
    · rcases List.mem_cons.mp accepted with rfl | old
      · exact .inr (.inl ⟨f, e, rfl, by rw [front]; exact List.mem_cons_self, rfl⟩)
      · exact .inl (.inl old)
    · exact .inl (.inr (.inl closed))
    · cases work
  | page =>
    rename_i c dir r w frame kmem
    refine .inl (keep rfl rfl ?_)
    cases dir <;> nofun
  | job performed =>
    rename_i job rest more value
    have split : t ∈ taskTags (some (.close (job :: rest) value)) ↔
        t ∈ job.tags ∨ t ∈ rest.flatMap Job.tags := by
      simp [taskTags, Task.jobs]
    have split' : t ∈ taskTags (Next.goon (.close (more ++ rest) value)).task ↔
        t ∈ more.flatMap Job.tags ∨ t ∈ rest.flatMap Job.tags := by
      simp [taskTags, Task.jobs, Next.task]
    rw [split'] at member
    rw [split]
    have does := (does_of_perform performed).tags (t := t)
    rcases member with accepted | closed | work | later
    · exact (does (.inl accepted)).imp (Or.imp_right (Or.imp_right .inl)) .inr
    · exact (does (.inr (.inl closed))).imp (Or.imp_right (Or.imp_right .inl)) .inr
    · exact (does (.inr (.inr work))).imp (Or.imp_right (Or.imp_right .inl)) .inr
    · exact .inl (.inr (.inr (.inr later)))
  | _ => exact .inl (keep rfl rfl nofun)

omit steps in
/-- Nobody becomes an owner of the slot by the change of one file. -/
theorem State.owns_setFile {t : State} {f : FilePtr} {file : File} (files : t.file = s.file)
    (less : file.owns i ≤ (s.file f).owns i) (y : FilePtr) :
    ((t.setFile f file).file y).owns i ≤ (s.file y).owns i := by
  by_cases same : y = f
  · subst same
    rw [State.setFile_file_self]
    exact less
  · rw [State.setFile_file_of_ne _ _ same, files]

omit steps in
theorem Does.owners (does : Does s job more s') (i : Lid) (y : FilePtr) :
    (s'.file y).owns i ≤ (s.file y).owns i := by
  cases does with
  | drop many => exact State.owns_setFile (by rfl) (by exact le_rfl) y
  | last one => exact State.owns_setFile (by rfl) (Nat.zero_le _) y
  | _ => exact le_rfl

/-- A slot in use gets no new owner. -/
theorem Steps.owners (used : (s.listeners i).used = true)
    (y : FilePtr) : (s'.file y).owns i ≤ (s.file y).owns i := by
  cases steps with
  | socket free | endpoint free => exact State.owns_setFile (by rfl) (Nat.zero_le _) y
  | socketShed free | listen _ | reader free | writer free | queue _ =>
    exact State.owns_setFile (by rfl) (by exact le_rfl) y
  | bind slot =>
    rename_i f path lid
    have unused : (s.listeners lid).used = false := by simpa using List.find?_some slot
    have other : lid ≠ i := by
      rintro rfl
      rw [used] at unused
      cases unused
    refine State.owns_setFile (by rfl) ?_ y
    simp [File.owns, other]
  | page =>
    exact le_trans (State.owns_setFile (by rfl) (Nat.zero_le _) y)
      (State.owns_setFile (by rfl) (Nat.zero_le _) y)
  | job performed => exact (does_of_perform performed).owners i y
  | _ => exact le_rfl

/-- Work to free a slot comes from closing the last reference to its owner. -/
theorem Steps.frees
    (none' : (taskFrees (some task)).count i = 0) : (taskFrees next.task).count i = 0 ∨
      ∃ f, (s.file f).ref = 1 ∧ (s.file f).owns i = 1 ∧ 0 < task.files.count f := by
  cases steps with
  | page =>
    rename_i c dir r w frame kmem
    cases dir <;> exact .inl rfl
  | accept front used => cases room <;> exact .inl rfl
  | job performed =>
    rename_i job rest more value
    have rest0 : (rest.flatMap Job.frees).count i = 0 := by
      simp only [taskFrees, Option.elim, Task.jobs, List.flatMap_cons, List.count_append] at none'
      omega
    have split : (taskFrees (Next.goon (.close (more ++ rest) value)).task).count i =
        (more.flatMap Job.frees).count i := by
      simp only [taskFrees, Next.task, Option.elim, Task.jobs, List.flatMap_append,
        List.count_append, rest0, Nat.add_zero]
    rw [split]
    cases does_of_perform performed with
    | last one =>
      rename_i f tag
      by_cases owner : (s.file f).owns i = 1
      · exact .inr ⟨f, one, owner, by simp [Task.files, Job.files]⟩
      · have passed := (s.file f).release_frees i
        have bounded := (s.file f).owns_le_one i
        exact .inl (by omega)
    | pipe pages =>
      refine .inl ?_
      rw [flatMap_pages pages fun _ => rfl]
      rfl
    | clear =>
      refine .inl ?_
      rw [List.count_eq_zero]
      intro member
      obtain ⟨job, member, tag⟩ := List.mem_flatMap.mp member
      obtain ⟨e, waits, rfl⟩ := List.mem_map.mp member
      cases tag
    | _ => exact .inl rfl
  | _ => exact .inl rfl

omit steps in
theorem File.release_clears (i : Lid) : .clear i ∉ file.release := by
  unfold File.release
  split
  · cases file.pipe <;> simp
  · split
    · cases file.rx <;> cases file.tx <;> simp [closeIf, Job.close]
    · cases file.lid <;> simp
    · cases file.lid <;> simp
    · simp
  · simp

/-- Work to clear a slot comes from freeing it. -/
theorem Steps.clears (member : .clear i ∈ (next.task.elim [] Task.jobs)) :
    .clear i ∈ task.jobs ∨ (s'.listeners i).used = false := by
  cases steps with
  | page =>
    rename_i c dir r w frame kmem
    cases dir <;> cases member
  | accept front used =>
    cases room
    · simp [install, Next.task, Task.jobs, Job.close] at member
    · cases member
  | socketShed free | refuse => simp [Next.task, Task.jobs, Job.close] at member
  | job performed =>
    rename_i job rest more value
    rcases List.mem_append.mp member with new | old
    · cases does_of_perform performed with
      | drop many => cases new
      | last one => exact absurd new (File.release_clears _ i)
      | pipe pages => cases pages _ new
      | kfree => cases new
      | unbound unused => cases new
      | unbind used =>
        obtain rfl : i = _ := by simpa using new
        exact .inr (by simp [State.setListener])
      | clear =>
        obtain ⟨e, -, same⟩ := List.mem_map.mp new
        cases same
    · exact .inl (List.mem_cons_of_mem job old)
  | _ => cases member

theorem Steps.clear_stays (member : .clear i ∈ task.jobs) :
    .clear i ∈ (next.task.elim [] Task.jobs) ∨ (s'.listeners i).pending = [] := by
  cases steps with
  | fails quiet =>
    cases task with
    | close jobs value => exact absurd rfl (quiet jobs value)
    | _ => cases member
  | job performed =>
    rename_i job rest more value
    rcases List.mem_cons.mp member with rfl | later
    · cases does_of_perform performed
      exact .inr (by simp [State.setListener])
    · exact .inl (List.mem_append_right more later)
  | _ => cases member

/-- Where a connection in progress comes from. -/
theorem Steps.conn {task' : Task}
    (goes : next.task = some task') {c : Conn} (member : task'.conn = some c) :
    (∃ c₀, task.conn = some c₀ ∧ c₀.lid = c.lid ∧ c₀.path = c.path) ∨
      ∃ f, task = .find f c.path ∧ findListener s c.path = some c.lid ∧ s' = s := by
  cases steps with
  | find found =>
    cases goes
    cases member
    exact .inr ⟨_, rfl, found, rfl⟩
  | reader free | writer free | endpoint free =>
    cases goes
    cases member
    exact .inl ⟨_, rfl, rfl, rfl⟩
  | page =>
    rename_i c₀ dir r w frame kmem
    cases dir <;> cases goes <;> cases member <;> exact .inl ⟨_, rfl, rfl, rfl⟩
  | accept front used =>
    cases room <;> cases goes
    cases member
  | _ => cases goes <;> cases member

/-- `usock_accept` sleeps without changing anything. -/
theorem Steps.accept_sleeps {f : FilePtr} {gen : Nat}
    (goes : next.task = some (.accept f i gen)) : task = .accept f i gen ∧ s' = s := by
  cases steps with
  | sleep =>
    cases goes
    exact ⟨rfl, rfl⟩
  | page =>
    rename_i c dir r w frame kmem
    cases dir <;> cases goes
  | accept front used => cases room <;> cases goes
  | _ => cases goes

theorem Steps.not_find (f : FilePtr) (path : Path) : next.task ≠ some (.find f path) := by
  intro goes
  cases steps with
  | page =>
    rename_i c dir r w frame kmem
    cases dir <;> cases goes
  | accept front used => cases room <;> cases goes
  | _ => cases goes

end SirpairOs.Usock
