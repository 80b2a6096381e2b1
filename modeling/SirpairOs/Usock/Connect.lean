import SirpairOs.Usock.Model

/-! What a failed `usock_connect` leaves behind. The outcome depends on how many
files are free and on the two calls of `kalloc`. -/
namespace SirpairOs.Usock

open Mem (Kmem)

namespace State

@[simp] theorem setFile_file_self (s : State) (f : FilePtr) (file : File) :
    (s.setFile f file).file f = file := Function.update_self ..

theorem setFile_file_of_ne (s : State) {f g : FilePtr} (file : File) (other : g ≠ f) :
    (s.setFile f file).file g = s.file g := Function.update_of_ne other ..

@[simp] theorem setFile_pipes (s : State) (f : FilePtr) (file : File) :
    (s.setFile f file).pipes = s.pipes := rfl

@[simp] theorem setFile_kmem (s : State) (f : FilePtr) (file : File) :
    (s.setFile f file).kmem = s.kmem := rfl

@[simp] theorem setFile_listeners (s : State) (f : FilePtr) (file : File) :
    (s.setFile f file).listeners = s.listeners := rfl

def freeFiles (s : State) : Finset FilePtr := Finset.univ.filter fun f => (s.file f).ref = 0

theorem mem_freeFiles (s : State) (f : FilePtr) : f ∈ s.freeFiles ↔ (s.file f).ref = 0 := by
  simp [freeFiles]

end State

variable {s s' s₁ s₂ t : State} {f r r' w w' x : FilePtr} {page page' : Nat} {jobs : List Job}
  {lid : Lid} {path : Path}

theorem filealloc_none (full : s.freeFiles = ∅) : filealloc s = (none, s) := by
  have nothing : freeFile s = none := by
    rw [freeFile, List.find?_eq_none]
    intro f _ free
    have : f ∈ s.freeFiles := (s.mem_freeFiles f).mpr (by simpa using free)
    rw [full] at this
    exact absurd this (Finset.notMem_empty f)
  simp only [filealloc, nothing]

/-- The file taken was free, and one free file less is left. -/
theorem filealloc_some (room : s.freeFiles.Nonempty) : ∃ f,
    f ∈ s.freeFiles ∧ filealloc s = (some f, s.setFile f { s.file f with ref := 1 }) ∧
      (s.setFile f { s.file f with ref := 1 }).freeFiles = s.freeFiles.erase f := by
  obtain ⟨g, free⟩ := room
  cases found : freeFile s with
  | none =>
    rw [freeFile, List.find?_eq_none] at found
    exact absurd ((s.mem_freeFiles g).mp free) (by simpa using found g (List.mem_finRange g))
  | some f =>
    have free : (s.file f).ref = 0 := by simpa using List.find?_some found
    refine ⟨f, (s.mem_freeFiles f).mpr free, by simp only [filealloc, found], ?_⟩
    ext x
    rw [Finset.mem_erase, State.mem_freeFiles, State.mem_freeFiles]
    by_cases same : x = f
    · subst same
      simp
    · rw [State.setFile_file_of_ne _ _ same]
      simp [same]

/-- `s'` is `s` with a new pipe on `page` between the files `r` and `w`. -/
structure Made (s s' : State) (r w : FilePtr) (page : Nat) : Prop where
  ne : r ≠ w
  free : r ∈ s.freeFiles ∧ w ∈ s.freeFiles
  reader : (s'.file r).ref = 1 ∧ (s'.file r).release = [.pipeclose page false]
  writer : (s'.file w).ref = 1 ∧ (s'.file w).release = [.pipeclose page true]
  others : ∀ x, x ≠ r → x ≠ w → s'.file x = s.file x
  ends : s'.pipes page = ⟨true, true⟩
  pipes : ∀ other, other ≠ page → s'.pipes other = s.pipes other
  kmem : s.kmem.kalloc = (some page, s'.kmem)
  listeners : s'.listeners = s.listeners

theorem Made.freeFiles (made : Made s s' r w page) :
    s'.freeFiles = (s.freeFiles.erase r).erase w := by
  ext x
  rw [Finset.mem_erase, Finset.mem_erase, State.mem_freeFiles, State.mem_freeFiles]
  by_cases reader : x = r
  · subst reader
    simp [made.reader.1]
  · by_cases writer : x = w
    · subst writer
      simp [made.writer.1]
    · rw [made.others x reader writer]
      simp [reader, writer]

theorem Made.card (made : Made s s' r w page) : s'.freeFiles.card + 2 = s.freeFiles.card := by
  have second : w ∈ s.freeFiles.erase r := Finset.mem_erase.mpr ⟨made.ne.symm, made.free.2⟩
  have one := Finset.card_erase_add_one made.free.1
  have two := Finset.card_erase_add_one second
  rw [made.freeFiles]
  omega

theorem runJobs_close (last : (s.file f).ref = 1) (rest : List Job) : runJobs (.close f :: rest) s =
      runJobs ((s.file f).release ++ rest) (s.setFile f (s.file f).cleared) := by
  rw [runJobs_cons, Job.close]
  simp [Job.perform, last, Option.toList]

/-- `fileclose` never adds a reference. -/
theorem Job.perform_refs {job : Job} {more : List Job} (done : job.perform s = .ok more s')
    (x : FilePtr) : (s'.file x).ref ≤ (s.file x).ref := by
  cases job with
  | fileclose f serial =>
    simp only [Job.perform] at done
    split at done
    · cases done
    · by_cases same : x = f
      · subst same
        split at done <;> cases done <;> simp [File.cleared]
      · split at done <;> cases done <;> rw [State.setFile_file_of_ne _ _ same]
  | pipeclose page writable | unbind lid =>
    simp only [Job.perform] at done
    split at done <;> cases done <;> rfl
  | kfree page =>
    cases done
    rfl
  | clear lid =>
    cases done
    rfl

theorem runJobs_refs (done : runJobs jobs s = .ok () s') (x : FilePtr) :
    (s'.file x).ref ≤ (s.file x).ref := by
  fun_induction runJobs jobs s with
  | case1 s =>
    cases done
    rfl
  | case2 s job rest more t performed ih => exact (ih done).trans (job.perform_refs performed x)
  | case3 s job rest reason t performed => cases done

theorem Job.perform_halt {job : Job} {reason : Halt} (halted : job.perform s = .halt reason s') :
    reason = .panic .fileclose := by
  cases job with
  | fileclose f serial =>
    simp only [Job.perform] at halted
    split at halted
    · cases halted
      rfl
    · split at halted <;> cases halted
  | pipeclose page writable | unbind lid =>
    simp only [Job.perform] at halted
    split at halted <;> cases halted
  | kfree page => cases halted
  | clear lid => cases halted

def Panics {α : Type} (o : Outcome Halt State α) : Prop := ∃ t, o = .halt (.panic .fileclose) t

theorem runJobs_halt {reason : Halt} (halted : runJobs jobs s = .halt reason s') :
    reason = .panic .fileclose := by
  fun_induction runJobs jobs s with
  | case1 s => cases halted
  | case2 s job rest more t performed ih => exact ih halted
  | case3 s job rest reason' t performed =>
    cases halted
    exact job.perform_halt performed

/-- Closing a file without references panics, whatever is closed before. -/
theorem runJobs_dead (member : .close x ∈ jobs) (dead : (s.file x).ref = 0) :
    Panics (runJobs jobs s) := by
  fun_induction runJobs jobs s with
  | case1 s => cases member
  | case2 s job rest more t performed ih =>
    rcases List.mem_cons.mp member with same | later
    · subst same
      simp [Job.close, Job.perform, dead] at performed
    · refine ih (List.mem_append_right more later) ?_
      exact Nat.le_zero.mp (dead ▸ job.perform_refs performed x)
  | case3 s job rest reason t performed => exact ⟨t, by rw [job.perform_halt performed]⟩

/-- After a file with one reference has been closed it has none. -/
theorem runJobs_close_dead {rest : List Job} (last : (s.file f).ref = 1)
    (done : runJobs (.close f :: rest) s = .ok () s') : (s'.file f).ref = 0 := by
  rw [runJobs_close last] at done
  have := runJobs_refs done f
  simpa [File.cleared] using this

/-- `t` after one file of a pipe has been closed while the other end is open. -/
def State.closeEnd (t : State) (f : FilePtr) (page : Nat) (writable : Bool) : State :=
  { t.setFile f (t.file f).cleared with
    pipes := Function.update t.pipes page (Ends.close ⟨true, true⟩ writable) }

theorem runJobs_end {writable : Bool}
    (last : (t.file f).ref = 1 ∧ (t.file f).release = [.pipeclose page writable])
    (ends : t.pipes page = ⟨true, true⟩) (rest : List Job) :
    runJobs (.close f :: rest) t = runJobs rest (t.closeEnd f page writable) := by
  rw [runJobs_close last.1, last.2, List.singleton_append, runJobs_cons]
  have stays : Job.perform (.pipeclose page writable) (t.setFile f (t.file f).cleared) =
      .ok [] (t.closeEnd f page writable) := by
    simp only [Job.perform, State.setFile_pipes, ends]
    cases writable <;> rfl
  rw [stays, Outcome.bind_ok, List.nil_append]

/-- `t'` is `t` with both files of a pipe closed and its page freed. -/
structure Unmade (t t' : State) (r w : FilePtr) (page : Nat) : Prop where
  refs : (t'.file r).ref = 0 ∧ (t'.file w).ref = 0
  others : ∀ x, x ≠ r → x ≠ w → t'.file x = t.file x
  pipes : ∀ other, other ≠ page → t'.pipes other = t.pipes other
  kmem : t'.kmem = t.kmem.kfree page

theorem runJobs_pipe (ne : r ≠ w)
    (reader : (t.file r).ref = 1 ∧ (t.file r).release = [.pipeclose page false])
    (writer : (t.file w).ref = 1 ∧ (t.file w).release = [.pipeclose page true])
    (ends : t.pipes page = ⟨true, true⟩) (rest : List Job) :
    ∃ t', runJobs (.close r :: .close w :: rest) t = runJobs rest t' ∧ Unmade t t' r w page := by
  let t₁ := t.closeEnd r page false
  let t₂ := t₁.setFile w (t₁.file w).cleared
  let t₃ : State := { t₂ with pipes := Function.update t₂.pipes page ⟨false, false⟩ }
  have same : t₁.file w = t.file w := t.setFile_file_of_ne _ ne.symm
  refine ⟨{ t₃ with kmem := t₃.kmem.kfree page }, ?_, ?_⟩
  · have flags : t₂.pipes page = ⟨false, true⟩ := Function.update_self ..
    have last : Job.perform (.pipeclose page true) t₂ = .ok [.kfree page] t₃ := by
      simp only [Job.perform, Ends.close, flags]
      rfl
    rw [runJobs_end reader ends, runJobs_close (s := t₁) (same ▸ writer.1), same, writer.2,
      List.singleton_append, runJobs_cons, ← same, last, Outcome.bind_ok, List.singleton_append,
      runJobs_cons]
    rfl
  · refine ⟨⟨?_, ?_⟩, fun x reader writer => ?_, fun other apart => ?_, rfl⟩
    · change (t₂.file r).ref = 0
      rw [show t₂.file r = t₁.file r from t₁.setFile_file_of_ne _ ne]
      change ((t.setFile r (t.file r).cleared).file r).ref = 0
      rw [State.setFile_file_self]
      rfl
    · change (t₂.file w).ref = 0
      rw [State.setFile_file_self]
      rfl
    · change t₂.file x = t.file x
      rw [show t₂.file x = t₁.file x from t₁.setFile_file_of_ne _ writer]
      exact t.setFile_file_of_ne _ reader
    · change Function.update t₂.pipes page _ other = t.pipes other
      rw [Function.update_of_ne apart]
      exact Function.update_of_ne apart ..

theorem pipealloc_full (full : s.freeFiles.card = 0) :
    pipealloc s = .ok (false, ⟨none, none⟩) s := by
  simp only [pipealloc, filealloc_none (Finset.card_eq_zero.mp full), Pair.close, closeIf,
    Option.toList, List.map_nil, List.append_nil, runJobs_nil, Outcome.bind_ok]

theorem filealloc_two (room : 2 ≤ s.freeFiles.card) : ∃ r w s₁ s₂,
    filealloc s = (some r, s₁) ∧ filealloc s₁ = (some w, s₂) ∧ r ≠ w ∧
      (r ∈ s.freeFiles ∧ w ∈ s.freeFiles) ∧ s₁ = s.setFile r { s.file r with ref := 1 } ∧
      s₂ = s₁.setFile w { s₁.file w with ref := 1 } := by
  obtain ⟨r, free, first, left⟩ := filealloc_some (s := s) (Finset.card_pos.mp (by omega))
  have more : (s.setFile r { s.file r with ref := 1 }).freeFiles.Nonempty := by
    rw [left, ← Finset.card_pos, Finset.card_erase_of_mem free]
    omega
  obtain ⟨w, free', second, -⟩ := filealloc_some more
  rw [left, Finset.mem_erase] at free'
  exact ⟨r, w, _, _, first, second, free'.1.symm, ⟨free, free'.2⟩, rfl, rfl⟩

/-- The cleanup of `pipealloc` takes the only reference of `*f0`. -/
theorem pipealloc_bad {w : Option FilePtr} (last : (s.file r).ref = 1) :
    ((runJobs (Pair.close ⟨some r, w⟩) s).bind fun _ s' =>
        .ok (false, (⟨some r, w⟩ : Pair)) s').Satisfies
      (fun result s' => result.1 = false ∧ ∃ r, result.2.r = some r ∧ (s'.file r).ref = 0)
      fun reason _ => reason = .panic .fileclose := by
  cases done : runJobs (Pair.close ⟨some r, w⟩) s with
  | halt reason t => exact runJobs_halt done
  | ok _ t => exact ⟨rfl, r, rfl, runJobs_close_dead last done⟩

/-- After a late failure `*f0` points to a file that is closed already. -/
theorem pipealloc_fails (why : s.freeFiles.card = 1 ∨ 2 ≤ s.freeFiles.card ∧ ¬ s.kmem.Grants) :
    (pipealloc s).Satisfies
      (fun result s' => result.1 = false ∧ ∃ r, result.2.r = some r ∧ (s'.file r).ref = 0)
      fun reason _ => reason = .panic .fileclose := by
  rcases why with one | ⟨room, refused⟩
  · obtain ⟨r, free, first, left⟩ := filealloc_some (s := s) (Finset.card_pos.mp (by omega))
    have none' : (s.setFile r { s.file r with ref := 1 }).freeFiles = ∅ := by
      rw [left, ← Finset.card_eq_zero, Finset.card_erase_of_mem free, one]
    simp only [pipealloc, first, filealloc_none none']
    exact pipealloc_bad (by simp)
  · obtain ⟨r, w, s₁, s₂, first, second, ne, free, rfl, rfl⟩ := filealloc_two room
    simp only [pipealloc, first, second]
    rw [State.setFile_kmem, State.setFile_kmem, Kmem.kalloc_of_not_grants refused]
    refine pipealloc_bad ?_
    change ((State.setFile _ w _).file r).ref = 1
    rw [State.setFile_file_of_ne _ _ ne, State.setFile_file_self]

theorem pipealloc_made (room : 2 ≤ s.freeFiles.card) (granted : s.kmem.Grants) :
    ∃ r w page s', pipealloc s = .ok (true, ⟨some r, some w⟩) s' ∧ Made s s' r w page := by
  obtain ⟨r, w, s₁, s₂, first, second, ne, free, rfl, rfl⟩ := filealloc_two room
  obtain ⟨page, kmem, taken, -⟩ := Kmem.kalloc_of_grants granted
  refine ⟨r, w, page, _, by simp only [pipealloc, first, second, State.setFile_kmem, taken]; rfl, ?_⟩
  constructor
  · exact ne
  · exact free
  · simp [initPipe, File.release, State.setFile_file_of_ne, ne]
  · simp [initPipe, File.release, State.setFile_file_of_ne, ne.symm]
  · intro x reader writer
    simp [initPipe, State.setFile_file_of_ne, reader, writer]
  · exact Function.update_self ..
  · exact fun other apart => Function.update_of_ne apart ..
  · exact taken
  · rfl

/-- A call that has failed has left the references and the free pages as they
were, and there was no panic. -/
def Clean (s : State) (o : Outcome Halt State Int) : Prop :=
  o.Satisfies
    (fun value s' => value = -1 →
      (∀ x, (s'.file x).ref = (s.file x).ref) ∧ s.kmem.SameFree s'.kmem)
    fun _ _ => False

/-- The call fails before it takes anything. -/
def FailsEarly (f : FilePtr) (path : Path) (s : State) : Prop :=
  (s.file f).fresh = false ∨ validPath path = false ∨ findListener s path = none

def GrantsTwo (m : Kmem) : Prop := m.Grants ∧ m.kalloc.2.Grants

/-- Files and pages run out at a moment that `usock_connect` is prepared for, or
not at all. -/
def Supplied (s : State) (lid : Lid) : Prop :=
  s.freeFiles.card = 0 ∨ s.freeFiles.card = 2 ∧ s.kmem.Grants ∨
    s.freeFiles.card = 4 ∧ GrantsTwo s.kmem ∨
    5 ≤ s.freeFiles.card ∧ GrantsTwo s.kmem ∧ (s.listeners lid).listening = true ∧
      (s.listeners lid).cnt < (s.listeners lid).backlog

theorem Pair.close_mem {p : Pair} (reader : p.r = some r) : .close r ∈ p.close := by
  simp [Pair.close, closeIf, reader]

/-- The cleanup runs into a file that `pipealloc` has closed. -/
theorem connectFails_dead {c2s s2c : Pair} (member : .close x ∈ c2s.close ++ s2c.close)
    (dead : (s.file x).ref = 0) : Panics (connectFails none c2s s2c s) := by
  obtain ⟨t, halted⟩ := runJobs_dead member dead
  rw [connectFails, connectBad, halted]
  exact ⟨t, rfl⟩

/-- What follows a late failure of `pipealloc` closes `*f0` again. -/
theorem panics_of_pipealloc {next : Bool × Pair → State → Outcome Halt State Int}
    (why : s.freeFiles.card = 1 ∨ 2 ≤ s.freeFiles.card ∧ ¬ s.kmem.Grants)
    (bad : ∀ p r t, p.r = some r → (t.file r).ref = 0 → Panics (next (false, p) t)) :
    Panics ((pipealloc s).bind next) := by
  have fails := pipealloc_fails why
  revert fails
  cases pipealloc s with
  | halt reason t =>
    rintro rfl
    exact ⟨t, rfl⟩
  | ok result t =>
    obtain ⟨ok, p⟩ := result
    rintro ⟨failed, r, reader, dead⟩
    obtain rfl : ok = false := failed
    exact bad p r t reader dead

theorem Panics.not_clean {o : Outcome Halt State Int} (panics : Panics o) : ¬ Clean s o := by
  obtain ⟨t, rfl⟩ := panics
  exact id

section Made

variable (made : Made s s₁ r w page)

include made

theorem Made.apart (made' : Made s₁ s₂ r' w' page') :
    (r ≠ r' ∧ r ≠ w') ∧ (w ≠ r' ∧ w ≠ w') ∧ page ≠ page' := by
  have live {x y : FilePtr} (one : (s₁.file x).ref = 1) (free : y ∈ s₁.freeFiles) : x ≠ y := by
    rintro rfl
    rw [State.mem_freeFiles, one] at free
    cases free
  refine ⟨⟨live made.reader.1 made'.free.1, live made.reader.1 made'.free.2⟩,
    ⟨live made.writer.1 made'.free.1, live made.writer.1 made'.free.2⟩, ?_⟩
  rintro rfl
  have free := (Kmem.free_of_kalloc made'.kmem).1
  exact (((Kmem.free_of_kalloc made.kmem).2 page).mp free).2 rfl

theorem Made.ref (other : ¬ (x = r ∨ x = w)) : (s₁.file x).ref = (s.file x).ref := by
  rw [not_or] at other
  rw [made.others x other.1 other.2]

theorem Made.ref_zero (mine : x = r ∨ x = w) : (s.file x).ref = 0 := by
  rcases mine with rfl | rfl
  · exact (s.mem_freeFiles x).mp made.free.1
  · exact (s.mem_freeFiles x).mp made.free.2

omit made in
theorem Unmade.ref {t' : State} (unmade : Unmade t t' r w page) (x : FilePtr) :
    (t'.file x).ref = if x = r ∨ x = w then 0 else (t.file x).ref := by
  split
  · rename_i mine
    rcases mine with rfl | rfl
    · exact unmade.refs.1
    · exact unmade.refs.2
  · rename_i other
    rw [not_or] at other
    rw [unmade.others x other.1 other.2]

theorem clean_two : Clean s (connectFails none ⟨some r, some w⟩ ⟨none, none⟩ s₁) := by
  obtain ⟨t, closed, unmade⟩ := runJobs_pipe made.ne made.reader made.writer made.ends []
  have jobs : connectBad none ⟨some r, some w⟩ ⟨none, none⟩ = [.close r, .close w] := rfl
  rw [connectFails, jobs, closed, runJobs_nil]
  refine fun _ => ⟨fun x => ?_, fun other => ?_⟩
  · rw [unmade.ref]
    split
    · rename_i mine
      exact (made.ref_zero mine).symm
    · rename_i other
      exact made.ref other
  · obtain ⟨free, left⟩ := Kmem.free_of_kalloc made.kmem
    rw [unmade.kmem, Kmem.free_kfree, left]
    by_cases given : other = page
    · subst given
      simp [free]
    · simp [given]

theorem clean_four (made' : Made s₁ s₂ r' w' page') :
    Clean s (connectFails none ⟨some r, some w⟩ ⟨some r', some w'⟩ s₂) := by
  obtain ⟨⟨rr, rw'⟩, ⟨wr, ww⟩, pages⟩ := made.apart made'
  have sameR : s₂.file r = s₁.file r := made'.others r rr rw'
  have sameW : s₂.file w = s₁.file w := made'.others w wr ww
  obtain ⟨t, closed, unmade⟩ := runJobs_pipe made.ne (sameR ▸ made.reader) (sameW ▸ made.writer)
    ((made'.pipes page pages).trans made.ends) [.close r', .close w']
  have sameR' : t.file r' = s₂.file r' := unmade.others r' rr.symm wr.symm
  have sameW' : t.file w' = s₂.file w' := unmade.others w' rw'.symm ww.symm
  obtain ⟨t', closed', unmade'⟩ := runJobs_pipe made'.ne (sameR' ▸ made'.reader)
    (sameW' ▸ made'.writer) ((unmade.pipes page' pages.symm).trans made'.ends) []
  have jobs : connectBad none ⟨some r, some w⟩ ⟨some r', some w'⟩ =
      [.close r, .close w, .close r', .close w'] := rfl
  rw [connectFails, jobs, closed, closed', runJobs_nil]
  refine fun _ => ⟨fun x => ?_, fun other => ?_⟩
  · rw [unmade'.ref, unmade.ref]
    split
    · rename_i mine
      have apart : ¬ (x = r ∨ x = w) := by
        rcases mine with rfl | rfl
        · exact not_or.mpr ⟨rr.symm, wr.symm⟩
        · exact not_or.mpr ⟨rw'.symm, ww.symm⟩
      rw [← made.ref apart, made'.ref_zero mine]
    · rename_i other'
      split
      · rename_i mine
        exact (made.ref_zero mine).symm
      · rename_i other
        rw [made'.ref other', made.ref other]
  · obtain ⟨free, left⟩ := Kmem.free_of_kalloc made.kmem
    obtain ⟨free', left'⟩ := Kmem.free_of_kalloc made'.kmem
    rw [unmade'.kmem, unmade.kmem, Kmem.free_kfree, Kmem.free_kfree, left', left]
    rw [left] at free'
    by_cases given : other = page
    · subst given
      simp [free]
    · by_cases given' : other = page'
      · subst given'
        simp [free'.1]
      · simp [given, given']

/-- A refused endpoint takes only its own two files along: `c2s_w` keeps its
reference. -/
theorem connectFails_leaks {s₃ : State} {ep : FilePtr}
    (made' : Made s₁ s₂ r' w' page') (free : ep ∈ s₂.freeFiles)
    (same : ∀ x, x ≠ ep → s₃.file x = s₂.file x) (pipes : s₃.pipes = s₂.pipes)
    (endpoint : (s₃.file ep).ref = 1 ∧ (s₃.file ep).release = [.close r, .close w']) :
    ∃ t, connectFails (some ep) ⟨some r, some w⟩ ⟨some r', some w'⟩ s₃ = .ok (-1) t ∧
      (t.file w).ref = 1 := by
  obtain ⟨⟨rr, rw'⟩, ⟨wr, ww⟩, pages⟩ := made.apart made'
  have live {x : FilePtr} (one : (s₂.file x).ref = 1) : x ≠ ep := by
    rintro rfl
    rw [State.mem_freeFiles, one] at free
    cases free
  have sameR : s₂.file r = s₁.file r := made'.others r rr rw'
  have sameW : s₂.file w = s₁.file w := made'.others w wr ww
  have epR := live (sameR ▸ made.reader.1)
  have epW := live (sameW ▸ made.writer.1)
  have epW' := live made'.writer.1
  let t := s₃.setFile ep (s₃.file ep).cleared
  have fileR : t.file r = s₁.file r := by
    rw [s₃.setFile_file_of_ne _ epR, same r epR, sameR]
  let t' := t.closeEnd r page false
  have fileW' : t'.file w' = s₂.file w' := by
    rw [show t'.file w' = t.file w' from t.setFile_file_of_ne _ rw'.symm,
      s₃.setFile_file_of_ne _ epW', same w' epW']
  have closed : runJobs [.close ep] s₃ = .ok () (t'.closeEnd w' page' true) := by
    have endsR : t.pipes page = ⟨true, true⟩ := by
      rw [show t.pipes = s₃.pipes from rfl, pipes, made'.pipes page pages, made.ends]
    have endsW' : t'.pipes page' = ⟨true, true⟩ := by
      rw [show t'.pipes page' = t.pipes page' from Function.update_of_ne pages.symm ..,
        show t.pipes = s₃.pipes from rfl, pipes, made'.ends]
    rw [runJobs_close endpoint.1, endpoint.2]
    change runJobs [.close r, .close w'] t = _
    rw [runJobs_end (fileR ▸ made.reader) endsR, runJobs_end (fileW' ▸ made'.writer) endsW', runJobs_nil]
  have left : (t'.closeEnd w' page' true).file w = s₁.file w := by
    rw [show (t'.closeEnd w' page' true).file w = t'.file w from t'.setFile_file_of_ne _ ww,
      show t'.file w = t.file w from t.setFile_file_of_ne _ made.ne.symm,
      s₃.setFile_file_of_ne _ epW, same w epW, sameW]
  rw [connectFails, connectBad, closed]
  exact ⟨_, rfl, by rw [left, made.writer.1]⟩

/-- The listener does not take an endpoint. -/
def Listener.Shut (l : Listener) : Prop :=
  l.used = false ∨ l.listening = false ∨ l.backlog ≤ l.cnt

omit made in
theorem queueSection_shut (shut : (s.listeners lid).Shut) (f ep : FilePtr) (path : Path)
    (rx tx : Option FilePtr) : queueSection f path lid ep rx tx s = (none, s) := by
  rw [queueSection]
  exact if_pos shut

omit made in
theorem queueSection_open (takes : ¬ (s.listeners lid).Shut) (f ep : FilePtr) (path : Path)
    (rx tx : Option FilePtr) :
    ∃ serial s', queueSection f path lid ep rx tx s = (some serial, s') := by
  rw [queueSection]
  exact ⟨_, _, if_neg takes⟩

theorem connectEndpoint_leaks (made' : Made s₁ s₂ r' w' page')
    (f : FilePtr) (path : Path) (lid : Lid) (room : s₂.freeFiles.card ≠ 0)
    (shut : (s.listeners lid).Shut) :
    ∃ t, connectEndpoint f path lid ⟨some r, some w⟩ ⟨some r', some w'⟩ s₂ = .ok (-1) t ∧
      (t.file w).ref = 1 := by
  obtain ⟨ep, free, taken, -⟩ := filealloc_some (s := s₂)
    (Finset.card_pos.mp (Nat.pos_of_ne_zero room))
  rw [← made.listeners, ← made'.listeners] at shut
  simp only [connectEndpoint, makeEndpoint, taken]
  generalize three : initEndpoint ep _ _ _ = s₃
  have shut' : (s₃.listeners lid).Shut := by
    rw [← three]
    exact shut
  rw [queueSection_shut shut']
  subst three
  refine connectFails_leaks made made' free (fun x other => ?_) rfl ⟨?_, ?_⟩
  · rw [initEndpoint, State.setFile_file_of_ne _ _ other, State.setFile_file_of_ne _ _ other]
  · rw [initEndpoint, State.setFile_file_self, State.setFile_file_self]
  · rw [initEndpoint, State.setFile_file_self]
    rfl

theorem connectEndpoint_clean_iff (made' : Made s₁ s₂ r' w' page')
    (f : FilePtr) (path : Path) (lid : Lid) (used : (s.listeners lid).used = true) :
    Clean s (connectEndpoint f path lid ⟨some r, some w⟩ ⟨some r', some w'⟩ s₂) ↔
      s₂.freeFiles.card = 0 ∨ (s.listeners lid).listening = true ∧
        (s.listeners lid).cnt < (s.listeners lid).backlog := by
  by_cases full : s₂.freeFiles.card = 0
  · simp only [connectEndpoint, makeEndpoint, filealloc_none (Finset.card_eq_zero.mp full), full,
      true_or, iff_true]
    exact clean_four made made'
  by_cases takes : (s.listeners lid).listening = true ∧
      (s.listeners lid).cnt < (s.listeners lid).backlog
  · obtain ⟨ep, free, taken, -⟩ := filealloc_some (s := s₂)
      (Finset.card_pos.mp (Nat.pos_of_ne_zero full))
    have open' : ¬ (s₂.listeners lid).Shut := by
      rw [made'.listeners, made.listeners, Listener.Shut, used, takes.1]
      simpa using takes.2
    simp only [connectEndpoint, makeEndpoint, taken, takes, and_self, or_true, iff_true]
    generalize three : initEndpoint ep _ _ _ = s₃
    have open'' : ¬ (s₃.listeners lid).Shut := by
      rw [← three]
      exact open'
    obtain ⟨serial, s₄, queued⟩ := queueSection_open open'' f ep path (some r') (some w)
    rw [queued]
    exact fun failed => absurd failed (by decide)
  · have shut : (s.listeners lid).Shut := by
      rw [not_and_or] at takes
      rcases takes with deaf | late
      · exact .inr (.inl (by simpa using deaf))
      · exact .inr (.inr (by omega))
    obtain ⟨t, fails, leaked⟩ := connectEndpoint_leaks made made' f path lid full shut
    rw [fails]
    refine iff_of_false (fun clean => ?_) (not_or.mpr ⟨full, takes⟩)
    have kept := (clean rfl).1 w
    rw [leaked, made.ref_zero (.inr rfl)] at kept
    cases kept

end Made

def connectFound (f : FilePtr) (path : Path) (lid : Lid) (s : State) : Outcome Halt State Int :=
  (pipealloc s).bind fun (ok, c2s) s =>
  if ok = false then connectFails none c2s ⟨none, none⟩ s
  else
    (pipealloc s).bind fun (ok, s2c) s =>
    if ok = false then connectFails none c2s s2c s
    else connectEndpoint f path lid c2s s2c s

theorem usockConnect_found (fresh : (s.file f).fresh = true) (valid : validPath path = true)
    (found : findListener s path = some lid) :
    usockConnect f path s = connectFound f path lid s := by
  simp only [usockConnect, fresh, valid, found, Bool.true_eq_false, if_false]
  rfl

/-- The first pipe cannot be made, but not for want of its first file. -/
theorem connectFound_panics (late : s.freeFiles.card = 1 ∨ 2 ≤ s.freeFiles.card ∧ ¬ s.kmem.Grants) :
    Panics (connectFound f path lid s) :=
  panics_of_pipealloc late fun _ _ _ reader dead =>
    connectFails_dead (List.mem_append_left _ (Pair.close_mem reader)) dead

/-- There is enough of everything, but the listener refuses. -/
theorem connectFound_leaks (room : 5 ≤ s.freeFiles.card) (granted : GrantsTwo s.kmem)
    (shut : (s.listeners lid).Shut) :
    ∃ t x, connectFound f path lid s = .ok (-1) t ∧ (s.file x).ref = 0 ∧ (t.file x).ref = 1 := by
  obtain ⟨r, w, page, s₁, first, made⟩ := pipealloc_made (s := s) (by omega) granted.1
  have card := made.card
  have granted' : s₁.kmem.Grants := by
    have := granted.2
    rwa [made.kmem] at this
  obtain ⟨r', w', page', s₂, second, made'⟩ := pipealloc_made (s := s₁) (by omega) granted'
  have card' := made'.card
  obtain ⟨t, fails, leaked⟩ := connectEndpoint_leaks made made' f path lid (by omega) shut
  refine ⟨t, w, ?_, made.ref_zero (.inr rfl), leaked⟩
  simp only [connectFound, first, second, Outcome.bind_ok, Bool.true_eq_false, if_false, fails]

theorem connectFound_clean_iff (f : FilePtr) (path : Path) (s : State) (lid : Lid)
    (used : (s.listeners lid).used = true) :
    Clean s (connectFound f path lid s) ↔ Supplied s lid := by
  by_cases full : s.freeFiles.card = 0
  · simp only [connectFound, pipealloc_full full, Outcome.bind_ok, if_true, connectFails, connectBad,
      Pair.close, closeIf, Option.toList, List.map_nil, List.append_nil, runJobs_nil, Supplied, full, true_or,
      iff_true]
    exact fun _ => ⟨fun _ => rfl, fun _ => Iff.rfl⟩
  by_cases late : s.freeFiles.card = 1 ∨ 2 ≤ s.freeFiles.card ∧ ¬ s.kmem.Grants
  · refine iff_of_false (connectFound_panics late).not_clean ?_
    rintro (none' | ⟨two, granted⟩ | ⟨four, granted, -⟩ | ⟨five, ⟨granted, -⟩, -⟩)
    · exact full none'
    all_goals
      rcases late with one | ⟨-, refused⟩
      · omega
      · exact refused granted
  have room : 2 ≤ s.freeFiles.card := by omega
  have granted : s.kmem.Grants := by
    by_contra refused
    exact late (.inr ⟨room, refused⟩)
  obtain ⟨r, w, page, s₁, first, made⟩ := pipealloc_made room granted
  have card := made.card
  have kmem : s.kmem.kalloc.2 = s₁.kmem := by rw [made.kmem]
  simp only [connectFound, first, Outcome.bind_ok, Bool.true_eq_false, if_false]
  by_cases full' : s₁.freeFiles.card = 0
  · simp only [pipealloc_full full', Outcome.bind_ok, if_true]
    exact iff_of_true (clean_two made) (.inr (.inl ⟨by omega, granted⟩))
  by_cases late' : s₁.freeFiles.card = 1 ∨ 2 ≤ s₁.freeFiles.card ∧ ¬ s₁.kmem.Grants
  · refine iff_of_false (panics_of_pipealloc late' fun p r t reader dead =>
      connectFails_dead (List.mem_append_right _ (Pair.close_mem reader)) dead).not_clean ?_
    rintro (none' | ⟨two, -⟩ | ⟨four, -, granted⟩ | ⟨five, ⟨-, granted⟩, -⟩)
    · exact full none'
    · omega
    all_goals
      rcases late' with one | ⟨-, refused⟩
      · omega
      · exact refused (kmem ▸ granted)
  have room' : 2 ≤ s₁.freeFiles.card := by omega
  have granted' : s₁.kmem.Grants := by
    by_contra refused
    exact late' (.inr ⟨room', refused⟩)
  obtain ⟨r', w', page', s₂, second, made'⟩ := pipealloc_made room' granted'
  have card' := made'.card
  have both : GrantsTwo s.kmem := ⟨granted, kmem ▸ granted'⟩
  simp only [second, Outcome.bind_ok, Bool.true_eq_false, if_false]
  rw [connectEndpoint_clean_iff made made' f path lid used]
  constructor
  · rintro (none' | takes)
    · exact .inr (.inr (.inl ⟨by omega, both⟩))
    · by_cases four : s.freeFiles.card = 4
      · exact .inr (.inr (.inl ⟨four, both⟩))
      · exact .inr (.inr (.inr ⟨by omega, both, takes⟩))
  · rintro (none' | ⟨two, -⟩ | ⟨four, -⟩ | ⟨five, -, takes⟩)
    · omega
    · omega
    · exact .inl (by omega)
    · exact .inr takes

/-- A failed `usock_connect` leaks nothing and does not panic exactly if it fails
early, or files and pages run out at the right moment and the listener does not
refuse. -/
theorem usockConnect_clean_iff (f : FilePtr) (path : Path) (s : State) :
    Clean s (usockConnect f path s) ↔
      FailsEarly f path s ∨ ∃ lid, findListener s path = some lid ∧ Supplied s lid := by
  have unchanged : Clean s (.ok (-1) s) := fun _ => ⟨fun _ => rfl, fun _ => Iff.rfl⟩
  by_cases early : FailsEarly f path s
  · refine iff_of_true ?_ (.inl early)
    unfold usockConnect
    split
    · exact unchanged
    split
    · exact unchanged
    split
    · exact unchanged
    · rename_i fresh valid _ lid found
      rcases early with stale | invalid | nobody
      · exact absurd stale fresh
      · exact absurd invalid valid
      · rw [found] at nobody
        cases nobody
  · obtain ⟨lid, found⟩ := Option.ne_none_iff_exists'.mp fun none' => early (.inr (.inr none'))
    have fresh : (s.file f).fresh = true := by simpa using fun stale => early (.inl stale)
    have valid : validPath path = true := by simpa using fun bad => early (.inr (.inl bad))
    have used : (s.listeners lid).used = true := by
      have := List.find?_some found
      simp only [Bool.and_eq_true] at this
      exact this.1
    rw [usockConnect_found fresh valid found, connectFound_clean_iff f path s lid used]
    refine ⟨fun supplied => .inr ⟨lid, found, supplied⟩, ?_⟩
    rintro (failed | ⟨lid', found', supplied⟩)
    · exact absurd failed early
    · rw [found] at found'
      cases found'
      exact supplied

def freshSocket : File := ⟨.usock, 1, true, true, none, .init, none, none, none⟩

def emptyListener : Listener := ⟨false, false, 0, [], [], 0⟩

/-- Two free pages, the listener `/` in slot 0, and the files as given. -/
def oneListener (listening : Bool) (file : FilePtr → File) : State where
  file := file
  pipes _ := ⟨false, false⟩
  kmem := ⟨[1, 2], by decide, 0, fun _ => false⟩
  listeners := Function.update (fun _ => emptyListener) 0
    { emptyListener with used := true, listening := listening, backlog := 1, path := [47], gen := 1 }
  queued := []
  accepted := []
  closed := []

/-- File 0 is a socket, file 99 is free, all others are in use. -/
def crowded : State := oneListener true fun f =>
  if f = 0 then freshSocket
  else if f = 99 then freshSocket.cleared
  else { freshSocket with type := .inode }

/-- File 0 is a socket, all others are free; nobody listens at `/` yet. -/
def deaf : State := oneListener false fun f => if f = 0 then freshSocket else freshSocket.cleared

theorem connect_panics_and_leaks : Panics (usockConnect 0 [47] crowded) ∧
      ∃ t x, usockConnect 0 [47] deaf = .ok (-1) t ∧ (deaf.file x).ref = 0 ∧
        (t.file x).ref = 1 := by
  have found : findListener crowded [47] = some 0 ∧ findListener deaf [47] = some 0 := by
    decide +kernel
  constructor
  · rw [usockConnect_found (by decide) (by decide) found.1]
    exact connectFound_panics (.inl (by decide +kernel))
  · rw [usockConnect_found (by decide) (by decide) found.2]
    exact connectFound_leaks (by decide +kernel) ⟨by decide, by decide⟩ (.inr (.inl rfl))

end SirpairOs.Usock
