import Mathlib.Data.Set.Card
import SirpairOs.Lib.Tally
import SirpairOs.Fs.Balance

/-! The calls that open and close files or change the current directory, and the
balance of references over any sequence of calls. -/
namespace SirpairOs.Fs

open Prog (Only)

def Points (p : InodePtr) (file : File) : Prop :=
  0 < file.ref ∧ file.type = .inode ∧ file.ip = some p

instance (p : InodePtr) (file : File) : Decidable (Points p file) :=
  inferInstanceAs (Decidable (_ ∧ _ ∧ _))

def fileOwners (ftable : FilePtr → File) (p : InodePtr) : Nat :=
  ∑ f, if Points p (ftable f) then 1 else 0

def cwdOwners (pids : Finset Nat) (procs : Nat → Proc) (p : InodePtr) : Nat :=
  ∑ pid ∈ pids, if (procs pid).cwd = some p then 1 else 0

def ownersOf (pids : Finset Nat) (k : Kernel) : Base where
  owners p := fileOwners k.ftable p + cwdOwners pids k.procs p
  ftable := k.ftable
  procs := k.procs

/-- Every reference to a cached inode belongs to an open file, to the current
directory of a process of `pids` or to the running call. -/
structure Owned (pids : Finset Nat) (held : List Grip) (k : Kernel) : Prop where
  tracks : Tracks (ownersOf pids k) held k
  nonneg : ∀ f, 0 ≤ (k.ftable f).ref
  closed : ∀ f, (k.ftable f).ref = 0 → (k.ftable f).type = .none

/-- The number of references to an open file does not matter, as long as there is one. -/
theorem points_ref (p : InodePtr) {file : File} {ref : Int} (before : 0 < file.ref)
    (after : 0 < ref) : Points p { file with ref := ref } ↔ Points p file :=
  and_congr_left fun _ => iff_of_true after before

theorem fileOwners_update (ftable : FilePtr → File) (f : FilePtr) (file : File) (p : InodePtr) :
    fileOwners (Function.update ftable f file) p + (if Points p (ftable f) then 1 else 0) =
      fileOwners ftable p + if Points p file then 1 else 0 :=
  sum_update (fun file => if Points p file then 1 else 0) ftable f file

theorem cwdOwners_update {pids : Finset Nat} {pid : Nat} (member : pid ∈ pids)
    (procs : Nat → Proc) (proc : Proc) (p : InodePtr) :
    cwdOwners pids (Function.update procs pid proc) p +
        (if (procs pid).cwd = some p then 1 else 0) =
      cwdOwners pids procs p + if proc.cwd = some p then 1 else 0 := by
  have change := sum_change member (f := fun pid => if (procs pid).cwd = some p then 1 else 0)
    (g := fun other => if (Function.update procs pid proc other).cwd = some p then 1 else 0)
    fun other _ apart => by rw [Function.update_of_ne apart]
  rwa [Function.update_self] at change

section Tables

variable {pids : Finset Nat} {pid : Nat} {held held' : List Grip} {k : Kernel} {p : InodePtr}
  {base : Base}

/-- The tables as the running call left them. -/
theorem Tracks.owned (tracks : Tracks base held' k) (nonneg : ∀ f, 0 ≤ (k.ftable f).ref)
    (closed : ∀ f, (k.ftable f).ref = 0 → (k.ftable f).type = .none)
    (moves : ∀ p, fileOwners k.ftable p + cwdOwners pids k.procs p + gripsOn held p =
      base.owners p + gripsOn held' p)
    (locks : ∀ p, locksOn held p = locksOn held' p) : Owned pids held k := by
  refine ⟨⟨fun p => ?_, fun p => ?_, tracks.unique, rfl, rfl⟩, nonneg, closed⟩
  · rw [tracks.refs p, ← moves p]
    rfl
  · rw [locks]
    exact tracks.locks p

/-- The call has left the tables alone. -/
theorem Owned.after {k' : Kernel} (owned : Owned pids held k)
    (tracks : Tracks (ownersOf pids k) held' k') : Owned pids held' k' := by
  have ftable : k'.ftable = k.ftable := tracks.ftable
  have procs : k'.procs = k.procs := tracks.procs
  refine tracks.owned ?_ ?_ (fun p => ?_) fun _ => rfl
  · rw [ftable]
    exact owned.nonneg
  · rw [ftable]
    exact owned.closed
  · rw [ftable, procs]
    rfl

theorem Tracks.borrow (tracks : Tracks base held k) (used : 0 < base.owners p) :
    Tracks { base with owners := Function.update base.owners p (base.owners p - 1) }
      ((p, false) :: held) k := by
  refine ⟨fun q => ?_, fun q => ?_, tracks.unique, tracks.ftable, tracks.procs⟩
  · have refs := tracks.refs q
    by_cases same : q = p
    · subst same
      dsimp only
      rw [gripsOn_self, Function.update_self]
      omega
    · dsimp only
      rw [(grips_other same false held).1, Function.update_of_ne same]
      exact refs
  · rw [locksOn_free]
    exact tracks.locks q

theorem Owned.covers (member : pid ∈ pids) (k : Kernel) (c : InodePtr)
    (cwd : (k.procs pid).cwd = some c) : 0 < (ownersOf pids k).owners c := by
  have one : (if (k.procs pid).cwd = some c then 1 else 0) ≤ cwdOwners pids k.procs c :=
    Finset.single_le_sum (f := fun pid => if (k.procs pid).cwd = some c then 1 else 0)
      (fun _ _ => Nat.zero_le _) member
  rw [if_pos cwd] at one
  exact Nat.lt_of_lt_of_le one (Nat.le_add_left _ _)

variable {f : FilePtr} {file : File}

theorem fileOwners_pos {ftable : FilePtr → File} (points : Points p (ftable f)) :
    0 < fileOwners ftable p := by
  have one := le_sum (fun file => if Points p file then 1 else 0) ftable f
  rw [if_pos points] at one
  exact one

variable (P : File → Prop)

theorem setFile_each (new : P file) (old : ∀ g, P (k.ftable g)) (g : FilePtr) :
    P ((k.setFile f file).ftable g) := by
  change P (Function.update k.ftable f file g)
  by_cases self : g = f
  · rw [self, Function.update_self]
    exact new
  · rw [Function.update_of_ne self]
    exact old g

theorem Tracks.setCwd (tracks : Tracks base held' k) (member : pid ∈ pids)
    (nonneg : ∀ f, 0 ≤ (k.ftable f).ref)
    (closed : ∀ f, (k.ftable f).ref = 0 → (k.ftable f).type = .none) {cwd : Option InodePtr}
    (moves : ∀ p, fileOwners k.ftable p + cwdOwners pids k.procs p + gripsOn held p +
        (if cwd = some p then 1 else 0) =
      base.owners p + gripsOn held' p + if (k.procs pid).cwd = some p then 1 else 0)
    (locks : ∀ p, locksOn held p = locksOn held' p) :
    Owned pids held (k.setProc pid { k.procs pid with cwd := cwd }) := by
  have moved : Tracks { base with
      procs := (k.setProc pid { k.procs pid with cwd := cwd }).procs } held'
      (k.setProc pid { k.procs pid with cwd := cwd }) :=
    ⟨tracks.refs, tracks.locks, tracks.unique, tracks.ftable, rfl⟩
  refine moved.owned nonneg closed (fun p => ?_) locks
  have change := cwdOwners_update member k.procs { k.procs pid with cwd := cwd } p
  have counts := moves p
  change fileOwners k.ftable p + cwdOwners pids (Function.update k.procs pid
    { k.procs pid with cwd := cwd }) p + gripsOn held p = base.owners p + gripsOn held' p
  dsimp only at change ⊢
  omega

theorem named_grips (held : List Grip) (cwd : Option InodePtr) (q : InodePtr) :
    gripsOn (Turns.named held cwd) q = gripsOn held q + (if cwd = some q then 1 else 0) ∧
      locksOn (Turns.named held cwd) q = locksOn held q := by
  cases cwd with
  | none => exact ⟨rfl, rfl⟩
  | some c =>
    refine ⟨?_, locksOn_free c q held⟩
    rw [Turns.named, gripsOn_cons]
    simp only [Option.some.injEq]

theorem Owned.setCwd {cwd : Option InodePtr} (owned : Owned pids (Turns.named held cwd) k)
    (member : pid ∈ pids) (old : (k.procs pid).cwd = none) :
    Owned pids held (k.setProc pid { k.procs pid with cwd := cwd }) := by
  refine owned.tracks.setCwd member owned.nonneg owned.closed (fun q => ?_) fun q =>
    (named_grips held cwd q).2.symm
  rw [(named_grips held cwd q).1, old, if_neg (Option.some_ne_none q).symm]
  change fileOwners k.ftable q + cwdOwners pids k.procs q + gripsOn held q + _ =
    fileOwners k.ftable q + cwdOwners pids k.procs q + _ + 0
  omega

theorem setFile_self (new : P file) : P ((k.setFile f file).ftable f) := by
  change P (Function.update k.ftable f file f)
  rw [Function.update_self]
  exact new

/-- One open file changes; the call takes over or gives up its reference. -/
theorem Owned.setFile (owned : Owned pids held k) (nonneg : 0 ≤ file.ref)
    (closed : file.ref = 0 → file.type = .none)
    (moves : ∀ p, gripsOn held' p + (if Points p file then 1 else 0) =
      gripsOn held p + if Points p (k.ftable f) then 1 else 0)
    (locks : ∀ p, locksOn held' p = locksOn held p) : Owned pids held' (k.setFile f file) := by
  have tracks : Tracks { ownersOf pids k with ftable := (k.setFile f file).ftable } held
      (k.setFile f file) :=
    ⟨owned.tracks.refs, owned.tracks.locks, owned.tracks.unique, rfl, rfl⟩
  refine tracks.owned (setFile_each (0 ≤ ·.ref) nonneg owned.nonneg)
    (setFile_each (fun file => file.ref = 0 → file.type = .none) closed owned.closed)
    (fun p => ?_) locks
  have change := fileOwners_update k.ftable f file p
  have moved := moves p
  change fileOwners (Function.update k.ftable f file) p + cwdOwners pids k.procs p +
    gripsOn held' p = fileOwners k.ftable p + cwdOwners pids k.procs p + gripsOn held p
  omega

/-- Descriptors own nothing: the open file does. -/
theorem Owned.setOfile (owned : Owned pids held k) (pid : Nat)
    (ofile : Fin NOFILE → Option FilePtr) :
    Owned pids held (k.setProc pid { k.procs pid with ofile := ofile }) := by
  have same (p : InodePtr) : cwdOwners pids
      (Function.update k.procs pid { k.procs pid with ofile := ofile }) p =
      cwdOwners pids k.procs p := Finset.sum_congr rfl fun other _ => by
    by_cases self : other = pid
    · rw [self, Function.update_self]
    · rw [Function.update_of_ne self]
  have tracks : Tracks { ownersOf pids k with
      procs := (k.setProc pid { k.procs pid with ofile := ofile }).procs } held
      (k.setProc pid { k.procs pid with ofile := ofile }) :=
    ⟨owned.tracks.refs, owned.tracks.locks, owned.tracks.unique, rfl, rfl⟩
  refine tracks.owned owned.nonneg owned.closed (fun p => ?_) fun _ => rfl
  change fileOwners k.ftable p + cwdOwners pids (Function.update k.procs pid
    { k.procs pid with ofile := ofile }) p + gripsOn held p =
      fileOwners k.ftable p + cwdOwners pids k.procs p + gripsOn held p
  rw [same]

end Tables

/-- Run alone by process `pid` with the references `held`, the program has those of
`held'` when it ends, whatever it does to open files and current directories. -/
def Passes {α : Type} (pids : Finset Nat) (pid : Nat) (held : List Grip) (p : KProg α)
    (held' : α → List Grip) : Prop :=
  ∀ k, Owned pids held k → Prog.wp (KOp.exec pid) (fun _ _ => True) p
    (fun a k' => Owned pids (held' a) k') (fun _ _ => True) k

variable (f : FilePtr) (fd : Fin NOFILE) (fds : List (Fin NOFILE))

namespace Passes

variable {α β : Type} {pids : Finset Nat} {pid : Nat} {held : List Grip} {p : InodePtr}

theorem pure (a : α) (held : α → List Grip) : Passes pids pid (held a) (Pure.pure a) held :=
  fun _ owned => owned

theorem bind {body : KProg α} {next : α → KProg β} {between : α → List Grip}
    {held' : β → List Grip} (first : Passes pids pid held body between)
    (rest : ∀ a, Passes pids pid (between a) (next a) held') :
    Passes pids pid held (body >>= next) held' :=
  fun k owned => Prog.wp_seq _ _ (first k owned) fun a => rest a

/-- The code of `fs.c` leaves the tables alone. -/
theorem turns {body : KProg α} {held' : α → List Grip}
    (turns : ∀ base, Turns base pid held body held') : Passes pids pid held body held' :=
  fun k owned => Prog.wp_mono _ _ (turns _ k owned.tracks)
    (fun _ _ tracks => owned.after tracks) fun _ _ => id

/-- So does code that starts at the current directory. -/
theorem covered {body : KProg α} {held' : α → List Grip} (member : pid ∈ pids)
    (turns : ∀ base : Base, (∀ c, (base.procs pid).cwd = some c → 0 < base.owners c) →
      Turns base pid held body held') : Passes pids pid held body held' :=
  fun k owned => Prog.wp_mono _ _ (turns _ (Owned.covers member k) k owned.tracks)
    (fun _ _ tracks => owned.after tracks) fun _ _ => id

/-- What `fileclose` has to put: the inode of the last reference to an open file. -/
def closing (held : List Grip) : Option File → List Grip
  | some ⟨.inode, _, _, _, some ip, _⟩ => (ip, false) :: held
  | _ => held

theorem closing_grips {file : File} (last : 0 < file.ref) (p : InodePtr) :
    gripsOn (closing held (some file)) p = gripsOn held p + (if Points p file then 1 else 0) ∧
      locksOn (closing held (some file)) p = locksOn held p := by
  obtain ⟨type, ref, readable, writable, ip, off⟩ := file
  cases type with
  | none => exact ⟨by rw [if_neg fun points => nomatch points.2.1]; rfl, rfl⟩
  | inode =>
    cases ip with
    | none => exact ⟨by rw [if_neg fun points => nomatch points.2.2]; rfl, rfl⟩
    | some ip =>
      refine ⟨?_, locksOn_free ..⟩
      rw [closing, gripsOn_cons]
      congr 1
      by_cases same : ip = p
      · rw [if_pos same, if_pos ⟨last, rfl, congrArg some same⟩]
      · rw [if_neg same, if_neg fun points => same (Option.some.inj points.2.2)]

theorem dropFile : Passes pids pid held (Fs.dropFile f) (closing held) := by
  intro k owned _
  simp only [KOp.exec]
  split
  · trivial
  rename_i used
  have before : 0 < (k.ftable f).ref := by omega
  split
  · rename_i more
    refine owned.setFile (k := k) (Int.le_of_lt more) (fun none' => ?_) (fun p => ?_) fun _ => rfl
    · exact absurd none' (Int.ne_of_gt more)
    · simp only [points_ref p before more]
      rfl
  · refine owned.setFile (k := k) (Int.le_refl 0) (fun _ => rfl) (fun p => ?_) fun p =>
      (closing_grips before p).2
    have closed : ¬ Points p { k.ftable f with ref := 0, type := .none, ip := none, off := 0 } :=
      fun points => FileType.noConfusion points.2.1
    rw [(closing_grips before p).1, if_neg closed]
    rfl

theorem fileclose : Passes pids pid held (Fs.fileclose f) fun _ => held := by
  refine bind (dropFile f) fun last => ?_
  split
  · exact turns fun _ => .bind .beginTrans fun _ => .bind .iput fun _ => .commitTrans
  · rename_i other
    have same : closing held last = held := by
      unfold closing
      split
      · exact (other _ _ _ _ _ rfl).elim
      · rfl
    rw [same]
    exact pure () fun _ => held

/-- An unused file structure is taken; it has no inode yet. -/
theorem filealloc_wp {k : Kernel} {Q : Option FilePtr → Kernel → Prop}
    (owned : Owned pids held k) (full : Q none k)
    (found : ∀ f k', Owned pids held k' → (k'.ftable f).ref = 1 → (k'.ftable f).type = .none →
      Q (some f) k') :
    Prog.wp (KOp.exec pid) (fun _ _ => True) filealloc Q (fun _ _ => True) k := by
  intro _
  simp only [KOp.exec]
  split
  · rename_i f empty
    have unused : (k.ftable f).ref = 0 := by simpa using List.find?_some empty
    have closed := owned.closed f unused
    have self : (k.setFile f { k.ftable f with ref := 1 }).ftable f =
        { k.ftable f with ref := 1 } := Function.update_self ..
    have none' (ref : Int) (p : InodePtr) : ¬ Points p { k.ftable f with ref := ref } :=
      fun points => FileType.noConfusion (closed.symm.trans points.2.1)
    refine found f _ (owned.setFile (Int.le_of_lt Int.one_pos) (fun no => by cases no)
      (fun p => ?_) fun _ => rfl) ?_ ?_
    · rw [if_neg (none' 1 p), if_neg (none' (k.ftable f).ref p)]
    · rw [self]
    · rw [self]
      exact closed
  · exact full

/-- The new open file takes over the reference of the call. -/
theorem publish {k : Kernel} {f : FilePtr} {file : File}
    (owned : Owned pids ((p, false) :: held) k) (closed : (k.ftable f).type = .none)
    (one : file.ref = 1) (type : file.type = .inode) (ip : file.ip = some p) :
    Owned pids held (k.setFile f file) := by
  refine owned.setFile (by omega) (fun none' => by omega) (fun q => ?_) fun q =>
    (locksOn_free p q held).symm
  have before : ¬ Points q (k.ftable f) := fun points =>
    FileType.noConfusion (closed.symm.trans points.2.1)
  have after : Points q file ↔ p = q := by
    refine ⟨fun points => Option.some.inj (ip.symm.trans points.2.2), fun same => ⟨?_, type, ?_⟩⟩
    · omega
    · rw [ip, same]
  simp only [before, after, gripsOn_cons, if_false, Nat.add_zero]

theorem openFile (omode : Nat) (truncTrans : Bool) :
    Passes pids pid ((p, true) :: held) (Fs.openFile p omode truncTrans) fun _ => held := by
  have put : Passes pids pid ((p, true) :: held) (do
      Fs.iunlockput p
      Prog.when (truncTrans = true) Fs.commitTrans
      Pure.pure (-1 : Int)) fun _ => held :=
    turns fun _ => .bind .iunlockput fun _ => .bind (.when fun _ => .commitTrans) fun _ =>
      .pure (-1) fun _ => held
  intro k owned
  refine (Prog.wp_bind _ _ _ _ _ _ _).mpr (filealloc_wp owned (put k owned) fun f k owned one
    closed => ?_)
  dsimp only
  refine (Prog.wp_bind _ _ _ _ _ _ _).mpr fun _ => ?_
  simp only [KOp.exec]
  split
  · rename_i fd _
    have opened := owned.setOfile pid (Function.update (k.procs pid).ofile fd (some f))
    refine Prog.wp_seq _ _ (Turns.iunlock _ opened.tracks) fun _ _ tracks => ?_
    refine Prog.wp_seq _ _ (Turns.when (fun _ => Turns.commitTrans) _ tracks) fun _ k' tracks => ?_
    have ftable : k'.ftable = k.ftable := tracks.ftable
    rw [← ftable] at one closed
    exact fun _ _ _ => publish (opened.after tracks) closed one rfl rfl
  · exact bind (fileclose f) (fun _ => put) k owned

theorem getFd : Passes pids pid held (Fs.getFd fd) fun _ => held :=
  fun _ owned _ => owned

theorem setFd (f : Option FilePtr) : Passes pids pid held (Fs.setFd fd f) fun _ => held :=
  fun _ owned _ => owned.setOfile pid _

theorem fdalloc : Passes pids pid held (Fs.fdalloc f) fun _ => held := by
  intro k owned _
  simp only [KOp.exec]
  split
  · exact owned.setOfile pid _
  · exact owned

theorem filedup : Passes pids pid held (Fs.filedup f) fun _ => held := by
  intro k owned _
  simp only [KOp.exec]
  split
  · trivial
  have before : 0 < (k.ftable f).ref := by omega
  have after : 0 < (k.ftable f).ref + 1 := by omega
  refine owned.setFile (Int.le_of_lt after) (fun none' => ?_) (fun p => ?_) fun _ => rfl
  · exact absurd none' (Int.ne_of_gt after)
  · simp only [points_ref p before after]

theorem sysClose : Passes pids pid held (Fs.sysClose fd) fun _ => held := by
  refine bind (getFd fd) fun f => ?_
  split
  · exact pure (-1) fun _ => held
  · exact bind (setFd fd none) fun _ => bind (fileclose _) fun _ => pure 0 fun _ => held

theorem sysDup : Passes pids pid held (Fs.sysDup fd) fun _ => held := by
  refine bind (getFd fd) fun f => ?_
  split
  · exact pure (-1) fun _ => held
  refine bind (fdalloc _) fun new => ?_
  split
  · exact pure (-1) fun _ => held
  · exact bind (filedup _) fun _ => pure _ fun _ => held

theorem closeAll : Passes pids pid held (Fs.closeAll fds) fun _ => held := by
  induction fds with
  | nil => exact pure () fun _ => held
  | cons fd rest ih =>
    refine bind (getFd fd) fun f => ?_
    split
    · exact ih
    · exact bind (fileclose _) fun _ => bind (setFd fd none) fun _ => ih

end Passes

/-- One reference to an inode that an open file or a process counts as its own is among
those of the running call. -/
structure Lent (pids : Finset Nat) (p : InodePtr) (held : List Grip) (k : Kernel) : Prop where
  tracks : ∃ base : Base, (∀ q, base.owners q + (if p = q then 1 else 0) =
    fileOwners k.ftable q + cwdOwners pids k.procs q) ∧ Tracks base held k
  nonneg : ∀ f, 0 ≤ (k.ftable f).ref
  closed : ∀ f, (k.ftable f).ref = 0 → (k.ftable f).type = .none

section Lent

variable {pids : Finset Nat} {pid : Nat} {held : List Grip} {k : Kernel} {p : InodePtr}

theorem Owned.lend (owned : Owned pids held k) (one : 0 < (ownersOf pids k).owners p) :
    Lent pids p ((p, false) :: held) k := by
  refine ⟨⟨_, fun q => ?_, owned.tracks.borrow one⟩, owned.nonneg, owned.closed⟩
  dsimp only
  by_cases same : q = p
  · rw [same, Function.update_self, if_pos rfl, Nat.sub_add_cancel one]
    rfl
  · rw [Function.update_of_ne same, if_neg (Ne.symm same), Nat.add_zero]
    rfl

theorem Owned.lent (owned : Owned pids held k) {f : FilePtr} (type : (k.ftable f).type = .inode)
    (ip : (k.ftable f).ip = some p) : Lent pids p ((p, false) :: held) k := by
  have used : 0 < (k.ftable f).ref := by
    have nonneg := owned.nonneg f
    have closed := owned.closed f
    rw [type] at closed
    have some : (k.ftable f).ref ≠ 0 := fun none' => FileType.noConfusion (closed none')
    omega
  exact owned.lend (Nat.lt_of_lt_of_le (fileOwners_pos ⟨used, type, ip⟩) (Nat.le_add_right _ _))

theorem Lent.owned (lent : Lent pids p ((p, false) :: held) k) : Owned pids held k := by
  obtain ⟨⟨base, owners, tracks⟩, nonneg, closed⟩ := lent
  refine tracks.owned nonneg closed (fun q => ?_) fun q => (locksOn_free p q held).symm
  have sum := owners q
  rw [gripsOn_cons]
  dsimp only
  omega

theorem Lent.turns {α : Type} {body : KProg α} {held' : α → List Grip} (lent : Lent pids p held k)
    (turns : ∀ base, Turns base pid held body held') :
    Prog.wp (KOp.exec pid) (fun _ _ => True) body (fun a k' => Lent pids p (held' a) k' ∧
      k'.ftable = k.ftable ∧ k'.procs = k.procs) (fun _ _ => True) k := by
  obtain ⟨⟨base, owners, tracks⟩, nonneg, closed⟩ := lent
  refine Prog.wp_mono _ _ (turns base k tracks) (fun _ k' after => ?_) fun _ _ => id
  have ftable : k'.ftable = k.ftable := after.ftable.trans tracks.ftable.symm
  have procs : k'.procs = k.procs := after.procs.trans tracks.procs.symm
  refine ⟨⟨⟨base, ?_, after⟩, ?_, ?_⟩, ftable, procs⟩
  · rw [ftable, procs]
    exact owners
  · rw [ftable]
    exact nonneg
  · rw [ftable]
    exact closed

/-- The offset of an open file is no reference. -/
theorem Lent.seek (lent : Lent pids p held k) (f : FilePtr) (off : Nat) :
    Lent pids p held (k.setFile f { k.ftable f with off := off }) := by
  obtain ⟨⟨base, owners, tracks⟩, nonneg, closed⟩ := lent
  refine ⟨⟨{ base with ftable := (k.setFile f { k.ftable f with off := off }).ftable },
    fun q => ?_, ⟨tracks.refs, tracks.locks, tracks.unique, rfl, tracks.procs⟩⟩,
    setFile_each (0 ≤ ·.ref) (nonneg f) nonneg,
    setFile_each (fun file => file.ref = 0 → file.type = .none) (closed f) closed⟩
  have same : fileOwners (k.setFile f { k.ftable f with off := off }).ftable q =
      fileOwners k.ftable q :=
    Nat.add_right_cancel (fileOwners_update k.ftable f { k.ftable f with off := off } q)
  rw [same]
  exact owners q

/-- The process's reference to its old directory is gone; the new directory takes over
one of the call's. -/
theorem Lent.setCwd {cwd : Option InodePtr} (lent : Lent pids p (Turns.named held cwd) k)
    (member : pid ∈ pids) (old : (k.procs pid).cwd = some p) :
    Owned pids held (k.setProc pid { k.procs pid with cwd := cwd }) := by
  obtain ⟨⟨base, owners, tracks⟩, nonneg, closed⟩ := lent
  refine tracks.setCwd member nonneg closed (fun q => ?_) fun q => (named_grips held cwd q).2.symm
  have sum := owners q
  rw [(named_grips held cwd q).1, old]
  simp only [Option.some.injEq]
  omega

section Wp

variable {α : Type} {f : FilePtr} {Q : α → Kernel → Prop} {E : Halt → Kernel → Prop}

theorem wp_getFile {next : File → KProg α}
    (rest : Prog.wp (KOp.exec pid) (fun _ _ => True) (next (k.ftable f)) Q E k) :
    Prog.wp (KOp.exec pid) (fun _ _ => True) (getFile f >>= next) Q E k :=
  fun _ => rest

theorem wp_setFile {file : File} {next : Unit → KProg α}
    (rest : Prog.wp (KOp.exec pid) (fun _ _ => True) (next ()) Q E (k.setFile f file)) :
    Prog.wp (KOp.exec pid) (fun _ _ => True) (setFile f file >>= next) Q E k :=
  fun _ => rest

theorem wp_getCwd {next : InodePtr → KProg α} (rest : ∀ c, (k.procs pid).cwd = some c →
      Prog.wp (KOp.exec pid) (fun _ _ => True) (next c) Q (fun _ _ => True) k) :
    Prog.wp (KOp.exec pid) (fun _ _ => True) (getCwd >>= next) Q (fun _ _ => True) k := by
  refine (Prog.wp_bind _ _ _ _ _ _ _).mpr fun _ => ?_
  simp only [KOp.exec]
  cases cwd : (k.procs pid).cwd with
  | none => trivial
  | some c => exact rest c cwd

end Wp

/-- The last part of a call that uses an open file. -/
theorem Lent.finish {α : Type} {body : KProg α} {held' : List Grip} (lent : Lent pids p held' k)
    (turns : ∀ base, Turns base pid held' body fun _ => (p, false) :: held) :
    Prog.wp (KOp.exec pid) (fun _ _ => True) body (fun _ k' => Owned pids held k')
      (fun _ _ => True) k :=
  Prog.wp_mono _ _ (lent.turns turns) (fun _ _ after => after.1.owned) fun _ _ => id

end Lent

namespace Passes

variable {pids : Finset Nat} {pid : Nat} {held : List Grip} {p : InodePtr}

theorem fileread (n : Nat) : Passes pids pid held (Fs.fileread f n) fun _ => held := by
  intro k owned
  refine wp_getFile ?_
  split
  · rename_i ip _ type here
    refine Prog.wp_seq _ _ ((owned.lent type here).turns fun _ => .ilock) fun _ k ⟨lent, _⟩ =>
      wp_getFile ?_
    refine Prog.wp_seq _ _ (lent.turns fun _ => .readi _ n) fun r k' ⟨lent, same, _⟩ => ?_
    have unlock {a : Option (List UInt8)} (base : Base) : Turns base pid ((ip, true) :: held) (do
        iunlock ip
        Pure.pure a) fun _ => (ip, false) :: held :=
      .bind .iunlock fun _ => .pure a fun _ => (ip, false) :: held
    rw [← same]
    split
    · exact wp_setFile ((lent.seek f _).finish unlock)
    · exact lent.finish unlock
  · exact owned

variable (src : List UInt8)

/-- One transaction of `filewrite`; the file still refers to the inode afterwards. -/
theorem writeChunk {k : Kernel} (owned : Owned pids held k)
    (type : (k.ftable f).type = .inode) (ip : (k.ftable f).ip = some p) :
    Prog.wp (KOp.exec pid) (fun _ _ => True) (Fs.writeChunk f p src)
      (fun _ k' => Owned pids held k' ∧ (k'.ftable f).type = .inode ∧ (k'.ftable f).ip = some p)
      (fun _ _ => True) k := by
  have lent := owned.lent type ip
  refine Prog.wp_seq _ _ (lent.turns fun _ => .beginTrans) fun _ k₁ ⟨lent, same₁, _⟩ => ?_
  refine Prog.wp_seq _ _ (lent.turns fun _ => .ilock) fun _ k₂ ⟨lent, same₂, _⟩ => wp_getFile ?_
  refine Prog.wp_seq _ _ (lent.turns fun _ => .writei src _) fun r k₃ ⟨lent, same₃, _⟩ => ?_
  have ftable : k₃.ftable = k.ftable := same₃.trans (same₂.trans same₁)
  have unlock {a : Option Nat} (base : Base) : Turns base pid ((p, true) :: held) (do
      iunlock p
      Fs.commitTrans
      Pure.pure a) fun _ => (p, false) :: held :=
    .bind .iunlock fun _ => .bind .commitTrans fun _ => .pure a fun _ => (p, false) :: held
  rw [← same₃]
  rw [← ftable] at type ip
  split
  · refine wp_setFile (Prog.wp_mono _ _ ((lent.seek f _).turns unlock) ?_ fun _ _ => id)
    rintro _ k₄ ⟨lent, same₄, _⟩
    refine ⟨lent.owned, ?_⟩
    rw [same₄]
    exact setFile_self (fun file => file.type = .inode ∧ file.ip = some p) ⟨type, ip⟩
  · refine Prog.wp_mono _ _ (lent.turns unlock) ?_ fun _ _ => id
    rintro _ k₄ ⟨lent, same₄, _⟩
    rw [same₄]
    exact ⟨lent.owned, type, ip⟩

theorem writeChunks (fuel : Nat) (src : List UInt8) {k : Kernel}
    (owned : Owned pids held k) (type : (k.ftable f).type = .inode)
    (ip : (k.ftable f).ip = some p) :
    Prog.wp (KOp.exec pid) (fun _ _ => True) (Fs.writeChunks f p fuel src)
      (fun _ k' => Owned pids held k') (fun _ _ => True) k := by
  induction fuel generalizing src k with
  | zero => exact owned
  | succ fuel ih =>
    rw [Fs.writeChunks]
    split
    · exact owned
    refine Prog.wp_seq _ _ (writeChunk f _ owned type ip) fun r k' after => ?_
    obtain ⟨owned, type, ip⟩ := after
    split
    · exact owned
    split
    · exact fun _ => trivial
    · exact ih _ owned type ip

theorem filewrite : Passes pids pid held (Fs.filewrite f src) fun _ => held := by
  intro k owned
  refine wp_getFile ?_
  split
  · rename_i ip _ type here
    exact Prog.wp_seq _ _ (writeChunks f _ src owned type here) fun _ _ owned => owned
  · exact owned

theorem sysRead (n : Nat) : Passes pids pid held (Fs.sysRead fd n) fun _ => held := by
  refine bind (getFd fd) fun f => ?_
  split
  · exact pure none fun _ => held
  · exact fileread _ n

theorem sysWrite : Passes pids pid held (Fs.sysWrite fd src) fun _ => held := by
  refine bind (getFd fd) fun f => ?_
  split
  · exact pure none fun _ => held
  · exact filewrite _ src

end Passes

section Member

variable {pids : Finset Nat} {pid : Nat} {held : List Grip} (member : pid ∈ pids)

include member

namespace Passes

variable (path : List UInt8)

theorem sysOpen (omode : Nat) : Passes pids pid held (Fs.sysOpen path omode) fun _ => held := by
  unfold Fs.sysOpen
  split
  · refine bind (turns fun _ => .beginTrans) fun _ => ?_
    refine bind (covered member fun _ covers => .create covers path T_FILE 0 0) fun ip => ?_
    refine bind (turns fun _ => .commitTrans) fun _ => ?_
    split
    · exact pure (-1) fun _ => held
    · exact openFile omode false
  · refine bind (turns fun _ => .when fun _ => .beginTrans) fun _ => ?_
    refine bind (covered member fun _ covers => .namei covers path) fun ip => ?_
    split
    · exact turns fun _ => .bind (.when fun _ => .commitTrans) fun _ => .pure (-1) fun _ => held
    refine bind (turns fun _ => .ilock) fun _ => ?_
    refine bind (turns fun _ => .content (only_content (getInode_only _))) fun e => ?_
    split
    · exact turns fun _ => .bind .iunlockput fun _ => .bind (.when fun _ => .commitTrans) fun _ =>
        .pure (-1) fun _ => held
    · refine bind (turns fun _ => .when fun _ => ?_) fun _ => openFile omode _
      exact .bind (.content (itrunc_only _)) fun _ => .content (iupdate_only _)

theorem moveTo {α : Type} {a : α} {p : InodePtr} : Passes pids pid ((p, false) :: held) (do
    let cwd ← getCwd
    iput cwd
    setCwd (some p)
    Fs.commitTrans
    Pure.pure a) fun _ => held := by
  intro k owned
  refine wp_getCwd fun c cwd => ?_
  refine Prog.wp_seq _ _ ((owned.lend (Owned.covers member k c cwd)).turns fun _ => .iput)
    fun _ k' ⟨lent, _, procs⟩ => ?_
  rw [← procs] at cwd
  have settled : Owned pids held (k'.setProc pid { k'.procs pid with cwd := some p }) :=
    lent.setCwd member cwd
  have finish : Passes pids pid held (do
      Fs.commitTrans
      Pure.pure a) fun _ => held :=
    turns fun _ => .bind .commitTrans fun _ => .pure a fun _ => held
  exact fun _ => finish _ settled

theorem sysChdir : Passes pids pid held (Fs.sysChdir path) fun _ => held := by
  refine bind (turns fun _ => .beginTrans) fun _ => ?_
  refine bind (covered member fun _ covers => .namei covers path) fun found => ?_
  split
  · exact turns fun _ => .bind .commitTrans fun _ => .pure (-1) fun _ => held
  refine bind (turns fun _ => .ilock) fun _ => ?_
  refine bind (turns fun _ => .content (only_content (getInode_only _))) fun e => ?_
  split
  · exact turns fun _ => .finish
  · exact bind (turns fun _ => .iunlock) fun _ => moveTo member

theorem exit : Passes pids pid held Fs.exit fun _ => held := by
  refine bind (closeAll _) fun _ => bind (turns fun _ => .beginTrans) fun _ k owned => ?_
  refine wp_getCwd fun c cwd => ?_
  refine Prog.wp_seq _ _ ((owned.lend (Owned.covers member k c cwd)).turns fun _ => .iput)
    fun _ k₁ ⟨lent, _, procs₁⟩ => ?_
  refine Prog.wp_seq _ _ (lent.turns fun _ => .commitTrans) fun _ k₂ ⟨lent, _, procs₂⟩ _ => ?_
  rw [← procs₁, ← procs₂] at cwd
  have settled : Owned pids held (k₂.setProc pid { k₂.procs pid with cwd := none }) :=
    lent.setCwd member cwd
  exact settled

/-- Every call of a process keeps the balance. -/
theorem syscall (call : Syscall) : Passes pids pid held call.run fun _ => held := by
  have drop {α : Type} {p : KProg α} (passes : Passes pids pid held p fun _ => held) :
      Passes pids pid held (do let _ ← p) fun _ => held :=
    bind passes fun _ => pure () fun _ => held
  cases call with
  | «open» path omode => exact drop (sysOpen member path omode)
  | read fd n => exact drop (sysRead fd n)
  | write fd src => exact drop (sysWrite fd src)
  | close fd => exact drop (sysClose fd)
  | dup fd => exact drop (sysDup fd)
  | link old new => exact drop (covered member fun _ covers => .sysLink covers old new)
  | unlink path => exact drop (covered member fun _ covers => .sysUnlink covers path)
  | mkdir path => exact drop (covered member fun _ covers => .sysMake covers path T_DIR 0 0)
  | mknod path major minor =>
    exact drop (covered member fun _ covers => .sysMake covers path T_DEV major minor)
  | chdir path => exact drop (sysChdir member path)
  | exec memory elf path => exact drop (covered member fun _ covers => .exec covers path memory elf)
  | exit => exact exit member

end Passes

end Member

inductive ProcCall where
  | sys (call : Syscall)
  | getcwd (size : Int)
  | fork (child : Nat)
  | userinit

/-- Process `pid` makes a call. A process without a current directory does not run: it
may be made by `userinit` or by `fork`, which fails when there is none to be had. -/
def ProcCall.run (pid : Nat) : ProcCall → Kernel → Outcome Halt Kernel Unit
  | .sys call, k => call.run.run (KOp.exec pid) k
  | .getcwd size, k => (sysGetcwd size).run (KOp.exec pid) k |>.bind fun _ k => .ok () k
  | .fork child, k => if (k.procs child).cwd = none then Fs.fork pid child k else .ok () k
  | .userinit, k =>
    if (k.procs pid).cwd = none then Fs.userinit.run (KOp.exec pid) k else .ok () k

def runAll : List (Nat × ProcCall) → Kernel → Outcome Halt Kernel Unit
  | [], k => .ok () k
  | (pid, call) :: rest, k => (call.run pid k).bind fun _ k => runAll rest k

/-- The references to cached inodes are those of open files and current directories,
an inode is cached once and none is locked. -/
structure Balanced (k : Kernel) : Prop where
  refs : ∀ p, (k.icache p).ref =
    ((fileOwners k.ftable p + {pid | (k.procs pid).cwd = some p}.ncard : Nat) : Int)
  unique : ∀ p q, 0 < (k.icache p).ref → 0 < (k.icache q).ref →
    (k.icache p).inum = (k.icache q).inum → p = q
  unlocked : ∀ p, (k.icache p).busy = false
  finite : {pid | (k.procs pid).cwd ≠ none}.Finite
  nonneg : ∀ f, 0 ≤ (k.ftable f).ref
  closed : ∀ f, (k.ftable f).ref = 0 → (k.ftable f).type = .none

/-- All processes with a current directory are among `pids`. -/
def Within (pids : Finset Nat) (k : Kernel) : Prop := ∀ pid ∉ pids, (k.procs pid).cwd = none

section Balanced

variable {pids : Finset Nat} {pid : Nat} {k k' : Kernel}

theorem cwdOwners_eq_ncard (within : Within pids k) (p : InodePtr) :
    cwdOwners pids k.procs p = {pid | (k.procs pid).cwd = some p}.ncard := by
  have same : {pid | (k.procs pid).cwd = some p} =
      ↑(pids.filter fun pid => (k.procs pid).cwd = some p) := by
    ext q
    simp only [Set.mem_ofPred_eq, Finset.coe_filter]
    refine ⟨fun here => ⟨by_contra fun out => ?_, here⟩, And.right⟩
    rw [within q out] at here
    cases here
  rw [same, Set.ncard_coe_finset, Finset.card_filter]
  rfl

theorem Owned.balanced (owned : Owned pids [] k) (within : Within pids k) : Balanced k where
  refs p := by
    rw [owned.tracks.refs, ← cwdOwners_eq_ncard within, gripsOn_nil, Nat.add_zero]
    rfl
  unique := owned.tracks.unique
  unlocked p := by
    have locks := owned.tracks.locks p
    by_contra busy
    rw [if_pos (by simpa using busy)] at locks
    cases locks
  finite := pids.finite_toSet.subset fun q some => by_contra fun out => some (within q out)
  nonneg := owned.nonneg
  closed := owned.closed

theorem Balanced.owned (balanced : Balanced k) (within : Within pids k) : Owned pids [] k := by
  refine ⟨⟨fun p => ?_, fun p => ?_, balanced.unique, rfl, rfl⟩, balanced.nonneg, balanced.closed⟩
  · rw [balanced.refs, ← cwdOwners_eq_ncard within, gripsOn_nil, Nat.add_zero]
    rfl
  · rw [balanced.unlocked]
    rfl

/-- There are finitely many processes, and `pids` may be among them. -/
theorem Balanced.within (balanced : Balanced k) (more : Finset Nat) :
    ∃ pids, more ⊆ pids ∧ Within pids k := by
  refine ⟨balanced.finite.toFinset ∪ more, Finset.subset_union_right, fun q out => ?_⟩
  by_contra some
  exact out (Finset.mem_union_left _ (balanced.finite.mem_toFinset.mpr some))

/-- A process changes nothing about another one. -/
theorem exec_others {o : KOp} {r : o.Ret} {other : Nat} (done : KOp.exec pid o k = .ok r k')
    (apart : other ≠ pid) : k'.procs other = k.procs other := by
  have kept : (KOp.exec pid o k).Satisfies (fun _ k' => k'.procs other = k.procs other)
      fun _ _ => True := by
    cases o with
    | setCwd _ | setFd _ _ => exact Function.update_of_ne apart ..
    | fdalloc f =>
      simp only [KOp.exec]
      split
      · exact Function.update_of_ne apart ..
      · rfl
    | _ =>
      simp only [KOp.exec]
      repeat' split
      all_goals first | rfl | trivial
  rw [done] at kept
  exact kept

theorem Turns.run {α : Type} {base : Base} {p : KProg α} {a : α} {held : List Grip}
    {held' : α → List Grip} (turns : Turns base pid held p held') (tracks : Tracks base held k)
    (done : p.run (KOp.exec pid) k = .ok a k') : Tracks base (held' a) k' := by
  have holds := Prog.wp_satisfies _ (turns k tracks)
  rw [done] at holds
  exact holds

theorem Passes.step {o : KOp} {r : o.Ret} {held held' : List Grip}
    (passes : Passes pids pid held (.perform o) fun _ => held') (owned : Owned pids held k)
    (done : KOp.exec pid o k = .ok r k') : Owned pids held' k' := by
  have holds := passes k owned trivial
  rw [done] at holds
  exact holds

theorem within_setCwd {cwd : Option InodePtr} (member : pid ∈ pids) (within : Within pids k) :
    Within pids (k.setProc pid { k.procs pid with cwd := cwd }) := by
  intro q out
  have apart : q ≠ pid := fun same => out (same ▸ member)
  change (Function.update k.procs pid _ q).cwd = none
  rw [Function.update_of_ne apart]
  exact within q out

theorem Passes.run {α : Type} {p : KProg α} {a : α} {held : List Grip} {held' : α → List Grip}
    (passes : Passes pids pid held p held') (member : pid ∈ pids) (owned : Owned pids held k)
    (within : Within pids k) (done : p.run (KOp.exec pid) k = .ok a k') :
    Owned pids (held' a) k' ∧ Within pids k' := by
  have both := Prog.wp_frame _ _ (passes k owned) p.only_true (J := Within pids)
    (fun o k r k' _ done within q out => by
      have apart : q ≠ pid := fun same => out (same ▸ member)
      rw [exec_others done apart]
      exact within q out) within
  have holds := Prog.wp_satisfies _ both
  rw [done] at holds
  exact holds

theorem Balanced.prog {α : Type} {p : KProg α} {a : α} (balanced : Balanced k)
    (passes : ∀ pids, pid ∈ pids → Passes pids pid [] p fun _ => [])
    (done : p.run (KOp.exec pid) k = .ok a k') : Balanced k' := by
  obtain ⟨pids, more, within⟩ := balanced.within {pid}
  have member := more (Finset.mem_singleton_self pid)
  obtain ⟨owned, within⟩ := (passes pids member).run member (balanced.owned within) within done
  exact owned.balanced within

theorem forkFiles_owned {parent child : Nat} (owned : Owned pids [] k)
    (done : forkFiles parent child fds k = .ok () k') :
    Owned pids [] k' ∧ ∀ q, (k'.procs q).cwd = (k.procs q).cwd := by
  induction fds generalizing k with
  | nil =>
    cases done
    exact ⟨owned, fun _ => rfl⟩
  | cons fd rest ih =>
    rw [forkFiles] at done
    split at done
    · exact ih owned done
    · rename_i f _
      obtain ⟨_, k₁, dup, done⟩ := Outcome.bind_eq_ok.mp done
      obtain ⟨_, k₂, set, done⟩ := Outcome.bind_eq_ok.mp done
      have owned₁ : Owned pids [] k₁ := (Passes.filedup f).step owned dup
      have owned₂ : Owned pids [] k₂ := (Passes.setFd fd (some f)).step owned₁ set
      obtain ⟨owned, same⟩ := ih owned₂ done
      refine ⟨owned, fun q => (same q).trans ?_⟩
      have procs : k₁.procs = k.procs := by
        simp only [KOp.exec] at dup
        split at dup
        · cases dup
        · cases dup
          rfl
      cases set
      rw [← procs]
      change (Function.update k₁.procs child _ q).cwd = _
      by_cases self : q = child
      · rw [self, Function.update_self]
      · rw [Function.update_of_ne self]

theorem fork_balanced {child : Nat} (balanced : Balanced k) (free : (k.procs child).cwd = none)
    (done : Fs.fork pid child k = .ok () k') : Balanced k' := by
  obtain ⟨pids, more, within⟩ := balanced.within {pid, child}
  have parent := more (Finset.mem_insert_self pid {child})
  have member := more (Finset.mem_insert_of_mem (Finset.mem_singleton_self child))
  obtain ⟨_, k₁, files, done⟩ := Outcome.bind_eq_ok.mp done
  obtain ⟨owned, same⟩ := forkFiles_owned _ (balanced.owned within) files
  have within₁ : Within pids k₁ := fun q out => (same q).trans (within q out)
  obtain ⟨c, k₂, dup, done⟩ := Outcome.bind_eq_ok.mp done
  have tracks := (Turns.idupCwd (Owned.covers parent k₁)).run owned.tracks dup
  have procs : k₂.procs = k₁.procs := tracks.procs
  rw [← same, ← procs] at free
  have settled : Owned pids [] (k₂.setProc child { k₂.procs child with cwd := some c }) :=
    (owned.after tracks).setCwd member free
  cases done
  exact settled.balanced (within_setCwd member fun q out => by rw [procs, same, within q out])

theorem userinit_balanced (balanced : Balanced k) (free : (k.procs pid).cwd = none)
    (done : Fs.userinit.run (KOp.exec pid) k = .ok () k') : Balanced k' := by
  obtain ⟨pids, more, within⟩ := balanced.within {pid}
  have member := more (Finset.mem_singleton_self pid)
  have owned := balanced.owned within
  rw [userinit, Prog.run_bind] at done
  obtain ⟨root, k₁, found, done⟩ := Outcome.bind_eq_ok.mp done
  have tracks := (Turns.namei (Owned.covers member k) [SLASH]).run owned.tracks found
  have procs : k₁.procs = k.procs := tracks.procs
  rw [← procs] at free
  have settled : Owned pids [] (k₁.setProc pid { k₁.procs pid with cwd := root }) :=
    (owned.after tracks).setCwd member free
  cases done
  exact settled.balanced (within_setCwd member fun q out => by rw [procs, within q out])

theorem ProcCall.balanced {call : ProcCall} (balanced : Balanced k) (done : call.run pid k = .ok () k') :
    Balanced k' := by
  cases call with
  | sys call => exact balanced.prog (fun _ member => .syscall member call) done
  | getcwd size =>
    obtain ⟨_, k₁, run, last⟩ := Outcome.bind_eq_ok.mp done
    cases last
    exact balanced.prog (fun _ member => .covered member fun _ covers =>
      .sysGetcwd covers size) run
  | fork child =>
    rw [ProcCall.run] at done
    split at done
    · rename_i free
      exact fork_balanced balanced free done
    · cases done
      exact balanced
  | userinit =>
    rw [ProcCall.run] at done
    split at done
    · rename_i free
      exact userinit_balanced balanced free done
    · cases done
      exact balanced

/-- Between the calls of any sequence the references are balanced. -/
theorem references_balanced {calls : List (Nat × ProcCall)} (balanced : Balanced k)
    (completed : runAll calls k = .ok () k') : Balanced k' := by
  induction calls generalizing k with
  | nil =>
    cases completed
    exact balanced
  | cons entry rest ih =>
    obtain ⟨_, k₁, first, later⟩ := Outcome.bind_eq_ok.mp completed
    exact ih (ProcCall.balanced balanced first) later

end Balanced

/-- Nothing is cached, no file is open and there is no process yet. -/
def booted : Kernel :=
  { TransOwner.twoProcs with
    icache := fun _ => ⟨0, 0, false, false, Dinode.zero⟩
    procs := fun _ => ⟨none, fun _ => none⟩ }

theorem booted_balanced : Balanced booted where
  refs p := by
    have files : fileOwners booted.ftable p = 0 :=
      Finset.sum_eq_zero fun f _ => if_neg fun points => Int.lt_irrefl 0 points.1
    have none' : {pid | (booted.procs pid).cwd = some p} = ∅ :=
      Set.eq_empty_of_forall_notMem fun _ here => nomatch here
    rw [files, none', Set.ncard_empty]
    rfl
  unique _ _ alive := absurd alive (Int.lt_irrefl 0)
  unlocked _ := rfl
  finite := Set.finite_empty.subset fun _ some => some rfl
  nonneg _ := Int.le_refl 0
  closed _ _ := rfl

theorem NOFILE_pos : 0 < NOFILE := by decide

/-- The first process opens `d` and forks; the child changes to `d` and exits. -/
def firstCalls : List (Nat × ProcCall) :=
  [(0, .userinit), (0, .sys (.open [100] O_RDONLY)), (0, .fork 1), (1, .sys (.chdir [100])),
    (1, .getcwd 100), (0, .sys (.close ⟨0, NOFILE_pos⟩)), (1, .sys .exit)]

theorem references_balanced_from_boot :
    ∃ k', runAll firstCalls booted = .ok () k' ∧ Balanced k' := by
  obtain ⟨_, k', done⟩ : ∃ a k', runAll firstCalls booted = .ok a k' :=
    Outcome.exists_ok (by decide +kernel)
  exact ⟨k', done, references_balanced booted_balanced done⟩

end SirpairOs.Fs
