import SirpairOs.Fs.Cache
import SirpairOs.Fs.TransOwner
import SirpairOs.Fs.Getcwd

/-! Every call gives back the references to cached inodes that it takes, and unlocks
the inodes that it locks. -/
namespace SirpairOs.Fs

open Prog (Only)

/-- A reference that the running call holds, and whether it has locked the inode. -/
abbrev Grip : Type := InodePtr × Bool

/-- The references that the call holds to a cache entry. -/
def gripsOn (held : List Grip) (p : InodePtr) : Nat := held.countP fun g => g.1 = p

def locksOn (held : List Grip) (p : InodePtr) : Nat := held.countP fun g => g = (p, true)

@[simp] theorem gripsOn_nil (p : InodePtr) : gripsOn [] p = 0 := rfl

theorem gripsOn_cons (g : Grip) (held : List Grip) (p : InodePtr) :
    gripsOn (g :: held) p = gripsOn held p + if g.1 = p then 1 else 0 := by
  simp only [gripsOn, List.countP_cons, decide_eq_true_eq]

theorem locksOn_cons (g : Grip) (held : List Grip) (p : InodePtr) :
    locksOn (g :: held) p = locksOn held p + if g = (p, true) then 1 else 0 := by
  simp only [locksOn, List.countP_cons, decide_eq_true_eq]

@[simp] theorem gripsOn_self (p : InodePtr) (lock : Bool) (held : List Grip) :
    gripsOn ((p, lock) :: held) p = gripsOn held p + 1 := by
  rw [gripsOn_cons, if_pos rfl]

@[simp] theorem locksOn_free (p q : InodePtr) (held : List Grip) :
    locksOn ((p, false) :: held) q = locksOn held q := by
  rw [locksOn_cons, if_neg (by simp), Nat.add_zero]

@[simp] theorem locksOn_locked (p : InodePtr) (held : List Grip) :
    locksOn ((p, true) :: held) p = locksOn held p + 1 := by
  rw [locksOn_cons, if_pos rfl]

/-- A reference to one entry does not count for another. -/
theorem grips_other {p q : InodePtr} (apart : q ≠ p) (lock : Bool) (held : List Grip) :
    gripsOn ((p, lock) :: held) q = gripsOn held q ∧
      locksOn ((p, lock) :: held) q = locksOn held q := by
  rw [gripsOn_cons, locksOn_cons, if_neg (Ne.symm apart),
    if_neg fun same => apart (Prod.mk.inj same).1.symm]
  exact ⟨rfl, rfl⟩

theorem locksOn_le (held : List Grip) (p : InodePtr) : locksOn held p ≤ gripsOn held p := by
  refine List.countP_mono_left fun g _ lock => ?_
  rw [of_decide_eq_true lock]
  exact decide_eq_true rfl

/-- What stays the same while the code of `fs.c` runs. -/
structure Base where
  /-- References to each cache entry that do not belong to the running call. -/
  owners : InodePtr → Nat
  ftable : FilePtr → File
  procs : Nat → Proc

/-- Every other reference to a cached inode belongs to the running call, and so does
every lock. -/
structure Tracks (base : Base) (held : List Grip) (k : Kernel) : Prop where
  refs : ∀ p, (k.icache p).ref = ((base.owners p + gripsOn held p : Nat) : Int)
  locks : ∀ p, (if (k.icache p).busy then 1 else 0) = locksOn held p
  unique : ∀ p q, 0 < (k.icache p).ref → 0 < (k.icache q).ref →
    (k.icache p).inum = (k.icache q).inum → p = q
  ftable : k.ftable = base.ftable
  procs : k.procs = base.procs

section Steps

variable {base : Base} {held held' : List Grip} {k k' : Kernel}

theorem Tracks.perm (tracks : Tracks base held k) (same : held.Perm held') : Tracks base held' k :=
  { tracks with
    refs := fun p => by
      rw [tracks.refs, gripsOn, same.countP_eq, gripsOn]
    locks := fun p => by
      rw [tracks.locks, locksOn, same.countP_eq, locksOn] }

theorem Tracks.congr (tracks : Tracks base held k)
    (icache : ∀ p, (k'.icache p).ref = (k.icache p).ref ∧ (k'.icache p).busy = (k.icache p).busy ∧
      (k'.icache p).inum = (k.icache p).inum)
    (ftable : k'.ftable = k.ftable) (procs : k'.procs = k.procs) : Tracks base held k' where
  refs p := by
    rw [(icache p).1]
    exact tracks.refs p
  locks p := by
    rw [(icache p).2.1]
    exact tracks.locks p
  unique p q := by
    rw [(icache p).1, (icache q).1, (icache p).2.2, (icache q).2.2]
    exact tracks.unique p q
  ftable := ftable.trans tracks.ftable
  procs := procs.trans tracks.procs

theorem Tracks.setInode (tracks : Tracks base held k) {p : InodePtr} {f : Inode → Inode}
    (refs : (f (k.icache p)).ref + gripsOn held p = (k.icache p).ref + gripsOn held' p)
    (locks : (if (f (k.icache p)).busy then 1 else 0) = locksOn held' p)
    (others : ∀ q ≠ p, gripsOn held' q = gripsOn held q ∧ locksOn held' q = locksOn held q)
    (unique : 0 < (f (k.icache p)).ref → ∀ q ≠ p, 0 < (k.icache q).ref →
      (k.icache q).inum ≠ (f (k.icache p)).inum) : Tracks base held' (k.setInode p f) := by
  have self : (k.setInode p f).icache p = f (k.icache p) := Kernel.setInode_icache_self ..
  have other {q : InodePtr} (apart : q ≠ p) : (k.setInode p f).icache q = k.icache q :=
    Kernel.setInode_icache_of_ne k f apart
  refine ⟨fun q => ?_, fun q => ?_, fun q r alive alive' same => ?_, tracks.ftable, tracks.procs⟩
  · have old := tracks.refs q
    by_cases here : q = p
    · subst here
      rw [self]
      omega
    · rw [other here, (others q here).1]
      exact old
  · by_cases here : q = p
    · subst here
      rw [self]
      exact locks
    · rw [other here, (others q here).2]
      exact tracks.locks q
  · by_cases here : q = p
    · by_cases there : r = p
      · rw [here, there]
      · rw [here, self] at alive same
        rw [other there] at alive' same
        exact absurd same.symm (unique (here ▸ alive) r there alive')
    · by_cases there : r = p
      · rw [there, self] at alive' same
        rw [other here] at alive same
        exact absurd same (unique (there ▸ alive') q here alive)
      · rw [other here, other there] at *
        exact tracks.unique q r alive alive' same

section Entry

variable {p : InodePtr}

theorem Tracks.take (tracks : Tracks base held k) (ref : 0 < (k.icache p).ref) :
    Tracks base ((p, false) :: held) (k.setInode p fun e => { e with ref := e.ref + 1 }) := by
  refine tracks.setInode ?_ ?_ (fun q apart => grips_other apart false held)
    fun _ q apart alive same => apart (tracks.unique q p alive ref same)
  · dsimp only
    rw [gripsOn_self]
    omega
  · rw [locksOn_free]
    exact tracks.locks p

/-- An unused entry is taken for an inode that is not cached. -/
theorem Tracks.insert (tracks : Tracks base held k) (unused : (k.icache p).ref = 0) {inum : Nat}
    (absent : KOp.cached k inum = none) : Tracks base ((p, false) :: held) (k.setInode p fun e =>
      { e with inum := inum, ref := 1, busy := false, valid := false }) := by
  have refs := tracks.refs p
  have few := locksOn_le held p
  refine tracks.setInode ?_ ?_ (fun q apart => grips_other apart false held)
    fun _ q apart alive same => Kernel.cached_eq_none absent q alive same
  · dsimp only
    rw [gripsOn_self]
    omega
  · dsimp only
    rw [locksOn_free, if_neg (by simp)]
    omega

theorem Tracks.lock (tracks : Tracks base ((p, false) :: held) k)
    (free : (k.icache p).busy = false) :
    Tracks base ((p, true) :: held) (k.setInode p fun e => { e with busy := true }) := by
  have locks := tracks.locks p
  have refs := tracks.refs p
  rw [locksOn_free, free, if_neg (by simp)] at locks
  rw [gripsOn_self] at refs
  refine tracks.setInode ?_ ?_ (fun q apart => ?_) fun alive q apart alive' same =>
    apart (tracks.unique q p alive' alive same)
  · dsimp only
    rw [gripsOn_self, gripsOn_self]
  · dsimp only
    rw [locksOn_locked, if_pos rfl]
    omega
  · obtain ⟨grips, locks⟩ := grips_other apart true held
    obtain ⟨grips', locks'⟩ := grips_other apart false held
    exact ⟨grips.trans grips'.symm, locks.trans locks'.symm⟩

theorem Tracks.unlock (tracks : Tracks base ((p, true) :: held) k) :
    Tracks base ((p, false) :: held) (k.setInode p fun e => { e with busy := false }) := by
  have locks := tracks.locks p
  rw [locksOn_locked] at locks
  refine tracks.setInode ?_ ?_ (fun q apart => ?_) fun alive q apart alive' same =>
    apart (tracks.unique q p alive' alive same)
  · dsimp only
    rw [gripsOn_self, gripsOn_self]
  · dsimp only
    rw [locksOn_free, if_neg (by simp)]
    split at locks <;> omega
  · obtain ⟨grips, locks⟩ := grips_other apart true held
    obtain ⟨grips', locks'⟩ := grips_other apart false held
    exact ⟨grips'.trans grips.symm, locks'.trans locks.symm⟩

theorem Tracks.drop (tracks : Tracks base ((p, false) :: held) k) :
    Tracks base held (k.setInode p fun e => { e with ref := e.ref - 1 }) := by
  refine tracks.setInode ?_ ?_ (fun q apart => ?_) fun alive q apart alive' same => ?_
  · dsimp only
    rw [gripsOn_self]
    omega
  · rw [← locksOn_free p p held]
    exact tracks.locks p
  · obtain ⟨grips, locks⟩ := grips_other apart false held
    exact ⟨grips.symm, locks.symm⟩
  · dsimp only at alive
    exact apart (tracks.unique q p alive' (by omega) same)

/-- One reference less to an entry that was freed. -/
theorem Tracks.free (tracks : Tracks base ((p, true) :: held) k) :
    Tracks base held (k.setInode p fun e =>
      { e with busy := false, valid := false, ref := e.ref - 1 }) := by
  have locks := tracks.locks p
  rw [locksOn_locked] at locks
  refine tracks.setInode ?_ ?_ (fun q apart => ?_) fun alive q apart alive' same => ?_
  · dsimp only
    rw [gripsOn_self]
    omega
  · dsimp only
    rw [if_neg (by simp)]
    split at locks <;> omega
  · obtain ⟨grips, locks⟩ := grips_other apart true held
    exact ⟨grips.symm, locks.symm⟩
  · dsimp only at alive
    exact apart (tracks.unique q p alive' (by omega) same)

end Entry

end Steps

/-- Run alone by process `pid` with the references `held`, the program has those of
`held'` when it ends. -/
def Turns {α : Type} (base : Base) (pid : Nat) (held : List Grip) (p : KProg α)
    (held' : α → List Grip) : Prop :=
  ∀ k, Tracks base held k → Prog.wp (KOp.exec pid) (fun _ _ => True) p
    (fun a k' => Tracks base (held' a) k') (fun _ _ => True) k

/-- The program ends with the references that it began with. -/
abbrev Keeps {α : Type} (base : Base) (pid : Nat) (held : List Grip) (p : KProg α) : Prop :=
  Turns base pid held p fun _ => held

namespace Turns

variable {α β : Type} {base : Base} {pid : Nat} {held : List Grip} {p : InodePtr}

theorem pure (a : α) (held : α → List Grip) : Turns base pid (held a) (Pure.pure a) held :=
  fun _ tracks => tracks

theorem keep {a : α} : Keeps base pid held (Pure.pure a) := fun _ tracks => tracks

theorem bind {body : KProg α} {next : α → KProg β} {between : α → List Grip}
    {held' : β → List Grip} (first : Turns base pid held body between)
    (rest : ∀ a, Turns base pid (between a) (next a) held') :
    Turns base pid held (body >>= next) held' :=
  fun k tracks => Prog.wp_seq _ _ (first k tracks) fun a => rest a

theorem when {c : Prop} [Decidable c] {body : KProg Unit} (yes : c → Keeps base pid held body) :
    Keeps base pid held (Prog.when c body) :=
  fun k tracks => Prog.wp_when _ _ (fun holds => yes holds k tracks) fun _ => tracks

theorem perm {body : KProg α} {held₁ : List Grip} {held' held₁' : α → List Grip}
    (turns : Turns base pid held body held') (before : held₁.Perm held)
    (after : ∀ a, (held' a).Perm (held₁' a)) : Turns base pid held₁ body held₁' :=
  fun k tracks => Prog.wp_mono _ _ (turns k (tracks.perm before))
    (fun a _ tracks => tracks.perm (after a)) fun _ _ => id

theorem panic {which : Panic} {held' : α → List Grip} :
    Turns base pid held (Fs.panic which) held' :=
  fun _ _ _ => trivial

/-- Operations on blocks and copies of inodes. -/
theorem content {body : KProg α} (only : body.Only Content) : Keeps base pid held body := by
  intro k tracks
  induction body generalizing k with
  | ret value => exact tracks
  | op o next ih =>
    intro _
    have kept : (KOp.exec pid o k).Satisfies (fun _ k' => Tracks base held k') fun _ _ => True := by
      cases o with
      | setDin q din | setValid q =>
        refine tracks.congr (fun p => ?_) rfl rfl
        by_cases here : p = q
        · subst here
          simp only [Kernel.setInode_icache_self, and_self]
        · simp only [Kernel.setInode_icache_of_ne _ _ here, and_self]
      | iget _ | idup _ | lockInode _ | iunlock _ | putRef _ | dropRef _ | setCwd _ | filealloc
      | setFile _ _ | dropFile _ | filedup _ | setFd _ _ | fdalloc _ | beginTrans
      | commitTrans => exact only.1.elim
      | _ =>
        simp only [KOp.exec]
        repeat' split
        all_goals first
          | exact tracks.congr (fun _ => ⟨rfl, rfl, rfl⟩) rfl rfl
          | trivial
    exact kept.mono (fun r k' tracks => ih r (only.2 r) k' tracks) fun _ _ => id

theorem writes {body : KProg α} {next : α → KProg β} {held' : β → List Grip}
    (first : body.Only Content) (rest : ∀ a, Turns base pid held (next a) held') :
    Turns base pid held (body >>= next) held' :=
  bind (content first) rest

theorem reads {body : KProg α} {next : α → KProg β} {held' : β → List Grip}
    (first : body.Only ContentReading) (rest : ∀ a, Turns base pid held (next a) held') :
    Turns base pid held (body >>= next) held' :=
  writes (only_content first) rest

theorem beginTrans : Keeps base pid held Fs.beginTrans := by
  intro k tracks _
  simp only [KOp.exec]
  split
  · exact tracks.congr (fun _ => ⟨rfl, rfl, rfl⟩) rfl rfl
  · trivial

theorem commitTrans : Keeps base pid held Fs.commitTrans :=
  fun _ tracks _ => tracks.congr (fun _ => ⟨rfl, rfl, rfl⟩) rfl rfl

theorem iget (inum : Nat) : Turns base pid held (Fs.iget inum) fun ip => (ip, false) :: held := by
  intro k tracks _
  simp only [KOp.exec]
  cases found : KOp.cached k inum with
  | some ip => exact tracks.take (Kernel.cached_eq_some found).1
  | none =>
    dsimp only
    cases empty : KOp.emptySlot k with
    | none => trivial
    | some ip => exact tracks.insert (by simpa using List.find?_some empty) found

theorem ilock : Turns base pid ((p, false) :: held) (Fs.ilock p) fun _ => (p, true) :: held := by
  have lock : Turns base pid ((p, false) :: held) (lockInode p) fun _ => (p, true) :: held := by
    intro k tracks _
    simp only [KOp.exec]
    split
    · trivial
    split
    · trivial
    · rename_i free
      exact tracks.lock (by simpa using free)
  refine bind lock fun valid => content (Only.when ?_)
  · refine Only.bind (only_content (getInode_only p)) fun e => ?_
    refine Only.bind (only_content (bread_only _)) fun bp => ?_
    refine Only.bind (only_content (setDin_only p _)) fun _ => ?_
    refine Only.bind (only_content (brelse_only _)) fun _ => ?_
    refine Only.bind (only_content (setValid_only p)) fun _ => ?_
    refine Only.bind (only_content (getInode_only p)) fun e => ?_
    exact Only.when (only_content (panic_only (by decide)))

theorem iunlock :
    Turns base pid ((p, true) :: held) (Fs.iunlock p) fun _ => (p, false) :: held := by
  intro k tracks _
  simp only [KOp.exec]
  split
  · trivial
  · exact tracks.unlock

theorem iput : Turns base pid ((p, false) :: held) (Fs.iput p) fun _ => held := by
  intro k tracks
  refine (Prog.wp_bind _ _ _ _ _ _ _).mpr fun _ => ?_
  simp only [KOp.exec]
  split
  · split
    · trivial
    · rename_i free
      have locked := tracks.lock (by simpa using free)
      refine Prog.wp_when _ _ (fun _ => ?_) fun no => absurd rfl no
      have body : Turns base pid ((p, true) :: held) (do
          itrunc p
          let e ← getInode p
          setDin p { e.din with type := 0 }
          iupdate p
          dropRef p) fun _ => held := by
        refine writes (itrunc_only p) fun _ => ?_
        refine reads (getInode_only p) fun e => ?_
        refine reads (setDin_only p _) fun _ => ?_
        exact writes (iupdate_only p) fun _ k tracks _ => tracks.free
      exact body _ locked
  · exact Prog.wp_when _ _ (fun yes => by cases yes) fun _ => tracks.drop

theorem iunlockput : Turns base pid ((p, true) :: held) (Fs.iunlockput p) fun _ => held :=
  bind iunlock fun _ => iput

theorem devRead (major : Int) (n : Nat) :
    Keeps base pid ((p, true) :: held) (Fs.devRead p major n) := by
  unfold Fs.devRead
  split
  · exact keep
  refine reads (devsw_only _) fun driver => ?_
  split
  · exact keep
  · exact bind iunlock fun _ => bind ilock fun _ => keep

theorem devWrite (major : Int) (n : Nat) :
    Keeps base pid ((p, true) :: held) (Fs.devWrite p major n) := by
  unfold Fs.devWrite
  split
  · exact keep
  refine reads (devsw_only _) fun driver => ?_
  split
  · exact keep
  · exact bind iunlock fun _ => bind ilock fun _ => keep

theorem readi (off n : Nat) : Keeps base pid ((p, true) :: held) (Fs.readi p off n) := by
  refine reads (getInode_only p) fun e => ?_
  split
  · exact devRead _ n
  split
  · exact keep
  · exact reads (readLoop_only p _ off _) fun bytes =>
      keep

theorem writei (src : List UInt8) (off : Nat) :
    Keeps base pid ((p, true) :: held) (Fs.writei p src off) := by
  refine reads (getInode_only p) fun e => ?_
  split
  · exact devWrite _ _
  split
  · exact keep
  split
  · exact keep
  refine writes (writeLoop_only p _ _ _) fun off => ?_
  refine reads (getInode_only p) fun e => ?_
  refine bind (when fun _ => ?_) fun _ => keep
  exact reads (setDin_only p _) fun _ => content (iupdate_only p)

theorem readEntry (off : Nat) (which : Panic) :
    Keeps base pid ((p, true) :: held) (Fs.readEntry p off which) := by
  refine bind (readi off _) fun bytes => ?_
  split
  · split
    · exact keep
    · exact panic
  · exact panic

def found {γ : Type} (held : List Grip) : Option (InodePtr × γ) → List Grip
  | none => held
  | some (ip, _) => (ip, false) :: held

theorem lookupFrom (name : List UInt8) (offs : List Nat) :
    Turns base pid ((p, true) :: held) (Fs.lookupFrom p name offs) (found ((p, true) :: held)) := by
  induction offs with
  | nil => exact pure none (found ((p, true) :: held))
  | cons off rest ih =>
    refine bind (readEntry off _) fun de => ?_
    split
    · exact ih
    split
    · exact bind (iget _) fun ip => pure (some (ip, off)) (found ((p, true) :: held))
    · exact ih

theorem dirlookup (name : List UInt8) :
    Turns base pid ((p, true) :: held) (Fs.dirlookup p name) (found ((p, true) :: held)) := by
  refine reads (getInode_only p) fun e => ?_
  split
  · exact panic
  · exact lookupFrom name _

theorem emptyFrom (last : Nat) (offs : List Nat) :
    Keeps base pid ((p, true) :: held) (Fs.emptyFrom p last offs) := by
  induction offs with
  | nil => exact keep
  | cons off rest ih =>
    refine bind (readEntry off _) fun de => ?_
    split
    · exact keep
    · exact ih

theorem dirlink (name : List UInt8) (inum : Nat) :
    Keeps base pid ((p, true) :: held) (Fs.dirlink p name inum) := by
  refine bind (dirlookup name) fun present => ?_
  split
  · exact bind iput fun _ => keep
  · refine reads (getInode_only p) fun e => ?_
    refine bind (emptyFrom _ _) fun off => bind (writei _ off) fun written => ?_
    split
    · exact keep
    · exact panic

theorem isdirempty : Keeps base pid ((p, true) :: held) (Fs.isdirempty p) := by
  have loop (offs : List Nat) : Keeps base pid ((p, true) :: held) (emptyEntries p offs) := by
    induction offs with
    | nil => exact keep
    | cons off rest ih =>
      refine bind (readEntry off _) fun de => ?_
      split
      · exact keep
      · exact ih
  exact reads (getInode_only p) fun e => loop _

theorem namexFrom (parent : Bool) {fuel : Nat} {name path : List UInt8}
    (enough : path.length < fuel) :
    Turns base pid ((p, false) :: held) (Fs.namexFrom parent fuel p name path) (found held) := by
  induction fuel generalizing p name path with
  | zero => omega
  | succ fuel ih =>
    rw [Fs.namexFrom]
    split
    · split
      · exact bind iput fun _ => pure none (found held)
      · exact pure (some (p, name)) (found held)
    rename_i elem rest step
    have shorter := length_skipelem step
    refine bind ilock fun _ => reads (getInode_only p) fun e => ?_
    split
    · exact bind iunlockput fun _ => pure none (found held)
    split
    · exact bind iunlock fun _ => pure (some (p, elem)) (found held)
    refine bind (dirlookup elem) fun next => ?_
    split
    · exact bind iunlockput fun _ => pure none (found held)
    · refine bind (iunlockput.perm (.swap ..) fun _ => .refl _) fun _ => ih (by omega)

section Member

-- The current directory of the process is in use.
variable (covers : ∀ c, (base.procs pid).cwd = some c → 0 < base.owners c)

include covers

theorem idupCwd : Turns base pid held (getCwd >>= Fs.idup) fun ip => (ip, false) :: held := by
  intro k tracks
  refine (Prog.wp_bind _ _ _ _ _ _ _).mpr fun _ => ?_
  simp only [KOp.exec]
  cases cwd : (k.procs pid).cwd with
  | none => trivial
  | some c =>
    have used := covers c (by rw [← tracks.procs, cwd])
    have refs := tracks.refs c
    exact fun _ => tracks.take (by omega)

variable (path : List UInt8)

theorem namexStart : Turns base pid held (Fs.namexStart path) fun ip => (ip, false) :: held := by
  unfold Fs.namexStart
  split
  · exact iget _
  · exact idupCwd covers

theorem namex (parent : Bool) : Turns base pid held (Fs.namex path parent) (found held) :=
  bind (namexStart covers path) fun _ => namexFrom parent (Nat.lt_succ_self _)

/-- The reference to the inode that a path names. -/
def named (held : List Grip) : Option InodePtr → List Grip
  | none => held
  | some ip => (ip, false) :: held

theorem namei : Turns base pid held (Fs.namei path) (named held) := by
  refine bind (namex covers path false) fun r => ?_
  cases r with
  | none => exact pure none (named held)
  | some r => exact pure (some r.1) (named held)

omit covers in
theorem ialloc (type : Int) :
    Turns base pid held (Fs.ialloc type) fun ip => (ip, false) :: held := by
  have loop (inums : List Nat) :
      Turns base pid held (iallocFrom type inums) fun ip => (ip, false) :: held := by
    induction inums with
    | nil => exact panic
    | cons inum rest ih =>
      refine reads (bread_only _) fun bp => ?_
      split
      · refine writes (logWrite_only _ _) fun _ => ?_
        exact reads (brelse_only _) fun _ => iget inum
      · exact reads (brelse_only _) fun _ => ih
  exact reads readsb_only fun sb => loop _

def locked (held : List Grip) : Option InodePtr → List Grip
  | none => held
  | some ip => (ip, true) :: held

omit covers in
theorem createIn (name : List UInt8) (type major minor : Int) :
    Turns base pid ((p, true) :: held) (Fs.createIn p name type major minor) (locked held) := by
  refine bind (ialloc type) fun ip => bind ilock fun _ => ?_
  refine reads (getInode_only ip) fun e => ?_
  refine reads (setDin_only ip _) fun _ => ?_
  refine writes (iupdate_only ip) fun _ => ?_
  have swap : ((ip, true) :: (p, true) :: held).Perm ((p, true) :: (ip, true) :: held) := .swap ..
  have dots (inum : Nat) : Keeps base pid ((ip, true) :: (p, true) :: held) (do
      let d ← getInode p
      setDin p { d.din with nlink := wrapShort (d.din.nlink + 1) }
      iupdate p
      let dot ← Fs.dirlink ip DOT inum
      Prog.when (dot = false) (Fs.panic .createDots)
      let dotdot ← Fs.dirlink ip DOTDOT d.inum
      Prog.when (dotdot = false) (Fs.panic .createDots)) := by
    refine reads (getInode_only p) fun d => ?_
    refine reads (setDin_only p _) fun _ => ?_
    refine writes (iupdate_only p) fun _ => bind (dirlink DOT _) fun dot => ?_
    refine bind (when fun _ => panic) fun _ => bind (dirlink DOTDOT _) fun dotdot => ?_
    exact when fun _ => panic
  refine bind (when fun _ => dots _) fun _ => ?_
  refine bind ((dirlink name _).perm swap fun _ => .refl _) fun linked => ?_
  refine bind (when fun _ => panic) fun _ => bind iunlockput fun _ => ?_
  exact pure (some ip) (locked held)

theorem create (type major minor : Int) :
    Turns base pid held (Fs.create path type major minor) (locked held) := by
  refine bind (namex covers path true) fun parent => ?_
  split
  · exact pure none (locked held)
  refine bind ilock fun _ => bind (dirlookup _) fun present => ?_
  split
  · refine bind (iunlockput.perm (.swap ..) fun _ => .refl _) fun _ => bind ilock fun _ => ?_
    refine reads (getInode_only _) fun e => ?_
    split
    · exact pure (some _) (locked held)
    · exact bind iunlockput fun _ => pure none (locked held)
  · exact createIn _ type major minor

omit covers in
theorem finish {a : α} : Turns base pid ((p, true) :: held) (do
    Fs.iunlockput p
    Fs.commitTrans
    Pure.pure a) fun _ => held :=
  bind iunlockput fun _ => bind commitTrans fun _ => keep

theorem linkAt (new : List UInt8) (inum : Nat) : Keeps base pid held (sysLink.linkAt new inum) := by
  refine bind (namex covers new true) fun parent => ?_
  split
  · exact keep
  · refine bind ilock fun _ => bind (dirlink _ inum) fun linked => bind iunlockput fun _ => ?_
    exact keep

theorem sysLink (old new : List UInt8) : Keeps base pid held (Fs.sysLink old new) := by
  refine bind (namei covers old) fun found => ?_
  split
  · exact keep
  refine bind beginTrans fun _ => bind ilock fun _ => ?_
  refine reads (getInode_only _) fun e => ?_
  split
  · exact finish
  refine reads (setDin_only _ _) fun _ => ?_
  refine writes (iupdate_only _) fun _ => bind iunlock fun _ => ?_
  refine bind (linkAt covers new _) fun linked => ?_
  split
  · exact bind iput fun _ => bind commitTrans fun _ => keep
  · refine bind ilock fun _ => reads (getInode_only _) fun e => ?_
    refine reads (setDin_only _ _) fun _ => ?_
    exact writes (iupdate_only _) fun _ => finish

theorem sysUnlink : Keeps base pid held (Fs.sysUnlink path) := by
  refine bind (namex covers path true) fun parent => ?_
  split
  · exact keep
  rename_i dp name
  refine bind beginTrans fun _ => bind ilock fun _ => ?_
  split
  · exact finish
  refine bind (dirlookup name) fun present => ?_
  split
  · exact finish
  rename_i ip off
  refine bind ilock fun _ => reads (getInode_only ip) fun e => ?_
  refine bind (when fun _ => panic) fun _ => ?_
  have removable : Keeps base pid ((ip, true) :: (dp, true) :: held) (removable ip e.din.type) := by
    unfold Fs.removable
    split
    · exact isdirempty
    · exact keep
  refine bind removable fun free => ?_
  split
  · exact bind iunlockput fun _ => finish
  have swap : ((ip, true) :: (dp, true) :: held).Perm ((dp, true) :: (ip, true) :: held) := .swap ..
  refine bind ((writei _ off).perm swap fun _ => .refl _) fun written => ?_
  refine bind (when fun _ => panic) fun _ => bind (when fun _ => ?_) fun _ => ?_
  · refine reads (getInode_only dp) fun d => ?_
    exact reads (setDin_only dp _) fun _ => content (iupdate_only dp)
  refine bind iunlockput fun _ => reads (getInode_only ip) fun e => ?_
  refine reads (setDin_only ip _) fun _ => ?_
  exact writes (iupdate_only ip) fun _ => finish

theorem sysMake (type major minor : Int) :
    Keeps base pid held (Fs.sysMake path type major minor) := by
  refine bind beginTrans fun _ => bind (create covers path type major minor) fun ip => ?_
  split
  · exact bind commitTrans fun _ => keep
  · exact finish

omit covers in
theorem nameIn (inum : Nat) (offs : List Nat) :
    Keeps base pid ((p, true) :: held) (Fs.nameIn p inum offs) := by
  induction offs with
  | nil => exact keep
  | cons off rest ih =>
    refine bind (readEntry off _) fun de => ?_
    split
    · exact keep
    · exact ih

omit covers in
theorem climb (room : Nat) (comps : List (List UInt8)) :
    Turns base pid ((p, false) :: held) (Fs.climb room p comps) fun _ => held := by
  induction room using Nat.strongRecOn generalizing p comps with
  | ind room ih =>
    rw [Fs.climb]
    refine bind ilock fun _ => reads (getInode_only p) fun e => ?_
    split
    · exact bind iunlock fun _ => bind iput fun _ => keep
    refine bind (dirlookup DOTDOT) fun parent => ?_
    split
    · exact bind iunlockput fun _ => keep
    rename_i dp _
    refine bind ilock fun _ => reads (getInode_only dp) fun d => ?_
    refine bind (nameIn _ _) fun name => bind iunlock fun _ => ?_
    refine bind (iunlockput.perm (.swap ..) fun _ => .refl _) fun _ => ?_
    split
    · exact bind iput fun _ => keep
    split
    · exact bind iput fun _ => keep
    · exact ih _ (Nat.lt_succ_self _) _

theorem sysGetcwd (size : Int) : Keeps base pid held (Fs.sysGetcwd size) := by
  have find : Keeps base pid held (findCwd size) := by
    unfold findCwd
    split
    · exact keep
    rw [← bind_assoc]
    refine bind (idupCwd covers) fun ip => bind (climb NCOMPS []) fun found => ?_
    split <;> exact keep
  exact bind beginTrans fun _ => bind find fun path => bind commitTrans fun _ =>
    keep

theorem exec (memory : Memory) (elf : List UInt8) :
    Keeps base pid held (Fs.exec memory elf path) := by
  have all (ip : InodePtr) (off n : Nat) :
      Keeps base pid ((ip, true) :: held) (readAll ip off n) := bind (readi off n) fun _ => keep
  have pages (ip : InodePtr) (ph : Mem.ProgHdr) (n j : Nat) :
      Keeps base pid ((ip, true) :: held) (loadLoop ip ph n j) := by
    induction n generalizing j with
    | zero => exact keep
    | succ n ih =>
      refine bind (all ip _ _) fun r => ?_
      split
      · exact keep
      · exact ih _
  have segments (ip : InodePtr) (n off sz : Nat) :
      Keeps base pid ((ip, true) :: held) (loadSegments memory ip n off sz) := by
    induction n generalizing off sz with
    | zero => exact keep
    | succ n ih =>
      refine bind (all ip _ _) fun header => ?_
      split
      · exact keep
      split
      · exact ih _ _
      split
      · exact keep
      dsimp only
      split
      · exact keep
      split
      · exact panic
      refine bind (pages ip _ _ _) fun loaded => ?_
      split
      · exact ih _ _
      · exact keep
  have bad (ip : InodePtr) : Turns base pid ((ip, true) :: held) (execBad (some ip))
      (fun _ => held) := bind iunlockput fun _ => keep
  refine bind (namei covers path) fun found => ?_
  split
  · exact keep
  refine bind ilock fun _ => bind (readi _ _) fun r => ?_
  dsimp only
  split
  · exact bad _
  refine bind (segments _ _ _ _) fun size => ?_
  split
  · exact bad _
  -- From here on `ip` is 0: neither the success nor `bad` releases anything.
  refine bind iunlockput fun _ => ?_
  split
  · exact keep
  · exact keep

end Member

end Turns

end SirpairOs.Fs
