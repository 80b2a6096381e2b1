import SirpairOs.Lib.Interleave
import SirpairOs.Fs.File

/-! Which process calls `log_write`. Path lookup, `exec` and the error paths of
`link` and `unlink` drop inode references outside transactions; dropping the
last one to an unlinked inode writes the disk. -/
namespace SirpairOs.Fs

open Prog (Only)

/-- Operations that leave the owner of the log as it is. -/
def Plain : KOp → Prop
  | .beginTrans => False
  | .commitTrans => False
  | .panic which => which ≠ .outsideTrans
  | _ => True

/-- Operations that a process may perform without owning the log. -/
def Reading : KOp → Prop
  | .logWrite _ _ => False
  | o => Plain o

theorem Reading.plain (o : KOp) (reading : Reading o) : Plain o := by
  cases o <;> first | exact reading | exact reading.elim

/-- Operations of `fs.c`, which leave the log's owner, the open files and the
processes alone. -/
def Lower : KOp → Prop
  | .setCwd _ | .filealloc | .setFile _ _ | .dropFile _ | .filedup _ | .setFd _ _ | .fdalloc _ =>
    False
  | o => Plain o

/-- Those that a process may perform without owning the log. -/
def LowerReading : KOp → Prop
  | .logWrite _ _ => False
  | o => Lower o

theorem Lower.plain (o : KOp) (lower : Lower o) : Plain o := by
  cases o <;> first | exact lower | exact lower.elim

theorem Lower.ne_commit (o : KOp) (lower : Lower o) : o ≠ .commitTrans := by
  rintro rfl
  exact lower

theorem LowerReading.lower (o : KOp) (reading : LowerReading o) : Lower o := by
  cases o <;> first | exact reading | exact reading.elim

theorem LowerReading.reading (o : KOp) (reading : LowerReading o) : Reading o := by
  cases o <;> first | exact reading | exact reading.elim

/-- Operations of `fs.c` leave open files and descriptors alone. -/
theorem exec_lower {p : Nat} {o : KOp} {k k' : Kernel} {r : o.Ret} (lower : Lower o)
    (done : KOp.exec p o k = .ok r k') : k'.procs = k.procs ∧ k'.ftable = k.ftable := by
  have kept : (KOp.exec p o k).Satisfies
      (fun _ k' => k'.procs = k.procs ∧ k'.ftable = k.ftable) fun _ _ => True := by
    cases o with
    | setCwd _ | filealloc | setFile _ _ | dropFile _ | filedup _ | setFd _ _ | fdalloc _
    | beginTrans | commitTrans => exact lower.elim
    | _ =>
      simp only [KOp.exec]
      repeat' split
      all_goals first | exact ⟨rfl, rfl⟩ | trivial
  rw [done] at kept
  exact kept

/-- Operations on blocks and on the copy of an inode, which leave references and
locks of inodes alone, too. -/
def Content : KOp → Prop
  | .iget _ | .idup _ | .lockInode _ | .iunlock _ | .putRef _ | .dropRef _ => False
  | o => Lower o

/-- Those that a process may perform without owning the log. -/
def ContentReading : KOp → Prop
  | .logWrite _ _ => False
  | o => Content o

theorem Content.lower (o : KOp) (content : Content o) : Lower o := by
  cases o <;> first | exact content | exact content.elim

theorem ContentReading.content (o : KOp) (reading : ContentReading o) : Content o := by
  cases o <;> first | exact reading | exact reading.elim

theorem ContentReading.lower (o : KOp) (reading : ContentReading o) : LowerReading o := by
  cases o <;> first | exact reading | exact reading.elim

section Programs

attribute [local grind ←] Only.bind Only.when
attribute [local grind .] Prog.only_ret Prog.only_pure

@[local grind ←]
theorem only_lower {α : Type} {p : KProg α} (reading : p.Only LowerReading) : p.Only Lower :=
  reading.mono LowerReading.lower

@[local grind ←]
theorem only_content {α : Type} {p : KProg α} (reading : p.Only ContentReading) : p.Only Content :=
  reading.mono ContentReading.content

@[local grind ←]
theorem of_content {α : Type} {p : KProg α} (content : p.Only Content) : p.Only Lower :=
  content.mono Content.lower

@[local grind ←]
theorem of_reading {α : Type} {p : KProg α} (reading : p.Only ContentReading) :
    p.Only LowerReading :=
  reading.mono ContentReading.lower

variable (s : Nat) (dp ip : InodePtr) (path : List UInt8)

@[local grind .]
theorem bread_only : (bread s).Only ContentReading := ⟨trivial, fun _ => trivial⟩

@[local grind .]
theorem brelse_only : (brelse s).Only ContentReading := ⟨trivial, fun _ => trivial⟩

@[local grind .]
theorem logWrite_only (data : Block) : (logWrite s data).Only Content :=
  ⟨trivial, fun _ => trivial⟩

@[local grind .]
theorem iget_only (inum : Nat) : (iget inum).Only LowerReading := ⟨trivial, fun _ => trivial⟩

@[local grind .]
theorem getInode_only : (getInode ip).Only ContentReading := ⟨trivial, fun _ => trivial⟩

@[local grind .]
theorem setDin_only (din : Dinode) : (setDin ip din).Only ContentReading :=
  ⟨trivial, fun _ => trivial⟩

@[local grind .]
theorem lockInode_only : (lockInode ip).Only LowerReading := ⟨trivial, fun _ => trivial⟩

@[local grind .]
theorem setValid_only : (setValid ip).Only ContentReading := ⟨trivial, fun _ => trivial⟩

@[local grind .]
theorem iunlock_only : (iunlock ip).Only LowerReading := ⟨trivial, fun _ => trivial⟩

@[local grind .]
theorem putRef_only : (putRef ip).Only LowerReading := ⟨trivial, fun _ => trivial⟩

@[local grind .]
theorem dropRef_only : (dropRef ip).Only LowerReading := ⟨trivial, fun _ => trivial⟩

@[local grind .]
theorem getCwd_only : getCwd.Only ContentReading := ⟨trivial, fun _ => trivial⟩

@[local grind .]
theorem devsw_only (major : Nat) : (devsw major).Only ContentReading := ⟨trivial, fun _ => trivial⟩

@[local grind ←]
theorem panic_only {α : Type} {which : Panic} (other : which ≠ .outsideTrans) :
    (panic which : KProg α).Only ContentReading := ⟨other, nofun⟩

@[local grind .]
theorem idup_only : (idup ip).Only LowerReading :=
  Only.bind ⟨trivial, fun _ => trivial⟩ fun _ => trivial

@[local grind .]
theorem readsb_only : readsb.Only ContentReading := by
  unfold readsb
  grind

@[local grind .]
theorem bzero_only (b : Nat) : (bzero b).Only Content := by
  unfold bzero
  grind

@[local grind .]
theorem balloc_only : balloc.Only Content := by
  have loop (sb : Superblock) (starts : List Nat) : (ballocFrom sb starts).Only Content := by
    induction starts with
    | nil => grind [ballocFrom]
    | cons b rest ih => grind [ballocFrom]
  unfold balloc
  grind

@[local grind .]
theorem bfree_only (b : Nat) : (bfree b).Only Content := by
  unfold bfree
  grind

@[local grind .]
theorem ialloc_only (type : Int) : (ialloc type).Only Lower := by
  have loop (inums : List Nat) : (iallocFrom type inums).Only Lower := by
    induction inums with
    | nil => grind [iallocFrom]
    | cons inum rest ih => grind [iallocFrom]
  unfold ialloc
  grind

@[local grind .]
theorem iupdate_only : (iupdate ip).Only Content := by
  unfold iupdate
  grind

@[local grind .]
theorem ilock_only : (ilock ip).Only LowerReading := by
  refine Only.bind (lockInode_only ip) fun valid => Only.when ?_
  refine Only.bind (getInode_only ip) fun e => Only.bind (bread_only _) fun bp => ?_
  grind

@[local grind .]
theorem setAddr_only (j : Fin (NDIRECT + 2)) (addr : Nat) :
    (setAddr ip j addr).Only ContentReading := by
  unfold setAddr
  grind

@[local grind .]
theorem truncIndex_only (addr : Nat) : (truncIndex addr).Only Content := by
  have loop (addrs : List Nat) : (bfreeAll addrs).Only Content := by
    induction addrs with
    | nil => trivial
    | cons a rest ih => grind [bfreeAll]
  unfold truncIndex
  grind

@[local grind .]
theorem itrunc_only : (itrunc ip).Only Content := by
  have direct (js : List (Fin (NDIRECT + 2))) : (truncDirect ip js).Only Content := by
    induction js with
    | nil => trivial
    | cons j rest ih =>
      rw [truncDirect]
      refine Only.bind (only_content (getInode_only ip)) fun e => Only.bind (Only.when ?_) fun _ => ih
      exact Only.bind (bfree_only _) fun _ => only_content (setAddr_only ip j 0)
  have indexes (addrs : List Nat) : (truncIndexes addrs).Only Content := by
    induction addrs with
    | nil => trivial
    | cons a rest ih => grind [truncIndexes]
  refine Only.bind (direct _) fun _ => Only.bind (only_content (getInode_only ip)) fun e => ?_
  refine Only.bind (Only.when ?_) fun _ => Only.bind (only_content (getInode_only ip)) fun e => ?_
  · grind
  refine Only.bind (Only.when ?_) fun _ => ?_
  · grind
  · grind

@[local grind .]
theorem iput_only : (iput ip).Only Lower := by
  unfold iput
  grind

@[local grind .]
theorem iunlockput_only : (iunlockput ip).Only Lower := by
  unfold iunlockput
  grind

@[local grind .]
theorem bmap_only (bn : Nat) : (bmap ip bn).Only Content := by
  have entry (addr j : Nat) : (mapEntry addr j).Only Content := by
    unfold mapEntry
    grind
  have top (j : Fin (NDIRECT + 2)) : (mapTop ip j).Only Content := by
    unfold mapTop
    grind
  unfold bmap
  grind

@[local grind .]
theorem bmapRead_only (bn : Nat) : (bmapRead ip bn).Only ContentReading := by
  unfold bmapRead
  grind

@[local grind .]
theorem readLoop_only (fuel off n : Nat) : (readLoop ip fuel off n).Only ContentReading := by
  induction fuel generalizing off n with
  | zero => trivial
  | succ fuel ih => grind [readLoop]

@[local grind .]
theorem readi_only (off n : Nat) : (readi ip off n).Only LowerReading := by
  have device (major : Int) (n : Nat) : (devRead ip major n).Only LowerReading := by
    unfold devRead
    grind
  unfold readi
  grind

@[local grind .]
theorem writeLoop_only (fuel off : Nat) (src : List UInt8) :
    (writeLoop ip fuel off src).Only Content := by
  induction fuel generalizing off src with
  | zero => trivial
  | succ fuel ih => grind [writeLoop]

@[local grind .]
theorem writei_only (src : List UInt8) (off : Nat) : (writei ip src off).Only Lower := by
  have device (major : Int) (n : Nat) : (devWrite ip major n).Only Lower := by
    unfold devWrite
    grind
  refine Only.bind (only_lower (getInode_only ip)) fun e => ?_
  split
  · exact device _ _
  split
  · trivial
  split
  · trivial
  refine Only.bind (of_content (writeLoop_only ip _ _ _)) fun off => ?_
  refine Only.bind (of_content (only_content (getInode_only ip))) fun e => ?_
  refine Only.bind (Only.when ?_) fun _ => trivial
  exact Only.bind (only_lower (setDin_only ip _)) fun _ => iupdate_only ip

@[local grind .]
theorem readEntry_only (off : Nat) {which : Panic} (other : which ≠ .outsideTrans) :
    (readEntry dp off which).Only LowerReading := by
  refine Only.bind (readi_only dp off _) fun bytes => ?_
  have stop : (panic which : KProg Dirent).Only LowerReading := of_reading (panic_only other)
  split
  · split
    · trivial
    · exact stop
  · exact stop

@[local grind .]
theorem dirlookup_only (name : List UInt8) : (dirlookup dp name).Only LowerReading := by
  have loop (offs : List Nat) : (lookupFrom dp name offs).Only LowerReading := by
    induction offs with
    | nil => trivial
    | cons off rest ih =>
      refine Only.bind (readEntry_only dp off (by decide)) fun de => ?_
      grind
  unfold dirlookup
  grind

@[local grind .]
theorem dirlink_only (name : List UInt8) (inum : Nat) : (dirlink dp name inum).Only Lower := by
  have loop (last : Nat) (offs : List Nat) : (emptyFrom dp last offs).Only LowerReading := by
    induction offs with
    | nil => trivial
    | cons off rest ih =>
      refine Only.bind (readEntry_only dp off (by decide)) fun de => ?_
      grind
  refine Only.bind (only_lower (dirlookup_only dp name)) fun present => ?_
  split
  · grind
  · refine Only.bind (only_lower (getInode_only dp)) fun e => ?_
    refine Only.bind (only_lower (loop _ _)) fun off => Only.bind (writei_only dp _ _) fun n => ?_
    grind

theorem namexFrom_only (parent : Bool) (fuel : Nat) :
    ∀ ip name path, (namexFrom parent fuel ip name path).Only Lower := by
  induction fuel with
  | zero => exact fun _ _ _ => trivial
  | succ fuel ih =>
    intro ip name path
    rw [namexFrom]
    split
    · grind
    · refine Only.bind (only_lower (ilock_only ip)) fun _ => ?_
      refine Only.bind (only_lower (getInode_only ip)) fun e => ?_
      split
      · grind
      split
      · grind
      refine Only.bind (only_lower (dirlookup_only ip _)) fun next => ?_
      split
      · grind
      · exact Only.bind (iunlockput_only ip) fun _ => ih _ _ _

theorem namexStart_only : (namexStart path).Only LowerReading := by
  unfold namexStart
  split
  · exact iget_only _
  · exact Only.bind getCwd_only fun ip => idup_only ip

@[local grind .]
theorem namex_only (parent : Bool) : (namex path parent).Only Lower :=
  Only.bind (only_lower (namexStart_only path)) fun ip => namexFrom_only parent _ ip [] path

@[local grind .]
theorem namei_only : (namei path).Only Lower :=
  Only.bind (namex_only path false) fun _ => trivial

@[local grind .]
theorem linkAt_only (new : List UInt8) (inum : Nat) : (sysLink.linkAt new inum).Only Lower := by
  refine Only.bind (namex_only new true) fun found => ?_
  split
  · trivial
  · grind

@[local grind .]
theorem isdirempty_only : (isdirempty dp).Only LowerReading := by
  have loop (offs : List Nat) : (emptyEntries dp offs).Only LowerReading := by
    induction offs with
    | nil => trivial
    | cons off rest ih =>
      refine Only.bind (readEntry_only dp off (by decide)) fun de => ?_
      grind
  unfold isdirempty
  grind

theorem createIn_only (name : List UInt8) (type major minor : Int) :
    (createIn dp name type major minor).Only Lower := by
  refine Only.bind (ialloc_only type) fun ip => Only.bind (only_lower (ilock_only ip)) fun _ => ?_
  refine Only.bind (only_lower (getInode_only ip)) fun e => ?_
  refine Only.bind (only_lower (setDin_only ip _)) fun _ => Only.bind (iupdate_only ip) fun _ => ?_
  refine Only.bind (Only.when ?_) fun _ => ?_
  · refine Only.bind (only_lower (getInode_only dp)) fun d => ?_
    refine Only.bind (only_lower (setDin_only dp _)) fun _ => Only.bind (iupdate_only dp) fun _ => ?_
    grind
  · grind

@[local grind .]
theorem create_only (type major minor : Int) : (create path type major minor).Only Lower := by
  refine Only.bind (namex_only path true) fun found => ?_
  split
  · trivial
  refine Only.bind (only_lower (ilock_only _)) fun _ => ?_
  refine Only.bind (only_lower (dirlookup_only _ _)) fun found => ?_
  split
  · grind
  · exact createIn_only _ _ _ _ _

end Programs

namespace TransOwner

/-- Process `i` has run `begin_trans` and not yet `commit_trans`. -/
def Owns (i : Nat) (k : Kernel) : Prop := k.log.owner = some i

/-- Whoever drops the last reference to an inode without links owns the log. -/
def FreesInside (i : Nat) : KOp → Kernel → Prop
  | .putRef ip, k =>
    (k.icache ip).ref = 1 → (k.icache ip).valid = true → (k.icache ip).din.nlink = 0 → Owns i k
  | _, _ => True

instance (i : Nat) (k : Kernel) : Decidable (Owns i k) :=
  inferInstanceAs (Decidable (k.log.owner = some i))

instance (i : Nat) : (o : KOp) → (k : Kernel) → Decidable (FreesInside i o k)
  | .putRef ip, k => inferInstanceAs (Decidable ((k.icache ip).ref = 1 →
      (k.icache ip).valid = true → (k.icache ip).din.nlink = 0 → Owns i k))
  | .bread _, _ | .logWrite _ _, _ | .brelse _, _ | .beginTrans, _ | .commitTrans, _ | .iget _, _
  | .idup _, _ | .lockInode _, _ | .getInode _, _ | .setDin _ _, _ | .setValid _, _
  | .iunlock _, _ | .dropRef _, _ | .getCwd, _ | .setCwd _, _ | .filealloc, _ | .getFile _, _
  | .setFile _ _, _ | .dropFile _, _ | .filedup _, _ | .getFd _, _ | .setFd _ _, _
  | .fdalloc _, _ | .devsw _, _ | .panic _, _ => isTrue trivial

def LogsInside (i : Nat) : KOp → Kernel → Prop
  | .logWrite _ _, k => Owns i k
  | _, _ => True

/-- Nobody else takes a transaction away from its owner. -/
def contract (i : Nat) : Contract KOp Halt Kernel where
  inv _ := True
  rely k k' := Owns i k → Owns i k'
  guar k k' := ∀ j, j ≠ i → Owns j k → Owns j k'
  promise := FreesInside i
  demand := LogsInside i
  stop e := e ≠ .panic .outsideTrans
  rely_refl _ := id
  rely_trans _ _ _ first second := second ∘ first

/-- A plain operation keeps the owner, and only a `log_write` of nobody's
transaction stops with `write outside of trans`. -/
theorem exec_plain (i : Nat) (o : KOp) (k : Kernel) (plain : Plain o) :
    (KOp.exec i o k).Satisfies (fun _ k' => k'.log.owner = k.log.owner)
      fun e _ => e = .panic .outsideTrans → k.log.owner = none ∧ ¬ Reading o := by
  cases o with
  | beginTrans => exact plain.elim
  | commitTrans => exact plain.elim
  | panic which =>
    simp only [KOp.exec, Outcome.satisfies_halt]
    exact fun same => absurd (Halt.panic.inj same) plain
  | logWrite s data =>
    simp only [KOp.exec]
    split
    · exact fun same => by cases same
    split
    · exact fun same => by cases same
    split
    · rename_i free
      exact fun _ => ⟨free, id⟩
    · exact rfl
  | _ =>
    simp only [KOp.exec]
    repeat' split
    all_goals first | exact rfl | exact fun same => by cases same

section Rules

variable {i : Nat} {α β : Type}

def In (i : Nat) (p : KProg α) : Prop :=
  ∀ k, Owns i k → p.Meets (KOp.exec i) (contract i) (fun _ k' => Owns i k') k

def Closing (i : Nat) (p : KProg α) : Prop :=
  ∀ k, Owns i k → p.Meets (KOp.exec i) (contract i) (fun _ _ => True) k

def Out (i : Nat) (p : KProg α) : Prop :=
  ∀ k, p.Meets (KOp.exec i) (contract i) (fun _ _ => True) k

variable {p : KProg α} {f : Unit → KProg α}

theorem In.of_only (only : p.Only Plain) : In i p := by
  induction p with
  | ret value => exact fun k owns t moved _ => moved owns
  | op o next ih =>
    intro k owns t moved _ _
    have still := moved owns
    have effect := exec_plain i o t only.1
    refine ⟨by cases o <;> first | exact still | trivial, effect.mono ?_ ?_⟩
    · intro r t' same
      have after : Owns i t' := same.trans still
      refine ⟨fun j other theirs => ?_, trivial, ih r (only.2 r) t' after⟩
      exact same.trans theirs
    · intro e _ when_outside same
      have free := (when_outside same).1
      rw [still] at free
      cases free

theorem Out.of_only (only : p.Only Reading) : Out i p := by
  induction p with
  | ret value => exact fun k t _ _ => trivial
  | op o next ih =>
    intro k t _ _ _
    have effect := exec_plain i o t (Reading.plain o only.1)
    refine ⟨by cases o <;> first | exact only.1.elim | trivial, effect.mono ?_ ?_⟩
    · intro r t' same
      exact ⟨fun j _ theirs => same.trans theirs, trivial, ih r (only.2 r) t'⟩
    · exact fun e _ when_outside same => (when_outside same).2 only.1

theorem In.of_lower (only : p.Only Lower) : In i p :=
  In.of_only (only.mono Lower.plain)

theorem Out.of_lower (only : p.Only LowerReading) : Out i p :=
  Out.of_only (only.mono LowerReading.reading)

theorem Out.bind {f : α → KProg β} (first : Out i p) (rest : ∀ a, Out i (f a)) : Out i (p >>= f) :=
  fun k => Prog.Meets.seq (first k) fun a t _ _ => rest a t

theorem Closing.bind {f : α → KProg β} (first : In i p) (rest : ∀ a, Closing i (f a)) :
    Closing i (p >>= f) :=
  fun k owns => Prog.Meets.seq (first k owns) fun a t _ still => rest a t still

theorem Closing.commit (rest : Out i (f ())) : Closing i (commitTrans >>= f) := by
  intro k owns t moved _ _
  refine ⟨trivial, fun j other theirs => ?_, trivial, rest _⟩
  have mine := moved owns
  rw [Owns, mine] at theirs
  exact absurd (Option.some.inj theirs).symm other

theorem Out.begin (rest : Closing i (f ())) : Out i (beginTrans >>= f) := by
  intro k t _ _ _
  refine ⟨trivial, ?_⟩
  simp only [KOp.exec]
  split
  · rename_i free
    refine ⟨fun j _ theirs => ?_, trivial, rest _ rfl⟩
    rw [Owns, free] at theirs
    cases theirs
  · exact nofun

theorem Out.done {value : α} : Out i (pure value : KProg α) := .of_only trivial

theorem Out.reads {f : α → KProg β} (first : p.Only LowerReading) (rest : ∀ a, Out i (f a)) :
    Out i (p >>= f) :=
  .bind (.of_lower first) rest

theorem Out.one {o : KOp} (reading : Reading o) : Out i (Prog.perform o) :=
  .of_only ⟨reading, fun _ => trivial⟩

theorem Out.after {o : KOp} {f : o.Ret → KProg β} (reading : Reading o) (rest : ∀ a, Out i (f a)) :
    Out i (Prog.perform o >>= f) :=
  .bind (.one reading) rest

theorem Closing.lower {f : α → KProg β} (first : p.Only Lower) (rest : ∀ a, Closing i (f a)) :
    Closing i (p >>= f) :=
  .bind (.of_lower first) rest

theorem Closing.reads {f : α → KProg β} (first : p.Only LowerReading)
    (rest : ∀ a, Closing i (f a)) : Closing i (p >>= f) :=
  .lower (only_lower first) rest

theorem Closing.after {o : KOp} {f : o.Ret → KProg β} (plain : Plain o)
    (rest : ∀ a, Closing i (f a)) : Closing i (Prog.perform o >>= f) :=
  .bind (.of_only ⟨plain, fun _ => trivial⟩) rest

variable (ip : InodePtr) (path : List UInt8)

theorem iput_out : Out i (iput ip) := by
  intro k t _ _ promised
  refine ⟨trivial, ?_⟩
  have release : In i (do
      itrunc ip
      let e ← getInode ip
      setDin ip { e.din with type := 0 }
      iupdate ip
      dropRef ip) := by
    refine In.of_lower (Only.bind (of_content (itrunc_only ip)) fun _ => ?_)
    refine Only.bind (only_lower (getInode_only ip)) fun e => ?_
    refine Only.bind (only_lower (setDin_only ip _)) fun _ => ?_
    exact Only.bind (iupdate_only ip) fun _ => only_lower (dropRef_only ip)
  simp only [KOp.exec]
  split
  · rename_i last
    split
    · exact nofun
    · refine ⟨fun j _ theirs => theirs, trivial, ?_⟩
      have owns : Owns i t := promised last.1 last.2.1 last.2.2
      exact (release _ owns).mono fun _ _ _ => trivial
  · exact ⟨fun j _ theirs => theirs, trivial, fun _ _ _ => trivial⟩

theorem iunlockput_out : Out i (iunlockput ip) :=
  .reads (iunlock_only ip) fun _ => iput_out ip

theorem namexFrom_out (parent : Bool) (fuel : Nat) :
    ∀ ip name path, Out i (namexFrom parent fuel ip name path) := by
  induction fuel with
  | zero => exact fun _ _ _ => .done
  | succ fuel ih =>
    intro ip name path
    rw [namexFrom]
    split
    · split
      · exact .bind (iput_out ip) fun _ => .done
      · exact .done
    · refine .reads (ilock_only ip) fun _ => ?_
      refine .reads (getInode_only ip) fun e => ?_
      split
      · exact .bind (iunlockput_out ip) fun _ => .done
      split
      · exact .reads (iunlock_only ip) fun _ => .done
      refine .reads (dirlookup_only ip _) fun next => ?_
      split
      · exact .bind (iunlockput_out ip) fun _ => .done
      · exact .bind (iunlockput_out ip) fun _ => ih _ _ _

theorem namex_out (parent : Bool) : Out i (namex path parent) :=
  .reads (namexStart_only path) fun ip => namexFrom_out parent _ ip [] path

theorem namei_out : Out i (namei path) :=
  .bind (namex_out path false) fun _ => .done

theorem commit_closing {value : α} : Closing i (do commitTrans; pure value) :=
  .commit .done

/-- The last `iunlockput` of a call, its commit and its result. -/
theorem finish_closing {value : α} : Closing i (do iunlockput ip; commitTrans; pure value) :=
  .lower (iunlockput_only ip) fun _ => commit_closing

theorem fileclose_out (f : FilePtr) : Out i (fileclose f) := by
  refine .bind (.one trivial) fun last => ?_
  split
  · refine .begin (.lower (iput_only _) fun _ => ?_)
    exact fun k owns => Prog.Meets.mono (Closing.commit (f := pure) .done k owns)
      fun _ _ _ => trivial
  · exact .done

theorem sysLink_out (old new : List UInt8) : Out i (sysLink old new) := by
  refine .bind (namei_out old) fun found => ?_
  split
  · exact .done
  rename_i ip
  refine .begin ?_
  have getInode_in : In i (getInode ip) := In.of_lower (only_lower (getInode_only ip))
  have ilock_in : In i (ilock ip) := In.of_lower (only_lower (ilock_only ip))
  have setDin_in (din : Dinode) : In i (setDin ip din) := In.of_lower (only_lower (setDin_only ip din))
  have iupdate_in : In i (iupdate ip) := In.of_lower (iupdate_only ip)
  refine .bind ilock_in fun _ => .bind getInode_in fun e => ?_
  split
  · exact finish_closing ip
  refine .bind (setDin_in _) fun _ => .bind iupdate_in fun _ => ?_
  refine .reads (iunlock_only ip) fun _ => ?_
  refine .lower (linkAt_only new e.inum) fun linked => ?_
  split
  · exact .lower (iput_only ip) fun _ => commit_closing
  · refine .bind ilock_in fun _ => .bind getInode_in fun e => ?_
    exact .bind (setDin_in _) fun _ => .bind iupdate_in fun _ => finish_closing ip

theorem sysUnlink_out : Out i (sysUnlink path) := by
  refine .bind (namex_out path true) fun found => ?_
  split
  · exact .done
  rename_i dp name
  refine .begin (.reads (ilock_only dp) fun _ => ?_)
  split
  · exact finish_closing dp
  refine .reads (dirlookup_only dp name) fun found => ?_
  split
  · exact finish_closing dp
  rename_i ip off
  refine .reads (ilock_only ip) fun _ => ?_
  refine .reads (getInode_only ip) fun e => ?_
  refine .lower (Only.when (of_content (only_content (panic_only (by decide))))) fun _ => ?_
  have removable_lower : (removable ip e.din.type).Only Lower := by
    unfold removable
    split
    · exact only_lower (isdirempty_only ip)
    · trivial
  refine .lower removable_lower fun free => ?_
  split
  · exact .lower (iunlockput_only ip) fun _ => finish_closing dp
  refine .lower (writei_only dp _ off) fun written => ?_
  refine .lower (Only.when (of_content (only_content (panic_only (by decide))))) fun _ => ?_
  refine .lower (Only.when ?_) fun _ => ?_
  · refine Only.bind (only_lower (getInode_only dp)) fun d => ?_
    exact Only.bind (only_lower (setDin_only dp _)) fun _ => iupdate_only dp
  refine .lower (iunlockput_only dp) fun _ => ?_
  refine .reads (getInode_only ip) fun e => ?_
  refine .reads (setDin_only ip _) fun _ => ?_
  exact .lower (iupdate_only ip) fun _ => finish_closing ip

theorem sysMake_out (type major minor : Int) : Out i (sysMake path type major minor) := by
  refine .begin (.lower (create_only path type major minor) fun ip => ?_)
  split
  · exact commit_closing
  · exact finish_closing _

theorem sysChdir_out : Out i (sysChdir path) := by
  refine .begin (.lower (namei_only path) fun found => ?_)
  split
  · exact commit_closing
  rename_i ip
  refine .reads (ilock_only ip) fun _ => ?_
  refine .reads (getInode_only ip) fun e => ?_
  split
  · exact finish_closing ip
  refine .reads (iunlock_only ip) fun _ => ?_
  refine .reads getCwd_only fun cwd => ?_
  refine .lower (iput_only cwd) fun _ => ?_
  exact .after trivial fun _ => commit_closing

/-- A process that begins a transaction inside one sleeps forever. -/
theorem begin_in : In i (beginTrans >>= f) := by
  intro k owns t moved _ _
  have still : t.log.owner = some i := moved owns
  refine ⟨trivial, ?_⟩
  simp only [KOp.exec, still, reduceCtorEq, ↓reduceIte]
  exact nofun

theorem fileclose_in (f : FilePtr) : In i (fileclose f) := by
  have drop : In i (dropFile f) := In.of_only ⟨trivial, fun _ => trivial⟩
  refine fun k owns => Prog.Meets.seq (drop k owns) fun last t _ still => ?_
  split
  · exact begin_in t still
  · exact In.of_only (p := pure ()) trivial t still

theorem openFile_out (omode : Nat) : Out i (openFile ip omode false) := by
  have setFile_out (f : FilePtr) (file : File) : Out i (setFile f file) :=
    .one trivial
  refine .after trivial fun f => ?_
  split
  · exact .bind (iunlockput_out ip) fun _ => .done
  rename_i f
  refine .after trivial fun fd => ?_
  split
  · refine .bind (fileclose_out f) fun _ => .bind (iunlockput_out ip) fun _ => ?_
    exact .done
  · refine .reads (iunlock_only ip) fun _ => ?_
    refine .bind .done fun _ => ?_
    refine .after trivial fun file => ?_
    refine .reads (getInode_only ip) fun e => ?_
    exact .bind (setFile_out _ _) fun _ => .done

theorem openFile_closing (omode : Nat) : Closing i (openFile ip omode true) := by
  have setFile_out (f : FilePtr) (file : File) : Out i (setFile f file) :=
    .one trivial
  refine .after trivial fun f => ?_
  split
  · exact finish_closing ip
  rename_i f
  refine .after trivial fun fd => ?_
  split
  · exact .bind (fileclose_in f) fun _ => finish_closing ip
  · refine .reads (iunlock_only ip) fun _ => .commit ?_
    refine .after trivial fun file => ?_
    refine .reads (getInode_only ip) fun e => ?_
    exact .bind (setFile_out _ _) fun _ => .done

theorem sysOpen_out (omode : Nat) : Out i (sysOpen path omode) := by
  unfold sysOpen
  split
  · refine .begin (.lower (create_only path _ _ _) fun ip => ?_)
    refine .commit ?_
    split
    · exact .done
    · exact openFile_out _ omode
  dsimp only
  cases hasFlag omode O_TRUNC with
  | true =>
    refine .begin (.lower (namei_only path) fun ip => ?_)
    split
    · exact commit_closing
    rename_i ip
    refine .reads (ilock_only ip) fun _ => ?_
    refine .reads (getInode_only ip) fun e => ?_
    split
    · exact finish_closing ip
    refine .lower (Only.when ?_) fun _ => openFile_closing ip omode
    exact of_content (Only.bind (itrunc_only ip) fun _ => iupdate_only ip)
  | false =>
    refine .bind .done fun _ => .bind (namei_out path) fun ip => ?_
    split
    · exact .done
    rename_i ip
    refine .reads (ilock_only ip) fun _ => ?_
    refine .reads (getInode_only ip) fun e => ?_
    split
    · exact .bind (iunlockput_out ip) fun _ => .done
    · exact .bind .done fun _ => openFile_out ip omode

theorem fileread_out (f : FilePtr) (n : Nat) : Out i (fileread f n) := by
  have setFile_out (f : FilePtr) (file : File) : Out i (setFile f file) :=
    .one trivial
  refine .after trivial fun file => ?_
  split
  · refine .reads (ilock_only _) fun _ => ?_
    refine .after trivial fun file => ?_
    refine .reads (readi_only _ _ _) fun r => ?_
    split
    · exact .bind (setFile_out _ _) fun _ =>
        .reads (iunlock_only _) fun _ => .done
    · exact .reads (iunlock_only _) fun _ => .done
  · exact .done

theorem writeChunk_out (f : FilePtr) (ip : InodePtr) (src : List UInt8) :
    Out i (writeChunk f ip src) := by
  refine .begin (.reads (ilock_only ip) fun _ => ?_)
  refine .after trivial fun file => ?_
  refine .lower (writei_only ip src _) fun r => ?_
  split
  · refine .after trivial fun _ => ?_
    exact .reads (iunlock_only ip) fun _ => commit_closing
  · exact .reads (iunlock_only ip) fun _ => commit_closing

theorem filewrite_out (f : FilePtr) (src : List UInt8) : Out i (filewrite f src) := by
  have loop (ip : InodePtr) (fuel : Nat) : ∀ src, Out i (writeChunks f ip fuel src) := by
    induction fuel with
    | zero => exact fun _ => .done
    | succ fuel ih =>
      intro src
      rw [writeChunks]
      split
      · exact .done
      refine .bind (writeChunk_out f ip _) fun r => ?_
      split
      · exact .done
      split
      · exact .of_lower (of_reading (panic_only (by decide)))
      · exact ih _
  refine .after trivial fun file => ?_
  split
  · exact .bind (loop _ _ _) fun _ => .done
  · exact .done

theorem exec_out (memory : Memory) (elf : List UInt8) : Out i (Fs.exec memory elf path) := by
  have all (ip : InodePtr) (off n : Nat) : (readAll ip off n).Only LowerReading :=
    Only.bind (readi_only ip off n) fun _ => trivial
  have pages (ip : InodePtr) (ph : Mem.ProgHdr) (n : Nat) :
      ∀ j, (loadLoop ip ph n j).Only LowerReading := by
    induction n with
    | zero => exact fun _ => trivial
    | succ n ih =>
      refine fun j => Only.bind (all ip _ _) fun r => ?_
      split
      · trivial
      · exact ih _
  have segments (ip : InodePtr) (n : Nat) :
      ∀ off sz, (loadSegments memory ip n off sz).Only LowerReading := by
    induction n with
    | zero => exact fun _ _ => trivial
    | succ n ih =>
      refine fun off sz => Only.bind (all ip _ _) fun header => ?_
      split
      · trivial
      split
      · exact ih _ _
      split
      · trivial
      dsimp only
      split
      · trivial
      split
      · exact of_reading (panic_only (by decide))
      refine Only.bind (pages ip _ _ _) fun loaded => ?_
      split
      · exact ih _ _
      · trivial
  have bad (ip : InodePtr) : Out i (execBad (some ip)) := .bind (iunlockput_out ip) fun _ => .done
  refine .bind (namei_out path) fun found => ?_
  split
  · exact .done
  refine .reads (ilock_only _) fun _ => .reads (readi_only _ _ _) fun r => ?_
  dsimp only
  split
  · exact bad _
  refine .reads (segments _ _ _ _) fun size => ?_
  split
  · exact bad _
  refine .bind (iunlockput_out _) fun _ => ?_
  split
  · exact .done
  · exact .done

theorem exit_out : Out i Fs.exit := by
  have loop (fds : List (Fin NOFILE)) : Out i (closeAll fds) := by
    induction fds with
    | nil => exact .done
    | cons fd rest ih =>
      rw [closeAll]
      refine .after trivial fun f => ?_
      split
      · exact ih
      · refine .bind (fileclose_out _) fun _ => ?_
        exact .after trivial fun _ => ih
  refine .bind (loop _) fun _ => .begin ?_
  refine .reads getCwd_only fun cwd => ?_
  refine .lower (iput_only cwd) fun _ => .commit ?_
  exact .one trivial

theorem syscall_out (call : Syscall) : Out i call.run := by
  have drop {α : Type} {p : KProg α} (out : Out i p) : Out i (do let _ ← p) :=
    .bind out fun _ => .done
  have fd_out {fd : Fin NOFILE} : Out i (getFd fd) := .one trivial
  cases call with
  | «open» path omode => exact drop (sysOpen_out path omode)
  | read fd n =>
    refine drop (.bind fd_out fun f => ?_)
    split
    · exact .done
    · exact fileread_out _ n
  | write fd src =>
    refine drop (.bind fd_out fun f => ?_)
    split
    · exact .done
    · exact filewrite_out _ src
  | close fd =>
    refine drop (.bind fd_out fun f => ?_)
    split
    · exact .done
    · refine .after trivial fun _ => ?_
      exact .bind (fileclose_out _) fun _ => .done
  | dup fd =>
    refine drop (.bind fd_out fun f => ?_)
    split
    · exact .done
    refine .after trivial fun new => ?_
    split
    · exact .done
    · exact .after trivial fun _ => .done
  | link old new => exact drop (sysLink_out old new)
  | unlink path => exact drop (sysUnlink_out path)
  | mkdir path | mknod path major minor => exact drop (sysMake_out path _ _ _)
  | chdir path => exact drop (sysChdir_out path)
  | exec memory elf path => exact drop (exec_out path memory elf)
  | exit => exact exit_out

theorem runCalls_out (calls : List Syscall) : Out i (runCalls calls) := by
  induction calls with
  | nil => exact .done
  | cons call rest ih => exact .bind (syscall_out call) fun _ => ih

end Rules

def system (k : Kernel) (calls : Nat → List Syscall) : Pool KOp KOp.Ret Kernel :=
  ⟨k, fun i => runCalls (calls i)⟩

/-- In every interleaving in which the last reference to an inode without links
is dropped inside a transaction only, every `log_write` is called by the owner
and `write outside of trans` is not reached. -/
theorem log_write_by_owner (k : Kernel) (calls : Nat → List Syscall) (schedule : List Nat)
    (frees : Pool.Along KOp.exec Halt.waits FreesInside schedule (system k calls)) :
    Pool.Along KOp.exec Halt.waits LogsInside schedule (system k calls) ∧
    (Pool.run KOp.exec Halt.waits schedule (system k calls)).reason ≠
      some (.panic .outsideTrans) := by
  have safe : Pool.Safe KOp.exec contract (system k calls) :=
    ⟨fun _ => trivial, fun i => ⟨_, runCalls_out (calls i) k⟩⟩
  obtain ⟨logs, result⟩ := Pool.Safe.run (k := contract) (fun _ _ _ holds => holds)
    (fun i j s t apart _ kept => kept j (Ne.symm apart)) safe schedule frees
  refine ⟨logs, fun stopped => ?_⟩
  cases final : Pool.run KOp.exec Halt.waits schedule (system k calls) with
  | ok _ c =>
    rw [final] at stopped
    cases stopped
  | halt e c =>
    rw [final] at stopped result
    obtain ⟨_, other⟩ := result
    exact other (Option.some.inj stopped)

/-- A disk with the geometry of `mkfs` that holds the root directory and the
empty directory `/d`. -/
def twoDirs (s : Nat) : Block :=
  let dir (nlink : Int) (size addr : Nat) : Dinode :=
    ⟨T_DIR, 0, 0, nlink, size, fun j => if j = 0 then addr else 0⟩
  let listing (entries : List Dirent) : Block :=
    Bytes.zero.splice 0 (entries.flatMap Dirent.encode)
  match s with
  | 1 => Superblock.encode ⟨FS_SIZE, 65378, 1024, 10⟩
  | 2 => Dinode.encode (Dinode.encode Bytes.zero 1 (dir 2 48 148)) 2 (dir 1 32 149)
  | 131 => (List.range 150).foldl Bytes.setBit Bytes.zero
  | 148 => listing [⟨1, [46]⟩, ⟨1, [46, 46]⟩, ⟨2, [100]⟩]
  | 149 => listing [⟨2, [46]⟩, ⟨1, [46, 46]⟩]
  | _ => Bytes.zero

def firstEntry : InodePtr := ⟨0, by decide⟩

def twoProcs : Kernel where
  disk := twoDirs
  holder _ := none
  log := ⟨FS_SIZE - 10, 10, none, []⟩
  icache ip :=
    if ip = firstEntry then ⟨ROOTINO, 2, false, true, Dinode.decode (twoDirs 2) 1⟩
    else ⟨0, 0, false, false, Dinode.zero⟩
  ftable _ := ⟨.none, 0, false, false, none, 0⟩
  procs i := ⟨if i < 2 then some firstEntry else none, fun _ => none⟩
  devsw _ := none

/-- Process 0 opens `d/x`, process 1 removes `d`. -/
def lookupAndUnlink : Nat → List Syscall
  | 0 => [.open [100, 47, 120] O_RDONLY]
  | 1 => [.unlink [100]]
  | _ => []

/-- One after the other: the open fails, and `unlink` frees `d` in its own
transaction. -/
theorem log_write_by_owner_in_turn :
    let schedule := List.replicate 40 0 ++ List.replicate 160 1
    Pool.Along KOp.exec Halt.waits LogsInside schedule (system twoProcs lookupAndUnlink) ∧
    (Pool.run KOp.exec Halt.waits schedule (system twoProcs lookupAndUnlink)).reason ≠
      some (.panic .outsideTrans) :=
  log_write_by_owner _ _ _ (by decide +kernel)

/-- Process 0 is stopped before it locks `d`; the whole unlink runs and leaves it
the last reference, which it drops without a transaction. -/
theorem log_write_without_owner : (Pool.run KOp.exec Halt.waits
      (List.replicate 20 0 ++ List.replicate 70 1 ++ List.replicate 30 0)
      (system twoProcs lookupAndUnlink)).reason = some (.panic .outsideTrans) := by
  decide +kernel

end TransOwner

end SirpairOs.Fs
