import SirpairOs.Lib.Serial
import SirpairOs.Fs.ByteArray

/-! Processes that write one regular file, through any open file structures. Each
chunk of `filewrite` is one transaction, so every interleaving of the calls is
one sequence of chunks. -/
namespace SirpairOs

namespace Kernel

variable {k k' : Kernel} {ip : InodePtr}

/-- Only the inode cache changed, and no current copy. -/
theorem Sound.of_node (sound : k.Sound) (disk : k'.disk = k.disk) (cache : k'.CacheOk)
    (node : k'.node = k.node) : k'.Sound := by
  have sb := sb_congr disk
  have used := used_congr disk
  have vol : k'.vol = k.vol := by rw [vol, vol, disk, node]
  refine ⟨?_, cache, ?_, ?_⟩
  · rw [sb]
    exact sound.valid
  · rw [vol, used, sb]
    exact sound.own
  · rw [used, sb]
    exact sound.system

/-- A cache entry in use changes, but stays in use and holds no other copy. -/
theorem Sound.touch (sound : k.Sound) (live : 0 < (k.icache ip).ref) {f : Inode → Inode}
    (inum : (f (k.icache ip)).inum = (k.icache ip).inum) (live' : 0 < (f (k.icache ip)).ref)
    (copy : (if (f (k.icache ip)).valid then (f (k.icache ip)).din
      else k.onDisk (k.icache ip).inum) = k.node (k.icache ip).inum) :
    (k.setInode ip f).Sound ∧ (k.setInode ip f).node = k.node := by
  have inside := sound.cache.table ip live
  have node : (k.setInode ip f).node = k.node := by
    rw [sound.cache.node_setInode inum live live', copy, Function.update_eq_self]
  refine ⟨sound.of_node rfl ?_ node, node⟩
  refine sound.cache.setInode inum (fun _ => live) fun _ valid => ?_
  rw [valid, if_pos rfl] at copy
  rw [copy]
  exact ⟨sound.cache.node_fits inside, sound.cache.node_behind inside⟩

end Kernel

namespace Fs

open Prog (Only)

/-- The chunks of what is left of a call's bytes. -/
def pieces : Nat → List UInt8 → List (List UInt8)
  | 0, _ => []
  | fuel + 1, src => if src = [] then [] else src.take CHUNK :: pieces fuel (src.drop CHUNK)

def chunks (src : List UInt8) : List (List UInt8) := pieces src.length src

theorem length_of_mem_pieces {fuel : Nat} {src piece : List UInt8}
    (member : piece ∈ pieces fuel src) : 0 < piece.length ∧ piece.length ≤ CHUNK := by
  induction fuel generalizing src with
  | zero => cases member
  | succ fuel ih =>
    rw [pieces] at member
    split at member
    · cases member
    · rename_i some
      rcases List.mem_cons.mp member with rfl | later
      · rw [List.length_take]
        have := List.length_pos_iff.mpr some
        have : 0 < CHUNK := by decide
        omega
      · exact ih later

/-- The write calls of one process, in order. A run in which one of them fails
stops there. -/
def writeAll : List (Fin NOFILE × List UInt8) → KProg Unit
  | [] => pure ()
  | (fd, src) :: rest => do
    let written ← sysWrite fd src
    if written = some src.length then writeAll rest else panic .shortFilewrite

/-- The chunks of a process's calls, each with the descriptor it goes through. -/
def script (calls : List (Fin NOFILE × List UInt8)) : List (Fin NOFILE × List UInt8) :=
  calls.flatMap fun call => (chunks call.2).map fun piece => (call.1, piece)

/-- `ip` is the cached inode `i` of a regular file in a sound file system. -/
structure Regular (ip : InodePtr) (i : Nat) (k : Kernel) : Prop where
  sound : k.Sound
  held : k.Held ip
  num : (k.icache ip).inum = i
  regular : (k.vol.node i).type = T_FILE

structure WritesTo (ip : InodePtr) (file : File) : Prop where
  type : file.type = .inode
  writable : file.writable = true
  ip : file.ip = some ip

/-- The file's bytes and the offsets of all open files. -/
structure FileView where
  bytes : List UInt8
  off : FilePtr → Nat

def fileView (i : Nat) (k : Kernel) : FileView := ⟨k.vol.contents i, fun f => (k.ftable f).off⟩

def Stored (procs : Nat → Proc) (p : Nat) (chunk : Fin NOFILE × List UInt8) (v w : FileView) :
    Prop :=
  ∃ f, (procs p).ofile chunk.1 = some f ∧ v.off f ≤ v.bytes.length ∧
    w.bytes = v.bytes.take (v.off f) ++ chunk.2 ++ v.bytes.drop (v.off f + chunk.2.length) ∧
    w.off = Function.update v.off f (v.off f + chunk.2.length)

/-- Descriptors and open files are as in `k₀`, up to the offsets. -/
structure SameFiles (k₀ k : Kernel) : Prop where
  procs : k.procs = k₀.procs
  files : ∀ f, { k.ftable f with off := 0 } = { k₀.ftable f with off := 0 }

variable {k : Kernel} {ip : InodePtr} {i : Nat}

theorem SameFiles.writes {k₀ : Kernel} (same : SameFiles k₀ k) {f : FilePtr}
    (writes : WritesTo ip (k₀.ftable f)) : WritesTo ip (k.ftable f) := by
  have files := same.files f
  rw [File.mk.injEq] at files
  obtain ⟨type, -, -, writable, ptr, -⟩ := files
  exact ⟨type.trans writes.type, writable.trans writes.writable, ptr.trans writes.ip⟩

theorem Regular.congr {k' : Kernel} (regular : Regular ip i k) (disk : k'.disk = k.disk)
    (icache : k'.icache = k.icache) : Regular ip i k' := by
  have vol := Kernel.vol_congr disk icache
  refine ⟨regular.sound.congr disk icache, ⟨?_, ?_⟩, ?_, ?_⟩
  · rw [icache]
    exact regular.held.ref
  · rw [icache]
    exact regular.held.valid
  · rw [icache]
    exact regular.num
  · rw [vol]
    exact regular.regular

theorem Regular.node (regular : Regular ip i k) : k.vol.node i = (k.icache ip).din := by
  rw [← regular.num]
  exact regular.sound.cache.node_held regular.held

/-- References and lock of the inode have no part in the file system. -/
theorem Regular.touch (regular : Regular ip i k) {f : Inode → Inode} {ref : Int} {busy : Bool}
    (entry : f (k.icache ip) = { k.icache ip with ref := ref, busy := busy }) (live : 0 < ref) :
    Regular ip i (k.setInode ip f) ∧ (k.setInode ip f).vol = k.vol := by
  obtain ⟨sound, node⟩ := regular.sound.touch regular.held.ref (f := f) (by rw [entry])
    (by rw [entry]; exact live) (by
      rw [entry, if_pos regular.held.valid, ← regular.sound.cache.node_held regular.held])
  have self : (k.setInode ip f).icache ip = { k.icache ip with ref := ref, busy := busy } :=
    (Kernel.setInode_icache_self ..).trans entry
  have vol : (k.setInode ip f).vol = k.vol := by
    rw [Kernel.vol, Kernel.vol, node]
    rfl
  refine ⟨⟨sound, ⟨?_, ?_⟩, ?_, ?_⟩, vol⟩
  · rw [self]
    exact live
  · rw [self]
    exact regular.held.valid
  · rw [self]
    exact regular.num
  · rw [vol]
    exact regular.regular

theorem Regular.lock (regular : Regular ip i k) (busy : Bool) :
    Regular ip i (k.setInode ip fun e => { e with busy := busy }) ∧
      (k.setInode ip fun e => { e with busy := busy }).vol = k.vol :=
  regular.touch rfl regular.held.ref

theorem Regular.written {k' : Kernel} {off : Nat} {src : List UInt8} (regular : Regular ip i k)
    (written : Written ip i off src k k') : Regular ip i k' where
  sound := written.sound
  held := written.held_after regular.held
  num := written.inum.trans regular.num
  regular := by
    have old := regular.regular
    obtain ⟨addrs, same⟩ := written.icache_self
    rw [Kernel.vol_node, ← regular.num, regular.sound.cache.node_held regular.held] at old
    rw [written.node_self regular.held regular.num, same]
    exact old

def Begins : KOp → Prop
  | .beginTrans => True
  | _ => False

def Commits : KOp → Prop
  | .commitTrans => True
  | _ => False

def logLock : Lock KOp KOp.Ret Halt Kernel KOp.exec where
  owner k := k.log.owner
  acquires := Begins
  releases := Commits
  take i o k r k' begins done := by
    cases o with
    | beginTrans =>
      simp only [KOp.exec] at done
      split at done
      · rename_i free
        cases done
        exact ⟨free, rfl⟩
      · cases done
    | _ => exact begins.elim
  drop i o k r k' commits done := by
    cases o with
    | commitTrans =>
      cases done
      rfl
    | _ => exact commits.elim
  keep i o k r k' begins commits done := by
    have kept : (KOp.exec i o k).Satisfies (fun _ k' => k'.log.owner = k.log.owner)
        fun _ _ => True := by
      cases o with
      | beginTrans => exact absurd trivial begins
      | commitTrans => exact absurd trivial commits
      | _ =>
        simp only [KOp.exec]
        repeat' split
        all_goals first | exact rfl | trivial
    rw [done] at kept
    exact kept

/-- The chunks written to inode `i`, starting from `k₀`. -/
def writers (k₀ : Kernel) (ip : InodePtr) (i : Nat) :
    Protocol KOp KOp.Ret Halt Kernel FileView (Fin NOFILE × List UInt8) where
  h := KOp.exec
  lock := logLock
  promise _ := FindsBlock
  seen := SameFiles k₀
  inv := Regular ip i
  view := fileView i
  effect := Stored k₀.procs

section Chunk

variable {k₀ k : Kernel} {ip : InodePtr} {i p : Nat} {α : Type}

theorem inside_lower {K : KProg Unit → Kernel → Prop} {body : KProg α} {next : α → KProg Unit}
    (lower : body.Only Lower) (same : SameFiles k₀ k) (rest : Wp p FindsBlock (fun _ _ => True) body
      (fun a k' => SameFiles k₀ k' → (writers k₀ ip i).Inside p K (next a) k') k) :
    (writers k₀ ip i).Inside p K (body >>= next) k := by
  refine Protocol.Inside.bind (lower.mono fun o lower => ⟨?_, ?_, fun s r s' same done => ?_⟩) same ?_
  · cases o <;> first | exact id | exact lower.elim
  · cases o <;> first | exact id | exact lower.elim
  · obtain ⟨procs, ftable⟩ := exec_lower lower done
    exact ⟨procs.trans same.procs, fun f => by rw [ftable]; exact same.files f⟩
  · have bounded := Prog.wp_guarded (G := KOp.Room p) (e := .panic .tooBig) rest fun _ => trivial
    rw [← KOp.exec_eq_guarded] at bounded
    exact bounded

theorem ilock_held {A : KOp → Kernel → Prop} {Q : Unit → Kernel → Prop} (valid : k.Held ip)
    (next : Q () (k.setInode ip fun e => { e with busy := true })) :
    Wp p A (fun _ _ => True) (ilock ip) Q k := by
  refine bind_wp fun _ => ?_
  simp only [KOp.unbounded, KOp.exec]
  split
  · trivial
  split
  · trivial
  · exact Prog.wp_when _ _ (fun invalid => by rw [valid.valid] at invalid; cases invalid)
      fun _ => next

theorem writeChunk_bind (f : FilePtr) (src : List UInt8) (next : Option Nat → KProg Unit) :
    writeChunk f ip src >>= next = .op .beginTrans fun _ => ilock ip >>= fun _ =>
      .op (.getFile f) fun file => writei ip src file.off >>= fun r =>
        match r with
        | some n => .op (.setFile f { file with off := (file.off + n) % 2 ^ 32 }) fun _ =>
          .op (.iunlock ip) fun _ => .op .commitTrans fun _ => next (some n)
        | none => .op (.iunlock ip) fun _ => .op .commitTrans fun _ => next none := by
  have body (file : File) : (do
      let r ← writei ip src file.off
      match r with
      | some n => do
        setFile f { file with off := (file.off + n) % 2 ^ 32 }
        iunlock ip
        commitTrans
        pure (some n)
      | none => do
          iunlock ip
          commitTrans
          pure none : KProg (Option Nat)) >>= next = writei ip src file.off >>= fun r =>
        match r with
        | some n => .op (.setFile f { file with off := (file.off + n) % 2 ^ 32 }) fun _ =>
          .op (.iunlock ip) fun _ => .op .commitTrans fun _ => next (some n)
        | none => .op (.iunlock ip) fun _ => .op .commitTrans fun _ => next none := by
    rw [Prog.bind_assoc]
    congr 1
    funext r
    cases r <;> rfl
  rw [writeChunk, Prog.bind_assoc]
  change Prog.op KOp.beginTrans _ = _
  congr 1
  funext _
  change (ilock ip >>= fun _ => _) >>= next = _
  rw [Prog.bind_assoc]
  congr 1
  funext _
  change Prog.op (KOp.getFile f) _ = _
  congr 1
  funext file
  exact body file

/-- The end of a transaction: the inode is unlocked and the log released. -/
theorem inside_unlock {K : KProg Unit → Kernel → Prop} {next : KProg Unit} (same : SameFiles k₀ k)
    (ends : K next { (k.setInode ip fun e => { e with busy := false }) with
      log := { k.log with lh := [], owner := none } }) :
    (writers k₀ ip i).Inside p K (.op (.iunlock ip) fun _ => .op .commitTrans fun _ => next) k := by
  refine ⟨id, fun _ => ?_⟩
  change ((KOp.exec p (.iunlock ip) k).Satisfies _ _)
  simp only [KOp.exec]
  split
  · trivial
  refine ⟨⟨same.procs, same.files⟩, False.elim, fun _ => ⟨id, fun _ => ?_⟩⟩
  exact ⟨⟨same.procs, same.files⟩, fun _ => ends, fun not => absurd trivial not⟩

/-- The bytes and offsets after a chunk that `writei` stored. -/
theorem stored_of_written {f : FilePtr} {fd : Fin NOFILE} {src : List UInt8} {k' k'' : Kernel}
    (regular : Regular ip i k) (opened : (k₀.procs p).ofile fd = some f)
    (inside : (k.ftable f).off ≤ (k.vol.node i).size)
    (fits : (k.ftable f).off + src.length ≤ MAXFILE * BSIZE)
    (written : Written ip i (k.ftable f).off src k k') (vol : k''.vol = k'.vol)
    (ftable : k''.ftable = Function.update k.ftable f
      { k.ftable f with off := ((k.ftable f).off + src.length) % 2 ^ 32 }) :
    Stored k₀.procs p (fd, src) (fileView i k) (fileView i k'') := by
  refine ⟨f, opened, ?_, ?_, ?_⟩
  · simp only [fileView, Volume.length_contents]
    exact inside
  · simp only [fileView, vol]
    exact written.contents regular.held regular.num regular.node inside
  · funext g
    simp only [fileView, ftable]
    by_cases self : g = f
    · subst self
      have small : MAXFILE * BSIZE < 2 ^ 32 := by decide
      rw [Function.update_self, Function.update_self, Nat.mod_eq_of_lt (by omega)]
    · rw [Function.update_of_ne self, Function.update_of_ne self]

theorem ready {E : Halt → Kernel → Prop} (lenient : Lenient E) (regular : Regular ip i k)
    (m : Nat) : Ready FindsBlock E ip i m k :=
  ⟨⟨regular.sound, regular.held, .inl lenient, regular.num⟩, .inl lenient,
    .inl fun _ finds => finds rfl⟩

variable {f : FilePtr} {fd : Fin NOFILE} {rest : List (Fin NOFILE × List UInt8)}

section Opened

variable (opened : (k₀.procs p).ofile fd = some f)

include opened

/-- One chunk is one transaction: its bytes are stored at the offset of that
moment, or nothing happens. -/
theorem writeChunk_follows {src : List UInt8} {next : Option Nat → KProg Unit}
    (later : (writers k₀ ip i).Follows p (next (some src.length)) rest)
    (failed : ∀ script, (writers k₀ ip i).Follows p (next none) script) :
    (writers k₀ ip i).Follows p (writeChunk f ip src >>= next) ((fd, src) :: rest) := by
  rw [writeChunk_bind]
  refine .block (· = next (some src.length)) (· = next none) trivial
    (fun k regular same free => ?_) (by rintro _ rfl; exact later) (by rintro _ rfl; exact failed _)
  change ((KOp.exec p .beginTrans k).Satisfies _ _)
  simp only [KOp.exec, show k.log.owner = none from free, ↓reduceIte]
  refine ⟨⟨same.procs, same.files⟩, ?_⟩
  -- the transaction starts from `b`, which differs from `k` only in the log's owner
  generalize start : ({ k with log := { k.log with owner := some p } } : Kernel) = b
  have regular : Regular ip i b := by
    subst start
    exact Regular.congr (k := k) regular rfl rfl
  have same : SameFiles k₀ b := by
    subst start
    exact ⟨same.procs, same.files⟩
  have view : (writers k₀ ip i).view k = fileView i b := by
    subst start
    rfl
  rw [view]
  obtain ⟨locked, vol⟩ := regular.lock true
  have ftable : (b.setInode ip fun e => { e with busy := true }).ftable = b.ftable := rfl
  refine inside_lower ((ilock_only ip).mono LowerReading.lower) same
    (ilock_held regular.held fun same => ?_)
  generalize (b.setInode ip fun e => { e with busy := true }) = c at locked vol ftable same
  refine ⟨id, fun _ => ⟨same, False.elim, fun _ => ?_⟩⟩
  refine inside_lower (writei_only ip src _) same
    (writei_wp (ready (fun _ _ _ => trivial) locked _) ?_ ?_ ?_)
  · rw [locked.regular]
    decide
  · intro _ same
    obtain ⟨unlocked, vol'⟩ := locked.lock false
    refine inside_unlock same ⟨unlocked.congr rfl rfl, .inr ⟨?_, rfl⟩⟩
    change FileView.mk _ _ = FileView.mk _ _
    rw [← vol, ← ftable, ← vol']
    rfl
  · intro inside fits d written same
    have files := written.rest.ftable
    have moved : SameFiles k₀
        (d.setFile f { c.ftable f with off := ((c.ftable f).off + src.length) % 2 ^ 32 }) := by
      refine ⟨same.procs, fun g => ?_⟩
      rw [Kernel.setFile]
      dsimp only
      by_cases self : g = f
      · subst self
        rw [Function.update_self, ← files]
        exact same.files g
      · rw [Function.update_of_ne self]
        exact same.files g
    refine ⟨id, fun _ => ⟨moved, False.elim, fun _ => inside_unlock moved ⟨?_, .inl ⟨?_, rfl⟩⟩⟩⟩
    · exact ((locked.written written).lock false).1.congr rfl rfl
    · have view : fileView i b = fileView i c := by
        rw [fileView, fileView, vol, ftable]
      rw [view]
      refine stored_of_written locked opened inside fits written
        ((locked.written written).lock false).2 ?_
      rw [← files]
      rfl

theorem writeChunks_follows {next : Bool → KProg Unit}
    (later : (writers k₀ ip i).Follows p (next true) rest)
    (failed : ∀ script, (writers k₀ ip i).Follows p (next false) script) (fuel : Nat)
    (src : List UInt8) (enough : src.length ≤ fuel) :
    (writers k₀ ip i).Follows p (writeChunks f ip fuel src >>= next)
      ((pieces fuel src).map (fun piece => (fd, piece)) ++ rest) := by
  induction fuel generalizing src with
  | zero =>
    rw [List.length_eq_zero_iff.mp (Nat.le_zero.mp enough)]
    exact later
  | succ fuel ih =>
    rw [writeChunks, pieces]
    split
    · exact later
    · have step : 0 < CHUNK := by decide
      have shorter : (src.drop CHUNK).length ≤ fuel := by
        rw [List.length_drop]
        omega
      rw [Prog.bind_assoc, List.map_cons, List.cons_append]
      refine writeChunk_follows opened ?_ failed
      simp only [ne_eq, not_true_eq_false, ↓reduceIte]
      exact ih (src.drop CHUNK) shorter

/-- A call of `write` performs its chunks, and goes on only if all were stored. -/
theorem sysWrite_follows {src : List UInt8} {next : Option Nat → KProg Unit}
    (writes : WritesTo ip (k₀.ftable f)) (later : (writers k₀ ip i).Follows p (next (some src.length)) rest)
    (failed : ∀ script, (writers k₀ ip i).Follows p (next none) script) :
    (writers k₀ ip i).Follows p (sysWrite fd src >>= next)
      ((chunks src).map (fun piece => (fd, piece)) ++ rest) := by
  rw [sysWrite, Prog.bind_assoc]
  refine .look (fun s r s' done => by cases done; rfl) fun s r same done => ?_
  obtain rfl : some f = r := by
    cases done
    rw [same.procs]
    exact opened.symm
  change (writers k₀ ip i).Follows p (filewrite f src >>= next) _
  rw [filewrite, Prog.bind_assoc]
  refine .look (fun s r s' done => by cases done; rfl) fun s r same done => ?_
  obtain rfl : s.ftable f = r := by
    cases done
    rfl
  obtain ⟨type, writable, ptr⟩ := SameFiles.writes same writes
  clear done
  generalize s.ftable f = file at type writable ptr ⊢
  cases file
  subst type writable ptr
  change (writers k₀ ip i).Follows p ((do
    let all ← writeChunks f ip src.length src
    pure (if all then some src.length else none)) >>= next) _
  rw [Prog.bind_assoc]
  exact writeChunks_follows opened later failed _ _ (Nat.le_refl _)

end Opened

/-- Every descriptor that the calls of process `p` use writes the inode. -/
def Uses (k₀ : Kernel) (ip : InodePtr) (p : Nat) (calls : List (Fin NOFILE × List UInt8)) : Prop :=
  ∀ call ∈ calls, ∃ f, (k₀.procs p).ofile call.1 = some f ∧ WritesTo ip (k₀.ftable f)

theorem writeAll_follows {calls : List (Fin NOFILE × List UInt8)} (uses : Uses k₀ ip p calls) :
    (writers k₀ ip i).Follows p (writeAll calls) (script calls) := by
  induction calls with
  | nil => exact .done
  | cons call rest ih =>
    obtain ⟨fd, src⟩ := call
    obtain ⟨f, opened, writes⟩ := uses (fd, src) List.mem_cons_self
    rw [writeAll, script, List.flatMap_cons]
    refine sysWrite_follows opened writes ?_ fun script => ?_
    · rw [if_pos rfl]
      exact ih fun call member => uses call (List.mem_cons_of_mem _ member)
    · rw [if_neg nofun]
      exact .stop fun _ _ _ => nofun

end Chunk

def writing (w₀ : Whole) (calls : Nat → List (Fin NOFILE × List UInt8)) :
    Pool KOp KOp.Ret Whole :=
  ⟨w₀, fun p => writeAll (calls p)⟩

/-- The step finds a free block and buffers, and stays out of the log area. -/
def Finds (_p : Nat) (o : KOp) (w : Whole) : Prop := FindsBlock o w.kernel ∧ Whole.HasBuffer o w

instance (p : Nat) (o : KOp) (w : Whole) : Decidable (Finds p o w) :=
  inferInstanceAs (Decidable (FindsBlock o w.kernel ∧ Whole.HasBuffer o w))

/-- Whatever the schedule, the chunks are stored one after the other. -/
theorem writing_serial {w₀ : Whole} {ip : InodePtr} {i : Nat} (steady : w₀.Steady)
    (regular : Regular ip i w₀.kernel) (free : w₀.kernel.log.owner = none)
    {calls : Nat → List (Fin NOFILE × List UInt8)} (uses : ∀ p, Uses w₀.kernel ip p (calls p))
    {schedule : List Nat} {c : Pool KOp KOp.Ret Whole}
    (finds : Pool.Along Whole.exec Halt.waits Finds schedule (writing w₀ calls))
    (done : Pool.run Whole.exec Halt.waits schedule (writing w₀ calls) = .ok () c) :
    ∃ hist base, Pool.Serial (writers w₀.kernel ip i) (fun p => script (calls p))
      (fileView i w₀.kernel) hist base (Whole.plain c) := by
  obtain ⟨schedule', -, finds', done', -⟩ := Whole.pool_follows steady finds done
  have start : Pool.Serial (writers w₀.kernel ip i) (fun p => script (calls p))
      (fileView i w₀.kernel) [] (fileView i w₀.kernel) (Whole.plain (writing w₀ calls)) := by
    refine Pool.Serial.init (c := Whole.plain (writing w₀ calls)) free ?_ ?_ ?_
    · exact ⟨rfl, fun _ => rfl⟩
    · exact regular
    · exact fun p => writeAll_follows (uses p)
  exact start.run finds' done'

end Fs

end SirpairOs
