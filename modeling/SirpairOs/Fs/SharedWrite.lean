import SirpairOs.Fs.Writers

/-! Write calls of any number of processes through one open file structure. -/
namespace SirpairOs.Fs

open TransOwner (firstEntry)

theorem ofProc_map {A B : Type} (g : A → B) (p : Nat) (hist : List (Nat × A)) :
    ofProc p (hist.map fun e => (e.1, g e.2)) = (ofProc p hist).map g := by
  rw [ofProc, ofProc, List.filter_map, List.map_map, List.map_map]
  rfl

theorem map_script (calls : List (Fin NOFILE × List UInt8)) :
    (script calls).map (·.2) = calls.flatMap fun call => chunks call.2 := by
  rw [script, List.map_flatMap]
  congr 1
  funext call
  rw [List.map_map]
  exact List.map_id _

theorem mem_calls {calls : Nat → List (Fin NOFILE × List UInt8)}
    {hist : List (Nat × Fin NOFILE × List UInt8)} {e : Nat × Fin NOFILE × List UInt8}
    (early : ∀ p, ofProc p hist <+: script (calls p)) (member : e ∈ hist) :
    ∃ call ∈ calls e.1, e.2.1 = call.1 ∧ e.2.2 ∈ chunks call.2 := by
  have mine : e.2 ∈ ofProc e.1 hist :=
    List.mem_map.mpr ⟨e, List.mem_filter.mpr ⟨member, decide_eq_true rfl⟩, rfl⟩
  obtain ⟨call, used, inside⟩ := List.mem_flatMap.mp ((early e.1).subset mine)
  obtain ⟨piece, here, same⟩ := List.mem_map.mp inside
  rw [← same]
  exact ⟨call, used, rfl, here⟩

def stream (hist : List (Nat × Fin NOFILE × List UInt8)) : List UInt8 :=
  (hist.map fun e => e.2.2).flatten

/-- Chunks through one open file follow each other without gap or overlap. -/
theorem chain_stream {procs : Nat → Proc} {f : FilePtr}
    {hist : List (Nat × Fin NOFILE × List UInt8)} {v w : FileView}
    (chain : Chain (Stored procs) hist v w) (one : ∀ e ∈ hist, (procs e.1).ofile e.2.1 = some f) :
    w.bytes = v.bytes.take (v.off f) ++ stream hist ++
        v.bytes.drop (v.off f + (stream hist).length) ∧
      w.off f = v.off f + (stream hist).length := by
  induction hist generalizing v with
  | nil =>
    cases chain
    simp only [stream, List.map_nil, List.flatten_nil, List.append_nil, List.length_nil,
      Nat.add_zero, List.take_append_drop, and_self]
  | cons e rest ih =>
    obtain ⟨p, fd, src⟩ := e
    obtain ⟨u, ⟨g, opened, inside, bytes, off⟩, later⟩ := chain
    obtain rfl : g = f := Option.some.inj (opened.symm.trans (one (p, fd, src) List.mem_cons_self))
    obtain ⟨bytes', off'⟩ := ih later fun e member => one e (List.mem_cons_of_mem _ member)
    have here : u.off g = v.off g + src.length := by
      rw [off, Function.update_self]
    have first : (v.bytes.take (v.off g) ++ src).length = v.off g + src.length := by
      rw [List.length_append, List.length_take, Nat.min_eq_left inside]
    have whole : stream ((p, fd, src) :: rest) = src ++ stream rest := by
      simp only [stream, List.map_cons, List.flatten_cons]
    have tail : (v.bytes.take (v.off g) ++ src ++ v.bytes.drop (v.off g + src.length)).drop
        (v.off g + src.length + (stream rest).length) =
        v.bytes.drop (v.off g + (src.length + (stream rest).length)) := by
      rw [List.drop_append, List.drop_eq_nil_of_le (by omega), List.nil_append, List.drop_drop]
      congr 1
      omega
    rw [whole, bytes', off', here, bytes, List.take_left' first, tail, List.length_append]
    refine ⟨?_, Nat.add_assoc ..⟩
    simp only [List.append_assoc]

/-- The chunks of all calls through one open file are stored one after the other
from its offset on, in an order in which each process's own stand as it wrote
them, provided that `balloc` always finds a block of the data region, and `bget` a
buffer. -/
theorem shared_writes {w₀ : Whole} {ip : InodePtr} {i : Nat} {f : FilePtr} (steady : w₀.Steady)
    (regular : Regular ip i w₀.kernel) (writes : WritesTo ip (w₀.ftable f))
    (free : w₀.machine.log.owner = none) {calls : Nat → List (Fin NOFILE × List UInt8)}
    (shares : ∀ p, ∀ call ∈ calls p, (w₀.procs p).ofile call.1 = some f) {schedule : List Nat}
    {c : Pool KOp KOp.Ret Whole}
    (finds : Pool.Along Whole.exec Halt.waits Finds schedule (writing w₀ calls))
    (done : Pool.run Whole.exec Halt.waits schedule (writing w₀ calls) = .ok () c) :
    ∃ order : List (Nat × List UInt8),
      (∀ p, ofProc p order <+: (calls p).flatMap fun call => chunks call.2) ∧
      (∀ p, c.procs p = .ret () → ofProc p order = (calls p).flatMap fun call => chunks call.2) ∧
      (∀ e ∈ order, e.2.length ≤ 1536) ∧
      ((∀ p, c.procs p = .ret ()) → c.state.machine.log.owner = none) ∧
      (c.state.machine.log.owner = none →
        c.state.kernel.vol.contents i = (w₀.kernel.vol.contents i).take (w₀.ftable f).off ++
          (order.map (·.2)).flatten ++
          (w₀.kernel.vol.contents i).drop
            ((w₀.ftable f).off + (order.map (·.2)).flatten.length) ∧
        (c.state.ftable f).off = (w₀.ftable f).off + (order.map (·.2)).flatten.length) := by
  have uses (p : Nat) : Uses w₀.kernel ip p (calls p) := fun call member =>
    ⟨f, shares p call member, writes⟩
  obtain ⟨hist, base, serial⟩ := writing_serial steady regular free uses finds done
  have early (p : Nat) : ofProc p hist <+: script (calls p) := serial.ofProc_prefix p
  have one (e : Nat × Fin NOFILE × List UInt8) (member : e ∈ hist) :
      (w₀.procs e.1).ofile e.2.1 = some f := by
    obtain ⟨call, used, same, -⟩ := mem_calls early member
    rw [same]
    exact shares e.1 call used
  refine ⟨hist.map fun e => (e.1, e.2.2), fun p => ?_, fun p ended => ?_, fun e member => ?_,
    fun ended => ?_, fun nobody => ?_⟩
  · rw [ofProc_map (fun e : Fin NOFILE × List UInt8 => e.2), ← map_script]
    exact (early p).map _
  · rw [ofProc_map (fun e : Fin NOFILE × List UInt8 => e.2), ← map_script]
    exact congrArg _ (serial.ofProc_ended ended)
  · obtain ⟨e, here, rfl⟩ := List.mem_map.mp member
    obtain ⟨call, -, -, piece⟩ := mem_calls early here
    exact Nat.le_trans (length_of_mem_pieces piece).2 (by decide)
  · cases owner : c.state.machine.log.owner with
    | none => rfl
    | some p => exact absurd owner (serial.ended_free (ended p))
  · obtain ⟨view, -⟩ := serial.free nobody
    obtain ⟨bytes, off⟩ := chain_stream serial.chain one
    have order : ((hist.map fun e => (e.1, e.2.2)).map fun e => e.2).flatten = stream hist := by
      rw [List.map_map]
      rfl
    rw [order]
    rw [← view] at bytes off
    dsimp only [writers, fileView] at bytes off
    exact ⟨bytes, off⟩

def firstFd : Fin NOFILE := ⟨0, by decide⟩

def secondFd : Fin NOFILE := ⟨1, by decide⟩

def firstFile : FilePtr := ⟨0, by decide⟩

def secondFile : FilePtr := ⟨1, by decide⟩

/-- An empty file, open in one structure that processes 0 and 1 share as
descriptor 0. -/
def sharedFile : Kernel :=
  { smallFile 0 with
    log := ⟨118, 10, none, []⟩
    icache := fun ip =>
      if ip = firstEntry then ⟨1, 1, false, true, smallInode 0⟩
      else ⟨0, 0, false, false, Dinode.zero⟩
    ftable := fun f =>
      if f = firstFile then ⟨.inode, 2, true, true, some firstEntry, 0⟩
      else ⟨.none, 0, false, false, none, 0⟩
    procs := fun _ => ⟨none, fun _ => some firstFile⟩ }

theorem smallFile_regular : Regular firstEntry 1 (smallFile 0) := by
  have serving := smallFile_serving (n := 0) (by decide)
  refine ⟨serving.sound, serving.held, serving.num, ?_⟩
  rw [serving.reader.node]
  rfl

theorem sharedFile_regular : Regular firstEntry 1 sharedFile := by
  have unlocked := (smallFile_regular.lock false).1
  refine unlocked.congr rfl ?_
  funext ip
  by_cases self : ip = firstEntry
  · subst self
    rw [Kernel.setInode_icache_self]
    rfl
  · rw [Kernel.setInode_icache_of_ne _ _ self]
    simp only [sharedFile, smallFile, if_neg self]

def oneEach (p : Nat) : List (Fin NOFILE × List UInt8) :=
  if p < 2 then [(firstFd, [UInt8.ofNat (p + 7)])] else []

def turns : List Nat := (List.range 60).map (· % 2) ++ List.replicate 24 1

abbrev sharedWhole : Whole := .fresh sharedFile

theorem sharedWhole_kernel : sharedWhole.kernel = sharedFile :=
  Whole.fresh_kernel (fun _ => rfl) (smallDisk_log 0)

theorem sharedWhole_regular : Regular firstEntry 1 sharedWhole.kernel := by
  rw [sharedWhole_kernel]
  exact sharedFile_regular

theorem turns_run : ∃ c, Pool.run Whole.exec Halt.waits turns (writing sharedWhole oneEach) =
      .ok () c ∧ Pool.Along Whole.exec Halt.waits Finds turns (writing sharedWhole oneEach) := by
  have ends : (Pool.run Whole.exec Halt.waits turns (writing sharedWhole oneEach)).reason = none := by
    decide +kernel
  have finds : Pool.Along Whole.exec Halt.waits Finds turns (writing sharedWhole oneEach) := by
    decide +kernel
  cases run : Pool.run Whole.exec Halt.waits turns (writing sharedWhole oneEach) with
  | ok _ c => exact ⟨c, rfl, finds⟩
  | halt e c =>
    rw [run] at ends
    cases ends

theorem sharedWhole_writes : WritesTo firstEntry (sharedWhole.ftable firstFile) := ⟨rfl, rfl, rfl⟩

theorem shared_writes_turns :
    ∃ c, Pool.run Whole.exec Halt.waits turns (writing sharedWhole oneEach) = .ok () c ∧
      ∃ order : List (Nat × List UInt8),
        (∀ p, ofProc p order <+: (oneEach p).flatMap fun call => chunks call.2) ∧
        (c.state.machine.log.owner = none →
          c.state.kernel.vol.contents 1 = (sharedWhole.kernel.vol.contents 1).take 0 ++
            (order.map (·.2)).flatten ++
            (sharedWhole.kernel.vol.contents 1).drop (0 + (order.map (·.2)).flatten.length) ∧
          (c.state.ftable firstFile).off = 0 + (order.map (·.2)).flatten.length) := by
  obtain ⟨c, done, finds⟩ := turns_run
  obtain ⟨order, early, -, -, -, stored⟩ := shared_writes (Whole.fresh_steady rfl)
    sharedWhole_regular sharedWhole_writes rfl (fun _ _ _ => rfl) finds done
  exact ⟨c, done, order, early, stored⟩

/-- An empty file of a disk of sixteen blocks. -/
def emptyInode : Dinode := ⟨T_FILE, 0, 0, 1, 0, fun _ => 0⟩

/-- Its one data block, block 5, belongs to inode 2. The log area starts at block 6;
its bits are clear, as `mkfs` leaves them. -/
def fullBlocks (s : Nat) : Block :=
  match s with
  | 1 => Superblock.encode ⟨16, 1, 8, 10⟩
  | 2 => Dinode.encode (Dinode.encode Bytes.zero 1 emptyInode) 2
      ⟨T_FILE, 0, 0, 1, BSIZE, fun j => if j.val = 0 then 5 else 0⟩
  | 4 => Bytes.tabulate fun i => if i = 0 then 0x3F else 0
  | _ => Bytes.zero

/-- Descriptors 0 and 1 of every process are open on the empty file, inode 1. -/
def fullDisk : Whole where
  machine := ⟨fullBlocks, [], binit, ⟨6, 10, none, []⟩⟩
  icache ip :=
    if ip = firstEntry then ⟨1, 2, false, true, emptyInode⟩
    else ⟨0, 0, false, false, Dinode.zero⟩
  ftable f :=
    if (f : Nat) < 2 then ⟨.inode, 1, true, true, some firstEntry, 0⟩
    else ⟨.none, 0, false, false, none, 0⟩
  procs _ := ⟨none, fun fd => some (if fd = firstFd then firstFile else secondFile)⟩
  devsw _ := none

/-- Write a byte through one descriptor and read it back through the other. -/
def writeRead (byte : UInt8) : KProg (Option Nat × Option (List UInt8)) := do
  let written ← sysWrite firstFd [byte]
  let read ← sysRead secondFd 1
  pure (written, read)

/-- The byte goes into the header block of the log, where the commit of its own
transaction overwrites it. -/
theorem shared_write_lost :
    ((writeRead 7).run (Whole.exec 0) fullDisk).Satisfies (fun r _ => r = (some 1, some [0]))
      fun _ _ => False := by
  decide +kernel

end SirpairOs.Fs
