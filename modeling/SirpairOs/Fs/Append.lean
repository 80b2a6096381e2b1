import SirpairOs.Fs.SharedWrite

/-! Writes through descriptors that were opened with `O_APPEND`. The flag is used
once, for the first offset; the open file does not remember it. -/
namespace SirpairOs.Fs

open TransOwner (firstEntry)

variable {procs : Nat → Proc} {append behind : FilePtr → Prop} {p : Nat} {fd : Fin NOFILE}
  {src : List UInt8} {f : FilePtr} {v u w : FileView}
  {hist : List (Nat × Fin NOFILE × List UInt8)}

/-- Every chunk of the sequence that goes through a structure of `append` is stored
from the end of the file on, and no other byte changes. -/
def EachAppend (procs : Nat → Proc) (append : FilePtr → Prop) :
    List (Nat × Fin NOFILE × List UInt8) → FileView → FileView → Prop
  | [], v, w => v = w
  | (p, fd, src) :: rest, v, w => ∃ u, Stored procs p (fd, src) v u ∧
      (∀ f, (procs p).ofile fd = some f → append f → u.bytes = v.bytes ++ src) ∧
      EachAppend procs append rest u w

theorem Stored.appends_iff (stored : Stored procs p (fd, src) v w)
    (opened : (procs p).ofile fd = some f) (some : 0 < src.length) :
    w.bytes = v.bytes ++ src ↔ v.off f = v.bytes.length := by
  obtain ⟨g, here, inside, bytes, -⟩ := stored
  obtain rfl : g = f := Option.some.inj (here.symm.trans opened)
  dsimp only at inside bytes
  constructor
  · intro appends
    have lengths := congrArg List.length (bytes.symm.trans appends)
    simp only [List.length_append, List.length_take, List.length_drop] at lengths
    omega
  · intro atEnd
    rw [bytes, atEnd, List.take_length, List.drop_eq_nil_of_le (Nat.le_add_right ..),
      List.append_nil]

/-- No chunk goes through a structure of `append` once a chunk through another structure
has made the file longer; `behind` are the structures for which that has happened. -/
def KeepsUp (procs : Nat → Proc) (append : FilePtr → Prop) : (FilePtr → Prop) →
    List (Nat × Fin NOFILE × List UInt8) → FileView → FileView → Prop
  | _, [], v, w => v = w
  | behind, (p, fd, src) :: rest, v, w => ∃ u, Stored procs p (fd, src) v u ∧
      (∀ f, (procs p).ofile fd = some f → append f → ¬ behind f) ∧
      KeepsUp procs append (fun g => behind g ∨
        v.bytes.length < u.bytes.length ∧ (procs p).ofile fd ≠ some g) rest u w

/-- A structure that was left behind does not stand at the end any more. -/
def Abreast (append behind : FilePtr → Prop) (v : FileView) : Prop :=
  ∀ f, append f → v.off f ≤ v.bytes.length ∧ (behind f ↔ v.off f < v.bytes.length)

theorem Abreast.step (abreast : Abreast append behind v) (stored : Stored procs p (fd, src) v u)
    (fair : ∀ f, (procs p).ofile fd = some f → append f → ¬ behind f) : Abreast append (fun g =>
      behind g ∨ v.bytes.length < u.bytes.length ∧ (procs p).ofile fd ≠ some g) u := by
  obtain ⟨f, opened, inside, bytes, off⟩ := stored
  have length : u.bytes.length = max v.bytes.length (v.off f + src.length) := by
    rw [bytes]
    simp only [List.length_append, List.length_take, List.length_drop]
    omega
  intro g mine
  obtain ⟨below, left⟩ := abreast g mine
  by_cases same : g = f
  · subst same
    have atEnd : v.off g = v.bytes.length := by
      have := left.not.mp (fair g opened mine)
      omega
    have here : u.off g = v.off g + src.length := by
      rw [off, Function.update_self]
    refine ⟨by omega, iff_of_false ?_ (by omega)⟩
    rintro (before | ⟨_, other⟩)
    · exact fair g opened mine before
    · exact other opened
  · have here : u.off g = v.off g := by
      rw [off, Function.update_of_ne same]
    have other : (procs p).ofile fd ≠ some g := by
      rw [opened]
      exact fun equal => same (Option.some.inj equal).symm
    simp only [here, left]
    refine ⟨by omega, fun either => ?_, fun short => ?_⟩
    · rcases either with before | ⟨grown, _⟩
      · omega
      · omega
    · by_cases before : v.off g < v.bytes.length
      · exact Or.inl before
      · exact Or.inr ⟨by omega, other⟩

/-- Chunks that append are those of structures that nobody left behind. -/
theorem eachAppend_iff (abreast : Abreast append behind v)
    (nonempty : ∀ e ∈ hist, 0 < e.2.2.length) :
    EachAppend procs append hist v w ↔ KeepsUp procs append behind hist v w := by
  induction hist generalizing v behind with
  | nil => exact Iff.rfl
  | cons e rest ih =>
    obtain ⟨p, fd, src⟩ := e
    have some := nonempty (p, fd, src) List.mem_cons_self
    have later := fun e member => nonempty e (List.mem_cons_of_mem _ member)
    have fair (u : FileView) (stored : Stored procs p (fd, src) v u) (f : FilePtr)
        (opened : (procs p).ofile fd = .some f) (mine : append f) :
        u.bytes = v.bytes ++ src ↔ ¬ behind f := by
      obtain ⟨below, left⟩ := abreast f mine
      rw [stored.appends_iff opened some, left]
      omega
    constructor
    · rintro ⟨u, stored, here, tail⟩
      have fair' f opened mine := (fair u stored f opened mine).mp (here f opened mine)
      exact ⟨u, stored, fair', (ih (abreast.step stored fair') later).mp tail⟩
    · rintro ⟨u, stored, here, tail⟩
      exact ⟨u, stored, fun f opened mine => (fair u stored f opened mine).mpr (here f opened mine),
        (ih (abreast.step stored here) later).mpr tail⟩

/-- What `sys_open` leaves: with `O_APPEND` the offset is the size of that moment. -/
structure OpenedAt (p : Nat) (omode : Nat) (fd : Fin NOFILE) (f : FilePtr) (w : Whole) : Prop where
  file : (w.procs p).ofile fd = some f
  off : ∃ ip, (w.ftable f).ip = some ip ∧
    (w.ftable f).off = if hasFlag omode O_APPEND then (w.icache ip).din.size else 0

section Open

variable {w : Whole} {omode : Nat}

abbrev Opens (p : Nat) (prog : KProg Int) (omode : Nat) (w : Whole) : Prop :=
  Prog.wp (Whole.exec p) (fun _ _ => True) prog
    (fun r w' => r = -1 ∨ ∃ (fd : Fin NOFILE) (f : FilePtr), r = ((fd : Nat) : Int) ∧
      OpenedAt p omode fd f w')
    (fun _ _ => True) w

theorem Opens.after {α : Type} {first : KProg α} {rest : α → KProg Int}
    (opens : ∀ a w, Opens p (rest a) omode w) : Opens p (first >>= rest) omode w :=
  Prog.wp_seq _ _ (Prog.wp_true _ _ _ _) fun a w _ => opens a w

theorem Opens.failed : Opens p (pure (-1)) omode w := Or.inl rfl

theorem openFile_opens (ip : InodePtr) (omode : Nat) (truncTrans : Bool) :
    Opens p (openFile ip omode truncTrans) omode w := by
  apply Opens.after
  intro found w
  cases found with
  | none => exact .after fun _ _ => .after fun _ _ => .failed
  | some f =>
    -- the descriptor is set first, and stays through unlocking and the commit
    apply Prog.wp_seq _ _ (R := fun fd w => ∀ fd', fd = some fd' → (w.procs p).ofile fd' = some f)
    · intro _
      simp only [Whole.exec, KOp.exec]
      cases (List.finRange NOFILE).find? fun fd => (w.tables.procs p).ofile fd = none with
      | none => exact fun fd' same => by cases same
      | some fd =>
        intro fd' same
        cases same
        simp only [Kernel.setProc, Function.update_self]
    intro fd w found
    cases fd with
    | none => exact Opens.after fun _ _ => .after fun _ _ => .after fun _ _ => .failed
    | some fd =>
      apply Prog.wp_seq _ _ (R := fun _ w => (w.procs p).ofile fd = some f)
      · intro _
        simp only [Whole.exec, KOp.exec]
        split
        · trivial
        · exact found fd rfl
      intro _ w file
      apply Prog.wp_seq _ _ (R := fun _ w => (w.procs p).ofile fd = some f)
      · apply Prog.wp_when
        · intro _ _
          apply Whole.block_satisfies
          exact Prog.wp_mono _ _ (Prog.wp_true _ _ _ _) (fun _ _ _ => file) fun _ _ _ => trivial
        · exact fun _ => file
      intro _ w file _ _ _
      refine Or.inr ⟨fd, f, rfl, file, ip, ?_, ?_⟩
      · change (Function.update w.ftable f _ f).ip = _
        rw [Function.update_self]
      · change (Function.update w.ftable f _ f).off = _
        rw [Function.update_self]
        rfl

theorem sysOpen_opens (path : List UInt8) (omode : Nat) : Opens p (sysOpen path omode) omode w := by
  unfold sysOpen
  split
  · refine .after fun _ _ => .after fun ip _ => .after fun _ _ => ?_
    cases ip with
    | none => exact .failed
    | some ip => exact openFile_opens ip omode false
  · refine .after fun _ _ => .after fun ip _ => ?_
    cases ip with
    | none => exact .after fun _ _ => .failed
    | some ip =>
      refine .after fun _ _ => .after fun e _ => ?_
      split
      · exact .after fun _ _ => .after fun _ _ => .failed
      · exact .after fun _ _ => openFile_opens ip omode _

end Open

/-- The structure comes from a `sys_open` with `O_APPEND` of the file at `ip`, and what
ran since then has changed neither its offset nor the size of the file. -/
def OpenedToAppend (ip : InodePtr) (w : Whole) (f : FilePtr) : Prop :=
  ∃ (p : Nat) (path : List UInt8) (omode : Nat) (fd : Fin NOFILE) (before : Whole)
    (c c' : Pool KOp KOp.Ret Whole) (schedule : List Nat), hasFlag omode O_APPEND = true ∧
    (sysOpen path omode).run (Whole.exec p) before = .ok ((fd : Nat) : Int) c.state ∧
    (c.state.procs p).ofile fd = some f ∧ (c.state.ftable f).ip = some ip ∧
    Pool.run Whole.exec Halt.waits schedule c = .ok () c' ∧ c'.state = w ∧
    (w.ftable f).off = (c.state.ftable f).off ∧
    (w.icache ip).din.size = (c.state.icache ip).din.size

theorem OpenedToAppend.atEnd {ip : InodePtr} {w : Whole}
    (opened : OpenedToAppend ip w f) : (w.ftable f).off = (w.icache ip).din.size := by
  obtain ⟨p, path, omode, fd, before, c, c', schedule, flag, ran, file, ptr, -, -, off, size⟩ := opened
  have result := Prog.wp_satisfies _ (sysOpen_opens (p := p) (w := before) path omode)
  rw [ran] at result
  rcases result with failed | ⟨fd', f', same, at'⟩
  · omega
  · have same : fd = fd' := Fin.ext (Int.ofNat.inj same)
    subst same
    obtain ⟨ip', ptr', start⟩ := at'.off
    have one : f = f' := Option.some.inj (file.symm.trans at'.file)
    subst one
    have two : ip = ip' := Option.some.inj (ptr.symm.trans ptr')
    subst two
    rw [off, size, start, if_pos flag]

/-- In every run of writes to one regular file, those through descriptors opened with
`O_APPEND` append if and only if none of them comes after a write through another
structure that made the file longer. -/
theorem append_writes_iff {w₀ : Whole} {ip : InodePtr} {i : Nat} (steady : w₀.Steady)
    (regular : Regular ip i w₀.kernel) (free : w₀.machine.log.owner = none)
    {calls : Nat → List (Fin NOFILE × List UInt8)} (uses : ∀ p, Uses w₀.kernel ip p (calls p))
    {schedule : List Nat} {c : Pool KOp KOp.Ret Whole}
    (finds : Pool.Along Whole.exec Halt.waits Finds schedule (writing w₀ calls))
    (done : Pool.run Whole.exec Halt.waits schedule (writing w₀ calls) = .ok () c) :
    ∃ (order : List (Nat × Fin NOFILE × List UInt8)) (last : FileView),
      (∀ p, ofProc p order <+: script (calls p)) ∧
      (∀ p, c.procs p = .ret () → ofProc p order = script (calls p)) ∧
      Chain (Stored w₀.procs) order (fileView i w₀.kernel) last ∧
      (c.state.machine.log.owner = none → fileView i c.state.kernel = last) ∧
      (EachAppend w₀.procs (OpenedToAppend ip w₀) order (fileView i w₀.kernel) last ↔
        KeepsUp w₀.procs (OpenedToAppend ip w₀) (fun _ => False) order (fileView i w₀.kernel)
          last) := by
  obtain ⟨hist, base, serial⟩ := writing_serial steady regular free uses finds done
  have nonempty (e : Nat × Fin NOFILE × List UInt8) (member : e ∈ hist) : 0 < e.2.2.length := by
    obtain ⟨call, -, -, piece⟩ := mem_calls serial.ofProc_prefix member
    exact (length_of_mem_pieces piece).1
  have abreast : Abreast (OpenedToAppend ip w₀) (fun _ => False) (fileView i w₀.kernel) := by
    intro f opened
    have atEnd : (fileView i w₀.kernel).off f = (fileView i w₀.kernel).bytes.length := by
      dsimp only [fileView]
      rw [Volume.length_contents, regular.node]
      exact opened.atEnd
    rw [atEnd]
    exact ⟨Nat.le_refl _, iff_of_false id (Nat.lt_irrefl _)⟩
  exact ⟨hist, base, serial.ofProc_prefix, fun p => serial.ofProc_ended, serial.chain,
    fun nobody => (serial.free nobody).1, eachAppend_iff abreast nonempty⟩

/-- Who writes through one structure only is not left behind. -/
theorem keepsUp_of_one (chain : Chain (Stored procs) hist v w)
    (one : ∀ e ∈ hist, (procs e.1).ofile e.2.1 = some f) (fair : ¬ behind f) :
    KeepsUp procs append behind hist v w := by
  induction hist generalizing v behind with
  | nil => exact chain
  | cons e rest ih =>
    obtain ⟨u, stored, later⟩ := chain
    have opened := one e List.mem_cons_self
    refine ⟨u, stored, fun g here _ => ?_, ih later (fun e member => one e
      (List.mem_cons_of_mem _ member)) ?_⟩
    · rw [opened] at here
      cases here
      exact fair
    · rintro (before | ⟨_, other⟩)
      · exact fair before
      · exact other opened

/-- The empty file is the root inode, and nothing is open. -/
def unopened : Whole := .fresh { sharedFile with
  ftable := fun _ => ⟨.none, 0, false, false, none, 0⟩
  procs := fun _ => ⟨none, fun _ => none⟩ }

/-- Process 0 has opened `/` for appending. -/
def appending : Whole :=
  ((sysOpen [47] (O_WRONLY ||| O_APPEND)).run (Whole.exec 0) unopened).state

def twoBytes (p : Nat) : List (Fin NOFILE × List UInt8) :=
  if p = 0 then [(firstFd, [7]), (firstFd, [8])] else []

theorem appending_regular : Regular firstEntry 1 appending.kernel := by
  have start : Regular firstEntry 1 unopened.kernel :=
    sharedWhole_regular.congr rfl rfl
  have referred := (start.touch (f := fun e => { e with ref := e.ref + 1 }) rfl (by decide)).1
  exact ((referred.lock true).1.lock false).1.congr rfl rfl

theorem appending_steady : appending.Steady := by
  have start : unopened.Steady := Whole.fresh_steady rfl
  exact ⟨start.sane, start.steady⟩

theorem appending_opened : OpenedToAppend firstEntry appending firstFile :=
  ⟨0, [47], O_WRONLY ||| O_APPEND, firstFd, unopened, ⟨appending, fun _ => pure ()⟩,
    ⟨appending, fun _ => pure ()⟩, [], rfl, rfl, rfl, rfl, rfl, rfl, rfl, rfl⟩

theorem append_writes_alone : ∃ (c : Pool KOp KOp.Ret Whole)
    (order : List (Nat × Fin NOFILE × List UInt8)) (last : FileView),
      Pool.run Whole.exec Halt.waits (List.replicate 48 0) (writing appending twoBytes) = .ok () c ∧
      c.state.kernel.vol.contents 1 = [7, 8] ∧ fileView 1 c.state.kernel = last ∧
      OpenedToAppend firstEntry appending firstFile ∧
      EachAppend appending.procs (OpenedToAppend firstEntry appending) order
        (fileView 1 appending.kernel) last := by
  have ends : (Pool.run Whole.exec Halt.waits (List.replicate 48 0)
      (writing appending twoBytes)).Satisfies (fun _ c => c.state.machine.log.owner = none ∧
        c.state.kernel.vol.contents 1 = [7, 8]) fun _ _ => False := by
    decide +kernel
  have finds : Pool.Along Whole.exec Halt.waits Finds (List.replicate 48 0)
      (writing appending twoBytes) := by
    decide +kernel
  have calls (p : Nat) (call : Fin NOFILE × List UInt8) (member : call ∈ twoBytes p) :
      (appending.procs p).ofile call.1 = some firstFile := by
    unfold twoBytes at member
    split at member
    · rename_i zero
      subst zero
      rcases List.mem_pair.mp member with rfl | rfl <;> rfl
    · cases member
  cases done : Pool.run Whole.exec Halt.waits (List.replicate 48 0) (writing appending twoBytes) with
  | halt e c =>
    rw [done] at ends
    exact ends.elim
  | ok u c =>
    rw [done] at ends
    obtain ⟨order, last, early, -, chain, final, iff⟩ := append_writes_iff
      appending_steady appending_regular rfl
      (fun p call member => ⟨firstFile, calls p call member, rfl, rfl, rfl⟩) finds done
    refine ⟨c, order, last, rfl, ends.2, final ends.1, appending_opened, iff.mpr ?_⟩
    apply keepsUp_of_one (f := firstFile) chain _ id
    intro e member
    obtain ⟨call, used, same, -⟩ := mem_calls early member
    rw [same]
    exact calls e.1 call used

/-- The root directory holds the empty file `a`, inode 2. -/
def rootBlocks (s : Nat) : Block :=
  match s with
  | 1 => Superblock.encode ⟨128, 113, 8, 10⟩
  | 2 => Dinode.encode (Dinode.encode Bytes.zero 1
      ⟨T_DIR, 0, 0, 1, 3 * Dirent.SIZE, fun j => if j.val = 0 then 5 else 0⟩) 2 emptyInode
  | 4 => Bytes.tabulate fun i => if i = 0 then 0x3F else 0
  | 5 => Bytes.ofList (Dirent.encode ⟨1, DOT⟩ ++ Dirent.encode ⟨1, DOTDOT⟩ ++ Dirent.encode ⟨2, [97]⟩)
  | _ => Bytes.zero

/-- Nothing is cached and nothing is open. -/
def rootDisk : Whole where
  machine := ⟨rootBlocks, [], binit, ⟨118, 10, none, []⟩⟩
  icache _ := ⟨0, 0, false, false, Dinode.zero⟩
  ftable _ := ⟨.none, 0, false, false, none, 0⟩
  procs _ := ⟨none, fun _ => none⟩
  devsw _ := none

/-- Open `/a` twice for appending and once for reading, write a byte through each of
the first two and read the file. -/
def appendTwice : KProg (Option Nat × Option Nat × Option (List UInt8)) := do
  let _ ← sysOpen [47, 97] (O_WRONLY ||| O_APPEND)
  let _ ← sysOpen [47, 97] (O_WRONLY ||| O_APPEND)
  let _ ← sysOpen [47, 97] O_RDONLY
  let first ← sysWrite firstFd [7]
  let second ← sysWrite secondFd [8]
  let read ← sysRead ⟨2, by decide⟩ 2
  pure (first, second, read)

/-- The second write overwrites the byte of the first. -/
theorem append_overwrites : (appendTwice.run (Whole.exec 0) rootDisk).Satisfies
    (fun r _ => r = (some 1, some 1, some [8])) fun _ _ => False := by
  decide +kernel

end SirpairOs.Fs
