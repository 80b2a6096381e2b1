import SirpairOs.Fs.Simulation
import SirpairOs.Fs.Room
import SirpairOs.Fs.TruncSpec

/-! `itrunc` of an inode that owns its blocks. All of them are freed in one
transaction, so the log has to have room for their bitmap sectors, and the buffer
cache for them beside the index blocks that are being read. -/
namespace SirpairOs.Fs

open TransOwner (firstEntry)

/-- The inode at `ip` is an inode of the table, and the block numbers in its slots
are different blocks of the data region that are marked in use. -/
structure OwnsBlocks (k : Kernel) (ip : InodePtr) : Prop where
  layout : k.sb.Valid
  table : (k.icache ip).inum < k.sb.ninodes
  fits : (k.icache ip).din.Fits
  exclusive : Exclusive (fun s : Slot => s.addr k.disk (k.icache ip).din) (k.used · = true)
  region : ∀ s : Slot, s.addr k.disk (k.icache ip).din ≠ 0 →
    k.sb.dataStart ≤ s.addr k.disk (k.icache ip).din ∧
      s.addr k.disk (k.icache ip).din < k.sb.logStart

structure Truncated (ip : InodePtr) (k k' : Kernel) : Prop where
  /-- Exactly the bits of the data and index blocks of the inode are cleared. -/
  bitmap : ∀ b, k'.used b = true ↔
    k.used b = true ∧ ¬ (b ≠ 0 ∧ ∃ s : Slot, s.addr k.disk (k.icache ip).din = b)
  memory : k'.icache = Function.update k.icache ip { k.icache ip with
    din := { (k.icache ip).din with size := 0, addrs := fun _ => 0 } }
  onDisk : k'.onDisk (k.icache ip).inum = { (k.icache ip).din with size := 0, addrs := fun _ => 0 }
  others : ∀ j < k.sb.ninodes, j ≠ (k.icache ip).inum → k'.onDisk j = k.onDisk j
  contents : ∀ x, (∀ b < k.sb.size, x ≠ BBLOCK b k.sb.ninodes) →
    (∀ j < k.sb.ninodes, x ≠ IBLOCK j) → k'.disk x = k.disk x

/-- The header of the log after the bitmap sectors of all blocks of the inode. -/
def truncHeader (k : Kernel) (ip : InodePtr) : List Nat :=
  (((k.icache ip).din.blocks k.disk).map fun b => BBLOCK b k.sb.ninodes).foldl KOp.absorb k.log.lh

section Along

variable {pid : Nat} {k : Kernel} {ip : InodePtr}

theorem OwnsBlocks.freeable (owns : OwnsBlocks k ip) :
    k.Freeable (fun _ => False) ((k.icache ip).din.blocks k.disk) where
  nodup := by
    rw [Dinode.blocks, List.filter_map]
    refine (Slot.nodup_all.filter _).map_on fun s left t _ same => ?_
    exact owns.exclusive.inj (of_decide_eq_true (List.mem_filter.mp left).2) same
  low b member := by
    obtain ⟨real, s, rfl⟩ := Dinode.mem_blocks.mp member
    exact (owns.region s real).1
  inside b member := by
    obtain ⟨real, s, rfl⟩ := Dinode.mem_blocks.mp member
    exact (owns.region s real).2
  used b member := by
    obtain ⟨real, s, rfl⟩ := Dinode.mem_blocks.mp member
    exact owns.exclusive.used real
  loose _ _ := id

theorem OwnsBlocks.truncated (owns : OwnsBlocks k ip) : Truncated ip k (k.trunc ip) where
  bitmap b := by
    rw [Kernel.trunc_used owns.table, ← Dinode.mem_blocks]
    simp [and_comm]
  memory := Kernel.trunc_icache
  onDisk := (Kernel.trunc_onDisk owns.fits owns.table).trans (if_pos rfl)
  others _ inside other := (Kernel.trunc_onDisk owns.fits inside).trans (if_neg other)
  contents x bitmap table := by
    refine Kernel.trunc_disk_of_ne (fun b member => bitmap b ?_) (table _ owns.table)
    exact Nat.lt_of_lt_of_le (owns.freeable.inside b member) k.sb.logStart_le

theorem iupdate_along_iff (free : k.holder (IBLOCK (k.icache ip).inum) = none) :
    (iupdate ip).Along (KOp.unbounded pid) (KOp.Room pid) k ↔ k.log.lh.length < k.logLimit := by
  have mine := k.hold_holder_self pid (IBLOCK (k.icache ip).inum)
  have bread : KOp.unbounded pid (.bread (IBLOCK (k.icache ip).inum)) k =
      .ok (k.disk (IBLOCK (k.icache ip).inum)) (k.hold pid (IBLOCK (k.icache ip).inum)) :=
    if_pos free
  constructor
  · intro along
    have logged := along.2.2
    rw [bread] at logged
    exact logged.1 mine
  · intro room
    refine ⟨trivial, trivial, ?_⟩
    rw [bread]
    refine ⟨fun _ => room, ?_⟩
    cases KOp.unbounded pid (.logWrite _ _) _ with
    | halt e k' => trivial
    | ok r k' =>
      refine ⟨trivial, ?_⟩
      cases KOp.unbounded pid (.brelse _) k' <;> trivial

theorem clearInode_along_iff (free : ∀ s, k.holder s = none) :
    (clearInode ip).Along (KOp.unbounded pid) (KOp.Room pid) k ↔ k.log.lh.length < k.logLimit := by
  have last : (iupdate ip).Along (KOp.unbounded pid) (KOp.Room pid)
      (k.setDin ip { (k.icache ip).din with size := 0 }) ↔ _ := iupdate_along_iff (free _)
  exact ⟨fun along => last.mp along.2.2, fun room => ⟨trivial, trivial, last.mpr room⟩⟩

theorem run_eq_of_wp {p : KProg Unit} {k' : Kernel}
    (wp : Wp pid (fun _ _ => True) (fun _ _ => False) p (fun _ k'' => k'' = k') k) :
    p.run (KOp.unbounded pid) k = .ok () k' := by
  have result := Prog.wp_satisfies _ wp
  revert result
  cases p.run (KOp.unbounded pid) k with
  | ok u k' => exact fun same => congrArg _ same
  | halt e k' => exact fun halted => halted.elim

variable (owns : OwnsBlocks k ip) (idle : ∀ s, k.holder s = none) (open' : k.log.owner ≠ none)

include owns idle open'

theorem OwnsBlocks.freer : Freer (fun _ _ => False) (fun _ => False) k :=
  ⟨owns.layout, .inr fun s taken => taken (idle s), nofun, .inr open'⟩

theorem freeBlocks_run : (freeBlocks ip).run (KOp.unbounded pid) k =
    .ok () (k.purge ip ((k.icache ip).din.blocks k.disk) allAddrs) :=
  run_eq_of_wp (freeBlocks_wp (owns.freer idle open') owns.freeable rfl)

theorem itrunc_run : (itrunc ip).run (KOp.unbounded pid) k = .ok () (k.trunc ip) :=
  run_eq_of_wp (itrunc_freer_wp (owns.freer idle open') owns.freeable rfl)

/-- The inode is the last sector that `itrunc` logs, so room for it decides. -/
theorem itrunc_along_iff : (itrunc ip).Along (KOp.unbounded pid) (KOp.Room pid) k ↔
    (truncHeader k ip).length < k.logLimit := by
  have done : (freeBlocks ip).run (KOp.unbounded pid) k = _ := freeBlocks_run owns idle open'
  have rest := k.freeAll_rest ((k.icache ip).din.blocks k.disk)
  have header : (k.purge ip ((k.icache ip).din.blocks k.disk) allAddrs).log.lh =
      truncHeader k ip := k.freeAll_lh _
  have limit : (k.purge ip ((k.icache ip).din.blocks k.disk) allAddrs).logLimit = k.logLimit :=
    congrArg (fun size => min LOGSIZE (size - 1)) rest.logSize
  have free (s : Nat) :
      (k.purge ip ((k.icache ip).din.blocks k.disk) allAddrs).holder s = none := by
    rw [Kernel.purge, ← idle s]
    exact congrFun rest.holder s
  have plain : (freeBlocks ip).Only Plain := by
    have whole := (of_content (itrunc_only ip)).mono Lower.plain
    rw [itrunc_split] at whole
    exact whole.left
  rw [itrunc_split, Prog.along_bind, done, Outcome.satisfies_ok,
    clearInode_along_iff free, header, limit]
  refine ⟨And.right, fun room => ⟨along_room plain done ?_, room⟩⟩
  rw [header, limit]
  exact room

theorem itrunc_blocks_iff :
    (∃ k', (itrunc ip).run (KOp.exec pid) k = .ok () k' ∧ Truncated ip k k') ↔
      (truncHeader k ip).length < k.logLimit := by
  have along : (itrunc ip).Along (KOp.unbounded pid) _ k ↔ _ := itrunc_along_iff owns idle open'
  constructor
  · rintro ⟨k', done, _⟩
    exact along.mp (run_exec_eq_ok.mp done).2
  · intro room
    exact ⟨k.trunc ip, run_exec_eq_ok.mpr ⟨itrunc_run owns idle open', along.mpr room⟩,
      owns.truncated⟩

end Along

/-- An inode with direct blocks only owns them. -/
theorem OwnsBlocks.of_direct {k : Kernel} {ip : InodePtr} (layout : k.sb.Valid)
    (table : (k.icache ip).inum < k.sb.ninodes) (fits : (k.icache ip).din.Fits)
    (single : (k.icache ip).din.addrs INDIRECT = 0) (double : (k.icache ip).din.addrs DINDIRECT = 0)
    (inj : ∀ j l, (k.icache ip).din.addrs j ≠ 0 →
      (k.icache ip).din.addrs j = (k.icache ip).din.addrs l → j = l)
    (data : ∀ j, (k.icache ip).din.addrs j ≠ 0 → k.sb.dataStart ≤ (k.icache ip).din.addrs j ∧
      (k.icache ip).din.addrs j < k.sb.logStart ∧ k.used ((k.icache ip).din.addrs j) = true) :
    OwnsBlocks k ip := by
  have direct {s : Slot} (real : s.addr k.disk (k.icache ip).din ≠ 0) : ∃ j, s = .top j := by
    cases s with
    | top j => exact ⟨j, rfl⟩
    | ind j => exact absurd (single ▸ entry_zero k.disk j) real
    | mid j => exact absurd (double ▸ entry_zero k.disk j) real
    | leaf j l =>
      have none' : (Slot.leaf j l).addr k.disk (k.icache ip).din = 0 := by
        rw [Slot.addr, double, entry_zero, entry_zero]
      exact absurd none' real
  refine ⟨layout, table, fits, ⟨fun {s t} real same => ?_, fun {s} real => ?_⟩, fun s real => ?_⟩
  · obtain ⟨j, rfl⟩ := direct real
    obtain ⟨l, rfl⟩ := direct (same ▸ real)
    exact congrArg Slot.top (inj j l real same)
  · obtain ⟨j, rfl⟩ := direct real
    exact (data j real).2.2
  · obtain ⟨j, rfl⟩ := direct real
    exact ⟨(data j real).1, (data j real).2.1⟩

/-- The first `n` blocks are the first ones of different bitmap regions. -/
def scatteredInode (n : Nat) : Dinode :=
  ⟨T_FILE, 0, 0, 1, BSIZE * n, fun j => if j < n then BPB * (j + 1) else 0⟩

def scatteredDisk (n s : Nat) : Block :=
  match s with
  | 1 => Superblock.encode ⟨FS_SIZE, 65378, 1024, 10⟩
  | 2 => Dinode.encode Bytes.zero 1 (scatteredInode n)
  | s => if 132 ≤ s ∧ s < 132 + n then Bytes.zero.setBit 0 else Bytes.zero

/-- The inode is cached, and a transaction is open. -/
def scattered (n : Nat) : Kernel where
  disk := scatteredDisk n
  holder _ := none
  log := ⟨FS_SIZE - 10, 10, some 0, []⟩
  icache ip :=
    if ip = firstEntry then ⟨1, 1, true, true, scatteredInode n⟩
    else ⟨0, 0, false, false, Dinode.zero⟩
  ftable _ := ⟨.none, 0, false, false, none, 0⟩
  procs _ := ⟨none, fun _ => none⟩
  devsw _ := none

theorem blocks_direct {din : Dinode} (single : din.addrs INDIRECT = 0)
    (double : din.addrs DINDIRECT = 0) (disk : Nat → Block) :
    din.blocks disk = (directs.map din.addrs).filter (· ≠ 0) := by
  have none' : indexBlocks disk 0 = [] := if_pos rfl
  have under : (((List.finRange NINDIRECT).map fun _ => 0).flatMap (indexBlocks disk)) = [] := by
    rw [List.flatMap_eq_nil_iff]
    intro a member
    obtain ⟨_, _, rfl⟩ := List.mem_map.mp member
    exact none'
  rw [Dinode.blocks_eq, single, double, none', List.append_nil]
  simp only [entry_zero, under]
  exact List.append_nil _

theorem scattered_sb (n : Nat) : (scattered n).sb = ⟨FS_SIZE, 65378, 1024, 10⟩ := by
  change Superblock.decode (Superblock.encode ⟨FS_SIZE, 65378, 1024, 10⟩) = _
  decide +kernel

theorem scattered_valid (n : Nat) : (scattered n).sb.Valid := by
  rw [scattered_sb]
  refine ⟨fun b inside => ?_, by decide, by decide, by decide⟩
  simp only [BBLOCK, NINODEBLOCKS, Superblock.dataStart, FS_SIZE, BPB, IPB] at inside ⊢
  omega

theorem scattered_owns {n : Nat} (few : n ≤ NDIRECT) : OwnsBlocks (scattered n) firstEntry := by
  have addrs (j : Fin (NDIRECT + 2)) : ((scattered n).icache firstEntry).din.addrs j =
      if (j : Nat) < n then BPB * (j + 1) else 0 := rfl
  have bound (j : Fin (NDIRECT + 2)) : (j : Nat) < 13 := j.isLt
  unfold NDIRECT at few
  refine .of_direct (scattered_valid n) ?_ ?_ ?_ ?_ (fun j l real same => ?_) fun j real => ?_
  · rw [scattered_sb]
    exact (by decide : 1 < 1024)
  · refine ⟨rfl, rfl, rfl, rfl, ?_, fun j => ?_⟩
    · change BSIZE * n < 2 ^ 32
      unfold BSIZE
      omega
    · have := bound j
      rw [addrs]
      unfold BPB
      split <;> omega
  · rw [addrs, if_neg (by unfold INDIRECT NDIRECT; dsimp only; omega)]
  · rw [addrs, if_neg (by unfold DINDIRECT NDIRECT; dsimp only; omega)]
  · rw [addrs] at real same
    rw [addrs] at same
    have here : (j : Nat) < n := by
      by_contra beyond
      exact real (if_neg beyond)
    rw [if_pos here] at same
    unfold BPB at same
    ext
    split at same <;> omega
  · rw [addrs] at real ⊢
    rw [scattered_sb]
    have here : (j : Nat) < n := by
      by_contra beyond
      exact real (if_neg beyond)
    have sector : BBLOCK (BPB * (j + 1)) 1024 = 132 + j := by
      unfold BBLOCK BPB NINODEBLOCKS IPB
      omega
    rw [if_pos here, Kernel.used, scattered_sb, sector, Nat.mul_mod_right]
    refine ⟨?_, ?_, ?_⟩
    · unfold Superblock.dataStart FS_SIZE BPB
      dsimp only
      omega
    · unfold Superblock.logStart FS_SIZE BPB
      dsimp only
      omega
    · have block : (scattered n).disk (132 + j) = Bytes.zero.setBit 0 := by
        change scatteredDisk n (132 + j) = _
        unfold scatteredDisk
        split
        · omega
        · omega
        · rw [if_pos (by omega)]
      rw [block]
      decide

theorem scattered_header {n : Nat} (few : n ≤ NDIRECT) : truncHeader (scattered n) firstEntry =
    ((((directs.map (scatteredInode n).addrs).filter (· ≠ 0)).map
      fun b => BBLOCK b 1024).foldl KOp.absorb []) := by
  have blocks : (scatteredInode n).blocks (scattered n).disk =
      (directs.map (scatteredInode n).addrs).filter (· ≠ 0) :=
    blocks_direct (if_neg (by simpa [INDIRECT] using few))
      (if_neg (by simp only [DINDIRECT]; omega)) _
  rw [truncHeader, scattered_sb]
  exact congrArg (fun bs => (bs.map fun b => BBLOCK b 1024).foldl KOp.absorb []) blocks

abbrev scatteredWhole (n : Nat) : Whole := .fresh (scattered n)

theorem scatteredWhole_kernel {n : Nat} (few : n ≤ NDIRECT) :
    (scatteredWhole n).kernel = scattered n := by
  apply Whole.fresh_kernel (fun _ => rfl)
  intro x inside
  have high : FS_SIZE - 10 ≤ x := inside.1
  unfold FS_SIZE at high
  unfold NDIRECT at few
  change scatteredDisk n x = _
  unfold scatteredDisk
  split
  · omega
  · omega
  · exact if_neg (by omega)

theorem scatteredWhole_owns {n : Nat} (few : n ≤ NDIRECT) : (scatteredWhole n).Steady ∧
    OwnsBlocks (scatteredWhole n).kernel firstEntry ∧
    (∀ s, (scatteredWhole n).kernel.holder s = none) ∧
    (scatteredWhole n).kernel.log.owner ≠ none := by
  rw [scatteredWhole_kernel few]
  exact ⟨Whole.fresh_steady rfl, scattered_owns few, fun _ => rfl, Option.some_ne_none 0⟩

end SirpairOs.Fs
