import SirpairOs.Fs.Cache

/-! Sound file systems, and what happens to one when `bmap` gives a block to an
empty slot. -/
namespace SirpairOs.Kernel

/-- The layout is valid, the cache agrees with the disk, every block number is in
one slot only and marked in use, and so are all blocks below the data region. -/
structure Sound (k : Kernel) : Prop where
  valid : k.sb.Valid
  cache : k.CacheOk
  own : k.vol.Owned (fun b => k.used b = true) k.sb.dataStart k.sb.logStart
  system : ∀ b < k.sb.dataStart, k.used b = true

section Congr

/-! Locks, log and processes have no part in the file system's contents. -/

variable {k k' : Kernel} (disk : k'.disk = k.disk)

include disk

theorem sb_congr : k'.sb = k.sb := by rw [sb, disk, sb]

theorem onDisk_congr : k'.onDisk = k.onDisk := by
  funext i
  rw [onDisk, disk, onDisk]

theorem used_congr : k'.used = k.used := by
  funext b
  rw [used, disk, sb_congr disk, used]

variable (icache : k'.icache = k.icache)

include icache

theorem vol_congr : k'.vol = k.vol := by
  have node : k'.node = k.node := funext fun i =>
    node_congr (sb_congr disk) icache fun _ => by rw [onDisk_congr disk]
  rw [vol, disk, node, vol]

theorem CacheOk.congr (ok : k.CacheOk) : k'.CacheOk where
  unique := icache ▸ ok.unique
  table := by
    rw [icache, sb_congr disk]
    exact ok.table
  fits := icache ▸ ok.fits
  behind := by
    rw [icache, onDisk_congr disk]
    exact ok.behind

theorem Sound.congr (sound : k.Sound) : k'.Sound where
  valid := by
    rw [sb_congr disk]
    exact sound.valid
  cache := sound.cache.congr disk icache
  own := by
    rw [vol_congr disk icache, used_congr disk, sb_congr disk]
    exact sound.own
  system := by
    rw [used_congr disk, sb_congr disk]
    exact sound.system

end Congr

def freeData (k : Kernel) : List Nat :=
  (List.range' k.sb.dataStart (k.sb.logStart - k.sb.dataStart)).filter fun b => !k.used b

theorem mem_freeData {k : Kernel} {b : Nat} :
    b ∈ k.freeData ↔ k.sb.dataStart ≤ b ∧ b < k.sb.logStart ∧ k.used b = false := by
  rw [freeData, List.mem_filter, List.mem_range'_1]
  constructor
  · rintro ⟨⟨low, high⟩, free⟩
    exact ⟨low, by omega, by simpa using free⟩
  · rintro ⟨low, high, free⟩
    exact ⟨⟨low, by omega⟩, by simpa using free⟩

theorem freeData_sorted (k : Kernel) : k.freeData.Pairwise (· < ·) :=
  (List.pairwise_lt_range' 1 Nat.one_pos).filter _

/-- A block that `balloc` finds is the first free data block. -/
theorem Sound.first_free {k : Kernel} (sound : k.Sound) {b : Nat} (free : k.used b = false)
    (first : ∀ x < b, k.used x = true) (some : k.freeData ≠ []) :
    ∃ rest, k.freeData = b :: rest := by
  cases list : k.freeData with
  | nil => exact absurd list some
  | cons c rest =>
    have sorted := k.freeData_sorted
    rw [list, List.pairwise_cons] at sorted
    obtain ⟨low, high, clear⟩ := mem_freeData.mp (list ▸ List.mem_cons_self : c ∈ k.freeData)
    have above : b ≤ c := by
      by_contra below
      rw [first c (by omega)] at clear
      cases clear
    have data : k.sb.dataStart ≤ b := by
      by_contra below
      rw [sound.system b (by omega)] at free
      cases free
    have member : b ∈ c :: rest := list ▸ mem_freeData.mpr ⟨data, by omega, free⟩
    rcases List.mem_cons.mp member with rfl | later
    · exact ⟨rest, rfl⟩
    · have := sorted.1 b later
      omega

section StoreHigh

variable {k : Kernel} (valid : k.sb.Valid) {a : Nat} (data : Block) (high : k.sb.dataStart ≤ a)

include valid high

theorem store_high_sb : (k.store a data).sb = k.sb := by
  have := valid.three_lt_dataStart
  exact store_sb k data (by omega)

theorem store_high_used {x : Nat} (inside : x < k.sb.size) :
    (k.store a data).used x = k.used x := by
  have := valid.three_lt_dataStart
  have := valid.bitmap x inside
  exact store_used k data (by omega) (by omega)

theorem high_apart (i : Nat) (inside : i < k.sb.ninodes) : IBLOCK i ≠ a := by
  have := valid.IBLOCK_lt_dataStart inside
  omega

theorem store_high_vol : (k.store a data).vol = k.vol.write a data := by
  have := valid.three_lt_dataStart
  exact vol_store data (by omega) (high_apart valid high)

theorem store_high_freeData : (k.store a data).freeData = k.freeData := by
  rw [freeData, freeData, store_high_sb valid data high]
  refine List.filter_congr fun x member => ?_
  have := List.mem_range'_1.mp member
  have := k.sb.logStart_le
  rw [store_high_used valid data high (by omega)]

theorem CacheOk.store_high (ok : k.CacheOk) : (k.store a data).CacheOk := by
  have := valid.three_lt_dataStart
  exact ok.store data (by omega) (high_apart valid high)

end StoreHigh

section Alloc

variable {k : Kernel} (sound : k.Sound) {b : Nat} {rest : List Nat} (free : k.freeData = b :: rest)

include free

theorem free_head : k.sb.dataStart ≤ b ∧ b < k.sb.logStart ∧ k.used b = false :=
  mem_freeData.mp (free ▸ List.mem_cons_self)

include sound

theorem Sound.free_real : b ≠ 0 := by
  have := sound.valid.three_lt_dataStart
  have := (free_head free).1
  omega

theorem Sound.alloc_apart (i : Nat) (inside : i < k.sb.ninodes) :
    IBLOCK i ≠ BBLOCK b k.sb.ninodes ∧ IBLOCK i ≠ b := by
  have := IBLOCK_lt_BBLOCK b inside
  have := sound.valid.IBLOCK_lt_dataStart inside
  have := (free_head free).1
  omega

theorem Sound.alloc_vol : (k.alloc b).vol = (k.vol.write (BBLOCK b k.sb.ninodes)
      ((k.disk (BBLOCK b k.sb.ninodes)).setBit (b % BPB))).write b Bytes.zero := by
  have low := sound.valid.three_lt_dataStart
  have head := free_head free
  have sb := store_sb k ((k.disk (BBLOCK b k.sb.ninodes)).setBit (b % BPB))
    (BBLOCK_ne_one b k.sb.ninodes)
  rw [alloc, vol_store _ (by omega), vol_store _ (BBLOCK_ne_one b _)]
  · exact fun i inside => (sound.alloc_apart free i inside).1
  · rw [sb]
    exact fun i inside => (sound.alloc_apart free i inside).2

/-- The new block and its bitmap block are in no slot. -/
theorem Sound.alloc_slots : (k.alloc b).vol.addr = k.vol.addr ∧ (k.alloc b).vol.body = k.vol.body := by
  have head := free_head free
  have bitmap : BBLOCK b k.sb.ninodes < k.sb.dataStart :=
    sound.valid.bitmap b (Nat.lt_of_lt_of_le head.2.1 k.sb.logStart_le)
  have low (i : Nat) (s : Slot) (real : k.vol.addr i s ≠ 0) :
      k.vol.addr i s ≠ BBLOCK b k.sb.ninodes := by
    have := (sound.own.region i s real).1
    omega
  have fresh (i : Nat) (s : Slot) : k.vol.addr i s ≠ b :=
    sound.own.fresh (by simp [head.2.2]) (sound.free_real free) i s
  have addr (data : Block) : (k.vol.write (BBLOCK b k.sb.ninodes) data).addr = k.vol.addr :=
    funext₂ fun i s => Volume.addr_write data (fun p _ => low i p) s
  have body (data : Block) : (k.vol.write (BBLOCK b k.sb.ninodes) data).body = k.vol.body :=
    funext₂ fun i bn => Volume.body_write_of_ne data (low i) bn
  rw [sound.alloc_vol free]
  constructor
  · rw [← addr]
    refine funext₂ fun i s => Volume.addr_write _ (fun p _ _ => ?_) s
    rw [addr]
    exact fresh i p
  · rw [← body]
    refine funext₂ fun i bn => Volume.body_write_of_ne _ (fun s _ => ?_) bn
    rw [addr]
    exact fresh i s

theorem Sound.alloc_sb : (k.alloc b).sb = k.sb :=
  Kernel.alloc_sb sound.valid (free_head free).1

theorem Sound.alloc_used {x : Nat} (inside : x < k.sb.size) :
    (k.alloc b).used x = (decide (x = b) || k.used x) :=
  Kernel.alloc_used sound.valid (free_head free).1 inside

theorem Sound.alloc_onDisk {i : Nat} (inside : i < k.sb.ninodes) :
    (k.alloc b).onDisk i = k.onDisk i := by
  obtain ⟨bitmap, block⟩ := sound.alloc_apart free i inside
  rw [alloc, onDisk_store _ _ block, onDisk_store _ _ bitmap]

theorem Sound.alloc_cache : (k.alloc b).CacheOk := by
  have low := sound.valid.three_lt_dataStart
  have head := free_head free
  have middle := sound.cache.store ((k.disk (BBLOCK b k.sb.ninodes)).setBit (b % BPB))
    (BBLOCK_ne_one b _) fun i inside => (sound.alloc_apart free i inside).1
  refine middle.store _ (by omega) fun i inside => ?_
  rw [store_sb k _ (BBLOCK_ne_one b _)] at inside
  exact (sound.alloc_apart free i inside).2

theorem Sound.alloc_freeData : (k.alloc b).freeData = rest := by
  have sorted := k.freeData_sorted
  rw [free, List.pairwise_cons] at sorted
  have step : (k.alloc b).freeData = k.freeData.filter fun x => !decide (x = b) := by
    rw [freeData, freeData, sound.alloc_sb free, List.filter_filter]
    refine List.filter_congr fun x member => ?_
    have inside : x < k.sb.size := by
      have := List.mem_range'_1.mp member
      have := k.sb.logStart_le
      omega
    rw [sound.alloc_used free inside, Bool.not_or]
  rw [step, free, List.filter_cons_of_neg (by simp), List.filter_eq_self]
  intro x later
  have := sorted.1 x later
  simpa using (by omega : x ≠ b)

end Alloc

def storeEntry (k : Kernel) (a : Nat) (j : Fin NINDIRECT) (b : Nat) : Kernel :=
  k.store a ((k.disk a).setNum (4 * j) 4 b)

/-- Slot `s` of the inode at `ip` receives the block `b`. -/
def grow (k : Kernel) (ip : InodePtr) (s : Slot) (b : Nat) : Kernel :=
  match s with
  | .top j => (k.alloc b).setDin ip ((k.icache ip).din.setAddr j b)
  | .ind j => (k.alloc b).storeEntry (k.vol.addr (k.icache ip).inum (.top INDIRECT)) j b
  | .mid j => (k.alloc b).storeEntry (k.vol.addr (k.icache ip).inum (.top DINDIRECT)) j b
  | .leaf j l => (k.alloc b).storeEntry (k.vol.addr (k.icache ip).inum (.mid j)) l b

theorem grow_of_parent {k : Kernel} {ip : InodePtr} {s p : Slot} {j : Fin NINDIRECT} {b : Nat}
    (above : s.parent = some (p, j)) :
    k.grow ip s b = (k.alloc b).storeEntry (k.vol.addr (k.icache ip).inum p) j b := by
  cases s with
  | top j => cases above
  | ind j | mid j | leaf j l => cases above; rfl

section Grow

variable {k : Kernel} (sound : k.Sound) {b : Nat} {rest : List Nat} (free : k.freeData = b :: rest)

include sound free

theorem Sound.alloc_fresh : (k.alloc b).vol.Fresh b where
  real := sound.free_real free
  small := by
    have size : k.sb.size < 256 ^ 4 := Bytes.num_lt ..
    have := free_head free
    have := k.sb.logStart_le
    omega
  blank := k.alloc_disk_self b
  absent i s := by
    rw [(sound.alloc_slots free).1]
    exact sound.own.fresh (by simp [(free_head free).2.2]) (sound.free_real free) i s

theorem Sound.alloc_own : (k.alloc b).vol.Owned (fun x => k.used x = true) k.sb.dataStart
    k.sb.logStart := sound.own.congr (sound.alloc_slots free).1

variable {ip : InodePtr} {s : Slot}
  (reach : ∀ p j, s.parent = some (p, j) → k.vol.addr (k.icache ip).inum p ≠ 0)

include reach

omit free in
/-- Where the new block number went: into the cached inode, or into an index
block of the data region. -/
theorem Sound.grow_cases : (∃ j, s = .top j ∧
      k.grow ip s b = (k.alloc b).setDin ip ((k.icache ip).din.setAddr j b)) ∨
    ∃ p j, s.parent = some (p, j) ∧ k.sb.dataStart ≤ k.vol.addr (k.icache ip).inum p ∧
      k.grow ip s b = (k.alloc b).storeEntry (k.vol.addr (k.icache ip).inum p) j b := by
  cases above : s.parent with
  | none =>
    cases s with
    | top j => exact .inl ⟨j, rfl, rfl⟩
    | ind j => cases above
    | mid j => cases above
    | leaf j l => cases above
  | some place =>
    obtain ⟨p, j⟩ := place
    exact .inr ⟨p, j, rfl, (sound.own.region _ p (reach p j above)).1, grow_of_parent above⟩

theorem Sound.grow_sb : (k.grow ip s b).sb = k.sb := by
  rcases sound.grow_cases reach with ⟨j, _, same⟩ | ⟨p, j, _, high, same⟩
  · rw [same]
    exact sound.alloc_sb free
  · rw [same, storeEntry, store_high_sb, sound.alloc_sb free]
    · rw [sound.alloc_sb free]
      exact sound.valid
    · rwa [sound.alloc_sb free]

theorem Sound.grow_used {x : Nat} (inside : x < k.sb.size) :
    (k.grow ip s b).used x = (decide (x = b) || k.used x) := by
  rw [← sound.alloc_used free inside]
  rcases sound.grow_cases reach with ⟨j, _, same⟩ | ⟨p, j, _, high, same⟩
  · rw [same]
    rfl
  · rw [same, storeEntry, store_high_used]
    · rw [sound.alloc_sb free]
      exact sound.valid
    · rwa [sound.alloc_sb free]
    · rwa [sound.alloc_sb free]

theorem Sound.grow_onDisk {i : Nat} (inside : i < k.sb.ninodes) :
    (k.grow ip s b).onDisk i = k.onDisk i := by
  rw [← sound.alloc_onDisk free inside]
  rcases sound.grow_cases reach with ⟨j, _, same⟩ | ⟨p, j, _, high, same⟩
  · rw [same]
    rfl
  · rw [same, storeEntry, onDisk_store]
    exact high_apart sound.valid high i inside

theorem Sound.grow_freeData : (k.grow ip s b).freeData = rest := by
  rw [← sound.alloc_freeData free]
  rcases sound.grow_cases reach with ⟨j, _, same⟩ | ⟨p, j, _, high, same⟩
  · rw [same]
    rfl
  · rw [same, storeEntry, store_high_freeData]
    · rw [sound.alloc_sb free]
      exact sound.valid
    · rwa [sound.alloc_sb free]

variable (held : k.Held ip)

include held

theorem Sound.grow_vol : (k.grow ip s b).vol = (k.alloc b).vol.assign (k.icache ip).inum s b := by
  cases above : s.parent with
  | none =>
    cases s with
    | top j =>
      have held' : (k.alloc b).Held ip := ⟨held.ref, held.valid⟩
      have node := (sound.alloc_cache free).node_setDin held' ((k.icache ip).din.setAddr j b)
      have old : (k.alloc b).vol.node (k.icache ip).inum = (k.icache ip).din :=
        (sound.alloc_cache free).node_held held'
      rw [vol, grow, node, Volume.assign, Volume.setTop, old]
      rfl
    | ind j => cases above
    | mid j => cases above
    | leaf j l => cases above
  | some place =>
    obtain ⟨p, j⟩ := place
    have high : (k.alloc b).sb.dataStart ≤ k.vol.addr (k.icache ip).inum p := by
      rw [sound.alloc_sb free]
      exact (sound.own.region _ p (reach p j above)).1
    have valid : (k.alloc b).sb.Valid := by
      rw [sound.alloc_sb free]
      exact sound.valid
    rw [grow_of_parent above, Volume.assign_of_parent above, storeEntry,
      store_high_vol valid _ high, (sound.alloc_slots free).1]
    rfl

variable (empty : k.vol.addr (k.icache ip).inum s = 0)

include empty

omit held in
theorem Sound.alloc_ready : (k.alloc b).vol.addr (k.icache ip).inum s = 0 ∧
    ∀ p j, s.parent = some (p, j) → (k.alloc b).vol.addr (k.icache ip).inum p ≠ 0 := by
  rw [(sound.alloc_slots free).1]
  exact ⟨empty, reach⟩

theorem Sound.grow_addr (i : Nat) (t : Slot) : (k.grow ip s b).vol.addr i t =
    if i = (k.icache ip).inum ∧ t = s then b else k.vol.addr i t := by
  obtain ⟨empty', reach'⟩ := sound.alloc_ready free reach empty
  rw [sound.grow_vol free reach held, Volume.addr_assign (sound.alloc_fresh free) empty'
    (sound.alloc_own free) reach', (sound.alloc_slots free).1]

theorem Sound.grow_body : (k.grow ip s b).vol.body = k.vol.body := by
  obtain ⟨empty', reach'⟩ := sound.alloc_ready free reach empty
  rw [sound.grow_vol free reach held, ← (sound.alloc_slots free).2]
  exact funext₂ fun i bn => Volume.body_assign (sound.alloc_fresh free) empty'
    (sound.alloc_own free) reach' i bn

theorem Sound.grow_cache : (k.grow ip s b).CacheOk := by
  rcases sound.grow_cases reach with ⟨j, top, same⟩ | ⟨p, j, _, high, same⟩
  · rw [same]
    have inside := sound.cache.table ip held.ref
    have old := sound.cache.behind ip held.ref held.valid
    have fits := sound.cache.fits ip held.ref held.valid
    have zero : (k.icache ip).din.addrs j = 0 := by
      rw [Volume.addr, top] at empty
      exact (sound.cache.node_held held) ▸ empty
    refine (sound.alloc_cache free).setDin ⟨held.ref, held.valid⟩ ?_ ?_
    · refine ⟨fits.type, fits.major, fits.minor, fits.nlink, fits.size, fun q => ?_⟩
      by_cases place : q = j
      · rw [place, Dinode.setAddr_addrs_self]
        exact (sound.alloc_fresh free).small
      · rw [Dinode.setAddr_addrs_of_ne _ _ place]
        exact fits.addrs q
    · have disk := sound.alloc_onDisk free inside
      refine disk ▸ ⟨old.type, old.major, old.minor, old.nlink, old.size, fun q => ?_⟩
      by_cases place : q = j
      · have none := old.addrs q
        rw [place, zero] at none
        rw [place]
        exact .inr (none.elim id id)
      · rw [Dinode.setAddr_addrs_of_ne _ _ place]
        exact old.addrs q
  · rw [same]
    refine (sound.alloc_cache free).store_high ?_ _ ?_
    · rw [sound.alloc_sb free]
      exact sound.valid
    · rwa [sound.alloc_sb free]

theorem Sound.grow : (k.grow ip s b).Sound where
  valid := by
    rw [sound.grow_sb free reach]
    exact sound.valid
  cache := sound.grow_cache free reach held empty
  own := by
    have head := free_head free
    obtain ⟨empty', reach'⟩ := sound.alloc_ready free reach empty
    have own := Volume.owned_assign (sound.alloc_fresh free) empty' (sound.alloc_own free) reach'
      head.1 head.2.1 (by simp [head.2.2])
    rw [← sound.grow_vol free reach held] at own
    rw [sound.grow_sb free reach]
    refine own.mono (fun _ _ => .inl rfl) fun i t real used => ?_
    have := own.region i t real
    have := k.sb.logStart_le
    rw [sound.grow_used free reach (by omega)]
    simpa using used
  system x low := by
    rw [sound.grow_sb free reach] at low
    have := k.sb.logStart_le
    have := sound.valid.order
    rw [sound.grow_used free reach (by omega), sound.system x low, Bool.or_true]

end Grow

/-- Everything but disk contents, log header and inode cache is the same. -/
structure SameRest (k k' : Kernel) : Prop where
  holder : k'.holder = k.holder
  owner : k'.log.owner = k.log.owner
  logSize : k'.log.size = k.log.size
  ftable : k'.ftable = k.ftable
  procs : k'.procs = k.procs
  devsw : k'.devsw = k.devsw

theorem SameRest.refl (k : Kernel) : SameRest k k := ⟨rfl, rfl, rfl, rfl, rfl, rfl⟩

theorem SameRest.trans {k k' k'' : Kernel} (first : SameRest k k') (second : SameRest k' k'') :
    SameRest k k'' :=
  ⟨second.holder.trans first.holder, second.owner.trans first.owner,
    second.logSize.trans first.logSize, second.ftable.trans first.ftable,
    second.procs.trans first.procs, second.devsw.trans first.devsw⟩

theorem SameRest.store (k : Kernel) (x : Nat) (data : Block) : SameRest k (k.store x data) :=
  ⟨rfl, rfl, rfl, rfl, rfl, rfl⟩

/-- Slots of the inode at `ip` may have received blocks and its blocks new
contents; everything else is as before. -/
structure Extends (ip : InodePtr) (k k' : Kernel) : Prop where
  sb : k'.sb = k.sb
  sound : k'.Sound
  entry : ∃ addrs, k'.icache = Function.update k.icache ip
    { k.icache ip with din := { (k.icache ip).din with addrs := addrs } }
  onDisk : ∀ i < k.sb.ninodes, k'.onDisk i = k.onDisk i
  rest : SameRest k k'

namespace Extends

variable {k k' k'' : Kernel} {ip : InodePtr}

theorem refl (sound : k.Sound) : Extends ip k k where
  sb := rfl
  sound := sound
  entry := ⟨_, (Function.update_eq_self ..).symm⟩
  onDisk _ _ := rfl
  rest := .refl k

variable (ext : Extends ip k k')

include ext

theorem icache_self : ∃ addrs, k'.icache ip =
    { k.icache ip with din := { (k.icache ip).din with addrs := addrs } } := by
  obtain ⟨addrs, same⟩ := ext.entry
  exact ⟨addrs, by rw [same, Function.update_self]⟩

theorem inum : (k'.icache ip).inum = (k.icache ip).inum := by
  obtain ⟨addrs, same⟩ := ext.icache_self
  rw [same]

theorem held (held : k.Held ip) : k'.Held ip := by
  obtain ⟨addrs, same⟩ := ext.icache_self
  constructor
  · rw [same]
    exact held.ref
  · rw [same]
    exact held.valid

theorem idle {E : Halt → Kernel → Prop} {sectors : Nat → Prop}
    (idle : Idle E k sectors) : Idle E k' sectors := by
  unfold Idle
  rw [ext.rest.holder]
  exact idle

theorem inTrans {E : Halt → Kernel → Prop} (open' : Trans E k) : Trans E k' := by
  unfold Trans
  rw [ext.rest.owner]
  exact open'

theorem trans (second : Extends ip k' k'') : Extends ip k k'' where
  sb := second.sb.trans ext.sb
  sound := second.sound
  entry := by
    obtain ⟨addrs, same⟩ := ext.entry
    obtain ⟨addrs', same'⟩ := second.entry
    exact ⟨addrs', by rw [same', same, Function.update_idem, Function.update_self]⟩
  onDisk i inside := by
    have inside' : i < k'.sb.ninodes := by rwa [ext.sb]
    exact (second.onDisk i inside').trans (ext.onDisk i inside)
  rest := ext.rest.trans second.rest

end Extends

theorem Sound.extends_grow {k : Kernel} (sound : k.Sound) {b : Nat} {rest : List Nat}
    (free : k.freeData = b :: rest) {ip : InodePtr} (held : k.Held ip) {s : Slot}
    (reach : ∀ p j, s.parent = some (p, j) → k.vol.addr (k.icache ip).inum p ≠ 0)
    (empty : k.vol.addr (k.icache ip).inum s = 0) : Extends ip k (k.grow ip s b) where
  sb := sound.grow_sb free reach
  sound := sound.grow free reach held empty
  entry := by
    rcases sound.grow_cases reach with ⟨j, _, same⟩ | ⟨p, j, _, _, same⟩
    · rw [same]
      exact ⟨_, rfl⟩
    · rw [same]
      exact ⟨_, (Function.update_eq_self ..).symm⟩
  onDisk i inside := sound.grow_onDisk free reach inside
  rest := by
    rcases sound.grow_cases reach with ⟨j, _, same⟩ | ⟨p, j, _, _, same⟩
    · rw [same]
      exact ⟨rfl, rfl, rfl, rfl, rfl, rfl⟩
    · rw [same]
      exact ⟨rfl, rfl, rfl, rfl, rfl, rfl⟩

/-- New contents for a data block of the inode. -/
theorem Sound.extends_write {k : Kernel} (sound : k.Sound) {i bn : Nat} {s : Slot}
    (found : Slot.ofBlock bn = some s) (real : k.vol.addr i s ≠ 0) (data : Block)
    (ip : InodePtr) : Extends ip k (k.store (k.vol.addr i s) data) := by
  have high := (sound.own.region i s real).1
  have vol := store_high_vol sound.valid data high
  have sb := store_high_sb sound.valid data high
  have addr : (k.store (k.vol.addr i s) data).vol.addr = k.vol.addr := by
    rw [vol]
    exact funext₂ fun i' t => Volume.addr_write data
      (fun p index _ => sound.own.data_ne_index found index real) t
  have used (x : Nat) (inside : x < k.sb.size) :=
    store_high_used (k := k) sound.valid data high inside
  refine ⟨sb, ⟨sb ▸ sound.valid, sound.cache.store_high sound.valid data high, ?_, fun x low => ?_⟩,
    ⟨_, (Function.update_eq_self ..).symm⟩,
    fun i' inside => onDisk_store k data (high_apart sound.valid high i' inside), .store k _ data⟩
  · rw [sb]
    refine sound.own.mono (fun i' t => .inl (by rw [addr])) fun i' t real marked => ?_
    rw [addr] at real
    have := sound.own.region i' t real
    have := k.sb.logStart_le
    rw [used _ (by omega)]
    exact marked
  · rw [sb] at low
    have := k.sb.logStart_le
    have := sound.valid.order
    rw [used x (by omega)]
    exact sound.system x low

def ensure (ip : InodePtr) (k : Kernel) (s : Slot) : Kernel :=
  if k.vol.addr (k.icache ip).inum s ≠ 0 then k
  else
    match k.freeData with
    | [] => k
    | b :: _ => k.grow ip s b

section Ensure

variable {k : Kernel} (sound : k.Sound) {ip : InodePtr} (held : k.Held ip) {s : Slot}
  (reach : ∀ p j, s.parent = some (p, j) → k.vol.addr (k.icache ip).inum p ≠ 0)
  (nonempty : k.vol.addr (k.icache ip).inum s = 0 → k.freeData ≠ [])

include nonempty

theorem ensure_cases : (k.vol.addr (k.icache ip).inum s ≠ 0 ∧ k.ensure ip s = k) ∨
      ∃ b rest, k.vol.addr (k.icache ip).inum s = 0 ∧ k.freeData = b :: rest ∧
        k.ensure ip s = k.grow ip s b := by
  unfold ensure
  by_cases empty : k.vol.addr (k.icache ip).inum s = 0
  · rw [if_neg (not_not_intro empty)]
    cases list : k.freeData with
    | nil => exact absurd list (nonempty empty)
    | cons b rest => exact .inr ⟨b, rest, empty, rfl, rfl⟩
  · rw [if_pos empty]
    exact .inl ⟨empty, rfl⟩

include sound held reach

theorem Sound.ensure_extends : Extends ip k (k.ensure ip s) := by
  rcases ensure_cases nonempty with ⟨_, same⟩ | ⟨b, rest, empty, free, same⟩
  · rw [same]
    exact .refl sound
  · rw [same]
    exact sound.extends_grow free held reach empty

theorem Sound.ensure_body : (k.ensure ip s).vol.body = k.vol.body := by
  rcases ensure_cases nonempty with ⟨_, same⟩ | ⟨b, rest, empty, free, same⟩
  · rw [same]
  · rw [same]
    exact sound.grow_body free reach held empty

theorem Sound.ensure_real : (k.ensure ip s).vol.addr (k.icache ip).inum s ≠ 0 := by
  rcases ensure_cases nonempty with ⟨real, same⟩ | ⟨b, rest, empty, free, same⟩
  · rwa [same]
  · rw [same, sound.grow_addr free reach held empty, if_pos ⟨rfl, rfl⟩]
    exact sound.free_real free

omit held in
theorem Sound.ensure_free : k.freeData.length ≤ (k.ensure ip s).freeData.length + 1 := by
  rcases ensure_cases nonempty with ⟨_, same⟩ | ⟨b, rest, empty, free, same⟩
  · rw [same]
    omega
  · rw [same, sound.grow_freeData free reach, free, List.length_cons]

end Ensure

end SirpairOs.Kernel
