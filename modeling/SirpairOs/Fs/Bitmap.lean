import SirpairOs.Fs.Inode

/-! The block store below the inodes: superblock, free-block bitmap and the
effect of `log_write` on what the next `bread` sees. The rules of this file are
about the kernel with a log that has no capacity limit; the limit comes back as
a guard in front of every `log_write`. -/
namespace SirpairOs

namespace Kernel

/-- The super block `readsb` returns. -/
def sb (k : Kernel) : Superblock := Superblock.decode (k.disk 1)

/-- Is block `b` marked in use in the bitmap? -/
def used (k : Kernel) (b : Nat) : Bool := (k.disk (BBLOCK b k.sb.ninodes)).bit (b % BPB)

def store (k : Kernel) (s : Nat) (data : Block) : Kernel :=
  { k with
    disk := Function.update k.disk s data
    log := { k.log with lh := KOp.absorb k.log.lh s } }

def hold (k : Kernel) (pid s : Nat) : Kernel :=
  { k with holder := Function.update k.holder s (some pid) }

def unhold (k : Kernel) (s : Nat) : Kernel :=
  { k with holder := Function.update k.holder s none }

def alloc (k : Kernel) (b : Nat) : Kernel :=
  (k.store (BBLOCK b k.sb.ninodes) ((k.disk (BBLOCK b k.sb.ninodes)).setBit (b % BPB))).store b
    Bytes.zero

def release (k : Kernel) (b : Nat) : Kernel :=
  k.store (BBLOCK b k.sb.ninodes) ((k.disk (BBLOCK b k.sb.ninodes)).clearBit (b % BPB))

def logLimit (k : Kernel) : Nat := min LOGSIZE (k.log.size - 1)

variable (k : Kernel)

@[simp] theorem hold_holder_self (pid s : Nat) :
    (k.hold pid s).holder s = some pid := Function.update_self ..

variable (pid : Nat)

theorem hold_holder_of_ne {s x : Nat} (apart : x ≠ s) :
    (k.hold pid s).holder x = k.holder x := Function.update_of_ne apart ..

theorem unhold_hold {s : Nat} (free : k.holder s = none) : (k.hold pid s).unhold s = k := by
  have back : Function.update (k.hold pid s).holder s none = k.holder := by
    rw [hold, Function.update_idem, ← free, Function.update_eq_self]
  rw [unhold, back]
  rfl

theorem unhold_store_hold {s : Nat} (x : Nat) (data : Block)
    (free : k.holder s = none) : ((k.hold pid s).store x data).unhold s = k.store x data := by
  have swap : ((k.hold pid s).store x data).unhold s = ((k.hold pid s).unhold s).store x data := rfl
  rw [swap, unhold_hold k pid free]

@[simp] theorem store_disk_self (s : Nat) (data : Block) :
    (k.store s data).disk s = data := Function.update_self ..

variable (data : Block)

theorem store_disk_of_ne {s x : Nat} (apart : x ≠ s) :
    (k.store s data).disk x = k.disk x := Function.update_of_ne apart ..

theorem store_sb {s : Nat} (apart : s ≠ 1) : (k.store s data).sb = k.sb := by
  rw [sb, store_disk_of_ne k data (Ne.symm apart), sb]

theorem store_used {s b : Nat} (first : s ≠ 1) (apart : s ≠ BBLOCK b k.sb.ninodes) :
    (k.store s data).used b = k.used b := by
  rw [used, store_sb k data first, store_disk_of_ne k data (Ne.symm apart), used]

end Kernel

theorem BBLOCK_ne_one (b ninodes : Nat) : BBLOCK b ninodes ≠ 1 := by
  unfold BBLOCK BPB
  omega

theorem BBLOCK_eq_iff {b x ninodes : Nat} :
    BBLOCK x ninodes = BBLOCK b ninodes ↔ x / BPB = b / BPB := by
  unfold BBLOCK
  omega

theorem Superblock.logStart_le (sb : Superblock) : sb.logStart ≤ sb.size := Nat.sub_le ..

/-- The layout a disk must have: the inode and bitmap blocks lie below the data
region, and the data region below the log. -/
structure Superblock.Valid (sb : Superblock) : Prop where
  bitmap : ∀ b < sb.size, BBLOCK b sb.ninodes < sb.dataStart
  order : sb.dataStart ≤ sb.logStart
  /-- Inode numbers fit the `ushort` of a directory entry. -/
  ninodes : sb.ninodes ≤ 2 ^ 16
  nonempty : 0 < sb.size

variable (b : Nat)

theorem IBLOCK_lt_BBLOCK {i ninodes : Nat} (inside : i < ninodes) :
    IBLOCK i < BBLOCK b ninodes := by
  unfold IBLOCK BBLOCK NINODEBLOCKS IPB BPB
  omega

namespace Superblock.Valid

variable {sb : Superblock} (valid : sb.Valid)

include valid

theorem three_lt_dataStart : 3 ≤ sb.dataStart := by
  have below := valid.bitmap 0 valid.nonempty
  unfold BBLOCK BPB at below
  omega

theorem IBLOCK_lt_dataStart {i : Nat} (inside : i < sb.ninodes) : IBLOCK i < sb.dataStart :=
  Nat.lt_trans (IBLOCK_lt_BBLOCK 0 inside) (valid.bitmap 0 valid.nonempty)

end Superblock.Valid

namespace Kernel

/-- One bit of the bitmap is combined with `true` by `op`. -/
theorem store_bitmap {k : Kernel} {b : Nat} {data : Block} (op : Bool → Bool → Bool)
    (same : ∀ bit, op false bit = bit) (bits : ∀ i, data.bit i =
      op (decide (i = b % BPB)) ((k.disk (BBLOCK b k.sb.ninodes)).bit i)) (x : Nat) :
    (k.store (BBLOCK b k.sb.ninodes) data).used x = op (decide (x = b)) (k.used x) := by
  rw [used, store_sb _ _ (BBLOCK_ne_one _ _)]
  by_cases block : x / BPB = b / BPB
  · rw [BBLOCK_eq_iff.mpr block, store_disk_self, bits, used, BBLOCK_eq_iff.mpr block]
    have equal : x % BPB = b % BPB ↔ x = b := by
      rw [Nat.ext_div_mod_iff BPB x b]
      exact ⟨fun rem => ⟨block, rem⟩, fun both => both.2⟩
    simp only [equal]
  · have other : x ≠ b := by
      rintro rfl
      exact block rfl
    rw [store_disk_of_ne _ _ (fun sector => block (BBLOCK_eq_iff.mp sector)), used]
    simp only [other, decide_false, same]

section Bitmap

variable {k : Kernel} {b : Nat} (valid : k.sb.Valid) (data : k.sb.dataStart ≤ b)

include valid data

theorem alloc_sb : (k.alloc b).sb = k.sb := by
  have low := valid.three_lt_dataStart
  rw [alloc, store_sb _ _ (by omega), store_sb _ _ (BBLOCK_ne_one _ _)]

theorem alloc_used {x : Nat} (inside : x < k.sb.size) :
    (k.alloc b).used x = (decide (x = b) || k.used x) := by
  have low := valid.three_lt_dataStart
  have apart := valid.bitmap x inside
  have same : (k.store (BBLOCK b k.sb.ninodes)
      ((k.disk (BBLOCK b k.sb.ninodes)).setBit (b % BPB))).sb = k.sb :=
    store_sb _ _ (BBLOCK_ne_one _ _)
  rw [alloc, store_used _ _ (by omega) (by rw [same]; omega)]
  exact store_bitmap (· || ·) Bool.false_or
    (fun i => Bytes.bit_setBit _ _ i (by unfold BPB; omega)) x

end Bitmap

variable (k : Kernel)

theorem alloc_disk_self : (k.alloc b).disk b = Bytes.zero :=
  store_disk_self ..

theorem alloc_disk_of_ne {b x : Nat} (data : x ≠ b)
    (bitmap : x ≠ BBLOCK b k.sb.ninodes) : (k.alloc b).disk x = k.disk x := by
  rw [alloc, store_disk_of_ne _ _ data, store_disk_of_ne _ _ bitmap]

theorem release_sb : (k.release b).sb = k.sb :=
  store_sb _ _ (BBLOCK_ne_one _ _)

theorem release_used (b x : Nat) : (k.release b).used x = (!decide (x = b) && k.used x) :=
  store_bitmap (fun hit bit => !hit && bit) Bool.true_and
    (fun i => Bytes.bit_clearBit _ _ i (by unfold BPB; omega)) x

theorem release_disk_of_ne {b x : Nat} (bitmap : x ≠ BBLOCK b k.sb.ninodes) :
    (k.release b).disk x = k.disk x := store_disk_of_ne _ _ bitmap

end Kernel

end SirpairOs
