import SirpairOs.Fs.Param

/-! The on-disk format of `include/fs.h`: superblock, inodes, directory entries
and the macros that place them. -/
namespace SirpairOs

def toShort (bits : Nat) : Int := if bits < 2 ^ 15 then bits else bits - 2 ^ 16

def ofShort (value : Int) : Nat := (value % 2 ^ 16).toNat

/-- What a `short` holds after an assignment. -/
def wrapShort (value : Int) : Int := toShort (ofShort value)

/-- `(ninodes + IPB - 1) / IPB`. -/
def NINODEBLOCKS (ninodes : Nat) : Nat := (ninodes + IPB - 1) / IPB

def IBLOCK (i : Nat) : Nat := i / IPB + 2

def BBLOCK (b ninodes : Nat) : Nat := b / BPB + NINODEBLOCKS ninodes + 3

structure Superblock where
  /-- Size of file system image (blocks). -/
  size : Nat
  /-- Number of data blocks. -/
  nblocks : Nat
  /-- Number of inodes. -/
  ninodes : Nat
  /-- Number of log blocks. -/
  nlog : Nat
  deriving DecidableEq, Repr

namespace Superblock

def decode (b : Block) : Superblock := ⟨b.num 0 4, b.num 4 4, b.num 8 4, b.num 12 4⟩

def encode (sb : Superblock) : Block :=
  Bytes.zero.setNums 0 4 [sb.size, sb.nblocks, sb.ninodes, sb.nlog]

/-- First block of the data region, as `fillstatfs` computes it. -/
def dataStart (sb : Superblock) : Nat := sb.size - sb.nlog - sb.nblocks

/-- First block of the log area, as `initlog` computes it. -/
def logStart (sb : Superblock) : Nat := sb.size - sb.nlog

end Superblock

/-- `struct dinode`, which is also the copy that `struct inode` keeps. -/
structure Dinode where
  type : Int
  major : Int
  minor : Int
  nlink : Int
  size : Nat
  addrs : Fin (NDIRECT + 2) → Nat
  deriving DecidableEq

/-- The index of the indirect block, `addrs[NDIRECT]`. -/
def INDIRECT : Fin (NDIRECT + 2) := ⟨NDIRECT, by decide⟩

/-- The index of the double-indirect block, `addrs[NDIRECT+1]`. -/
def DINDIRECT : Fin (NDIRECT + 2) := ⟨NDIRECT + 1, by decide⟩

def T_DIR : Int := 1
def T_FILE : Int := 2
def T_DEV : Int := 3

namespace Dinode

def zero : Dinode := ⟨0, 0, 0, 0, 0, fun _ => 0⟩

/-- Slot `k` of an inode block. -/
def decode (b : Block) (k : Nat) : Dinode where
  type := toShort (b.num (64 * k) 2)
  major := toShort (b.num (64 * k + 2) 2)
  minor := toShort (b.num (64 * k + 4) 2)
  nlink := toShort (b.num (64 * k + 6) 2)
  size := b.num (64 * k + 8) 4
  addrs j := b.num (64 * k + 12 + 4 * j) 4

def encode (b : Block) (k : Nat) (din : Dinode) : Block :=
  (((b.setNums (64 * k) 2 [ofShort din.type, ofShort din.major, ofShort din.minor,
    ofShort din.nlink]).setNum (64 * k + 8) 4 din.size).setNums (64 * k + 12) 4
    (List.ofFn din.addrs))

structure Fits (din : Dinode) : Prop where
  type : wrapShort din.type = din.type
  major : wrapShort din.major = din.major
  minor : wrapShort din.minor = din.minor
  nlink : wrapShort din.nlink = din.nlink
  size : din.size < 2 ^ 32
  addrs : ∀ j, din.addrs j < 2 ^ 32

end Dinode

theorem ofShort_lt (value : Int) : ofShort value < 2 ^ 16 := by
  unfold ofShort
  omega

theorem ofShort_toShort {bits : Nat} (small : bits < 2 ^ 16) : ofShort (toShort bits) = bits := by
  unfold ofShort toShort
  split <;> omega

theorem wrapShort_toShort {bits : Nat} (small : bits < 2 ^ 16) :
    wrapShort (toShort bits) = toShort bits := by
  rw [wrapShort, ofShort_toShort small]

namespace Dinode

variable (b : Block)

theorem decode_fits (k : Nat) : (decode b k).Fits where
  type := wrapShort_toShort (b.num_lt _ 2)
  major := wrapShort_toShort (b.num_lt _ 2)
  minor := wrapShort_toShort (b.num_lt _ 2)
  nlink := wrapShort_toShort (b.num_lt _ 2)
  size := b.num_lt _ 4
  addrs _ := b.num_lt _ 4

theorem decode_encode_ne (din : Dinode) {k k' : Nat} (apart : k' ≠ k) :
    decode (encode b k din) k' = decode b k' := by
  have keep (off len : Nat) (low : 64 * k' ≤ off) (high : off + len ≤ 64 * k' + 64) :
      (encode b k din).num off len = b.num off len := by
    have away : off + len ≤ 64 * k ∨ 64 * k + 64 ≤ off := by omega
    rw [encode, Bytes.num_setNums_outside _ _ _ _ _ _ (by
      rw [List.length_ofFn]; unfold NDIRECT; omega), Bytes.num_setNum_disjoint _ _ _ _ _ _ (by omega),
      Bytes.num_setNums_outside _ _ _ _ _ _ (by simp only [List.length_cons, List.length_nil]; omega)]
  have bound (j : Fin (NDIRECT + 2)) : (j : Nat) < 13 := j.isLt
  simp only [decode, mk.injEq]
  refine ⟨?_, ?_, ?_, ?_, ?_, ?_⟩
  · rw [keep _ _ (by omega) (by omega)]
  · rw [keep _ _ (by omega) (by omega)]
  · rw [keep _ _ (by omega) (by omega)]
  · rw [keep _ _ (by omega) (by omega)]
  · rw [keep _ _ (by omega) (by omega)]
  · funext j
    have := bound j
    rw [keep _ _ (by omega) (by omega)]

theorem decode_encode_same (din : Dinode) {k : Nat} (slot : k < IPB)
    (fits : din.Fits) : decode (encode b k din) k = din := by
  have room : 64 * k + 64 ≤ 512 := by unfold IPB at slot; omega
  have short (i : Nat) (inside : i < 4) (value : Int)
      (entry : [ofShort din.type, ofShort din.major, ofShort din.minor, ofShort din.nlink][i]? =
        some (ofShort value)) (wraps : wrapShort value = value) :
      toShort ((encode b k din).num (64 * k + 2 * i) 2) = value := by
    rw [encode, Bytes.num_setNums_outside _ _ _ _ _ _ (by omega),
      Bytes.num_setNum_disjoint _ _ _ _ _ _ (by omega),
      Bytes.num_setNums_inside _ _ _ _ _ (by simpa using inside)
        (by simp only [List.length_cons, List.length_nil]; omega)]
    rw [List.getElem?_eq_getElem (by simpa using inside)] at entry
    rw [Option.some.inj entry, Nat.mod_eq_of_lt (show _ < 256 ^ 2 from ofShort_lt value)]
    exact wraps
  have size : (encode b k din).num (64 * k + 8) 4 = din.size := by
    rw [encode, Bytes.num_setNums_outside _ _ _ _ _ _ (by omega),
      Bytes.num_setNum_same _ _ _ _ (by omega)]
    exact Nat.mod_eq_of_lt fits.size
  have addr (j : Fin (NDIRECT + 2)) :
      (encode b k din).num (64 * k + 12 + 4 * j) 4 = din.addrs j := by
    rw [encode, Bytes.num_setNums_inside _ _ _ _ _ (by rw [List.length_ofFn]; exact j.isLt)
      (by rw [List.length_ofFn]; unfold NDIRECT; omega), List.getElem_ofFn]
    exact Nat.mod_eq_of_lt (fits.addrs j)
  cases din with
  | mk type major minor nlink sz addrs =>
    simp only [decode, mk.injEq]
    exact ⟨short 0 (by omega) type rfl fits.type, short 1 (by omega) major rfl fits.major,
      short 2 (by omega) minor rfl fits.minor, short 3 (by omega) nlink rfl fits.nlink, size,
      funext addr⟩

end Dinode

def cstr (chars : List UInt8) : List UInt8 := chars.takeWhile fun c => c ≠ 0

/-- The bytes `strncpy(dst, src, n)` stores. -/
def strncpy (src : List UInt8) (n : Nat) : List UInt8 :=
  (cstr src).take n ++ List.replicate (n - (cstr src).length) 0

/-- `strncmp(s, t, DIRSIZ) == 0`. -/
def namecmp (s t : List UInt8) : Bool := cstr (s.take DIRSIZ) = cstr (t.take DIRSIZ)

structure Dirent where
  inum : Nat
  name : List UInt8
  deriving DecidableEq, Repr

namespace Dirent

/-- `sizeof(struct dirent)`. -/
def SIZE : Nat := 16

def decode (bytes : List UInt8) : Dirent := ⟨Bytes.leNat (bytes.take 2), bytes.drop 2⟩

/-- The stored `ushort` and name. -/
def encode (de : Dirent) : List UInt8 := Bytes.leBytes 2 de.inum ++ strncpy de.name DIRSIZ

/-- `memset(&de, 0, sizeof(de))`. -/
def empty : Dirent := ⟨0, []⟩

end Dirent

end SirpairOs
