import SirpairOs.Fs.BlockSpec
import SirpairOs.Fs.Slots

/-! The inode cache on top of the disk: the current copy of an inode is the
cached one if it is valid, else the one on disk. -/
namespace SirpairOs

/-- The copy on disk may lack block numbers that only the cached one has. -/
structure Dinode.Behind (mem disk : Dinode) : Prop where
  type : disk.type = mem.type
  major : disk.major = mem.major
  minor : disk.minor = mem.minor
  nlink : disk.nlink = mem.nlink
  size : disk.size = mem.size
  addrs : ∀ j, disk.addrs j = mem.addrs j ∨ disk.addrs j = 0

theorem Dinode.Behind.refl (din : Dinode) : din.Behind din :=
  ⟨rfl, rfl, rfl, rfl, rfl, fun _ => .inl rfl⟩

namespace Kernel

def onDisk (k : Kernel) (i : Nat) : Dinode := Dinode.decode (k.disk (IBLOCK i)) (i % IPB)

/-- The current copy of inode `i`; there is none outside the inode table. -/
def node (k : Kernel) (i : Nat) : Dinode :=
  if k.sb.ninodes ≤ i then Dinode.zero
  else
    match KOp.cached k i with
    | some ip => if (k.icache ip).valid then (k.icache ip).din else k.onDisk i
    | none => k.onDisk i

def vol (k : Kernel) : Volume := ⟨k.disk, k.node⟩

def setDin (k : Kernel) (ip : InodePtr) (din : Dinode) : Kernel :=
  k.setInode ip fun e => { e with din := din }

/-- The cached inodes are different inodes of the table, and up to block numbers
they are as on disk. -/
structure CacheOk (k : Kernel) : Prop where
  unique : ∀ p q, 0 < (k.icache p).ref → 0 < (k.icache q).ref →
    (k.icache p).inum = (k.icache q).inum → p = q
  table : ∀ p, 0 < (k.icache p).ref → (k.icache p).inum < k.sb.ninodes
  fits : ∀ p, 0 < (k.icache p).ref → (k.icache p).valid = true → (k.icache p).din.Fits
  behind : ∀ p, 0 < (k.icache p).ref → (k.icache p).valid = true →
    (k.icache p).din.Behind (k.onDisk (k.icache p).inum)

structure Held (k : Kernel) (ip : InodePtr) : Prop where
  ref : 0 < (k.icache ip).ref
  valid : (k.icache ip).valid = true

variable {k : Kernel} {i x : Nat} {ip : InodePtr}

theorem cached_eq_some (found : KOp.cached k i = some ip) :
    0 < (k.icache ip).ref ∧ (k.icache ip).inum = i := by
  have test := List.find?_some found
  simpa using test

theorem cached_eq_none (found : KOp.cached k i = none) (ip : InodePtr) (ref : 0 <
    (k.icache ip).ref) : (k.icache ip).inum ≠ i := by
  have test := List.find?_eq_none.mp found ip (List.mem_finRange ip)
  simpa [ref] using test

theorem CacheOk.cached (ok : k.CacheOk) (ref : 0 < (k.icache ip).ref) :
    KOp.cached k (k.icache ip).inum = some ip := by
  cases found : KOp.cached k (k.icache ip).inum with
  | none => exact absurd rfl (cached_eq_none found ip ref)
  | some q =>
    obtain ⟨live, same⟩ := cached_eq_some found
    rw [ok.unique q ip live ref same]

theorem node_outside (outside : k.sb.ninodes ≤ i) : k.node i = Dinode.zero := if_pos outside

theorem CacheOk.node_eq (ok : k.CacheOk) (ref : 0 < (k.icache ip).ref) : k.node (k.icache ip).inum =
      if (k.icache ip).valid then (k.icache ip).din else k.onDisk (k.icache ip).inum := by
  have inside := ok.table ip ref
  rw [node, if_neg (by omega), ok.cached ref]

theorem CacheOk.node_held (ok : k.CacheOk) (held : k.Held ip) :
    k.node (k.icache ip).inum = (k.icache ip).din := by
  rw [ok.node_eq held.ref, if_pos held.valid]

theorem node_uncached (inside : i < k.sb.ninodes)
    (absent : ∀ ip, 0 < (k.icache ip).ref → (k.icache ip).inum ≠ i) : k.node i = k.onDisk i := by
  rw [node, if_neg (by omega)]
  cases found : KOp.cached k i with
  | none => rfl
  | some ip =>
    obtain ⟨live, same⟩ := cached_eq_some found
    exact absurd same (absent ip live)

/-- An inode of the table is cached and valid, or its current copy is the one on
disk. -/
theorem node_cases (k : Kernel) (inside : i < k.sb.ninodes) :
    (∃ ip, k.Held ip ∧ (k.icache ip).inum = i ∧ k.node i = (k.icache ip).din) ∨
      k.node i = k.onDisk i := by
  rw [node, if_neg (by omega)]
  cases found : KOp.cached k i with
  | none => exact .inr rfl
  | some ip =>
    obtain ⟨live, same⟩ := cached_eq_some found
    by_cases valid : (k.icache ip).valid = true
    · exact .inl ⟨ip, ⟨live, valid⟩, same, if_pos valid⟩
    · exact .inr (if_neg valid)

theorem node_congr {k' : Kernel} (sb : k'.sb = k.sb) (cache : k'.icache = k.icache)
    (disk : i < k.sb.ninodes → k'.onDisk i = k.onDisk i) : k'.node i = k.node i := by
  have same : KOp.cached k' i = KOp.cached k i := by rw [KOp.cached, KOp.cached, cache]
  rw [node, node, sb, same, cache]
  split
  · rfl
  · rename_i inside
    rw [disk (by omega)]

theorem CacheOk.node_behind (ok : k.CacheOk) (inside : i < k.sb.ninodes) :
    (k.node i).Behind (k.onDisk i) := by
  rcases k.node_cases inside with ⟨ip, held, rfl, same⟩ | same
  · rw [same]
    exact ok.behind ip held.ref held.valid
  · rw [same]
    exact .refl _

theorem CacheOk.node_fits (ok : k.CacheOk) (inside : i < k.sb.ninodes) : (k.node i).Fits := by
  rcases k.node_cases inside with ⟨ip, held, rfl, same⟩ | same
  · rw [same]
    exact ok.fits ip held.ref held.valid
  · rw [same]
    exact Dinode.decode_fits _ _

theorem onDisk_store (k : Kernel) (data : Block) (apart : IBLOCK i ≠ x) :
    (k.store x data).onDisk i = k.onDisk i := by
  rw [onDisk, store_disk_of_ne k data apart, onDisk]

/-- Sectors outside the inode blocks do not matter to the cache. -/
theorem CacheOk.store (ok : k.CacheOk) (data : Block) (first : x ≠ 1)
    (apart : ∀ i < k.sb.ninodes, IBLOCK i ≠ x) : (k.store x data).CacheOk where
  unique := ok.unique
  table p live := by
    rw [store_sb k data first]
    exact ok.table p live
  fits := ok.fits
  behind p live valid := by
    have same := onDisk_store k data (apart _ (ok.table p live))
    exact same ▸ ok.behind p live valid

theorem node_store (data : Block) (first : x ≠ 1) (apart : ∀ i < k.sb.ninodes, IBLOCK i ≠ x) :
    (k.store x data).node = k.node :=
  funext fun i => node_congr (store_sb k data first) rfl fun inside =>
    onDisk_store k data (apart i inside)

/-- Only a write to an inode block changes a current copy. -/
theorem vol_store (data : Block) (first : x ≠ 1) (apart : ∀ i < k.sb.ninodes, IBLOCK i ≠ x) :
    (k.store x data).vol = k.vol.write x data := by
  rw [vol, node_store data first apart]
  rfl

@[simp] theorem setInode_icache_self (k : Kernel) (ip : InodePtr) (f : Inode → Inode) :
    (k.setInode ip f).icache ip = f (k.icache ip) := Function.update_self ..

theorem setInode_icache_of_ne (k : Kernel) {q : InodePtr} (f : Inode → Inode) (apart : q ≠ ip) :
    (k.setInode ip f).icache q = k.icache q := Function.update_of_ne apart ..

section SetInode

variable {k : Kernel} {ip : InodePtr} {f : Inode → Inode}
  (inum : (f (k.icache ip)).inum = (k.icache ip).inum)

include inum

theorem cached_setInode (live : 0 < (f (k.icache ip)).ref ↔ 0 < (k.icache ip).ref) (i : Nat) :
    KOp.cached (k.setInode ip f) i = KOp.cached k i := by
  unfold KOp.cached
  congr 1
  funext q
  by_cases same : q = ip
  · subst same
    simp only [setInode_icache_self, inum, live]
  · rw [setInode_icache_of_ne k f same]

/-- A change of a cache entry in use changes the current copy of its inode. -/
theorem CacheOk.node_setInode (ok : k.CacheOk) (ref : 0 < (k.icache ip).ref)
    (ref' : 0 < (f (k.icache ip)).ref) :
    (k.setInode ip f).node = Function.update k.node (k.icache ip).inum
      (if (f (k.icache ip)).valid then (f (k.icache ip)).din
        else k.onDisk (k.icache ip).inum) := by
  have inside := ok.table ip ref
  have sb : (k.setInode ip f).sb = k.sb := rfl
  funext i
  rw [node, sb, cached_setInode inum ⟨fun _ => ref, fun _ => ref'⟩]
  by_cases same : i = (k.icache ip).inum
  · subst same
    rw [if_neg (by omega), ok.cached ref, Function.update_self]
    simp only [setInode_icache_self]
    rfl
  · rw [Function.update_of_ne same, node]
    split
    · rfl
    cases found : KOp.cached k i with
    | none => rfl
    | some q =>
      have other : q ≠ ip := by
        rintro rfl
        exact same (cached_eq_some found).2.symm
      simp only [setInode_icache_of_ne k f other]
      rfl

theorem CacheOk.setInode (ok : k.CacheOk)
    (live : 0 < (f (k.icache ip)).ref → 0 < (k.icache ip).ref)
    (copy : 0 < (f (k.icache ip)).ref → (f (k.icache ip)).valid = true →
      (f (k.icache ip)).din.Fits ∧ (f (k.icache ip)).din.Behind (k.onDisk (k.icache ip).inum)) :
    (k.setInode ip f).CacheOk := by
  have old (q : InodePtr) (now : 0 < ((k.setInode ip f).icache q).ref) :
      0 < (k.icache q).ref ∧ ((k.setInode ip f).icache q).inum = (k.icache q).inum := by
    by_cases same : q = ip
    · subst same
      rw [setInode_icache_self] at now ⊢
      exact ⟨live now, inum⟩
    · rw [setInode_icache_of_ne k f same] at now ⊢
      exact ⟨now, rfl⟩
  refine ⟨fun p q left right same => ?_, fun q now => ?_, fun q now valid => ?_,
    fun q now valid => ?_⟩
  · rw [(old p left).2, (old q right).2] at same
    exact ok.unique p q (old p left).1 (old q right).1 same
  · rw [(old q now).2]
    exact ok.table q (old q now).1
  · by_cases same : q = ip
    · subst same
      rw [setInode_icache_self] at now valid ⊢
      exact (copy now valid).1
    · rw [setInode_icache_of_ne k f same] at now valid ⊢
      exact ok.fits q now valid
  · by_cases same : q = ip
    · subst same
      rw [setInode_icache_self] at now valid ⊢
      rw [inum]
      exact (copy now valid).2
    · rw [setInode_icache_of_ne k f same] at now valid ⊢
      exact ok.behind q now valid

end SetInode

theorem CacheOk.node_setDin {k : Kernel} (ok : k.CacheOk) {ip : InodePtr} (held : k.Held ip)
    (din : Dinode) : (k.setDin ip din).node = Function.update k.node (k.icache ip).inum din := by
  have same := ok.node_setInode (f := fun e => { e with din := din }) rfl held.ref held.ref
  simp only [held.valid, if_true] at same
  exact same

theorem CacheOk.setDin {k : Kernel} (ok : k.CacheOk) {ip : InodePtr} (held : k.Held ip)
    {din : Dinode} (fits : din.Fits) (behind : din.Behind (k.onDisk (k.icache ip).inum)) :
    (k.setDin ip din).CacheOk :=
  ok.setInode (f := fun e => { e with din := din }) rfl (fun _ => held.ref) fun _ _ => ⟨fits, behind⟩

end Kernel

end SirpairOs
