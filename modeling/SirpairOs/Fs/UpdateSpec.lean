import SirpairOs.Fs.ContentSpec

/-! Inodes written back to disk: `iupdate`, alone and at the end of `writei`. -/
namespace SirpairOs

namespace Kernel

/-- `iupdate`: the cached inode is copied to its inode block. -/
def flush (k : Kernel) (ip : InodePtr) : Kernel :=
  k.store (IBLOCK (k.icache ip).inum)
    (Dinode.encode (k.disk (IBLOCK (k.icache ip).inum)) ((k.icache ip).inum % IPB)
      (k.icache ip).din)

def update (k : Kernel) (ip : InodePtr) (din : Dinode) : Kernel := (k.setDin ip din).flush ip

theorem IBLOCK_ne_one (i : Nat) : IBLOCK i ≠ 1 := by
  unfold IBLOCK IPB
  omega

section Update

variable {k : Kernel} {ip : InodePtr} {din : Dinode}

theorem update_eq : k.update ip din = (k.setDin ip din).store (IBLOCK (k.icache ip).inum)
    (Dinode.encode (k.disk (IBLOCK (k.icache ip).inum)) ((k.icache ip).inum % IPB) din) := by
  rw [update, flush]
  simp only [setDin, setInode_icache_self]
  rfl

theorem update_sb : (k.update ip din).sb = k.sb := by
  rw [update_eq, store_sb _ _ (IBLOCK_ne_one _)]
  rfl

theorem update_icache : (k.update ip din).icache =
    Function.update k.icache ip { k.icache ip with din := din } := by
  rw [update_eq]
  rfl

theorem update_onDisk (fits : din.Fits) (i : Nat) : (k.update ip din).onDisk i =
    if i = (k.icache ip).inum then din else k.onDisk i := by
  have slot (n : Nat) : n % IPB < IPB := Nat.mod_lt _ (by decide)
  rw [update_eq, onDisk]
  by_cases block : IBLOCK i = IBLOCK (k.icache ip).inum
  · rw [block, store_disk_self]
    by_cases same : i = (k.icache ip).inum
    · rw [if_pos same, same, Dinode.decode_encode_same _ _ (slot _) fits]
    · have place : i % IPB ≠ (k.icache ip).inum % IPB := by
        unfold IBLOCK IPB at block
        unfold IPB
        omega
      rw [if_neg same, Dinode.decode_encode_ne _ _ place, onDisk, block]
  · have other : i ≠ (k.icache ip).inum := by
      rintro rfl
      exact block rfl
    rw [store_disk_of_ne _ _ block, if_neg other]
    rfl

theorem update_rest : SameRest k (k.update ip din) := by
  rw [update_eq]
  exact ⟨rfl, rfl, rfl, rfl, rfl, rfl⟩

theorem CacheOk.update (ok : k.CacheOk) (held : k.Held ip) (fits : din.Fits) :
    (k.update ip din).CacheOk := by
  have entry (q : InodePtr) : ((k.update ip din).icache q).ref = (k.icache q).ref ∧
      ((k.update ip din).icache q).inum = (k.icache q).inum ∧
      ((k.update ip din).icache q).valid = (k.icache q).valid := by
    rw [update_icache]
    by_cases same : q = ip
    · subst same
      rw [Function.update_self]
      exact ⟨rfl, rfl, rfl⟩
    · rw [Function.update_of_ne same]
      exact ⟨rfl, rfl, rfl⟩
  have copy (q : InodePtr) : ((k.update ip din).icache q).din =
      if q = ip then din else (k.icache q).din := by
    rw [update_icache]
    by_cases same : q = ip
    · subst same
      rw [Function.update_self, if_pos rfl]
    · rw [Function.update_of_ne same, if_neg same]
  refine ⟨fun p q left right same => ?_, fun q live => ?_, fun q live valid => ?_,
    fun q live valid => ?_⟩
  · rw [(entry p).1] at left
    rw [(entry q).1] at right
    rw [(entry p).2.1, (entry q).2.1] at same
    exact ok.unique p q left right same
  · rw [(entry q).1] at live
    rw [(entry q).2.1, update_sb]
    exact ok.table q live
  · rw [(entry q).1] at live
    rw [(entry q).2.2] at valid
    rw [copy]
    split
    · exact fits
    · exact ok.fits q live valid
  · rw [(entry q).1] at live
    rw [(entry q).2.2] at valid
    rw [copy, (entry q).2.1, update_onDisk fits]
    by_cases same : q = ip
    · subst same
      rw [if_pos rfl, if_pos rfl]
      exact .refl din
    · rw [if_neg same, if_neg fun number => same (ok.unique q ip live held.ref number)]
      exact ok.behind q live valid

theorem CacheOk.node_update (ok : k.CacheOk) (held : k.Held ip) (fits : din.Fits) :
    (k.update ip din).node = Function.update k.node (k.icache ip).inum din := by
  rw [← ok.node_setDin held]
  funext i
  have cached : KOp.cached (k.update ip din) i = KOp.cached (k.setDin ip din) i := by
    rw [update_eq]
    rfl
  have icache : (k.update ip din).icache = (k.setDin ip din).icache := by
    rw [update_eq]
    rfl
  have sb : (k.setDin ip din).sb = k.sb := rfl
  have disk : (k.setDin ip din).onDisk i = k.onDisk i := rfl
  rw [node, node, update_sb, cached, icache, sb, update_onDisk fits, disk]
  by_cases same : i = (k.icache ip).inum
  · have live : 0 < ((k.setDin ip din).icache ip).ref := by
      rw [Kernel.setDin, setInode_icache_self]
      exact held.ref
    have found : KOp.cached (k.setDin ip din) i = some ip := by
      have here := ok.cached held.ref
      rw [same, ← here]
      exact cached_setInode rfl Iff.rfl _
    have valid : ((k.setDin ip din).icache ip).valid = true := by
      rw [Kernel.setDin, setInode_icache_self]
      exact held.valid
    simp only [found, valid, if_true]
  · rw [if_neg same]

section Same

variable (sound : k.Sound) (held : k.Held ip)

include sound held

/-- The inode block is not a block of the data region. -/
theorem Sound.update_disk {x : Nat} (high : k.sb.dataStart ≤ x) :
    (k.update ip din).disk x = k.disk x := by
  have := sound.valid.IBLOCK_lt_dataStart (sound.cache.table ip held.ref)
  rw [update_eq, store_disk_of_ne _ _ (by omega)]
  rfl

theorem Sound.update_used : (k.update ip din).used = k.used := by
  funext b
  have := IBLOCK_lt_BBLOCK b (sound.cache.table ip held.ref)
  have sb : (k.setDin ip din).sb = k.sb := rfl
  rw [update_eq, store_used _ _ (IBLOCK_ne_one _)]
  · rfl
  · rw [sb]
    omega

variable (fits : din.Fits) (addrs : din.addrs = (k.icache ip).din.addrs)

include fits addrs

theorem Sound.update_addr : (k.update ip din).vol.addr = k.vol.addr := by
  funext i s
  have disk : s.addr (k.update ip din).disk (k.vol.node i) = k.vol.addr i s :=
    Slot.addr_congr (fun p _ real => sound.update_disk held (sound.own.region i p real).1) s
  have node : (k.update ip din).vol.node = Function.update k.node (k.icache ip).inum din :=
    sound.cache.node_update held fits
  rw [← disk, Volume.addr, node]
  by_cases same : i = (k.icache ip).inum
  · subst same
    have old : k.vol.node (k.icache ip).inum = (k.icache ip).din := sound.cache.node_held held
    rw [Function.update_self, old]
    exact Slot.addr_din_congr addrs s
  · rw [Function.update_of_ne same]
    rfl

theorem Sound.update_body : (k.update ip din).vol.body = k.vol.body := by
  funext i bn
  unfold Volume.body
  rw [sound.update_addr held fits addrs]
  split
  · rfl
  · split
    · rfl
    · rename_i s _ real
      exact sound.update_disk held (sound.own.region i s real).1

theorem Sound.update : (k.update ip din).Sound where
  valid := by
    rw [update_sb]
    exact sound.valid
  cache := sound.cache.update held fits
  own := by
    rw [update_sb, sound.update_used held]
    exact sound.own.congr (sound.update_addr held fits addrs)
  system b low := by
    rw [update_sb] at low
    rw [sound.update_used held]
    exact sound.system b low

end Same

end Update

end Kernel

namespace Fs

section Rules

variable {pid : Nat} {A : KOp → Kernel → Prop} {E : Halt → Kernel → Prop} {k : Kernel}
  {ip : InodePtr}

theorem iupdate_wp {Q : Unit → Kernel → Prop}
    (free : Lenient E ∨ k.holder (IBLOCK (k.icache ip).inum) = none) (trans : Trans E k)
    (next : Q () (k.flush ip)) : Wp pid A E (iupdate ip) Q k := by
  refine bind_wp (getInode_wp ?_)
  have whole : (bread (IBLOCK (k.icache ip).inum) >>= fun bp =>
      logWrite (IBLOCK (k.icache ip).inum)
        (Dinode.encode bp ((k.icache ip).inum % IPB) (k.icache ip).din) >>= fun _ =>
      brelse (IBLOCK (k.icache ip).inum)) = (bread (IBLOCK (k.icache ip).inum) >>= fun bp =>
      logWrite (IBLOCK (k.icache ip).inum)
        (Dinode.encode bp ((k.icache ip).inum % IPB) (k.icache ip).din) >>= fun _ =>
      brelse (IBLOCK (k.icache ip).inum) >>= fun u => pure u) := rfl
  rw [whole]
  exact edit_wp (f := fun _ => pure ()) free trans next

end Rules

structure Written (ip : InodePtr) (i off : Nat) (src : List UInt8) (k k' : Kernel) : Prop where
  sb : k'.sb = k.sb
  sound : k'.Sound
  rest : Kernel.SameRest k k'
  entry : ∃ addrs, k'.icache = Function.update k.icache ip { k.icache ip with
    din := { (k.icache ip).din with
      size := max (k.icache ip).din.size (off + src.length), addrs := addrs } }
  byteAt : ∀ x, k'.vol.byteAt i x =
    if off ≤ x ∧ x < off + src.length then src.getD (x - off) 0 else k.vol.byteAt i x
  others : ∀ j ≠ i, k'.vol.body j = k.vol.body j
  onDisk : ∀ j < k.sb.ninodes, j ≠ i → k'.onDisk j = k.onDisk j

section Writei

variable {pid : Nat} {A : KOp → Kernel → Prop} {E : Halt → Kernel → Prop} {k : Kernel}
  {ip : InodePtr} {i off : Nat} {src : List UInt8}

theorem Wrote.written {k' : Kernel} (wrote : Wrote ip i off src k k')
    (stays : off + src.length ≤ (k.icache ip).din.size) : Written ip i off src k k' where
  sb := wrote.ext.sb
  sound := wrote.ext.sound
  rest := wrote.ext.rest
  entry := by
    rw [Nat.max_eq_left stays]
    exact wrote.ext.entry
  byteAt := wrote.byteAt
  others := wrote.others
  onDisk j below _ := wrote.ext.onDisk j below

/-- The size of a file that grew is stored in the inode and on disk. -/
theorem Wrote.resize {k' : Kernel} (wrote : Wrote ip i off src k k') (held : k.Held ip)
    (num : (k.icache ip).inum = i) (grows : (k.icache ip).din.size < off + src.length)
    (bound : off + src.length ≤ MAXFILE * BSIZE) : Written ip i off src k
      (k'.update ip { (k'.icache ip).din with size := off + src.length }) := by
  subst num
  have held' := wrote.ext.held held
  have inum := wrote.ext.inum
  have fits : ({ (k'.icache ip).din with size := off + src.length } : Dinode).Fits := by
    have old := wrote.ext.sound.cache.fits ip held'.ref held'.valid
    have small : MAXFILE * BSIZE < 2 ^ 32 := by decide
    exact ⟨old.type, old.major, old.minor, old.nlink, by dsimp only; omega, old.addrs⟩
  have body := wrote.ext.sound.update_body held' fits rfl
  obtain ⟨addrs, entry⟩ := wrote.ext.entry
  have self : k'.icache ip = { k.icache ip with
      din := { (k.icache ip).din with addrs := addrs } } := by
    rw [entry, Function.update_self]
  refine ⟨Kernel.update_sb.trans wrote.ext.sb, wrote.ext.sound.update held' fits rfl,
    wrote.ext.rest.trans Kernel.update_rest, ⟨addrs, ?_⟩, fun x => ?_, fun j other => ?_,
    fun j below other => ?_⟩
  · rw [Kernel.update_icache, entry, Function.update_idem, Function.update_self,
      Nat.max_eq_right (by omega)]
  · rw [← wrote.byteAt, Volume.byteAt, body, Volume.byteAt]
  · rw [body, wrote.others j other]
  · rw [Kernel.update_onDisk fits, inum, if_neg other, wrote.ext.onDisk j below]

theorem writei_wp {Q : Option Nat → Kernel → Prop} (ready : Ready A E ip i (3 * src.length) k)
    (content : (k.vol.node i).type ≠ T_DEV)
    (bad : off > (k.vol.node i).size ∨ off + src.length > MAXFILE * BSIZE → Q none k)
    (next : off ≤ (k.vol.node i).size → off + src.length ≤ MAXFILE * BSIZE →
      ∀ k', Written ip i off src k k' → Q (some src.length) k') :
    Wp pid A E (writei ip src off) Q k := by
  have node := ready.node
  have size := (ready.sound.cache.fits ip ready.cached.ref ready.cached.valid).size
  rw [node] at content bad next
  refine bind_wp (getInode_wp ?_)
  rw [if_neg content]
  have small : MAXFILE * BSIZE < 2 ^ 32 := by decide
  split
  · rename_i wrong
    refine bad (wrong.imp id fun wraps => ?_)
    by_contra short
    rw [Nat.mod_eq_of_lt (by omega)] at wraps
    omega
  rename_i right
  split
  · rename_i long
    exact bad (.inr long)
  rename_i short
  refine bind_wp ?_
  refine writeLoop_wp ready (Nat.le_refl _) (by omega) fun k' wrote => ?_
  obtain ⟨addrs, self⟩ := wrote.ext.icache_self
  have same : (k'.icache ip).din.size = (k.icache ip).din.size := by rw [self]
  refine bind_wp (getInode_wp ?_)
  refine bind_wp (Prog.wp_when _ _ (fun grows => ?_) fun stays => ?_)
  · rw [same] at grows
    have ready' : Ready A E ip i 0 k' := ready.extend wrote.ext (.inr (Nat.zero_le _))
    refine bind_wp (setDin_wp (iupdate_wp (ready'.idle.free id) ready'.trans ?_))
    exact next (by omega) (by omega) _ (wrote.resize ready.cached ready.num grows.2 (by omega))
  · rw [same] at stays
    refine next (by omega) (by omega) _ (wrote.written ?_)
    by_contra grows
    have some : src.length = 0 := by omega
    omega

end Writei

end Fs

end SirpairOs
