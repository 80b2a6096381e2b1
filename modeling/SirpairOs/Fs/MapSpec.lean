import SirpairOs.Fs.Grow

/-! What `bmap` and `bmap_read` do in a sound file system. -/
namespace SirpairOs

/-- There are `m` free data blocks, or the environment promises one whenever
`balloc` starts. -/
def Supply (A : KOp → Kernel → Prop) (k : Kernel) (m : Nat) : Prop :=
  (∀ k', A (.bread 1) k' → k'.freeData ≠ []) ∨ m ≤ k.freeData.length

theorem Supply.mono {A : KOp → Kernel → Prop} {k k' : Kernel} {m m' : Nat} (supply : Supply A k m)
    (fewer : m ≤ k.freeData.length → m' ≤ k'.freeData.length) : Supply A k' m' :=
  supply.imp id fewer

/-- What the functions that read the content of a locked inode find: a sound file
system in which `ip` holds inode `i`, and no locked buffer. -/
structure Reader (E : Halt → Kernel → Prop) (ip : InodePtr) (i : Nat) (k : Kernel) : Prop where
  sound : k.Sound
  cached : k.Held ip
  idle : Idle E k fun _ => False
  num : (k.icache ip).inum = i

/-- What the functions that write it find: also an open transaction and `m` free
blocks. -/
structure Ready (A : KOp → Kernel → Prop) (E : Halt → Kernel → Prop) (ip : InodePtr) (i m : Nat)
    (k : Kernel) : Prop extends Reader E ip i k where
  trans : Trans E k
  supply : Supply A k m

theorem Reader.node {E : Halt → Kernel → Prop} {ip : InodePtr} {i : Nat} {k : Kernel}
    (reader : Reader E ip i k) : k.vol.node i = (k.icache ip).din := by
  rw [← reader.num]
  exact reader.sound.cache.node_held reader.cached

namespace Ready

variable {A : KOp → Kernel → Prop} {E : Halt → Kernel → Prop} {ip : InodePtr} {i m m' : Nat}
  {k k' : Kernel}

theorem extend (ready : Ready A E ip i m k) (ext : Kernel.Extends ip k k')
    (supply : Supply A k' m') : Ready A E ip i m' k' :=
  ⟨⟨ext.sound, ext.held ready.cached, ext.idle ready.idle, ext.inum.trans ready.num⟩,
    ext.inTrans ready.trans, supply⟩

theorem data (_ready : Ready A E ip i m k) : DataOnly k fun _ => False := nofun

theorem fewer (ready : Ready A E ip i m k) (less : m' ≤ m) : Ready A E ip i m' k :=
  { ready with supply := ready.supply.mono fun enough => Nat.le_trans less enough }

variable {s : Slot}

/-- One more slot of the inode is filled. -/
theorem ensure (ready : Ready A E ip i (m + 1) k)
    (reach : ∀ p j, s.parent = some (p, j) → k.vol.addr i p ≠ 0)
    (nonempty : k.vol.addr i s = 0 → k.freeData ≠ []) : Ready A E ip i m (k.ensure ip s) ∧
      Kernel.Extends ip k (k.ensure ip s) ∧ (k.ensure ip s).vol.body = k.vol.body ∧
      (k.ensure ip s).vol.addr i s ≠ 0 := by
  obtain ⟨⟨sound, cached, idle, num⟩, trans, supply⟩ := ready
  subst num
  have ext := sound.ensure_extends cached reach nonempty
  refine ⟨⟨⟨ext.sound, ext.held cached, ext.idle idle, ext.inum⟩, ext.inTrans trans,
    supply.mono fun enough => ?_⟩, ext, sound.ensure_body cached reach nonempty,
    sound.ensure_real cached reach nonempty⟩
  have := sound.ensure_free reach nonempty
  omega

end Ready

namespace Fs

section Rules

variable {pid : Nat} {A : KOp → Kernel → Prop} {E : Halt → Kernel → Prop} {k : Kernel}
  {held : Nat → Prop} {ip : InodePtr}

theorem getInode_wp {Q : Inode → Kernel → Prop} (next : Q (k.icache ip) k) :
    Wp pid A E (getInode ip) Q k := fun _ => next

theorem setDin_wp {din : Dinode} {Q : Unit → Kernel → Prop} (next : Q () (k.setDin ip din)) :
    Wp pid A E (setDin ip din) Q k := fun _ => next

theorem setAddr_wp {j : Fin (NDIRECT + 2)} {b : Nat} {Q : Unit → Kernel → Prop}
    (next : Q () (k.setDin ip ((k.icache ip).din.setAddr j b))) :
    Wp pid A E (setAddr ip j b) Q k := fun _ _ => next

/-- `balloc` in a sound file system with a free data block. -/
theorem balloc_sound_wp {Q : Nat → Kernel → Prop} (sound : k.Sound) (idle : Idle E k held)
    (data : DataOnly k held) (trans : Trans E k) (supply : Supply A k 1)
    (next : ∀ b rest, k.freeData = b :: rest → Q b (k.alloc b)) : Wp pid A E balloc Q k := by
  have some (allowed : A (.bread 1) k) : k.freeData ≠ [] := by
    rcases supply with promised | enough
    · exact promised k allowed
    · intro none
      rw [none] at enough
      exact absurd enough (by decide)
  refine balloc_wp sound.valid idle data trans (fun allowed b _ free first => ?_)
    fun allowed full => ?_
  · obtain ⟨rest, list⟩ := sound.first_free free first (some allowed)
    exact next b rest list
  · obtain ⟨b, member⟩ := List.exists_mem_of_ne_nil _ (some allowed)
    obtain ⟨_, high, free⟩ := Kernel.mem_freeData.mp member
    rw [full b (Nat.lt_of_lt_of_le high k.sb.logStart_le)] at free
    cases free

section Map

variable (sound : k.Sound) (cached : k.Held ip) (idle : Idle E k held) (data : DataOnly k held)
  (trans : Trans E k) (supply : Supply A k 1) {i : Nat} (num : (k.icache ip).inum = i)

include sound cached idle data trans supply num

/-- `mapTop` leaves a filled slot alone and gives an empty one the first free
block. -/
theorem mapTop_wp {j : Fin (NDIRECT + 2)} {Q : Nat → Kernel → Prop}
    (next : (k.vol.addr i (.top j) = 0 → k.freeData ≠ []) →
      Q ((k.ensure ip (.top j)).vol.addr i (.top j)) (k.ensure ip (.top j))) :
    Wp pid A E (mapTop ip j) Q k := by
  subst num
  have reach : ∀ p l, (Slot.top j).parent = some (p, l) →
      k.vol.addr (k.icache ip).inum p ≠ 0 := nofun
  have addr : k.vol.addr (k.icache ip).inum (.top j) = (k.icache ip).din.addrs j := by
    have node : k.vol.node (k.icache ip).inum = (k.icache ip).din := sound.cache.node_held cached
    rw [Volume.addr, node, Slot.addr]
  refine bind_wp (getInode_wp ?_)
  split
  · rename_i empty
    rw [← addr] at empty
    refine bind_wp (balloc_sound_wp sound idle data trans supply fun b rest list => ?_)
    have grown : k.ensure ip (.top j) = k.grow ip (.top j) b := by
      rw [Kernel.ensure, if_neg (not_not_intro empty), list]
    have result := next fun _ => by simp [list]
    rw [grown, sound.grow_addr list reach cached empty, if_pos ⟨rfl, rfl⟩] at result
    exact bind_wp (setAddr_wp result)
  · rename_i real
    rw [← addr] at real
    have result := next fun empty => absurd empty real
    rw [Kernel.ensure, if_pos real, addr] at result
    exact result

/-- `mapEntry` does the same for an entry of an index block. -/
theorem mapEntry_wp {s p : Slot} {j : Fin NINDIRECT} {Q : Nat → Kernel → Prop}
    (above : s.parent = some (p, j)) (real : k.vol.addr i p ≠ 0) (loose : ¬ held (k.vol.addr i p))
    (next : (k.vol.addr i s = 0 → k.freeData ≠ []) →
      Q ((k.ensure ip s).vol.addr i s) (k.ensure ip s)) :
    Wp pid A E (mapEntry (k.vol.addr i p) j) Q k := by
  subst num
  have addr : k.vol.addr (k.icache ip).inum s =
      (k.disk (k.vol.addr (k.icache ip).inum p)).num (4 * j) 4 :=
    (Slot.addr_of_parent above).trans (if_neg real)
  obtain ⟨high, top⟩ := sound.own.region _ p real
  have marked := sound.own.used_addr real
  refine bind_wp (bread_wp (idle.free loose) fun _ none' => ?_)
  dsimp only
  rw [← addr]
  split
  · rename_i empty
    have data' : DataOnly (k.hold pid (k.vol.addr (k.icache ip).inum p)) fun x =>
        x = k.vol.addr (k.icache ip).inum p ∨ held x := by
      rintro x (rfl | other)
      · exact ⟨high, top, marked⟩
      · exact data x other
    have sound' : (k.hold pid (k.vol.addr (k.icache ip).inum p)).Sound :=
      Kernel.Sound.congr (k := k) rfl rfl sound
    refine bind_wp (balloc_sound_wp sound' (idle.hold pid _) data' trans supply
      fun b rest list => ?_)
    have free : k.freeData = b :: rest := list
    have reach : ∀ q l, s.parent = some (q, l) → k.vol.addr (k.icache ip).inum q ≠ 0 := by
      intro q l under
      rw [above] at under
      cases under
      exact real
    have grown : k.ensure ip s = k.grow ip s b := by
      rw [Kernel.ensure, if_neg (not_not_intro empty), free]
    have result := next fun _ => by simp [free]
    rw [grown, sound.grow_addr free reach cached empty, if_pos ⟨rfl, rfl⟩] at result
    have kept : (k.alloc b).disk (k.vol.addr (k.icache ip).inum p) =
        k.disk (k.vol.addr (k.icache ip).inum p) := by
      have head := Kernel.free_head free
      have bitmap := sound.valid.bitmap b (Nat.lt_of_lt_of_le head.2.1 k.sb.logStart_le)
      exact k.alloc_disk_of_ne (sound.own.fresh (by simp [head.2.2]) (sound.free_real free) _ p)
        (by omega)
    rw [Kernel.grow_of_parent above, Kernel.storeEntry, kept] at result
    generalize k.vol.addr (k.icache ip).inum p = a at *
    refine bind_wp (logWrite_wp trans (Kernel.hold_holder_self k pid a) (bind_wp (brelse_wp
      (Kernel.hold_holder_self k pid a) ?_)))
    have back : (((k.hold pid a).alloc b).store a ((k.disk a).setNum (4 * j) 4 b)).unhold a =
        (((k.hold pid a).unhold a).alloc b).store a ((k.disk a).setNum (4 * j) 4 b) := rfl
    rw [Kernel.unhold_hold k pid none'] at back
    rw [← back] at result
    exact result
  · rename_i full
    have result := next fun empty => absurd empty full
    rw [Kernel.ensure, if_pos full] at result
    refine bind_wp (brelse_wp (by simp) ?_)
    rw [Kernel.unhold_hold k pid none']
    exact result

end Map

section Ready

variable {i m : Nat} (ready : Ready A E ip i (m + 1) k) {Q : Nat → Kernel → Prop}

include ready

theorem mapTop_ready_wp {j : Fin (NDIRECT + 2)}
    (next : ∀ k', k' = k.ensure ip (.top j) → Ready A E ip i m k' → Kernel.Extends ip k k' →
      k'.vol.body = k.vol.body → k'.vol.addr i (.top j) ≠ 0 → Q (k'.vol.addr i (.top j)) k') :
    Wp pid A E (mapTop ip j) Q k := by
  have one := ready.fewer (show 1 ≤ m + 1 by omega)
  refine mapTop_wp one.sound one.cached one.idle one.data one.trans one.supply one.num
    fun nonempty => ?_
  obtain ⟨ready', ext, body, real⟩ := ready.ensure (s := .top j) nofun nonempty
  exact next _ rfl ready' ext body real

theorem mapEntry_ready_wp {s p : Slot} {j : Fin NINDIRECT} (above : s.parent = some (p, j))
    (real : k.vol.addr i p ≠ 0)
    (next : ∀ k', k' = k.ensure ip s → Ready A E ip i m k' → Kernel.Extends ip k k' →
      k'.vol.body = k.vol.body → k'.vol.addr i s ≠ 0 → Q (k'.vol.addr i s) k') :
    Wp pid A E (mapEntry (k.vol.addr i p) j) Q k := by
  have one := ready.fewer (show 1 ≤ m + 1 by omega)
  have reach : ∀ q l, s.parent = some (q, l) → k.vol.addr i q ≠ 0 := by
    intro q l under
    rw [above] at under
    cases under
    exact real
  refine mapEntry_wp one.sound one.cached one.idle one.data one.trans one.supply one.num above real
    id fun nonempty => ?_
  obtain ⟨ready', ext, body, real⟩ := ready.ensure reach nonempty
  exact next _ rfl ready' ext body real

end Ready

/-- `bmap` fills the empty slots on the way to the block. -/
theorem bmap_wp {bn i m : Nat} {s : Slot} {Q : Nat → Kernel → Prop}
    (ready : Ready A E ip i (m + 3) k) (found : Slot.ofBlock bn = some s)
    (next : ∀ k', k' = s.line.foldl (Kernel.ensure ip) k → Ready A E ip i m k' →
      Kernel.Extends ip k k' → k'.vol.body = k.vol.body → k'.vol.addr i s ≠ 0 →
      Q (k'.vol.addr i s) k') : Wp pid A E (bmap ip bn) Q k := by
  unfold bmap
  rcases Slot.ofBlock_cases found with ⟨small, rfl⟩ | ⟨large, small, rfl⟩ |
    ⟨large, large', small, j, l, rfl, div, mod⟩
  · rw [Slot.foldl_line_top] at next
    rw [dif_pos small]
    exact mapTop_ready_wp (m := m + 2) ready fun k₁ made ready₁ ext body real =>
      next k₁ made (ready₁.fewer (by omega)) ext body real
  · rw [Slot.foldl_line_ind] at next
    rw [dif_neg large, if_pos small]
    refine bind_wp ?_
    refine mapTop_ready_wp (m := m + 2) ready fun k₁ made ready₁ ext₁ body₁ real₁ => ?_
    refine mapEntry_ready_wp (m := m + 1) ready₁ (s := .ind ⟨bn - NDIRECT, small⟩)
      (j := ⟨bn - NDIRECT, small⟩) rfl real₁ fun k₂ made₂ ready₂ ext₂ body₂ real₂ => ?_
    rw [made] at made₂
    exact next k₂ made₂ (ready₂.fewer (by omega)) (ext₁.trans ext₂) (body₂.trans body₁) real₂
  · rw [Slot.foldl_line_leaf] at next
    rw [dif_neg large, if_neg large', if_pos small, div, mod]
    refine bind_wp ?_
    refine mapTop_ready_wp (m := m + 2) ready fun k₁ made ready₁ ext₁ body₁ real₁ => ?_
    refine bind_wp ?_
    refine mapEntry_ready_wp (m := m + 1) ready₁ (s := .mid j) (j := j) rfl real₁
      fun k₂ made₂ ready₂ ext₂ body₂ real₂ => ?_
    refine mapEntry_ready_wp (m := m) ready₂ (s := .leaf j l) (j := l) rfl real₂
      fun k₃ made₃ ready₃ ext₃ body₃ real₃ => ?_
    rw [made₂, made] at made₃
    exact next k₃ made₃ ready₃ ((ext₁.trans ext₂).trans ext₃) (body₃.trans (body₂.trans body₁))
      real₃

end Rules

end Fs

end SirpairOs
