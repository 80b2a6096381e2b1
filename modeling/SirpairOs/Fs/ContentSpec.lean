import SirpairOs.Fs.MapSpec

/-! What `readi`, `writei` and `iupdate` do to the contents of a sound file
system. -/
namespace SirpairOs.Fs

-- its value, written in unary, would be compared with block numbers
attribute [local irreducible] NDINDIRECT

section Read

variable {pid : Nat} {A : KOp → Kernel → Prop} {E : Halt → Kernel → Prop} {k : Kernel}
  {ip : InodePtr} {i : Nat} (reader : Reader E ip i k)

include reader

theorem Reader.addr_top (j : Fin (NDIRECT + 2)) :
    k.vol.addr i (.top j) = (k.icache ip).din.addrs j := by
  rw [Volume.addr, reader.node, Slot.addr]

/-- `bmap_read` looks the block up and allocates nothing. -/
theorem bmapRead_wp {bn : Nat} {Q : Nat → Kernel → Prop} (next : Q (k.vol.blockAddr i bn) k) :
    Wp pid A E (bmapRead ip bn) Q k := by
  have free {s : Nat} : Lenient E ∨ k.holder s = none := reader.idle.free id
  refine bind_wp (getInode_wp ?_)
  by_cases direct : bn < NDIRECT
  · rw [dif_pos direct, ← Reader.addr_top reader]
    rw [Volume.blockAddr_of (dif_pos direct)] at next
    exact next
  rw [dif_neg direct]
  by_cases single : bn - NDIRECT < NINDIRECT
  · have found : Slot.ofBlock bn = some (.ind ⟨bn - NDIRECT, single⟩) := by
      rw [Slot.ofBlock, dif_neg direct, dif_pos single]
    have addr : k.vol.addr i (.ind ⟨bn - NDIRECT, single⟩) =
        entry k.disk (k.vol.addr i (.top INDIRECT)) (bn - NDIRECT) := rfl
    rw [Volume.blockAddr_of found, addr, entry] at next
    rw [if_pos single, ← Reader.addr_top reader]
    by_cases none' : k.vol.addr i (.top INDIRECT) = 0
    · rw [if_pos none'] at next ⊢
      exact next
    · rw [if_neg none'] at next ⊢
      exact peek_wp free fun _ => next
  rw [if_neg single]
  cases Nat.lt_or_ge (bn - NDIRECT - NINDIRECT) NDINDIRECT with
  | inr huge =>
    have found : Slot.ofBlock bn = none := by
      rw [Slot.ofBlock, dif_neg direct, dif_neg single, dif_neg (Nat.not_lt.mpr huge)]
    rw [Volume.blockAddr, found] at next
    rw [if_neg (Nat.not_lt.mpr huge)]
    exact next
  | inl double =>
    obtain ⟨j, l, found, div, mod⟩ : ∃ j l : Fin NINDIRECT, Slot.ofBlock bn = some (.leaf j l) ∧
        (bn - NDIRECT - NINDIRECT) / NINDIRECT = j ∧
        (bn - NDIRECT - NINDIRECT) % NINDIRECT = l := by
      refine ⟨⟨_, Nat.div_lt_of_lt_mul (by unfold NDINDIRECT at double; exact double)⟩,
        ⟨_, Nat.mod_lt _ (by decide)⟩, ?_, rfl, rfl⟩
      rw [Slot.ofBlock, dif_neg direct, dif_neg single, dif_pos double]
    have upper : k.vol.addr i (.mid j) = entry k.disk (k.vol.addr i (.top DINDIRECT)) j := rfl
    have lower : k.vol.addr i (.leaf j l) = entry k.disk (k.vol.addr i (.mid j)) l := rfl
    rw [Volume.blockAddr_of found] at next
    rw [if_pos double, ← Reader.addr_top reader, div, mod]
    by_cases real : k.vol.addr i (.top DINDIRECT) = 0
    · rw [lower, upper, entry, entry, if_pos real, if_pos rfl] at next
      rw [if_pos real]
      exact next
    · rw [if_neg real]
      refine bind_wp (bread_wp free fun _ open' => ?_)
      have mid : (k.disk (k.vol.addr i (.top DINDIRECT))).num (4 * j) 4 = k.vol.addr i (.mid j) := by
        rw [upper, entry, if_neg real]
      dsimp only
      rw [mid]
      by_cases real' : k.vol.addr i (.mid j) = 0
      · rw [lower, entry, if_pos real'] at next
        rw [if_pos real']
        refine bind_wp (brelse_wp (by simp) ?_)
        rw [Kernel.unhold_hold k pid open']
        exact next
      · rw [lower, entry, if_neg real'] at next
        rw [if_neg real']
        have apart : k.vol.addr i (.mid j) ≠ k.vol.addr i (.top DINDIRECT) := fun same => by
          cases (reader.sound.own.inj real' same).2
        have free' : Lenient E ∨
            (k.hold pid (k.vol.addr i (.top DINDIRECT))).holder (k.vol.addr i (.mid j)) = none := by
          rw [Kernel.hold_holder_of_ne k pid apart]
          exact free
        refine peek_wp free' fun _ => ?_
        refine bind_wp (brelse_wp (by simp) ?_)
        rw [Kernel.unhold_hold k pid open']
        exact next

theorem readLoop_wp {fuel off n : Nat} {Q : List UInt8 → Kernel → Prop} (enough : n ≤ fuel)
    (next : Q (k.vol.bytes i off n) k) : Wp pid A E (readLoop ip fuel off n) Q k := by
  induction fuel generalizing off n Q with
  | zero =>
    obtain rfl : n = 0 := by omega
    exact next
  | succ fuel ih =>
    rw [readLoop]
    split
    · rename_i done
      subst done
      exact next
    rename_i more
    dsimp only
    have here : 0 < BSIZE - off % BSIZE := by unfold BSIZE; omega
    generalize part : min n (BSIZE - off % BSIZE) = m
    have small : m ≤ n := by omega
    have inside : off % BSIZE + m ≤ BSIZE := by unfold BSIZE at *; omega
    rw [k.vol.bytes_split i off small, k.vol.bytes_block i off inside, k.vol.body_eq] at next
    refine bind_wp (bmapRead_wp reader ?_)
    split
    · rename_i hole
      refine bind_wp (ih (by omega) ?_)
      rw [if_pos hole] at next
      have zeros : (Bytes.zero : Block).slice (off % BSIZE) m = List.replicate m 0 := by
        refine List.eq_replicate_iff.mpr ⟨Bytes.length_slice .., fun x member => ?_⟩
        obtain ⟨t, _, rfl⟩ := List.mem_map.mp member
        exact Bytes.byte_zero _
      rw [zeros] at next
      exact next
    · rename_i real
      rw [if_neg real] at next
      refine peek_wp (reader.idle.free id) fun _ => ?_
      exact bind_wp (ih (by omega) next)

theorem readi_wp {off n : Nat} {Q : Option (List UInt8) → Kernel → Prop}
    (content : (k.vol.node i).type ≠ T_DEV)
    (next : Q (if off > (k.vol.node i).size ∨ (off + n) % 2 ^ 32 < off then none
      else some (k.vol.bytes i off
        (if off + n > (k.vol.node i).size then (k.vol.node i).size - off else n))) k) :
    Wp pid A E (readi ip off n) Q k := by
  rw [reader.node] at content next
  refine bind_wp (getInode_wp ?_)
  rw [if_neg content]
  split
  · rename_i bad
    rw [if_pos bad] at next
    exact next
  · rename_i good
    rw [if_neg good] at next
    exact bind_wp (readLoop_wp reader (Nat.le_refl _) next)

end Read

/-- The bytes `src` have been written at `off` into inode `i`. -/
structure Wrote (ip : InodePtr) (i off : Nat) (src : List UInt8) (k k' : Kernel) : Prop where
  ext : Kernel.Extends ip k k'
  byteAt : ∀ x, k'.vol.byteAt i x =
    if off ≤ x ∧ x < off + src.length then src.getD (x - off) 0 else k.vol.byteAt i x
  others : ∀ j ≠ i, k'.vol.body j = k.vol.body j

section Write

variable {pid : Nat} {A : KOp → Kernel → Prop} {E : Halt → Kernel → Prop} {k : Kernel}
  {ip : InodePtr} {i : Nat}

variable {off : Nat} {src : List UInt8}

/-- New contents for a mapped block, put in place of some of its bytes. -/
theorem Wrote.block {bn : Nat} {s : Slot} (sound : k.Sound) (found : Slot.ofBlock bn = some s)
    (real : k.vol.addr i s ≠ 0) (place : off / BSIZE = bn)
    (fits : off % BSIZE + src.length ≤ BSIZE) : Wrote ip i off src k (k.store (k.vol.addr i s)
      ((k.disk (k.vol.addr i s)).splice (off % BSIZE) src)) := by
  have high := (sound.own.region i s real).1
  have ext := sound.extends_write found real ((k.disk (k.vol.addr i s)).splice (off % BSIZE) src) ip
  have old : k.vol.body i bn = k.disk (k.vol.addr i s) := by
    rw [Volume.body_eq, Volume.blockAddr_of found, if_neg real]
    rfl
  have body (j bn' : Nat) := Volume.body_write_data sound.own found real
    ((k.disk (k.vol.addr i s)).splice (off % BSIZE) src) j bn'
  rw [← Kernel.store_high_vol sound.valid _ high] at body
  refine ⟨ext, fun x => ?_, fun j other => ?_⟩
  · rw [Volume.byteAt, body]
    by_cases block : x / BSIZE = bn
    · rw [if_pos ⟨rfl, block⟩]
      have bound : x % BSIZE < 512 := by unfold BSIZE; omega
      by_cases here : off ≤ x ∧ x < off + src.length
      · rw [if_pos here, Bytes.byte_splice_inside _ _ _ _ (by unfold BSIZE at *; omega)
          (by unfold BSIZE at *; omega) bound]
        congr 1
        unfold BSIZE at *
        omega
      · rw [if_neg here, Bytes.byte_splice_outside _ _ _ _ (by unfold BSIZE at *; omega),
          Volume.byteAt, block, old]
    · have away : ¬ (off ≤ x ∧ x < off + src.length) := by unfold BSIZE at *; omega
      rw [if_neg fun both => block both.2, if_neg away, Volume.byteAt]
  · funext bn'
    rw [body, if_neg fun both => other both.1]

/-- Filling slots before a write does not show. -/
theorem Wrote.after {k' k'' : Kernel} (ext : Kernel.Extends ip k k')
    (body : k'.vol.body = k.vol.body) (wrote : Wrote ip i off src k' k'') :
    Wrote ip i off src k k'' := by
  have same (x : Nat) : k'.vol.byteAt i x = k.vol.byteAt i x := by
    rw [Volume.byteAt, body, Volume.byteAt]
  refine ⟨ext.trans wrote.ext, fun x => ?_, fun j other => ?_⟩
  · rw [wrote.byteAt, same]
  · rw [wrote.others j other, body]

theorem Wrote.trans {off' : Nat} {rest : List UInt8} {k' k'' : Kernel}
    (first : Wrote ip i off src k k') (second : Wrote ip i off' rest k' k'')
    (here : off' = off + src.length) : Wrote ip i off (src ++ rest) k k'' := by
  subst here
  refine ⟨first.ext.trans second.ext, fun x => ?_, fun j other => ?_⟩
  · rw [second.byteAt, first.byteAt, List.length_append]
    by_cases left : x < off + src.length
    · rw [if_neg (by omega)]
      by_cases inside : off ≤ x
      · rw [if_pos ⟨inside, left⟩, if_pos ⟨inside, by omega⟩, List.getD_append _ _ _ _ (by omega)]
      · rw [if_neg (by omega), if_neg (by omega)]
    · by_cases inside : x < off + src.length + rest.length
      · rw [if_pos ⟨by omega, inside⟩, if_pos ⟨by omega, by omega⟩,
          List.getD_append_right _ _ _ _ (by omega)]
        congr 1
        omega
      · rw [if_neg (by omega), if_neg (by omega), if_neg (by omega)]
  · rw [second.others j other, first.others j other]

/-- The loop of `writei`, with up to three new blocks for each block written. -/
theorem writeLoop_wp {fuel : Nat} {Q : Nat → Kernel → Prop} (ready : Ready A E ip i (3 * fuel) k)
    (enough : src.length ≤ fuel) (bound : off + src.length ≤ MAXFILE * BSIZE)
    (next : ∀ k', Wrote ip i off src k k' → Q (off + src.length) k') :
    Wp pid A E (writeLoop ip fuel off src) Q k := by
  have nothing (k : Kernel) (sound : k.Sound) (off : Nat) : Wrote ip i off [] k k :=
    ⟨.refl sound, fun x => (if_neg (by simp)).symm, fun _ _ => rfl⟩
  induction fuel generalizing k off src Q with
  | zero =>
    obtain rfl : src = [] := List.eq_nil_of_length_eq_zero (by omega)
    exact next k (nothing k ready.sound off)
  | succ fuel ih =>
    rw [writeLoop]
    split
    · rename_i done
      subst done
      exact next k (nothing k ready.sound off)
    rename_i more
    have some : 0 < src.length := List.length_pos_iff.mpr more
    have inside : off / BSIZE < MAXFILE := by
      unfold BSIZE at *
      omega
    obtain ⟨s, found⟩ := Slot.exists_ofBlock inside
    refine bind_wp ?_
    refine bmap_wp (m := 3 * fuel) ready found fun k₁ _ ready₁ ext body real => ?_
    dsimp only
    generalize part : min src.length (BSIZE - off % BSIZE) = m
    have length : (src.take m).length = m := by
      rw [List.length_take]
      omega
    have inside : off % BSIZE + (src.take m).length ≤ BSIZE := by unfold BSIZE at *; omega
    refine edit_wp (g := fun bp => bp.splice (off % BSIZE) (src.take m))
      (f := fun _ => writeLoop ip fuel (off + m) (src.drop m)) (ready₁.idle.free id) ready₁.trans ?_
    have block : Wrote ip i off (src.take m) k₁ _ := .block ext.sound found real rfl inside
    have first := block.after ext body
    have free := Kernel.store_high_freeData ext.sound.valid
      ((k₁.disk (k₁.vol.addr i s)).splice (off % BSIZE) (src.take m))
      (ext.sound.own.region i s real).1
    refine ih (ready₁.extend block.ext (ready₁.supply.mono fun supply => ?_)) ?_ ?_
      fun k' rest => ?_
    · rw [free]
      exact supply
    · rw [List.length_drop]
      unfold BSIZE at *
      omega
    · rw [List.length_drop]
      omega
    · have whole := first.trans rest (by rw [length])
      rw [List.take_append_drop] at whole
      have final : off + m + (src.drop m).length = off + src.length := by
        rw [List.length_drop]
        omega
      rw [final]
      exact next k' whole

end Write

end SirpairOs.Fs
