import SirpairOs.Fs.UpdateSpec

/-! What `itrunc` does: it frees every block of the inode, once. -/
namespace SirpairOs

namespace Slot

/-- The slots below the entry `j` of the double-indirect block, and that entry. -/
def under (j : Fin NINDIRECT) : List Slot := (List.finRange NINDIRECT).map (leaf j) ++ [mid j]

def all : List Slot :=
  Fs.directs.map top ++ ((List.finRange NINDIRECT).map ind ++ [top INDIRECT]) ++
    ((List.finRange NINDIRECT).flatMap under ++ [top DINDIRECT])

theorem mem_all (s : Slot) : s ∈ all := by
  have direct (j : Fin (NDIRECT + 2)) : j ∈ Fs.directs ∨ j = INDIRECT ∨ j = DINDIRECT := by
    revert j
    decide
  simp only [all, under, List.mem_append, List.mem_map, List.mem_flatMap, List.mem_singleton,
    List.mem_finRange, true_and]
  cases s with
  | top j =>
    rcases direct j with low | rfl | rfl
    · exact .inl (.inl ⟨j, low, rfl⟩)
    · exact .inl (.inr (.inr rfl))
    · exact .inr (.inr rfl)
  | ind j => exact .inl (.inr (.inl ⟨j, rfl⟩))
  | mid j => exact .inr (.inl ⟨j, .inr rfl⟩)
  | leaf j l => exact .inr (.inl ⟨j, .inl ⟨l, rfl⟩⟩)

theorem nodup_all : all.Nodup := by
  have tops : (Fs.directs.map top).Nodup := by decide
  have unders (j : Fin NINDIRECT) : (under j).Nodup := by
    refine List.nodup_append.mpr ⟨(List.nodup_finRange _).map fun a b same => ?_, by simp, ?_⟩
    · exact (leaf.inj same).2
    · simp
  have lower : ((List.finRange NINDIRECT).flatMap under).Nodup := by
    refine List.nodup_flatMap.mpr ⟨fun j _ => unders j, ?_⟩
    refine (List.nodup_finRange _).imp fun apart => ?_
    intro s left right
    simp only [under, List.mem_append, List.mem_map, List.mem_finRange, true_and,
      List.mem_singleton] at left right
    rcases left with ⟨l, rfl⟩ | rfl
    · simp at right
      exact apart right.symm
    · simp at right
      exact apart right
  have inds : ((List.finRange NINDIRECT).map ind).Nodup :=
    (List.nodup_finRange _).map fun a b same => ind.inj same
  have low : INDIRECT ∉ Fs.directs ∧ DINDIRECT ∉ Fs.directs ∧ INDIRECT ≠ DINDIRECT := by decide
  unfold all
  simp only [List.nodup_append, tops, inds, lower, List.nodup_singleton, true_and, List.mem_append,
    List.mem_map, List.mem_flatMap, List.mem_singleton, List.mem_finRange, under]
  refine ⟨⟨?_, ?_⟩, ?_, ?_⟩ <;> grind

end Slot

/-- The blocks in the slots of an inode, in the order in which `itrunc` frees them. -/
def Dinode.blocks (din : Dinode) (disk : Nat → Block) : List Nat :=
  (Slot.all.map fun s => s.addr disk din).filter (· ≠ 0)

theorem Dinode.mem_blocks {din : Dinode} {disk : Nat → Block} {b : Nat} :
    b ∈ din.blocks disk ↔ b ≠ 0 ∧ ∃ s : Slot, s.addr disk din = b := by
  simp only [blocks, List.mem_filter, List.mem_map, decide_eq_true_eq]
  constructor
  · rintro ⟨⟨s, _, same⟩, real⟩
    exact ⟨real, s, same⟩
  · rintro ⟨real, s, same⟩
    exact ⟨⟨s, Slot.mem_all s, same⟩, real⟩

namespace Kernel

def freeAll (k : Kernel) (bs : List Nat) : Kernel := bs.foldl release k

theorem freeAll_append (k : Kernel) (bs cs : List Nat) :
    k.freeAll (bs ++ cs) = (k.freeAll bs).freeAll cs := List.foldl_append ..

section FreeAll

variable (k : Kernel) (bs : List Nat)

theorem freeAll_sb : (k.freeAll bs).sb = k.sb := by
  induction bs generalizing k with
  | nil => rfl
  | cons b bs ih => exact (ih _).trans (k.release_sb b)

theorem freeAll_used (x : Nat) : (k.freeAll bs).used x = (!decide (x ∈ bs) && k.used x) := by
  induction bs generalizing k with
  | nil => simp [freeAll]
  | cons b bs ih =>
    have step : k.freeAll (b :: bs) = (k.release b).freeAll bs := rfl
    rw [step, ih, release_used]
    by_cases same : x = b <;> simp [same]

theorem freeAll_icache : (k.freeAll bs).icache = k.icache := by
  induction bs generalizing k with
  | nil => rfl
  | cons b bs ih => exact ih _

theorem freeAll_rest : SameRest k (k.freeAll bs) := by
  induction bs generalizing k with
  | nil => exact .refl k
  | cons b bs ih => exact (SameRest.store k _ _).trans (ih _)

theorem freeAll_lh : (k.freeAll bs).log.lh =
    (bs.map fun b => BBLOCK b k.sb.ninodes).foldl KOp.absorb k.log.lh := by
  induction bs generalizing k with
  | nil => rfl
  | cons b bs ih =>
    have step : k.freeAll (b :: bs) = (k.release b).freeAll bs := rfl
    rw [step, ih, release_sb]
    rfl

theorem freeAll_disk {x : Nat} (other : ∀ b ∈ bs, x ≠ BBLOCK b k.sb.ninodes) :
    (k.freeAll bs).disk x = k.disk x := by
  induction bs generalizing k with
  | nil => rfl
  | cons b bs ih =>
    have step : k.freeAll (b :: bs) = (k.release b).freeAll bs := rfl
    rw [step, ih, release_disk_of_ne k (other b List.mem_cons_self)]
    intro c member
    rw [release_sb]
    exact other c (List.mem_cons_of_mem _ member)

end FreeAll

/-- The blocks of a list can be freed: they are different blocks in use, and their
buffers are not locked. -/
structure Freeable (k : Kernel) (held : Nat → Prop) (bs : List Nat) : Prop where
  nodup : bs.Nodup
  low : ∀ b ∈ bs, k.sb.dataStart ≤ b
  inside : ∀ b ∈ bs, b < k.sb.logStart
  used : ∀ b ∈ bs, k.used b = true
  loose : ∀ b ∈ bs, ¬ held b

namespace Freeable

variable {k : Kernel} {held : Nat → Prop} {bs cs : List Nat}

theorem left (free : Freeable k held (bs ++ cs)) : Freeable k held bs :=
  ⟨(List.nodup_append.mp free.nodup).1, fun b member => free.low b (List.mem_append_left _ member),
    fun b member => free.inside b (List.mem_append_left _ member),
    fun b member => free.used b (List.mem_append_left _ member),
    fun b member => free.loose b (List.mem_append_left _ member)⟩

/-- What is left can still be freed after the first blocks. -/
theorem right (free : Freeable k held (bs ++ cs)) : Freeable (k.freeAll bs) held cs := by
  obtain ⟨_, nodup, apart⟩ := List.nodup_append.mp free.nodup
  refine ⟨nodup, fun b member => ?_, fun b member => ?_, fun b member => ?_,
    fun b member => free.loose b (List.mem_append_right _ member)⟩
  · rw [freeAll_sb]
    exact free.low b (List.mem_append_right _ member)
  · rw [freeAll_sb]
    exact free.inside b (List.mem_append_right _ member)
  · have absent : b ∉ bs := fun earlier => apart b earlier b member rfl
    rw [freeAll_used, free.used b (List.mem_append_right _ member)]
    simp [absent]

theorem disk (free : Freeable k held bs) (valid : k.sb.Valid) {x : Nat}
    (high : k.sb.dataStart ≤ x) : (k.freeAll bs).disk x = k.disk x :=
  k.freeAll_disk bs fun b member => by
    have := valid.bitmap b (Nat.lt_of_lt_of_le (free.inside b member) k.sb.logStart_le)
    omega

theorem dataOnly (free : Freeable k held bs) (data : DataOnly k held) :
    DataOnly (k.freeAll bs) held := by
  intro x taken
  obtain ⟨low, high, marked⟩ := data x taken
  have absent : x ∉ bs := fun member => free.loose x member taken
  rw [freeAll_sb, freeAll_used, marked]
  exact ⟨low, high, by simp [absent]⟩

end Freeable

end Kernel

/-- The inode without some of its block numbers. -/
def Dinode.clear (din : Dinode) (js : List (Fin (NDIRECT + 2))) : Dinode :=
  { din with addrs := fun j => if j ∈ js then 0 else din.addrs j }

theorem Dinode.clear_setAddr (din : Dinode) (j : Fin (NDIRECT + 2))
    (js : List (Fin (NDIRECT + 2))) : (din.setAddr j 0).clear js = din.clear (j :: js) := by
  simp only [clear, setAddr, Dinode.mk.injEq, true_and]
  funext q
  by_cases same : q = j
  · simp [same]
  · simp [same]

theorem Dinode.setAddr_clear (din : Dinode) (j : Fin (NDIRECT + 2))
    (js : List (Fin (NDIRECT + 2))) : (din.clear js).setAddr j 0 = din.clear (j :: js) := by
  simp only [clear, setAddr, Dinode.mk.injEq, true_and]
  funext q
  by_cases same : q = j
  · simp [same]
  · simp [same]

theorem Dinode.setAddr_zero {din : Dinode} {j : Fin (NDIRECT + 2)} (zero : din.addrs j = 0) :
    din.setAddr j 0 = din := by
  rw [setAddr, ← zero, Function.update_eq_self]

/-- What `bfree` needs: a valid layout, an open transaction, and only blocks of
`held` locked. -/
structure Freer (E : Halt → Kernel → Prop) (held : Nat → Prop) (k : Kernel) : Prop where
  valid : k.sb.Valid
  idle : Idle E k held
  data : DataOnly k held
  trans : Trans E k

theorem Freer.after {E : Halt → Kernel → Prop} {held : Nat → Prop} {k : Kernel} {bs : List Nat}
    (freer : Freer E held k) (free : k.Freeable held bs) : Freer E held (k.freeAll bs) where
  valid := by
    rw [Kernel.freeAll_sb]
    exact freer.valid
  idle := by
    unfold Idle
    rw [(k.freeAll_rest bs).holder]
    exact freer.idle
  data := free.dataOnly freer.data
  trans := by
    unfold Trans
    rw [(k.freeAll_rest bs).owner]
    exact freer.trans

theorem Freer.hold {E : Halt → Kernel → Prop} {held : Nat → Prop} {k : Kernel}
    (freer : Freer E held k) (pid : Nat) {a : Nat} (low : k.sb.dataStart ≤ a)
    (high : a < k.sb.logStart) (used : k.used a = true) :
    Freer E (fun x => x = a ∨ held x) (k.hold pid a) where
  valid := freer.valid
  idle := freer.idle.hold pid a
  data := by
    rintro x (rfl | other)
    · exact ⟨low, high, used⟩
    · exact freer.data x other
  trans := freer.trans

namespace Kernel

theorem freeAll_hold (k : Kernel) (pid a : Nat) (bs : List Nat) :
    (k.hold pid a).freeAll bs = (k.freeAll bs).hold pid a := by
  induction bs generalizing k with
  | nil => rfl
  | cons b bs ih => exact ih (k.release b)

theorem freeAll_setDin (k : Kernel) (ip : InodePtr) (din : Dinode) (bs : List Nat) :
    (k.setDin ip din).freeAll bs = (k.freeAll bs).setDin ip din := by
  induction bs generalizing k with
  | nil => rfl
  | cons b bs ih => exact ih (k.release b)

theorem setDin_setDin (k : Kernel) (ip : InodePtr) (din din' : Dinode) :
    (k.setDin ip din).setDin ip din' = k.setDin ip din' := by
  simp only [setDin, setInode, Function.update_self, Function.update_idem]

theorem setDin_self (k : Kernel) (ip : InodePtr) : k.setDin ip (k.icache ip).din = k := by
  simp only [setDin, setInode, Function.update_eq_self]

theorem setDin_din (k : Kernel) (ip : InodePtr) (din : Dinode) :
    ((k.setDin ip din).icache ip).din = din := by
  rw [setDin, setInode_icache_self]

end Kernel

namespace Fs

/-- The blocks an index block stands for: its entries and itself. -/
def indexBlocks (disk : Nat → Block) (a : Nat) : List Nat :=
  if a = 0 then [] else (entries (disk a)).filter (· ≠ 0) ++ [a]

theorem indexBlocks_congr {disk disk' : Nat → Block} {a : Nat} (same : a ≠ 0 → disk' a = disk a) :
    indexBlocks disk' a = indexBlocks disk a := by
  unfold indexBlocks
  split
  · rfl
  · rename_i real
    rw [same real]

theorem entries_eq (disk : Nat → Block) {a : Nat} (real : a ≠ 0) :
    entries (disk a) = (List.finRange NINDIRECT).map fun j : Fin NINDIRECT => entry disk a j := by
  unfold entries entry
  rw [← List.map_coe_finRange_eq_range, List.map_map]
  refine List.map_congr_left fun j _ => ?_
  rw [if_neg real]
  rfl

theorem filter_entries (disk : Nat → Block) (a : Nat) :
    (((List.finRange NINDIRECT).map fun j : Fin NINDIRECT => entry disk a j) ++ [a]).filter (· ≠ 0) =
      indexBlocks disk a := by
  unfold indexBlocks
  split
  · rename_i none'
    subst none'
    rw [List.filter_eq_nil_iff]
    intro b member
    simp only [entry_zero, List.mem_append, List.mem_map, List.mem_singleton] at member
    simpa using member.elim (fun ⟨_, _, same⟩ => same.symm) id
  · rename_i real
    rw [List.filter_append, ← entries_eq disk real, List.filter_singleton, decide_eq_true real]
    rfl

section Rules

variable {pid : Nat} {A : KOp → Kernel → Prop} {E : Halt → Kernel → Prop} {k : Kernel}
  {held : Nat → Prop} {Q : Unit → Kernel → Prop} (freer : Freer E held k)

include freer

theorem bfree_freer_wp {b : Nat} (free : k.Freeable held [b]) (next : Q () (k.freeAll [b])) :
    Wp pid A E (bfree b) Q k := by
  have member : b ∈ [b] := List.mem_singleton_self b
  refine bfree_wp freer.valid freer.idle freer.data freer.trans
    (Nat.lt_of_lt_of_le (free.inside b member) k.sb.logStart_le) (fun _ => next) fun clear => ?_
  rw [free.used b member] at clear
  cases clear

theorem bfreeAll_wp {bs : List Nat} (free : k.Freeable held (bs.filter (· ≠ 0)))
    (next : Q () (k.freeAll (bs.filter (· ≠ 0)))) : Wp pid A E (bfreeAll bs) Q k := by
  induction bs generalizing k with
  | nil => exact next
  | cons b bs ih =>
    rw [bfreeAll]
    by_cases real : b = 0
    · rw [List.filter_cons_of_neg (by simp [real])] at free next
      refine bind_wp (Prog.wp_when _ _ (fun other => absurd real other) fun _ => ?_)
      exact ih freer free next
    · rw [List.filter_cons_of_pos (by simp [real]), ← List.singleton_append] at free next
      refine bind_wp (Prog.wp_when _ _ (fun _ => ?_) fun none' => absurd real (by simpa using none'))
      refine bfree_freer_wp freer free.left ?_
      rw [Kernel.freeAll_append] at next
      exact ih (freer.after free.left) free.right next

/-- A block is freed after the blocks it lists, which are freed while it is
locked. -/
theorem freeUnder_wp {a : Nat} {cs : List Nat} {g : Block → KProg Unit} {f : Unit → KProg Unit}
    (free : k.Freeable held (cs ++ [a]))
    (inner : ∀ {R : Unit → Kernel → Prop}, Freer E (fun x => x = a ∨ held x) (k.hold pid a) →
      (k.hold pid a).Freeable (fun x => x = a ∨ held x) cs → R () ((k.hold pid a).freeAll cs) →
      Wp pid A E (g (k.disk a)) R (k.hold pid a))
    (next : Wp pid A E (f ()) Q (k.freeAll (cs ++ [a]))) :
    Wp pid A E (bread a >>= fun bp => g bp >>= fun _ => brelse a >>= fun _ => bfree a >>= f)
      Q k := by
  have member : a ∈ cs ++ [a] := List.mem_append_right _ (List.mem_singleton_self a)
  refine bind_wp (bread_wp (freer.idle.free (free.loose a member)) fun _ open' => ?_)
  have freer' := freer.hold pid (free.low a member) (free.inside a member) (free.used a member)
  have apart := (List.nodup_append.mp free.nodup).2.2
  have left := free.left
  refine bind_wp (inner freer' ⟨left.nodup, left.low, left.inside, left.used, fun b listed => ?_⟩ ?_)
  · rintro (same | taken)
    · exact apart b listed a (List.mem_singleton_self a) same
    · exact left.loose b listed taken
  · rw [Kernel.freeAll_hold]
    refine bind_wp (brelse_wp (by simp) ?_)
    rw [Kernel.unhold_hold]
    · rw [Kernel.freeAll_append] at next
      exact bind_wp (bfree_freer_wp (freer.after left) free.right next)
    · rw [(k.freeAll_rest _).holder]
      exact open'

theorem truncIndex_wp {a : Nat} (real : a ≠ 0) (free : k.Freeable held (indexBlocks k.disk a))
    (next : Q () (k.freeAll (indexBlocks k.disk a))) : Wp pid A E (truncIndex a) Q k := by
  rw [indexBlocks, if_neg real] at free next
  rw [truncIndex, ← Prog.bind_ret (bfree a)]
  exact freeUnder_wp freer free (fun freer' free' goal => bfreeAll_wp freer' free' goal) next

theorem truncIndexes_wp {as : List Nat} (low : ∀ a ∈ as, a ≠ 0 → k.sb.dataStart ≤ a)
    (free : k.Freeable held (as.flatMap (indexBlocks k.disk)))
    (next : Q () (k.freeAll (as.flatMap (indexBlocks k.disk)))) :
    Wp pid A E (truncIndexes as) Q k := by
  induction as generalizing k with
  | nil => exact next
  | cons a as ih =>
    rw [List.flatMap_cons] at free next
    rw [truncIndexes]
    have rest := fun b member => low b (List.mem_cons_of_mem a member)
    by_cases real : a = 0
    · have nothing : indexBlocks k.disk a = [] := if_pos real
      rw [nothing, List.nil_append] at free next
      refine bind_wp (Prog.wp_when _ _ (fun other => absurd real other) fun _ => ?_)
      exact ih freer rest free next
    · refine bind_wp (Prog.wp_when _ _ (fun _ => ?_) fun none' => absurd real (by simpa using none'))
      refine truncIndex_wp freer real free.left ?_
      have same : as.flatMap (indexBlocks (k.freeAll (indexBlocks k.disk a)).disk) =
          as.flatMap (indexBlocks k.disk) :=
        List.flatMap_congr fun b member => indexBlocks_congr fun other =>
          free.left.disk freer.valid (rest b member other)
      rw [Kernel.freeAll_append] at next
      refine ih (freer.after free.left) (fun b member other => ?_) ?_ ?_
      · rw [Kernel.freeAll_sb]
        exact rest b member other
      · rw [same]
        exact free.right
      · rw [same]
        exact next

theorem truncSingle_wp {ip : InodePtr} {j : Fin (NDIRECT + 2)}
    (free : k.Freeable held (indexBlocks k.disk ((k.icache ip).din.addrs j)))
    (next : Q () ((k.freeAll (indexBlocks k.disk ((k.icache ip).din.addrs j))).setDin ip
      ((k.icache ip).din.setAddr j 0))) : Wp pid A E (Prog.when ((k.icache ip).din.addrs j ≠ 0) do
      truncIndex ((k.icache ip).din.addrs j)
      setAddr ip j 0) Q k := by
  refine Prog.wp_when _ _ (fun real => ?_) fun none' => ?_
  · refine bind_wp (truncIndex_wp freer real free (setAddr_wp ?_))
    rw [Kernel.freeAll_icache]
    exact next
  · have none' : (k.icache ip).din.addrs j = 0 := by simpa using none'
    rw [Dinode.setAddr_zero none', none', indexBlocks, if_pos rfl] at next
    exact k.setDin_self ip ▸ next

theorem truncDouble_wp {ip : InodePtr} {j : Fin (NDIRECT + 2)} {bs : List Nat}
    (blocks : bs = ((List.finRange NINDIRECT).map fun l : Fin NINDIRECT =>
      entry k.disk ((k.icache ip).din.addrs j) l).flatMap (indexBlocks k.disk) ++
        [(k.icache ip).din.addrs j].filter (· ≠ 0))
    (low : ∀ l : Fin NINDIRECT, entry k.disk ((k.icache ip).din.addrs j) l ≠ 0 →
      k.sb.dataStart ≤ entry k.disk ((k.icache ip).din.addrs j) l)
    (free : k.Freeable held bs)
    (next : Q () ((k.freeAll bs).setDin ip ((k.icache ip).din.setAddr j 0))) :
    Wp pid A E (Prog.when ((k.icache ip).din.addrs j ≠ 0) do
      let dbp ← bread ((k.icache ip).din.addrs j)
      truncIndexes (entries dbp)
      brelse ((k.icache ip).din.addrs j)
      bfree ((k.icache ip).din.addrs j)
      setAddr ip j 0) Q k := by
  refine Prog.wp_when _ _ (fun real => ?_) fun none' => ?_
  · have last : [(k.icache ip).din.addrs j].filter (· ≠ 0) = [(k.icache ip).din.addrs j] := by
      rw [List.filter_singleton, decide_eq_true real]
      rfl
    rw [last, ← entries_eq k.disk real] at blocks
    subst blocks
    refine freeUnder_wp freer (g := fun dbp => truncIndexes (entries dbp))
      (f := fun _ => setAddr ip j 0) free (fun freer' free' goal => ?_) (setAddr_wp ?_)
    · refine truncIndexes_wp freer' (fun a member => ?_) free' goal
      rw [entries_eq k.disk real] at member
      obtain ⟨l, _, rfl⟩ := List.mem_map.mp member
      exact low l
    · rw [Kernel.freeAll_icache]
      exact next
  · have none' : (k.icache ip).din.addrs j = 0 := by simpa using none'
    have nothing : bs = [] := by
      rw [blocks, none', List.append_eq_nil_iff, List.flatMap_eq_nil_iff]
      refine ⟨fun a member => ?_, rfl⟩
      obtain ⟨l, _, rfl⟩ := List.mem_map.mp member
      rw [entry_zero]
      exact if_pos rfl
    rw [nothing, Dinode.setAddr_zero none'] at next
    exact k.setDin_self ip ▸ next

theorem truncDirect_wp {ip : InodePtr} {js : List (Fin (NDIRECT + 2))} (nodup : js.Nodup)
    (free : k.Freeable held ((js.map (k.icache ip).din.addrs).filter (· ≠ 0)))
    (next : Q () ((k.freeAll ((js.map (k.icache ip).din.addrs).filter (· ≠ 0))).setDin ip
      ((k.icache ip).din.clear js))) : Wp pid A E (truncDirect ip js) Q k := by
  induction js generalizing k with
  | nil =>
    have same : (k.icache ip).din.clear [] = (k.icache ip).din := by simp [Dinode.clear]
    rw [same] at next
    exact (k.setDin_self ip) ▸ next
  | cons j js ih =>
    obtain ⟨first, nodup⟩ := List.nodup_cons.mp nodup
    rw [truncDirect]
    refine bind_wp (getInode_wp ?_)
    rw [List.map_cons] at free next
    by_cases real : (k.icache ip).din.addrs j = 0
    · rw [List.filter_cons_of_neg (by simp [real])] at free next
      rw [← Dinode.clear_setAddr, Dinode.setAddr_zero real] at next
      refine bind_wp (Prog.wp_when _ _ (fun other => absurd real other) fun _ => ?_)
      exact ih freer nodup free next
    · rw [List.filter_cons_of_pos (by simp [real]), ← List.singleton_append] at free next
      refine bind_wp (Prog.wp_when _ _ (fun _ => ?_) fun none' => absurd real (by simpa using none'))
      refine bind_wp (bfree_freer_wp freer free.left (setAddr_wp ?_))
      rw [Kernel.freeAll_icache]
      have others : js.map ((k.icache ip).din.setAddr j 0).addrs = js.map (k.icache ip).din.addrs :=
        List.map_congr_left fun q member => Dinode.setAddr_addrs_of_ne _ _ fun same =>
          first (same ▸ member)
      have freer' := freer.after free.left
      have right := free.right
      have self := (k.freeAll [(k.icache ip).din.addrs j]).setDin_din ip
        ((k.icache ip).din.setAddr j 0)
      refine ih ⟨freer'.valid, freer'.idle, freer'.data, freer'.trans⟩ nodup ?_ ?_
      · rw [self, others]
        exact ⟨right.nodup, right.low, right.inside, right.used, right.loose⟩
      · rw [self, others, Kernel.freeAll_setDin, Kernel.setDin_setDin, Dinode.clear_setAddr,
          ← Kernel.freeAll_append]
        exact next

end Rules

end Fs

namespace Kernel

/-- `itrunc`: all blocks are freed and the inode is written back empty. -/
def trunc (k : Kernel) (ip : InodePtr) : Kernel :=
  (k.freeAll ((k.icache ip).din.blocks k.disk)).update ip
    { (k.icache ip).din with size := 0, addrs := fun _ => 0 }

end Kernel

/-- The blocks of an inode, level by level. -/
theorem Dinode.blocks_eq (din : Dinode) (disk : Nat → Block) : din.blocks disk =
    (Fs.directs.map din.addrs).filter (· ≠ 0) ++ Fs.indexBlocks disk (din.addrs INDIRECT) ++
      (((List.finRange NINDIRECT).map fun j : Fin NINDIRECT =>
        entry disk (din.addrs DINDIRECT) j).flatMap (Fs.indexBlocks disk) ++
        [din.addrs DINDIRECT].filter (· ≠ 0)) := by
  have top (j : Fin (NDIRECT + 2)) : (Slot.top j).addr disk din = din.addrs j := rfl
  have ind (j : Fin NINDIRECT) : (Slot.ind j).addr disk din =
      entry disk (din.addrs INDIRECT) j := rfl
  have mid (j : Fin NINDIRECT) : (Slot.mid j).addr disk din =
      entry disk (din.addrs DINDIRECT) j := rfl
  have leaf (j l : Fin NINDIRECT) : (Slot.leaf j l).addr disk din =
      entry disk (entry disk (din.addrs DINDIRECT) j) l := rfl
  have under (j : Fin NINDIRECT) : ((Slot.under j).map fun s => s.addr disk din).filter (· ≠ 0) =
        Fs.indexBlocks disk (entry disk (din.addrs DINDIRECT) j) := by
    rw [← Fs.filter_entries]
    simp only [Slot.under, List.map_append, List.map_map, Function.comp_def, List.map_cons,
      List.map_nil, mid, leaf]
  have direct : ((Fs.directs.map Slot.top).map fun s => s.addr disk din) =
      Fs.directs.map din.addrs := by
    simp only [List.map_map, Function.comp_def, top]
  have single : (((List.finRange NINDIRECT).map Slot.ind ++ [Slot.top INDIRECT]).map
      fun s => s.addr disk din) = ((List.finRange NINDIRECT).map fun j : Fin NINDIRECT =>
        entry disk (din.addrs INDIRECT) j) ++ [din.addrs INDIRECT] := by
    simp only [List.map_append, List.map_map, Function.comp_def, List.map_cons, List.map_nil, top,
      ind]
  have double : (((List.finRange NINDIRECT).flatMap Slot.under).map
      fun s => s.addr disk din).filter (· ≠ 0) =
      ((List.finRange NINDIRECT).map fun j : Fin NINDIRECT =>
        entry disk (din.addrs DINDIRECT) j).flatMap (Fs.indexBlocks disk) := by
    rw [List.map_flatMap, List.filter_flatMap, List.flatMap_map]
    exact List.flatMap_congr fun j _ => under j
  rw [blocks, Slot.all, List.map_append, List.map_append, direct, single, List.map_append,
    List.filter_append, List.filter_append, Fs.filter_entries, List.filter_append, double,
    List.map_cons, List.map_nil, top]

namespace Kernel

/-- A state in the middle of `itrunc`: some blocks are freed, and some of the
inode's block numbers cleared. -/
def purge (k : Kernel) (ip : InodePtr) (bs : List Nat) (js : List (Fin (NDIRECT + 2))) : Kernel :=
  (k.freeAll bs).setDin ip ((k.icache ip).din.clear js)

section Purge

variable {k : Kernel} {ip : InodePtr} {bs cs : List Nat} {js : List (Fin (NDIRECT + 2))}
  {held : Nat → Prop}

theorem purge_din : ((k.purge ip bs js).icache ip).din = (k.icache ip).din.clear js :=
  setDin_din ..

theorem purge_addr {j : Fin (NDIRECT + 2)} (other : j ∉ js) :
    ((k.purge ip bs js).icache ip).din.addrs j = (k.icache ip).din.addrs j := by
  rw [purge_din]
  exact if_neg other

theorem purge_step (j : Fin (NDIRECT + 2)) : ((k.purge ip bs js).freeAll cs).setDin ip
    (((k.purge ip bs js).icache ip).din.setAddr j 0) = k.purge ip (bs ++ cs) (j :: js) := by
  rw [purge_din, purge, freeAll_setDin, setDin_setDin, Dinode.setAddr_clear, ← freeAll_append,
    purge]

theorem Freeable.purge (free : k.Freeable held (bs ++ cs)) : (k.purge ip bs js).Freeable held cs :=
  have right := free.right
  ⟨right.nodup, right.low, right.inside, right.used, right.loose⟩

end Purge

end Kernel

theorem Freer.purge {E : Halt → Kernel → Prop} {held : Nat → Prop} {k : Kernel} {bs : List Nat}
    (freer : Freer E held k) (free : k.Freeable held bs) (ip : InodePtr)
    (js : List (Fin (NDIRECT + 2))) : Freer E held (k.purge ip bs js) :=
  have after := freer.after free
  ⟨after.valid, after.idle, after.data, after.trans⟩

namespace Fs

section Purge

variable {pid : Nat} {A : KOp → Kernel → Prop} {E : Halt → Kernel → Prop} {k : Kernel}
  {held : Nat → Prop} {Q : Unit → Kernel → Prop} {ip : InodePtr} {bs cs : List Nat}
  {js : List (Fin (NDIRECT + 2))} {j : Fin (NDIRECT + 2)} (freer : Freer E held k)
  (free : k.Freeable held (bs ++ cs)) (other : j ∉ js)

include freer free other

theorem truncSingle_purge_wp
    (low : (k.icache ip).din.addrs j ≠ 0 → k.sb.dataStart ≤ (k.icache ip).din.addrs j)
    (blocks : cs = indexBlocks k.disk ((k.icache ip).din.addrs j))
    (next : Q () (k.purge ip (bs ++ cs) (j :: js))) :
    Wp pid A E (Prog.when (((k.purge ip bs js).icache ip).din.addrs j ≠ 0) do
      truncIndex (((k.purge ip bs js).icache ip).din.addrs j)
      setAddr ip j 0) Q (k.purge ip bs js) := by
  have same : indexBlocks (k.purge ip bs js).disk (((k.purge ip bs js).icache ip).din.addrs j) =
      cs := by
    rw [Kernel.purge_addr other, blocks]
    exact indexBlocks_congr fun real => free.left.disk freer.valid (low real)
  refine truncSingle_wp (freer.purge free.left ip js) ?_ ?_
  · rw [same]
    exact free.purge
  · rw [same, Kernel.purge_step]
    exact next

theorem truncDouble_purge_wp
    (low : (k.icache ip).din.addrs j ≠ 0 → k.sb.dataStart ≤ (k.icache ip).din.addrs j)
    (low' : ∀ l : Fin NINDIRECT, entry k.disk ((k.icache ip).din.addrs j) l ≠ 0 →
      k.sb.dataStart ≤ entry k.disk ((k.icache ip).din.addrs j) l)
    (blocks : cs = ((List.finRange NINDIRECT).map fun l : Fin NINDIRECT =>
      entry k.disk ((k.icache ip).din.addrs j) l).flatMap (indexBlocks k.disk) ++
        [(k.icache ip).din.addrs j].filter (· ≠ 0))
    (next : Q () (k.purge ip (bs ++ cs) (j :: js))) :
    Wp pid A E (Prog.when (((k.purge ip bs js).icache ip).din.addrs j ≠ 0) do
      let dbp ← bread (((k.purge ip bs js).icache ip).din.addrs j)
      truncIndexes (entries dbp)
      brelse (((k.purge ip bs js).icache ip).din.addrs j)
      bfree (((k.purge ip bs js).icache ip).din.addrs j)
      setAddr ip j 0) Q (k.purge ip bs js) := by
  have disk {x : Nat} (high : k.sb.dataStart ≤ x) : (k.purge ip bs js).disk x = k.disk x :=
    free.left.disk freer.valid high
  have sb : (k.purge ip bs js).sb = k.sb := k.freeAll_sb bs
  have same (l : Nat) : entry (k.purge ip bs js).disk ((k.icache ip).din.addrs j) l =
      entry k.disk ((k.icache ip).din.addrs j) l := by
    unfold entry
    split
    · rfl
    · rename_i real
      rw [disk (low real)]
  refine truncDouble_wp (freer.purge free.left ip js) ?_ (fun l real => ?_) free.purge ?_
  · rw [blocks, Kernel.purge_addr other]
    simp only [same, List.flatMap_map]
    rw [List.flatMap_congr fun l _ => indexBlocks_congr fun real => disk (low' l real)]
  · rw [Kernel.purge_addr other, same] at real ⊢
    rw [sb]
    exact low' l real
  · rw [Kernel.purge_step]
    exact next

end Purge

def freeBlocks (ip : InodePtr) : KProg Unit := do
  truncDirect ip directs
  let e ← getInode ip
  Prog.when (e.din.addrs INDIRECT ≠ 0) do
    truncIndex (e.din.addrs INDIRECT)
    setAddr ip INDIRECT 0
  let e ← getInode ip
  Prog.when (e.din.addrs DINDIRECT ≠ 0) do
    let dbp ← bread (e.din.addrs DINDIRECT)
    truncIndexes (entries dbp)
    brelse (e.din.addrs DINDIRECT)
    bfree (e.din.addrs DINDIRECT)
    setAddr ip DINDIRECT 0

def clearInode (ip : InodePtr) : KProg Unit := do
  let e ← getInode ip
  setDin ip { e.din with size := 0 }
  iupdate ip

theorem itrunc_split (ip : InodePtr) : itrunc ip = freeBlocks ip >>= fun _ => clearInode ip := by
  simp only [itrunc, freeBlocks, clearInode, Prog.bind_assoc]

/-- All of `addrs`, in the order in which `itrunc` clears them. -/
def allAddrs : List (Fin (NDIRECT + 2)) := DINDIRECT :: INDIRECT :: directs

section Itrunc

variable {pid : Nat} {A : KOp → Kernel → Prop} {E : Halt → Kernel → Prop} {k : Kernel}
  {ip : InodePtr} {Q : Unit → Kernel → Prop} (freer : Freer E (fun _ => False) k)
  (free : k.Freeable (fun _ => False) ((k.icache ip).din.blocks k.disk))

include freer free

theorem freeBlocks_wp (next : Q () (k.purge ip ((k.icache ip).din.blocks k.disk) allAddrs)) :
    Wp pid A E (freeBlocks ip) Q k := by
  have low (s : Slot) (real : s.addr k.disk (k.icache ip).din ≠ 0) :
      k.sb.dataStart ≤ s.addr k.disk (k.icache ip).din :=
    free.low _ (Dinode.mem_blocks.mpr ⟨real, s, rfl⟩)
  rw [Dinode.blocks_eq] at free next
  have apart : INDIRECT ∉ directs ∧ DINDIRECT ∉ INDIRECT :: directs := by decide
  refine bind_wp (truncDirect_wp freer (by decide) free.left.left ?_)
  refine bind_wp (getInode_wp (bind_wp ?_))
  refine truncSingle_purge_wp freer free.left apart.1 (low (.top INDIRECT)) rfl ?_
  refine bind_wp (getInode_wp ?_)
  exact truncDouble_purge_wp freer free apart.2 (low (.top DINDIRECT)) (fun l => low (.mid l))
    rfl next

/-- `itrunc` frees all blocks of the inode. -/
theorem itrunc_freer_wp (next : Q () (k.trunc ip)) : Wp pid A E (itrunc ip) Q k := by
  rw [itrunc_split]
  refine bind_wp (freeBlocks_wp freer free ?_)
  have all : ∀ j, j ∈ allAddrs := by decide
  have after := freer.purge free ip allAddrs
  refine bind_wp (getInode_wp (bind_wp (setDin_wp ?_)))
  refine iupdate_wp (after.idle.free id) after.trans ?_
  have din : ({ (k.icache ip).din.clear allAddrs with size := 0 } : Dinode) =
      { (k.icache ip).din with size := 0, addrs := fun _ => 0 } := by
    simp only [Dinode.clear, all, if_true]
  rw [Kernel.purge_din, Kernel.purge, Kernel.setDin_setDin, din]
  exact next

end Itrunc

end Fs

namespace Kernel

def emptied (k : Kernel) (ip : InodePtr) : Dinode :=
  { (k.icache ip).din with size := 0, addrs := fun _ => 0 }

section Trunc

variable {k : Kernel} {ip : InodePtr}

theorem vol_node (k : Kernel) : k.vol.node = k.node := rfl

theorem setDin_sb (k : Kernel) (ip : InodePtr) (din : Dinode) : (k.setDin ip din).sb = k.sb := rfl

theorem setDin_used (k : Kernel) (ip : InodePtr) (din : Dinode) :
    (k.setDin ip din).used = k.used := rfl

theorem trunc_eq : k.trunc ip =
    (k.freeAll ((k.icache ip).din.blocks k.disk)).update ip (k.emptied ip) := rfl

theorem trunc_icache : (k.trunc ip).icache =
    Function.update k.icache ip { k.icache ip with din := k.emptied ip } := by
  rw [trunc_eq, update_icache, freeAll_icache]

theorem freeAll_onDisk (bs : List Nat) {i : Nat} (inside : i < k.sb.ninodes) :
    (k.freeAll bs).onDisk i = k.onDisk i := by
  rw [onDisk, k.freeAll_disk, onDisk]
  intro b _
  have := IBLOCK_lt_BBLOCK b inside
  omega

theorem emptied_fits (fits : (k.icache ip).din.Fits) : (k.emptied ip).Fits :=
  ⟨fits.type, fits.major, fits.minor, fits.nlink, Nat.two_pow_pos 32, fun _ => Nat.two_pow_pos 32⟩

theorem trunc_onDisk (fits : (k.icache ip).din.Fits) {i : Nat} (inside : i < k.sb.ninodes) :
    (k.trunc ip).onDisk i = if i = (k.icache ip).inum then k.emptied ip else k.onDisk i := by
  rw [trunc_eq, update_onDisk (emptied_fits fits), freeAll_icache, freeAll_onDisk _ inside]

/-- The bits of the inode's blocks are cleared, and no others. -/
theorem trunc_used (table : (k.icache ip).inum < k.sb.ninodes) (x : Nat) : (k.trunc ip).used x =
    (!decide (x ∈ (k.icache ip).din.blocks k.disk) && k.used x) := by
  have apart := IBLOCK_lt_BBLOCK x table
  rw [← freeAll_used, trunc_eq, update_eq, store_used _ _ (IBLOCK_ne_one _), setDin_used]
  rw [freeAll_icache, setDin_sb, freeAll_sb]
  omega

/-- Only bitmap sectors and the sector of the inode are written. -/
theorem trunc_disk_of_ne {x : Nat}
    (bitmap : ∀ b ∈ (k.icache ip).din.blocks k.disk, x ≠ BBLOCK b k.sb.ninodes)
    (table : x ≠ IBLOCK (k.icache ip).inum) : (k.trunc ip).disk x = k.disk x := by
  rw [trunc_eq, update_eq, store_disk_of_ne]
  · exact k.freeAll_disk _ bitmap
  · rw [freeAll_icache]
    exact table

variable (sound : k.Sound) (held : k.Held ip)

include sound held

end Trunc

end Kernel

end SirpairOs
