import SirpairOs.Lib.Exclusive
import SirpairOs.Fs.Layout

/-! The block numbers of an inode: its direct and index entries and the entries
of its index blocks. The kernel and `mkfs` both work on this tree. -/
namespace SirpairOs

/-- A place of an inode's block tree that can hold a block number. -/
inductive Slot where
  /-- One of `addrs`. -/
  | top (j : Fin (NDIRECT + 2))
  /-- An entry of the indirect block. -/
  | ind (j : Fin NINDIRECT)
  /-- An entry of the double-indirect block. -/
  | mid (j : Fin NINDIRECT)
  /-- An entry of one of the blocks the double-indirect block lists. -/
  | leaf (j l : Fin NINDIRECT)
  deriving DecidableEq

def Dinode.setAddr (din : Dinode) (j : Fin (NDIRECT + 2)) (b : Nat) : Dinode :=
  { din with addrs := Function.update din.addrs j b }

@[simp] theorem Dinode.setAddr_addrs_self (din : Dinode) (j : Fin (NDIRECT + 2)) (b : Nat) :
    (din.setAddr j b).addrs j = b := Function.update_self ..

theorem Dinode.setAddr_addrs_of_ne (din : Dinode) {j q : Fin (NDIRECT + 2)} (b : Nat)
    (apart : q ≠ j) : (din.setAddr j b).addrs q = din.addrs q := Function.update_of_ne apart ..

def entry (disk : Nat → Block) (a j : Nat) : Nat := if a = 0 then 0 else (disk a).num (4 * j) 4

namespace Slot

/-- The slot of the index block that holds this slot, and the place in it. -/
def parent : Slot → Option (Slot × Fin NINDIRECT)
  | top _ => none
  | ind j => some (top INDIRECT, j)
  | mid j => some (top DINDIRECT, j)
  | leaf j l => some (mid j, l)

def addr (disk : Nat → Block) (din : Dinode) : Slot → Nat
  | top j => din.addrs j
  | ind j => entry disk (din.addrs INDIRECT) j
  | mid j => entry disk (din.addrs DINDIRECT) j
  | leaf j l => entry disk (entry disk (din.addrs DINDIRECT) j) l

/-- The slot of the `bn`th block of a file. -/
def ofBlock (bn : Nat) : Option Slot :=
  if h : bn < NDIRECT then some (top ⟨bn, by omega⟩)
  else if h : bn - NDIRECT < NINDIRECT then some (ind ⟨bn - NDIRECT, h⟩)
  else if h : bn - NDIRECT - NINDIRECT < NDINDIRECT then
    some (leaf ⟨(bn - NDIRECT - NINDIRECT) / NINDIRECT, Nat.div_lt_of_lt_mul h⟩
      ⟨(bn - NDIRECT - NINDIRECT) % NINDIRECT, Nat.mod_lt _ (by decide)⟩)
  else none

def line : Slot → List Slot
  | top j => [top j]
  | ind j => [top INDIRECT, ind j]
  | mid j => [top DINDIRECT, mid j]
  | leaf j l => [top DINDIRECT, mid j, leaf j l]

section Line

variable {α : Type} (f : α → Slot → α) (a : α)

theorem foldl_line_top (j : Fin (NDIRECT + 2)) : (top j).line.foldl f a = f a (top j) := rfl

theorem foldl_line_ind (j : Fin NINDIRECT) :
    (ind j).line.foldl f a = f (f a (top INDIRECT)) (ind j) := rfl

theorem foldl_line_leaf (j l : Fin NINDIRECT) :
    (leaf j l).line.foldl f a = f (f (f a (top DINDIRECT)) (mid j)) (leaf j l) := rfl

end Line

def IsIndex (s : Slot) : Prop := ∃ t p, parent t = some (s, p)

theorem parent_inj {s t p : Slot} {j : Fin NINDIRECT} (left : s.parent = some (p, j))
    (right : t.parent = some (p, j)) : s = t := by
  cases s <;> cases t <;> simp_all [parent, INDIRECT, DINDIRECT]
  all_goals grind

variable {disk : Nat → Block} {din : Dinode}

theorem addr_of_parent {s p : Slot} {j : Fin NINDIRECT} (above : s.parent = some (p, j)) :
    s.addr disk din = entry disk (p.addr disk din) j := by
  cases s with
  | top j => cases above
  | ind j | mid j | leaf j l => cases above; rfl

theorem addr_congr {disk' : Nat → Block} (same : ∀ p : Slot, p.IsIndex → p.addr disk din ≠ 0 →
      disk' (p.addr disk din) = disk (p.addr disk din)) (s : Slot) :
    s.addr disk' din = s.addr disk din := by
  have entries {a : Nat} (j : Nat) (block : a ≠ 0 → disk' a = disk a) :
      entry disk' a j = entry disk a j := by
    unfold entry
    split
    · rfl
    · rename_i real
      rw [block real]
  cases s with
  | top j => rfl
  | ind j => exact entries j (same (top INDIRECT) ⟨ind j, j, rfl⟩)
  | mid j => exact entries j (same (top DINDIRECT) ⟨mid j, j, rfl⟩)
  | leaf j l =>
    have above : entry disk' (din.addrs DINDIRECT) j = entry disk (din.addrs DINDIRECT) j :=
      entries j (same (top DINDIRECT) ⟨mid j, j, rfl⟩)
    rw [addr, above]
    exact entries l (same (mid j) ⟨leaf j l, l, rfl⟩)

/-- Only the block numbers of the inode matter. -/
theorem addr_din_congr {din' : Dinode} (same : din'.addrs = din.addrs) (s : Slot) :
    s.addr disk din' = s.addr disk din := by
  cases s <;> simp only [addr, same]

theorem addr_zero (zero : ∀ j, din.addrs j = 0) (s : Slot) : s.addr disk din = 0 := by
  cases s <;> simp [addr, entry, zero]

end Slot

theorem entry_zero (disk : Nat → Block) (j : Nat) : entry disk 0 j = 0 := if_pos rfl

theorem entry_blank {disk : Nat → Block} {a : Nat} (blank : disk a = Bytes.zero) (j : Nat) :
    entry disk a j = 0 := by
  unfold entry
  rw [blank]
  simp

theorem entry_put {disk : Nat → Block} {a a' b : Nat} {j j' : Fin NINDIRECT} (real : a ≠ 0)
    (small : b < 2 ^ 32) : entry (Function.update disk a ((disk a).setNum (4 * j) 4 b)) a' j' =
      if a' = a ∧ j' = j then b else entry disk a' j' := by
  have bound := j.isLt
  have bound' := j'.isLt
  unfold NINDIRECT at bound bound'
  unfold entry
  by_cases block : a' = a
  · subst block
    rw [if_neg real, if_neg real, Function.update_self]
    by_cases place : j' = j
    · subst place
      rw [if_pos ⟨rfl, rfl⟩, Bytes.num_setNum_same _ _ _ _ (by omega)]
      exact Nat.mod_eq_of_lt small
    · have apart : (j' : Nat) ≠ j := fun same => place (Fin.ext same)
      rw [if_neg fun both => place both.2, Bytes.num_setNum_disjoint _ _ _ _ _ _ (by omega)]
  · have elsewhere : ¬ (a' = a ∧ j' = j) := fun both => block both.1
    rw [if_neg elsewhere, Function.update_of_ne block]

namespace Slot

variable {bn : Nat} {s : Slot}

theorem ofBlock_cases (found : ofBlock bn = some s) :
    (∃ small : bn < NDIRECT, s = top ⟨bn, by omega⟩) ∨
    (¬ bn < NDIRECT ∧ ∃ small : bn - NDIRECT < NINDIRECT, s = ind ⟨bn - NDIRECT, small⟩) ∨
    (¬ bn < NDIRECT ∧ ¬ bn - NDIRECT < NINDIRECT ∧ bn - NDIRECT - NINDIRECT < NDINDIRECT ∧
      ∃ j l : Fin NINDIRECT, s = leaf j l ∧ (bn - NDIRECT - NINDIRECT) / NINDIRECT = j ∧
        (bn - NDIRECT - NINDIRECT) % NINDIRECT = l) := by
  unfold ofBlock at found
  split at found
  · rename_i small
    exact .inl ⟨small, (Option.some.inj found).symm⟩
  rename_i large
  split at found
  · rename_i small
    exact .inr (.inl ⟨large, small, (Option.some.inj found).symm⟩)
  rename_i large'
  split at found
  · rename_i small
    exact .inr (.inr ⟨large, large', small, _, _, (Option.some.inj found).symm, rfl, rfl⟩)
  · cases found

theorem exists_ofBlock (inside : bn < MAXFILE) : ∃ s, ofBlock bn = some s := by
  have third : ¬ bn < NDIRECT → ¬ bn - NDIRECT < NINDIRECT →
      bn - NDIRECT - NINDIRECT < NDINDIRECT := by
    unfold MAXFILE at inside
    omega
  unfold ofBlock
  by_cases direct : bn < NDIRECT
  · exact ⟨_, dif_pos direct⟩
  rw [dif_neg direct]
  by_cases single : bn - NDIRECT < NINDIRECT
  · exact ⟨_, dif_pos single⟩
  rw [dif_neg single]
  exact ⟨_, dif_pos (third direct single)⟩

theorem ofBlock_not_isIndex (found : ofBlock bn = some s) : ¬ s.IsIndex := by
  rintro ⟨t, p, above⟩
  rcases ofBlock_cases found with ⟨small, rfl⟩ | ⟨_, _, rfl⟩ | ⟨_, _, _, j, l, rfl, _, _⟩
  · cases t <;> simp [parent, INDIRECT, DINDIRECT] at above <;> omega
  · cases t <;> simp [parent] at above
  · cases t <;> simp [parent] at above

/-- The block of the file a data slot belongs to. -/
def position : Slot → Nat
  | top j => j
  | ind j => NDIRECT + j
  | mid _ => 0
  | leaf j l => NDIRECT + NINDIRECT + NINDIRECT * j + l

theorem position_ofBlock (found : ofBlock bn = some s) : s.position = bn := by
  rcases ofBlock_cases found with ⟨small, rfl⟩ | ⟨_, _, rfl⟩ | ⟨_, _, _, j, l, rfl, div, mod⟩
  · rfl
  · simp only [position]
    omega
  · have parts := Nat.div_add_mod (bn - NDIRECT - NINDIRECT) NINDIRECT
    rw [div, mod] at parts
    simp only [position]
    omega

theorem ofBlock_inj {bn' : Nat} (found : ofBlock bn = some s) (found' : ofBlock bn' = some s) :
    bn = bn' :=
  (position_ofBlock found).symm.trans (position_ofBlock found')

end Slot

structure Volume where
  disk : Nat → Block
  node : Nat → Dinode

namespace Volume

/-- The block number in a slot of inode `i`. -/
def addr (v : Volume) (i : Nat) (s : Slot) : Nat := s.addr v.disk (v.node i)

/-- The contents of the `bn`th block of inode `i`; a hole reads as zeros. -/
def body (v : Volume) (i bn : Nat) : Block :=
  match Slot.ofBlock bn with
  | none => Bytes.zero
  | some s => if v.addr i s = 0 then Bytes.zero else v.disk (v.addr i s)

/-- The block number of the `bn`th block of inode `i`, zero for a hole. -/
def blockAddr (v : Volume) (i bn : Nat) : Nat :=
  match Slot.ofBlock bn with
  | none => 0
  | some s => v.addr i s

theorem blockAddr_of {bn : Nat} {s : Slot} (found : Slot.ofBlock bn = some s) (v : Volume)
    (i : Nat) : v.blockAddr i bn = v.addr i s := by
  rw [blockAddr, found]

theorem body_eq (v : Volume) (i bn : Nat) : v.body i bn =
    if v.blockAddr i bn = 0 then Bytes.zero else v.disk (v.blockAddr i bn) := by
  unfold body blockAddr
  cases Slot.ofBlock bn with
  | none => rfl
  | some s => rfl

def byteAt (v : Volume) (i x : Nat) : UInt8 := (v.body i (x / BSIZE)).byte (x % BSIZE)

def bytes (v : Volume) (i off n : Nat) : List UInt8 :=
  (List.range n).map fun t => v.byteAt i (off + t)

theorem bytes_split (v : Volume) (i off : Nat) {m n : Nat} (part : m ≤ n) :
    v.bytes i off n = v.bytes i off m ++ v.bytes i (off + m) (n - m) := by
  obtain ⟨d, rfl⟩ := Nat.exists_eq_add_of_le part
  rw [Nat.add_sub_cancel_left, bytes, List.range_add, List.map_append, List.map_map]
  congr 2
  funext t
  simp only [Function.comp_apply, Nat.add_assoc]

theorem bytes_block (v : Volume) (i off : Nat) {m : Nat} (fits : off % BSIZE + m ≤ BSIZE) :
    v.bytes i off m = (v.body i (off / BSIZE)).slice (off % BSIZE) m := by
  refine List.map_congr_left fun t member => ?_
  have inside := List.mem_range.mp member
  unfold BSIZE at *
  have div : (off + t) / 512 = off / 512 := by omega
  have mod : (off + t) % 512 = off % 512 + t := by omega
  rw [byteAt]
  unfold BSIZE
  rw [div, mod]

/-- No two slots share a block; the blocks lie in `[lo, hi)` and are in use. -/
structure Owned (v : Volume) (used : Nat → Prop) (lo hi : Nat) : Prop where
  exclusive : Exclusive (fun p : Nat × Slot => v.addr p.1 p.2) used
  region : ∀ i s, v.addr i s ≠ 0 → lo ≤ v.addr i s ∧ v.addr i s < hi

variable {v : Volume} {lo hi : Nat} {used : Nat → Prop}

namespace Owned

variable (own : v.Owned used lo hi)

include own

theorem inj {i i' : Nat} {s s' : Slot} (real : v.addr i s ≠ 0)
    (same : v.addr i s = v.addr i' s') : i = i' ∧ s = s' :=
  Prod.mk.inj (own.exclusive.inj (s := (i, s)) (t := (i', s')) real same)

theorem used_addr {i : Nat} {s : Slot} (real : v.addr i s ≠ 0) : used (v.addr i s) :=
  own.exclusive.used (s := (i, s)) real

theorem fresh {b : Nat} (free : ¬ used b) (real : b ≠ 0) (i : Nat) (s : Slot) : v.addr i s ≠ b :=
  own.exclusive.fresh free real (i, s)

/-- Slots may lose their blocks, and more blocks may be in use. -/
theorem mono {v' : Volume} {used' : Nat → Prop}
    (kept : ∀ i s, v'.addr i s = v.addr i s ∨ v'.addr i s = 0)
    (still : ∀ i s, v'.addr i s ≠ 0 → used (v.addr i s) → used' (v.addr i s)) :
    v'.Owned used' lo hi where
  exclusive := own.exclusive.mono (fun p => kept p.1 p.2) fun p => still p.1 p.2
  region i s real := by
    have same := (kept i s).resolve_right real
    rw [same] at real ⊢
    exact own.region i s real

theorem congr {v' : Volume} (addr : v'.addr = v.addr) : v'.Owned used lo hi :=
  own.mono (fun i s => .inl (by rw [addr])) fun _ _ _ marked => marked

theorem data_ne_index {i i' bn : Nat} {s p : Slot} (data : Slot.ofBlock bn = some s)
    (index : p.IsIndex) (real : v.addr i s ≠ 0) : v.addr i' p ≠ v.addr i s := by
  intro same
  obtain ⟨_, rfl⟩ := own.inj real same.symm
  exact Slot.ofBlock_not_isIndex data index

end Owned

def write (v : Volume) (x : Nat) (data : Block) : Volume :=
  { v with disk := Function.update v.disk x data }

theorem addr_write {x i : Nat} (data : Block)
    (other : ∀ p : Slot, p.IsIndex → v.addr i p ≠ 0 → v.addr i p ≠ x) (s : Slot) :
    (v.write x data).addr i s = v.addr i s :=
  Slot.addr_congr (fun p index real => Function.update_of_ne (other p index real) ..) s

/-- A sector that is in no slot of an inode does not matter to it. -/
theorem body_write_of_ne {x i : Nat} (data : Block)
    (other : ∀ s, v.addr i s ≠ 0 → v.addr i s ≠ x) (bn : Nat) :
    (v.write x data).body i bn = v.body i bn := by
  unfold body
  split
  · rfl
  rename_i s _
  rw [addr_write data fun p _ => other p]
  split
  · rfl
  · rename_i real
    exact Function.update_of_ne (other s real) ..

/-- A write to a data block changes that block of that file only. -/
theorem body_write_data (own : v.Owned used lo hi) {i bn : Nat} {s : Slot}
    (found : Slot.ofBlock bn = some s) (real : v.addr i s ≠ 0) (data : Block) (i' bn' : Nat) :
    (v.write (v.addr i s) data).body i' bn' =
      if i' = i ∧ bn' = bn then data else v.body i' bn' := by
  have addrs (t : Slot) : (v.write (v.addr i s) data).addr i' t = v.addr i' t :=
    addr_write data (fun p index _ => own.data_ne_index found index real) t
  unfold body
  by_cases same : i' = i ∧ bn' = bn
  · obtain ⟨rfl, rfl⟩ := same
    simp only [found, addrs, real, and_self, ↓reduceIte]
    exact Function.update_self ..
  · rw [if_neg same]
    split
    · rfl
    rename_i t found'
    rw [addrs]
    split
    · rfl
    · rename_i real'
      refine Function.update_of_ne (fun equal => ?_) ..
      obtain ⟨rfl, rfl⟩ := own.inj real' equal
      exact same ⟨rfl, Slot.ofBlock_inj found' found⟩

def put (v : Volume) (a : Nat) (j : Fin NINDIRECT) (b : Nat) : Volume :=
  v.write a ((v.disk a).setNum (4 * j) 4 b)

def setTop (v : Volume) (i : Nat) (j : Fin (NDIRECT + 2)) (b : Nat) : Volume :=
  { v with node := Function.update v.node i ((v.node i).setAddr j b) }

def assign (v : Volume) (i : Nat) (s : Slot) (b : Nat) : Volume :=
  match s with
  | .top j => v.setTop i j b
  | .ind j => v.put (v.addr i (.top INDIRECT)) j b
  | .mid j => v.put (v.addr i (.top DINDIRECT)) j b
  | .leaf j l => v.put (v.addr i (.mid j)) l b

theorem assign_of_parent {i b : Nat} {s p : Slot} {j : Fin NINDIRECT}
    (above : s.parent = some (p, j)) : v.assign i s b = v.put (v.addr i p) j b := by
  cases s with
  | top j => cases above
  | ind j | mid j | leaf j l => cases above; rfl

/-- A zeroed block that is in no slot. -/
structure Fresh (v : Volume) (b : Nat) : Prop where
  real : b ≠ 0
  small : b < 2 ^ 32
  blank : v.disk b = Bytes.zero
  absent : ∀ i s, v.addr i s ≠ b

section Assign

variable {i b : Nat} {s : Slot} (fresh : v.Fresh b) (empty : v.addr i s = 0)

include fresh empty

theorem addr_setTop {j : Fin (NDIRECT + 2)} (top : s = .top j) (i' : Nat) (t : Slot) :
    (v.setTop i j b).addr i' t = if i' = i ∧ t = s then b else v.addr i' t := by
  subst top
  by_cases same : i' = i
  · subst same
    have node : (v.setTop i' j b).node i' = (v.node i').setAddr j b := Function.update_self ..
    have blank : (v.node i').addrs j = 0 := empty
    -- an index entry reads from `b` if `j` is its index block, and `b` is blank
    have below {q : Fin (NDIRECT + 2)} (l : Nat) :
        entry v.disk (((v.node i').setAddr j b).addrs q) l =
          entry v.disk ((v.node i').addrs q) l := by
      by_cases index : q = j
      · subst index
        rw [blank, entry_zero, Dinode.setAddr_addrs_self, entry_blank fresh.blank]
      · rw [Dinode.setAddr_addrs_of_ne _ _ index]
    rw [addr, node]
    cases t with
    | top l =>
      by_cases place : l = j
      · subst place
        rw [if_pos ⟨rfl, rfl⟩]
        exact Function.update_self ..
      · rw [if_neg fun both => place (Slot.top.inj both.2)]
        exact Function.update_of_ne place ..
    | ind l | mid l => exact (below l).trans (if_neg nofun).symm
    | leaf l m =>
      rw [if_neg nofun]
      exact congrArg (fun a => entry v.disk a m) (below l)
  · rw [if_neg fun both => same both.1, addr, setTop]
    simp only [Function.update_of_ne same]
    rfl

theorem addr_put (own : v.Owned used lo hi) {p : Slot} {j : Fin NINDIRECT}
    (above : s.parent = some (p, j)) (real : v.addr i p ≠ 0) (i' : Nat) (t : Slot) :
    (v.put (v.addr i p) j b).addr i' t = if i' = i ∧ t = s then b else v.addr i' t := by
  -- what an entry of an unmoved index block reads
  have step {q t : Slot} {l : Fin NINDIRECT} (under : t.parent = some (q, l)) :
      entry (v.put (v.addr i p) j b).disk (v.addr i' q) l =
        if i' = i ∧ t = s then b else v.addr i' t := by
    have old : v.addr i' t = entry v.disk (v.addr i' q) l := Slot.addr_of_parent under
    rw [put, write, entry_put real fresh.small, old]
    have place : (v.addr i' q = v.addr i p ∧ l = j) ↔ (i' = i ∧ t = s) := by
      constructor
      · rintro ⟨block, rfl⟩
        obtain ⟨rfl, rfl⟩ := own.inj real block.symm
        exact ⟨rfl, Slot.parent_inj under above⟩
      · rintro ⟨rfl, rfl⟩
        rw [under] at above
        cases above
        exact ⟨rfl, rfl⟩
    simp only [place]
  cases t with
  | top l =>
    rw [if_neg]
    · rfl
    · rintro ⟨_, rfl⟩
      cases above
  | ind l => exact step (q := .top INDIRECT) rfl
  | mid l => exact step (q := .top DINDIRECT) rfl
  | leaf l m =>
    have mid : (v.put (v.addr i p) j b).addr i' (.mid l) =
        if i' = i ∧ .mid l = s then b else v.addr i' (.mid l) :=
      step (q := .top DINDIRECT) rfl
    have unfolded : (v.put (v.addr i p) j b).addr i' (.leaf l m) =
        entry (v.put (v.addr i p) j b).disk ((v.put (v.addr i p) j b).addr i' (.mid l)) m := rfl
    rw [unfolded, mid]
    by_cases under : i' = i ∧ .mid l = s
    · -- the new block is an index block, and still blank
      obtain ⟨rfl, rfl⟩ := under
      have old : v.addr i' (.leaf l m) = 0 := by
        rw [addr, Slot.addr_of_parent (p := .mid l) (j := m) rfl]
        exact empty ▸ entry_zero v.disk m
      rw [if_pos ⟨rfl, rfl⟩, if_neg nofun, old, put, write, entry_put real fresh.small,
        if_neg fun both => fresh.absent i' p both.1.symm, entry_blank fresh.blank]
    · rw [if_neg under]
      exact step rfl

variable (own : v.Owned used lo hi) (reach : ∀ p j, s.parent = some (p, j) → v.addr i p ≠ 0)

include own reach

theorem addr_assign (i' : Nat) (t : Slot) :
    (v.assign i s b).addr i' t = if i' = i ∧ t = s then b else v.addr i' t := by
  cases above : s.parent with
  | none =>
    cases s with
    | top j => exact addr_setTop fresh empty rfl i' t
    | ind j => cases above
    | mid j => cases above
    | leaf j l => cases above
  | some place =>
    obtain ⟨p, j⟩ := place
    rw [assign_of_parent above]
    exact addr_put fresh empty own above (reach p j above) i' t

theorem owned_assign (low : lo ≤ b) (high : b < hi) (free : ¬ used b) :
    (v.assign i s b).Owned (fun x => x = b ∨ used x) lo hi where
  exclusive := by
    have same : (fun p : Nat × Slot => (v.assign i s b).addr p.1 p.2) =
        Function.update (fun p : Nat × Slot => v.addr p.1 p.2) (i, s) b := by
      funext ⟨i', t⟩
      rw [addr_assign fresh empty own reach]
      by_cases place : i' = i ∧ t = s
      · rw [if_pos place, place.1, place.2, Function.update_self]
      · rw [if_neg place, Function.update_of_ne (fun equal => place (Prod.mk.inj equal))]
    rw [same]
    exact own.exclusive.assign free fresh.real
  region := by
    intro i' t real
    rw [addr_assign fresh empty own reach] at real ⊢
    split
    · exact ⟨low, high⟩
    · rename_i other
      rw [if_neg other] at real
      exact own.region i' t real

theorem body_assign (i' bn : Nat) : (v.assign i s b).body i' bn = v.body i' bn := by
  unfold body
  split
  · rfl
  rename_i t found
  rw [addr_assign fresh empty own reach]
  cases above : s.parent with
  | none =>
    have disk : (v.assign i s b).disk = v.disk := by
      cases s with
      | top j => rfl
      | ind j => cases above
      | mid j => cases above
      | leaf j l => cases above
    rw [disk]
    by_cases place : i' = i ∧ t = s
    · obtain ⟨rfl, rfl⟩ := place
      simp only [and_self, ↓reduceIte, empty, fresh.blank, ite_self]
    · rw [if_neg place]
  | some place =>
    obtain ⟨p, j⟩ := place
    have index : p.IsIndex := ⟨s, j, above⟩
    have other {x : Nat} (apart : x ≠ v.addr i p) : (v.assign i s b).disk x = v.disk x := by
      rw [assign_of_parent above]
      exact Function.update_of_ne apart ..
    by_cases place : i' = i ∧ t = s
    · obtain ⟨rfl, rfl⟩ := place
      simp only [and_self, ↓reduceIte, other (fresh.absent i' p).symm, fresh.blank, empty, ite_self]
    · rw [if_neg place]
      split
      · rfl
      · rename_i real
        exact other (own.data_ne_index found index real).symm

end Assign

end Volume

end SirpairOs
