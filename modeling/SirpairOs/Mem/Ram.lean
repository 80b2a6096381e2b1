import SirpairOs.Mem.Guard

/-! What the physical pages hold, and `copyuvm` with the bytes it copies. -/
namespace SirpairOs.Mem

abbrev Ram : Type := Nat → Nat → UInt8

def Ram.copy (ram : Ram) (src dst : Nat) : Ram := Function.update ram dst (ram src)

namespace Dir

def byteAt (d : Dir) (ram : Ram) (va : Nat) : Option UInt8 :=
  (d.lookup (va / PGSIZE)).map fun e => ram e.page (va % PGSIZE)

def poke (d : Dir) (ram : Ram) (va : Nat) (byte : UInt8) : Ram :=
  match d.lookup (va / PGSIZE) with
  | none => ram
  | some e => Function.update ram e.page (Function.update (ram e.page) (va % PGSIZE) byte)

end Dir

theorem Dir.lookup_inj {d : Dir} {j k : Nat} {e e' : Pte} (once : d.frames e.page ≤ 1)
    (left : j < KERNPAGE) (right : k < KERNPAGE) (first : d.lookup j = some e)
    (second : d.lookup k = some e') (same : e.page = e'.page) : j = k := by
  by_contra other
  have both := Finset.sum_le_sum_of_subset (f := fun i => frameAt e.page (d.lookup i))
    (s := {j, k}) (t := Finset.range KERNPAGE) fun i member => by
      rcases Finset.mem_insert.mp member with rfl | last
      · exact Finset.mem_range.mpr left
      · rw [Finset.mem_singleton.mp last]
        exact Finset.mem_range.mpr right
  rw [Finset.sum_pair other, first, second] at both
  simp only [frameAt, Option.elim_some, hit_self, ← same] at both
  simp only [Dir.frames, frameAt] at once
  omega

def copyLoopRam (L : Layout) (parent : Dir) :
    Nat → Nat → Space → Ram → Outcome Panic (Space × Ram) Bool
  | 0, _, s, ram => .ok true (s, ram)
  | n + 1, k, s, ram =>
    match (walkpgdir L false k { s with dir := parent }).1, parent.lookup k with
    | false, _ => .halt .pteShouldExist (s, ram)
    | true, none => .halt .pageNotPresent (s, ram)
    | true, some e =>
      match s.kmem.kalloc with
      | (none, kmem) => .ok false ({ s with kmem := kmem }, ram)
      | (some mem, kmem) =>
        let ram := ram.copy e.page mem
        ((mappages L userPerm 0 k mem { s with kmem := kmem }).mapState (·, ram)).bind
          fun mapped (s, ram) =>
            if mapped then copyLoopRam L parent n (k + 1) s ram else .ok false (s, ram)

def copyuvmRam (L : Layout) (shared : Nat → Bool) (parent : Dir) (sz : Nat) (kmem : Kmem)
    (ram : Ram) : Outcome Panic (Kmem × Ram) (Option Dir) :=
  if sz ≥ KERNBASE then .ok none (kmem, ram)
  else
    ((setupkvm L shared kmem).mapState (·, ram)).bind fun dir (kmem, ram) =>
      match dir with
      | none => .ok none (kmem, ram)
      | some dir =>
        match copyLoopRam L parent (pgroundup sz) 0 ⟨kmem, dir⟩ ram with
        | .ok true (s, ram) => .ok (some s.dir) (s.kmem, ram)
        | .ok false (s, ram) =>
          ((freevm L shared s).mapState (·, ram)).bind fun _ (kmem, ram) => .ok none (kmem, ram)
        | .halt why (s, ram) => .halt why (s.kmem, ram)

theorem copyLoopRam_fst (L : Layout) (parent : Dir) (n k : Nat) (s : Space) (ram : Ram) :
    (copyLoopRam L parent n k s ram).mapState Prod.fst = copyLoop L parent n k s := by
  induction n generalizing k s ram with
  | zero => rfl
  | succ n ih =>
    rw [copyLoopRam, copyLoop]
    generalize (walkpgdir L false k { s with dir := parent }).1 = walked
    generalize parent.lookup k = entry
    cases walked with
    | false => rfl
    | true =>
      cases entry with
      | none => rfl
      | some e =>
        dsimp only
        generalize s.kmem.kalloc = given
        obtain ⟨mem, kmem⟩ := given
        cases mem with
        | none => rfl
        | some mem =>
          dsimp only
          generalize mappages L userPerm 0 k mem { s with kmem := kmem } = mapped
          cases mapped with
          | halt why t => rfl
          | ok done t =>
            cases done with
            | false => rfl
            | true => exact ih (k + 1) t _

theorem copyuvmRam_fst (L : Layout) (shared : Nat → Bool) (parent : Dir) (sz : Nat) (kmem : Kmem)
    (ram : Ram) : (copyuvmRam L shared parent sz kmem ram).mapState Prod.fst =
      copyuvm L shared parent sz kmem := by
  rw [copyuvmRam, copyuvm]
  split
  · rfl
  · cases setupkvm L shared kmem with
    | halt why kmem => rfl
    | ok dir kmem =>
      cases dir with
      | none => rfl
      | some dir =>
        have loop := copyLoopRam_fst L parent (pgroundup sz) 0 ⟨kmem, dir⟩ ram
        simp only [Outcome.mapState, Outcome.bind_ok]
        rw [← loop]
        cases copyLoopRam L parent (pgroundup sz) 0 ⟨kmem, dir⟩ ram with
        | halt why s => rfl
        | ok done s =>
          cases done with
          | true => rfl
          | false =>
            simp only [Outcome.mapState]
            cases freevm L shared s.1 <;> rfl

end SirpairOs.Mem
