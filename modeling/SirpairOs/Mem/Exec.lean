import SirpairOs.Mem.Image
import SirpairOs.Mem.Proc

/-! `exec` builds the new image beside the old one: what can go wrong on the way, for every
file and every call of `kalloc` that fails. -/
namespace SirpairOs.Mem

def userTables (n : Nat) : Nat := (n + 1023) / 1024

/-- Calls of `kalloc` for `n` pages of the user and their page tables. -/
def cost (n : Nat) : Nat := n + userTables n

theorem cost_mono {a b : Nat} (le : a ≤ b) : cost a ≤ cost b := by
  simp only [cost, userTables]
  omega

/-- The user's page tables are none of the kernel's. -/
theorem need_range {L : Layout} {d : Dir} (fresh : d.present = (pagesOf (kmap L)).image pdx) {n : Nat}
    (user : n ≤ KERNPAGE) : d.need (Finset.range n) = userTables n := by
  have apart : Disjoint ((Finset.range n).image pdx) d.present := by
    rw [fresh, Finset.disjoint_left]
    intro i first second
    obtain ⟨j, below, rfl⟩ := Finset.mem_image.mp first
    obtain ⟨k, kernel, same⟩ := Finset.mem_image.mp second
    have low := L.low
    have same := Fin.mk.inj same
    rw [pagesOf_kmap, Finset.mem_union, Finset.mem_Ico, Finset.mem_Ico] at kernel
    rw [Finset.mem_range] at below
    simp only [KERNPAGE, NPAGES, NPTENTRIES, NPDENTRIES] at *
    omega
  rw [Dir.need, Finset.sdiff_eq_self_of_disjoint apart, card_image_pdx fun k member =>
    Dir.lt_NPAGES_of_user ((Finset.mem_range.mp member).trans_le user)]
  rcases Nat.eq_zero_or_pos n with rfl | pos
  · rfl
  · have last : n = n - 1 + 1 := by omega
    rw [Finset.range_eq_Ico, last, image_div_Ico (Nat.zero_le _), Nat.card_Ico]
    simp only [userTables, NPTENTRIES]
    omega

/-- An image in the making: from the free pages `kmem₀`, by way of the empty directory
`d₀`, to `sz` bytes of memory. -/
structure Building (L : Layout) (shared : Nat → Bool) (kmem₀ : Kmem) (d₀ : Dir) (s : Space)
    (sz : Nat) : Prop where
  ok : s.Ok L shared
  below : sz < KERNBASE
  mapped : ∀ k < pgroundup sz, ∃ pa, s.dir.lookup k = some ⟨pa, userPerm, false, false⟩
  ends : s.dir.EndsAt sz
  total : ∀ page, s.total page = kmem₀.tally page
  fresh : d₀.present = (pagesOf (kmap L)).image pdx
  present : s.dir.present = d₀.present ∪ (Finset.range (pgroundup sz)).image pdx
  took : kmem₀.Took s.kmem (1 + kernelTables L + cost (pgroundup sz))
  given : kmem₀.Supplied (1 + kernelTables L + cost (pgroundup sz))

def Kmem.Affords (L : Layout) (kmem : Kmem) (n : Nat) : Prop :=
  kmem.Supplied (1 + kernelTables L + cost n)

variable (file : List UInt8)

section Build

variable {L : Layout} {shared : Nat → Bool} {kmem₀ : Kmem} {d₀ : Dir} {s : Space} {sz newsz : Nat}

theorem Fresh.building {kmem : Kmem} {d : Dir} (ok : ∀ page, kmem₀.tally page ≤ allowed L shared page)
    (fresh : Fresh L kmem₀ kmem d) (enough : kmem₀.Supplied (1 + kernelTables L)) :
    Building L shared kmem₀ d ⟨kmem, d⟩ 0 where
  ok page := (fresh.total page).trans_le (ok page)
  below := by decide
  mapped _ none := absurd none (Nat.not_lt_zero _)
  ends k user _ := fresh.empty k user
  total := fresh.total
  fresh := fresh.present
  present := by
    have zero : pgroundup 0 = 0 := by decide
    rw [zero, Finset.range_zero, Finset.image_empty, Finset.union_empty]
  took := fresh.took
  given := enough

section Grow

variable (b : Building L shared kmem₀ d₀ s sz)

include b

theorem Building.covers (k : Nat) (inside : k < pgroundup sz) : s.dir.lookup k ≠ none := by
  obtain ⟨pa, mapped⟩ := b.mapped k inside
  rw [mapped]
  nofun

theorem Building.price (below : newsz < KERNBASE) (le : sz ≤ newsz) :
    cost (pgroundup sz) + s.dir.price (pgroundup sz) (pgroundup newsz - pgroundup sz) =
      cost (pgroundup newsz) := by
  have mono := pgroundup_mono le
  have count := Nat.add_sub_cancel' mono
  have split := Dir.need_union (Finset.Ico (pgroundup sz) (pgroundup newsz)) b.present
  have all : Finset.range (pgroundup sz) ∪ Finset.Ico (pgroundup sz) (pgroundup newsz) =
      Finset.range (pgroundup newsz) := by
    ext k
    simp only [Finset.mem_union, Finset.mem_range, Finset.mem_Ico]
    omega
  rw [all, need_range b.fresh (pgroundup_le_KERNPAGE below),
    need_range b.fresh (pgroundup_le_KERNPAGE b.below)] at split
  rw [Dir.price, count, cost, cost, split]
  omega

/-- What is missing for more memory is missing from the beginning. -/
theorem Building.supplied (newsz : Nat) (below : newsz < KERNBASE) (le : sz ≤ newsz) :
    s.kmem.Supplied (s.dir.price (pgroundup sz) (pgroundup newsz - pgroundup sz)) ↔
      kmem₀.Affords L (pgroundup newsz) := by
  rw [← Kmem.supplied_add b.given b.took, Kmem.Affords, ← b.price below le, Nat.add_assoc,
    Nat.add_assoc]

theorem Building.fill {s' : Space} (below : newsz < KERNBASE)
    (le : sz ≤ newsz) (enough : kmem₀.Affords L (pgroundup newsz))
    (fills : Fills s s' (Finset.Ico (pgroundup sz) (pgroundup newsz))) :
    Building L shared kmem₀ d₀ s' newsz where
  ok := b.ok.mono fun page => (fills.total page).le
  below := below
  mapped k inside := by
    by_cases old : k < pgroundup sz
    · rw [fills.user k (inside.trans_le (pgroundup_le_KERNPAGE below)) fun member => by
        rw [Finset.mem_Ico] at member
        omega]
      exact b.mapped k old
    · exact fills.mapped k (Finset.mem_Ico.mpr ⟨by omega, inside⟩)
  ends k user outside := by
    have mono := pgroundup_mono le
    rw [fills.user k user fun member => by
      rw [Finset.mem_Ico] at member
      omega]
    exact b.ends k user (by omega)
  total page := (fills.total page).trans (b.total page)
  fresh := b.fresh
  present := by
    have mono := pgroundup_mono le
    rw [fills.present, b.present, Finset.union_assoc, ← Finset.image_union]
    congr 2
    ext k
    simp only [Finset.mem_union, Finset.mem_range, Finset.mem_Ico]
    omega
  took := by
    have both := b.took.trans fills.took
    rw [Nat.card_Ico] at both
    have price := b.price below le
    rw [Dir.price, Nat.add_sub_cancel' (pgroundup_mono le)] at price
    rwa [show 1 + kernelTables L + cost (pgroundup sz) + (pgroundup newsz - pgroundup sz +
      s.dir.need (Finset.Ico (pgroundup sz) (pgroundup newsz))) =
      1 + kernelTables L + cost (pgroundup newsz) by omega] at both
  given := enough

/-- An image that was given up. `touched` says whether the first page was mapped. -/
structure Given (kmem₀ : Kmem) (s : Space) (touched : Prop) : Prop where
  total : ∀ page, s.total page = kmem₀.tally page
  low : ∀ k < 4, s.dir.lookup k ≠ none → s.dir.lookup 0 ≠ none
  first : s.dir.lookup 0 ≠ none ↔ touched

/-- An image that is given up as it stands. -/
theorem Building.given' : Given kmem₀ s (0 < sz) := by
  have first : s.dir.lookup 0 ≠ none ↔ 0 < sz := by
    rw [← pgroundup_pos]
    refine ⟨fun some => ?_, b.covers 0⟩
    by_contra empty
    exact some (b.ends 0 (by decide) (by omega))
  refine ⟨b.total, fun k low some => ?_, first⟩
  rw [first, ← pgroundup_pos]
  by_contra empty
  exact some (b.ends k (low.trans (by decide)) (by omega))

theorem Building.undone {s' : Space} {n : Nat}
    (undone : Undone s s' (pgroundup sz) (pgroundup sz) n) :
    Given kmem₀ s' (0 < sz ∨ kmem₀.Affords L 1) := by
  have total (page : Nat) : s'.total page = kmem₀.tally page :=
    (undone.total page).trans (b.total page)
  by_cases empty : 0 < sz
  · have first : s'.dir.lookup 0 ≠ none := by
      have := pgroundup_pos.mpr empty
      rw [undone.low 0 (by decide) (by omega)]
      exact b.covers 0 this
    exact ⟨total, fun _ _ _ => first, iff_of_true first (.inl empty)⟩
  · obtain rfl : sz = 0 := by omega
    have zero : pgroundup 0 = 0 := by decide
    rw [zero] at undone
    have one : pgroundup 1 = 1 := by decide
    have price := b.supplied 1 (by decide) (by decide)
    rw [zero, one] at price
    have need : s.dir.price 0 1 = 1 + s.dir.need {0} := by
      rw [Dir.price]
      rfl
    refine ⟨total, fun k low some => ?_, ?_⟩
    · by_cases inside : k < n
      · exact undone.order k low (Nat.zero_le _) (by omega) some
      · rw [undone.low k low (by omega)] at some
        exact absurd (b.ends k (low.trans (by decide)) (Nat.zero_le _)) some
    · rw [undone.first (by decide), ← need, price]
      simp

/-- `allocuvm` for a segment that ends at `e`. -/
theorem Building.alloc (e : Nat) : (e < KERNBASE ∧ kmem₀.Affords L (pgroundup (max sz e)) ∧
      ∃ s', allocuvm L shared sz e s = .ok (max sz e) s' ∧
        Building L shared kmem₀ d₀ s' (max sz e)) ∨
    (¬ (e < KERNBASE ∧ kmem₀.Affords L (pgroundup (max sz e))) ∧
      ∃ s', allocuvm L shared sz e s = .ok 0 s' ∧
        Given kmem₀ s' (0 < sz ∨ (0 < e ∧ e < KERNBASE ∧ kmem₀.Affords L 1))) := by
  by_cases below : e < KERNBASE
  · by_cases less : e < sz
    · rw [max_eq_left less.le, allocuvm, if_neg (by omega), if_pos less]
      exact .inl ⟨below, b.given, s, rfl, b⟩
    · have le : sz ≤ e := by omega
      rw [max_eq_right le]
      rcases allocuvm_spec b.ok below le b.ends with ⟨enough, s', done, fills⟩ |
        ⟨refused, s', done, undone⟩
      · have enough := (b.supplied e below le).mp enough
        exact .inl ⟨below, enough, s', done, b.fill below le enough fills⟩
      · rw [b.supplied e below le] at refused
        refine .inr ⟨fun both => refused both.2, s', done, ?_⟩
        have given := b.undone undone
        refine ⟨given.total, given.low, given.first.trans ?_⟩
        have pos : 0 < sz ∨ 0 < e := by
          by_contra neither
          have : e = sz := by omega
          exact refused (this ▸ b.given)
        tauto
  · rw [allocuvm, if_pos (by omega)]
    refine .inr ⟨fun both => below both.1, s, rfl, ?_⟩
    have given := b.given'
    exact ⟨given.total, given.low, given.first.trans (by tauto)⟩

end Grow

/-- Every page of the segment can be read from the file. -/
def readsFrom (file : List UInt8) (ph : ProgHdr) : Nat → Nat → Bool
  | 0, _ => true
  | n + 1, j =>
    (readAll file ((ph.off + j * PGSIZE) % 2 ^ 32)
      (if ph.filesz - j * PGSIZE < PGSIZE then ph.filesz - j * PGSIZE else PGSIZE)).isSome &&
      readsFrom file ph n (j + 1)

theorem Dir.table_of_lookup {d : Dir} {k : Nat} (mapped : d.lookup k ≠ none) :
    d.pde (pdx k) ≠ none := by
  intro absent
  rw [Dir.lookup, absent] at mapped
  exact mapped rfl

theorem loadLoop_spec (ok : s.Ok L shared) (file : List UInt8) (ph : ProgHdr) (n j : Nat)
    (mapped : ∀ i, j ≤ i → i < j + n → s.dir.lookup (ph.vaddr / PGSIZE + i) ≠ none) :
    loadLoop L file ph n j s = .ok (readsFrom file ph n j) s := by
  induction n generalizing j with
  | zero => rfl
  | succ n ih =>
    have here := Dir.table_of_lookup (mapped j le_rfl (by omega))
    rw [loadLoop, walkpgdir_present ok false here]
    simp only [readsFrom]
    split
    · rename_i missing
      rw [missing]
      rfl
    · rename_i bytes read
      rw [read, ih (j + 1) fun i low high => mapped i (by omega) (by omega)]
      rfl

theorem field_lt (header : List UInt8) (off len : Nat) : field header off len < 256 ^ len := by
  refine (Bytes.leNat_lt _).trans_le (Nat.pow_le_pow_right (by decide) ?_)
  rw [List.length_take]
  exact Nat.min_le_left _ _

theorem segend_eq {bytes : List UInt8} {e : Nat} (ends : segend (proghdr bytes) = some e) :
    e = (proghdr bytes).vaddr + (proghdr bytes).memsz ∧
      (proghdr bytes).filesz ≤ (proghdr bytes).memsz := by
  have first : (proghdr bytes).vaddr < 256 ^ 4 := field_lt ..
  have second : (proghdr bytes).memsz < 256 ^ 4 := field_lt ..
  unfold segend at ends
  simp only at ends
  split_ifs at ends
  cases ends
  omega

/-- Every loadable segment that `exec` gets to begins at a page boundary. `exec` gets to a
header if it has loaded the segments of all headers before it, and to its segment if there
is memory for it; `sz` is the size so far. -/
def Aligned (L : Layout) (file : List UInt8) (kmem : Kmem) : Nat → Nat → Nat → Prop
  | 0, _, _ => True
  | n + 1, off, sz =>
    match readAll file off 32 with
    | none => True
    | some bytes =>
      let ph := proghdr bytes
      if ph.type ≠ ELF_PROG_LOAD then Aligned L file kmem n ((off + 32) % 2 ^ 32) sz
      else
        match segend ph with
        | none => True
        | some e =>
          e < KERNBASE → kmem.Affords L (pgroundup (max sz e)) → 0 < max sz e →
            ph.vaddr % PGSIZE = 0 ∧ (readsFrom file ph (pgroundup ph.filesz) 0 = true →
                Aligned L file kmem n ((off + 32) % 2 ^ 32) (max sz e))

/-- The first page of the image gets mapped: for the first loadable segment, or for the
stack if there is none. -/
def Touches (L : Layout) (file : List UInt8) (kmem : Kmem) : Nat → Nat → Prop
  | 0, _ => kmem.Affords L 1
  | n + 1, off =>
    match readAll file off 32 with
    | none => False
    | some bytes =>
      let ph := proghdr bytes
      if ph.type ≠ ELF_PROG_LOAD then Touches L file kmem n ((off + 32) % 2 ^ 32)
      else
        match segend ph with
        | none => False
        | some e => 0 < e ∧ e < KERNBASE ∧ kmem.Affords L 1

/-- The pages of a segment that has been allocated. -/
theorem Building.segment {bytes : List UInt8} {e : Nat}
    (b : Building L shared kmem₀ d₀ s (max sz e)) (ends : segend (proghdr bytes) = some e)
    (aligned : (proghdr bytes).vaddr % PGSIZE = 0) (i : Nat)
    (inside : i < pgroundup (proghdr bytes).filesz) :
    s.dir.lookup ((proghdr bytes).vaddr / PGSIZE + i) ≠ none := by
  obtain ⟨last, less⟩ := segend_eq ends
  refine b.covers _ ?_
  have := le_max_right sz e
  simp only [pgroundup, PGSIZE] at *
  omega

/-- The first page of an image that is not empty is mapped. -/
theorem Building.touched_iff {e : Nat} (b : Building L shared kmem₀ d₀ s (max sz e))
    (below : e < KERNBASE) :
    0 < max sz e ↔ 0 < sz ∨ (0 < e ∧ e < KERNBASE ∧ kmem₀.Affords L 1) := by
  have affords (pos : 0 < max sz e) : kmem₀.Affords L 1 := by
    refine b.given.mono ?_
    have one : 1 ≤ pgroundup (max sz e) := pgroundup_pos.mpr pos
    have := cost_mono one
    omega
  constructor
  · intro pos
    rcases Nat.eq_zero_or_pos sz with rfl | more
    · exact .inr ⟨by simpa using pos, below, affords pos⟩
    · exact .inl more
  · rintro (pos | ⟨pos, -⟩) <;> omega

/-- Three ways for the loop over the program headers to end. -/
theorem loadSegments_spec (n off : Nat) (b : Building L shared kmem₀ d₀ s sz) :
    (¬ Aligned L file kmem₀ n off sz ∧
      ∃ s', loadSegments L shared file n off sz s = .halt .unaligned s') ∨
    (Aligned L file kmem₀ n off sz ∧
      ∃ sz' s', loadSegments L shared file n off sz s = .ok (some sz') s' ∧
        Building L shared kmem₀ d₀ s' sz' ∧ (0 < sz' → 0 < sz ∨ Touches L file kmem₀ n off) ∧
        (sz' = 0 → sz = 0 ∧ (Touches L file kmem₀ n off ↔ kmem₀.Affords L 1))) ∨
    (Aligned L file kmem₀ n off sz ∧ ∃ s', loadSegments L shared file n off sz s = .ok none s' ∧
        Given kmem₀ s' (0 < sz ∨ Touches L file kmem₀ n off)) := by
  induction n generalizing off sz s with
  | zero => exact .inr (.inl ⟨trivial, sz, s, rfl, b, .inl, fun empty => ⟨empty, Iff.rfl⟩⟩)
  | succ n ih =>
    have given := b.given'
    rw [loadSegments, Aligned, Touches]
    cases readAll file off 32 with
    | none =>
      exact .inr (.inr ⟨trivial, s, rfl, ⟨given.total, given.low, given.first.trans (by simp)⟩⟩)
    | some bytes =>
      simp only
      split_ifs with other
      · exact ih _ b
      · cases ends : segend (proghdr bytes) with
        | none =>
          exact .inr (.inr ⟨trivial, s, rfl, ⟨given.total, given.low, given.first.trans (by simp)⟩⟩)
        | some e =>
          simp only
          rcases b.alloc e with ⟨below, affords, t, done, b'⟩ | ⟨refused, t, done, given⟩
          · rw [done, Outcome.bind_ok]
            have reached := b'.touched_iff below
            have given := b'.given'
            by_cases empty : max sz e = 0
            · rw [if_pos empty]
              exact .inr (.inr ⟨fun _ _ pos => absurd empty pos.ne', t, rfl,
                ⟨given.total, given.low, given.first.trans reached⟩⟩)
            · rw [if_neg empty, loaduvm]
              by_cases aligned : (proghdr bytes).vaddr % PGSIZE = 0
              · rw [if_neg (not_not.mpr aligned), loadLoop_spec b'.ok file _ _ 0 fun i _ inside =>
                  b'.segment ends aligned i (by omega), Outcome.bind_ok]
                have pos : 0 < max sz e := Nat.pos_of_ne_zero empty
                cases readsFrom file (proghdr bytes) (pgroundup (proghdr bytes).filesz) 0 with
                | false =>
                  exact .inr (.inr ⟨fun _ _ _ => ⟨aligned, nofun⟩, t, rfl,
                    ⟨given.total, given.low, given.first.trans reached⟩⟩)
                | true =>
                  rw [if_pos rfl]
                  rcases ih ((off + 32) % 2 ^ 32) b' with ⟨not, halted⟩ |
                    ⟨fine, sz', s', later, b'', more, none⟩ | ⟨fine, s', later, given'⟩
                  · exact .inl ⟨fun all => not ((all below affords pos).2 rfl), halted⟩
                  · refine .inr (.inl ⟨fun _ _ _ => ⟨aligned, fun _ => fine⟩, sz', s', later,
                      b'', fun _ => reached.mp pos, ?_⟩)
                    exact fun zero => absurd (none zero).1 empty
                  · refine .inr (.inr ⟨fun _ _ _ => ⟨aligned, fun _ => fine⟩, s', later,
                      given'.total, given'.low, ?_⟩)
                    rw [given'.first]
                    exact iff_of_true (.inl pos) (reached.mp pos)
              · rw [if_pos aligned]
                refine .inl ⟨fun all => aligned (all below affords ?_).1, t, rfl⟩
                exact Nat.pos_of_ne_zero empty
          · rw [done, Outcome.bind_ok, if_pos rfl]
            exact .inr (.inr ⟨fun below affords => absurd ⟨below, affords⟩ refused, t, rfl, given⟩)

theorem walkpgdir_look (ok : s.Ok L shared) (k : Nat) : (walkpgdir L false k s).2 = s := by
  by_cases here : s.dir.pde (pdx k) = none
  · rw [walkpgdir_absent false here]
    rfl
  · rw [walkpgdir_present ok false here]

theorem uva2ka_look (ok : s.Ok L shared) (k : Nat) : (uva2ka L k s).2 = s := by
  have same := walkpgdir_look ok k
  unfold uva2ka
  split <;> rename_i walked <;> rw [walked] at same <;> exact same

theorem copyout_look (ok : s.Ok L shared) (va len : Nat) : (copyout L va len s).2 = s := by
  fun_induction copyout L va len s with
  | case1 va len s pos t refused =>
    have same := uva2ka_look ok (va / PGSIZE)
    rwa [refused] at same
  | case2 va len s pos t found ih =>
    have same := uva2ka_look ok (va / PGSIZE)
    rw [found] at same
    subst same
    exact ih ok
  | case3 va len s done => rfl

theorem pushArgs_look (ok : s.Ok L shared) (argv : List (List UInt8)) (argc sp : Nat) :
    (pushArgs L argv argc sp s).2 = s := by
  induction argv generalizing argc sp with
  | nil => rfl
  | cons arg rest ih =>
    rw [pushArgs]
    split_ifs
    · rfl
    · have same := copyout_look ok (down sp (arg.length + 1) / 4 * 4) (arg.length + 1)
      dsimp only
      split <;> rename_i copied <;> rw [copied] at same
      · exact same
      · obtain rfl : _ = s := same
        exact ih _ _

theorem pushStack_look (ok : s.Ok L shared) (argv : List (List UInt8)) (sz : Nat) :
    (pushStack L argv sz s).2 = s := by
  have same := pushArgs_look ok argv 0 sz
  unfold pushStack
  split <;> rename_i pushed <;> rw [pushed] at same
  · exact same
  · rename_i argc sp t
    obtain rfl : t = s := same
    have same := copyout_look ok (down sp ((3 + argc + 1) * 4)) ((3 + argc + 1) * 4)
    simp only
    split <;> rename_i copied <;> rw [copied] at same <;> exact same

structure Built (L : Layout) (shared : Nat → Bool) (kmem₀ : Kmem) (s : Space) (sz : Nat) : Prop where
  ok : s.Ok L shared
  total : ∀ page, s.total page = kmem₀.tally page
  exact' : ∀ k < KERNPAGE, s.dir.lookup k ≠ none ↔ k < pgroundup sz
  stack : (USTACK_PAGES + 1) * PGSIZE ≤ sz
  below : sz < KERNBASE
  /-- The last page, where the stack begins, is the user's. -/
  top : ∃ pa, s.dir.lookup (pgroundup sz - 1) = some ⟨pa, userPerm, false, false⟩
  /-- What the image has not taken is left. -/
  rest : ∀ n, kmem₀.Supplied (1 + kernelTables L + cost (pgroundup sz) + n) → s.kmem.Supplied n

theorem Building.built (b : Building L shared kmem₀ d₀ s sz)
    (stack : (USTACK_PAGES + 1) * PGSIZE ≤ sz) : Built L shared kmem₀ s sz where
  ok := b.ok
  total := b.total
  exact' k user := by
    refine ⟨fun some => ?_, b.covers k⟩
    by_contra outside
    exact some (b.ends k user (by omega))
  stack := stack
  below := b.below
  top := b.mapped _ (Nat.sub_lt (pgroundup_pos.mpr (by
    simp only [PGSIZE, USTACK_PAGES] at stack
    omega)) Nat.one_pos)
  rest n := (Kmem.supplied_add b.given b.took n).mp

/-- Taking `PTE_U` away from a page. -/
theorem Built.clear {k : Nat} (b : Built L shared kmem₀ s sz) (inside : k < pgroundup sz - 1) :
    ∃ s', clearpteu L k s = .ok () s' ∧ Built L shared kmem₀ s' sz := by
  have last := inside
  have inside : k < pgroundup sz := by omega
  have user : k < KERNPAGE := inside.trans_le (pgroundup_le_KERNPAGE b.below)
  have fits := Dir.lt_NPAGES_of_user user
  have mapped := (b.exact' k user).mpr inside
  have table := Dir.table_of_lookup mapped
  obtain ⟨e, mapped⟩ := Option.ne_none_iff_exists'.mp mapped
  obtain ⟨t, here⟩ := Option.ne_none_iff_exists'.mp table
  obtain ⟨e', cleared⟩ : ∃ e' : Pte, { e with perm := { e.perm with u := false } } = e' := ⟨_, rfl⟩
  have same : e'.page = e.page := by rw [← cleared]
  have total (page : Nat) : (s.setPte k (some e')).total page = s.total page := by
    have frames := Dir.frames_setPte (e := some e') here user page
    rw [mapped] at frames
    simp only [frameAt, Option.elim_some, same] at frames
    simp only [Space.total, Dir.uses, Space.setPte, Dir.tables_setPte, Dir.setPte_page]
    omega
  rw [clearpteu, walkpgdir_present b.ok false table]
  simp only [mapped, Option.map_some, cleared]
  refine ⟨_, rfl, ⟨b.ok.mono fun page => (total page).le,
    fun page => (total page).trans (b.total page), fun j below => ?_, b.stack, b.below, ?_, b.rest⟩⟩
  · rw [Space.setPte, Dir.lookup_setPte here (Dir.lt_NPAGES_of_user below) fits]
    by_cases same : j = k
    · subst same
      simp [inside]
    · rw [if_neg same]
      exact b.exact' j below
  · have end' := pgroundup_le_KERNPAGE b.below
    rw [Space.setPte, Dir.lookup_setPte here (Dir.lt_NPAGES_of_user (by omega)) fits,
      if_neg (by omega)]
    exact b.top

theorem Building.round (b : Building L shared kmem₀ d₀ s sz)
    (below : pgroundup sz * PGSIZE < KERNBASE) :
    Building L shared kmem₀ d₀ s (pgroundup sz * PGSIZE) := by
  have same : pgroundup (pgroundup sz * PGSIZE) = pgroundup sz := by
    simp only [pgroundup, PGSIZE]
    omega
  refine ⟨b.ok, below, ?_, ?_, b.total, b.fresh, ?_, ?_, ?_⟩
  · rw [same]
    exact b.mapped
  · intro k user
    rw [same]
    exact b.ends k user
  · rw [same]
    exact b.present
  · rw [same]
    exact b.took
  · rw [same]
    exact b.given

theorem makeStack_spec (b : Building L shared kmem₀ d₀ s sz) :
    (∃ newsz s', makeStack L shared sz s = .ok (some newsz) s' ∧ Built L shared kmem₀ s' newsz ∧
      kmem₀.Affords L 1 ∧ newsz = (pgroundup sz + (USTACK_PAGES + 1)) * PGSIZE) ∨
    (∃ s', makeStack L shared sz s = .ok none s' ∧ Given kmem₀ s' (0 < sz ∨ kmem₀.Affords L 1) ∧
      ¬ (pgroundup sz + (USTACK_PAGES + 1) < KERNPAGE ∧
        kmem₀.Affords L (pgroundup sz + (USTACK_PAGES + 1)))) := by
  have low := b.below
  have round : pgroundup sz * PGSIZE ≤ KERNBASE := by
    simp only [pgroundup, PGSIZE, KERNBASE] at *
    omega
  have exact' : (pgroundup sz * PGSIZE + (USTACK_PAGES + 1) * PGSIZE) % 2 ^ 32 =
      pgroundup sz * PGSIZE + (USTACK_PAGES + 1) * PGSIZE := by
    refine Nat.mod_eq_of_lt ?_
    simp only [PGSIZE, USTACK_PAGES, KERNBASE] at *
    omega
  simp only [makeStack, exact']
  generalize top : pgroundup sz * PGSIZE + (USTACK_PAGES + 1) * PGSIZE = newsz
  have pos : (USTACK_PAGES + 1) * PGSIZE ≤ newsz := by omega
  split_ifs with high
  · refine .inr ⟨s, rfl, ?_⟩
    have given := b.given'
    refine ⟨⟨given.total, given.low, given.first.trans ?_⟩, fun both => ?_⟩
    · have pos : 0 < sz := by
        simp only [pgroundup, PGSIZE, USTACK_PAGES, KERNBASE] at *
        omega
      simp [pos]
    · have := both.1
      simp only [PGSIZE, USTACK_PAGES, KERNBASE, KERNPAGE] at *
      omega
  · rw [not_or] at high
    have below : newsz < KERNBASE := by omega
    have b := b.round (by omega)
    have last : max (pgroundup sz * PGSIZE) newsz = newsz := by omega
    rcases b.alloc newsz with ⟨-, affords, t, done, b'⟩ | ⟨refused, t, done, given⟩
    · rw [last] at done b' affords
      rw [done, Outcome.bind_ok, if_neg (by simp only [PGSIZE, USTACK_PAGES] at pos; omega)]
      have inside : newsz / PGSIZE - (USTACK_PAGES + 1) < pgroundup newsz - 1 := by
        simp only [pgroundup, PGSIZE, USTACK_PAGES] at *
        omega
      obtain ⟨s', cleared, built⟩ := (b'.built pos).clear inside
      rw [cleared, Outcome.bind_ok]
      refine .inl ⟨newsz, s', rfl, built, affords.mono ?_, by rw [← top, ← Nat.add_mul]⟩
      have one : 1 ≤ pgroundup newsz := by omega
      have := cost_mono one
      omega
    · rw [done, Outcome.bind_ok, if_pos rfl]
      refine .inr ⟨t, rfl, ⟨given.total, given.low, given.first.trans ?_⟩, fun both => ?_⟩
      · have same : 0 < pgroundup sz * PGSIZE ↔ 0 < sz := by
          simp only [pgroundup, PGSIZE]
          omega
        have some : 0 < newsz := by simp only [PGSIZE, USTACK_PAGES] at pos; omega
        rw [same]
        simp [some, below]
      · have pages : pgroundup newsz = pgroundup sz + (USTACK_PAGES + 1) := by
          rw [← top]
          simp only [pgroundup, PGSIZE, USTACK_PAGES]
          omega
        rw [last, pages] at refused
        exact refused ⟨below, both.2⟩

/-- Three ways to build an image: a segment is not aligned, the image is complete, or it
is given up. -/
theorem loadImage_spec (elf : ElfHdr) (argv : List (List UInt8))
    (b : Building L shared kmem₀ d₀ s 0) : (¬ Aligned L file kmem₀ elf.phnum elf.phoff 0 ∧
      ∃ s', loadImage L shared file elf argv s = .halt .unaligned s') ∨
    (Aligned L file kmem₀ elf.phnum elf.phoff 0 ∧
      ∃ sz sp s', loadImage L shared file elf argv s = .ok (some (sz, sp)) s' ∧
        Built L shared kmem₀ s' sz) ∨ (Aligned L file kmem₀ elf.phnum elf.phoff 0 ∧
      ∃ s', loadImage L shared file elf argv s = .ok none s' ∧
        Given kmem₀ s' (Touches L file kmem₀ elf.phnum elf.phoff)) := by
  rw [loadImage]
  rcases loadSegments_spec file elf.phnum elf.phoff b with ⟨not, s', halted⟩ |
    ⟨fine, sz, t, done, b', more, less⟩ | ⟨fine, s', done, given⟩
  · rw [halted]
    exact .inl ⟨not, s', rfl⟩
  · rw [done, Outcome.bind_ok]
    simp only [lt_irrefl, false_or] at more
    have reached : 0 < sz ∨ kmem₀.Affords L 1 ↔ Touches L file kmem₀ elf.phnum elf.phoff := by
      rcases Nat.eq_zero_or_pos sz with empty | pos
      · rw [(less empty).2, empty]
        simp
      · exact iff_of_true (.inl pos) (more pos)
    rcases makeStack_spec b' with ⟨newsz, u, stacked, built, affords, -⟩ | ⟨u, stacked, given, -⟩
    · simp only [stacked, Outcome.bind_ok]
      have same := pushStack_look built.ok argv newsz
      cases pushed : pushStack L argv newsz u with
      | mk sp u' =>
        rw [pushed] at same
        obtain rfl : u' = u := same
        cases sp with
        | none =>
          refine .inr (.inr ⟨fine, u', rfl, built.total, ?_, ?_⟩) <;>
            have first : u'.dir.lookup 0 ≠ none := (built.exact' 0 (by decide)).mpr (by
              have := built.stack
              simp only [pgroundup, PGSIZE, USTACK_PAGES] at *
              omega)
          · exact fun _ _ _ => first
          · exact iff_of_true first (reached.mp (.inr affords))
        | some sp => exact .inr (.inl ⟨fine, newsz, sp, u', rfl, built⟩)
    · simp only [stacked, Outcome.bind_ok]
      exact .inr (.inr ⟨fine, u, rfl, given.total, given.low, given.first.trans reached⟩)
  · rw [done, Outcome.bind_ok]
    refine .inr (.inr ⟨fine, s', rfl, given.total, given.low, given.first.trans ?_⟩)
    simp

theorem pushStack_nil (b : Built L shared kmem₀ s sz) (whole : sz % PGSIZE = 0) :
    pushStack L [] sz s = (some (sz - 16), s) := by
  obtain ⟨pa, mapped⟩ := b.top
  have stack := b.stack
  have below := b.below
  have user : pgroundup sz - 1 < KERNPAGE := by
    have := pgroundup_le_KERNPAGE below
    have := pgroundup_pos (a := sz)
    simp only [PGSIZE, USTACK_PAGES] at stack
    omega
  have valid := (b.ok.frame user mapped).1
  have found : uva2ka L (pgroundup sz - 1) s = (true, s) := by
    rw [uva2ka, walkpgdir_present b.ok false (Dir.table_of_lookup (by simp [mapped]))]
    simp only [mapped, Option.any_some, valid]
    rfl
  have sp : down sz ((3 + 0 + 1) * 4) = sz - 16 := by
    simp only [down, PGSIZE, USTACK_PAGES, KERNBASE] at *
    omega
  have page : (sz - 16) / PGSIZE = pgroundup sz - 1 := by
    simp only [pgroundup, PGSIZE, USTACK_PAGES] at *
    omega
  have rest : 16 - (PGSIZE - (sz - 16) % PGSIZE) = 0 := by
    simp only [PGSIZE, USTACK_PAGES] at *
    omega
  rw [pushStack]
  simp only [pushArgs, sp]
  rw [copyout, if_pos (by decide), page, found]
  simp only [show (3 + 0 + 1) * 4 = 16 from rfl, rest]
  rw [copyout, if_neg (lt_irrefl 0)]

/-- A file without segments, run without arguments, gets a stack and nothing else. -/
theorem loadImage_bare {elf : ElfHdr} (none : elf.phnum = 0)
    (b : Building L shared kmem₀ d₀ s 0) (affords : kmem₀.Affords L (USTACK_PAGES + 1)) :
    ∃ sp s', loadImage L shared file elf [] s = .ok (some ((USTACK_PAGES + 1) * PGSIZE, sp)) s' ∧
      Built L shared kmem₀ s' ((USTACK_PAGES + 1) * PGSIZE) := by
  have zero : pgroundup 0 = 0 := by decide
  rw [loadImage, none, loadSegments, Outcome.bind_ok]
  rcases makeStack_spec b with ⟨newsz, t, stacked, built, -, size⟩ | ⟨t, -, -, refused⟩
  · rw [zero, Nat.zero_add] at size
    subst size
    refine ⟨(USTACK_PAGES + 1) * PGSIZE - 16, t, ?_, built⟩
    simp only [stacked, Outcome.bind_ok]
    rw [pushStack_nil built (Nat.mul_mod_left _ _)]
  · rw [zero, Nat.zero_add] at refused
    exact absurd ⟨by decide, affords⟩ refused

/-- A file that ends before its program headers do has no image. -/
theorem loadSegments_truncated {file : List UInt8} (n off : Nat) (some' : 0 < n)
    (short : file.length < off + 32 * n) (fits : off + 32 * n ≤ 2 ^ 32) (sz : Nat) (s : Space)
    {sz' : Nat} {s' : Space} : loadSegments L shared file n off sz s ≠ .ok (some sz') s' := by
  induction n generalizing off sz s with
  | zero => omega
  | succ n ih =>
    rw [loadSegments]
    cases header : readAll file off 32 with
    | none => nofun
    | some bytes =>
      have inside : off + 32 ≤ file.length := by
        simp only [readAll, readi, Option.filter_eq_some_iff, Option.ite_none_left_eq_some,
          Option.some.injEq] at header
        obtain ⟨⟨-, rfl⟩, whole⟩ := header
        simp only [List.length_take, List.length_drop, decide_eq_true_eq] at whole
        omega
      have later (sz : Nat) (s : Space) := ih ((off + 32) % 2 ^ 32) (by omega)
        (by omega) (by omega) sz s
      dsimp only
      split_ifs with type
      · exact later sz s
      · cases segend (proghdr bytes) with
        | none => nofun
        | some e =>
          intro done
          obtain ⟨sz₁, s₁, -, done⟩ := Outcome.bind_eq_ok.mp done
          split at done
          · cases done
          · obtain ⟨loaded, s₂, -, done⟩ := Outcome.bind_eq_ok.mp done
            split at done
            · exact later sz₁ s₂ done
            · cases done

end Build

def HasHeader (file : List UInt8) : Prop :=
  52 ≤ file.length ∧ (elfhdr (file.take 52)).magic = ELF_MAGIC

def Loadable (L : Layout) (file : List UInt8) (kmem : Kmem) : Prop :=
  HasHeader file → kmem.Supplied (1 + kernelTables L) →
    Aligned L file kmem (elfhdr (file.take 52)).phnum (elfhdr (file.take 52)).phoff 0

def MapsFirst (L : Layout) (file : List UInt8) (kmem : Kmem) : Prop :=
  HasHeader file ∧ kmem.Supplied (1 + kernelTables L) ∧
    Touches L file kmem (elfhdr (file.take 52)).phnum (elfhdr (file.take 52)).phoff

section Image

variable {L : Layout} {shared : Nat → Bool} {kmem : Kmem}

theorem Given.lows_eq_zero {s : Space} {touched : Prop} (given : Given kmem s touched) :
    (∀ page, s.dir.lows page = 0) ↔ ¬ touched := by
  rw [← given.first, not_not, Dir.lows_eq_zero_iff]
  refine ⟨fun empty => empty 0 (by decide), fun empty k low => ?_⟩
  by_contra some
  exact given.low k low some empty

theorem readi_header : readi file 0 52 = some (file.take 52) := by
  rw [readi, if_neg (by omega), List.drop_zero]

theorem makeImage_spec (argv : List (List UInt8))
    (ok : ∀ page, kmem.tally page ≤ allowed L shared page) : (¬ Loadable L file kmem ∧
      ∃ kmem', makeImage L shared file argv kmem = .halt .unaligned kmem') ∨
    (Loadable L file kmem ∧ ∃ image kmem', makeImage L shared file argv kmem = .ok (some image) kmem' ∧
      Built L shared kmem ⟨kmem', image.dir⟩ image.sz) ∨
    (Loadable L file kmem ∧ ∃ kmem', makeImage L shared file argv kmem = .ok none kmem' ∧
      (∀ page, kmem'.tally page ≤ kmem.tally page) ∧
      (kmem.SameFree kmem' ↔ ¬ MapsFirst L file kmem)) := by
  have early (why : ¬ (HasHeader file ∧ kmem.Supplied (1 + kernelTables L))) (kmem' : Kmem)
      (same : ∀ page, kmem'.tally page = kmem.tally page) :
      Loadable L file kmem ∧ (∀ page, kmem'.tally page ≤ kmem.tally page) ∧
        (kmem.SameFree kmem' ↔ ¬ MapsFirst L file kmem) :=
    ⟨fun header enough => absurd ⟨header, enough⟩ why, fun page => (same page).le,
      iff_of_true ((Kmem.sameFree_iff _ _).mpr same) fun maps => why ⟨maps.1, maps.2.1⟩⟩
  rw [makeImage, readi_header]
  dsimp only
  by_cases header : HasHeader file
  · rw [if_neg (by rw [List.length_take]; have := header.1; omega), if_neg (not_not.mpr header.2)]
    rcases setupkvm_spec ok with ⟨enough, d, rest, made, fresh⟩ | ⟨refused, kmem', failed, same⟩
    · have loadable : Loadable L file kmem ↔ Aligned L file kmem (elfhdr (file.take 52)).phnum
          (elfhdr (file.take 52)).phoff 0 :=
        ⟨fun all => all header enough, fun all _ _ => all⟩
      rw [made, Outcome.bind_ok, loadable]
      dsimp only
      rcases loadImage_spec file (elfhdr (file.take 52)) argv (fresh.building ok enough) with
        ⟨not, s, halted⟩ | ⟨fine, sz, sp, s, done, built⟩ | ⟨fine, s, done, given⟩
      · exact .inl ⟨not, s.kmem, by rw [halted]⟩
      · exact .inr (.inl ⟨fine, ⟨s.dir, sz, _, sp⟩, s.kmem, by rw [done], built⟩)
      · obtain ⟨kmem', freed, tally⟩ := freevm_spec (L := L) (s := s)
          fun page => (given.total page).trans_le (ok page)
        refine .inr (.inr ⟨fine, kmem', by rw [done]; simp only [freed, Outcome.bind_ok], ?_, ?_⟩)
        · intro page
          have := tally page
          have := given.total page
          omega
        · have maps : MapsFirst L file kmem ↔ Touches L file kmem (elfhdr (file.take 52)).phnum
              (elfhdr (file.take 52)).phoff :=
            ⟨fun all => all.2.2, fun touches => ⟨header, enough, touches⟩⟩
          rw [maps, ← given.lows_eq_zero, Kmem.sameFree_iff]
          refine forall_congr' fun page => ?_
          have := tally page
          have := given.total page
          omega
    · obtain ⟨fine, less, same⟩ := early (fun both => refused both.2) kmem' same
      rw [failed]
      exact .inr (.inr ⟨fine, kmem', rfl, less, same⟩)
  · obtain ⟨fine, less, same⟩ := early (fun both => header both.1) kmem fun _ => rfl
    refine .inr (.inr ⟨fine, kmem, ?_, less, same⟩)
    split_ifs with short bad
    · rfl
    · rfl
    · rw [List.length_take] at short
      exact absurd ⟨by omega, not_not.mp bad⟩ header

theorem makeImage_bare {file : List UInt8} (header : HasHeader file)
    (none : (elfhdr (file.take 52)).phnum = 0) (affords : kmem.Affords L (USTACK_PAGES + 1))
    (ok : ∀ page, kmem.tally page ≤ allowed L shared page) :
    ∃ image kmem', makeImage L shared file [] kmem = .ok (some image) kmem' ∧
      Built L shared kmem ⟨kmem', image.dir⟩ image.sz ∧ image.sz = (USTACK_PAGES + 1) * PGSIZE := by
  have enough : kmem.Supplied (1 + kernelTables L) := affords.mono (Nat.le_add_right _ _)
  rcases setupkvm_spec ok with ⟨-, d, rest, made, fresh⟩ | ⟨refused, -⟩
  · obtain ⟨sp, s, loaded, built⟩ := loadImage_bare file none (fresh.building ok enough) affords
    refine ⟨⟨s.dir, _, (elfhdr (file.take 52)).entry, sp⟩, s.kmem, ?_, built, rfl⟩
    rw [makeImage, readi_header]
    dsimp only
    rw [if_neg (by rw [List.length_take]; have := header.1; omega), if_neg (not_not.mpr header.2),
      made, Outcome.bind_ok]
    simp only [loaded]
  · exact absurd enough refused

theorem makeImage_truncated {file : List UInt8} {argv : List (List UInt8)} {image : Image}
    {kmem' : Kmem} (some' : 0 < (elfhdr (file.take 52)).phnum)
    (short : file.length < (elfhdr (file.take 52)).phoff + 32 * (elfhdr (file.take 52)).phnum)
    (fits : (elfhdr (file.take 52)).phoff + 32 * (elfhdr (file.take 52)).phnum ≤ 2 ^ 32) :
    makeImage L shared file argv kmem ≠ .ok (some image) kmem' := by
  rw [makeImage, readi_header]
  dsimp only
  split_ifs
  · nofun
  · nofun
  · intro done
    obtain ⟨d, rest, -, done⟩ := Outcome.bind_eq_ok.mp done
    cases d with
    | none => cases done
    | some d =>
      dsimp only at done
      split at done
      · cases done
      · rename_i loaded
        obtain ⟨sz, s₁, segments, rest⟩ := Outcome.bind_eq_ok.mp loaded
        cases sz with
        | none => cases rest
        | some sz => exact loadSegments_truncated _ _ some' short fits _ _ segments
      · obtain ⟨_, _, -, done⟩ := Outcome.bind_eq_ok.mp done
        cases done

end Image

end SirpairOs.Mem
