import Mathlib.Order.Interval.Finset.Nat
import SirpairOs.Lib.Tally
import SirpairOs.Mem.Vm

/-! Who owns which page: a page is free, or it is the directory, one of its page tables,
or mapped once below `KERNBASE`. -/
namespace SirpairOs.Mem

/-- Page numbers of the 32-bit address space. -/
def NPAGES : Nat := 0x100000

theorem index_inj {j k : Nat} (left : j < NPAGES) (right : k < NPAGES) (outer : pdx j = pdx k)
    (inner : ptx j = ptx k) : j = k := by
  have outer := Fin.mk.inj outer
  have inner := Fin.mk.inj inner
  simp only [NPTENTRIES, NPDENTRIES, NPAGES] at *
  omega

namespace Dir

variable {d : Dir} {k j : Nat} {i : Fin NPDENTRIES} {t : Table} {e : Option Pte}

@[simp] theorem setPde_page (t : Option Table) : (d.setPde i t).page = d.page := rfl

theorem lookup_setPde_empty (absent : d.pde i = none) (page : Nat) (j : Nat) :
    (d.setPde i (some ⟨page, fun _ => none⟩)).lookup j = d.lookup j := by
  simp only [lookup, setPde]
  by_cases same : pdx j = i
  · subst same
    rw [Function.update_self, absent]
    rfl
  · rw [Function.update_of_ne same]

theorem setPte_of_table (here : d.pde (pdx k) = some t) :
    d.setPte k e = d.setPde (pdx k) (some { t with pte := Function.update t.pte (ptx k) e }) := by
  rw [setPte, here]

theorem lookup_setPte (here : d.pde (pdx k) = some t) (left : j < NPAGES) (right : k < NPAGES) :
    (d.setPte k e).lookup j = if j = k then e else d.lookup j := by
  rw [setPte_of_table here]
  simp only [lookup, setPde]
  by_cases outer : pdx j = pdx k
  · rw [outer, Function.update_self, here]
    by_cases inner : ptx j = ptx k
    · have same := index_inj left right outer inner
      subst same
      simp
    · have other : j ≠ k := fun same => inner (by rw [same])
      simp [Function.update_of_ne inner, other]
  · have other : j ≠ k := fun same => outer (by rw [same])
    rw [Function.update_of_ne outer, if_neg other]

@[simp] theorem setPte_page : (d.setPte k e).page = d.page := by
  unfold setPte
  split <;> rfl

end Dir

def frameAt (page : Nat) (e : Option Pte) : Nat := e.elim 0 fun e => hit e.page page

def tableAt (page : Nat) (t : Option Table) : Nat := t.elim 0 fun t => hit t.page page

namespace Dir

def tables (d : Dir) (page : Nat) : Nat := ∑ i, tableAt page (d.pde i)

def frames (d : Dir) (page : Nat) : Nat := ∑ k ∈ Finset.range KERNPAGE, frameAt page (d.lookup k)

def lows (d : Dir) (page : Nat) : Nat := ∑ k ∈ Finset.range 4, frameAt page (d.lookup k)

def uses (d : Dir) (page : Nat) : Nat := hit d.page page + d.tables page + d.frames page

variable {d : Dir} {k : Nat} {t : Table} {e : Option Pte}

theorem tables_setPde (i : Fin NPDENTRIES) (t : Option Table) (page : Nat) :
    (d.setPde i t).tables page + tableAt page (d.pde i) = d.tables page + tableAt page t :=
  sum_update (tableAt page) d.pde i t

theorem tables_setPte (k : Nat) (e : Option Pte) (page : Nat) :
    (d.setPte k e).tables page = d.tables page := by
  cases here : d.pde (pdx k) with
  | none => rw [setPte, here]
  | some t =>
    have change := d.tables_setPde (pdx k)
      (some { t with pte := Function.update t.pte (ptx k) e }) page
    rw [here] at change
    rw [setPte_of_table here]
    simp only [tableAt, Option.elim_some] at change
    omega

theorem frames_congr {d' : Dir} (same : ∀ k < KERNPAGE, d'.lookup k = d.lookup k) (page : Nat) :
    d'.frames page = d.frames page :=
  Finset.sum_congr rfl fun k member => by rw [same k (Finset.mem_range.mp member)]

theorem lt_NPAGES_of_user (user : k < KERNPAGE) : k < NPAGES :=
  Nat.lt_trans user (by decide)

theorem frames_setPte (here : d.pde (pdx k) = some t) (user : k < KERNPAGE) (page : Nat) :
    (d.setPte k e).frames page + frameAt page (d.lookup k) = d.frames page + frameAt page e := by
  have change := sum_change (g := fun j => frameAt page ((d.setPte k e).lookup j))
    (f := fun j => frameAt page (d.lookup j)) (Finset.mem_range.mpr user) fun j member other => by
      rw [lookup_setPte here (lt_NPAGES_of_user (Finset.mem_range.mp member))
        (lt_NPAGES_of_user user), if_neg other]
  rw [lookup_setPte here (lt_NPAGES_of_user user) (lt_NPAGES_of_user user), if_pos rfl] at change
  exact change

/-- Entries of the kernel's part are nobody's pages. -/
theorem lookup_setPte_kernel (kernel : KERNPAGE ≤ k) (fits : k < NPAGES)
    (here : d.pde (pdx k) = some t) {j : Nat} (user : j < KERNPAGE) :
    (d.setPte k e).lookup j = d.lookup j := by
  rw [lookup_setPte here (lt_NPAGES_of_user user) fits, if_neg (by omega)]

end Dir

namespace Space

def total (s : Space) (page : Nat) : Nat := s.kmem.tally page + s.dir.uses page

end Space

/-- How many owners a page may have: others must leave the page tables of this directory
alone. -/
def allowed (L : Layout) (shared : Nat → Bool) (page : Nat) : Nat :=
  if L.valid page = true ∧ shared page = false then 1 else 0

/-- Every page has one owner at most, and the pages of this space are usable and not page
tables of others. -/
def Space.Ok (L : Layout) (shared : Nat → Bool) (s : Space) : Prop :=
  ∀ page, s.total page ≤ allowed L shared page

section Ok

variable {L : Layout} {shared : Nat → Bool} {s : Space} {page : Nat}

theorem usable_of_pos (pos : 0 < allowed L shared page) :
    L.valid page = true ∧ shared page = false := by
  by_contra not
  rw [allowed, if_neg not] at pos
  omega

theorem allowed_le_one (L : Layout) (shared : Nat → Bool) (page : Nat) :
    allowed L shared page ≤ 1 := by
  unfold allowed
  split <;> omega

namespace Space.Ok

variable (ok : s.Ok L shared)

include ok in
theorem of_pos (pos : 0 < s.total page) : L.valid page = true ∧ shared page = false :=
  usable_of_pos (Nat.lt_of_lt_of_le pos (ok page))

include ok in
theorem mono {s' : Space} (less : ∀ page, s'.total page ≤ s.total page) : s'.Ok L shared :=
  fun page => (less page).trans (ok page)

include ok in
theorem dir : L.valid s.dir.page = true := by
  refine (ok.of_pos ?_).1
  simp only [total, Dir.uses, hit_self]
  omega

include ok in
theorem table {i : Fin NPDENTRIES} {t : Table} (here : s.dir.pde i = some t) :
    L.valid t.page = true ∧ shared t.page = false := by
  refine ok.of_pos ?_
  have one := le_sum (tableAt t.page) s.dir.pde i
  rw [here] at one
  simp only [tableAt, Option.elim_some, hit_self] at one
  simp only [total, Dir.uses, Dir.tables, tableAt] at one ⊢
  omega

theorem sum_frameAt_pos {d : Dir} {n k : Nat} {e : Pte} (inside : k < n)
    (here : d.lookup k = some e) : 0 < ∑ j ∈ Finset.range n, frameAt e.page (d.lookup j) := by
  have one := Finset.single_le_sum (f := fun j => frameAt e.page (d.lookup j))
    (fun _ _ => Nat.zero_le _) (Finset.mem_range.mpr inside)
  simp only [here, frameAt, Option.elim_some, hit_self] at one
  exact one

theorem frames_pos {d : Dir} {k : Nat} {e : Pte} (user : k < KERNPAGE) (here : d.lookup k = some e) :
    0 < d.frames e.page := sum_frameAt_pos user here

include ok in
theorem frame {k : Nat} {e : Pte} (user : k < KERNPAGE) (here : s.dir.lookup k = some e) :
    L.valid e.page = true ∧ shared e.page = false := by
  refine ok.of_pos ?_
  have := frames_pos user here
  simp only [total, Dir.uses]
  omega

end Space.Ok

end Ok

def Dir.present (d : Dir) : Finset (Fin NPDENTRIES) := Finset.univ.filter fun i => (d.pde i).isSome

def Dir.need (d : Dir) (pages : Finset Nat) : Nat := (pages.image pdx \ d.present).card

theorem Dir.mem_present {d : Dir} {i : Fin NPDENTRIES} : i ∈ d.present ↔ d.pde i ≠ none := by
  simp [Dir.present, Option.isSome_iff_ne_none]

theorem Dir.need_of_present {d : Dir} {k : Nat} (here : pdx k ∈ d.present) : d.need {k} = 0 := by
  simp [Dir.need, here]

theorem Dir.need_of_absent {d : Dir} {k : Nat} (absent : pdx k ∉ d.present) : d.need {k} = 1 := by
  have apart : Disjoint {pdx k} d.present := Finset.disjoint_singleton_left.mpr absent
  rw [Dir.need, Finset.image_singleton, Finset.sdiff_eq_self_of_disjoint apart,
    Finset.card_singleton]

theorem Dir.need_union {d d' : Dir} {first : Finset Nat} (second : Finset Nat)
    (grown : d'.present = d.present ∪ first.image pdx) :
    d.need (first ∪ second) = d.need first + d'.need second := by
  rw [Dir.need, Dir.need, Dir.need, grown, Finset.image_union, card_union_sdiff]

theorem Dir.present_setPte {d : Dir} (k : Nat) (e : Option Pte) :
    (d.setPte k e).present = d.present := by
  ext i
  rw [Dir.mem_present, Dir.mem_present, Dir.setPte]
  split
  · rfl
  · rename_i t here
    by_cases same : i = pdx k
    · subst same
      simp [Dir.setPde, here]
    · simp [Dir.setPde, Function.update_of_ne same]

/-- Page tables for `pages` have been made, and nothing else has changed for the user. -/
structure Grows (s s' : Space) (pages : Finset Nat) : Prop where
  page : s'.dir.page = s.dir.page
  user : ∀ k < KERNPAGE, s'.dir.lookup k = s.dir.lookup k
  total : ∀ page, s'.total page = s.total page
  present : s'.dir.present = s.dir.present ∪ pages.image pdx
  took : s.kmem.Took s'.kmem (s.dir.need pages)

/-- An operation has failed for want of a page; nothing has changed for the user. -/
structure Fails (s s' : Space) : Prop where
  page : s'.dir.page = s.dir.page
  user : ∀ k < KERNPAGE, s'.dir.lookup k = s.dir.lookup k
  total : ∀ page, s'.total page = s.total page

theorem Grows.fails {s s' : Space} {pages : Finset Nat} (grows : Grows s s' pages) : Fails s s' :=
  ⟨grows.page, grows.user, grows.total⟩

theorem Fails.trans {s₁ s₂ s₃ : Space} (first : Fails s₁ s₂) (second : Fails s₂ s₃) : Fails s₁ s₃ where
  page := second.page.trans first.page
  user k user := (second.user k user).trans (first.user k user)
  total page := (second.total page).trans (first.total page)

theorem Grows.trans {s₁ s₂ s₃ : Space} {first second : Finset Nat} (grows : Grows s₁ s₂ first)
    (more : Grows s₂ s₃ second) : Grows s₁ s₃ (first ∪ second) where
  page := more.page.trans grows.page
  user k user := (more.user k user).trans (grows.user k user)
  total page := (more.total page).trans (grows.total page)
  present := by rw [more.present, grows.present, Finset.image_union, Finset.union_assoc]
  took := by
    rw [Dir.need_union second grows.present]
    exact grows.took.trans more.took

theorem Space.total_kmem {s : Space} {kmem : Kmem} (same : kmem.freelist = s.kmem.freelist)
    (page : Nat) : Space.total { s with kmem := kmem } page = s.total page := by
  simp only [Space.total, Kmem.tally, same]

section Walk

variable {L : Layout} {shared : Nat → Bool} {s : Space} {k : Nat} (ok : s.Ok L shared)

include ok in
theorem walkpgdir_present (alloc : Bool) (here : s.dir.pde (pdx k) ≠ none) :
    walkpgdir L alloc k s = (true, s) := by
  obtain ⟨t, here⟩ := Option.ne_none_iff_exists'.mp here
  rw [walkpgdir, here]
  simp [(ok.table here).1]

theorem walkpgdir_absent (alloc : Bool) (absent : s.dir.pde (pdx k) = none) :
    walkpgdir L alloc k s = makeTable alloc k s := by
  rw [walkpgdir, absent]

/-- What `walkpgdir` does when it may allocate. All entries stay. -/
theorem walkpgdir_cases (ok : s.Ok L shared) :
    (s.kmem.Supplied (s.dir.need {k}) ∧ ∃ s', walkpgdir L true k s = (true, s') ∧
      Grows s s' {k} ∧ s'.dir.pde (pdx k) ≠ none ∧ ∀ j, s'.dir.lookup j = s.dir.lookup j) ∨
    (¬ s.kmem.Supplied (s.dir.need {k}) ∧ ∃ s', walkpgdir L true k s = (false, s') ∧ Fails s s') := by
  by_cases here : s.dir.pde (pdx k) = none
  · have absent : pdx k ∉ s.dir.present := fun member => Dir.mem_present.mp member here
    rw [Dir.need_of_absent absent, walkpgdir_absent true here, makeTable, if_pos rfl]
    rcases s.kmem.kalloc_cases with ⟨enough, page, kmem, taken⟩ | ⟨refused, kmem, taken⟩
    · refine .inl ⟨enough, ⟨kmem, s.dir.setPde (pdx k) (some ⟨page, fun _ => none⟩)⟩, by rw [taken],
        ⟨rfl, ?_, ?_, ?_, ?_⟩, ?_, ?_⟩
      · exact fun j _ => Dir.lookup_setPde_empty here page j
      · intro x
        have tables := s.dir.tables_setPde (pdx k) (some ⟨page, fun _ => none⟩) x
        have free := Kmem.tally_kalloc taken x
        have frames := Dir.frames_congr (d := s.dir)
          (fun j _ => Dir.lookup_setPde_empty here page j) x
        rw [here] at tables
        simp only [tableAt, Option.elim_some, Option.elim_none] at tables
        simp only [Space.total, Dir.uses, Dir.setPde_page]
        omega
      · ext i
        rw [Finset.mem_union, Dir.mem_present, Dir.mem_present]
        by_cases same : i = pdx k
        · subst same
          simp [Dir.setPde]
        · simp [Dir.setPde, same]
      · rw [Dir.need_of_absent absent]
        exact Kmem.took_kalloc taken
      · simp [Dir.setPde]
      · exact Dir.lookup_setPde_empty here page
    · refine .inr ⟨refused, { s with kmem := kmem }, by rw [taken], ⟨rfl, fun _ _ => rfl, ?_⟩⟩
      exact Space.total_kmem (Kmem.kalloc_none taken)
  · have member : pdx k ∈ s.dir.present := Dir.mem_present.mpr here
    refine .inl ⟨?_, s, walkpgdir_present ok true here, ⟨rfl, fun _ _ => rfl, fun _ => rfl, ?_, ?_⟩,
      here, fun _ => rfl⟩
    · rw [Dir.need_of_present member]
      exact s.kmem.supplied_zero
    · rw [Finset.image_singleton, Finset.union_eq_left.mpr (Finset.singleton_subset_iff.mpr member)]
    · rw [Dir.need_of_present member]
      exact .refl _

end Walk

section Map

variable {L : Layout} {shared : Nat → Bool} {s : Space} {k : Nat}

structure Maps (s s' : Space) (perm : Perm) (k pa : Nat) : Prop where
  page : s'.dir.page = s.dir.page
  mapped : s'.dir.lookup k = some ⟨pa, perm, false, false⟩
  user : ∀ j < KERNPAGE, j ≠ k → s'.dir.lookup j = s.dir.lookup j
  total : ∀ page, s'.total page = s.total page + hit pa page
  present : s'.dir.present = s.dir.present ∪ Finset.image pdx {k}
  took : s.kmem.Took s'.kmem (s.dir.need {k})

/-- Mapping a page for the user where there is none. -/
theorem mapPage_user (ok : s.Ok L shared) (user : k < KERNPAGE) (absent : s.dir.lookup k = none)
    (perm : Perm) (pa : Nat) :
    (s.kmem.Supplied (s.dir.need {k}) ∧ ∃ s', mapPage L perm k pa s = .ok true s' ∧
      Maps s s' perm k pa) ∨
    (¬ s.kmem.Supplied (s.dir.need {k}) ∧ ∃ s', mapPage L perm k pa s = .ok false s' ∧
      Fails s s') := by
  rcases walkpgdir_cases ok (k := k) with ⟨enough, t, walked, grows, here, same⟩ |
    ⟨refused, t, walked, fails⟩
  · refine .inl ⟨enough, _, by simp only [mapPage, walked, same, absent]; rfl, ?_⟩
    obtain ⟨table, here⟩ := Option.ne_none_iff_exists'.mp here
    have fits := Dir.lt_NPAGES_of_user user
    constructor
    · simpa [Space.setPte] using grows.page
    · simp only [Space.setPte, Dir.lookup_setPte here fits fits, if_true]
    · intro j below other
      rw [← grows.user j below]
      simp only [Space.setPte, Dir.lookup_setPte here (Dir.lt_NPAGES_of_user below) fits, if_neg other]
    · intro x
      have total := grows.total x
      have frames := Dir.frames_setPte (e := some ⟨pa, perm, false, false⟩) here user x
      rw [same, absent] at frames
      simp only [frameAt, Option.elim_some, Option.elim_none] at frames
      simp only [Space.total, Dir.uses, Space.setPte, Dir.tables_setPte, Dir.setPte_page] at total ⊢
      omega
    · rw [← grows.present]
      exact Dir.present_setPte k _
    · exact grows.took
  · exact .inr ⟨refused, t, by simp only [mapPage, walked], fails⟩

theorem mapPage_kernel (ok : s.Ok L shared) (kernel : KERNPAGE ≤ k) (fits : k < NPAGES)
    (perm : Perm) (pa : Nat) :
    (s.kmem.Supplied (s.dir.need {k}) ∧ ∃ s', mapPage L perm k pa s = .ok true s' ∧
      Grows s s' {k}) ∨
    (¬ s.kmem.Supplied (s.dir.need {k}) ∧ ∃ s', mapPage L perm k pa s = .ok false s' ∧
      Fails s s') := by
  rcases walkpgdir_cases ok (k := k) with ⟨enough, t, walked, grows, here, -⟩ |
    ⟨refused, t, walked, fails⟩
  · obtain ⟨table, here⟩ := Option.ne_none_iff_exists'.mp here
    -- The entry is written or left; either way the user sees no change.
    have wrote (e : Option Pte) : Grows s (t.setPte k e) {k} := by
      have user (j : Nat) (below : j < KERNPAGE) : (t.dir.setPte k e).lookup j = t.dir.lookup j :=
        Dir.lookup_setPte_kernel kernel fits here below
      refine ⟨?_, fun j below => (user j below).trans (grows.user j below), fun x => ?_, ?_, grows.took⟩
      · simpa [Space.setPte] using grows.page
      · rw [← grows.total x]
        simp only [Space.total, Dir.uses, Space.setPte, Dir.tables_setPte, Dir.setPte_page,
          Dir.frames_congr user]
      · rw [← grows.present]
        exact Dir.present_setPte k e
    refine .inl ⟨enough, ?_⟩
    simp only [mapPage, walked]
    split
    · exact ⟨_, rfl, wrote _⟩
    · split_ifs
      · exact ⟨_, rfl, grows⟩
      · exact ⟨_, rfl, wrote _⟩
      · rename_i neither
        exact absurd (.inr kernel) neither
  · exact .inr ⟨refused, t, by simp only [mapPage, walked], fails⟩

theorem Ico_succ_eq (k n : Nat) :
    Finset.Ico k (k + (n + 1) + 1) = {k} ∪ Finset.Ico (k + 1) (k + 1 + n + 1) := by
  ext j
  simp only [Finset.mem_union, Finset.mem_singleton, Finset.mem_Ico]
  omega

/-- `mappages` in the kernel's part makes the page tables that are missing. -/
theorem mappages_kernel (n : Nat) (ok : s.Ok L shared) (kernel : KERNPAGE ≤ k)
    (fits : k + n < NPAGES) (perm : Perm) (pa : Nat) :
    (s.kmem.Supplied (s.dir.need (Finset.Ico k (k + n + 1))) ∧
      ∃ s', mappages L perm n k pa s = .ok true s' ∧ Grows s s' (Finset.Ico k (k + n + 1))) ∨
    (¬ s.kmem.Supplied (s.dir.need (Finset.Ico k (k + n + 1))) ∧
      ∃ s', mappages L perm n k pa s = .ok false s' ∧ Fails s s') := by
  induction n generalizing k pa s with
  | zero =>
    have only : Finset.Ico k (k + 0 + 1) = {k} := Nat.Ico_succ_singleton k
    rw [only]
    exact mapPage_kernel ok kernel fits perm pa
  | succ n ih =>
    rw [Ico_succ_eq]
    rcases mapPage_kernel ok kernel (by omega) perm pa with
      ⟨enough, t, mapped, grows⟩ | ⟨refused, t, mapped, fails⟩
    · have ok' : t.Ok L shared := ok.mono fun page => (grows.total page).le
      have split := Dir.need_union (Finset.Ico (k + 1) (k + 1 + n + 1)) grows.present
      have more := Kmem.supplied_add enough grows.took
        (t.dir.need (Finset.Ico (k + 1) (k + 1 + n + 1)))
      rw [split, more, mappages, mapped, Outcome.bind_ok, if_pos rfl]
      rcases ih (k := k + 1) ok' (by omega) (by omega) (pa + 1) with
        ⟨enough', s', later, grows'⟩ | ⟨refused', s', later, fails'⟩
      · exact .inl ⟨enough', s', later, grows.trans grows'⟩
      · exact .inr ⟨refused', s', later, grows.fails.trans fails'⟩
    · refine .inr ⟨fun enough => refused (enough.mono ?_), t, by rw [mappages, mapped]; rfl, fails⟩
      exact Finset.card_le_card (Finset.sdiff_subset_sdiff
        (Finset.image_subset_image Finset.subset_union_left) subset_rfl)

end Map

section Unmap

variable {L : Layout} {shared : Nat → Bool} {s : Space} {k stop : Nat}

/-- The pages from `k` to `stop` have been given back, those below 0x4000 apart. -/
structure Drops (s s' : Space) (k stop : Nat) : Prop where
  page : s'.dir.page = s.dir.page
  user : ∀ j < KERNPAGE, s'.dir.lookup j = if k ≤ j ∧ j < stop ∧ 4 ≤ j then none else s.dir.lookup j
  total : ∀ page, s'.total page = s.total page

theorem Drops.refl (s : Space) (k : Nat) : Drops s s k k where
  page := rfl
  user j _ := by rw [if_neg (by omega)]
  total _ := rfl

theorem Drops.trans {s₁ s₂ s₃ : Space} {k₁ k₂ k₃ : Nat} (first : Drops s₁ s₂ k₁ k₂)
    (second : Drops s₂ s₃ k₂ k₃) (le : k₁ ≤ k₂) (le' : k₂ ≤ k₃) : Drops s₁ s₃ k₁ k₃ where
  page := second.page.trans first.page
  user j user := by
    rw [second.user j user, first.user j user]
    split_ifs <;> first | rfl | omega
  total page := (second.total page).trans (first.total page)

theorem Drops.skip {s' : Space} {k' : Nat} (le : k ≤ k')
    (nothing : ∀ j, k ≤ j → j < k' → 4 ≤ j → s.dir.lookup j = none) (rest : Drops s s' k' stop) :
    Drops s s' k stop where
  page := rest.page
  user j user := by
    rw [rest.user j user]
    by_cases early : k ≤ j ∧ j < k' ∧ 4 ≤ j
    · rw [nothing j early.1 early.2.1 early.2.2, ite_self, ite_self]
    · split_ifs <;> first | rfl | omega
  total := rest.total

theorem dropPage_drops (ok : s.Ok L shared) (user : k < KERNPAGE) (high : 4 ≤ k)
    {t : Table} (here : s.dir.pde (pdx k) = some t) : Drops s (dropPage L k s) k (k + 1) := by
  cases mapped : s.dir.lookup k with
  | none =>
    rw [dropPage, mapped]
    refine .skip (k.le_succ) (fun j low high _ => ?_) (.refl s (k + 1))
    obtain rfl : j = k := by omega
    exact mapped
  | some e =>
    have fits := Dir.lt_NPAGES_of_user user
    rw [dropPage, mapped]
    simp only [(ok.frame user mapped).1, if_true]
    constructor
    · exact Dir.setPte_page
    · intro j below
      rw [Space.setPte, Dir.lookup_setPte here (Dir.lt_NPAGES_of_user below) fits]
      by_cases same : j = k
      · rw [if_pos same, if_pos (by omega)]
      · rw [if_neg same, if_neg (by omega)]
    · intro page
      -- The page was mapped, so it was not free.
      have taken : s.kmem.tally e.page = 0 := by
        have once := (ok e.page).trans (allowed_le_one L shared e.page)
        have pos := Space.Ok.frames_pos user mapped
        simp only [Space.total, Dir.uses] at once
        omega
      have free := Kmem.tally_kfree taken page
      have frames := Dir.frames_setPte (e := none) here user page
      rw [mapped] at frames
      simp only [frameAt, Option.elim_some, Option.elim_none] at frames
      simp only [Space.total, Dir.uses, Space.setPte, Dir.tables_setPte, Dir.setPte_page]
      omega

theorem pdx_of_lt_nextTable {j : Nat} (low : k ≤ j) (high : j < nextTable k) : pdx j = pdx k := by
  have same : j / NPTENTRIES = k / NPTENTRIES := by
    simp only [nextTable, NPTENTRIES] at *
    omega
  simp only [pdx, same]

theorem deallocLoop_drops (ok : s.Ok L shared) (user : stop ≤ KERNPAGE) :
    Drops s (deallocLoop L shared stop k s) k stop := by
  fun_induction deallocLoop L shared stop k s with
  | case1 k s below low ih => exact .skip k.le_succ (fun j _ _ _ => by omega) (ih ok)
  | case2 k s below high absent ih =>
    refine .skip (lt_nextTable k).le (fun j low high _ => ?_) (ih ok)
    rw [Dir.lookup, pdx_of_lt_nextTable low high, absent]
    rfl
  | case3 k s below high t here others ih =>
    rw [(ok.table here).2] at others
    exact absurd others.2 nofun
  | case4 k s below high t here own bad ih =>
    rw [(ok.table here).1] at bad
    cases bad
  | case5 k s below high t here own good ih =>
    have first := dropPage_drops ok (by omega) (by omega) here
    exact first.trans (ih (ok.mono fun page => (first.total page).le)) k.le_succ below
  | case6 k s done =>
    refine ⟨rfl, fun j _ => ?_, fun _ => rfl⟩
    rw [if_neg (by omega)]

/-- `deallocuvm` gives back the pages from `newsz` to `oldsz`. -/
theorem deallocuvm_drops (ok : s.Ok L shared) (oldsz newsz : Nat) (less : newsz < oldsz)
    (user : pgroundup oldsz ≤ KERNPAGE) : ∃ s', deallocuvm L shared oldsz newsz s = (newsz, s') ∧
      Drops s s' (pgroundup newsz) (pgroundup oldsz) := by
  rw [deallocuvm, if_neg (by omega)]
  exact ⟨_, rfl, deallocLoop_drops ok user⟩

/-- The owners of a page, not counting the pages that are mapped. -/
def Space.tabled (s : Space) (page : Nat) : Nat :=
  s.kmem.tally page + hit s.dir.page page + s.dir.tables page

/-- Page tables have been freed. -/
structure Frees (s s' : Space) (gone : Fin NPDENTRIES → Prop) : Prop where
  page : s'.dir.page = s.dir.page
  tabled : ∀ page, s'.tabled page = s.tabled page
  left : ∀ i, ¬ gone i → s'.dir.pde i = s.dir.pde i
  none : ∀ i, gone i → s'.dir.pde i = none

theorem freeTable_frees (ok : ∀ page, s.tabled page ≤ allowed L shared page) (i : Fin NPDENTRIES) :
    Frees s (freeTable L shared s i) (· = i) := by
  cases here : s.dir.pde i with
  | none =>
    rw [freeTable, here]
    refine ⟨rfl, fun _ => rfl, fun _ _ => rfl, fun j same => ?_⟩
    rw [same, here]
  | some t =>
    have one := le_sum (tableAt t.page) s.dir.pde i
    rw [here] at one
    simp only [tableAt, Option.elim_some, hit_self] at one
    have bound := ok t.page
    have pos : 0 < s.tabled t.page := by
      simp only [Space.tabled, Dir.tables, tableAt] at one ⊢
      omega
    have usable := usable_of_pos (pos.trans_le bound)
    have taken : s.kmem.tally t.page = 0 := by
      have := allowed_le_one L shared t.page
      simp only [Space.tabled, Dir.tables, tableAt] at one bound
      omega
    rw [freeTable, here]
    simp only [usable.1, usable.2, Bool.true_eq_false, Bool.false_eq_true, and_false, if_false]
    refine ⟨rfl, fun page => ?_, fun j other => ?_, fun j same => ?_⟩
    · have free := Kmem.tally_kfree taken page
      have tables := s.dir.tables_setPde i none page
      rw [here] at tables
      simp only [tableAt, Option.elim_some, Option.elim_none] at tables
      simp only [Space.tabled, Dir.setPde_page]
      omega
    · exact Function.update_of_ne other ..
    · subst same
      exact Function.update_self ..

theorem freeTables_frees (tables : List (Fin NPDENTRIES))
    (ok : ∀ page, s.tabled page ≤ allowed L shared page) :
    Frees s (tables.foldl (freeTable L shared) s) (· ∈ tables) := by
  induction tables generalizing s with
  | nil => exact ⟨rfl, fun _ => rfl, fun _ _ => rfl, fun _ member => nomatch member⟩
  | cons i rest ih =>
    have first := freeTable_frees ok i
    have later := ih fun page => (first.tabled page).trans_le (ok page)
    refine ⟨later.page.trans first.page, fun page => (later.tabled page).trans (first.tabled page),
      fun j other => ?_, fun j member => ?_⟩
    · rw [List.mem_cons, not_or] at other
      rw [List.foldl_cons, later.left j other.2, first.left j other.1]
    · by_cases again : j ∈ rest
      · exact later.none j again
      · rw [List.foldl_cons, later.left j again]
        exact first.none j ((List.mem_cons.mp member).resolve_right again)

theorem pgroundup_KERNBASE : pgroundup KERNBASE = KERNPAGE := by decide

/-- After `deallocuvm` only the pages below 0x4000 are mapped. -/
theorem Drops.frames {s' : Space} (drops : Drops s s' 0 KERNPAGE) (page : Nat) :
    s'.dir.frames page = s.dir.lows page := by
  have low : Finset.range 4 ⊆ Finset.range KERNPAGE :=
    Finset.range_subset_range.mpr (by decide)
  rw [Dir.frames, Dir.lows, ← Finset.sum_subset low]
  · refine Finset.sum_congr rfl fun k member => ?_
    have below := Finset.mem_range.mp member
    rw [drops.user k (below.trans (by decide)), if_neg (by omega)]
  · intro k member high
    rw [Finset.mem_range] at member high
    rw [drops.user k member, if_pos (by omega)]
    rfl

/-- `freevm` gives back everything but the pages that are mapped below 0x4000. -/
theorem freevm_spec (ok : s.Ok L shared) : ∃ kmem, freevm L shared s = .ok () kmem ∧
    ∀ page, kmem.tally page + s.dir.lows page = s.total page := by
  obtain ⟨t, dealloc, drops⟩ := deallocuvm_drops ok KERNBASE 0 (by decide) pgroundup_KERNBASE.le
  have drops : Drops s t 0 KERNPAGE := drops
  have bound (page : Nat) : t.tabled page ≤ allowed L shared page := by
    refine le_trans ?_ ((drops.total page).trans_le (ok page))
    simp only [Space.tabled, Space.total, Dir.uses]
    omega
  have frees := freeTables_frees (List.finRange NPDENTRIES) bound
  rw [freevm, dealloc]
  generalize (List.finRange NPDENTRIES).foldl (freeTable L shared) t = u at frees
  have empty (page : Nat) : u.dir.tables page = 0 :=
    Finset.sum_eq_zero fun i _ => by rw [frees.none i (List.mem_finRange i)]; rfl
  have valid : L.valid u.dir.page = true := by
    rw [frees.page, drops.page]
    exact ok.dir
  have taken : u.kmem.tally u.dir.page = 0 := by
    have once := (frees.tabled u.dir.page).trans_le (bound u.dir.page)
    have := allowed_le_one L shared u.dir.page
    simp only [Space.tabled, hit_self] at once
    omega
  refine ⟨u.kmem.kfree u.dir.page, by simp only [kfree, valid, if_true], fun page => ?_⟩
  have free := Kmem.tally_kfree taken page
  have first := drops.total page
  have second := frees.tabled page
  have frames := drops.frames page
  have none := empty page
  simp only [Space.tabled, Space.total, Dir.uses] at first second ⊢
  omega

/-! Unmapping does not take pages. -/

theorem dropPage_supplied {m : Nat} (enough : s.kmem.Supplied m) (k : Nat) :
    (dropPage L k s).kmem.Supplied m := by
  unfold dropPage
  split
  · exact enough
  · dsimp only
    split
    · exact enough.kfree _
    · exact enough

theorem deallocLoop_supplied {m : Nat} (enough : s.kmem.Supplied m) (stop k : Nat) :
    (deallocLoop L shared stop k s).kmem.Supplied m := by
  fun_induction deallocLoop L shared stop k s with
  | case1 k s below low ih | case2 k s below high absent ih | case3 k s below high t here others ih
  | case4 k s below high t here own bad ih => exact ih enough
  | case5 k s below high t here own good ih => exact ih (dropPage_supplied enough k)
  | case6 k s done => exact enough

theorem deallocuvm_supplied {m : Nat} (enough : s.kmem.Supplied m) (oldsz newsz : Nat) :
    (deallocuvm L shared oldsz newsz s).2.kmem.Supplied m := by
  unfold deallocuvm
  split
  · exact enough
  · exact deallocLoop_supplied enough _ _

theorem freeTable_supplied {m : Nat} (enough : s.kmem.Supplied m) (i : Fin NPDENTRIES) :
    (freeTable L shared s i).kmem.Supplied m := by
  unfold freeTable
  split
  · exact enough
  · dsimp only
    split_ifs
    · exact enough
    · exact enough
    · exact enough.kfree _

theorem freevm_supplied {m : Nat} {kmem : Kmem} (enough : s.kmem.Supplied m)
    (done : freevm L shared s = .ok () kmem) : kmem.Supplied m := by
  have tables (all : List (Fin NPDENTRIES)) (t : Space) (enough : t.kmem.Supplied m) :
      (all.foldl (freeTable L shared) t).kmem.Supplied m := by
    induction all generalizing t with
    | nil => exact enough
    | cons i rest ih => exact ih _ (freeTable_supplied enough i)
  have late := tables (List.finRange NPDENTRIES) (deallocuvm L shared KERNBASE 0 s).2
    (deallocuvm_supplied enough KERNBASE 0)
  rw [freevm] at done
  generalize (List.finRange NPDENTRIES).foldl (freeTable L shared)
    (deallocuvm L shared KERNBASE 0 s).2 = u at late done
  rw [kfree] at done
  split at done
  · cases done
    exact late.kfree _
  · cases done

end Unmap

def kernelTables (L : Layout) : Nat := (L.phystop + 1023) / 1024 + 64

def pagesOf : List Kmap → Finset Nat
  | [] => ∅
  | m :: rest => Finset.Ico m.virt (m.virt + m.count) ∪ pagesOf rest

theorem pagesOf_kmap (L : Layout) : pagesOf (kmap L) =
    Finset.Ico KERNPAGE (KERNPAGE + L.phystop) ∪ Finset.Ico 0xf0000 NPAGES := by
  have linked := L.linked
  have room := L.room
  ext k
  simp only [pagesOf, kmap, Finset.mem_union, Finset.mem_Ico, Finset.notMem_empty, or_false, NPAGES]
  omega

theorem image_div_Ico {first last : Nat} (le : first ≤ last) :
    (Finset.Ico first (last + 1)).image (· / NPTENTRIES) =
      Finset.Ico (first / NPTENTRIES) (last / NPTENTRIES + 1) := by
  ext i
  simp only [Finset.mem_image, Finset.mem_Ico]
  constructor
  · rintro ⟨k, ⟨low, high⟩, rfl⟩
    exact ⟨Nat.div_le_div_right low, Nat.lt_succ_of_le (Nat.div_le_div_right (Nat.lt_succ_iff.mp high))⟩
  · rintro ⟨low, high⟩
    refine ⟨max first (i * NPTENTRIES), ⟨le_max_left .., ?_⟩, ?_⟩ <;>
      simp only [NPTENTRIES] at * <;> omega

theorem card_image_pdx {pages : Finset Nat} (fits : ∀ k ∈ pages, k < NPAGES) :
    (pages.image pdx).card = (pages.image (· / NPTENTRIES)).card := by
  rw [← Finset.card_image_of_injective _ Fin.val_injective, Finset.image_image]
  congr 1
  refine Finset.image_congr fun k member => ?_
  have below := fits k member
  simp only [Function.comp, pdx, NPAGES, NPTENTRIES, NPDENTRIES] at *
  omega

theorem card_kernel (L : Layout) : ((pagesOf (kmap L)).image pdx).card = kernelTables L := by
  have room := L.room
  have linked := L.linked
  have low := L.low
  rw [card_image_pdx, pagesOf_kmap, Finset.image_union]
  · have first : KERNPAGE + L.phystop = (KERNPAGE + L.phystop - 1) + 1 := by omega
    have second : NPAGES = (NPAGES - 1) + 1 := by decide
    rw [first, second, image_div_Ico (by omega), image_div_Ico (by decide),
      Finset.card_union_of_disjoint, Nat.card_Ico, Nat.card_Ico, kernelTables]
    · simp only [KERNPAGE, NPTENTRIES, NPAGES]
      omega
    · rw [Finset.disjoint_left]
      intro i
      simp only [Finset.mem_Ico, KERNPAGE, NPTENTRIES, NPAGES]
      omega
  · intro k
    rw [pagesOf_kmap]
    simp only [Finset.mem_union, Finset.mem_Ico, KERNPAGE, NPAGES]
    omega

section Setup

variable {L : Layout} {shared : Nat → Bool} {s : Space}

theorem mapAll_spec (maps : List Kmap) (ok : s.Ok L shared)
    (kernel : ∀ m ∈ maps, KERNPAGE ≤ m.virt ∧ m.virt + m.count ≤ NPAGES ∧ 0 < m.count) :
    (s.kmem.Supplied (s.dir.need (pagesOf maps)) ∧
      ∃ s', mapAll L maps s = .ok true s' ∧ Grows s s' (pagesOf maps)) ∨
    (¬ s.kmem.Supplied (s.dir.need (pagesOf maps)) ∧
      ∃ s', mapAll L maps s = .ok false s' ∧ Fails s s') := by
  induction maps generalizing s with
  | nil =>
    have none : s.dir.need (pagesOf []) = 0 := by
      rw [Dir.need, pagesOf, Finset.image_empty, Finset.empty_sdiff, Finset.card_empty]
    rw [none]
    refine .inl ⟨s.kmem.supplied_zero, s, rfl, ⟨rfl, fun _ _ => rfl, fun _ => rfl, ?_, ?_⟩⟩
    · exact (Finset.union_empty _).symm
    · rw [none]
      exact .refl _
  | cons m rest ih =>
    obtain ⟨low, high, pos⟩ := kernel m List.mem_cons_self
    have count : m.virt + (m.count - 1) + 1 = m.virt + m.count := by omega
    have first := mappages_kernel (m.count - 1) ok low (by omega) m.perm m.phys
    rw [count] at first
    rcases first with ⟨enough, t, mapped, grows⟩ | ⟨refused, t, mapped, fails⟩
    · have ok' : t.Ok L shared := ok.mono fun page => (grows.total page).le
      have split := Dir.need_union (pagesOf rest) grows.present
      have more := Kmem.supplied_add enough grows.took (t.dir.need (pagesOf rest))
      rw [pagesOf, split, more, mapAll, mapped, Outcome.bind_ok, if_pos rfl]
      rcases ih ok' fun m member => kernel m (List.mem_cons_of_mem _ member) with
        ⟨enough', s', later, grows'⟩ | ⟨refused', s', later, fails'⟩
      · exact .inl ⟨enough', s', later, grows.trans grows'⟩
      · exact .inr ⟨refused', s', later, grows.fails.trans fails'⟩
    · refine .inr ⟨fun enough => refused (enough.mono ?_), t, by rw [mapAll, mapped]; rfl, fails⟩
      exact Finset.card_le_card (Finset.sdiff_subset_sdiff
        (Finset.image_subset_image Finset.subset_union_left) subset_rfl)

/-- A directory that maps nothing for the user, made from the free pages of `kmem`. -/
structure Fresh (L : Layout) (kmem kmem' : Kmem) (d : Dir) : Prop where
  empty : ∀ k < KERNPAGE, d.lookup k = none
  total : ∀ page, Space.total ⟨kmem', d⟩ page = kmem.tally page
  present : d.present = (pagesOf (kmap L)).image pdx
  took : kmem.Took kmem' (1 + kernelTables L)

theorem kmap_kernel (L : Layout) :
    ∀ m ∈ kmap L, KERNPAGE ≤ m.virt ∧ m.virt + m.count ≤ NPAGES ∧ 0 < m.count := by
  have linked := L.linked
  have room := L.room
  have low := L.low
  intro m member
  simp only [kmap, List.mem_cons, List.not_mem_nil, or_false] at member
  rcases member with rfl | rfl | rfl | rfl <;> simp only [KERNPAGE, NPAGES] <;> omega

/-- `setupkvm` needs a page for the directory and those for its page tables. -/
theorem setupkvm_spec {kmem : Kmem} (ok : ∀ page, kmem.tally page ≤ allowed L shared page) :
    (kmem.Supplied (1 + kernelTables L) ∧
      ∃ d kmem', setupkvm L shared kmem = .ok (some d) kmem' ∧ Fresh L kmem kmem' d) ∨
    (¬ kmem.Supplied (1 + kernelTables L) ∧
      ∃ kmem', setupkvm L shared kmem = .ok none kmem' ∧ ∀ page, kmem'.tally page = kmem.tally page) := by
  rcases kmem.kalloc_cases with ⟨enough, page, rest, taken⟩ | ⟨refused, rest, taken⟩
  · have low := L.low
    have room := L.room
    have fine : ¬ KERNPAGE + L.phystop > 0xf0000 := by
      simp only [KERNPAGE]
      omega
    have empty (x : Nat) : Dir.uses ⟨page, fun _ => none⟩ x = hit page x := by
      simp [Dir.uses, Dir.tables, Dir.frames, tableAt, frameAt, Dir.lookup]
    have start (x : Nat) : Space.total ⟨rest, ⟨page, fun _ => none⟩⟩ x = kmem.tally x := by
      rw [Space.total, empty]
      exact Kmem.tally_kalloc taken x
    have ok' : Space.Ok L shared ⟨rest, ⟨page, fun _ => none⟩⟩ :=
      fun x => (start x).trans_le (ok x)
    have nothing : Dir.present ⟨page, fun _ => none⟩ = ∅ := by simp [Dir.present]
    have need : Dir.need ⟨page, fun _ => none⟩ (pagesOf (kmap L)) = kernelTables L := by
      rw [Dir.need, nothing, Finset.sdiff_empty, card_kernel]
    have more := Kmem.supplied_add enough (Kmem.took_kalloc taken) (kernelTables L)
    have maps := mapAll_spec (kmap L) ok' (kmap_kernel L)
    simp only [need] at maps
    rw [more, setupkvm, taken]
    simp only [fine, Nat.not_le.mpr room, if_false]
    rcases maps with ⟨enough', s, mapped, grows⟩ | ⟨refused', s, mapped, fails⟩
    · refine .inl ⟨enough', s.dir, s.kmem, by rw [mapped], ⟨fun k user => ?_, fun x => ?_, ?_, ?_⟩⟩
      · rw [grows.user k user]
        rfl
      · exact (grows.total x).trans (start x)
      · rw [grows.present, nothing, Finset.empty_union]
      · have took := grows.took
        rw [need] at took
        exact (Kmem.took_kalloc taken).trans took
    · have okS : s.Ok L shared := ok'.mono fun x => (fails.total x).le
      obtain ⟨kmem', freed, tally⟩ := freevm_spec okS
      refine .inr ⟨refused', kmem', by rw [mapped]; simp only [freed, Outcome.bind_ok], fun x => ?_⟩
      have lows : s.dir.lows x = 0 := Finset.sum_eq_zero fun k member => by
        rw [fails.user k ((Finset.mem_range.mp member).trans (by decide))]
        rfl
      have total := fails.total x
      have := tally x
      have := start x
      omega
  · refine .inr ⟨fun enough => refused (enough.mono (by omega)), rest, by rw [setupkvm, taken], ?_⟩
    intro x
    simp only [Kmem.tally, Kmem.kalloc_none taken]

end Setup

end SirpairOs.Mem
