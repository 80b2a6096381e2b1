import SirpairOs.Mem.VmSpec

/-! The user's pages: `allocuvm` and `copyuvm` page by page, with any call of `kalloc`
failing. -/
namespace SirpairOs.Mem

/-- New pages have been mapped for the user. -/
structure Fills (s s' : Space) (pages : Finset Nat) : Prop where
  page : s'.dir.page = s.dir.page
  mapped : ∀ k ∈ pages, ∃ pa, s'.dir.lookup k = some ⟨pa, userPerm, false, false⟩
  user : ∀ k < KERNPAGE, k ∉ pages → s'.dir.lookup k = s.dir.lookup k
  total : ∀ page, s'.total page = s.total page
  present : s'.dir.present = s.dir.present ∪ pages.image pdx
  took : s.kmem.Took s'.kmem (pages.card + s.dir.need pages)

variable (d : Dir)

theorem Dir.need_empty : d.need ∅ = 0 := by
  rw [Dir.need, Finset.image_empty, Finset.empty_sdiff, Finset.card_empty]

theorem Fills.refl (s : Space) : Fills s s ∅ where
  page := rfl
  mapped _ member := absurd member (Finset.notMem_empty _)
  user _ _ _ := rfl
  total _ := rfl
  present := by rw [Finset.image_empty, Finset.union_empty]
  took := by
    rw [Finset.card_empty, Dir.need_empty]
    exact .refl _

theorem Fills.trans {s₁ s₂ s₃ : Space} {first second : Finset Nat} (fills : Fills s₁ s₂ first)
    (more : Fills s₂ s₃ second) (apart : Disjoint first second)
    (below : ∀ k ∈ first, k < KERNPAGE) : Fills s₁ s₃ (first ∪ second) where
  page := more.page.trans fills.page
  mapped k member := by
    rcases Finset.mem_union.mp member with early | late
    · rw [more.user k (below k early) (Finset.disjoint_left.mp apart early)]
      exact fills.mapped k early
    · exact more.mapped k late
  user k user other := by
    rw [Finset.mem_union, not_or] at other
    rw [more.user k user other.2, fills.user k user other.1]
  total page := (more.total page).trans (fills.total page)
  present := by rw [more.present, fills.present, Finset.image_union, Finset.union_assoc]
  took := by
    rw [Finset.card_union_of_disjoint apart, Dir.need_union second fills.present]
    have both := fills.took.trans more.took
    rwa [show first.card + s₁.dir.need first + (second.card + s₂.dir.need second) =
      first.card + second.card + (s₁.dir.need first + s₂.dir.need second) by omega] at both

section Page

variable {L : Layout} {shared : Nat → Bool} {s : Space} {k : Nat}

theorem Space.total_kalloc {mem : Nat} {kmem : Kmem} (taken : s.kmem.kalloc = (some mem, kmem))
    (page : Nat) : Space.total { s with kmem := kmem } page + hit mem page = s.total page := by
  have free := Kmem.tally_kalloc taken page
  simp only [Space.total]
  omega

/-- One page is allocated and mapped, there is none, or there is no page table for it. -/
theorem allocPage_cases (ok : s.Ok L shared) (user : k < KERNPAGE)
    (absent : s.dir.lookup k = none) :
    (s.kmem.Supplied (1 + s.dir.need {k}) ∧ ∃ mem kmem s', s.kmem.kalloc = (some mem, kmem) ∧
      mapPage L userPerm k mem { s with kmem := kmem } = .ok true s' ∧ Fills s s' {k}) ∨
    (¬ s.kmem.Supplied 1 ∧ ∃ kmem, s.kmem.kalloc = (none, kmem) ∧ kmem.freelist = s.kmem.freelist) ∨
    (s.kmem.Supplied 1 ∧ ¬ s.kmem.Supplied (1 + s.dir.need {k}) ∧
      ∃ mem kmem s', s.kmem.kalloc = (some mem, kmem) ∧
        mapPage L userPerm k mem { s with kmem := kmem } = .ok false s' ∧
        Fails { s with kmem := kmem } s') := by
  rcases s.kmem.kalloc_cases with ⟨enough, mem, kmem, taken⟩ | ⟨refused, kmem, taken⟩
  · have ok' : Space.Ok L shared { s with kmem := kmem } := ok.mono fun page => by
      have := Space.total_kalloc taken page
      omega
    have more := Kmem.supplied_add enough (Kmem.took_kalloc taken) (s.dir.need {k})
    rw [more]
    rcases mapPage_user ok' user absent userPerm mem with ⟨enough', t, mapped, maps⟩ |
      ⟨refused', t, mapped, fails⟩
    · refine .inl ⟨enough', mem, kmem, t, taken, mapped, ⟨maps.page, ?_, ?_, ?_, maps.present, ?_⟩⟩
      · intro j member
        obtain rfl := Finset.mem_singleton.mp member
        exact ⟨mem, maps.mapped⟩
      · exact fun j below other => maps.user j below fun same => other (Finset.mem_singleton.mpr same)
      · exact fun page => (maps.total page).trans (Space.total_kalloc taken page)
      · rw [Finset.card_singleton]
        exact (Kmem.took_kalloc taken).trans maps.took
    · exact .inr (.inr ⟨enough, refused', mem, kmem, t, taken, mapped, fails⟩)
  · exact .inr (.inl ⟨refused, kmem, taken, Kmem.kalloc_none taken⟩)

theorem Ico_cons (k n : Nat) :
    Finset.Ico k (k + (n + 1)) = {k} ∪ Finset.Ico (k + 1) (k + 1 + n) := by
  ext j
  simp only [Finset.mem_union, Finset.mem_singleton, Finset.mem_Ico]
  omega

theorem Ico_apart (k n : Nat) : Disjoint {k} (Finset.Ico (k + 1) (k + 1 + n)) :=
  Finset.disjoint_singleton_left.mpr fun member => by
    have := (Finset.mem_Ico.mp member).1
    omega

theorem Fills.cons {s' s'' : Space} {n : Nat} (fills : Fills s s' {k})
    (later : Fills s' s'' (Finset.Ico (k + 1) (k + 1 + n))) (user : k < KERNPAGE) :
    Fills s s'' (Finset.Ico k (k + (n + 1))) := by
  rw [Ico_cons]
  refine fills.trans later (Ico_apart k n) fun j member => ?_
  rwa [Finset.mem_singleton.mp member]

theorem Fills.absent {s' : Space} {n : Nat} (fills : Fills s s' {k}) (user : k + (n + 1) ≤ KERNPAGE)
    (absent : ∀ j, k ≤ j → j < k + (n + 1) → s.dir.lookup j = none) (j : Nat) (low : k + 1 ≤ j)
    (high : j < k + 1 + n) : s'.dir.lookup j = none := by
  have other : j ∉ ({k} : Finset Nat) := fun member => by
    rw [Finset.mem_singleton] at member
    omega
  rw [fills.user j (by omega) other]
  exact absent j (by omega) (by omega)

/-- The calls of `kalloc` for `n` pages from `k` on. -/
def Dir.price (d : Dir) (k n : Nat) : Nat := n + d.need (Finset.Ico k (k + n))

theorem Dir.price_zero (k : Nat) : d.price k 0 = 0 := by
  rw [Dir.price, Nat.add_zero, Finset.Ico_self, Dir.need_empty]

theorem Fills.price_succ {s' : Space} (fills : Fills s s' {k}) (n : Nat) :
    s.dir.price k (n + 1) = 1 + s.dir.need {k} + s'.dir.price (k + 1) n := by
  rw [Dir.price, Dir.price, Ico_cons, Dir.need_union _ fills.present]
  omega

/-- With enough for the first page, enough for all is enough for the others. -/
theorem Fills.supplied_succ {s' : Space} (fills : Fills s s' {k})
    (enough : s.kmem.Supplied (1 + s.dir.need {k})) (n : Nat) :
    s.kmem.Supplied (s.dir.price k (n + 1)) ↔ s'.kmem.Supplied (s'.dir.price (k + 1) n) := by
  have took := fills.took
  rw [Finset.card_singleton] at took
  rw [fills.price_succ, Kmem.supplied_add enough took]

theorem Dir.price_succ_ge (k n : Nat) : 1 + d.need {k} ≤ d.price k (n + 1) := by
  have first : d.need {k} ≤ d.need (Finset.Ico k (k + (n + 1))) := by
    rw [Ico_cons]
    exact Finset.card_le_card (Finset.sdiff_subset_sdiff
      (Finset.image_subset_image Finset.subset_union_left) subset_rfl)
  rw [Dir.price]
  omega

end Page

section Alloc

variable {L : Layout} {shared : Nat → Bool} {s : Space} {oldsz newsz k n : Nat}

/-- `allocuvm` has failed in the middle of the pages from `k` on and has taken back what
it had done, from page `first` on; the pages below 0x4000 stay mapped. -/
structure Undone (s s' : Space) (first k n : Nat) : Prop where
  page : s'.dir.page = s.dir.page
  total : ∀ page, s'.total page = s.total page
  high : ∀ j < KERNPAGE, 4 ≤ j →
    s'.dir.lookup j = if first ≤ j ∧ j < k + n then none else s.dir.lookup j
  low : ∀ j < 4, ¬ (k ≤ j ∧ j < k + n) → s'.dir.lookup j = s.dir.lookup j
  /-- The pages were mapped in order. -/
  order : ∀ j < 4, k ≤ j → j < k + n → s'.dir.lookup j ≠ none → s'.dir.lookup k ≠ none
  first : k < 4 → (s'.dir.lookup k ≠ none ↔ s.kmem.Supplied (1 + s.dir.need {k}))

theorem Drops.undone {t s' : Space} {first : Nat} (fails : Fails s t) (absent : s.dir.lookup k = none)
    (same : ∀ j, k ≤ j → j < k + n → s.dir.lookup j = none)
    (refused : ¬ s.kmem.Supplied (1 + s.dir.need {k})) (drops : Drops t s' first (k + n)) :
    Undone s s' first k n := by
  have low (j : Nat) (below : j < 4) : s'.dir.lookup j = s.dir.lookup j := by
    have user : j < KERNPAGE := below.trans (by decide)
    rw [drops.user j user, if_neg (by omega), fails.user j user]
  refine ⟨drops.page.trans fails.page, fun page => (drops.total page).trans (fails.total page),
    fun j user high => ?_, fun j below _ => low j below, fun j below first' last some => ?_,
    fun below => ?_⟩
  · rw [drops.user j user, fails.user j user]
    simp only [high, and_true]
  · rw [low j below, same j first' last] at some
    exact absurd rfl some
  · rw [low k below, absent]
    exact iff_of_false (fun some => some rfl) refused

/-- One page more was mapped before. -/
theorem Undone.cons {t s' : Space} {first : Nat} (fills : Fills s t {k})
    (enough : s.kmem.Supplied (1 + s.dir.need {k})) (le : first ≤ k)
    (undone : Undone t s' first (k + 1) n) : Undone s s' first k (n + 1) := by
  have other (j : Nat) (user : j < KERNPAGE) (ne : j ≠ k) : t.dir.lookup j = s.dir.lookup j :=
    fills.user j user fun member => ne (Finset.mem_singleton.mp member)
  have here (below : k < 4) : s'.dir.lookup k ≠ none := by
    obtain ⟨pa, mapped⟩ := fills.mapped k (Finset.mem_singleton_self k)
    rw [undone.low k below (by omega), mapped]
    nofun
  refine ⟨undone.page.trans fills.page, fun page => (undone.total page).trans (fills.total page),
    fun j user high => ?_, fun j below outside => ?_, fun j below after _ _ => here (by omega),
    fun below => iff_of_true (here below) enough⟩
  · rw [undone.high j user high]
    by_cases inside : first ≤ j ∧ j < k + 1 + n
    · rw [if_pos inside, if_pos (by omega)]
    · rw [if_neg inside, if_neg (by omega), other j user (by omega)]
  · rw [undone.low j below (by omega), other j (below.trans (by decide)) (by omega)]

theorem lt_of_pgroundup_lt {a b : Nat} (lt : pgroundup a < pgroundup b) : a < b := by
  simp only [pgroundup, PGSIZE] at lt
  omega

theorem Fails.give {t : Space} {mem : Nat} {kmem : Kmem} (ok : s.Ok L shared)
    (taken : s.kmem.kalloc = (some mem, kmem)) (fails : Fails { s with kmem := kmem } t) :
    kfree L mem t.kmem = .ok () (t.kmem.kfree mem) ∧
      Fails s { t with kmem := t.kmem.kfree mem } := by
  have was := Space.total_kalloc taken mem
  rw [hit_self] at was
  have valid : L.valid mem = true := (ok.of_pos (by omega)).1
  have left : t.kmem.tally mem = 0 := by
    have once := (ok mem).trans (allowed_le_one L shared mem)
    have same := fails.total mem
    simp only [Space.total] at once was same
    omega
  refine ⟨by rw [kfree, if_pos valid], ⟨fails.page, fails.user, fun page => ?_⟩⟩
  have := Space.total_kalloc taken page
  have free := Kmem.tally_kfree left page
  have same := fails.total page
  simp only [Space.total] at *
  omega

theorem allocLoop_spec (oldsz newsz : Nat) (ok : s.Ok L shared) (stop : k + n = pgroundup newsz)
    (user : k + n ≤ KERNPAGE) (first : pgroundup oldsz ≤ k)
    (absent : ∀ j, k ≤ j → j < k + n → s.dir.lookup j = none) :
    (s.kmem.Supplied (s.dir.price k n) ∧ ∃ s', allocLoop L shared oldsz newsz n k s = .ok newsz s' ∧
      Fills s s' (Finset.Ico k (k + n))) ∨
    (¬ s.kmem.Supplied (s.dir.price k n) ∧ ∃ s', allocLoop L shared oldsz newsz n k s = .ok 0 s' ∧
      Undone s s' (pgroundup oldsz) k n) := by
  induction n generalizing k s with
  | zero =>
    rw [Dir.price_zero, Nat.add_zero, Finset.Ico_self]
    exact .inl ⟨s.kmem.supplied_zero, s, rfl, .refl s⟩
  | succ n ih =>
    have grows : oldsz < newsz := lt_of_pgroundup_lt (by omega)
    have here : s.dir.lookup k = none := absent k le_rfl (by omega)
    have price := s.dir.price_succ_ge k n
    -- Whatever goes wrong with this page, the loop ends by taking everything back.
    have undo (t : Space) (fails : Fails s t) (refused : ¬ s.kmem.Supplied (1 + s.dir.need {k})) :
        Undone s (deallocuvm L shared newsz oldsz t).2 (pgroundup oldsz) k (n + 1) := by
      obtain ⟨s', dealloc, drops⟩ := deallocuvm_drops
        (ok.mono fun page => (fails.total page).le) newsz oldsz grows (by omega)
      rw [dealloc]
      rw [← stop] at drops
      exact drops.undone fails here absent refused
    rw [allocLoop]
    rcases allocPage_cases ok (by omega) here with ⟨enough, mem, kmem, t, taken, mapped, fills⟩ |
      ⟨refused, kmem, taken, same⟩ | ⟨-, refused, mem, kmem, t, taken, mapped, fails⟩
    · simp only [taken, mappages, mapped, Outcome.bind_ok, if_true]
      rw [fills.supplied_succ enough]
      rcases ih (k := k + 1) (ok.mono fun page => (fills.total page).le) (by omega) (by omega)
        (by omega) (fills.absent user absent) with
        ⟨enough', s', later, fills'⟩ | ⟨refused', s', later, undone⟩
      · exact .inl ⟨enough', s', later, fills.cons fills' (by omega)⟩
      · exact .inr ⟨refused', s', later, undone.cons fills enough first⟩
    · simp only [taken]
      have refused : ¬ s.kmem.Supplied (1 + s.dir.need {k}) :=
        fun enough => refused (enough.mono (by omega))
      refine .inr ⟨fun enough => refused (enough.mono price), _, rfl, undo _ ?_ refused⟩
      exact ⟨rfl, fun _ _ => rfl, Space.total_kmem same⟩
    · obtain ⟨freed, fails⟩ := fails.give ok taken
      simp only [taken, mappages, mapped, Outcome.bind_ok, Bool.false_eq_true, if_false, freed]
      exact .inr ⟨fun enough => refused (enough.mono price), _, rfl, undo _ fails refused⟩

theorem pgroundup_le_KERNPAGE {sz : Nat} (below : sz < KERNBASE) : pgroundup sz ≤ KERNPAGE := by
  simp only [pgroundup, PGSIZE, KERNBASE, KERNPAGE] at *
  omega

theorem pgroundup_pos {a : Nat} : 0 < pgroundup a ↔ 0 < a := by
  simp only [pgroundup, PGSIZE]
  omega

theorem pgroundup_mono {a b : Nat} (le : a ≤ b) : pgroundup a ≤ pgroundup b := by
  simp only [pgroundup, PGSIZE]
  omega

def Dir.EndsAt (d : Dir) (sz : Nat) : Prop := ∀ k < KERNPAGE, pgroundup sz ≤ k → d.lookup k = none

/-- `allocuvm` where nothing is mapped from `oldsz` on. -/
theorem allocuvm_spec (ok : s.Ok L shared) (below : newsz < KERNBASE) (le : oldsz ≤ newsz)
    (ends : s.dir.EndsAt oldsz) :
    (s.kmem.Supplied (s.dir.price (pgroundup oldsz) (pgroundup newsz - pgroundup oldsz)) ∧
      ∃ s', allocuvm L shared oldsz newsz s = .ok newsz s' ∧
        Fills s s' (Finset.Ico (pgroundup oldsz) (pgroundup newsz))) ∨
    (¬ s.kmem.Supplied (s.dir.price (pgroundup oldsz) (pgroundup newsz - pgroundup oldsz)) ∧
      ∃ s', allocuvm L shared oldsz newsz s = .ok 0 s' ∧
        Undone s s' (pgroundup oldsz) (pgroundup oldsz) (pgroundup newsz - pgroundup oldsz)) := by
  have user := pgroundup_le_KERNPAGE below
  have count := Nat.add_sub_cancel' (pgroundup_mono le)
  have spec := allocLoop_spec oldsz newsz ok count (count.trans_le user) le_rfl
    fun j low high => ends j (by omega) low
  rw [count] at spec
  rw [allocuvm, if_neg (by omega), if_neg (by omega)]
  exact spec

end Alloc

section Copy

variable {L : Layout} {shared : Nat → Bool} {s : Space} {parent : Dir} {k n : Nat}

/-- `copyuvm` has failed in the middle of the pages from `k` on. The page `lost` was
allocated and could not be mapped. -/
structure Aborts (s s' : Space) (lost : Option Nat) (k n : Nat) : Prop where
  page : s'.dir.page = s.dir.page
  total : ∀ page, s'.total page + lost.elim 0 (hit · page) = s.total page
  user : ∀ j < KERNPAGE, ¬ (k ≤ j ∧ j < k + n) → s'.dir.lookup j = s.dir.lookup j
  early : ¬ s.kmem.Supplied 1 → lost = none ∧ ∀ j < KERNPAGE, s'.dir.lookup j = s.dir.lookup j
  late : s.kmem.Supplied 1 → lost ≠ none ∨ s'.dir.lookup k ≠ none

theorem Aborts.cons {t s' : Space} {lost : Option Nat} (fills : Fills s t {k})
    (enough : s.kmem.Supplied (1 + s.dir.need {k})) (below : k < KERNPAGE)
    (aborts : Aborts t s' lost (k + 1) n) : Aborts s s' lost k (n + 1) := by
  refine ⟨aborts.page.trans fills.page, fun page => (aborts.total page).trans (fills.total page),
    fun j user outside => ?_, fun refused => absurd (enough.mono (by omega)) refused, fun _ => .inr ?_⟩
  · rw [aborts.user j user (by omega), fills.user j user fun member => by
      rw [Finset.mem_singleton] at member
      omega]
  · obtain ⟨pa, mapped⟩ := fills.mapped k (Finset.mem_singleton_self k)
    rw [aborts.user k below (by omega), mapped]
    nofun

theorem copyLoop_spec (ok : s.Ok L shared) (user : k + n ≤ KERNPAGE)
    (tables : ∀ i t, parent.pde i = some t → L.valid t.page = true)
    (covers : ∀ j, k ≤ j → j < k + n → parent.lookup j ≠ none)
    (absent : ∀ j, k ≤ j → j < k + n → s.dir.lookup j = none) :
    (s.kmem.Supplied (s.dir.price k n) ∧ ∃ s', copyLoop L parent n k s = .ok true s' ∧
      Fills s s' (Finset.Ico k (k + n))) ∨
    (¬ s.kmem.Supplied (s.dir.price k n) ∧ ∃ s' lost, copyLoop L parent n k s = .ok false s' ∧
      Aborts s s' lost k n) := by
  induction n generalizing k s with
  | zero =>
    rw [Dir.price_zero, Nat.add_zero, Finset.Ico_self]
    exact .inl ⟨s.kmem.supplied_zero, s, rfl, .refl s⟩
  | succ n ih =>
    have here : s.dir.lookup k = none := absent k le_rfl (by omega)
    have price := s.dir.price_succ_ge k n
    obtain ⟨e, mapped⟩ := Option.ne_none_iff_exists'.mp (covers k le_rfl (by omega))
    have walked : (walkpgdir L false k { s with dir := parent }).1 = true := by
      obtain ⟨t, table, -⟩ := Option.bind_eq_some_iff.mp mapped
      rw [walkpgdir]
      simp only [table, tables _ t table, if_true]
    rw [copyLoop]
    simp only [walked, mapped]
    rcases allocPage_cases ok (by omega) here with ⟨enough, mem, kmem, t, taken, mapped, fills⟩ |
      ⟨refused, kmem, taken, same⟩ | ⟨one, refused, mem, kmem, t, taken, mapped, fails⟩
    · simp only [taken, mappages, mapped, Outcome.bind_ok, if_true]
      rw [fills.supplied_succ enough]
      rcases ih (k := k + 1) (ok.mono fun page => (fills.total page).le) (by omega)
        (fun j low high => covers j (by omega) (by omega)) (fills.absent user absent) with
        ⟨enough', s', later, fills'⟩ | ⟨refused', s', lost, later, aborts⟩
      · exact .inl ⟨enough', s', later, fills.cons fills' (by omega)⟩
      · exact .inr ⟨refused', s', lost, later, aborts.cons fills enough (by omega)⟩
    · simp only [taken]
      refine .inr ⟨fun enough => refused (enough.mono (by omega)), _, none, rfl,
        ⟨rfl, fun page => ?_, fun _ _ _ => rfl, fun _ => ⟨rfl, fun _ _ => rfl⟩,
          fun enough => absurd enough refused⟩⟩
      rw [Option.elim_none, Nat.add_zero]
      exact Space.total_kmem same page
    · simp only [taken, mappages, mapped, Outcome.bind_ok, Bool.false_eq_true, if_false]
      refine .inr ⟨fun enough => refused (enough.mono price), t, some mem, rfl,
        ⟨fails.page, fun page => ?_, fun j user _ => fails.user j user,
          fun none => absurd one none, fun _ => .inl (Option.some_ne_none mem)⟩⟩
      rw [fails.total page]
      exact Space.total_kalloc taken page

/-- A page that is mapped below 0x4000 is lost. -/
theorem Dir.lows_pos {d : Dir} {k : Nat} {e : Pte} (low : k < 4) (mapped : d.lookup k = some e) :
    0 < d.lows e.page := Space.Ok.sum_frameAt_pos low mapped

theorem Dir.lows_eq_zero {d : Dir} (empty : ∀ k < 4, d.lookup k = none) (page : Nat) :
    d.lows page = 0 :=
  Finset.sum_eq_zero fun k member => by
    rw [empty k (Finset.mem_range.mp member)]
    rfl

theorem Dir.lows_eq_zero_iff : (∀ page, d.lows page = 0) ↔ ∀ k < 4, d.lookup k = none := by
  refine ⟨fun zero k low => ?_, fun empty => Dir.lows_eq_zero empty⟩
  by_contra some
  obtain ⟨e, mapped⟩ := Option.ne_none_iff_exists'.mp some
  have pos := Dir.lows_pos low mapped
  rw [zero e.page] at pos
  exact absurd pos (lt_irrefl 0)

/-- `copyuvm` copies the pages below `sz`, or it fails. When it fails after it got the
first page, it loses pages. -/
theorem copyuvm_spec {kmem : Kmem} {sz : Nat} (ok : ∀ page, kmem.tally page ≤ allowed L shared page)
    (tables : ∀ i t, parent.pde i = some t → L.valid t.page = true)
    (covers : ∀ k < pgroundup sz, parent.lookup k ≠ none) :
    (∃ child kmem', copyuvm L shared parent sz kmem = .ok (some child) kmem' ∧
      (∀ page, Space.total ⟨kmem', child⟩ page = kmem.tally page) ∧
      ∀ k < KERNPAGE, child.lookup k ≠ none ↔ k < pgroundup sz) ∨
    (∃ kmem', copyuvm L shared parent sz kmem = .ok none kmem' ∧
      (∀ page, kmem'.tally page ≤ kmem.tally page) ∧ (kmem.SameFree kmem' ↔
        ¬ (0 < sz ∧ sz < KERNBASE ∧ kmem.Supplied (1 + kernelTables L + 1)))) := by
  rw [copyuvm]
  by_cases high : sz ≥ KERNBASE
  · rw [if_pos high]
    refine .inr ⟨kmem, rfl, fun _ => le_rfl, iff_of_true (fun _ => Iff.rfl) fun all => ?_⟩
    omega
  · rw [if_neg high]
    rcases setupkvm_spec ok with ⟨enough, d, rest, made, fresh⟩ | ⟨refused, kmem', failed, same⟩
    · have okF : Space.Ok L shared ⟨rest, d⟩ := fun page => (fresh.total page).trans_le (ok page)
      have user := pgroundup_le_KERNPAGE (Nat.not_le.mp high)
      simp only [made, Outcome.bind_ok]
      rcases copyLoop_spec (k := 0) (n := pgroundup sz) okF (by omega) tables
        (fun j _ inside => covers j (by omega)) (fun j _ inside => fresh.empty j (by omega)) with
        ⟨-, s', copied, fills⟩ | ⟨short, s', lost, copied, aborts⟩
      · refine .inl ⟨s'.dir, s'.kmem, by rw [copied],
          fun page => (fills.total page).trans (fresh.total page), fun k below => ?_⟩
        rw [Nat.zero_add] at fills
        by_cases inside : k < pgroundup sz
        · obtain ⟨pa, mapped⟩ := fills.mapped k (Finset.mem_Ico.mpr ⟨Nat.zero_le _, inside⟩)
          rw [mapped]
          exact iff_of_true nofun inside
        · rw [fills.user k below fun member => inside (Finset.mem_Ico.mp member).2]
          exact iff_of_false (fun some => some (fresh.empty k below)) inside
      · have okS : s'.Ok L shared := okF.mono fun page => by
          have := aborts.total page
          omega
        obtain ⟨kmem', freed, tally⟩ := freevm_spec okS
        have account (page : Nat) : kmem'.tally page + s'.dir.lows page +
            lost.elim 0 (hit · page) = kmem.tally page := by
          have := tally page
          have := aborts.total page
          have := fresh.total page
          omega
        have pos : 0 < sz := by
          by_contra zero
          refine short ?_
          rw [Nat.eq_zero_of_not_pos fun pos => zero (pgroundup_pos.mp pos), Dir.price_zero]
          exact Kmem.supplied_zero _
        refine .inr ⟨kmem', by rw [copied]; simp only [freed, Outcome.bind_ok], fun page => ?_, ?_⟩
        · have := account page
          omega
        · rw [Kmem.supplied_add enough fresh.took, Kmem.sameFree_iff]
          constructor
          · rintro same ⟨-, -, one⟩
            rcases aborts.late one with missing | mapped
            · obtain ⟨mem, rfl⟩ := Option.ne_none_iff_exists'.mp missing
              have := account mem
              have := same mem
              simp only [Option.elim_some, hit_self] at *
              omega
            · obtain ⟨e, mapped⟩ := Option.ne_none_iff_exists'.mp mapped
              have := Dir.lows_pos (by decide) mapped
              have := account e.page
              have := same e.page
              omega
          · intro none page
            obtain ⟨rfl, same⟩ := aborts.early fun one => none ⟨pos, Nat.not_le.mp high, one⟩
            have lows := Dir.lows_eq_zero (d := s'.dir) (fun k low =>
              (same k (low.trans (by decide))).trans (fresh.empty k (low.trans (by decide)))) page
            have := account page
            simp only [Option.elim_none] at this
            omega
    · rw [failed, Outcome.bind_ok]
      refine .inr ⟨kmem', rfl, fun page => (same page).le,
        iff_of_true ((Kmem.sameFree_iff _ _).mpr same) fun all => refused (all.2.2.mono (by omega))⟩

end Copy

end SirpairOs.Mem
