import SirpairOs.Mem.Sbrk

/-! Which pages of an image the user can use: all pages of the image but the guard page, and
none of the kernel's. -/
namespace SirpairOs.Mem

def Pte.clearU (e : Pte) : Pte := { e with perm := { e.perm with u := false } }

def Dir.Each (P : Nat → Pte → Prop) (d : Dir) : Prop :=
  ∀ k < NPAGES, ∀ e, d.lookup k = some e → P k e

section Each

variable {P : Nat → Pte → Prop} {d : Dir} {L : Layout} {shared : Nat → Bool} {s s' : Space} {k : Nat}

theorem Dir.Each.setPte (each : d.Each P) {e : Option Pte} (fits : k < NPAGES)
    (fine : ∀ e' ∈ e, P k e') : (d.setPte k e).Each P := by
  cases here : d.pde (pdx k) with
  | none =>
    rw [Dir.setPte, here]
    exact each
  | some t =>
    intro j inside e' found
    rw [Dir.lookup_setPte here inside fits] at found
    split_ifs at found with same
    · exact same ▸ fine e' found
    · exact each j inside e' found

theorem Dir.Each.setPde_none (each : d.Each P) (i : Fin NPDENTRIES) : (d.setPde i none).Each P := by
  intro j inside e found
  simp only [Dir.lookup, Dir.setPde] at found
  by_cases same : pdx j = i
  · simp [same] at found
  · rw [Function.update_of_ne same] at found
    exact each j inside e found

theorem Dir.Each.clear (each : d.Each P) (closed : ∀ k e, P k e → P k e.clearU) (k : Nat) :
    (d.setPte k ((d.lookup k).map Pte.clearU)).Each P := by
  intro j inside e found
  cases here : d.pde (pdx k) with
  | none =>
    rw [Dir.setPte, here] at found
    exact each j inside e found
  | some t =>
    rw [Dir.setPte_of_table here] at found
    simp only [Dir.lookup, Dir.setPde] at found
    by_cases outer : pdx j = pdx k
    · have entry : d.lookup j = t.pte (ptx j) := by rw [Dir.lookup, outer, here, Option.bind_some]
      rw [outer, Function.update_self, Option.bind_some, here, Option.bind_some] at found
      dsimp only at found
      by_cases inner : ptx j = ptx k
      · rw [inner, Function.update_self, ← inner, ← entry] at found
        obtain ⟨old, was, rfl⟩ := Option.map_eq_some_iff.mp found
        exact closed j old (each j inside old was)
      · rw [Function.update_of_ne inner, ← entry] at found
        exact each j inside e found
    · rw [Function.update_of_ne outer] at found
      exact each j inside e found

theorem makeTable_each (each : s.dir.Each P) (absent : s.dir.pde (pdx k) = none) (alloc : Bool) :
    (makeTable alloc k s).2.dir.Each P := by
  unfold makeTable
  split
  · split
    · exact each
    · intro j inside e found
      rw [Dir.lookup_setPde_empty absent] at found
      exact each j inside e found
  · exact each

theorem walkpgdir_each (each : s.dir.Each P) (alloc : Bool) :
    (walkpgdir L alloc k s).2.dir.Each P := by
  unfold walkpgdir
  split
  · rename_i absent
    exact makeTable_each each absent alloc
  · split
    · exact each
    · exact makeTable_each (each.setPde_none _) (Function.update_self ..) alloc

theorem mapPage_each {perm : Perm} {pa : Nat} {mapped : Bool} (each : s.dir.Each P)
    (fits : k < NPAGES) (fine : ∀ a d, P k ⟨pa, perm, a, d⟩)
    (done : mapPage L perm k pa s = .ok mapped s') : s'.dir.Each P := by
  have walked := walkpgdir_each (L := L) (k := k) each true
  have wrote (a d : Bool) (e : Pte) (member : e ∈ some (Pte.mk pa perm a d)) : P k e := by
    cases member
    exact fine a d
  rw [mapPage] at done
  generalize walkpgdir L true k s = r at walked done
  obtain ⟨found, t⟩ := r
  cases found with
  | false =>
    cases done
    exact walked
  | true =>
    dsimp only at done
    split at done
    · cases done
      exact walked.setPte fits (wrote false false)
    · split_ifs at done
      · cases done
        exact walked
      · cases done
        exact walked.setPte fits (wrote _ _)

theorem mappages_each {perm : Perm} {mapped : Bool} (n : Nat) {pa : Nat} (each : s.dir.Each P)
    (fits : k + n < NPAGES) (fine : ∀ j ≤ k + n, k ≤ j → ∀ pa a d, P j ⟨pa, perm, a, d⟩)
    (done : mappages L perm n k pa s = .ok mapped s') : s'.dir.Each P := by
  induction n generalizing k pa s with
  | zero => exact mapPage_each each fits (fine k le_rfl le_rfl pa) done
  | succ n ih =>
    obtain ⟨first, t, here, later⟩ := Outcome.bind_eq_ok.mp done
    have each := mapPage_each each (by omega) (fine k (by omega) le_rfl pa) here
    split at later
    · exact ih each (by omega) (fun j high low => fine j (by omega) (by omega)) later
    · cases later
      exact each

theorem mapAll_each {mapped : Bool} (maps : List Kmap) (each : s.dir.Each P)
    (fits : ∀ m ∈ maps, KERNPAGE ≤ m.virt ∧ m.virt + m.count ≤ NPAGES ∧ 0 < m.count)
    (fine : ∀ m ∈ maps, ∀ k, KERNPAGE ≤ k → ∀ pa a d, P k ⟨pa, m.perm, a, d⟩)
    (done : mapAll L maps s = .ok mapped s') : s'.dir.Each P := by
  induction maps generalizing s with
  | nil =>
    cases done
    exact each
  | cons m rest ih =>
    obtain ⟨first, t, here, later⟩ := Outcome.bind_eq_ok.mp done
    obtain ⟨kernel, high, pos⟩ := fits m List.mem_cons_self
    have each := mappages_each (m.count - 1) each (by omega)
      (fun j _ low => fine m List.mem_cons_self j (by omega)) here
    split at later
    · exact ih each (fun m member => fits m (List.mem_cons_of_mem _ member))
        (fun m member => fine m (List.mem_cons_of_mem _ member)) later
    · cases later
      exact each

theorem setupkvm_each {kmem kmem' : Kmem}
    (fine : ∀ m ∈ kmap L, ∀ k, KERNPAGE ≤ k → ∀ pa a d, P k ⟨pa, m.perm, a, d⟩)
    (done : setupkvm L shared kmem = .ok (some d) kmem') : d.Each P := by
  have empty (page : Nat) : Dir.Each P ⟨page, fun _ => none⟩ := fun _ _ _ found => nomatch found
  rw [setupkvm] at done
  split at done
  · cases done
  · split_ifs at done
    split at done
    · rename_i mapped
      cases done
      exact mapAll_each (kmap L) (empty _) (kmap_kernel L) fine mapped
    · obtain ⟨_, _, _, later⟩ := Outcome.bind_eq_ok.mp done
      cases later
    · cases done

/-! Growing an image, where the property holds for the pages of the user. -/

variable (user : ∀ k < KERNPAGE, ∀ pa a d, P k ⟨pa, userPerm, a, d⟩)

include user in
theorem allocLoop_each {oldsz newsz value : Nat} (n : Nat) (each : s.dir.Each P)
    (low : k + n ≤ KERNPAGE) (some : value ≠ 0)
    (done : allocLoop L shared oldsz newsz n k s = .ok value s') : s'.dir.Each P := by
  induction n generalizing k s with
  | zero =>
    cases done
    exact each
  | succ n ih =>
    rw [allocLoop] at done
    split at done
    · cases done
      exact absurd rfl some
    · rename_i mem kmem taken
      obtain ⟨mapped, t, here, later⟩ := Outcome.bind_eq_ok.mp done
      have each := mappages_each 0 (s := ⟨kmem, s.dir⟩) (k := k) each
        (Dir.lt_NPAGES_of_user (by omega)) (fun j high _ => user j (by omega)) here
      split at later
      · exact ih each (by omega) later
      · split at later
        · cases later
          exact absurd rfl some
        · cases later

include user in
theorem allocuvm_each {oldsz newsz value : Nat} (each : s.dir.Each P) (some : value ≠ 0)
    (done : allocuvm L shared oldsz newsz s = .ok value s') : s'.dir.Each P := by
  rw [allocuvm] at done
  split_ifs at done with high less
  · cases done
    exact absurd rfl some
  · cases done
    exact each
  · have last := pgroundup_le_KERNPAGE (Nat.not_le.mp high)
    have grows := pgroundup_mono (Nat.not_lt.mp less)
    exact allocLoop_each user _ each (by omega) some done

theorem loadLoop_each {file : List UInt8} {ph : ProgHdr} {loaded : Bool} (n : Nat) {j : Nat}
    (each : s.dir.Each P) (done : loadLoop L file ph n j s = .ok loaded s') : s'.dir.Each P := by
  induction n generalizing j s with
  | zero =>
    cases done
    exact each
  | succ n ih =>
    have walked := walkpgdir_each (L := L) (k := ph.vaddr / PGSIZE + j) each false
    rw [loadLoop] at done
    generalize walkpgdir L false (ph.vaddr / PGSIZE + j) s = r at walked done
    obtain ⟨found, t⟩ := r
    cases found with
    | false => cases done
    | true =>
      dsimp only at done
      split at done
      · cases done
        exact walked
      · exact ih walked done

include user in
theorem loadSegments_each {file : List UInt8} {sz' : Nat} (n : Nat) {off sz : Nat}
    (each : s.dir.Each P) (done : loadSegments L shared file n off sz s = .ok (some sz') s') :
    s'.dir.Each P := by
  induction n generalizing off sz s with
  | zero =>
    cases done
    exact each
  | succ n ih =>
    rw [loadSegments] at done
    split at done
    · cases done
    · dsimp only at done
      split_ifs at done with other
      · exact ih each done
      · split at done
        · cases done
        · obtain ⟨value, t, grown, later⟩ := Outcome.bind_eq_ok.mp done
          split_ifs at later with zero
          · cases later
          · have each := allocuvm_each user each zero grown
            obtain ⟨loaded, u, load, last⟩ := Outcome.bind_eq_ok.mp later
            rw [loaduvm] at load
            split_ifs at load
            have each := loadLoop_each _ each load
            split_ifs at last
            · exact ih each last
            · cases last

theorem clearpteu_each (each : s.dir.Each P) (closed : ∀ k e, P k e → P k e.clearU)
    (done : clearpteu L k s = .ok () s') : s'.dir.Each P := by
  have walked := walkpgdir_each (L := L) (k := k) each false
  rw [clearpteu] at done
  generalize walkpgdir L false k s = r at walked done
  obtain ⟨found, t⟩ := r
  cases found with
  | false => cases done
  | true =>
    cases done
    exact walked.clear closed k

include user in
theorem makeStack_each {sz newsz : Nat} (each : s.dir.Each P) (closed : ∀ k e, P k e → P k e.clearU)
    (done : makeStack L shared sz s = .ok (some newsz) s') : s'.dir.Each P := by
  rw [makeStack] at done
  split_ifs at done with high
  · cases done
  · obtain ⟨value, t, grown, later⟩ := Outcome.bind_eq_ok.mp done
    split_ifs at later with zero
    · cases later
    · have each := allocuvm_each user each zero grown
      obtain ⟨_, u, cleared, last⟩ := Outcome.bind_eq_ok.mp later
      cases last
      exact clearpteu_each each closed cleared

end Each

/-- The kernel's pages are not the user's. -/
def Dir.Sealed : Dir → Prop := Dir.Each fun k e => KERNPAGE ≤ k → e.perm.u = false

theorem kmap_sealed (L : Layout) : ∀ m ∈ kmap L, m.perm.u = false := by
  intro m member
  simp only [kmap, List.mem_cons, List.not_mem_nil, or_false] at member
  rcases member with rfl | rfl | rfl | rfl <;> rfl

/-- The user can use every page below `KERNBASE`. -/
def Dir.Open : Dir → Prop := Dir.Each fun k e => k < KERNPAGE → e.perm = userPerm

theorem inituvm_open {L : Layout} {shared : Nat → Bool} {kmem kmem' : Kmem} {d : Dir} {s : Space}
    (made : setupkvm L shared kmem = .ok (some d) kmem') (done : inituvm L ⟨kmem', d⟩ = .ok () s) :
    s.dir.Open := by
  have start : d.Open := setupkvm_each (fun _ _ k kernel _ _ _ user => by omega) made
  rw [inituvm] at done
  split at done
  · cases done
  · rename_i mem kmem taken
    obtain ⟨mapped, t, here, later⟩ := Outcome.bind_eq_ok.mp done
    cases later
    exact mappages_each 0 (s := ⟨kmem, d⟩) (k := 0) start (by decide) (fun _ _ _ _ _ _ _ => rfl) here

theorem userinit_open {L : Layout} {kmem : Kmem} {sys : Sys} {p : Slot} {d : Dir}
    (done : userinit L (Sys.idle kmem) = .ok () sys) (has : (sys.proc p).pgdir = some d) :
    d.Open := by
  rw [userinit] at done
  rcases allocproc_cases (Sys.idle kmem) with ⟨-, np, page, kmem₁, -, -, found⟩ | ⟨-, _, found, -⟩
  · rw [found] at done
    dsimp only at done
    split at done
    · cases done
    · cases done
    · rename_i made
      split at done
      · cases done
      · rename_i initialised
        cases done
        by_cases same : p = np
        · subst same
          rw [Sys.setProc_self] at has
          cases has
          exact inituvm_open made initialised
        · rw [Sys.setProc_of_ne _ same] at has
          have bare : (((Sys.idle kmem).hatch np page kmem₁).proc p).pgdir = none := by
            rw [Sys.hatch, Sys.setProc_of_ne _ same]
            rfl
          rw [show (((Sys.idle kmem).hatch np page kmem₁).proc p).pgdir = some d from has] at bare
          cases bare
  · rw [found] at done
    cases done

/-- An image of `sz` bytes with a stack: the page below the `USTACK_PAGES` pages of the stack is
the guard page, and the user can use all others. -/
structure Guarded (d : Dir) (sz : Nat) : Prop where
  whole : sz % PGSIZE = 0
  stack : (USTACK_PAGES + 1) * PGSIZE ≤ sz
  below : sz < KERNBASE
  guard : ∃ pa, d.lookup (sz / PGSIZE - (USTACK_PAGES + 1)) =
    some ⟨pa, { userPerm with u := false }, false, false⟩
  others : ∀ k < sz / PGSIZE, k ≠ sz / PGSIZE - (USTACK_PAGES + 1) →
    ∃ pa, d.lookup k = some ⟨pa, userPerm, false, false⟩
  ends : d.EndsAt sz
  closed : d.Sealed

section Guard

variable {L : Layout} {shared : Nat → Bool} {kmem₀ : Kmem} {d₀ : Dir} {s s' : Space} {sz newsz : Nat}

theorem makeStack_guarded (b : Building L shared kmem₀ d₀ s sz) (closed : s.dir.Sealed)
    (done : makeStack L shared sz s = .ok (some newsz) s') : Guarded s'.dir newsz := by
  have closed' : s'.dir.Sealed := makeStack_each (fun k user _ _ _ kernel => by omega) closed
    (fun _ _ _ _ => rfl) done
  have low := b.below
  have exact' : (pgroundup sz * PGSIZE + (USTACK_PAGES + 1) * PGSIZE) % 2 ^ 32 =
      pgroundup sz * PGSIZE + (USTACK_PAGES + 1) * PGSIZE := by
    refine Nat.mod_eq_of_lt ?_
    simp only [pgroundup, PGSIZE, USTACK_PAGES, KERNBASE] at *
    omega
  simp only [makeStack, exact'] at done
  generalize top : pgroundup sz * PGSIZE + (USTACK_PAGES + 1) * PGSIZE = size at done
  split_ifs at done with high
  · cases done
  · rw [not_or] at high
    have last : max (pgroundup sz * PGSIZE) size = size := by omega
    rcases (b.round (by omega)).alloc size with ⟨below, -, t, grown, b'⟩ | ⟨-, t, grown, -⟩
    · rw [last] at grown b'
      rw [grown, Outcome.bind_ok, if_neg (by simp only [PGSIZE, USTACK_PAGES] at top; omega)] at done
      obtain ⟨_, u, cleared, same⟩ := Outcome.bind_eq_ok.mp done
      cases same
      have pages : pgroundup newsz = newsz / PGSIZE ∧ newsz % PGSIZE = 0 ∧
          (USTACK_PAGES + 1) * PGSIZE ≤ newsz := by
        simp only [pgroundup, PGSIZE, USTACK_PAGES] at *
        omega
      have inside : newsz / PGSIZE - (USTACK_PAGES + 1) < pgroundup newsz := by
        simp only [pgroundup, PGSIZE, USTACK_PAGES] at *
        omega
      have user (k : Nat) (inside : k < pgroundup newsz) : k < NPAGES :=
        Dir.lt_NPAGES_of_user (inside.trans_le (pgroundup_le_KERNPAGE below))
      obtain ⟨pa, mapped⟩ := b'.mapped _ inside
      have table := Dir.table_of_lookup (d := t.dir) (by rw [mapped]; exact Option.some_ne_none _)
      obtain ⟨table', here⟩ := Option.ne_none_iff_exists'.mp table
      rw [clearpteu, walkpgdir_present b'.ok false table] at cleared
      simp only [mapped, Option.map_some] at cleared
      cases cleared
      refine ⟨pages.2.1, pages.2.2, below, ⟨pa, ?_⟩, fun k lower other => ?_, fun k fits after => ?_,
        closed'⟩
      · rw [Space.setPte, Dir.lookup_setPte here (user _ inside) (user _ inside), if_pos rfl]
      · rw [← pages.1] at lower
        rw [Space.setPte, Dir.lookup_setPte here (user k lower) (user _ inside), if_neg other]
        exact b'.mapped k lower
      · rw [Space.setPte, Dir.lookup_setPte here (Dir.lt_NPAGES_of_user fits) (user _ inside),
          if_neg (by omega)]
        exact b'.ends k fits after
    · rw [grown, Outcome.bind_ok, if_pos rfl] at done
      cases done

theorem stack_guarded {file : List UInt8} {n off : Nat} {t u : Space}
    (b : Building L shared kmem₀ d₀ s 0) (closed : s.dir.Sealed)
    (segments : loadSegments L shared file n off 0 s = .ok (some sz) t)
    (stacked : makeStack L shared sz t = .ok (some newsz) u) :
    Guarded u.dir newsz ∧ u.Ok L shared := by
  rcases loadSegments_spec file n off b with ⟨-, _, halted⟩ | ⟨-, _, _, done, b', -, -⟩ |
    ⟨-, _, done, -⟩
  · rw [segments] at halted
    cases halted
  · rw [segments] at done
    cases done
    have closed : t.dir.Sealed :=
      loadSegments_each (fun k user _ _ _ kernel => by omega) n closed segments
    rcases makeStack_spec b' with ⟨_, _, done, built, -⟩ | ⟨_, done, -⟩
    · rw [stacked] at done
      cases done
      exact ⟨makeStack_guarded b' closed stacked, built.ok⟩
    · rw [stacked] at done
      cases done
  · rw [segments] at done
    cases done

/-- The directory that `setupkvm` makes is the beginning of an image. -/
theorem setupkvm_building {kmem kmem' : Kmem} {d : Dir}
    (ok : ∀ page, kmem.tally page ≤ allowed L shared page)
    (made : setupkvm L shared kmem = .ok (some d) kmem') :
    Building L shared kmem d ⟨kmem', d⟩ 0 ∧ d.Sealed := by
  rcases setupkvm_spec ok with ⟨enough, _, _, done, fresh⟩ | ⟨-, _, done, -⟩
  · rw [made] at done
    cases done
    exact ⟨fresh.building ok enough,
      setupkvm_each (fun m member _ _ _ _ _ _ => kmap_sealed L m member) made⟩
  · rw [made] at done
    cases done

end Guard

end SirpairOs.Mem
