import SirpairOs.Mem.Load

/-! `fork` copies the address space with `copyuvm`: the bytes, the frames and the permissions. -/
namespace SirpairOs.Mem

section Copy

variable {L : Layout} {shared : Nat → Bool} {s : Space} {parent : Dir} {k n : Nat} {ram : Ram}

/-- Mapping a page takes pages from the free list only. -/
theorem mapPage_tally {perm : Perm} {pa : Nat} {mapped : Bool} {s' : Space}
    (done : mapPage L perm k pa s = .ok mapped s') (page : Nat) :
    s'.kmem.tally page ≤ s.kmem.tally page := by
  have made (s : Space) : (makeTable true k s).2.kmem.tally page ≤ s.kmem.tally page := by
    rw [makeTable, if_pos rfl]
    rcases s.kmem.kalloc_cases with ⟨-, mem, kmem, taken⟩ | ⟨-, kmem, taken⟩
    · have := Kmem.tally_kalloc taken page
      rw [taken]
      dsimp only
      omega
    · rw [taken]
      simp only [Kmem.tally, Kmem.kalloc_none taken, le_refl]
  have walked : (walkpgdir L true k s).2.kmem.tally page ≤ s.kmem.tally page := by
    rw [walkpgdir]
    split
    · exact made s
    · split
      · exact le_rfl
      · exact made { s with dir := s.dir.setPde (pdx k) none }
  rw [mapPage] at done
  generalize walkpgdir L true k s = r at walked done
  obtain ⟨found, t⟩ := r
  cases found with
  | false =>
    cases done
    exact walked
  | true =>
    dsimp only at done
    split at done
    · cases done
      exact walked
    · split_ifs at done <;> cases done <;> exact walked

/-- The `n` pages from `k` on have been copied. -/
structure Copies (parent : Dir) (s s' : Space) (ram ram' : Ram) (k n : Nat) : Prop where
  total : ∀ page, s'.total page = s.total page
  user : ∀ j < KERNPAGE, j ∉ Finset.Ico k (k + n) → s'.dir.lookup j = s.dir.lookup j
  copied : ∀ j ∈ Finset.Ico k (k + n), ∃ e mem, parent.lookup j = some e ∧
    s'.dir.lookup j = some ⟨mem, userPerm, false, false⟩ ∧ ram' mem = ram e.page
  /-- Only free pages are written. -/
  kept : ∀ page, s.kmem.tally page = 0 → ram' page = ram page

theorem Copies.refl (parent : Dir) (s : Space) (ram : Ram) (k : Nat) :
    Copies parent s s ram ram k 0 where
  total _ := rfl
  user _ _ _ := rfl
  copied j member := by
    rw [Nat.add_zero, Finset.Ico_self] at member
    exact absurd member (Finset.notMem_empty j)
  kept _ _ := rfl

theorem Copies.cons {t s' : Space} {e : Pte} {mem : Nat} {ram' : Ram} (ok : s.Ok L shared)
    (below : k < KERNPAGE) (fills : Fills s t {k}) (free : 0 < s.kmem.tally mem)
    (fewer : ∀ page, t.kmem.tally page ≤ s.kmem.tally page) (here : parent.lookup k = some e)
    (mapped : t.dir.lookup k = some ⟨mem, userPerm, false, false⟩)
    (apart : ∀ j ∈ Finset.Ico k (k + (n + 1)), ∀ e, parent.lookup j = some e →
      s.kmem.tally e.page = 0) (rest : Copies parent t s' (ram.copy e.page mem) ram' (k + 1) n) :
    Copies parent s s' ram ram' k (n + 1) := by
  -- The new page is in use now, so the later copies leave it alone.
  have used : t.kmem.tally mem = 0 := by
    have once := (fills.total mem).trans_le ((ok mem).trans (allowed_le_one L shared mem))
    have pos := Space.Ok.frames_pos below mapped
    simp only [Space.total, Dir.uses] at once
    dsimp only at pos
    omega
  have old (page : Nat) (taken : s.kmem.tally page = 0) : ram.copy e.page mem page = ram page :=
    Function.update_of_ne (fun same => by rw [same] at taken; omega) ..
  have outside : k ∉ Finset.Ico (k + 1) (k + 1 + n) := fun member => by
    have := (Finset.mem_Ico.mp member).1
    omega
  refine ⟨fun page => (rest.total page).trans (fills.total page), fun j user other => ?_, ?_, ?_⟩
  · rw [Ico_cons, Finset.mem_union, not_or] at other
    rw [rest.user j user other.2, fills.user j user other.1]
  · intro j member
    have source := apart j member
    rw [Ico_cons, Finset.mem_union, Finset.mem_singleton] at member
    rcases member with rfl | later
    · refine ⟨e, mem, here, (rest.user j below outside).trans mapped, ?_⟩
      rw [rest.kept mem used]
      exact Function.update_self ..
    · obtain ⟨e', mem', found, copy, same⟩ := rest.copied j later
      exact ⟨e', mem', found, copy, same.trans (old e'.page (source e' found))⟩
  · intro page taken
    have := fewer page
    rw [rest.kept page (by omega), old page taken]

theorem copyLoopRam_spec {s' : Space} {ram' : Ram} (ok : s.Ok L shared) (user : k + n ≤ KERNPAGE)
    (absent : ∀ j ∈ Finset.Ico k (k + n), s.dir.lookup j = none)
    (apart : ∀ j ∈ Finset.Ico k (k + n), ∀ e, parent.lookup j = some e → s.kmem.tally e.page = 0)
    (done : copyLoopRam L parent n k s ram = .ok true (s', ram')) :
    Copies parent s s' ram ram' k n := by
  induction n generalizing k s ram with
  | zero =>
    cases done
    exact .refl ..
  | succ n ih =>
    have first : k ∈ Finset.Ico k (k + (n + 1)) := Finset.mem_Ico.mpr ⟨le_rfl, by omega⟩
    have later (j : Nat) (member : j ∈ Finset.Ico (k + 1) (k + 1 + n)) :
        j ∈ Finset.Ico k (k + (n + 1)) := by
      rw [Finset.mem_Ico] at member ⊢
      omega
    have below : k < KERNPAGE := by omega
    rw [copyLoopRam] at done
    split at done
    · cases done
    · cases done
    · rename_i e walked here
      rcases allocPage_cases ok below (absent k first) with ⟨-, mem, kmem, t, taken, mapped, fills⟩ |
        ⟨-, kmem, taken, -⟩ | ⟨-, -, mem, kmem, t, taken, mapped, -⟩
      · simp only [taken, mappages, mapped, Outcome.mapState, Outcome.bind_ok, if_true] at done
        have ok' : Space.Ok L shared { s with kmem := kmem } := ok.mono fun page => by
          have := Space.total_kalloc taken page
          omega
        have entry : t.dir.lookup k = some ⟨mem, userPerm, false, false⟩ := by
          rcases mapPage_user ok' below (absent k first) userPerm mem with
            ⟨-, t', mapped', maps⟩ | ⟨-, t', mapped', -⟩
          · rw [mapped] at mapped'
            cases mapped'
            exact maps.mapped
          · rw [mapped] at mapped'
            cases mapped'
        have fewer (page : Nat) : t.kmem.tally page ≤ s.kmem.tally page := by
          have := mapPage_tally mapped page
          have := Kmem.tally_kalloc taken page
          dsimp only at *
          omega
        have free : 0 < s.kmem.tally mem := by
          have := Kmem.tally_kalloc taken mem
          rw [hit_self] at this
          omega
        refine .cons ok below fills free fewer here entry apart (ih (k := k + 1) ?_ (by omega) ?_ ?_ done)
        · exact ok.mono fun page => (fills.total page).le
        · intro j member
          rw [fills.user j (by have := Finset.mem_Ico.mp member; omega) fun same => by
            have := Finset.mem_Ico.mp member
            rw [Finset.mem_singleton] at same
            omega]
          exact absent j (later j member)
        · intro j member e found
          have := fewer e.page
          have := apart j (later j member) e found
          omega
      · simp only [taken] at done
        cases done
      · simp only [taken, mappages, mapped, Outcome.mapState, Outcome.bind_ok, Bool.false_eq_true,
          if_false] at done
        cases done

/-- What `copyuvm` does to the contents and the page table, where the pages of the parent are
not free. -/
theorem copyuvmRam_spec {sz : Nat} {kmem kmem' : Kmem} {child : Dir} {ram' : Ram}
    (ok : ∀ page, kmem.tally page ≤ allowed L shared page)
    (apart : ∀ k < KERNPAGE, ∀ e, parent.lookup k = some e → kmem.tally e.page = 0)
    (done : copyuvmRam L shared parent sz kmem ram = .ok (some child) (kmem', ram')) :
    pgroundup sz ≤ KERNPAGE ∧ ∃ s : Space, (∀ page, s.total page = kmem.tally page) ∧
      (∀ page, s.kmem.tally page ≤ kmem.tally page) ∧ (∀ k < KERNPAGE, s.dir.lookup k = none) ∧
      Copies parent s ⟨kmem', child⟩ ram ram' 0 (pgroundup sz) := by
  rw [copyuvmRam] at done
  split at done
  · cases done
  · rename_i low
    have user := pgroundup_le_KERNPAGE (Nat.not_le.mp low)
    refine ⟨user, ?_⟩
    rcases setupkvm_spec ok with ⟨-, d, rest, made, fresh⟩ | ⟨-, kmem₁, made, -⟩
    · simp only [made, Outcome.mapState, Outcome.bind_ok] at done
      have fewer (page : Nat) : rest.tally page ≤ kmem.tally page := by
        have := fresh.total page
        simp only [Space.total] at this
        omega
      have okF : Space.Ok L shared ⟨rest, d⟩ := fun page => (fresh.total page).trans_le (ok page)
      split at done
      · rename_i s' ram₁ copied
        cases done
        refine ⟨⟨rest, d⟩, fresh.total, fewer, fresh.empty, ?_⟩
        refine copyLoopRam_spec okF (by omega) (fun j member => ?_) (fun j member e found => ?_) copied
        · exact fresh.empty j (by have := Finset.mem_Ico.mp member; omega)
        · have := apart j (by have := Finset.mem_Ico.mp member; omega) e found
          have := fewer e.page
          dsimp only
          omega
      · cases freed : freevm L shared _ with
        | ok _ kmem₂ | halt why kmem₂ =>
          rw [freed] at done
          cases done
      · cases done
    · simp only [made, Outcome.mapState, Outcome.bind_ok] at done
      cases done

end Copy

/-- The directories map no page in common for the user. -/
def Dir.Apart (d d' : Dir) : Prop :=
  ∀ j < KERNPAGE, ∀ k < KERNPAGE, ∀ e e', d.lookup j = some e → d'.lookup k = some e' →
    e.page ≠ e'.page

theorem Dir.Apart.symm {d d' : Dir} (apart : d.Apart d') : d'.Apart d :=
  fun j left k right e e' first second same => apart k right j left e' e second first same.symm

/-- A store through one directory is not seen through the other. -/
theorem Dir.Apart.byteAt_poke {d d' : Dir} (apart : d.Apart d') (ram : Ram) {va va' : Nat}
    (left : va < KERNBASE) (right : va' < KERNBASE) (byte : UInt8) :
    d'.byteAt (d.poke ram va byte) va' = d'.byteAt ram va' := by
  have left : va / PGSIZE < KERNPAGE := Nat.div_lt_of_lt_mul left
  have right : va' / PGSIZE < KERNPAGE := Nat.div_lt_of_lt_mul right
  rw [Dir.poke]
  cases here : d.lookup (va / PGSIZE) with
  | none => rfl
  | some e =>
    rw [Dir.byteAt, Dir.byteAt]
    cases there : d'.lookup (va' / PGSIZE) with
    | none => rfl
    | some e' =>
      have other := apart _ left _ right e e' here there
      simp only [Option.map_some, Function.update_of_ne other.symm]

/-- The address space of size `sz` in `parent` has been copied faithfully to `child`. -/
structure Faithful (parent child : Dir) (sz : Nat) (ram ram' : Ram) : Prop where
  /-- The child reads what the parent has, and the parent still does. -/
  same : ∀ va < sz, ∃ byte, parent.byteAt ram va = some byte ∧ parent.byteAt ram' va = some byte ∧
    child.byteAt ram' va = some byte
  /-- `PTE_U` and `PTE_W` -/
  perm : ∀ k < pgroundup sz, ∀ e e', parent.lookup k = some e → child.lookup k = some e' →
    e'.perm.u = e.perm.u ∧ e'.perm.w = e.perm.w
  distinct : ∀ j < KERNPAGE, ∀ k < KERNPAGE, ∀ e e', child.lookup j = some e →
    child.lookup k = some e' → e.page = e'.page → j = k
  apart : parent.Apart child
  /-- Later stores of the one are invisible to the other. -/
  unseen : ∀ ram va va' byte, va < KERNBASE → va' < KERNBASE →
    child.byteAt (parent.poke ram va byte) va' = child.byteAt ram va' ∧
    parent.byteAt (child.poke ram va byte) va' = parent.byteAt ram va'

theorem Sys.Sound.taken {L : Layout} {sys : Sys} {cur : Slot} {d : Dir} (sound : sys.Sound L)
    (live : (sys.proc cur).state ≠ .unused) (has : (sys.proc cur).pgdir = some d) (k : Nat)
    (user : k < KERNPAGE) (e : Pte) (found : d.lookup k = some e) : sys.kmem.tally e.page = 0 := by
  have mine := (sys.le_total live has e.page).trans (sound.once' e.page)
  have := Space.Ok.frames_pos user found
  simp only [Dir.uses] at mine
  omega

/-- `copyuvm` copies the address space of a process faithfully if and only if all its pages
are accessible and writable for the user: the pages of the copy always are. -/
theorem copyuvm_faithful_iff (L : Layout) (sys : Sys) (cur : Slot) (parent child : Dir) (kmem : Kmem)
    (ram ram' : Ram) (sound : sys.Sound L) (live : (sys.proc cur).state ≠ .unused)
    (has : (sys.proc cur).pgdir = some parent)
    (done : copyuvmRam L (sys.shared none) parent (sys.proc cur).sz sys.kmem ram =
      .ok (some child) (kmem, ram')) : Faithful parent child (sys.proc cur).sz ram ram' ↔
      ∀ k < pgroundup (sys.proc cur).sz, ∀ e, parent.lookup k = some e →
        e.perm.u = true ∧ e.perm.w = true := by
  have mine (page : Nat) : sys.kmem.tally page + parent.uses page ≤ 1 :=
    (sys.le_total live has page).trans (sound.once' page)
  have taken := sound.taken live has
  obtain ⟨small, s, total, fewer, empty, copies⟩ := copyuvmRam_spec sound.free taken done
  generalize (sys.proc cur).sz = sz at *
  have copied (k : Nat) (below : k < pgroundup sz) :=
    copies.copied k (Finset.mem_Ico.mpr ⟨Nat.zero_le k, by omega⟩)
  -- A page of the child was free, so it is no page of the parent.
  have account (page : Nat) : child.frames page ≤ sys.kmem.tally page := by
    have all := (copies.total page).trans (total page)
    simp only [Space.total, Dir.uses] at all
    omega
  have apart : parent.Apart child := fun j left k right e e' first second same => by
    have := Space.Ok.frames_pos right second
    have := account e'.page
    have := taken j left e first
    rw [same] at this
    omega
  constructor
  · intro faithful k below e here
    obtain ⟨e', mem, found, copy, -⟩ := copied k below
    have bits := faithful.perm k below e _ here copy
    exact ⟨bits.1.symm, bits.2.symm⟩
  · intro all
    refine ⟨fun va inside => ?_, fun k below e e' here there => ?_, ?_, apart, ?_⟩
    · have below : va / PGSIZE < pgroundup sz := by
        simp only [pgroundup, PGSIZE]
        omega
      obtain ⟨e, mem, here, copy, same⟩ := copied _ below
      have kept : ram' e.page = ram e.page := copies.kept e.page (by
        have := fewer e.page
        have := taken _ (below.trans_le small) e here
        omega)
      exact ⟨ram e.page (va % PGSIZE), by simp [Dir.byteAt, here], by simp [Dir.byteAt, here, kept],
        by simp [Dir.byteAt, copy, same]⟩
    · obtain ⟨-, mem, -, copy, -⟩ := copied k below
      have bits := all k below e here
      cases copy.symm.trans there
      exact ⟨bits.1.symm, bits.2.symm⟩
    · intro j left k right e e' first second same
      refine Dir.lookup_inj ?_ left right first second same
      have := account e.page
      have := mine e.page
      omega
    · exact fun ram va va' byte left right =>
        ⟨apart.byteAt_poke ram left right byte, apart.symm.byteAt_poke ram left right byte⟩

/-- With enough pages there is a copy. -/
theorem copyuvmRam_affords {L : Layout} {sys : Sys} {cur : Slot} {parent : Dir}
    (sound : sys.Sound L) (live : (sys.proc cur).state ≠ .unused)
    (has : (sys.proc cur).pgdir = some parent) (below : (sys.proc cur).sz < KERNBASE)
    (covers : ∀ k < pgroundup (sys.proc cur).sz, parent.lookup k ≠ none)
    (enough : sys.kmem.Affords L (pgroundup (sys.proc cur).sz)) (ram : Ram) :
    ∃ child kmem ram', copyuvmRam L (sys.shared none) parent (sys.proc cur).sz sys.kmem ram =
      .ok (some child) (kmem, ram') := by
  have user := pgroundup_le_KERNPAGE below
  have tables (i : Fin NPDENTRIES) (t : Table) (here : parent.pde i = some t) :
      L.valid t.page = true := ((sound.space live has).table here).1
  have done : ∃ child kmem, copyuvm L (sys.shared none) parent (sys.proc cur).sz sys.kmem =
      .ok (some child) kmem := by
    rw [copyuvm, if_neg (Nat.not_le.mpr below)]
    rcases setupkvm_spec sound.free with ⟨given, d, rest, made, fresh⟩ | ⟨refused, -⟩
    · have ok : Space.Ok L (sys.shared none) ⟨rest, d⟩ :=
        fun page => (fresh.total page).trans_le (sound.free page)
      simp only [made, Outcome.bind_ok]
      rcases copyLoop_spec (k := 0) (n := pgroundup (sys.proc cur).sz) ok (by omega) tables
          (fun j _ inside => covers j (by omega))
        (fun j _ inside => fresh.empty j (by omega)) with ⟨-, s, copied, -⟩ | ⟨refused, -⟩
      · exact ⟨s.dir, s.kmem, by rw [copied]⟩
      · refine absurd ((Kmem.supplied_add given fresh.took _).mp enough) ?_
        rw [Dir.price, Nat.zero_add, ← Finset.range_eq_Ico, need_range fresh.present user] at refused
        exact refused
    · exact absurd (enough.mono (Nat.le_add_right _ _)) refused
  obtain ⟨child, kmem, done⟩ := done
  rw [← copyuvmRam_fst L (sys.shared none) parent (sys.proc cur).sz sys.kmem ram] at done
  obtain ⟨⟨kmem', ram'⟩, copied, -⟩ := Outcome.mapState_eq_ok.mp done
  exact ⟨child, kmem', ram', copied⟩

/-- The first process has no guard page yet. -/
theorem copyuvm_faithful_first : ∃ sys p parent child kmem ram ram',
    userinit machine (Sys.idle memory) = .ok () sys ∧ (sys.proc p).pgdir = some parent ∧
    (sys.proc p).sz = PGSIZE ∧
    copyuvmRam machine (sys.shared none) parent (sys.proc p).sz sys.kmem ram =
      .ok (some child) (kmem, ram') ∧ Faithful parent child (sys.proc p).sz ram ram' := by
  obtain ⟨sys, p, d, done, first, enough⟩ := booted
  have live : (sys.proc p).state ≠ .unused := by
    rw [first.state]
    nofun
  have one : pgroundup (sys.proc p).sz = 1 := by
    rw [first.sz]
    decide
  obtain ⟨child, kmem, ram', copied⟩ := copyuvmRam_affords first.sound live first.pgdir
    (by rw [first.sz]; decide)
    (fun k below => (first.exact' k (by rw [one] at below; exact below.trans (by decide))).mpr
      (by rwa [one] at below)) (by rw [one]; exact enough.mono (by decide)) fun _ _ => 0
  refine ⟨sys, p, d, child, kmem, _, ram', done, first.pgdir, first.sz, copied,
    (copyuvm_faithful_iff machine sys p d child kmem _ ram' first.sound live first.pgdir copied).mpr ?_⟩
  intro k below e found
  rw [one] at below
  have user : k < KERNPAGE := below.trans (by decide)
  rw [userinit_open done first.pgdir k (Dir.lt_NPAGES_of_user user) e found user]
  exact ⟨rfl, rfl⟩

/-- A process that `exec` has made forks: its guard page is the page at address 0, which the
user can use in the child. -/
theorem copyuvm_opens_guard : ∃ sys p sys' parent child kmem ram ram',
    userinit machine (Sys.idle memory) = .ok () sys ∧
    exec machine p [] (some (elfFile 0 [])) [] sys = .ok 0 sys' ∧
    (sys'.proc p).pgdir = some parent ∧
    copyuvmRam machine (sys'.shared none) parent (sys'.proc p).sz sys'.kmem ram =
      .ok (some child) (kmem, ram') ∧ (∃ e, parent.lookup 0 = some e ∧ e.perm.u = false) ∧
    (∃ e, child.lookup 0 = some e ∧ e.perm.u = true) ∧
    ¬ Faithful parent child (sys'.proc p).sz ram ram' := by
  obtain ⟨sys, p, old, done, first, enough⟩ := booted
  have live : (sys.proc p).state ≠ .unused := by
    rw [first.state]
    nofun
  obtain ⟨image, kmem, made, built, size⟩ := makeImage_bare (hasHeader_elfFile 0 []) rfl
    (enough.mono (by decide)) first.sound.free
  obtain ⟨sys', ran, execs⟩ := exec_commits first.sound live first.pgdir [] made built
  have fit := execs.fit live
  have sz : (sys'.proc p).sz = (USTACK_PAGES + 1) * PGSIZE := by
    rw [execs.proc, Function.update_self]
    exact size
  have pages : pgroundup (sys'.proc p).sz = USTACK_PAGES + 1 := by
    rw [sz]
    decide
  obtain ⟨_, made'⟩ := exists_makeImageRam made fun _ _ => 0
  obtain ⟨pa, guard⟩ := (makeImageRam_pushed first.sound.free made').1.guard
  rw [size] at guard
  have guard : image.dir.lookup 0 = some ⟨pa, { userPerm with u := false }, false, false⟩ := guard
  obtain ⟨child, kmem', ram', copied⟩ := copyuvmRam_affords fit.sound fit.live fit.pgdir fit.below
    (fun k below => (fit.exact' k (by rw [pages] at below; exact below.trans (by decide))).mpr below)
    (execs.rest _ (by rw [size, pages]; exact enough.mono (by decide))) fun _ _ => 0
  obtain ⟨-, s, -, -, -, copies⟩ :=
    copyuvmRam_spec fit.sound.free (fit.sound.taken fit.live fit.pgdir) copied
  obtain ⟨-, mem, -, copy, -⟩ := copies.copied 0 (by rw [pages]; decide)
  refine ⟨sys, p, sys', image.dir, child, kmem', _, ram', done, ran, fit.pgdir, copied,
    ⟨_, guard, rfl⟩, ⟨_, copy, rfl⟩, fun faithful => ?_⟩
  have same := (faithful.perm 0 (by rw [pages]; decide) _ _ guard copy).1
  cases same

end SirpairOs.Mem
