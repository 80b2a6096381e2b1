import SirpairOs.Mem.Exec
import SirpairOs.Mem.Sound

/-! Which pages `fork`, `exit`, `wait` and `exec` give back, and which they lose. -/
namespace SirpairOs.Mem

section Exec

variable {L : Layout} {sys : Sys} {cur : Slot} {old : Dir}

/-- The process after `exec` has committed to the image. -/
def Proc.commit (p : Proc) (path : List UInt8) (image : Image) : Proc :=
  { p with
    name := lastName path, pgdir := some image.dir, sz := image.sz,
    tf := { p.tf with eip := image.eip, esp := image.esp } }

theorem Proc.uses_commit {p : Proc} (live : p.state ≠ .unused) (path : List UInt8) (image : Image)
    (page : Nat) : (p.commit path image).uses page =
      image.dir.uses page + p.kstack.elim 0 (hit · page) :=
  Proc.uses_of_live (q := p.commit path image) live rfl page

/-- A successful `exec`: the process has the new image, and the old one is freed but for
its pages below 0x4000. -/
structure Execs (L : Layout) (sys sys' : Sys) (cur : Slot) (old : Dir) (path : List UInt8)
    (image : Image) : Prop where
  proc : sys'.proc = Function.update sys.proc cur ((sys.proc cur).commit path image)
  total : ∀ page, sys'.kmem.tally page + old.lows page + image.dir.uses page =
    sys.kmem.tally page + old.uses page
  sound : sys'.Sound L
  exact' : ∀ k < KERNPAGE, image.dir.lookup k ≠ none ↔ k < pgroundup image.sz
  stack : (USTACK_PAGES + 1) * PGSIZE ≤ image.sz
  below : image.sz < KERNBASE
  rest : ∀ n, sys.kmem.Supplied (1 + kernelTables L + cost (pgroundup image.sz) + n) →
    sys'.kmem.Supplied n

theorem exec_commits (sound : sys.Sound L) (live : (sys.proc cur).state ≠ .unused)
    (has : (sys.proc cur).pgdir = some old) (path : List UInt8) {file : List UInt8}
    {argv : List (List UInt8)} {image : Image} {kmem : Kmem}
    (made : makeImage L (sys.shared none) file argv sys.kmem = .ok (some image) kmem)
    (built : Built L (sys.shared none) sys.kmem ⟨kmem, image.dir⟩ image.sz) :
    ∃ sys', exec L cur path (some file) argv sys = .ok 0 sys' ∧
      Execs L sys sys' cur old path image := by
  generalize commits : { sys with kmem := kmem }.setProc cur ((sys.proc cur).commit path image) = now
  have proc : now.proc = Function.update sys.proc cur ((sys.proc cur).commit path image) := by
    rw [← commits]
    rfl
  have mem : now.kmem = kmem := by
    rw [← commits]
    rfl
  have self : now.proc cur = (sys.proc cur).commit path image := by
    rw [proc, Function.update_self]
  have unused (p : Slot) (free : (now.proc p).state = .unused) : (now.proc p).pgdir = none := by
    by_cases same : p = cur
    · subst same
      rw [self] at free
      exact absurd free live
    · rw [proc, Function.update_of_ne same] at free ⊢
      exact sound.unused p free
  -- The pages of the new image were free, and those of the old one have no owner now.
  have total (page : Nat) : now.total page + old.uses page = sys.total page := by
    have change := Sys.total_setProc sys kmem cur ((sys.proc cur).commit path image) page
    have before := Proc.uses_of_live live has page
    have after := Proc.uses_commit live path image page
    have whole := built.total page
    simp only [Space.total] at whole
    rw [commits] at change
    omega
  have once (page : Nat) : now.total page + old.uses page ≤ 1 := by
    rw [total]
    exact sound.once' page
  have ok : Space.Ok L (now.shared (some old.page)) ⟨now.kmem, old⟩ :=
    Sys.retired_ok fun page => (total page).trans_le (sound.once page)
  obtain ⟨kmem', freed, tally⟩ := freevm_spec ok
  have different : old.page ≠ image.dir.page := by
    intro same
    have first := Sys.uses_page old
    have second := Sys.le_total now (p := cur) (d := image.dir)
      (by rw [self]; exact live) (by rw [self]; rfl) old.page
    have third := Sys.uses_page image.dir
    have bound := once old.page
    rw [← same] at third
    omega
  have alone (d : Dir) (parent : ((sys.proc cur).parent.bind fun q => (now.proc q).pgdir) = some d) :
      pgdirShareUserPt old d = false := by
    by_contra share
    obtain ⟨page, first, second⟩ := Sys.exists_of_share (by simpa using share)
    obtain ⟨q, -, has'⟩ := Option.bind_eq_some_iff.mp parent
    have live' : (now.proc q).state ≠ .unused := fun free => by
      rw [unused q free] at has'
      cases has'
    have third := Sys.le_total now live' has' page
    have bound := once page
    omega
  refine ⟨{ now with kmem := kmem' }, ?_, ⟨proc, fun page => ?_, ⟨fun page => ?_, unused⟩,
    built.exact', built.stack, built.below, fun n enough => ?_⟩⟩
  · have same : ({ sys with kmem := kmem }.setProc cur { sys.proc cur with
        name := lastName path, pgdir := some image.dir, sz := image.sz,
        tf := { (sys.proc cur).tf with eip := image.eip, esp := image.esp } }) = now := commits
    simp only [exec, made, same, has, if_neg different]
    rw [if_neg]
    · rw [freed]
    · rw [Option.any_eq_true]
      rintro ⟨d, parent, share⟩
      rw [alone d parent] at share
      cases share
  · have whole := built.total page
    have := tally page
    simp only [Space.total, mem] at whole this ⊢
    omega
  · have bound := sound.once page
    have := total page
    have := tally page
    simp only [Sys.total, Space.total] at *
    omega
  · have left : now.kmem.Supplied n := by
      rw [mem]
      exact built.rest n enough
    exact freevm_supplied (s := ⟨now.kmem, old⟩) left freed

/-- What `exec` of a file that is there comes to. -/
theorem exec_cases (sound : sys.Sound L) (live : (sys.proc cur).state ≠ .unused)
    (has : (sys.proc cur).pgdir = some old) (path file : List UInt8) (argv : List (List UInt8)) :
    (¬ Loadable L file sys.kmem ∧
      ∃ sys', exec L cur path (some file) argv sys = .halt .unaligned sys') ∨
    (Loadable L file sys.kmem ∧ ∃ image sys', exec L cur path (some file) argv sys = .ok 0 sys' ∧
      Execs L sys sys' cur old path image) ∨ (Loadable L file sys.kmem ∧
      ∃ kmem, exec L cur path (some file) argv sys = .ok (-1) { sys with kmem := kmem } ∧
        (sys.kmem.SameFree kmem ↔ ¬ MapsFirst L file sys.kmem)) := by
  rcases makeImage_spec file argv sound.free with ⟨not, kmem, halted⟩ |
    ⟨fine, image, kmem, made, built⟩ | ⟨fine, kmem, failed, -, same⟩
  · exact .inl ⟨not, { sys with kmem := kmem }, by simp only [exec, halted]⟩
  · obtain ⟨sys', done, execs⟩ := exec_commits sound live has path made built
    exact .inr (.inl ⟨fine, image, sys', done, execs⟩)
  · exact .inr (.inr ⟨fine, kmem, by simp only [exec, failed], same⟩)

theorem makeImage_of_exec {path file : List UInt8} {argv : List (List UInt8)} {sys' : Sys}
    (done : exec L cur path (some file) argv sys = .ok 0 sys') :
    ∃ image kmem, makeImage L (sys.shared none) file argv sys.kmem = .ok (some image) kmem := by
  rw [exec] at done
  cases made : makeImage L (sys.shared none) file argv sys.kmem with
  | halt why kmem => rw [made] at done; cases done
  | ok image kmem =>
    cases image with
    | none => rw [made] at done; cases done
    | some image => exact ⟨image, kmem, rfl⟩

def elfFile (phnum : UInt8) (headers : List UInt8) : List UInt8 :=
  [0x7f, 0x45, 0x4c, 0x46] ++ List.replicate 24 0 ++ [52, 0, 0, 0] ++ List.replicate 12 0 ++
    [phnum, 0] ++ List.replicate 6 0 ++ headers

/-- The header of a loadable segment of one byte that the file does not fill. -/
def segment (vaddr : UInt8) : List UInt8 :=
  [1, 0, 0, 0] ++ List.replicate 4 0 ++ [vaddr, 0, 0, 0] ++ List.replicate 8 0 ++ [1, 0, 0, 0] ++
    List.replicate 8 0

theorem hasHeader_elfFile (phnum : UInt8) (headers : List UInt8) : HasHeader (elfFile phnum headers) := by
  refine ⟨by simp [elfFile], ?_⟩
  have magic : (((elfFile phnum headers).take 52).drop 0).take 4 = [0x7f, 0x45, 0x4c, 0x46] := rfl
  simp only [elfhdr, field, magic]
  decide +kernel

/-- `exec` succeeds, or it fails and every process is what it was, exactly when no segment
that it gets to begins inside a page. -/
theorem exec_all_or_nothing_iff (L : Layout) (sys : Sys) (cur : Slot) (path : List UInt8)
    (file : Option (List UInt8)) (argv : List (List UInt8)) (sound : sys.Sound L)
    (live : (sys.proc cur).state ≠ .unused) (has : (sys.proc cur).pgdir ≠ none) :
    (∃ value sys', exec L cur path file argv sys = .ok value sys' ∧
      (value = 0 ∨ value = -1 ∧ sys'.proc = sys.proc)) ↔
    ∀ bytes ∈ file, Loadable L bytes sys.kmem := by
  obtain ⟨old, has⟩ := Option.ne_none_iff_exists'.mp has
  cases file with
  | none => exact iff_of_true ⟨-1, sys, rfl, .inr ⟨rfl, rfl⟩⟩ nofun
  | some bytes =>
    have only : (∀ b ∈ some bytes, Loadable L b sys.kmem) ↔ Loadable L bytes sys.kmem := by simp
    rw [only]
    rcases exec_cases sound live has path bytes argv with ⟨not, sys', halted⟩ |
      ⟨fine, image, sys', done, -⟩ | ⟨fine, kmem, failed, -⟩
    · refine iff_of_false ?_ not
      rintro ⟨value, sys'', done, -⟩
      rw [halted] at done
      cases done
    · exact iff_of_true ⟨0, sys', done, .inl rfl⟩ fine
    · exact iff_of_true ⟨-1, _, failed, .inr ⟨rfl, rfl⟩⟩ fine

theorem exec_all_or_nothing_segment : ∃ sys p, userinit machine (Sys.idle memory) = .ok () sys ∧
    ∃ value sys', exec machine p [] (some (elfFile 1 (segment 0))) [] sys = .ok value sys' ∧
      (value = 0 ∨ value = -1 ∧ sys'.proc = sys.proc) := by
  obtain ⟨sys, p, d, done, first, -⟩ := booted
  refine ⟨sys, p, done, (exec_all_or_nothing_iff machine sys p [] (some (elfFile 1 (segment 0))) []
    first.sound (by rw [first.state]; nofun) (by rw [first.pgdir]; nofun)).mpr ?_⟩
  intro bytes same
  obtain rfl := Option.some.inj same
  exact fun _ _ _ _ _ => ⟨by decide, fun _ => trivial⟩

/-- A segment that begins inside a page stops the machine. -/
theorem exec_misaligned_halts : ∃ sys p sys', userinit machine (Sys.idle memory) = .ok () sys ∧
    exec machine p [] (some (elfFile 1 (segment 1))) [] sys = .halt .unaligned sys' := by
  obtain ⟨sys, p, d, done, first, enough⟩ := booted
  have not : ¬ Loadable machine (elfFile 1 (segment 1)) sys.kmem := by
    intro fine
    have aligned := fine (hasHeader_elfFile 1 _) (enough.mono (by decide))
    have bad := (aligned (by decide) (enough.mono (by decide)) (by decide)).1
    exact absurd bad (by decide)
  rcases exec_cases first.sound (by rw [first.state]; nofun) first.pgdir [] (elfFile 1 (segment 1)) []
    with ⟨-, sys', halted⟩ | ⟨fine, -⟩ | ⟨fine, -⟩
  · exact ⟨sys, p, sys', done, halted⟩
  · exact absurd fine not
  · exact absurd fine not

end Exec

section Fork

variable {L : Layout} {sys : Sys} {cur : Slot} {parent : Dir}

/-- `fork` gets as far as a page for the copy of the first page. -/
def ForkCopies (L : Layout) (cur : Slot) (sys : Sys) : Prop :=
  (∃ p, (sys.proc p).state = .unused) ∧ 0 < (sys.proc cur).sz ∧ (sys.proc cur).sz < KERNBASE ∧
    sys.kmem.Supplied (1 + (1 + kernelTables L + 1))

/-- The child of the process `p` in the place `q`. -/
def Proc.born (q p : Proc) (cur : Slot) (pid page : Nat) (child : Dir) : Proc :=
  { q.embryo pid page with
    pgdir := some child, sz := p.sz, parent := some cur, tf := { p.tf with eax := 0 },
    state := .runnable, name := p.name }

structure Forks (sys sys' : Sys) (cur np : Slot) (page : Nat) (child : Dir) : Prop where
  free : (sys.proc np).state = .unused
  proc : sys'.proc = Function.update sys.proc np
    ((sys.proc np).born (sys.proc cur) cur sys.nextpid page child)
  total : ∀ x, sys'.kmem.tally x + child.uses x + hit page x = sys.kmem.tally x
  exact' : ∀ k < KERNPAGE, child.lookup k ≠ none ↔ k < pgroundup (sys.proc cur).sz

variable {np p : Slot} {page : Nat} {sys' : Sys} {child : Dir}

/-- Giving up the child gives back its stack. -/
theorem abandon_spec (sound : sys.Sound L) {kmem kmem' : Kmem}
    (taken : sys.kmem.kalloc = (some page, kmem)) (less : ∀ x, kmem'.tally x ≤ kmem.tally x) :
    ∃ sys', abandon L np { sys.hatch np page kmem with kmem := kmem' } = .ok (-1) sys' ∧
      (sys.kmem.SameFree sys'.kmem ↔ kmem.SameFree kmem') := by
  have stack : (Sys.proc { sys.hatch np page kmem with kmem := kmem' } np).kstack = some page := by
    simp only [Sys.hatch, Sys.setProc_self, Proc.embryo]
  have tally := Kmem.tally_kalloc taken
  have was := tally page
  rw [hit_self] at was
  have once := sound.once' page
  have valid : L.valid page = true := sound.valid (by simp only [Sys.total]; omega)
  have gone : kmem'.tally page = 0 := by
    have := less page
    simp only [Sys.total] at once
    omega
  rw [abandon, stack]
  simp only [freeStack, kfree, valid, if_true]
  refine ⟨_, rfl, ?_⟩
  simp only [Kmem.sameFree_iff, Sys.setProc]
  refine forall_congr' fun x => ?_
  have := Kmem.tally_kfree gone x
  have := tally x
  omega

theorem fork_cases (sound : sys.Sound L) (live : (sys.proc cur).state ≠ .unused)
    (has : (sys.proc cur).pgdir = some parent)
    (covers : ∀ k < pgroundup (sys.proc cur).sz, parent.lookup k ≠ none) :
    (∃ sys', fork L cur sys = .ok (-1) sys' ∧
      (sys.kmem.SameFree sys'.kmem ↔ ¬ ForkCopies L cur sys)) ∨
    (∃ np page child sys', fork L cur sys = .ok sys.nextpid sys' ∧
      Forks sys sys' cur np page child) := by
  rw [fork]
  rcases allocproc_cases sys with ⟨one, np, page, kmem, free, taken, found⟩ |
    ⟨refused, sys', failed, same⟩
  · have hatched := sound.hatch free taken
    have other : cur ≠ np := by
      rintro rfl
      exact live free
    have same : (sys.hatch np page kmem).proc cur = sys.proc cur := Sys.setProc_of_ne _ other
    have ok := (hatched.space (by rw [same]; exact live) (by rw [same]; exact has))
    have tables (i : Fin NPDENTRIES) (t : Table) (here : parent.pde i = some t) :
        L.valid t.page = true := (ok.table here).1
    simp only [found, same, has]
    rcases copyuvm_spec hatched.free tables covers with ⟨child, kmem', copied, total, exact'⟩ |
      ⟨kmem', failed, less, lost⟩
    · have total (x : Nat) : kmem'.tally x + child.uses x = kmem.tally x := total x
      -- The pages of the child were free, those of the parent were not.
      have apart (x : Nat) (used : 0 < child.uses x) : parent.uses x = 0 := by
        have := total x
        have part := Sys.le_total (sys.hatch np page kmem) (by rw [same]; exact live)
          (by rw [same]; exact has) x
        have once := hatched.once' x
        have mem : (sys.hatch np page kmem).kmem = kmem := rfl
        rw [mem] at part
        omega
      have copied : copyuvm L ((sys.hatch np page kmem).shared none) parent (sys.proc cur).sz
          (sys.hatch np page kmem).kmem = .ok (some child) kmem' := copied
      have different : child.page ≠ parent.page := fun equal => by
        have first := apart child.page (Sys.uses_page child)
        have second := Sys.uses_page parent
        rw [equal] at first
        omega
      have alone : ¬ pgdirShareUserPt parent child = true := fun share => by
        obtain ⟨x, first, second⟩ := Sys.exists_of_share share
        have := apart x second
        omega
      have embryo : (sys.hatch np page kmem).proc np = (sys.proc np).embryo sys.nextpid page :=
        Sys.setProc_self ..
      simp only [copied, if_neg different, if_neg alone, embryo]
      refine .inr ⟨np, page, child, _, rfl, free, ?_, fun x => ?_, exact'⟩
      · simp only [Sys.setProc, Sys.hatch, Function.update_idem]
        rfl
      · have := total x
        have := Kmem.tally_kalloc taken x
        simp only [Sys.setProc]
        omega
    · have failed : copyuvm L ((sys.hatch np page kmem).shared none) parent (sys.proc cur).sz
          (sys.hatch np page kmem).kmem = .ok none kmem' := failed
      simp only [failed]
      obtain ⟨sys', gave, same'⟩ := abandon_spec sound taken less
      refine .inl ⟨sys', gave, ?_⟩
      rw [same']
      refine lost.trans (not_congr ?_)
      have more := Kmem.supplied_add one (Kmem.took_kalloc taken) (1 + kernelTables L + 1)
      rw [ForkCopies, more]
      exact ⟨fun all => ⟨⟨np, free⟩, all⟩, fun all => all.2⟩
  · simp only [failed]
    refine .inl ⟨sys', rfl, iff_of_true same fun copies => refused ⟨copies.1, ?_⟩⟩
    exact copies.2.2.2.mono (by omega)

theorem Forks.sound (sound : sys.Sound L) (forks : Forks sys sys' cur np page child) :
    sys'.Sound L := by
  refine sound.update forks.proc nofun fun x => ?_
  have after : ((sys.proc np).born (sys.proc cur) cur sys.nextpid page child).uses x =
      child.uses x + hit page x :=
    Proc.uses_of_live (q := (sys.proc np).born (sys.proc cur) cur sys.nextpid page child) nofun rfl x
  have total := forks.total x
  omega

structure Exits (sys sys' : Sys) (p : Slot) : Prop where
  kmem : sys'.kmem = sys.kmem
  memory : ∀ q, (sys'.proc q).pgdir = (sys.proc q).pgdir ∧ (sys'.proc q).kstack = (sys.proc q).kstack
  state : ∀ q, q ≠ p → (sys'.proc q).state = (sys.proc q).state
  dead : (sys'.proc p).state = .zombie
  parent : (sys.proc p).parent ≠ some p → (sys'.proc p).parent = (sys.proc p).parent

theorem exit_exits (done : exit p sys = .ok () sys') : Exits sys sys' p := by
  unfold exit at done
  split at done
  · cases done
  · cases done
    refine ⟨rfl, fun q => ?_, fun q other => ?_, ?_, fun other => ?_⟩
    · by_cases same : q = p
      · subst same
        simp only [Function.update_self]
        split <;> exact ⟨rfl, rfl⟩
      · simp only [Function.update_of_ne same]
        split <;> exact ⟨rfl, rfl⟩
    · simp only [Function.update_of_ne other]
      split <;> rfl
    · simp only [Function.update_self]
    · simp only [Function.update_self, if_neg other]

theorem Exits.sound (sound : sys.Sound L) (live : (sys.proc p).state ≠ .unused)
    (exits : Exits sys sys' p) : sys'.Sound L := by
  have unused (q : Slot) : (sys'.proc q).state = .unused ↔ (sys.proc q).state = .unused := by
    by_cases same : q = p
    · subst same
      rw [exits.dead]
      exact iff_of_false nofun live
    · rw [exits.state q same]
  refine ⟨fun x => ?_, fun q free => ?_⟩
  · have uses (q : Slot) : (sys'.proc q).uses x = (sys.proc q).uses x := by
      simp only [Proc.uses, unused, (exits.memory q).1, (exits.memory q).2]
    simp only [Sys.total, exits.kmem, uses]
    exact sound.once x
  · rw [(exits.memory q).1]
    exact sound.unused q ((unused q).mp free)

/-- `wait` frees what a dead child has, but for its pages below 0x4000. -/
theorem reap_spec (sound : sys.Sound L) (live : (sys.proc cur).state ≠ .unused) (other : cur ≠ p)
    (dead : (sys.proc p).state = .zombie) (has : (sys.proc p).pgdir = some child)
    (stack : (sys.proc p).kstack = some page) :
    ∃ sys', reap L cur p sys = .ok (sys.proc p).pid sys' ∧
      ∀ x, sys'.kmem.tally x + child.lows x = sys.kmem.tally x + child.uses x + hit page x := by
  have mine (x : Nat) : (sys.proc p).uses x = child.uses x + hit page x := by
    rw [Proc.uses_of_live (by rw [dead]; nofun) has, stack, Option.elim_some]
  have held (x : Nat) := le_sum (Proc.uses · x) sys.proc p
  have once := sound.once'
  simp only [Sys.total] at once
  have gone : sys.kmem.tally page = 0 := by
    have := mine page
    have := held page
    have := once page
    rw [hit_self] at *
    omega
  have valid : L.valid page = true := sound.valid (by
    have := mine page
    have := held page
    rw [hit_self] at *
    simp only [Sys.total]
    omega)
  have freed := Kmem.tally_kfree gone
  obtain ⟨kmem, done, tally⟩ := freevm_spec (sound.space' (sys.kmem.kfree page) has fun x => by
      have := mine x
      have := freed x
      omega)
  -- The parent uses neither the directory of the child nor a page table of it.
  have apart (own : Dir) (has' : (sys.proc cur).pgdir = some own) (x : Nat)
      (used : 0 < own.uses x) : child.uses x = 0 := by
    have := add_le_sum (Proc.uses · x) sys.proc other
    have := Proc.uses_of_live live has' x
    have := mine x
    have := once x
    omega
  have alone : ((sys.proc cur).pgdir.all fun own =>
      decide (own.page ≠ child.page ∧ pgdirShareUserPt own child = false)) = true := by
    rw [Option.all_eq_true]
    intro own has'
    have apart := apart own has'
    refine decide_eq_true ⟨fun same => ?_, ?_⟩
    · have := apart own.page (Sys.uses_page own)
      have := Sys.uses_page child
      rw [← same] at this
      omega
    · by_contra share
      obtain ⟨x, first, second⟩ := Sys.exists_of_share (by simpa using share)
      have := apart x first
      omega
  have same : Sys.shared { sys with kmem := sys.kmem.kfree page } (some child.page) =
      sys.shared (some child.page) := rfl
  simp only [reap, stack, freeStack, kfree, valid, if_true, has, Option.filter_some, alone, same,
    done]
  refine ⟨_, rfl, fun x => ?_⟩
  have := tally x
  have := freed x
  simp only [Space.total, Sys.setProc] at *
  omega

/-- The parent waits for the only child that is dead. -/
theorem wait_reaps (dead : (sys.proc p).state = .zombie) (child : (sys.proc p).parent = some cur)
    (only : ∀ q, (sys.proc q).parent = some cur → (sys.proc q).state = .zombie → q = p) :
    wait L cur sys = (reap L cur p sys).bind fun pid sys => .ok (.pid pid) sys := by
  rw [wait]
  cases found : (List.finRange NPROC).find? fun q =>
      (sys.proc q).parent = some cur ∧ (sys.proc q).state = .zombie with
  | none =>
    have := List.find?_eq_none.mp found p (List.mem_finRange p)
    simp [dead, child] at this
  | some q =>
    have both : (sys.proc q).parent = some cur ∧ (sys.proc q).state = .zombie := by
      simpa using List.find?_some found
    rw [only q both.1 both.2]

/-- The child of a `fork` exits, and the parent waits for it: the pages of the child below
0x4000 are lost. -/
theorem Forks.waited {sys₁ sys₂ : Sys} (sound : sys.Sound L) (live : (sys.proc cur).state ≠ .unused)
    (forks : Forks sys sys₁ cur np page child) (left : exit np sys₁ = .ok () sys₂)
    (only : ∀ q, (sys₂.proc q).parent = some cur → (sys₂.proc q).state = .zombie → q = np) :
    ∃ pid sys₃, wait L cur sys₂ = .ok (.pid pid) sys₃ ∧
      (sys.kmem.SameFree sys₃.kmem ↔ (sys.proc cur).sz = 0) := by
  have other : cur ≠ np := by
    rintro rfl
    exact live forks.free
  have born : sys₁.proc np = (sys.proc np).born (sys.proc cur) cur sys.nextpid page child := by
    rw [forks.proc, Function.update_self]
  have exits := exit_exits left
  have parent : (sys₂.proc np).parent = some cur := by
    have mine : (sys₁.proc np).parent = some cur := by rw [born]; rfl
    rw [exits.parent, mine]
    rw [mine]
    simpa using other
  have sound₂ := exits.sound (forks.sound sound) (by rw [born]; nofun)
  have live₂ : (sys₂.proc cur).state ≠ .unused := by
    rw [exits.state cur other, forks.proc, Function.update_of_ne other]
    exact live
  have has₂ : (sys₂.proc np).pgdir = some child := by rw [(exits.memory np).1, born]; rfl
  have stack₂ : (sys₂.proc np).kstack = some page := by rw [(exits.memory np).2, born]; rfl
  obtain ⟨sys₃, reaped, tally⟩ := reap_spec sound₂ live₂ other exits.dead has₂ stack₂
  refine ⟨_, sys₃, by rw [wait_reaps exits.dead parent only, reaped]; rfl, ?_⟩
  have lost : sys.kmem.SameFree sys₃.kmem ↔ ∀ x, child.lows x = 0 := by
    rw [Kmem.sameFree_iff]
    refine forall_congr' fun x => ?_
    have := tally x
    have := forks.total x
    rw [exits.kmem] at *
    omega
  have first := forks.exact' 0 (by decide)
  rw [lost, Dir.lows_eq_zero_iff]
  refine ⟨fun empty => ?_, fun zero k low => ?_⟩
  · by_contra pos
    exact first.mpr (pgroundup_pos.mpr (by omega)) (empty 0 (by decide))
  · by_contra some
    have := (forks.exact' k (low.trans (by decide))).mp some
    have := pgroundup_pos.mp (Nat.zero_lt_of_lt this)
    omega

end Fork

/-- After a successful `exec` the free pages are those that were free or the old image's,
without those of the new one, exactly when the old image had no page below 0x4000. -/
theorem Execs.replaces {L : Layout} {sys sys' : Sys} {cur : Slot} {old : Dir} {path : List UInt8}
    {image : Image} (sound : sys.Sound L) (live : (sys.proc cur).state ≠ .unused)
    (has : (sys.proc cur).pgdir = some old) (execs : Execs L sys sys' cur old path image) :
    (∀ page, sys'.kmem.Free page ↔
      (sys.kmem.Free page ∨ 0 < old.uses page) ∧ image.dir.uses page = 0) ↔
    ∀ k < 4, old.lookup k = none := by
  rw [← Dir.lows_eq_zero_iff]
  refine forall_congr' fun page => ?_
  have total := execs.total page
  have before := (sys.le_total live has page).trans (sound.once' page)
  have low := old.lows_le_uses page
  simp only [Kmem.Free, Kmem.tally] at *
  by_cases free : page ∈ sys.kmem.freelist <;> by_cases free' : page ∈ sys'.kmem.freelist <;>
    simp only [free, free', if_true, if_false, true_or, false_or, true_and, true_iff, false_iff] at * <;>
    omega

/-- `fork`, `exec` and `wait` keep the pages of the system exactly when no page below 0x4000
was mapped in a directory that they free. -/
theorem pages_conserved_iff (L : Layout) (sys : Sys) (cur : Slot) (parent : Dir)
    (sound : sys.Sound L) (live : (sys.proc cur).state ≠ .unused)
    (has : (sys.proc cur).pgdir = some parent)
    (covers : ∀ k < pgroundup (sys.proc cur).sz, parent.lookup k ≠ none) :
    (∀ sys', fork L cur sys = .ok (-1) sys' →
      (sys.kmem.SameFree sys'.kmem ↔ ¬ ForkCopies L cur sys)) ∧
    (∀ np pid sys₁ sys₂, fork L cur sys = .ok pid sys₁ → pid ≠ -1 →
      (sys.proc np).state = .unused → (sys₁.proc np).state = .runnable →
      exit np sys₁ = .ok () sys₂ →
      (∀ q, (sys₂.proc q).parent = some cur → (sys₂.proc q).state = .zombie → q = np) →
      ∃ pid sys₃, wait L cur sys₂ = .ok (.pid pid) sys₃ ∧
        (sys.kmem.SameFree sys₃.kmem ↔ (sys.proc cur).sz = 0)) ∧
    (∀ path file argv sys', exec L cur path file argv sys = .ok (-1) sys' →
      (sys.kmem.SameFree sys'.kmem ↔ ∀ bytes ∈ file, ¬ MapsFirst L bytes sys.kmem)) ∧
    (∀ path file argv sys', exec L cur path file argv sys = .ok 0 sys' →
      ∃ new, (sys'.proc cur).pgdir = some new ∧ ((∀ page, sys'.kmem.Free page ↔
          (sys.kmem.Free page ∨ 0 < parent.uses page) ∧ new.uses page = 0) ↔
        ∀ k < 4, parent.lookup k = none)) := by
  refine ⟨fun sys' failed => ?_, fun np pid sys₁ sys₂ forked good free running left only => ?_,
    fun path file argv sys' failed => ?_, fun path file argv sys' done => ?_⟩
  · rcases fork_cases sound live has covers with ⟨sys'', failed', same⟩ |
      ⟨np, page, child, sys'', forked, -⟩
    · rw [failed] at failed'
      cases failed'
      exact same
    · rw [failed] at forked
      cases forked
  · rcases fork_cases sound live has covers with ⟨sys'', failed, -⟩ |
      ⟨np', page, child, sys'', forked', forks⟩
    · rw [forked] at failed
      cases failed
      exact absurd rfl good
    · rw [forked] at forked'
      cases forked'
      have same : np = np' := by
        by_contra other
        rw [forks.proc, Function.update_of_ne other, free] at running
        cases running
      subst same
      exact forks.waited sound live left only
  · cases file with
    | none =>
      cases failed
      exact iff_of_true (fun _ => Iff.rfl) nofun
    | some bytes =>
      rcases exec_cases sound live has path bytes argv with ⟨-, sys'', halted⟩ |
        ⟨-, image, sys'', done, -⟩ | ⟨-, kmem, failed', same⟩
      · rw [failed] at halted
        cases halted
      · rw [failed] at done
        cases done
      · rw [failed] at failed'
        cases failed'
        simpa using same
  · cases file with
    | none => cases done
    | some bytes =>
      rcases exec_cases sound live has path bytes argv with ⟨-, sys'', halted⟩ |
        ⟨-, image, sys'', done', execs⟩ | ⟨-, kmem, failed, -⟩
      · rw [done] at halted
        cases halted
      · rw [done] at done'
        cases done'
        refine ⟨image.dir, by rw [execs.proc, Function.update_self]; rfl, ?_⟩
        exact execs.replaces sound live has
      · rw [done] at failed
        cases failed

/-- The file ends before its last program header. -/
theorem exec_truncated {L : Layout} {sys : Sys} {cur : Slot} {old : Dir} (file : List UInt8)
    (sound : sys.Sound L) (live : (sys.proc cur).state ≠ .unused)
    (has : (sys.proc cur).pgdir = some old) (fine : Loadable L file sys.kmem)
    (some' : 0 < (elfhdr (file.take 52)).phnum)
    (short : file.length < (elfhdr (file.take 52)).phoff + 32 * (elfhdr (file.take 52)).phnum)
    (fits : (elfhdr (file.take 52)).phoff + 32 * (elfhdr (file.take 52)).phnum ≤ 2 ^ 32) :
    ∃ kmem, exec L cur [] (some file) [] sys = .ok (-1) { sys with kmem := kmem } ∧
      (sys.kmem.SameFree kmem ↔ ¬ MapsFirst L file sys.kmem) := by
  rcases exec_cases sound live has [] file [] with ⟨not, -⟩ | ⟨-, image, sys', success, -⟩ |
    ⟨-, failed⟩
  · exact absurd fine not
  · obtain ⟨image, kmem, made⟩ := makeImage_of_exec success
    exact absurd made (makeImage_truncated some' short fits)
  · exact failed

/-- If not even the first program header is there, the directory that `exec` has set up is
freed again. -/
theorem pages_conserved_truncated : ∃ sys p sys', userinit machine (Sys.idle memory) = .ok () sys ∧
    exec machine p [] (some (elfFile 1 [])) [] sys = .ok (-1) sys' ∧
    sys.kmem.SameFree sys'.kmem := by
  obtain ⟨sys, p, d, done, first, -⟩ := booted
  have live : (sys.proc p).state ≠ .unused := by rw [first.state]; nofun
  have covers (k : Nat) (below : k < pgroundup (sys.proc p).sz) : d.lookup k ≠ none := by
    have one : pgroundup PGSIZE = 1 := by decide
    rw [first.sz, one] at below
    exact (first.exact' k (below.trans (by decide))).mpr below
  obtain ⟨kmem, failed, -⟩ := exec_truncated (elfFile 1 []) first.sound live first.pgdir
    (fun _ _ => trivial) (by decide) (by decide) (by decide)
  have conserved := pages_conserved_iff machine sys p d first.sound live first.pgdir covers
  refine ⟨sys, p, _, done, failed, (conserved.2.2.1 _ _ _ _ failed).mpr ?_⟩
  intro bytes same maps
  obtain rfl := Option.some.inj same
  exact maps.2.2

/-- `exec` of a file that ends before its second program header fails, and the page that
the first segment got is not free again. -/
theorem exec_truncated_leaks : ∃ sys p sys', userinit machine (Sys.idle memory) = .ok () sys ∧
    exec machine p [] (some (elfFile 2 (segment 0))) [] sys = .ok (-1) sys' ∧
    ¬ sys.kmem.SameFree sys'.kmem := by
  obtain ⟨sys, p, d, done, first, enough⟩ := booted
  have maps : MapsFirst machine (elfFile 2 (segment 0)) sys.kmem :=
    ⟨hasHeader_elfFile 2 _, enough.mono (by decide), by decide, by decide, enough.mono (by decide)⟩
  obtain ⟨kmem, failed, same⟩ := exec_truncated (elfFile 2 (segment 0)) first.sound
    (by rw [first.state]; nofun) first.pgdir
    (fun _ _ _ _ _ => ⟨by decide, fun _ => trivial⟩) (by decide) (by decide) (by decide)
  exact ⟨sys, p, _, done, failed, fun equal => same.mp equal maps⟩

end SirpairOs.Mem
