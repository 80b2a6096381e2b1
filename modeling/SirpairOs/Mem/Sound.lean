import SirpairOs.Mem.Image
import SirpairOs.Mem.Proc

/-! The pages of the whole system. Every page has one owner: the free list, a kernel stack
or one place in one directory. -/
namespace SirpairOs.Mem

theorem Dir.uses_table {d : Dir} {i : Fin NPDENTRIES} {t : Table} (here : d.pde i = some t) :
    0 < d.uses t.page := by
  have one := le_sum (tableAt t.page) d.pde i
  rw [here] at one
  simp only [tableAt, Option.elim_some, hit_self] at one
  simp only [Dir.uses, Dir.tables, tableAt]
  omega

theorem Dir.lows_le_uses (d : Dir) (page : Nat) : d.lows page ≤ d.uses page := by
  have part : d.lows page ≤ d.frames page :=
    Finset.sum_le_sum_of_subset (Finset.range_subset_range.mpr (by decide))
  simp only [Dir.uses]
  omega

/-- The uses of a page by a process: in its directory, or as kernel stack. -/
def Proc.uses (q : Proc) (page : Nat) : Nat :=
  if q.state = .unused then 0
  else q.pgdir.elim 0 (Dir.uses · page) + q.kstack.elim 0 (hit · page)

theorem Proc.uses_of_live {q : Proc} {d : Dir} (live : q.state ≠ .unused) (has : q.pgdir = some d)
    (page : Nat) : q.uses page = d.uses page + q.kstack.elim 0 (hit · page) := by
  rw [Proc.uses, if_neg live, has, Option.elim_some]

theorem Proc.uses_given {q r : Proc} {d : Dir} (live : q.state ≠ .unused) (none : q.pgdir = none)
    (live' : r.state ≠ .unused) (has : r.pgdir = some d) (same : r.kstack = q.kstack) (page : Nat) :
    r.uses page = d.uses page + q.uses page := by
  rw [Proc.uses_of_live live' has, Proc.uses, if_neg live, none, Option.elim_none, Nat.zero_add, same]

namespace Sys

def total (sys : Sys) (page : Nat) : Nat := sys.kmem.tally page + ∑ p, (sys.proc p).uses page

/-- Every page has at most one owner, and a free place in the process table has no
directory. -/
structure Sound (L : Layout) (sys : Sys) : Prop where
  once : ∀ page, sys.total page ≤ if L.valid page then 1 else 0
  unused : ∀ p, (sys.proc p).state = .unused → (sys.proc p).pgdir = none

variable {L : Layout} {sys : Sys} {page : Nat}

theorem exists_of_shared {owner : Option Nat} (shared : sys.shared owner page = true) :
    ∃ p d, (sys.proc p).state ≠ .unused ∧ (sys.proc p).pgdir = some d ∧ owner ≠ some d.page ∧
      0 < (sys.proc p).uses page := by
  simp only [Sys.shared, decide_eq_true_eq] at shared
  obtain ⟨-, p, live, d, has, other, i, -, t, here, rfl⟩ := shared
  have has := Option.mem_def.mp has
  refine ⟨p, d, live, has, other, ?_⟩
  rw [Proc.uses_of_live live has]
  exact Nat.add_pos_left (Dir.uses_table (Option.mem_def.mp here)) _

theorem Sound.once' (sound : sys.Sound L) (page : Nat) : sys.total page ≤ 1 := by
  refine (sound.once page).trans ?_
  split <;> omega

theorem Sound.valid (sound : sys.Sound L) (pos : 0 < sys.total page) : L.valid page = true := by
  by_contra bad
  have := sound.once page
  rw [if_neg bad] at this
  omega

theorem Sound.free (sound : sys.Sound L) (page : Nat) :
    sys.kmem.tally page ≤ allowed L (sys.shared none) page := by
  have once := sound.once' page
  by_cases zero : sys.kmem.tally page = 0
  · omega
  · rw [allowed, if_pos]
    · simp only [Sys.total] at once
      omega
    · refine ⟨sound.valid (by simp only [Sys.total]; omega), ?_⟩
      by_contra shared
      obtain ⟨p, d, -, -, -, pos⟩ := exists_of_shared (by simpa using shared)
      have := le_sum (Proc.uses · page) sys.proc p
      simp only [Sys.total] at once
      omega

/-- The directory of a process, with the free pages and some of the process's own. -/
theorem Sound.space' (sound : sys.Sound L) {p : Slot} {d : Dir} (kmem : Kmem)
    (has : (sys.proc p).pgdir = some d)
    (less : ∀ page, kmem.tally page + d.uses page ≤ sys.kmem.tally page + (sys.proc p).uses page) :
    Space.Ok L (sys.shared (some d.page)) ⟨kmem, d⟩ := by
  intro page
  have once := sound.once' page
  have part := le_sum (Proc.uses · page) sys.proc p
  have bound := less page
  simp only [Sys.total] at once
  by_cases zero : Space.total ⟨kmem, d⟩ page = 0
  · omega
  · simp only [Space.total] at zero ⊢
    rw [allowed, if_pos]
    · omega
    · refine ⟨sound.valid (by simp only [Sys.total]; omega), ?_⟩
      by_contra shared
      obtain ⟨q, d', -, has', other, pos⟩ := exists_of_shared (by simpa using shared)
      have ne : p ≠ q := by
        rintro rfl
        obtain rfl := Option.some.inj (has.symm.trans has')
        exact other rfl
      have := add_le_sum (Proc.uses · page) sys.proc ne
      omega

theorem Sound.space (sound : sys.Sound L) {p : Slot} {d : Dir} (live : (sys.proc p).state ≠ .unused)
    (has : (sys.proc p).pgdir = some d) : Space.Ok L (sys.shared (some d.page)) ⟨sys.kmem, d⟩ :=
  sound.space' sys.kmem has fun page => by
    have := Proc.uses_of_live live has page
    omega

theorem total_setProc (sys : Sys) (kmem : Kmem) (p : Slot) (q : Proc) (page : Nat) :
    Sys.total ({ sys with kmem := kmem }.setProc p q) page + sys.kmem.tally page +
      (sys.proc p).uses page = sys.total page + kmem.tally page + q.uses page := by
  have change := sum_update (Proc.uses · page) sys.proc p q
  simp only [Sys.total, Sys.setProc]
  omega

theorem setProc_self (p : Slot) (q : Proc) : (sys.setProc p q).proc p = q := Function.update_self ..

theorem setProc_of_ne {p p' : Slot} (q : Proc) (other : p' ≠ p) :
    (sys.setProc p q).proc p' = sys.proc p' := Function.update_of_ne other ..

/-- One process is replaced by one that has no more pages. -/
theorem Sound.update (sound : sys.Sound L) {sys' : Sys} {p : Slot} {q : Proc}
    (proc : sys'.proc = Function.update sys.proc p q) (unused : q.state = .unused → q.pgdir = none)
    (less : ∀ page, sys'.kmem.tally page + q.uses page ≤
      sys.kmem.tally page + (sys.proc p).uses page) : sys'.Sound L := by
  refine ⟨fun page => le_trans ?_ (sound.once page), fun p' free => ?_⟩
  · have change := sum_update (Proc.uses · page) sys.proc p q
    have bound := less page
    simp only [Sys.total, proc]
    omega
  · rw [proc] at free ⊢
    by_cases same : p' = p
    · subst same
      rw [Function.update_self] at free ⊢
      exact unused free
    · rw [Function.update_of_ne same] at free ⊢
      exact sound.unused p' free

/-- A directory that no process has any more. -/
theorem retired_ok {old : Dir}
    (once : ∀ page, sys.total page + old.uses page ≤ if L.valid page then 1 else 0) :
    Space.Ok L (sys.shared (some old.page)) ⟨sys.kmem, old⟩ := by
  intro page
  have bound := once page
  simp only [Sys.total] at bound
  by_cases zero : Space.total ⟨sys.kmem, old⟩ page = 0
  · omega
  · simp only [Space.total] at zero ⊢
    have valid : L.valid page = true := by
      by_contra bad
      rw [if_neg bad] at bound
      omega
    rw [if_pos valid] at bound
    have alone : sys.shared (some old.page) page = false := by
      by_contra shared
      obtain ⟨q, d, -, -, -, pos⟩ := exists_of_shared (by simpa using shared)
      have := le_sum (Proc.uses · page) sys.proc q
      omega
    rw [allowed, if_pos ⟨valid, alone⟩]
    omega

/-- Directories that share a page table use the same page. -/
theorem exists_of_share {a b : Dir} (share : pgdirShareUserPt a b = true) :
    ∃ page, 0 < a.uses page ∧ 0 < b.uses page := by
  simp only [pgdirShareUserPt, decide_eq_true_eq] at share
  obtain ⟨i, -, ta, first, tb, second, -, same⟩ := share
  refine ⟨ta.page, Dir.uses_table (Option.mem_def.mp first), ?_⟩
  rw [same]
  exact Dir.uses_table (Option.mem_def.mp second)

theorem uses_page (d : Dir) : 0 < d.uses d.page := by
  simp only [Dir.uses, hit_self]
  omega

theorem le_total (sys : Sys) {p : Slot} {d : Dir} (live : (sys.proc p).state ≠ .unused)
    (has : (sys.proc p).pgdir = some d) (page : Nat) :
    sys.kmem.tally page + d.uses page ≤ sys.total page := by
  have part := le_sum (Proc.uses · page) sys.proc p
  have mine := Proc.uses_of_live live has page
  simp only [Sys.total]
  omega

end Sys

section New

variable {L : Layout} {sys : Sys}

def Proc.embryo (q : Proc) (pid page : Nat) : Proc :=
  { q with state := .embryo, pid := pid, kstack := some page }

def Sys.hatch (sys : Sys) (np : Slot) (page : Nat) (kmem : Kmem) : Sys :=
  { sys with kmem := kmem, nextpid := sys.nextpid + 1 }.setProc np
    ((sys.proc np).embryo sys.nextpid page)

theorem allocproc_cases (sys : Sys) :
    (sys.kmem.Supplied 1 ∧ ∃ np page kmem, (sys.proc np).state = .unused ∧
      sys.kmem.kalloc = (some page, kmem) ∧ allocproc sys = (some np, sys.hatch np page kmem)) ∨
    (¬ ((∃ p, (sys.proc p).state = .unused) ∧ sys.kmem.Supplied 1) ∧
      ∃ sys', allocproc sys = (none, sys') ∧ sys.kmem.SameFree sys'.kmem) := by
  rw [allocproc]
  cases found : (List.finRange NPROC).find? fun p => (sys.proc p).state = .unused with
  | none =>
    refine .inr ⟨?_, sys, rfl, fun _ => Iff.rfl⟩
    rintro ⟨⟨p, free⟩, -⟩
    have := List.find?_eq_none.mp found p (List.mem_finRange p)
    simp [free] at this
  | some np =>
    have free : (sys.proc np).state = .unused := by simpa using List.find?_some found
    rcases sys.kmem.kalloc_cases with ⟨enough, page, kmem, taken⟩ | ⟨refused, kmem, taken⟩
    · exact .inl ⟨enough, np, page, kmem, free, taken, by simp only [taken]; rfl⟩
    · refine .inr ⟨fun both => refused both.2, _, by simp only [taken]; rfl, ?_⟩
      intro page
      simp only [Kmem.Free, Sys.setProc, Kmem.kalloc_none taken]

theorem Sys.Sound.hatch (sound : sys.Sound L) {np : Slot} {page : Nat} {kmem : Kmem}
    (free : (sys.proc np).state = .unused) (taken : sys.kmem.kalloc = (some page, kmem)) :
    (sys.hatch np page kmem).Sound L := by
  have pgdir := sound.unused np free
  refine sound.update (p := np) (q := (sys.proc np).embryo sys.nextpid page) rfl nofun fun x => ?_
  have tally := Kmem.tally_kalloc taken x
  have after : ((sys.proc np).embryo sys.nextpid page).uses x = hit page x := by
    rw [Proc.uses, if_neg (by nofun)]
    simp only [Proc.embryo, pgdir, Option.elim_none, Option.elim_some, Nat.zero_add]
  simp only [Sys.hatch, Sys.setProc]
  omega

def Sys.idle (kmem : Kmem) : Sys :=
  ⟨kmem, fun _ => ⟨.unused, 0, 0, none, none, none, false, ⟨0, 0, 0⟩, []⟩, 1, 0⟩

theorem Sys.idle_sound {kmem : Kmem} (free : ∀ page, kmem.tally page ≤ if L.valid page then 1 else 0) :
    (Sys.idle kmem).Sound L := by
  refine ⟨fun page => ?_, fun _ _ => rfl⟩
  have uses (p : Slot) : ((Sys.idle kmem).proc p).uses page = 0 := rfl
  simp only [Sys.total, uses, Finset.sum_const_zero, Nat.add_zero]
  exact free page

/-- The process `q` as `userinit` leaves it. -/
def Proc.initcode (q : Proc) (d : Dir) : Proc :=
  { q with
    pgdir := some d, sz := PGSIZE, tf := ⟨0, PGSIZE, 0⟩,
    name := [0x69, 0x6e, 0x69, 0x74, 0x63, 0x6f, 0x64, 0x65], state := .runnable }

/-- What `userinit` leaves: a process with one page. -/
structure First (L : Layout) (kmem : Kmem) (sys : Sys) (p : Slot) (d : Dir) : Prop where
  sound : sys.Sound L
  state : (sys.proc p).state = .runnable
  pgdir : (sys.proc p).pgdir = some d
  sz : (sys.proc p).sz = PGSIZE
  exact' : ∀ k < KERNPAGE, d.lookup k ≠ none ↔ k < 1
  took : ∃ n ≤ kernelTables L + 4, kmem.Supplied n ∧ kmem.Took sys.kmem n

theorem userinit_spec {kmem : Kmem} (free : ∀ page, kmem.tally page ≤ if L.valid page then 1 else 0)
    (enough : kmem.Supplied (kernelTables L + 4)) :
    ∃ sys p d, userinit L (Sys.idle kmem) = .ok () sys ∧ First L kmem sys p d := by
  have sound := Sys.idle_sound free
  rcases allocproc_cases (Sys.idle kmem) with ⟨one, np, page, kmem₁, unused, taken, found⟩ |
    ⟨refused, -⟩
  swap
  · exact absurd ⟨⟨0, rfl⟩, enough.mono (by omega)⟩ refused
  have hatched := sound.hatch unused taken
  have step₁ := Kmem.supplied_add one (Kmem.took_kalloc taken)
  rcases setupkvm_spec hatched.free with ⟨some', d, kmem₂, made, fresh⟩ | ⟨refused, -⟩
  swap
  · exact absurd ((step₁ _).mp (enough.mono (by omega))) refused
  have step₂ := Kmem.supplied_add some' fresh.took
  have few : d.need {0} ≤ 1 :=
    (Finset.card_le_card Finset.sdiff_subset).trans (by rw [Finset.image_singleton]; exact le_rfl)
  have rest : kmem₂.Supplied (1 + d.need {0}) :=
    (step₂ _).mp ((step₁ _).mp (enough.mono (by omega)))
  have ok : Space.Ok L ((Sys.idle kmem |>.hatch np page kmem₁).shared none) ⟨kmem₂, d⟩ :=
    fun x => (fresh.total x).trans_le (hatched.free x)
  rcases allocPage_cases ok (k := 0) (by decide) (fresh.empty 0 (by decide)) with
    ⟨-, mem, kmem₃, s, taken', mapped, fills⟩ | ⟨refused, -⟩ | ⟨-, refused, -⟩
  rotate_left
  · exact absurd (rest.mono (by omega)) refused
  · exact absurd rest refused
  have found : allocproc (Sys.idle kmem) = (some np, (Sys.idle kmem).hatch np page kmem₁) := found
  have made : setupkvm L (Sys.shared { (Sys.idle kmem).hatch np page kmem₁ with initproc := np } none)
      ((Sys.idle kmem).hatch np page kmem₁).kmem = .ok (some d) kmem₂ := made
  simp only [userinit, found, made, inituvm, taken', mappages, mapped, Outcome.bind_ok]
  have embryo : ((Sys.idle kmem).hatch np page kmem₁).proc np =
      ((Sys.idle kmem).proc np).embryo (Sys.idle kmem).nextpid page := Sys.setProc_self ..
  have live : (((Sys.idle kmem).hatch np page kmem₁).proc np).state ≠ .unused := by
    rw [embryo]
    exact fun same => by cases same
  have bare : (((Sys.idle kmem).hatch np page kmem₁).proc np).pgdir = none := by
    rw [embryo]
    rfl
  refine ⟨_, np, s.dir, rfl,
    hatched.update (q := Proc.initcode _ s.dir) rfl (fun same => by cases same) fun x => ?_,
    by rw [Sys.setProc_self], by rw [Sys.setProc_self], by rw [Sys.setProc_self], fun k user => ?_,
    1 + (1 + kernelTables L + (1 + d.need {0})), by omega, enough.mono (by omega), ?_⟩
  · have after := Proc.uses_given live bare (r := Proc.initcode _ s.dir)
      (fun same => by cases same) rfl rfl x
    have := fills.total x
    have := fresh.total x
    simp only [Space.total, Sys.setProc] at *
    omega
  · by_cases first : k = 0
    · subst first
      obtain ⟨pa, mapped⟩ := fills.mapped 0 (Finset.mem_singleton_self 0)
      rw [mapped]
      exact iff_of_true (Option.some_ne_none _) (by decide)
    · rw [fills.user k user (by simpa using first), fresh.empty k user]
      exact iff_of_false (fun same => same rfl) (by omega)
  · have took := fills.took
    rw [Finset.card_singleton] at took
    exact (Kmem.took_kalloc taken).trans (fresh.took.trans took)

def machine : Layout := ⟨0x101, 0x200, 0x1000, by decide, by decide, by decide⟩

def memory : Kmem := ⟨List.range' 0x200 300, List.nodup_range', 0, fun _ => false⟩

theorem booted : ∃ sys p d, userinit machine (Sys.idle memory) = .ok () sys ∧
    First machine memory sys p d ∧ sys.kmem.Supplied 200 := by
  have enough (n : Nat) (le : n ≤ 300) : memory.Supplied n :=
    ⟨fun _ _ => rfl, by simpa [memory] using le⟩
  have free (page : Nat) : memory.tally page ≤ if machine.valid page then 1 else 0 := by
    by_cases member : page ∈ memory.freelist
    · have between : 0x200 ≤ page ∧ page < 0x200 + 300 := by simpa [memory] using member
      have valid : machine.valid page = true := decide_eq_true (by
        simp only [machine]
        omega)
      rw [Kmem.tally, if_pos member, if_pos valid]
    · rw [Kmem.tally, if_neg member]
      exact Nat.zero_le _
  obtain ⟨sys, p, d, done, first⟩ := userinit_spec free (enough _ (by decide))
  obtain ⟨n, few, given, took⟩ := first.took
  have few : n ≤ 72 := few
  exact ⟨sys, p, d, done, first, (Kmem.supplied_add given took 200).mp (enough _ (by omega))⟩

end New

end SirpairOs.Mem
