import SirpairOs.Lib.Transition
import SirpairOs.Mem.Conserve

/-! The size of a process (`sys_sbrk`, `growproc`): the pages below `proc->sz` are the ones
that are mapped, as long as no shrink goes below address 0x4000. -/
namespace SirpairOs.Mem

def Dir.Exact (d : Dir) (sz : Nat) : Prop := ∀ k < KERNPAGE, d.lookup k ≠ none ↔ k < pgroundup sz

/-- A call of `sbrk` that shrinks the process leaves it the pages below 0x4000. -/
def KeepsFour (sz : Nat) (n : Int) : Prop := n < 0 → (-n).toNat < sz → 4 ≤ pgroundup (sz - (-n).toNat)

instance (sz : Nat) (n : Int) : Decidable (KeepsFour sz n) :=
  inferInstanceAs (Decidable (n < 0 → (-n).toNat < sz → 4 ≤ pgroundup (sz - (-n).toNat)))

section Space

variable {L : Layout} {shared : Nat → Bool} {s : Space} {sz : Nat}

theorem Dir.Exact.endsAt {d : Dir} (exact' : d.Exact sz) : d.EndsAt sz := fun k user after => by
  by_contra some
  have := (exact' k user).mp some
  omega

/-- What `growproc` does with the space: nothing if it fails; else the pages below the new
size are mapped, and those below 0x4000. -/
structure Resized (s s' : Space) (sz : Nat) (n : Int) (result : Option Nat) : Prop where
  total : ∀ page, s'.total page = s.total page
  failed : result = none → ∀ k < KERNPAGE, s'.dir.lookup k = s.dir.lookup k
  done : ∀ newsz, result = some newsz →
    newsz < KERNBASE ∧ ∀ k < KERNPAGE, s'.dir.lookup k ≠ none ↔ k < max (pgroundup newsz) 4
  keeps : KeepsFour sz n ↔ ∀ newsz, result = some newsz → 4 ≤ pgroundup newsz

theorem Resized.refused {n : Int} (keeps : KeepsFour sz n) : Resized s s sz n none :=
  ⟨fun _ => rfl, fun _ _ _ => rfl, nofun, iff_of_true keeps nofun⟩

theorem Fills.resized {s' : Space} {newsz : Nat} {n : Int} (four : 4 ≤ pgroundup sz)
    (exact' : s.dir.Exact sz) (le : sz ≤ newsz) (below : newsz < KERNBASE) (grows : 0 ≤ n)
    (fills : Fills s s' (Finset.Ico (pgroundup sz) (pgroundup newsz))) :
    Resized s s' sz n (some newsz) := by
  have up := pgroundup_mono le
  refine ⟨fills.total, nofun, ?_, iff_of_true (fun shrinks => by omega) ?_⟩
  · intro _ same
    cases same
    refine ⟨below, fun k user => ?_⟩
    by_cases new : k ∈ Finset.Ico (pgroundup sz) (pgroundup newsz)
    · obtain ⟨pa, mapped⟩ := fills.mapped k new
      rw [mapped]
      have := (Finset.mem_Ico.mp new).2
      exact iff_of_true nofun (by omega)
    · rw [fills.user k user new, exact' k user]
      rw [Finset.mem_Ico] at new
      omega
  · intro _ same
    cases same
    omega

theorem Undone.resized {s' : Space} {m : Nat} {n : Int} (four : 4 ≤ pgroundup sz)
    (exact' : s.dir.Exact sz) (grows : 0 ≤ n)
    (undone : Undone s s' (pgroundup sz) (pgroundup sz) m) : Resized s s' sz n none := by
  refine ⟨undone.total, fun _ k user => ?_, nofun,
    iff_of_true (fun shrinks => by omega) nofun⟩
  by_cases low : k < 4
  · exact undone.low k low (by omega)
  · rw [undone.high k user (by omega)]
    split_ifs with inside
    · exact (exact'.endsAt k user inside.1).symm
    · rfl

theorem Drops.resized {s' : Space} {n : Int} (below : sz < KERNBASE) (four : 4 ≤ pgroundup sz)
    (exact' : s.dir.Exact sz) (shrinks : n < 0) (more : (-n).toNat < sz)
    (drops : Drops s s' (pgroundup (sz - (-n).toNat)) (pgroundup sz)) :
    Resized s s' sz n (some (sz - (-n).toNat)) := by
  have down := pgroundup_mono (Nat.sub_le sz (-n).toNat)
  refine ⟨drops.total, nofun, ?_, ⟨?_, fun all _ _ => all _ rfl⟩⟩
  · intro _ same
    cases same
    refine ⟨by omega, fun k user => ?_⟩
    rw [drops.user k user]
    split_ifs with dropped
    · exact iff_of_false (fun some => some rfl) (by omega)
    · rw [exact' k user]
      omega
  · intro keeps _ same
    cases same
    exact keeps shrinks more

theorem growSpace_spec (ok : s.Ok L shared) (below : sz < KERNBASE) (four : 4 ≤ pgroundup sz)
    (exact' : s.dir.Exact sz) (n : Int) :
    ∃ result s', growSpace L shared sz n s = .ok result s' ∧ Resized s s' sz n result := by
  unfold growSpace
  by_cases grows : n > 0
  · have keeps : KeepsFour sz n := fun shrinks => by omega
    rw [if_pos grows]
    dsimp only
    split_ifs with wraps
    · exact ⟨none, s, rfl, .refused keeps⟩
    · obtain ⟨le, inside⟩ : sz ≤ (sz + n.toNat) % 2 ^ 32 ∧ (sz + n.toNat) % 2 ^ 32 < KERNBASE := by
        omega
      generalize (sz + n.toNat) % 2 ^ 32 = newsz at le inside
      have pos : 0 < sz := pgroundup_pos.mp (by omega)
      rcases allocuvm_spec ok inside le exact'.endsAt with ⟨-, s', done, fills⟩ |
        ⟨-, s', failed, undone⟩
      · rw [done, Outcome.bind_ok, if_neg (by omega)]
        exact ⟨_, s', rfl, fills.resized four exact' le inside grows.le⟩
      · rw [failed, Outcome.bind_ok, if_pos rfl]
        exact ⟨_, s', rfl, undone.resized four exact' grows.le⟩
  · rw [if_neg grows]
    split_ifs with shrinks least
    · exact ⟨none, s, rfl, .refused fun _ more => by simp only [KERNBASE] at below; omega⟩
    · dsimp only
      split_ifs with all
      · exact ⟨none, s, rfl, .refused fun _ more => by omega⟩
      · obtain ⟨s', done, drops⟩ := deallocuvm_drops ok sz (sz - (-n).toNat) (by omega)
          (pgroundup_le_KERNPAGE below)
        rw [done]
        exact ⟨_, s', rfl, drops.resized below four exact' shrinks (by omega)⟩
    · have same : Fills s s (Finset.Ico (pgroundup sz) (pgroundup sz)) := by
        rw [Finset.Ico_self]
        exact .refl s
      exact ⟨_, s, rfl, same.resized four exact' le_rfl below (by omega)⟩

/-- Growing over a page that is still mapped stops the machine. -/
theorem growSpace_remap (ok : s.Ok L shared) (sz : Nat) (n : Int) (grows : 0 < n)
    (below : sz + n.toNat < KERNBASE) (first : pgroundup sz < pgroundup (sz + n.toNat))
    (mapped : s.dir.lookup (pgroundup sz) ≠ none) (enough : s.kmem.Supplied 1) :
    ∃ s', growSpace L shared sz n s = .halt .remap s' := by
  have user : pgroundup sz < KERNPAGE := first.trans_le (pgroundup_le_KERNPAGE below)
  have table := Dir.table_of_lookup mapped
  obtain ⟨e, mapped⟩ := Option.ne_none_iff_exists'.mp mapped
  rcases s.kmem.kalloc_cases with ⟨-, mem, kmem, taken⟩ | ⟨refused, -⟩
  · -- The page that `kalloc` gives was free, the one that is mapped was not.
    have other : e.page ≠ mem := by
      rintro rfl
      have was := Space.total_kalloc taken e.page
      have once := (ok e.page).trans (allowed_le_one L shared e.page)
      have pos := Space.Ok.frames_pos user mapped
      rw [hit_self] at was
      simp only [Space.total, Dir.uses] at was once
      omega
    have ok' : Space.Ok L shared { s with kmem := kmem } := ok.mono fun page => by
      have := Space.total_kalloc taken page
      omega
    have fits : (sz + n.toNat) % 2 ^ 32 = sz + n.toNat := by
      simp only [KERNBASE] at below
      omega
    have count : pgroundup (sz + n.toNat) - pgroundup sz =
        pgroundup (sz + n.toNat) - pgroundup sz - 1 + 1 := by omega
    refine ⟨{ s with kmem := kmem }, ?_⟩
    rw [growSpace, if_pos grows]
    simp only [fits]
    rw [if_neg (by omega), allocuvm, if_neg (by omega), if_neg (by omega), count, allocLoop]
    simp only [taken, mappages, mapPage, walkpgdir_present ok' true table, mapped]
    rw [if_neg (by tauto), if_neg (by omega)]
    rfl
  · exact absurd enough refused

end Space

section Call

variable {L : Layout} {cur : Slot} {sys : Sys} {d : Dir}

/-- A process whose pages are those below its size, and among them those below 0x4000. -/
structure Fit (L : Layout) (cur : Slot) (sys : Sys) (d : Dir) : Prop where
  sound : sys.Sound L
  live : (sys.proc cur).state ≠ .unused
  pgdir : (sys.proc cur).pgdir = some d
  exact' : d.Exact (sys.proc cur).sz
  below : (sys.proc cur).sz < KERNBASE
  four : 4 ≤ pgroundup (sys.proc cur).sz

def ExactAt (cur : Slot) (sys : Sys) : Prop :=
  ∃ d, (sys.proc cur).pgdir = some d ∧ d.Exact (sys.proc cur).sz

def SameAt (cur : Slot) (sys sys' : Sys) : Prop :=
  (sys'.proc cur).sz = (sys.proc cur).sz ∧ ∃ d d', (sys.proc cur).pgdir = some d ∧
    (sys'.proc cur).pgdir = some d' ∧ ∀ k < KERNPAGE, d'.lookup k = d.lookup k

def Sys.resize (sys : Sys) (cur : Slot) (s : Space) (sz : Nat) : Sys :=
  { sys with kmem := s.kmem }.setProc cur { sys.proc cur with pgdir := some s.dir, sz := sz }

theorem Sys.resize_self (sys : Sys) (cur : Slot) (s : Space) (sz : Nat) :
    (sys.resize cur s sz).proc cur = { sys.proc cur with pgdir := some s.dir, sz := sz } :=
  Sys.setProc_self ..

theorem exactAt_resize (s : Space) (sz : Nat) : ExactAt cur (sys.resize cur s sz) ↔ s.dir.Exact sz := by
  simp only [ExactAt, Sys.resize_self, Option.some.injEq, exists_eq_left']

theorem Fit.resize_sound (fit : Fit L cur sys d) {s : Space} (sz : Nat)
    (total : ∀ page, s.total page = Space.total ⟨sys.kmem, d⟩ page) :
    (sys.resize cur s sz).Sound L := by
  refine fit.sound.update (q := { sys.proc cur with pgdir := some s.dir, sz := sz }) rfl
    (fun unused => absurd unused fit.live) fun page => ?_
  have before := Proc.uses_of_live fit.live fit.pgdir page
  have after := Proc.uses_of_live (q := { sys.proc cur with pgdir := some s.dir, sz := sz })
    fit.live rfl page
  have total := total page
  simp only [Space.total, Sys.resize, Sys.setProc] at *
  omega

theorem Fit.resize (fit : Fit L cur sys d) {s : Space} {n : Int} {result : Option Nat} {sz : Nat}
    (resized : Resized ⟨sys.kmem, d⟩ s (sys.proc cur).sz n result) (exact' : s.dir.Exact sz)
    (below : sz < KERNBASE) (four : 4 ≤ pgroundup sz) : Fit L cur (sys.resize cur s sz) s.dir := by
  have self := sys.resize_self cur s sz
  exact ⟨fit.resize_sound sz resized.total, by rw [self]; exact fit.live, by rw [self],
    by rw [self]; exact exact', by rw [self]; exact below, by rw [self]; exact four⟩

theorem sysSbrk_ok {n : Int} {newsz : Nat} {s : Space} (has : (sys.proc cur).pgdir = some d)
    (grown : growSpace L (sys.shared (some d.page)) (sys.proc cur).sz n ⟨sys.kmem, d⟩ =
      .ok (some newsz) s) :
    sysSbrk L cur n sys = .ok (sys.proc cur).sz (sys.resize cur s newsz) := by
  simp only [sysSbrk, growproc, has, grown, switchuvm, Sys.setProc_self, Outcome.bind_ok]
  rfl

/-- One call of `sbrk`: it returns, a failure changes nothing, and the pages are those below
the size again exactly when the call leaves the pages below 0x4000 alone. -/
theorem sysSbrk_spec (fit : Fit L cur sys d) (n : Int) :
    ∃ value sys', sysSbrk L cur n sys = .ok value sys' ∧ (value = -1 → SameAt cur sys sys') ∧
      (ExactAt cur sys' ↔ KeepsFour (sys.proc cur).sz n) ∧
      (KeepsFour (sys.proc cur).sz n → ∃ d', Fit L cur sys' d') := by
  obtain ⟨result, s, grown, resized⟩ := growSpace_spec (fit.sound.space fit.live fit.pgdir) fit.below
    fit.four fit.exact' n
  cases result with
  | none =>
    have same := resized.failed rfl
    have keeps := resized.keeps.mpr nofun
    have exact' : s.dir.Exact (sys.proc cur).sz := fun k user => by
      rw [same k user]
      exact fit.exact' k user
    refine ⟨-1, sys.resize cur s (sys.proc cur).sz, ?_, fun _ => ?_,
      iff_of_true ((exactAt_resize s _).mpr exact') keeps,
      fun _ => ⟨s.dir, fit.resize resized exact' fit.below fit.four⟩⟩
    · simp only [sysSbrk, growproc, fit.pgdir, grown]
      rfl
    · exact ⟨by rw [Sys.resize_self], d, s.dir, fit.pgdir, by rw [Sys.resize_self], same⟩
  | some newsz =>
    obtain ⟨below, mapped⟩ := resized.done newsz rfl
    have keeps : KeepsFour (sys.proc cur).sz n ↔ 4 ≤ pgroundup newsz :=
      resized.keeps.trans ⟨fun all => all newsz rfl, fun four _ same => by cases same; exact four⟩
    have exactly : s.dir.Exact newsz ↔ 4 ≤ pgroundup newsz := by
      refine ⟨fun exact' => ?_, fun four k user => ?_⟩
      · have third := exact' 3 (by decide)
        rw [mapped 3 (by decide)] at third
        omega
      · rw [mapped k user]
        omega
    refine ⟨(sys.proc cur).sz, sys.resize cur s newsz, sysSbrk_ok fit.pgdir grown,
      fun negative => by omega, ?_, fun four => ?_⟩
    · rw [exactAt_resize, exactly, keeps]
    · have four := keeps.mp four
      exact ⟨s.dir, fit.resize resized (exactly.mpr four) below four⟩

end Call

/-- Every call of a sequence returns. After it the pages of the process are those below its
size, and a call that fails has changed neither. -/
def ExactlyRun (L : Layout) (cur : Slot) : List Int → Sys → Prop
  | [], _ => True
  | n :: rest, sys => ∃ value sys', sysSbrk L cur n sys = .ok value sys' ∧ ExactAt cur sys' ∧
      (value = -1 → SameAt cur sys sys') ∧ ExactlyRun L cur rest sys'

/-- A call that does not stop the machine. -/
def sbrkStep (L : Layout) (cur : Slot) (n : Int) (sys : Sys) : Option Sys :=
  match sysSbrk L cur n sys with
  | .ok _ sys => some sys
  | .halt _ _ => none

theorem Fit.exactlyRun_iff {L : Layout} {cur : Slot} {sys : Sys} {d : Dir} (fit : Fit L cur sys d)
    (args : List Int) : ExactlyRun L cur args sys ↔
      Transition.Along (sbrkStep L cur) (fun n sys => KeepsFour (sys.proc cur).sz n) args sys := by
  induction args generalizing sys d with
  | nil => exact Iff.rfl
  | cons n rest ih =>
    obtain ⟨value, sys', done, failed, exact', next⟩ := sysSbrk_spec fit n
    have step : sbrkStep L cur n sys = some sys' := by rw [sbrkStep, done]
    constructor
    · rintro ⟨value', sys'', done', exact'', -, later⟩
      rw [done] at done'
      cases done'
      have keeps := exact'.mp exact''
      obtain ⟨d', fit'⟩ := next keeps
      refine ⟨keeps, fun t taken => ?_⟩
      cases step.symm.trans taken
      exact (ih fit').mp later
    · rintro ⟨keeps, later⟩
      obtain ⟨d', fit'⟩ := next keeps
      exact ⟨value, sys', done, exact'.mpr keeps, failed, (ih fit').mpr (later sys' step)⟩

theorem Execs.fit {L : Layout} {sys sys' : Sys} {cur : Slot} {old : Dir} {path : List UInt8}
    {image : Image} (live : (sys.proc cur).state ≠ .unused)
    (execs : Execs L sys sys' cur old path image) : Fit L cur sys' image.dir := by
  have self : sys'.proc cur = (sys.proc cur).commit path image := by
    rw [execs.proc, Function.update_self]
  refine ⟨execs.sound, by rw [self]; exact live, by rw [self]; rfl, by rw [self]; exact execs.exact',
    by rw [self]; exact execs.below, ?_⟩
  have stack := execs.stack
  rw [self]
  simp only [Proc.commit, pgroundup, PGSIZE, USTACK_PAGES] at *
  omega

/-- After `exec`, every sequence of calls of `sbrk` keeps the address space exact if and only
if no call shrinks the process to less than four pages. -/
theorem sbrk_exact_iff (L : Layout) (sys sys' : Sys) (cur : Slot) (path : List UInt8)
    (file : Option (List UInt8)) (argv : List (List UInt8)) (sound : sys.Sound L)
    (live : (sys.proc cur).state ≠ .unused) (has : (sys.proc cur).pgdir ≠ none)
    (done : exec L cur path file argv sys = .ok 0 sys') (args : List Int) :
    ExactlyRun L cur args sys' ↔
      Transition.Along (sbrkStep L cur) (fun n sys => KeepsFour (sys.proc cur).sz n) args sys' := by
  obtain ⟨old, has⟩ := Option.ne_none_iff_exists'.mp has
  cases file with
  | none => cases done
  | some file =>
    rcases exec_cases sound live has path file argv with ⟨-, _, halted⟩ |
      ⟨-, image, _, done', execs⟩ | ⟨-, _, failed, -⟩
    · rw [done] at halted
      cases halted
    · rw [done] at done'
      cases done'
      exact (execs.fit live).exactlyRun_iff args
    · rw [done] at failed
      cases failed

theorem exec_bare : ∃ sys p sys' d, userinit machine (Sys.idle memory) = .ok () sys ∧
    sys.Sound machine ∧ (sys.proc p).state ≠ .unused ∧ (sys.proc p).pgdir ≠ none ∧
    exec machine p [] (some (elfFile 0 [])) [] sys = .ok 0 sys' ∧ Fit machine p sys' d ∧
    (sys'.proc p).sz = (USTACK_PAGES + 1) * PGSIZE ∧ sys'.kmem.Supplied 1 := by
  obtain ⟨sys, p, d, done, first, enough⟩ := booted
  have live : (sys.proc p).state ≠ .unused := by
    rw [first.state]
    nofun
  obtain ⟨image, kmem, made, built, size⟩ := makeImage_bare (hasHeader_elfFile 0 []) rfl
    (enough.mono (by decide)) first.sound.free
  obtain ⟨sys', ran, execs⟩ := exec_commits first.sound live first.pgdir [] made built
  refine ⟨sys, p, sys', image.dir, done, first.sound, live, by rw [first.pgdir]; nofun, ran,
    execs.fit live, ?_, execs.rest 1 (enough.mono ?_)⟩
  · rw [execs.proc, Function.update_self]
    exact size
  · rw [size]
    decide

theorem sbrk_exact_page : ∃ sys p sys', userinit machine (Sys.idle memory) = .ok () sys ∧
    exec machine p [] (some (elfFile 0 [])) [] sys = .ok 0 sys' ∧
    ExactlyRun machine p [-4096] sys' := by
  obtain ⟨sys, p, sys', d, done, sound, live, has, ran, -, size, -⟩ := exec_bare
  refine ⟨sys, p, sys', done, ran, (sbrk_exact_iff machine sys sys' p [] (some (elfFile 0 [])) [] sound
    live has ran [-4096]).mpr ⟨?_, fun _ _ => trivial⟩⟩
  dsimp only
  rw [size]
  decide

/-- A process shrinks to one byte and then grows by a page. -/
theorem sbrk_remap : ∃ sys p sys₁ sys₂ sys₃, userinit machine (Sys.idle memory) = .ok () sys ∧
    exec machine p [] (some (elfFile 0 [])) [] sys = .ok 0 sys₁ ∧
    sysSbrk machine p (-69631) sys₁ = .ok 69632 sys₂ ∧ (sys₂.proc p).sz = 1 ∧
    ¬ ExactAt p sys₂ ∧ sysSbrk machine p 4096 sys₂ = .halt .remap sys₃ := by
  obtain ⟨sys, p, sys₁, d, done, -, -, -, ran, fit, size, enough⟩ := exec_bare
  have size : (sys₁.proc p).sz = 69632 := size
  have ok := fit.sound.space fit.live fit.pgdir
  obtain ⟨s, dealloc, drops⟩ := deallocuvm_drops ok 69632 1 (by decide) (by decide)
  have shrunk : growSpace machine (sys₁.shared (some d.page)) (sys₁.proc p).sz (-69631)
      ⟨sys₁.kmem, d⟩ = .ok (some 1) s := by
    rw [size, growSpace, if_neg (by decide), if_pos (by decide), if_neg (by decide)]
    simp only [show ¬ 69632 ≤ (- -69631 : Int).toNat by decide, if_false]
    exact congrArg (fun r : Nat × Space => Outcome.ok (some r.1) r.2) dealloc
  have left : s.kmem.Supplied 1 := by
    have later : (deallocuvm machine (sys₁.shared (some d.page)) 69632 1
      ⟨sys₁.kmem, d⟩).2.kmem.Supplied 1 := deallocuvm_supplied enough 69632 1
    rwa [dealloc] at later
  have stays (k : Nat) (low : k < 4) : s.dir.lookup k ≠ none := by
    rw [drops.user k (low.trans (by decide)), if_neg (by omega)]
    refine (fit.exact' k (low.trans (by decide))).mpr (low.trans_le ?_)
    rw [size]
    decide
  have self := sys₁.resize_self p s 1
  have sound := fit.resize_sound 1 drops.total
  have pgdir : ((sys₁.resize p s 1).proc p).pgdir = some s.dir := by rw [self]
  have one : ((sys₁.resize p s 1).proc p).sz = 1 := by rw [self]
  obtain ⟨t, halted⟩ := growSpace_remap (sound.space (by rw [self]; exact fit.live) pgdir) 1 4096
    (by decide) (by decide) (by decide) (stays 1 (by decide)) left
  obtain ⟨sys₃, stopped⟩ : ∃ sys₃, sysSbrk machine p 4096 (sys₁.resize p s 1) = .halt .remap sys₃ := by
    simp only [sysSbrk, growproc, pgdir, one, halted, Outcome.bind_halt]
    exact ⟨_, rfl⟩
  refine ⟨sys, p, sys₁, sys₁.resize p s 1, sys₃, done, ran, ?_, one, ?_, stopped⟩
  · rw [sysSbrk_ok fit.pgdir shrunk, size]
    rfl
  · rw [exactAt_resize]
    exact fun exact' => absurd ((exact' 3 (by decide)).mp (stays 3 (by decide))) (by decide)

end SirpairOs.Mem
