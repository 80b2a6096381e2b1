import SirpairOs.Mem.Load

/-! Where `exec` puts the arguments. -/
namespace SirpairOs.Mem

/-- `uva2ka` finds the page. -/
def Dir.Usable (L : Layout) (d : Dir) (k : Nat) : Prop :=
  ∃ e, d.lookup k = some e ∧ e.perm.u = true ∧ L.valid e.page = true

def Dir.Reads (d : Dir) (ram : Ram) (va : Nat) (bytes : List UInt8) : Prop :=
  ∀ i < bytes.length, d.byteAt ram (va + i) = some (bytes.getD i 0)

section Copyout

variable {L : Layout} {shared : Nat → Bool} {s : Space} {k : Nat} {e : Pte} {ram : Ram}

theorem uva2kaRam_eq (ok : s.Ok L shared) (k : Nat) : uva2kaRam L k s =
    (((s.dir.lookup k).filter fun e => e.perm.u && L.valid e.page).map Pte.page, s) := by
  rw [uva2kaRam]
  by_cases here : s.dir.pde (pdx k) = none
  · rw [walkpgdir_absent false here, Dir.lookup, here]
    rfl
  · rw [walkpgdir_present ok false here]

theorem uva2kaRam_usable (ok : s.Ok L shared) (here : s.dir.lookup k = some e)
    (user : e.perm.u = true) (valid : L.valid e.page = true) :
    uva2kaRam L k s = (some e.page, s) := by
  rw [uva2kaRam_eq ok, here, Option.filter_some, if_pos (by rw [user, valid]; rfl), Option.map_some]

theorem usable_of_uva2ka {t : Space} (ok : s.Ok L shared) (found : uva2ka L k s = (true, t)) :
    s.dir.Usable L k ∧ t = s := by
  rw [uva2ka_eq, uva2kaRam_eq ok] at found
  obtain ⟨some, same⟩ := Prod.mk.inj found
  refine ⟨?_, same.symm⟩
  obtain ⟨page, mapped⟩ := Option.isSome_iff_exists.mp some
  obtain ⟨e, kept, -⟩ := Option.map_eq_some_iff.mp mapped
  obtain ⟨here, fine⟩ := Option.filter_eq_some_iff.mp kept
  rw [Bool.and_eq_true] at fine
  exact ⟨e, here, fine.1, fine.2⟩

/-- What the user reads after a part of one page has been written. -/
theorem byteAt_store (ok : s.Ok L shared) (user : k < KERNPAGE) (here : s.dir.lookup k = some e)
    {off : Nat} {bytes : List UInt8} (inside : off + bytes.length ≤ PGSIZE) {x : Nat}
    (below : x < KERNBASE) : s.dir.byteAt (ram.store e.page off bytes) x =
      if k * PGSIZE + off ≤ x ∧ x < k * PGSIZE + off + bytes.length then
        some (bytes.getD (x - (k * PGSIZE + off)) 0)
      else s.dir.byteAt ram x := by
  have left : x / PGSIZE < KERNPAGE := Nat.div_lt_of_lt_mul below
  have size : 0 < PGSIZE := by decide
  have split := Nat.div_add_mod x PGSIZE
  have rest := Nat.mod_lt x size
  by_cases same : x / PGSIZE = k
  · have offset : x = k * PGSIZE + x % PGSIZE := by rw [← same, Nat.mul_comm, split]
    simp only [Dir.byteAt, same, here, Option.map_some, Ram.store, Function.update_self]
    by_cases written : off ≤ x % PGSIZE ∧ x % PGSIZE < off + bytes.length
    · rw [if_pos written, if_pos (by omega), show x - (k * PGSIZE + off) = x % PGSIZE - off by omega]
    · rw [if_neg written, if_neg (by omega)]
  · have outside : ¬ (k * PGSIZE + off ≤ x ∧ x < k * PGSIZE + off + bytes.length) := by
      rintro ⟨low, high⟩
      refine same (Nat.div_eq_of_lt_le (by omega) ?_)
      rw [Nat.succ_mul]
      omega
    rw [if_neg outside, Dir.byteAt, Dir.byteAt]
    cases there : s.dir.lookup (x / PGSIZE) with
    | none => rfl
    | some e' =>
      have other : e'.page ≠ e.page := fun equal => same (Dir.lookup_inj (by
        have := (ok e'.page).trans (allowed_le_one L shared e'.page)
        simp only [Space.total, Dir.uses] at this
        omega) left user there here equal)
      simp only [Option.map_some, Ram.store, Function.update_of_ne other]

theorem copyoutRam_done (ok : s.Ok L shared) {va : Nat} {buf : List UInt8}
    (below : va + buf.length ≤ KERNBASE)
    (usable : ∀ i < buf.length, s.dir.Usable L ((va + i) / PGSIZE)) (ram : Ram) :
    ∃ ram', copyoutRam L va buf s ram = (true, (s, ram')) ∧ ∀ x < KERNBASE,
      s.dir.byteAt ram' x = if va ≤ x ∧ x < va + buf.length then some (buf.getD (x - va) 0)
        else s.dir.byteAt ram x := by
  have size : 0 < PGSIZE := by decide
  fun_induction copyoutRam L va buf s ram with
  | case1 va buf s ram some t none =>
    obtain ⟨e, here, user, valid⟩ := usable 0 some
    rw [Nat.add_zero] at here
    rw [uva2kaRam_usable ok here user valid] at none
    cases none
  | case2 va buf s ram some page t found ih =>
    obtain ⟨e, here, user, valid⟩ := usable 0 some
    rw [Nat.add_zero] at here
    rw [uva2kaRam_usable ok here user valid] at found
    cases found
    have split := Nat.div_add_mod va PGSIZE
    have rest := Nat.mod_lt va size
    have base : va / PGSIZE * PGSIZE + va % PGSIZE = va := by rw [Nat.mul_comm]; exact split
    have low : va / PGSIZE < KERNPAGE := Nat.div_lt_of_lt_mul (by
      simp only [PGSIZE, KERNPAGE, KERNBASE] at *
      omega)
    have next : (va / PGSIZE + 1) * PGSIZE % 2 ^ 32 = va + (PGSIZE - va % PGSIZE) := by
      rw [Nat.mod_eq_of_lt, Nat.succ_mul]
      · omega
      · simp only [KERNPAGE, PGSIZE] at *
        omega
    rw [next] at ih
    rw [next]
    have taken : (buf.take (PGSIZE - va % PGSIZE)).length = min (PGSIZE - va % PGSIZE) buf.length :=
      List.length_take
    rw [List.length_drop] at ih
    obtain ⟨ram', done, reads⟩ := ih ok (by
        have : (va / PGSIZE + 1) * PGSIZE ≤ KERNBASE := Nat.mul_le_mul_right PGSIZE low
        rw [Nat.succ_mul] at this
        omega)
      (fun i inside => by
        rw [Nat.add_assoc]
        exact usable (PGSIZE - va % PGSIZE + i) (by omega))
    refine ⟨ram', done, fun x high => ?_⟩
    rw [reads x high, byteAt_store ok low here (by rw [taken]; omega) high, base, taken]
    by_cases later : va + (PGSIZE - va % PGSIZE) ≤ x ∧
        x < va + (PGSIZE - va % PGSIZE) + (buf.length - (PGSIZE - va % PGSIZE))
    · rw [if_pos later, if_pos (by omega), List.getD_eq_getElem?_getD, List.getElem?_drop,
        ← List.getD_eq_getElem?_getD]
      congr 2
      omega
    · rw [if_neg later]
      by_cases first : va ≤ x ∧ x < va + min (PGSIZE - va % PGSIZE) buf.length
      · rw [if_pos first, if_pos (by omega), List.getD_eq_getElem?_getD,
          List.getElem?_take_of_lt (by omega), ← List.getD_eq_getElem?_getD]
      · rw [if_neg first, if_neg (by omega)]
  | case3 va buf s ram none =>
    refine ⟨ram, rfl, fun x _ => ?_⟩
    rw [if_neg (by omega)]

/-- Every byte that `copyout` has written lies in a page that the user can use. -/
theorem usable_of_copyout (ok : s.Ok L shared) {va len : Nat} (start : va < 2 ^ 32)
    (done : (copyout L va len s).1 = true) (i : Nat) (inside : i < len) (fits : va + i < 2 ^ 32) :
    s.dir.Usable L ((va + i) / PGSIZE) := by
  have size : 0 < PGSIZE := by decide
  fun_induction copyout L va len s generalizing i with
  | case1 va len s pos t refused => cases done
  | case2 va len s pos t found ih =>
    obtain ⟨usable, rfl⟩ := usable_of_uva2ka ok found
    have split := Nat.div_add_mod va PGSIZE
    have rest := Nat.mod_lt va size
    rw [Nat.mul_comm] at split
    by_cases here : va % PGSIZE + i < PGSIZE
    · have same : (va + i) / PGSIZE = va / PGSIZE := by
        refine Nat.div_eq_of_lt_le (by omega) ?_
        rw [Nat.succ_mul]
        omega
      rwa [same]
    · have next : (va / PGSIZE + 1) * PGSIZE % 2 ^ 32 = va + (PGSIZE - va % PGSIZE) := by
        rw [Nat.mod_eq_of_lt] <;> rw [Nat.succ_mul] <;> omega
      rw [next] at ih done
      have later := ih ok (by omega) done (i - (PGSIZE - va % PGSIZE)) (by omega) (by omega)
      rwa [show va + (PGSIZE - va % PGSIZE) + (i - (PGSIZE - va % PGSIZE)) = va + i by omega]
        at later
  | case3 va len s none => omega

end Copyout

def bottom (sz : Nat) : Nat := sz - USTACK_PAGES * PGSIZE

def room (len : Nat) : Nat := (len + 3) / 4 * 4

section Push

variable {L : Layout} {shared : Nat → Bool} {s : Space} {sz sp len : Nat}

theorem Guarded.usable (guarded : Guarded s.dir sz) (ok : s.Ok L shared) {x : Nat}
    (low : bottom sz ≤ x) (high : x < sz) : s.dir.Usable L (x / PGSIZE) := by
  obtain ⟨whole, stack, below, -, others, -, -⟩ := guarded
  have inside : x / PGSIZE < sz / PGSIZE := by
    simp only [PGSIZE] at *
    omega
  obtain ⟨pa, here⟩ := others (x / PGSIZE) inside (by
    simp only [bottom, PGSIZE, USTACK_PAGES] at *
    omega)
  have user : x / PGSIZE < KERNPAGE := by
    simp only [PGSIZE, KERNPAGE, KERNBASE] at *
    omega
  exact ⟨_, here, rfl, (ok.frame user here).1⟩

/-- Pages the user cannot use: the guard page, and all from `sz` on. -/
theorem Guarded.unusable (guarded : Guarded s.dir sz) {x : Nat} (fits : x < 2 ^ 32)
    (outside : sz ≤ x ∨ x / PGSIZE = sz / PGSIZE - (USTACK_PAGES + 1)) :
    ¬ s.dir.Usable L (x / PGSIZE) := by
  rintro ⟨e, here, user, -⟩
  rcases outside with high | guard
  · by_cases kernel : KERNPAGE ≤ x / PGSIZE
    · have inside : x / PGSIZE < NPAGES := by
        simp only [PGSIZE, NPAGES] at *
        omega
      rw [guarded.closed _ inside e here kernel] at user
      cases user
    · have after : pgroundup sz ≤ x / PGSIZE := by
        have := guarded.whole
        simp only [pgroundup, PGSIZE] at *
        omega
      rw [guarded.ends _ (Nat.not_le.mp kernel) after] at here
      cases here
  · obtain ⟨pa, guarded⟩ := guarded.guard
    rw [guard, guarded] at here
    cases here
    cases user

theorem down_eq (below : sz < KERNBASE) (inside : sp ≤ sz) (aligned : sp % 4 = 0) (pos : 0 < len)
    (fits : room len ≤ sp) : down sp len / 4 * 4 = sp - room len := by
  simp only [down, room, KERNBASE] at *
  omega

/-- What does not fit on the stack has a byte that the user cannot use. -/
theorem exists_unusable (guarded : Guarded s.dir sz) (low : bottom sz ≤ sp) (inside : sp ≤ sz)
    (aligned : sp % 4 = 0) (pos : 0 < len) (large : sp < bottom sz + room len) :
    ∃ i < len, down sp len / 4 * 4 + i < 2 ^ 32 ∧
      ¬ s.dir.Usable L ((down sp len / 4 * 4 + i) / PGSIZE) := by
  have whole := guarded.whole
  have stack := guarded.stack
  have below := guarded.below
  have start : down sp len < 2 ^ 32 := Nat.mod_lt _ (by decide)
  by_cases wraps : len ≤ sp
  · -- The string goes through the guard page or ends in it.
    have place : down sp len / 4 * 4 = sp - room len := down_eq below inside aligned pos (by
      simp only [room]
      omega)
    rw [place]
    refine ⟨bottom sz - PGSIZE - (sp - room len), ?_, ?_, guarded.unusable ?_ (.inr ?_)⟩ <;>
      simp only [room, bottom, PGSIZE, USTACK_PAGES, KERNBASE] at * <;> omega
  · refine ⟨sz - down sp len / 4 * 4, ?_, ?_, guarded.unusable ?_ (.inl ?_)⟩ <;>
      simp only [room, bottom, down, PGSIZE, USTACK_PAGES, KERNBASE] at * <;> omega

theorem copyout_fits (guarded : Guarded s.dir sz) (ok : s.Ok L shared) (inside : sp ≤ sz)
    {buf : List UInt8} (fits : bottom sz + room buf.length ≤ sp) (ram : Ram) :
    ∃ ram', copyoutRam L (sp - room buf.length) buf s ram = (true, (s, ram')) ∧
      s.dir.Reads ram' (sp - room buf.length) buf ∧
      ∀ x < KERNBASE, sp ≤ x ∨ x < sp - room buf.length →
        s.dir.byteAt ram' x = s.dir.byteAt ram x := by
  have below := guarded.below
  have more : buf.length ≤ room buf.length := by
    simp only [room]
    omega
  obtain ⟨ram', done, reads⟩ := copyoutRam_done ok
    (show sp - room buf.length + buf.length ≤ KERNBASE by omega)
    (fun i less => guarded.usable ok (by omega) (by omega)) ram
  refine ⟨ram', done, fun i less => ?_, fun x high apart => ?_⟩
  · rw [reads _ (by omega), if_pos (by omega), Nat.add_sub_cancel_left]
  · rw [reads x high, if_neg (by omega)]

theorem copyout_large (guarded : Guarded s.dir sz) (ok : s.Ok L shared) (low : bottom sz ≤ sp)
    (inside : sp ≤ sz) (aligned : sp % 4 = 0) {buf : List UInt8} (pos : 0 < buf.length)
    (large : sp < bottom sz + room buf.length) (ram : Ram) :
    (copyoutRam L (down sp buf.length / 4 * 4) buf s ram).1 = false := by
  obtain ⟨i, less, fits, bad⟩ := exists_unusable (L := L) guarded low inside aligned pos large
  have first := congrArg Prod.fst (copyoutRam_fst L (down sp buf.length / 4 * 4) buf s ram)
  rw [← Bool.not_eq_true]
  intro done
  have start : down sp buf.length < 2 ^ 32 := Nat.mod_lt _ (by decide)
  exact bad (usable_of_copyout ok (by omega) (first.symm.trans done) i less fits)

end Push

/-- The addresses of the arguments, pushed one below the other. -/
def places : Nat → List (List UInt8) → List Nat
  | _, [] => []
  | sp, arg :: rest =>
    (sp - room (arg.length + 1)) :: places (sp - room (arg.length + 1)) rest

def depth : List (List UInt8) → Nat
  | [] => 0
  | arg :: rest => room (arg.length + 1) + depth rest

def Fits (argv : List (List UInt8)) : Prop :=
  argv.length ≤ MAXARG ∧ depth argv + (3 + argv.length + 1) * 4 ≤ USTACK_PAGES * PGSIZE

instance (argv : List (List UInt8)) : Decidable (Fits argv) := inferInstanceAs (Decidable (_ ∧ _))

theorem depth_mod_four (argv : List (List UInt8)) : depth argv % 4 = 0 := by
  induction argv with
  | nil => rfl
  | cons arg rest ih =>
    simp only [depth, room]
    omega

@[simp] theorem length_places (sp : Nat) (argv : List (List UInt8)) :
    (places sp argv).length = argv.length := by
  induction argv generalizing sp with
  | nil => rfl
  | cons arg rest ih => simp only [places, List.length_cons, ih]

/-- The arguments lie at their places, each followed by a zero and all below `sp`. -/
def Laid (d : Dir) (ram : Ram) : Nat → List (List UInt8) → Prop
  | _, [] => True
  | sp, arg :: rest =>
    d.Reads ram (sp - room (arg.length + 1)) (arg ++ [0]) ∧
      Laid d ram (sp - room (arg.length + 1)) rest

theorem Laid.mono {d : Dir} {ram ram' : Ram} {sp low : Nat} {argv : List (List UInt8)}
    (laid : Laid d ram sp argv) (fits : low + depth argv ≤ sp) (below : sp ≤ KERNBASE)
    (same : ∀ x < KERNBASE, low ≤ x → d.byteAt ram' x = d.byteAt ram x) : Laid d ram' sp argv := by
  induction argv generalizing sp with
  | nil => trivial
  | cons arg rest ih =>
    rw [depth] at fits
    have more : arg.length + 1 ≤ room (arg.length + 1) := by
      simp only [room]
      omega
    refine ⟨fun i less => ?_, ih laid.2 (by omega) (by omega)⟩
    rw [List.length_append, List.length_singleton] at less
    rw [same _ (by omega) (by omega)]
    exact laid.1 i (by rw [List.length_append, List.length_singleton]; omega)

section Args

variable {L : Layout} {shared : Nat → Bool} {s : Space} {sz sp : Nat}

theorem pushArgsRam_cases (guarded : Guarded s.dir sz) (ok : s.Ok L shared)
    (argv : List (List UInt8)) (ustack : List Nat) (ram : Ram) (few : ustack.length ≤ MAXARG)
    (low : bottom sz ≤ sp) (inside : sp ≤ sz) (aligned : sp % 4 = 0) :
    (ustack.length + argv.length ≤ MAXARG ∧ bottom sz + depth argv ≤ sp ∧
      ∃ ram', pushArgsRam L argv ustack sp s ram =
          (some (ustack ++ places sp argv, sp - depth argv), (s, ram')) ∧
        Laid s.dir ram' sp argv ∧ ∀ x < KERNBASE, sp ≤ x → s.dir.byteAt ram' x = s.dir.byteAt ram x) ∨
    (¬ (ustack.length + argv.length ≤ MAXARG ∧ bottom sz + depth argv ≤ sp) ∧
      (pushArgsRam L argv ustack sp s ram).1 = none) := by
  induction argv generalizing ustack sp ram with
  | nil =>
    refine .inl ⟨by rw [List.length_nil]; omega, by rw [depth, Nat.add_zero]; exact low,
      ram, ?_, trivial, fun _ _ _ => rfl⟩
    rw [pushArgsRam, places, List.append_nil, depth, Nat.sub_zero]
  | cons arg rest ih =>
    have below := guarded.below
    have size : (arg ++ [0]).length = arg.length + 1 := List.length_append
    have whole : arg.length + 1 ≤ room (arg.length + 1) ∧ room (arg.length + 1) % 4 = 0 := by
      simp only [room]
      omega
    rw [pushArgsRam, depth, List.length_cons]
    by_cases full : ustack.length ≥ MAXARG
    · rw [if_pos full]
      exact .inr ⟨by omega, rfl⟩
    · rw [if_neg full]
      by_cases fits : bottom sz + room (arg.length + 1) ≤ sp
      · have place : down sp (arg.length + 1) / 4 * 4 = sp - room (arg.length + 1) :=
          down_eq below inside aligned (Nat.succ_pos _) (by omega)
        obtain ⟨ram₁, copied, reads, same⟩ :=
          copyout_fits guarded ok inside
            (show bottom sz + room (arg ++ [0]).length ≤ sp by rw [size]; exact fits) ram
        rw [size] at copied reads same
        dsimp only
        rw [place, copied]
        dsimp only
        have next : (ustack ++ [sp - room (arg.length + 1)]).length = ustack.length + 1 :=
          List.length_append
        rcases ih (ustack ++ [sp - room (arg.length + 1)]) ram₁ (by omega)
          (show bottom sz ≤ sp - room (arg.length + 1) by omega) (by omega) (by omega) with
          ⟨count, more, ram', done, laid, kept⟩ | ⟨not, none⟩
        · refine .inl ⟨by omega, by omega, ram', ?_, ⟨fun i less => ?_, laid⟩, fun x high above => ?_⟩
          · rw [done, List.append_assoc, List.singleton_append, places, Nat.sub_sub]
          · rw [kept _ (by rw [size] at less; omega) (by omega)]
            exact reads i less
          · rw [kept x high (by omega), same x high (.inl above)]
        · refine .inr ⟨fun both => not ⟨by omega, by omega⟩, none⟩
      · have failed := copyout_large guarded ok low inside aligned
          (show 0 < (arg ++ [0]).length by omega) (by rw [size]; omega) ram
        rw [size] at failed
        refine .inr ⟨fun both => fits (by omega), ?_⟩
        dsimp only
        generalize copyoutRam L _ (arg ++ [0]) s ram = r at failed
        obtain ⟨copied, m⟩ := r
        cases copied with
        | false => rfl
        | true => cases failed

/-- The arguments and `ustack` are pushed if they fit, and only then. -/
theorem pushStackRam_cases (guarded : Guarded s.dir sz) (ok : s.Ok L shared)
    (argv : List (List UInt8)) (ram : Ram) :
    (Fits argv ∧ ∃ ram' esp, esp + (3 + argv.length + 1) * 4 + depth argv = sz ∧ bottom sz ≤ esp ∧
      pushStackRam L argv sz s ram = (some esp, (s, ram')) ∧ Laid s.dir ram' sz argv ∧
      s.dir.Reads ram' esp (words ([0xffffffff, argv.length, esp + 12] ++ places sz argv ++ [0]))) ∨
    (¬ Fits argv ∧ (pushStackRam L argv sz s ram).1 = none) := by
  have below := guarded.below
  have stack := guarded.stack
  have whole := guarded.whole
  have low : bottom sz ≤ sz := Nat.sub_le ..
  have floor : bottom sz + USTACK_PAGES * PGSIZE = sz := by
    simp only [bottom, PGSIZE, USTACK_PAGES] at *
    omega
  have aligned : sz % 4 = 0 := by
    simp only [PGSIZE] at whole
    omega
  rcases pushArgsRam_cases guarded ok argv [] ram (Nat.zero_le _) low le_rfl aligned with
    ⟨few, fits, ram₁, pushed, laid, -⟩ | ⟨not, none⟩
  · have few : argv.length ≤ MAXARG := by rwa [List.length_nil, Nat.zero_add] at few
    have multiple := depth_mod_four argv
    rw [List.nil_append] at pushed
    generalize place : sz - depth argv = sp at pushed
    generalize size : (3 + argv.length + 1) * 4 = len
    have words4 : room len = len := by
      simp only [room]
      omega
    have small : len ≤ sp := by
      simp only [bottom, MAXARG, PGSIZE, USTACK_PAGES] at *
      omega
    have vector : down sp ((argv.length + 1) * 4) = sp - len + 12 := by
      simp only [down, KERNBASE] at *
      omega
    have esp : down sp len = sp - len := by
      simp only [down, KERNBASE] at *
      omega
    generalize stacked : words ([0xffffffff, argv.length, sp - len + 12] ++ places sz argv ++ [0]) = buf
    have bytes : buf.length = len := by
      rw [← stacked, length_words, ← size]
      simp only [List.length_append, List.length_cons, List.length_nil, length_places]
    have step : pushStackRam L argv sz s ram =
        (if (copyoutRam L (sp - len) buf s ram₁).1 then some (sp - len) else none,
          (copyoutRam L (sp - len) buf s ram₁).2) := by
      rw [pushStackRam, pushed]
      dsimp only
      rw [length_places, size, vector, esp, stacked]
      generalize copyoutRam L (sp - len) buf s ram₁ = r
      obtain ⟨copied, m⟩ := r
      cases copied <;> rfl
    by_cases fit : bottom sz + len ≤ sp
    · obtain ⟨ram', copied, reads, same⟩ := copyout_fits guarded ok (show sp ≤ sz by omega)
        (show bottom sz + room buf.length ≤ sp by rw [bytes, words4]; exact fit) ram₁
      rw [bytes, words4] at copied reads same
      refine .inl ⟨⟨few, by omega⟩, ram', sp - len, by omega, by omega, by rw [step, copied]; rfl, ?_, ?_⟩
      · exact laid.mono (show sp + depth argv ≤ sz by omega) (by omega) fun x high above =>
          same x high (.inl above)
      · rw [stacked]
        exact reads
    · have failed := copyout_large guarded ok (show bottom sz ≤ sp by omega) (by omega) (by omega)
        (show 0 < buf.length by omega) (by rw [bytes, words4]; omega) ram₁
      rw [bytes, esp, show (sp - len) / 4 * 4 = sp - len by omega] at failed
      refine .inr ⟨fun both => fit ?_, ?_⟩
      · have := both.2
        omega
      · rw [step]
        generalize copyoutRam L _ buf s ram₁ = r at failed
        obtain ⟨copied, m⟩ := r
        cases copied with
        | false => rfl
        | true => cases failed
  · refine .inr ⟨fun both => not ⟨?_, ?_⟩, ?_⟩
    · rw [List.length_nil, Nat.zero_add]
      exact both.1
    · have := both.2
      omega
    · rw [pushStackRam]
      generalize pushArgsRam L argv [] sz s ram = r at none
      obtain ⟨place, m⟩ := r
      cases place with
      | none => rfl
      | some place => cases none

end Args

/-- The stack of a program with `sz` bytes of memory that starts with the stack pointer `esp`.
`args` are the addresses of the arguments. -/
structure ArgsAt (d : Dir) (ram : Ram) (sz esp : Nat) (argv : List (List UInt8)) (args : List Nat) :
    Prop where
  count : args.length = argv.length
  /-- Copies that end in a zero. -/
  copies : ∀ i < argv.length, d.Reads ram (args.getD i 0) (argv.getD i [] ++ [0])
  disjoint : ∀ i j, i < j → j < argv.length →
    args.getD j 0 + ((argv.getD j []).length + 1) ≤ args.getD i 0
  above : ∀ i < argv.length, esp + (3 + argv.length + 1) * 4 ≤ args.getD i 0 ∧
    args.getD i 0 + ((argv.getD i []).length + 1) ≤ sz
  /-- The vector, which ends in 0. -/
  vector : d.Reads ram (esp + 12) (words (args ++ [0]))
  /-- The return address, `argc` and the address of the vector. -/
  frame : d.Reads ram esp (words [0xffffffff, argv.length, esp + 12])
  inside : bottom sz ≤ esp ∧ esp + (3 + argv.length + 1) * 4 ≤ sz
  /-- The user can use the pages of the stack. -/
  usable : ∀ x, bottom sz ≤ x → x < sz → ∃ e, d.lookup (x / PGSIZE) = some e ∧ e.perm.u = true
  /-- The page below is the guard page. -/
  guard : ∃ e, d.lookup (bottom sz / PGSIZE - 1) = some e ∧ e.perm.u = false

variable {ram : Ram} {argv : List (List UInt8)} {i sp : Nat}

theorem Dir.Reads.append {d : Dir} {va : Nat} {first second : List UInt8}
    (reads : d.Reads ram va (first ++ second)) :
    d.Reads ram va first ∧ d.Reads ram (va + first.length) second := by
  refine ⟨fun i less => ?_, fun i less => ?_⟩
  · rw [reads i (by rw [List.length_append]; omega), List.getD_append _ _ _ _ less]
  · rw [Nat.add_assoc, reads _ (by rw [List.length_append]; omega),
      List.getD_append_right _ _ _ _ (Nat.le_add_right ..), Nat.add_sub_cancel_left]

theorem words_append (first second : List Nat) : words (first ++ second) = words first ++ words second :=
  List.flatMap_append

/-- An argument ends below the stack pointer of its push, and the place of the next is below. -/
theorem places_below (fits : depth argv ≤ sp) (inside : i < argv.length) :
    sp - depth argv ≤ (places sp argv).getD i 0 ∧
      (places sp argv).getD i 0 + ((argv.getD i []).length + 1) ≤ sp := by
  induction argv generalizing sp i with
  | nil => exact absurd inside (Nat.not_lt_zero i)
  | cons arg rest ih =>
    rw [depth] at fits
    have more : arg.length + 1 ≤ room (arg.length + 1) := by
      simp only [room]
      omega
    rw [places, depth]
    cases i with
    | zero =>
      simp only [List.getD_cons_zero]
      omega
    | succ i =>
      simp only [List.getD_cons_succ]
      have := ih (show depth rest ≤ sp - room (arg.length + 1) by omega)
        (Nat.lt_of_succ_lt_succ inside)
      omega

theorem places_disjoint {j : Nat} (fits : depth argv ≤ sp) (less : i < j)
    (inside : j < argv.length) :
    (places sp argv).getD j 0 + ((argv.getD j []).length + 1) ≤ (places sp argv).getD i 0 := by
  induction argv generalizing sp i j with
  | nil => exact absurd inside (Nat.not_lt_zero j)
  | cons arg rest ih =>
    rw [depth] at fits
    rw [places]
    cases j with
    | zero => exact absurd less (Nat.not_lt_zero i)
    | succ j =>
      have inside := Nat.lt_of_succ_lt_succ inside
      cases i with
      | zero =>
        simp only [List.getD_cons_zero, List.getD_cons_succ]
        exact (places_below (by omega) inside).2
      | succ i =>
        simp only [List.getD_cons_succ]
        exact ih (by omega) (Nat.lt_of_succ_lt_succ less) inside

theorem Laid.reads {d : Dir} (laid : Laid d ram sp argv) (inside : i < argv.length) :
    d.Reads ram ((places sp argv).getD i 0) (argv.getD i [] ++ [0]) := by
  induction argv generalizing sp i with
  | nil => exact absurd inside (Nat.not_lt_zero i)
  | cons arg rest ih =>
    rw [places]
    cases i with
    | zero => exact laid.1
    | succ i => exact ih laid.2 (Nat.lt_of_succ_lt_succ inside)

theorem argsAt_of_pushed {L : Layout} {shared : Nat → Bool} {s : Space} {sz esp : Nat} {ram' : Ram}
    (guarded : Guarded s.dir sz) (ok : s.Ok L shared)
    (pushed : pushStackRam L argv sz s ram = (some esp, (s, ram'))) :
    Fits argv ∧ ArgsAt s.dir ram' sz esp argv (places sz argv) := by
  rcases pushStackRam_cases guarded ok argv ram with
    ⟨fits, _, _, total, low, done, laid, reads⟩ | ⟨-, none⟩
  · rw [pushed] at done
    cases done
    rw [List.append_assoc, words_append] at reads
    obtain ⟨frame, vector⟩ := reads.append
    obtain ⟨pa, guard⟩ := guarded.guard
    have place : sz / PGSIZE - (USTACK_PAGES + 1) = bottom sz / PGSIZE - 1 := by
      have whole := guarded.whole
      have stack := guarded.stack
      simp only [bottom, PGSIZE, USTACK_PAGES] at *
      omega
    rw [place] at guard
    refine ⟨fits, length_places .., fun i inside => laid.reads inside,
      fun i j less inside => places_disjoint (by omega) less inside, fun i inside => ?_, ?_, frame,
      ⟨low, by omega⟩, fun x low high => ?_, ⟨_, guard, rfl⟩⟩
    · have := places_below (show depth argv ≤ sz by omega) inside
      omega
    · rwa [length_words] at vector
    · obtain ⟨e, here, user, -⟩ := guarded.usable ok low high
      exact ⟨e, here, user⟩
  · rw [pushed] at none
    cases none

/-- A successful `exec` leaves the arguments on the stack of the new program. If the arguments
do not fit, `exec` does not succeed: it returns -1, unless a segment that is not aligned stops
the machine before. -/
theorem exec_arguments (L : Layout) (sys : Sys) (cur : Slot) (path : List UInt8)
    (file : Option (List UInt8)) (argv : List (List UInt8)) (ram : Ram) (sound : sys.Sound L)
    (live : (sys.proc cur).state ≠ .unused) (has : (sys.proc cur).pgdir ≠ none) :
    (∀ sys' ram', execRam L cur path file argv sys ram = .ok 0 (sys', ram') →
      ∃ d args, (sys'.proc cur).pgdir = some d ∧
        ArgsAt d ram' (sys'.proc cur).sz (sys'.proc cur).tf.esp argv args) ∧
    (¬ Fits argv → (∀ value m, execRam L cur path file argv sys ram = .ok value m → value = -1) ∧
      ((∀ bytes ∈ file, Loadable L bytes sys.kmem) →
        ∃ m, execRam L cur path file argv sys ram = .ok (-1) m)) := by
  obtain ⟨old, has⟩ := Option.ne_none_iff_exists'.mp has
  cases file with
  | none =>
    refine ⟨fun _ _ done => (by cases done), fun _ => ⟨fun _ _ done => ?_, fun _ => ⟨_, rfl⟩⟩⟩
    cases done
    rfl
  | some file =>
    rcases makeImage_spec file argv sound.free with ⟨not, kmem, halted⟩ |
      ⟨-, image, kmem, made, built⟩ | ⟨-, kmem, failed, -⟩
    · have stops : ∃ m, execRam L cur path (some file) argv sys ram = .halt .unaligned m := by
        simp only [execRam, exec, halted, Outcome.mapState]
        exact ⟨_, rfl⟩
      obtain ⟨m, stops⟩ := stops
      rw [stops]
      exact ⟨fun _ _ same => (by cases same),
        fun _ => ⟨fun _ _ same => (by cases same), fun fine => absurd (fine file rfl) not⟩⟩
    · obtain ⟨sys', done, execs⟩ := exec_commits sound live has path made built
      obtain ⟨ram', loaded⟩ := exists_makeImageRam made ram
      obtain ⟨guarded, ok, ram₁, pushed⟩ := makeImageRam_pushed sound.free loaded
      obtain ⟨fits, args⟩ := argsAt_of_pushed guarded ok pushed
      have whole : execRam L cur path (some file) argv sys ram = .ok 0 (sys', ram') := by
        rw [execRam, done, loaded]
        rfl
      rw [whole]
      refine ⟨fun _ _ same => ?_, fun large => absurd fits large⟩
      cases same
      have self : sys'.proc cur = (sys.proc cur).commit path image := by
        rw [execs.proc, Function.update_self]
      rw [self]
      exact ⟨image.dir, _, rfl, args⟩
    · have fails : ∃ m, execRam L cur path (some file) argv sys ram = .ok (-1) m := by
        simp only [execRam, exec, failed, Outcome.mapState]
        exact ⟨_, rfl⟩
      obtain ⟨m, fails⟩ := fails
      rw [fails]
      refine ⟨fun _ _ same => (by cases same), fun _ => ⟨fun _ _ same => ?_, fun _ => ⟨m, rfl⟩⟩⟩
      cases same
      rfl

/-- A file without segments leaves only the stack to make. -/
theorem loadImage_eq {L : Layout} {shared : Nat → Bool} {file : List UInt8} {elf : ElfHdr}
    {s t u : Space} {newsz esp : Nat} (none : elf.phnum = 0)
    (stacked : makeStack L shared 0 s = .ok (some newsz) t)
    (pushed : pushStack L argv newsz t = (some esp, u)) :
    loadImage L shared file elf argv s = .ok (some (newsz, esp)) u := by
  rw [loadImage, none, loadSegments, Outcome.bind_ok]
  simp only [stacked, Outcome.bind_ok, pushed]

/-- A file without segments has an image whenever the arguments fit. -/
theorem makeImage_fits {L : Layout} {shared : Nat → Bool} {kmem : Kmem} {file : List UInt8}
    (header : HasHeader file) (none : (elfhdr (file.take 52)).phnum = 0)
    (affords : kmem.Affords L (USTACK_PAGES + 1))
    (ok : ∀ page, kmem.tally page ≤ allowed L shared page) (fits : Fits argv) :
    ∃ image kmem', makeImage L shared file argv kmem = .ok (some image) kmem' ∧
      Built L shared kmem ⟨kmem', image.dir⟩ image.sz := by
  have enough : kmem.Supplied (1 + kernelTables L) := affords.mono (Nat.le_add_right _ _)
  have zero : pgroundup 0 = 0 := by decide
  rcases setupkvm_spec ok with ⟨-, d, rest, made, fresh⟩ | ⟨refused, -⟩
  · obtain ⟨b, closed⟩ := setupkvm_building ok made
    rcases makeStack_spec b with ⟨newsz, t, stacked, built, -⟩ | ⟨t, -, -, refused⟩
    · have none' : loadSegments L shared file 0 0 0 ⟨rest, d⟩ = .ok (some 0) ⟨rest, d⟩ := rfl
      have guarded := (stack_guarded b closed none' stacked).1
      rcases pushStackRam_cases guarded built.ok argv (fun _ _ => 0) with
        ⟨-, ram, esp, -, -, pushed, -⟩ | ⟨large, -⟩
      · have pushed := (pushStackRam_fst ..).symm.trans (congrArg (Prod.map id Prod.fst) pushed)
        refine ⟨⟨t.dir, newsz, (elfhdr (file.take 52)).entry, esp⟩, t.kmem, ?_, built⟩
        rw [makeImage, readi_header]
        dsimp only
        rw [if_neg (by rw [List.length_take]; have := header.1; omega),
          if_neg (not_not.mpr header.2), made, Outcome.bind_ok]
        simp only [loadImage_eq none stacked pushed]
      · exact absurd fits large
    · rw [zero, Nat.zero_add] at refused
      exact absurd ⟨by decide, affords⟩ refused
  · exact absurd enough refused

theorem not_fits_of_length {arg : List UInt8} (large : USTACK_PAGES * PGSIZE ≤ arg.length) :
    ¬ Fits [arg] := by
  intro fits
  have small := fits.2
  simp only [depth, room, List.length_singleton] at small
  omega

/-- A program gets the argument `hi`, and one of 65536 bytes is refused. -/
theorem exec_arguments_hi : ∃ sys p sys' ram ram' d args m,
    userinit machine (Sys.idle memory) = .ok () sys ∧
    execRam machine p [] (some (elfFile 0 [])) [[104, 105]] sys ram = .ok 0 (sys', ram') ∧
    (sys'.proc p).pgdir = some d ∧
    ArgsAt d ram' (sys'.proc p).sz (sys'.proc p).tf.esp [[104, 105]] args ∧
    execRam machine p [] (some (elfFile 0 [])) [List.replicate 65536 1] sys ram = .ok (-1) m := by
  obtain ⟨sys, p, old, done, first, enough⟩ := booted
  have live : (sys.proc p).state ≠ .unused := by
    rw [first.state]
    nofun
  have has : (sys.proc p).pgdir ≠ none := by
    rw [first.pgdir]
    nofun
  obtain ⟨image, kmem, made, built⟩ := makeImage_fits (hasHeader_elfFile 0 []) rfl
    (enough.mono (by decide)) first.sound.free (show Fits [[104, 105]] by decide)
  obtain ⟨sys', ran, -⟩ := exec_commits first.sound live first.pgdir [] made built
  have whole : ∃ ram', execRam machine p [] (some (elfFile 0 [])) [[104, 105]] sys (fun _ _ => 0) =
      .ok 0 (sys', ram') := by
    rw [execRam, ran, Outcome.mapState]
    exact ⟨_, rfl⟩
  obtain ⟨ram', whole⟩ := whole
  have large : ¬ Fits [List.replicate 65536 1] :=
    not_fits_of_length (by rw [List.length_replicate]; decide)
  have loadable : ∀ bytes ∈ some (elfFile 0 []), Loadable machine bytes sys.kmem := by
    rintro _ ⟨⟩ _ _
    trivial
  obtain ⟨d, args, pgdir, stack⟩ := (exec_arguments machine sys p [] (some (elfFile 0 []))
    [[104, 105]] (fun _ _ => 0) first.sound live has).1 sys' ram' whole
  obtain ⟨m, refused⟩ := ((exec_arguments machine sys p [] (some (elfFile 0 []))
    [List.replicate 65536 1] (fun _ _ => 0) first.sound live has).2 large).2 loadable
  exact ⟨sys, p, sys', _, ram', d, args, m, done, whole, pgdir, stack, refused⟩

end SirpairOs.Mem
