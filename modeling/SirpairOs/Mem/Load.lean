import SirpairOs.Mem.Ram

/-! `exec` with the bytes it writes. Each function is the one of `Mem.Vm` or `Mem.Proc`, with
the contents of the pages as a part of the state; a theorem beside it says so. What free pages
hold is left out. -/
namespace SirpairOs.Mem

/-- `memmove` into a page, from the offset `off` on. -/
def Ram.store (ram : Ram) (page off : Nat) (bytes : List UInt8) : Ram :=
  Function.update ram page fun i =>
    if off ≤ i ∧ i < off + bytes.length then bytes.getD (i - off) 0 else ram page i

def Ram.clear (ram : Ram) (page : Nat) : Ram := Function.update ram page fun _ => 0

def allocLoopRam (L : Layout) (shared : Nat → Bool) (oldsz newsz : Nat) :
    Nat → Nat → Space → Ram → Outcome Panic (Space × Ram) Nat
  | 0, _, s, ram => .ok newsz (s, ram)
  | n + 1, k, s, ram =>
    match s.kmem.kalloc with
    | (none, kmem) => .ok 0 ((deallocuvm L shared newsz oldsz { s with kmem := kmem }).2, ram)
    | (some mem, kmem) =>
      let ram := ram.clear mem
      ((mappages L userPerm 0 k mem { s with kmem := kmem }).mapState (·, ram)).bind
        fun mapped (s, ram) =>
          if mapped then allocLoopRam L shared oldsz newsz n (k + 1) s ram
          else
            match kfree L mem s.kmem with
            | .ok _ kmem => .ok 0 ((deallocuvm L shared newsz oldsz { s with kmem := kmem }).2, ram)
            | .halt why kmem => .halt why ({ s with kmem := kmem }, ram)

variable (L : Layout) (shared : Nat → Bool)

theorem allocLoopRam_fst (oldsz newsz n k : Nat) (s : Space) (ram : Ram) :
    (allocLoopRam L shared oldsz newsz n k s ram).mapState Prod.fst =
      allocLoop L shared oldsz newsz n k s := by
  induction n generalizing k s ram with
  | zero => rfl
  | succ n ih =>
    rw [allocLoopRam, allocLoop]
    generalize s.kmem.kalloc = given
    obtain ⟨mem, kmem⟩ := given
    cases mem with
    | none => rfl
    | some mem =>
      refine (Outcome.mapState_bind fun mapped t => ?_).trans (congrArg (Outcome.bind · _)
        ((Outcome.mapState_mapState ..).trans (Outcome.mapState_id _)))
      obtain ⟨t, ram⟩ := t
      cases mapped with
      | true => exact ih (k + 1) t ram
      | false =>
        dsimp only
        rw [if_neg Bool.false_ne_true, if_neg Bool.false_ne_true]
        cases kfree L mem t.kmem <;> rfl

def allocuvmRam (L : Layout) (shared : Nat → Bool) (oldsz newsz : Nat) (s : Space) (ram : Ram) :
    Outcome Panic (Space × Ram) Nat :=
  if newsz ≥ KERNBASE then .ok 0 (s, ram)
  else if newsz < oldsz then .ok oldsz (s, ram)
  else allocLoopRam L shared oldsz newsz (pgroundup newsz - pgroundup oldsz) (pgroundup oldsz) s ram

theorem allocuvmRam_fst (oldsz newsz : Nat) (s : Space) (ram : Ram) :
    (allocuvmRam L shared oldsz newsz s ram).mapState Prod.fst = allocuvm L shared oldsz newsz s := by
  rw [allocuvmRam, allocuvm]
  split_ifs
  · rfl
  · rfl
  · exact allocLoopRam_fst ..

/-- `readi` puts what it gets into the page of the entry, also when that is too little. -/
def loadLoopRam (L : Layout) (file : List UInt8) (ph : ProgHdr) :
    Nat → Nat → Space → Ram → Outcome Panic (Space × Ram) Bool
  | 0, _, s, ram => .ok true (s, ram)
  | n + 1, j, s, ram =>
    match walkpgdir L false (ph.vaddr / PGSIZE + j) s with
    | (false, s) => .halt .addressShouldExist (s, ram)
    | (true, s) =>
      let n' := if ph.filesz - j * PGSIZE < PGSIZE then ph.filesz - j * PGSIZE else PGSIZE
      let pa := (s.dir.lookup (ph.vaddr / PGSIZE + j)).elim 0 Pte.page
      let ram := ram.store pa 0 ((readi file ((ph.off + j * PGSIZE) % 2 ^ 32) n').getD [])
      match readAll file ((ph.off + j * PGSIZE) % 2 ^ 32) n' with
      | none => .ok false (s, ram)
      | some _ => loadLoopRam L file ph n (j + 1) s ram

variable (file : List UInt8)

theorem loadLoopRam_fst (ph : ProgHdr) (n j : Nat) (s : Space) (ram : Ram) :
    (loadLoopRam L file ph n j s ram).mapState Prod.fst = loadLoop L file ph n j s := by
  induction n generalizing j s ram with
  | zero => rfl
  | succ n ih =>
    rw [loadLoopRam, loadLoop]
    generalize walkpgdir L false (ph.vaddr / PGSIZE + j) s = walked
    obtain ⟨present, t⟩ := walked
    cases present with
    | false => rfl
    | true =>
      dsimp only
      generalize readAll file _ _ = got
      cases got with
      | none => rfl
      | some bytes => exact ih (j + 1) t _

def loaduvmRam (L : Layout) (file : List UInt8) (ph : ProgHdr) (s : Space) (ram : Ram) :
    Outcome Panic (Space × Ram) Bool :=
  if ph.vaddr % PGSIZE ≠ 0 then .halt .unaligned (s, ram)
  else loadLoopRam L file ph (pgroundup ph.filesz) 0 s ram

theorem loaduvmRam_fst (ph : ProgHdr) (s : Space) (ram : Ram) :
    (loaduvmRam L file ph s ram).mapState Prod.fst = loaduvm L file ph s := by
  rw [loaduvmRam, loaduvm]
  split_ifs
  · rfl
  · exact loadLoopRam_fst ..

def loadSegmentsRam (L : Layout) (shared : Nat → Bool) (file : List UInt8) :
    Nat → Nat → Nat → Space → Ram → Outcome Panic (Space × Ram) (Option Nat)
  | 0, _, sz, s, ram => .ok (some sz) (s, ram)
  | n + 1, off, sz, s, ram =>
    match readAll file off 32 with
    | none => .ok none (s, ram)
    | some bytes =>
      let ph := proghdr bytes
      if ph.type ≠ ELF_PROG_LOAD then
        loadSegmentsRam L shared file n ((off + 32) % 2 ^ 32) sz s ram
      else
        match segend ph with
        | none => .ok none (s, ram)
        | some segend =>
          (allocuvmRam L shared sz segend s ram).bind fun sz (s, ram) =>
            if sz = 0 then .ok none (s, ram)
            else
              (loaduvmRam L file ph s ram).bind fun loaded (s, ram) =>
                if loaded then loadSegmentsRam L shared file n ((off + 32) % 2 ^ 32) sz s ram
                else .ok none (s, ram)

theorem loadSegmentsRam_fst (n off sz : Nat) (s : Space)
    (ram : Ram) : (loadSegmentsRam L shared file n off sz s ram).mapState Prod.fst =
      loadSegments L shared file n off sz s := by
  induction n generalizing off sz s ram with
  | zero => rfl
  | succ n ih =>
    rw [loadSegmentsRam, loadSegments]
    cases readAll file off 32 with
    | none => rfl
    | some bytes =>
      dsimp only
      split_ifs
      · exact ih ..
      · cases segend (proghdr bytes) with
        | none => rfl
        | some e =>
          refine (Outcome.mapState_bind fun sz t => ?_).trans
            (congrArg (Outcome.bind · _) (allocuvmRam_fst ..))
          split_ifs
          · rfl
          · refine (Outcome.mapState_bind fun loaded t => ?_).trans
              (congrArg (Outcome.bind · _) (loaduvmRam_fst ..))
            cases loaded with
            | true => exact ih ..
            | false => rfl

def makeStackRam (L : Layout) (shared : Nat → Bool) (sz : Nat) (s : Space) (ram : Ram) :
    Outcome Panic (Space × Ram) (Option Nat) :=
  let sz := pgroundup sz * PGSIZE
  let newsz := (sz + (USTACK_PAGES + 1) * PGSIZE) % 2 ^ 32
  if newsz < sz ∨ newsz ≥ KERNBASE then .ok none (s, ram)
  else
    (allocuvmRam L shared sz newsz s ram).bind fun sz (s, ram) =>
      if sz = 0 then .ok none (s, ram)
      else
        ((clearpteu L (sz / PGSIZE - (USTACK_PAGES + 1)) s).mapState (·, ram)).bind
          fun _ (s, ram) => .ok (some sz) (s, ram)

theorem makeStackRam_fst (sz : Nat) (s : Space) (ram : Ram) :
    (makeStackRam L shared sz s ram).mapState Prod.fst = makeStack L shared sz s := by
  rw [makeStackRam, makeStack]
  split_ifs
  · rfl
  · refine (Outcome.mapState_bind fun sz t => ?_).trans
      (congrArg (Outcome.bind · _) (allocuvmRam_fst ..))
    dsimp only
    split_ifs
    · rfl
    · cases clearpteu L (sz / PGSIZE - (USTACK_PAGES + 1)) t.1 <;> rfl

def uva2kaRam (L : Layout) (k : Nat) (s : Space) : Option Nat × Space :=
  match walkpgdir L false k s with
  | (false, s) => (none, s)
  | (true, s) =>
    (((s.dir.lookup k).filter fun e => e.perm.u && L.valid e.page).map Pte.page, s)

theorem uva2ka_eq (k : Nat) (s : Space) :
    uva2ka L k s = ((uva2kaRam L k s).1.isSome, (uva2kaRam L k s).2) := by
  rw [uva2ka, uva2kaRam]
  generalize walkpgdir L false k s = walked
  obtain ⟨present, t⟩ := walked
  cases present with
  | false => rfl
  | true =>
    dsimp only
    cases t.dir.lookup k with
    | none => rfl
    | some e =>
      rw [Option.any_some, Option.filter_some]
      split_ifs with fine
      · rw [fine]
        rfl
      · rw [Bool.not_eq_true] at fine
        rw [fine]
        rfl

def copyoutRam (L : Layout) (va : Nat) (buf : List UInt8) (s : Space) (ram : Ram) :
    Bool × (Space × Ram) :=
  if 0 < buf.length then
    match uva2kaRam L (va / PGSIZE) s with
    | (none, s) => (false, (s, ram))
    | (some page, s) =>
      copyoutRam L ((va / PGSIZE + 1) * PGSIZE % 2 ^ 32) (buf.drop (PGSIZE - va % PGSIZE)) s
        (ram.store page (va % PGSIZE) (buf.take (PGSIZE - va % PGSIZE)))
  else (true, (s, ram))
termination_by buf.length
decreasing_by
  have := Nat.mod_lt va (show 0 < PGSIZE by decide)
  rw [List.length_drop]
  omega

theorem copyoutRam_fst (va : Nat) (buf : List UInt8) (s : Space) (ram : Ram) :
    (copyoutRam L va buf s ram).map id Prod.fst = copyout L va buf.length s := by
  fun_induction copyoutRam L va buf s ram with
  | case1 va buf s ram some t none =>
    rw [copyout, if_pos some, uva2ka_eq, none]
    rfl
  | case2 va buf s ram some page t found ih =>
    rw [copyout, if_pos some, uva2ka_eq, found, ih, List.length_drop]
    rfl
  | case3 va buf s ram none =>
    rw [copyout, if_neg none]
    rfl

/-- `ustack` holds the addresses of the arguments that are there already. -/
def pushArgsRam (L : Layout) :
    List (List UInt8) → List Nat → Nat → Space → Ram → Option (List Nat × Nat) × (Space × Ram)
  | [], ustack, sp, s, ram => (some (ustack, sp), (s, ram))
  | arg :: rest, ustack, sp, s, ram =>
    if ustack.length ≥ MAXARG then (none, (s, ram))
    else
      let sp := down sp (arg.length + 1) / 4 * 4
      match copyoutRam L sp (arg ++ [0]) s ram with
      | (false, m) => (none, m)
      | (true, (s, ram)) => pushArgsRam L rest (ustack ++ [sp]) sp s ram

variable (argv : List (List UInt8))

theorem pushArgsRam_fst (ustack : List Nat) (sp : Nat) (s : Space) (ram : Ram) :
    (pushArgsRam L argv ustack sp s ram).map (Option.map (Prod.map List.length id)) Prod.fst =
      pushArgs L argv ustack.length sp s := by
  induction argv generalizing ustack sp s ram with
  | nil => rfl
  | cons arg rest ih =>
    have copied := copyoutRam_fst L (down sp (arg.length + 1) / 4 * 4) (arg ++ [0]) s ram
    rw [List.length_append, List.length_singleton] at copied
    rw [pushArgsRam, pushArgs]
    split_ifs
    · rfl
    · dsimp only
      rw [← copied]
      generalize copyoutRam L _ (arg ++ [0]) s ram = r
      obtain ⟨copied, t, ram'⟩ := r
      cases copied with
      | false => rfl
      | true =>
        refine (ih ..).trans ?_
        rw [List.length_append]
        rfl

def words (values : List Nat) : List UInt8 := values.flatMap (Bytes.leBytes 4)

theorem length_words (values : List Nat) : (words values).length = values.length * 4 := by
  induction values with
  | nil => rfl
  | cons value rest ih =>
    rw [words, List.flatMap_cons, List.length_append, Bytes.length_leBytes, List.length_cons]
    rw [words] at ih
    omega

def pushStackRam (L : Layout) (argv : List (List UInt8)) (sz : Nat) (s : Space) (ram : Ram) :
    Option Nat × (Space × Ram) :=
  match pushArgsRam L argv [] sz s ram with
  | (none, m) => (none, m)
  | (some (args, sp), (s, ram)) =>
    let argc := args.length
    let ustack := [0xffffffff, argc, down sp ((argc + 1) * 4)] ++ args ++ [0]
    let sp := down sp ((3 + argc + 1) * 4)
    match copyoutRam L sp (words ustack) s ram with
    | (false, m) => (none, m)
    | (true, m) => (some sp, m)

theorem pushStackRam_fst (sz : Nat) (s : Space) (ram : Ram) :
    (pushStackRam L argv sz s ram).map id Prod.fst = pushStack L argv sz s := by
  have pushed := pushArgsRam_fst L argv [] sz s ram
  rw [List.length_nil] at pushed
  rw [pushStackRam, pushStack, ← pushed]
  generalize pushArgsRam L argv [] sz s ram = r
  obtain ⟨pushed, t, ram'⟩ := r
  cases pushed with
  | none => rfl
  | some place =>
    obtain ⟨args, sp⟩ := place
    have copied := copyoutRam_fst L (down sp ((3 + args.length + 1) * 4))
      (words ([0xffffffff, args.length, down sp ((args.length + 1) * 4)] ++ args ++ [0])) t ram'
    rw [length_words] at copied
    have size : ([0xffffffff, args.length, down sp ((args.length + 1) * 4)] ++ args ++ [0]).length =
        3 + args.length + 1 := by
      simp only [List.length_append, List.length_cons, List.length_nil]
    rw [size] at copied
    dsimp only [Prod.map, Option.map, id]
    rw [← copied]
    generalize copyoutRam L _ (words _) t ram' = r
    obtain ⟨copied, m⟩ := r
    cases copied <;> rfl

def loadImageRam (L : Layout) (shared : Nat → Bool) (file : List UInt8) (elf : ElfHdr)
    (argv : List (List UInt8)) (s : Space) (ram : Ram) :
    Outcome Panic (Space × Ram) (Option (Nat × Nat)) :=
  (loadSegmentsRam L shared file elf.phnum elf.phoff 0 s ram).bind fun sz (s, ram) =>
    match sz with
    | none => .ok none (s, ram)
    | some sz =>
      (makeStackRam L shared sz s ram).bind fun sz (s, ram) =>
        match sz with
        | none => .ok none (s, ram)
        | some sz =>
          match pushStackRam L argv sz s ram with
          | (none, m) => .ok none m
          | (some sp, m) => .ok (some (sz, sp)) m

theorem loadImageRam_fst (elf : ElfHdr) (argv : List (List UInt8)) (s : Space) (ram : Ram) :
    (loadImageRam L shared file elf argv s ram).mapState Prod.fst =
      loadImage L shared file elf argv s := by
  rw [loadImageRam, loadImage]
  refine (Outcome.mapState_bind fun sz t => ?_).trans
    (congrArg (Outcome.bind · _) (loadSegmentsRam_fst ..))
  cases sz with
  | none => rfl
  | some sz =>
    refine (Outcome.mapState_bind fun sz t => ?_).trans
      (congrArg (Outcome.bind · _) (makeStackRam_fst ..))
    cases sz with
    | none => rfl
    | some sz =>
      dsimp only
      rw [← pushStackRam_fst L argv sz t.1 t.2]
      generalize pushStackRam L argv sz t.1 t.2 = r
      obtain ⟨sp, m⟩ := r
      cases sp <;> rfl

def makeImageRam (L : Layout) (shared : Nat → Bool) (file : List UInt8) (argv : List (List UInt8))
    (kmem : Kmem) (ram : Ram) : Outcome Panic (Kmem × Ram) (Option Image) :=
  match readi file 0 52 with
  | none => .ok none (kmem, ram)
  | some bytes =>
    let elf := elfhdr bytes
    if bytes.length < 52 then .ok none (kmem, ram)
    else if elf.magic ≠ ELF_MAGIC then .ok none (kmem, ram)
    else
      ((setupkvm L shared kmem).mapState (·, ram)).bind fun dir (kmem, ram) =>
        match dir with
        | none => .ok none (kmem, ram)
        | some dir =>
          match loadImageRam L shared file elf argv ⟨kmem, dir⟩ ram with
          | .halt why (s, ram) => .halt why (s.kmem, ram)
          | .ok (some (sz, sp)) (s, ram) => .ok (some ⟨s.dir, sz, elf.entry, sp⟩) (s.kmem, ram)
          | .ok none (s, ram) =>
            ((freevm L shared s).mapState (·, ram)).bind fun _ m => .ok none m

theorem makeImageRam_fst
    (kmem : Kmem) (ram : Ram) : (makeImageRam L shared file argv kmem ram).mapState Prod.fst =
      makeImage L shared file argv kmem := by
  rw [makeImageRam, makeImage]
  cases readi file 0 52 with
  | none => rfl
  | some bytes =>
    dsimp only
    split_ifs
    · rfl
    · rfl
    · refine (Outcome.mapState_bind fun dir m => ?_).trans (congrArg (Outcome.bind · _)
        ((Outcome.mapState_mapState ..).trans (Outcome.mapState_id _)))
      cases dir with
      | none => rfl
      | some dir =>
        dsimp only
        rw [← loadImageRam_fst L shared file (elfhdr bytes) argv ⟨m.1, dir⟩ m.2]
        generalize loadImageRam L shared file (elfhdr bytes) argv ⟨m.1, dir⟩ m.2 = r
        cases r with
        | halt why t => rfl
        | ok place t =>
          cases place with
          | some place => rfl
          | none =>
            dsimp only [Outcome.mapState]
            cases freevm L shared t.1 <;> rfl

section Image

variable {L : Layout} {shared : Nat → Bool} {file : List UInt8} {argv : List (List UInt8)}
  {kmem kmem' : Kmem} {image : Image} {ram ram' : Ram}

theorem exists_makeImageRam (made : makeImage L shared file argv kmem = .ok (some image) kmem')
    (ram : Ram) :
    ∃ ram', makeImageRam L shared file argv kmem ram = .ok (some image) (kmem', ram') := by
  rw [← makeImageRam_fst L shared file argv kmem ram] at made
  obtain ⟨⟨_, ram'⟩, done, rfl⟩ := Outcome.mapState_eq_ok.mp made
  exact ⟨ram', done⟩

/-- `copyout` and what is made of it leave the page table alone. -/
theorem pushStackRam_look {s : Space} (ok : s.Ok L shared) (argv : List (List UInt8)) (sz : Nat)
    (ram : Ram) : (pushStackRam L argv sz s ram).2.1 = s := by
  have same := pushStack_look ok argv sz
  rwa [← pushStackRam_fst L argv sz s ram] at same

/-- A complete image: the stack has been made, and then the arguments have been pushed. -/
theorem makeImageRam_pushed (ok : ∀ page, kmem.tally page ≤ allowed L shared page)
    (made : makeImageRam L shared file argv kmem ram = .ok (some image) (kmem', ram')) :
    Guarded image.dir image.sz ∧ Space.Ok L shared ⟨kmem', image.dir⟩ ∧
      ∃ ram₁, pushStackRam L argv image.sz ⟨kmem', image.dir⟩ ram₁ =
        (some image.esp, (⟨kmem', image.dir⟩, ram')) := by
  rw [makeImageRam, readi_header] at made
  dsimp only at made
  split_ifs at made
  · cases made
  · cases made
  · obtain ⟨dir, m, prepared, made⟩ := Outcome.bind_eq_ok.mp made
    obtain ⟨rest, started, rfl⟩ := Outcome.mapState_eq_ok.mp prepared
    cases dir with
    | none => cases made
    | some d =>
      obtain ⟨b, closed⟩ := setupkvm_building ok started
      dsimp only at made
      split at made
      · cases made
      · rename_i sz sp s ram₂ loaded
        cases made
        obtain ⟨size, t, segments, loaded⟩ := Outcome.bind_eq_ok.mp loaded
        cases size with
        | none => cases loaded
        | some size =>
          obtain ⟨newsz, u, stacked, loaded⟩ := Outcome.bind_eq_ok.mp loaded
          cases newsz with
          | none => cases loaded
          | some newsz =>
            have segments := (loadSegmentsRam_fst ..).symm.trans
              (congrArg (Outcome.mapState Prod.fst) segments)
            have stacked := (makeStackRam_fst ..).symm.trans
              (congrArg (Outcome.mapState Prod.fst) stacked)
            obtain ⟨guarded, fine⟩ := stack_guarded b closed segments stacked
            have same := pushStackRam_look fine argv newsz u.2
            dsimp only at loaded
            split at loaded
            · cases loaded
            · rename_i pushed
              cases loaded
              rw [pushed] at same
              cases same
              exact ⟨guarded, fine, u.2, pushed⟩
      · obtain ⟨_, _, _, later⟩ := Outcome.bind_eq_ok.mp made
        cases later

end Image

/-- `exec` with the contents of the pages, which change while the new image is made. -/
def execRam (L : Layout) (cur : Slot) (path : List UInt8) (file : Option (List UInt8))
    (argv : List (List UInt8)) (sys : Sys) (ram : Ram) : Outcome Panic (Sys × Ram) Int :=
  (exec L cur path file argv sys).mapState (·, match file with
    | none => ram
    | some file => (makeImageRam L (sys.shared none) file argv sys.kmem ram).state.2)

end SirpairOs.Mem
