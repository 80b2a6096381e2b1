import SirpairOs.Lib.Program
import SirpairOs.Mem.Kalloc

/-! Page tables (`kernel/vm.c`). Virtual and physical pages go by number, so `k` stands
for the address `k * PGSIZE`. A directory owns its page tables and is a value here: two
directories never share a table, and the checks of the source for that case are kept. -/
namespace SirpairOs.Mem

inductive Panic where
  | remap
  | phystopTooHigh
  | kmap2BadPhystop
  | kfree
  /-- `loaduvm: addr must be page aligned` -/
  | unaligned
  /-- `loaduvm: address should exist` -/
  | addressShouldExist
  | clearpteu
  /-- `copyuvm: pte should exist` -/
  | pteShouldExist
  /-- `copyuvm: page not present` -/
  | pageNotPresent
  /-- `switchuvm: no pgdir`, `freevm: no pgdir` -/
  | noPgdir
  | initExiting
  /-- `userinit: out of memory?` -/
  | userinit
  /-- A null pointer is used. -/
  | fault
  deriving DecidableEq, Repr

def PGSIZE : Nat := 4096
def NPDENTRIES : Nat := 1024
def NPTENTRIES : Nat := 1024
def KERNBASE : Nat := 0x80000000
def PHYSTOP : Nat := 0x70000000

def KERNPAGE : Nat := 0x80000

/-- `PGROUNDUP(a) / PGSIZE` -/
def pgroundup (a : Nat) : Nat := (a + (PGSIZE - 1)) / PGSIZE

structure Layout where
  /-- `V2P(data)` -/
  data : Nat
  /-- `V2P(PGROUNDUP(end))` -/
  kend : Nat
  phystop : Nat
  linked : 0x100 < data
  room : data < phystop
  low : phystop ≤ 0x70000

/-- The test that `kfree` makes, and that others make before they call it. -/
def Layout.valid (L : Layout) (page : Nat) : Bool :=
  page ≠ 0 ∧ L.kend ≤ page ∧ page < L.phystop

structure Perm where
  w : Bool
  u : Bool
  pwt : Bool
  pcd : Bool
  deriving DecidableEq, Repr

/-- A present entry of a page table, with the bits `PTE_A` and `PTE_D` of the processor. -/
structure Pte where
  page : Nat
  perm : Perm
  a : Bool
  d : Bool
  deriving DecidableEq, Repr

structure Table where
  page : Nat
  pte : Fin NPTENTRIES → Option Pte

structure Dir where
  page : Nat
  pde : Fin NPDENTRIES → Option Table

def pdx (k : Nat) : Fin NPDENTRIES := ⟨k / NPTENTRIES % NPDENTRIES, Nat.mod_lt _ (by decide)⟩

def ptx (k : Nat) : Fin NPTENTRIES := ⟨k % NPTENTRIES, Nat.mod_lt _ (by decide)⟩

namespace Dir

def lookup (d : Dir) (k : Nat) : Option Pte := (d.pde (pdx k)).bind fun t => t.pte (ptx k)

def setPde (d : Dir) (i : Fin NPDENTRIES) (t : Option Table) : Dir :=
  { d with pde := Function.update d.pde i t }

/-- Writes through the pointer that `walkpgdir` has returned. -/
def setPte (d : Dir) (k : Nat) (e : Option Pte) : Dir :=
  match d.pde (pdx k) with
  | none => d
  | some t => d.setPde (pdx k) (some { t with pte := Function.update t.pte (ptx k) e })

end Dir

structure Space where
  kmem : Kmem
  dir : Dir

def Space.setPte (s : Space) (k : Nat) (e : Option Pte) : Space :=
  { s with dir := s.dir.setPte k e }

/-- The second half of `walkpgdir`: there is no page table yet. -/
def makeTable (alloc : Bool) (k : Nat) (s : Space) : Bool × Space :=
  if alloc then
    match s.kmem.kalloc with
    | (none, kmem) => (false, { s with kmem := kmem })
    | (some page, kmem) => (true, ⟨kmem, s.dir.setPde (pdx k) (some ⟨page, fun _ => none⟩)⟩)
  else (false, s)

/-- `walkpgdir`. An entry of the directory that points nowhere is cleared. -/
def walkpgdir (L : Layout) (alloc : Bool) (k : Nat) (s : Space) : Bool × Space :=
  match s.dir.pde (pdx k) with
  | none => makeTable alloc k s
  | some t =>
    if L.valid t.page then (true, s)
    else makeTable alloc k { s with dir := s.dir.setPde (pdx k) none }

/-- One round of the loop of `mappages`; `false` is the result `-1`. -/
def mapPage (L : Layout) (perm : Perm) (k pa : Nat) (s : Space) : Outcome Panic Space Bool :=
  match walkpgdir L true k s with
  | (false, s) => .ok false s
  | (true, s) =>
    match s.dir.lookup k with
    | none => .ok true (s.setPte k (some ⟨pa, perm, false, false⟩))
    | some old =>
      if old.page = pa ∧ old.perm = perm then .ok true s
      else if old.page = pa ∨ KERNPAGE ≤ k then
        .ok true (s.setPte k (some ⟨pa, perm, old.a, old.d⟩))
      else .halt .remap s

/-- `mappages` for the page `k` and the `n` pages that follow it. -/
def mappages (L : Layout) (perm : Perm) : Nat → Nat → Nat → Space → Outcome Panic Space Bool
  | 0, k, pa, s => mapPage L perm k pa s
  | n + 1, k, pa, s =>
    (mapPage L perm k pa s).bind fun mapped s =>
      if mapped then mappages L perm n (k + 1) (pa + 1) s else .ok false s

/-- The first page behind those of a page table. -/
def nextTable (k : Nat) : Nat := (k / NPTENTRIES + 1) * NPTENTRIES

theorem lt_nextTable (k : Nat) : k < nextTable k := by
  simp only [nextTable, NPTENTRIES]
  omega

/-- Clears the entry of a page and frees the page. The test in front of `kfree` is the one
that `kfree` makes. -/
def dropPage (L : Layout) (k : Nat) (s : Space) : Space :=
  match s.dir.lookup k with
  | none => s
  | some e =>
    let s := s.setPte k none
    if L.valid e.page then { s with kmem := s.kmem.kfree e.page } else s

/-- The loop of `deallocuvm`, from page `k`. `shared` says of a page whether it is a page
table of another process. -/
def deallocLoop (L : Layout) (shared : Nat → Bool) (stop k : Nat) (s : Space) : Space :=
  if k < stop then
    -- `a < 0x4000`
    if k < 4 then deallocLoop L shared stop (k + 1) s
    else
      match s.dir.pde (pdx k) with
      | none => deallocLoop L shared stop (nextTable k) s
      | some t =>
        if t.page ≠ 0 ∧ shared t.page then deallocLoop L shared stop (nextTable k) s
        else if L.valid t.page = false then
          deallocLoop L shared stop (nextTable k) { s with dir := s.dir.setPde (pdx k) none }
        else deallocLoop L shared stop (k + 1) (dropPage L k s)
  else s
termination_by stop - k
decreasing_by
  all_goals
    have := lt_nextTable k
    omega

def deallocuvm (L : Layout) (shared : Nat → Bool) (oldsz newsz : Nat) (s : Space) : Nat × Space :=
  if newsz ≥ oldsz then (oldsz, s)
  else (newsz, deallocLoop L shared (pgroundup oldsz) (pgroundup newsz) s)

def kfree (L : Layout) (page : Nat) (kmem : Kmem) : Outcome Panic Kmem Unit :=
  if L.valid page then .ok () (kmem.kfree page) else .halt .kfree kmem

/-- Frees a page table, in the loop of `freevm`. -/
def freeTable (L : Layout) (shared : Nat → Bool) (s : Space) (i : Fin NPDENTRIES) : Space :=
  match s.dir.pde i with
  | none => s
  | some t =>
    let s := { s with dir := s.dir.setPde i none }
    if L.valid t.page = false then s
    else if i.val < KERNPAGE / NPTENTRIES ∧ shared t.page then s
    else { s with kmem := s.kmem.kfree t.page }

def freevm (L : Layout) (shared : Nat → Bool) (s : Space) : Outcome Panic Kmem Unit :=
  let s := (deallocuvm L shared KERNBASE 0 s).2
  let s := (List.finRange NPDENTRIES).foldl (freeTable L shared) s
  kfree L s.dir.page s.kmem

structure Kmap where
  virt : Nat
  phys : Nat
  count : Nat
  perm : Perm

def kmap (L : Layout) : List Kmap :=
  [⟨KERNPAGE, 0, 0x100, ⟨true, false, true, true⟩⟩,
    ⟨KERNPAGE + 0x100, 0x100, L.data - 0x100, ⟨false, false, false, false⟩⟩,
    ⟨KERNPAGE + L.data, L.data, L.phystop - L.data, ⟨true, false, false, false⟩⟩,
    ⟨0xf0000, 0xf0000, 0x10000, ⟨true, false, true, true⟩⟩]

def mapAll (L : Layout) : List Kmap → Space → Outcome Panic Space Bool
  | [], s => .ok true s
  | m :: rest, s =>
    (mappages L m.perm (m.count - 1) m.virt m.phys s).bind fun mapped s =>
      if mapped then mapAll L rest s else .ok false s

def setupkvm (L : Layout) (shared : Nat → Bool) (kmem : Kmem) : Outcome Panic Kmem (Option Dir) :=
  match kmem.kalloc with
  | (none, kmem) => .ok none kmem
  | (some page, kmem) =>
    if KERNPAGE + L.phystop > 0xf0000 then .halt .phystopTooHigh (kmem.kfree page)
    else if L.phystop ≤ L.data then .halt .kmap2BadPhystop (kmem.kfree page)
    else
      match mapAll L (kmap L) ⟨kmem, ⟨page, fun _ => none⟩⟩ with
      | .ok true s => .ok (some s.dir) s.kmem
      | .ok false s => (freevm L shared s).bind fun _ kmem => .ok none kmem
      | .halt why s => .halt why s.kmem

def userPerm : Perm := ⟨true, true, false, false⟩

/-- The loop of `allocuvm` for `n` pages from page `k` on; 0 is the failure. -/
def allocLoop (L : Layout) (shared : Nat → Bool) (oldsz newsz : Nat) :
    Nat → Nat → Space → Outcome Panic Space Nat
  | 0, _, s => .ok newsz s
  | n + 1, k, s =>
    match s.kmem.kalloc with
    | (none, kmem) => .ok 0 (deallocuvm L shared newsz oldsz { s with kmem := kmem }).2
    | (some mem, kmem) =>
      (mappages L userPerm 0 k mem { s with kmem := kmem }).bind fun mapped s =>
        if mapped then allocLoop L shared oldsz newsz n (k + 1) s
        else
          match kfree L mem s.kmem with
          | .ok _ kmem => .ok 0 (deallocuvm L shared newsz oldsz { s with kmem := kmem }).2
          | .halt why kmem => .halt why { s with kmem := kmem }

def allocuvm (L : Layout) (shared : Nat → Bool) (oldsz newsz : Nat) (s : Space) :
    Outcome Panic Space Nat :=
  if newsz ≥ KERNBASE then .ok 0 s
  else if newsz < oldsz then .ok oldsz s
  else allocLoop L shared oldsz newsz (pgroundup newsz - pgroundup oldsz) (pgroundup oldsz) s

/-- `inituvm`. What `mappages` returns is ignored. -/
def inituvm (L : Layout) (s : Space) : Outcome Panic Space Unit :=
  match s.kmem.kalloc with
  | (none, kmem) => .halt .fault { s with kmem := kmem }
  | (some mem, kmem) =>
    (mappages L userPerm 0 0 mem { s with kmem := kmem }).bind fun _ s => .ok () s

def clearpteu (L : Layout) (k : Nat) (s : Space) : Outcome Panic Space Unit :=
  match walkpgdir L false k s with
  | (false, s) => .halt .clearpteu s
  | (true, s) =>
    .ok () (s.setPte k ((s.dir.lookup k).map fun e => { e with perm := { e.perm with u := false } }))

/-- The loop of `copyuvm` for `n` pages from page `k` on. A page that cannot be mapped is
not freed. -/
def copyLoop (L : Layout) (parent : Dir) : Nat → Nat → Space → Outcome Panic Space Bool
  | 0, _, s => .ok true s
  | n + 1, k, s =>
    match (walkpgdir L false k { s with dir := parent }).1, parent.lookup k with
    | false, _ => .halt .pteShouldExist s
    | true, none => .halt .pageNotPresent s
    | true, some _ =>
      match s.kmem.kalloc with
      | (none, kmem) => .ok false { s with kmem := kmem }
      | (some mem, kmem) =>
        (mappages L userPerm 0 k mem { s with kmem := kmem }).bind fun mapped s =>
          if mapped then copyLoop L parent n (k + 1) s else .ok false s

def copyuvm (L : Layout) (shared : Nat → Bool) (parent : Dir) (sz : Nat) (kmem : Kmem) :
    Outcome Panic Kmem (Option Dir) :=
  if sz ≥ KERNBASE then .ok none kmem
  else
    (setupkvm L shared kmem).bind fun dir kmem =>
      match dir with
      | none => .ok none kmem
      | some dir =>
        match copyLoop L parent (pgroundup sz) 0 ⟨kmem, dir⟩ with
        | .ok true s => .ok (some s.dir) s.kmem
        | .ok false s => (freevm L shared s).bind fun _ kmem => .ok none kmem
        | .halt why s => .halt why s.kmem

/-- `uva2ka`, which says here only whether there is an address. -/
def uva2ka (L : Layout) (k : Nat) (s : Space) : Bool × Space :=
  match walkpgdir L false k s with
  | (false, s) => (false, s)
  | (true, s) => ((s.dir.lookup k).any fun e => e.perm.u && L.valid e.page, s)

/-- `copyout` of `len` bytes to address `va`. -/
def copyout (L : Layout) (va len : Nat) (s : Space) : Bool × Space :=
  if 0 < len then
    match uva2ka L (va / PGSIZE) s with
    | (false, s) => (false, s)
    | (true, s) =>
      copyout L ((va / PGSIZE + 1) * PGSIZE % 2 ^ 32) (len - (PGSIZE - va % PGSIZE)) s
  else (true, s)
termination_by len
decreasing_by
  have := Nat.mod_lt va (show 0 < PGSIZE by decide)
  omega

end SirpairOs.Mem
