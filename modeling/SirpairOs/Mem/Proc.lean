import SirpairOs.Fs.Param
import SirpairOs.Mem.Vm

/-! Processes and their memory: `growproc`, `fork`, `exit` and `wait` (`kernel/proc.c`) and
`exec` (`kernel/exec.c`). Open files and directories are left out, and so is what the pages
hold. -/
namespace SirpairOs.Mem

def MAXARG : Nat := 32
def USTACK_PAGES : Nat := 16
def ELF_MAGIC : Nat := 0x464c457f
def ELF_PROG_LOAD : Nat := 1

abbrev Slot : Type := Fin NPROC

inductive ProcState where
  | unused
  | embryo
  | sleeping
  | runnable
  | running
  | zombie
  deriving DecidableEq, Repr

structure TrapFrame where
  eip : Nat
  esp : Nat
  eax : Nat
  deriving DecidableEq, Repr

structure Proc where
  state : ProcState
  pid : Nat
  sz : Nat
  pgdir : Option Dir
  kstack : Option Nat
  parent : Option Slot
  killed : Bool
  tf : TrapFrame
  name : List UInt8

structure Sys where
  kmem : Kmem
  proc : Slot → Proc
  nextpid : Nat
  initproc : Slot

namespace Sys

def setProc (sys : Sys) (p : Slot) (q : Proc) : Sys :=
  { sys with proc := Function.update sys.proc p q }

/-- `pgdir_user_pt_shared_with_other`: another process than the one with the directory
`owner` has the page for a page table. A directory in the making belongs to no process. -/
def shared (sys : Sys) (owner : Option Nat) (page : Nat) : Bool :=
  page ≠ 0 ∧ ∃ p, (sys.proc p).state ≠ .unused ∧ ∃ d ∈ (sys.proc p).pgdir, owner ≠ some d.page ∧
    ∃ i : Fin NPDENTRIES, i.val < KERNPAGE / NPTENTRIES ∧ ∃ t ∈ d.pde i, t.page = page

end Sys

def pgdirShareUserPt (a b : Dir) : Bool :=
  ∃ i : Fin NPDENTRIES, i.val < KERNPAGE / NPTENTRIES ∧
    ∃ ta ∈ a.pde i, ∃ tb ∈ b.pde i, ta.page ≠ 0 ∧ ta.page = tb.page

def switchuvm (p : Slot) (sys : Sys) : Outcome Panic Sys Unit :=
  match (sys.proc p).pgdir with
  | none => .halt .noPgdir sys
  | some _ => .ok () sys

/-- `growproc` up to the new size; `none` is the result `-1`. -/
def growSpace (L : Layout) (shared : Nat → Bool) (sz : Nat) (n : Int) (s : Space) :
    Outcome Panic Space (Option Nat) :=
  if n > 0 then
    let newsz := (sz + n.toNat) % 2 ^ 32
    if newsz < sz ∨ newsz ≥ KERNBASE then .ok none s
    else
      (allocuvm L shared sz newsz s).bind fun sz s =>
        if sz = 0 then .ok none s else .ok (some sz) s
  else if n < 0 then
    if n = -2147483648 then .ok none s
    else
      let absn := (-n).toNat
      if sz ≤ absn then .ok none s
      else
        let (sz, s) := deallocuvm L shared sz (sz - absn) s
        .ok (some sz) s
  else .ok (some sz) s

def growproc (L : Layout) (cur : Slot) (n : Int) (sys : Sys) : Outcome Panic Sys Int :=
  match (sys.proc cur).pgdir with
  | none => .halt .noPgdir sys
  | some dir =>
    let p := sys.proc cur
    match growSpace L (sys.shared (some dir.page)) p.sz n ⟨sys.kmem, dir⟩ with
    | .halt why s => .halt why ({ sys with kmem := s.kmem }.setProc cur { p with pgdir := some s.dir })
    | .ok none s =>
      .ok (-1) ({ sys with kmem := s.kmem }.setProc cur { p with pgdir := some s.dir })
    | .ok (some sz) s =>
      let sys := { sys with kmem := s.kmem }.setProc cur { p with pgdir := some s.dir, sz := sz }
      (switchuvm cur sys).bind fun _ sys => .ok 0 sys

/-- `sys_sbrk` with the argument `n` -/
def sysSbrk (L : Layout) (cur : Slot) (n : Int) (sys : Sys) : Outcome Panic Sys Int :=
  let addr := (sys.proc cur).sz
  (growproc L cur n sys).bind fun value sys => if value < 0 then .ok (-1) sys else .ok addr sys

def allocproc (sys : Sys) : Option Slot × Sys :=
  match (List.finRange NPROC).find? fun p => (sys.proc p).state = .unused with
  | none => (none, sys)
  | some p =>
    let q := { sys.proc p with state := .embryo, pid := sys.nextpid }
    let sys := { sys with nextpid := sys.nextpid + 1 }
    match sys.kmem.kalloc with
    | (none, kmem) =>
      (none, { sys with kmem := kmem }.setProc p { q with kstack := none, state := .unused })
    | (some page, kmem) => (some p, { sys with kmem := kmem }.setProc p { q with kstack := some page })

def userinit (L : Layout) (sys : Sys) : Outcome Panic Sys Unit :=
  match allocproc sys with
  | (none, sys) => .halt .fault sys
  | (some p, sys) =>
    let sys := { sys with initproc := p }
    match setupkvm L (sys.shared none) sys.kmem with
    | .halt why kmem => .halt why { sys with kmem := kmem }
    | .ok none kmem => .halt .userinit { sys with kmem := kmem }
    | .ok (some dir) kmem =>
      match inituvm L ⟨kmem, dir⟩ with
      | .halt why s => .halt why { sys with kmem := s.kmem }
      | .ok _ s =>
        .ok () ({ sys with kmem := s.kmem }.setProc p { sys.proc p with
          pgdir := some s.dir, sz := PGSIZE, tf := ⟨0, PGSIZE, 0⟩,
          name := [0x69, 0x6e, 0x69, 0x74, 0x63, 0x6f, 0x64, 0x65], state := .runnable })

/-- `kfree` of a kernel stack; it leaves a null pointer alone. -/
def freeStack (L : Layout) (kstack : Option Nat) (kmem : Kmem) : Outcome Panic Kmem Unit :=
  match kstack with
  | none => .ok () kmem
  | some page => kfree L page kmem

/-- `fork` gives up the child `np`, whose directory is already freed. -/
def abandon (L : Layout) (np : Slot) (sys : Sys) : Outcome Panic Sys Int :=
  match freeStack L (sys.proc np).kstack sys.kmem with
  | .halt why kmem => .halt why { sys with kmem := kmem }
  | .ok _ kmem =>
    .ok (-1) ({ sys with kmem := kmem }.setProc np
      { sys.proc np with kstack := none, pgdir := none, state := .unused })

def fork (L : Layout) (cur : Slot) (sys : Sys) : Outcome Panic Sys Int :=
  match allocproc sys with
  | (none, sys) => .ok (-1) sys
  | (some np, sys) =>
    let p := sys.proc cur
    match p.pgdir with
    | none => .halt .noPgdir sys
    | some parent =>
      match copyuvm L (sys.shared none) parent p.sz sys.kmem with
      | .halt why kmem => .halt why { sys with kmem := kmem }
      | .ok none kmem => abandon L np { sys with kmem := kmem }
      | .ok (some child) kmem =>
        let sys := { sys with kmem := kmem }
        if child.page = parent.page then
          match freeStack L (sys.proc np).kstack sys.kmem with
          | .halt why kmem => .halt why { sys with kmem := kmem }
          | .ok _ kmem =>
            .ok (-1) ({ sys with kmem := kmem }.setProc np
              { sys.proc np with kstack := none, pgdir := some child, state := .unused })
        else if pgdirShareUserPt parent child then
          match freevm L (sys.shared (some child.page)) ⟨sys.kmem, child⟩ with
          | .halt why kmem => .halt why { sys with kmem := kmem }
          | .ok _ kmem => abandon L np { sys with kmem := kmem }
        else
          .ok (sys.proc np).pid (sys.setProc np { sys.proc np with
            pgdir := some child, sz := p.sz, parent := some cur,
            tf := { p.tf with eax := 0 }, state := .runnable, name := p.name })

/-- `exit`: the children pass to `init`. -/
def exit (p : Slot) (sys : Sys) : Outcome Panic Sys Unit :=
  if p = sys.initproc then .halt .initExiting sys
  else
    let orphans (q : Slot) : Proc :=
      if (sys.proc q).parent = some p then { sys.proc q with parent := some sys.initproc }
      else sys.proc q
    .ok () { sys with proc := Function.update orphans p { orphans p with state := .zombie } }

def reap (L : Layout) (cur p : Slot) (sys : Sys) : Outcome Panic Sys Nat :=
  let q := sys.proc p
  match freeStack L q.kstack sys.kmem with
  | .halt why kmem => .halt why { sys with kmem := kmem }
  | .ok _ kmem =>
    let sys := { sys with kmem := kmem }
    -- The directory is left alone if the parent uses it or one of its page tables.
    let zpgdir := q.pgdir.filter fun d =>
      (sys.proc cur).pgdir.all fun own => own.page ≠ d.page ∧ pgdirShareUserPt own d = false
    let done (kmem : Kmem) : Sys := { sys with kmem := kmem }.setProc p { q with
      kstack := none, pgdir := none, state := .unused, pid := 0, parent := none, name := [],
      killed := false }
    match zpgdir with
    | none => .ok q.pid (done sys.kmem)
    | some d =>
      match freevm L (sys.shared (some d.page)) ⟨sys.kmem, d⟩ with
      | .halt why kmem => .halt why { sys with kmem := kmem }
      | .ok _ kmem => .ok q.pid (done kmem)

inductive Waited where
  | pid (n : Nat)
  | noChild
  | sleeps
  deriving DecidableEq, Repr

def wait (L : Layout) (cur : Slot) (sys : Sys) : Outcome Panic Sys Waited :=
  match (List.finRange NPROC).find? fun p =>
      (sys.proc p).parent = some cur ∧ (sys.proc p).state = .zombie with
  | some p => (reap L cur p sys).bind fun pid sys => .ok (.pid pid) sys
  | none =>
    if (∀ p, (sys.proc p).parent ≠ some cur) ∨ (sys.proc cur).killed then .ok .noChild sys
    else .ok .sleeps sys

/-- `readi` on a file that is no device. -/
def readi (file : List UInt8) (off n : Nat) : Option (List UInt8) :=
  if off > file.length ∨ (off + n) % 2 ^ 32 < off then none else some ((file.drop off).take n)

def readAll (file : List UInt8) (off n : Nat) : Option (List UInt8) :=
  (readi file off n).filter fun bytes => bytes.length = n

def field (header : List UInt8) (off len : Nat) : Nat := Bytes.leNat ((header.drop off).take len)

structure ElfHdr where
  magic : Nat
  entry : Nat
  phoff : Nat
  phnum : Nat

def elfhdr (bytes : List UInt8) : ElfHdr :=
  ⟨field bytes 0 4, field bytes 24 4, field bytes 28 4, field bytes 44 2⟩

structure ProgHdr where
  type : Nat
  off : Nat
  vaddr : Nat
  filesz : Nat
  memsz : Nat

def proghdr (bytes : List UInt8) : ProgHdr :=
  ⟨field bytes 0 4, field bytes 4 4, field bytes 8 4, field bytes 16 4, field bytes 20 4⟩

/-- The loop of `loaduvm` for `n` pages, from byte `j * PGSIZE` of the segment on. -/
def loadLoop (L : Layout) (file : List UInt8) (ph : ProgHdr) :
    Nat → Nat → Space → Outcome Panic Space Bool
  | 0, _, s => .ok true s
  | n + 1, j, s =>
    match walkpgdir L false (ph.vaddr / PGSIZE + j) s with
    | (false, s) => .halt .addressShouldExist s
    | (true, s) =>
      let n' := if ph.filesz - j * PGSIZE < PGSIZE then ph.filesz - j * PGSIZE else PGSIZE
      match readAll file ((ph.off + j * PGSIZE) % 2 ^ 32) n' with
      | none => .ok false s
      | some _ => loadLoop L file ph n (j + 1) s

/-- `loaduvm`; `false` is the result `-1`. -/
def loaduvm (L : Layout) (file : List UInt8) (ph : ProgHdr) (s : Space) :
    Outcome Panic Space Bool :=
  if ph.vaddr % PGSIZE ≠ 0 then .halt .unaligned s
  else loadLoop L file ph (pgroundup ph.filesz) 0 s

/-- The end of a segment, if it lies in the user's part. -/
def segend (ph : ProgHdr) : Option Nat :=
  if ph.memsz < ph.filesz then none
  else
    let segend := (ph.vaddr + ph.memsz) % 2 ^ 32
    if segend < ph.vaddr ∨ segend > KERNBASE then none else some segend

/-- The loop over `n` program headers from `off` on. -/
def loadSegments (L : Layout) (shared : Nat → Bool) (file : List UInt8) :
    Nat → Nat → Nat → Space → Outcome Panic Space (Option Nat)
  | 0, _, sz, s => .ok (some sz) s
  | n + 1, off, sz, s =>
    match readAll file off 32 with
    | none => .ok none s
    | some bytes =>
      let ph := proghdr bytes
      if ph.type ≠ ELF_PROG_LOAD then loadSegments L shared file n ((off + 32) % 2 ^ 32) sz s
      else
        match segend ph with
        | none => .ok none s
        | some segend =>
          (allocuvm L shared sz segend s).bind fun sz s =>
            if sz = 0 then .ok none s
            else
              (loaduvm L file ph s).bind fun loaded s =>
                if loaded then loadSegments L shared file n ((off + 32) % 2 ^ 32) sz s
                else .ok none s

def makeStack (L : Layout) (shared : Nat → Bool) (sz : Nat) (s : Space) :
    Outcome Panic Space (Option Nat) :=
  let sz := pgroundup sz * PGSIZE
  let newsz := (sz + (USTACK_PAGES + 1) * PGSIZE) % 2 ^ 32
  if newsz < sz ∨ newsz ≥ KERNBASE then .ok none s
  else
    (allocuvm L shared sz newsz s).bind fun sz s =>
      if sz = 0 then .ok none s
      else
        (clearpteu L (sz / PGSIZE - (USTACK_PAGES + 1)) s).bind fun _ s => .ok (some sz) s

def down (sp n : Nat) : Nat := (sp + 2 ^ 32 - n % 2 ^ 32) % 2 ^ 32

/-- Pushes the arguments; `argc` of them are there already. -/
def pushArgs (L : Layout) : List (List UInt8) → Nat → Nat → Space → Option (Nat × Nat) × Space
  | [], argc, sp, s => (some (argc, sp), s)
  | arg :: rest, argc, sp, s =>
    if argc ≥ MAXARG then (none, s)
    else
      -- `& ~3`
      let sp := down sp (arg.length + 1) / 4 * 4
      match copyout L sp (arg.length + 1) s with
      | (false, s) => (none, s)
      | (true, s) => pushArgs L rest (argc + 1) sp s

/-- The arguments and `ustack`; the result is the stack pointer. -/
def pushStack (L : Layout) (argv : List (List UInt8)) (sz : Nat) (s : Space) : Option Nat × Space :=
  match pushArgs L argv 0 sz s with
  | (none, s) => (none, s)
  | (some (argc, sp), s) =>
    let sp := down sp ((3 + argc + 1) * 4)
    match copyout L sp ((3 + argc + 1) * 4) s with
    | (false, s) => (none, s)
    | (true, s) => (some sp, s)

/-- From the empty directory to size and stack pointer of the new image. -/
def loadImage (L : Layout) (shared : Nat → Bool) (file : List UInt8) (elf : ElfHdr)
    (argv : List (List UInt8)) (s : Space) : Outcome Panic Space (Option (Nat × Nat)) :=
  (loadSegments L shared file elf.phnum elf.phoff 0 s).bind fun sz s =>
    match sz with
    | none => .ok none s
    | some sz =>
      (makeStack L shared sz s).bind fun sz s =>
        match sz with
        | none => .ok none s
        | some sz =>
          match pushStack L argv sz s with
          | (none, s) => .ok none s
          | (some sp, s) => .ok (some (sz, sp)) s

structure Image where
  dir : Dir
  sz : Nat
  eip : Nat
  esp : Nat

/-- `exec` up to the point where it commits; on failure the new directory is freed. Reading
from offset 0 does not fail. -/
def makeImage (L : Layout) (shared : Nat → Bool) (file : List UInt8) (argv : List (List UInt8))
    (kmem : Kmem) : Outcome Panic Kmem (Option Image) :=
  match readi file 0 52 with
  | none => .ok none kmem
  | some bytes =>
    let elf := elfhdr bytes
    if bytes.length < 52 then .ok none kmem
    else if elf.magic ≠ ELF_MAGIC then .ok none kmem
    else
      (setupkvm L shared kmem).bind fun dir kmem =>
        match dir with
        | none => .ok none kmem
        | some dir =>
          match loadImage L shared file elf argv ⟨kmem, dir⟩ with
          | .halt why s => .halt why s.kmem
          | .ok (some (sz, sp)) s => .ok (some ⟨s.dir, sz, elf.entry, sp⟩) s.kmem
          | .ok none s => (freevm L shared s).bind fun _ kmem => .ok none kmem

/-- What follows the last slash of the path, cut off for `proc->name`. -/
def lastName (path : List UInt8) : List UInt8 :=
  ((path.reverse.takeWhile fun c => c ≠ 47).reverse).take 15

/-- `exec`, where `namei(path)` has found the file or not. -/
def exec (L : Layout) (cur : Slot) (path : List UInt8) (file : Option (List UInt8))
    (argv : List (List UInt8)) (sys : Sys) : Outcome Panic Sys Int :=
  match file with
  | none => .ok (-1) sys
  | some file =>
    match makeImage L (sys.shared none) file argv sys.kmem with
    | .halt why kmem => .halt why { sys with kmem := kmem }
    | .ok none kmem => .ok (-1) { sys with kmem := kmem }
    | .ok (some image) kmem =>
      let p := sys.proc cur
      let sys := { sys with kmem := kmem }.setProc cur { p with
        name := lastName path, pgdir := some image.dir, sz := image.sz,
        tf := { p.tf with eip := image.eip, esp := image.esp } }
      match p.pgdir with
      | none => .halt .noPgdir sys
      | some old =>
        let parent := p.parent.bind fun q => (sys.proc q).pgdir
        if old.page = image.dir.page then .ok 0 sys
        else if parent.any fun d => pgdirShareUserPt old d then .ok 0 sys
        else
          match freevm L (sys.shared (some old.page)) ⟨sys.kmem, old⟩ with
          | .halt why kmem => .halt why { sys with kmem := kmem }
          | .ok _ kmem => .ok 0 { sys with kmem := kmem }

end SirpairOs.Mem
