import SirpairOs.User.Disasm

/-! `user/objdump.c`, with the file that it has read as a list of bytes. A function gives
`none` where it looks at a byte that is not of the file. A pointer is its distance from the
beginning of the file, a number modulo 2^32 as the pointer is. -/
namespace SirpairOs.Objdump

abbrev Image := List UInt8

def byte (img : Image) (pos : UInt32) : Option UInt8 := img[pos.toNat]?

def half (img : Image) (pos : UInt32) : Option Nat := do
  let b0 ← byte img pos
  let b1 ← byte img (pos + 1)
  some (b0.toNat + b1.toNat * 2 ^ 8)

def word (img : Image) (pos : UInt32) : Option UInt32 := do
  let b0 ← byte img pos
  let b1 ← byte img (pos + 1)
  let b2 ← byte img (pos + 2)
  let b3 ← byte img (pos + 3)
  some (Disasm.word b0 b1 b2 b3)

def bytesAt (img : Image) (pos : UInt32) (n : Nat) : Option (List UInt8) :=
  (List.range n).mapM fun i => byte img (pos + UInt32.ofNat i)

def untilNul : List UInt8 → Option (List UInt8)
  | [] => none
  | b :: rest => if b = 0 then some [] else (untilNul rest).map (b :: ·)

/-- What `printf` shows for `%s`. -/
def string (img : Image) (pos : UInt32) : Option (List UInt8) := untilNul (img.drop pos.toNat)

structure Ehdr where
  ident : List UInt8
  entry : UInt32
  phoff : UInt32
  shoff : UInt32
  flags : UInt32
  phnum : Nat
  shnum : Nat
  shstrndx : Nat

def ehdr (img : Image) : Option Ehdr := do
  let ident ← bytesAt img 0 4
  let entry ← word img 24
  let phoff ← word img 28
  let shoff ← word img 32
  let flags ← word img 36
  let phnum ← half img 44
  let shnum ← half img 48
  let shstrndx ← half img 50
  some ⟨ident, entry, phoff, shoff, flags, phnum, shnum, shstrndx⟩

structure Phdr where
  type : UInt32
  offset : UInt32
  vaddr : UInt32
  paddr : UInt32
  align : UInt32

def phdr (img : Image) (eh : Ehdr) (i : Nat) : Option Phdr := do
  let type ← word img (eh.phoff + UInt32.ofNat (32 * i))
  let offset ← word img (eh.phoff + UInt32.ofNat (32 * i + 4))
  let vaddr ← word img (eh.phoff + UInt32.ofNat (32 * i + 8))
  let paddr ← word img (eh.phoff + UInt32.ofNat (32 * i + 12))
  let align ← word img (eh.phoff + UInt32.ofNat (32 * i + 28))
  some ⟨type, offset, vaddr, paddr, align⟩

structure Shdr where
  name : UInt32
  type : UInt32
  flags : UInt32
  addr : UInt32
  offset : UInt32
  size : UInt32
  link : UInt32
  addralign : UInt32

/-- The word at offset `k` of `sh[i]`. The code looks at some fields only. -/
def shWord (img : Image) (eh : Ehdr) (i k : Nat) : Option UInt32 :=
  word img (eh.shoff + UInt32.ofNat (40 * i + k))

def shName (img : Image) (eh : Ehdr) (i : Nat) : Option UInt32 := shWord img eh i 0
def shType (img : Image) (eh : Ehdr) (i : Nat) : Option UInt32 := shWord img eh i 4
def shFlags (img : Image) (eh : Ehdr) (i : Nat) : Option UInt32 := shWord img eh i 8
def shAddr (img : Image) (eh : Ehdr) (i : Nat) : Option UInt32 := shWord img eh i 12
def shOffset (img : Image) (eh : Ehdr) (i : Nat) : Option UInt32 := shWord img eh i 16
def shSize (img : Image) (eh : Ehdr) (i : Nat) : Option UInt32 := shWord img eh i 20
def shLink (img : Image) (eh : Ehdr) (i : Nat) : Option UInt32 := shWord img eh i 24
def shAddralign (img : Image) (eh : Ehdr) (i : Nat) : Option UInt32 := shWord img eh i 32

/-- All the fields that the code looks at for some options. -/
def shdr (img : Image) (eh : Ehdr) (i : Nat) : Option Shdr := do
  let name ← shName img eh i
  let type ← shType img eh i
  let flags ← shFlags img eh i
  let addr ← shAddr img eh i
  let offset ← shOffset img eh i
  let size ← shSize img eh i
  let link ← shLink img eh i
  let addralign ← shAddralign img eh i
  some ⟨name, type, flags, addr, offset, size, link, addralign⟩

structure Sym where
  name : UInt32
  value : UInt32
  size : UInt32

/-- `syms[j]` of the table at `pos`. -/
def symAt (img : Image) (pos : UInt32) (j : Nat) : Option Sym := do
  let name ← word img (pos + UInt32.ofNat (16 * j))
  let value ← word img (pos + UInt32.ofNat (16 * j + 4))
  let size ← word img (pos + UInt32.ofNat (16 * j + 8))
  some ⟨name, value, size⟩

def SHT_SYMTAB : UInt32 := 2
def SHT_STRTAB : UInt32 := 3
def SHT_NOBITS : UInt32 := 8
def SHT_DYNSYM : UInt32 := 11
def SHF_ALLOC : UInt32 := 2
def SHF_EXECINSTR : UInt32 := 4

inductive Row where
  | cannotRead
  | tooSmall
  | notElf
  | fileHeader (flags entry : UInt32)
  | missingHeaders
  | programs
  | program (type offset vaddr paddr : UInt32) (align : Nat)
  | sections
  | section (i : Nat) (name : List UInt8) (size addr offset : UInt32) (align : Nat)
  | symbols
  | symbol (j : Nat) (value size : UInt32) (name : List UInt8)
  | contents (name : List UInt8)
  | hex (vma : UInt32) (bytes : List UInt8)
  | attSyntax
  | disassembly (name : List UInt8)
  | insn (va : UInt32) (insn : Disasm.Insn)

/-- The rows of a loop over `0, ..., n - 1`. -/
def forEach (n : Nat) (body : Nat → Option (List Row)) : Option (List Row) :=
  ((List.range n).mapM body).map List.flatten

def log2Loop : Nat → Nat → Nat
  | 0, _ => 0
  | fuel + 1, a => if 1 < a then log2Loop fuel (a / 2) + 1 else 0

def log2Align (a : UInt32) : Nat := log2Loop 32 a.toNat

/-- The check `sh_offset + sh_size <= sz`. -/
def inFile (img : Image) (offset size : UInt32) : Bool := (offset + size).toNat ≤ img.length

/-- The names are those of the string table at `shstr`. -/
def dumpSectionsHdr (img : Image) (eh : Ehdr) (shstr : UInt32) : Option (List Row) := do
  let rows ← forEach eh.shnum fun i => do
    let offset ← shOffset img eh i
    let size ← shSize img eh i
    if inFile img offset size then do
      let name ← string img (shstr + (← shName img eh i))
      let addr ← shAddr img eh i
      let addralign ← shAddralign img eh i
      some [.section i name size addr offset (log2Align addralign)]
    else some []
  some (.sections :: rows)

def isSymbolTable (type : UInt32) : Bool := type = SHT_SYMTAB ∨ type = SHT_DYNSYM

/-- The symbols of the table of `size` bytes at `syms`, with the names of the table at `st`. -/
def dumpTable (img : Image) (syms size st stsz : UInt32) : Option (List Row) :=
  forEach (size.toNat / 16) fun j => do
    let sym ← symAt img syms j
    let name ← if sym.name < stsz then string img (st + sym.name) else some []
    some [.symbol j sym.value sym.size name]

def dumpSymbols (img : Image) (eh : Ehdr) : Option (List Row) := do
  let rows ← forEach eh.shnum fun i => do
    if isSymbolTable (← shType img eh i) then do
      let offset ← shOffset img eh i
      let size ← shSize img eh i
      if inFile img offset size then do
        let link ← shLink img eh i
        if link.toNat < eh.shnum then
          if (← shType img eh link.toNat) = SHT_STRTAB then do
            let st ← shOffset img eh link.toNat
            let stsz ← shSize img eh link.toNat
            dumpTable img offset size st stsz
          else some []
        else some []
      else some []
    else some []
  some (.symbols :: rows)

def dumpHexSection (img : Image) (name off vma : UInt32) (len : Nat) : Option (List Row) := do
  let name ← string img name
  let rows ← forEach ((len + 15) / 16) fun k => do
    let bytes ← (List.range (min 16 (len - 16 * k))).mapM fun j =>
      byte img (off + UInt32.ofNat (16 * k + j))
    some [.hex (vma + UInt32.ofNat (16 * k)) bytes]
  some (.contents name :: rows)

def dumpContents (img : Image) (eh : Ehdr) (shstr : UInt32) : Option (List Row) :=
  forEach eh.shnum fun i => do
    if (← shType img eh i) ≠ SHT_NOBITS then do
      let offset ← shOffset img eh i
      let size ← shSize img eh i
      if inFile img offset size then do
        let name ← shName img eh i
        let addr ← shAddr img eh i
        dumpHexSection img (shstr + name) offset addr size.toNat
      else some []
    else some []

/-- The instruction at a position of the section. The number of bytes left is an `int`, and
the disassembler looks at no byte where it is negative. -/
def insnAt (img : Image) (sec size addr : UInt32) (pos : Nat) : Option Disasm.Insn :=
  if 2 ^ 31 ≤ size.toNat - pos then some ⟨1, none⟩
  else (bytesAt img (sec + UInt32.ofNat pos) (size.toNat - pos)).map
    (Disasm.disasmInsnPrint · (addr + UInt32.ofNat pos))

def disasmLoop (img : Image) (sec size addr : UInt32) : Nat → Nat → Option (List Row)
  | 0, _ => some []
  | fuel + 1, pos =>
    if pos < size.toNat then do
      let insn ← insnAt img sec size addr pos
      let rest ← disasmLoop img sec size addr fuel (pos + max insn.length 1)
      some (.insn (addr + UInt32.ofNat pos) insn :: rest)
    else some []

def isCode (flags : UInt32) : Bool := flags &&& SHF_ALLOC ≠ 0 ∧ flags &&& SHF_EXECINSTR ≠ 0

def dumpDisasm (img : Image) (eh : Ehdr) (shstr : UInt32) : Option (List Row) :=
  forEach eh.shnum fun i => do
    if isCode (← shFlags img eh i) then do
      if (← shType img eh i) ≠ SHT_NOBITS then do
        let offset ← shOffset img eh i
        let size ← shSize img eh i
        if inFile img offset size then do
          let name ← string img (shstr + (← shName img eh i))
          let addr ← shAddr img eh i
          let rows ← disasmLoop img offset size addr size.toNat 0
          some (.disassembly name :: rows)
        else some []
      else some []
    else some []

def hasPrograms (img : Image) (eh : Ehdr) : Bool :=
  eh.phnum ≠ 0 ∧ (eh.phoff + UInt32.ofNat (eh.phnum * 32)).toNat ≤ img.length

def dumpPrograms (img : Image) (eh : Ehdr) : Option (List Row) := do
  let rows ← forEach eh.phnum fun i => do
    let p ← phdr img eh i
    some [.program p.type p.offset p.vaddr p.paddr (log2Align p.align)]
  some (.programs :: rows)

structure Flags where
  f : Bool
  h : Bool
  x : Bool
  t : Bool
  s : Bool
  d : Bool
  matt : Bool

def asked (flag : Bool) (dump : Option (List Row)) : Option (List Row) :=
  if flag then dump else some []

def dumps (of : Flags) (img : Image) (eh : Ehdr) (shstr : UInt32) : Option (List Row) := do
  let programs ← asked (of.x && hasPrograms img eh) (dumpPrograms img eh)
  let sections ← asked (of.h || of.x) (dumpSectionsHdr img eh shstr)
  let symbols ← asked of.t (dumpSymbols img eh)
  let contents ← asked of.s (dumpContents img eh shstr)
  let code ← asked of.d (dumpDisasm img eh shstr)
  some (programs ++ sections ++ symbols ++ contents ++
    (if of.d && of.matt then [.attSyntax] else []) ++ code)

def hasSections (img : Image) (eh : Ehdr) : Bool :=
  eh.shnum ≠ 0 ∧ (eh.shoff + UInt32.ofNat (eh.shnum * 40)).toNat ≤ img.length

/-- The offset of the section names, `none` inside where there are none. -/
def sectionNames (img : Image) (eh : Ehdr) : Option (Option UInt32) :=
  if hasSections img eh ∧ eh.shstrndx < eh.shnum then do
    let offset ← shOffset img eh eh.shstrndx
    let size ← shSize img eh eh.shstrndx
    some (if inFile img offset size then some offset else none)
  else some none

/-- Everything but the file header. -/
def dumpSections (of : Flags) (img : Image) (eh : Ehdr) : Option (List Row) := do
  let shstr ← sectionNames img eh
  asked (of.h || of.x || of.t || of.s || of.d) (match shstr with
    | some shstr => dumps of img eh shstr
    | none => some [.missingHeaders])

def ELFMAG : List UInt8 := [0x7f, 69, 76, 70]

def process (of : Flags) (img : Image) : Option (List Row) :=
  if img.length = 0 ∨ 1024 * 1024 * 8 < img.length then some [.cannotRead]
  else if img.length < 52 then some [.tooSmall]
  else do
    let eh ← ehdr img
    if eh.ident ≠ ELFMAG then some [.notElf]
    else do
      let rows ← dumpSections of img eh
      some ((if of.f then [.fileHeader eh.flags eh.entry] else []) ++ rows)

/-- A string starts at the offset and ends inside of the file. -/
def Terminated (img : Image) (pos : UInt32) : Prop := 0 ∈ img.drop pos.toNat

def Shdr.Fits (s : Shdr) (img : Image) : Prop := s.offset.toNat + s.size.toNat ≤ img.length

/-- What `-t` looks at in the symbol table `s` with names in `l`. -/
def SymbolsInside (img : Image) (s l : Shdr) : Prop :=
  (16 ≤ s.size.toNat → s.Fits img) ∧
    ∀ j < s.size.toNat / 16, ∀ sym, symAt img s.offset j = some sym → sym.name < l.size →
      Terminated img (l.offset + sym.name)

/-- What the options look at for the section `s` that passes its check. -/
structure SectionInside (of : Flags) (img : Image) (eh : Ehdr) (shstr : UInt32) (s : Shdr) :
    Prop where
  header : of.h ∨ of.x → Terminated img (shstr + s.name)
  symbols : of.t → isSymbolTable s.type → s.link.toNat < eh.shnum → ∀ l,
    shdr img eh s.link.toNat = some l → l.type = SHT_STRTAB → SymbolsInside img s l
  contents : of.s → s.type ≠ SHT_NOBITS → Terminated img (shstr + s.name) ∧ s.Fits img
  code : of.d → isCode s.flags → s.type ≠ SHT_NOBITS →
    Terminated img (shstr + s.name) ∧ s.Fits img

/-- Everything that is looked at once the names of the sections are found. -/
structure DumpsInside (of : Flags) (img : Image) (eh : Ehdr) (shstr : UInt32) : Prop where
  programs : of.x → hasPrograms img eh → eh.phoff.toNat + 32 * eh.phnum ≤ img.length
  sections : ∀ i < eh.shnum, ∀ s, shdr img eh i = some s → inFile img s.offset s.size →
    SectionInside of img eh shstr s

/-- The sums in the checks do not wrap around, and the names end in the file. -/
def Inside (of : Flags) (img : Image) : Prop :=
  52 ≤ img.length → img.length ≤ 1024 * 1024 * 8 → ∀ eh, ehdr img = some eh → eh.ident = ELFMAG →
    hasSections img eh → eh.shstrndx < eh.shnum → eh.shoff.toNat + 40 * eh.shnum ≤ img.length ∧
        ∀ names, shdr img eh eh.shstrndx = some names → inFile img names.offset names.size →
          DumpsInside of img eh names.offset

/-- The table of the sections does not run over the end of the address space. -/
def Unwrapped (img : Image) : Prop :=
  ∀ eh, ehdr img = some eh → eh.shoff.toNat + 40 * eh.shnum < 2 ^ 32

section Reading

variable {img : Image}

theorem mapM_isSome {α β : Type} {f : α → Option β} {l : List α} :
    (l.mapM f).isSome ↔ ∀ x ∈ l, (f x).isSome := by
  induction l with
  | nil => simp
  | cons x l ih =>
    rw [List.mapM_cons, List.forall_mem_cons, ← ih]
    cases f x <;> cases l.mapM f <;> simp

theorem forEach_isSome {n : Nat} {body : Nat → Option (List Row)} :
    (forEach n body).isSome ↔ ∀ i < n, (body i).isSome := by
  simp [forEach, mapM_isSome]

/-- A read whose success does not depend on the value read before. -/
theorem bind_isSome {α β : Type} {x : Option α} {f : α → Option β} {P : Prop}
    (next : ∀ a, (f a).isSome ↔ P) : (x >>= f).isSome ↔ x.isSome ∧ P := by
  cases x with
  | none => simp
  | some a => simpa using next a

theorem some_isSome {α β : Type} {x : Option α} {f : α → β} :
    (do let a ← x; some (f a)).isSome ↔ x.isSome := by
  cases x <;> simp

theorem byte_isSome {pos : UInt32} : (byte img pos).isSome ↔ pos.toNat < img.length := by
  simp [byte]

theorem string_isSome {pos : UInt32} : (string img pos).isSome ↔ Terminated img pos := by
  unfold string Terminated
  induction img.drop pos.toNat with
  | nil => simp [untilNul]
  | cons b rest ih =>
    by_cases nul : b = 0
    · simp [untilNul, nul]
    · simp [untilNul, nul, ih, Ne.symm nul]

theorem toNat_offset (pos : UInt32) {k : Nat} (small : k < 2 ^ 32) :
    (pos + UInt32.ofNat k).toNat = (pos.toNat + k) % 2 ^ 32 := by
  rw [UInt32.toNat_add, UInt32.toNat_ofNat_of_lt' small]

variable (bounded : img.length ≤ 1024 * 1024 * 8)

include bounded

theorem half_isSome {pos : UInt32} : (half img pos).isSome ↔ pos.toNat + 2 ≤ img.length := by
  have reads : (half img pos).isSome ↔ _ :=
    bind_isSome fun b0 => some_isSome
  have next := toNat_offset pos (show 1 < 2 ^ 32 by decide)
  simp only [reads, byte_isSome]
  change _ ∧ (pos + UInt32.ofNat 1).toNat < _ ↔ _
  omega

theorem word_isSome {pos : UInt32} : (word img pos).isSome ↔ pos.toNat + 4 ≤ img.length := by
  have reads : (word img pos).isSome ↔ _ :=
    bind_isSome fun b0 => bind_isSome fun b1 => bind_isSome fun b2 => some_isSome
  have one := toNat_offset pos (show 1 < 2 ^ 32 by decide)
  have two := toNat_offset pos (show 2 < 2 ^ 32 by decide)
  have three := toNat_offset pos (show 3 < 2 ^ 32 by decide)
  simp only [reads, byte_isSome]
  change _ ∧ (pos + UInt32.ofNat 1).toNat < _ ∧ (pos + UInt32.ofNat 2).toNat < _ ∧
    (pos + UInt32.ofNat 3).toNat < _ ↔ _
  omega

omit bounded in
theorem bytesAt_isSome {pos : UInt32} {n : Nat} (inside : pos.toNat + n ≤ img.length) :
    (bytesAt img pos n).isSome := by
  have := pos.toNat_lt
  simp only [bytesAt, mapM_isSome, List.mem_range, byte_isSome]
  intro i small
  have := Nat.mod_le (pos.toNat + i % 2 ^ 32) (2 ^ 32)
  have := Nat.mod_le i (2 ^ 32)
  rw [UInt32.toNat_add, UInt32.toNat_ofNat']
  omega

omit bounded in
/-- Where there are bytes to look at, the first one is looked at. -/
theorem bytesAt_outside {pos : UInt32} {n : Nat} (some' : 0 < n)
    (outside : img.length ≤ pos.toNat) : bytesAt img pos n = none := by
  rw [← Option.not_isSome_iff_eq_none]
  simp only [bytesAt, mapM_isSome, List.mem_range, byte_isSome]
  intro inside
  have first := inside 0 some'
  rw [toNat_offset pos (by decide), Nat.add_zero, Nat.mod_eq_of_lt pos.toNat_lt] at first
  omega

theorem shWord_isSome {eh : Ehdr} {i k : Nat} (table : eh.shoff.toNat + 40 * eh.shnum ≤ img.length)
    (small : i < eh.shnum) (part : k ≤ 36) : (shWord img eh i k).isSome := by
  refine (word_isSome bounded).mpr ?_
  rw [toNat_offset _ (by omega)]
  omega

theorem shdr_isSome {eh : Ehdr} {i : Nat} (table : eh.shoff.toNat + 40 * eh.shnum ≤ img.length)
    (small : i < eh.shnum) : (shdr img eh i).isSome := by
  have field {k : Nat} (part : k ≤ 36) : (shWord img eh i k).isSome :=
    shWord_isSome bounded table small part
  have reads : (shdr img eh i).isSome ↔ _ :=
    bind_isSome fun _ => bind_isSome fun _ => bind_isSome fun _ => bind_isSome fun _ =>
      bind_isSome fun _ => bind_isSome fun _ => bind_isSome fun _ => some_isSome
  rw [reads]
  exact ⟨field (by omega), field (by omega), field (by omega), field (by omega),
    field (by omega), field (by omega), field (by omega), field (by omega)⟩

theorem phdr_isSome {eh : Ehdr} {i : Nat} (inside : eh.phoff.toNat + 32 * i + 32 ≤ img.length) :
    (phdr img eh i).isSome := by
  have reads : (phdr img eh i).isSome ↔ _ :=
    bind_isSome fun _ => bind_isSome fun _ => bind_isSome fun _ => bind_isSome fun _ => some_isSome
  simp only [reads, word_isSome bounded]
  rw [toNat_offset _ (by omega), toNat_offset _ (by omega), toNat_offset _ (by omega),
    toNat_offset _ (by omega), toNat_offset _ (by omega)]
  omega

theorem symAt_isSome {pos : UInt32} {j : Nat} (small : 16 * j + 8 < 2 ^ 32) :
    (symAt img pos j).isSome ↔ (pos.toNat + 16 * j) % 2 ^ 32 + 12 ≤ img.length := by
  have reads : (symAt img pos j).isSome ↔ _ :=
    bind_isSome fun _ => bind_isSome fun _ => some_isSome
  simp only [reads, word_isSome bounded]
  rw [toNat_offset _ (by omega), toNat_offset _ (by omega), toNat_offset _ (by omega)]
  omega

theorem ehdr_isSome (large : 52 ≤ img.length) : (ehdr img).isSome := by
  have reads : (ehdr img).isSome ↔ _ :=
    bind_isSome fun _ => bind_isSome fun _ => bind_isSome fun _ => bind_isSome fun _ =>
      bind_isSome fun _ => bind_isSome fun _ => bind_isSome fun _ => some_isSome
  simp only [reads, word_isSome bounded, half_isSome bounded]
  refine ⟨bytesAt_isSome (by simp; omega), ?_⟩
  simp
  omega

end Reading

section Dumps

variable {img : Image} {eh : Ehdr} {s : Shdr} {shstr : UInt32}

theorem asked_isSome {flag : Bool} {dump : Option (List Row)} :
    (asked flag dump).isSome ↔ (flag → dump.isSome) := by
  cases flag <;> simp [asked]

/-- Each field of a header is the one that the code finds when it looks at it alone. -/
structure FieldsOf (img : Image) (eh : Ehdr) (i : Nat) (s : Shdr) : Prop where
  name : shName img eh i = some s.name
  type : shType img eh i = some s.type
  flags : shFlags img eh i = some s.flags
  addr : shAddr img eh i = some s.addr
  offset : shOffset img eh i = some s.offset
  size : shSize img eh i = some s.size
  link : shLink img eh i = some s.link
  addralign : shAddralign img eh i = some s.addralign

theorem shdr_fields {i : Nat} (here : shdr img eh i = some s) : FieldsOf img eh i s := by
  simp only [shdr, Option.bind_eq_bind, Option.bind_eq_some_iff, Option.some.injEq] at here
  obtain ⟨_, name, _, type, _, flags, _, addr, _, offset, _, size, _, link, _, addralign, rfl⟩ := here
  exact ⟨name, type, flags, addr, offset, size, link, addralign⟩

theorem insnAt_fits (fits : s.Fits img) {pos : Nat} (small : pos < s.size.toNat) :
    (insnAt img s.offset s.size s.addr pos).isSome := by
  have whole : s.offset.toNat + s.size.toNat ≤ img.length := fits
  have := s.size.toNat_lt
  have := Nat.mod_le (s.offset.toNat + pos) (2 ^ 32)
  unfold insnAt
  split
  · rfl
  · rw [Option.isSome_map]
    apply bytesAt_isSome
    rw [toNat_offset _ (by omega)]
    omega

theorem disasmLoop_fits (fits : s.Fits img) (fuel pos : Nat) :
    (disasmLoop img s.offset s.size s.addr fuel pos).isSome := by
  induction fuel generalizing pos with
  | zero => rfl
  | succ fuel ih =>
    unfold disasmLoop
    split
    · rename_i small
      obtain ⟨insn, here⟩ := Option.isSome_iff_exists.mp (insnAt_fits fits small)
      obtain ⟨rows, rest⟩ := Option.isSome_iff_exists.mp (ih (pos + max insn.length 1))
      simp [here, rest]
    · rfl

variable (bounded : img.length ≤ 1024 * 1024 * 8)

section Checked

variable (checked : inFile img s.offset s.size)

include checked

/-- A section that passes the check and does not fit makes the sum wrap around. -/
theorem wraps (outside : ¬ s.Fits img) : 2 ^ 32 ≤ s.offset.toNat + s.size.toNat ∧
    s.offset.toNat + s.size.toNat - 2 ^ 32 ≤ img.length := by
  have sum := of_decide_eq_true checked
  have := s.offset.toNat_lt
  have := s.size.toNat_lt
  rw [UInt32.toNat_add] at sum
  unfold Shdr.Fits at outside
  omega

include bounded

/-- A symbol table that wraps around has a symbol behind the end of the file. -/
theorem symAt_outside (outside : ¬ s.Fits img) (many : 16 ≤ s.size.toNat) :
    ∃ j < s.size.toNat / 16, symAt img s.offset j = none := by
  have wrapped := wraps checked outside
  have := s.size.toNat_lt
  have := s.offset.toNat_lt
  by_cases behind : img.length ≤ s.offset.toNat
  · refine ⟨0, by omega, ?_⟩
    rw [← Option.not_isSome_iff_eq_none, symAt_isSome bounded (by omega)]
    omega
  · refine ⟨(img.length - s.offset.toNat + 15) / 16, by omega, ?_⟩
    rw [← Option.not_isSome_iff_eq_none, symAt_isSome bounded (by omega)]
    omega

theorem dumpTable_isSome (l : Shdr) :
    (dumpTable img s.offset s.size l.offset l.size).isSome ↔ SymbolsInside img s l := by
  rw [dumpTable, forEach_isSome]
  constructor
  · intro inside
    refine ⟨?_, ?_⟩
    · intro many
      by_contra outside
      obtain ⟨j, small, none'⟩ := symAt_outside bounded checked outside many
      have row := inside j small
      simp [none'] at row
    · intro j small sym found named
      have row := inside j small
      rw [found] at row
      rw [← string_isSome]
      cases name : string img (l.offset + sym.name) with
      | none => simp [named, name] at row
      | some bytes => rfl
  · intro ⟨fits, names⟩ j small
    have := s.size.toNat_lt
    have whole : s.offset.toNat + s.size.toNat ≤ img.length := fits (by omega)
    have read : (symAt img s.offset j).isSome := (symAt_isSome bounded (by omega)).mpr (by omega)
    obtain ⟨sym, found⟩ := Option.isSome_iff_exists.mp read
    by_cases named : sym.name < l.size
    · obtain ⟨name, there⟩ :=
        Option.isSome_iff_exists.mp (string_isSome.mpr (names j small sym found named))
      simp [found, named, there]
    · simp [found, named]

theorem hexBytes_isSome : (∀ k < (s.size.toNat + 15) / 16, ∀ j < min 16 (s.size.toNat - 16 * k),
      (s.offset + UInt32.ofNat (16 * k + j)).toNat < img.length) ↔ s.Fits img := by
  have size := s.size.toNat_lt
  have index (k j : Nat) (small : 16 * k + j < s.size.toNat) :
      (s.offset + UInt32.ofNat (16 * k + j)).toNat = (s.offset.toNat + (16 * k + j)) % 2 ^ 32 := by
    rw [UInt32.toNat_add, UInt32.toNat_ofNat_of_lt' (show 16 * k + j < 2 ^ 32 by omega)]
  constructor
  · intro inside
    by_contra outside
    have wrapped := (wraps checked outside).1
    have start := s.offset.toNat_lt
    -- the last byte of the address space is one of the section's
    have top := inside ((2 ^ 32 - 1 - s.offset.toNat) / 16) (by omega)
      ((2 ^ 32 - 1 - s.offset.toNat) % 16) (by omega)
    rw [index _ _ (by omega)] at top
    omega
  · intro fits k _ j small
    have whole : s.offset.toNat + s.size.toNat ≤ img.length := fits
    rw [index k j (by omega)]
    omega

theorem dumpHexSection_isSome (name vma : UInt32) :
    (dumpHexSection img name s.offset vma s.size.toNat).isSome ↔
      Terminated img name ∧ s.Fits img := by
  rw [← hexBytes_isSome bounded checked, ← string_isSome]
  apply bind_isSome
  intro text
  rw [some_isSome, forEach_isSome]
  simp only [some_isSome, mapM_isSome, List.mem_range, byte_isSome]

/-- The first byte that is looked at is far behind the end of the file. -/
theorem insnAt_outside (outside : ¬ s.Fits img) {pos : Nat} (small : pos < s.size.toNat)
    (left : s.size.toNat - pos < 2 ^ 31) (first : pos = 0 ∨ 2 ^ 31 ≤ s.size.toNat - (pos - 1)) :
    insnAt img s.offset s.size s.addr pos = none := by
  have wrapped := wraps checked outside
  have := s.size.toNat_lt
  have := s.offset.toNat_lt
  rw [insnAt, if_neg (by omega), Option.map_eq_none_iff]
  apply bytesAt_outside
  · omega
  · rw [toNat_offset _ (by omega)]
    omega

/-- Where the number of bytes left is negative, the loop goes on byte by byte until it is
not. -/
theorem disasmLoop_outside (outside : ¬ s.Fits img) {fuel pos : Nat} (small : pos < s.size.toNat)
    (enough : s.size.toNat - pos ≤ fuel) (first : pos = 0 ∨ 2 ^ 31 ≤ s.size.toNat - (pos - 1)) :
    disasmLoop img s.offset s.size s.addr fuel pos = none := by
  induction fuel generalizing pos with
  | zero => omega
  | succ fuel ih =>
    rw [disasmLoop, if_pos small]
    by_cases left : s.size.toNat - pos < 2 ^ 31
    · rw [insnAt_outside bounded checked outside small left first]
      rfl
    · have skipped : insnAt img s.offset s.size s.addr pos = some ⟨1, none⟩ := if_pos (by omega)
      rw [skipped]
      simp [ih (show pos + 1 < s.size.toNat by omega) (by omega) (by omega)]

theorem disasmLoop_isSome :
    (disasmLoop img s.offset s.size s.addr s.size.toNat 0).isSome ↔ s.Fits img := by
  constructor
  · intro inside
    by_contra outside
    have wrapped := wraps checked outside
    have start := s.offset.toNat_lt
    rw [disasmLoop_outside bounded checked outside (by omega) (by omega) (.inl rfl)] at inside
    cases inside
  · intro fits
    exact disasmLoop_fits fits _ _

end Checked

variable (table : eh.shoff.toNat + 40 * eh.shnum ≤ img.length)

include bounded table

/-- The loops over the sections, with the table of the sections inside. -/
theorem forSections_isSome {body : Nat → Option (List Row)} :
    (forEach eh.shnum body).isSome ↔
      ∀ i < eh.shnum, ∀ s, shdr img eh i = some s → (body i).isSome := by
  rw [forEach_isSome]
  apply forall₂_congr
  intro i small
  obtain ⟨s, here⟩ := Option.isSome_iff_exists.mp (shdr_isSome bounded table small)
  simp [here]

theorem dumpSectionsHdr_isSome : (dumpSectionsHdr img eh shstr).isSome ↔
    ∀ i < eh.shnum, ∀ s, shdr img eh i = some s → inFile img s.offset s.size →
      Terminated img (shstr + s.name) := by
  rw [dumpSectionsHdr, some_isSome, forSections_isSome bounded table]
  apply forall₄_congr
  intro i _ s here
  have fields := shdr_fields here
  rw [← string_isSome, fields.name, fields.addr, fields.offset, fields.size, fields.addralign]
  by_cases checked : inFile img s.offset s.size
  · cases text : string img (shstr + s.name) <;> simp [checked, text]
  · simp [checked]

theorem dumpSymbols_isSome : (dumpSymbols img eh).isSome ↔
    ∀ i < eh.shnum, ∀ s, shdr img eh i = some s → inFile img s.offset s.size →
      isSymbolTable s.type → s.link.toNat < eh.shnum → ∀ l,
        shdr img eh s.link.toNat = some l → l.type = SHT_STRTAB → SymbolsInside img s l := by
  rw [dumpSymbols, some_isSome, forSections_isSome bounded table]
  apply forall₄_congr
  intro i _ s here
  have fields := shdr_fields here
  rw [fields.type, fields.offset, fields.size, fields.link]
  by_cases symbols : isSymbolTable s.type
  · by_cases checked : inFile img s.offset s.size
    · by_cases link : s.link.toNat < eh.shnum
      · obtain ⟨l, linked⟩ := Option.isSome_iff_exists.mp (shdr_isSome bounded table link)
        have names := shdr_fields linked
        have inside := dumpTable_isSome bounded checked l
        by_cases strings : l.type = SHT_STRTAB
        · simp [symbols, checked, link, linked, names.type, names.offset, names.size, strings, inside]
        · simp [symbols, checked, link, linked, names.type, strings]
      · simp [symbols, checked, link]
    · simp [symbols, checked]
  · simp [symbols]

theorem dumpContents_isSome : (dumpContents img eh shstr).isSome ↔
    ∀ i < eh.shnum, ∀ s, shdr img eh i = some s → inFile img s.offset s.size →
      s.type ≠ SHT_NOBITS → Terminated img (shstr + s.name) ∧ s.Fits img := by
  rw [dumpContents, forSections_isSome bounded table]
  apply forall₄_congr
  intro i _ s here
  have fields := shdr_fields here
  rw [fields.type, fields.offset, fields.size, fields.name, fields.addr]
  by_cases bits : s.type = SHT_NOBITS
  · simp [bits]
  · by_cases checked : inFile img s.offset s.size
    · simp [bits, checked, dumpHexSection_isSome bounded checked]
    · simp [bits, checked]

theorem dumpDisasm_isSome : (dumpDisasm img eh shstr).isSome ↔
    ∀ i < eh.shnum, ∀ s, shdr img eh i = some s → inFile img s.offset s.size → isCode s.flags →
      s.type ≠ SHT_NOBITS → Terminated img (shstr + s.name) ∧ s.Fits img := by
  rw [dumpDisasm, forSections_isSome bounded table]
  apply forall₄_congr
  intro i _ s here
  have fields := shdr_fields here
  rw [fields.type, fields.offset, fields.size, fields.name, fields.addr, fields.flags]
  by_cases code : isCode s.flags
  · by_cases bits : s.type = SHT_NOBITS
    · simp [code, bits]
    · by_cases checked : inFile img s.offset s.size
      · have loop := disasmLoop_isSome bounded checked
        rw [← string_isSome, ← loop]
        cases text : string img (shstr + s.name) <;>
          cases rows : disasmLoop img s.offset s.size s.addr s.size.toNat 0 <;>
          simp [code, bits, checked, text, rows]
      · simp [code, bits, checked]
  · simp [code]

omit table

theorem dumpPrograms_isSome (few : eh.phnum < 2 ^ 16) (has : hasPrograms img eh) :
    (dumpPrograms img eh).isSome ↔ eh.phoff.toNat + 32 * eh.phnum ≤ img.length := by
  obtain ⟨some', sum⟩ := of_decide_eq_true has
  have := eh.phoff.toNat_lt
  rw [toNat_offset _ (by omega)] at sum
  rw [dumpPrograms, some_isSome, forEach_isSome]
  simp only [some_isSome]
  constructor
  · intro inside
    by_contra wrapped
    obtain ⟨p, first⟩ := Option.isSome_iff_exists.mp (inside 0 (by omega))
    obtain ⟨type, found, -⟩ := Option.bind_eq_some_iff.mp first
    have read := (word_isSome bounded).mp (Option.isSome_of_eq_some found)
    rw [toNat_offset _ (by decide)] at read
    omega
  · intro inside i small
    exact phdr_isSome bounded (by omega)

include table

theorem dumps_isSome (few : eh.phnum < 2 ^ 16) (of : Flags) (shstr : UInt32) :
    (dumps of img eh shstr).isSome ↔ DumpsInside of img eh shstr := by
  have parts : (dumps of img eh shstr).isSome ↔ _ :=
    bind_isSome fun _ => bind_isSome fun _ => bind_isSome fun _ => bind_isSome fun _ => some_isSome
  rw [parts]
  simp only [asked_isSome, Bool.and_eq_true, Bool.or_eq_true, dumpSectionsHdr_isSome bounded table,
    dumpSymbols_isSome bounded table, dumpContents_isSome bounded table,
    dumpDisasm_isSome bounded table]
  constructor
  · intro ⟨programs, headers, symbols, contents, code⟩
    refine ⟨fun x has => (dumpPrograms_isSome bounded few has).mp (programs ⟨x, has⟩), ?_⟩
    intro i small s here checked
    exact ⟨fun h => headers h i small s here checked, fun t => symbols t i small s here checked,
      fun s' => contents s' i small s here checked, fun d => code d i small s here checked⟩
  · intro ⟨programs, sections⟩
    exact ⟨fun both => (dumpPrograms_isSome bounded few both.2).mpr (programs both.1 both.2),
      fun h i small s here checked => (sections i small s here checked).header h,
      fun t i small s here checked => (sections i small s here checked).symbols t,
      fun s' i small s here checked => (sections i small s here checked).contents s',
      fun d i small s here checked => (sections i small s here checked).code d⟩

end Dumps

theorem half_lt {img : Image} {pos : UInt32} {v : Nat} (found : half img pos = some v) : v < 2 ^ 16 := by
  simp only [half, Option.bind_eq_bind, Option.bind_eq_some_iff, Option.some.injEq] at found
  obtain ⟨b0, _, b1, _, rfl⟩ := found
  have := b0.toNat_lt
  have := b1.toNat_lt
  omega

theorem ehdr_lt {img : Image} {eh : Ehdr} (found : ehdr img = some eh) :
    eh.phnum < 2 ^ 16 ∧ eh.shnum < 2 ^ 16 := by
  simp only [ehdr, Option.bind_eq_bind, Option.bind_eq_some_iff, Option.some.injEq] at found
  obtain ⟨_, _, _, _, _, _, _, _, _, _, phnum, programs, shnum, sections, _, _, rfl⟩ := found
  exact ⟨half_lt programs, half_lt sections⟩

/-- Without an option that looks at sections there is nothing to look at. -/
theorem dumpsInside_of_none (of : Flags) (img : Image) (eh : Ehdr) (shstr : UInt32)
    (none' : ¬ (of.h || of.x || of.t || of.s || of.d) = true) : DumpsInside of img eh shstr := by
  simp only [Bool.or_eq_true, not_or] at none'
  obtain ⟨⟨⟨⟨h, x⟩, t⟩, s⟩, d⟩ := none'
  constructor
  · exact fun asked => absurd asked x
  · intro i _ _ _ _
    exact ⟨fun asked => absurd asked (not_or.mpr ⟨h, x⟩), fun asked => absurd asked t,
      fun asked => absurd asked s, fun asked => absurd asked d⟩

theorem dumpSections_isSome (of : Flags) {img : Image} {eh : Ehdr}
    (bounded : img.length ≤ 1024 * 1024 * 8) (few : eh.phnum < 2 ^ 16)
    (table : hasSections img eh → eh.shstrndx < eh.shnum →
      eh.shoff.toNat + 40 * eh.shnum ≤ img.length) :
    (dumpSections of img eh).isSome ↔ (hasSections img eh → eh.shstrndx < eh.shnum →
      ∀ names, shdr img eh eh.shstrndx = some names → inFile img names.offset names.size →
        DumpsInside of img eh names.offset) := by
  unfold dumpSections sectionNames
  by_cases test : hasSections img eh ∧ eh.shstrndx < eh.shnum
  · have whole := table test.1 test.2
    obtain ⟨names, found⟩ := Option.isSome_iff_exists.mp (shdr_isSome bounded whole test.2)
    have fields := shdr_fields found
    have inside := dumps_isSome bounded whole few of names.offset
    have none' := dumpsInside_of_none of img eh names.offset
    rw [if_pos test, fields.offset, fields.size]
    by_cases checked : inFile img names.offset names.size
    · simp only [Option.bind_eq_bind, Option.bind_some, checked, if_true, asked_isSome, inside,
        test, found, Option.some.injEq, forall_eq', forall_const]
      exact ⟨fun only => by_contra fun not => not (none' fun any => not (only any)),
        fun all _ => all⟩
    · simp [checked, asked_isSome, found]
  · simp only [if_neg test, Option.bind_eq_bind, Option.bind_some, asked_isSome,
      Option.isSome_some, implies_true, true_iff]
    intro has index
    exact absurd ⟨has, index⟩ test

/-- `objdump` looks at bytes of the file only if the sums of offsets and sizes in its checks do
not wrap around for what it shows, and the names it shows end in the file. Unless the table of
the sections itself wraps around, also only then. -/
theorem process_inside_iff (of : Flags) (img : Image) :
    (Inside of img → (process of img).isSome) ∧
      (Unwrapped img → (process of img).isSome → Inside of img) := by
  unfold process Inside Unwrapped
  by_cases readable : img.length = 0 ∨ 1024 * 1024 * 8 < img.length
  · rw [if_pos readable]
    refine ⟨fun _ => rfl, fun _ _ => ?_⟩
    omega
  rw [if_neg readable]
  by_cases small : img.length < 52
  · rw [if_pos small]
    refine ⟨fun _ => rfl, fun _ _ => ?_⟩
    omega
  rw [if_neg small]
  have bounded : img.length ≤ 1024 * 1024 * 8 := by omega
  obtain ⟨eh, found⟩ := Option.isSome_iff_exists.mp (ehdr_isSome bounded (by omega))
  obtain ⟨programs, few⟩ := ehdr_lt found
  have inside := dumpSections_isSome of bounded programs
  have large : 52 ≤ img.length := by omega
  simp only [found, Option.bind_eq_bind, Option.bind_some, large, bounded, Option.some.injEq,
    forall_eq', forall_const]
  by_cases magic : eh.ident = ELFMAG
  · rw [if_neg (not_not.mpr magic)]
    constructor
    · intro all
      have all := all magic
      refine some_isSome.mpr ((inside fun has index => (all has index).1).mpr ?_)
      exact fun has index => (all has index).2
    · intro unwrapped shown _ has index
      have table (has : hasSections img eh) (_ : eh.shstrndx < eh.shnum) :
          eh.shoff.toNat + 40 * eh.shnum ≤ img.length := by
        have sum := (of_decide_eq_true has).2
        rw [toNat_offset _ (by omega)] at sum
        omega
      exact ⟨table has index, (inside table).mp (some_isSome.mp shown) has index⟩
  · rw [if_pos magic]
    exact ⟨fun _ => rfl, fun _ _ same => absurd same magic⟩

/-- An ELF header, and a table with one section, of 16 bytes at 0xfffffff0. -/
def wrapped : Image :=
  ELFMAG ++ List.replicate 28 0 ++ [52, 0, 0, 0] ++ List.replicate 12 0 ++ [1, 0, 0, 0] ++
    (List.replicate 16 0 ++ [0xf0, 0xff, 0xff, 0xff, 16, 0, 0, 0] ++ List.replicate 16 0)

/-- The end of the section is taken for 0, and `-h` looks for its name before the file. -/
theorem process_outside_wrapped :
    (process ⟨false, true, false, false, false, false, false⟩ wrapped).isSome = false := by
  decide +kernel

end SirpairOs.Objdump
