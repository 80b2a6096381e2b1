import Mathlib.Algebra.Ring.Nat
import Mathlib.Data.List.Basic

/-! The disassembler `user/disasm_i386.c`: the length it gives to each instruction, and the
line it prints. -/
namespace SirpairOs.Disasm

def modOf (modrm : UInt8) : Nat := modrm.toNat / 64

/-- The field `rm` of a ModRM byte, and the field `base` of a SIB byte. -/
def lowOf (b : UInt8) : Nat := b.toNat % 8

/-- The displacement; `absolute` where the base register is replaced by one. -/
def dispSize (mod : Nat) (absolute : Bool) : Nat :=
  if mod = 0 ∧ absolute then 4 else if mod = 1 then 1 else if mod = 2 then 4 else 0

/-- `modrm_total` on the bytes that are left; `none` is -1. -/
def modrmTotal : List UInt8 → Option Nat
  | [] => none
  | modrm :: rest =>
    if modOf modrm = 3 then some 1
    else if lowOf modrm = 4 then
      match rest with
      | [] => none
      | sib :: _ => some (1 + 1 + dispSize (modOf modrm) (lowOf sib = 5))
    else some (1 + dispSize (modOf modrm) (lowOf modrm = 5))

inductive Text where
  | byte (b : UInt8)
  | jcc (target : UInt32)
  | jmp (target : UInt32)
  | call (target : UInt32)
  | cpuid
  | rdtsc
  | movx
  | twoByte (op2 : UInt8)
  | push (reg : Nat)
  | pop (reg : Nat)
  | nop
  | ret
  | leave
  | int (n : UInt8)
  | pushImm (value : UInt32)
  | movImm (value : UInt32) (reg : Nat)
  | lea
  | mov
  | callPush
  | cmpTest
  | arith8
  | arith32
  | alu
deriving DecidableEq, Repr

/-- The number of bytes shown before the text. -/
structure Line where
  shown : Nat
  text : Text
deriving DecidableEq, Repr

/-- The length that is returned, and the line, if one is printed. -/
structure Insn where
  length : Nat
  line : Option Line
deriving DecidableEq, Repr

def insn (length : Nat) (text : Text) : Insn := ⟨length, some ⟨length, text⟩⟩

/-- `print_op_unknown` -/
def unknownInsn (p : List UInt8) (length : Nat) : Insn := insn length (.byte (p.headD 0))

def word (b0 b1 b2 b3 : UInt8) : UInt32 :=
  UInt32.ofNat (b0.toNat + b1.toNat * 2 ^ 8 + b2.toNat * 2 ^ 16 + b3.toNat * 2 ^ 24)

def signExtend (b : UInt8) : UInt32 :=
  if b < 0x80 then UInt32.ofNat b.toNat else UInt32.ofNat (b.toNat + (2 ^ 32 - 2 ^ 8))

/-- What follows an opcode byte. In `modrm`, the length that is taken for a ModRM that is not
complete, and the bytes after the operand. -/
inductive Form where
  | bare
  | imm8
  | imm32
  | modrm (missing extra : Nat)
  | unknown
deriving DecidableEq, Repr

def between (low op high : UInt8) : Bool := low ≤ op ∧ op ≤ high

/-- The branch taken for a one-byte opcode. -/
def form (op : UInt8) : Form :=
  if between 0x50 op 0x57 then .bare
  else if between 0x58 op 0x5f then .bare
  else if op = 0x90 then .bare
  else if op = 0xc3 then .bare
  else if op = 0xc9 then .bare
  else if op = 0xcd then .imm8
  else if op = 0xe8 then .imm32
  else if op = 0xe9 then .imm32
  else if op = 0xeb then .imm8
  else if between 0x70 op 0x7f then .imm8
  else if op = 0x68 then .imm32
  else if op = 0x6a then .imm8
  else if op = 0x89 ∨ op = 0x8b ∨ op = 0x8d ∨ op = 0x39 ∨ op = 0x3b ∨ op = 0x85 ∨ op = 0xff then
    .modrm 1 0
  else if op = 0x83 then .modrm 2 0
  else if op = 0x81 then .modrm 5 4
  else if between 0x00 op 0x05 ∨ between 0x08 op 0x0d ∨ between 0x10 op 0x15 ∨
      between 0x18 op 0x1d ∨ between 0x20 op 0x25 ∨ between 0x28 op 0x2d ∨
      between 0x30 op 0x35 ∨ between 0x38 op 0x3d then .modrm 1 0
  else if between 0xb8 op 0xbf then .imm32
  else .unknown

def bareText (op : UInt8) : Text :=
  if between 0x50 op 0x57 then .push (op - 0x50).toNat
  else if between 0x58 op 0x5f then .pop (op - 0x58).toNat
  else if op = 0x90 then .nop
  else if op = 0xc3 then .ret
  else .leave

/-- `next` is the address after the instruction. -/
def imm8Text (op b : UInt8) (next : UInt32) : Text :=
  if op = 0xcd then .int b
  else if op = 0xeb then .jmp (next + signExtend b)
  else if op = 0x6a then .pushImm (UInt32.ofNat b.toNat)
  else .jcc (next + signExtend b)

def imm32Text (op : UInt8) (value next : UInt32) : Text :=
  if op = 0xe8 then .call (next + value)
  else if op = 0xe9 then .jmp (next + value)
  else if op = 0x68 then .pushImm value
  else .movImm value (op - 0xb8).toNat

def modrmText (op : UInt8) : Text :=
  if op = 0x8d then .lea
  else if op = 0x89 ∨ op = 0x8b then .mov
  else if op = 0xff then .callPush
  else if op = 0x39 ∨ op = 0x3b ∨ op = 0x85 then .cmpTest
  else if op = 0x83 then .arith8
  else if op = 0x81 then .arith32
  else .alu

/-- An opcode byte `op` after `i` bytes of prefixes, with `rest` after it. -/
def oneByte (p : List UInt8) (i : Nat) (op : UInt8) (rest : List UInt8) (va : UInt32) : Insn :=
  match form op with
  | .bare => insn (i + 1) (bareText op)
  | .imm8 =>
    match rest with
    | [] => unknownInsn p (i + 1)
    | b :: _ => insn (i + 2) (imm8Text op b (va + UInt32.ofNat (i + 2)))
  | .imm32 =>
    match rest with
    | b0 :: b1 :: b2 :: b3 :: _ =>
      insn (i + 5) (imm32Text op (word b0 b1 b2 b3) (va + UInt32.ofNat (i + 5)))
    | _ => unknownInsn p (i + (rest.length + 1))
  | .modrm missing extra =>
    let mlen := match modrmTotal rest with
      | none => missing
      | some m => m + extra
    insn (min (i + 1 + mlen) (i + (rest.length + 1))) (modrmText op)
  | .unknown => unknownInsn p (i + 1)

def twoByte (p : List UInt8) (i : Nat) (rest : List UInt8) (va : UInt32) : Insn :=
  match rest with
  | [] => unknownInsn p (i + 1)
  | op2 :: rest =>
    if between 0x80 op2 0x8f then
      match rest with
      | b0 :: b1 :: b2 :: b3 :: _ =>
        insn (i + 6) (.jcc (va + UInt32.ofNat (i + 6) + word b0 b1 b2 b3))
      | _ => unknownInsn p (i + (rest.length + 2))
    else if op2 = 0xa2 then insn (i + 2) .cpuid
    else if op2 = 0x31 then insn (i + 2) .rdtsc
    else if op2 = 0xb6 ∨ op2 = 0xb7 ∨ op2 = 0xbe ∨ op2 = 0xbf then
      let mlen := (modrmTotal rest).getD 0
      if rest.length + 2 < 2 + mlen then unknownInsn p (i + 1) else insn (i + 2 + mlen) .movx
    else insn (min (i + 2 + (modrmTotal rest).getD 1) (i + (rest.length + 2))) (.twoByte op2)

def isSkipped (b : UInt8) : Bool := b = 0xf0 ∨ b = 0xf2 ∨ b = 0xf3 ∨ b = 0x66 ∨ b = 0x67

/-- The loop over the prefixes, at most `room` of them. -/
def prefixCount : Nat → List UInt8 → Nat
  | 0, _ => 0
  | _, [] => 0
  | room + 1, b :: p => if isSkipped b then prefixCount room p + 1 else 0

/-- `disasm_insn_print`, with `p` the bytes that are left. -/
def disasmInsnPrint (p : List UInt8) (va : UInt32) : Insn :=
  let i := prefixCount 4 p
  match p.drop i with
  | [] => ⟨1, none⟩
  | op :: rest => if op = 0x0f then twoByte p i rest va else oneByte p i op rest va

/-- The loop of `dump_disasm` over a section: the positions at which an instruction is
printed. Every turn goes on by at least one byte. -/
def visitLoop (code : List UInt8) (va : UInt32) : Nat → Nat → List Nat
  | 0, _ => []
  | fuel + 1, pos =>
    if pos < code.length then
      let step := (disasmInsnPrint (code.drop pos) (va + UInt32.ofNat pos)).length
      pos :: visitLoop code va fuel (pos + (if step < 1 then 1 else step))
    else []

def visits (code : List UInt8) (va : UInt32) : List Nat := visitLoop code va code.length 0

/-! ### The instruction set

The forms of the reference manual for 32-bit code. -/

/-- A ModRM byte with the SIB byte and the displacement that belong to it. -/
inductive Operand : List UInt8 → Prop
  | register (m : UInt8) (mod : modOf m = 3) : Operand [m]
  | indirect (m : UInt8) (mod : modOf m = 0) (rm : lowOf m ≠ 4 ∧ lowOf m ≠ 5) : Operand [m]
  | absolute (m : UInt8) (disp : List UInt8) (mod : modOf m = 0) (rm : lowOf m = 5)
      (size : disp.length = 4) : Operand (m :: disp)
  | near (m disp : UInt8) (mod : modOf m = 1) (rm : lowOf m ≠ 4) : Operand [m, disp]
  | far (m : UInt8) (disp : List UInt8) (mod : modOf m = 2) (rm : lowOf m ≠ 4)
      (size : disp.length = 4) : Operand (m :: disp)
  | sib (m sib : UInt8) (mod : modOf m = 0) (rm : lowOf m = 4) (base : lowOf sib ≠ 5) :
      Operand [m, sib]
  | sibAbsolute (m sib : UInt8) (disp : List UInt8) (mod : modOf m = 0) (rm : lowOf m = 4)
      (base : lowOf sib = 5) (size : disp.length = 4) : Operand (m :: sib :: disp)
  | sibNear (m sib disp : UInt8) (mod : modOf m = 1) (rm : lowOf m = 4) : Operand [m, sib, disp]
  | sibFar (m sib : UInt8) (disp : List UInt8) (mod : modOf m = 2) (rm : lowOf m = 4)
      (size : disp.length = 4) : Operand (m :: sib :: disp)

def isBare (op : UInt8) : Bool := between 0x50 op 0x5f || op = 0x90 || op = 0xc3 || op = 0xc9

def hasImm8 (op : UInt8) : Bool := op = 0x6a || between 0x70 op 0x7f || op = 0xcd || op = 0xeb

def hasImm32 (op : UInt8) : Bool := op = 0x68 || between 0xb8 op 0xbf || op = 0xe8 || op = 0xe9

def hasModrm (op : UInt8) : Bool :=
  op = 0x39 || op = 0x3b || op = 0x85 || op = 0x89 || op = 0x8b || op = 0x8d || op = 0xff

inductive Body : UInt8 → List UInt8 → Prop
  | bare (op : UInt8) (is : isBare op = true) : Body op []
  | imm8 (op imm : UInt8) (is : hasImm8 op = true) : Body op [imm]
  | imm32 (op : UInt8) (imm : List UInt8) (is : hasImm32 op = true) (size : imm.length = 4) :
      Body op imm
  | modrm (op : UInt8) (operand : List UInt8) (is : hasModrm op = true)
      (complete : Operand operand) : Body op operand
  | arith8 (operand : List UInt8) (imm : UInt8) (complete : Operand operand) :
      Body 0x83 (operand ++ [imm])
  | arith32 (operand imm : List UInt8) (complete : Operand operand) (size : imm.length = 4) :
      Body 0x81 (operand ++ imm)
  | jcc (op2 : UInt8) (rel : List UInt8) (is : between 0x80 op2 0x8f = true)
      (size : rel.length = 4) : Body 0x0f (op2 :: rel)

/-- The prefixes other than those for the operand and the address size: lock and repeat,
and the segment overrides. -/
def lockRepeat : List UInt8 := [0xf0, 0xf2, 0xf3]

def segmentOverride : List UInt8 := [0x26, 0x2e, 0x36, 0x3e, 0x64, 0x65]

/-- A complete instruction with one of the opcodes above. -/
structure Instruction where
  prefixes : List UInt8
  opcode : UInt8
  rest : List UInt8
  allowed : ∀ b ∈ prefixes, b ∈ lockRepeat ++ segmentOverride
  body : Body opcode rest

namespace Instruction

def bytes (ins : Instruction) : List UInt8 := ins.prefixes ++ ins.opcode :: ins.rest

/-- No segment override, at most four prefixes, and not the opcode 0x83. -/
def Followed (ins : Instruction) : Prop :=
  (∀ b ∈ ins.prefixes, b ∈ lockRepeat) ∧ ins.prefixes.length ≤ 4 ∧ ins.opcode ≠ 0x83

end Instruction

def starts : Nat → List Instruction → List Nat
  | _, [] => []
  | pos, ins :: code => pos :: starts (pos + ins.bytes.length) code

theorem forall_byte {P : UInt8 → Prop} (all : ∀ n < 256, P (UInt8.ofNat n)) (b : UInt8) : P b := by
  have := all b.toNat b.toNat_lt
  rwa [UInt8.ofNat_toNat] at this

/-- The branch that each kind of first byte takes. -/
theorem form_table : ∀ b : UInt8, (isBare b = true → form b = .bare ∧ b ≠ 0x0f) ∧
    (hasImm8 b = true → form b = .imm8 ∧ b ≠ 0x0f) ∧
    (hasImm32 b = true → form b = .imm32 ∧ b ≠ 0x0f) ∧
    (hasModrm b = true → form b = .modrm 1 0 ∧ b ≠ 0x0f ∧ b ≠ 0x83) := by
  exact forall_byte (by decide +kernel)

theorem skip_table : ∀ b : UInt8, (isSkipped b = true → form b = .unknown ∧ b ≠ 0x0f) ∧
    (b ∈ lockRepeat ++ segmentOverride → (form b = .unknown ∧ b ≠ 0x0f) ∧
      (isSkipped b = true ↔ b ∈ lockRepeat)) := by
  exact forall_byte (by decide +kernel)

theorem form_of_isBare (op : UInt8) : isBare op = true → form op = .bare ∧ op ≠ 0x0f :=
  (form_table op).1

theorem form_of_hasImm8 (op : UInt8) : hasImm8 op = true → form op = .imm8 ∧ op ≠ 0x0f :=
  (form_table op).2.1

theorem form_of_hasImm32 (op : UInt8) : hasImm32 op = true → form op = .imm32 ∧ op ≠ 0x0f :=
  (form_table op).2.2.1

theorem form_of_hasModrm (op : UInt8) :
    hasModrm op = true → form op = .modrm 1 0 ∧ op ≠ 0x0f ∧ op ≠ 0x83 :=
  (form_table op).2.2.2

theorem form_arith8 : form 0x83 = .modrm 2 0 := by decide

theorem form_arith32 : form 0x81 = .modrm 5 4 := by decide

theorem isSkipped_of_form (op : UInt8) : isSkipped op = true → form op = .unknown ∧ op ≠ 0x0f :=
  (skip_table op).1

theorem form_of_allowed (b : UInt8) (allowed : b ∈ lockRepeat ++ segmentOverride) :
    (form b = .unknown ∧ b ≠ 0x0f) ∧ (isSkipped b = true ↔ b ∈ lockRepeat) :=
  (skip_table b).2 allowed

theorem modrmTotal_operand {operand : List UInt8} (complete : Operand operand) (t : List UInt8) :
    modrmTotal (operand ++ t) = some operand.length := by
  cases complete with
  | register m mod => simp [modrmTotal, mod]
  | indirect m mod rm => simp [modrmTotal, mod, rm.1, rm.2, dispSize]
  | absolute m disp mod rm size | far m disp mod rm size | sibFar m sib disp mod rm size =>
    simp [modrmTotal, mod, rm, dispSize, size]
  | near m disp mod rm | sibNear m sib disp mod rm => simp [modrmTotal, mod, rm, dispSize]
  | sib m sib mod rm base => simp [modrmTotal, mod, rm, base, dispSize]
  | sibAbsolute m sib disp mod rm base size => simp [modrmTotal, mod, rm, base, dispSize, size]

theorem exists_four {s : List UInt8} (size : s.length = 4) :
    ∃ a b c d, s = [a, b, c, d] := List.length_eq_four.mp size

variable {op : UInt8} {rest : List UInt8}

theorem oneByte_modrm {missing extra : Nat} (branch : form op = .modrm missing extra)
    {operand : List UInt8} (complete : Operand operand) (p t : List UInt8) (i : Nat) (va : UInt32) :
    (oneByte p i op (operand ++ t) va).length =
      min (i + 1 + (operand.length + extra)) (i + (operand.length + t.length + 1)) := by
  simp only [oneByte, branch, modrmTotal_operand complete, insn, List.length_append]

/-- The length of what stands after the prefixes: complete for every opcode but 0x83, one
byte short for that. -/
theorem body_length (body : Body op rest) (p t : List UInt8) (i : Nat) (va : UInt32) :
    (if op = 0x0f then twoByte p i (rest ++ t) va else oneByte p i op (rest ++ t) va).length =
      i + rest.length + (if op = 0x83 then 0 else 1) := by
  cases body with
  | bare _ is =>
    obtain ⟨branch, one⟩ := form_of_isBare op is
    have other : op ≠ 0x83 := by
      rintro rfl
      cases is
    simp [one, other, oneByte, branch, insn]
  | imm8 _ imm is =>
    obtain ⟨branch, one⟩ := form_of_hasImm8 op is
    have other : op ≠ 0x83 := by
      rintro rfl
      cases is
    simp [one, other, oneByte, branch, insn]
  | imm32 _ imm is size =>
    obtain ⟨branch, one⟩ := form_of_hasImm32 op is
    have other : op ≠ 0x83 := by
      rintro rfl
      cases is
    obtain ⟨a, b, c, d, rfl⟩ := exists_four size
    simp [one, other, oneByte, branch, insn]
  | modrm _ operand is complete =>
    obtain ⟨branch, one, other⟩ := form_of_hasModrm op is
    rw [if_neg one, if_neg other, oneByte_modrm branch complete]
    omega
  | arith8 operand imm complete =>
    rw [if_neg (by decide), if_pos rfl, List.append_assoc, oneByte_modrm form_arith8 complete]
    simp only [List.length_append, List.length_singleton]
    omega
  | arith32 operand imm complete size =>
    rw [if_neg (by decide), if_neg (by decide), List.append_assoc,
      oneByte_modrm form_arith32 complete]
    simp only [List.length_append, size]
    omega
  | jcc op2 rel is size =>
    obtain ⟨a, b, c, d, rfl⟩ := exists_four size
    simp [twoByte, is, insn]

theorem body_opcode (body : Body op rest) : isSkipped op = false := by
  rw [← Bool.not_eq_true]
  intro skipped
  obtain ⟨unknown, one⟩ := isSkipped_of_form op skipped
  cases body with
  | bare _ is => rw [(form_of_isBare op is).1] at unknown; cases unknown
  | imm8 _ imm is => rw [(form_of_hasImm8 op is).1] at unknown; cases unknown
  | imm32 _ imm is size => rw [(form_of_hasImm32 op is).1] at unknown; cases unknown
  | modrm _ operand is complete => rw [(form_of_hasModrm op is).1] at unknown; cases unknown
  | arith8 operand imm complete => cases unknown
  | arith32 operand imm complete size => cases unknown
  | jcc op2 rel is size => exact one rfl

/-- The prefixes are all skipped, or the loop ends before the last of them. -/
theorem prefixCount_cases (room : Nat) (prefixes : List UInt8) (op : UInt8) (t : List UInt8)
    (opcode : isSkipped op = false) : prefixCount room (prefixes ++ op :: t) = prefixes.length ∧
        (∀ b ∈ prefixes, isSkipped b = true) ∧ prefixes.length ≤ room ∨
      prefixCount room (prefixes ++ op :: t) < prefixes.length ∧
        ¬ ((∀ b ∈ prefixes, isSkipped b = true) ∧ prefixes.length ≤ room) := by
  induction prefixes generalizing room with
  | nil =>
    apply Or.inl
    cases room <;> simp [prefixCount, opcode]
  | cons b prefixes ih =>
    cases room with
    | zero =>
      apply Or.inr
      simp [prefixCount]
    | succ room =>
      rw [List.cons_append, prefixCount, List.forall_mem_cons, List.length_cons]
      by_cases skipped : isSkipped b = true
      · rw [if_pos skipped]
        rcases ih room with all | short
        · exact Or.inl ⟨by omega, ⟨skipped, all.2.1⟩, by omega⟩
        · refine Or.inr ⟨by omega, fun all => short.2 ⟨all.1.2, by omega⟩⟩
      · rw [if_neg skipped]
        exact Or.inr ⟨Nat.succ_pos _, fun all => skipped all.1.1⟩

theorem body_arith8_ne_nil (body : Body op rest) (arith : op = 0x83) : rest ≠ [] := by
  cases body with
  | bare _ is =>
    rw [arith] at is
    cases is
  | imm8 _ imm is => exact List.cons_ne_nil _ _
  | imm32 _ imm is size =>
    rintro rfl
    cases size
  | modrm _ operand is complete =>
    rw [arith] at is
    cases is
  | arith8 operand imm complete => exact List.append_ne_nil_of_right_ne_nil _ (List.cons_ne_nil _ _)
  | arith32 operand imm complete size => exact absurd arith (by decide)
  | jcc op2 rel is size => exact List.cons_ne_nil _ _

namespace Instruction

variable (ins : Instruction)

theorem bytes_length : ins.bytes.length = ins.prefixes.length + ins.rest.length + 1 := by
  rw [bytes, List.length_append, List.length_cons, Nat.add_assoc]

theorem followed_iff : ins.Followed ↔
      ((∀ b ∈ ins.prefixes, isSkipped b = true) ∧ ins.prefixes.length ≤ 4) ∧ ins.opcode ≠ 0x83 := by
  have same : (∀ b ∈ ins.prefixes, isSkipped b = true) ↔ ∀ b ∈ ins.prefixes, b ∈ lockRepeat :=
    forall₂_congr (fun b member => (form_of_allowed b (ins.allowed b member)).2)
  rw [Followed, same, and_assoc]

variable (t : List UInt8) (va : UInt32)

/-- Where all prefixes are skipped, the length lacks one byte for the opcode 0x83. -/
theorem length_skipped (count : prefixCount 4 (ins.bytes ++ t) = ins.prefixes.length) :
    (disasmInsnPrint (ins.bytes ++ t) va).length =
      ins.prefixes.length + ins.rest.length + (if ins.opcode = 0x83 then 0 else 1) := by
  have tail : (ins.bytes ++ t).drop ins.prefixes.length = ins.opcode :: (ins.rest ++ t) := by
    rw [bytes, List.append_assoc, List.drop_left, List.cons_append]
  rw [disasmInsnPrint, count, tail]
  exact body_length ins.body _ _ _ _

/-- A prefix that is not skipped is taken for an opcode of one byte. -/
theorem length_stopped (count : prefixCount 4 (ins.bytes ++ t) < ins.prefixes.length) :
    (disasmInsnPrint (ins.bytes ++ t) va).length = prefixCount 4 (ins.bytes ++ t) + 1 := by
  have tail : (ins.bytes ++ t).drop (prefixCount 4 (ins.bytes ++ t)) =
      ins.prefixes[prefixCount 4 (ins.bytes ++ t)] ::
        (ins.prefixes.drop (prefixCount 4 (ins.bytes ++ t) + 1) ++
          (ins.opcode :: (ins.rest ++ t))) := by
    generalize prefixCount 4 (ins.bytes ++ t) = k at count
    rw [bytes, List.append_assoc, List.drop_append_of_le_length (by omega),
      List.drop_eq_getElem_cons count, List.cons_append, List.cons_append]
  obtain ⟨⟨unknown, one⟩, -⟩ := form_of_allowed _ (ins.allowed _ (List.getElem_mem count))
  rw [disasmInsnPrint, tail]
  dsimp only
  rw [if_neg one]
  simp only [oneByte, unknown, unknownInsn, insn]

/-- The length is right for the instructions above, and too short for all others. -/
theorem length_cases :
    ins.Followed ∧ (disasmInsnPrint (ins.bytes ++ t) va).length = ins.bytes.length ∨
      ¬ ins.Followed ∧ 0 < (disasmInsnPrint (ins.bytes ++ t) va).length ∧
        (disasmInsnPrint (ins.bytes ++ t) va).length < ins.bytes.length := by
  have whole : ins.bytes ++ t = ins.prefixes ++ ins.opcode :: (ins.rest ++ t) := by
    rw [bytes, List.append_assoc, List.cons_append]
  rw [followed_iff, bytes_length]
  rcases prefixCount_cases 4 ins.prefixes ins.opcode (ins.rest ++ t) (body_opcode ins.body) with
    all | short
  · rw [← whole] at all
    rw [ins.length_skipped t va all.1]
    by_cases arith : ins.opcode = 0x83
    · have some := List.length_pos_of_ne_nil (body_arith8_ne_nil ins.body arith)
      rw [if_pos arith]
      exact Or.inr ⟨fun followed => followed.2 arith, by omega, by omega⟩
    · rw [if_neg arith]
      exact Or.inl ⟨⟨all.2, arith⟩, rfl⟩
  · rw [← whole] at short
    rw [ins.length_stopped t va short.1]
    exact Or.inr ⟨fun followed => short.2 followed.1, by omega, by omega⟩

end Instruction

/-- A position that is not the next one begins another list of positions. -/
theorem visitLoop_ne_starts (code : List UInt8) (va : UInt32) (fuel pos next : Nat)
    (rest : List Instruction) (turn : 0 < fuel) (inside : pos < code.length) (other : pos ≠ next) :
    visitLoop code va fuel pos ≠ starts next rest := by
  cases fuel with
  | zero => exact absurd turn (Nat.lt_irrefl 0)
  | succ fuel =>
    rw [visitLoop, if_pos inside]
    cases rest with
    | nil => exact List.cons_ne_nil _ _
    | cons ins rest =>
      intro same
      rw [starts, List.cons.injEq] at same
      exact other same.1

theorem visitLoop_iff (code : List Instruction) (va : UInt32) (before : List UInt8) (fuel : Nat)
    (enough : (code.flatMap Instruction.bytes).length ≤ fuel) :
    visitLoop (before ++ code.flatMap Instruction.bytes) va fuel before.length =
        starts before.length code ↔ ∀ ins ∈ code, ins.Followed := by
  induction code generalizing before fuel with
  | nil =>
    rw [List.flatMap_nil, List.append_nil]
    cases fuel with
    | zero => simp [visitLoop, starts]
    | succ fuel => simp [visitLoop, starts]
  | cons ins code ih =>
    have size := ins.bytes_length
    rw [List.flatMap_cons, List.length_append] at enough
    cases fuel with
    | zero => omega
    | succ fuel =>
      have inside : before.length < (before ++ (ins :: code).flatMap Instruction.bytes).length := by
        rw [List.flatMap_cons, List.length_append, List.length_append]
        omega
      rw [visitLoop, if_pos inside, starts, List.flatMap_cons, List.drop_left, List.forall_mem_cons]
      dsimp only
      rw [List.cons.injEq]
      simp only [true_and]
      rcases ins.length_cases (code.flatMap Instruction.bytes)
        (va + UInt32.ofNat before.length) with exactly | short
      · rw [exactly.2, if_neg (by omega), ← List.append_assoc, ← List.length_append,
          ih (before ++ ins.bytes) fuel (by omega)]
        exact (and_iff_right exactly.1).symm
      · -- the next position is inside the instruction
        rw [if_neg (by omega)]
        have lost := visitLoop_ne_starts (before ++ (ins.bytes ++ code.flatMap Instruction.bytes))
          va fuel (before.length + (disasmInsnPrint (ins.bytes ++ code.flatMap Instruction.bytes)
            (va + UInt32.ofNat before.length)).length) (before.length + ins.bytes.length) code
          (by omega) (by rw [List.length_append, List.length_append]; omega) (by omega)
        exact iff_of_false lost (fun all => short.1 all.1)

/-- The positions visited are the beginnings of the instructions exactly when none of these
has the opcode 0x83, a segment override or more than four prefixes. -/
theorem visits_eq_starts_iff (code : List Instruction) (va : UInt32) :
    visits (code.flatMap Instruction.bytes) va = starts 0 code ↔ ∀ ins ∈ code, ins.Followed :=
  visitLoop_iff code va [] _ (Nat.le_refl _)

/-- `add $1,%eax` -/
def addOne : Instruction where
  prefixes := []
  opcode := 0x83
  rest := [0xc0, 0x01]
  allowed := fun b none => absurd none List.not_mem_nil
  body := .arith8 [0xc0] 0x01 (.register 0xc0 (by decide))

/-- The immediate byte of `add $1,%eax` is taken for an instruction of its own. -/
theorem visits_inside_addOne : visits (addOne.bytes) 0 = [0, 2] ∧ starts 0 [addOne] = [0] := by
  decide

end SirpairOs.Disasm
