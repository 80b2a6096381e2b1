import Mathlib.Data.List.GetD
import SirpairOs.Lib.Program

set_option autoImplicit false

/-! Programs whose only operation is to read the byte at an offset of a message. Which
offsets a program reads is `Prog.Only`; what it computes is `ByteReader.value`. -/
namespace SirpairOs

abbrev ByteReader : Type → Type := Prog Nat fun _ => UInt8

def readByte (off : Nat) : ByteReader UInt8 := .perform off

def readBytes (off : Nat) : Nat → ByteReader (List UInt8)
  | 0 => pure []
  | len + 1 => do
    let byte ← readByte off
    let rest ← readBytes (off + 1) len
    pure (byte :: rest)

namespace ByteReader

variable {α β : Type} {mem : Nat → UInt8}

/-- The result of a program in a memory where the message starts at offset zero. -/
def value (mem : Nat → UInt8) : ByteReader α → α
  | .ret a => a
  | .op off next => value mem (next (mem off))

@[simp] theorem value_pure (a : α) : value mem (pure a) = a := rfl

@[simp] theorem value_bind (p : ByteReader α) (f : α → ByteReader β) :
    value mem (p >>= f) = value mem (f (value mem p)) := by
  induction p with
  | ret a => rfl
  | op off next ih => exact ih (mem off)

@[simp] theorem value_readByte (off : Nat) : value mem (readByte off) = mem off := rfl

def Holds (mem : Nat → UInt8) (d : List UInt8) : Prop := ∀ i < d.length, mem i = d.getD i 0

theorem holds_self (d : List UInt8) : Holds (fun i => d.getD i 0) d := fun _ _ => rfl

variable {d part rest : List UInt8} {off : Nat}

theorem Holds.getElem (holds : Holds mem d) {i : Nat} (inside : i < d.length) : mem i = d[i] := by
  rw [holds i inside, List.getD_eq_getElem _ _ inside]

theorem Holds.next (holds : Holds mem d) {byte : UInt8} (from_here : d.drop off = byte :: rest) :
    off < d.length ∧ mem off = byte ∧ d.drop (off + 1) = rest := by
  have inside : off < d.length := by
    by_contra beyond
    rw [List.drop_eq_nil_of_le (by omega)] at from_here
    exact absurd from_here.symm (List.cons_ne_nil byte rest)
  rw [List.drop_eq_getElem_cons inside, List.cons.injEq] at from_here
  exact ⟨inside, (holds.getElem inside).trans from_here.1, from_here.2⟩

theorem drop_part (from_here : d.drop off = part ++ rest) : d.drop (off + part.length) = rest := by
  rw [← List.drop_drop, from_here, List.drop_left]

theorem value_readBytes (holds : Holds mem d) {len : Nat} (inside : off + len ≤ d.length) :
    value mem (readBytes off len) = (d.drop off).take len := by
  induction len generalizing off with
  | zero => rfl
  | succ len ih =>
    have here : off < d.length := by omega
    rw [readBytes, value_bind, value_bind, ih (by omega), value_readByte, holds.getElem here,
      List.drop_eq_getElem_cons here, List.take_succ_cons]
    rfl

theorem part_inside (from_here : d.drop off = part ++ rest) (nonempty : 0 < part.length) :
    off + part.length ≤ d.length := by
  have whole := congrArg List.length from_here
  rw [List.length_drop, List.length_append] at whole
  omega

theorem value_readBytes_part (holds : Holds mem d) (from_here : d.drop off = part ++ rest) :
    value mem (readBytes off part.length) = part := by
  induction part generalizing off with
  | nil => rfl
  | cons byte part ih =>
    obtain ⟨_, first, others⟩ := holds.next from_here
    rw [List.length_cons, readBytes, value_bind, value_bind, ih others, value_readByte, first]
    rfl

theorem readByte_only {n : Nat} (inside : off < n) : (readByte off).Only (· < n) :=
  (Prog.only_perform off).mpr inside

theorem readBytes_only {len n : Nat} (inside : off + len ≤ n) :
    (readBytes off len).Only (· < n) := by
  induction len generalizing off with
  | zero => trivial
  | succ len ih =>
    apply Prog.Only.bind (readByte_only (by omega))
    intro byte
    apply Prog.Only.bind (ih (by omega))
    intro rest
    trivial

end ByteReader

end SirpairOs
