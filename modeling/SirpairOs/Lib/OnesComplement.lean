import Mathlib.Data.List.Basic
import Mathlib.Algebra.Ring.Nat
import Mathlib.Algebra.Ring.Int.Defs

set_option autoImplicit false

/-! One's complement sums. The largest number `m` and zero both stand for zero; a carry
out of the top is added at the bottom. -/
namespace SirpairOs

/-- Addition with an end-around carry. -/
def onesAdd (m x y : Nat) : Nat := if m < x + y then x + y - m else x + y

def onesSum (m : Nat) (ws : List Nat) : Nat := ws.foldl (onesAdd m) 0

/-- `s` is a representation of the number `n`: it is zero for zero only. -/
structure Ones (m n s : Nat) : Prop where
  le : s ≤ m
  mod : s % m = n % m
  zero : s = 0 ↔ n = 0

namespace Ones

variable {m n s : Nat}

/-- Numbers that are not zero have the representation `m` if and only if they are multiples. -/
theorem eq_max_iff (ones : Ones m n s) : s = m ↔ n % m = 0 ∧ (m = 0 ∨ 0 < n) := by
  have mod := ones.mod
  have zero := ones.zero
  constructor
  · intro max
    rw [max, Nat.mod_self] at mod
    refine ⟨mod.symm, ?_⟩
    omega
  · rintro ⟨multiple, positive⟩
    rw [multiple] at mod
    rcases Nat.lt_or_ge s m with less | more
    · rw [Nat.mod_eq_of_lt less] at mod
      omega
    · have le := ones.le
      omega

theorem unique {t : Nat} (left : Ones m n s) (right : Ones m n t) : s = t := by
  rcases Nat.lt_or_ge s m with less | more
  · rcases Nat.lt_or_ge t m with less' | more'
    · have same := left.mod.trans right.mod.symm
      rwa [Nat.mod_eq_of_lt less, Nat.mod_eq_of_lt less'] at same
    · have max : t = m := Nat.le_antisymm right.le more'
      have self := left.eq_max_iff.mpr (right.eq_max_iff.mp max)
      omega
  · have max : s = m := Nat.le_antisymm left.le more
    rw [max]
    exact (right.eq_max_iff.mpr (left.eq_max_iff.mp max)).symm

theorem add {n' y : Nat} (left : Ones m n s) (right : Ones m n' y) :
    Ones m (n + n') (onesAdd m s y) := by
  have sum : (s + y) % m = (n + n') % m := by
    rw [Nat.add_mod, left.mod, right.mod, ← Nat.add_mod]
  have le := left.le
  have le' := right.le
  have zero := left.zero
  have zero' := right.zero
  unfold onesAdd
  split
  · rename_i carry
    refine ⟨by omega, ?_, by omega⟩
    rw [← sum, ← Nat.add_mod_right (s + y - m), Nat.sub_add_cancel (by omega)]
  · exact ⟨by omega, sum, by omega⟩

theorem self (small : n ≤ m) : Ones m n n := ⟨small, rfl, Iff.rfl⟩

theorem foldl {ws : List Nat} (small : ∀ w ∈ ws, w ≤ m) (start : Ones m n s) :
    Ones m (n + ws.sum) (ws.foldl (onesAdd m) s) := by
  induction ws generalizing n s with
  | nil => exact start
  | cons w rest ih =>
    rw [List.foldl_cons, List.sum_cons, ← Nat.add_assoc]
    apply ih
    · intro v member
      exact small v (List.mem_cons_of_mem w member)
    · exact start.add (self (small w List.mem_cons_self))

end Ones

/-- The sum with end-around carries represents the sum. -/
theorem onesSum_ones {m : Nat} {ws : List Nat} (small : ∀ w ∈ ws, w ≤ m) :
    Ones m ws.sum (onesSum m ws) := by
  have folded := Ones.foldl small (Ones.self (Nat.zero_le m))
  rwa [Nat.zero_add] at folded

end SirpairOs
