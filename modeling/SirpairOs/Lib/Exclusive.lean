import Mathlib.Logic.Function.Basic

set_option autoImplicit false

/-! Exclusive ownership of numbered resources. Every slot holds the number of a
resource or zero; no resource is held twice, and every held one is in use. -/
namespace SirpairOs

variable {ι : Type}

structure Exclusive (addr : ι → Nat) (used : Nat → Prop) : Prop where
  inj : ∀ {s t}, addr s ≠ 0 → addr s = addr t → s = t
  used : ∀ {s}, addr s ≠ 0 → used (addr s)

namespace Exclusive

variable {addr addr' : ι → Nat} {used used' : Nat → Prop}

theorem fresh (own : Exclusive addr used) {b : Nat} (free : ¬ used b) (real : b ≠ 0) (s : ι) :
    addr s ≠ b := by
  intro same
  exact free (same ▸ own.used (same.trans_ne real))

/-- Slots may lose what they hold, and more resources may be in use. -/
theorem mono (own : Exclusive addr used) (kept : ∀ s, addr' s = addr s ∨ addr' s = 0)
    (still : ∀ s, addr' s ≠ 0 → used (addr s) → used' (addr s)) : Exclusive addr' used' where
  inj := by
    intro s t held same
    have left := (kept s).resolve_right held
    have right := (kept t).resolve_right (same ▸ held)
    exact own.inj (left ▸ held) (left.symm.trans (same.trans right))
  used := by
    intro s held
    have left := (kept s).resolve_right held
    rw [left] at held ⊢
    exact still s (left ▸ held) (own.used held)

/-- An empty slot receives a free resource. -/
theorem assign [DecidableEq ι] (own : Exclusive addr used) {s : ι} {b : Nat} (free : ¬ used b)
    (real : b ≠ 0) : Exclusive (Function.update addr s b) fun x => x = b ∨ used x where
  inj := by
    intro t u held same
    by_cases first : t = s
    · by_cases second : u = s
      · rw [first, second]
      · rw [first, Function.update_self, Function.update_of_ne second] at same
        exact absurd same.symm (own.fresh free real u)
    · rw [Function.update_of_ne first] at held same
      by_cases second : u = s
      · rw [second, Function.update_self] at same
        exact absurd same (own.fresh free real t)
      · rw [Function.update_of_ne second] at same
        exact own.inj held same
  used := by
    intro t held
    by_cases first : t = s
    · rw [first, Function.update_self]
      exact .inl rfl
    · rw [Function.update_of_ne first] at held ⊢
      exact .inr (own.used held)

end Exclusive

end SirpairOs
