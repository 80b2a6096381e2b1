import Mathlib.Data.List.Infix

set_option autoImplicit false

/-! Where a pattern first occurs in a list, for lists that grow at the end. -/
namespace SirpairOs.Occurrence

variable {α : Type} [DecidableEq α] {pat : List α}

def firstEnd (pat : List α) : List α → Option Nat
  | [] => none
  | a :: s =>
    if pat.isPrefixOf (a :: s) then some pat.length else (firstEnd pat s).map (· + 1)

theorem firstEnd_spec {s : List α} {e : Nat} (found : firstEnd pat s = some e) :
    pat.length ≤ e ∧ e ≤ s.length := by
  induction s generalizing e with
  | nil => cases found
  | cons a s ih =>
    rw [firstEnd] at found
    split at found
    · rename_i here
      have fits := (List.isPrefixOf_iff_prefix.mp here).length_le
      rw [Option.some.injEq] at found
      omega
    · obtain ⟨later, inner, same⟩ := Option.map_eq_some_iff.mp found
      have := ih inner
      rw [List.length_cons]
      omega

/-- An occurrence that ends within the list does not need what comes after it. -/
theorem isPrefixOf_append_of_le {s : List α} (t : List α) (fits : pat.length ≤ s.length) :
    pat.isPrefixOf (s ++ t) = pat.isPrefixOf s := by
  rw [Bool.eq_iff_iff, List.isPrefixOf_iff_prefix, List.isPrefixOf_iff_prefix]
  constructor
  · intro longer
    exact List.prefix_of_prefix_length_le longer (List.prefix_append s t) fits
  · intro shorter
    exact shorter.trans (List.prefix_append s t)

/-- What has been found stays found. -/
theorem firstEnd_append {s : List α} {e : Nat} (found : firstEnd pat s = some e) (t : List α) :
    firstEnd pat (s ++ t) = some e := by
  induction s generalizing e with
  | nil => cases found
  | cons a s ih =>
    have fits := firstEnd_spec found
    rw [List.cons_append, firstEnd, ← List.cons_append, isPrefixOf_append_of_le t (by omega)]
    rw [firstEnd] at found
    split at found
    · rename_i here
      rw [if_pos here, found]
    · rename_i elsewhere
      obtain ⟨later, inner, same⟩ := Option.map_eq_some_iff.mp found
      rw [if_neg elsewhere, ih inner, Option.map_some, same]

/-- What is found only later ends later. -/
theorem length_lt_firstEnd (nonempty : pat ≠ []) {s t : List α} {e : Nat}
    (absent : firstEnd pat s = none) (found : firstEnd pat (s ++ t) = some e) : s.length < e := by
  induction s generalizing e with
  | nil =>
    have := firstEnd_spec found
    have := List.length_pos_of_ne_nil nonempty
    rw [List.length_nil]
    omega
  | cons a s ih =>
    rw [firstEnd, ite_eq_iff] at absent
    have elsewhere := absent.resolve_left (fun here => Option.some_ne_none _ here.2)
    rw [List.cons_append, firstEnd, ← List.cons_append] at found
    split at found
    · rename_i here
      rw [Option.some.injEq] at found
      by_contra short
      rw [isPrefixOf_append_of_le t (by omega)] at here
      exact elsewhere.1 here
    · obtain ⟨later, inner, same⟩ := Option.map_eq_some_iff.mp found
      have := ih (Option.map_eq_none_iff.mp elsewhere.2) inner
      rw [List.length_cons]
      omega

end SirpairOs.Occurrence
