import Mathlib.Algebra.Order.BigOperators.Group.Finset

set_option autoImplicit false

/-! Totals over a finite family when one member changes. -/
namespace SirpairOs

variable {ι α : Type} [Fintype ι]

/-- One member of the family changes. -/
theorem sum_change {κ : Type} [DecidableEq κ] {s : Finset κ} {f g : κ → Nat} {k : κ} (member : k ∈ s)
    (same : ∀ j ∈ s, j ≠ k → g j = f j) : ∑ j ∈ s, g j + f k = ∑ j ∈ s, f j + g k := by
  rw [← Finset.add_sum_erase s g member, ← Finset.add_sum_erase s f member]
  have rest : ∑ j ∈ s.erase k, g j = ∑ j ∈ s.erase k, f j :=
    Finset.sum_congr rfl fun j other =>
      same j (Finset.mem_of_mem_erase other) (Finset.ne_of_mem_erase other)
  omega

theorem sum_update [DecidableEq ι] (weight : α → Nat) (family : ι → α) (i : ι) (value : α) :
    ∑ j, weight (Function.update family i value j) + weight (family i) =
      ∑ j, weight (family j) + weight value := by
  have change := sum_change (g := fun j => weight (Function.update family i value j))
    (f := fun j => weight (family j)) (Finset.mem_univ i)
    fun j _ other => by rw [Function.update_of_ne other]
  rwa [Function.update_self] at change

theorem le_sum (weight : α → Nat) (family : ι → α) (i : ι) :
    weight (family i) ≤ ∑ j, weight (family j) :=
  Finset.single_le_sum (f := fun j => weight (family j)) (fun _ _ => Nat.zero_le _)
    (Finset.mem_univ i)

theorem add_le_sum (weight : α → Nat) (family : ι → α) {i j : ι} (ne : i ≠ j) :
    weight (family i) + weight (family j) ≤ ∑ k, weight (family k) := by
  classical
  rw [← Finset.sum_pair (f := fun k => weight (family k)) ne]
  exact Finset.sum_le_sum_of_subset (Finset.subset_univ _)

/-- What is new in a union is new in the first set, or then new in the second. -/
theorem card_union_sdiff {κ : Type} [DecidableEq κ] (first second old : Finset κ) :
    ((first ∪ second) \ old).card = (first \ old).card + (second \ (old ∪ first)).card := by
  rw [← Finset.card_union_of_disjoint]
  · congr 1
    ext i
    simp only [Finset.mem_sdiff, Finset.mem_union]
    tauto
  · rw [Finset.disjoint_left]
    intro i
    simp only [Finset.mem_sdiff, Finset.mem_union]
    tauto

end SirpairOs
