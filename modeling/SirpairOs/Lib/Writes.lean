import Mathlib.Data.List.Nodup

set_option autoImplicit false

/-! Stores addressed by numbers, the effect of a list of writes on them, and
association lists in which a later write to a key replaces the earlier one. -/
namespace SirpairOs.Writes

variable {β : Type}

def apply (d : Nat → β) (ws : List (Nat × β)) : Nat → β :=
  ws.foldl (fun d w => Function.update d w.1 w.2) d

@[simp] theorem apply_nil (d : Nat → β) : apply d [] = d := rfl

@[simp] theorem apply_cons (d : Nat → β) (w : Nat × β) (ws : List (Nat × β)) :
    apply d (w :: ws) = apply (Function.update d w.1 w.2) ws := rfl

theorem apply_append (d : Nat → β) (ws vs : List (Nat × β)) :
    apply d (ws ++ vs) = apply (apply d ws) vs := by
  simp only [apply, List.foldl_append]

theorem apply_snoc (d : Nat → β) (ws : List (Nat × β)) (w : Nat × β) :
    apply d (ws ++ [w]) = Function.update (apply d ws) w.1 w.2 := by
  rw [apply_append, apply_cons, apply_nil]

def lookup (pend : List (Nat × β)) (x : Nat) : Option β :=
  (pend.find? fun p => p.1 = x).map Prod.snd

/-- Replace the value of a key in place, or append the key. -/
def absorb (pend : List (Nat × β)) (x : Nat) (v : β) : List (Nat × β) :=
  let i := (pend.map Prod.fst).idxOf x
  if i < pend.length then pend.set i (x, v) else pend ++ [(x, v)]

def absorbAll (pend : List (Nat × β)) (ws : List (Nat × β)) : List (Nat × β) :=
  ws.foldl (fun pend w => absorb pend w.1 w.2) pend

@[simp] theorem lookup_nil (x : Nat) : lookup ([] : List (Nat × β)) x = none := rfl

theorem lookup_cons (p : Nat × β) (pend : List (Nat × β)) (x : Nat) :
    lookup (p :: pend) x = if p.1 = x then some p.2 else lookup pend x := by
  by_cases same : p.1 = x <;> simp [lookup, same]

variable {pend : List (Nat × β)}

theorem lookup_of_getElem (nodup : (pend.map Prod.fst).Nodup) (i : Nat) (bound : i < pend.length) :
    lookup pend pend[i].1 = some pend[i].2 := by
  induction pend generalizing i with
  | nil => cases bound
  | cons p rest ih =>
    obtain ⟨absent, tail⟩ := List.nodup_cons.mp nodup
    rw [lookup_cons]
    cases i with
    | zero => simp only [List.getElem_cons_zero, ↓reduceIte]
    | succ i =>
      have bound' : i < rest.length := by simpa only [List.length_cons, Nat.succ_lt_succ_iff] using bound
      have apart : p.1 ≠ rest[i].1 := by
        intro same
        exact absent (same ▸ List.mem_map_of_mem (List.getElem_mem bound'))
      simp only [List.getElem_cons_succ, apart, ↓reduceIte]
      exact ih tail i bound'

theorem lookup_eq_none {x : Nat} (absent : x ∉ pend.map Prod.fst) : lookup pend x = none := by
  induction pend with
  | nil => rfl
  | cons p rest ih =>
    simp only [List.map_cons, List.mem_cons, not_or] at absent
    rw [lookup_cons, ih absent.2]
    simp only [Ne.symm absent.1, ↓reduceIte]

theorem keys_absorb (pend : List (Nat × β)) (x : Nat) (v : β) : (absorb pend x v).map Prod.fst =
      if x ∈ pend.map Prod.fst then pend.map Prod.fst else pend.map Prod.fst ++ [x] := by
  have known : (pend.map Prod.fst).idxOf x < pend.length ↔ x ∈ pend.map Prod.fst := by
    rw [← List.idxOf_lt_length_iff, List.length_map]
  simp only [absorb, known]
  split
  · rename_i member
    have bound := List.idxOf_lt_length_iff.mpr member
    rw [List.map_set]
    apply List.ext_getElem
    · simp only [List.length_set]
    · intro i left right
      rw [List.getElem_set]
      split
      · rename_i here
        subst here
        exact (List.getElem_idxOf bound).symm
      · rfl
  · simp only [List.map_append, List.map_cons, List.map_nil]

theorem nodup_absorb (nodup : (pend.map Prod.fst).Nodup) (x : Nat) (v : β) :
    ((absorb pend x v).map Prod.fst).Nodup := by
  rw [keys_absorb]
  split
  · exact nodup
  · rename_i absent
    rw [List.nodup_append]
    refine ⟨nodup, List.nodup_singleton x, ?_⟩
    intro a member b other same
    rw [List.mem_singleton.mp other] at same
    exact absent (same ▸ member)

theorem length_absorb (pend : List (Nat × β)) (x : Nat) (v : β) : (absorb pend x v).length =
      if (pend.map Prod.fst).idxOf x < pend.length then pend.length else pend.length + 1 := by
  simp only [absorb]
  split
  · simp only [List.length_set]
  · simp only [List.length_append, List.length_singleton]

theorem absorb_ne_nil (pend : List (Nat × β)) (x : Nat) (v : β) : absorb pend x v ≠ [] := by
  intro nothing
  have length := length_absorb pend x v
  rw [nothing, List.length_nil] at length
  split at length <;> omega

theorem absorbAll_eq_nil {ws : List (Nat × β)} : absorbAll pend ws = [] ↔ pend = [] ∧ ws = [] := by
  induction ws generalizing pend with
  | nil => simp only [absorbAll, List.foldl_nil, and_true]
  | cons w ws ih =>
    change absorbAll (absorb pend w.1 w.2) ws = [] ↔ _
    simp only [ih, absorb_ne_nil, false_and, reduceCtorEq, and_false]

/-- Absorbing touches one position: the key's own, or the next free one. -/
theorem getElem_absorb (pend : List (Nat × β)) (x : Nat) (v : β) (i : Nat)
    (bound : i < (absorb pend x v).length) :
    (absorb pend x v)[i] = if i = (pend.map Prod.fst).idxOf x then (x, v)
      else (pend[i]?).getD (x, v) := by
  have range : (pend.map Prod.fst).idxOf x ≤ pend.length := by
    simpa only [List.length_map] using List.idxOf_le_length (l := pend.map Prod.fst) (a := x)
  by_cases known : (pend.map Prod.fst).idxOf x < pend.length
  · have size : (absorb pend x v).length = pend.length := by
      rw [length_absorb]
      simp only [known, ↓reduceIte]
    have inside : i < pend.length := by omega
    simp only [absorb, known, ↓reduceIte, List.getElem_set, List.getElem?_eq_getElem inside,
      Option.getD_some]
    by_cases here : (pend.map Prod.fst).idxOf x = i
    · simp only [here, ↓reduceIte]
    · simp only [here, Ne.symm here, ↓reduceIte]
  · have fresh : (pend.map Prod.fst).idxOf x = pend.length := by omega
    have size : (absorb pend x v).length = pend.length + 1 := by
      rw [length_absorb]
      simp only [known, ↓reduceIte]
    simp only [absorb, fresh, Nat.lt_irrefl, ↓reduceIte]
    by_cases last : i = pend.length
    · subst last
      simp only [List.getElem_concat_length, ↓reduceIte]
    · have inside : i < pend.length := by omega
      simp only [last, ↓reduceIte, List.getElem?_eq_getElem inside, Option.getD_some,
        List.getElem_append_left inside]

theorem lookup_absorb (pend : List (Nat × β)) (x y : Nat) (v : β) :
    lookup (absorb pend x v) y = if y = x then some v else lookup pend y := by
  induction pend with
  | nil =>
    simp only [absorb, List.map_nil, List.idxOf_nil, List.length_nil, Nat.lt_irrefl, ↓reduceIte,
      List.nil_append, lookup_cons, lookup_nil, eq_comm]
  | cons p rest ih =>
    by_cases here : p.1 = x
    · have first : absorb (p :: rest) x v = (x, v) :: rest := by
        simp only [absorb, List.map_cons, here, List.idxOf_cons_self, List.length_cons,
          Nat.zero_lt_succ, ↓reduceIte, List.set_cons_zero]
      rw [first, lookup_cons, lookup_cons, here]
      by_cases same : y = x
      · simp only [same, ↓reduceIte]
      · simp only [same, Ne.symm same, ↓reduceIte]
    · have later : absorb (p :: rest) x v = p :: absorb rest x v := by
        simp only [absorb, List.map_cons, List.idxOf_cons_ne _ here, List.length_cons,
          Nat.succ_eq_add_one, Nat.add_lt_add_iff_right]
        split
        · simp only [List.set_cons_succ]
        · simp only [List.cons_append]
      rw [later, lookup_cons, lookup_cons, ih]
      by_cases same : y = x
      · subst same
        simp only [here, ↓reduceIte]
      · simp only [same, ↓reduceIte]

/-- What a list of writes leaves at an address is the last absorbed value. -/
theorem apply_eq_lookup (d : Nat → β) (ws : List (Nat × β)) (x : Nat) :
    apply d ws x = (lookup (absorbAll [] ws) x).getD (d x) := by
  suffices general : ∀ (e : Nat → β) (pend : List (Nat × β)),
      (∀ y, e y = (lookup pend y).getD (d y)) →
      apply e ws x = (lookup (absorbAll pend ws) x).getD (d x) from general d [] fun _ => rfl
  induction ws with
  | nil => intro e pend agree; exact agree x
  | cons w ws ih =>
    intro e pend agree
    rw [apply_cons]
    apply ih
    intro y
    rw [lookup_absorb]
    by_cases same : y = w.1
    · subst same
      simp only [Function.update_self, ↓reduceIte, Option.getD_some]
    · simp only [Function.update_of_ne same, same, ↓reduceIte, agree y]

end SirpairOs.Writes
