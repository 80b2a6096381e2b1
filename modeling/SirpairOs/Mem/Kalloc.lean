import Mathlib.Data.List.Nodup
import Mathlib.Algebra.Ring.Nat
import Mathlib.Algebra.Ring.Int.Defs

/-! The physical page allocator (`kernel/kalloc.c`). Pages go by number. The free
list is a list here, so the checks against a corrupted one have nothing to find;
`page_state` says of every page whether it is on the list. -/
namespace SirpairOs.Mem

def hit (page x : Nat) : Nat := if page = x then 1 else 0

@[simp] theorem hit_self (page : Nat) : hit page page = 1 := if_pos rfl

/-- `kmem`. Other processes may hold the pages that are left at the moment of a
call: `denied` says of which calls that is so. -/
structure Kmem where
  freelist : List Nat
  nodup : freelist.Nodup
  /-- Number of calls of `kalloc` so far. -/
  calls : Nat
  denied : Nat → Bool

namespace Kmem

def Grants (m : Kmem) : Prop := m.denied m.calls = false ∧ m.freelist ≠ []

instance (m : Kmem) : Decidable m.Grants :=
  inferInstanceAs (Decidable (m.denied m.calls = false ∧ m.freelist ≠ []))

def kalloc (m : Kmem) : Option Nat × Kmem :=
  match m with
  | ⟨page :: rest, nodup, calls, denied⟩ =>
    if denied calls then (none, ⟨page :: rest, nodup, calls + 1, denied⟩)
    else (some page, ⟨rest, nodup.of_cons, calls + 1, denied⟩)
  | ⟨[], nodup, calls, denied⟩ => (none, ⟨[], nodup, calls + 1, denied⟩)

/-- A page that is free already is left alone. -/
def kfree (m : Kmem) (page : Nat) : Kmem :=
  if free : page ∈ m.freelist then m
  else { m with freelist := page :: m.freelist, nodup := m.nodup.cons free }

def Free (m : Kmem) (page : Nat) : Prop := page ∈ m.freelist

def SameFree (m m' : Kmem) : Prop := ∀ page, m'.Free page ↔ m.Free page

theorem kalloc_fst_isSome (m : Kmem) : m.kalloc.1.isSome = true ↔ m.Grants := by
  obtain ⟨freelist, nodup, calls, denied⟩ := m
  cases freelist with
  | nil => simp [kalloc, Grants]
  | cons page rest => cases refused : denied calls <;> simp [kalloc, Grants, refused]

variable {m m' : Kmem} {a page : Nat}

theorem kalloc_of_not_grants (refused : ¬ m.Grants) :
    m.kalloc = (none, { m with calls := m.calls + 1 }) := by
  obtain ⟨freelist, nodup, calls, denied⟩ := m
  cases freelist with
  | nil => rfl
  | cons page rest =>
    have : denied calls = true := by simpa [Grants] using refused
    simp [kalloc, this]

/-- A granted page was free and is not any more. -/
theorem kalloc_of_grants (granted : m.Grants) :
    ∃ page m', m.kalloc = (some page, m') ∧ m.Free page ∧ m'.calls = m.calls + 1 ∧
      m'.denied = m.denied ∧ ∀ other, m'.Free other ↔ m.Free other ∧ other ≠ page := by
  obtain ⟨freelist, nodup, calls, denied⟩ := m
  cases freelist with
  | nil => exact absurd rfl granted.2
  | cons page rest =>
    have allowed : denied calls = false := granted.1
    refine ⟨page, ⟨rest, nodup.of_cons, calls + 1, denied⟩, by simp [kalloc, allowed],
      List.mem_cons_self, rfl, rfl, fun other => ?_⟩
    simp only [Free, List.mem_cons]
    constructor
    · intro member
      refine ⟨.inr member, ?_⟩
      rintro rfl
      exact (List.nodup_cons.mp nodup).1 member
    · rintro ⟨rfl | member, other⟩
      · exact absurd rfl other
      · exact member

theorem free_of_kalloc (taken : m.kalloc = (some page, m')) :
    m.Free page ∧ ∀ other, m'.Free other ↔ m.Free other ∧ other ≠ page := by
  have granted : m.Grants := (kalloc_fst_isSome m).mp (by rw [taken]; rfl)
  obtain ⟨page', m₁, taken', free, -, -, left⟩ := kalloc_of_grants granted
  rw [taken'] at taken
  cases taken
  exact ⟨free, left⟩

theorem free_kfree (m : Kmem) (page other : Nat) :
    (m.kfree page).Free other ↔ m.Free other ∨ other = page := by
  unfold kfree
  split
  · rename_i free
    refine ⟨.inl, ?_⟩
    rintro (member | rfl)
    · exact member
    · exact free
  · simp only [Free, List.mem_cons, or_comm]

@[simp] theorem kfree_calls (m : Kmem) (page : Nat) : (m.kfree page).calls = m.calls := by
  unfold kfree
  split <;> rfl

@[simp] theorem kfree_denied (m : Kmem) (page : Nat) : (m.kfree page).denied = m.denied := by
  unfold kfree
  split <;> rfl

def tally (m : Kmem) (page : Nat) : Nat := if page ∈ m.freelist then 1 else 0

theorem tally_kalloc (taken : m.kalloc = (some page, m')) (x : Nat) :
    m'.tally x + hit page x = m.tally x := by
  obtain ⟨free, left⟩ := free_of_kalloc taken
  have left := left x
  simp only [Free] at free left
  simp only [tally, hit, left]
  by_cases same : page = x
  · subst same
    simp [free]
  · simp [same, Ne.symm same]

theorem kalloc_none (refused : m.kalloc = (none, m')) : m'.freelist = m.freelist := by
  have : ¬ m.Grants := by
    rw [← kalloc_fst_isSome, refused]
    nofun
  rw [kalloc_of_not_grants this] at refused
  cases refused
  rfl

theorem tally_kfree (taken : m.tally page = 0) (x : Nat) :
    (m.kfree page).tally x = m.tally x + hit page x := by
  have free := free_kfree m page x
  simp only [Free] at free
  simp only [tally, hit, free]
  by_cases same : page = x
  · subst same
    have : page ∉ m.freelist := fun member => by simp [tally, member] at taken
    simp [this]
  · simp [same, Ne.symm same]

theorem sameFree_iff (m m' : Kmem) : m.SameFree m' ↔ ∀ page, m'.tally page = m.tally page := by
  refine forall_congr' fun page => ?_
  simp only [Free, tally]
  by_cases here : page ∈ m.freelist <;> by_cases there : page ∈ m'.freelist <;> simp [here, there]

def Supplied (m : Kmem) (n : Nat) : Prop :=
  (∀ j < n, m.denied (m.calls + j) = false) ∧ n ≤ m.freelist.length

/-- From `m` to `m'`, `n` calls got a page. -/
structure Took (m m' : Kmem) (n : Nat) : Prop where
  calls : m'.calls = m.calls + n
  denied : m'.denied = m.denied
  left : m'.freelist.length + n = m.freelist.length

theorem Took.refl (m : Kmem) : m.Took m 0 := ⟨rfl, rfl, rfl⟩

theorem Took.trans {m₁ m₂ m₃ : Kmem} {b : Nat} (first : m₁.Took m₂ a) (second : m₂.Took m₃ b) :
    m₁.Took m₃ (a + b) where
  calls := by rw [second.calls, first.calls, Nat.add_assoc]
  denied := second.denied.trans first.denied
  left := by
    have := first.left
    have := second.left
    omega

theorem supplied_zero (m : Kmem) : m.Supplied 0 :=
  ⟨fun _ none => absurd none (Nat.not_lt_zero _), Nat.zero_le _⟩

theorem Supplied.mono {b : Nat} (le : a ≤ b) (enough : m.Supplied b) : m.Supplied a :=
  ⟨fun j below => enough.1 j (Nat.lt_of_lt_of_le below le), Nat.le_trans le enough.2⟩

/-- What is enough for `a + b` calls is enough for `a`, and then for `b` more. -/
theorem supplied_add (given : m.Supplied a) (took : m.Took m' a) (b : Nat) :
    m.Supplied (a + b) ↔ m'.Supplied b := by
  have left := took.left
  constructor
  · intro enough
    refine ⟨fun j below => ?_, by have := enough.2; omega⟩
    rw [took.denied, took.calls, Nat.add_assoc]
    exact enough.1 (a + j) (by omega)
  · intro enough
    refine ⟨fun j below => ?_, by have := enough.2; omega⟩
    by_cases first : j < a
    · exact given.1 j first
    · have later := enough.1 (j - a) (by omega)
      rwa [took.denied, took.calls, Nat.add_assoc, Nat.add_sub_cancel' (by omega)] at later

theorem Supplied.kfree {n : Nat} (enough : m.Supplied n) (page : Nat) :
    (m.kfree page).Supplied n := by
  refine ⟨fun j below => ?_, Nat.le_trans enough.2 ?_⟩
  · rw [kfree_denied, kfree_calls]
    exact enough.1 j below
  · unfold Kmem.kfree
    split
    · exact Nat.le_refl _
    · exact Nat.le_succ _

theorem supplied_one (m : Kmem) : m.Supplied 1 ↔ m.Grants := by
  constructor
  · intro enough
    exact ⟨enough.1 0 Nat.one_pos, fun none => by have := enough.2; simp [none] at this⟩
  · intro granted
    refine ⟨fun j below => ?_, List.length_pos_iff.mpr granted.2⟩
    obtain rfl : j = 0 := by omega
    exact granted.1

theorem took_kalloc (taken : m.kalloc = (some page, m')) : m.Took m' 1 := by
  obtain ⟨freelist, nodup, calls, denied⟩ := m
  cases freelist with
  | nil => cases taken
  | cons first rest =>
    simp only [kalloc] at taken
    split at taken
    · cases taken
    · cases taken
      exact ⟨rfl, rfl, rfl⟩

/-- A call gets a page exactly when there is enough for one. -/
theorem kalloc_cases (m : Kmem) : (m.Supplied 1 ∧ ∃ page m', m.kalloc = (some page, m')) ∨
      (¬ m.Supplied 1 ∧ ∃ m', m.kalloc = (none, m')) := by
  rw [supplied_one, ← kalloc_fst_isSome]
  cases taken : m.kalloc with
  | mk page m' =>
    cases page with
    | none => exact .inr ⟨nofun, m', rfl⟩
    | some page => exact .inl ⟨rfl, page, m', rfl⟩

end Kmem

end SirpairOs.Mem
