import Mathlib.Data.BitVec

set_option autoImplicit false

/-! Ring buffers whose two counters run freely and wrap around: an element goes to
the cell of the write counter modulo the capacity. The capacity divides the
range of the counters, so a wrap does not disturb the order. -/
namespace SirpairOs.Ring

variable {α : Type} {N w : Nat} [NeZero N]

/-- The cell of a counter value. -/
def index (N : Nat) [NeZero N] (count : BitVec w) : Fin N := Fin.ofNat N count.toNat

/-- The buffer holds what was stored and not yet taken: `stored` lists everything
ever stored, `taken` everything ever taken out. -/
structure Holds (data : Fin N → α) (head tail : BitVec w) (taken stored : List α) : Prop where
  head : head = BitVec.ofNat w taken.length
  tail : tail = BitVec.ofNat w stored.length
  order : taken <+: stored
  room : stored.length ≤ taken.length + N
  cells : ∀ j, taken.length ≤ j → ∀ inside : j < stored.length, data (Fin.ofNat N j) = stored[j]

theorem Holds.new (data : Fin N → α) : Holds data (0 : BitVec w) 0 [] [] where
  head := rfl
  tail := rfl
  order := List.prefix_refl _
  room := Nat.zero_le _
  cells _ _ inside := absurd inside (Nat.not_lt_zero _)

theorem index_ofNat (divides : N ∣ 2 ^ w) (count : Nat) :
    index N (BitVec.ofNat w count) = Fin.ofNat N count := by
  rw [index, BitVec.toNat_ofNat, Fin.ext_iff, Fin.val_ofNat, Fin.val_ofNat,
    Nat.mod_mod_of_dvd _ divides]

namespace Holds

variable {data : Fin N → α} {head tail : BitVec w} {taken stored : List α}
  (ring : Holds data head tail taken stored)

include ring

theorem length_le : taken.length ≤ stored.length := ring.order.length_le

theorem used (small : N < 2 ^ w) : (tail - head).toNat = stored.length - taken.length := by
  have low := ring.length_le
  have high := ring.room
  have gap : tail - head = BitVec.ofNat w (stored.length - taken.length) := by
    rw [ring.head, ring.tail]
    have split : stored.length = (stored.length - taken.length) + taken.length := by omega
    rw [split, BitVec.ofNat_add, BitVec.add_sub_cancel, Nat.add_sub_cancel]
  rw [gap, BitVec.toNat_ofNat, Nat.mod_eq_of_lt (by omega)]

theorem full_iff (small : N < 2 ^ w) :
    tail = head + BitVec.ofNat w N ↔ stored.length = taken.length + N := by
  have low := ring.length_le
  constructor
  · intro full
    have gap := ring.used small
    rw [full, BitVec.add_comm, BitVec.add_sub_cancel, BitVec.toNat_ofNat,
      Nat.mod_eq_of_lt small] at gap
    omega
  · intro full
    rw [ring.tail, ring.head, full, BitVec.ofNat_add]

theorem empty_iff (small : N < 2 ^ w) : head = tail ↔ taken = stored := by
  constructor
  · intro empty
    have gap := ring.used small
    rw [empty, BitVec.sub_self, BitVec.toNat_zero] at gap
    exact ring.order.eq_of_length (by have := ring.length_le; omega)
  · rintro rfl
    rw [ring.head, ring.tail]

variable (divides : N ∣ 2 ^ w)

include divides

theorem put (space : stored.length < taken.length + N) (x : α) :
    Holds (Function.update data (index N tail) x) head (tail + 1#w) taken (stored ++ [x]) where
  head := ring.head
  tail := by
    rw [ring.tail, List.length_append, List.length_singleton, BitVec.ofNat_add]
  order := ring.order.trans (List.prefix_append _ _)
  room := by
    rw [List.length_append, List.length_singleton]
    omega
  cells j low inside := by
    rw [List.length_append, List.length_singleton] at inside
    rw [ring.tail, index_ofNat divides]
    by_cases last : j = stored.length
    · subst last
      rw [Function.update_self, List.getElem_concat_length rfl]
    · have before : j < stored.length := by omega
      have apart : Fin.ofNat N j ≠ Fin.ofNat N stored.length := by
        intro same
        have mods : j % N = stored.length % N := by
          simpa only [Fin.ext_iff, Fin.val_ofNat] using same
        -- two counts less than `N` apart with the same remainder are equal
        have gap : (stored.length - j) % N = 0 :=
          (Nat.modEq_iff_dvd' (by omega)).mp mods |> Nat.mod_eq_zero_of_dvd
        rw [Nat.mod_eq_of_lt (by omega)] at gap
        omega
      rw [Function.update_of_ne apart, List.getElem_append_left before]
      exact ring.cells j low before

theorem oldest (some : taken.length < stored.length) :
    data (index N head) = stored[taken.length] := by
  rw [ring.head, index_ofNat divides]
  exact ring.cells _ (Nat.le_refl _) some

theorem take (some : taken.length < stored.length) :
    Holds data (head + 1#w) tail (taken ++ [data (index N head)]) stored := by
  have oldest := ring.oldest divides some
  refine ⟨?_, ring.tail, ?_, ?_, fun j low inside => ?_⟩
  · rw [ring.head, List.length_append, List.length_singleton, BitVec.ofNat_add]
  · obtain ⟨rest, whole⟩ := ring.order
    subst whole
    rw [oldest]
    cases rest with
    | nil => simp at some
    | cons x rest =>
      rw [List.getElem_append_right (Nat.le_refl _)]
      simp
  · have := ring.room
    rw [List.length_append, List.length_singleton]
    omega
  · rw [List.length_append, List.length_singleton] at low
    exact ring.cells j (by omega) inside

omit divides in
theorem unput {x : α} {older : List α} (last : stored = older ++ [x])
    (kept : taken <+: older) : Holds data head (tail - 1#w) taken older where
  head := ring.head
  tail := by
    rw [ring.tail, last, List.length_append, List.length_singleton, BitVec.ofNat_add,
      BitVec.add_sub_cancel]
  order := kept
  room := by
    have room := ring.room
    rw [last, List.length_append, List.length_singleton] at room
    omega
  cells j low inside := by
    subst last
    rw [ring.cells j low (by rw [List.length_append]; omega), List.getElem_append_left inside]

/-- The newest element lies in the cell before the write counter. -/
theorem newest {x : α} {older : List α} (last : stored = older ++ [x])
    (kept : taken.length ≤ older.length) : data (index N (tail - 1#w)) = x := by
  subst last
  rw [ring.tail, List.length_append, List.length_singleton, BitVec.ofNat_add,
    BitVec.add_sub_cancel, index_ofNat divides,
    ring.cells older.length kept (by rw [List.length_append, List.length_singleton]; omega)]
  exact List.getElem_concat_length rfl _

end Holds

end SirpairOs.Ring
