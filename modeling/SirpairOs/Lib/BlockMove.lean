import Mathlib.Logic.Function.Basic

set_option autoImplicit false

/-! Copying a block of cells one at a time, upwards or downwards, in a memory of 32-bit
addresses that wrap around. The two blocks may overlap in any way. -/
namespace SirpairOs.BlockMove

variable {α : Type}

/-- `n` single copies; both addresses go on by `stride` after each. -/
def copy (stride : UInt32) : Nat → (UInt32 → α) → UInt32 → UInt32 → UInt32 → α
  | 0, m, _, _ => m
  | n + 1, m, dst, src => copy stride n (Function.update m dst (m src)) (dst + stride) (src + stride)

/-- The memory in which the block at `dst` holds what the block at `src` held. -/
def moved (m : UInt32 → α) (dst src : UInt32) (n : Nat) (a : UInt32) : α :=
  if (a - dst).toNat < n then m (src + (a - dst)) else m a

/-- The copies made last come after all the others. -/
theorem copy_succ (stride : UInt32) (n : Nat) (m : UInt32 → α) (dst src : UInt32) :
    copy stride (n + 1) m dst src =
      Function.update (copy stride n m dst src) (dst + stride * UInt32.ofNat n)
        (copy stride n m dst src (src + stride * UInt32.ofNat n)) := by
  induction n generalizing m dst src with
  | zero => simp [copy]
  | succ n ih =>
    rw [copy, ih]
    have next : ∀ a : UInt32, a + stride + stride * UInt32.ofNat n =
        a + stride * UInt32.ofNat (n + 1) := by
      intro a
      rw [UInt32.ofNat_add]
      grind
    rw [next, next]
    rfl

/-- A distance below another one is not reached by going back over the other. -/
theorem lt_toNat_sub {j p : UInt32} (below : j.toNat < p.toNat) : j.toNat < (j - p).toNat := by
  rw [UInt32.toNat_sub]
  have := p.toNat_lt
  omega

/-- What `n` copies leave: a cell already written when it is read hands on the cell
one distance before it, so the source repeats with the distance of the two blocks. -/
theorem copy_apply {stride : UInt32} (unit : stride * stride = 1) (n : Nat) (small : n ≤ UInt32.size)
    (m : UInt32 → α) (dst src a : UInt32) : copy stride n m dst src a =
      if (stride * (a - dst)).toNat < n then
        m (src + stride * UInt32.ofNat ((stride * (a - dst)).toNat % (stride * (dst - src)).toNat))
      else m a := by
  induction n generalizing a with
  | zero => rfl
  | succ n ih =>
    have cell : (UInt32.ofNat n).toNat = n := UInt32.toNat_ofNat_of_lt' (by omega)
    rw [copy_succ, Function.update_apply]
    by_cases last : a = dst + stride * UInt32.ofNat n
    · have index : stride * (a - dst) = UInt32.ofNat n := by grind
      have source : stride * (src + stride * UInt32.ofNat n - dst) =
          UInt32.ofNat n - stride * (dst - src) := by grind
      rw [if_pos last, index, cell, if_pos (Nat.lt_succ_self n), ih (by omega), source]
      by_cases reached : (stride * (dst - src)).toNat ≤ n
      · rw [UInt32.toNat_sub_of_le _ _ (by rw [UInt32.le_iff_toNat_le, cell]; exact reached), cell]
        by_cases zero : (stride * (dst - src)).toNat = 0
        · rw [if_neg (by omega), zero, Nat.mod_zero]
        · rw [if_pos (by omega), ← Nat.mod_eq_sub_mod reached]
      · have beyond := lt_toNat_sub (j := UInt32.ofNat n) (p := stride * (dst - src)) (by omega)
        rw [if_neg (by omega), Nat.mod_eq_of_lt (by omega)]
    · have index : (stride * (a - dst)).toNat ≠ n := by
        intro same
        apply last
        have word : stride * (a - dst) = UInt32.ofNat n := by
          rw [← same, UInt32.ofNat_toNat]
        grind
      rw [if_neg last, ih (by omega)]
      by_cases before : (stride * (a - dst)).toNat < n
      · rw [if_pos before, if_pos (by omega)]
      · rw [if_neg before, if_neg (by omega)]

/-- Cell `i` of the block is the cell of the first period that copying upwards repeats. -/
def Repeats (m : UInt32 → α) (src : UInt32) (n period : Nat) : Prop :=
  ∀ i < n, m (src + UInt32.ofNat (i % period)) = m (src + UInt32.ofNat i)

/-- The same from the upper end of the block, as copying downwards repeats it. -/
def RepeatsBack (m : UInt32 → α) (src : UInt32) (n period : Nat) : Prop :=
  ∀ i < n, m (src + UInt32.ofNat (n - 1 - i % period)) = m (src + UInt32.ofNat (n - 1 - i))

theorem Repeats.of_le {m : UInt32 → α} {src : UInt32} {n period : Nat} (apart : n ≤ period) :
    Repeats m src n period := by
  intro i inside
  rw [Nat.mod_eq_of_lt (by omega)]

theorem RepeatsBack.of_le {m : UInt32 → α} {src : UInt32} {n period : Nat} (apart : n ≤ period) :
    RepeatsBack m src n period := by
  intro i inside
  rw [Nat.mod_eq_of_lt (by omega)]

theorem Repeats.zero (m : UInt32 → α) (src : UInt32) (n : Nat) : Repeats m src n 0 := by
  intro i _
  rw [Nat.mod_zero]

/-- Copying upwards moves the block exactly when the source repeats with the distance
from the source up to the destination. -/
theorem copy_up_eq_moved_iff (m : UInt32 → α) (dst src : UInt32) (n : Nat) (small : n ≤ UInt32.size) :
    copy 1 n m dst src = moved m dst src n ↔ Repeats m src n (dst - src).toNat := by
  constructor
  · intro same i inside
    have cell : (UInt32.ofNat i).toNat = i := UInt32.toNat_ofNat_of_lt' (by omega)
    have index : dst + UInt32.ofNat i - dst = UInt32.ofNat i := by grind
    have here := congrFun same (dst + UInt32.ofNat i)
    simpa only [copy_apply (UInt32.mul_one 1) n small, moved, UInt32.one_mul, index, cell, inside,
      if_true] using here
  · intro repeats
    funext a
    rw [copy_apply (UInt32.mul_one 1) n small]
    simp only [UInt32.one_mul, moved]
    split
    · rename_i inside
      rw [repeats _ inside, UInt32.ofNat_toNat]
    · rfl

/-- Counting a block of `n` cells from its upper end. -/
theorem sub_lt_iff (n : Nat) (some : 0 < n) (small : n ≤ UInt32.size) (i : UInt32) :
    (UInt32.ofNat (n - 1) - i).toNat < n ↔ i.toNat < n := by
  have last : (UInt32.ofNat (n - 1)).toNat = n - 1 := UInt32.toNat_ofNat_of_lt' (by omega)
  have range := i.toNat_lt
  rw [UInt32.toNat_sub, last]
  rw [UInt32.size] at small
  omega

/-- Copying downwards from the last cells moves the block exactly when the source repeats,
counted from its upper end, with the distance from the destination up to the source. -/
theorem copy_down_eq_moved_iff (m : UInt32 → α) (dst src : UInt32) (n : Nat) (some : 0 < n)
    (small : n ≤ UInt32.size) :
    copy (-1) n m (dst + UInt32.ofNat (n - 1)) (src + UInt32.ofNat (n - 1)) = moved m dst src n ↔
      RepeatsBack m src n (src - dst).toNat := by
  have unit : (-1 : UInt32) * -1 = 1 := by decide
  have distance : -1 * (dst + UInt32.ofNat (n - 1) - (src + UInt32.ofNat (n - 1))) = src - dst := by
    grind
  have index : ∀ a, -1 * (a - (dst + UInt32.ofNat (n - 1))) = UInt32.ofNat (n - 1) - (a - dst) := by
    intro a
    grind
  have down : ∀ k ≤ n - 1, UInt32.ofNat (n - 1 - k) = UInt32.ofNat (n - 1) - UInt32.ofNat k := by
    intro k within
    exact UInt32.ofNat_sub within
  have lower : ∀ k ≤ n - 1, src + UInt32.ofNat (n - 1) + -1 * UInt32.ofNat k =
      src + UInt32.ofNat (n - 1 - k) := by
    intro k within
    rw [down k within]
    grind
  have within : ∀ i p : Nat, i < n → i % p ≤ n - 1 := by
    intro i p inside
    have := Nat.mod_le i p
    omega
  constructor
  · intro same i inside
    have cell : (UInt32.ofNat i).toNat = i := UInt32.toNat_ofNat_of_lt' (by omega)
    have here := congrFun same (dst + UInt32.ofNat (n - 1 - i))
    have offset : dst + UInt32.ofNat (n - 1 - i) - dst = UInt32.ofNat (n - 1 - i) := by grind
    have mirrored : UInt32.ofNat (n - 1) - UInt32.ofNat (n - 1 - i) = UInt32.ofNat i := by
      rw [down i (by omega)]
      grind
    have below : (UInt32.ofNat (n - 1 - i)).toNat < n := by
      rw [UInt32.toNat_ofNat_of_lt' (by omega)]
      omega
    rw [copy_apply unit n small, moved, distance, index, offset, mirrored, cell, if_pos inside,
      if_pos below, lower _ (within i _ inside)] at here
    exact here
  · intro repeats
    funext a
    rw [copy_apply unit n small, moved, distance, index]
    by_cases inside : (a - dst).toNat < n
    · have mirrored := (sub_lt_iff n some small (a - dst)).mpr inside
      have same : UInt32.ofNat (n - 1 - (UInt32.ofNat (n - 1) - (a - dst)).toNat) = a - dst := by
        rw [down _ (by omega), UInt32.ofNat_toNat]
        grind
      rw [if_pos mirrored, if_pos inside, lower _ (within _ _ mirrored), repeats _ mirrored, same]
    · rw [if_neg inside, if_neg (fun low => inside ((sub_lt_iff n some small _).mp low))]

end SirpairOs.BlockMove
