import SirpairOs.Lib.BlockMove

/-! The two `memmove`s, of `user/ulib.c` and of `kernel/string.c`, on the whole 32-bit
address space. The kernel's chooses a direction, the user library's always copies upwards. -/
namespace SirpairOs.Memmove

open BlockMove

abbrev Memory : Type := UInt32 → UInt8

def ulibMemmove (m : Memory) (vdst vsrc n : UInt32) : Memory := copy 1 n.toNat m vdst vsrc

/-- `cld; rep movsb`. -/
def movsbUp (m : Memory) (d s cnt : UInt32) : Memory := copy 1 cnt.toNat m d s

/-- `std; rep movsb; cld`. -/
def movsbDown (m : Memory) (d s cnt : UInt32) : Memory := copy (-1) cnt.toNat m d s

def kernelMemmove (m : Memory) (dst src n : UInt32) : Memory :=
  if n = 0 ∨ src = dst then m
  else if src < dst ∧ src + n > dst then movsbDown m (dst + (n - 1)) (src + (n - 1)) n
  else movsbUp m dst src n

variable (m : Memory) (dst src n : UInt32)

theorem ulibMemmove_eq_moved_iff :
    ulibMemmove m dst src n = moved m dst src n.toNat ↔ Repeats m src n.toNat (dst - src).toNat :=
  copy_up_eq_moved_iff m dst src n.toNat (Nat.le_of_lt n.toNat_lt)

theorem moved_zero (dst src : UInt32) : moved m dst src 0 = m := by
  funext a
  rw [moved, if_neg (Nat.not_lt_zero _)]

theorem moved_self (dst : UInt32) (n : Nat) : moved m dst dst n = m := by
  funext a
  have same : dst + (a - dst) = a := by grind
  rw [moved, same, ite_self]

/-- The kernel's copy goes wrong only downwards, where the block is so long that it comes
round to the destination again, or upwards as the user library's does. -/
theorem kernelMemmove_eq_moved_iff : kernelMemmove m dst src n = moved m dst src n.toNat ↔
      if src < dst ∧ src + n > dst then RepeatsBack m src n.toNat (src - dst).toNat
      else Repeats m src n.toNat (dst - src).toNat := by
  rw [kernelMemmove]
  by_cases still : n = 0 ∨ src = dst
  · rw [if_pos still]
    rcases still with none | same
    · subst none
      have empty : (0 : UInt32).toNat = 0 := rfl
      simp only [empty, moved_zero, true_iff]
      split
      · exact RepeatsBack.of_le (Nat.zero_le _)
      · exact Repeats.of_le (Nat.zero_le _)
    · subst same
      have zero : (src - src).toNat = 0 := by rw [UInt32.sub_self]; rfl
      simp only [moved_self, true_iff, zero]
      rw [if_neg (fun between => absurd between.1 (UInt32.lt_irrefl src))]
      exact Repeats.zero m src n.toNat
  · rw [if_neg still]
    have some : 0 < n.toNat := by
      apply Nat.pos_of_ne_zero
      intro zero
      exact still (Or.inl (UInt32.toNat_inj.mp zero))
    split
    · have last : n - 1 = UInt32.ofNat (n.toNat - 1) := by
        rw [UInt32.ofNat_sub some, UInt32.ofNat_toNat]
        rfl
      rw [movsbDown, last]
      exact copy_down_eq_moved_iff m dst src n.toNat some (Nat.le_of_lt n.toNat_lt)
    · exact copy_up_eq_moved_iff m dst src n.toNat (Nat.le_of_lt n.toNat_lt)

/-- The two functions leave the same memory, with the block moved, exactly when the source
repeats with the distance up to the destination (as it trivially does when the destination
does not begin inside the source), and repeats backwards where the kernel copies downwards
a block that comes round to the destination again. -/
theorem memmoves_agree_iff (m : Memory) (dst src n : UInt32) :
    (ulibMemmove m dst src n = kernelMemmove m dst src n ∧
      kernelMemmove m dst src n = moved m dst src n.toNat) ↔
    (Repeats m src n.toNat (dst - src).toNat ∧
      (src < dst ∧ src + n > dst → RepeatsBack m src n.toNat (src - dst).toNat)) := by
  constructor
  · intro agree
    have user := (ulibMemmove_eq_moved_iff m dst src n).mp (agree.1.trans agree.2)
    have kernel := (kernelMemmove_eq_moved_iff m dst src n).mp agree.2
    apply And.intro user
    intro between
    rwa [if_pos between] at kernel
  · intro repeats
    have user := (ulibMemmove_eq_moved_iff m dst src n).mpr repeats.1
    have kernel : kernelMemmove m dst src n = moved m dst src n.toNat := by
      rw [kernelMemmove_eq_moved_iff]
      split
      · rename_i between
        exact repeats.2 between
      · exact repeats.1
    exact And.intro (user.trans kernel.symm) kernel

/-- Two blocks that do not wrap around and of which the destination does not begin inside
the source are always moved, by both functions. -/
theorem memmoves_agree_apart (apart : dst ≤ src ∨ src.toNat + n.toNat ≤ dst.toNat)
    (fits : src.toNat + n.toNat ≤ UInt32.size) : ulibMemmove m dst src n = moved m dst src n.toNat ∧
      kernelMemmove m dst src n = moved m dst src n.toNat := by
  have repeats : Repeats m src n.toNat (dst - src).toNat := by
    by_cases same : dst = src
    · rw [same, UInt32.sub_self]
      exact Repeats.zero m src n.toNat
    · apply Repeats.of_le
      have differ : dst.toNat ≠ src.toNat := fun h => same (UInt32.toNat_inj.mp h)
      rw [UInt32.le_iff_toNat_le] at apart
      rw [UInt32.size] at fits
      rw [UInt32.toNat_sub]
      have := dst.toNat_lt
      omega
  apply And.intro ((ulibMemmove_eq_moved_iff m dst src n).mpr repeats)
  rw [kernelMemmove_eq_moved_iff, if_neg]
  · exact repeats
  · intro between
    rw [UInt32.lt_iff_toNat_lt, gt_iff_lt, UInt32.lt_iff_toNat_lt, UInt32.toNat_add] at between
    rw [UInt32.le_iff_toNat_le] at apart
    rw [UInt32.size] at fits
    omega

def letters : Memory := fun a => if a = 4097 then 98 else 97

theorem memmoves_agree_below : ulibMemmove letters 4096 4097 2 = moved letters 4096 4097 2 ∧
    kernelMemmove letters 4096 4097 2 = moved letters 4096 4097 2 :=
  memmoves_agree_apart letters 4096 4097 2 (by decide) (by decide)

/-- Moving "ab" up by one: the user library writes "aa" where the kernel writes "ab". -/
theorem memmoves_differ_overlap :
    ulibMemmove letters 4097 4096 2 4098 = 97 ∧ kernelMemmove letters 4097 4096 2 4098 = 98 ∧
      moved letters 4097 4096 2 4098 = 98 := by
  decide

end SirpairOs.Memmove
