import Mathlib.Data.List.GetD
import Mathlib.Data.Fintype.Pi
import Mathlib.Tactic.IntervalCases

set_option autoImplicit false

/-! Fixed-size byte buffers with the accesses a C program makes to them: single
bytes, byte ranges, little-endian integers and single bits. Every access is
total; an offset past the end reads zero and stores nothing. -/
namespace SirpairOs

def Bytes (n : Nat) : Type := Fin n → UInt8

namespace Bytes

variable {n : Nat}

instance : DecidableEq (Bytes n) := inferInstanceAs (DecidableEq (Fin n → UInt8))

def tabulate (f : Nat → UInt8) : Bytes n := fun i => f i

def zero : Bytes n := tabulate fun _ => 0

instance : Inhabited (Bytes n) := ⟨zero⟩

def byte (b : Bytes n) (i : Nat) : UInt8 := if h : i < n then b ⟨i, h⟩ else 0

theorem byte_tabulate (f : Nat → UInt8) (i : Nat) (inside : i < n) :
    (tabulate f : Bytes n).byte i = f i := by
  simp only [byte, inside, ↓reduceDIte, tabulate]

theorem byte_outside (b : Bytes n) (i : Nat) (outside : n ≤ i) : b.byte i = 0 := by
  simp only [byte, show ¬ i < n by omega, ↓reduceDIte]

@[simp] theorem byte_zero (i : Nat) : (zero : Bytes n).byte i = 0 := by
  by_cases inside : i < n
  · exact byte_tabulate _ i inside
  · exact byte_outside _ i (by omega)

variable {a b : Bytes n} {off : Nat}

theorem ext (same : ∀ i < n, a.byte i = b.byte i) : a = b := by
  funext i
  have at_i := same i i.isLt
  simpa only [byte, i.isLt, ↓reduceDIte] using at_i

def slice (b : Bytes n) (off len : Nat) : List UInt8 :=
  (List.range len).map fun i => b.byte (off + i)

/-- `memmove` of a byte string into the buffer at `off`. -/
def splice (b : Bytes n) (off : Nat) (src : List UInt8) : Bytes n :=
  tabulate fun i => if off ≤ i ∧ i < off + src.length then src.getD (i - off) 0 else b.byte i

@[simp] theorem length_slice (b : Bytes n) (off len : Nat) : (b.slice off len).length = len := by
  simp only [slice, List.length_map, List.length_range]

theorem getD_slice (b : Bytes n) (off len i : Nat) (inside : i < len) :
    (b.slice off len).getD i 0 = b.byte (off + i) := by
  rw [List.getD_eq_getElem _ _ (by simpa only [length_slice] using inside)]
  simp only [slice, List.getElem_map, List.getElem_range]

theorem slice_congr {off' len : Nat} (same : ∀ i < len, a.byte (off + i) = b.byte (off' + i)) :
    a.slice off len = b.slice off' len := by
  apply List.map_congr_left
  intro i member
  exact same i (List.mem_range.mp member)

theorem byte_splice_inside (b : Bytes n) (off : Nat) (src : List UInt8) (i : Nat)
    (lower : off ≤ i) (upper : i < off + src.length) (bound : i < n) :
    (b.splice off src).byte i = src.getD (i - off) 0 := by
  rw [splice, byte_tabulate _ _ bound]
  simp only [lower, upper, and_self, ↓reduceIte]

theorem byte_splice_outside (b : Bytes n) (off : Nat) (src : List UInt8) (i : Nat)
    (outside : i < off ∨ off + src.length ≤ i) : (b.splice off src).byte i = b.byte i := by
  by_cases bound : i < n
  · have absent : ¬ (off ≤ i ∧ i < off + src.length) := by omega
    rw [splice, byte_tabulate _ _ bound]
    simp only [absent, ↓reduceIte]
  · rw [byte_outside _ i (by omega), byte_outside _ i (by omega)]

theorem slice_splice_same (b : Bytes n) (off : Nat) (src : List UInt8)
    (fits : off + src.length ≤ n) : (b.splice off src).slice off src.length = src := by
  apply List.ext_getElem
  · simp only [length_slice]
  · intro i left right
    simp only [slice, List.getElem_map, List.getElem_range]
    rw [byte_splice_inside _ _ _ _ (by omega) (by omega) (by omega), Nat.add_sub_cancel_left,
      List.getD_eq_getElem _ _ right]

theorem slice_splice_disjoint (b : Bytes n) (off : Nat) (src : List UInt8) (at' len : Nat)
    (apart : off + src.length ≤ at' ∨ at' + len ≤ off) :
    (b.splice off src).slice at' len = b.slice at' len := by
  apply slice_congr
  intro i inside
  apply byte_splice_outside
  omega

def toList (b : Bytes n) : List UInt8 := b.slice 0 n

/-- The buffer that starts with the given bytes; zero follows. -/
def ofList (src : List UInt8) : Bytes n := tabulate fun i => src.getD i 0

def window (b : Bytes n) (off m : Nat) : Bytes m := tabulate fun i => b.byte (off + i)

@[simp] theorem length_toList (b : Bytes n) : b.toList.length = n := length_slice b 0 n

theorem ofList_toList (b : Bytes n) : (ofList b.toList : Bytes n) = b := by
  apply ext
  intro i inside
  rw [ofList, byte_tabulate _ _ inside, toList, getD_slice _ _ _ _ inside, Nat.zero_add]

variable (src : List UInt8) (len : Nat)

theorem byte_ofList (i : Nat) (inside : i < n) :
    (ofList src : Bytes n).byte i = src.getD i 0 := byte_tabulate _ i inside

theorem slice_ofList (off len : Nat) (fits : off + len ≤ src.length) (bound : off + len ≤ n) :
    (ofList src : Bytes n).slice off len = (src.drop off).take len := by
  apply List.ext_getElem
  · rw [length_slice, List.length_take, List.length_drop]
    omega
  · intro i left right
    rw [length_slice] at left
    simp only [slice, List.getElem_map, List.getElem_range, List.getElem_take, List.getElem_drop]
    rw [byte_ofList _ _ (by omega), List.getD_eq_getElem _ _ (by omega)]

theorem window_congr {m : Nat} (same : ∀ i < m, a.byte (off + i) = b.byte (off + i)) :
    a.window off m = b.window off m := by
  apply ext
  intro i inside
  rw [window, window, byte_tabulate _ _ inside, byte_tabulate _ _ inside, same i inside]

def leNat : List UInt8 → Nat
  | [] => 0
  | low :: rest => low.toNat + 256 * leNat rest

/-- The low `len` bytes of a number, lowest first. -/
def leBytes : Nat → Nat → List UInt8
  | 0, _ => []
  | len + 1, value => UInt8.ofNat value :: leBytes len (value / 256)

variable (value : Nat)

@[simp] theorem length_leBytes : (leBytes len value).length = len := by
  induction len generalizing value with
  | zero => rfl
  | succ len ih => simp only [leBytes, List.length_cons, ih]

theorem leNat_leBytes : leNat (leBytes len value) = value % 256 ^ len := by
  induction len generalizing value with
  | zero => simp only [leBytes, leNat, Nat.pow_zero, Nat.mod_one]
  | succ len ih =>
    have low : (UInt8.ofNat value).toNat = value % 256 := UInt8.toNat_ofNat'
    simp only [leBytes, leNat, ih, low]
    rw [Nat.pow_succ 256 len, Nat.mul_comm (256 ^ len) 256, Nat.mod_mul]

theorem leNat_lt : leNat src < 256 ^ src.length := by
  induction src with
  | nil => simp only [leNat, List.length_nil, Nat.pow_zero, Nat.lt_one_iff]
  | cons low rest ih =>
    have bound := low.toNat_lt
    simp only [leNat, List.length_cons, Nat.pow_succ]
    omega

theorem leNat_zeros : leNat (List.replicate len 0) = 0 := by
  induction len with
  | zero => rfl
  | succ len ih => simp only [List.replicate_succ, leNat, ih, UInt8.toNat_zero, Nat.mul_zero]

def num (b : Bytes n) (off len : Nat) : Nat := leNat (b.slice off len)

/-- Store the low `len` bytes of `value` at `off`. -/
def setNum (b : Bytes n) (off len value : Nat) : Bytes n := b.splice off (leBytes len value)

theorem num_lt (b : Bytes n) (off len : Nat) : b.num off len < 256 ^ len := by
  have bound := leNat_lt (b.slice off len)
  rwa [length_slice] at bound

theorem num_setNum_same (b : Bytes n) (off len value : Nat) (fits : off + len ≤ n) :
    (b.setNum off len value).num off len = value % 256 ^ len := by
  have back := slice_splice_same b off (leBytes len value) (by simpa only [length_leBytes] using fits)
  rw [length_leBytes] at back
  rw [num, setNum, back, leNat_leBytes]

theorem num_setNum_disjoint (b : Bytes n) (off len value at' len' : Nat)
    (apart : off + len ≤ at' ∨ at' + len' ≤ off) :
    (b.setNum off len value).num at' len' = b.num at' len' := by
  rw [num, setNum, slice_splice_disjoint _ _ _ _ _ (by simpa only [length_leBytes] using apart), num]

@[simp] theorem num_zero (off len : Nat) : (zero : Bytes n).num off len = 0 := by
  have blank : (zero : Bytes n).slice off len = List.replicate len 0 := by
    apply List.eq_replicate_iff.mpr
    refine ⟨length_slice _ _ _, ?_⟩
    intro low member
    obtain ⟨i, _, rfl⟩ := List.mem_map.mp member
    exact byte_zero _
  rw [num, blank, leNat_zeros]

def beNat (src : List UInt8) : Nat := leNat src.reverse

/-- The low `len` bytes of a number, highest first. -/
def beBytes (len value : Nat) : List UInt8 := (leBytes len value).reverse

@[simp] theorem length_beBytes : (beBytes len value).length = len := by
  rw [beBytes, List.length_reverse, length_leBytes]

theorem beNat_beBytes : beNat (beBytes len value) = value % 256 ^ len := by
  rw [beNat, beBytes, List.reverse_reverse, leNat_leBytes]

/-- Store consecutive `len`-byte integers from `off` on. -/
def setNums (b : Bytes n) (off len : Nat) : List Nat → Bytes n
  | [] => b
  | value :: rest => (b.setNum off len value).setNums (off + len) len rest

theorem num_setNums_outside (b : Bytes n) (off len : Nat) (values : List Nat) (at' len' : Nat)
    (apart : at' + len' ≤ off ∨ off + len * values.length ≤ at') :
    (b.setNums off len values).num at' len' = b.num at' len' := by
  induction values generalizing b off with
  | nil => rfl
  | cons value rest ih =>
    rw [List.length_cons, Nat.mul_add_one] at apart
    rw [setNums, ih _ _ (by omega), num_setNum_disjoint _ _ _ _ _ _ (by omega)]

theorem num_setNums_inside (b : Bytes n) (off len : Nat) (values : List Nat) (k : Nat)
    (bound : k < values.length) (fits : off + len * values.length ≤ n) :
    (b.setNums off len values).num (off + len * k) len = values[k] % 256 ^ len := by
  induction values generalizing b off k with
  | nil => cases bound
  | cons value rest ih =>
    rw [List.length_cons, Nat.mul_add_one] at fits
    rw [setNums]
    cases k with
    | zero =>
      rw [Nat.mul_zero, Nat.add_zero, num_setNums_outside _ _ _ _ _ _ (by omega),
        num_setNum_same _ _ _ _ (by omega), List.getElem_cons_zero]
    | succ k =>
      have entry := ih (b.setNum off len value) (off + len) k (by simpa using bound) (by omega)
      rw [Nat.mul_add_one, ← Nat.add_assoc, Nat.add_right_comm, List.getElem_cons_succ]
      exact entry

def bit (b : Bytes n) (i : Nat) : Bool := (b.byte (i / 8)).toBitVec.getLsbD (i % 8)

/-- `data[i/8] |= 1 << (i%8)`. -/
def setBit (b : Bytes n) (i : Nat) : Bytes n :=
  b.splice (i / 8) [b.byte (i / 8) ||| (1 <<< UInt8.ofNat (i % 8))]

/-- `data[i/8] &= ~(1 << (i%8))`. -/
def clearBit (b : Bytes n) (i : Nat) : Bytes n :=
  b.splice (i / 8) [b.byte (i / 8) &&& ~~~(1 <<< UInt8.ofNat (i % 8))]

private theorem mask_bit (k j : Nat) (small : k < 8) (small' : j < 8) :
    ((1 <<< UInt8.ofNat k : UInt8).toBitVec).getLsbD j = decide (j = k) := by
  interval_cases k <;> interval_cases j <;> rfl

private theorem byte_splice_one (b : Bytes n) (i j : Nat) (value : UInt8) (bound : i < n) :
    (b.splice i [value]).byte j = if j = i then value else b.byte j := by
  by_cases same : j = i
  · subst same
    rw [byte_splice_inside _ _ _ _ (by omega) (by simp only [List.length_singleton]; omega) bound]
    simp only [Nat.sub_self, List.getD_cons_zero, ↓reduceIte]
  · rw [byte_splice_outside _ _ _ _ (by simp only [List.length_singleton]; omega)]
    simp only [same, ↓reduceIte]

theorem bit_setBit (b : Bytes n) (i j : Nat) (bound : i / 8 < n) :
    (b.setBit i).bit j = (decide (j = i) || b.bit j) := by
  simp only [bit, setBit, byte_splice_one _ _ _ _ bound]
  by_cases same : j / 8 = i / 8
  · simp only [same, ↓reduceIte, UInt8.toBitVec_or, BitVec.getLsbD_or,
      mask_bit _ _ (Nat.mod_lt i (by decide)) (Nat.mod_lt j (by decide))]
    have equal : (j % 8 = i % 8) ↔ j = i := by omega
    simp only [equal, Bool.or_comm]
  · have apart : j ≠ i := by rintro rfl; exact same rfl
    simp only [same, ↓reduceIte, apart, decide_false, Bool.false_or]

theorem bit_clearBit (b : Bytes n) (i j : Nat) (bound : i / 8 < n) :
    (b.clearBit i).bit j = (!decide (j = i) && b.bit j) := by
  simp only [bit, clearBit, byte_splice_one _ _ _ _ bound]
  by_cases same : j / 8 = i / 8
  · simp only [same, ↓reduceIte, UInt8.toBitVec_and, UInt8.toBitVec_not, BitVec.getLsbD_and,
      BitVec.getLsbD_not, Nat.mod_lt j (show 0 < 8 by decide), decide_true, Bool.true_and,
      mask_bit _ _ (Nat.mod_lt i (by decide)) (Nat.mod_lt j (by decide))]
    have equal : (j % 8 = i % 8) ↔ j = i := by omega
    simp only [equal, Bool.and_comm]
  · have apart : j ≠ i := by rintro rfl; exact same rfl
    simp only [same, ↓reduceIte, apart, decide_false, Bool.not_false, Bool.true_and]

/-- The bytes `src` lie at offset `off`. -/
def Lies (b : Bytes n) (off : Nat) (src : List UInt8) : Prop :=
  ∀ i < src.length, b.byte (off + i) = src.getD i 0

theorem lies_append {front rest : List UInt8} :
    b.Lies off (front ++ rest) ↔ b.Lies off front ∧ b.Lies (off + front.length) rest := by
  constructor
  · intro lies
    constructor
    · intro i inside
      rw [lies i (by rw [List.length_append]; omega), List.getD_append _ _ _ _ inside]
    · intro i inside
      rw [Nat.add_assoc, lies _ (by rw [List.length_append]; omega),
        List.getD_append_right _ _ _ _ (Nat.le_add_right _ _), Nat.add_sub_cancel_left]
  · intro lies i inside
    rw [List.length_append] at inside
    by_cases first : i < front.length
    · rw [lies.1 i first, List.getD_append _ _ _ _ first]
    · rw [List.getD_append_right _ _ _ _ (by omega), ← lies.2 _ (by omega)]
      exact congrArg b.byte (by omega)

namespace Lies

variable {b c : Bytes n} {off : Nat} {src : List UInt8}

theorem slice (lies : b.Lies off src) : b.slice off src.length = src := by
  apply List.ext_getElem
  · rw [length_slice]
  · intro i left right
    rw [← List.getD_eq_getElem _ 0 left, getD_slice _ _ _ _ right, lies i right,
      List.getD_eq_getElem _ _ right]

theorem take (lies : b.Lies off src) (len : Nat) : b.Lies off (src.take len) := by
  rw [← List.take_append_drop len src] at lies
  exact (lies_append.mp lies).1

theorem drop (lies : b.Lies off src) {len : Nat} (within : len ≤ src.length) :
    b.Lies (off + len) (src.drop len) := by
  rw [← List.take_append_drop len src, lies_append, List.length_take, Nat.min_eq_left within] at lies
  exact lies.2

theorem part (lies : b.Lies off src) {skip len : Nat} (within : skip + len ≤ src.length) :
    b.slice (off + skip) len = (src.drop skip).take len := by
  have size : ((src.drop skip).take len).length = len := by
    rw [List.length_take, List.length_drop]
    omega
  have found := ((lies.drop (Nat.le_of_add_right_le within)).take len).slice
  rwa [size] at found

theorem spliced (fits : off + src.length ≤ n) : (b.splice off src).Lies off src := by
  intro i inside
  rw [byte_splice_inside _ _ _ _ (by omega) (by omega) (by omega), Nat.add_sub_cancel_left]

theorem kept (lies : b.Lies off src) {place : Nat} {new : List UInt8}
    (apart : off + src.length ≤ place ∨ place + new.length ≤ off) :
    (b.splice place new).Lies off src := by
  intro i inside
  rw [byte_splice_outside _ _ _ _ (by omega), lies i inside]

theorem moved (skip : Nat) {start len place : Nat} (lies : c.Lies (start + skip) src)
    (within : skip + src.length ≤ len) (fits : place + skip + src.length ≤ n) :
    (b.splice place (c.slice start len)).Lies (place + skip) src := by
  intro i inside
  rw [byte_splice_inside _ _ _ _ (by omega) (by rw [length_slice]; omega) (by omega),
    getD_slice _ _ _ _ (by omega), ← lies i inside]
  exact congrArg c.byte (by omega)

/-- Byte strings of one length that lie at the same place are the same. -/
theorem unique {other : List UInt8} (lies : b.Lies off src) (length : other.length = src.length)
    (too : b.Lies off other) : other = src := by
  rw [← lies.slice, ← too.slice, length]

end Lies

end Bytes

end SirpairOs
