import Mathlib.Algebra.Ring.Nat
import Mathlib.Algebra.Ring.Int.Defs
import Mathlib.Data.List.TakeWhile

/-! Numbers in the C library of Lua (`user/lua/lua_libc.c`). A string is the list of its bytes
up to the NUL, which is neither a space nor a sign nor a digit. -/
namespace SirpairOs.Strtol

def isspace (c : UInt8) : Bool := c ∈ [32, 12, 10, 13, 9, 11]

def isdigit (c : UInt8) : Bool := 48 ≤ c ∧ c ≤ 57

def isalpha (c : UInt8) : Bool := (97 ≤ c ∧ c ≤ 122) ∨ (65 ≤ c ∧ c ≤ 90)

def tolower (c : UInt8) : UInt8 := if 65 ≤ c ∧ c ≤ 90 then c + 32 else c

/-- What the loops make of a byte. -/
def digit (c : UInt8) : Option Nat :=
  if isdigit c then some (c.toNat - 48)
  else if isalpha c then some ((tolower c).toNat - 97 + 10)
  else none

def LONG_MAX : Nat := 2 ^ 31 - 1

/-- `(unsigned long)LONG_MIN` -/
def LONG_MIN : Nat := 2 ^ 31

def ULONG_MAX : Nat := 2 ^ 32 - 1

/-- Whether there is a minus sign, and what follows the sign. -/
def sign : List UInt8 → Bool × List UInt8
  | 45 :: s => (true, s)
  | 43 :: s => (false, s)
  | s => (false, s)

def isX (c : UInt8) : Bool := c = 120 ∨ c = 88

/-- `*s == '0' && (s[1] == 'x' || s[1] == 'X')` -/
def startsHex : List UInt8 → Bool
  | 48 :: x :: _ => isX x
  | _ => false

/-- The base that a string without prefix is read in. -/
def plainBase (base : Nat) (s : List UInt8) : Nat :=
  if base = 0 then if s.head? = some 48 then 8 else 10 else base

def detect (base : Nat) (s : List UInt8) : Nat × List UInt8 :=
  if (base = 0 ∨ base = 16) ∧ startsHex s then (16, s.drop 2) else (plainBase base s, s)

/-- `acc`, `any`, and whether `errno` has been set. -/
structure Acc where
  acc : Nat
  any : Int
  erange : Bool
  deriving DecidableEq, Repr

/-- The body of the loops. `lim` is the largest value, which an overflow leaves in `acc`. -/
def Acc.push (base lim : Nat) (a : Acc) (c : Nat) : Acc :=
  if a.any < 0 then a
  else if a.acc > lim / base ∨ a.acc = lim / base ∧ c > lim % base then ⟨lim, -1, true⟩
  else { a with acc := (a.acc * base + c) % 2 ^ 32, any := 1 }

def loop (base lim : Nat) : List UInt8 → Acc → List UInt8 × Acc
  | [], a => ([], a)
  | c :: s, a =>
    match digit c with
    | none => (c :: s, a)
    | some d => if d ≥ base then (c :: s, a) else loop base lim s (a.push base lim d)

/-- The number of bytes before the end pointer, the value, and whether `errno` has become
`ERANGE`. -/
structure Result where
  endptr : Nat
  value : Int
  erange : Bool
  deriving DecidableEq, Repr

/-- What the two functions have in common. `lim` is the largest value for a sign, and `finish`
makes the result of the last state of the loop. -/
def convert (lim : Bool → Nat) (finish : Bool → Acc → Int) (nptr : List UInt8) (base : Nat) :
    Result :=
  let signed := sign (nptr.dropWhile isspace)
  let detected := detect base signed.2
  let ended := loop detected.1 (lim signed.1) detected.2 ⟨0, 0, false⟩
  if ended.2.any = 0 then ⟨0, 0, ended.2.erange⟩
  else ⟨nptr.length - ended.1.length, finish signed.1 ended.2, ended.2.erange⟩

def strtol (nptr : List UInt8) (base : Nat) : Result :=
  convert (fun neg => if neg then LONG_MIN else LONG_MAX)
    (fun neg a => Int.bmod (if a.any < 0 then a.acc
      else if neg then ((2 ^ 32 - a.acc) % 2 ^ 32 : Nat) else a.acc) (2 ^ 32)) nptr base

def strtoul (nptr : List UInt8) (base : Nat) : Result :=
  convert (fun _ => ULONG_MAX) (fun neg a => if a.any < 0 then ULONG_MAX
      else if neg then ((2 ^ 32 - a.acc) % 2 ^ 32 : Nat) else a.acc) nptr base

/-! ### The standard -/

def isDigitOf (base : Nat) (c : UInt8) : Bool := (digit c).any (· < base)

def digitsOf (base : Nat) (s : List UInt8) : List UInt8 := s.takeWhile (isDigitOf base)

/-- The number that digits stand for, after those that stand for `n`. -/
def numeral (base n : Nat) (ds : List UInt8) : Nat :=
  ds.foldl (fun n c => n * base + (digit c).getD 0) n

/-- `0x` with a hexadecimal digit behind it. -/
def HexNumber (base : Nat) (s : List UInt8) : Prop :=
  (base = 0 ∨ base = 16) ∧ startsHex s ∧ digitsOf 16 (s.drop 2) ≠ []

instance (base : Nat) (s : List UInt8) : Decidable (HexNumber base s) :=
  inferInstanceAs (Decidable (_ ∧ _ ∧ _))

/-- The base, the length of the prefix, and the digits. -/
def subject (base : Nat) (s : List UInt8) : Nat × Nat × List UInt8 :=
  if HexNumber base s then (16, 2, digitsOf 16 (s.drop 2))
  else (plainBase base s, 0, digitsOf (plainBase base s) s)

/-- The end of the number in the string, and its value by `clamp`, which is given the sign and
the digits' value and says whether it had to change the value. -/
def standard (clamp : Bool → Nat → Int × Bool) (nptr : List UInt8) (base : Nat) : Result :=
  let signed := sign (nptr.dropWhile isspace)
  let (base, skipped, ds) := subject base signed.2
  if ds = [] then ⟨0, 0, false⟩
  else
    let (value, erange) := clamp signed.1 (numeral base 0 ds)
    ⟨nptr.length - signed.2.length + skipped + ds.length, value, erange⟩

def clampLong (neg : Bool) (n : Nat) : Int × Bool :=
  if neg then (max (-n) (-LONG_MIN), -(n : Int) < -LONG_MIN)
  else (min n LONG_MAX, (n : Int) > LONG_MAX)

def clampULong (neg : Bool) (n : Nat) : Int × Bool :=
  if n > ULONG_MAX then (ULONG_MAX, true)
  else (if neg then (-(n : Int)) % 2 ^ 32 else n, false)

/-- The number begins with `0x`, and no hexadecimal digit follows. -/
def LoneX (nptr : List UInt8) (base : Nat) : Prop :=
  let signed := sign (nptr.dropWhile isspace)
  (base = 0 ∨ base = 16) ∧ startsHex signed.2 ∧ digitsOf 16 (signed.2.drop 2) = []

/-! ### The loop -/

theorem numeral_le {base : Nat} (positive : 0 < base) (n : Nat) (ds : List UInt8) :
    n ≤ numeral base n ds := by
  induction ds generalizing n with
  | nil => exact le_rfl
  | cons c ds ih =>
    calc n ≤ n * base := Nat.le_mul_of_pos_right n positive
      _ ≤ n * base + (digit c).getD 0 := Nat.le_add_right _ _
      _ ≤ numeral base n (c :: ds) := ih _

/-- The test before a digit is added finds the numbers that are too large. -/
theorem over_iff {base lim acc c : Nat} (small : c < base) :
    (acc > lim / base ∨ acc = lim / base ∧ c > lim % base) ↔ lim < acc * base + c := by
  have whole := Nat.div_add_mod lim base
  have rest := Nat.mod_lt lim (show 0 < base by omega)
  rw [Nat.mul_comm] at whole
  rcases Nat.lt_trichotomy acc (lim / base) with less | same | more
  · have := Nat.mul_le_mul_right base (show acc + 1 ≤ lim / base from less)
    rw [Nat.succ_mul] at this
    omega
  · rw [← same] at whole ⊢
    omega
  · have := Nat.mul_le_mul_right base (show lim / base + 1 ≤ acc from more)
    rw [Nat.succ_mul] at this
    omega

variable {base lim : Nat}

theorem loop_eq (s : List UInt8) (a : Acc) : loop base lim s a = (s.dropWhile (isDigitOf base),
      (digitsOf base s).foldl (fun a c => a.push base lim ((digit c).getD 0)) a) := by
  induction s generalizing a with
  | nil => rfl
  | cons c s ih =>
    rw [loop, digitsOf, List.dropWhile_cons, List.takeWhile_cons]
    cases value : digit c with
    | none => simp [isDigitOf, value]
    | some d =>
      by_cases small : d < base
      · simp [isDigitOf, value, small, Nat.not_le.mpr small, ih, digitsOf]
      · simp [isDigitOf, value, small, Nat.not_lt.mp small]

/-- After an overflow nothing changes any more. -/
theorem foldl_push_over (ds : List UInt8) {a : Acc} (full : a.any < 0) :
    ds.foldl (fun a c => a.push base lim ((digit c).getD 0)) a = a := by
  induction ds with
  | nil => rfl
  | cons c ds ih => rw [List.foldl_cons, Acc.push, if_pos full, ih]

/-- The state of the loop after the digits. -/
def read (base lim n : Nat) (any : Int) (ds : List UInt8) : Acc :=
  if ds = [] then ⟨n, any, false⟩
  else if numeral base n ds ≤ lim then ⟨numeral base n ds, 1, false⟩ else ⟨lim, -1, true⟩

theorem foldl_push (word : lim < 2 ^ 32) {ds : List UInt8} (digits : ∀ c ∈ ds, isDigitOf base c)
    {n : Nat} {any : Int} (begun : 0 ≤ any) :
    ds.foldl (fun a c => a.push base lim ((digit c).getD 0)) ⟨n, any, false⟩ =
      read base lim n any ds := by
  induction ds generalizing n any with
  | nil => rfl
  | cons c ds ih =>
    have here := digits c List.mem_cons_self
    have later : ∀ c ∈ ds, isDigitOf base c := fun x member =>
      digits x (List.mem_cons_of_mem c member)
    cases value : digit c with
    | none => simp [isDigitOf, value] at here
    | some d =>
      have small : d < base := by simpa [isDigitOf, value] using here
      have next : numeral base n (c :: ds) = numeral base (n * base + d) ds := by
        rw [numeral, List.foldl_cons, value, Option.getD_some, numeral]
      have least := numeral_le (show 0 < base by omega) (n * base + d) ds
      rw [List.foldl_cons, value, Option.getD_some, Acc.push, if_neg (by simpa using begun)]
      simp only [over_iff small]
      by_cases large : lim < n * base + d
      · rw [if_pos large, foldl_push_over ds (show (-1 : Int) < 0 by decide), read,
          if_neg (List.cons_ne_nil c ds), next, if_neg (by omega)]
      · rw [if_neg large, Nat.mod_eq_of_lt (by omega), ih later (by decide), read, read,
          if_neg (List.cons_ne_nil c ds), next]
        by_cases last : ds = []
        · rw [if_pos last, last, numeral, List.foldl_nil, if_pos (by omega)]
        · rw [if_neg last]

theorem loop_digits (word : lim < 2 ^ 32) (s : List UInt8) : loop base lim s ⟨0, 0, false⟩ =
      (s.dropWhile (isDigitOf base), read base lim 0 0 (digitsOf base s)) := by
  have digits : ∀ c ∈ digitsOf base s, isDigitOf base c := fun c member =>
    List.mem_takeWhile_imp member
  rw [loop_eq, foldl_push word digits (by decide)]

/-! ### The functions -/

theorem sign_suffix (s : List UInt8) : (sign s).2 <:+ s := by
  unfold sign
  split
  · exact List.suffix_cons 45 _
  · exact List.suffix_cons 43 _
  · exact List.suffix_refl _

theorem length_sign_le (nptr : List UInt8) :
    (sign (nptr.dropWhile isspace)).2.length ≤ nptr.length :=
  ((sign_suffix _).trans (List.dropWhile_suffix _)).length_le

/-- Unless a prefix stands alone, the code finds the digits where the standard does. -/
theorem detect_subject (base : Nat) (s : List UInt8)
    (fine : ¬ ((base = 0 ∨ base = 16) ∧ startsHex s ∧ digitsOf 16 (s.drop 2) = [])) :
    ∃ b k, detect base s = (b, s.drop k) ∧ subject base s = (b, k, digitsOf b (s.drop k)) ∧
      k ≤ s.length := by
  by_cases hex : (base = 0 ∨ base = 16) ∧ startsHex s
  · have number : HexNumber base s := ⟨hex.1, hex.2, fun none' => fine ⟨hex.1, hex.2, none'⟩⟩
    refine ⟨16, 2, if_pos hex, if_pos number, ?_⟩
    by_contra short
    have nothing : s.drop 2 = [] := List.drop_eq_nil_of_le (by omega)
    exact number.2.2 (by rw [nothing]; rfl)
  · refine ⟨plainBase base s, 0, if_neg hex, if_neg fun number => hex ⟨number.1, number.2.1⟩, ?_⟩
    exact Nat.zero_le _

/-- The standard reads a prefix that stands alone as the number 0. -/
theorem subject_of_lone {base : Nat} {s : List UInt8}
    (lone : (base = 0 ∨ base = 16) ∧ startsHex s ∧ digitsOf 16 (s.drop 2) = []) :
    detect base s = (16, s.drop 2) ∧ (subject base s).2.2 ≠ [] := by
  obtain ⟨bases, hex, none'⟩ := lone
  refine ⟨if_pos ⟨bases, hex⟩, ?_⟩
  rw [subject, if_neg fun number => number.2.2 none']
  cases s with
  | nil => cases hex
  | cons c rest =>
    have zero : c = 48 := by
      unfold startsHex at hex
      split at hex
      · rename_i same
        exact (List.cons.inj same).1
      · cases hex
    subst zero
    have first : isDigitOf (plainBase base (48 :: rest)) 48 := by
      rcases bases with rfl | rfl <;> rfl
    rw [digitsOf, List.takeWhile_cons, if_pos first]
    exact List.cons_ne_nil _ _

/-- Where the code stops behind the digits. -/
theorem length_sub {nptr s : List UInt8} {b k : Nat} (inside : s.length ≤ nptr.length)
    (skipped : k ≤ s.length) : nptr.length - ((s.drop k).dropWhile (isDigitOf b)).length =
      nptr.length - s.length + k + (digitsOf b (s.drop k)).length := by
  have parts := congrArg List.length (List.takeWhile_append_dropWhile (p := isDigitOf b) (l := s.drop k))
  rw [List.length_append, List.length_drop] at parts
  rw [digitsOf]
  omega

/-- The functions agree with the standard unless a prefix stands alone, if they treat the
value of the digits as the standard does. -/
theorem convert_eq_iff {lim : Bool → Nat} {finish : Bool → Acc → Int}
    {clamp : Bool → Nat → Int × Bool} (word : ∀ neg, lim neg < 2 ^ 32)
    (fits : ∀ neg n, n ≤ lim neg → clamp neg n = (finish neg ⟨n, 1, false⟩, false))
    (clamps : ∀ neg n, lim neg < n → clamp neg n = (finish neg ⟨lim neg, -1, true⟩, true))
    (nptr : List UInt8) (base : Nat) :
    convert lim finish nptr base = standard clamp nptr base ↔ ¬ LoneX nptr base := by
  have inside := length_sign_le nptr
  unfold convert standard LoneX
  generalize sign (nptr.dropWhile isspace) = signed at inside ⊢
  constructor
  · intro same lone
    obtain ⟨detected, some'⟩ := subject_of_lone lone
    rcases found : subject base signed.2 with ⟨b, k, ds⟩
    simp only [found] at some'
    have ends := congrArg Result.endptr same
    simp only [detected, found, loop_digits (word signed.1), lone.2.2, read, if_pos, if_neg some']
      at ends
    have := List.length_pos_iff.mpr some'
    omega
  · intro fine
    obtain ⟨b, k, detected, found, skipped⟩ := detect_subject base signed.2 fine
    simp only [detected, found, loop_digits (word signed.1), read]
    by_cases none' : digitsOf b (signed.2.drop k) = []
    · simp [none']
    · by_cases small : numeral b 0 (digitsOf b (signed.2.drop k)) ≤ lim signed.1
      · simp [none', small, fits _ _ small, length_sub inside skipped]
      · simp [none', small, clamps _ _ (Nat.not_le.mp small), length_sub inside skipped]

/-- `strtol` and `strtoul` do what the standard says, except for a `0x` that no hexadecimal
digit follows: there the end is at the start of the string and not behind the `0`. -/
theorem strtol_standard_iff (nptr : List UInt8) (base : Nat) :
    (strtol nptr base = standard clampLong nptr base ↔ ¬ LoneX nptr base) ∧
      (strtoul nptr base = standard clampULong nptr base ↔ ¬ LoneX nptr base) := by
  constructor
  · apply convert_eq_iff
    · intro neg
      cases neg <;> decide
    · intro neg n small
      cases neg <;> simp [clampLong, LONG_MAX, LONG_MIN, Int.bmod_def] at small ⊢ <;> omega
    · intro neg n large
      cases neg <;> simp [clampLong, LONG_MAX, LONG_MIN] at large ⊢ <;> omega
  · apply convert_eq_iff
    · intro neg
      decide
    · intro neg n small
      rw [clampULong, if_neg (Nat.not_lt.mpr small)]
      cases neg <;> simp [ULONG_MAX] at small ⊢
      omega
    · intro neg n large
      rw [clampULong, if_pos large]
      simp

/-- `0x` in base 16: the standard reads the number 0 and stops at the `x`. -/
theorem strtol_lone :
    strtol [48, 120] 16 = ⟨0, 0, false⟩ ∧ standard clampLong [48, 120] 16 = ⟨1, 0, false⟩ := by
  decide

end SirpairOs.Strtol
