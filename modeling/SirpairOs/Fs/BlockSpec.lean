import SirpairOs.Fs.Bitmap

/-! What the block layer of `fs.c` does: `readsb`, `bzero`, `balloc` and `bfree`,
from any state. -/
namespace SirpairOs

namespace KOp

/-- The atomic steps with a log of unlimited capacity. -/
def unbounded (pid : Nat) : Handler KOp Ret Halt Kernel
  | logWrite s data, k =>
    if k.holder s ≠ some pid then .halt .misuse k
    else if k.log.owner = none then .halt (.panic .outsideTrans) k
    else .ok () (k.store s data)
  | o, k => exec pid o k

/-- `log_write` finds the header below its capacity. -/
def Room (pid : Nat) : KOp → Kernel → Prop
  | logWrite s _, k => k.holder s = some pid → k.log.lh.length < k.logLimit
  | _, _ => True

instance (pid : Nat) (o : KOp) (k : Kernel) : Decidable (Room pid o k) :=
  match o with
  | logWrite s _ =>
    inferInstanceAs (Decidable (k.holder s = some pid → k.log.lh.length < k.logLimit))
  | bread _ | brelse _ | beginTrans | commitTrans | iget _ | idup _ | lockInode _ | getInode _
  | setDin _ _ | setValid _ | iunlock _ | putRef _ | dropRef _ | getCwd | setCwd _ | filealloc
  | getFile _ | setFile _ _ | dropFile _ | filedup _ | getFd _ | setFd _ _ | fdalloc _ | devsw _
  | panic _ => isTrue trivial

/-- The kernel's log is the unlimited one behind the capacity check. -/
theorem exec_eq_guarded (pid : Nat) :
    exec pid = Prog.guarded (unbounded pid) (Room pid) (.panic .tooBig) := by
  funext o k
  cases o with
  | logWrite s data =>
    rw [Prog.guarded]
    simp only [exec, unbounded, Room, Kernel.logLimit, Nat.lt_min]
    by_cases mine : k.holder s = some pid
    · by_cases full : k.log.lh.length ≥ LOGSIZE ∨ k.log.lh.length ≥ k.log.size - 1
      · rw [if_neg (not_not_intro mine), if_pos full, if_neg (fun room => by
          have := room mine
          omega)]
      · rw [if_neg (not_not_intro mine), if_neg full, if_pos (fun _ => by omega),
          if_neg (not_not_intro mine)]
        rfl
    · rw [if_pos mine, if_pos fun same => absurd same mine, if_pos mine]
  | _ => exact (if_pos trivial).symm

end KOp

/-- Every halt except the three panics that speak of a broken file system. -/
def Soft (e : Halt) : Prop :=
  e ≠ .panic .freeingFree ∧ e ≠ .panic .ilockNoType ∧ e ≠ .panic .unlinkNlink

instance (e : Halt) : Decidable (Soft e) := inferInstanceAs (Decidable (_ ∧ _ ∧ _))

/-- The halts of a broken resource (locks, log, tables) are all accepted. -/
def Lenient (E : Halt → Kernel → Prop) : Prop := ∀ e k, Soft e → E e k

def Idle (E : Halt → Kernel → Prop) (k : Kernel) (held : Nat → Prop) : Prop :=
  Lenient E ∨ ∀ s, k.holder s ≠ none → held s

def Trans (E : Halt → Kernel → Prop) (k : Kernel) : Prop := Lenient E ∨ k.log.owner ≠ none

abbrev Wp {α : Type} (pid : Nat) (A : KOp → Kernel → Prop) (E : Halt → Kernel → Prop)
    (p : KProg α) (Q : α → Kernel → Prop) (k : Kernel) : Prop :=
  Prog.wp (KOp.unbounded pid) A p Q E k

section Idle

variable {E : Halt → Kernel → Prop} {k : Kernel} {held : Nat → Prop}

theorem Idle.free (idle : Idle E k held) {s : Nat} (apart : ¬ held s) :
    Lenient E ∨ k.holder s = none :=
  idle.imp id fun only => by
    by_contra taken
    exact apart (only s taken)

theorem Idle.hold (idle : Idle E k held) (pid s : Nat) :
    Idle E (k.hold pid s) fun x => x = s ∨ held x :=
  idle.imp id fun only x taken => by
    by_cases same : x = s
    · exact .inl same
    · exact .inr (only x (by rwa [Kernel.hold_holder_of_ne k pid same] at taken))

/-- Locked sectors are allocated data blocks. -/
def DataOnly (k : Kernel) (held : Nat → Prop) : Prop :=
  ∀ s, held s → k.sb.dataStart ≤ s ∧ s < k.sb.logStart ∧ k.used s = true

theorem Idle.free_low (idle : Idle E k held) (data : DataOnly k held) {s : Nat}
    (low : s < k.sb.dataStart) : Lenient E ∨ k.holder s = none :=
  idle.free fun taken => absurd (data s taken).1 (by omega)

end Idle

namespace Fs

section Rules

variable {pid : Nat} {A : KOp → Kernel → Prop} {E : Halt → Kernel → Prop} {α : Type} {k : Kernel}
  {held : Nat → Prop}

theorem bind_wp {β : Type} {p : KProg α} {f : α → KProg β} {Q : β → Kernel → Prop}
    (first : Wp pid A E p (fun a k' => Wp pid A E (f a) Q k') k) : Wp pid A E (p >>= f) Q k :=
  (Prog.wp_bind _ _ p f Q E k).mpr first

variable {s : Nat} {Q : Unit → Kernel → Prop}

theorem bread_wp {Q : Block → Kernel → Prop} (free : Lenient E ∨ k.holder s = none)
    (next : A (.bread s) k → k.holder s = none → Q (k.disk s) (k.hold pid s)) :
    Wp pid A E (bread s) Q k := by
  intro allowed
  simp only [KOp.unbounded, KOp.exec]
  split
  · rename_i free
    exact next allowed free
  · rename_i taken
    exact free.elim (fun lenient => lenient _ _ (by decide)) fun free => absurd free taken

theorem logWrite_wp {data : Block} (trans : Trans E k) (mine : k.holder s = some pid)
    (next : Q () (k.store s data)) : Wp pid A E (logWrite s data) Q k := by
  intro _
  simp only [KOp.unbounded, mine, ne_eq, not_true, ↓reduceIte]
  split
  · rename_i nobody
    exact trans.elim (fun lenient => lenient _ _ (by decide)) fun some => absurd nobody some
  · exact next

theorem brelse_wp (mine : k.holder s = some pid) (next : Q () (k.unhold s)) :
    Wp pid A E (brelse s) Q k := by
  intro _
  simp only [KOp.unbounded, KOp.exec, mine, ↓reduceIte]
  exact next

theorem panic_wp {which : Panic} {Q : α → Kernel → Prop} (stop : E (.panic which) k) :
    Wp pid A E (panic which) Q k := fun _ => stop

theorem peek_wp {f : Block → KProg α} {Q : α → Kernel → Prop} (free : Lenient E ∨ k.holder s = none)
    (next : A (.bread s) k → Wp pid A E (f (k.disk s)) Q k) :
    Wp pid A E (bread s >>= fun bp => brelse s >>= fun _ => f bp) Q k := by
  refine bind_wp (bread_wp free fun allowed none' => bind_wp (brelse_wp (by simp) ?_))
  rw [Kernel.unhold_hold k pid none']
  exact next allowed

/-- Read a sector, log it with new contents and release it. -/
theorem edit_wp {g : Block → Block} {f : Block → KProg α} {Q : α → Kernel → Prop}
    (free : Lenient E ∨ k.holder s = none) (trans : Trans E k)
    (next : Wp pid A E (f (k.disk s)) Q (k.store s (g (k.disk s)))) :
    Wp pid A E (bread s >>= fun bp => logWrite s (g bp) >>= fun _ => brelse s >>= fun _ => f bp)
      Q k := by
  refine bind_wp (bread_wp free fun _ none' => bind_wp (logWrite_wp trans (by simp) ?_))
  refine bind_wp (brelse_wp (by exact Kernel.hold_holder_self k pid s) ?_)
  rw [Kernel.unhold_store_hold k pid s _ none']
  exact next

theorem readsb_wp {Q : Superblock → Kernel → Prop} (free : Lenient E ∨ k.holder 1 = none)
    (next : A (.bread 1) k → Q k.sb k) : Wp pid A E readsb Q k :=
  peek_wp free next

theorem bzero_wp {b : Nat} (free : Lenient E ∨ k.holder b = none) (trans : Trans E k)
    (next : Q () (k.store b Bytes.zero)) : Wp pid A E (bzero b) Q k := by
  have whole : bzero b = (bread b >>= fun _ => logWrite b Bytes.zero >>= fun _ =>
      brelse b >>= fun u => pure u) := rfl
  rw [whole]
  exact edit_wp (g := fun _ => Bytes.zero) (f := fun _ => pure ()) free trans next

theorem freeBit_eq_some {bitmap : Block} {limit bi : Nat} : freeBit bitmap limit = some bi ↔
      bi < limit ∧ bitmap.bit bi = false ∧ ∀ j < bi, bitmap.bit j = true := by
  rw [freeBit, List.find?_range_eq_some]
  simp only [Bool.not_eq_true', List.mem_range, Bool.not_eq_false']
  tauto

theorem freeBit_eq_none {bitmap : Block} {limit : Nat} :
    freeBit bitmap limit = none ↔ ∀ j < limit, bitmap.bit j = true := by
  rw [freeBit, List.find?_eq_none]
  simp only [List.mem_range, Bool.not_eq_true', Bool.not_eq_false]

/-- The scan of `balloc` from bitmap block `m` on, when everything before it is in
use: it hands out the first free block. -/
theorem ballocFrom_wp {n m : Nat} {Q : Nat → Kernel → Prop} (valid : k.sb.Valid)
    (idle : Idle E k held) (data : DataOnly k held) (trans : Trans E k)
    (last : m + n = (k.sb.size + BPB - 1) / BPB)
    (before : ∀ x < m * BPB, x < k.sb.size → k.used x = true)
    (next : ∀ b < k.sb.size, k.used b = false → (∀ x < b, k.used x = true) → Q b (k.alloc b))
    (full : (∀ x < k.sb.size, k.used x = true) → E (.panic .outOfBlocks) k) :
    Wp pid A E (ballocFrom k.sb ((List.range' m n).map fun i => i * BPB)) Q k := by
  induction n generalizing m with
  | zero =>
    refine panic_wp (full fun x inside => before x ?_ inside)
    unfold BPB at last ⊢
    omega
  | succ n ih =>
    have start : m * BPB < k.sb.size := by unfold BPB at last ⊢; omega
    have sector {bi : Nat} (small : bi < BPB) :
        BBLOCK (m * BPB + bi) k.sb.ninodes = BBLOCK (m * BPB) k.sb.ninodes := by
      rw [BBLOCK_eq_iff]
      unfold BPB at small ⊢
      omega
    have bit {bi : Nat} (small : bi < BPB) : k.used (m * BPB + bi) =
        (k.disk (BBLOCK (m * BPB) k.sb.ninodes)).bit bi := by
      rw [Kernel.used, sector small, Nat.add_comm, Nat.add_mul_mod_self_right,
        Nat.mod_eq_of_lt small]
    have free := idle.free_low data (valid.bitmap _ start)
    rw [List.range'_succ, List.map_cons, ballocFrom]
    refine bind_wp (bread_wp free fun _ none' => ?_)
    cases found : freeBit (k.disk (BBLOCK (m * BPB) k.sb.ninodes))
        (min BPB (k.sb.size - m * BPB)) with
    | none =>
      rw [freeBit_eq_none] at found
      refine bind_wp (brelse_wp (by simp) ?_)
      rw [Kernel.unhold_hold k pid none']
      refine ih (by omega) fun x below inside => ?_
      by_cases old : x < m * BPB
      · exact before x old inside
      · have split : x = m * BPB + (x - m * BPB) := by omega
        have small : x - m * BPB < BPB := by unfold BPB at *; omega
        rw [split, bit small]
        exact found _ (by omega)
    | some bi =>
      rw [freeBit_eq_some] at found
      obtain ⟨small, clear, first⟩ := found
      have small' : bi < BPB := by omega
      refine bind_wp (logWrite_wp trans (by simp) (bind_wp (brelse_wp
        (by exact Kernel.hold_holder_self k pid _) ?_)))
      rw [Kernel.unhold_store_hold k pid _ _ none']
      have unused : k.used (m * BPB + bi) = false := (bit small').trans clear
      refine bind_wp (bzero_wp (idle.free fun taken => ?_) trans ?_)
      · rw [(data _ taken).2.2] at unused
        cases unused
      · have rem : (m * BPB + bi) % BPB = bi := by
          rw [Nat.add_comm, Nat.add_mul_mod_self_right, Nat.mod_eq_of_lt small']
        have result := next (m * BPB + bi) (by omega) unused fun x below => ?_
        · rw [Kernel.alloc, sector small', rem] at result
          exact result
        · by_cases old : x < m * BPB
          · exact before x old (by omega)
          · have split : x = m * BPB + (x - m * BPB) := by omega
            rw [split, bit (by omega)]
            exact first _ (by omega)

/-- `balloc` returns the first free block, zeroed. -/
theorem balloc_wp {Q : Nat → Kernel → Prop} (valid : k.sb.Valid) (idle : Idle E k held)
    (data : DataOnly k held) (trans : Trans E k)
    (next : A (.bread 1) k → ∀ b < k.sb.size, k.used b = false → (∀ x < b, k.used x = true) →
      Q b (k.alloc b))
    (full : A (.bread 1) k → (∀ x < k.sb.size, k.used x = true) → E (.panic .outOfBlocks) k) :
    Wp pid A E balloc Q k := by
  have low := valid.three_lt_dataStart
  refine bind_wp (readsb_wp (idle.free_low data (by omega)) fun allowed => ?_)
  rw [bitmapStarts, List.range_eq_range']
  exact ballocFrom_wp valid idle data trans (by omega) (fun x below => by omega)
    (next allowed) (full allowed)

/-- `bfree` clears the block's bit; a clear bit is a panic. -/
theorem bfree_wp {b : Nat} (valid : k.sb.Valid) (idle : Idle E k held) (data : DataOnly k held)
    (trans : Trans E k) (inside : b < k.sb.size) (next : k.used b = true → Q () (k.release b))
    (twice : k.used b = false → ∀ k', E (.panic .freeingFree) k') : Wp pid A E (bfree b) Q k := by
  have low := valid.three_lt_dataStart
  refine bind_wp (readsb_wp (idle.free_low data (by omega)) fun _ => ?_)
  refine bind_wp (bread_wp (idle.free_low data (valid.bitmap b inside)) fun _ none' => ?_)
  refine bind_wp (Prog.wp_when _ _ (fun clear => panic_wp ?_) fun set => ?_)
  · exact twice clear _
  · refine bind_wp (logWrite_wp trans (by simp) (brelse_wp
      (by exact Kernel.hold_holder_self k pid _) ?_))
    rw [Kernel.unhold_store_hold k pid _ _ none']
    exact next (Bool.not_eq_false _ ▸ set)

end Rules

end Fs

end SirpairOs
