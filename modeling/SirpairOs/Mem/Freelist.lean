import SirpairOs.Lib.Transition
import SirpairOs.Mem.Vm
import Mathlib.Data.Finset.Card

/-! `kalloc` and `kfree` (`kernel/kalloc.c`) when the head of the free list and the links in the
pages may be overwritten between two calls. Of the contents of a page only its link is kept. -/
namespace SirpairOs.Freelist

open Mem (PGSIZE KERNBASE PHYSTOP)

/-- A value of `page_state`. -/
inductive PageState where
  | alloc
  | free
  | unknown
  deriving DecidableEq

def PAGE_TRACK_SLOTS : Nat := PHYSTOP / PGSIZE

/-- Used for addresses of the kernel only. -/
def v2p (a : Nat) : Nat := a - KERNBASE

def p2v (pa : Nat) : Nat := pa + KERNBASE

def idx (r : Nat) : Nat := v2p r / PGSIZE

/-- The addresses that the allocator works between: `end` and `phystop`. -/
structure Layout where
  kend : Nat
  phystop : Nat
  linked : KERNBASE ≤ kend
  bounded : phystop ≤ PHYSTOP

def Layout.ptop (l : Layout) : Nat := if l.phystop = 0 then PHYSTOP else l.phystop

/-- `page_state`, `kmem` and its shadow, and the link in each page. -/
structure Kmem where
  pageState : Nat → PageState
  freelist : Nat
  nfree : Nat
  freelistShadow : Nat
  nfreeShadow : Nat
  next : Nat → Nat

/-- `kmem` when `kinit1` begins to free pages. -/
def kinit1 : Kmem := ⟨fun _ => .unknown, 0, 0, 0, 0, fun _ => 0⟩

/-- The address of a page between `end` and `phystop`. -/
def Usable (l : Layout) (r : Nat) : Prop :=
  r % PGSIZE = 0 ∧ l.kend ≤ r ∧ v2p r < l.ptop

instance (l : Layout) (r : Nat) : Decidable (Usable l r) :=
  inferInstanceAs (Decidable (_ ∧ _ ∧ _))

def runPtrValid (l : Layout) (r : Nat) : Prop := r = 0 ∨ Usable l r

instance (l : Layout) (r : Nat) : Decidable (runPtrValid l r) :=
  inferInstanceAs (Decidable (_ ∨ _))

/-- The first and the last page that `rebuild_freelist_locked` looks at. -/
def Layout.first (l : Layout) : Nat := (v2p l.kend + (PGSIZE - 1)) / PGSIZE

def Layout.last (l : Layout) : Nat := (l.ptop - 1) / PGSIZE

/-- The pages in state `PAGE_STATE_FREE`. -/
def freePages (states : Nat → PageState) : Finset Nat :=
  {page ∈ Finset.range PAGE_TRACK_SLOTS | states page = .free}

namespace Kmem

/-- The shadow is set to the list. -/
def shadowed (s : Kmem) : Kmem := { s with freelistShadow := s.freelist, nfreeShadow := s.nfree }

/-- One page of the loop of `rebuild_freelist_locked`. -/
def collect (page : Nat) (s : Kmem) : Kmem :=
  if page < PAGE_TRACK_SLOTS ∧ s.pageState page = .free then
    let r := p2v (page * PGSIZE)
    { s with next := Function.update s.next r s.freelist, freelist := r, nfree := s.nfree + 1 }
  else s

/-- The loop goes from the last page down to the first. -/
def rebuildFreelistLocked (l : Layout) (s : Kmem) : Kmem :=
  ((List.range' l.first (l.last + 1 - l.first)).foldr collect
    { s with freelist := 0, nfree := 0 }).shadowed

/-- A list whose head is no pointer to a page is replaced by the shadow. -/
def restore (l : Layout) (s : Kmem) : Kmem :=
  if ¬ runPtrValid l s.freelist ∧ runPtrValid l s.freelistShadow then
    { s with freelist := s.freelistShadow, nfree := s.nfreeShadow }
  else s

/-- The state of a page on the list is not `PAGE_STATE_FREE`. -/
def Mismatch (s : Kmem) (r : Nat) : Prop :=
  idx r < PAGE_TRACK_SLOTS ∧ s.pageState (idx r) ≠ .free

instance (s : Kmem) (r : Nat) : Decidable (s.Mismatch r) := inferInstanceAs (Decidable (_ ∧ _))

def setState (s : Kmem) (r : Nat) (state : PageState) : Kmem :=
  if idx r < PAGE_TRACK_SLOTS then
    { s with pageState := Function.update s.pageState (idx r) state }
  else s

/-- One turn of the loop of `kalloc`: its result, or what it rebuilds the list from. -/
def turn (l : Layout) (s : Kmem) : Except Kmem (Nat × Kmem) :=
  let r := s.freelist
  let next := s.next r
  if r = 0 then .ok (0, s.shadowed)
  else if ¬ Usable l r then .error s
  else if ¬ runPtrValid l next then .error s
  else if next ≠ 0 ∧ s.Mismatch next then .error s
  else if s.Mismatch r then .error { s with freelist := next }
  else .ok (r, { s.setState r .alloc with freelist := next, nfree := s.nfree - 1 }.shadowed)

/-- The loop of `kalloc`; `none` if it has to rebuild the list more often than `rebuilds` times. -/
def kallocLoop (l : Layout) : Nat → Kmem → Option (Nat × Kmem)
  | 0, s => (turn l s).toOption
  | rebuilds + 1, s =>
    match turn l s with
    | .ok result => some result
    | .error s => kallocLoop l rebuilds (s.rebuildFreelistLocked l)

def kalloc (l : Layout) (rebuilds : Nat) (s : Kmem) : Option (Nat × Kmem) :=
  let s := s.restore l
  if s.freelist = 0 ∧ 0 < s.nfree then
    match rebuilds with
    | 0 => none
    | rebuilds + 1 => kallocLoop l rebuilds (s.rebuildFreelistLocked l)
  else kallocLoop l rebuilds s

/-- A pointer that is not that of a page is a panic. -/
def kfree (l : Layout) (v : Nat) (s : Kmem) : Option Kmem :=
  if v = 0 then some s
  else if ¬ Usable l v then none
  else if idx v < PAGE_TRACK_SLOTS ∧ s.pageState (idx v) = .free then some s
  else
    let s := (s.setState v .free).restore l
    some { s with
      next := Function.update s.next v s.freelist, freelist := v, nfree := s.nfree + 1 }.shadowed

def free (s : Kmem) : Finset Nat := freePages s.pageState

end Kmem

/-- The allocator, and the pages that were returned by `kalloc` and not freed since. -/
structure State where
  kmem : Kmem
  held : List Nat

inductive Event where
  /-- The head of the list and the links get other values. -/
  | overwrite (freelist : Nat) (next : Nat → Nat)
  | kalloc
  | kfree (v : Nat)

def step (l : Layout) : Event → State → Option State
  | .overwrite freelist next, s => some { s with kmem := { s.kmem with freelist, next } }
  | .kalloc, s =>
    (s.kmem.kalloc l 1).map fun result =>
      ⟨result.2, if result.1 = 0 then s.held else result.1 :: s.held⟩
  | .kfree v, s => (s.kmem.kfree l v).map fun kmem => ⟨kmem, s.held.filter (· ≠ v)⟩

variable {l : Layout} {s t : Kmem} {r : Nat}

theorem Layout.ptop_bounds (l : Layout) : 0 < l.ptop ∧ l.ptop ≤ PHYSTOP := by
  have := l.bounded
  unfold ptop
  split
  · exact ⟨by decide, Nat.le_refl PHYSTOP⟩
  · omega

theorem Usable.ne_zero (usable : Usable l r) : r ≠ 0 := by
  have := Nat.le_trans l.linked usable.2.1
  simp only [KERNBASE] at this
  omega

theorem Usable.idx_lt (usable : Usable l r) : idx r < PAGE_TRACK_SLOTS := by
  have := Nat.lt_of_lt_of_le usable.2.2 l.ptop_bounds.2
  simp only [idx, PAGE_TRACK_SLOTS, PHYSTOP, PGSIZE] at *
  omega

theorem Usable.eq_p2v (usable : Usable l r) : r = p2v (idx r * PGSIZE) := by
  have above := Nat.le_trans l.linked usable.2.1
  have aligned := usable.1
  simp only [p2v, idx, v2p, PGSIZE, KERNBASE] at *
  omega

/-- The pages between `end` and `phystop` are those that `rebuild_freelist_locked` looks at. -/
theorem usable_p2v_iff {page : Nat} :
    Usable l (p2v (page * PGSIZE)) ↔ l.first ≤ page ∧ page ≤ l.last := by
  have positive := l.ptop_bounds.1
  have linked := l.linked
  simp only [Usable, Layout.first, Layout.last, p2v, v2p, PGSIZE, KERNBASE] at *
  omega

theorem idx_p2v (page : Nat) : idx (p2v (page * PGSIZE)) = page := by
  rw [idx, v2p, p2v, Nat.add_sub_cancel]
  exact Nat.mul_div_cancel page (Nat.succ_pos 4095)

theorem Usable.range (usable : Usable l r) : l.first ≤ idx r ∧ idx r ≤ l.last :=
  usable_p2v_iff.mp (usable.eq_p2v ▸ usable)

/-- A page that may be on the list. -/
def Good (l : Layout) (states : Nat → PageState) (r : Nat) : Prop :=
  Usable l r ∧ states (idx r) = .free

/-- The list is empty, or its first two pages are as they should be. -/
def Linked (l : Layout) (s : Kmem) : Prop :=
  s.freelist ≠ 0 → Good l s.pageState s.freelist ∧
    (s.next s.freelist ≠ 0 → Good l s.pageState (s.next s.freelist))

/-- The list and the number of its pages, once the loop has been through `pages`. -/
structure Collected (l : Layout) (s t : Kmem) (pages : List Nat) : Prop where
  states : t.pageState = s.pageState
  linked : Linked l t
  nfree : t.nfree = (pages.filter (· ∈ s.free)).length
  head : t.freelist ≠ 0 ↔ 0 < t.nfree

theorem mem_free {page : Nat} :
    page ∈ s.free ↔ page < PAGE_TRACK_SLOTS ∧ s.pageState page = .free := by
  rw [Kmem.free, freePages, Finset.mem_filter, Finset.mem_range]

theorem Collected.cons {page : Nat} {pages : List Nat} (low : l.first ≤ page)
    (high : page ≤ l.last) (collected : Collected l s t pages) :
    Collected l s (t.collect page) (page :: pages) := by
  have usable : Usable l (p2v (page * PGSIZE)) := usable_p2v_iff.mpr ⟨low, high⟩
  unfold Kmem.collect
  split
  · rename_i found
    have good : Good l t.pageState (p2v (page * PGSIZE)) :=
      ⟨usable, (congrArg t.pageState (idx_p2v page)).trans found.2⟩
    rw [collected.states, ← mem_free] at found
    refine ⟨collected.states, fun _ => ⟨good, fun more => ?_⟩, ?_, ?_⟩
    · simp only [Function.update_self] at more ⊢
      exact (collected.linked more).1
    · simp only [List.filter_cons, found, decide_true, if_true, List.length_cons, collected.nfree]
    · exact ⟨fun _ => Nat.succ_pos t.nfree, fun _ => usable.ne_zero⟩
  · rename_i missing
    rw [collected.states, ← mem_free] at missing
    refine ⟨collected.states, collected.linked, ?_, collected.head⟩
    simp only [List.filter_cons, missing, decide_false, Bool.false_eq_true, if_false,
      collected.nfree]

theorem collected_foldr (pages : List Nat)
    (inside : ∀ page ∈ pages, l.first ≤ page ∧ page ≤ l.last) :
    Collected l s (pages.foldr Kmem.collect { s with freelist := 0, nfree := 0 }) pages := by
  induction pages with
  | nil => exact ⟨rfl, fun some => absurd rfl some, rfl, ⟨fun some => absurd rfl some, nofun⟩⟩
  | cons page pages ih =>
    obtain ⟨low, high⟩ := inside page List.mem_cons_self
    exact (ih fun page' rest => inside page' (List.mem_cons_of_mem page rest)).cons low high

/-- What holds between two calls, whatever the head of the list and the links are. -/
structure Inv (l : Layout) (s : Kmem) : Prop where
  shadow : runPtrValid l s.freelistShadow
  nfreeShadow : s.nfreeShadow = s.nfree
  nfree : s.nfree = s.free.card
  inside : ∀ page ∈ s.free, l.first ≤ page ∧ page ≤ l.last

theorem Linked.valid (linked : Linked l s) : runPtrValid l s.freelist := by
  by_cases empty : s.freelist = 0
  · exact .inl empty
  · exact .inr (linked empty).1.1

theorem free_congr (states : t.pageState = s.pageState) : t.free = s.free :=
  congrArg freePages states

theorem mem_pages (page : Nat) : page ∈ List.range' l.first (l.last + 1 - l.first) ↔
    l.first ≤ page ∧ page ≤ l.last := by
  rw [List.mem_range'_1]
  omega

theorem length_filter_pages (inside : ∀ page ∈ s.free, l.first ≤ page ∧ page ≤ l.last) :
    ((List.range' l.first (l.last + 1 - l.first)).filter (· ∈ s.free)).length = s.free.card := by
  rw [← List.toFinset_card_of_nodup (List.Nodup.filter _ (List.nodup_range' 1 Nat.one_pos))]
  refine congrArg Finset.card (Finset.ext fun page => ?_)
  rw [List.mem_toFinset, List.mem_filter, decide_eq_true_eq, mem_pages]
  exact ⟨And.right, fun found => ⟨inside page found, found⟩⟩

/-- The list is in order when all pages have been looked at, and empty only if none is free. -/
theorem Collected.spec {pages : List Nat} (collected : Collected l s t pages)
    (all : (pages.filter (· ∈ s.free)).length = s.free.card)
    (inside : ∀ page ∈ s.free, l.first ≤ page ∧ page ≤ l.last) :
    Inv l t.shadowed ∧ t.shadowed.pageState = s.pageState ∧ Linked l t.shadowed ∧
      (t.shadowed.freelist = 0 → s.free = ∅) := by
  have nfree := collected.nfree.trans all
  have same : t.free = s.free := free_congr collected.states
  rw [← same] at inside nfree ⊢
  refine ⟨⟨collected.linked.valid, rfl, nfree, inside⟩, collected.states, collected.linked,
    fun empty => ?_⟩
  have none : ¬ 0 < t.nfree := fun some => collected.head.mpr some empty
  exact Finset.card_eq_zero.mp (nfree.symm.trans (Nat.eq_zero_of_not_pos none))

theorem rebuild_spec (inside : ∀ page ∈ s.free, l.first ≤ page ∧ page ≤ l.last) :
    Inv l (s.rebuildFreelistLocked l) ∧ (s.rebuildFreelistLocked l).pageState = s.pageState ∧
      Linked l (s.rebuildFreelistLocked l) ∧
      ((s.rebuildFreelistLocked l).freelist = 0 → s.free = ∅) :=
  (collected_foldr _ fun page => (mem_pages page).mp).spec (length_filter_pages inside) inside

theorem setState_eq (usable : Usable l r) (state : PageState) : s.setState r state =
    { s with pageState := Function.update s.pageState (idx r) state } :=
  if_pos usable.idx_lt

/-- What `kalloc` returns is a free page, or 0 because there is none. -/
def Granted (l : Layout) (s : Kmem) (r : Nat) (t : Kmem) : Prop :=
  r = 0 ∧ s.free = ∅ ∧ t.pageState = s.pageState ∨
    Good l s.pageState r ∧ t.pageState = Function.update s.pageState (idx r) .alloc

theorem Granted.congr {u : Kmem} (states : u.pageState = s.pageState) (granted : Granted l u r t) :
    Granted l s r t := by
  rw [Granted, states, free_congr states] at granted
  exact granted

theorem mem_free_update {page i : Nat} {state : PageState} (tracked : i < PAGE_TRACK_SLOTS)
    (states : t.pageState = Function.update s.pageState i state) :
    page ∈ t.free ↔ if page = i then state = .free else page ∈ s.free := by
  rw [mem_free, mem_free, states]
  split
  · rename_i same
    rw [same, Function.update_self]
    exact and_iff_right tracked
  · rename_i other
    rw [Function.update_of_ne other]

theorem Inv.alloc (inv : Inv l s) (good : Good l s.pageState r) (states : t.pageState =
    Function.update s.pageState (idx r) .alloc) (valid : runPtrValid l t.freelistShadow)
    (shadow : t.nfreeShadow = t.nfree) (nfree : t.nfree = s.nfree - 1) : Inv l t := by
  have erased : t.free = s.free.erase (idx r) := by
    ext page
    rw [Finset.mem_erase, mem_free_update good.1.idx_lt states]
    split <;> simp [*]
  refine ⟨valid, shadow, ?_, fun page found => ?_⟩
  · rw [nfree, inv.nfree, erased, Finset.card_erase_of_mem (mem_free.mpr ⟨good.1.idx_lt, good.2⟩)]
  · rw [erased] at found
    exact inv.inside page (Finset.mem_of_mem_erase found)

theorem Inv.freed (inv : Inv l s) (usable : Usable l r) (busy : idx r ∉ s.free)
    (states : t.pageState = Function.update s.pageState (idx r) .free)
    (valid : runPtrValid l t.freelistShadow) (shadow : t.nfreeShadow = t.nfree)
    (nfree : t.nfree = s.nfree + 1) : Inv l t := by
  have inserted : t.free = insert (idx r) s.free := by
    ext page
    rw [Finset.mem_insert, mem_free_update usable.idx_lt states]
    split <;> simp [*]
  refine ⟨valid, shadow, ?_, fun page found => ?_⟩
  · rw [nfree, inv.nfree, inserted, Finset.card_insert_of_notMem busy]
  · rw [inserted] at found
    rcases Finset.mem_insert.mp found with rfl | found
    · exact usable.range
    · exact inv.inside page found

/-- A turn of the loop has a result unless the list is out of order. -/
theorem turn_cases (inv : Inv l s) (empty : s.freelist = 0 → s.free = ∅) :
    (∃ r t, s.turn l = .ok (r, t) ∧ Inv l t ∧ Granted l s r t) ∨
      ¬ Linked l s ∧ ∃ t, s.turn l = .error t ∧ t.pageState = s.pageState := by
  unfold Kmem.turn
  dsimp only
  split
  · rename_i none
    refine .inl ⟨_, _, rfl, ⟨.inl none, rfl, inv.nfree, inv.inside⟩, .inl ⟨rfl, empty none, rfl⟩⟩
  rename_i some
  split
  · rename_i bad
    exact .inr ⟨fun linked => bad (linked some).1.1, _, rfl, rfl⟩
  rename_i usable
  split
  · rename_i bad
    refine .inr ⟨fun linked => bad ?_, _, rfl, rfl⟩
    by_cases last : s.next s.freelist = 0
    · exact .inl last
    · exact .inr ((linked some).2 last).1
  rename_i valid
  split
  · rename_i bad
    exact .inr ⟨fun linked => bad.2.2 ((linked some).2 bad.1).2, _, rfl, rfl⟩
  split
  · rename_i bad
    exact .inr ⟨fun linked => bad.2 (linked some).1.2, _, rfl, rfl⟩
  · rename_i fits
    have usable := Decidable.not_not.mp usable
    have good : Good l s.pageState s.freelist :=
      ⟨usable, Decidable.not_not.mp fun other => fits ⟨usable.idx_lt, other⟩⟩
    rw [setState_eq usable]
    exact .inl ⟨_, _, rfl, inv.alloc good rfl (Decidable.not_not.mp valid) rfl rfl,
      .inr ⟨good, rfl⟩⟩

theorem kallocLoop_of_ok {result : Nat × Kmem} (done : s.turn l = .ok result) (n : Nat) :
    Kmem.kallocLoop l n s = some result := by
  cases n with
  | zero => rw [Kmem.kallocLoop, done]; rfl
  | succ n => rw [Kmem.kallocLoop, done]

/-- Once the list has been rebuilt the loop ends with its next turn. -/
theorem kallocLoop_rebuilt (inside : ∀ page ∈ s.free, l.first ≤ page ∧ page ≤ l.last) :
    ∃ r t, (∀ n, Kmem.kallocLoop l n (s.rebuildFreelistLocked l) = some (r, t)) ∧ Inv l t ∧
      Granted l s r t := by
  obtain ⟨inv, states, linked, empty⟩ := rebuild_spec inside
  rw [← free_congr states] at empty
  rcases turn_cases inv empty with ⟨r, t, done, inv, granted⟩ | ⟨bad, _⟩
  · exact ⟨r, t, kallocLoop_of_ok done, inv, granted.congr states⟩
  · exact absurd linked bad

theorem restore_eq (l : Layout) (shadow : s.nfreeShadow = s.nfree) :
    ∃ freelist, s.restore l = { s with freelist } := by
  unfold Kmem.restore
  split
  · exact ⟨s.freelistShadow, by rw [shadow]⟩
  · exact ⟨s.freelist, rfl⟩

theorem Inv.restore (inv : Inv l s) :
    Inv l (s.restore l) ∧ (s.restore l).pageState = s.pageState := by
  obtain ⟨freelist, same⟩ := restore_eq l inv.nfreeShadow
  rw [same]
  exact ⟨⟨inv.shadow, inv.nfreeShadow, inv.nfree, inv.inside⟩, rfl⟩

/-- `kalloc` needs to rebuild the list once at most. -/
theorem kalloc_spec (inv : Inv l s) :
    ∃ r t, (∀ n, s.kalloc l (n + 1) = some (r, t)) ∧ Inv l t ∧ Granted l s r t := by
  obtain ⟨inv, states⟩ := inv.restore
  by_cases short : (s.restore l).freelist = 0 ∧ 0 < (s.restore l).nfree
  · obtain ⟨r, t, done, kept, granted⟩ := kallocLoop_rebuilt inv.inside
    refine ⟨r, t, fun n => ?_, kept, granted.congr states⟩
    rw [Kmem.kalloc, if_pos short]
    exact done n
  · have empty (none : (s.restore l).freelist = 0) : (s.restore l).free = ∅ := by
      apply Finset.card_eq_zero.mp
      rw [← inv.nfree]
      exact Nat.eq_zero_of_not_pos fun more => short ⟨none, more⟩
    rcases turn_cases inv empty with ⟨r, t, done, kept, granted⟩ | ⟨_, u, again, same⟩
    · refine ⟨r, t, fun n => ?_, kept, granted.congr states⟩
      rw [Kmem.kalloc, if_neg short]
      exact kallocLoop_of_ok done (n + 1)
    · have inside := inv.inside
      rw [← free_congr same] at inside
      obtain ⟨r, t, done, kept, granted⟩ := kallocLoop_rebuilt inside
      refine ⟨r, t, fun n => ?_, kept, granted.congr (same.trans states)⟩
      rw [Kmem.kalloc, if_neg short, Kmem.kallocLoop, again]
      exact done n

/-- A page that is freed twice is left alone the second time. -/
theorem kfree_free (v : Nat) (usable : Usable l v) (free : s.pageState (idx v) = .free) :
    s.kfree l v = some s := by
  rw [Kmem.kfree, if_neg usable.ne_zero, if_neg (not_not_intro usable),
    if_pos ⟨usable.idx_lt, free⟩]

theorem kfree_spec {v : Nat} (inv : Inv l s) (freed : s.kfree l v = some t) :
    Inv l t ∧ (t.pageState = s.pageState ∨
      Usable l v ∧ t.pageState = Function.update s.pageState (idx v) .free) := by
  unfold Kmem.kfree at freed
  split at freed
  · exact Option.some.inj freed ▸ ⟨inv, .inl rfl⟩
  split at freed
  · exact absurd freed nofun
  rename_i usable
  split at freed
  · exact Option.some.inj freed ▸ ⟨inv, .inl rfl⟩
  rename_i busy
  have usable := Decidable.not_not.mp usable
  rw [setState_eq usable] at freed
  obtain ⟨freelist, same⟩ := restore_eq (s := { s with
    pageState := Function.update s.pageState (idx v) .free }) l inv.nfreeShadow
  rw [same] at freed
  obtain rfl := Option.some.inj freed
  exact ⟨inv.freed usable (fun free => busy (mem_free.mp free)) rfl (.inr usable) rfl rfl,
    .inr ⟨usable, rfl⟩⟩

theorem idx_inj {v : Nat} (first : Usable l r) (second : Usable l v) (same : idx r = idx v) :
    r = v := by
  rw [first.eq_p2v, second.eq_p2v, same]

/-- A state of the allocator in which no page that is held is free. -/
structure Sound (l : Layout) (s : State) : Prop where
  inv : Inv l s.kmem
  held : ∀ r ∈ s.held, Usable l r ∧ s.kmem.pageState (idx r) = .alloc

theorem step_sound {event : Event} {s s' : State} (sound : Sound l s)
    (done : step l event s = some s') : Sound l s' := by
  obtain ⟨inv, held⟩ := sound
  cases event with
  | overwrite freelist next =>
    exact Option.some.inj done ▸ ⟨⟨inv.shadow, inv.nfreeShadow, inv.nfree, inv.inside⟩, held⟩
  | kalloc =>
    obtain ⟨r, t, total, kept, granted⟩ := kalloc_spec inv
    rw [step, total 0] at done
    obtain rfl := Option.some.inj done
    refine ⟨kept, fun v mine => ?_⟩
    dsimp only at mine ⊢
    rcases granted with ⟨zero, -, states⟩ | ⟨good, states⟩
    · rw [if_pos zero] at mine
      exact states ▸ held v mine
    · rw [if_neg good.1.ne_zero, List.mem_cons] at mine
      rw [states]
      by_cases same : idx v = idx r
      · rw [same, Function.update_self]
        exact ⟨mine.elim (fun new => new ▸ good.1) fun old => (held v old).1, rfl⟩
      · rw [Function.update_of_ne same]
        exact held v (mine.resolve_left fun new => same (congrArg idx new))
  | kfree v =>
    obtain ⟨t, freed, rfl⟩ := Option.map_eq_some_iff.mp done
    obtain ⟨kept, states⟩ := kfree_spec inv freed
    refine ⟨kept, fun r mine => ?_⟩
    obtain ⟨mine, other⟩ := List.mem_filter.mp mine
    obtain ⟨usable, state⟩ := held r mine
    rcases states with states | ⟨freed, states⟩
    · exact ⟨usable, states ▸ state⟩
    · refine ⟨usable, ?_⟩
      rw [states, Function.update_of_ne fun same =>
        of_decide_eq_true other (idx_inj usable freed same)]
      exact state

/-- The page allocator survives whatever is written to its list between two calls. -/
theorem kalloc_survives (l : Layout) (events : List Event) {s : State}
    (ran : Transition.run (step l) events ⟨kinit1, []⟩ = some s) :
    s.kmem.nfree = s.kmem.free.card ∧
      (∀ v, Usable l v → s.kmem.pageState (idx v) = .free → s.kmem.kfree l v = some s.kmem) ∧
      ∃ r t, (∀ n, s.kmem.kalloc l (n + 1) = some (r, t)) ∧ (r = 0 → s.kmem.free = ∅) ∧
        (r ≠ 0 → s.kmem.pageState (idx r) = .free ∧ r ∉ s.held) := by
  have none : kinit1.free = ∅ := Finset.filter_false_of_mem fun page _ => nofun
  have start : Sound l ⟨kinit1, []⟩ := by
    refine ⟨⟨.inl rfl, rfl, none ▸ rfl, fun page found => ?_⟩, nofun⟩
    rw [none] at found
    exact absurd found (Finset.notMem_empty page)
  obtain ⟨inv, held⟩ := Transition.run_preserves (C := fun _ _ => True)
    (fun _ _ _ _ sound done => step_sound sound done) start
    (Transition.Along.of_forall (fun _ _ _ => trivial) _) ran
  refine ⟨inv.nfree, kfree_free, ?_⟩
  obtain ⟨r, t, total, -, granted⟩ := kalloc_spec inv
  refine ⟨r, t, total, fun zero => ?_, fun some => ?_⟩
  · rcases granted with ⟨-, empty, -⟩ | ⟨good, -⟩
    · exact empty
    · exact absurd zero good.1.ne_zero
  · rcases granted with ⟨zero, -, -⟩ | ⟨good, -⟩
    · exact absurd zero some
    · exact ⟨good.2, fun mine => absurd ((held r mine).2.symm.trans good.2) nofun⟩

/-- A page is freed, and then the list is lost: the next `kalloc` finds the page again. -/
theorem kalloc_survives_lost :
    ∃ s t, Transition.run (step ⟨0x80200000, 0x203000, by decide, by decide⟩)
      [.kfree 0x80201000, .overwrite 0 fun _ => 5] ⟨kinit1, []⟩ = some s ∧
        s.kmem.nfree = s.kmem.free.card ∧
        s.kmem.kalloc ⟨0x80200000, 0x203000, by decide, by decide⟩ 1 = some (0x80201000, t) ∧
        s.kmem.pageState (idx 0x80201000) = .free := by
  obtain ⟨count, -, r, t, total, -, found⟩ :=
    kalloc_survives ⟨0x80200000, 0x203000, by decide, by decide⟩
      [.kfree 0x80201000, .overwrite 0 fun _ => 5] rfl
  obtain rfl : 0x80201000 = r := congrArg Prod.fst (Option.some.inj (total 0))
  exact ⟨_, t, rfl, count, total 0, (found (by decide)).1⟩

/-! ### The list that is not overwritten

As long as nobody writes to the list, the allocator is the list of page numbers of
`Mem.Kmem`. -/

/-- The links lead from `r` through the pages to 0. -/
def Chain (next : Nat → Nat) : Nat → List Nat → Prop
  | r, [] => r = 0
  | r, page :: pages => r = p2v (page * PGSIZE) ∧ Chain next (next r) pages

structure Represents (l : Layout) (s : Kmem) (m : Mem.Kmem) : Prop where
  inv : Inv l s
  chain : Chain s.next s.freelist m.freelist
  free : ∀ page, page ∈ s.free ↔ page ∈ m.freelist

theorem p2v_inj {page other : Nat} (same : p2v (page * PGSIZE) = p2v (other * PGSIZE)) :
    page = other := by
  rw [← idx_p2v page, same, idx_p2v]

/-- A new link in a page that is not on the list leaves the list alone. -/
theorem Chain.update {next : Nat → Nat} {page : Nat} {pages : List Nat} (chain : Chain next r pages)
    (other : page ∉ pages) (link : Nat) :
    Chain (Function.update next (p2v (page * PGSIZE)) link) r pages := by
  induction pages generalizing r with
  | nil => exact chain
  | cons first pages ih =>
    obtain ⟨here, rest⟩ := chain
    rw [List.mem_cons, not_or] at other
    obtain ⟨apart, other⟩ := other
    refine ⟨here, ?_⟩
    rw [Function.update_of_ne fun same => apart (p2v_inj (same.symm.trans here))]
    exact ih rest other

namespace Represents

variable {m : Mem.Kmem} (repr : Represents l s m)

include repr

theorem good {page : Nat} (member : page ∈ m.freelist) :
    Good l s.pageState (p2v (page * PGSIZE)) := by
  have free := (repr.free page).mpr member
  refine ⟨usable_p2v_iff.mpr (repr.inv.inside page free), ?_⟩
  rw [idx_p2v]
  exact (mem_free.mp free).2

theorem head {pages : List Nat} (chain : Chain s.next r pages)
    (among : ∀ page ∈ pages, page ∈ m.freelist) (some : r ≠ 0) : Good l s.pageState r := by
  cases pages with
  | nil => exact absurd chain some
  | cons page pages =>
    rw [chain.1]
    exact repr.good (among page List.mem_cons_self)

theorem linked : Linked l s := by
  intro some
  refine ⟨repr.head repr.chain (fun _ => id) some, fun more => ?_⟩
  have chain := repr.chain
  cases pages : m.freelist with
  | nil =>
    rw [pages] at chain
    exact absurd chain some
  | cons page rest =>
    rw [pages] at chain
    refine repr.head chain.2 (fun other member => ?_) more
    rw [pages]
    exact List.mem_cons_of_mem page member

theorem restore : s.restore l = s := if_neg fun bad => bad.1 repr.linked.valid

theorem empty (none : s.freelist = 0) : m.freelist = [] := by
  cases pages : m.freelist with
  | nil => rfl
  | cons page rest =>
    have chain := repr.chain
    rw [pages] at chain
    have usable := (repr.good (pages ▸ List.mem_cons_self)).1
    exact absurd (chain.1.symm.trans none) usable.ne_zero

/-- A list in order is not rebuilt. -/
theorem kalloc_of_turn {result : Nat × Kmem} (done : s.turn l = .ok result) (n : Nat) :
    s.kalloc l n = some result := by
  have whole : ¬ (s.freelist = 0 ∧ 0 < s.nfree) := by
    rintro ⟨none, more⟩
    obtain ⟨page, found⟩ := Finset.card_pos.mp (repr.inv.nfree ▸ more)
    rw [repr.free, repr.empty none] at found
    cases found
  unfold Kmem.kalloc
  dsimp only
  rw [repr.restore, if_neg whole]
  exact kallocLoop_of_ok done n

theorem turn (some : s.freelist ≠ 0) : runPtrValid l (s.next s.freelist) ∧
    s.turn l = .ok (s.freelist,
      { s with pageState := Function.update s.pageState (idx s.freelist) .alloc
               freelist := s.next s.freelist, nfree := s.nfree - 1 }.shadowed) := by
  obtain ⟨good, more⟩ := repr.linked some
  have valid : runPtrValid l (s.next s.freelist) := by
    by_cases last : s.next s.freelist = 0
    · exact .inl last
    · exact .inr (more last).1
  refine ⟨valid, ?_⟩
  unfold Kmem.turn
  dsimp only
  rw [if_neg some, if_neg (not_not_intro good.1), if_neg (not_not_intro valid),
    if_neg fun bad => bad.2.2 (more bad.1).2, if_neg fun bad => bad.2 good.2, setState_eq good.1]

/-- `kalloc` returns the first page, or 0 if there is none. -/
theorem kalloc (n : Nat) (granted : m.denied m.calls = false) : ∃ t,
    s.kalloc l n = some (m.kalloc.1.elim 0 fun page => p2v (page * PGSIZE), t) ∧
      Represents l t m.kalloc.2 := by
  obtain ⟨pages, nodup, calls, denied⟩ := m
  have free := repr.free
  cases pages with
  | nil =>
    have ends : s.freelist = 0 := repr.chain
    have done : s.turn l = .ok (0, s.shadowed) := by rw [Kmem.turn, if_pos ends]
    refine ⟨_, repr.kalloc_of_turn done n, ?_, ends, free⟩
    exact ⟨.inl ends, rfl, repr.inv.nfree, repr.inv.inside⟩
  | cons page rest =>
    obtain ⟨first, chain⟩ := repr.chain
    have good : Good l s.pageState s.freelist := first ▸ repr.good List.mem_cons_self
    obtain ⟨valid, done⟩ := repr.turn good.1.ne_zero
    have number : idx s.freelist = page := by rw [first, idx_p2v]
    have granted : denied calls = false := granted
    simp only [Mem.Kmem.kalloc, granted, Bool.false_eq_true, if_false]
    refine ⟨_, (repr.kalloc_of_turn done n).trans (congrArg (fun r => some (r, _)) first),
      repr.inv.alloc good rfl valid rfl rfl, chain, fun other => ?_⟩
    rw [mem_free_update good.1.idx_lt rfl, number, free, List.mem_cons]
    obtain ⟨once, -⟩ := List.nodup_cons.mp nodup
    split
    · rename_i same
      exact iff_of_false (by decide) (same ▸ once)
    · rename_i apart
      exact or_iff_right apart

/-- `kfree` puts a page at the front of the list, unless it is there already. -/
theorem kfree {v : Nat} (usable : Usable l v) :
    ∃ t, s.kfree l v = some t ∧ Represents l t (m.kfree (idx v)) := by
  by_cases listed : idx v ∈ m.freelist
  · have free := (mem_free.mp ((repr.free _).mpr listed)).2
    rw [Mem.Kmem.kfree, dif_pos listed]
    exact ⟨s, kfree_free v usable free, repr⟩
  · have busy : ¬ (idx v < PAGE_TRACK_SLOTS ∧ s.pageState (idx v) = .free) :=
      fun free => listed ((repr.free _).mp (mem_free.mpr free))
    have still : Kmem.restore l { s with pageState := Function.update s.pageState (idx v) .free } =
        { s with pageState := Function.update s.pageState (idx v) .free } :=
      if_neg fun bad => bad.1 repr.linked.valid
    rw [Kmem.kfree, if_neg usable.ne_zero, if_neg (not_not_intro usable), if_neg busy,
      setState_eq usable, still, Mem.Kmem.kfree, dif_neg listed]
    refine ⟨_, rfl, repr.inv.freed usable (fun free => listed ((repr.free _).mp free)) rfl
      (.inr usable) rfl rfl, ⟨usable.eq_p2v, ?_⟩, fun other => ?_⟩
    · have kept := repr.chain.update listed s.freelist
      rw [← usable.eq_p2v] at kept
      change Chain _ (Function.update s.next v s.freelist v) m.freelist
      rw [Function.update_self]
      exact kept
    · rw [mem_free_update usable.idx_lt rfl, repr.free, List.mem_cons]
      split <;> simp [*]

end Represents

theorem denied_kalloc (m : Mem.Kmem) : m.kalloc.2.denied = m.denied := by
  unfold Mem.Kmem.kalloc
  split
  · split <;> rfl
  · rfl

/-- What an event does to the list of page numbers. -/
def Event.onList (m : Mem.Kmem) : Event → Mem.Kmem
  | .overwrite _ _ => m
  | .kalloc => m.kalloc.2
  | .kfree v => if v = 0 then m else m.kfree (idx v)

theorem denied_onList (m : Mem.Kmem) (event : Event) : (event.onList m).denied = m.denied := by
  cases event with
  | overwrite freelist next => rfl
  | kalloc => exact denied_kalloc m
  | kfree v =>
    rw [Event.onList]
    split
    · rfl
    · exact Mem.Kmem.kfree_denied m _

theorem step_represents {m : Mem.Kmem} {s s' : State} {event : Event}
    (untouched : ∀ freelist next, event ≠ .overwrite freelist next)
    (repr : Represents l s.kmem m) (supplied : ∀ n, m.denied n = false)
    (done : step l event s = some s') : Represents l s'.kmem (event.onList m) := by
  cases event with
  | overwrite freelist next => exact absurd rfl (untouched freelist next)
  | kalloc =>
    obtain ⟨t, taken, after⟩ := repr.kalloc 1 (supplied _)
    rw [step, taken] at done
    obtain rfl := Option.some.inj done
    exact after
  | kfree v =>
    obtain ⟨t, freed, rfl⟩ := Option.map_eq_some_iff.mp done
    rw [Event.onList]
    split
    · rename_i zero
      rw [Kmem.kfree, if_pos zero] at freed
      exact Option.some.inj freed ▸ repr
    · rename_i some
      by_cases usable : Usable l v
      · obtain ⟨u, same, after⟩ := repr.kfree usable
        obtain rfl := Option.some.inj (same.symm.trans freed)
        exact after
      · rw [Kmem.kfree, if_neg some, if_pos usable] at freed
        cases freed

/-- While nobody writes to the list, the allocator follows the list of page numbers. -/
theorem run_represents {m : Mem.Kmem} {s s' : State} {events : List Event}
    (untouched : ∀ event ∈ events, ∀ freelist next, event ≠ .overwrite freelist next)
    (repr : Represents l s.kmem m) (supplied : ∀ n, m.denied n = false)
    (ran : Transition.run (step l) events s = some s') :
    Represents l s'.kmem (events.foldl Event.onList m) := by
  induction events generalizing s m with
  | nil => exact Option.some.inj ran ▸ repr
  | cons event events ih =>
    obtain ⟨first, rest⟩ := List.forall_mem_cons.mp untouched
    obtain ⟨t, done, ran⟩ := Option.bind_eq_some_iff.mp ran
    refine ih rest (step_represents first repr supplied done) (fun n => ?_) ran
    rw [denied_onList]
    exact supplied n

end SirpairOs.Freelist
