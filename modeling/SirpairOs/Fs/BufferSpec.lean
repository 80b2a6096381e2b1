import SirpairOs.Fs.Buffer

/-! What the buffer cache operations do, seen through the lookup of a sector. -/
namespace SirpairOs

namespace Buf

theorem sector_lock (pid : Nat) (b : Buf) : (b.lock pid).sector = b.sector := rfl
theorem sector_put (data : Block) (b : Buf) : (b.put data).sector = b.sector := rfl
theorem sector_mark (b : Buf) : b.mark.sector = b.sector := rfl
theorem sector_filled (data : Block) (b : Buf) : (b.filled data).sector = b.sector := rfl
theorem sector_written (b : Buf) : b.written.sector = b.sector := rfl

end Buf

namespace Cache

def Distinct (cache : List Buf) : Prop :=
  cache.Pairwise fun a b => a.sector = none ∨ a.sector ≠ b.sector

variable {cache : List Buf} {x : Nat} {b : Buf}

theorem find_sector (found : find cache x = some b) : b.sector = some x := by
  simpa only [decide_eq_true_eq] using List.find?_some found

theorem find_mem (found : find cache x = some b) : b ∈ cache := List.mem_of_find?_eq_some found

theorem find_cons (a : Buf) (cache : List Buf) (x : Nat) :
    find (a :: cache) x = if a.sector = some x then some a else find cache x := by
  by_cases same : a.sector = some x <;> simp [find, same]

theorem find_eq_none : find cache x = none ↔ ∀ b ∈ cache, b.sector ≠ some x := by
  simp only [find, List.find?_eq_none, decide_eq_true_eq, ne_eq]

theorem Distinct.find (distinct : Distinct cache) (member : b ∈ cache)
    (assigned : b.sector = some x) : find cache x = some b := by
  induction cache with
  | nil => cases member
  | cons a rest ih =>
    obtain ⟨apart, tail⟩ := List.pairwise_cons.mp distinct
    rw [find_cons]
    rcases List.mem_cons.mp member with rfl | member
    · simp only [assigned, ↓reduceIte]
    · have differs : a.sector ≠ some x := by
        rcases apart b member with blank | differs
        · simp only [blank, ne_eq, reduceCtorEq, not_false_eq_true]
        · rwa [assigned] at differs
      simp only [differs, ↓reduceIte]
      exact ih tail member

section Update

variable {f : Buf → Buf} (keeps : ∀ b, (f b).sector = b.sector)

include keeps

theorem find_update_same (cache : List Buf) (x : Nat) :
    find (update cache x f) x = (find cache x).map f := by
  induction cache with
  | nil => rfl
  | cons a rest ih =>
    rw [update, List.map_cons, find_cons, find_cons]
    by_cases same : a.sector = some x
    · simp only [same, ↓reduceIte, keeps, Option.map_some]
    · simp only [same, ↓reduceIte]
      exact ih

theorem find_update_ne (cache : List Buf) {x y : Nat} (apart : y ≠ x) :
    find (update cache x f) y = find cache y := by
  induction cache with
  | nil => rfl
  | cons a rest ih =>
    rw [update, List.map_cons, find_cons, find_cons]
    by_cases same : a.sector = some x
    · have differs : ¬ some x = some y := by
        intro equal
        exact apart (Option.some.inj equal).symm
      simp only [same, ↓reduceIte, keeps, differs]
      exact ih
    · simp only [same, ↓reduceIte]
      split
      · rfl
      · exact ih

theorem distinct_update {cache : List Buf} (distinct : Distinct cache) (x : Nat) :
    Distinct (update cache x f) := by
  apply List.pairwise_map.mpr
  refine distinct.imp ?_
  intro a b apart
  have sector (c : Buf) : (if c.sector = some x then f c else c).sector = c.sector := by
    split
    · exact keeps c
    · rfl
  simpa only [sector] using apart

end Update

@[simp] theorem length_update (cache : List Buf) (x : Nat) (f : Buf → Buf) :
    (update cache x f).length = cache.length := by
  simp only [update, List.length_map]

variable {cache : List Buf} {x : Nat} {b : Buf}

theorem mem_update {f : Buf → Buf} (member : b ∈ update cache x f) :
    b ∈ cache ∨ ∃ a ∈ cache, a.sector = some x ∧ b = f a := by
  obtain ⟨a, inside, rfl⟩ := List.mem_map.mp member
  by_cases same : a.sector = some x
  · exact Or.inr ⟨a, inside, same, by simp only [same, ↓reduceIte]⟩
  · exact Or.inl (by simpa only [same, ↓reduceIte] using inside)

theorem find_release_same (cache : List Buf) (x : Nat) (b : Buf) (assigned : b.sector = some x) :
    find (release cache x b) x = some { b with holder := none } := by
  rw [release, find_cons]
  simp only [assigned, ↓reduceIte]

theorem find_release_ne (cache : List Buf) {y : Nat} (b : Buf) (assigned : b.sector = some x)
    (apart : y ≠ x) : find (release cache x b) y = find cache y := by
  have differs : ¬ some x = some y := fun equal => apart (Option.some.inj equal).symm
  rw [release, find_cons]
  simp only [assigned, differs, ↓reduceIte]
  induction cache with
  | nil => rfl
  | cons a rest ih =>
    by_cases same : a.sector = some x
    · simpa only [same, not_true_eq_false, decide_false, Bool.false_eq_true, not_false_eq_true,
        List.filter_cons_of_neg, find_cons, differs, ↓reduceIte] using ih
    · simp only [same, not_false_eq_true, decide_true, List.filter_cons_of_pos, find_cons]
      split
      · rfl
      · exact ih

theorem distinct_release (distinct : Distinct cache) (x : Nat) (b : Buf)
    (assigned : b.sector = some x) : Distinct (release cache x b) := by
  apply List.pairwise_cons.mpr
  refine ⟨?_, distinct.filter _⟩
  intro a member
  have differs : ¬ a.sector = some x := by
    simpa only [decide_eq_true_eq] using (List.mem_filter.mp member).2
  exact Or.inr fun equal => differs (equal ▸ assigned)

theorem mem_release {c : Buf} (member : c ∈ release cache x b) :
    c = { b with holder := none } ∨ c ∈ cache ∧ c.sector ≠ some x := by
  rcases List.mem_cons.mp member with same | member
  · exact Or.inl same
  · obtain ⟨inside, differs⟩ := List.mem_filter.mp member
    exact Or.inr ⟨inside, by simpa only [decide_eq_true_eq] using differs⟩

theorem length_release (distinct : Distinct cache) (found : find cache x = some b) :
    (release cache x b).length = cache.length := by
  rw [release, List.length_cons]
  induction cache with
  | nil => cases found
  | cons a rest ih =>
    obtain ⟨apart, tail⟩ := List.pairwise_cons.mp distinct
    rw [find_cons] at found
    by_cases same : a.sector = some x
    · have alone : rest.filter (fun c => ¬ c.sector = some x) = rest := by
        apply List.filter_eq_self.mpr
        intro c member
        rcases apart c member with blank | differs
        · rw [same] at blank
          cases blank
        · rw [same] at differs
          simpa only [decide_eq_true_eq] using differs.symm
      rw [List.filter_cons_of_neg (by simp only [same, not_true_eq_false, decide_false,
        Bool.false_eq_true, not_false_eq_true]), alone, List.length_cons]
    · simp only [same, ↓reduceIte] at found
      rw [List.filter_cons_of_pos (by simp only [same, not_false_eq_true, decide_true]),
        List.length_cons, List.length_cons, ih tail found]

def Idle (b : Buf) : Prop := b.holder = none ∧ b.dirty = false

instance (b : Buf) : Decidable (Idle b) :=
  inferInstanceAs (Decidable (b.holder = none ∧ b.dirty = false))

theorem recycle_eq_none {pid : Nat} : recycle x pid cache = none ↔ ∀ b ∈ cache, ¬ Idle b := by
  induction cache with
  | nil => simp only [recycle, List.not_mem_nil, false_implies, implies_true]
  | cons a rest ih =>
    simp only [recycle]
    split
    · rename_i rest' found
      have later : ¬ ∀ b ∈ rest, ¬ Idle b := by
        rw [← ih, found]
        exact Option.some_ne_none rest'
      simp only [reduceCtorEq, List.mem_cons, forall_eq_or_imp, false_iff, not_and]
      exact fun _ => later
    · rename_i none_left
      split
      · rename_i idle
        simp only [reduceCtorEq, List.mem_cons, forall_eq_or_imp, false_iff, not_and]
        exact fun busy => absurd idle busy
      · rename_i busy
        simp only [List.mem_cons, forall_eq_or_imp, true_iff]
        exact ⟨busy, ih.mp none_left⟩

/-- Recycling replaces exactly one idle buffer. -/
theorem recycle_split {pid : Nat} {cache' : List Buf} (done : recycle x pid cache = some cache') :
    ∃ front old back, cache = front ++ old :: back ∧ Idle old ∧
      cache' = front ++ ⟨some x, some pid, false, false, old.data⟩ :: back := by
  induction cache generalizing cache' with
  | nil => cases done
  | cons a rest ih =>
    simp only [recycle] at done
    split at done
    · rename_i rest' found
      obtain ⟨front, old, back, same, idle, same'⟩ := ih found
      refine ⟨a :: front, old, back, ?_, idle, ?_⟩
      · rw [same, List.cons_append]
      · rw [← Option.some.inj done, same', List.cons_append]
    · split at done
      · rename_i idle
        exact ⟨[], a, rest, rfl, idle, (Option.some.inj done).symm⟩
      · cases done

theorem find_append (front back : List Buf) (x : Nat) :
    find (front ++ back) x = (find front x).or (find back x) := by
  simp only [find, List.find?_append]

section Recycle

variable {x pid : Nat} {cache cache' : List Buf} (missing : find cache x = none)
  (done : recycle x pid cache = some cache')

include done in
theorem length_recycle : cache'.length = cache.length := by
  obtain ⟨front, old, back, rfl, -, rfl⟩ := recycle_split done
  simp only [List.length_append, List.length_cons]

include missing done

theorem find_recycle_same :
    ∃ data, find cache' x = some ⟨some x, some pid, false, false, data⟩ := by
  obtain ⟨front, old, back, rfl, -, rfl⟩ := recycle_split done
  have unseen := find_eq_none.mp missing
  have before : find front x = none :=
    find_eq_none.mpr fun b member => unseen b (List.mem_append_left _ member)
  refine ⟨old.data, ?_⟩
  rw [find_append, before, Option.none_or, find_cons]
  simp only [↓reduceIte]

/-- A lookup of another sector gives what it gave, unless the buffer found was
the idle one that has been reassigned. -/
theorem find_recycle_ne (distinct : Distinct cache) {y : Nat} (apart : y ≠ x) :
    find cache' y = find cache y ∨ find cache' y = none ∧ ∃ b, find cache y = some b ∧ Idle b := by
  obtain ⟨front, old, back, rfl, idle, rfl⟩ := recycle_split done
  have differs : ¬ some x = some y := fun equal => apart (Option.some.inj equal).symm
  by_cases evicted : old.sector = some y
  · right
    refine ⟨?_, old, distinct.find (List.mem_append_right _ List.mem_cons_self) evicted, idle⟩
    apply find_eq_none.mpr
    intro b member
    have parts := List.pairwise_append.mp distinct
    have behind := List.pairwise_cons.mp parts.2.1
    rcases List.mem_append.mp member with ahead | member
    · rcases parts.2.2 b ahead old List.mem_cons_self with blank | other
      · simp only [blank, ne_eq, reduceCtorEq, not_false_eq_true]
      · rwa [evicted] at other
    · rcases List.mem_cons.mp member with rfl | after
      · exact differs
      · rcases behind.1 b after with blank | other
        · rw [evicted] at blank
          cases blank
        · rw [evicted] at other
          exact other.symm
  · left
    rw [find_append, find_append, find_cons, find_cons]
    simp only [differs, evicted, ↓reduceIte]

theorem distinct_recycle (distinct : Distinct cache) : Distinct cache' := by
  have unseen := find_eq_none.mp missing
  obtain ⟨front, old, back, rfl, -, rfl⟩ := recycle_split done
  have parts := List.pairwise_append.mp distinct
  have behind := List.pairwise_cons.mp parts.2.1
  apply List.pairwise_append.mpr
  refine ⟨parts.1, List.pairwise_cons.mpr ⟨?_, behind.2⟩, ?_⟩
  · intro b member
    exact Or.inr (unseen b (List.mem_append_right _ (List.mem_cons_of_mem _ member))).symm
  · intro a ahead b member
    rcases List.mem_cons.mp member with rfl | after
    · exact Or.inr (unseen a (List.mem_append_left _ ahead))
    · exact parts.2.2 a ahead b (List.mem_cons_of_mem _ after)

end Recycle

variable {x : Nat} {cache : List Buf}

theorem mem_recycle {pid : Nat} {cache' : List Buf} (done : recycle x pid cache = some cache')
    {b : Buf} (member : b ∈ cache') :
    b ∈ cache ∨ ∃ data, b = ⟨some x, some pid, false, false, data⟩ := by
  obtain ⟨front, old, back, rfl, -, rfl⟩ := recycle_split done
  rcases List.mem_append.mp member with ahead | member
  · exact Or.inl (List.mem_append_left _ ahead)
  · rcases List.mem_cons.mp member with rfl | after
    · exact Or.inr ⟨old.data, rfl⟩
    · exact Or.inl (List.mem_append_right _ (List.mem_cons_of_mem _ after))

theorem update_update (cache : List Buf) (x : Nat) {f : Buf → Buf} (g : Buf → Buf)
    (keeps : ∀ b, (f b).sector = b.sector) :
    update (update cache x f) x g = update cache x fun b => g (f b) := by
  simp only [update, List.map_map]
  apply List.map_congr_left
  intro b _
  by_cases same : b.sector = some x
  · simp only [Function.comp_apply, same, ↓reduceIte, keeps]
  · simp only [Function.comp_apply, same, ↓reduceIte]

/-- What holds of the cache between any two atomic steps. -/
structure Ok (cache : List Buf) : Prop where
  distinct : Distinct cache
  unassigned : ∀ b ∈ cache, b.sector = none → Idle b
  dirtyValid : ∀ b ∈ cache, b.dirty = true → b.valid = true
  length : cache.length = NBUF

theorem binit_ok : Ok binit where
  distinct := by
    simp only [Distinct, binit, List.pairwise_replicate, true_or, or_true]
  unassigned := by
    intro b member _
    rw [List.eq_of_mem_replicate member]
    exact ⟨rfl, rfl⟩
  dirtyValid := by
    intro b member dirty
    rw [List.eq_of_mem_replicate member] at dirty
    cases dirty
  length := List.length_replicate

theorem Ok.update (ok : Ok cache) (x : Nat) {f : Buf → Buf} (keeps : ∀ b, (f b).sector = b.sector)
    (clean : ∀ b ∈ cache, b.sector = some x → (f b).dirty = true → (f b).valid = true) :
    Ok (update cache x f) where
  distinct := distinct_update keeps ok.distinct x
  unassigned := by
    intro b member blank
    rcases mem_update member with old | ⟨a, _, same, rfl⟩
    · exact ok.unassigned b old blank
    · rw [keeps, same] at blank
      cases blank
  dirtyValid := by
    intro b member dirty
    rcases mem_update member with old | ⟨a, inside, same, rfl⟩
    · exact ok.dirtyValid b old dirty
    · exact clean a inside same dirty
  length := (length_update cache x f).trans ok.length

theorem Ok.release (ok : Ok cache) {b : Buf} (found : find cache x = some b) :
    Ok (release cache x b) where
  distinct := distinct_release ok.distinct x b (find_sector found)
  unassigned := by
    intro c member blank
    rcases mem_release member with rfl | ⟨old, _⟩
    · rw [find_sector found] at blank
      cases blank
    · exact ok.unassigned c old blank
  dirtyValid := by
    intro c member dirty
    rcases mem_release member with rfl | ⟨old, _⟩
    · exact ok.dirtyValid b (find_mem found) dirty
    · exact ok.dirtyValid c old dirty
  length := (length_release ok.distinct found).trans ok.length

theorem Ok.recycle {cache' : List Buf} (ok : Ok cache) {pid : Nat} (missing : find cache x = none)
    (done : recycle x pid cache = some cache') : Ok cache' where
  distinct := distinct_recycle missing done ok.distinct
  unassigned := by
    intro b member blank
    rcases mem_recycle done member with old | ⟨data, rfl⟩
    · exact ok.unassigned b old blank
    · cases blank
  dirtyValid := by
    intro b member dirty
    rcases mem_recycle done member with old | ⟨data, rfl⟩
    · exact ok.dirtyValid b old dirty
    · cases dirty
  length := (length_recycle done).trans ok.length

theorem Ok.unique {cache : List Buf} {x : Nat} {b c : Buf} (ok : Ok cache)
    (found : find cache x = some b) (member : c ∈ cache) (assigned : c.sector = some x) : c = b :=
  Option.some.inj ((ok.distinct.find member assigned).symm.trans found)

end Cache

namespace Bio

variable (pid : Nat)

abbrev wp {α : Type} (p : BufProg α) (Q : α → Machine → Prop) (E : Halt → Machine → Prop)
    (m : Machine) : Prop :=
  Prog.wp (BufOp.exec pid) (fun _ _ => True) p Q E m

variable {E : Halt → Machine → Prop} {m : Machine}

theorem wp_seq {α β : Type} {p : BufProg α} {f : α → BufProg β} {R : α → Machine → Prop}
    {Q : β → Machine → Prop} (first : wp pid p R E m) (rest : ∀ a m', R a m' → wp pid
    (f a) Q E m') : wp pid (p >>= f) Q E m := Prog.wp_seq _ _ first rest

variable {pid}

theorem bind_wp {α β : Type} {p : BufProg α} {f : α → BufProg β} {Q : β → Machine → Prop}
    (first : wp pid p (fun a m' => wp pid (f a) Q E m') E m) : wp pid (p >>= f) Q E m :=
  (Prog.wp_bind _ _ p f Q E m).mpr first

theorem wp_post {α : Type} {p : BufProg α} {R Q : α → Machine → Prop} (first : wp pid p R E m)
    (rest : ∀ a m', R a m' → Q a m') : wp pid p Q E m :=
  Prog.wp_mono _ _ first rest fun _ _ stop => stop

/-- The sector's buffer `b` is held, and the only other change is that one idle buffer
may be gone. -/
structure Holds (pid x : Nat) (m m' : Machine) (b : Buf) : Prop where
  disk : m'.disk = m.disk
  trace : m'.trace = m.trace
  log : m'.log = m.log
  ok : Cache.Ok m'.cache
  found : Cache.find m'.cache x = some b
  held : b.holder = some pid
  others : ∀ y, y ≠ x → Cache.find m'.cache y = Cache.find m.cache y ∨
    Cache.find m'.cache y = none ∧ ∃ b₀, Cache.find m.cache y = some b₀ ∧ Cache.Idle b₀
  members : ∀ c ∈ m'.cache, c.sector = some x ∨ c ∈ m.cache

/-- The effect of a completed `bread`. -/
structure Read (pid x : Nat) (m m' : Machine) (b : Buf) : Prop extends Holds pid x m m' b where
  valid : b.valid = true
  /-- A valid cached copy is returned as it is, otherwise the disk is read. -/
  source : (∃ b₀, Cache.find m.cache x = some b₀ ∧ b₀.valid = true ∧ b.data = b₀.data ∧
    b.dirty = b₀.dirty) ∨ (b.data = m.disk x ∧ b.dirty = false)
  kept : ∀ b₀, Cache.find m.cache x = some b₀ → b₀.holder = none ∧
    (b₀.valid = true → b.data = b₀.data ∧ b.dirty = b₀.dirty)

/-- Why `bread` does not return: the sector is locked, or no buffer is idle. -/
def Blocked (x : Nat) (m : Machine) (e : Halt) : Prop :=
  (e = .asleep ∧ ∃ b, Cache.find m.cache x = some b ∧ b.holder ≠ none) ∨
    e = .panic .noBuffers ∧ Cache.find m.cache x = none ∧ ∀ b ∈ m.cache, ¬ Cache.Idle b

/-- The buffer of `x` after `bget` alone, before its data is known. -/
structure Got (pid x : Nat) (m m' : Machine) (b : Buf) : Prop extends Holds pid x m m' b where
  free : ∀ b₀, Cache.find m.cache x = some b₀ → b₀.holder = none
  source : (∃ b₀, Cache.find m.cache x = some b₀ ∧ b.valid = b₀.valid ∧ b.data = b₀.data ∧
    b.dirty = b₀.dirty) ∨ (b.valid = false ∧ b.dirty = false)
  kept : ∀ b₀, Cache.find m.cache x = some b₀ →
    b.valid = b₀.valid ∧ b.data = b₀.data ∧ b.dirty = b₀.dirty

theorem bget_wp {x : Nat} {Q : Unit → Machine → Prop} (ok : Cache.Ok m.cache)
    (done : ∀ m' b, Got pid x m m' b → Q () m')
    (locked : ∀ b, Cache.find m.cache x = some b → b.holder ≠ none → E .asleep m)
    (full : Cache.find m.cache x = none → (∀ b ∈ m.cache, ¬ Cache.Idle b) → E
    (.panic .noBuffers) m) : wp pid (bget x) Q E m := by
  intro _
  simp only [BufOp.exec]
  cases found : Cache.find m.cache x with
  | some b =>
    simp only
    split
    · rename_i free
      refine done _ (b.lock pid) ⟨⟨rfl, rfl, rfl, ?_, ?_, rfl, ?_, ?_⟩, ?_, ?_, ?_⟩
      · exact ok.update x (Buf.sector_lock pid) fun b member _ => ok.dirtyValid b member
      · change Cache.find (Cache.update m.cache x (Buf.lock pid)) x = _
        rw [Cache.find_update_same (Buf.sector_lock pid), found, Option.map_some]
      · intro y apart
        exact Or.inl (Cache.find_update_ne (Buf.sector_lock pid) m.cache apart)
      · intro c member
        rcases Cache.mem_update member with old | ⟨a, _, same, rfl⟩
        · exact Or.inr old
        · exact Or.inl same
      · intro b₀ cached
        rw [found] at cached
        cases cached
        exact free
      · exact Or.inl ⟨b, found, rfl, rfl, rfl⟩
      · intro b₀ cached
        rw [found] at cached
        cases cached
        exact ⟨rfl, rfl, rfl⟩
    · rename_i busy
      exact locked b found busy
  | none =>
    simp only
    cases recycled : Cache.recycle x pid m.cache with
    | some cache =>
      obtain ⟨data, here⟩ := Cache.find_recycle_same found recycled
      have missing (b₀ : Buf) (cached : Cache.find m.cache x = some b₀) : False := by
        rw [found] at cached
        cases cached
      refine done _ ⟨some x, some pid, false, false, data⟩
        ⟨⟨rfl, rfl, rfl, ok.recycle found recycled, here, rfl, ?_, ?_⟩,
          fun b₀ cached => (missing b₀ cached).elim, Or.inr ⟨rfl, rfl⟩,
          fun b₀ cached => (missing b₀ cached).elim⟩
      · intro y apart
        exact Cache.find_recycle_ne found recycled ok.distinct apart
      · intro c member
        rcases Cache.mem_recycle recycled member with old | ⟨data, rfl⟩
        · exact Or.inr old
        · exact Or.inl rfl
    | none => exact full found (Cache.recycle_eq_none.mp recycled)

section Held

variable {x : Nat} {b : Buf} {Q : Unit → Machine → Prop} (found : Cache.find m.cache x = some b)
  (mine : b.holder = some pid)

include found mine

theorem held_of_find : BufOp.held m pid x = some b := by
  simp only [BufOp.held, found, mine, ↓reduceIte]

theorem peek_wp {Q : Buf → Machine → Prop} (next : Q b m) : wp pid (peek x) Q E m := by
  intro _
  simp only [BufOp.exec, held_of_find found mine]
  exact next

theorem poke_wp {data : Block}
    (next : Q () { m with cache := Cache.update m.cache x (Buf.put data) }) :
    wp pid (poke x data) Q E m := by
  intro _
  simp only [BufOp.exec, held_of_find found mine]
  exact next

theorem setDirty_wp (next : Q () { m with cache := Cache.update m.cache x Buf.mark }) :
    wp pid (setDirty x) Q E m := by
  intro _
  simp only [BufOp.exec, held_of_find found mine]
  exact next

theorem brelse_wp (next : Q () { m with cache := Cache.release m.cache x b }) :
    wp pid (brelse x) Q E m := by
  intro _
  simp only [BufOp.exec, held_of_find found mine]
  exact next

/-- `bwrite` puts the data of a held buffer on the disk and leaves it clean. -/
theorem bwrite_wp (next : Q () { m with
      disk := Function.update m.disk x b.data
      trace := m.trace ++ [(x, b.data)]
      cache := Cache.update m.cache x Buf.written }) :
    wp pid (bwrite x) Q E m := by
  apply bind_wp (peek_wp found mine _)
  apply bind_wp (setDirty_wp found mine _)
  have here : Cache.find (Cache.update m.cache x Buf.mark) x = some b.mark := by
    rw [Cache.find_update_same Buf.sector_mark, found, Option.map_some]
  intro _
  simp only [BufOp.exec, BufOp.held, here, show b.mark.holder = some pid from mine,
    show b.mark.dirty = true from rfl, ↓reduceIte, reduceCtorEq, and_false]
  rw [Cache.update_update _ _ _ Buf.sector_mark]
  exact next

end Held

theorem bread_wp {x : Nat} {Q : Unit → Machine → Prop} (ok : Cache.Ok m.cache)
    (done : ∀ m' b, Read pid x m m' b → Q () m') (stuck : ∀ e, Blocked x m e → E e m) :
    wp pid (bread x) Q E m := by
  refine bind_wp (bget_wp ok (fun m₁ c got => ?_)
    (fun b found busy => stuck _ (Or.inl ⟨rfl, b, found, busy⟩))
    fun missing busy => stuck _ (Or.inr ⟨rfl, missing, busy⟩))
  apply bind_wp (peek_wp got.found got.held _)
  cases known : c.valid with
  | true =>
    refine done m₁ c ⟨got.toHolds, known, ?_,
      fun b₀ found => ⟨got.free b₀ found, fun _ => (got.kept b₀ found).2⟩⟩
    rcases got.source with ⟨b₀, found, valid, data, dirty⟩ | ⟨invalid, _⟩
    · exact Or.inl ⟨b₀, found, valid ▸ known, data, dirty⟩
    · rw [known] at invalid
      cases invalid
  | false =>
    have clean : c.dirty = false := by
      cases dirty : c.dirty with
      | false => rfl
      | true =>
        rw [got.ok.dirtyValid c (Cache.find_mem got.found) dirty] at known
        cases known
    intro _
    simp only [BufOp.exec, held_of_find got.found got.held, known, clean, Bool.false_eq_true,
      false_and, ↓reduceIte]
    refine done _ (c.filled (m₁.disk x)) ⟨⟨got.disk, got.trace, got.log, ?_, ?_, got.held, ?_, ?_⟩,
      rfl, Or.inr ⟨by rw [← got.disk]; rfl, clean⟩, ?_⟩
    · exact got.ok.update x (Buf.sector_filled _) fun _ _ _ _ => rfl
    · change Cache.find (Cache.update m₁.cache x (Buf.filled (m₁.disk x))) x = _
      rw [Cache.find_update_same (Buf.sector_filled _), got.found, Option.map_some]
    · intro y apart
      rw [Cache.find_update_ne (Buf.sector_filled _) m₁.cache apart]
      exact got.others y apart
    · intro c member
      rcases Cache.mem_update member with old | ⟨a, _, same, rfl⟩
      · exact got.members c old
      · exact Or.inl same
    · intro b₀ found
      refine ⟨got.free b₀ found, fun valid => ?_⟩
      rw [(got.kept b₀ found).1, valid] at known
      cases known

end Bio

end SirpairOs
