import SirpairOs.Lib.Interleave
import SirpairOs.Fs.LogCrash

/-! Processes that share the buffer cache. Each runs a sequence of calls: some
only read, some are transactions. A dirty buffer that nobody holds belongs to a
sector of the log header, so what `bget` cannot recycle is bounded by the
logged sectors and the buffers that processes hold. -/
namespace SirpairOs.Sharing

open Bio Log

/-- What a process does outside transactions. -/
inductive ReadAct where
  | bread (sector : Nat)
  | brelse (sector : Nat)

def ReadAct.run : ReadAct → BufProg Unit
  | bread s => Bio.bread s
  | brelse s => Bio.brelse s

def runReads : List ReadAct → BufProg Unit
  | [] => pure ()
  | act :: rest => do
    act.run
    runReads rest

inductive Call where
  | read (acts : List ReadAct)
  | trans (acts : List Act)

def Call.run : Call → BufProg Unit
  | read acts => runReads acts
  | trans acts => runTx acts

def runCalls : List Call → BufProg Unit
  | [] => pure ()
  | call :: rest => do
    call.run
    runCalls rest

def system (start size : Nat) (disk : Nat → Block) (calls : Nat → List Call) :
    Pool BufOp BufOp.Ret Machine :=
  ⟨boot start size disk, fun i => runCalls (calls i)⟩

def logged (log : Log) (b : Buf) : Bool :=
  match b.sector with
  | some x => x ∈ log.lh
  | none => false

/-- Buffers that some process holds and that are not those of logged sectors. -/
def heldOthers (m : Machine) : Nat :=
  m.cache.countP fun b => b.holder.isSome && !logged m.log b

/-- A `bget` that misses leaves room: logged sectors and held buffers together
are fewer than the buffers there are. -/
def Room : BufOp → Machine → Prop
  | .bget x, m => Cache.find m.cache x = none → m.log.lh.length + heldOthers m < NBUF
  | _, _ => True

instance (o : BufOp) (m : Machine) : Decidable (Room o m) :=
  match o with
  | .bget x => inferInstanceAs (Decidable (Cache.find m.cache x = none →
      m.log.lh.length + heldOthers m < NBUF))
  | .peek _ | .poke _ _ | .setDirty _ | .diskrw _ | .brelse _ | .getLog | .setLh _ | .acquireLog
  | .releaseLog | .panic _ => isTrue trivial

/-- Between any two atomic steps of any processes. -/
structure Pinned (m : Machine) : Prop where
  ok : Cache.Ok m.cache
  dirty : ∀ x b, Cache.find m.cache x = some b → b.dirty = true →
    x ∈ m.log.lh ∨ b.holder ≠ none ∧ b.holder = m.log.owner
  closed : m.log.owner = none → m.log.lh = []

/-- What other processes leave alone, seen by process `i`. -/
structure Rely (i : Nat) (m m' : Machine) : Prop where
  held : ∀ x b, b.holder = some i → (Cache.find m'.cache x = some b ↔ Cache.find m.cache x = some b)
  log : m.log.owner = some i → m'.log = m.log
  dirty : m.log.owner = some i → ∀ x b', Cache.find m'.cache x = some b' → b'.dirty = true →
    ∃ b, Cache.find m.cache x = some b ∧ b.dirty = true
  foreign : m.log.owner ≠ some i → m'.log.owner ≠ some i

theorem Rely.refl (i : Nat) (m : Machine) : Rely i m m :=
  ⟨fun _ _ _ => Iff.rfl, fun _ => rfl, fun _ _ b found dirty => ⟨b, found, dirty⟩, id⟩

theorem Rely.trans {i : Nat} {m₁ m₂ m₃ : Machine} (first : Rely i m₁ m₂) (second : Rely i m₂ m₃) :
    Rely i m₁ m₃ where
  held x b mine := (second.held x b mine).trans (first.held x b mine)
  log owned := by
    have same := first.log owned
    rw [second.log (by rw [same, owned]), same]
  dirty owned x b'' found dirty := by
    have same := first.log owned
    obtain ⟨b', found', dirty'⟩ := second.dirty (by rw [same, owned]) x b'' found dirty
    exact first.dirty owned x b' found' dirty'
  foreign other := second.foreign (first.foreign other)

/-- A change of the log matters to its owner only. -/
theorem Rely.withLog {i : Nat} {m : Machine} {log : Log} (before : m.log.owner ≠ some i)
    (after : log.owner ≠ some i) : Rely i m { m with log := log } :=
  ⟨fun _ _ _ => Iff.rfl, fun owned => absurd owned before, fun owned => absurd owned before,
    fun _ => after⟩

/-- Where `roomy` holds, every `bget` finds room and no process stops for lack of a buffer. -/
def contract (roomy : Prop) (i : Nat) : Contract BufOp Halt Machine where
  inv := Pinned
  rely := Rely i
  guar m m' := ∀ j, j ≠ i → Rely j m m'
  promise o m := roomy → Room o m
  demand _ _ := True
  stop e := roomy → e ≠ .panic .noBuffers
  rely_refl := Rely.refl i
  rely_trans _ _ _ := Rely.trans

theorem logged_iff {log : Log} {b : Buf} :
    logged log b = true ↔ ∃ x ∈ log.lh, b.sector = some x := by
  unfold logged
  cases b.sector with
  | none => simp only [Bool.false_eq_true, reduceCtorEq, and_false, exists_false]
  | some x => simp only [decide_eq_true_eq, Option.some.injEq, exists_eq_right']

/-- Distinct buffers have distinct sectors, so at most one is logged per entry. -/
theorem countP_logged_le {cache : List Buf} (distinct : Cache.Distinct cache) (log : Log) :
    cache.countP (logged log) ≤ log.lh.length := by
  let sectors := (cache.filter (logged log)).map fun b => b.sector.getD 0
  have inside : sectors ⊆ log.lh := by
    intro x member
    obtain ⟨b, kept, rfl⟩ := List.mem_map.mp member
    obtain ⟨y, entry, same⟩ := logged_iff.mp (List.mem_filter.mp kept).2
    rw [same]
    exact entry
  have apart : sectors.Nodup := by
    refine List.pairwise_map.mpr ((distinct.filter _).imp_of_mem ?_)
    intro a b first second differs equal
    obtain ⟨x, _, here⟩ := logged_iff.mp (List.mem_filter.mp first).2
    obtain ⟨y, _, there⟩ := logged_iff.mp (List.mem_filter.mp second).2
    rw [here, there] at differs equal
    rcases differs with blank | differs
    · cases blank
    · exact differs (congrArg some equal)
  have count := (apart.subperm inside).length_le
  rwa [List.length_map, ← List.countP_eq_length_filter] at count

/-- With room, a miss finds a buffer to recycle. -/
theorem exists_idle {m : Machine} (pinned : Pinned m)
    (room : m.log.lh.length + heldOthers m < NBUF) : ∃ b ∈ m.cache, Cache.Idle b := by
  by_contra none_idle
  have busy : ∀ b ∈ m.cache, ¬ logged m.log b = true → b.holder ≠ none := by
    intro b member outside free
    have dirty : b.dirty = true := by
      by_contra clean
      exact none_idle ⟨b, member, free, by simpa only [Bool.not_eq_true] using clean⟩
    cases assigned : b.sector with
    | none => exact none_idle ⟨b, member, pinned.ok.unassigned b member assigned⟩
    | some x =>
      rcases pinned.dirty x b (pinned.ok.distinct.find member assigned) dirty with
        entry | ⟨held, _⟩
      · exact outside (logged_iff.mpr ⟨x, entry, assigned⟩)
      · exact held free
  have split := List.length_eq_countP_add_countP (logged m.log) (l := m.cache)
  have others : m.cache.countP (fun b => decide ¬ logged m.log b = true) ≤ heldOthers m := by
    refine List.countP_mono_left fun b member outside => ?_
    have outside : ¬ logged m.log b = true := by simpa only [decide_eq_true_eq] using outside
    simp only [outside, Option.isSome_iff_ne_none.mpr (busy b member outside), Bool.not_false,
      Bool.and_self]
  have entries := countP_logged_le pinned.ok.distinct m.log
  rw [pinned.ok.length] at split
  omega

/-- The effect of an operation of process `i` on the buffer of `x`, which was
free or its own. -/
structure Touch (i x : Nat) (m m' : Machine) : Prop where
  log : m'.log = m.log
  ok : Cache.Ok m'.cache
  before : ∀ b, Cache.find m.cache x = some b → b.holder = none ∨ b.holder = some i
  after : ∀ b, Cache.find m'.cache x = some b → b.holder = none ∨ b.holder = some i
  others : ∀ y, y ≠ x → Cache.find m'.cache y = Cache.find m.cache y ∨
    Cache.find m'.cache y = none ∧ ∃ b, Cache.find m.cache y = some b ∧ Cache.Idle b
  dirty : ∀ b', Cache.find m'.cache x = some b' → b'.dirty = true →
    (∃ b, Cache.find m.cache x = some b ∧ b.dirty = true) ∨ m.log.owner = some i

namespace Touch

variable {i x : Nat} {m m' : Machine}

variable (touch : Touch i x m m')

include touch

/-- A buffer of another sector that is found was found before. -/
theorem back {y : Nat} {b : Buf} (apart : y ≠ x)
    (found : Cache.find m'.cache y = some b) : Cache.find m.cache y = some b := by
  rcases touch.others y apart with same | ⟨gone, _⟩
  · rw [← same, found]
  · rw [gone] at found
    cases found

theorem keeps {y : Nat} {b : Buf} (apart : y ≠ x)
    (found : Cache.find m.cache y = some b) (busy : b.holder ≠ none) :
    Cache.find m'.cache y = some b := by
  rcases touch.others y apart with same | ⟨_, b₀, cached, idle⟩
  · rw [same, found]
  · rw [found] at cached
    cases cached
    exact absurd idle.1 busy

theorem rely {j : Nat} (other : j ≠ i) : Rely j m m' where
  held y b theirs := by
    have busy : b.holder ≠ none := by rw [theirs]; exact Option.some_ne_none j
    have foreign : ¬ (b.holder = none ∨ b.holder = some i) := by
      rintro (free | own)
      · exact busy free
      · rw [theirs] at own
        exact other (Option.some.inj own)
    by_cases same : y = x
    · subst same
      exact ⟨fun found => absurd (touch.after b found) foreign,
        fun found => absurd (touch.before b found) foreign⟩
    · exact ⟨touch.back same, fun found => touch.keeps same found busy⟩
  log _ := touch.log
  dirty owned y b' found dirty := by
    by_cases same : y = x
    · subst same
      rcases touch.dirty b' found dirty with before | own
      · exact before
      · rw [owned] at own
        exact absurd (Option.some.inj own) other
    · exact ⟨b', touch.back same found, dirty⟩
  foreign away := by rwa [touch.log]

theorem pinned (before : Pinned m) (here : ∀ b', Cache.find m'.cache x = some b' → b'.dirty = true →
      x ∈ m.log.lh ∨ b'.holder ≠ none ∧ b'.holder = m.log.owner) : Pinned m' where
  ok := touch.ok
  dirty y b found dirty := by
    rw [touch.log]
    by_cases same : y = x
    · subst same
      exact here b found dirty
    · exact before.dirty y b (touch.back same found) dirty
  closed := by
    rw [touch.log]
    exact before.closed

end Touch

/-- What process `i` knows at a point of its program: inside a transaction the
log and the sectors that may be dirty, outside that it is not the owner, and
that the buffers it holds have been read, except those of `raw`. -/
structure Local (i : Nat) (own : Option (Log × List Nat)) (raw : List Nat) (m : Machine) :
    Prop where
  mine : ∀ log dirty, own = some (log, dirty) → m.log = log ∧ log.owner = some i ∧
    ∀ x b, Cache.find m.cache x = some b → b.dirty = true → x ∈ dirty
  foreign : own = none → m.log.owner ≠ some i
  valid : ∀ x b, Cache.find m.cache x = some b → b.holder = some i → x ∉ raw → b.valid = true

namespace Local

variable {i x : Nat} {own : Option (Log × List Nat)} {raw : List Nat} {m m' : Machine}

theorem rely (here : Local i own raw m) (moved : Rely i m m') : Local i own raw m' where
  mine log dirty inside := by
    obtain ⟨same, owned, bound⟩ := here.mine log dirty inside
    rw [← same] at owned
    refine ⟨by rw [moved.log owned, same], by rw [← same, owned], fun y b found marked => ?_⟩
    obtain ⟨b₀, before, marked₀⟩ := moved.dirty owned y b found marked
    exact bound y b₀ before marked₀
  foreign outside := moved.foreign (here.foreign outside)
  valid y b found mine := here.valid y b ((moved.held y b mine).mp found) mine

/-- A step on `x` keeps what is known, apart from `x` itself. -/
theorem touch (here : Local i own raw m) (touch : Touch i x m m') {raw' : List Nat}
    (fewer : ∀ y ∈ raw, y ≠ x → y ∈ raw')
    (valid : ∀ b', Cache.find m'.cache x = some b' → b'.holder = some i → x ∉ raw' →
      b'.valid = true)
    (clean : ∀ log dirty b', own = some (log, dirty) → Cache.find m'.cache x = some b' →
      b'.dirty = true → x ∈ dirty) : Local i own raw' m' where
  mine log dirty inside := by
    obtain ⟨same, owned, bound⟩ := here.mine log dirty inside
    refine ⟨touch.log.trans same, owned, fun y b found marked => ?_⟩
    by_cases equal : y = x
    · subst equal
      exact clean log dirty b inside found marked
    · exact bound y b (touch.back equal found) marked
  foreign outside := by
    rw [touch.log]
    exact here.foreign outside
  valid y b found mine read := by
    by_cases equal : y = x
    · subst equal
      exact valid b found mine read
    · exact here.valid y b (touch.back equal found) mine fun member =>
        read (fewer y member equal)

theorem mono_dirty {log : Log} {dirty dirty' : List Nat}
    (here : Local i (some (log, dirty)) raw m) (subset : dirty ⊆ dirty') :
    Local i (some (log, dirty')) raw m where
  mine log' dirty'' inside := by
    cases inside
    obtain ⟨same, owned, bound⟩ := here.mine log dirty rfl
    exact ⟨same, owned, fun y b found marked => subset (bound y b found marked)⟩
  foreign outside := by cases outside
  valid := here.valid

end Local

theorem touch_update {i x : Nat} {m m' : Machine} {b : Buf} {f : Buf → Buf} (pinned : Pinned m)
    (found : Cache.find m.cache x = some b) (mine : b.holder = some i)
    (sector : ∀ b, (f b).sector = b.sector) (holder : ∀ b, (f b).holder = b.holder)
    (cache : m'.cache = Cache.update m.cache x f) (log : m'.log = m.log)
    (valid : (f b).dirty = true → (f b).valid = true)
    (dirty : (f b).dirty = true → b.dirty = true ∨ m.log.owner = some i) :
    Touch i x m m' ∧ Cache.find m'.cache x = some (f b) := by
  have here : Cache.find m'.cache x = some (f b) := by
    rw [cache, Cache.find_update_same sector, found, Option.map_some]
  refine ⟨⟨log, ?_, ?_, ?_, ?_, ?_⟩, here⟩
  · rw [cache]
    refine pinned.ok.update x sector fun c member same marked => ?_
    obtain rfl := pinned.ok.unique found member same
    exact valid marked
  · intro c cached
    rw [found] at cached
    cases cached
    exact Or.inr mine
  · intro c cached
    rw [here] at cached
    cases cached
    exact Or.inr (by rw [holder, mine])
  · intro y apart
    rw [cache]
    exact Or.inl (Cache.find_update_ne sector m.cache apart)
  · intro c cached marked
    rw [here] at cached
    cases cached
    exact (dirty marked).imp_left fun before => ⟨b, found, before⟩

section Rules

variable {roomy : Prop} {i x : Nat} {own : Option (Log × List Nat)} {raw : List Nat} {log : Log}
  {dirty : List Nat} {m : Machine}

/-- Process `i` runs `p` from `m` on among the others and ends in `Q`. -/
abbrev Keeps {α : Type} (roomy : Prop) (i : Nat) (p : BufProg α) (Q : α → Machine → Prop)
    (m : Machine) : Prop :=
  p.Meets (BufOp.exec i) (contract roomy i) Q m

theorem op_keeps {o : BufOp} {Q : BufOp.Ret o → Machine → Prop} {own : Option (Log × List Nat)}
    (here : Local i own raw m) (effect : ∀ t, Local i own raw t → Pinned t → (roomy → Room o t) →
      (BufOp.exec i o t).Satisfies (fun r t' => (∀ j, j ≠ i → Rely j t t') ∧ Pinned t' ∧ Q r t')
        fun e _ => roomy → e ≠ .panic .noBuffers)
    (stable : ∀ r t u, Rely i t u → Q r t → Q r u) : Keeps roomy i (.perform o) Q m := by
  refine Prog.Meets.perform fun t moved pinned room => ?_
  refine ⟨trivial, (effect t (here.rely moved) pinned room).mono ?_ fun _ _ stop => stop⟩
  rintro r t' ⟨kept, after, post⟩
  exact ⟨kept, after, fun u later _ => stable r t' u later post⟩

theorem pure_keeps (here : Local i own raw m) :
    Keeps roomy i (pure ()) (fun _ t => Local i own raw t) m := fun _ moved _ => here.rely moved

theorem panic_keeps {which : Panic} {α : Type} {Q : α → Machine → Prop}
    (other : which ≠ .noBuffers) : Keeps roomy i (panic which) Q m := by
  intro t _ _ _
  simp only [BufOp.exec, Outcome.satisfies_halt]
  exact ⟨trivial, fun _ same => other (Halt.panic.inj same)⟩

theorem bget_keeps (here : Local i own raw m) :
    Keeps roomy i (bget x) (fun _ t => Local i own (x :: raw) t) m := by
  refine op_keeps here (fun t known pinned room => ?_) fun _ _ _ moved known => known.rely moved
  refine bget_wp pinned.ok (fun t' b got => ?_) (fun _ _ _ => by simp)
    (fun missing busy => ?_) trivial
  · have clean : b.dirty = true → ∃ b₀, Cache.find t.cache x = some b₀ ∧ b₀.dirty = true := by
      intro marked
      rcases got.source with ⟨b₀, found, _, _, same⟩ | ⟨_, unmarked⟩
      · exact ⟨b₀, found, same ▸ marked⟩
      · rw [marked] at unmarked
        cases unmarked
    have touch : Touch i x t t' := by
      refine ⟨got.log, got.ok, fun b₀ found => Or.inl (got.free b₀ found), ?_, got.others, ?_⟩
      · intro b' found
        rw [got.found] at found
        cases found
        exact Or.inr got.held
      · intro b' found marked
        rw [got.found] at found
        cases found
        exact Or.inl (clean marked)
    refine ⟨fun j other => touch.rely other, touch.pinned pinned ?_, known.touch touch ?_ ?_ ?_⟩
    · intro b' found marked
      rw [got.found] at found
      cases found
      obtain ⟨b₀, before, marked₀⟩ := clean marked
      rcases pinned.dirty x b₀ before marked₀ with entry | ⟨busy, _⟩
      · exact Or.inl entry
      · exact absurd (got.free b₀ before) busy
    · exact fun y member _ => List.mem_cons_of_mem x member
    · exact fun _ _ _ absent => absurd List.mem_cons_self absent
    · intro log dirty b' inside found marked
      rw [got.found] at found
      cases found
      obtain ⟨b₀, before, marked₀⟩ := clean marked
      exact (known.mine log dirty inside).2.2 x b₀ before marked₀
  · intro holds
    obtain ⟨b, member, idle⟩ := exists_idle pinned (room holds missing)
    exact absurd idle (busy b member)

theorem peek_keeps (here : Local i own raw m) :
    Keeps roomy i (peek x) (fun b t => Local i own raw t ∧ Cache.find t.cache x = some b ∧
      b.holder = some i) m := by
  refine op_keeps here (fun t known pinned _ => ?_) ?_
  · rcases held_cases t i x with free | ⟨b, found, mine⟩
    · simp only [BufOp.exec, free]
      simp
    · simp only [BufOp.exec, held_of_find found mine]
      exact ⟨fun j _ => Rely.refl j t, pinned, known, found, mine⟩
  · rintro b t u moved ⟨known, found, mine⟩
    exact ⟨known.rely moved, (moved.held x b mine).mpr found, mine⟩

theorem Local.update {f : Buf → Buf} {t t' : Machine} {b : Buf} {raw' : List Nat}
    (known : Local i own raw t) (pinned : Pinned t) (found : Cache.find t.cache x = some b)
    (mine : b.holder = some i) (sector : ∀ b, (f b).sector = b.sector)
    (holder : ∀ b, (f b).holder = b.holder) (cache : t'.cache = Cache.update t.cache x f)
    (log : t'.log = t.log) (fewer : ∀ y ∈ raw, y ≠ x → y ∈ raw')
    (valid : x ∉ raw' ∨ (f b).dirty = true → (f b).valid = true)
    (unmarked : (f b).dirty = true → b.dirty = true) :
    (∀ j, j ≠ i → Rely j t t') ∧ Pinned t' ∧ Local i own raw' t' := by
  obtain ⟨touch, here⟩ := touch_update pinned found mine sector holder cache log
    (fun marked => valid (Or.inr marked)) fun marked => Or.inl (unmarked marked)
  refine ⟨fun j other => touch.rely other, touch.pinned pinned ?_, known.touch touch fewer ?_ ?_⟩
  · intro b' cached marked
    rw [here] at cached
    cases cached
    rw [holder]
    exact pinned.dirty x b found (unmarked marked)
  · intro b' cached _ read
    rw [here] at cached
    cases cached
    exact valid (Or.inl read)
  · intro log' dirty' b' inside cached marked
    rw [here] at cached
    cases cached
    exact (known.mine log' dirty' inside).2.2 x b found (unmarked marked)

theorem bread_keeps (here : Local i own [] m) :
    Keeps roomy i (bread x) (fun _ t => Local i own [] t) m := by
  refine Prog.Meets.seq (bget_keeps here) fun _ t _ known => ?_
  refine Prog.Meets.seq (peek_keeps known) ?_
  rintro b t _ ⟨known, found, mine⟩
  cases ready : b.valid with
  | true =>
    refine pure_keeps ⟨known.mine, known.foreign, fun y c cached held _ => ?_⟩
    by_cases same : y = x
    · subst same
      rw [found] at cached
      cases cached
      exact ready
    · exact known.valid y c cached held (by simpa using same)
  | false =>
    intro u moved pinned _
    have found' := (moved.held x b mine).mpr found
    have clean : b.dirty = false := by
      cases marked : b.dirty with
      | false => rfl
      | true =>
        rw [pinned.ok.dirtyValid b (Cache.find_mem found') marked] at ready
        cases ready
    simp only [BufOp.exec, held_of_find found' mine, ready, clean, Bool.false_eq_true,
      false_and, ↓reduceIte]
    obtain ⟨kept, after, read⟩ : (∀ j, j ≠ i → Rely j u { u with
        cache := Cache.update u.cache x (Buf.filled (u.disk x)) }) ∧ _ ∧ Local i own [] _ :=
      (known.rely moved).update pinned found' mine (Buf.sector_filled _) (fun _ => rfl) rfl rfl
        (fun y member apart => absurd (List.mem_singleton.mp member) apart) (fun _ => rfl) id
    exact ⟨trivial, kept, after, pure_keeps read⟩

theorem poke_keeps {v : Block} (here : Local i own [] m) :
    Keeps roomy i (poke x v) (fun _ t => Local i own [] t) m := by
  refine op_keeps here (fun t known pinned _ => ?_) fun _ _ _ moved known => known.rely moved
  rcases held_cases t i x with free | ⟨b, found, mine⟩
  · simp only [BufOp.exec, free]
    simp
  · simp only [BufOp.exec, held_of_find found mine]
    exact known.update pinned found mine (Buf.sector_put v) (fun _ => rfl) rfl rfl
      (fun _ member _ => member) (fun _ => known.valid x b found mine List.not_mem_nil) id

/-- Releasing a buffer: if it is dirty, its sector is logged. -/
theorem brelse_keeps (here : Local i own [] m)
    (recorded : ∀ log dirty, own = some (log, dirty) → x ∈ dirty → x ∈ log.lh) :
    Keeps roomy i (brelse x) (fun _ t => Local i own [] t) m := by
  refine op_keeps here (fun t known pinned _ => ?_) fun _ _ _ moved known => known.rely moved
  rcases held_cases t i x with free | ⟨b, found, mine⟩
  · simp only [BufOp.exec, free]
    simp
  simp only [BufOp.exec, held_of_find found mine]
  have assigned := Cache.find_sector found
  have here' := Cache.find_release_same t.cache x b assigned
  have touch : Touch i x t { t with cache := Cache.release t.cache x b } := by
    refine ⟨rfl, pinned.ok.release found, ?_, ?_, ?_, ?_⟩
    · intro c cached
      rw [found] at cached
      cases cached
      exact Or.inr mine
    · intro c cached
      rw [here'] at cached
      cases cached
      exact Or.inl rfl
    · exact fun y apart => Or.inl (Cache.find_release_ne t.cache b assigned apart)
    · intro c cached marked
      rw [here'] at cached
      cases cached
      exact Or.inl ⟨b, found, marked⟩
  refine ⟨fun j other => touch.rely other, touch.pinned pinned ?_, known.touch touch ?_ ?_ ?_⟩
  · intro c cached marked
    rw [here'] at cached
    cases cached
    left
    rcases pinned.dirty x b found marked with entry | ⟨_, owner⟩
    · exact entry
    · cases own with
      | none => exact absurd (owner.symm.trans mine) (known.foreign rfl)
      | some pair =>
        obtain ⟨same, _, bound⟩ := known.mine pair.1 pair.2 rfl
        rw [same]
        exact recorded pair.1 pair.2 rfl (bound x b found marked)
  · exact fun _ member _ => member
  · intro c cached held
    rw [here'] at cached
    cases cached
    cases held
  · intro log dirty c inside cached marked
    rw [here'] at cached
    cases cached
    exact (known.mine log dirty inside).2.2 x b found marked

theorem getLog_keeps (here : Local i (some (log, dirty)) [] m) :
    Keeps roomy i getLog (fun l t => l = log ∧ Local i (some (log, dirty)) [] t) m := by
  refine op_keeps here (fun t known pinned _ => ?_) ?_
  · exact ⟨fun j _ => Rely.refl j t, pinned, (known.mine log dirty rfl).1, known⟩
  · rintro l t u moved ⟨same, known⟩
    exact ⟨same, known.rely moved⟩

theorem setDirty_keeps (here : Local i (some (log, dirty)) [] m) :
    Keeps roomy i (setDirty x) (fun _ t => Local i (some (log, x :: dirty)) [] t ∧
      ∃ b, Cache.find t.cache x = some b ∧ b.holder = some i ∧ b.dirty = true) m := by
  refine op_keeps here (fun t known pinned _ => ?_) ?_
  · rcases held_cases t i x with free | ⟨b, found, mine⟩
    · simp only [BufOp.exec, free]
      simp
    obtain ⟨same, owned, bound⟩ := known.mine log dirty rfl
    have owner : t.log.owner = some i := by rw [same, owned]
    have valid := known.valid x b found mine List.not_mem_nil
    simp only [BufOp.exec, held_of_find found mine]
    obtain ⟨touch, here'⟩ : Touch i x t { t with cache := Cache.update t.cache x Buf.mark } ∧ _ :=
      touch_update pinned found mine Buf.sector_mark (fun _ => rfl) rfl rfl (fun _ => valid)
        fun _ => Or.inr owner
    refine ⟨fun j other => touch.rely other, touch.pinned pinned ?_,
      (known.mono_dirty (List.subset_cons_self x dirty)).touch touch ?_ ?_ ?_, b.mark, here', mine,
      rfl⟩
    · intro c cached _
      rw [here'] at cached
      cases cached
      exact Or.inr ⟨by rw [show b.mark.holder = some i from mine]; exact Option.some_ne_none i,
        by rw [owner]; exact mine⟩
    · exact fun _ member _ => member
    · intro c cached _ _
      rw [here'] at cached
      cases cached
      exact valid
    · intro log' dirty' c inside _ _
      cases inside
      exact List.mem_cons_self
  · rintro _ t u moved ⟨known, b, found, mine, marked⟩
    exact ⟨known.rely moved, b, (moved.held x b mine).mpr found, mine, marked⟩

theorem bwrite_keeps (here : Local i (some (log, dirty)) [] m) : Keeps roomy i (bwrite x)
      (fun _ t => Local i (some (log, dirty.filter fun y => y ≠ x)) [] t) m := by
  refine Prog.Meets.seq (peek_keeps here) fun _ t _ known => ?_
  refine Prog.Meets.seq (setDirty_keeps known.1) ?_
  rintro _ t _ ⟨known, b, found, mine, marked⟩
  intro u moved pinned _
  have found' := (moved.held x b mine).mpr found
  have known' := known.rely moved
  simp only [BufOp.exec, held_of_find found' mine, marked, Bool.true_eq_false, and_false,
    ↓reduceIte]
  obtain ⟨touch, here'⟩ : Touch i x u { u with
      disk := Function.update u.disk x b.data
      trace := u.trace ++ [(x, b.data)]
      cache := Cache.update u.cache x Buf.written } ∧ _ :=
    touch_update pinned found' mine Buf.sector_written (fun _ => rfl) rfl rfl
      (by simp [Buf.written]) (by simp [Buf.written])
  have clean : ∀ c, Cache.find (Cache.update u.cache x Buf.written) x = some c →
      ¬ c.dirty = true := by
    intro c cached
    rw [here'] at cached
    cases cached
    exact Bool.false_ne_true
  have after : Local i (some (log, x :: dirty)) [] _ := known'.touch touch
    (fun _ member _ => member) (fun c cached _ _ => by rw [here'] at cached; cases cached; rfl)
    fun _ _ c _ cached marked' => absurd marked' (clean c cached)
  refine ⟨trivial, fun j other => touch.rely other,
    touch.pinned pinned fun c cached marked' => absurd marked' (clean c cached), ?_⟩
  refine fun v later _ => Local.rely ⟨?_, (by simp), after.valid⟩ later
  intro log' dirty' inside
  cases inside
  obtain ⟨same, owned, bound⟩ := after.mine log (x :: dirty) rfl
  refine ⟨same, owned, fun y c cached marked' => ?_⟩
  have apart : y ≠ x := by
    rintro rfl
    exact clean c cached marked'
  have member := (List.mem_cons.mp (bound y c cached marked')).resolve_left apart
  exact List.mem_filter.mpr ⟨member, by simpa only [ne_eq, decide_eq_true_eq] using apart⟩

/-- The owner may set the header list when it covers what is dirty. -/
theorem setLh_keeps {lh : List Nat} (here : Local i (some (log, dirty)) [] m)
    (covered : dirty ⊆ lh) :
    Keeps roomy i (setLh lh) (fun _ t => Local i (some ({ log with lh := lh }, dirty)) [] t) m := by
  refine op_keeps here (fun t known pinned _ => ?_) fun _ _ _ moved known => known.rely moved
  obtain ⟨same, owned, bound⟩ := known.mine log dirty rfl
  have owner : t.log.owner = some i := by rw [same, owned]
  refine ⟨fun j other => ?_, ⟨pinned.ok, ?_, ?_⟩, ?_, nofun, known.valid⟩
  · have away : t.log.owner ≠ some j := by
      rw [owner]
      exact fun equal => other (Option.some.inj equal).symm
    exact Rely.withLog away away
  · exact fun y b found marked => Or.inl (covered (bound y b found marked))
  · intro free
    exact absurd (owner.symm.trans free) (Option.some_ne_none i)
  · intro log' dirty' inside
    cases inside
    exact ⟨by rw [same], owned, bound⟩

/-- Nothing is dirty when a transaction begins. -/
theorem beginTrans_keeps (here : Local i none [] m) :
    Keeps roomy i beginTrans (fun _ t => ∃ log, Local i (some (log, log.lh)) [] t) m := by
  refine op_keeps here (fun t known pinned _ => ?_) ?_
  · simp only [BufOp.exec]
    split
    · rename_i free
      have empty := pinned.closed free
      have clean : ∀ y b, Cache.find t.cache y = some b → ¬ b.dirty = true := by
        intro y b found marked
        rcases pinned.dirty y b found marked with entry | ⟨busy, owner⟩
        · rw [empty] at entry
          cases entry
        · exact busy (owner.trans free)
      refine ⟨fun j other => ?_, ⟨pinned.ok, ?_, by simp⟩, { t.log with owner := some i }, ?_, by simp,
        known.valid⟩
      · exact Rely.withLog (by rw [free]; exact (Option.some_ne_none j).symm)
          fun equal => other (Option.some.inj equal).symm
      · exact fun y b found marked => absurd marked (clean y b found)
      · intro log' dirty' inside
        cases inside
        exact ⟨rfl, rfl, fun y b found marked => absurd marked (clean y b found)⟩
    · simp
  · rintro _ t u moved ⟨log, known⟩
    exact ⟨log, known.rely moved⟩

theorem releaseLog_keeps (here : Local i (some (log, [])) [] m) (empty : log.lh = []) :
    Keeps roomy i (.perform BufOp.releaseLog) (fun _ t => Local i none [] t) m := by
  refine op_keeps here (fun t known pinned _ => ?_) fun _ _ _ moved known => known.rely moved
  obtain ⟨same, owned, bound⟩ := known.mine log [] rfl
  have owner : t.log.owner = some i := by rw [same, owned]
  refine ⟨fun j other => ?_, ⟨pinned.ok, ?_, ?_⟩, nofun, ?_, known.valid⟩
  · refine Rely.withLog ?_ (Option.some_ne_none j).symm
    rw [owner]
    exact fun equal => other (Option.some.inj equal).symm
  · exact fun y b found marked => absurd (bound y b found marked) List.not_mem_nil
  · exact fun _ => by rw [same, empty]
  · exact fun _ => (Option.some_ne_none i).symm

/-- The header write leaves nothing new dirty. -/
theorem writeHead_keeps (here : Local i (some (log, dirty)) [] m) (covered : dirty ⊆ log.lh) :
    Keeps roomy i writeHead (fun _ t => Local i (some (log, dirty)) [] t) m := by
  refine Prog.Meets.seq (getLog_keeps here) ?_
  rintro log t _ ⟨rfl, known⟩
  refine Prog.Meets.seq (bread_keeps known) fun _ t _ known => ?_
  refine Prog.Meets.seq (peek_keeps known) fun b t _ known => ?_
  refine Prog.Meets.seq (poke_keeps known.1) fun _ t _ known => ?_
  refine Prog.Meets.seq (bwrite_keeps known) fun _ t _ known => ?_
  refine (brelse_keeps known ?_).mono fun _ t known => known.mono_dirty (List.filter_subset_self _)
  rintro _ _ ⟨⟩ member
  exact covered (List.filter_subset_self _ member)

/-- Each round of `install_trans` cleans the buffer of one logged sector. -/
theorem installFrom_keeps (rest : List Nat) (tail start : Nat)
    (here : Local i (some (log, rest)) [] m) (covered : rest ⊆ log.lh) :
    Keeps roomy i (installFrom start tail rest) (fun _ t => Local i (some (log, [])) [] t) m := by
  induction rest generalizing tail m with
  | nil => exact pure_keeps here
  | cons sector rest ih =>
    have fewer : (sector :: rest).filter (fun y => y ≠ sector) ⊆ rest := by
      intro y member
      obtain ⟨inside, apart⟩ := List.mem_filter.mp member
      exact (List.mem_cons.mp inside).resolve_left (by simpa only [decide_eq_true_eq] using apart)
    have later : rest ⊆ log.lh := fun y member => covered (List.mem_cons_of_mem sector member)
    refine Prog.Meets.seq (bread_keeps here) fun _ t _ known => ?_
    refine Prog.Meets.seq (bread_keeps known) fun _ t _ known => ?_
    refine Prog.Meets.seq (peek_keeps known) fun lbuf t _ known => ?_
    refine Prog.Meets.seq (poke_keeps known.1) fun _ t _ known => ?_
    refine Prog.Meets.seq (bwrite_keeps known) fun _ t _ known => ?_
    have clean := known.mono_dirty fewer
    refine Prog.Meets.seq (brelse_keeps clean ?_) fun _ t _ known => ?_
    · rintro _ _ ⟨⟩ member
      exact later member
    refine Prog.Meets.seq (brelse_keeps known ?_) fun _ t _ known => ih (tail + 1) known later
    rintro _ _ ⟨⟩ member
    exact later member

theorem commitTrans_keeps (here : Local i (some (log, log.lh)) [] m) :
    Keeps roomy i commitTrans (fun _ t => Local i none [] t) m := by
  refine Prog.Meets.seq (getLog_keeps here) ?_
  rintro log t _ ⟨rfl, known⟩
  refine Prog.Meets.seq (R := fun _ t => ∃ log, log.lh = [] ∧ Local i (some (log, [])) [] t)
    (Prog.Meets.when (fun _ => ?_) fun nothing => ?_) ?_
  · refine Prog.Meets.seq (writeHead_keeps known (List.Subset.refl _)) fun _ t _ known => ?_
    refine Prog.Meets.seq (R := fun _ t => Local i (some (log, [])) [] t) ?_ fun _ t _ known => ?_
    · refine Prog.Meets.seq (getLog_keeps known) ?_
      rintro log t _ ⟨rfl, known⟩
      exact installFrom_keeps _ 0 _ known (List.Subset.refl _)
    refine Prog.Meets.seq (setLh_keeps known (List.Subset.refl _)) fun _ t _ known => ?_
    exact (writeHead_keeps known (List.Subset.refl _)).mono fun _ t known => ⟨_, rfl, known⟩
  · have empty : log.lh = [] := List.length_eq_zero_iff.mp (by omega)
    rw [empty] at known
    exact fun u moved _ => ⟨log, empty, known.rely moved⟩
  · rintro _ t _ ⟨log, empty, known⟩
    exact releaseLog_keeps known empty

theorem logWrite_keeps (here : Local i (some (log, log.lh)) [] m) :
    Keeps roomy i (logWrite x) (fun _ t => ∃ log, Local i (some (log, log.lh)) [] t) m := by
  refine Prog.Meets.seq (getLog_keeps here) ?_
  rintro log t _ ⟨rfl, known⟩
  refine Prog.Meets.seq (R := fun _ t => Local i (some (log, log.lh)) [] t)
    (Prog.Meets.when (fun _ => panic_keeps nofun) fun _ => pure_keeps known) fun _ t _ known => ?_
  refine Prog.Meets.seq (R := fun _ t => Local i (some (log, log.lh)) [] t)
    (Prog.Meets.when (fun _ => panic_keeps nofun) fun _ => pure_keeps known) fun _ t _ known => ?_
  dsimp only
  generalize slot : log.start + log.lh.idxOf x + 1 = l
  refine Prog.Meets.seq (bread_keeps known) fun _ t _ known => ?_
  refine Prog.Meets.seq (peek_keeps known) fun b t _ known => ?_
  refine Prog.Meets.seq (poke_keeps known.1) fun _ t _ known => ?_
  refine Prog.Meets.seq (bwrite_keeps known) fun _ t _ known => ?_
  have known := known.mono_dirty (List.filter_subset_self _)
  refine Prog.Meets.seq (brelse_keeps known ?_) fun _ t _ known => ?_
  · rintro _ _ ⟨⟩ member
    exact member
  refine Prog.Meets.seq (R := fun _ t => ∃ log, x ∈ log.lh ∧ Local i (some (log, log.lh)) [] t)
    (Prog.Meets.when (fun fresh => ?_) fun absorbed => ?_) ?_
  · refine (setLh_keeps known (List.subset_append_left _ _)).mono fun _ t known =>
      ⟨_, List.mem_append_right _ (List.mem_singleton_self x),
        known.mono_dirty (List.subset_append_left _ _)⟩
  · have entry : x ∈ log.lh := by
      by_contra absent
      exact absorbed (List.idxOf_eq_length absent)
    exact fun u moved _ => ⟨log, entry, known.rely moved⟩
  · rintro _ t _ ⟨log, entry, known⟩
    refine (setDirty_keeps known).mono fun _ t marked => ⟨log, marked.1.mono_dirty ?_⟩
    exact List.cons_subset.mpr ⟨entry, List.Subset.refl _⟩

theorem acts_keeps (acts : List Act) (here : ∃ log, Local i (some (log, log.lh)) [] m) :
    Keeps roomy i (runActs acts) (fun _ t => ∃ log, Local i (some (log, log.lh)) [] t) m := by
  induction acts generalizing m with
  | nil =>
    obtain ⟨log, known⟩ := here
    exact fun u moved _ => ⟨log, known.rely moved⟩
  | cons act rest ih =>
    obtain ⟨log, known⟩ := here
    refine Prog.Meets.seq (R := fun _ t => ∃ log, Local i (some (log, log.lh)) [] t) ?_
      fun _ t _ known => ih known
    cases act with
    | bread s => exact (bread_keeps known).mono fun _ t known => ⟨log, known⟩
    | logWrite s v =>
      exact Prog.Meets.seq (poke_keeps known) fun _ t _ known => logWrite_keeps known
    | brelse s =>
      refine (brelse_keeps known ?_).mono fun _ t known => ⟨log, known⟩
      rintro _ _ ⟨⟩ member
      exact member

theorem reads_keeps (acts : List ReadAct) (here : Local i none [] m) :
    Keeps roomy i (runReads acts) (fun _ t => Local i none [] t) m := by
  induction acts generalizing m with
  | nil => exact pure_keeps here
  | cons act rest ih =>
    refine Prog.Meets.seq (R := fun _ t => Local i none [] t) ?_ fun _ t _ known => ih known
    cases act with
    | bread s => exact bread_keeps here
    | brelse s => exact brelse_keeps here nofun

theorem calls_keeps (calls : List Call) (here : Local i none [] m) :
    Keeps roomy i (runCalls calls) (fun _ t => Local i none [] t) m := by
  induction calls generalizing m with
  | nil => exact pure_keeps here
  | cons call rest ih =>
    refine Prog.Meets.seq (R := fun _ t => Local i none [] t) ?_ fun _ t _ known => ih known
    cases call with
    | read acts => exact reads_keeps acts here
    | trans acts =>
      refine Prog.Meets.seq (beginTrans_keeps here) fun _ t _ known => ?_
      refine Prog.Meets.seq (acts_keeps acts known) ?_
      rintro _ t _ ⟨log, known⟩
      exact commitTrans_keeps known

end Rules

theorem boot_pinned (start size : Nat) (disk : Nat → Block) : Pinned (boot start size disk) where
  ok := Cache.binit_ok
  dirty x b found dirty := by
    rw [List.eq_of_mem_replicate (Cache.find_mem found)] at dirty
    cases dirty
  closed _ := rfl

theorem boot_local (i start size : Nat) (disk : Nat → Block) :
    Local i none [] (boot start size disk) where
  mine := nofun
  foreign _ := nofun
  valid x b found held := by
    rw [List.eq_of_mem_replicate (Cache.find_mem found)] at held
    cases held

theorem system_pinned {roomy : Prop} (start size : Nat) (disk : Nat → Block)
    (calls : Nat → List Call) (schedule : List Nat)
    (room : roomy →
      Pool.Along BufOp.exec Halt.waits (fun _ => Room) schedule (system start size disk calls)) :
    (Pool.run BufOp.exec Halt.waits schedule (system start size disk calls)).Satisfies
      (fun _ c => Pinned c.state) fun e _ => roomy → e ≠ .panic .noBuffers := by
  have safe : Pool.Safe BufOp.exec (contract roomy) (system start size disk calls) :=
    ⟨fun _ => boot_pinned start size disk, fun i =>
      ⟨_, calls_keeps (calls i) (boot_local i start size disk)⟩⟩
  have result := (Pool.Safe.run (k := contract roomy) (fun _ _ _ holds => holds)
    (fun i j s t apart _ kept => kept j (Ne.symm apart)) safe schedule
    (Pool.along_of_imp _ _ schedule _ room)).2
  apply result.mono
  · intro _ c kept
    exact kept.1 0
  · intro e c stopped
    obtain ⟨_, other⟩ := stopped
    exact other

/-- In every interleaving in which every missing `bget` finds room, the system
never stops with `bget: no buffers`. -/
theorem no_buffers_unreachable (start size : Nat) (disk : Nat → Block)
    (calls : Nat → List Call) (schedule : List Nat)
    (room : Pool.Along BufOp.exec Halt.waits (fun _ => Room) schedule (system start size disk calls)) :
    ∀ c, Pool.run BufOp.exec Halt.waits schedule (system start size disk calls) ≠
      .halt (.panic .noBuffers) c := by
  intro c stopped
  have result := system_pinned start size disk calls schedule fun _ : True => room
  rw [stopped] at result
  exact result trivial rfl

/-- A transaction that logs one block, and a reader beside it. -/
def pairCalls : Nat → List Call
  | 0 => [.trans [.bread 100, .logWrite 100 Bytes.zero, .brelse 100]]
  | _ => [.read [.bread 200, .brelse 200]]

/-- The reader comes while block 100 is pinned; then the transaction commits. -/
def pairSchedule : List Nat := List.replicate 17 0 ++ [1, 1] ++ List.replicate 35 0 ++ [1, 1]

set_option maxRecDepth 4000 in
theorem no_buffers_unreachable_two :
    let pair := system 1000 10 (fun _ => Bytes.zero) pairCalls
    Pool.Along BufOp.exec Halt.waits (fun _ => Room) pairSchedule pair ∧
      ∀ c, Pool.run BufOp.exec Halt.waits pairSchedule pair ≠ .halt (.panic .noBuffers) c := by
  have room : Pool.Along BufOp.exec Halt.waits (fun _ => Room) pairSchedule
      (system 1000 10 (fun _ => Bytes.zero) pairCalls) := by decide
  exact ⟨room, no_buffers_unreachable 1000 10 _ _ _ room⟩

/-- In every interleaving, as long as it runs, the cache keeps its shape: no two buffers are
assigned to one sector, and a buffer that must not be recycled because it is dirty belongs to a
sector of the log header or is in the hands of the owner of the transaction. -/
theorem cache_pinned (start size : Nat) (disk : Nat → Block) (calls : Nat → List Call)
    (schedule : List Nat) (c : Pool BufOp BufOp.Ret Machine)
    (ran : Pool.run BufOp.exec Halt.waits schedule (system start size disk calls) = .ok () c) :
    c.state.cache.length = NBUF ∧ Cache.Distinct c.state.cache ∧
      ∀ x b, Cache.find c.state.cache x = some b → b.dirty = true →
        x ∈ c.state.log.lh ∨ b.holder ≠ none ∧ b.holder = c.state.log.owner := by
  have result := system_pinned start size disk calls schedule False.elim
  rw [ran] at result
  exact ⟨result.ok.length, result.ok.distinct, result.dirty⟩

/-- A logged buffer that nobody holds, while a reader holds another. -/
theorem cache_pinned_two : ∃ c b, Pool.run BufOp.exec Halt.waits (List.replicate 18 0 ++ [1, 1])
    (system 1000 10 (fun _ => Bytes.zero) pairCalls) = .ok () c ∧
      Cache.find c.state.cache 100 = some b ∧ b.dirty = true ∧ b.holder = none ∧
      (100 ∈ c.state.log.lh ∨ b.holder ≠ none ∧ b.holder = c.state.log.owner) :=
  ⟨_, _, rfl, rfl, rfl, rfl, (cache_pinned 1000 10 (fun _ => Bytes.zero) pairCalls
    (List.replicate 18 0 ++ [1, 1]) _ rfl).2.2 100 _ rfl rfl⟩

/-- A transaction that logs one block next to readers of one block each. -/
def crowdedCalls : Nat → List Call
  | 0 => [.trans [.bread 100, .logWrite 100 Bytes.zero, .brelse 100]]
  | n => [.read [.bread (200 + n), .brelse (200 + n)]]

def crowdedSchedule : List Nat := List.replicate 17 0 ++ [1, 2, 3, 4, 5, 6, 7, 8, 9, 10]

theorem no_buffers_reachable : (∀ i ∈ crowdedSchedule, i < NPROC) ∧ ∃ c,
    Pool.run BufOp.exec Halt.waits crowdedSchedule
      (system 1000 10 (fun _ => Bytes.zero) crowdedCalls) = .halt (.panic .noBuffers) c :=
  ⟨by decide, _, rfl⟩

end SirpairOs.Sharing
