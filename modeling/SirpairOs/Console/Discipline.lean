import SirpairOs.Console.Input

/-! The line discipline of the console in terms of the bytes that were typed, and that the ring
of `consoleintr` and `consoleread` implements it. -/
namespace SirpairOs.Console

/-- The typed bytes: those that have been committed, the line that is being edited, and how many
of the committed ones readers have taken. -/
structure Line where
  committed : List UInt8
  line : List UInt8
  taken : Nat

namespace Line

def empty : Line := ⟨[], [], 0⟩

/-- At most `INPUT_BUF` bytes are waiting. -/
def room (l : Line) : Bool := l.committed.length + l.line.length < l.taken + INPUT_BUF

def commit (l : Line) : Line := { l with committed := l.committed ++ l.line, line := [] }

def put (c : UInt8) (l : Line) : Line := { l with line := l.line ++ [c] }

def kill (l : Line) : Line := { l with line := [] }

/-- What a typed byte does to the line. `rawKill` says whether a line-kill removes the line in raw
mode, too. -/
def typed (rawKill : Bool) (c : UInt8) (raw rawAfter : Bool) (l : Line) : Line :=
  if c = CTRL_P then l
  else if c = CTRL_U then
    if raw = false ∨ rawKill then l.kill else l
  else if c = CTRL_H ∨ c = DEL then
    if raw then
      if l.room then (l.put c).commit else l
    else { l with line := l.line.dropLast }
  else if c = CTRL_C then
    if l.kill.room then (l.kill.put NL).commit else l.kill
  else if c ≠ 0 ∧ l.room then
    let c := if c = CR then NL else c
    let l := l.put c
    if rawAfter ∨ c = NL ∨ c = CTRL_D ∨ l.room = false then l.commit else l
  else l

def next (l : Line) : Option UInt8 := l.committed[l.taken]?

def take (l : Line) : Line := { l with taken := l.taken + 1 }

def putBack (l : Line) : Line := { l with taken := l.taken - 1 }

end Line

def discipline (rawKill : Bool) : Buffering Line :=
  ⟨Line.typed rawKill, Line.next, Line.take, Line.putBack⟩

section Simulation

variable {σ τ : Type}

/-- The stores are related, and everything else is the same. -/
structure Alike (R : σ → τ → Prop) (t : Tty σ) (u : Tty τ) : Prop where
  store : R t.store u.store
  raw : t.raw = u.raw
  reading : t.reading = u.reading
  delivered : t.delivered = u.delivered
  results : t.results = u.results

structure Simulates (ops : Buffering σ) (spec : Buffering τ) (R : σ → τ → Prop) : Prop where
  typed {s : σ} {l : τ} (related : R s l) (c : UInt8) (raw after : Bool) :
    R (ops.typed c raw after s) (spec.typed c raw after l)
  next {s : σ} {l : τ} (related : R s l) : ops.next s = spec.next l
  take {s : σ} {l : τ} (related : R s l) {c : UInt8} (first : spec.next l = some c) :
    R (ops.take s) (spec.take l)
  putBack {s : σ} {l : τ} (related : R s l) :
    R (ops.putBack (ops.take s)) (spec.putBack (spec.take l))

variable {ops : Buffering σ} {spec : Buffering τ} {R : σ → τ → Prop} {t : Tty σ} {u : Tty τ}

theorem Alike.finish (alike : Alike R t u) (p : Nat) (result : Option (List UInt8)) :
    Alike R (t.finish p result) (u.finish p result) where
  store := alike.store
  raw := alike.raw
  reading := by rw [Tty.finish, Tty.finish, alike.reading]
  delivered := alike.delivered
  results := by rw [Tty.finish, Tty.finish, alike.results]

theorem Alike.withStore (alike : Alike R t u) {s : σ} {l : τ} (related : R s l) :
    Alike R { t with store := s } { u with store := l } :=
  { alike with store := related }

theorem Alike.deliver (alike : Alike R t u) (p : Nat) (rd : Reading) (c : UInt8) : Alike R { t with
        delivered := t.delivered ++ [c], reading := Function.update t.reading p (some rd) }
      { u with
        delivered := u.delivered ++ [c], reading := Function.update u.reading p (some rd) } where
  store := alike.store
  raw := alike.raw
  reading := by rw [alike.reading]
  delivered := by rw [alike.delivered]
  results := alike.results

theorem Simulates.consoleread (sim : Simulates ops spec R) (alike : Alike R t u) (p : Nat)
    (killed : Bool) : Alike R (t.consoleread ops p killed) (u.consoleread spec p killed) := by
  have same : t.reading p = u.reading p := by rw [alike.reading]
  unfold Tty.consoleread
  rw [same]
  cases u.reading p with
  | none => exact alike
  | some rd =>
    dsimp only
    by_cases finished : rd.n = 0
    · rw [if_pos finished, if_pos finished]
      exact alike.finish p _
    rw [if_neg finished, if_neg finished, sim.next alike.store]
    cases first : spec.next u.store with
    | none =>
      cases killed with
      | false => exact alike
      | true => exact alike.finish p none
    | some c =>
      have taken := alike.withStore (sim.take alike.store first)
      dsimp only
      by_cases eof : c = CTRL_D
      · rw [if_pos eof, if_pos eof]
        apply Alike.finish
        by_cases some : rd.n < rd.target
        · rw [if_pos some, if_pos some]
          exact alike.withStore (sim.putBack alike.store)
        · rw [if_neg some, if_neg some]
          exact taken
      · rw [if_neg eof, if_neg eof]
        by_cases newline : c = NL
        · rw [if_pos newline, if_pos newline]
          exact (taken.deliver p _ c).finish p _
        · rw [if_neg newline, if_neg newline]
          exact taken.deliver p _ c

theorem Simulates.step (sim : Simulates ops spec R) (alike : Alike R t u) (event : Event) :
    Alike R (t.step ops event) (u.step spec event) := by
  cases event with
  | typed c switched =>
    rw [Tty.step, Tty.step, Tty.consoleintr, Tty.consoleintr, alike.raw]
    exact { alike with store := sim.typed alike.store c _ _, raw := rfl }
  | switch raw => exact { alike with raw := rfl }
  | read p n =>
    rw [Tty.step, Tty.step, alike.reading]
    split
    · exact alike
    · exact { alike with reading := rfl }
  | resume p killed => exact sim.consoleread alike p killed

theorem Simulates.run (sim : Simulates ops spec R) (alike : Alike R t u) (events : List Event) :
    Alike R (t.run ops events) (u.run spec events) := by
  induction events generalizing t u with
  | nil => exact alike
  | cons event events ih => exact ih (sim.step alike event)

end Simulation

/-- The ring holds what was typed and has not been taken or erased. -/
structure Input.Filled (s : Input) (l : Line) : Prop where
  ring : Ring.Holds s.buf s.r s.e (l.committed.take l.taken) (l.committed ++ l.line)
  w : s.w = BitVec.ofNat 32 l.committed.length
  taken : l.taken ≤ l.committed.length

/-- Between two bytes the line contains no newline, since that would have committed it. -/
structure Input.Holds (s : Input) (l : Line) : Prop extends s.Filled l where
  plain : NL ∉ l.line

theorem small : INPUT_BUF < 2 ^ 32 := by decide

theorem divides : INPUT_BUF ∣ 2 ^ 32 := ⟨2 ^ 25, by decide⟩

namespace Input.Filled

variable {s : Input} {l : Line} (filled : s.Filled l)
include filled

theorem length_taken : (l.committed.take l.taken).length = l.taken := by
  rw [List.length_take, Nat.min_eq_left filled.taken]

/-- As many bytes are waiting as the indices say. -/
theorem waiting : (s.e - s.r).toNat = l.committed.length + l.line.length - l.taken := by
  rw [filled.ring.used small, List.length_append, filled.length_taken]

theorem room : s.room = l.room := by
  have taken := filled.taken
  rw [Input.room, Line.room, filled.waiting]
  exact decide_eq_decide.mpr (by omega)

theorem bound : l.committed.length + l.line.length ≤ l.taken + INPUT_BUF := by
  have room := filled.ring.room
  rwa [List.length_append, filled.length_taken] at room

theorem full : s.e = s.r + BitVec.ofNat 32 INPUT_BUF ↔ l.room = false := by
  have bound := filled.bound
  rw [filled.ring.full_iff small, List.length_append, filled.length_taken, Line.room,
    decide_eq_false_iff_not]
  omega

/-- The distance from `w` to `e` is the length of the line. -/
theorem edited : (s.e - s.w).toNat = l.line.length := by
  have bound := filled.bound
  have taken := filled.taken
  have few : l.line.length < 2 ^ 32 := by
    have range := small
    omega
  have gap : s.e - s.w = BitVec.ofNat 32 l.line.length := by
    rw [filled.ring.tail, filled.w, List.length_append, Nat.add_comm, BitVec.ofNat_add,
      BitVec.add_sub_cancel]
  rw [gap, BitVec.toNat_ofNat, Nat.mod_eq_of_lt few]

theorem edit_iff : s.e = s.w ↔ l.line = [] := by
  have edited := filled.edited
  constructor
  · intro same
    rw [same, BitVec.sub_self] at edited
    exact List.eq_nil_of_length_eq_zero edited.symm
  · intro none
    rw [filled.ring.tail, filled.w, none, List.append_nil]

theorem readable : Ring.Holds s.buf s.r s.w (l.committed.take l.taken) l.committed where
  head := filled.ring.head
  tail := filled.w
  order := List.take_prefix _ _
  room := by
    have bound := filled.bound
    rw [filled.length_taken]
    omega
  cells j low inside := by
    rw [filled.ring.cells j low (by rw [List.length_append]; omega), List.getElem_append_left inside]

theorem next : s.next = l.next := by
  have taken := filled.taken
  have length := filled.length_taken
  rw [Input.next, Line.next]
  by_cases none : l.taken = l.committed.length
  · have all : l.committed.take l.taken = l.committed := by rw [none, List.take_length]
    rw [if_pos ((filled.readable.empty_iff small).mpr all), none, List.getElem?_length]
  · have waiting : (l.committed.take l.taken).length < l.committed.length := by omega
    have some : s.r ≠ s.w := by
      intro same
      rw [(filled.readable.empty_iff small).mp same] at waiting
      omega
    rw [if_neg some, filled.readable.oldest divides waiting, List.getElem?_eq_getElem (by omega)]
    simp only [length]

theorem take {c : UInt8} (first : l.next = some c) : s.take.Filled l.take where
  ring := by
    obtain ⟨inside, found⟩ := List.getElem?_eq_some_iff.mp first
    have waiting : (l.committed.take l.taken).length < (l.committed ++ l.line).length := by
      rw [filled.length_taken, List.length_append]
      omega
    have next := filled.ring.take divides waiting
    rw [filled.ring.oldest divides waiting] at next
    simp only [filled.length_taken, List.getElem_append_left inside, List.take_append_getElem] at next
    exact next
  w := filled.w
  taken := (List.getElem?_eq_some_iff.mp first).1

theorem put (space : l.room) (c : UInt8) : (s.put c).Filled (l.put c) where
  ring := by
    have space : l.committed.length + l.line.length < l.taken + INPUT_BUF := of_decide_eq_true space
    have stored := filled.ring.put divides (by rwa [List.length_append, filled.length_taken]) c
    rwa [List.append_assoc] at stored
  w := filled.w
  taken := filled.taken

theorem commit : s.commit.Holds l.commit where
  ring := by
    rw [Line.commit, List.append_nil, List.take_append_of_le_length filled.taken]
    exact filled.ring
  w := by rw [Input.commit, filled.ring.tail, Line.commit]
  taken := by
    have taken := filled.taken
    dsimp only [Line.commit]
    rw [List.length_append]
    omega
  plain := List.not_mem_nil

end Input.Filled

namespace Input.Holds

variable {s : Input} {l : Line} (holds : s.Holds l)
include holds

theorem erase {c : UInt8} {line : List UInt8} (last : l.line = line ++ [c]) :
    ({ s with e := s.e - 1#32 } : Input).Holds { l with line := line } where
  ring := by
    apply holds.ring.unput (by rw [last, List.append_assoc])
    exact (List.take_prefix _ _).trans (List.prefix_append _ _)
  w := holds.w
  taken := holds.taken
  plain := by
    intro member
    exact holds.plain (by rw [last]; exact List.mem_append_left _ member)

theorem newest {c : UInt8} {line : List UInt8} (last : l.line = line ++ [c]) :
    s.buf (Ring.index INPUT_BUF (s.e - 1#32)) = c := by
  have taken := holds.taken
  apply holds.ring.newest divides (by rw [last, List.append_assoc])
  rw [holds.length_taken, List.length_append]
  omega

omit holds in
/-- The loop ends at `w`, because no newline is in its way. -/
theorem killLine (holds : s.Holds l) {rounds : Nat} (enough : l.line.length ≤ rounds) :
    (s.killLine rounds).Holds l.kill := by
  induction rounds generalizing s l with
  | zero =>
    have none : l.line = [] := List.eq_nil_of_length_eq_zero (by omega)
    rw [Input.killLine, Line.kill, ← none]
    exact holds
  | succ rounds ih =>
    rw [Input.killLine]
    obtain none | ⟨line, c, last⟩ := List.eq_nil_or_concat l.line
    · rw [if_neg fun test => test.1 (holds.edit_iff.mpr none), Line.kill, ← none]
      exact holds
    · rw [List.concat_eq_append] at last
      have edited : s.e ≠ s.w := by
        intro same
        rw [holds.edit_iff, last] at same
        exact absurd same (by simp)
      have visible : s.buf (Ring.index INPUT_BUF (s.e - 1#32)) ≠ NL := by
        rw [holds.newest last]
        intro newline
        exact holds.plain (by rw [last, newline]; simp)
      rw [if_pos ⟨edited, visible⟩]
      rw [last, List.length_append, List.length_singleton] at enough
      have shorter := ih (holds.erase last) (Nat.le_of_succ_le_succ enough)
      exact shorter

theorem kill : s.kill.Holds l.kill := by
  rw [Input.kill, holds.edited]
  exact holds.killLine (Nat.le_refl _)

theorem backspace : (if s.e ≠ s.w then { s with e := s.e - 1#32 } else s : Input).Holds
      { l with line := l.line.dropLast } := by
  obtain none | ⟨line, c, last⟩ := List.eq_nil_or_concat l.line
  · rw [if_neg (not_not_intro (holds.edit_iff.mpr none)), none, List.dropLast_nil, ← none]
    exact holds
  · rw [List.concat_eq_append] at last
    have edited : s.e ≠ s.w := by
      intro same
      rw [holds.edit_iff, last] at same
      exact absurd same (by simp)
    rw [if_pos edited, last, List.dropLast_concat]
    exact holds.erase last

theorem typed (c : UInt8) (raw after : Bool) :
    (s.typed c raw after).Holds (l.typed true c raw after) := by
  unfold Input.typed Line.typed
  by_cases listing : c = CTRL_P
  · rw [if_pos listing, if_pos listing]
    exact holds
  rw [if_neg listing, if_neg listing]
  by_cases lineKill : c = CTRL_U
  · rw [if_pos lineKill, if_pos lineKill, if_pos (Or.inr rfl)]
    exact holds.kill
  rw [if_neg lineKill, if_neg lineKill]
  by_cases back : c = CTRL_H ∨ c = DEL
  · rw [if_pos back, if_pos back, holds.room]
    cases raw with
    | false => exact holds.backspace
    | true =>
      rw [if_pos rfl, if_pos rfl]
      split
      · rename_i space
        exact (holds.put space c).commit
      · exact holds
  rw [if_neg back, if_neg back]
  by_cases interrupt : c = CTRL_C
  · have killed := holds.kill
    rw [if_pos interrupt, if_pos interrupt]
    dsimp only
    rw [killed.room]
    split
    · rename_i space
      exact (killed.put space NL).commit
    · exact killed
  rw [if_neg interrupt, if_neg interrupt, holds.room]
  split
  · rename_i accepted
    generalize (if c = CR then NL else c) = stored
    have more := holds.put accepted.2 stored
    simp only [more.full]
    split
    · exact more.commit
    · rename_i uncommitted
      refine ⟨more, ?_⟩
      rw [Line.put, List.mem_append, List.mem_singleton]
      rintro (old | new)
      · exact holds.plain old
      · exact uncommitted (Or.inr (Or.inl new.symm))
  · exact holds

theorem putBack : (s.take.putBack).Holds (l.take.putBack) := by
  rw [Input.take, Input.putBack, Line.take, Line.putBack]
  dsimp only
  rw [BitVec.add_sub_cancel, Nat.add_sub_cancel]
  exact holds

end Input.Holds

theorem ring_simulates : Simulates ring (discipline true) Input.Holds where
  typed holds c raw after := holds.typed c raw after
  next holds := holds.next
  take holds _ first := ⟨holds.take first, holds.plain⟩
  putBack holds := holds.putBack

variable (buf : Fin INPUT_BUF → UInt8)

theorem Input.start_holds : (Input.start buf).Holds .empty where
  ring := .new buf
  w := rfl
  taken := Nat.le_refl 0
  plain := List.not_mem_nil

theorem start_alike : Alike Input.Holds (Tty.start (Input.start buf)) (Tty.start Line.empty) :=
  ⟨Input.start_holds buf, rfl, rfl, rfl, rfl⟩

variable (rawKill : Bool)

/-- Committed bytes stay committed, and typing takes none of them. -/
theorem Line.typed_keeps (c : UInt8) (raw after : Bool) (l : Line) :
    l.committed <+: (l.typed rawKill c raw after).committed ∧
      (l.typed rawKill c raw after).taken = l.taken := by
  have same : l.committed <+: l.committed ∧ l.taken = l.taken := ⟨List.prefix_refl _, rfl⟩
  have committed (m : Line) (part : m.committed = l.committed) (taken : m.taken = l.taken) :
      l.committed <+: m.commit.committed ∧ m.commit.taken = l.taken := by
    rw [← part]
    exact ⟨List.prefix_append _ _, taken⟩
  unfold Line.typed
  split
  · exact same
  split
  · split <;> exact same
  split
  · split
    · split
      · exact committed _ rfl rfl
      · exact same
    · exact same
  split
  · split
    · exact committed _ rfl rfl
    · exact same
  split
  · generalize (if c = CR then NL else c) = stored
    dsimp only
    split
    · exact committed _ rfl rfl
    · exact same
  · exact same

structure Sound (a : Tty Line) : Prop where
  taken : a.store.taken ≤ a.store.committed.length
  delivered : a.delivered = (a.store.committed.take a.store.taken).filter (· ≠ CTRL_D)
  reading : ∀ p rd, a.reading p = some rd → CTRL_D ∉ rd.dst
  results : ∀ p data, (p, some data) ∈ a.results → CTRL_D ∉ data

theorem sound_start : Sound (Tty.start Line.empty) where
  taken := Nat.le_refl 0
  delivered := rfl
  reading p rd none := absurd none (by simp [Tty.start])
  results p data none := absurd none (by simp [Tty.start])

namespace Sound

variable {a : Tty Line}

variable (sound : Sound a)

include sound

theorem finish (p : Nat) {result : Option (List UInt8)}
    (clean : ∀ data, result = some data → CTRL_D ∉ data) : Sound (a.finish p result) where
  taken := sound.taken
  delivered := sound.delivered
  reading q rd started := by
    dsimp only [Tty.finish] at started
    by_cases self : q = p
    · rw [self, Function.update_self] at started
      exact absurd started (by simp)
    · rw [Function.update_of_ne self] at started
      exact sound.reading q rd started
  results q data member := by
    dsimp only [Tty.finish] at member
    rw [List.mem_append, List.mem_singleton, Prod.mk.injEq] at member
    obtain earlier | now := member
    · exact sound.results q data earlier
    · exact clean data now.2.symm

theorem setReading (p : Nat) {rd : Reading} (clean : CTRL_D ∉ rd.dst) :
    Sound { a with reading := Function.update a.reading p (some rd) } where
  taken := sound.taken
  delivered := sound.delivered
  results := sound.results
  reading q other started := by
    dsimp only at started
    by_cases self : q = p
    · rw [self, Function.update_self, Option.some.injEq] at started
      rw [← started]
      exact clean
    · rw [Function.update_of_ne self] at started
      exact sound.reading q other started

theorem take {c : UInt8} (first : a.store.next = some c) : Sound { a with
      store := a.store.take
      delivered := if c = CTRL_D then a.delivered else a.delivered ++ [c] } where
  taken := (List.getElem?_eq_some_iff.mp first).1
  reading := sound.reading
  results := sound.results
  delivered := by
    obtain ⟨inside, found⟩ := List.getElem?_eq_some_iff.mp first
    dsimp only [Line.take]
    rw [← List.take_append_getElem inside, found, List.filter_append, ← sound.delivered]
    split
    · rename_i eof
      simp [eof]
    · rename_i data
      simp [data]

theorem consoleread {rawKill : Bool} (p : Nat) (killed : Bool) :
    Sound (a.consoleread (discipline rawKill) p killed) := by
  unfold Tty.consoleread
  cases started : a.reading p with
  | none => exact sound
  | some rd =>
    have clean := sound.reading p rd started
    have result (data : List UInt8) (same : some rd.dst = some data) : CTRL_D ∉ data := by
      rwa [← Option.some.inj same]
    dsimp only
    split
    · exact sound.finish p result
    cases first : (discipline rawKill).next a.store with
    | none =>
      cases killed with
      | false => exact sound
      | true => exact sound.finish p (by simp)
    | some c =>
      have taken := sound.take first
      dsimp only
      by_cases eof : c = CTRL_D
      · rw [if_pos eof] at taken ⊢
        apply finish _ p result
        split
        · exact sound
        · exact taken
      · rw [if_neg eof] at taken ⊢
        have more : CTRL_D ∉ (Reading.mk rd.target (rd.n - 1) (rd.dst ++ [c])).dst := by
          rw [List.mem_append, List.mem_singleton]
          exact not_or.mpr ⟨clean, fun same => eof same.symm⟩
        have delivered := taken.setReading p more
        split
        · apply delivered.finish p
          intro data same
          rwa [← Option.some.inj same]
        · exact delivered

theorem step {rawKill : Bool} (event : Event) : Sound (a.step (discipline rawKill) event) := by
  cases event with
  | typed c switched =>
    obtain ⟨kept, taken⟩ := Line.typed_keeps rawKill c a.raw
      (switched.getD (if c = CTRL_C then false else a.raw)) a.store
    rw [Tty.step, Tty.consoleintr]
    refine ⟨?_, ?_, sound.reading, sound.results⟩
    · dsimp only [discipline]
      rw [taken]
      exact sound.taken.trans kept.length_le
    · obtain ⟨more, grown⟩ := kept
      dsimp only [discipline]
      rw [taken, sound.delivered, ← grown, List.take_append_of_le_length sound.taken]
  | switch raw => exact ⟨sound.taken, sound.delivered, sound.reading, sound.results⟩
  | read p n =>
    rw [Tty.step]
    split
    · exact sound
    · exact sound.setReading p List.not_mem_nil
  | resume p killed => exact sound.consoleread p killed

theorem run {rawKill : Bool} (events : List Event) : Sound (a.run (discipline rawKill) events) := by
  induction events generalizing a with
  | nil => exact sound
  | cons event events ih => exact ih (sound.step event)

end Sound

variable (a : Tty Line)

theorem consoleread_committed (p : Nat) (killed : Bool) :
    (a.consoleread (discipline rawKill) p killed).store.committed = a.store.committed := by
  unfold Tty.consoleread
  cases a.reading p with
  | none => rfl
  | some rd =>
    dsimp only
    split
    · rfl
    cases (discipline rawKill).next a.store with
    | none => cases killed <;> rfl
    | some c =>
      dsimp only
      split
      · split <;> rfl
      · split <;> rfl

theorem step_committed (event : Event) :
    a.store.committed <+: (a.step (discipline rawKill) event).store.committed := by
  cases event with
  | typed c switched => exact (Line.typed_keeps rawKill c a.raw _ a.store).1
  | switch raw => exact List.prefix_refl _
  | read p n =>
    rw [Tty.step]
    split <;> exact List.prefix_refl _
  | resume p killed =>
    rw [Tty.step, consoleread_committed]

theorem run_committed (events : List Event) :
    a.store.committed <+: (a.run (discipline rawKill) events).store.committed := by
  induction events generalizing a with
  | nil => exact List.prefix_refl _
  | cons event events ih => exact (step_committed rawKill a event).trans (ih _)

def Input.waitingBytes (s : Input) : List UInt8 :=
  (List.range (s.e - s.r).toNat).map fun i => s.buf (Ring.index INPUT_BUF (s.r + BitVec.ofNat 32 i))

theorem Input.Filled.waitingBytes {s : Input} {l : Line} (filled : s.Filled l) :
    s.waitingBytes = l.committed.drop l.taken ++ l.line := by
  have taken := filled.taken
  have size := filled.waiting
  apply List.ext_getElem
  · rw [Input.waitingBytes, List.length_map, List.length_range, size, List.length_append,
      List.length_drop]
    omega
  · intro i left right
    rw [Input.waitingBytes, List.length_map, List.length_range, size] at left
    have inside : l.taken + i < (l.committed ++ l.line).length := by
      rw [List.length_append]
      omega
    have place : s.r + BitVec.ofNat 32 i = BitVec.ofNat 32 (l.taken + i) := by
      rw [filled.ring.head, filled.length_taken, BitVec.ofNat_add]
    simp only [Input.waitingBytes, List.getElem_map, List.getElem_range]
    rw [place, Ring.index_ofNat divides, filled.ring.cells _ (by rw [filled.length_taken]; omega) inside]
    simp only [← List.drop_append_of_le_length taken, List.getElem_drop]

/-- The console `t` has done what the line discipline `a` says. -/
structure Disciplined (t : Tty Input) (a : Tty Line) : Prop where
  /-- `r <= w <= e <= r + INPUT_BUF`, modulo 2^32. -/
  indices : (t.store.w - t.store.r).toNat ≤ (t.store.e - t.store.r).toNat ∧
    (t.store.e - t.store.r).toNat ≤ INPUT_BUF
  /-- The delivered bytes are the first of the committed ones, without `^D`. -/
  delivered : t.delivered = (a.store.committed.take a.store.taken).filter (· ≠ CTRL_D)
  /-- The ring holds the other committed bytes and the line. -/
  waiting : t.store.waitingBytes = a.store.committed.drop a.store.taken ++ a.store.line
  /-- No call has returned a `^D`. -/
  clean : ∀ p data, (p, some data) ∈ t.results → CTRL_D ∉ data
  /-- A call that comes to a `^D` ends there, and takes it only if it has no bytes. -/
  eof : ∀ p rd killed, t.reading p = some rd → 0 < rd.n → t.store.next = some CTRL_D →
    (t.consoleread ring p killed).results = t.results ++ [(p, some rd.dst)] ∧
      (t.consoleread ring p killed).delivered = t.delivered ∧
      (t.consoleread ring p killed).store = if rd.n < rd.target then t.store else t.store.take

theorem consoleread_eof (t : Tty Input) {p : Nat} {rd : Reading} (killed : Bool)
    (started : t.reading p = some rd) (more : 0 < rd.n) (first : t.store.next = some CTRL_D) :
    (t.consoleread ring p killed).results = t.results ++ [(p, some rd.dst)] ∧
      (t.consoleread ring p killed).delivered = t.delivered ∧
      (t.consoleread ring p killed).store = if rd.n < rd.target then t.store else t.store.take := by
  have back : t.store.take.putBack = t.store := by
    rw [Input.take, Input.putBack]
    dsimp only
    rw [BitVec.add_sub_cancel]
  have next : ring.next t.store = some CTRL_D := first
  unfold Tty.consoleread
  rw [started]
  dsimp only
  rw [if_neg (by omega), next]
  dsimp only
  rw [if_pos rfl]
  split
  · exact ⟨rfl, rfl, back⟩
  · exact ⟨rfl, rfl, rfl⟩

/-- Whatever is typed, read and switched in whatever order, the console delivers the bytes of the
line discipline, in which a line-kill removes the line in both modes; and what has been committed
stays so. -/
theorem console_input_disciplined (buf : Fin INPUT_BUF → UInt8) (events more : List Event) :
    Disciplined ((Tty.start (Input.start buf)).run ring events)
        ((Tty.start Line.empty).run (discipline true) events) ∧
      ((Tty.start Line.empty).run (discipline true) events).store.committed <+:
        ((Tty.start Line.empty).run (discipline true) (events ++ more)).store.committed := by
  have alike := ring_simulates.run (start_alike buf) events
  have sound : Sound ((Tty.start Line.empty).run (discipline true) events) := sound_start.run events
  have filled := alike.store.toFilled
  constructor
  · refine ⟨?_, ?_, filled.waitingBytes, ?_, ?_⟩
    · have bound := filled.bound
      have taken := filled.taken
      rw [filled.waiting, filled.readable.used small, filled.length_taken]
      omega
    · rw [alike.delivered, sound.delivered]
    · rw [alike.results]
      exact sound.results
    · intro p rd killed started more first
      exact consoleread_eof _ killed started more first
  · rw [Tty.run, Tty.run, List.foldl_append]
    exact run_committed true _ more

/-- `a` is typed in line mode, and the line is killed in raw mode: a reader does not get it. -/
def killedInRaw : List Event :=
  [.typed 97 none, .switch true, .typed CTRL_U none, .typed NL none, .read 0 2, .resume 0 false,
    .resume 0 false]

theorem raw_kill_removes_line :
    ((Tty.start (Input.start fun _ => 0)).run ring killedInRaw).delivered = [NL] ∧
      ((Tty.start Line.empty).run (discipline false) killedInRaw).delivered = [97, NL] := by
  decide +kernel

end SirpairOs.Console
