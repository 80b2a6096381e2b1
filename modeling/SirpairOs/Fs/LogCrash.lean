import SirpairOs.Lib.Writes
import SirpairOs.Fs.LogSpec

/-! Crash atomicity of the log. A crash keeps a prefix of the single-sector
writes issued so far and nothing of memory; the machine then boots with an
empty buffer cache and runs `recover_from_log`. -/
namespace SirpairOs.Log

open Bio Writes

/-- What a process may do inside a transaction. `logWrite` sets the data of a
buffer the process holds and hands it to `log_write`. -/
inductive Act where
  | bread (sector : Nat)
  | logWrite (sector : Nat) (data : Block)
  | brelse (sector : Nat)

namespace Act

def sector : Act → Nat
  | bread s => s
  | logWrite s _ => s
  | brelse s => s

def run : Act → BufProg Unit
  | bread s => Bio.bread s
  | logWrite s data => do
    poke s data
    Log.logWrite s
  | brelse s => Bio.brelse s

def write : Act → Option (Nat × Block)
  | logWrite s data => some (s, data)
  | _ => none

end Act

def runActs : List Act → BufProg Unit
  | [] => pure ()
  | act :: rest => do
    act.run
    runActs rest

def runTx (tx : List Act) : BufProg Unit := do
  beginTrans
  runActs tx
  commitTrans

def runTxs : List (List Act) → BufProg Unit
  | [] => pure ()
  | tx :: rest => do
    runTx tx
    runTxs rest

def session (txs : List (List Act)) : BufProg Unit := do
  recoverFromLog
  runTxs txs

def boot (start size : Nat) (disk : Nat → Block) : Machine :=
  { disk := disk, trace := [], cache := binit
    log := { start := start, size := size, owner := none, lh := [] } }

def writesOf (tx : List Act) : List (Nat × Block) := tx.filterMap Act.write

def contents (disk : Nat → Block) (txs : List (List (Nat × Block))) : Nat → Block :=
  txs.foldl Writes.apply disk

/-- A write of the header with `n > 0`. -/
def isCommit (start : Nat) (w : Nat × Block) : Bool := w.1 = start ∧ 0 < LogHeader.n w.2

def commits (start : Nat) (ws : List (Nat × Block)) : Nat := ws.countP (isCommit start)

/-- The transactions that write something: each of them commits exactly once. -/
def effective (txs : List (List Act)) : List (List (Nat × Block)) :=
  (txs.map writesOf).filter fun ws => ws ≠ []

/-- The disk that a crash after `k` sector writes of a run leaves. -/
def crashDisk (pid start size : Nat) (p : BufProg Unit) (disk : Nat → Block) (k : Nat) :
    Nat → Block :=
  Writes.apply disk ((Prog.run (BufOp.exec pid) p (boot start size disk)).state.trace.take k)

/-- Disks reached from `d` by recoveries that all crashed. -/
inductive Recovering (pid start size : Nat) (d : Nat → Block) : (Nat → Block) → Prop
  | none : Recovering pid start size d d
  | crash {e : Nat → Block} (k : Nat) (earlier : Recovering pid start size d e) :
      Recovering pid start size d (crashDisk pid start size recoverFromLog e k)

section Invariant

variable (start size : Nat)

/-- The log blocks hold the data of `pend`, whose sectors are distinct home
locations. -/
structure Slots (d : Nat → Block) (pend : List (Nat × Block)) : Prop where
  nodup : (pend.map Prod.fst).Nodup
  outside : ∀ s ∈ pend.map Prod.fst, ¬ InLog start size s
  fits : pend.length + 1 ≤ size
  blocks : ∀ i (bound : i < pend.length), d (start + i + 1) = pend[i].2

/-- Replaying the on-disk log gives `goal` outside the log area. -/
def Replays (d : Nat → Block) (pend : List (Nat × Block)) (goal : Nat → Block) : Prop :=
  ∀ x, ¬ InLog start size x → (lookup pend x).getD (d x) = goal x

def Recoverable (d goal : Nat → Block) : Prop :=
  ∃ pend, Slots start size d pend ∧ LogHeader.sectors (d start) = pend.map Prod.fst ∧
    Replays start size d pend goal

variable (base : Nat → Block) (target : Nat → Nat → Block)

/-- Wherever the run is cut, the disk is recoverable to the committed state. -/
def History (trace : List (Nat × Block)) : Prop :=
  ∀ k, Recoverable start size (Writes.apply base (trace.take k))
    (target (commits start (trace.take k)))

structure Inv (m : Machine) : Prop where
  here : m.log.start = start
  extent : m.log.size = size
  room : 0 < size
  disk : m.disk = Writes.apply base m.trace
  coherent : Coherent start size m
  history : History start size base target m.trace

/-- Inside a transaction, or between two: the header is empty and the home
locations are those of `c` committed transactions. -/
structure Pending (c : Nat) (pend : List (Nat × Block)) (m : Machine) : Prop where
  inv : Inv start size base target m
  count : commits start m.trace = c
  slots : Slots start size m.disk pend
  lh : m.log.lh = pend.map Prod.fst
  words : ∀ s ∈ pend.map Prod.fst, s < 2 ^ 32
  short : pend.length ≤ LOGSIZE
  empty : LogHeader.n (m.disk start) = 0
  home : ∀ x, ¬ InLog start size x → m.disk x = target c x

/-- While `install_trans` runs: the header lists `pend`, and the first `done`
home locations have their new contents. -/
structure Installing (c : Nat) (pend : List (Nat × Block)) (done : Nat) (m : Machine) : Prop where
  inv : Inv start size base target m
  count : commits start m.trace = c
  slots : Slots start size m.disk pend
  lh : m.log.lh = pend.map Prod.fst
  header : LogHeader.sectors (m.disk start) = pend.map Prod.fst
  replays : Replays start size m.disk pend (target c)
  installed : ∀ i (bound : i < pend.length), i < done → m.disk pend[i].1 = pend[i].2

end Invariant

section Steps

variable {start size : Nat} {base : Nat → Block} {target : Nat → Nat → Block}

variable (ws : List (Nat × Block))

theorem commits_snoc (w : Nat × Block) :
    commits start (ws ++ [w]) = commits start ws + if isCommit start w then 1 else 0 := by
  simp only [commits, List.countP_append, List.countP_singleton]

variable {c pid x : Nat} {m m' : Machine} {v : Block} {d : Nat → Block} {pend : List (Nat × Block)}

theorem commits_snoc_of_ne (v : Block) (apart : x ≠ start) :
    commits start (ws ++ [(x, v)]) = commits start ws := by
  simp only [commits_snoc, isCommit, apart, false_and, decide_false, Bool.false_eq_true,
    ↓reduceIte, Nat.add_zero]

theorem History.snoc {trace : List (Nat × Block)} {w : Nat × Block}
    (history : History start size base target trace)
    (last : Recoverable start size (Writes.apply base (trace ++ [w]))
      (target (commits start (trace ++ [w])))) : History start size base target (trace ++ [w]) := by
  intro k
  by_cases short : k ≤ trace.length
  · rw [List.take_append_of_le_length short]
    exact history k
  · rw [List.take_of_length_le (by rw [List.length_append, List.length_singleton]; omega)]
    exact last

/-- One more sector write keeps the invariant when the new disk is recoverable. -/
theorem Inv.wrote (inv : Inv start size base target m) (disk : m'.disk = Function.update m.disk x v)
    (trace : m'.trace = m.trace ++ [(x, v)]) (here : m'.log.start = m.log.start)
    (extent : m'.log.size = m.log.size) (coherent : Coherent start size m')
    (recoverable : Recoverable start size m'.disk (target (commits start m'.trace))) :
    Inv start size base target m' := by
  have same : m'.disk = Writes.apply base m'.trace := by
    rw [disk, trace, Writes.apply_snoc, ← inv.disk]
  refine ⟨here.trans inv.here, extent.trans inv.extent, inv.room, same, coherent, ?_⟩
  rw [same, trace] at recoverable
  rw [trace]
  exact inv.history.snoc recoverable

theorem Slots.update (slots : Slots start size d pend)
    (apart : ∀ i < pend.length, start + i + 1 ≠ x) :
    Slots start size (Function.update d x v) pend where
  nodup := slots.nodup
  outside := slots.outside
  fits := slots.fits
  blocks i bound := by
    rw [Function.update_of_ne (apart i bound)]
    exact slots.blocks i bound

theorem Slots.update_home (slots : Slots start size d pend) (outside : ¬ InLog start size x) :
    Slots start size (Function.update d x v) pend := by
  refine slots.update fun i bound same => outside ?_
  have fits := slots.fits
  exact ⟨by omega, by omega⟩

theorem Slots.update_header (slots : Slots start size d pend) :
    Slots start size (Function.update d start v) pend :=
  slots.update fun i _ => by omega

theorem Slots.nil (d : Nat → Block) (room : 0 < size) : Slots start size d [] where
  nodup := List.nodup_nil
  outside _ member := nomatch member
  fits := room
  blocks _ bound := nomatch bound

/-- With an empty header, a disk is recoverable to what it holds. -/
theorem recoverable_of_empty {goal : Nat → Block} (room : 0 < size)
    (empty : LogHeader.n (d start) ≤ 0) (home : ∀ x, ¬ InLog start size x → d x = goal x) :
    Recoverable start size d goal :=
  ⟨[], Slots.nil d room, LogHeader.sectors_of_n_nonpos empty, home⟩

theorem inLog_start (room : 0 < size) : InLog start size start := ⟨Nat.le_refl _, by omega⟩

/-- A home location to be installed holds its new contents once it has been
copied, and replaying gives the same as before. -/
theorem Replays.install {goal : Nat → Block} {i : Nat} (replays : Replays start size d pend goal)
    (nodup : (pend.map Prod.fst).Nodup) (bound : i < pend.length) :
    Replays start size (Function.update d pend[i].1 pend[i].2) pend goal := by
  intro x outside
  have before := replays x outside
  by_cases same : x = pend[i].1
  · subst same
    rw [lookup_of_getElem nodup i bound] at before ⊢
    exact before
  · rw [Function.update_of_ne same]
    exact before

theorem Installing.step {done : Nat} (state : Installing start size base target c pend done m)
    (bound : done < pend.length) (sector : x = pend[done].1) (data : v = pend[done].2)
    (wrote : Wrote start size x v m m') :
    Installing start size base target c pend (done + 1) m' := by
  have member : pend[done].1 ∈ pend.map Prod.fst := List.mem_map_of_mem (List.getElem_mem bound)
  have outside := state.slots.outside _ member
  have apart : pend[done].1 ≠ start := fun same =>
    outside (same ▸ inLog_start state.inv.room)
  have count : commits start m'.trace = c := by
    rw [wrote.trace, sector, commits_snoc_of_ne _ _ apart, state.count]
  have disk := wrote.disk
  rw [sector, data] at disk
  have slots : Slots start size m'.disk pend := disk ▸ state.slots.update_home outside
  have header : LogHeader.sectors (m'.disk start) = pend.map Prod.fst := by
    rw [disk, Function.update_of_ne apart.symm, state.header]
  have replays : Replays start size m'.disk pend (target c) :=
    disk ▸ state.replays.install state.slots.nodup bound
  refine ⟨state.inv.wrote wrote.disk wrote.trace (by rw [wrote.log]) (by rw [wrote.log])
    wrote.coherent ?_, count, slots, by rw [wrote.log, state.lh], header, replays, ?_⟩
  · rw [count]
    exact ⟨pend, slots, header, replays⟩
  · intro i inside before
    rw [disk]
    by_cases same : i = done
    · subst same
      exact Function.update_self _ _ _
    · have differs : pend[i].1 ≠ pend[done].1 := by
        have inside' : i < (pend.map Prod.fst).length := by rwa [List.length_map]
        have bound' : done < (pend.map Prod.fst).length := by rwa [List.length_map]
        have apart : (pend.map Prod.fst)[i] ≠ (pend.map Prod.fst)[done] := fun equal =>
          same (state.slots.nodup.getElem_inj_iff.mp equal)
        simpa only [List.getElem_map] using apart
      rw [Function.update_of_ne differs]
      exact state.installed i inside (by omega)

/-- The loop of `install_trans`, from any round on. -/
theorem installFrom_wp {done : Nat} (state : Installing start size base target c pend done m)
    (range : done ≤ pend.length) :
    Bio.wp pid (installFrom start done ((pend.map Prod.fst).drop done))
      (fun _ m' => Installing start size base target c pend pend.length m' ∧
        (Quiescent m → Quiescent m'))
      (fun _ m' => History start size base target m'.trace ∧ ¬ Quiescent m) m := by
  induction left : pend.length - done generalizing done m with
  | zero =>
    have last : done = pend.length := by omega
    subst last
    rw [List.drop_of_length_le (by rw [List.length_map])]
    exact ⟨state, id⟩
  | succ left ih =>
    have bound : done < pend.length := by omega
    have member : pend[done].1 ∈ pend.map Prod.fst :=
      List.mem_map_of_mem (List.getElem_mem bound)
    have fits := state.slots.fits
    rw [List.drop_eq_getElem_cons (by rw [List.length_map]; exact bound), List.getElem_map]
    refine installStep_wp state.inv.coherent ⟨by omega, by omega⟩
      (state.slots.outside _ member) ?_ ?_
    · intro m' wrote
      have next := state.step bound rfl (state.slots.blocks done bound) wrote
      refine Prog.wp_mono _ _ (ih next bound (by omega)) ?_ ?_
      · exact fun _ m'' post => ⟨post.1, fun quiet => post.2 (wrote.quiet quiet)⟩
      · exact fun _ m'' stop => ⟨stop.1, fun quiet => stop.2 (wrote.quiet quiet)⟩
    · intro e m' _ trace busy
      exact ⟨trace ▸ state.inv.history, busy⟩

theorem Installing.home (state : Installing start size base target c pend pend.length m)
    (outside : ¬ InLog start size x) : m.disk x = target c x := by
  rw [← state.replays x outside]
  by_cases member : x ∈ pend.map Prod.fst
  · obtain ⟨i, bound, same⟩ := List.mem_iff_getElem.mp member
    rw [List.length_map] at bound
    rw [List.getElem_map] at same
    subst same
    rw [lookup_of_getElem state.slots.nodup i bound, Option.getD_some]
    exact state.installed i bound bound
  · rw [lookup_eq_none member, Option.getD_none]

theorem installErase_wp (state : Installing start size base target c pend 0 m) :
    Bio.wp pid (do installTrans; setLh []; writeHead)
      (fun _ m' => Pending start size base target c [] m' ∧ (Quiescent m → Quiescent m'))
      (fun _ m' => History start size base target m'.trace ∧ ¬ Quiescent m) m := by
  have start_eq := state.inv.here
  refine Bio.wp_seq pid (R := fun _ m₁ => Installing start size base target c pend pend.length m₁ ∧
    (Quiescent m → Quiescent m₁)) ?_ ?_
  · apply Bio.bind_wp (getLog_wp _)
    rw [start_eq, state.lh]
    exact installFrom_wp state (Nat.zero_le _)
  rintro _ m₁ ⟨full, quiet₁⟩
  apply Bio.bind_wp (setLh_wp _)
  refine writeHead_wp (full.inv.coherent.withLog _) full.inv.here full.inv.room ?_ ?_
  · intro m' wrote
    have empty : LogHeader.n (m'.disk start) = 0 := by
      rw [wrote.disk, Function.update_self, LogHeader.n_encode _ _ (Nat.zero_le _), List.length_nil,
        Nat.cast_zero]
    have home : ∀ x, ¬ InLog start size x → m'.disk x = target c x := by
      intro x outside
      have apart : x ≠ start := fun same => outside (same ▸ inLog_start full.inv.room)
      rw [wrote.disk, Function.update_of_ne apart]
      exact full.home outside
    have count : commits start m'.trace = c := by
      have erased := LogHeader.n_encode (m₁.disk start) [] (Nat.zero_le _)
      rw [wrote.trace, commits_snoc]
      simp only [isCommit, erased, List.length_nil, Nat.cast_zero, Int.lt_irrefl, and_false,
        decide_false, Bool.false_eq_true, ↓reduceIte, Nat.add_zero]
      exact full.count
    have inv : Inv start size base target m' := by
      refine Inv.wrote full.inv wrote.disk wrote.trace (by rw [wrote.log]) (by rw [wrote.log])
        wrote.coherent ?_
      rw [count]
      exact recoverable_of_empty full.inv.room empty.le home
    exact ⟨⟨inv, count, Slots.nil _ inv.room, by rw [wrote.log]; rfl, nofun, Nat.zero_le _,
      empty, home⟩, fun quiet => wrote.quiet (quiet₁ quiet)⟩
  · intro e busy
    exact ⟨full.inv.history, fun quiet => busy (quiet₁ quiet)⟩

section Commit

variable (state : Pending start size base target c pend m)

include state

/-- The commit point: the header write that lists the pending blocks. -/
theorem Pending.commit (some_pending : pend ≠ [])
    (next : ∀ x, ¬ InLog start size x → (lookup pend x).getD (target c x) = target (c + 1) x)
    (wrote : Wrote start size start (LogHeader.encode (m.disk start) m.log.lh) m m') :
    Installing start size base target (c + 1) pend 0 m' := by
  have short : m.log.lh.length ≤ 127 := by
    rw [state.lh, List.length_map]
    exact state.short.trans (by decide)
  have count : commits start m'.trace = c + 1 := by
    have positive : 0 < m.log.lh.length := by
      rw [state.lh, List.length_map]
      exact List.length_pos_iff.mpr some_pending
    rw [wrote.trace, commits_snoc, state.count]
    simp only [isCommit, LogHeader.n_encode _ _ short, Int.natCast_pos, positive, and_self,
      decide_true, ↓reduceIte]
  have slots : Slots start size m'.disk pend := wrote.disk ▸ state.slots.update_header
  have header : LogHeader.sectors (m'.disk start) = pend.map Prod.fst := by
    rw [wrote.disk, Function.update_self, LogHeader.sectors_encode _ _ short, state.lh]
    rw [state.lh]
    exact state.words
  have replays : Replays start size m'.disk pend (target (c + 1)) := by
    intro x outside
    have apart : x ≠ start := fun same => outside (same ▸ inLog_start state.inv.room)
    rw [wrote.disk, Function.update_of_ne apart, state.home x outside]
    exact next x outside
  refine ⟨state.inv.wrote wrote.disk wrote.trace (by rw [wrote.log]) (by rw [wrote.log])
    wrote.coherent ?_, count, slots, by rw [wrote.log, state.lh], header, replays, nofun⟩
  rw [count]
  exact ⟨pend, slots, header, replays⟩

/-- Cache changes that keep coherence do not matter to the log. -/
theorem Pending.cache (disk : m'.disk = m.disk)
    (trace : m'.trace = m.trace) (here : m'.log.start = m.log.start)
    (extent : m'.log.size = m.log.size) (lh : m'.log.lh = m.log.lh)
    (coherent : Coherent start size m') : Pending start size base target c pend m' := by
  have inv := state.inv
  refine ⟨⟨here.trans inv.here, extent.trans inv.extent, inv.room, ?_, coherent, ?_⟩, ?_, ?_,
    lh.trans state.lh, state.words, state.short, ?_, ?_⟩
  · rw [disk, trace, inv.disk]
  · rw [trace]; exact inv.history
  · rw [trace]; exact state.count
  · rw [disk]; exact state.slots
  · rw [disk]; exact state.empty
  · rw [disk]; exact state.home

/-- `commit_trans`: one more committed transaction if anything was logged. -/
theorem commitTrans_wp
    (next : pend ≠ [] → ∀ x, ¬ InLog start size x → (lookup pend x).getD (target c x) = target
    (c + 1) x) : Bio.wp pid commitTrans
      (fun _ m' => Pending start size base target (if pend = [] then c else c + 1) [] m')
      (fun _ m' => History start size base target m'.trace) m := by
  apply Bio.bind_wp (getLog_wp _)
  refine Bio.wp_seq pid (R := fun _ m' =>
    Pending start size base target (if pend = [] then c else c + 1) [] m')
    (Prog.wp_when _ _ (fun logged => ?_) fun nothing => ?_) ?_
  · rw [state.lh, List.length_map] at logged
    have some_pending := List.length_pos_iff.mp logged
    rw [if_neg some_pending]
    refine Bio.wp_seq pid (R := fun _ m' => Installing start size base target (c + 1) pend 0 m')
      (writeHead_wp state.inv.coherent state.inv.here state.inv.room
        (fun m' wrote => state.commit some_pending (next some_pending) wrote)
        fun e _ => state.inv.history) ?_
    intro _ m₁ installing
    exact Prog.wp_mono _ _ (installErase_wp installing) (fun _ _ post => post.1)
      fun _ _ stop => stop.1
  · rw [state.lh, List.length_map] at nothing
    have none_pending : pend = [] := List.length_eq_zero_iff.mp (by omega)
    subst none_pending
    exact state
  · intro _ m' done
    exact fun _ => done.cache rfl rfl rfl rfl rfl (done.inv.coherent.withLog _)

/-- Logging one block: its log block is written and the entry recorded. -/
theorem Pending.logged
    (outside : ¬ InLog start size x) (word : x < 2 ^ 32) (small : pend.length < LOGSIZE)
    (fits : pend.length < size - 1)
    (disk : m'.disk = Function.update m.disk (start + (pend.map Prod.fst).idxOf x + 1) v)
    (trace : m'.trace = m.trace ++ [(start + (pend.map Prod.fst).idxOf x + 1, v)])
    (here : m'.log.start = m.log.start) (extent : m'.log.size = m.log.size)
    (lh : m'.log.lh = (absorb pend x v).map Prod.fst) (coherent : Coherent start size m') :
    Pending start size base target c (absorb pend x v) m' := by
  have range : (pend.map Prod.fst).idxOf x ≤ pend.length := by
    simpa only [List.length_map] using List.idxOf_le_length (l := pend.map Prod.fst) (a := x)
  have count : commits start m'.trace = c := by
    rw [trace, commits_snoc_of_ne _ _ (by omega), state.count]
  have empty : LogHeader.n (m'.disk start) = 0 := by
    rw [disk, Function.update_of_ne (by omega), state.empty]
  have home : ∀ y, ¬ InLog start size y → m'.disk y = target c y := by
    intro y away
    have apart : y ≠ start + (pend.map Prod.fst).idxOf x + 1 := fun same =>
      away (same ▸ ⟨by omega, by omega⟩)
    rw [disk, Function.update_of_ne apart, state.home y away]
  have length := length_absorb pend x v
  have keys : ∀ s ∈ (absorb pend x v).map Prod.fst, s ∈ pend.map Prod.fst ∨ s = x := by
    intro s member
    rw [keys_absorb] at member
    split at member
    · exact Or.inl member
    · simpa only [List.mem_append, List.mem_singleton] using member
  refine ⟨?_, count, ⟨nodup_absorb state.slots.nodup x v, ?_, ?_, ?_⟩, lh, ?_, ?_, empty, home⟩
  · refine state.inv.wrote disk trace here extent coherent ?_
    rw [count]
    exact recoverable_of_empty state.inv.room empty.le home
  · intro s member
    rcases keys s member with old | rfl
    · exact state.slots.outside s old
    · exact outside
  · split at length <;> omega
  · intro i bound
    rw [getElem_absorb, disk]
    by_cases here : i = (pend.map Prod.fst).idxOf x
    · subst here
      simp only [Function.update_self, ↓reduceIte]
    · have old : i < pend.length := by
        split at length <;> omega
      rw [Function.update_of_ne (by omega), state.slots.blocks i old]
      simp only [here, ↓reduceIte, List.getElem?_eq_getElem old, Option.getD_some]
  · intro s member
    rcases keys s member with old | rfl
    · exact state.words s old
    · exact word
  · split at length <;> omega

omit state in
theorem poke_coherent (v : Block) (coherent : Coherent start size m)
    (outside : ¬ InLog start size x) :
    Coherent start size { m with cache := Cache.update m.cache x (Buf.put v) } where
  ok := coherent.ok.update x (Buf.sector_put v) fun b member _ => coherent.ok.dirtyValid b member
  held := by
    intro c member busy
    rcases Cache.mem_update member with old | ⟨a, old, _, rfl⟩
    · exact coherent.held c old busy
    · exact coherent.held a old busy
  logged := by
    intro y c inside here valid
    have apart : y ≠ x := fun same => outside (same ▸ inside)
    change Cache.find (Cache.update m.cache x (Buf.put v)) y = some c at here
    rw [Cache.find_update_ne (Buf.sector_put v) m.cache apart] at here
    exact coherent.logged y c inside here valid

omit state in
theorem held_cases (m : Machine) (pid x : Nat) : BufOp.held m pid x = none ∨
      ∃ b, Cache.find m.cache x = some b ∧ b.holder = some pid := by
  unfold BufOp.held
  cases found : Cache.find m.cache x with
  | none => exact Or.inl rfl
  | some b =>
    by_cases mine : b.holder = some pid
    · exact Or.inr ⟨b, rfl, mine⟩
    · exact Or.inl (by simp only [mine, ↓reduceIte])

/-- An act that completes leaves its write, if it has one, absorbed. -/
theorem act_wp {act : Act}
    (outside : ¬ InLog start size act.sector) (word : act.sector < 2 ^ 32) : Bio.wp pid act.run
      (fun _ m' => Pending start size base target c (absorbAll pend act.write.toList) m')
      (fun _ m' => History start size base target m'.trace) m := by
  have inv := state.inv
  cases act with
  | bread x =>
    refine bread_wp inv.coherent.ok (fun m' b read => ?_) fun _ _ => inv.history
    exact state.cache read.disk read.trace (by rw [read.log]) (by rw [read.log])
      (by rw [read.log]) (read.coherent inv.coherent)
  | brelse x =>
    rcases held_cases m pid x with free | ⟨b, found, mine⟩
    · intro _
      simp only [BufOp.exec, free]
      exact inv.history
    · exact brelse_wp found mine
        (state.cache rfl rfl rfl rfl rfl (brelse_coherent inv.coherent found))
  | logWrite x v =>
    rcases held_cases m pid x with free | ⟨b, found, mine⟩
    · intro _
      simp only [BufOp.exec, free]
      exact inv.history
    apply Bio.bind_wp (poke_wp found mine _)
    have found₁ : Cache.find (Cache.update m.cache x (Buf.put v)) x = some (b.put v) := by
      rw [Cache.find_update_same (Buf.sector_put v), found, Option.map_some]
    refine logWrite_wp (poke_coherent v inv.coherent outside) inv.here inv.extent outside
      found₁ mine ?_ ?_
    · intro m' lh entries small fits _ disk trace log coherent
      dsimp only at entries small fits disk trace log
      rw [state.lh] at entries small fits disk trace
      rw [List.length_map] at small fits
      refine state.logged outside word small fits disk trace (by rw [log]) (by rw [log]) ?_ coherent
      rw [log, keys_absorb, entries]
      by_cases known : x ∈ pend.map Prod.fst
      · have bound := List.idxOf_lt_length_iff.mpr known
        rw [if_neg (by omega), if_pos known]
      · rw [if_pos (List.idxOf_eq_length known), if_neg known]
    · intro e m' _ trace
      exact trace ▸ inv.history

theorem runActs_wp {tx : List Act} (outside : ∀ act ∈ tx, ¬ InLog start size act.sector)
    (words : ∀ act ∈ tx, act.sector < 2 ^ 32) : Bio.wp pid (runActs tx)
      (fun _ m' => Pending start size base target c (absorbAll pend (writesOf tx)) m')
      (fun _ m' => History start size base target m'.trace) m := by
  induction tx generalizing pend m with
  | nil => exact state
  | cons act rest ih =>
    have split : absorbAll pend (writesOf (act :: rest)) =
        absorbAll (absorbAll pend act.write.toList) (writesOf rest) := by
      cases act <;> rfl
    rw [split]
    refine Bio.wp_seq pid (act_wp state (outside act List.mem_cons_self)
      (words act List.mem_cons_self)) fun _ m' next => ?_
    exact ih next (fun a member => outside a (List.mem_cons_of_mem _ member))
      fun a member => words a (List.mem_cons_of_mem _ member)

end Commit

/-- A whole transaction advances the committed state by its writes, if it has any. -/
theorem runTx_wp {tx : List Act} (state : Pending start size base target c [] m)
    (outside : ∀ act ∈ tx, ¬ InLog start size act.sector) (words : ∀ act ∈ tx, act.sector < 2 ^ 32)
    (next : writesOf tx ≠ [] → target (c + 1) = Writes.apply (target c) (writesOf tx)) :
    Bio.wp pid (runTx tx)
      (fun _ m' => Pending start size base target (if writesOf tx = [] then c else c + 1) [] m')
      (fun _ m' => History start size base target m'.trace) m := by
  refine Bio.wp_seq pid (R := fun _ m₁ => Pending start size base target c [] m₁) ?_ ?_
  · intro _
    simp only [BufOp.exec]
    split
    · exact state.cache rfl rfl rfl rfl rfl (state.inv.coherent.withLog _)
    · exact state.inv.history
  intro _ m₁ begun
  refine Bio.wp_seq pid (runActs_wp begun outside words) fun _ m₂ acted => ?_
  have nothing : absorbAll [] (writesOf tx) = [] ↔ writesOf tx = [] := by
    simp only [absorbAll_eq_nil, true_and]
  simp only [← nothing]
  refine commitTrans_wp acted fun wrote x _ => ?_
  rw [next (mt nothing.mpr wrote), apply_eq_lookup]

theorem effective_cons (tx : List Act) (txs : List (List Act)) : effective (tx :: txs) =
      if writesOf tx = [] then effective txs else writesOf tx :: effective txs := by
  by_cases nothing : writesOf tx = [] <;> simp [effective, nothing]

theorem contents_take_succ (d : Nat → Block) (front rest : List (List (Nat × Block)))
    (ws : List (Nat × Block)) : contents d ((front ++ ws :: rest).take (front.length + 1)) =
      Writes.apply (contents d ((front ++ ws :: rest).take front.length)) ws := by
  simp only [List.take_append, List.take_of_length_le (Nat.le_succ front.length),
    List.take_length, Nat.add_sub_cancel_left, Nat.sub_self, List.take_succ_cons, List.take_zero,
    List.append_nil, contents, List.foldl_append, List.foldl_cons, List.foldl_nil]

/-- The transactions of a session, from any point of the session on. -/
theorem runTxs_wp {txs : List (List Act)} (front : List (List (Nat × Block)))
    {all : List (List (Nat × Block))} (shape : all = front ++ effective txs)
    (state : Pending start size base (fun c => contents base (all.take c)) front.length [] m)
    (outside : ∀ tx ∈ txs, ∀ act ∈ tx, ¬ InLog start size act.sector)
    (words : ∀ tx ∈ txs, ∀ act ∈ tx, act.sector < 2 ^ 32) : Bio.wp pid (runTxs txs)
      (fun _ m' => History start size base (fun c => contents base (all.take c)) m'.trace)
      (fun _ m' => History start size base (fun c => contents base (all.take c)) m'.trace) m := by
  induction txs generalizing front m with
  | nil => exact state.inv.history
  | cons tx rest ih =>
    rw [effective_cons] at shape
    refine Bio.wp_seq pid (runTx_wp state (outside tx List.mem_cons_self)
      (words tx List.mem_cons_self) ?_) fun _ m' next => ?_
    · intro wrote
      rw [if_neg wrote] at shape
      rw [shape]
      exact contents_take_succ base front (effective rest) (writesOf tx)
    · have outside' := fun tx' member => outside tx' (List.mem_cons_of_mem tx member)
      have words' := fun tx' member => words tx' (List.mem_cons_of_mem tx member)
      by_cases nothing : writesOf tx = []
      · rw [if_pos nothing] at shape next
        exact ih front shape next outside' words'
      · rw [if_neg nothing] at shape next
        refine ih (front ++ [writesOf tx]) ?_ ?_ outside' words'
        · rw [shape, List.append_assoc, List.singleton_append]
        · rw [List.length_append, List.length_singleton]
          exact next

theorem boot_coherent (start size : Nat) (d : Nat → Block) :
    Coherent start size (boot start size d) where
  ok := Cache.binit_ok
  held := by
    intro b member busy
    rw [List.eq_of_mem_replicate member] at busy
    exact absurd rfl busy
  logged := by
    intro x b _ found _
    have assigned := Cache.find_sector found
    rw [List.eq_of_mem_replicate (Cache.find_mem found)] at assigned
    cases assigned

theorem boot_quiescent (start size : Nat) (d : Nat → Block) : Quiescent (boot start size d) := by
  intro b member
  rw [List.eq_of_mem_replicate member]
  exact ⟨rfl, rfl⟩

/-- Recovery from a recoverable disk completes, with an empty header and every
home location in the committed state. -/
theorem recover_wp (pid : Nat) (base : Nat → Block) (target : Nat → Nat → Block) (room : 0 < size)
    (recoverable : Recoverable start size base (target 0)) :
    Bio.wp pid recoverFromLog (fun _ m' => Pending start size base target 0 [] m')
      (fun _ _ => False) (boot start size base) := by
  have history : History start size base target [] := by
    intro k
    rw [List.take_nil]
    exact recoverable
  obtain ⟨pend, slots, header, replays⟩ := recoverable
  refine Bio.wp_seq pid (R := fun _ m₁ => Installing start size base target 0 pend 0 m₁ ∧
    Quiescent m₁) (readHead_wp (boot_coherent start size base) rfl room ?_
      fun _ busy => busy (boot_quiescent start size base)) ?_
  · intro m' disk trace log coherent quiet
    refine ⟨⟨⟨by rw [log]; rfl, by rw [log]; rfl, room, by rw [disk, trace]; rfl, coherent,
      trace ▸ history⟩, by rw [trace]; rfl, ?_, ?_, ?_, ?_, nofun⟩,
      quiet (boot_quiescent start size base)⟩
    · rw [disk]; exact slots
    · rw [log]; exact header
    · rw [disk]; exact header
    · rw [disk]; exact replays
  · rintro _ m₁ ⟨installing, quiet⟩
    exact Prog.wp_mono _ _ (installErase_wp installing) (fun _ _ post => post.1)
      fun _ _ stop => stop.2 quiet

end Steps

theorem run_ok {pid : Nat} {p : BufProg Unit} {Q : Unit → Machine → Prop} {m : Machine}
    (holds : Bio.wp pid p Q (fun _ _ => False) m) :
    ∃ m', Prog.run (BufOp.exec pid) p m = .ok () m' ∧ Q () m' := by
  have post := Prog.wp_satisfies _ holds
  cases result : Prog.run (BufOp.exec pid) p m with
  | ok value m' =>
    rw [result] at post
    exact ⟨m', rfl, post⟩
  | halt e m' =>
    rw [result] at post
    exact post.elim

/-- Wherever a session is cut, its disk is recoverable to the transactions
whose header write is among the writes that remain. -/
theorem session_history (pid : Nat) {start size : Nat} {base : Nat → Block} {txs : List (List Act)}
    (room : 0 < size) (empty : LogHeader.n (base start) ≤ 0)
    (outside : ∀ tx ∈ txs, ∀ act ∈ tx, ¬ InLog start size act.sector)
    (words : ∀ tx ∈ txs, ∀ act ∈ tx, act.sector < 2 ^ 32) :
    History start size base (fun c => contents base ((effective txs).take c))
      (Prog.run (BufOp.exec pid) (session txs) (boot start size base)).state.trace := by
  have post := Prog.wp_satisfies _ (Bio.wp_seq pid (p := recoverFromLog) (f := fun _ => runTxs txs)
    (Prog.wp_mono _ _ (recover_wp pid base _ room (recoverable_of_empty room empty
      fun x _ => rfl)) (fun _ _ post => post) fun _ _ stop => stop.elim)
    fun _ m' state => runTxs_wp [] rfl state outside words)
  change Outcome.Satisfies (Prog.run (BufOp.exec pid) (session txs) (boot start size base)) _ _ at post
  cases result : Prog.run (BufOp.exec pid) (session txs) (boot start size base) with
  | ok value m' | halt e m' =>
    rw [result] at post
    exact post

/-- A crashed recovery leaves a disk that is recoverable to the same contents. -/
theorem Recovering.recoverable {pid start size : Nat} {d e goal : Nat → Block} (room : 0 < size)
    (recoverable : Recoverable start size d goal) (crashed : Recovering pid start size d e) :
    Recoverable start size e goal := by
  induction crashed with
  | none => exact recoverable
  | @crash e k _ ih =>
    obtain ⟨m, result, state⟩ := run_ok (recover_wp pid e (fun _ => goal) room ih)
    have history := state.inv.history k
    rw [crashDisk, result]
    exact history

/-- Crash atomicity of the redo log. -/
theorem recovered_contents (pid start size : Nat) (base : Nat → Block) (txs : List (List Act))
    (room : 0 < size) (empty : LogHeader.n (base start) ≤ 0)
    (outside : ∀ tx ∈ txs, ∀ act ∈ tx, ¬ InLog start size act.sector)
    (words : ∀ tx ∈ txs, ∀ act ∈ tx, act.sector < 2 ^ 32) (k : Nat) (d : Nat → Block)
    (crashed : Recovering pid start size (crashDisk pid start size (session txs) base k) d) :
    ∃ m, Prog.run (BufOp.exec pid) recoverFromLog (boot start size d) = .ok () m ∧
      LogHeader.n (m.disk start) = 0 ∧
      ∀ x, ¬ InLog start size x → m.disk x = contents base ((effective txs).take
        (commits start ((Prog.run (BufOp.exec pid) (session txs)
          (boot start size base)).state.trace.take k))) x := by
  have before := session_history pid room empty outside words k
  have after := crashed.recoverable room before
  obtain ⟨m, result, state⟩ := run_ok (recover_wp pid d (fun _ => _) room after)
  exact ⟨m, result, state.empty, state.home⟩

/-- A crash right after the commit of a one-block transaction: recovery installs
the block. -/
theorem recovered_contents_after_commit :
    ∃ m, Prog.run (BufOp.exec 0) recoverFromLog (boot 10 4 (crashDisk 0 10 4
        (session [[.bread 5, .logWrite 5 (Bytes.zero.setNum 0 4 7), .brelse 5]])
        (fun _ => Bytes.zero) 3)) = .ok () m ∧
      LogHeader.n (m.disk 10) = 0 ∧ m.disk 5 = Bytes.zero.setNum 0 4 7 := by
  obtain ⟨m, result, empty, home⟩ := recovered_contents 0 10 4 (fun _ => Bytes.zero)
    [[.bread 5, .logWrite 5 (Bytes.zero.setNum 0 4 7), .brelse 5]] (by decide) (by decide)
    (by simp [InLog, Act.sector]) (by simp [Act.sector]) 3 _ .none
  refine ⟨m, result, empty, (home 5 (by simp [InLog])).trans ?_⟩
  have committed : commits 10 ((Prog.run (BufOp.exec 0)
      (session [[.bread 5, .logWrite 5 (Bytes.zero.setNum 0 4 7), .brelse 5]])
      (boot 10 4 fun _ => Bytes.zero)).state.trace.take 3) = 1 := by
    decide
  rw [committed]
  rfl

end SirpairOs.Log
