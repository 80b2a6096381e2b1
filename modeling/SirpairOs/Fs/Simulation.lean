import SirpairOs.Lib.Interleave
import SirpairOs.Fs.Whole
import SirpairOs.Fs.LogSpec

/-! `Whole.exec` follows `KOp.exec`: while `bget` finds a buffer and no sector that
is used lies in the log area, the file system code over `bio.c` and `log.c` does
what it does over blocks that are simply there. The cache is seen sector by sector,
so that it does not matter which sectors have a buffer. -/
namespace SirpairOs

structure Cell where
  data : Block
  holder : Option Nat
  dirty : Bool

/-- The machine as the users of the cache see it. -/
structure View where
  cell : Nat → Cell
  disk : Nat → Block
  log : Log

namespace View

def set (v : View) (x : Nat) (c : Cell) : View := { v with cell := Function.update v.cell x c }

/-- Read, overwritten, written out and released. -/
def stored (v : View) (x : Nat) (d : Block) : View :=
  { v with cell := Function.update v.cell x ⟨d, none, false⟩, disk := Function.update v.disk x d }

/-- After `log_write`: the log block of the sector has its data, and its buffer is pinned. -/
def logged (v : View) (pid s : Nat) (data : Block) : View :=
  { (v.stored (v.log.start + v.log.lh.idxOf s + 1) data).set s ⟨data, some pid, true⟩ with
    log := { v.log with lh := KOp.absorb v.log.lh s } }

/-- The sectors `rest` have been installed. -/
def installed : List Nat → View → View
  | [], v => v
  | s :: rest, v => (v.stored s (v.cell s).data).installed rest

variable (v : View) (x : Nat) (c : Cell)

@[simp] theorem set_cell : (v.set x c).cell x = c := Function.update_self ..

theorem set_cell_of_ne {y : Nat} (apart : y ≠ x) : (v.set x c).cell y = v.cell y :=
  Function.update_of_ne apart ..

theorem getElem?_absorb {lh : List Nat} {i s t : Nat} (nodup : lh.Nodup)
    (entry : (KOp.absorb lh s)[i]? = some t) :
    i = lh.idxOf s ∧ t = s ∨ i ≠ lh.idxOf s ∧ t ≠ s ∧ lh[i]? = some t := by
  have split (old : lh[i]? = some t) : i = lh.idxOf s ∧ t = s ∨ i ≠ lh.idxOf s ∧ t ≠ s ∧
      lh[i]? = some t := by
    obtain ⟨bound, rfl⟩ := List.getElem?_eq_some_iff.mp old
    by_cases same : lh[i] = s
    · left
      rw [← same, nodup.idxOf_getElem]
      exact ⟨rfl, rfl⟩
    · right
      refine ⟨?_, same, old⟩
      rintro rfl
      exact same (List.getElem_idxOf bound)
  unfold KOp.absorb at entry
  split at entry
  · exact split entry
  · rename_i absent
    rcases Nat.lt_or_ge i lh.length with below | above
    · rw [List.getElem?_append_left below] at entry
      exact split entry
    · rw [List.getElem?_append_right above] at entry
      obtain ⟨last, rfl⟩ := List.getElem?_eq_some_iff.mp entry
      rw [List.length_singleton] at last
      left
      rw [List.getElem_singleton, List.idxOf_eq_length absent]
      exact ⟨by omega, rfl⟩

theorem stored_of_ne {y : Nat} (d : Block) (apart : y ≠ x) :
    (v.stored x d).cell y = v.cell y ∧ (v.stored x d).disk y = v.disk y :=
  ⟨Function.update_of_ne apart .., Function.update_of_ne apart ..⟩

@[simp] theorem set_disk : (v.set x c).disk = v.disk := rfl

@[simp] theorem set_log : (v.set x c).log = v.log := rfl

@[simp] theorem set_set (c' : Cell) : (v.set x c).set x c' = v.set x c' := by
  simp only [set, Function.update_idem]

end View

namespace Machine

def cell (m : Machine) (x : Nat) : Cell :=
  match Cache.find m.cache x with
  | some b => ⟨if b.valid then b.data else m.disk x, b.holder, b.dirty⟩
  | none => ⟨m.disk x, none, false⟩

def view (m : Machine) : View := ⟨m.cell, m.disk, m.log⟩

/-- A held buffer has been read, and one that may be recycled can be read again. -/
structure Sane (m : Machine) : Prop where
  ok : Cache.Ok m.cache
  held : ∀ x b, Cache.find m.cache x = some b → b.holder ≠ none → b.valid = true
  idle : ∀ x b, Cache.find m.cache x = some b → Cache.Idle b → b.valid = true → b.data = m.disk x

def Spare (m : Machine) : Prop := ∃ b ∈ m.cache, Cache.Idle b

instance (m : Machine) : Decidable m.Spare :=
  inferInstanceAs (Decidable (∃ b ∈ m.cache, Cache.Idle b))

variable {m m' : Machine} {x : Nat} {b : Buf}

theorem cell_found (found : Cache.find m.cache x = some b) :
    m.cell x = ⟨if b.valid then b.data else m.disk x, b.holder, b.dirty⟩ := by
  simp only [cell, found]

theorem cell_missing (missing : Cache.find m.cache x = none) : m.cell x = ⟨m.disk x, none, false⟩ := by
  simp only [cell, missing]

theorem exists_found {pid : Nat} (held : (m.cell x).holder = some pid) :
    ∃ b, Cache.find m.cache x = some b ∧ b.holder = some pid := by
  cases found : Cache.find m.cache x with
  | none =>
    rw [cell_missing found] at held
    cases held
  | some b =>
    rw [cell_found found] at held
    exact ⟨b, rfl, held⟩

theorem held_eq_none {pid : Nat} (other : (m.cell x).holder ≠ some pid) :
    BufOp.held m pid x = none := by
  unfold BufOp.held
  cases found : Cache.find m.cache x with
  | none => rfl
  | some b =>
    rw [cell_found found] at other
    exact if_neg other

theorem cached_of_dirty (dirty : (m.cell x).dirty = true) : Cache.find m.cache x ≠ none := by
  intro missing
  rw [cell_missing missing] at dirty
  cases dirty

/-- An idle buffer that is gone leaves the sector as it was seen. -/
theorem cell_eq {y : Nat} (sane : m.Sane) (disk : m'.disk y = m.disk y)
    (others : Cache.find m'.cache y = Cache.find m.cache y ∨
      Cache.find m'.cache y = none ∧ ∃ b, Cache.find m.cache y = some b ∧ Cache.Idle b) :
    m'.cell y = m.cell y := by
  rcases others with same | ⟨gone, c, found, idle⟩
  · simp only [cell, same, disk]
  · rw [cell_missing gone, cell_found found, idle.1, idle.2, disk]
    split
    · rename_i valid
      rw [sane.idle y c found idle valid]
    · rfl

/-- What a change of the buffer of `x` alone leaves to show. -/
theorem Sane.change (sane : m.Sane) (ok : Cache.Ok m'.cache)
    (found : Cache.find m'.cache x = some b) (valid : b.valid = true)
    (disk : ∀ y, y ≠ x → m'.disk y = m.disk y) (idle : Cache.Idle b → b.data = m'.disk x)
    (others : ∀ y, y ≠ x → Cache.find m'.cache y = Cache.find m.cache y ∨
      Cache.find m'.cache y = none ∧ ∃ b, Cache.find m.cache y = some b ∧ Cache.Idle b) :
    m'.Sane ∧ m'.cell = Function.update m.cell x ⟨b.data, b.holder, b.dirty⟩ := by
  have back (y : Nat) (c : Buf) (apart : y ≠ x) (cached : Cache.find m'.cache y = some c) :
      Cache.find m.cache y = some c := by
    rcases others y apart with same | ⟨gone, _⟩
    · rwa [← same]
    · rw [gone] at cached
      cases cached
  refine ⟨⟨ok, fun y c cached busy => ?_, fun y c cached quiet known => ?_⟩, funext fun y => ?_⟩
  · by_cases same : y = x
    · subst same
      rw [found] at cached
      cases cached
      exact valid
    · exact sane.held y c (back y c same cached) busy
  · by_cases same : y = x
    · subst same
      rw [found] at cached
      cases cached
      exact idle quiet
    · rw [disk y same]
      exact sane.idle y c (back y c same cached) quiet known
  · by_cases same : y = x
    · subst same
      rw [Function.update_self, cell_found found, if_pos valid]
    · rw [Function.update_of_ne same]
      exact cell_eq sane (disk y same) (others y same)

theorem Sane.differs {c : Buf} (sane : m.Sane) (found : Cache.find m.cache x = some b)
    (busy : b.holder ≠ none) (member : c ∈ m.cache) (quiet : Cache.Idle c) :
    c.sector ≠ some x := by
  intro assigned
  obtain rfl := sane.ok.unique found member assigned
  exact busy quiet.1

/-- A held buffer is overwritten, marked or written out. -/
theorem Sane.update (sane : m.Sane) (found : Cache.find m.cache x = some b) (busy : b.holder ≠ none)
    {f : Buf → Buf} (sector : ∀ b, (f b).sector = b.sector) (holder : ∀ b, (f b).holder = b.holder)
    (valid : b.valid = true → (f b).valid = true) (cache : m'.cache = Cache.update m.cache x f)
    (disk : ∀ y, y ≠ x → m'.disk y = m.disk y) :
    m'.Sane ∧ m'.cell = Function.update m.cell x ⟨(f b).data, b.holder, (f b).dirty⟩ ∧
      (m.Spare → m'.Spare) := by
  have read := valid (sane.held x b found busy)
  have here : Cache.find m'.cache x = some (f b) := by
    rw [cache, Cache.find_update_same sector, found, Option.map_some]
  have ok : Cache.Ok m'.cache := by
    rw [cache]
    apply sane.ok.update x sector
    intro c member assigned _
    obtain rfl := sane.ok.unique found member assigned
    exact read
  obtain ⟨sane', cells⟩ := sane.change ok here read disk
    (fun quiet => absurd (holder b ▸ quiet.1) busy) fun y apart => Or.inl (by
      rw [cache, Cache.find_update_ne sector m.cache apart])
  rw [holder b] at cells
  refine ⟨sane', cells, ?_⟩
  rintro ⟨c, member, quiet⟩
  have differs := sane.differs found busy member quiet
  rw [Spare, cache]
  exact ⟨c, List.mem_map.mpr ⟨c, member, if_neg differs⟩, quiet⟩

theorem Sane.release (sane : m.Sane) (found : Cache.find m.cache x = some b) (busy : b.holder ≠ none)
    (clean : b.dirty = true ∨ b.data = m.disk x) (cache : m'.cache = Cache.release m.cache x b)
    (disk : m'.disk = m.disk) :
    m'.Sane ∧ m'.cell = Function.update m.cell x ⟨b.data, none, b.dirty⟩ ∧
      (m.Spare ∨ b.dirty = false → m'.Spare) := by
  have assigned := Cache.find_sector found
  have here : Cache.find m'.cache x = some { b with holder := none } := by
    rw [cache, Cache.find_release_same _ _ _ assigned]
  obtain ⟨sane', cells⟩ := sane.change (by rw [cache]; exact sane.ok.release found) here
    (sane.held x b found busy) (fun y _ => by rw [disk])
    (fun quiet => by
      rw [disk]
      exact clean.resolve_left (by rw [show b.dirty = false from quiet.2]; exact Bool.false_ne_true))
    fun y apart => Or.inl (by rw [cache, Cache.find_release_ne _ _ assigned apart])
  refine ⟨sane', cells, ?_⟩
  rintro (⟨c, member, quiet⟩ | unmarked)
  · have differs := sane.differs found busy member quiet
    rw [Spare, cache]
    exact ⟨c, List.mem_cons_of_mem _ (List.mem_filter.mpr ⟨member, by simpa using differs⟩), quiet⟩
  · rw [Spare, cache]
    exact ⟨_, List.mem_cons_self, rfl, unmarked⟩

end Machine

/-- A machine that looks like `v`; where `spare` holds, a buffer may be recycled. -/
structure Shows (m : Machine) (v : View) (spare : Prop) : Prop where
  sane : m.Sane
  view : m.view = v
  spare : spare → m.Spare

namespace Shows

variable {m : Machine} {v : View} {spare : Prop} {x : Nat}

theorem cell (shows : Shows m v spare) (x : Nat) : m.cell x = v.cell x := by
  rw [← shows.view]
  rfl

theorem log (shows : Shows m v spare) : m.log = v.log := by
  rw [← shows.view]
  rfl

theorem held (shows : Shows m v spare) {pid : Nat} (mine : (v.cell x).holder = some pid) :
    ∃ b, Cache.find m.cache x = some b ∧ b.holder = some pid ∧ v.cell x = ⟨b.data, some pid, b.dirty⟩ := by
  rw [← shows.cell] at mine ⊢
  obtain ⟨b, found, holder⟩ := Machine.exists_found mine
  have valid := shows.sane.held x b found (by rw [holder]; exact Option.some_ne_none pid)
  refine ⟨b, found, holder, ?_⟩
  rw [Machine.cell_found found, if_pos valid, holder]

variable {m' : Machine} {b : Buf} {pid : Nat}

/-- The held buffer of `x` is changed by `f`. -/
theorem update (shows : Shows m v spare) (found : Cache.find m.cache x = some b)
    (mine : b.holder = some pid) {f : Buf → Buf} (sector : ∀ b, (f b).sector = b.sector)
    (holder : ∀ b, (f b).holder = b.holder) (valid : b.valid = true → (f b).valid = true)
    (cache : m'.cache = Cache.update m.cache x f) (disk : ∀ y, y ≠ x → m'.disk y = m.disk y)
    (log : m'.log = m.log) :
    Shows m' { v.set x ⟨(f b).data, some pid, (f b).dirty⟩ with disk := m'.disk } spare := by
  have busy : b.holder ≠ none := by
    rw [mine]
    exact Option.some_ne_none pid
  obtain ⟨sane, cells, kept⟩ := shows.sane.update found busy sector holder valid cache disk
  refine ⟨sane, ?_, fun holds => kept (shows.spare holds)⟩
  rw [← shows.view, Machine.view, cells, mine, log]
  rfl

theorem release (shows : Shows m v spare) (found : Cache.find m.cache x = some b)
    (mine : b.holder = some pid) (clean : b.dirty = true ∨ b.data = m.disk x)
    (cache : m'.cache = Cache.release m.cache x b) (disk : m'.disk = m.disk)
    (log : m'.log = m.log) :
    Shows m' (v.set x ⟨b.data, none, b.dirty⟩) (spare ∨ b.dirty = false) := by
  have busy : b.holder ≠ none := by
    rw [mine]
    exact Option.some_ne_none pid
  obtain ⟨sane, cells, kept⟩ := shows.sane.release found busy clean cache disk
  refine ⟨sane, ?_, fun holds => kept (holds.imp_left shows.spare)⟩
  rw [← shows.view, Machine.view, cells, disk, log]
  rfl

end Shows

namespace Bio

variable {pid x : Nat} {m : Machine} {v : View} {spare : Prop} {E : Halt → Machine → Prop}

theorem Read.cell {m' : Machine} {b : Buf} (sane : m.Sane) (read : Read pid x m m' b) :
    b.data = (m.cell x).data ∧ b.dirty = (m.cell x).dirty ∧ (m.cell x).holder = none := by
  cases cached : Cache.find m.cache x with
  | none =>
    rw [Machine.cell_missing cached]
    rcases read.source with ⟨b₀, found, _⟩ | ⟨data, clean⟩
    · rw [cached] at found
      cases found
    · exact ⟨data, clean, rfl⟩
  | some b₀ =>
    obtain ⟨free, same⟩ := read.kept b₀ cached
    rw [Machine.cell_found cached]
    split
    · rename_i valid
      exact ⟨(same valid).1, (same valid).2, free⟩
    · rename_i invalid
      have unmarked : b₀.dirty = false := by
        cases marked : b₀.dirty with
        | false => rfl
        | true => exact absurd (sane.ok.dirtyValid b₀ (Cache.find_mem cached) marked) invalid
      rcases read.source with ⟨b₁, found, valid, _⟩ | ⟨data, clean⟩
      · rw [cached] at found
        cases found
        exact absurd valid invalid
      · exact ⟨data, clean.trans unmarked.symm, free⟩

variable (shows : Shows m v spare)

include shows

theorem bread_shows (room : Cache.find m.cache x ≠ none ∨ m.Spare)
    (stuck : (v.cell x).holder ≠ none → E .asleep m) : wp pid (bread x) (fun _ m' =>
      (v.cell x).holder = none ∧ Shows m' (v.set x { v.cell x with holder := some pid }) False) E m := by
  apply bread_wp shows.sane.ok
  · intro m' b read
    obtain ⟨data, dirty, free⟩ := read.cell shows.sane
    have busy : b.holder ≠ none := by
      rw [read.held]
      exact Option.some_ne_none pid
    obtain ⟨sane, cells⟩ := shows.sane.change read.ok read.found read.valid
      (fun y _ => congrFun read.disk y) (fun quiet => absurd quiet.1 busy) read.others
    rw [data, dirty, read.held, shows.cell] at cells
    rw [shows.cell] at free
    refine ⟨free, sane, ?_, False.elim⟩
    rw [← shows.view, Machine.view, cells, read.disk, read.log]
    simp only [View.set, Machine.view, shows.cell]
  · intro e blocked
    rcases blocked with ⟨rfl, b, found, busy⟩ | ⟨_, missing, none_idle⟩
    · apply stuck
      rw [← shows.cell, Machine.cell_found found]
      exact busy
    · rcases room with cached | ⟨b, member, idle⟩
      · exact absurd missing cached
      · exact absurd idle (none_idle b member)

variable (mine : (v.cell x).holder = some pid)

include mine

theorem peek_shows :
    wp pid (peek x) (fun b m' => b.data = (v.cell x).data ∧ Shows m' v spare) E m := by
  obtain ⟨b, found, holder, cell⟩ := shows.held mine
  apply peek_wp found holder
  rw [cell]
  exact ⟨rfl, shows⟩

theorem poke_shows (data : Block) :
    wp pid (poke x data) (fun _ m' => Shows m' (v.set x { v.cell x with data := data }) spare) E m := by
  obtain ⟨b, found, holder, cell⟩ := shows.held mine
  apply poke_wp found holder
  obtain rfl := shows.view
  rw [cell]
  exact shows.update (f := Buf.put data) found holder (Buf.sector_put data) (fun _ => rfl) id rfl
    (fun _ _ => rfl) rfl

theorem setDirty_shows :
    wp pid (setDirty x) (fun _ m' => Shows m' (v.set x { v.cell x with dirty := true }) spare) E m := by
  obtain ⟨b, found, holder, cell⟩ := shows.held mine
  apply setDirty_wp found holder
  obtain rfl := shows.view
  rw [cell]
  exact shows.update (f := Buf.mark) found holder Buf.sector_mark (fun _ => rfl) id rfl
    (fun _ _ => rfl) rfl

theorem bwrite_shows :
    wp pid (bwrite x) (fun _ m' => Shows m' { v.set x { v.cell x with dirty := false } with
      disk := Function.update v.disk x (v.cell x).data } spare) E m := by
  obtain ⟨b, found, holder, cell⟩ := shows.held mine
  apply bwrite_wp found holder
  obtain rfl := shows.view
  rw [cell]
  exact shows.update (f := Buf.written) found holder Buf.sector_written (fun _ => rfl)
    (fun _ => rfl) rfl (fun y apart => Function.update_of_ne apart _ _) rfl

theorem brelse_shows (clean : (v.cell x).dirty = true ∨ (v.cell x).data = v.disk x) :
    wp pid (brelse x) (fun _ m' => Shows m' (v.set x { v.cell x with holder := none })
      (spare ∨ (v.cell x).dirty = false)) E m := by
  obtain ⟨b, found, holder, cell⟩ := shows.held mine
  apply brelse_wp found holder
  obtain rfl := shows.view
  rw [cell] at clean ⊢
  exact shows.release found holder clean rfl rfl rfl

end Bio

namespace Log

open Bio

variable {pid x : Nat} {m : Machine} {v : View} {spare : Prop} {E : Halt → Machine → Prop}

theorem getLog_shows (shows : Shows m v spare) :
    wp pid getLog (fun log m' => log = v.log ∧ Shows m' v spare) E m :=
  getLog_wp ⟨shows.log, shows⟩

/-- The rest of a write of `d` through a buffer that has been read. -/
theorem put_shows (shows : Shows m v spare) (mine : (v.cell x).holder = some pid) (d : Block) :
    wp pid (do poke x d; bwrite x; brelse x) (fun _ m' => Shows m' (v.stored x d) True) E m := by
  apply wp_seq pid (poke_shows shows mine d)
  intro _ m shows
  apply wp_seq pid (bwrite_shows shows (by rwa [View.set_cell]))
  intro _ m shows
  apply wp_post (brelse_shows shows (by simpa using mine) (by simp))
  intro _ m shows
  simp only [View.set, Function.update_idem, Function.update_self, or_true] at shows
  exact shows

theorem writeHead_shows (shows : Shows m v True) (free : (v.cell v.log.start).holder = none) :
    wp pid writeHead (fun _ m' => ∃ d, Shows m' (v.stored v.log.start d) True) E m := by
  apply wp_seq pid (getLog_shows shows)
  rintro _ m ⟨rfl, shows⟩
  apply wp_seq pid (bread_shows shows (Or.inr (shows.spare trivial)) fun busy => absurd free busy)
  rintro _ m ⟨-, shows⟩
  apply wp_seq pid (peek_shows shows (by rw [View.set_cell]))
  rintro b m ⟨-, shows⟩
  apply wp_post (put_shows shows (by rw [View.set_cell]) _)
  intro _ m shows
  simp only [View.stored, View.set, Function.update_idem] at shows
  exact ⟨_, shows⟩

/-- What `log_write` panics on. -/
abbrev Full (log : Log) : Prop := log.lh.length ≥ LOGSIZE ∨ log.lh.length ≥ log.size - 1

theorem logWrite_shows {s : Nat} {data : Block} (shows : Shows m v True)
    (mine : (v.cell s).holder = some pid)
    (block : ¬ v.log.Full → s ≠ v.log.start + v.log.lh.idxOf s + 1 ∧
      (v.cell (v.log.start + v.log.lh.idxOf s + 1)).holder = none)
    (full : v.log.Full → ∀ m, E (.panic .tooBig) m)
    (closed : ¬ v.log.Full → v.log.owner = none → ∀ m, E (.panic .outsideTrans) m) :
    wp pid (do poke s data; logWrite s) (fun _ m' =>
      ¬ v.log.Full ∧ v.log.owner ≠ none ∧ Shows m' (v.logged pid s data) True) E m := by
  apply wp_seq pid (poke_shows shows mine data)
  intro _ m shows
  generalize poked : v.set s { v.cell s with data := data } = u at shows
  have same : u.log = v.log := by rw [← poked]; rfl
  apply wp_seq pid (getLog_shows shows)
  rintro log m ⟨read, shows⟩
  obtain rfl := read.trans same
  refine bind_wp (Prog.wp_when _ _ (fun big _ => full big m) fun small => ?_)
  refine bind_wp (Prog.wp_when _ _ (fun nobody _ => closed small nobody m) fun owned => ?_)
  dsimp only
  obtain ⟨apart, free⟩ := block small
  generalize slot : v.log.start + v.log.lh.idxOf s + 1 = l at apart free
  have here : u.cell s = { v.cell s with data := data } := by rw [← poked, View.set_cell]
  have away : u.cell l = v.cell l := by rw [← poked, View.set_cell_of_ne _ _ _ apart.symm]
  apply wp_seq pid (bread_shows shows (Or.inr (shows.spare trivial))
    fun busy => absurd (by rw [away, free]) busy)
  rintro _ m ⟨-, shows⟩
  generalize locked : u.set l { u.cell l with holder := some pid } = w at shows
  have mine : (w.cell s).holder = some pid := by
    rw [← locked, View.set_cell_of_ne _ _ _ apart, here, mine]
  have read : (w.cell s).data = data := by rw [← locked, View.set_cell_of_ne _ _ _ apart, here]
  apply wp_seq pid (peek_shows shows mine)
  rintro b m ⟨same, shows⟩
  rw [read] at same
  subst same
  -- the log block is written and released
  have put := put_shows (E := E) shows (x := l) (by rw [← locked, View.set_cell]) b.data
  simp only [← Prog.bind_assoc] at put ⊢
  apply wp_seq pid (R := fun _ m' => Shows m' { w.stored l b.data with
    log := { v.log with lh := KOp.absorb v.log.lh s } } True)
  · apply wp_seq pid put
    intro _ m shows
    have log : m.log = v.log := by
      rw [shows.log, View.stored, ← locked, ← poked]
      rfl
    apply Prog.wp_when
    · intro fresh
      have absent : s ∉ v.log.lh := List.idxOf_eq_length_iff.mp fresh
      apply setLh_wp
      refine ⟨⟨shows.sane.ok, shows.sane.held, shows.sane.idle⟩, ?_, shows.spare⟩
      rw [← shows.view, KOp.absorb, if_neg absent, log]
      rfl
    · intro old
      have entry : s ∈ v.log.lh := by
        by_contra absent
        exact old (List.idxOf_eq_length_iff.mpr absent)
      rw [KOp.absorb, if_pos entry, ← log, shows.log]
      exact shows
  intro _ m shows
  apply wp_post (setDirty_shows shows ?_)
  · intro _ m shows
    refine ⟨small, owned, ?_⟩
    have cells : Function.update (Function.update w.cell l ⟨b.data, none, false⟩) s
        ⟨b.data, some pid, true⟩ = Function.update (Function.update v.cell l ⟨b.data, none, false⟩) s
        ⟨b.data, some pid, true⟩ := by
      rw [← locked, ← poked]
      simp only [View.set, Function.update_idem]
      rw [Function.update_comm apart.symm, Function.update_comm apart.symm, Function.update_idem]
    have disk : w.disk = v.disk := by rw [← locked, ← poked]; rfl
    rw [View.logged, slot]
    simpa only [View.set, View.stored, Function.update_of_ne apart, read, mine, cells, disk]
      using shows
  · change (Function.update w.cell l _ s).holder = _
    rw [Function.update_of_ne apart, mine]

/-- One round of `install_trans`. -/
theorem install_shows {l s : Nat} (shows : Shows m v True) (apart : s ≠ l)
    (slot : (v.cell l).holder = none ∧ (v.cell l).dirty = false ∧ (v.cell l).data = v.disk l)
    (same : (v.cell l).data = (v.cell s).data) (pinned : (v.cell s).dirty = true)
    (stuck : (v.cell s).holder ≠ none → ∀ m, E .asleep m) :
    wp pid (do
      bread l
      bread s
      let lbuf ← peek l
      poke s lbuf.data
      bwrite s
      brelse l
      brelse s) (fun _ m' => (v.cell s).holder = none ∧
        Shows m' (v.stored s (v.cell s).data) True) E m := by
  apply wp_seq pid (bread_shows shows (Or.inr (shows.spare trivial)) fun busy => absurd slot.1 busy)
  rintro _ m ⟨-, shows⟩
  generalize first : v.set l { v.cell l with holder := some pid } = u at shows
  have away : u.cell s = v.cell s := by rw [← first, View.set_cell_of_ne _ _ _ apart]
  apply wp_seq pid (bread_shows shows (x := s)
    (Or.inl (Machine.cached_of_dirty (by rw [shows.cell, away, pinned])))
    fun busy => stuck (by rwa [away] at busy) m)
  rintro _ m ⟨free, shows⟩
  rw [away] at free shows
  generalize second : u.set s { v.cell s with holder := some pid } = w at shows
  have slotCell : w.cell l = { v.cell l with holder := some pid } := by
    rw [← second, View.set_cell_of_ne _ _ _ apart.symm, ← first, View.set_cell]
  have sectorCell : w.cell s = { v.cell s with holder := some pid } := by
    rw [← second, View.set_cell]
  have disk : w.disk = v.disk := by rw [← second, ← first]; rfl
  apply wp_seq pid (peek_shows shows (x := l) (by rw [slotCell]))
  rintro b m ⟨read, shows⟩
  rw [slotCell] at read
  rw [read.trans same]
  apply wp_seq pid (poke_shows shows (by rw [sectorCell]) _)
  intro _ m shows
  apply wp_seq pid (bwrite_shows shows (by rw [View.set_cell, sectorCell]))
  intro _ m shows
  simp only [View.set_cell, View.set_set, View.set_disk, View.set_log, sectorCell, disk] at shows
  have slotCell' : (w.set s ⟨(v.cell s).data, some pid, false⟩).cell l =
      { v.cell l with holder := some pid } := by
    rw [View.set_cell_of_ne _ _ _ apart.symm, slotCell]
  apply wp_seq pid (brelse_shows shows (x := l) (by rw [slotCell']) (by
    rw [slotCell']
    exact Or.inr (slot.2.2.trans (Function.update_of_ne apart.symm ..).symm)))
  intro _ m shows
  simp only [slotCell', slot.2.1, or_true] at shows
  apply wp_post (brelse_shows shows (x := s) ?_ ?_)
  · intro _ m shows
    have cells : Function.update (Function.update (Function.update w.cell s
        ⟨(v.cell s).data, some pid, false⟩) l ⟨(v.cell l).data, none, false⟩) s
        ⟨(v.cell s).data, none, false⟩ =
          Function.update v.cell s ⟨(v.cell s).data, none, false⟩ := by
      have whole : (⟨(v.cell l).data, none, false⟩ : Cell) = v.cell l := by
        rw [← slot.1, ← slot.2.1]
      rw [whole, ← second, ← first]
      simp only [View.set, Function.update_idem]
      rw [Function.update_comm apart, Function.update_idem, Function.update_idem,
        Function.update_eq_self]
    have log : w.log = v.log := by rw [← second, ← first]; rfl
    refine ⟨free, ?_⟩
    simpa only [View.set, View.stored, Function.update_of_ne apart, Function.update_self, cells, log,
      true_or] using shows
  · rw [View.set_cell_of_ne _ _ _ apart, View.set_cell]
  · rw [View.set_cell_of_ne _ _ _ apart, View.set_cell]
    exact Or.inr (Function.update_self s (v.cell s).data v.disk).symm

theorem installFrom_shows {rest : List Nat} {start tail : Nat} (shows : Shows m v True)
    (slots : ∀ i s, rest[i]? = some s → ((v.cell (start + (tail + i) + 1)).holder = none ∧
      (v.cell (start + (tail + i) + 1)).dirty = false ∧
      (v.cell (start + (tail + i) + 1)).data = v.disk (start + (tail + i) + 1)) ∧
      (v.cell (start + (tail + i) + 1)).data = (v.cell s).data)
    (apart : ∀ i < rest.length, start + (tail + i) + 1 ∉ rest) (nodup : rest.Nodup)
    (pinned : ∀ s ∈ rest, (v.cell s).dirty = true)
    (stuck : ∀ s ∈ rest, (v.cell s).holder ≠ none → ∀ m, E .asleep m) :
    wp pid (installFrom start tail rest) (fun _ m' => (∀ s ∈ rest, (v.cell s).holder = none) ∧
      Shows m' (v.installed rest) True) E m := by
  induction rest generalizing tail m v with
  | nil => exact ⟨nofun, shows⟩
  | cons s rest ih =>
    have outside : s ≠ start + tail + 1 := by
      intro same
      exact apart 0 (Nat.zero_lt_succ _) (same ▸ List.mem_cons_self)
    obtain ⟨slot, same⟩ := slots 0 s rfl
    have kept (y : Nat) (other : y ≠ s) := View.stored_of_ne v s (v.cell s).data other
    rw [installFrom]
    simp only [← Prog.bind_assoc]
    apply wp_seq pid (by
      simpa only [← Prog.bind_assoc] using install_shows shows outside slot same
        (pinned s List.mem_cons_self) (stuck s List.mem_cons_self))
    rintro _ m ⟨free, shows⟩
    have later (t : Nat) (member : t ∈ rest) : t ≠ s := by
      rintro rfl
      exact (List.nodup_cons.mp nodup).1 member
    have beyond (i : Nat) (bound : i < rest.length) : start + (tail + 1 + i) + 1 ∉ s :: rest := by
      have := apart (i + 1) (by simpa using bound)
      rwa [show tail + (i + 1) = tail + 1 + i by omega] at this
    apply wp_post (ih shows ?_ ?_ (List.nodup_cons.mp nodup).2 ?_ ?_)
    · intro _ m done
      refine ⟨fun t member => ?_, done.2⟩
      rcases List.mem_cons.mp member with rfl | member
      · exact free
      · rw [← (kept t (later t member)).1]
        exact done.1 t member
    · intro i t entry
      have bound := (List.getElem?_eq_some_iff.mp entry).1
      have other : start + (tail + 1 + i) + 1 ≠ s := fun same =>
        beyond i bound (same ▸ List.mem_cons_self)
      rw [(kept _ other).1, (kept _ other).2, (kept t (later t (List.mem_of_getElem? entry))).1]
      have := slots (i + 1) t entry
      rwa [show tail + (i + 1) = tail + 1 + i by omega] at this
    · exact fun i bound member => beyond i bound (List.mem_cons_of_mem s member)
    · intro t member
      rw [(kept t (later t member)).1]
      exact pinned t (List.mem_cons_of_mem s member)
    · intro t member
      rw [(kept t (later t member)).1]
      exact stuck t (List.mem_cons_of_mem s member)

end Log

namespace View

/-- Between the steps of the file system code: what is dirty is logged, the log blocks
have the data of their sectors, and nobody holds a block of the log area. -/
structure Steady (v : View) : Prop where
  clean : ∀ x, (v.cell x).dirty = false → (v.cell x).data = v.disk x
  pinned : ∀ x, (v.cell x).dirty = true ↔ x ∈ v.log.lh
  nodup : v.log.lh.Nodup
  outside : ∀ x ∈ v.log.lh, ¬ InLog v.log.start v.log.size x
  short : v.log.lh.length ≤ v.log.size - 1
  slots : ∀ i s, v.log.lh[i]? = some s → (v.cell (v.log.start + i + 1)).data = (v.cell s).data
  free : ∀ x, InLog v.log.start v.log.size x → (v.cell x).holder = none

namespace Steady

variable {v : View}

theorem slot (steady : v.Steady) {x : Nat} (inside : InLog v.log.start v.log.size x) :
    (v.cell x).holder = none ∧ (v.cell x).dirty = false ∧ (v.cell x).data = v.disk x := by
  have unmarked : (v.cell x).dirty = false := by
    cases marked : (v.cell x).dirty with
    | false => rfl
    | true => exact absurd inside (steady.outside x ((steady.pinned x).mp marked))
  exact ⟨steady.free x inside, unmarked, steady.clean x unmarked⟩

/-- A block of the log area other than the used log blocks may be written. -/
theorem stored (steady : v.Steady) {x : Nat} (inside : InLog v.log.start v.log.size x) (d : Block)
    (unused : ∀ i s, v.log.lh[i]? = some s → x = v.log.start + i + 1 → d = (v.cell s).data) :
    (v.stored x d).Steady := by
  have kept (y : Nat) (other : y ≠ x) := stored_of_ne v x d other
  have same : (v.stored x d).cell x = ⟨d, none, false⟩ := Function.update_self ..
  have away (s : Nat) (entry : s ∈ v.log.lh) : s ≠ x := by
    rintro rfl
    exact steady.outside s entry inside
  refine ⟨fun y unmarked => ?_, fun y => ?_, steady.nodup, steady.outside, steady.short,
    fun i s entry => ?_, fun y within => ?_⟩
  · by_cases equal : y = x
    · subst equal
      rw [same]
      exact (Function.update_self y d v.disk).symm
    · rw [(kept y equal).1] at unmarked ⊢
      rw [(kept y equal).2]
      exact steady.clean y unmarked
  · by_cases equal : y = x
    · subst equal
      rw [same]
      exact iff_of_false Bool.false_ne_true fun entry => away y entry rfl
    · rw [(kept y equal).1]
      exact steady.pinned y
  · change v.log.lh[i]? = some s at entry
    change ((v.stored x d).cell (v.log.start + i + 1)).data = _
    rw [(kept s (away s (List.mem_of_getElem? entry))).1]
    by_cases equal : v.log.start + i + 1 = x
    · rw [equal, same]
      exact unused i s entry equal.symm
    · rw [(kept _ equal).1]
      exact steady.slots i s entry
  · by_cases equal : y = x
    · rw [equal, same]
    · rw [(kept y equal).1]
      exact steady.free y within

/-- `log_write` of a held block outside the log area. -/
theorem logged (steady : v.Steady) {pid s : Nat} (apart : ¬ InLog v.log.start v.log.size s)
    (room : v.log.lh.length < v.log.size - 1) (data : Block) : (v.logged pid s data).Steady := by
  have position : v.log.lh.idxOf s ≤ v.log.lh.length := List.idxOf_le_length
  generalize slot : v.log.start + v.log.lh.idxOf s + 1 = l
  have inside : InLog v.log.start v.log.size l := ⟨by omega, by omega⟩
  have differs : l ≠ s := by
    rintro rfl
    exact apart inside
  have here : (v.logged pid s data).cell s = ⟨data, some pid, true⟩ := Function.update_self ..
  have there : (v.logged pid s data).cell l = ⟨data, none, false⟩ := by
    rw [View.logged, slot]
    exact (Function.update_of_ne differs ..).trans (Function.update_self ..)
  have others (y : Nat) (first : y ≠ s) (second : y ≠ l) :
      (v.logged pid s data).cell y = v.cell y ∧ (v.logged pid s data).disk y = v.disk y := by
    rw [View.logged, slot]
    exact ⟨(Function.update_of_ne first ..).trans (Function.update_of_ne second ..),
      Function.update_of_ne second ..⟩
  have entries (y : Nat) : y ∈ KOp.absorb v.log.lh s ↔ y ∈ v.log.lh ∨ y = s := by
    unfold KOp.absorb
    split
    · rename_i old
      exact ⟨Or.inl, fun either => either.elim id fun same => same ▸ old⟩
    · rw [List.mem_append, List.mem_singleton]
  have outside (y : Nat) (entry : y ∈ KOp.absorb v.log.lh s) :
      ¬ InLog v.log.start v.log.size y := by
    rcases (entries y).mp entry with old | rfl
    · exact steady.outside y old
    · exact apart
  refine ⟨fun y unmarked => ?_, fun y => ?_, ?_, outside, ?_, fun i t entry => ?_,
    fun y within => ?_⟩
  · by_cases first : y = s
    · rw [first, here] at unmarked
      cases unmarked
    by_cases second : y = l
    · rw [second, there, View.logged, slot]
      exact (Function.update_self l data v.disk).symm
    · rw [(others y first second).1] at unmarked ⊢
      rw [(others y first second).2]
      exact steady.clean y unmarked
  · change _ ↔ y ∈ KOp.absorb v.log.lh s
    by_cases first : y = s
    · rw [first, here]
      exact iff_of_true rfl ((entries s).mpr (Or.inr rfl))
    by_cases second : y = l
    · rw [second, there]
      exact iff_of_false Bool.false_ne_true fun entry => outside l entry inside
    · rw [(others y first second).1, steady.pinned y, entries y]
      exact ⟨Or.inl, fun either => either.resolve_right first⟩
  · change (KOp.absorb v.log.lh s).Nodup
    unfold KOp.absorb
    split
    · exact steady.nodup
    · rename_i absent
      exact List.nodup_append'.mpr ⟨steady.nodup, List.nodup_singleton s,
        List.disjoint_singleton.mpr absent⟩
  · change (KOp.absorb v.log.lh s).length ≤ v.log.size - 1
    unfold KOp.absorb
    split
    · exact steady.short
    · rw [List.length_append, List.length_singleton]
      exact room
  · change ((v.logged pid s data).cell (v.log.start + i + 1)).data = _
    rcases getElem?_absorb steady.nodup entry with ⟨rfl, rfl⟩ | ⟨other, away, old⟩
    · rw [slot, there, here]
    · have bound := (List.getElem?_eq_some_iff.mp old).1
      have block : v.log.start + i + 1 ≠ s := by
        rintro rfl
        exact apart ⟨by omega, by omega⟩
      have beside : t ≠ l := by
        rintro rfl
        exact steady.outside t (List.mem_of_getElem? old) inside
      rw [(others _ block (by omega)).1, (others t away beside).1]
      exact steady.slots i t old
  · have first : y ≠ s := by
      rintro rfl
      exact apart within
    by_cases second : y = l
    · rw [second, there]
    · rw [(others y first second).1]
      exact steady.free y within

end Steady

theorem installed_at (rest : List Nat) (v : View) (x : Nat) :
    (v.installed rest).cell x =
        (if x ∈ rest then ⟨(v.cell x).data, none, false⟩ else v.cell x) ∧
      (v.installed rest).disk x = if x ∈ rest then (v.cell x).data else v.disk x := by
  induction rest generalizing v with
  | nil => exact ⟨rfl, rfl⟩
  | cons s rest ih =>
    rw [installed, (ih _).1, (ih _).2]
    by_cases same : x = s
    · subst same
      have cell : (v.stored x (v.cell x).data).cell x = ⟨(v.cell x).data, none, false⟩ :=
        Function.update_self ..
      have disk : (v.stored x (v.cell x).data).disk x = (v.cell x).data := Function.update_self ..
      simp only [cell, disk, ite_self, List.mem_cons_self, if_true, and_self]
    · rw [(stored_of_ne v s _ same).1, (stored_of_ne v s _ same).2]
      simp only [List.mem_cons, same, false_or, and_self]

theorem installed_log (rest : List Nat) (v : View) : (v.installed rest).log = v.log := by
  induction rest generalizing v with
  | nil => rfl
  | cons s rest ih =>
    rw [installed, ih]
    rfl

theorem Steady.installed {v : View} (steady : v.Steady) : View.Steady
    { v.installed v.log.lh with log := { v.log with lh := [] } } where
  clean x unmarked := by
    change ((v.installed v.log.lh).cell x).dirty = false at unmarked
    change ((v.installed v.log.lh).cell x).data = (v.installed v.log.lh).disk x
    rw [(installed_at ..).1] at unmarked ⊢
    rw [(installed_at ..).2]
    split
    · rfl
    · rename_i other
      rw [if_neg other] at unmarked
      exact steady.clean x unmarked
  pinned x := by
    change ((v.installed v.log.lh).cell x).dirty = true ↔ _
    rw [(installed_at ..).1]
    split
    · exact iff_of_false Bool.false_ne_true List.not_mem_nil
    · rename_i other
      exact iff_of_false (fun marked => other ((steady.pinned x).mp marked)) List.not_mem_nil
  nodup := List.nodup_nil
  outside := nofun
  short := Nat.zero_le _
  slots := nofun
  free x inside := by
    change ((v.installed v.log.lh).cell x).holder = none
    rw [(installed_at ..).1]
    split
    · rfl
    · exact steady.free x inside

/-- A block of the log area is not shown to the file system. -/
def shown (v : View) (x : Nat) : Block :=
  if InLog v.log.start v.log.size x then Bytes.zero else (v.cell x).data

section Set

variable {v : View} {x : Nat} {c : Cell}

/-- Locking and unlocking. -/
theorem Steady.set (steady : v.Steady) (apart : ¬ InLog v.log.start v.log.size x)
    (data : c.data = (v.cell x).data) (dirty : c.dirty = (v.cell x).dirty) : (v.set x c).Steady := by
  have same (y : Nat) : ((v.set x c).cell y).data = (v.cell y).data ∧
      ((v.set x c).cell y).dirty = (v.cell y).dirty := by
    by_cases equal : y = x
    · rw [equal, set_cell]
      exact ⟨data, dirty⟩
    · rw [set_cell_of_ne _ _ _ equal]
      exact ⟨rfl, rfl⟩
  refine ⟨fun y unmarked => ?_, fun y => ?_, steady.nodup, steady.outside, steady.short,
    fun i s entry => ?_, fun y within => ?_⟩
  · rw [(same y).2] at unmarked
    rw [(same y).1]
    exact steady.clean y unmarked
  · rw [(same y).2]
    exact steady.pinned y
  · rw [(same _).1, (same _).1]
    exact steady.slots i s entry
  · rw [set_cell_of_ne]
    · exact steady.free y within
    · rintro rfl
      exact apart within

theorem shown_set (data : c.data = (v.cell x).data) : (v.set x c).shown = v.shown := by
  funext y
  unfold shown
  by_cases equal : y = x
  · rw [equal, set_cell, data]
    rfl
  · rw [set_cell_of_ne _ _ _ equal]
    rfl

theorem holder_set : (fun y => ((v.set x c).cell y).holder) =
    Function.update (fun y => (v.cell y).holder) x c.holder := by
  funext y
  by_cases equal : y = x
  · rw [equal, set_cell, Function.update_self]
  · rw [set_cell_of_ne _ _ _ equal, Function.update_of_ne equal]

theorem shown_stored (inside : InLog v.log.start v.log.size x) (d : Block) :
    (v.stored x d).shown = v.shown := by
  funext y
  unfold shown
  by_cases equal : y = x
  · rw [equal]
    exact (if_pos inside).trans (if_pos inside).symm
  · rw [(stored_of_ne v x d equal).1]
    rfl

theorem holder_stored (free : (v.cell x).holder = none) (d : Block) (y : Nat) :
    ((v.stored x d).cell y).holder = (v.cell y).holder := by
  have same : (v.stored x d).cell x = ⟨d, none, false⟩ := Function.update_self ..
  by_cases equal : y = x
  · rw [equal, same, free]
  · rw [(stored_of_ne v x d equal).1]

theorem shown_installed (rest lh : List Nat) :
    View.shown { v.installed rest with log := { v.log with lh := lh } } = v.shown := by
  funext y
  have same : ((v.installed rest).cell y).data = (v.cell y).data := by
    rw [(installed_at ..).1]
    split <;> rfl
  unfold shown
  rw [same]

theorem holder_installed {rest : List Nat} (unlocked : ∀ s ∈ rest, (v.cell s).holder = none)
    (y : Nat) : ((v.installed rest).cell y).holder = (v.cell y).holder := by
  rw [(installed_at ..).1]
  split
  · rename_i entry
    exact (unlocked y entry).symm
  · rfl

variable {pid s : Nat} {data : Block}

theorem shown_logged (apart : ¬ InLog v.log.start v.log.size s)
    (slot : InLog v.log.start v.log.size (v.log.start + v.log.lh.idxOf s + 1)) :
    (v.logged pid s data).shown = Function.update v.shown s data := by
  funext y
  change ite (InLog v.log.start v.log.size y) _
    (Function.update (Function.update v.cell _ _) s _ y).data = _
  by_cases first : y = s
  · subst first
    rw [if_neg apart, Function.update_self, Function.update_self]
  rw [Function.update_of_ne first, Function.update_of_ne first, shown]
  split
  · rfl
  · rename_i outside
    rw [Function.update_of_ne]
    rintro rfl
    exact outside slot

theorem holder_logged (mine : (v.cell s).holder = some pid)
    (free : (v.cell (v.log.start + v.log.lh.idxOf s + 1)).holder = none) :
    (fun y => ((v.logged pid s data).cell y).holder) = fun y => (v.cell y).holder := by
  funext y
  change (Function.update (Function.update v.cell _ _) s _ y).holder = _
  by_cases first : y = s
  · rw [first, Function.update_self, mine]
  rw [Function.update_of_ne first]
  by_cases second : y = v.log.start + v.log.lh.idxOf s + 1
  · rw [second, Function.update_self, free]
  · rw [Function.update_of_ne second]

end Set

end View

namespace Log

open Bio

variable {pid : Nat} {m : Machine} {v : View} {E : Halt → Machine → Prop}

theorem installTrans_shows (shows : Shows m v True) (steady : v.Steady)
    (stuck : ∀ s ∈ v.log.lh, (v.cell s).holder ≠ none → ∀ m, E .asleep m) :
    wp pid installTrans (fun _ m' => (∀ s ∈ v.log.lh, (v.cell s).holder = none) ∧
      Shows m' (v.installed v.log.lh) True) E m := by
  apply wp_seq pid (getLog_shows shows)
  rintro _ m ⟨rfl, shows⟩
  have short := steady.short
  apply installFrom_shows shows _ _ steady.nodup _ stuck
  · intro i s entry
    have bound := (List.getElem?_eq_some_iff.mp entry).1
    have within : InLog v.log.start v.log.size (v.log.start + i + 1) := ⟨by omega, by omega⟩
    rw [Nat.zero_add]
    exact ⟨steady.slot within, steady.slots i s entry⟩
  · intro i bound entry
    exact steady.outside _ entry ⟨by omega, by omega⟩
  · exact fun s entry => (steady.pinned s).mpr entry

/-- `commit_trans`, when nobody holds a block that it has to install. -/
theorem commitTrans_shows (shows : Shows m v (v.log.lh ≠ [])) (steady : v.Steady)
    (stuck : ∀ s ∈ v.log.lh, (v.cell s).holder ≠ none → ∀ m, E .asleep m) :
    wp pid commitTrans (fun _ m' => ∃ v', Shows m' v' False ∧ v'.Steady ∧ v'.shown = v.shown ∧
      (fun x => (v'.cell x).holder) = (fun x => (v.cell x).holder) ∧
      v'.log = { v.log with lh := [], owner := none }) E m := by
  apply wp_seq pid (getLog_shows shows)
  rintro _ m ⟨rfl, shows⟩
  apply wp_seq pid (R := fun _ m' => ∃ v', Shows m' v' False ∧ v'.Steady ∧ v'.shown = v.shown ∧
    (fun x => (v'.cell x).holder) = (fun x => (v.cell x).holder) ∧ v'.log = { v.log with lh := [] })
  · apply Prog.wp_when
    · intro some
      have nonempty : v.log.lh ≠ [] := List.length_pos_iff.mp some
      have short := steady.short
      have head : InLog v.log.start v.log.size v.log.start := ⟨Nat.le_refl _, by omega⟩
      apply wp_seq pid (writeHead_shows ⟨shows.sane, shows.view, fun _ => shows.spare nonempty⟩
        (steady.free _ head))
      rintro _ m ⟨d, shows⟩
      have unlocked := View.holder_stored (steady.free _ head) d
      have ready := steady.stored head d fun i s _ same => absurd same (by omega)
      apply wp_seq pid (installTrans_shows shows ready fun s entry busy => by
        rw [unlocked] at busy
        exact stuck s entry busy)
      rintro _ m ⟨free, shows⟩
      change Shows m ((v.stored v.log.start d).installed v.log.lh) True at shows
      apply wp_seq pid (R := fun _ m' => Shows m' { (v.stored v.log.start d).installed v.log.lh with
        log := { v.log with lh := [] } } True)
      · apply setLh_wp
        refine ⟨⟨shows.sane.ok, shows.sane.held, shows.sane.idle⟩, ?_, shows.spare⟩
        rw [Machine.view, shows.log, View.installed_log, ← shows.view]
        rfl
      intro _ m shows
      have cleared := View.Steady.installed ready
      apply wp_post (writeHead_shows shows (cleared.free _ head))
      rintro _ m ⟨d', shows⟩
      refine ⟨_, ⟨shows.sane, shows.view, False.elim⟩,
        cleared.stored head d' fun i s entry => absurd entry (by simp), ?_, funext fun x => ?_, rfl⟩
      · apply (View.shown_stored _ d').trans
        · exact (View.shown_installed _ _).trans (View.shown_stored head d)
        · exact head
      · apply (View.holder_stored (cleared.free _ head) d' x).trans
        exact (View.holder_installed free x).trans (unlocked x)
    · intro none
      have empty : v.log.lh = [] := List.length_eq_zero_iff.mp (by omega)
      refine ⟨v, ⟨shows.sane, shows.view, False.elim⟩, steady, rfl, rfl, ?_⟩
      rw [← empty]
  · rintro _ m ⟨v', shows, steady, same, holders, log⟩
    intro _
    refine ⟨{ v' with log := { v'.log with owner := none } },
      ⟨⟨shows.sane.ok, shows.sane.held, shows.sane.idle⟩, ?_, False.elim⟩,
      ⟨steady.clean, steady.pinned, steady.nodup, steady.outside, steady.short, steady.slots,
        steady.free⟩, same, holders, ?_⟩
    · rw [← shows.view]
      rfl
    · rw [log]

end Log

/-- Steps on the tables of inodes, files and processes do not look at blocks. -/
def KOp.OnTables : KOp → Prop
  | .bread _ | .logWrite _ _ | .brelse _ | .beginTrans | .commitTrans => False
  | _ => True

theorem KOp.exec_tables (pid : Nat) {o : KOp} (tables : o.OnTables) (k : Kernel)
    (disk : Nat → Block) (holder : Nat → Option Nat) :
    KOp.exec pid o ⟨disk, holder, k.log, k.icache, k.ftable, k.procs, k.devsw⟩ =
      (KOp.exec pid o k).mapState fun k' =>
        ⟨disk, holder, k.log, k'.icache, k'.ftable, k'.procs, k'.devsw⟩ := by
  cases o with
  | bread s | logWrite s data | brelse s | beginTrans | commitTrans => exact tables.elim
  | iget inum =>
    have cached : KOp.cached ⟨disk, holder, k.log, k.icache, k.ftable, k.procs, k.devsw⟩ inum =
      KOp.cached k inum := rfl
    have empty : KOp.emptySlot ⟨disk, holder, k.log, k.icache, k.ftable, k.procs, k.devsw⟩ =
      KOp.emptySlot k := rfl
    simp only [KOp.exec, cached, empty]
    cases KOp.cached k inum with
    | some ip => rfl
    | none => cases KOp.emptySlot k <;> rfl
  | getCwd =>
    simp only [KOp.exec]
    cases (k.procs pid).cwd <;> rfl
  | filealloc =>
    simp only [KOp.exec]
    cases (List.finRange NFILE).find? fun f => (k.ftable f).ref = 0 <;> rfl
  | fdalloc f =>
    simp only [KOp.exec]
    cases (List.finRange NOFILE).find? fun fd => (k.procs pid).ofile fd = none <;> rfl
  | _ =>
    simp only [KOp.exec]
    repeat' split
    all_goals rfl

namespace Whole

/-- The state as the file system code sees it: blocks that are simply there. -/
def kernel (w : Whole) : Kernel :=
  ⟨w.machine.view.shown, fun x => (w.machine.cell x).holder, w.machine.log, w.icache, w.ftable,
    w.procs, w.devsw⟩

structure Steady (w : Whole) : Prop where
  sane : w.machine.Sane
  steady : w.machine.view.Steady

/-- The step uses no sector of the log area, and where `bget` misses it finds a buffer. -/
def HasBuffer : KOp → Whole → Prop
  | .bread s, w => ¬ InLog w.machine.log.start w.machine.log.size s ∧
      (Cache.find w.machine.cache s ≠ none ∨ w.machine.Spare)
  | .logWrite s _, w => ¬ InLog w.machine.log.start w.machine.log.size s ∧ w.machine.Spare
  | .commitTrans, w => w.machine.log.lh ≠ [] → w.machine.Spare
  | _, _ => True

instance (o : KOp) (w : Whole) : Decidable (HasBuffer o w) :=
  match o with
  | .bread s => inferInstanceAs (Decidable (¬ InLog w.machine.log.start w.machine.log.size s ∧
      (Cache.find w.machine.cache s ≠ none ∨ w.machine.Spare)))
  | .logWrite s _ => inferInstanceAs (Decidable
      (¬ InLog w.machine.log.start w.machine.log.size s ∧ w.machine.Spare))
  | .commitTrans => inferInstanceAs (Decidable (w.machine.log.lh ≠ [] → w.machine.Spare))
  | .brelse _ | .beginTrans | .iget _ | .idup _ | .lockInode _ | .getInode _ | .setDin _ _
  | .setValid _ | .iunlock _ | .putRef _ | .dropRef _ | .getCwd | .setCwd _ | .filealloc
  | .getFile _ | .setFile _ _ | .dropFile _ | .filedup _ | .getFd _ | .setFd _ _ | .fdalloc _
  | .devsw _ | .panic _ => isTrue trivial

section Follows

variable {pid : Nat} {w : Whole}

theorem block_satisfies {α : Type} {p : BufProg α} {Q : α → Whole → Prop} {E : Halt → Whole → Prop}
    (holds : Bio.wp pid p (fun a m => Q a { w with machine := m }) (fun e m =>
      E e { w with machine := m }) w.machine) : (w.block pid p).Satisfies Q E := by
  have sound := Prog.wp_satisfies _ holds
  unfold block
  revert sound
  cases p.run (BufOp.exec pid) w.machine with
  | ok a m => exact id
  | halt e m => exact id

theorem kernel_of_shows {m : Machine} {v : View} {spare : Prop} (shows : Shows m v spare) :
    ({ w with machine := m } : Whole).kernel =
      ⟨v.shown, fun x => (v.cell x).holder, v.log, w.icache, w.ftable, w.procs, w.devsw⟩ := by
  rw [← shows.view]
  rfl

theorem kernel_of_set {m : Machine} {spare : Prop} {s : Nat} {c : Cell}
    (shows : Shows m (w.machine.view.set s c) spare) (data : c.data = (w.machine.cell s).data) :
    ({ w with machine := m } : Whole).kernel =
      { w.kernel with holder := Function.update w.kernel.holder s c.holder } := by
  rw [kernel_of_shows shows, View.shown_set data, View.holder_set]
  rfl

theorem Steady.of_shows {m : Machine} {v : View} {spare : Prop} (shows : Shows m v spare)
    (steady : v.Steady) : ({ w with machine := m } : Whole).Steady :=
  ⟨shows.sane, shows.view ▸ steady⟩

/-- How a step over `bio.c` and `log.c` follows the step over plain blocks. Only
`commit_trans` may wait where that step does not: for a block that it has to install. -/
def Follows (pid : Nat) (o : KOp) (w : Whole) : Prop :=
  (Whole.exec pid o w).Satisfies
    (fun r w' => KOp.exec pid o w.kernel = .ok r w'.kernel ∧ w'.Steady)
    fun e _ => (∃ k, KOp.exec pid o w.kernel = .halt e k) ∨ o = .commitTrans ∧ e = .asleep ∧
      ∃ s ∈ w.machine.log.lh, (w.machine.cell s).holder ≠ none

theorem bread_follows {s : Nat} (steady : w.Steady) (room : HasBuffer (.bread s) w) :
    Follows pid (.bread s) w := by
  have shows : Shows w.machine w.machine.view False := ⟨steady.sane, rfl, False.elim⟩
  apply block_satisfies
  apply Bio.wp_seq pid (Bio.bread_shows shows room.2 ?_)
  · rintro _ m ⟨free, shows⟩
    apply Bio.wp_seq pid (Bio.peek_shows shows (by rw [View.set_cell]))
    rintro b m ⟨data, shows⟩
    rw [View.set_cell] at data
    refine ⟨?_, Steady.of_shows shows (steady.steady.set room.1 rfl rfl)⟩
    have read : w.kernel.disk s = b.data := by
      rw [data]
      exact if_neg room.1
    have unlocked : w.kernel.holder s = none := free
    rw [KOp.exec, if_pos unlocked, kernel_of_set shows rfl]
    exact congrArg (fun d => Outcome.ok d _) read
  · intro busy
    left
    have locked : ¬ w.kernel.holder s = none := busy
    exact ⟨_, by rw [KOp.exec, if_neg locked]⟩

theorem brelse_follows {s : Nat} (steady : w.Steady) : Follows pid (.brelse s) w := by
  have shows : Shows w.machine w.machine.view False := ⟨steady.sane, rfl, False.elim⟩
  apply block_satisfies
  by_cases mine : (w.machine.cell s).holder = some pid
  · have apart : ¬ InLog w.machine.log.start w.machine.log.size s := by
      intro inside
      have free : (w.machine.cell s).holder = none := steady.steady.free s inside
      rw [mine] at free
      cases free
    have clean : (w.machine.cell s).dirty = true ∨ (w.machine.cell s).data = w.machine.disk s := by
      cases marked : (w.machine.cell s).dirty with
      | true => exact Or.inl rfl
      | false => exact Or.inr (steady.steady.clean s marked)
    apply Bio.wp_post (Bio.brelse_shows shows mine clean)
    intro _ m shows
    refine ⟨?_, Steady.of_shows shows (steady.steady.set apart rfl rfl)⟩
    have held : w.kernel.holder s = some pid := mine
    rw [KOp.exec, if_pos held, kernel_of_set shows rfl]
  · intro _
    have other : ¬ w.kernel.holder s = some pid := mine
    simp only [BufOp.exec, Machine.held_eq_none mine]
    exact Or.inl ⟨_, by rw [KOp.exec, if_neg other]⟩

theorem logWrite_follows {s : Nat} {data : Block} (steady : w.Steady)
    (room : HasBuffer (.logWrite s data) w) : Follows pid (.logWrite s data) w := by
  have shows : Shows w.machine w.machine.view True := ⟨steady.sane, rfl, fun _ => room.2⟩
  apply block_satisfies
  by_cases mine : w.kernel.holder s = some pid
  · have position : w.machine.log.lh.idxOf s ≤ w.machine.log.lh.length := List.idxOf_le_length
    have held : ¬ w.kernel.holder s ≠ some pid := not_not.mpr mine
    have within (small : ¬ w.machine.log.Full) : InLog w.machine.log.start w.machine.log.size
        (w.machine.log.start + w.machine.log.lh.idxOf s + 1) := by
      unfold Log.Full at small
      exact ⟨by omega, by omega⟩
    apply Bio.wp_post (Log.logWrite_shows (v := w.machine.view) shows mine
      (fun small => ⟨fun same => room.1 (same ▸ within small), steady.steady.free _ (within small)⟩)
      ?_ ?_)
    · rintro _ m ⟨small, owned, shows⟩
      have fits : ¬ w.kernel.log.Full := small
      have taken : ¬ w.kernel.log.owner = none := owned
      refine ⟨?_, Steady.of_shows shows (steady.steady.logged room.1
        (Nat.lt_of_not_le fun full => small (Or.inr full)) data)⟩
      rw [KOp.exec, if_neg held, if_neg fits, if_neg taken, kernel_of_shows shows,
        View.shown_logged room.1 (within small),
        View.holder_logged mine (steady.steady.free _ (within small))]
      rfl
    · intro full m
      have big : w.kernel.log.Full := full
      exact Or.inl ⟨_, by rw [KOp.exec, if_neg held, if_pos big]⟩
    · intro small nobody m
      have fits : ¬ w.kernel.log.Full := small
      have unowned : w.kernel.log.owner = none := nobody
      exact Or.inl ⟨_, by rw [KOp.exec, if_neg held, if_neg fits, if_pos unowned]⟩
  · apply Bio.wp_seq pid (R := fun _ _ => False)
    · intro _
      simp only [BufOp.exec, Machine.held_eq_none mine]
      exact Or.inl ⟨_, by rw [KOp.exec, if_pos mine]⟩
    · exact fun _ _ never => never.elim

theorem beginTrans_follows (steady : w.Steady) : Follows pid .beginTrans w := by
  apply block_satisfies
  intro _
  simp only [BufOp.exec]
  split
  · rename_i free
    have unowned : w.kernel.log.owner = none := free
    refine ⟨by rw [KOp.exec, if_pos unowned]; rfl, ?_, ?_⟩
    · exact ⟨steady.sane.ok, steady.sane.held, steady.sane.idle⟩
    · have kept := steady.steady
      exact ⟨kept.clean, kept.pinned, kept.nodup, kept.outside, kept.short, kept.slots, kept.free⟩
  · rename_i taken
    have owned : ¬ w.kernel.log.owner = none := taken
    exact Or.inl ⟨_, by rw [KOp.exec, if_neg owned]⟩

theorem commitTrans_follows (steady : w.Steady) (room : HasBuffer .commitTrans w) :
    Follows pid .commitTrans w := by
  have shows : Shows w.machine w.machine.view (w.machine.view.log.lh ≠ []) :=
    ⟨steady.sane, rfl, room⟩
  apply block_satisfies
  apply Bio.wp_post (Log.commitTrans_shows shows steady.steady ?_)
  · rintro _ m ⟨v, shows, after, shown, holders, log⟩
    refine ⟨?_, Steady.of_shows shows after⟩
    rw [KOp.exec, kernel_of_shows shows, shown, holders, log]
    rfl
  · exact fun s entry busy m => Or.inr ⟨rfl, rfl, s, entry, busy⟩

theorem exec_follows {o : KOp} (steady : w.Steady) (room : HasBuffer o w) : Follows pid o w := by
  have tables (plain : o.OnTables) (same : Whole.exec pid o w = (KOp.exec pid o w.tables).mapState
      fun k => ⟨w.machine, k.icache, k.ftable, k.procs, k.devsw⟩) : Follows pid o w := by
    have frame := KOp.exec_tables pid plain w.tables w.kernel.disk w.kernel.holder
    unfold Follows
    rw [same]
    change KOp.exec pid o w.kernel = _ at frame
    cases result : KOp.exec pid o w.tables with
    | ok r k =>
      rw [result] at frame
      exact ⟨frame, steady.sane, steady.steady⟩
    | halt e k =>
      rw [result] at frame
      exact Or.inl ⟨_, frame⟩
  cases o with
  | bread s => exact bread_follows steady room
  | logWrite s data => exact logWrite_follows steady room
  | brelse s => exact brelse_follows steady
  | beginTrans => exact beginTrans_follows steady
  | commitTrans => exact commitTrans_follows steady room
  | _ => exact tables trivial rfl

variable {α : Type} {p : KProg α}

/-- What is proved of a program over plain blocks holds over `bio.c` and `log.c`, as
long as it finds buffers. -/
theorem wp_follows {A : KOp → Kernel → Prop} {Q : α → Kernel → Prop} {E : Halt → Kernel → Prop}
    (only : p.Only (· ≠ .commitTrans)) (steady : w.Steady)
    (holds : Prog.wp (KOp.exec pid) A p Q E w.kernel) :
    Prog.wp (Whole.exec pid) (fun o w => A o w.kernel ∧ HasBuffer o w) p
      (fun a w' => Q a w'.kernel ∧ w'.Steady) (fun e _ => ∃ k, E e k) w := by
  induction p generalizing w with
  | ret value => exact ⟨holds, steady⟩
  | op o next ih =>
    rintro ⟨promised, room⟩
    have tail := holds promised
    apply (exec_follows steady room).mono
    · rintro r w' ⟨same, kept⟩
      rw [same] at tail
      exact ih r (only.2 r) kept tail
    · rintro e w' (⟨k, same⟩ | ⟨commit, _⟩)
      · rw [same] at tail
        exact ⟨k, tail⟩
      · exact absurd commit only.1

theorem run_follows (only : p.Only (· ≠ .commitTrans)) (steady : w.Steady)
    (along : p.Along (Whole.exec pid) HasBuffer w) : (p.run (Whole.exec pid) w).Satisfies
      (fun a w' => p.run (KOp.exec pid) w.kernel = .ok a w'.kernel ∧ w'.Steady)
      fun e _ => ∃ k, p.run (KOp.exec pid) w.kernel = .halt e k :=
  Prog.wp_sound _ _ (wp_follows only steady (Prog.wp_run _ p w.kernel))
    (along.mono fun _ _ has => ⟨trivial, has⟩)

end Follows

/-- A state in which nothing is cached. -/
def fresh (k : Kernel) : Whole :=
  ⟨⟨k.disk, [], binit, k.log⟩, k.icache, k.ftable, k.procs, k.devsw⟩

section Fresh

variable {k : Kernel}

theorem fresh_cell (x : Nat) : (fresh k).machine.cell x = ⟨k.disk x, none, false⟩ := by
  apply Machine.cell_missing
  apply Cache.find_eq_none.mpr
  intro b member
  rw [List.eq_of_mem_replicate member]
  exact nofun

theorem fresh_steady (empty : k.log.lh = []) : (fresh k).Steady := by
  have none (x : Nat) (b : Buf) (found : Cache.find binit x = some b) : False := by
    have sector := Cache.find_sector found
    rw [List.eq_of_mem_replicate (Cache.find_mem found)] at sector
    cases sector
  refine ⟨⟨Cache.binit_ok, fun x b found => (none x b found).elim,
    fun x b found => (none x b found).elim⟩, fun x _ => ?_, fun x => ?_, ?_, ?_, ?_, ?_, fun x _ => ?_⟩
  · exact congrArg Cell.data (fresh_cell x)
  · change ((fresh k).machine.cell x).dirty = true ↔ x ∈ k.log.lh
    rw [fresh_cell, empty]
    exact iff_of_false Bool.false_ne_true List.not_mem_nil
  · exact (congrArg List.Nodup empty).mpr List.nodup_nil
  · intro x entry
    exact absurd (empty ▸ entry) List.not_mem_nil
  · exact Nat.le_trans (Nat.le_of_eq (congrArg List.length empty)) (Nat.zero_le _)
  · intro i s entry
    have none : ([] : List Nat)[i]? = some s := empty ▸ entry
    cases none
  · exact congrArg Cell.holder (fresh_cell x)

theorem fresh_kernel (idle : ∀ s, k.holder s = none)
    (blank : ∀ x, InLog k.log.start k.log.size x → k.disk x = Bytes.zero) : (fresh k).kernel = k := by
  have disk : (fresh k).machine.view.shown = k.disk := by
    funext x
    unfold View.shown
    split
    · rename_i inside
      exact (blank x inside).symm
    · exact congrArg Cell.data (fresh_cell x)
  have holder : (fun x => ((fresh k).machine.cell x).holder) = k.holder := by
    funext x
    rw [fresh_cell, idle]
  unfold kernel
  rw [disk, holder]
  rfl

end Fresh

/-- The same processes over plain blocks. -/
def plain (c : Pool KOp KOp.Ret Whole) : Pool KOp KOp.Ret Kernel := ⟨c.state.kernel, c.procs⟩

section Pool

variable {A : Nat → KOp → Kernel → Prop} {c c' : Pool KOp KOp.Ret Whole}

theorem step_follows {i : Nat} (steady : c.state.Steady)
    (next : Pool.Next (fun i o w => A i o w.kernel ∧ HasBuffer o w) i c)
    (done : Pool.step Whole.exec Halt.waits i c = .ok () c') : c'.state.Steady ∧ (c' = c ∨
      Pool.Next A i (plain c) ∧ Pool.step KOp.exec Halt.waits i (plain c) = .ok () (plain c')) := by
  unfold Pool.Next at next ⊢
  unfold Pool.step at done ⊢
  simp only [plain] at next ⊢
  cases shape : c.procs i with
  | ret value =>
    simp only [shape] at done
    cases done
    exact ⟨steady, Or.inl rfl⟩
  | op o rest =>
    simp only [shape] at done next ⊢
    have follows : Follows i o c.state := exec_follows steady next.2
    unfold Follows at follows
    cases result : Whole.exec i o c.state with
    | ok r w' =>
      simp only [result] at done follows
      cases done
      simp only [follows.1]
      exact ⟨follows.2, Or.inr ⟨next.1, trivial⟩⟩
    | halt e w' =>
      simp only [result] at done
      split at done
      · cases done
        exact ⟨steady, Or.inl rfl⟩
      · cases done

/-- A run of processes over `bio.c` and `log.c` is one over plain blocks, in which a
process that waits takes no step. -/
theorem pool_follows {schedule : List Nat} (steady : c.state.Steady)
    (along : Pool.Along Whole.exec Halt.waits (fun i o w => A i o w.kernel ∧ HasBuffer o w)
      schedule c)
    (done : Pool.run Whole.exec Halt.waits schedule c = .ok () c') :
    ∃ schedule' : List Nat, schedule'.Sublist schedule ∧
      Pool.Along KOp.exec Halt.waits A schedule' (plain c) ∧
      Pool.run KOp.exec Halt.waits schedule' (plain c) = .ok () (plain c') ∧ c'.state.Steady := by
  induction schedule generalizing c with
  | nil =>
    cases done
    exact ⟨[], .slnil, trivial, rfl, steady⟩
  | cons i rest ih =>
    obtain ⟨_, c₁, first, later⟩ := Outcome.bind_eq_ok.mp done
    obtain ⟨next, tail⟩ := along
    rw [first] at tail
    obtain ⟨kept, moved⟩ := step_follows steady next first
    obtain ⟨schedule', sub, along', ran, last⟩ := ih kept tail later
    rcases moved with rfl | ⟨next', step⟩
    · exact ⟨schedule', sub.cons i, along', ran, last⟩
    · refine ⟨i :: schedule', sub.cons_cons i, ⟨next', ?_⟩, ?_, last⟩
      · rw [step]
        exact along'
      · rw [Pool.run, step]
        exact ran

end Pool

end Whole

end SirpairOs
