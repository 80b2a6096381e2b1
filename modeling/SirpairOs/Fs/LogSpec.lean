import SirpairOs.Fs.Log
import SirpairOs.Fs.BufferSpec

/-! What the pieces of `log.c` write: the header codec, and the net effect on
the disk of one header write, one log-block write and one installed block. -/
namespace SirpairOs

namespace LogHeader

theorem num_store_below (header : Block) (i : Nat) (lh : List Nat) (off len : Nat)
    (below : off + len ≤ 4 + 4 * i) : (store header i lh).num off len = header.num off len := by
  induction lh generalizing header i with
  | nil => rfl
  | cons s rest ih =>
    rw [store, ih _ _ (by omega), Bytes.num_setNum_disjoint _ _ _ _ _ _ (by omega)]

theorem sector_store (header : Block) (i : Nat) (lh : List Nat) (fits : i + lh.length ≤ 127)
    (k : Nat) (bound : k < lh.length) : sector (store header i lh) (i + k) = lh[k] % 2 ^ 32 := by
  induction lh generalizing header i k with
  | nil => cases bound
  | cons s rest ih =>
    rw [List.length_cons] at fits bound
    cases k with
    | zero =>
      rw [store, sector, num_store_below _ _ _ _ _ (by omega), Nat.add_zero,
        Bytes.num_setNum_same _ _ _ _ (by omega)]
      rfl
    | succ k =>
      have entry := ih (header.setNum (4 + 4 * i) 4 s) (i + 1) (by omega) k (by omega)
      rw [show i + (k + 1) = i + 1 + k by omega, store, entry, List.getElem_cons_succ]

/-- The header that `write_head` builds from an old header block. -/
def encode (old : Block) (lh : List Nat) : Block := store (old.setNum 0 4 lh.length) 0 lh

theorem n_encode (old : Block) (lh : List Nat) (fits : lh.length ≤ 127) :
    n (encode old lh) = lh.length := by
  have count : (encode old lh).num 0 4 = lh.length := by
    rw [encode, num_store_below _ _ _ _ _ (by omega), Bytes.num_setNum_same _ _ _ _ (by omega)]
    exact Nat.mod_eq_of_lt (by omega)
  simp only [n, count]
  rw [if_pos (by omega)]

theorem sectors_encode (old : Block) (lh : List Nat) (fits : lh.length ≤ 127)
    (small : ∀ s ∈ lh, s < 2 ^ 32) : sectors (encode old lh) = lh := by
  apply List.ext_getElem
  · simp only [sectors, List.length_map, List.length_range, n_encode old lh fits, Int.toNat_natCast]
  · intro i left right
    have entry := sector_store (old.setNum 0 4 lh.length) 0 lh (by omega) i right
    simp only [Nat.zero_add] at entry
    simp only [sectors, List.getElem_map, List.getElem_range]
    rw [encode, entry, Nat.mod_eq_of_lt (small _ (List.getElem_mem right))]

theorem sectors_of_n_nonpos {header : Block} (empty : n header ≤ 0) : sectors header = [] := by
  simp only [sectors, Int.toNat_of_nonpos empty, List.range_zero, List.map_nil]

end LogHeader

def InLog (start size x : Nat) : Prop := start ≤ x ∧ x < start + size

instance (start size x : Nat) : Decidable (InLog start size x) :=
  inferInstanceAs (Decidable (start ≤ x ∧ x < start + size))

/-- Valid cached copies of log-area sectors agree with the disk, and a buffer
that somebody holds has been read. -/
structure Coherent (start size : Nat) (m : Machine) : Prop where
  ok : Cache.Ok m.cache
  held : ∀ b ∈ m.cache, b.holder ≠ none → b.valid = true
  logged : ∀ x b, InLog start size x → Cache.find m.cache x = some b → b.valid = true →
    b.data = m.disk x

theorem Coherent.withLog {start size : Nat} {m : Machine} (coherent : Coherent start size m)
    (log : Log) : Coherent start size { m with log := log } :=
  ⟨coherent.ok, coherent.held, coherent.logged⟩

def Quiescent (m : Machine) : Prop := ∀ b ∈ m.cache, Cache.Idle b

/-- The net effect of a piece of code that writes one sector and releases the
buffers it took. -/
structure Wrote (start size x : Nat) (v : Block) (m m' : Machine) : Prop where
  disk : m'.disk = Function.update m.disk x v
  trace : m'.trace = m.trace ++ [(x, v)]
  log : m'.log = m.log
  coherent : Coherent start size m'
  quiet : Quiescent m → Quiescent m'

namespace Bio

variable {pid start size : Nat}

variable {x y : Nat} {m m' : Machine} {b : Buf} {v : Block}

theorem Read.coherent (coherent : Coherent start size m) (read : Read pid x m m' b) :
    Coherent start size m' where
  ok := read.ok
  held := by
    intro c member busy
    rcases read.members c member with same | old
    · obtain rfl := read.ok.unique read.found member same
      exact read.valid
    · exact coherent.held c old busy
  logged := by
    intro y c inside found valid
    rw [read.disk]
    by_cases same : y = x
    · subst same
      rw [read.found] at found
      cases found
      rcases read.source with ⟨b₀, cached, known, data, _⟩ | ⟨data, _⟩
      · rw [data]
        exact coherent.logged y b₀ inside cached known
      · exact data
    · rcases read.others y same with kept | ⟨gone, _⟩
      · rw [kept] at found
        exact coherent.logged y c inside found valid
      · rw [gone] at found
        cases found

/-- A buffer of the log area has the disk's contents once it has been read. -/
theorem Read.data (coherent : Coherent start size m) (read : Read pid x m m' b)
    (inside : InLog start size x) : b.data = m.disk x := by
  have agree := (read.coherent coherent).logged x b inside read.found read.valid
  rwa [read.disk] at agree

/-- Locked buffers survive the reading of another sector. -/
theorem Read.keeps {c : Buf} (read : Read pid x m m' b) (apart : y ≠ x)
    (found : Cache.find m.cache y = some c) (busy : c.holder ≠ none) :
    Cache.find m'.cache y = some c := by
  rcases read.others y apart with kept | ⟨_, b₀, cached, idle⟩
  · rw [kept, found]
  · rw [found] at cached
    cases cached
    exact absurd idle.1 busy

theorem brelse_coherent (coherent : Coherent start size m) (found : Cache.find m.cache x = some b) :
    Coherent start size { m with cache := Cache.release m.cache x b } where
  ok := coherent.ok.release found
  held := by
    intro c member busy
    rcases Cache.mem_release member with rfl | ⟨old, _⟩
    · exact absurd rfl busy
    · exact coherent.held c old busy
  logged := by
    intro y c inside here valid
    by_cases same : y = x
    · subst same
      change Cache.find (Cache.release m.cache y b) y = some c at here
      rw [Cache.find_release_same _ _ _ (Cache.find_sector found)] at here
      cases here
      exact coherent.logged y b inside found valid
    · change Cache.find (Cache.release m.cache x b) y = some c at here
      rw [Cache.find_release_ne _ _ (Cache.find_sector found) same] at here
      exact coherent.logged y c inside here valid

/-- The machine after a held buffer has been overwritten and written out. -/
def stored (m : Machine) (x : Nat) (v : Block) : Machine :=
  { m with
    disk := Function.update m.disk x v
    trace := m.trace ++ [(x, v)]
    cache := Cache.update m.cache x fun b => (b.put v).written }

theorem sector_put_written (v : Block) (b : Buf) : (b.put v).written.sector = b.sector := rfl

theorem store_wp {Q : Unit → Machine → Prop} {E : Halt → Machine → Prop}
    (found : Cache.find m.cache x = some b) (mine : b.holder = some pid)
    (next : Q () (stored m x v)) : wp pid (do poke x v; bwrite x) Q E m := by
  apply bind_wp (poke_wp found mine _)
  have here : Cache.find (Cache.update m.cache x (Buf.put v)) x = some (b.put v) := by
    rw [Cache.find_update_same (Buf.sector_put v), found, Option.map_some]
  refine bwrite_wp here mine ?_
  rw [Cache.update_update _ _ _ (Buf.sector_put v)]
  exact next

theorem find_stored_same (found : Cache.find m.cache x = some b) :
    Cache.find (stored m x v).cache x = some (b.put v).written := by
  rw [stored, Cache.find_update_same (sector_put_written v), found, Option.map_some]

theorem find_stored_ne (m : Machine) (v : Block) (apart : y ≠ x) :
    Cache.find (stored m x v).cache y = Cache.find m.cache y :=
  Cache.find_update_ne (sector_put_written v) m.cache apart

theorem stored_coherent (coherent : Coherent start size m) (found : Cache.find m.cache x = some b) :
    Coherent start size (stored m x v) where
  ok := coherent.ok.update x (sector_put_written v) fun _ _ _ dirty => by cases dirty
  held := by
    intro c member busy
    rcases Cache.mem_update member with old | ⟨a, _, _, rfl⟩
    · exact coherent.held c old busy
    · rfl
  logged := by
    intro y c inside here valid
    by_cases same : y = x
    · subst same
      rw [find_stored_same found] at here
      cases here
      exact (Function.update_self y v m.disk).symm
    · rw [find_stored_ne m v same] at here
      change c.data = Function.update m.disk x v y
      rw [Function.update_of_ne same]
      exact coherent.logged y c inside here valid

/-- Apart from the buffer that was read and stored, every buffer is an old one. -/
theorem Read.old_of_stored {c : Buf} (read : Read pid x m m' b) (member : c ∈ (stored m' x v).cache)
    (differs : c.sector ≠ some x) : c ∈ m.cache := by
  rcases Cache.mem_update member with member | ⟨a, _, same, rfl⟩
  · rcases read.members c member with same | old
    · exact absurd same differs
    · exact old
  · exact absurd same differs

/-- On a quiescent machine a first `bread` finds a buffer. -/
theorem Quiescent.not_blocked (ok : Cache.Ok m.cache) (quiet : Quiescent m) {e : Halt} :
    ¬ Blocked x m e := by
  rintro (⟨_, b, found, busy⟩ | ⟨_, _, none_idle⟩)
  · exact busy (quiet b (Cache.find_mem found)).1
  · obtain ⟨b, rest, same⟩ := List.exists_cons_of_length_pos (l := m.cache) (by
      rw [ok.length]
      decide)
    have member : b ∈ m.cache := same ▸ List.mem_cons_self
    exact none_idle b member (quiet b member)

theorem Quiescent.clean (quiet : Quiescent m) (read : Read pid x m m' b) : b.dirty = false := by
  rcases read.source with ⟨b₀, found, _, _, dirty⟩ | ⟨_, dirty⟩
  · exact dirty.trans (quiet b₀ (Cache.find_mem found)).2
  · exact dirty

/-- After one `bread` on a quiescent machine, a second sector can be read too. -/
theorem Quiescent.not_blocked_second (quiet : Quiescent m) (read : Read pid x m m' b)
    (apart : y ≠ x) {e : Halt} : ¬ Blocked y m' e := by
  have others : ∀ c ∈ m'.cache, c.sector ≠ some x → Cache.Idle c := by
    intro c member differs
    rcases read.members c member with same | old
    · exact absurd same differs
    · exact quiet c old
  rintro (⟨_, c, found, busy⟩ | ⟨_, _, none_idle⟩)
  · refine busy (others c (Cache.find_mem found) ?_).1
    rw [Cache.find_sector found]
    exact fun same => apart (Option.some.inj same)
  · have all : ∀ c ∈ m'.cache, c.sector = some x := by
      intro c member
      by_contra differs
      exact none_idle c member (others c member differs)
    have length := read.ok.length
    -- two different buffers cannot both be assigned to `x`
    match shape : m'.cache with
    | [] =>
      rw [shape] at length
      cases length
    | [_] =>
      rw [shape] at length
      cases length
    | c :: d :: rest =>
      have distinct := read.ok.distinct
      rw [shape] at all distinct
      rcases (List.pairwise_cons.mp distinct).1 d (by simp) with blank | differs
      · rw [all c (by simp)] at blank
        cases blank
      · exact differs ((all c (by simp)).trans (all d (by simp)).symm)

end Bio

namespace Log

open Bio

variable {pid start size : Nat}

variable {m : Machine} {E : Halt → Machine → Prop}

theorem getLog_wp {Q : Log → Machine → Prop} (next : Q m.log m) :
    wp pid getLog Q E m := fun _ => next

theorem setLh_wp {lh : List Nat} {Q : Unit → Machine → Prop}
    (next : Q () { m with log := { m.log with lh := lh } }) : wp pid (setLh lh) Q E m :=
  fun _ => next

variable (coherent : Coherent start size m)

include coherent

theorem writeHead_wp {Q : Unit → Machine → Prop} (here : m.log.start = start) (room : 0 < size)
    (done : ∀ m', Wrote start size start (LogHeader.encode (m.disk start) m.log.lh) m m' → Q () m')
    (stuck : ∀ e, ¬ Quiescent m → E e m) : wp pid writeHead Q E m := by
  subst here
  apply bind_wp (getLog_wp _)
  have inside : InLog m.log.start size m.log.start := ⟨Nat.le_refl _, by omega⟩
  refine bind_wp (bread_wp coherent.ok (fun m₁ c read => ?_) fun e blocked =>
    stuck e fun quiet => Quiescent.not_blocked coherent.ok quiet blocked)
  apply bind_wp (peek_wp read.found read.held _)
  have same : c.data = m.disk m.log.start := read.data coherent inside
  rw [← Prog.bind_assoc]
  apply bind_wp (store_wp read.found read.held _)
  have found := find_stored_same (v := LogHeader.store (c.data.setNum 0 4 m.log.lh.length) 0
    m.log.lh) read.found
  refine brelse_wp found read.held (done _ ⟨?_, ?_, read.log, ?_, ?_⟩)
  · rw [stored, read.disk, same, LogHeader.encode]
  · rw [stored, read.trace, same, LogHeader.encode]
  · exact brelse_coherent (stored_coherent (read.coherent coherent) read.found) found
  · intro quiet d member
    rcases Cache.mem_release member with rfl | ⟨member, differs⟩
    · exact ⟨rfl, rfl⟩
    · exact quiet d (read.old_of_stored member differs)

theorem readHead_wp {Q : Unit → Machine → Prop} (here : m.log.start = start) (room : 0 < size)
    (done : ∀ m', m'.disk = m.disk → m'.trace = m.trace →
      m'.log = { m.log with lh := LogHeader.sectors (m.disk start) } →
      Coherent start size m' → (Quiescent m → Quiescent m') → Q () m')
    (stuck : ∀ e, ¬ Quiescent m → E e m) : wp pid readHead Q E m := by
  subst here
  apply bind_wp (getLog_wp _)
  have inside : InLog m.log.start size m.log.start := ⟨Nat.le_refl _, by omega⟩
  refine bind_wp (bread_wp coherent.ok (fun m₁ b read => ?_) fun e blocked =>
    stuck e fun quiet => Quiescent.not_blocked coherent.ok quiet blocked)
  apply bind_wp (peek_wp read.found read.held _)
  have same : b.data = m.disk m.log.start := read.data coherent inside
  apply bind_wp (setLh_wp _)
  have coherent₁ := brelse_coherent (read.coherent coherent) read.found
  refine brelse_wp read.found read.held (done _ read.disk read.trace ?_ (coherent₁.withLog _) ?_)
  · rw [← same, ← read.log]
  · intro quiet c member
    rcases Cache.mem_release member with rfl | ⟨member, differs⟩
    · exact ⟨rfl, Quiescent.clean (b := b) quiet read⟩
    · rcases read.members c member with same | old
      · exact absurd same differs
      · exact quiet c old

theorem installStep_wp {tail sector : Nat} {rest : List Nat} {Q : Unit → Machine → Prop}
    (inside : InLog start size (start + tail + 1)) (outside : ¬ InLog start size sector)
    (done : ∀ m', Wrote start size sector (m.disk (start + tail + 1)) m m' →
      wp pid (installFrom start (tail + 1) rest) Q E m')
    (stuck : ∀ e m', m'.disk = m.disk → m'.trace = m.trace → ¬ Quiescent m → E e m') :
    wp pid (installFrom start tail (sector :: rest)) Q E m := by
  have apart : sector ≠ start + tail + 1 := fun same => outside (same ▸ inside)
  refine bind_wp (bread_wp coherent.ok (fun m₁ lbuf lread => ?_) fun e blocked =>
    stuck e m rfl rfl fun quiet => Quiescent.not_blocked coherent.ok quiet blocked)
  refine bind_wp (bread_wp lread.ok (fun m₂ dbuf dread => ?_) fun e blocked =>
    stuck e m₁ lread.disk lread.trace fun quiet =>
      Quiescent.not_blocked_second quiet lread apart blocked)
  have lfound : Cache.find m₂.cache (start + tail + 1) = some lbuf :=
    dread.keeps apart.symm lread.found (by rw [lread.held]; exact Option.some_ne_none pid)
  have logged : lbuf.data = m.disk (start + tail + 1) := lread.data coherent inside
  apply bind_wp (peek_wp lfound lread.held _)
  rw [← Prog.bind_assoc]
  apply bind_wp (store_wp dread.found dread.held _)
  have coherent₃ : Coherent start size (stored m₂ sector lbuf.data) :=
    stored_coherent (dread.coherent (lread.coherent coherent)) dread.found
  have lfound₃ : Cache.find (stored m₂ sector lbuf.data).cache (start + tail + 1) = some lbuf := by
    rw [find_stored_ne m₂ lbuf.data apart.symm, lfound]
  have dfound₃ := find_stored_same (v := lbuf.data) dread.found
  apply bind_wp (brelse_wp lfound₃ lread.held _)
  have dfound₄ : Cache.find (Cache.release (stored m₂ sector lbuf.data).cache (start + tail + 1)
      lbuf) sector = some (dbuf.put lbuf.data).written := by
    rw [Cache.find_release_ne _ _ (Cache.find_sector lfound) apart, dfound₃]
  refine bind_wp (brelse_wp dfound₄ dread.held (done _ ⟨?_, ?_, ?_, ?_, ?_⟩))
  · rw [stored, dread.disk, lread.disk, logged]
  · rw [stored, dread.trace, lread.trace, logged]
  · rw [stored, dread.log, lread.log]
  · exact brelse_coherent (brelse_coherent coherent₃ lfound₃) dfound₄
  · intro quiet c member
    rcases Cache.mem_release member with rfl | ⟨member, notHome⟩
    · exact ⟨rfl, rfl⟩
    · rcases Cache.mem_release member with rfl | ⟨member, notLog⟩
      · exact ⟨rfl, Quiescent.clean (b := lbuf) quiet lread⟩
      · have old := dread.old_of_stored member notHome
        rcases lread.members c old with same | old
        · exact absurd same notLog
        · exact quiet c old

/-- `log_write` after its checks: the data of the held buffer goes to the log
block of its header entry, and the entry is recorded. -/
theorem logWrite_wp {sector : Nat} {b : Buf} {Q : Unit → Machine → Prop} (here : m.log.start = start)
    (extent : m.log.size = size) (outside : ¬ InLog start size sector)
    (found : Cache.find m.cache sector = some b) (mine : b.holder = some pid)
    (done : ∀ m' lh, lh = (if m.log.lh.idxOf sector = m.log.lh.length then m.log.lh ++ [sector]
        else m.log.lh) →
      m.log.lh.length < LOGSIZE → m.log.lh.length < size - 1 → m.log.owner ≠ none →
      m'.disk = Function.update m.disk (start + m.log.lh.idxOf sector + 1) b.data →
      m'.trace = m.trace ++ [(start + m.log.lh.idxOf sector + 1, b.data)] →
      m'.log = { m.log with lh := lh } → Coherent start size m' → Q () m')
    (stuck : ∀ e m', m'.disk = m.disk → m'.trace = m.trace → E e m') :
    wp pid (logWrite sector) Q E m := by
  subst here extent
  apply bind_wp (getLog_wp _)
  refine bind_wp (Prog.wp_when _ _ (fun _ _ => stuck _ m rfl rfl) fun room => ?_)
  refine bind_wp (Prog.wp_when _ _ (fun _ _ => stuck _ m rfl rfl) fun owned => ?_)
  have range := List.idxOf_le_length (l := m.log.lh) (a := sector)
  dsimp only
  generalize slot : m.log.start + m.log.lh.idxOf sector + 1 = l
  have inside : InLog m.log.start m.log.size l := ⟨by omega, by omega⟩
  have apart : sector ≠ l := fun same => outside (same ▸ inside)
  refine bind_wp (bread_wp coherent.ok (fun m₁ lbuf lread => ?_) fun e _ => stuck e m rfl rfl)
  have busy : b.holder ≠ none := by rw [mine]; exact Option.some_ne_none pid
  have found₁ : Cache.find m₁.cache sector = some b := lread.keeps apart found busy
  apply bind_wp (peek_wp found₁ mine _)
  rw [← Prog.bind_assoc]
  apply bind_wp (store_wp lread.found lread.held _)
  have coherent₂ : Coherent m.log.start m.log.size (stored m₁ l b.data) :=
    stored_coherent (lread.coherent coherent) lread.found
  have lfound₂ := find_stored_same (v := b.data) lread.found
  apply bind_wp (brelse_wp lfound₂ lread.held _)
  have coherent₃ := brelse_coherent coherent₂ lfound₂
  have found₃ : Cache.find (Cache.release (stored m₁ l b.data).cache l
      (lbuf.put b.data).written) sector = some b := by
    rw [Cache.find_release_ne _ _ (Cache.find_sector lfound₂) apart, find_stored_ne m₁ b.data apart,
      found₁]
  refine wp_seq pid (R := fun _ m₄ => m₄ = { stored m₁ l b.data with
    cache := Cache.release (stored m₁ l b.data).cache l (lbuf.put b.data).written
    log := { m.log with lh := if m.log.lh.idxOf sector = m.log.lh.length then m.log.lh ++ [sector]
      else m.log.lh } }) (Prog.wp_when _ _ (fun fresh => ?_) fun absorbed => ?_) ?_
  · refine setLh_wp ?_
    simp only [stored, lread.log, fresh, ↓reduceIte]
  · simp only [stored, lread.log, absorbed, ↓reduceIte]
  rintro _ _ rfl
  refine setDirty_wp found₃ mine (done _ _ rfl (by omega) (by omega) owned ?_ ?_ rfl ⟨?_, ?_, ?_⟩)
  · change Function.update m₁.disk l b.data = _
    rw [slot, lread.disk]
  · change m₁.trace ++ [(l, b.data)] = _
    rw [slot, lread.trace]
  · exact coherent₃.ok.update sector Buf.sector_mark fun c member same _ => by
      obtain rfl := coherent₃.ok.unique found₃ member same
      exact coherent.held c (Cache.find_mem found) busy
  · intro c member locked
    rcases Cache.mem_update member with old | ⟨a, old, _, rfl⟩
    · exact coherent₃.held c old locked
    · exact coherent₃.held a old locked
  · intro y c inside here valid
    have differs : y ≠ sector := by rintro rfl; exact outside inside
    refine coherent₃.logged y c inside ?_ valid
    exact (Cache.find_update_ne Buf.sector_mark _ differs).symm.trans here

end Log

end SirpairOs
