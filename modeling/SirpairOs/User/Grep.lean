import Mathlib.Data.List.Forall2
import SirpairOs.Lib.Lines
import SirpairOs.User.Pattern

/-! The line loop of `user/grep.c`. The memory from `buf` to the end of the process is a
list of bytes; a string function that runs off it, or a `memmove` of a negative count, which
is a count of almost 2^32 bytes, ends the process with a page fault. -/
namespace SirpairOs.Grep

def newline : UInt8 := 10

/-- `sizeof(buf)`. -/
def BUFSIZE : Nat := 1024

/-- What `strchr` finds: the character at a distance, the NUL first, or the end of memory. -/
inductive Found where
  | char (distance : Nat)
  | absent
  | fault
deriving DecidableEq, Repr

def Found.succ : Found → Found
  | char distance => char (distance + 1)
  | absent => absent
  | fault => fault

/-- `strchr` of `ulib.c` on the memory from `s` on. -/
def strchr (c : UInt8) : List UInt8 → Found
  | [] => Found.fault
  | b :: s => if b = 0 then Found.absent else if b = c then Found.char 0 else (strchr c s).succ

/-- What the loop over the lines of the buffer leaves: the memory and `p` unless it faulted,
and what has been written. -/
structure Scan where
  mem : List UInt8
  p : Nat
  written : List UInt8
  faulted : Bool

/-- The loop over the lines in the buffer. Every turn moves `p` on, so there are no more
turns than bytes of memory. -/
def lineLoop (pattern : List UInt8) : Nat → List UInt8 → Nat → List UInt8 → Scan
  | 0, mem, p, written => ⟨mem, p, written, true⟩
  | fuel + 1, mem, p, written =>
    match strchr newline (mem.drop p) with
    | Found.fault => ⟨mem, p, written, true⟩
    | Found.absent => ⟨mem, p, written, false⟩
    | Found.char distance =>
      let line := (mem.drop p).take distance
      if matchText pattern line then
        lineLoop pattern fuel mem (p + distance + 1) (written ++ (line ++ [newline]))
      else lineLoop pattern fuel (mem.set (p + distance) 0) (p + distance + 1) written

/-- How the function ends, and all it has written. -/
structure Outcome where
  returned : Bool
  written : List UInt8
deriving DecidableEq, Repr

/-- The bytes that read number `i`, of `sizeof(buf)-m` bytes, takes from the text. -/
def readChunk (sizes : Nat → Nat) (i m : Nat) (text : List UInt8) : List UInt8 :=
  text.take (min (sizes i + 1) (BUFSIZE - m))

/-- `read` puts the bytes at `buf+m`. -/
def store (mem : List UInt8) (m : Nat) (chunk : List UInt8) : List UInt8 :=
  mem.take m ++ chunk ++ mem.drop (m + chunk.length)

def moveFront (mem : List UInt8) (p count : Nat) : List UInt8 :=
  (mem.drop p).take count ++ mem.drop count

/-- The loop of `grep`. Read number `i` gives at most `sizes i + 1` bytes, and at least one
while there is text and room, so there are no more reads than bytes of text. -/
def readLoop (pattern : List UInt8) (sizes : Nat → Nat) :
    Nat → Nat → List UInt8 → Nat → List UInt8 → List UInt8 → Outcome
  | 0, _, _, _, _, written => ⟨true, written⟩
  | fuel + 1, i, mem, m, text, written =>
    let chunk := readChunk sizes i m text
    if chunk = [] then ⟨true, written⟩
    else
      let filled := m + chunk.length
      let stored := store mem m chunk
      let scan := lineLoop pattern (stored.length + 1) stored 0 written
      if scan.faulted then ⟨false, scan.written⟩
      else if scan.p = 0 then
        readLoop pattern sizes fuel (i + 1) scan.mem 0 (text.drop chunk.length) scan.written
      else if filled < scan.p then ⟨false, scan.written⟩
      else
        readLoop pattern sizes fuel (i + 1) (moveFront scan.mem scan.p (filled - scan.p))
          (filled - scan.p) (text.drop chunk.length) scan.written

def grep (pattern : List UInt8) (sizes : Nat → Nat) (mem text : List UInt8) : Outcome :=
  readLoop pattern sizes text.length 0 mem 0 text []

/-- The terminated lines that match, each with its newline. -/
def matchingLines (pattern text : List UInt8) : List UInt8 :=
  Lines.join newline ((Lines.cut newline text).1.filter (matchText pattern))

/-- No read finds the buffer in a bad state. `unread` is the unfinished line at the front of
the buffer and `stale` the memory behind it, left over from earlier reads. After a read no
newline may stand behind the new bytes before a NUL, and a read that does not complete a
line, and so is forgotten, must not have the end of its line still to come. -/
def Clear (sizes : Nat → Nat) : Nat → Nat → List UInt8 → List UInt8 → List UInt8 → Prop
  | 0, _, _, _, _ => True
  | fuel + 1, i, unread, stale, text =>
    let chunk := readChunk sizes i unread.length text
    let data := unread ++ chunk
    let behind := stale.drop chunk.length
    let rest := text.drop chunk.length
    let line := (Lines.cut newline data).2
    chunk = [] ∨ strchr newline behind = Found.absent ∧
      if newline ∈ data then
        Clear sizes fuel (i + 1) line ((data ++ behind).drop line.length) rest
      else newline ∉ rest ∧ Clear sizes fuel (i + 1) [] (data ++ behind) rest

instance Clear.decidable (sizes : Nat → Nat) (fuel i : Nat) (unread stale text : List UInt8) :
    Decidable (Clear sizes fuel i unread stale text) := by
  induction fuel generalizing i unread stale text with
  | zero => exact isTrue trivial
  | succ fuel ih =>
    unfold Clear
    infer_instance

/-- Bytes that `strchr` passes over. -/
def Plain (s : List UInt8) : Prop := ∀ b ∈ s, b ≠ 0 ∧ b ≠ newline

variable {data line s t : List UInt8}

theorem strchr_char (plain : Plain line) (s : List UInt8) :
    strchr newline (line ++ newline :: s) = Found.char line.length := by
  induction line with
  | nil => rfl
  | cons b line ih =>
    rw [Plain, List.forall_mem_cons] at plain
    rw [List.cons_append, strchr, if_neg plain.1.1, if_neg plain.1.2, ih plain.2]
    rfl

theorem strchr_absent (plain : Plain line) (absent : strchr newline s = Found.absent) :
    strchr newline (line ++ s) = Found.absent := by
  induction line with
  | nil => exact absent
  | cons b line ih =>
    rw [Plain, List.forall_mem_cons] at plain
    rw [List.cons_append, strchr, if_neg plain.1.1, if_neg plain.1.2, ih plain.2]
    rfl

theorem strchr_beyond (plain : Plain line) (loud : strchr newline s ≠ Found.absent) :
    strchr newline (line ++ s) = Found.fault ∨
      ∃ distance, line.length ≤ distance ∧ strchr newline (line ++ s) = Found.char distance := by
  induction line with
  | nil =>
    rw [List.nil_append]
    cases result : strchr newline s with
    | char distance => exact Or.inr ⟨distance, Nat.zero_le _, rfl⟩
    | absent => exact absurd result loud
    | fault => exact Or.inl rfl
  | cons b line ih =>
    rw [Plain, List.forall_mem_cons] at plain
    rw [List.cons_append, strchr, if_neg plain.1.1, if_neg plain.1.2]
    rcases ih plain.2 with fault | ⟨distance, far, char⟩
    · rw [fault]
      exact Or.inl rfl
    · rw [char]
      exact Or.inr ⟨distance + 1, Nat.succ_le_succ far, rfl⟩

/-- The byte that is left after a line: its newline if it has been written. -/
def mark (pattern line : List UInt8) : UInt8 := if matchText pattern line then newline else 0

def marked (pattern : List UInt8) (lines : List (List UInt8)) : List UInt8 :=
  lines.flatMap (fun line => line ++ [mark pattern line])

variable (pattern : List UInt8) (sizes : Nat → Nat) (lines : List (List UInt8))

theorem marked_length : (marked pattern lines).length = (Lines.join newline lines).length := by
  simp [marked, Lines.join, List.length_flatMap]

variable (fuel : Nat) (done : List UInt8)

theorem lineLoop_line (plain : Plain line) (s written : List UInt8) :
    lineLoop pattern (fuel + 1) (done ++ (line ++ newline :: s)) done.length written =
      lineLoop pattern fuel (done ++ (line ++ [mark pattern line]) ++ s)
        (done ++ (line ++ [mark pattern line])).length
        (written ++ Lines.join newline ([line].filter (matchText pattern))) := by
  have next : (done ++ (line ++ [mark pattern line])).length = done.length + line.length + 1 := by
    simp [Nat.add_assoc]
  rw [lineLoop, List.drop_left, strchr_char plain, next]
  simp only [List.take_left]
  by_cases matched : matchText pattern line = true
  · simp [matched, mark]
  · simp [matched, mark, List.set_append_right]

theorem lineLoop_lines (lines : List (List UInt8))
    (plain : ∀ line ∈ lines, Plain line) (s written : List UInt8) :
    lineLoop pattern (lines.length + fuel) (done ++ (Lines.join newline lines ++ s)) done.length
        written =
      lineLoop pattern fuel (done ++ marked pattern lines ++ s) (done ++ marked pattern lines).length
        (written ++ Lines.join newline (lines.filter (matchText pattern))) := by
  induction lines generalizing done written with
  | nil => simp [marked]
  | cons line lines ih =>
    rw [List.forall_mem_cons] at plain
    have turns : (line :: lines).length + fuel = lines.length + fuel + 1 := by
      rw [List.length_cons]
      omega
    have kept : (line :: lines).filter (matchText pattern) =
        [line].filter (matchText pattern) ++ lines.filter (matchText pattern) := by
      rw [← List.filter_append, List.singleton_append]
    rw [turns, Lines.join_cons, List.append_assoc, List.cons_append,
      lineLoop_line pattern _ done plain.1, ih _ plain.2, kept, Lines.join_append]
    simp [marked]

theorem lineLoop_mono (mem : List UInt8) (p : Nat) (written : List UInt8) :
    p ≤ (lineLoop pattern fuel mem p written).p := by
  induction fuel generalizing mem p written with
  | zero => exact Nat.le_refl p
  | succ fuel ih =>
    rw [lineLoop]
    split
    · exact Nat.le_refl p
    · exact Nat.le_refl p
    · rename_i distance _
      dsimp only
      split
      · exact Nat.le_trans (by omega) (ih mem (p + distance + 1) _)
      · exact Nat.le_trans (by omega) (ih _ (p + distance + 1) _)

/-- Where nothing but the unfinished line is left, the loop ends if a NUL comes first behind
it, and otherwise faults or goes past it. -/
theorem lineLoop_last (plain : Plain line) (behind written : List UInt8) :
    (strchr newline behind = Found.absent →
      lineLoop pattern (fuel + 1) (done ++ (line ++ behind)) done.length written =
        ⟨done ++ (line ++ behind), done.length, written, false⟩) ∧
    (strchr newline behind ≠ Found.absent →
      (lineLoop pattern (fuel + 1) (done ++ (line ++ behind)) done.length written).faulted = true ∨
      done.length + line.length <
        (lineLoop pattern (fuel + 1) (done ++ (line ++ behind)) done.length written).p) := by
  constructor
  · intro absent
    rw [lineLoop, List.drop_left, strchr_absent plain absent]
  · intro loud
    rcases strchr_beyond plain loud with fault | ⟨distance, far, char⟩
    · apply Or.inl
      rw [lineLoop, List.drop_left, fault]
    · apply Or.inr
      rw [lineLoop, List.drop_left, char]
      dsimp only
      split
      · exact Nat.lt_of_lt_of_le (by omega) (lineLoop_mono _ _ _ (done.length + distance + 1) _)
      · exact Nat.lt_of_lt_of_le (by omega) (lineLoop_mono _ _ _ (done.length + distance + 1) _)

def NulFree (s : List UInt8) : Prop := ∀ b ∈ s, b ≠ 0

theorem NulFree.append (first : NulFree s) (second : NulFree t) : NulFree (s ++ t) := by
  intro b member
  rcases List.mem_append.mp member with left | right
  · exact first b left
  · exact second b right

theorem NulFree.plain_lines (free : NulFree data) :
    ∀ line ∈ (Lines.cut newline data).1, Plain line := by
  intro line member b inside
  constructor
  · apply free
    rw [← Lines.join_cut newline data, List.mem_append]
    apply Or.inl
    exact List.mem_flatMap.mpr ⟨line, member, List.mem_append_left _ inside⟩
  · intro same
    exact Lines.not_mem_lines newline data line member (same ▸ inside)

theorem NulFree.plain_unfinished (free : NulFree data) : Plain (Lines.cut newline data).2 := by
  intro b inside
  constructor
  · apply free
    rw [← Lines.join_cut newline data]
    exact List.mem_append_right _ inside
  · intro same
    exact Lines.not_mem_unfinished newline data (same ▸ inside)

theorem length_le_join : lines.length ≤ (Lines.join newline lines).length := by
  induction lines with
  | nil => exact Nat.le_refl 0
  | cons line lines ih =>
    rw [Lines.join_cons, List.length_append, List.length_cons, List.length_cons]
    omega

/-- The loop over the buffer, all its turns: enough of them for every line. -/
theorem lineLoop_data (free : NulFree data) (behind written : List UInt8) :
    ∃ fuel, lineLoop pattern ((data ++ behind).length + 1) (data ++ behind) 0 written =
      lineLoop pattern (fuel + 1)
        (marked pattern (Lines.cut newline data).1 ++ ((Lines.cut newline data).2 ++ behind))
        (marked pattern (Lines.cut newline data).1).length
        (written ++ matchingLines pattern data) := by
  have whole := Lines.join_cut newline data
  have size := congrArg List.length whole
  rw [List.length_append] at size
  have few := length_le_join (Lines.cut newline data).1
  refine ⟨(data ++ behind).length - (Lines.cut newline data).1.length, ?_⟩
  have run := lineLoop_lines pattern
    ((data ++ behind).length - (Lines.cut newline data).1.length + 1) []
    (Lines.cut newline data).1 free.plain_lines ((Lines.cut newline data).2 ++ behind) written
  have turns : (Lines.cut newline data).1.length +
      ((data ++ behind).length - (Lines.cut newline data).1.length + 1) =
      (data ++ behind).length + 1 := by
    rw [List.length_append]
    omega
  rw [turns, ← List.append_assoc (Lines.join newline _), whole] at run
  simpa only [List.nil_append, List.length_nil, matchingLines] using run

theorem lineLoop_quiet {behind : List UInt8} (free : NulFree data)
    (quiet : strchr newline behind = Found.absent) (written : List UInt8) :
    lineLoop pattern ((data ++ behind).length + 1) (data ++ behind) 0 written =
      ⟨marked pattern (Lines.cut newline data).1 ++ ((Lines.cut newline data).2 ++ behind),
        (Lines.join newline (Lines.cut newline data).1).length,
        written ++ matchingLines pattern data, false⟩ := by
  obtain ⟨fuel, run⟩ := lineLoop_data pattern free behind written
  rw [run, (lineLoop_last pattern fuel _ free.plain_unfinished behind _).1 quiet, marked_length]

theorem lineLoop_loud {behind : List UInt8} (free : NulFree data)
    (loud : strchr newline behind ≠ Found.absent) (written : List UInt8) :
    (lineLoop pattern ((data ++ behind).length + 1) (data ++ behind) 0 written).faulted = true ∨
      data.length <
        (lineLoop pattern ((data ++ behind).length + 1) (data ++ behind) 0 written).p := by
  obtain ⟨fuel, run⟩ := lineLoop_data pattern free behind written
  have size := congrArg List.length (Lines.join_cut newline data)
  rw [List.length_append, ← marked_length pattern] at size
  rw [run, ← size]
  exact (lineLoop_last pattern fuel _ free.plain_unfinished behind _).2 loud

theorem store_behind (unread stale chunk : List UInt8) :
    store (unread ++ stale) unread.length chunk =
      unread ++ chunk ++ stale.drop chunk.length := by
  rw [store, List.take_left, ← List.drop_drop, List.drop_left]

theorem moveFront_line (done line behind : List UInt8) :
    moveFront (done ++ (line ++ behind)) done.length line.length =
      line ++ (done ++ (line ++ behind)).drop line.length := by
  rw [moveFront, List.drop_left, List.take_left]

theorem join_length_eq_zero_iff (data : List UInt8) :
    (Lines.join newline (Lines.cut newline data).1).length = 0 ↔ newline ∉ data := by
  rw [← Lines.lines_eq_nil_iff]
  constructor
  · intro zero
    have := length_le_join (Lines.cut newline data).1
    exact List.length_eq_zero_iff.mp (by omega)
  · intro none
    rw [none]
    rfl

theorem readLoop_quiet (sizes : Nat → Nat) (fuel i : Nat) (unread stale text written : List UInt8)
    (nonempty : readChunk sizes i unread.length text ≠ [])
    (free : NulFree (unread ++ readChunk sizes i unread.length text))
    (quiet : strchr newline (stale.drop (readChunk sizes i unread.length text).length) = Found.absent)
    :
    readLoop pattern sizes (fuel + 1) i (unread ++ stale) unread.length text written =
      let chunk := readChunk sizes i unread.length text
      let data := unread ++ chunk
      let line := (Lines.cut newline data).2
      let left := marked pattern (Lines.cut newline data).1 ++ (line ++ stale.drop chunk.length)
      if newline ∈ data then
        readLoop pattern sizes fuel (i + 1) (line ++ left.drop line.length) line.length
          (text.drop chunk.length) (written ++ matchingLines pattern data)
      else
        readLoop pattern sizes fuel (i + 1) (data ++ stale.drop chunk.length) 0
          (text.drop chunk.length) written := by
  rw [readLoop]
  dsimp only
  rw [if_neg nonempty, store_behind, lineLoop_quiet pattern free quiet]
  dsimp only
  rw [if_neg Bool.false_ne_true]
  have size := congrArg List.length
    (Lines.join_cut newline (unread ++ readChunk sizes i unread.length text))
  rw [List.length_append, List.length_append] at size
  by_cases complete : newline ∈ unread ++ readChunk sizes i unread.length text
  · rw [if_neg (fun zero => (join_length_eq_zero_iff _).mp zero complete), if_pos complete,
      if_neg (by omega), ← size, Nat.add_sub_cancel_left, ← marked_length pattern, moveFront_line]
  · rw [if_pos ((join_length_eq_zero_iff _).mpr complete), if_neg complete]
    simp [matchingLines, marked, Lines.cut_of_not_mem complete]

theorem readLoop_loud (sizes : Nat → Nat) (fuel i : Nat) (unread stale text written : List UInt8)
    (nonempty : readChunk sizes i unread.length text ≠ [])
    (free : NulFree (unread ++ readChunk sizes i unread.length text))
    (loud : strchr newline (stale.drop (readChunk sizes i unread.length text).length) ≠ Found.absent)
    :
    (readLoop pattern sizes (fuel + 1) i (unread ++ stale) unread.length text written).returned =
      false := by
  rw [readLoop]
  dsimp only
  rw [if_neg nonempty, store_behind]
  have size : (unread ++ readChunk sizes i unread.length text).length =
      unread.length + (readChunk sizes i unread.length text).length := List.length_append
  rcases lineLoop_loud pattern free loud written with faulted | beyond
  · rw [if_pos faulted]
  · rw [size] at beyond
    split
    · rfl
    · rw [if_neg (by omega)]

/-- The same bytes but for newlines that have been replaced by NUL. -/
abbrev Marks : List UInt8 → List UInt8 → Prop :=
  List.Forall₂ (fun a b => a = b ∨ (a = 0 ∧ b = newline))

theorem Marks.refl (s : List UInt8) : Marks s s := by
  rw [Marks, List.forall₂_same]
  intro b _
  exact Or.inl rfl

theorem Marks.append {s' t' : List UInt8} (first : Marks s s') (second : Marks t t') :
    Marks (s ++ t) (s' ++ t') := List.rel_append first second

theorem marks_marked : Marks (marked pattern lines) (Lines.join newline lines) := by
  induction lines with
  | nil => exact List.Forall₂.nil
  | cons line lines ih =>
    have first : Marks (line ++ [mark pattern line]) (line ++ [newline]) := by
      apply (Marks.refl line).append
      apply List.Forall₂.cons _ List.Forall₂.nil
      rw [mark]
      split
      · exact Or.inl rfl
      · exact Or.inr ⟨rfl, rfl⟩
    have both := first.append ih
    simpa [marked, Lines.join] using both

theorem marks_data (data : List UInt8) (behind : Marks s t) :
    Marks (marked pattern (Lines.cut newline data).1 ++ ((Lines.cut newline data).2 ++ s))
      (data ++ t) := by
  have same := (marks_marked pattern (Lines.cut newline data).1).append
    ((Marks.refl (Lines.cut newline data).2).append behind)
  rwa [← List.append_assoc (Lines.join newline _), Lines.join_cut] at same

theorem Found.succ_eq_absent {found : Found} (absent : found.succ = Found.absent) :
    found = Found.absent := by
  cases found with
  | char distance => cases absent
  | absent => rfl
  | fault => cases absent

theorem Marks.quiet (marks : Marks s t) (quiet : strchr newline t = Found.absent) :
    strchr newline s = Found.absent := by
  induction marks with
  | nil => exact quiet
  | cons same tail ih =>
    rename_i a b s t
    rw [strchr] at quiet
    by_cases nul : b = 0
    · have zero : a = 0 := same.elim (fun equal => equal.trans nul) (fun marked => marked.1)
      rw [strchr, if_pos zero]
    · rw [if_neg nul] at quiet
      by_cases ends : b = newline
      · rw [if_pos ends] at quiet
        cases quiet
      · rw [if_neg ends] at quiet
        have equal : a = b := same.elim id (fun marked => absurd marked.2 ends)
        rw [strchr, equal, if_neg nul, if_neg ends, ih (Found.succ_eq_absent quiet)]
        rfl

theorem matchingLines_append (data text : List UInt8) : matchingLines pattern (data ++ text) =
      matchingLines pattern data ++
        matchingLines pattern ((Lines.cut newline data).2 ++ text) := by
  rw [matchingLines, Lines.cut_append, List.filter_append, Lines.join_append]
  rfl

theorem matchingLines_unfinished (none : newline ∉ data) : matchingLines pattern data = [] := by
  rw [matchingLines, Lines.cut_of_not_mem none]
  rfl

variable (i m : Nat) (text : List UInt8)

theorem readChunk_eq_nil_iff (room : m < BUFSIZE) : readChunk sizes i m text = [] ↔ text = [] := by
  rw [readChunk, List.take_eq_nil_iff]
  constructor
  · intro empty
    exact empty.resolve_left (by omega)
  · exact Or.inr

theorem readChunk_length_le : (readChunk sizes i m text).length ≤ BUFSIZE - m := by
  rw [readChunk, List.length_take]
  omega

theorem readChunk_append :
    readChunk sizes i m text ++ text.drop (readChunk sizes i m text).length = text := by
  rw [readChunk, List.length_take]
  by_cases short : min (sizes i + 1) (BUFSIZE - m) ≤ text.length
  · rw [Nat.min_eq_left short, List.take_append_drop]
  · rw [List.take_of_length_le (by omega), List.drop_of_length_le (by omega), List.append_nil]

theorem NulFree.of_plain (plain : Plain s) : NulFree s :=
  fun b member => (plain b member).1

theorem NulFree.drop (free : NulFree s) (n : Nat) : NulFree (s.drop n) :=
  fun b member => free b (List.mem_of_mem_drop member)

theorem NulFree.readChunk {text : List UInt8} (free : NulFree text) (sizes : Nat → Nat)
    (i m : Nat) : NulFree (readChunk sizes i m text) :=
  fun b member => free b (List.mem_of_mem_take member)

theorem Plain.not_mem (plain : Plain s) : newline ∉ s :=
  fun member => (plain newline member).2 rfl

/-- An unfinished line is shorter than the buffer it has been read into. -/
theorem unfinished_length_lt (complete : newline ∈ data) (fits : data.length ≤ BUFSIZE) :
    (Lines.cut newline data).2.length < BUFSIZE := by
  have size := congrArg List.length (Lines.join_cut newline data)
  rw [List.length_append] at size
  have some : (Lines.join newline (Lines.cut newline data).1).length ≠ 0 :=
    fun zero => (join_length_eq_zero_iff data).mp zero complete
  omega

section Run

variable {sizes : Nat → Nat} {i : Nat} {unread text : List UInt8}

theorem data_fits (room : unread.length < BUFSIZE) :
    (unread ++ readChunk sizes i unread.length text).length ≤ BUFSIZE := by
  have := readChunk_length_le sizes i unread.length text
  rw [List.length_append]
  omega

theorem rest_shorter {fuel : Nat} (nonempty : readChunk sizes i unread.length text ≠ [])
    (enough : text.length ≤ fuel + 1) :
    (text.drop (readChunk sizes i unread.length text).length).length ≤ fuel := by
  have := List.length_pos_of_ne_nil nonempty
  rw [List.length_drop]
  omega

variable (sizes i unread text) in
theorem data_append_rest : unread ++ text = (unread ++ readChunk sizes i unread.length text) ++
      text.drop (readChunk sizes i unread.length text).length := by
  rw [List.append_assoc, readChunk_append]

end Run

/-- Where no read goes wrong, every pattern's lines are written. The memory of the run may
have NULs where the lines of that pattern did not match. -/
theorem readLoop_of_clear (pattern : List UInt8) (sizes : Nat → Nat) (fuel i : Nat)
    (unread stale left text written : List UInt8) (enough : text.length ≤ fuel)
    (room : unread.length < BUFSIZE) (plain : Plain unread) (free : NulFree text)
    (marks : Marks left stale) (clear : Clear sizes fuel i unread stale text) :
    readLoop pattern sizes fuel i (unread ++ left) unread.length text written =
      ⟨true, written ++ matchingLines pattern (unread ++ text)⟩ := by
  induction fuel generalizing i unread stale left text written with
  | zero =>
    have empty : text = [] := List.length_eq_zero_iff.mp (by omega)
    rw [readLoop, empty, List.append_nil, matchingLines_unfinished pattern plain.not_mem,
      List.append_nil]
  | succ fuel ih =>
    by_cases nonempty : readChunk sizes i unread.length text = []
    · have empty := (readChunk_eq_nil_iff sizes i _ text room).mp nonempty
      rw [readLoop]
      dsimp only
      rw [if_pos nonempty, empty, List.append_nil, matchingLines_unfinished pattern plain.not_mem,
        List.append_nil]
    · rw [Clear] at clear
      have fine := clear.resolve_left nonempty
      have data_free := (NulFree.of_plain plain).append (free.readChunk sizes i unread.length)
      have behind := List.forall₂_drop (readChunk sizes i unread.length text).length marks
      rw [readLoop_quiet pattern sizes fuel i unread left text written nonempty data_free
        (Marks.quiet behind fine.1), data_append_rest sizes i unread text]
      dsimp only
      have rest_free := free.drop (readChunk sizes i unread.length text).length
      have shorter := rest_shorter nonempty enough
      by_cases complete : newline ∈ unread ++ readChunk sizes i unread.length text
      · rw [if_pos complete] at fine
        have same := marks_data pattern (unread ++ readChunk sizes i unread.length text) behind
        rw [if_pos complete, ih _ _ _ _ _ _ shorter (unfinished_length_lt complete (data_fits room))
          data_free.plain_unfinished rest_free (List.forall₂_drop _ same) fine.2,
          List.append_assoc, ← matchingLines_append]
      · rw [if_neg complete] at fine
        rw [if_neg complete]
        have next := ih (i + 1) [] _ _ _ written shorter (by decide) (by simp [Plain]) rest_free
          ((Marks.refl (unread ++ readChunk sizes i unread.length text)).append behind) fine.2.2
        rw [List.nil_append, List.nil_append, List.length_nil] at next
        rw [next, matchingLines_unfinished pattern fine.2.1, matchingLines_unfinished]
        rw [List.mem_append, not_or]
        exact ⟨complete, fine.2.1⟩

/-! The empty pattern matches every line, so its run leaves every newline in the buffer and
writes the whole text up to the last newline. -/

theorem matchText_nil : matchText [] text = true := by
  rw [matchText_iff]
  refine ⟨[], [], text, rfl, fun _ => rfl, ?_, Decomposes.nil⟩
  intro anchored
  cases anchored

theorem marked_nil : marked [] lines = Lines.join newline lines := by
  simp only [marked, mark, matchText_nil, if_true, Lines.join]

theorem matchingLines_nil :
    matchingLines [] text = Lines.join newline (Lines.cut newline text).1 := by
  rw [matchingLines, List.filter_eq_self.mpr]
  intro line _
  exact matchText_nil line

/-- A run for the empty pattern that ends normally writes no more than it should, and if it
writes as much, no read went wrong. -/
theorem clear_of_readLoop (sizes : Nat → Nat) (fuel i : Nat)
    (unread stale text written : List UInt8) (enough : text.length ≤ fuel)
    (room : unread.length < BUFSIZE) (plain : Plain unread) (free : NulFree text)
    (outcome : Outcome)
    (run : readLoop [] sizes fuel i (unread ++ stale) unread.length text written = outcome)
    (returned : outcome.returned = true) :
    outcome.written.length ≤ written.length + (matchingLines [] (unread ++ text)).length ∧
      (outcome.written.length = written.length + (matchingLines [] (unread ++ text)).length →
        Clear sizes fuel i unread stale text) := by
  induction fuel generalizing i unread stale text written with
  | zero =>
    rw [readLoop] at run
    rw [← run]
    exact ⟨Nat.le_add_right _ _, fun _ => trivial⟩
  | succ fuel ih =>
    by_cases nonempty : readChunk sizes i unread.length text = []
    · rw [readLoop] at run
      dsimp only at run
      rw [if_pos nonempty] at run
      rw [← run, Clear]
      exact ⟨Nat.le_add_right _ _, fun _ => Or.inl nonempty⟩
    · have data_free := (NulFree.of_plain plain).append (free.readChunk sizes i unread.length)
      have rest_free := free.drop (readChunk sizes i unread.length text).length
      have shorter := rest_shorter nonempty enough
      by_cases quiet : strchr newline (stale.drop (readChunk sizes i unread.length text).length) =
          Found.absent
      · rw [readLoop_quiet [] sizes fuel i unread stale text written nonempty data_free quiet] at run
        dsimp only at run
        rw [data_append_rest sizes i unread text, Clear]
        by_cases complete : newline ∈ unread ++ readChunk sizes i unread.length text
        · rw [if_pos complete, marked_nil, ← List.append_assoc (Lines.join newline _),
            Lines.join_cut] at run
          have next := ih _ _ _ _ _ shorter (unfinished_length_lt complete (data_fits room))
            data_free.plain_unfinished rest_free run
          rw [matchingLines_append, List.length_append]
          rw [List.length_append] at next
          rw [if_pos complete]
          exact ⟨by omega, fun full => Or.inr ⟨quiet, next.2 (by omega)⟩⟩
        · rw [if_neg complete] at run
          have next := ih (i + 1) [] _ _ written shorter (by decide) (by simp [Plain]) rest_free run
          rw [List.nil_append] at next
          rw [if_neg complete]
          have some := List.length_pos_of_ne_nil nonempty
          by_cases later : newline ∈ text.drop (readChunk sizes i unread.length text).length
          · have lost := congrArg List.length (Lines.join_lines_append_left complete later)
            rw [← matchingLines_nil, ← matchingLines_nil, List.length_append,
              List.length_append] at lost
            exact ⟨by omega, fun full => absurd full (by omega)⟩
          · have none : newline ∉ unread ++ readChunk sizes i unread.length text ++
                text.drop (readChunk sizes i unread.length text).length := by
              rw [List.mem_append, not_or]
              exact ⟨complete, later⟩
            rw [matchingLines_unfinished [] later] at next
            rw [matchingLines_unfinished [] none]
            exact ⟨next.1, fun full => Or.inr ⟨quiet, later, next.2 full⟩⟩
      · have ended := readLoop_loud [] sizes fuel i unread stale text written nonempty data_free
          quiet
        rw [run, returned] at ended
        cases ended

/-- For every text without NUL, however it is read: `grep` returns having written exactly the
matching lines, for every pattern, exactly when no read finds a newline left over behind its
bytes and none that leaves a line unfinished from the start of the buffer has its newline
still to come. -/
theorem grep_prints_matching_iff (sizes : Nat → Nat) (mem text : List UInt8) (free : NulFree text) :
    (∀ pattern, grep pattern sizes mem text = ⟨true, matchingLines pattern text⟩) ↔
      Clear sizes text.length 0 [] mem text := by
  constructor
  · intro right
    have run := clear_of_readLoop sizes text.length 0 [] mem text [] (Nat.le_refl _) (by decide)
      (by simp [Plain]) free _ (right []) rfl
    apply run.2
    simp
  · intro clear pattern
    have run := readLoop_of_clear pattern sizes text.length 0 [] mem mem text [] (Nat.le_refl _)
      (by decide) (by simp [Plain]) free (Marks.refl mem) clear
    simpa only [grep, List.nil_append, List.length_nil] using run

/-- The memory of a fresh process: the buffer and 16 bytes behind it. -/
def freshMemory : List UInt8 := List.replicate 1040 0

/-- Two lines, "ab" and "cd", in two reads. -/
theorem grep_prints_matching_twice : NulFree [97, 98, newline, 99, 100, newline] ∧
      (∀ pattern, grep pattern (fun _ => 2) freshMemory [97, 98, newline, 99, 100, newline] =
        ⟨true, matchingLines pattern [97, 98, newline, 99, 100, newline]⟩) ∧
      matchingLines [99] [97, 98, newline, 99, 100, newline] = [99, 100, newline] := by
  have free : NulFree [97, 98, newline, 99, 100, newline] := by simp [NulFree, newline]
  exact ⟨free, (grep_prints_matching_iff _ _ _ free).mpr (by decide +kernel), by decide +kernel⟩

/-- "abc\n" read two bytes at a time: the line is forgotten after "ab", and nothing is
printed for the pattern "abc". -/
theorem grep_loses_split_line :
    grep [97, 98, 99] (fun _ => 1) freshMemory [97, 98, 99, newline] = ⟨true, []⟩ ∧
      matchingLines [97, 98, 99] [97, 98, 99, newline] = [97, 98, 99, newline] := by
  decide +kernel

end SirpairOs.Grep
