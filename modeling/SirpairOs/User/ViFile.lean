import SirpairOs.Lib.Lines
import SirpairOs.User.ViEditor

/-! Loading a file into `user/vi.c` and saving it again. -/
namespace SirpairOs.Vi

namespace Editor

/-- The bytes `vi_save_file` puts into `save_buf` after those already there, unless it finds
the buffer too small. -/
def fillSaveBuf : List UInt8 → List (List UInt8) → Option (List UInt8)
  | buf, [] => some buf
  | buf, text :: rest =>
    if buf.length + text.length + 2 > VI_FILE_IO_MAX then none
    else fillSaveBuf (buf ++ (text ++ [NL])) rest

end Editor

/-- Printable characters and newlines, the last byte a newline. -/
structure IsText (file : List UInt8) : Prop where
  printable : ∀ b ∈ file, b = NL ∨ ch ' ' ≤ b ∧ b ≤ ch '~'
  terminated : file.getLast? = some NL

def kept (file : List UInt8) : List (List UInt8) :=
  ((Lines.cut NL file).1.take VI_MAX_LINES).map (·.take (VI_LINE_SIZE - 1))

def Ordinary (b : UInt8) : Prop := b ≠ 0 ∧ b ≠ 9 ∧ b ≠ NL ∧ b ≠ 13

theorem ordinary_of_printable {b : UInt8} (printable : ch ' ' ≤ b ∧ b ≤ ch '~') : Ordinary b := by
  have low : 32 ≤ b.toNat := UInt8.le_iff_toNat_le.mp printable.1
  refine ⟨?_, ?_, ?_, ?_⟩ <;>
  · intro same
    rw [same] at low
    exact absurd low (by decide)

theorem cstr_of_ordinary {line : List UInt8} (ordinary : ∀ b ∈ line, Ordinary b) :
    cstr line = line := by
  induction line with
  | nil => rfl
  | cons b line ih =>
    rw [List.forall_mem_cons] at ordinary
    simpa [cstr, ordinary.1.1] using ih ordinary.2

theorem loadChunk_full (bytes : List UInt8) {st : Loading} (full : VI_MAX_LINES ≤ st.lines.length) :
    loadChunk bytes st = st := by
  cases bytes with
  | nil => rfl
  | cons b bytes => rw [loadChunk, if_neg (by omega)]

theorem loadChunk_append (first rest : List UInt8) (st : Loading) :
    loadChunk (first ++ rest) st = loadChunk rest (loadChunk first st) := by
  induction first generalizing st with
  | nil => rfl
  | cons b first ih =>
    rw [List.cons_append, loadChunk, loadChunk]
    by_cases room : st.lines.length < VI_MAX_LINES
    · rw [if_pos room, if_pos room, ih]
    · rw [if_neg room, if_neg room, loadChunk_full rest (by omega)]

/-- How the reads cut the file makes no difference. -/
theorem foldl_loadChunk (reads : List (List UInt8)) (st : Loading) :
    reads.foldl (fun st chunk => loadChunk chunk st) st = loadChunk reads.flatten st := by
  induction reads generalizing st with
  | nil => rfl
  | cons chunk reads ih =>
    rw [List.foldl_cons, ih, List.flatten_cons, loadChunk_append]

theorem take_take_append {α : Type} (n : Nat) (s t : List α) :
    (s.take n ++ t).take n = (s ++ t).take n := by
  rw [List.take_append, List.take_append, List.take_take, Nat.min_self, List.length_take]
  congr 2
  omega

theorem loadByte_ordinary {b : UInt8} (ordinary : Ordinary b) (lines : List (List UInt8))
    (line : List UInt8) (short : line.length ≤ VI_LINE_SIZE - 1) :
    loadByte ⟨lines, line⟩ b = ⟨lines, (line ++ [b]).take (VI_LINE_SIZE - 1)⟩ := by
  rw [loadByte, if_neg ordinary.2.2.1, if_neg ordinary.2.2.2, if_neg ordinary.2.1]
  dsimp only
  split
  · rw [List.take_of_length_le]
    rw [List.length_append, List.length_singleton]
    omega
  · rw [List.take_left' (by omega)]

theorem loadChunk_ordinary {bytes : List UInt8} (ordinary : ∀ b ∈ bytes, Ordinary b)
    (lines : List (List UInt8)) (room : lines.length < VI_MAX_LINES) (line : List UInt8)
    (short : line.length ≤ VI_LINE_SIZE - 1) :
    loadChunk bytes ⟨lines, line⟩ = ⟨lines, (line ++ bytes).take (VI_LINE_SIZE - 1)⟩ := by
  induction bytes generalizing line with
  | nil => rw [loadChunk, List.append_nil, List.take_of_length_le short]
  | cons b bytes ih =>
    rw [List.forall_mem_cons] at ordinary
    rw [loadChunk, if_pos room, loadByte_ordinary ordinary.1 lines line short,
      ih ordinary.2 _ (List.length_take_le _ _)]
    rw [take_take_append, List.append_assoc, List.singleton_append]

theorem loadChunk_line {line : List UInt8} (ordinary : ∀ b ∈ line, Ordinary b)
    (lines : List (List UInt8)) (room : lines.length < VI_MAX_LINES) (rest : List UInt8) :
    loadChunk (line ++ NL :: rest) ⟨lines, []⟩ =
      loadChunk rest ⟨lines ++ [line.take (VI_LINE_SIZE - 1)], []⟩ := by
  have string : cstr (line.take (VI_LINE_SIZE - 1)) = line.take (VI_LINE_SIZE - 1) :=
    cstr_of_ordinary (fun b member => ordinary b (List.mem_of_mem_take member))
  rw [loadChunk_append, loadChunk_ordinary ordinary lines room [] (Nat.zero_le _), loadChunk,
    if_pos room, loadByte, if_pos rfl, List.nil_append, string]

theorem loadChunk_lines (text : List (List UInt8)) (ordinary : ∀ line ∈ text, ∀ b ∈ line, Ordinary b)
    (lines : List (List UInt8)) : loadChunk (Lines.join NL text) ⟨lines, []⟩ =
      ⟨lines ++ (text.take (VI_MAX_LINES - lines.length)).map (·.take (VI_LINE_SIZE - 1)), []⟩ := by
  induction text generalizing lines with
  | nil => simp [loadChunk]
  | cons line text ih =>
    rw [List.forall_mem_cons] at ordinary
    by_cases room : lines.length < VI_MAX_LINES
    · have next : VI_MAX_LINES - lines.length =
          VI_MAX_LINES - (lines ++ [line.take (VI_LINE_SIZE - 1)]).length + 1 := by
        rw [List.length_append, List.length_singleton]
        omega
      rw [Lines.join_cons, loadChunk_line ordinary.1 lines room, ih ordinary.2, next,
        List.take_succ_cons, List.map_cons, List.append_assoc, List.singleton_append]
    · rw [loadChunk_full _ (Nat.le_of_not_lt room), Nat.sub_eq_zero_of_le (Nat.le_of_not_lt room),
        List.take_zero, List.map_nil, List.append_nil]

namespace IsText

variable {file : List UInt8} (text : IsText file)

include text

theorem ordinary : ∀ line ∈ (Lines.cut NL file).1, ∀ b ∈ line, Ordinary b := by
  intro line member b inside
  have whole : b ∈ file := by
    rw [← Lines.join_cut NL file, List.mem_append]
    apply Or.inl
    exact List.mem_flatMap.mpr ⟨line, member, List.mem_append_left _ inside⟩
  rcases text.printable b whole with ends | printable
  · exact absurd (ends ▸ inside) (Lines.not_mem_lines NL file line member)
  · exact ordinary_of_printable printable

theorem join_lines : Lines.join NL (Lines.cut NL file).1 = file := by
  have whole := Lines.join_cut NL file
  have last : (Lines.cut NL file).2 = [] := by
    by_contra nonempty
    have ends := text.terminated
    rw [← whole, List.getLast?_append_of_ne_nil _ nonempty] at ends
    exact Lines.not_mem_unfinished NL file (List.mem_of_getLast? ends)
  rwa [last, List.append_nil] at whole

theorem lines_ne_nil : (Lines.cut NL file).1 ≠ [] := by
  intro none
  have whole := text.join_lines
  rw [none, Lines.join_nil] at whole
  have ends := text.terminated
  rw [← whole] at ends
  cases ends

theorem kept_ne_nil : kept file ≠ [] := by
  intro none
  have lines := text.lines_ne_nil
  cases first : (Lines.cut NL file).1 with
  | nil => exact lines first
  | cons line rest =>
    rw [kept, first] at none
    cases none

theorem loaded : loadChunk file ⟨[], []⟩ = ⟨kept file, []⟩ := by
  have run := loadChunk_lines (Lines.cut NL file).1 text.ordinary []
  rw [text.join_lines] at run
  rw [run]
  rfl

/-- Everything is kept exactly of a file with few and short lines. -/
theorem join_kept_iff : Lines.join NL (kept file) = file ↔
      (Lines.cut NL file).1.length ≤ VI_MAX_LINES ∧
        ∀ line ∈ (Lines.cut NL file).1, line.length ≤ VI_LINE_SIZE - 1 := by
  have plain : ∀ line ∈ kept file, NL ∉ line := by
    intro line member inside
    rw [kept, List.mem_map] at member
    obtain ⟨full, among, rfl⟩ := member
    exact Lines.not_mem_lines NL file full (List.mem_of_mem_take among)
      (List.mem_of_mem_take inside)
  constructor
  · intro same
    have lines : kept file = (Lines.cut NL file).1 := by
      have again := Lines.cut_join_append plain []
      rw [List.append_nil, same] at again
      rw [again]
      exact (List.append_nil _).symm
    have count := congrArg List.length lines
    rw [kept, List.length_map, List.length_take] at count
    refine And.intro (by omega) ?_
    intro line member
    rw [← lines, kept, List.mem_map] at member
    obtain ⟨full, _, rfl⟩ := member
    exact List.length_take_le _ _
  · intro small
    have whole : (Lines.cut NL file).1.map (·.take (VI_LINE_SIZE - 1)) = (Lines.cut NL file).1 := by
      conv_rhs => rw [← List.map_id (Lines.cut NL file).1]
      apply List.map_congr_left
      intro line member
      exact List.take_of_length_le (small.2 line member)
    rw [kept, List.take_of_length_le small.1, whole, text.join_lines]

end IsText

namespace Editor

theorem saveFits_iff (pos : Nat) (lines : List (List UInt8)) : saveFits pos lines = true ↔
      lines = [] ∨ pos + (Lines.join NL lines).length < VI_FILE_IO_MAX := by
  induction lines generalizing pos with
  | nil => simp [saveFits]
  | cons line lines ih =>
    rw [saveFits, Lines.join_cons, List.length_append, List.length_cons]
    split
    · simp only [Bool.false_eq_true, reduceCtorEq, false_or, false_iff]
      omega
    · rw [ih]
      constructor
      · intro fits
        rcases fits with last | fits
        · rw [last, Lines.join_nil, List.length_nil]
          omega
        · omega
      · intro fits
        simp only [reduceCtorEq, false_or] at fits
        omega

theorem fillSaveBuf_eq (buf : List UInt8) (lines : List (List UInt8)) : fillSaveBuf buf lines =
      if saveFits buf.length lines then some (buf ++ Lines.join NL lines) else none := by
  induction lines generalizing buf with
  | nil => simp [fillSaveBuf, saveFits]
  | cons line lines ih =>
    rw [fillSaveBuf, saveFits]
    split
    · rfl
    · rw [ih, List.length_append, List.length_append, List.length_singleton, Nat.add_assoc]
      simp

/-- A save reports failure, or puts exactly these bytes together. -/
theorem save_exact_iff (s : Editor) (file : List UInt8) :
    (∀ turn, (viSaveFile turn s).1 = false ∨ fillSaveBuf [] s.lines = some file) ↔
      s.filename = [] ∨ saveFits 0 s.lines = false ∨ Lines.join NL s.lines = file := by
  rw [fillSaveBuf_eq, List.length_nil, List.nil_append]
  by_cases named : s.filename = []
  · simp [viSaveFile, named]
  · cases fits : saveFits 0 s.lines with
    | false => simp [viSaveFile, named, fits]
    | true =>
      simp only [named, Bool.true_eq_false, false_or, if_true, Option.some.injEq]
      constructor
      · intro right
        apply (right ⟨.char 0, true, true⟩).resolve_left
        simp [viSaveFile, named, fits]
      · intro same turn
        exact Or.inr same

/-- Loading a text and saving it again, however it is read. Without a file name nothing is
saved. A file that cannot be opened is taken for a new one, of one empty line. Otherwise the
bytes are those of the file exactly when it has at most 200 lines of at most 255 bytes, or
when the load or the save fails. -/
theorem load_save_same_iff (opened failed : Bool) (reads : List (List UInt8)) (s : Editor)
    (text : IsText reads.flatten) : ((viLoadFile opened reads failed s).1 = true →
      ∀ turn, (viSaveFile turn (viLoadFile opened reads failed s).2).1 = false ∨
        fillSaveBuf [] (viLoadFile opened reads failed s).2.lines = some reads.flatten) ↔
    s.filename = [] ∨ if opened then
        failed = true ∨ VI_FILE_IO_MAX ≤ (Lines.join NL (kept reads.flatten)).length ∨
          ((Lines.cut NL reads.flatten).1.length ≤ VI_MAX_LINES ∧
            ∀ line ∈ (Lines.cut NL reads.flatten).1, line.length ≤ VI_LINE_SIZE - 1)
      else reads.flatten = [NL] := by
  cases opened with
  | false =>
    rw [viLoadFile, if_pos rfl]
    simp only [true_implies, save_exact_iff]
    have fits : saveFits 0 [[]] = true := by decide
    rw [fits, if_neg Bool.false_ne_true]
    simp [setStatus, eq_comm]
  | true =>
    rw [viLoadFile, if_neg (by decide), foldl_loadChunk, text.loaded]
    dsimp only
    cases failed with
    | true => simp
    | false =>
      have lines : ¬ (([] : List UInt8).length > 0 ∨ (kept reads.flatten).length = 0) := by
        intro none
        exact text.kept_ne_nil (List.length_eq_zero_iff.mp (none.resolve_left (Nat.lt_irrefl 0)))
      have large : saveFits 0 (kept reads.flatten) = false ↔
          VI_FILE_IO_MAX ≤ (Lines.join NL (kept reads.flatten)).length := by
        rw [← Bool.not_eq_true, saveFits_iff, not_or, Nat.zero_add, Nat.not_lt]
        exact and_iff_right text.kept_ne_nil
      rw [if_neg Bool.false_ne_true, if_neg lines]
      simp only [true_implies, save_exact_iff, large, text.join_kept_iff, if_true,
        Bool.false_eq_true, false_or, setStatus]

/-- "a" and "b" on two lines, read at once. -/
theorem load_save_same_short : IsText [97, NL, 98, NL] ∧
      ∀ turn, (viSaveFile turn (viLoadFile true [[97, NL, 98, NL]] false (fresh [] [ch 'f'] 24)).2).1 = false ∨
        fillSaveBuf [] (viLoadFile true [[97, NL, 98, NL]] false (fresh [] [ch 'f'] 24)).2.lines =
          some [97, NL, 98, NL] := by
  have text : IsText [97, NL, 98, NL] := ⟨by simp [NL, ch], rfl⟩
  refine ⟨text, ?_⟩
  exact (load_save_same_iff true false [[97, NL, 98, NL]] _ text).mpr (by decide) rfl

/-- A line of 256 bytes is loaded, and saved, with 255. -/
theorem load_save_cuts_long_line :
    (viLoadFile true [List.replicate 256 97 ++ [NL]] false (fresh [] [ch 'f'] 24)).1 = true ∧
      (viSaveFile ⟨.none, true, true⟩
        (viLoadFile true [List.replicate 256 97 ++ [NL]] false (fresh [] [ch 'f'] 24)).2).1 = true ∧
      fillSaveBuf [] (viLoadFile true [List.replicate 256 97 ++ [NL]] false (fresh [] [ch 'f'] 24)).2.lines =
        some (List.replicate 255 97 ++ [NL]) := by
  decide +kernel

end Editor

end SirpairOs.Vi
