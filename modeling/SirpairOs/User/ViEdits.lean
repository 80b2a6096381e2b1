import Mathlib.Data.List.GetD
import SirpairOs.User.ViEditor

/-! When the editor `user/vi.c` keeps track of the changes it has made. -/
namespace SirpairOs.Vi

namespace Editor

/-- Nothing has been lost: an editor that shows no changes has none, and neither has one whose
loop has ended. -/
structure Good (s : Editor) : Prop where
  clean : s.modified = false → s.lines = s.stored
  ended : s.running = false → s.lines = s.stored

/-- The text is the same, or the change is noted. -/
structure Honest (s s' : Editor) : Prop where
  stored : s'.stored = s.stored
  running : s'.running = s.running
  text : s'.lines = s.lines ∧ s'.modified = s.modified ∨ s'.modified = true

namespace Honest

variable {s s' s'' : Editor}

theorem same (lines : s'.lines = s.lines) (modified : s'.modified = s.modified)
    (stored : s'.stored = s.stored) (running : s'.running = s.running) : Honest s s' :=
  ⟨stored, running, Or.inl ⟨lines, modified⟩⟩

theorem refl (s : Editor) : Honest s s := same rfl rfl rfl rfl

theorem changed (modified : s'.modified = true) (stored : s'.stored = s.stored)
    (running : s'.running = s.running) : Honest s s' :=
  ⟨stored, running, Or.inr modified⟩

theorem trans (first : Honest s s') (second : Honest s' s'') : Honest s s'' where
  stored := second.stored.trans first.stored
  running := second.running.trans first.running
  text := by
    obtain ⟨lines, modified⟩ | noted := second.text
    · rw [lines, modified]
      exact first.text
    · exact Or.inr noted

theorem ite {p : Prop} [Decidable p] (yes : p → Honest s s') (no : ¬ p → Honest s s'') :
    Honest s (if p then s' else s'') := by
  by_cases holds : p
  · rw [if_pos holds]
    exact yes holds
  · rw [if_neg holds]
    exact no holds

theorem good (honest : Honest s s') (good : Good s) (running : s.running = true) : Good s' where
  clean unmodified := by
    obtain ⟨lines, modified⟩ | noted := honest.text
    · rw [lines, honest.stored]
      exact good.clean (modified ▸ unmodified)
    · rw [noted] at unmodified
      exact absurd unmodified (by decide)
  ended stopped := by
    rw [honest.running, running] at stopped
    exact absurd stopped (by decide)

end Honest

section Changes

variable (s : Editor)

theorem viInsertChar_honest (c : UInt8) : Honest s (s.viInsertChar c) := by
  unfold viInsertChar
  split
  · exact .refl s
  split
  · exact .refl s
  · exact .changed rfl rfl rfl

theorem viDeleteCharAt_honest (row col : Nat) : Honest s (s.viDeleteCharAt row col) := by
  unfold viDeleteCharAt
  split
  · exact .refl s
  split
  · exact .refl s
  · exact .changed rfl rfl rfl

theorem viJoinLineWithNext_honest (row : Nat) : Honest s (s.viJoinLineWithNext row) := by
  unfold viJoinLineWithNext
  split
  · exact .refl s
  split
  · exact .refl s
  · exact .changed rfl rfl rfl

theorem viBackspace_honest : Honest s s.viBackspace := by
  unfold viBackspace
  split
  · exact (s.viDeleteCharAt_honest _ _).trans (.same rfl rfl rfl rfl)
  split
  · apply Honest.trans _ (viJoinLineWithNext_honest _ _)
    exact .same rfl rfl rfl rfl
  · exact .refl s

theorem viInsertNewline_honest : Honest s s.viInsertNewline := by
  unfold viInsertNewline
  split
  · exact .refl s
  · exact .changed rfl rfl rfl

theorem viDeleteLine_honest : Honest s s.viDeleteLine := by
  unfold viDeleteLine
  split
  · exact .changed rfl rfl rfl
  · exact .changed rfl rfl rfl

theorem viOpenLineBelow_honest : Honest s s.viOpenLineBelow := by
  unfold viOpenLineBelow
  split
  · exact .refl s
  · exact .changed rfl rfl rfl

theorem viOpenLineAbove_honest : Honest s s.viOpenLineAbove := by
  unfold viOpenLineAbove
  split
  · exact .refl s
  · exact .changed rfl rfl rfl

theorem deleteHere_honest : Honest s s.deleteHere := by
  unfold deleteHere
  split
  · exact (s.viDeleteCharAt_honest _ _).trans (.same rfl rfl rfl rfl)
  · exact .refl s

theorem deleteBefore_honest : Honest s s.deleteBefore := by
  unfold deleteBefore
  split
  · exact (s.viDeleteCharAt_honest _ _).trans (.same rfl rfl rfl rfl)
  · exact .refl s

theorem replaceChar_honest (key : Key) : Honest s (s.replaceChar key) := by
  unfold replaceChar
  dsimp only
  split
  · split
    · exact .changed rfl rfl rfl
    · exact .same rfl rfl rfl rfl
  · exact .same rfl rfl rfl rfl

end Changes

theorem viSaveFile_cases (turn : Turn) (s : Editor) :
    (s.viSaveFile turn).2.lines = s.lines ∧ (s.viSaveFile turn).2.running = s.running ∧
      ((s.viSaveFile turn).1 = true ∧ (s.viSaveFile turn).2.stored = s.lines ∨
        (s.viSaveFile turn).1 = false ∧ (s.viSaveFile turn).2.stored = s.stored ∧
          (s.viSaveFile turn).2.modified = s.modified) := by
  unfold viSaveFile
  split
  · exact ⟨rfl, rfl, Or.inr ⟨rfl, rfl, rfl⟩⟩
  split
  · exact ⟨rfl, rfl, Or.inr ⟨rfl, rfl, rfl⟩⟩
  split
  · exact ⟨rfl, rfl, Or.inr ⟨rfl, rfl, rfl⟩⟩
  split
  · exact ⟨rfl, rfl, Or.inr ⟨rfl, rfl, rfl⟩⟩
  · exact ⟨rfl, rfl, Or.inl ⟨rfl, rfl⟩⟩

theorem Good.ite {s s' : Editor} {p : Prop} [Decidable p] (yes : p → Good s) (no : ¬ p → Good s') :
    Good (if p then s else s') := by
  by_cases holds : p
  · rw [if_pos holds]
    exact yes holds
  · rw [if_neg holds]
    exact no holds

section Save

variable {s : Editor} (good : Good s) (running : s.running = true)
include good running

theorem Good.same {t : Editor} (lines : t.lines = s.lines) (modified : t.modified = s.modified)
    (stored : t.stored = s.stored) (still : t.running = s.running) : Good t :=
  (Honest.same lines modified stored still).good good running

theorem Good.save (turn : Turn) : Good (s.viSaveFile turn).2 := by
  obtain ⟨lines, still, saved | ⟨_, stored, modified⟩⟩ := viSaveFile_cases turn s
  · exact ⟨fun _ => lines.trans saved.2.symm, fun _ => lines.trans saved.2.symm⟩
  · exact (Honest.same lines modified stored still).good good running

/-- The loop ends only after the text has been written. -/
theorem Good.quitIfSaved (turn : Turn) : Good (quitIfSaved (s.viSaveFile turn)) := by
  have kept := good.save running turn
  obtain ⟨lines, still, saved | failed⟩ := viSaveFile_cases turn s
  · exact ⟨kept.clean, fun _ => lines.trans saved.2.symm⟩
  · refine ⟨kept.clean, ?_⟩
    intro stopped
    rw [Editor.quitIfSaved, failed.1] at stopped
    exact kept.ended stopped

end Save

section Keys

variable (s : Editor)

/-- Every key of normal mode but `J` and the second `Z`. -/
theorem normalChar_honest {c : UInt8} (turn : Turn) (join : c ≠ ch 'J')
    (quit : ¬ (c = ch 'Z' ∧ s.lastKey = some (.char (ch 'Z')))) :
    Honest s (s.normalChar c turn) := by
  have noted {t : Editor} (honest : Honest s t) :
      Honest s { t with lastKey := some (.char c) } := honest.trans (.same rfl rfl rfl rfl)
  unfold normalChar
  dsimp only
  iterate 8 refine Honest.ite (fun _ => .same rfl rfl rfl rfl) fun _ => ?_
  apply Honest.ite
  · intro _
    exact .ite (fun _ => .same rfl rfl rfl rfl) fun _ => .same rfl rfl rfl rfl
  intro _
  iterate 6 refine Honest.ite (fun _ => .same rfl rfl rfl rfl) fun _ => ?_
  refine Honest.ite (fun _ => noted s.viOpenLineBelow_honest) fun _ => ?_
  refine Honest.ite (fun _ => noted s.viOpenLineAbove_honest) fun _ => ?_
  refine Honest.ite (fun _ => noted s.deleteHere_honest) fun _ => ?_
  refine Honest.ite (fun _ => noted s.deleteBefore_honest) fun _ => ?_
  apply Honest.ite
  · intro _
    exact .ite (fun _ => s.viDeleteLine_honest.trans (.same rfl rfl rfl rfl))
      fun _ => .same rfl rfl rfl rfl
  intro _
  refine Honest.ite (fun joins => absurd joins join) fun _ => ?_
  refine Honest.ite (fun _ => .same rfl rfl rfl rfl) fun _ => ?_
  apply Honest.ite
  · intro second
    exact .ite (fun last => absurd ⟨second, last⟩ quit) fun _ => .same rfl rfl rfl rfl
  intro _
  exact .ite (fun _ => .same rfl rfl rfl rfl) fun _ => .same rfl rfl rfl rfl

theorem viGotoLine_honest (ln : Nat) : Honest s (s.viGotoLine ln) :=
  .ite (fun _ => .refl s) fun _ => .same rfl rfl rfl rfl

theorem viProcessInsert_honest (key : Key) : Honest s (s.viProcessInsert key) := by
  have cleared : Honest s { s with statusmsg := "" } := .same rfl rfl rfl rfl
  apply cleared.trans
  unfold viProcessInsert
  generalize { s with statusmsg := "" } = t
  cases key with
  | char c =>
    dsimp only
    split
    · exact .same rfl rfl rfl rfl
    split
    · exact t.viBackspace_honest
    split
    · exact t.viInsertNewline_honest
    split
    · exact (((viInsertChar_honest _ _).trans (viInsertChar_honest _ _)).trans
        (viInsertChar_honest _ _)).trans (viInsertChar_honest _ _)
    split
    · exact t.viInsertChar_honest c
    · exact .refl t
  | delete =>
    dsimp only
    split
    · exact t.viDeleteCharAt_honest _ _
    split
    · exact t.viJoinLineWithNext_honest _
    · exact .refl t
  | _ => exact .same rfl rfl rfl rfl

end Keys

section Commands

variable {s : Editor} (good : Good s) (running : s.running = true)
include good running

theorem Good.viExecuteCommand (turn : Turn) (unforced : s.command ≠ str ['q', '!']) :
    Good (s.viExecuteCommand turn) := by
  have normal : Good { s with mode := .normal } := good.same running rfl rfl rfl rfl
  have renamed (name : List UInt8) : Good { s with mode := .normal, filename := name } :=
    good.same running rfl rfl rfl rfl
  have quiet {t : Editor} (honest : Honest { s with mode := .normal } t) : Good t :=
    honest.good normal running
  unfold Editor.viExecuteCommand
  dsimp only
  refine Good.ite (fun _ => normal) fun _ => ?_
  apply Good.ite
  · intro _
    refine Good.ite (fun _ => good.same running rfl rfl rfl rfl) fun _ => ?_
    exact quiet ((viGotoLine_honest _ _).trans (.same rfl rfl rfl rfl))
  intro _
  apply Good.ite
  · intro _
    unfold setOption
    refine Good.ite (fun _ => good.same running rfl rfl rfl rfl) fun _ => ?_
    exact .ite (fun _ => good.same running rfl rfl rfl rfl) fun _ => good.same running rfl rfl rfl rfl
  intro _
  apply Good.ite
  · intro _
    refine Good.ite (fun _ => good.same running rfl rfl rfl rfl) fun unmodified => ?_
    have clean := good.clean (eq_false_of_ne_true unmodified)
    exact ⟨fun _ => clean, fun _ => clean⟩
  intro _
  refine Good.ite (fun forced => absurd forced unforced) fun _ => ?_
  refine Good.ite (fun _ => normal.save running turn) fun _ => ?_
  apply Good.ite
  · intro _
    refine Good.ite (fun _ => good.same running rfl rfl rfl rfl) fun _ => ?_
    exact .ite (fun _ => (renamed _).save running turn) fun _ => good.same running rfl rfl rfl rfl
  intro _
  refine Good.ite (fun _ => normal.quitIfSaved running turn) fun _ => ?_
  apply Good.ite
  · intro _
    exact .ite (fun _ => good.same running rfl rfl rfl rfl)
      fun _ => (renamed _).quitIfSaved running turn
  · intro _
    exact good.same running rfl rfl rfl rfl

end Commands

/-- `J` appends its blank, and then the lines are too long to be joined. -/
def joinRefused (s : Editor) : Bool :=
  s.cy + 1 < s.lineCount ∧ 0 < s.current.length ∧ s.current.length < VI_LINE_SIZE - 2 ∧
    VI_LINE_SIZE - 1 ≤ s.current.length + 1 + (s.line (s.cy + 1)).length

section Join

variable {s : Editor}

theorem line_setLine_self {row : Nat} (inside : row < s.lineCount) (text : List UInt8) :
    (s.setLine row text).line row = text := by
  have bound : row < (s.lines.set row text).length := by rwa [List.length_set]
  rw [line, setLine]
  dsimp only
  rw [List.getD_eq_getElem _ _ bound, List.getElem_set_self]

theorem line_setLine_of_ne {row other : Nat} (apart : row ≠ other) (text : List UInt8) :
    (s.setLine row text).line other = s.line other := by
  rw [line, setLine, line]
  dsimp only
  rw [List.getD_eq_getElem?_getD, List.getElem?_set_ne apart, List.getD_eq_getElem?_getD]

theorem viJoinLineWithNext_refused {row : Nat}
    (long : VI_LINE_SIZE - 1 ≤ (s.line row).length + (s.line (row + 1)).length) :
    s.viJoinLineWithNext row = s := by
  rw [viJoinLineWithNext, if_pos long, ite_self]

theorem viJoinLineWithNext_joined {row : Nat} (more : row + 1 < s.lineCount)
    (short : ¬ VI_LINE_SIZE - 1 ≤ (s.line row).length + (s.line (row + 1)).length) :
    (s.viJoinLineWithNext row).modified = true := by
  rw [viJoinLineWithNext, if_neg (by omega), if_neg short]

/-- The line and the next one after the blank has been appended. -/
theorem appendBlank_lines (more : s.cy + 1 < s.lineCount) (cx : Nat)
    (blank : s.current.length > 0 ∧ s.current.length < VI_LINE_SIZE - 2) :
    (s.appendBlank.moveTo cx s.cy).lines = s.lines.set s.cy (s.current ++ [ch ' ']) ∧
      ((s.appendBlank.moveTo cx s.cy).line s.cy).length = s.current.length + 1 ∧
      (s.appendBlank.moveTo cx s.cy).line (s.cy + 1) = s.line (s.cy + 1) := by
  rw [appendBlank, if_pos blank]
  refine ⟨rfl, ?_, line_setLine_of_ne (by omega) _⟩
  show ((s.setLine s.cy (s.current ++ [ch ' '])).line s.cy).length = _
  rw [line_setLine_self (Nat.lt_of_succ_lt more), List.length_append, List.length_singleton]

theorem appendBlank_others : s.appendBlank.modified = s.modified ∧ s.appendBlank.stored = s.stored ∧
      s.appendBlank.running = s.running ∧ s.appendBlank.lineCount = s.lineCount := by
  unfold appendBlank
  split
  · exact ⟨rfl, rfl, rfl, List.length_set⟩
  · exact ⟨rfl, rfl, rfl, rfl⟩

theorem joinLines_refused (refused : s.joinRefused) :
    s.joinLines.lines = s.lines.set s.cy (s.current ++ [ch ' ']) ∧
      s.joinLines.modified = s.modified ∧ s.joinLines.stored = s.stored ∧
      s.joinLines.running = s.running := by
  obtain ⟨more, nonempty, short, long⟩ := of_decide_eq_true refused
  obtain ⟨lines, here, next⟩ :=
    appendBlank_lines more s.appendBlank.current.length ⟨nonempty, short⟩
  obtain ⟨modified, stored, running, _⟩ := s.appendBlank_others
  rw [joinLines, if_pos more, viJoinLineWithNext_refused (by rw [here, next]; exact long)]
  exact ⟨lines, modified, stored, running⟩

theorem set_blank_ne (more : s.cy + 1 < s.lineCount) :
    s.lines.set s.cy (s.current ++ [ch ' ']) ≠ s.lines := by
  intro same
  have row := line_setLine_self (Nat.lt_of_succ_lt more) (s.current ++ [ch ' '])
  rw [line, setLine] at row
  dsimp only at row
  rw [same] at row
  have sizes := congrArg List.length row
  rw [List.length_append, List.length_singleton, current, line] at sizes
  omega

theorem joinLines_honest (joined : s.joinRefused = false) : Honest s s.joinLines := by
  have joined := of_decide_eq_false joined
  rw [joinLines]
  refine Honest.ite (fun more => ?_) fun _ => .refl s
  by_cases blank : s.current.length > 0 ∧ s.current.length < VI_LINE_SIZE - 2
  · obtain ⟨_, here, next⟩ := appendBlank_lines more s.appendBlank.current.length blank
    obtain ⟨_, stored, running, count⟩ := s.appendBlank_others
    have tried := viJoinLineWithNext_honest (s.appendBlank.moveTo s.appendBlank.current.length s.cy) s.cy
    refine .changed ?_ (tried.stored.trans stored) (tried.running.trans running)
    apply viJoinLineWithNext_joined
    · show s.cy + 1 < s.appendBlank.lineCount
      rwa [count]
    · rw [here, next]
      intro long
      exact joined ⟨more, blank.1, blank.2, long⟩
  · rw [appendBlank, if_neg blank]
    have moved : Honest s (s.moveTo s.current.length s.cy) := .same rfl rfl rfl rfl
    exact moved.trans (viJoinLineWithNext_honest _ _)

end Join

def ready (s : Editor) : Editor := s.viClampCursor.viScroll

theorem ready_honest (s : Editor) : Honest s s.ready := .same rfl rfl rfl rfl

def saves (turn : Turn) (s : Editor) : Bool :=
  s.filename ≠ [] ∧ saveFits 0 s.lines ∧ turn.opened ∧ (s.lineCount = 0 ∨ turn.written)

theorem viSaveFile_fst (turn : Turn) (s : Editor) : (s.viSaveFile turn).1 = s.saves turn := by
  unfold viSaveFile saves
  split
  · rename_i unnamed
    simp [unnamed]
  split
  · rename_i large
    simp [large]
  split
  · rename_i closed
    simp [closed]
  split
  · rename_i failed
    simp [failed.2, Nat.ne_of_gt failed.1]
  · rename_i named fits opened done
    have written : s.lineCount = 0 ∨ turn.written = true := by
      by_contra failed
      rw [not_or] at failed
      exact done ⟨Nat.pos_of_ne_zero failed.1, eq_false_of_ne_true failed.2⟩
    simp [named, fits, opened, written]

/-- The `:q!` command. -/
def Forces (t : Turn) (s : Editor) : Prop :=
  s.replacing = false ∧ s.mode = .command ∧ (t.key = .char 13 ∨ t.key = .char NL) ∧
    s.command = str ['q', '!']

/-- A `J` that appends its blank and is then refused, while the text shows no changes. -/
def JoinsInVain (t : Turn) (s : Editor) : Prop :=
  s.replacing = false ∧ s.mode = .normal ∧ t.key = .char (ch 'J') ∧ s.ready.joinRefused ∧
    s.modified = false

/-- A `ZZ` whose save fails, while the text differs from what is stored. -/
def QuitsUnsaved (t : Turn) (s : Editor) : Prop :=
  s.replacing = false ∧ s.mode = .normal ∧ t.key = .char (ch 'Z') ∧
    s.lastKey = some (.char (ch 'Z')) ∧ s.modified = true ∧ s.saves t = false ∧ s.lines ≠ s.stored

/-- The turn loses track of nothing. -/
def Safe (t : Turn) (s : Editor) : Prop :=
  s.running = true → ¬ JoinsInVain t s ∧ ¬ QuitsUnsaved t s

section Turns

variable {s : Editor} (good : Good s) (running : s.running = true)
include good running

theorem joinLines_good_iff : Good s.joinLines ↔ ¬ (s.joinRefused ∧ s.modified = false) := by
  cases refused : s.joinRefused with
  | false => exact iff_of_true ((joinLines_honest refused).good good running) (by simp)
  | true =>
    obtain ⟨lines, modified, stored, still⟩ := joinLines_refused refused
    have changed := set_blank_ne (of_decide_eq_true refused).1
    constructor
    · intro later unchanged
      have same := later.clean (modified.trans unchanged.2)
      rw [lines, stored, ← good.clean unchanged.2] at same
      exact changed same
    · intro noted
      refine ⟨?_, ?_⟩
      · intro unmodified
        exact absurd ⟨rfl, modified.symm.trans unmodified⟩ noted
      · intro stopped
        rw [still, running] at stopped
        exact absurd stopped (by decide)

omit running in
theorem saveAndQuit_good_iff (t : Turn) : Good (s.saveAndQuit t) ↔
      ¬ (s.modified = true ∧ s.saves t = false ∧ s.lines ≠ s.stored) := by
  have saved := viSaveFile_cases t s
  rw [viSaveFile_fst] at saved
  cases modified : s.modified with
  | false =>
    have clean := good.clean modified
    apply iff_of_true _ (by simp)
    unfold saveAndQuit
    simp only [modified, Bool.false_eq_true, ↓reduceIte]
    exact ⟨fun _ => clean, fun _ => clean⟩
  | true =>
    unfold saveAndQuit
    simp only [modified, ↓reduceIte, true_and]
    obtain ⟨lines, _, ⟨done, stored⟩ | ⟨failed, stored, _⟩⟩ := saved
    · apply iff_of_true
      · exact ⟨fun _ => lines.trans stored.symm, fun _ => lines.trans stored.symm⟩
      · intro lost
        rw [done] at lost
        exact absurd lost.1 (by decide)
    · constructor
      · intro later lost
        have same := later.ended rfl
        dsimp only at same
        rw [lines, stored] at same
        exact lost.2 same
      · intro kept
        have same : s.lines = s.stored := by
          by_contra apart
          exact kept ⟨failed, apart⟩
        have equal := lines.trans (same.trans stored.symm)
        exact ⟨fun _ => equal, fun _ => equal⟩

omit good running in
theorem normalChar_join (t : Turn) :
    s.normalChar (ch 'J') t = { s.joinLines with lastKey := some (.char (ch 'J')) } := rfl

omit good running in
theorem normalChar_quit (t : Turn) (last : s.lastKey = some (.char (ch 'Z'))) :
    s.normalChar (ch 'Z') t = s.saveAndQuit t := by
  have second : s.normalChar (ch 'Z') t = if s.lastKey = some (.char (ch 'Z')) then s.saveAndQuit t
      else { s with lastKey := some (.char (ch 'Z')) } := rfl
  rw [second, if_pos last]

theorem normalChar_good_iff (c : UInt8) (t : Turn) :
    Good (s.normalChar c t) ↔ ¬ (c = ch 'J' ∧ s.joinRefused ∧ s.modified = false) ∧
      ¬ (c = ch 'Z' ∧ s.lastKey = some (.char (ch 'Z')) ∧ s.modified = true ∧ s.saves t = false ∧
        s.lines ≠ s.stored) := by
  by_cases join : c = ch 'J'
  · have noted : Good (s.normalChar c t) ↔ Good s.joinLines := by
      rw [join, normalChar_join]
      exact ⟨fun later => ⟨later.clean, later.ended⟩, fun later => ⟨later.clean, later.ended⟩⟩
    rw [noted, joinLines_good_iff good running]
    simp [join, show ch 'J' ≠ ch 'Z' by decide]
  by_cases quit : c = ch 'Z' ∧ s.lastKey = some (.char (ch 'Z'))
  · rw [quit.1, normalChar_quit t quit.2, saveAndQuit_good_iff good]
    simp [show ch 'Z' ≠ ch 'J' by decide, quit.2]
  · apply iff_of_true ((s.normalChar_honest t join quit).good good running)
    refine ⟨fun joins => join joins.1, fun quits => quit ⟨quits.1, quits.2.1⟩⟩

theorem viProcessNormal_good_iff (t : Turn) : Good (s.viProcessNormal t) ↔
      ¬ (t.key = .char (ch 'J') ∧ s.joinRefused ∧ s.modified = false) ∧
      ¬ (t.key = .char (ch 'Z') ∧ s.lastKey = some (.char (ch 'Z')) ∧ s.modified = true ∧
        s.saves t = false ∧ s.lines ≠ s.stored) := by
  have cleared : Good { s with statusmsg := "" } := good.same running rfl rfl rfl rfl
  unfold viProcessNormal
  cases key : t.key with
  | char c =>
    dsimp only
    rw [normalChar_good_iff cleared running, Key.char.injEq, Key.char.injEq]
    rfl
  | _ =>
    apply iff_of_true
    · exact good.same running rfl rfl rfl rfl
    · simp

theorem viProcessCommand_good (t : Turn)
    (unforced : ¬ ((t.key = .char 13 ∨ t.key = .char NL) ∧ s.command = str ['q', '!'])) :
    Good (s.viProcessCommand t) := by
  unfold viProcessCommand
  cases key : t.key with
  | char c =>
    dsimp only
    refine Good.ite (fun _ => good.same running rfl rfl rfl rfl) fun _ => ?_
    refine Good.ite (fun entered => ?_) fun _ => ?_
    · apply good.viExecuteCommand running t
      intro forced
      apply unforced
      rw [key, Key.char.injEq, Key.char.injEq]
      exact ⟨entered, forced⟩
    refine Good.ite (fun _ => good.same running rfl rfl rfl rfl) fun _ => ?_
    exact Good.ite (fun _ => good.same running rfl rfl rfl rfl) fun _ => good
  | _ => exact good

/-- A turn keeps track of the changes exactly when it is safe. -/
theorem turn_good_iff (t : Turn) (unforced : ¬ Forces t s) :
    Good (s.turn t) ↔ ¬ JoinsInVain t s ∧ ¬ QuitsUnsaved t s := by
  have prepared : Good s.ready := s.ready_honest.good good running
  unfold turn JoinsInVain QuitsUnsaved
  cases replacing : s.replacing with
  | true =>
    rw [if_pos rfl]
    apply iff_of_true ((s.replaceChar_honest t.key).good good running)
    simp
  | false =>
    simp only [Bool.false_eq_true, ↓reduceIte, true_and]
    have mode : (s.viClampCursor.viScroll).mode = s.mode := rfl
    rw [mode]
    cases which : s.mode with
    | normal =>
      dsimp only
      rw [show s.viClampCursor.viScroll = s.ready from rfl,
        viProcessNormal_good_iff prepared running t]
      simp only [true_and]
      rfl
    | insert =>
      apply iff_of_true
      · exact (s.ready.viProcessInsert_honest t.key).good prepared running
      · simp
    | command =>
      apply iff_of_true
      · apply viProcessCommand_good prepared running t
        intro forced
        exact unforced ⟨replacing, which, forced.1, forced.2⟩
      · simp

end Turns

instance (t : Turn) (s : Editor) : Decidable (Forces t s) :=
  inferInstanceAs (Decidable (_ ∧ _))

theorem main_good (argument : Option (List UInt8 × File)) (screenRows : Nat) :
    Good (main argument screenRows) := by
  unfold main
  split <;> exact ⟨fun _ => rfl, fun _ => rfl⟩

/-- In a run without `:q!` no change is lost at any time if and only if no `J` is refused after it
has appended its blank to an unchanged text, and no `ZZ` fails to save a changed one. -/
theorem vi_tracks_changes_iff (argument : Option (List UInt8 × File)) (screenRows : Nat)
    {turns : List Turn}
    (unforced : Transition.Along step (fun t s => ¬ Forces t s) turns (main argument screenRows)) :
    (∀ n s, Transition.run step (turns.take n) (main argument screenRows) = some s → s.Good) ↔
      Transition.Along step Safe turns (main argument screenRows) := by
  apply Transition.always_iff_along _ _ (main_good argument screenRows) unforced
  · intro t s s' unforced good taken
    unfold step at taken
    split at taken
    · rename_i running
      rw [← Option.some.inj taken, turn_good_iff good running t unforced, Safe]
      exact ⟨fun safe _ => safe, fun safe => safe running⟩
    · exact absurd taken nofun
  · intro t s _ _ stopped running
    rw [step, if_pos running] at stopped
    exact absurd stopped nofun

def typing (keys : List Char) : List Turn :=
  keys.map fun key => ⟨.char (ch key), false, false⟩

instance (t : Turn) (s : Editor) : Decidable (Safe t s) :=
  inferInstanceAs (Decidable (_ → ¬ (_ ∧ _) ∧ ¬ (_ ∧ _)))

/-- `i a ESC Z Z`, with a file that can be written. -/
def saving : List Turn :=
  ['i', 'a', Char.ofNat 27, 'Z', 'Z'].map fun key => ⟨.char (ch key), true, true⟩

def oneLine : File := .bytes [ch 'b', NL]

/-- A letter is inserted, and the text is saved and the loop left. -/
theorem vi_tracks_changes_saving :
    (Transition.run step saving (main (some ([ch 'f'], oneLine)) 22)).map
        (fun s => (s.running, s.lines, s.stored)) =
      some (false, [[ch 'a', ch 'b']], [[ch 'a', ch 'b']]) ∧
      ∀ n s, Transition.run step (saving.take n) (main (some ([ch 'f'], oneLine)) 22) = some s →
        s.Good := by
  have runs : (Transition.run step saving (main (some ([ch 'f'], oneLine)) 22)).map
        (fun s => (s.running, s.lines, s.stored)) =
      some (false, [[ch 'a', ch 'b']], [[ch 'a', ch 'b']]) ∧
      Transition.Along step (fun t s => ¬ Forces t s) saving (main (some ([ch 'f'], oneLine)) 22) ∧
      Transition.Along step Safe saving (main (some ([ch 'f'], oneLine)) 22) := by
    decide +kernel
  obtain ⟨ends, unforced, safe⟩ := runs
  exact ⟨ends, (vi_tracks_changes_iff (some ([ch 'f'], oneLine)) 22 unforced).mpr safe⟩

def longLines : File :=
  .bytes (List.replicate 200 (ch 'a') ++ NL :: List.replicate 100 (ch 'b'))

/-- `i a ESC Z Z` without a file name ends the loop with a text that was never written; and `J` on
two long lines changes the text of an editor that shows no changes, so that `:q` ends it. -/
theorem vi_loses_changes :
    (Transition.run step (typing ['i', 'a', Char.ofNat 27, 'Z', 'Z']) (main none 22)).map
        (fun s => (s.running, s.lines, s.stored)) = some (false, [[ch 'a']], [[]]) ∧
      ((Transition.run step (typing ['J']) (main (some ([ch 'f'], longLines)) 22)).map
        fun s => (s.modified, decide (s.lines = s.stored))) = some (false, false) ∧
      ((Transition.run step (typing ['J', ':', 'q', Char.ofNat 10])
        (main (some ([ch 'f'], longLines)) 22)).map
        fun s => (s.running, decide (s.lines = s.stored))) = some (false, false) := by
  decide +kernel

end Editor

end SirpairOs.Vi
