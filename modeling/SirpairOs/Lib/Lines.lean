import Mathlib.Data.List.Basic

set_option autoImplicit false

/-! The lines of a text: what stands before each separator, and what comes after the last
one. A text that arrives in pieces is cut piece by piece, with the unfinished line put
before the next piece. -/
namespace SirpairOs.Lines

variable {α : Type}

def join (sep : α) (lines : List (List α)) : List α := lines.flatMap (· ++ [sep])

section

variable {sep : α}

@[simp] theorem join_nil : join sep ([] : List (List α)) = [] := rfl

@[simp] theorem join_cons (line : List α) (lines : List (List α)) :
    join sep (line :: lines) = line ++ sep :: join sep lines := by
  simp [join]

@[simp] theorem join_append (first rest : List (List α)) :
    join sep (first ++ rest) = join sep first ++ join sep rest := by
  simp [join]

end

variable [DecidableEq α]

/-- The terminated lines and the unfinished line of a text. -/
def cut (sep : α) : List α → List (List α) × List α
  | [] => ([], [])
  | b :: s =>
    if b = sep then ([] :: (cut sep s).1, (cut sep s).2)
    else match (cut sep s).1 with
      | [] => ([], b :: (cut sep s).2)
      | line :: lines => ((b :: line) :: lines, (cut sep s).2)

variable {sep : α}

theorem cut_of_not_mem {s : List α} (none : sep ∉ s) : cut sep s = ([], s) := by
  induction s with
  | nil => rfl
  | cons b s ih =>
    rw [List.mem_cons, not_or] at none
    rw [cut, if_neg (Ne.symm none.1), ih none.2]

theorem cut_line {line : List α} (plain : sep ∉ line) (s : List α) :
    cut sep (line ++ sep :: s) = (line :: (cut sep s).1, (cut sep s).2) := by
  induction line with
  | nil => rw [List.nil_append, cut, if_pos rfl]
  | cons b line ih =>
    rw [List.mem_cons, not_or] at plain
    rw [List.cons_append, cut, if_neg (Ne.symm plain.1), ih plain.2]

theorem cut_join_append {lines : List (List α)} (plain : ∀ line ∈ lines, sep ∉ line) (s : List α) :
    cut sep (join sep lines ++ s) = (lines ++ (cut sep s).1, (cut sep s).2) := by
  induction lines with
  | nil => rfl
  | cons line lines ih =>
    rw [List.forall_mem_cons] at plain
    rw [join_cons, List.append_assoc, List.cons_append, cut_line plain.1, ih plain.2,
      List.cons_append]

/-- Every text is its lines and the unfinished line, none of which has a separator. -/
theorem cut_spec (sep : α) (s : List α) :
    join sep (cut sep s).1 ++ (cut sep s).2 = s ∧ (∀ line ∈ (cut sep s).1, sep ∉ line) ∧
      sep ∉ (cut sep s).2 := by
  induction s with
  | nil => simp [cut]
  | cons b s ih =>
    by_cases ends : b = sep
    · simp [cut, ends, ih.1, ih.2.2]
      exact ih.2.1
    · cases lines : (cut sep s).1 with
      | nil =>
        rw [lines] at ih
        simp [cut, ends, lines, ih.2.2, Ne.symm ends]
        exact ih.1
      | cons line rest =>
        rw [lines, List.forall_mem_cons] at ih
        simp [cut, ends, lines, ih.2.2, Ne.symm ends, ih.2.1.1]
        refine And.intro ?_ ih.2.1.2
        have := ih.1
        simpa using this

theorem join_cut (sep : α) (s : List α) : join sep (cut sep s).1 ++ (cut sep s).2 = s :=
  (cut_spec sep s).1

theorem not_mem_lines (sep : α) (s : List α) : ∀ line ∈ (cut sep s).1, sep ∉ line :=
  (cut_spec sep s).2.1

theorem not_mem_unfinished (sep : α) (s : List α) : sep ∉ (cut sep s).2 := (cut_spec sep s).2.2

theorem cut_append (sep : α) (s t : List α) : cut sep (s ++ t) =
      ((cut sep s).1 ++ (cut sep ((cut sep s).2 ++ t)).1, (cut sep ((cut sep s).2 ++ t)).2) := by
  have whole := cut_join_append (not_mem_lines sep s) ((cut sep s).2 ++ t)
  rwa [← List.append_assoc, join_cut] at whole

theorem lines_eq_nil_iff (sep : α) (s : List α) : (cut sep s).1 = [] ↔ sep ∉ s := by
  constructor
  · intro none member
    have whole := join_cut sep s
    rw [none, join_nil, List.nil_append] at whole
    rw [← whole] at member
    exact not_mem_unfinished sep s member
  · intro none
    rw [cut_of_not_mem none]

/-- Bytes before the first line only make that line longer. -/
theorem join_lines_append_left {s t : List α} (plain : sep ∉ s) (member : sep ∈ t) :
    join sep (cut sep (s ++ t)).1 = s ++ join sep (cut sep t).1 := by
  have whole := join_cut sep t
  have lines := not_mem_lines sep t
  have last := not_mem_unfinished sep t
  cases split : (cut sep t).1 with
  | nil => exact absurd member ((lines_eq_nil_iff sep t).mp split)
  | cons line rest =>
    rw [split, List.forall_mem_cons] at lines
    rw [split] at whole
    have longer : s ++ t = join sep ((s ++ line) :: rest) ++ (cut sep t).2 := by
      rw [join_cons, List.append_assoc s, List.append_assoc s, ← join_cons, whole]
    rw [longer, cut_join_append]
    · simp [cut_of_not_mem last]
    · rw [List.forall_mem_cons, List.mem_append, not_or]
      exact ⟨⟨plain, lines.1⟩, lines.2⟩

end SirpairOs.Lines
