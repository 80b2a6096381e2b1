import Mathlib.Data.List.Induction

/-! The pattern matcher of `user/grep.c` and the language of its patterns. A string is the
list of its bytes before the NUL. -/
namespace SirpairOs.Grep

def caret : UInt8 := 94
def dollar : UInt8 := 36
def dot : UInt8 := 46
def star : UInt8 := 42

/-- The loop of `matchstar`; `here` is `matchhere` of the rest of the pattern. -/
def starLoop (c : UInt8) (here : List UInt8 → Bool) : List UInt8 → Bool
  | [] => here []
  | t :: text => here (t :: text) || ((t == c || c == dot) && starLoop c here text)

def oneChar (c : UInt8) (here : List UInt8 → Bool) : List UInt8 → Bool
  | [] => false
  | t :: text => (c == dot || c == t) && here text

def matchhere : List UInt8 → List UInt8 → Bool
  | [], _ => true
  -- after the last character the rest of the pattern is empty and matches
  | [c], text => if c = dollar then text.isEmpty else oneChar c (fun _ => true) text
  | c :: d :: re, text =>
    if d = star then starLoop c (matchhere re) text else oneChar c (matchhere (d :: re)) text

def matchstar (c : UInt8) (re text : List UInt8) : Bool := starLoop c (matchhere re) text

/-- `matchhere` calls `matchstar`, which calls it back with the rest of the pattern. -/
theorem matchhere_cons_cons (c d : UInt8) (re text : List UInt8) : matchhere (c :: d :: re) text =
    if d = star then matchstar c re text else oneChar c (matchhere (d :: re)) text := by
  rw [matchhere, matchstar]

/-- The loop of `match`, over the suffixes of the text down to the empty one. -/
def anywhere (re : List UInt8) : List UInt8 → Bool
  | [] => matchhere re []
  | t :: text => matchhere re (t :: text) || anywhere re text

def matchText : List UInt8 → List UInt8 → Bool
  | [], text => anywhere [] text
  | c :: re, text => if c = caret then matchhere re text else anywhere (c :: re) text

/-- A literal character or any character, once or any number of times. -/
structure Item where
  char : Option UInt8
  starred : Bool
deriving DecidableEq, Repr

namespace Item

def accepts (item : Item) (c : UInt8) : Prop := ∀ literal ∈ item.char, c = literal

def ofChar (c : UInt8) (starred : Bool) : Item := ⟨if c = dot then none else some c, starred⟩

theorem accepts_ofChar (c t : UInt8) (starred : Bool) :
    (ofChar c starred).accepts t ↔ c = dot ∨ t = c := by
  by_cases any : c = dot
  · simp [accepts, ofChar, any]
  · simp [accepts, ofChar, any]

end Item

/-- A pattern read from left to right: a character followed by '*' is starred. -/
def items : List UInt8 → List Item
  | [] => []
  | [c] => [Item.ofChar c false]
  | c :: d :: re =>
    if d = star then Item.ofChar c true :: items re else Item.ofChar c false :: items (d :: re)

/-- A text cut into one piece for each item. -/
inductive Decomposes : List Item → List UInt8 → Prop
  | nil : Decomposes [] []
  | once (item : Item) (rest : List Item) (t : UInt8) (text : List UInt8)
      (single : item.starred = false) (accepts : item.accepts t) (tail : Decomposes rest text) :
      Decomposes (item :: rest) (t :: text)
  | many (item : Item) (rest : List Item) (repeated text : List UInt8)
      (starred : item.starred = true) (accepts : ∀ t ∈ repeated, item.accepts t)
      (tail : Decomposes rest text) : Decomposes (item :: rest) (repeated ++ text)

/-- A final '$' of the body; it cannot be starred, a '*' would come after it. -/
def endAnchored (body : List UInt8) : Prop := body.getLast? = some dollar

instance (body : List UInt8) : Decidable (endAnchored body) := by
  unfold endAnchored
  infer_instance

def bodyItems (body : List UInt8) : List Item :=
  items (if endAnchored body then body.dropLast else body)

/-- The body of a pattern describes a piece at the front of the text, the whole of it
when there is a final '$'. -/
def BodyMatches (body text : List UInt8) : Prop :=
  ∃ found after, text = found ++ after ∧ (endAnchored body → after = []) ∧
    Decomposes (bodyItems body) found

/-- What a pattern stands for: some piece of the text, at its front if the pattern begins
with '^' and at its end if it ends with '$', falls into the items. -/
def Describes (re text : List UInt8) : Prop :=
  let body := if re.head? = some caret then re.tail else re
  ∃ before found after, text = before ++ found ++ after ∧
    (re.head? = some caret → before = []) ∧ (endAnchored body → after = []) ∧
    Decomposes (bodyItems body) found

variable (c : UInt8) (re : List UInt8) (here : List UInt8 → Bool)

theorem starLoop_iff (text : List UInt8) : starLoop c here text = true ↔
      ∃ repeated rest, text = repeated ++ rest ∧ (∀ t ∈ repeated, c = dot ∨ t = c) ∧
        here rest = true := by
  induction text with
  | nil =>
    simp only [starLoop]
    constructor
    · intro found
      exact ⟨[], [], rfl, fun t none => absurd none List.not_mem_nil, found⟩
    · rintro ⟨repeated, rest, cut, _, found⟩
      rw [List.nil_eq, List.append_eq_nil_iff] at cut
      rwa [cut.2] at found
  | cons t text ih =>
    simp only [starLoop, Bool.or_eq_true, Bool.and_eq_true, beq_iff_eq, ih]
    constructor
    · intro found
      rcases found with now | ⟨fits, repeated, rest, cut, all, found⟩
      · exact ⟨[], t :: text, rfl, fun t none => absurd none List.not_mem_nil, now⟩
      · refine ⟨t :: repeated, rest, by rw [cut, List.cons_append], ?_, found⟩
        exact List.forall_mem_cons.mpr ⟨fits.symm, all⟩
    · rintro ⟨repeated, rest, cut, all, found⟩
      cases repeated with
      | nil =>
        apply Or.inl
        rwa [cut]
      | cons u repeated =>
        rw [List.cons_append, List.cons.injEq] at cut
        rw [← cut.1, List.forall_mem_cons] at all
        exact Or.inr ⟨all.1.symm, repeated, rest, cut.2, all.2, found⟩

theorem oneChar_iff (text : List UInt8) : oneChar c here text = true ↔
      ∃ t rest, text = t :: rest ∧ (c = dot ∨ t = c) ∧ here rest = true := by
  cases text with
  | nil => simp [oneChar]
  | cons t text =>
    simp only [oneChar, Bool.and_eq_true, Bool.or_eq_true, beq_iff_eq, List.cons.injEq]
    constructor
    · intro found
      exact ⟨t, text, ⟨rfl, rfl⟩, found.1.imp id Eq.symm, found.2⟩
    · rintro ⟨u, rest, ⟨rfl, rfl⟩, fits, found⟩
      exact ⟨fits.imp id Eq.symm, found⟩

variable (text : List UInt8)

theorem anywhere_iff :
    anywhere re text = true ↔ ∃ before rest, text = before ++ rest ∧ matchhere re rest = true := by
  induction text with
  | nil =>
    simp only [anywhere, List.nil_eq, List.append_eq_nil_iff]
    constructor
    · intro found
      exact ⟨[], [], ⟨rfl, rfl⟩, found⟩
    · rintro ⟨_, _, ⟨rfl, rfl⟩, found⟩
      exact found
  | cons t text ih =>
    simp only [anywhere, Bool.or_eq_true, ih]
    constructor
    · intro found
      rcases found with now | ⟨before, rest, cut, found⟩
      · exact ⟨[], t :: text, rfl, now⟩
      · exact ⟨t :: before, rest, by rw [cut, List.cons_append], found⟩
    · rintro ⟨before, rest, cut, found⟩
      cases before with
      | nil =>
        apply Or.inl
        rwa [cut]
      | cons u before =>
        rw [List.cons_append, List.cons.injEq] at cut
        exact Or.inr ⟨before, rest, cut.2, found⟩

theorem decomposes_once_iff (item : Item) (rest : List Item) (text : List UInt8)
    (single : item.starred = false) : Decomposes (item :: rest) text ↔
      ∃ t tail, text = t :: tail ∧ item.accepts t ∧ Decomposes rest tail := by
  constructor
  · intro cut
    cases cut with
    | once _ _ t tail _ accepts cut => exact ⟨t, tail, rfl, accepts, cut⟩
    | many _ _ _ _ starred => rw [single] at starred; cases starred
  · rintro ⟨t, tail, rfl, accepts, cut⟩
    exact Decomposes.once item rest t tail single accepts cut

theorem decomposes_many_iff (item : Item) (rest : List Item) (text : List UInt8)
    (starred : item.starred = true) : Decomposes (item :: rest) text ↔
      ∃ repeated tail, text = repeated ++ tail ∧ (∀ t ∈ repeated, item.accepts t) ∧
        Decomposes rest tail := by
  constructor
  · intro cut
    cases cut with
    | once _ _ _ _ single => rw [starred] at single; cases single
    | many _ _ repeated tail _ accepts cut => exact ⟨repeated, tail, rfl, accepts, cut⟩
  · rintro ⟨repeated, tail, rfl, accepts, cut⟩
    exact Decomposes.many item rest repeated tail starred accepts cut

theorem decomposes_nil_iff : Decomposes [] text ↔ text = [] := by
  constructor
  · intro cut
    cases cut
    rfl
  · rintro rfl
    exact Decomposes.nil

/-! The last character of a pattern is seen through its first item. -/

variable (d : UInt8)

theorem endAnchored_cons (re : List UInt8) :
    endAnchored (c :: d :: re) ↔ endAnchored (d :: re) := by
  simp [endAnchored]

theorem endAnchored_star (re : List UInt8) : endAnchored (c :: star :: re) ↔ endAnchored re := by
  cases re with
  | nil => simp [endAnchored, star, dollar]
  | cons d re => rw [endAnchored_cons, endAnchored_cons]

theorem bodyItems_star (re : List UInt8) :
    bodyItems (c :: star :: re) = Item.ofChar c true :: bodyItems re := by
  simp only [bodyItems, endAnchored_star]
  by_cases anchored : endAnchored re
  · cases re with
    | nil => simp [endAnchored] at anchored
    | cons d re =>
      simp only [anchored, if_true, List.dropLast_cons_cons, items]
  · simp only [anchored, if_false, items, if_true]

theorem bodyItems_once (re : List UInt8) (unstarred : d ≠ star) :
    bodyItems (c :: d :: re) = Item.ofChar c false :: bodyItems (d :: re) := by
  simp only [bodyItems, endAnchored_cons]
  by_cases anchored : endAnchored (d :: re)
  · cases re with
    | nil => simp only [anchored, if_true, List.dropLast_cons_cons, List.dropLast_singleton, items]
    | cons e re => simp only [anchored, if_true, List.dropLast_cons_cons, items, unstarred, if_false]
  · simp only [anchored, if_false, items, unstarred]

theorem bodyMatches_nil : BodyMatches [] text := by
  refine ⟨[], text, rfl, ?_, Decomposes.nil⟩
  intro anchored
  cases anchored

theorem bodyMatches_last : BodyMatches [c] text ↔
      if c = dollar then text = [] else ∃ t rest, text = t :: rest ∧ (c = dot ∨ t = c) := by
  have anchored : endAnchored [c] ↔ c = dollar := by simp [endAnchored]
  simp only [BodyMatches, bodyItems, anchored]
  by_cases last : c = dollar
  · simp only [last, if_true, List.dropLast_singleton, items, decomposes_nil_iff, true_implies]
    constructor
    · rintro ⟨found, after, cut, none, empty⟩
      rw [cut, none, empty, List.nil_append]
    · intro empty
      exact ⟨[], [], empty, rfl, rfl⟩
  · simp only [last, if_false, items, false_implies, true_and,
      decomposes_once_iff (Item.ofChar c false) [] _ rfl, decomposes_nil_iff, Item.accepts_ofChar]
    constructor
    · rintro ⟨found, after, cut, t, tail, first, fits, empty⟩
      exact ⟨t, tail ++ after, by rw [cut, first, List.cons_append], fits⟩
    · rintro ⟨t, rest, cut, fits⟩
      exact ⟨[t], rest, cut, t, [], rfl, fits, rfl⟩

theorem bodyMatches_once (re text : List UInt8) (unstarred : d ≠ star) :
    BodyMatches (c :: d :: re) text ↔
      ∃ t rest, text = t :: rest ∧ (c = dot ∨ t = c) ∧ BodyMatches (d :: re) rest := by
  simp only [BodyMatches, bodyItems_once c d re unstarred, endAnchored_cons,
    decomposes_once_iff (Item.ofChar c false) _ _ rfl, Item.accepts_ofChar]
  constructor
  · rintro ⟨found, after, cut, anchored, t, tail, first, fits, inner⟩
    refine ⟨t, tail ++ after, by rw [cut, first, List.cons_append], fits, ?_⟩
    exact ⟨tail, after, rfl, anchored, inner⟩
  · rintro ⟨t, rest, cut, fits, tail, after, inner, anchored, decomposed⟩
    refine ⟨t :: tail, after, by rw [cut, inner, List.cons_append], anchored, ?_⟩
    exact ⟨t, tail, rfl, fits, decomposed⟩

theorem bodyMatches_star (re text : List UInt8) : BodyMatches (c :: star :: re) text ↔
      ∃ repeated rest, text = repeated ++ rest ∧ (∀ t ∈ repeated, c = dot ∨ t = c) ∧
        BodyMatches re rest := by
  simp only [BodyMatches, bodyItems_star, endAnchored_star,
    decomposes_many_iff (Item.ofChar c true) _ _ rfl, Item.accepts_ofChar]
  constructor
  · rintro ⟨found, after, cut, anchored, repeated, tail, first, fits, inner⟩
    refine ⟨repeated, tail ++ after, by rw [cut, first, List.append_assoc], fits, ?_⟩
    exact ⟨tail, after, rfl, anchored, inner⟩
  · rintro ⟨repeated, rest, cut, fits, tail, after, inner, anchored, decomposed⟩
    refine ⟨repeated ++ tail, after, by rw [cut, inner, List.append_assoc], anchored, ?_⟩
    exact ⟨repeated, tail, rfl, fits, decomposed⟩

theorem matchhere_iff : matchhere re text = true ↔ BodyMatches re text := by
  induction re using List.twoStepInduction generalizing text with
  | nil =>
    simp only [matchhere, true_iff]
    exact bodyMatches_nil text
  | singleton c =>
    rw [bodyMatches_last, matchhere]
    split
    · rw [List.isEmpty_iff]
    · simp only [oneChar_iff, and_true]
  | cons_cons c d re rest next =>
    rw [matchhere_cons_cons]
    split
    · rename_i starred
      simp only [matchstar, starLoop_iff, starred, bodyMatches_star, rest]
    · rename_i unstarred
      simp only [oneChar_iff, bodyMatches_once c d re text unstarred, next]

/-- A body found at some place of the text. -/
theorem anywhere_matches_iff : anywhere re text = true ↔
      ∃ before found after, text = before ++ found ++ after ∧ (endAnchored re → after = []) ∧
        Decomposes (bodyItems re) found := by
  simp only [anywhere_iff, matchhere_iff, BodyMatches]
  constructor
  · rintro ⟨before, rest, cut, found, after, inner, fits⟩
    exact ⟨before, found, after, by rw [cut, inner, List.append_assoc], fits⟩
  · rintro ⟨before, found, after, cut, fits⟩
    exact ⟨before, found ++ after, by rw [cut, List.append_assoc], found, after, rfl, fits⟩

/-- The matcher says yes exactly to the texts its pattern describes. It is a total function:
every recursive call is on a shorter pattern, or on a shorter text for the same one. -/
theorem matchText_iff (re text : List UInt8) : matchText re text = true ↔ Describes re text := by
  cases re with
  | nil =>
    rw [matchText, anywhere_matches_iff]
    simp only [Describes, List.head?_nil, reduceCtorEq, if_false, false_implies, true_and]
  | cons c re =>
    rw [matchText]
    by_cases front : c = caret
    · simp only [front, if_true, matchhere_iff, Describes, List.head?_cons, List.tail_cons,
        true_implies, BodyMatches]
      constructor
      · rintro ⟨found, after, cut, fits⟩
        exact ⟨[], found, after, cut, rfl, fits⟩
      · rintro ⟨before, found, after, cut, none, fits⟩
        exact ⟨found, after, by rw [cut, none, List.nil_append], fits⟩
    · simp only [front, if_false, anywhere_matches_iff, Describes, List.head?_cons,
        Option.some.injEq, false_implies, true_and]

end SirpairOs.Grep
