import Mathlib.Logic.Function.Basic

set_option autoImplicit false

/-! Transition systems given by a partial step function: an action either leads
to one next state or cannot be taken. -/
namespace SirpairOs.Transition

variable {α σ : Type} (step : α → σ → Option σ)

/-- Take the actions one after the other; `none` if one of them cannot be taken. -/
def run : List α → σ → Option σ
  | [], s => some s
  | a :: rest, s => (step a s).bind fun s' => run rest s'

/-- Every action is taken in a state that satisfies `C`. -/
def Along (C : α → σ → Prop) : List α → σ → Prop
  | [], _ => True
  | a :: rest, s => C a s ∧ ∀ s', step a s = some s' → Along C rest s'

instance decidableAlong (C : α → σ → Prop) [∀ a s, Decidable (C a s)] :
    (acts : List α) → (s : σ) → Decidable (Along step C acts s)
  | [], _ => isTrue trivial
  | a :: rest, s =>
    have _later : Decidable (∀ s', step a s = some s' → Along step C rest s') :=
      match step a s with
      | none => isTrue nofun
      | some s' =>
        match decidableAlong C rest s' with
        | isTrue holds => isTrue fun _ same => Option.some.inj same ▸ holds
        | isFalse fails => isFalse fun all => fails (all s' rfl)
    inferInstanceAs (Decidable (C a s ∧ ∀ s', step a s = some s' → Along step C rest s'))

variable {step} {C : α → σ → Prop} {I : σ → Prop}

variable {acts : List α} {s : σ}

/-- What every permitted step preserves holds after every permitted run. -/
theorem run_preserves (keep : ∀ a s s', C a s → I s → step a s = some s' → I s') {s' : σ}
    (start : I s) (along : Along step C acts s) (ran : run step acts s = some s') : I s' := by
  induction acts generalizing s with
  | nil => exact Option.some.inj ran ▸ start
  | cons a rest ih =>
    obtain ⟨allowed, later⟩ := along
    obtain ⟨t, first, ran⟩ := Option.bind_eq_some_iff.mp ran
    exact ih (keep a s t allowed start first) (later t first) ran

theorem Along.mono {C' : α → σ → Prop} (weaker : ∀ a s, C a s → C' a s)
    (along : Along step C acts s) : Along step C' acts s := by
  induction acts generalizing s with
  | nil => trivial
  | cons a rest ih => exact ⟨weaker a s along.1, fun s' taken => ih (along.2 s' taken)⟩

/-- What an invariant gives at every permitted step holds along every permitted run. -/
theorem Along.of_invariant {G : α → σ → Prop}
    (keep : ∀ a s s', C a s → I s → step a s = some s' → I s') (gives : ∀ a s, C a s → I s → G a s)
    (start : I s) (along : Along step C acts s) : Along step G acts s := by
  induction acts generalizing s with
  | nil => trivial
  | cons a rest ih =>
    exact ⟨gives a s along.1 start, fun s' taken =>
      ih (keep a s s' along.1 start taken) (along.2 s' taken)⟩

/-- If a step keeps the invariant exactly when it satisfies `G`, the invariant holds all along a
run exactly when every step satisfies `G`. -/
theorem always_iff_along {G : α → σ → Prop}
    (exact_step : ∀ a s s', C a s → I s → step a s = some s' → (I s' ↔ G a s))
    (stopped : ∀ a s, C a s → I s → step a s = none → G a s) (start : I s)
    (along : Along step C acts s) :
    (∀ n s', run step (acts.take n) s = some s' → I s') ↔ Along step G acts s := by
  induction acts generalizing s with
  | nil =>
    constructor
    · intro _
      trivial
    · intro _ n s' ran
      rw [List.take_nil] at ran
      exact Option.some.inj ran ▸ start
  | cons a rest ih =>
    constructor
    · intro always
      cases taken : step a s with
      | none =>
        exact ⟨stopped a s along.1 start taken, fun s' other => absurd (taken.symm.trans other) nofun⟩
      | some t =>
        have next : I t := always 1 t (by rw [List.take_succ_cons, List.take_zero, run, taken]; rfl)
        refine ⟨(exact_step a s t along.1 start taken).mp next, ?_⟩
        intro t' same
        rw [taken, Option.some.injEq] at same
        subst same
        apply (ih next (along.2 t taken)).mp
        intro n s' ran
        apply always (n + 1) s'
        rw [List.take_succ_cons, run, taken]
        exact ran
    · intro allowed n s' ran
      cases n with
      | zero => exact Option.some.inj ran ▸ start
      | succ n =>
        rw [List.take_succ_cons] at ran
        obtain ⟨t, taken, ran⟩ := Option.bind_eq_some_iff.mp ran
        have next := (exact_step a s t along.1 start taken).mpr allowed.1
        exact (ih next (along.2 t taken)).mpr (allowed.2 t taken) n s' ran

theorem run_append (first second : List α) (s : σ) :
    run step (first ++ second) s = (run step first s).bind (run step second) := by
  induction first generalizing s with
  | nil => rfl
  | cons a rest ih =>
    simp only [List.cons_append, run, ih, Option.bind_assoc]

theorem Along.append {first second : List α} (along : Along step C first s)
    (later : ∀ s', run step first s = some s' → Along step C second s') :
    Along step C (first ++ second) s := by
  induction first generalizing s with
  | nil => exact later s rfl
  | cons a rest ih =>
    refine ⟨along.1, fun t taken => ih (along.2 t taken) fun s' ran => later s' ?_⟩
    rw [run, taken]
    exact ran

theorem Along.of_forall (all : ∀ a ∈ acts, ∀ s, C a s) (s : σ) : Along step C acts s := by
  induction acts generalizing s with
  | nil => trivial
  | cons a rest ih =>
    exact ⟨all a List.mem_cons_self s,
      fun s' _ => ih (fun b member => all b (List.mem_cons_of_mem a member)) s'⟩

end SirpairOs.Transition
