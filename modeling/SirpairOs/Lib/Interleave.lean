import SirpairOs.Lib.Program

set_option autoImplicit false

/-! Programs run side by side on one state, one operation at a time, in any
order a scheduler picks. A process whose next operation cannot proceed keeps
waiting at it; any other halt stops the whole system. -/
namespace SirpairOs

structure Pool (Op : Type) (Ret : Op → Type) (σ : Type) where
  state : σ
  procs : Nat → Prog Op Ret Unit

namespace Pool

variable {Op : Type} {Ret : Op → Type} {ε σ : Type}

section Run

variable (h : Nat → Handler Op Ret ε σ) (waits : ε → Bool)

def step (i : Nat) (c : Pool Op Ret σ) : Outcome ε (Pool Op Ret σ) Unit :=
  match c.procs i with
  | .ret _ => .ok () c
  | .op o next =>
    match h i o c.state with
    | .ok r s => .ok () ⟨s, Function.update c.procs i (next r)⟩
    | .halt e s => if waits e then .ok () c else .halt e ⟨s, c.procs⟩

def run : List Nat → Pool Op Ret σ → Outcome ε (Pool Op Ret σ) Unit
  | [], c => .ok () c
  | i :: rest, c => (step h waits i c).bind fun _ c' => run rest c'

/-- The next operation of process `i` finds a state that satisfies `A`. -/
def Next (A : Nat → Op → σ → Prop) (i : Nat) (c : Pool Op Ret σ) : Prop :=
  match c.procs i with
  | .ret _ => True
  | .op o _ => A i o c.state

/-- Every operation that the schedule starts finds a state that satisfies `A`. -/
def Along (A : Nat → Op → σ → Prop) : List Nat → Pool Op Ret σ → Prop
  | [], _ => True
  | i :: rest, c =>
    Next A i c ∧ (step h waits i c).Satisfies (fun _ c' => Along A rest c') fun _ _ => True

theorem along_of_imp {A : Nat → Op → σ → Prop} {given : Prop} (schedule : List Nat)
    (c : Pool Op Ret σ) (along : given → Along h waits A schedule c) :
    Along h waits (fun i o s => given → A i o s) schedule c := by
  induction schedule generalizing c with
  | nil => trivial
  | cons i rest ih =>
    constructor
    · cases shape : c.procs i with
      | ret value => simp only [Next, shape]
      | op o next =>
        simp only [Next, shape]
        intro holds
        have first := (along holds).1
        simpa only [Next, shape] using first
    · cases result : step h waits i c with
      | halt e c' => trivial
      | ok value c' =>
        apply ih c'
        intro holds
        have later := (along holds).2
        rwa [result] at later

variable (A : Nat → Op → σ → Prop) [∀ i o s, Decidable (A i o s)]

instance (i : Nat) (c : Pool Op Ret σ) : Decidable (Next A i c) :=
  Prog.casesOn (motive := fun p => Decidable (match p with
    | .ret _ => True
    | .op o _ => A i o c.state)) (c.procs i) (fun _ => isTrue trivial)
    fun o _ => inferInstanceAs (Decidable (A i o c.state))

instance decidableAlong : (schedule : List Nat) → (c : Pool Op Ret σ) →
    Decidable (Along h waits A schedule c)
  | [], _ => isTrue trivial
  | i :: rest, c =>
    have := decidableAlong rest
    inferInstanceAs (Decidable (Next A i c ∧
      (step h waits i c).Satisfies (fun _ c' => Along h waits A rest c') fun _ _ => True))

end Run

end Pool

/-- What a process may count on and what it owes the others. -/
structure Contract (Op ε σ : Type) where
  /-- Holds whenever a process is about to take a step. -/
  inv : σ → Prop
  /-- What the others may do between two steps of this process. -/
  rely : σ → σ → Prop
  /-- What each step of this process does, as the others see it. -/
  guar : σ → σ → Prop
  /-- Promised of the state in which an operation starts. -/
  promise : Op → σ → Prop
  /-- Owed of the state in which an operation starts. -/
  demand : Op → σ → Prop
  /-- The halts that may happen. -/
  stop : ε → Prop
  rely_refl : ∀ s, rely s s
  rely_trans : ∀ s t u, rely s t → rely t u → rely s u

namespace Prog

variable {Op : Type} {Ret : Op → Type} {ε σ α β : Type} (h : Handler Op Ret ε σ)
  (k : Contract Op ε σ)

/-- The program keeps its contract from `s` on and ends in a state of `Q`,
whatever the others do in between. -/
def Meets : Prog Op Ret α → (α → σ → Prop) → σ → Prop
  | ret value, Q, s => ∀ t, k.rely s t → k.inv t → Q value t
  | op o next, Q, s => ∀ t, k.rely s t → k.inv t → k.promise o t → k.demand o t ∧
      (h o t).Satisfies (fun r t' => k.guar t t' ∧ k.inv t' ∧ (next r).Meets Q t')
        fun e _ => k.stop e

variable {h k}

variable {p : Prog Op Ret α} {s : σ}

theorem Meets.stable {Q : α → σ → Prop} {t : σ} (meets : p.Meets h k Q s) (moved : k.rely s t) :
    p.Meets h k Q t := by
  cases p with
  | ret value | op o next => exact fun u later => meets u (k.rely_trans s t u moved later)

theorem Meets.mono {Q Q' : α → σ → Prop} (meets : p.Meets h k Q s) (value : ∀ a t, Q a t → Q' a t) :
    p.Meets h k Q' s := by
  induction p generalizing s with
  | ret a => exact fun t moved holds => value a t (meets t moved holds)
  | op o next ih =>
    intro t moved holds promised
    obtain ⟨ready, effect⟩ := meets t moved holds promised
    exact ⟨ready, effect.mono (fun r t' post => ⟨post.1, post.2.1, ih r post.2.2⟩)
      fun _ _ stop => stop⟩

/-- Sequential composition through an intermediate condition. -/
theorem Meets.seq {f : α → Prog Op Ret β} {R : α → σ → Prop} {Q : β → σ → Prop}
    (first : p.Meets h k R s) (rest : ∀ a t, k.inv t → R a t → (f a).Meets h k Q t) :
    (p >>= f).Meets h k Q s := by
  induction p generalizing s with
  | ret a =>
    -- the environment may move between the two programs
    have after : ∀ t, k.rely s t → k.inv t → (f a).Meets h k Q t := fun t moved holds =>
      rest a t holds (first t moved holds)
    rw [ret_bind]
    cases shape : f a with
    | ret b =>
      intro t moved holds
      have done := after t moved holds
      rw [shape] at done
      exact done t (k.rely_refl t) holds
    | op o next =>
      intro t moved holds promised
      have done := after t moved holds
      rw [shape] at done
      exact done t (k.rely_refl t) holds promised
  | op o next ih =>
    rw [op_bind]
    intro t moved holds promised
    obtain ⟨ready, effect⟩ := first t moved holds promised
    exact ⟨ready, effect.mono (fun r t' post => ⟨post.1, post.2.1, ih r post.2.2⟩)
      fun _ _ stop => stop⟩

theorem Meets.when {c : Prop} [Decidable c] {p : Prog Op Ret Unit} {Q : Unit → σ → Prop}
    (yes : c → p.Meets h k Q s) (no : ¬ c → (ret () : Prog Op Ret Unit).Meets h k Q s) :
    (Prog.when c p).Meets h k Q s := by
  unfold Prog.when
  split
  · rename_i holds
    exact yes holds
  · rename_i fails
    exact no fails

/-- One operation: its effect on every state the environment can lead to. -/
theorem Meets.perform {o : Op} {Q : Ret o → σ → Prop}
    (effect : ∀ t, k.rely s t → k.inv t → k.promise o t → k.demand o t ∧ (h o t).Satisfies
    (fun r t' => k.guar t t' ∧ k.inv t' ∧ ∀ u, k.rely t' u → k.inv u → Q r u) fun e _ => k.stop e) :
    (Prog.perform o : Prog Op Ret (Ret o)).Meets h k Q s :=
  effect

end Prog

namespace Pool

variable {Op : Type} {Ret : Op → Type} {ε σ : Type} {h : Nat → Handler Op Ret ε σ}
  {waits : ε → Bool} {k : Nat → Contract Op ε σ}

def Safe (h : Nat → Handler Op Ret ε σ) (k : Nat → Contract Op ε σ) (c : Pool Op Ret σ) : Prop :=
  (∀ i, (k i).inv c.state) ∧ ∀ i, ∃ Q, (c.procs i).Meets (h i) (k i) Q c.state

section Compose

variable (shared : ∀ i j s, (k i).inv s → (k j).inv s)
  (compatible : ∀ i j s t, i ≠ j → (k i).inv s → (k i).guar s t → (k j).rely s t)

include shared compatible

/-- One step of a safe system stays safe, or halts as its contract allows. -/
theorem Safe.step {c : Pool Op Ret σ} (safe : Safe h k c) (i : Nat)
    (promised : Next (fun i => (k i).promise) i c) : Next (fun i => (k i).demand) i c ∧
      (Pool.step h waits i c).Satisfies (fun _ c' => Safe h k c') fun e _ => (k i).stop e := by
  obtain ⟨holds, meets⟩ := safe
  obtain ⟨Q, mine⟩ := meets i
  cases shape : c.procs i with
  | ret value =>
    simp only [Next, Pool.step, shape]
    exact ⟨trivial, holds, meets⟩
  | op o next =>
    rw [shape] at mine
    simp only [Next, shape] at promised
    obtain ⟨ready, effect⟩ := mine c.state ((k i).rely_refl _) (holds i) promised
    refine ⟨by simpa only [Next, shape] using ready, ?_⟩
    cases result : h i o c.state with
    | halt e s =>
      rw [result] at effect
      simp only [Pool.step, shape, result]
      split
      · exact ⟨holds, meets⟩
      · exact effect
    | ok r s =>
      rw [result] at effect
      obtain ⟨kept, after, rest⟩ := effect
      simp only [Pool.step, shape, result]
      refine ⟨fun j => shared i j s after, fun j => ?_⟩
      by_cases same : j = i
      · subst same
        dsimp only
        rw [Function.update_self]
        exact ⟨Q, rest⟩
      · obtain ⟨Q', other⟩ := meets j
        dsimp only
        rw [Function.update_of_ne same]
        exact ⟨Q', other.stable (compatible i j _ _ (Ne.symm same) (holds i) kept)⟩

/-- A system in which every process keeps its contract stays safe in every run
along which the promises hold, and every operation finds what it demands. -/
theorem Safe.run {c : Pool Op Ret σ} (safe : Safe h k c) (schedule : List Nat)
    (along : Along h waits (fun i => (k i).promise) schedule c) :
    Along h waits (fun i => (k i).demand) schedule c ∧
      (Pool.run h waits schedule c).Satisfies (fun _ c' => Safe h k c')
        fun e _ => ∃ i, (k i).stop e := by
  induction schedule generalizing c with
  | nil => exact ⟨trivial, safe⟩
  | cons i rest ih =>
    obtain ⟨promised, later⟩ := along
    have one : _ ∧ (Pool.step h waits i c).Satisfies _ _ := safe.step shared compatible i promised
    rw [Pool.run, Along]
    cases result : Pool.step h waits i c with
    | ok _ c' =>
      rw [result] at one later
      obtain ⟨rest, final⟩ := ih one.2 later
      exact ⟨⟨one.1, rest⟩, final⟩
    | halt e c' =>
      rw [result] at one
      exact ⟨⟨one.1, trivial⟩, i, one.2⟩

end Compose

end Pool

end SirpairOs
