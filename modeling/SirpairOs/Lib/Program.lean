import Mathlib.Logic.Function.Basic
import Mathlib.Logic.Relation

set_option autoImplicit false

/-! Programs as trees of atomic operations. A program says which operation it
performs next and how it continues with the result; what an operation does to
the state is given separately, by a handler. The same program text can then be
run alone or interleaved with others, operation by operation. -/
namespace SirpairOs

/-- How a computation ends: with a value, or halted for a reason `ε`. The state
at that moment is kept in both cases. -/
inductive Outcome (ε σ α : Type) where
  | ok (value : α) (state : σ)
  | halt (reason : ε) (state : σ)

namespace Outcome

variable {ε σ α β : Type}

def state : Outcome ε σ α → σ
  | ok _ s => s
  | halt _ s => s

def reason : Outcome ε σ α → Option ε
  | ok _ _ => none
  | halt e _ => some e

def bind (first : Outcome ε σ α) (next : α → σ → Outcome ε σ β) : Outcome ε σ β :=
  match first with
  | ok value s => next value s
  | halt reason s => halt reason s

@[simp] theorem bind_ok (value : α) (s : σ) (next : α → σ → Outcome ε σ β) :
    (ok value s).bind next = next value s := rfl

@[simp] theorem bind_halt (reason : ε) (s : σ) (next : α → σ → Outcome ε σ β) :
    (halt reason s : Outcome ε σ α).bind next = halt reason s := rfl

variable {o : Outcome ε σ α} {τ : Type}

theorem bind_eq_ok {next : α → σ → Outcome ε σ β} {result : β} {s' : σ} :
    o.bind next = ok result s' ↔ ∃ value s, o = ok value s ∧ next value s = ok result s' := by
  cases o with
  | ok value s =>
    rw [bind_ok]
    refine ⟨fun done => ⟨value, s, rfl, done⟩, ?_⟩
    rintro ⟨_, _, same, done⟩
    cases same
    exact done
  | halt reason s => exact iff_of_false nofun (by rintro ⟨_, _, halted, -⟩; cases halted)

/-- The same end, seen in another state. -/
def mapState {τ : Type} (f : σ → τ) : Outcome ε σ α → Outcome ε τ α
  | ok value s => ok value (f s)
  | halt reason s => halt reason (f s)

theorem mapState_eq_ok {f : σ → τ} {a : α} {t : τ} :
    o.mapState f = ok a t ↔ ∃ s, o = ok a s ∧ f s = t := by
  cases o with
  | ok b s =>
    constructor
    · rintro ⟨⟩
      exact ⟨s, rfl, rfl⟩
    · rintro ⟨_, ⟨⟩, rfl⟩
      rfl
  | halt e s => exact ⟨nofun, fun ⟨_, same, _⟩ => nomatch same⟩

theorem mapState_bind {f : σ → τ} {g : α → σ → Outcome ε σ β} {h : α → τ → Outcome ε τ β}
    (next : ∀ a s, (g a s).mapState f = h a (f s)) :
    (o.bind g).mapState f = (o.mapState f).bind h := by
  cases o with
  | ok a s => exact next a s
  | halt e s => rfl

theorem mapState_mapState {υ : Type} (f : σ → τ) (g : τ → υ) (o : Outcome ε σ α) :
    (o.mapState f).mapState g = o.mapState fun s => g (f s) := by
  cases o <;> rfl

theorem mapState_id (o : Outcome ε σ α) : o.mapState (fun s => s) = o := by
  cases o <;> rfl

/-- What an outcome has to satisfy: `Q` of a value, `E` of a halt. -/
def Satisfies (o : Outcome ε σ α) (Q : α → σ → Prop) (E : ε → σ → Prop) : Prop :=
  match o with
  | ok value s => Q value s
  | halt reason s => E reason s

@[simp] theorem satisfies_ok (value : α) (s : σ) (Q : α → σ → Prop) (E : ε → σ → Prop) :
    (ok value s).Satisfies Q E ↔ Q value s := Iff.rfl

@[simp] theorem satisfies_halt (reason : ε) (s : σ) (Q : α → σ → Prop) (E : ε → σ → Prop) :
    (halt reason s).Satisfies Q E ↔ E reason s := Iff.rfl

instance {o : Outcome ε σ α} {Q : α → σ → Prop} {E : ε → σ → Prop}
    [∀ value s, Decidable (Q value s)] [∀ reason s, Decidable (E reason s)] :
    Decidable (o.Satisfies Q E) :=
  match o with
  | ok value s => inferInstanceAs (Decidable (Q value s))
  | halt reason s => inferInstanceAs (Decidable (E reason s))

theorem exists_ok (ends : o.Satisfies (fun _ _ => True) fun _ _ => False) : ∃ a s, o = .ok a s := by
  cases o with
  | ok a s => exact ⟨a, s, rfl⟩
  | halt e s => exact ends.elim

theorem Satisfies.mono {Q Q' : α → σ → Prop} {E E' : ε → σ → Prop} (holds : o.Satisfies Q E)
    (value : ∀ a s, Q a s → Q' a s) (stop : ∀ e s, E e s → E' e s) : o.Satisfies Q' E' := by
  cases o with
  | ok a s => exact value a s holds
  | halt e s => exact stop e s holds

end Outcome

/-- A program over the operations `Op`, where `o` answers with a `Ret o`. -/
inductive Prog (Op : Type) (Ret : Op → Type) (α : Type) where
  | ret (value : α)
  | op (o : Op) (next : Ret o → Prog Op Ret α)

abbrev Handler (Op : Type) (Ret : Op → Type) (ε σ : Type) : Type :=
  (o : Op) → σ → Outcome ε σ (Ret o)

namespace Prog

variable {Op : Type} {Ret : Op → Type} {ε σ α β γ : Type}

protected def bind (p : Prog Op Ret α) (f : α → Prog Op Ret β) : Prog Op Ret β :=
  match p with
  | ret value => f value
  | op o next => op o fun r => (next r).bind f

instance : Monad (Prog Op Ret) where
  pure := ret
  bind := Prog.bind

def perform (o : Op) : Prog Op Ret (Ret o) := op o ret

/-- `if (c) p;` -/
def when (c : Prop) [Decidable c] (p : Prog Op Ret Unit) : Prog Op Ret Unit :=
  if c then p else ret ()

@[simp] theorem pure_eq (value : α) : (pure value : Prog Op Ret α) = ret value := rfl

@[simp] theorem ret_bind (value : α) (f : α → Prog Op Ret β) :
    (ret value : Prog Op Ret α) >>= f = f value := rfl

@[simp] theorem op_bind (o : Op) (next : Ret o → Prog Op Ret α) (f : α → Prog Op Ret β) :
    (op o next : Prog Op Ret α) >>= f = op o fun r => next r >>= f := rfl

@[simp] theorem perform_bind (o : Op) (f : Ret o → Prog Op Ret β) :
    (perform o : Prog Op Ret (Ret o)) >>= f = op o f := rfl

theorem bind_assoc (p : Prog Op Ret α) (f : α → Prog Op Ret β) (g : β → Prog Op Ret γ) :
    p >>= f >>= g = p >>= fun a => f a >>= g := by
  induction p with
  | ret value => rfl
  | op o next ih =>
    simp only [op_bind]
    congr 1
    funext r
    exact ih r

theorem bind_ret (p : Prog Op Ret α) : p >>= ret = p := by
  induction p with
  | ret value => rfl
  | op o next ih =>
    rw [op_bind]
    congr 1
    funext r
    exact ih r

instance : LawfulMonad (Prog Op Ret) :=
  LawfulMonad.mk' _ (fun p => bind_ret p) (fun value f => ret_bind value f)
    (fun p f g => bind_assoc p f g)

/-- Every operation the program may perform is one of `allowed`. -/
def Only (allowed : Op → Prop) : Prog Op Ret α → Prop
  | ret _ => True
  | op o next => allowed o ∧ ∀ r, (next r).Only allowed

section Only

variable {allowed : Op → Prop}

@[simp] theorem only_ret (value : α) : (ret value : Prog Op Ret α).Only allowed := trivial

@[simp] theorem only_pure (value : α) : (pure value : Prog Op Ret α).Only allowed := trivial

@[simp] theorem only_op (o : Op) (next : Ret o → Prog Op Ret α) :
    (op o next).Only allowed ↔ allowed o ∧ ∀ r, (next r).Only allowed := Iff.rfl

@[simp] theorem only_perform (o : Op) :
    (perform o : Prog Op Ret (Ret o)).Only allowed ↔ allowed o :=
  ⟨fun only => only.1, fun ok => ⟨ok, fun _ => trivial⟩⟩

theorem only_true (p : Prog Op Ret α) : p.Only fun _ => True := by
  induction p with
  | ret value => trivial
  | op o next ih => exact ⟨trivial, ih⟩

theorem Only.bind {p : Prog Op Ret α} {f : α → Prog Op Ret β} (first : p.Only allowed)
    (rest : ∀ a, (f a).Only allowed) : (p >>= f).Only allowed := by
  induction p with
  | ret value => exact rest value
  | op o next ih => exact ⟨first.1, fun r => ih r (first.2 r)⟩

theorem Only.left {p : Prog Op Ret α} {f : α → Prog Op Ret β} (whole : (p >>= f).Only allowed) :
    p.Only allowed := by
  induction p with
  | ret value => trivial
  | op o next ih => exact ⟨whole.1, fun r => ih r (whole.2 r)⟩

theorem Only.when {c : Prop} [Decidable c] {p : Prog Op Ret Unit} (body : p.Only allowed) :
    (Prog.when c p).Only allowed := by
  unfold Prog.when
  split
  · exact body
  · trivial

theorem Only.mono {p : Prog Op Ret α} {allowed' : Op → Prop} (only : p.Only allowed)
    (weaker : ∀ o, allowed o → allowed' o) : p.Only allowed' := by
  induction p with
  | ret value => trivial
  | op o next ih => exact ⟨weaker o only.1, fun r => ih r (only.2 r)⟩

end Only

section Run

variable (h : Handler Op Ret ε σ)

def run : Prog Op Ret α → σ → Outcome ε σ α
  | ret value, s => .ok value s
  | op o next, s => (h o s).bind fun r s' => (next r).run s'

@[simp] theorem run_ret (value : α) (s : σ) : run h (ret value) s = .ok value s := rfl

@[simp] theorem run_op (o : Op) (next : Ret o → Prog Op Ret α) (s : σ) :
    run h (op o next) s = (h o s).bind fun r s' => run h (next r) s' := rfl

@[simp] theorem run_perform (o : Op) (s : σ) : run h (perform o) s = h o s := by
  rw [perform, run_op]
  cases h o s <;> rfl

@[simp] theorem run_bind (p : Prog Op Ret α) (f : α → Prog Op Ret β) (s : σ) :
    run h (p >>= f) s = (run h p s).bind fun a s' => run h (f a) s' := by
  induction p generalizing s with
  | ret value => rfl
  | op o next ih =>
    rw [op_bind, run_op, run_op]
    cases h o s with
    | ok r s' => exact ih r s'
    | halt e s' => rfl

/-- Every operation the run performs starts in a state that satisfies `A`. -/
def Along (A : Op → σ → Prop) : Prog Op Ret α → σ → Prop
  | ret _, _ => True
  | op o next, s => A o s ∧ (h o s).Satisfies (fun r s' => (next r).Along A s') fun _ _ => True

instance decidableAlong (A : Op → σ → Prop) [∀ o s, Decidable (A o s)] :
    (p : Prog Op Ret α) → (s : σ) → Decidable (p.Along h A s)
  | ret _, _ => isTrue trivial
  | op o next, s =>
    have rest : Decidable ((h o s).Satisfies (fun r s' => (next r).Along h A s') fun _ _ => True) :=
      match h o s with
      | .ok r s' => decidableAlong A (next r) s'
      | .halt _ _ => isTrue trivial
    @instDecidableAnd _ _ inferInstance rest

/-! ### Weakest preconditions

`A` is what each operation may assume of the state it starts in; it is the
environment's promise along the run, not an obligation. -/

variable (A : Op → σ → Prop)

def wp : Prog Op Ret α → (α → σ → Prop) → (ε → σ → Prop) → σ → Prop
  | ret value, Q, _, s => Q value s
  | op o next, Q, E, s => A o s → (h o s).Satisfies (fun r s' => (next r).wp Q E s') E

@[simp] theorem wp_ret (value : α) (Q : α → σ → Prop) (E : ε → σ → Prop) (s : σ) :
    wp h A (ret value) Q E s ↔ Q value s := Iff.rfl

theorem wp_op (o : Op) (next : Ret o → Prog Op Ret α) (Q : α → σ → Prop) (E : ε → σ → Prop)
    (s : σ) : wp h A (op o next) Q E s ↔
      (A o s → (h o s).Satisfies (fun r s' => wp h A (next r) Q E s') E) := Iff.rfl

variable {p : Prog Op Ret α} {Q : α → σ → Prop} {E : ε → σ → Prop} {s : σ}

theorem wp_mono {Q' : α → σ → Prop} {E' : ε → σ → Prop} (holds : wp h A p Q E s)
    (value : ∀ a s, Q a s → Q' a s) (stop : ∀ e s, E e s → E' e s) : wp h A p Q' E' s := by
  induction p generalizing s with
  | ret a => exact value a s holds
  | op o next ih =>
    intro allowed
    exact (holds allowed).mono (fun r s' => ih r) stop

theorem wp_bind (p : Prog Op Ret α) (f : α → Prog Op Ret β) (Q : β → σ → Prop)
    (E : ε → σ → Prop) (s : σ) :
    wp h A (p >>= f) Q E s ↔ wp h A p (fun a s' => wp h A (f a) Q E s') E s := by
  induction p generalizing s with
  | ret value => exact Iff.rfl
  | op o next ih =>
    rw [op_bind, wp_op, wp_op]
    refine imp_congr_right fun _ => ?_
    cases h o s with
    | ok r s' => exact ih r s'
    | halt e s' => exact Iff.rfl

/-- Sequential composition through an intermediate condition. -/
theorem wp_seq {f : α → Prog Op Ret β} {R : α → σ → Prop} {Q : β → σ → Prop}
    (first : wp h A p R E s) (rest : ∀ a s', R a s' → wp h A (f a) Q E s') :
    wp h A (p >>= f) Q E s :=
  (wp_bind h A p f Q E s).mpr (wp_mono h A first rest fun _ _ stop => stop)

/-- What the program's operations leave alone still holds at its end. -/
theorem wp_frame {J : σ → Prop} {allowed : Op → Prop} (holds : wp h A p Q E s)
    (only : p.Only allowed) (keeps : ∀ o s r s', allowed o → h o s = .ok r s' → J s → J s')
    (before : J s) : wp h A p (fun a s' => Q a s' ∧ J s') E s := by
  induction p generalizing s with
  | ret value => exact ⟨holds, before⟩
  | op o next ih =>
    intro promised
    have step := holds promised
    revert step
    cases done : h o s with
    | ok r s' => exact fun step => ih r step (only.2 r) (keeps o s r s' only.1 done before)
    | halt e s' => exact fun step => step

theorem wp_when {c : Prop} [Decidable c] {p : Prog Op Ret Unit} {Q : Unit → σ → Prop}
    (yes : c → wp h A p Q E s) (no : ¬ c → Q () s) : wp h A (when c p) Q E s := by
  unfold when
  split
  · rename_i holds
    exact yes holds
  · rename_i fails
    exact no fails

/-- A proved precondition is sound for the run, when the promise holds along it. -/
theorem wp_sound (holds : wp h A p Q E s) (along : p.Along h A s) : (run h p s).Satisfies Q E := by
  induction p generalizing s with
  | ret value => exact holds
  | op o next ih =>
    have tail := holds along.1
    have rest := along.2
    rw [run_op]
    revert tail rest
    cases h o s with
    | ok r s' => exact fun tail rest => ih r tail rest
    | halt e s' => exact fun tail _ => tail

theorem wp_true (p : Prog Op Ret α) (s : σ) :
    wp h A p (fun _ _ => True) (fun _ _ => True) s := by
  induction p generalizing s with
  | ret value => trivial
  | op o next ih =>
    intro _
    cases h o s with
    | ok r s' => exact ih r s'
    | halt e s' => trivial

theorem wp_run (p : Prog Op Ret α) (s : σ) : wp h (fun _ _ => True) p
    (fun a s' => run h p s = .ok a s') (fun e s' => run h p s = .halt e s') s := by
  induction p generalizing s with
  | ret value => rfl
  | op o next ih =>
    intro _
    rw [run_op]
    cases h o s with
    | ok r s' => exact ih r s'
    | halt e s' => rfl

theorem wp_satisfies (holds : wp h (fun _ _ => True) p Q E s) : (run h p s).Satisfies Q E := by
  refine wp_sound h _ holds ?_
  clear holds
  induction p generalizing s with
  | ret value => trivial
  | op o next ih =>
    refine ⟨trivial, ?_⟩
    cases h o s with
    | ok r s' => exact ih r
    | halt e s' => trivial

theorem along_bind (p : Prog Op Ret α) (f : α → Prog Op Ret β) (s : σ) : (p >>= f).Along h A s ↔
      p.Along h A s ∧ (run h p s).Satisfies (fun a s' => (f a).Along h A s') fun _ _ => True := by
  induction p generalizing s with
  | ret value => simp only [ret_bind, Along, run_ret, Outcome.satisfies_ok, true_and]
  | op o next ih =>
    rw [op_bind, run_op]
    simp only [Along]
    cases h o s with
    | ok r s' =>
      simp only [Outcome.satisfies_ok, Outcome.bind_ok, and_assoc]
      rw [ih r s']
    | halt e s' => simp only [Outcome.satisfies_halt, Outcome.bind_halt, and_true]

/-- The handler that stops with `e` where the guard fails. -/
def guarded (G : Op → σ → Prop) [∀ o s, Decidable (G o s)] (e : ε) : Handler Op Ret ε σ :=
  fun o s => if G o s then h o s else .halt e s

section Guarded

variable {h A} {G : Op → σ → Prop} [∀ o s, Decidable (G o s)] {e : ε}

variable {p : Prog Op Ret α} {s : σ}

theorem run_guarded_of_along (along : p.Along h G s) : run (guarded h G e) p s = run h p s := by
  induction p generalizing s with
  | ret value => rfl
  | op o next ih =>
    have rest := along.2
    rw [run_op, run_op, guarded, if_pos along.1]
    revert rest
    cases h o s with
    | ok r s' => exact fun rest => ih r rest
    | halt reason s' => exact fun _ => rfl

theorem run_guarded_of_not_along (fails : ¬ p.Along h G s) :
    ∃ t, run (guarded h G e) p s = .halt e t := by
  induction p generalizing s with
  | ret value => exact absurd trivial fails
  | op o next ih =>
    rw [run_op, guarded]
    by_cases guard : G o s
    · rw [if_pos guard]
      have later : ¬ (h o s).Satisfies (fun r s' => (next r).Along h G s') fun _ _ => True :=
        fun rest => fails ⟨guard, rest⟩
      revert later
      cases h o s with
      | ok r s' => exact fun later => ih r later
      | halt reason s' => exact fun later => absurd trivial later
    · rw [if_neg guard]
      exact ⟨s, rfl⟩

theorem Along.mono {A' : Op → σ → Prop} (along : p.Along h A s) (weaker : ∀ o s, A o s → A' o s) :
    p.Along h A' s := by
  induction p generalizing s with
  | ret value => trivial
  | op o next ih =>
    exact ⟨weaker o s along.1, along.2.mono (fun r s' => ih r) fun _ _ => id⟩

theorem wp_guarded_along {Q : α → σ → Prop} {E : ε → σ → Prop} (holds : wp h A p Q E s) :
    wp (guarded h G e) (fun o s => A o s ∧ G o s) p Q E s := by
  induction p generalizing s with
  | ret value => exact holds
  | op o next ih =>
    rintro ⟨allowed, guard⟩
    rw [guarded, if_pos guard]
    exact (holds allowed).mono (fun r s' => ih r) fun _ _ stop => stop

theorem wp_guarded {Q : α → σ → Prop} {E : ε → σ → Prop} (holds : wp h A p Q E s)
    (stop : ∀ t, E e t) : wp (guarded h G e) A p Q E s := by
  induction p generalizing s with
  | ret value => exact holds
  | op o next ih =>
    intro allowed
    have tail := holds allowed
    rw [guarded]
    split
    · exact tail.mono (fun r s' => ih r) fun _ _ stop => stop
    · exact stop s

end Guarded

end Run

end Prog

end SirpairOs
