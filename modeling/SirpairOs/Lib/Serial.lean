import SirpairOs.Lib.Interleave

set_option autoImplicit false

/-! Transactions under one lock. Processes take a lock, work, and release it;
what they do outside the lock does not change the state. Whatever the scheduler
does, the state is then the result of the finished transactions one after the
other, each process's own in its program order. -/
namespace SirpairOs

variable {Op : Type} {Ret : Op → Type} {ε σ V A : Type}

/-- A lock of the state: who holds it, and which operations take and release it. -/
structure Lock (Op : Type) (Ret : Op → Type) (ε σ : Type) (h : Nat → Handler Op Ret ε σ) where
  owner : σ → Option Nat
  acquires : Op → Prop
  releases : Op → Prop
  take : ∀ i o s r s', acquires o → h i o s = .ok r s' → owner s = none ∧ owner s' = some i
  drop : ∀ i o s r s', releases o → h i o s = .ok r s' → owner s' = none
  keep : ∀ i o s r s', ¬ acquires o → ¬ releases o → h i o s = .ok r s' → owner s' = owner s

structure Protocol (Op : Type) (Ret : Op → Type) (ε σ V A : Type) where
  h : Nat → Handler Op Ret ε σ
  lock : Lock Op Ret ε σ h
  /-- Promised of the state in which an operation starts. -/
  promise : Nat → Op → σ → Prop
  /-- Holds also inside transactions; what a process reads outside its own
  transactions depends on this alone. -/
  seen : σ → Prop
  /-- Holds whenever nobody has the lock. -/
  inv : σ → Prop
  /-- What the transactions are about. -/
  view : σ → V
  /-- A transaction `a` of process `i` as one step. -/
  effect : Nat → A → V → V → Prop

namespace Protocol

variable (P : Protocol Op Ret ε σ V A) (i : Nat)

/-- How a transaction `a` that started in the view `v` ends: done, and the program
goes on as in `K`, or given up, and it goes on as in `L`. -/
def Ends (a : A) (K L : Prog Op Ret Unit → Prop) (v : V) (p : Prog Op Ret Unit) (s : σ) : Prop :=
  P.inv s ∧ (P.effect i a v (P.view s) ∧ K p ∨ P.view s = v ∧ L p)

/-- The rest of a transaction: run alone from here, the program stays in `seen`
and continues as `K` says once it has released the lock. -/
def Inside (K : Prog Op Ret Unit → σ → Prop) : Prog Op Ret Unit → σ → Prop
  | .ret _, _ => False
  | .op o next, s => ¬ P.lock.acquires o ∧ (P.promise i o s →
      (P.h i o s).Satisfies (fun r s' => P.seen s' ∧ (P.lock.releases o → K (next r) s') ∧
        (¬ P.lock.releases o → Inside K (next r) s')) fun _ _ => True)

/-- The transactions that the program still performs. -/
inductive Follows : Prog Op Ret Unit → List A → Prop where
  | done : Follows (.ret ()) []
  /-- An operation outside the lock only reads. -/
  | look {o : Op} {next : Ret o → Prog Op Ret Unit} {script : List A}
      (calm : ∀ s r s', P.h i o s = .ok r s' → s' = s)
      (later : ∀ s r, P.seen s → P.h i o s = .ok r s → Follows (next r) script) :
      Follows (.op o next) script
  | block {o : Op} {next : Ret o → Prog Op Ret Unit} {a : A} {rest : List A}
      (K L : Prog Op Ret Unit → Prop) (takes : P.lock.acquires o)
      (body : ∀ s, P.inv s → P.seen s → P.lock.owner s = none →
        (P.h i o s).Satisfies (fun r s' => P.seen s' ∧
          P.Inside i (P.Ends i a K L (P.view s)) (next r) s') fun _ _ => True)
      (later : ∀ p, K p → Follows p rest) (again : ∀ p, L p → Follows p (a :: rest)) :
      Follows (.op o next) (a :: rest)
  /-- A program that stops the system has nothing left to do. -/
  | stop {o : Op} {next : Ret o → Prog Op Ret Unit} {script : List A}
      (never : ∀ s r s', P.h i o s ≠ .ok r s') : Follows (.op o next) script

variable {P i}

theorem Inside.mono {K K' : Prog Op Ret Unit → σ → Prop} {p : Prog Op Ret Unit} {s : σ}
    (inside : P.Inside i K p s) (weaker : ∀ p s, K p s → K' p s) : P.Inside i K' p s := by
  induction p generalizing s with
  | ret value => exact inside
  | op o next ih =>
    refine ⟨inside.1, fun promised => (inside.2 promised).mono (fun r t post => ?_) fun _ _ => id⟩
    exact ⟨post.1, fun frees => weaker _ _ (post.2.1 frees), fun stays => ih r (post.2.2 stays)⟩

/-- A part of a transaction that never touches the lock. -/
theorem Inside.bind {α : Type} {K : Prog Op Ret Unit → σ → Prop} {p : Prog Op Ret α}
    {f : α → Prog Op Ret Unit} {s : σ}
    (only : p.Only fun o => ¬ P.lock.acquires o ∧ ¬ P.lock.releases o ∧
      ∀ s r s', P.seen s → P.h i o s = .ok r s' → P.seen s') (start : P.seen s)
    (rest : Prog.wp (P.h i) (P.promise i) p (fun a s' => P.seen s' → P.Inside i K (f a) s')
      (fun _ _ => True) s) : P.Inside i K (p >>= f) s := by
  induction p generalizing s with
  | ret value => exact rest start
  | op o next ih =>
    obtain ⟨⟨takes, frees, keeps⟩, only⟩ := only
    refine ⟨takes, fun promised => ?_⟩
    have tail := rest promised
    cases done : P.h i o s with
    | halt e t => trivial
    | ok r t =>
      rw [done] at tail
      have seen := keeps s r t start done
      exact ⟨seen, fun releases => absurd releases frees, fun _ => ih r (only r) seen tail⟩

end Protocol

/-- The transactions `hist`, one after the other, lead from `v` to `w`. -/
def Chain (effect : Nat → A → V → V → Prop) : List (Nat × A) → V → V → Prop
  | [], v, w => v = w
  | (i, a) :: rest, v, w => ∃ u, effect i a v u ∧ Chain effect rest u w

theorem Chain.snoc {effect : Nat → A → V → V → Prop} {hist : List (Nat × A)} {v w u : V} {i : Nat}
    {a : A} (chain : Chain effect hist v w) (last : effect i a w u) :
    Chain effect (hist ++ [(i, a)]) v u := by
  induction hist generalizing v with
  | nil =>
    cases chain
    exact ⟨u, last, rfl⟩
  | cons first rest ih =>
    obtain ⟨v, one, more⟩ := chain
    exact ⟨v, one, ih more⟩

def ofProc (i : Nat) (hist : List (Nat × A)) : List A :=
  (hist.filter fun e => e.1 = i).map (·.2)

theorem ofProc_snoc_self (i : Nat) (hist : List (Nat × A)) (a : A) :
    ofProc i (hist ++ [(i, a)]) = ofProc i hist ++ [a] := by
  simp only [ofProc, List.filter_append, List.map_append, List.filter_cons, decide_true, if_true,
    List.filter_nil, List.map_cons, List.map_nil]

theorem ofProc_snoc_of_ne {i j : Nat} (other : j ≠ i) (hist : List (Nat × A)) (a : A) :
    ofProc j (hist ++ [(i, a)]) = ofProc j hist := by
  simp only [ofProc, List.filter_append, List.filter_cons, Ne.symm other, decide_false,
    Bool.false_eq_true, if_false, List.filter_nil, List.append_nil]

namespace Pool

variable (P : Protocol Op Ret ε σ V A) (scripts : Nat → List A) (start : V)

/-- The transactions `hist` are finished and led from `start` to `base`. -/
structure Serial (hist : List (Nat × A)) (base : V) (c : Pool Op Ret σ) : Prop where
  chain : Chain P.effect hist start base
  seen : P.seen c.state
  outside : ∀ i, P.lock.owner c.state ≠ some i →
    ∃ rest, scripts i = ofProc i hist ++ rest ∧ P.Follows i (c.procs i) rest
  free : P.lock.owner c.state = none → P.view c.state = base ∧ P.inv c.state
  inside : ∀ i, P.lock.owner c.state = some i → ∃ a rest, scripts i = ofProc i hist ++ a :: rest ∧
      P.Inside i (P.Ends i a (P.Follows i · rest) (P.Follows i · (a :: rest)) base) (c.procs i)
        c.state

variable {P scripts start} {hist : List (Nat × A)} {base : V} {c c' : Pool Op Ret σ}
  {waits : ε → Bool}

theorem Serial.init (free : P.lock.owner c.state = none) (seen : P.seen c.state)
    (inv : P.inv c.state) (follows : ∀ i, P.Follows i (c.procs i) (scripts i)) :
    Serial P scripts (P.view c.state) [] (P.view c.state) c where
  chain := rfl
  seen := seen
  outside i _ := ⟨scripts i, rfl, follows i⟩
  free _ := ⟨rfl, inv⟩
  inside i taken := by
    rw [free] at taken
    cases taken

variable (serial : Serial P scripts start hist base c)

include serial

theorem Serial.step_inside {i : Nat}
    (mine : P.lock.owner c.state = some i) {o : Op} {next : Ret o → Prog Op Ret Unit}
    (shape : c.procs i = .op o next) {r : Ret o} {s : σ} (done : P.h i o c.state = .ok r s)
    (promised : P.promise i o c.state) : ∃ hist' base', Serial P scripts start hist' base'
      ⟨s, Function.update c.procs i (next r)⟩ := by
  obtain ⟨a, rest, script, ⟨takes, inside⟩⟩ : ∃ a rest, scripts i = ofProc i hist ++ a :: rest ∧
      P.Inside i (P.Ends i a (P.Follows i · rest) (P.Follows i · (a :: rest)) base)
        (.op o next) c.state := by
    have inside := serial.inside i mine
    rwa [shape] at inside
  have after := inside promised
  rw [done] at after
  obtain ⟨seen, frees, stays⟩ := after
  have others (j : Nat) (other : j ≠ i) :
      ∃ rest, scripts j = ofProc j hist ++ rest ∧ P.Follows j (c.procs j) rest :=
    serial.outside j fun same => other (Option.some.inj (same.symm.trans mine))
  by_cases releases : P.lock.releases o
  · have free := P.lock.drop i o _ r s releases done
    obtain ⟨inv, ended⟩ := frees releases
    rcases ended with ⟨effect, follows⟩ | ⟨same, follows⟩
    · refine ⟨hist ++ [(i, a)], P.view s, serial.chain.snoc effect, seen, fun j _ => ?_,
        fun _ => ⟨rfl, inv⟩, fun j taken => ?_⟩
      · by_cases self : j = i
        · subst self
          dsimp only
          rw [Function.update_self]
          refine ⟨rest, ?_, follows⟩
          rw [ofProc_snoc_self, List.append_assoc]
          exact script
        · dsimp only
          rw [Function.update_of_ne self, ofProc_snoc_of_ne self]
          exact others j self
      · rw [free] at taken
        cases taken
    · refine ⟨hist, base, serial.chain, seen, fun j _ => ?_, fun _ => ⟨same, inv⟩,
        fun j taken => ?_⟩
      · by_cases self : j = i
        · subst self
          dsimp only
          rw [Function.update_self]
          exact ⟨a :: rest, script, follows⟩
        · dsimp only
          rw [Function.update_of_ne self]
          exact others j self
      · rw [free] at taken
        cases taken
  · have still : P.lock.owner s = some i := (P.lock.keep i o _ r s takes releases done).trans mine
    refine ⟨hist, base, serial.chain, seen, fun j apart => ?_, fun free => ?_, fun j taken => ?_⟩
    · have self : j ≠ i := by
        rintro rfl
        exact apart still
      dsimp only
      rw [Function.update_of_ne self]
      exact others j self
    · rw [still] at free
      cases free
    · obtain rfl : i = j := Option.some.inj (still.symm.trans taken)
      dsimp only
      rw [Function.update_self]
      exact ⟨a, rest, script, stays releases⟩

theorem Serial.step_outside {i : Nat}
    (apart : P.lock.owner c.state ≠ some i) {o : Op} {next : Ret o → Prog Op Ret Unit}
    (shape : c.procs i = .op o next) {r : Ret o} {s : σ} (done : P.h i o c.state = .ok r s) :
    ∃ hist' base', Serial P scripts start hist' base' ⟨s, Function.update c.procs i (next r)⟩ := by
  obtain ⟨rest, script, follows⟩ := serial.outside i apart
  rw [shape] at follows
  cases follows with
  | look calm later =>
    obtain rfl := calm _ _ _ done
    refine ⟨hist, base, serial.chain, serial.seen, fun j other => ?_, serial.free,
      fun j taken => ?_⟩
    · by_cases self : j = i
      · subst self
        dsimp only
        rw [Function.update_self]
        exact ⟨rest, script, later _ r serial.seen done⟩
      · dsimp only
        rw [Function.update_of_ne self]
        exact serial.outside j other
    · have self : j ≠ i := by
        rintro rfl
        exact apart taken
      dsimp only
      rw [Function.update_of_ne self]
      exact serial.inside j taken
  | @block _ _ a rest K L takes body later again =>
    obtain ⟨free, mine⟩ := P.lock.take i o _ r s takes done
    obtain ⟨same, inv⟩ := serial.free free
    have entered := body c.state inv serial.seen free
    rw [done, same] at entered
    obtain ⟨seen, inside⟩ := entered
    refine ⟨hist, base, serial.chain, seen, fun j other => ?_, fun nobody => ?_, fun j taken => ?_⟩
    · have self : j ≠ i := by
        rintro rfl
        exact other mine
      dsimp only
      rw [Function.update_of_ne self]
      refine serial.outside j fun taken => ?_
      rw [free] at taken
      cases taken
    · rw [mine] at nobody
      cases nobody
    · obtain rfl : i = j := Option.some.inj (mine.symm.trans taken)
      dsimp only
      rw [Function.update_self]
      refine ⟨a, rest, script, inside.mono fun p t ended => ⟨ended.1, ?_⟩⟩
      exact ended.2.imp (fun good => ⟨good.1, later p good.2⟩) fun bad => ⟨bad.1, again p bad.2⟩
  | stop never => exact absurd done (never _ _ _)

theorem Serial.step {i : Nat}
    (promised : Next P.promise i c) (done : Pool.step P.h waits i c = .ok () c') :
    ∃ hist' base', Serial P scripts start hist' base' c' := by
  cases shape : c.procs i with
  | ret value =>
    simp only [Pool.step, shape] at done
    cases done
    exact ⟨hist, base, serial⟩
  | op o next =>
    cases result : P.h i o c.state with
    | halt e s =>
      simp only [Pool.step, shape, result] at done
      split at done <;> cases done
      exact ⟨hist, base, serial⟩
    | ok r s =>
      simp only [Pool.step, shape, result] at done
      cases done
      simp only [Next, shape] at promised
      by_cases mine : P.lock.owner c.state = some i
      · exact serial.step_inside mine shape result promised
      · exact serial.step_outside mine shape result

/-- Every run along which the promises hold is a serial one. -/
theorem Serial.run {schedule : List Nat} (along : Along P.h waits P.promise schedule c)
    (done : Pool.run P.h waits schedule c = .ok () c') :
    ∃ hist' base', Serial P scripts start hist' base' c' := by
  induction schedule generalizing hist base c with
  | nil =>
    cases done
    exact ⟨hist, base, serial⟩
  | cons i rest ih =>
    obtain ⟨_, c₁, one, later⟩ := Outcome.bind_eq_ok.mp done
    obtain ⟨promised, along⟩ := along
    obtain ⟨hist₁, base₁, serial₁⟩ := serial.step promised one
    rw [one] at along
    exact ih serial₁ along later

theorem Serial.ofProc_prefix (i : Nat) : ofProc i hist <+: scripts i := by
  by_cases mine : P.lock.owner c.state = some i
  · obtain ⟨a, rest, script, -⟩ := serial.inside i mine
    exact ⟨a :: rest, script.symm⟩
  · obtain ⟨rest, script, -⟩ := serial.outside i mine
    exact ⟨rest, script.symm⟩

theorem Serial.ended_free {i : Nat}
    (ended : c.procs i = .ret ()) : P.lock.owner c.state ≠ some i := by
  intro mine
  obtain ⟨a, rest, -, inside⟩ := serial.inside i mine
  rw [ended] at inside
  exact inside

/-- A process that has ended has performed all its transactions. -/
theorem Serial.ofProc_ended {i : Nat}
    (ended : c.procs i = .ret ()) : ofProc i hist = scripts i := by
  obtain ⟨rest, script, follows⟩ := serial.outside i (serial.ended_free ended)
  rw [ended] at follows
  cases follows
  rw [script, List.append_nil]

end Pool

end SirpairOs
