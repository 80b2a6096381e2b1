import SirpairOs.Fs.BlockSpec
import SirpairOs.Fs.TransOwner

/-! The capacity of the log. Within a transaction the header only grows, so a
program that ends with room in the log never found it full. -/
namespace SirpairOs.Fs

theorem le_length_absorb (lh : List Nat) (s : Nat) : lh.length ≤ (KOp.absorb lh s).length := by
  unfold KOp.absorb
  split
  · exact Nat.le_refl _
  · rw [List.length_append]
    exact Nat.le_add_right ..

section Grows

variable {pid : Nat} {α β : Type}

/-- The log kept its size, and its header lost no entry. -/
def LogGrows (k k' : Kernel) : Prop :=
  k'.log.size = k.log.size ∧ k.log.lh.length ≤ k'.log.lh.length

variable {k k' : Kernel} {p : KProg α}

theorem LogGrows.trans {k'' : Kernel} (first : LogGrows k k') (second : LogGrows k' k'') :
    LogGrows k k'' := ⟨second.1.trans first.1, Nat.le_trans first.2 second.2⟩

theorem LogGrows.room (grows : LogGrows k k') (room : k'.log.lh.length < k'.logLimit) :
    k.log.lh.length < k.logLimit := by
  have := grows.2
  unfold Kernel.logLimit at room ⊢
  rw [grows.1] at room
  omega

theorem unbounded_grows (o : KOp) (k : Kernel) (plain : Plain o) :
    (KOp.unbounded pid o k).Satisfies (fun _ k' => LogGrows k k') fun _ _ => True := by
  cases o with
  | beginTrans => exact plain.elim
  | commitTrans => exact plain.elim
  | logWrite s data =>
    simp only [KOp.unbounded]
    split
    · trivial
    split
    · trivial
    · exact ⟨rfl, le_length_absorb ..⟩
  | _ =>
    simp only [KOp.unbounded, KOp.exec]
    repeat' split
    all_goals trivial

theorem run_unbounded_grows (plain : p.Only Plain) (k : Kernel) :
    (p.run (KOp.unbounded pid) k).Satisfies (fun _ k' => LogGrows k k') fun _ _ => True := by
  induction p generalizing k with
  | ret value => exact ⟨rfl, Nat.le_refl _⟩
  | op o next ih =>
    have step : (KOp.unbounded pid o k).Satisfies (fun _ k' => LogGrows k k') fun _ _ => True :=
      unbounded_grows o k plain.1
    rw [Prog.run_op]
    revert step
    cases KOp.unbounded pid o k with
    | halt e k' => exact fun _ => trivial
    | ok r k' => exact fun step => (ih r (plain.2 r) k').mono (fun _ _ => step.trans) fun _ _ => id

theorem room_of_length (o : KOp) (room : k.log.lh.length < k.logLimit) : KOp.Room pid o k := by
  cases o with
  | logWrite s data => exact fun _ => room
  | _ => trivial

/-- Who ends with room in the log had it all along. -/
theorem along_room (plain : p.Only Plain) {value : α}
    (done : p.run (KOp.unbounded pid) k = .ok value k') (room : k'.log.lh.length < k'.logLimit) :
    p.Along (KOp.unbounded pid) (KOp.Room pid) k := by
  induction p generalizing k with
  | ret value => trivial
  | op o next ih =>
    have whole : (Prog.run (KOp.unbounded pid) (.op o next) k).Satisfies
        (fun _ k' => LogGrows k k') fun _ _ => True := run_unbounded_grows plain k
    rw [done] at whole
    refine ⟨room_of_length o (LogGrows.room whole room), ?_⟩
    rw [Prog.run_op] at done
    revert done
    cases KOp.unbounded pid o k with
    | halt e k₁ => exact fun _ => trivial
    | ok r k₁ => exact fun done => ih r (plain.2 r) done

/-- The kernel's run ends well when the run with an unlimited log does, and no
`log_write` finds the log full. -/
theorem run_exec_eq_ok {value : α} : p.run (KOp.exec pid) k = .ok value k' ↔
      p.run (KOp.unbounded pid) k = .ok value k' ∧ p.Along (KOp.unbounded pid) (KOp.Room pid) k := by
  rw [KOp.exec_eq_guarded]
  constructor
  · intro done
    by_cases along : p.Along (KOp.unbounded pid) (KOp.Room pid) k
    · exact ⟨(Prog.run_guarded_of_along along).symm.trans done, along⟩
    · obtain ⟨k'', halted⟩ := Prog.run_guarded_of_not_along (e := .panic .tooBig) along
      rw [halted] at done
      cases done
  · rintro ⟨done, along⟩
    exact (Prog.run_guarded_of_along along).trans done

end Grows

end SirpairOs.Fs
