import Destack.Proofs.Exit.Rounds
import Destack.Proofs.Exit.Simulation

namespace Destack

namespace Inlining

theorem guards_ofBody (b : Body) : guards (ofBody b).scopes = b.scopes.filter (·.isFinally) := by
  rw [guards, ofBody, List.filter_map, List.map_map]
  simp [Function.comp_def, Waits]

theorem orderly_ofBody {b : Body} (sound : Sound b.stmts b.scopes) (structured : b.Structured) :
    (ofBody b).Orderly where
  sound := sound_ofBody sound
  closed := by
    rw [scopes_ofBody]
    exact structured.closed sound.laid
  distinct := by
    have distinct := List.pairwise_filter.mp structured.distinct
    rw [ofBody, List.pairwise_map]
    exact distinct.imp fun different waits waits' => different waits.2 waits'.2

theorem guards_eq_nil {scopes : List Marked} (settled : ∀ m ∈ scopes, ¬ Waits m) :
    guards scopes = [] := by
  rw [guards, List.filter_eq_nil_iff.mpr (by simpa using settled), List.map_nil]

theorem Treated.sameRun {n : Nat} {b c : Inlining} (treated : Treated n b c) (orderly : b.Orderly)
    (oracle : List Event → Bool) (steps : Nat) :
    SameRun (execute b.stmts (guards b.scopes) oracle steps)
      (execute c.stmts (guards c.scopes) oracle steps) := by
  induction treated with
  | refl => exact ⟨rfl, rfl⟩
  | step chosen found _ ih =>
      obtain ⟨others, p, turn⟩ :=
        turn_of_outermost orderly found (mem_outermost_of_next? chosen)
      exact (turn.sameRun oracle steps).trans (ih (turn.treatment.orderly orderly))

end Inlining

open Inlining

/-- With every finally handler copied and every exit turned into a jump, a body shows what it showed
before, after any number of steps, and stops when it stopped before. -/
theorem Body.inlineFinally_keeps_flow {b : Body} (verified : b.verify = .ok ())
    (nested : ProperlyNested b.scopes) (structured : b.Structured) :
    ∃ count copied, b.inlineFinally = some (count, copied) ∧
      ∀ (oracle : List Event → Bool) (n : Nat),
        (copied.lowerLeaves.2.execute oracle n).trace = (b.execute oracle n).trace ∧
          (copied.lowerLeaves.2.execute oracle n).control.isSome =
            (b.execute oracle n).control.isSome := by
  have sound := (Body.verify_properlyNested.mp ⟨verified, nested⟩).1
  obtain ⟨c, ran, treated, last⟩ := run_rounds_eq sound
  refine ⟨_, _, Body.inlineFinally_eq ran, fun oracle n => ?_⟩
  have copied := treated.sameRun (orderly_ofBody sound structured) oracle n
  rw [guards_ofBody, guards_eq_nil (treated.settled sound last)] at copied
  have lowered := copied.trans (execute_lowered c.stmts
    ((c.scopes.map (·.scope)).filter (·.isFinally)) oracle n)
  exact ⟨lowered.1.symm, lowered.2.symm⟩

theorem Body.cascade_keeps_flow :
    cascade.verify = .ok () ∧ ProperlyNested cascade.scopes ∧ cascade.Structured ∧
      ∃ count copied, cascade.inlineFinally = some (count, copied) ∧
        (copied.lowerLeaves.2.execute (fun _ => true) 8).trace =
          [.test ⟨.ne, .param 0, .const (.int32 0), false⟩,
            .assign (.var (.localVar 0)) (.value (.param 0)), .ret (some (.localVar 0))] := by
  have verified : cascade.verify = .ok () := rfl
  have nested : ProperlyNested cascade.scopes := by decide
  have structured : cascade.Structured := by decide
  obtain ⟨count, copied, inlined, flow⟩ :=
    Body.inlineFinally_keeps_flow verified nested structured
  exact ⟨verified, nested, structured, count, copied, inlined,
    (flow (fun _ => true) 8).1.trans (by decide)⟩

end Destack
