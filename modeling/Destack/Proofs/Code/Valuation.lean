import Mathlib
import Destack.Code.Stmt

namespace Destack

def Stmt.defined? : Stmt → Option Value
  | .assign (.var v) _ => some v
  | _ => none

/-- A reading of expressions and statements, with values `D` and a world `W` beside the
variables. -/
structure Meaning (D W : Type) where
  literal : Const → D
  literal_null (t u : Ty) : literal (.null t) = literal (.null u)
  compute : W → (Value → D) → Expr → D
  proceed : W → (Value → D) → Stmt → W

structure Store (D W : Type) where
  world : W
  vars : Value → D

namespace Meaning

variable {D W : Type} (M : Meaning D W)

def eval (vars : Value → D) : Value → D
  | .const c => M.literal c
  | v => vars v

def result (σ : Store D W) : Expr → D
  | .value v => M.eval σ.vars v
  | e => M.compute σ.world σ.vars e

def exec (σ : Store D W) (s : Stmt) : Store D W where
  world := M.proceed σ.world σ.vars s
  vars :=
    match s with
    | .assign (.var v) e => Function.update σ.vars v (M.result σ e)
    | _ => σ.vars

def run (σ : Store D W) (stmts : List Stmt) : Store D W := stmts.foldl M.exec σ

theorem eval_of_isVariable {v : Value} (isVariable : v.isVariable) (vars : Value → D) :
    M.eval vars v = vars v := by
  cases v <;> first | rfl | cases isVariable

theorem eval_retype (vars : Value → D) (t : Ty) (v : Value) :
    M.eval vars (v.retype t) = M.eval vars v := by
  unfold Value.retype
  split
  · exact M.literal_null _ _
  · rfl

theorem eval_update_of_ne {v u : Value} (other : u ≠ v) (vars : Value → D) (d : D) :
    M.eval (Function.update vars v d) u = M.eval vars u := by
  cases u with
  | const c => rfl
  | _ => exact Function.update_of_ne other d vars

theorem eval_update_self {v : Value} (isVariable : v.isVariable) (vars : Value → D) (d : D) :
    M.eval (Function.update vars v d) v = d := by
  rw [M.eval_of_isVariable isVariable, Function.update_self]

@[simp] theorem run_cons (σ : Store D W) (s : Stmt) (stmts : List Stmt) :
    M.run σ (s :: stmts) = M.run (M.exec σ s) stmts := rfl

theorem run_append (σ : Store D W) (front back : List Stmt) :
    M.run σ (front ++ back) = M.run (M.run σ front) back :=
  List.foldl_append

theorem run_concat (σ : Store D W) (front : List Stmt) (s : Stmt) :
    M.run σ (front ++ [s]) = M.exec (M.run σ front) s :=
  M.run_append σ front [s]

theorem eval_run_of_not_defined {v : Value} {stmts : List Stmt}
    (kept : ∀ s ∈ stmts, s.defined? ≠ some v) (σ : Store D W) :
    M.eval (M.run σ stmts).vars v = M.eval σ.vars v := by
  induction stmts generalizing σ with
  | nil => rfl
  | cons s stmts ih =>
      rw [List.forall_mem_cons] at kept
      rw [run_cons, ih kept.2]
      unfold exec
      dsimp only
      split
      · apply M.eval_update_of_ne
        rintro rfl
        exact kept.1 rfl
      · rfl

end Meaning
end Destack
