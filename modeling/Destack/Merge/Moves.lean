import Destack.Code.Stmt

namespace Destack

structure Move where
  merge : Nat
  source : Value
  deriving DecidableEq, Repr

namespace Moves

def written (moves : List Move) : List Value := moves.map fun m => .merge m.merge

structure Saved where
  vars : Variables
  copies : List (Value × Value)

def saveOperand (written : List Value) (v : Value) (s : Saved) : Value × Saved :=
  if written.contains v then
    match s.copies.lookup v with
    | some copy => (copy, s)
    | none =>
      let (id, vars) := s.vars.newTemp (s.vars.typeOf v)
      (.temp id, ⟨vars, s.copies ++ [(v, .temp id)]⟩)
  else (v, s)

def saveConditions (written : List Value) : List Stmt → Saved → List Stmt × Saved
  | [], s => ([], s)
  | .branch cond target :: rest, s =>
    let (left, s) := saveOperand written cond.left s
    let (right, s) := saveOperand written cond.right s
    let (rest, s) := saveConditions written rest s
    (.branch { cond with left, right } target :: rest, s)
  | stmt :: rest, s =>
    let (rest, s) := saveConditions written rest s
    (stmt :: rest, s)

def assignment (vars : Variables) (m : Move) : Stmt :=
  .set (.merge m.merge) (.value (m.source.retype (vars.typeOf (.merge m.merge))))

/-- Moves through new temporaries: first all reads, then all writes. -/
def stage (vars : Variables) : List Move → List Stmt × List Stmt × Variables
  | [] => ([], [], vars)
  | m :: moves =>
    let t := vars.typeOf (.merge m.merge)
    let (id, vars) := vars.newTemp t
    let (reads, writes, vars) := stage vars moves
    (.set (.temp id) (.value (m.source.retype t)) :: reads,
      .set (.merge m.merge) (.value (.temp id)) :: writes, vars)

def hazard (moves : List Move) : Bool := moves.any fun m => (written moves).contains m.source

def assignments (vars : Variables) (moves : List Move) : List Stmt × Variables :=
  if hazard moves then
    let (reads, writes, vars) := stage vars moves
    (reads ++ writes, vars)
  else (moves.map (assignment vars), vars)

def insert (stmts : List Stmt) (moves : List Move) (vars : Variables) : List Stmt × Variables :=
  if moves.isEmpty then (stmts, vars)
  else
    let before := stmts.takeWhile fun s => !s.isBranch
    let (after, saved) :=
      saveConditions (written moves) (stmts.dropWhile fun s => !s.isBranch) ⟨vars, []⟩
    let saves := saved.copies.map fun (v, copy) => .set copy (.value v)
    let (assigns, vars) := assignments saved.vars moves
    (before ++ saves ++ assigns ++ after, vars)

end Moves
end Destack
