import Destack.Code.Body

namespace Destack

def Stmt.lowered : Stmt → Stmt
  | .leave target => .goto target
  | s => s

def Body.lowerLeaves (b : Body) : Nat × Body :=
  (b.stmts.countP (·.isLeave), { b with stmts := b.stmts.map (·.lowered), leavesLowered := true })

end Destack
