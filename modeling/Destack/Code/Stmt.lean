import Destack.Code.Expr

namespace Destack

structure Condition where
  op : BinaryOp
  left : Value
  right : Value
  /-- Whether integers are compared as unsigned and floats as possibly unordered. -/
  unsigned : Bool
  deriving DecidableEq, Repr

inductive Stmt
  | assign (place : Place) (e : Expr)
  | call (c : Call)
  | branch (cond : Condition) (target : Nat)
  | goto (target : Nat)
  | leave (target : Nat)
  | ret (value : Option Value)
  | throw (value : Value)
  | rethrow
  | endFinally
  | endFault
  | endFilter (value : Value)
  deriving DecidableEq, Repr

namespace Condition

def reads (c : Condition) : List Value := [c.left, c.right]

end Condition

namespace Stmt

def set (v : Value) (e : Expr) : Stmt := .assign (.var v) e

def target? : Stmt → Option Nat
  | .branch _ target | .goto target | .leave target => some target
  | _ => none

def mapTarget (f : Nat → Nat) : Stmt → Stmt
  | .branch cond target => .branch cond (f target)
  | .goto target => .goto (f target)
  | .leave target => .leave (f target)
  | s => s

def isBranch (s : Stmt) : Bool := s.target?.isSome

def isLeave : Stmt → Bool
  | .leave _ => true
  | _ => false

def fallsThrough : Stmt → Bool
  | .assign .. | .call _ | .branch .. => true
  | _ => false

def reads : Stmt → List Value
  | .assign place e => place.reads ++ e.reads
  | .call c => c.args
  | .branch cond _ => cond.reads
  | .ret value => value.toList
  | .throw value | .endFilter value => [value]
  | .goto _ | .leave _ | .rethrow | .endFinally | .endFault => []

end Stmt

def Condition.text (c : Condition) : String :=
  c.left.text ++ " " ++ c.op.symbol ++ opSuffix false c.unsigned ++ " " ++ c.right.text

def Stmt.text : Stmt → String
  | .assign place e => place.text ++ " = " ++ e.text
  | .call c => c.text
  | .branch cond target => "if " ++ cond.text ++ " goto " ++ toString target
  | .goto target => "goto " ++ toString target
  | .leave target => "leave " ++ toString target
  | .ret none => "return"
  | .ret (some value) => "return " ++ value.text
  | .throw value => "throw " ++ value.text
  | .rethrow => "rethrow"
  | .endFinally => "endfinally"
  | .endFault => "endfault"
  | .endFilter value => "endfilter " ++ value.text

def Condition.json (c : Condition) : Json :=
  .obj [("op", .str c.op.word), ("left", c.left.json), ("right", c.right.json),
    ("unsigned", .bool c.unsigned)]

def Stmt.json : Stmt → Json
  | .assign place e => .tagged "Assign" (.obj [("lhs", place.json), ("rhs", e.json)])
  | .call c => .tagged "Call" c.json
  | .branch cond target => .tagged "If" (.obj [("cond", cond.json), ("target", .nat target)])
  | .goto target => .tagged "Goto" (.nat target)
  | .leave target => .tagged "Leave" (.nat target)
  | .ret value => .tagged "Return" (.ofOption Value.json value)
  | .throw value => .tagged "Throw" value.json
  | .rethrow => .str "Rethrow"
  | .endFinally => .str "EndFinally"
  | .endFault => .str "EndFault"
  | .endFilter value => .tagged "EndFilter" value.json

end Destack
