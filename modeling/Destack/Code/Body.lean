import Destack.Code.Scope
import Destack.Code.Stmt

namespace Destack

inductive DiagnosticKind
  | unresolvedType
  | unresolvedField
  | unresolvedMethod
  | unresolvedString
  | patternSkipped
  deriving DecidableEq, Repr

structure Diagnostic where
  kind : DiagnosticKind
  instruction : Nat
  message : String
  deriving DecidableEq, Repr

structure Body where
  name : String
  stmts : List Stmt
  scopes : List (Scope Ty)
  vars : Variables
  diagnostics : List Diagnostic
  leavesLowered : Bool
  deriving DecidableEq, Repr

def Body.count (b : Body) (s : Stmt) : Nat := b.stmts.count s

namespace DiagnosticKind

def text : DiagnosticKind → String
  | .unresolvedType => "unresolved type"
  | .unresolvedField => "unresolved field"
  | .unresolvedMethod => "unresolved method"
  | .unresolvedString => "unresolved string"
  | .patternSkipped => "pattern skipped"

def word : DiagnosticKind → String
  | .unresolvedType => "UnresolvedType"
  | .unresolvedField => "UnresolvedField"
  | .unresolvedMethod => "UnresolvedMethod"
  | .unresolvedString => "UnresolvedString"
  | .patternSkipped => "PatternSkipped"

end DiagnosticKind

namespace Diagnostic

def text (d : Diagnostic) : String :=
  d.kind.text ++ " at instruction " ++ toString d.instruction ++ ": " ++ d.message

def json (d : Diagnostic) : Json :=
  .obj [("kind", .str d.kind.word), ("instruction", .nat d.instruction),
    ("message", .str d.message)]

end Diagnostic

namespace Body

def text (b : Body) : String :=
  let scopes := b.scopes.map fun s => "  " ++ s.text
  let stmts := b.stmts.zipIdx.map fun (s, i) => toString i ++ ": " ++ s.text
  String.join ((("method " ++ b.name) :: scopes ++ stmts).map (· ++ "\n"))

def json (b : Body) : Json :=
  .obj [("name", .str b.name), ("stmts", .ofList Stmt.json b.stmts),
    ("scopes", .ofList Scope.json b.scopes), ("vars", b.vars.json),
    ("diagnostics", .ofList Diagnostic.json b.diagnostics),
    ("leaves_lowered", .bool b.leavesLowered)]

def document (b : Body) : String := b.json.pretty

end Body
end Destack
