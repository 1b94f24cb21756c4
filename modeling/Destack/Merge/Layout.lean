import Destack.Merge.Fixpoint

namespace Destack

namespace Layout

def movesInto (merges : List (Option Nat)) (stack : List Value) : List Move :=
  (merges.zip stack).filterMap fun (merge, v) =>
    merge.bind fun m => if v = .merge m then none else some ⟨m, v⟩

def movesFrom (sites : List Site) (id : Nat) (exitStack : List Value) : List Move :=
  sites.flatMap fun site =>
    if site.block.predecessors.contains id then movesInto site.merges exitStack else []

def placed (all : List Site) (id : Nat) : List Site → Variables → List (List Stmt) × Variables
  | [], vars => ([], vars)
  | site :: rest, vars =>
    let (stmts, vars) := match site.output with
      | none => ([], vars)
      | some output => Moves.insert output.stmts (movesFrom all id output.exitStack) vars
    let (rest, vars) := placed all (id + 1) rest vars
    (stmts :: rest, vars)

def start (blocks : List (List Stmt)) (id : Nat) : Nat := (blocks.take id).flatten.length

def position (g : Graph) (blocks : List (List Stmt)) (instruction : Nat) : Nat :=
  match g.blockAt? instruction with
  | some id => start blocks id
  | none => start blocks blocks.length

end Layout

def Build.layOut (s : Build) (g : Graph) (name : String) (scopes : List (Scope Ty)) : Body :=
  let (blocks, vars) := Layout.placed s.sites 0 s.sites s.vars
  let position := Layout.position g blocks
  { name
    stmts := blocks.flatten.map (·.mapTarget position)
    scopes := scopes.map (·.mapBounds position)
    vars
    diagnostics := s.sites.flatMap fun site => (site.output.map (·.diagnostics)).getD []
    leavesLowered := false }

end Destack
