import Destack.Code.Body

/-!
# Copies of finally handlers

An exit from a protected region runs the region's finally handler before it goes on to its target.
Each exit gets a copy of the handler, placed right after the scope, and leads to it; where the
handler would end, its copy jumps to the target of the exit. The handler itself stays for the
exceptional path.

Scopes are treated one by one, enclosing ones first. What lies behind the place of the copies moves
back by their total length.
-/

namespace Destack

structure Marked where
  scope : Scope Ty
  done : Bool
  deriving DecidableEq, Repr

structure Inlining where
  stmts : List Stmt
  scopes : List Marked
  copies : Nat
  deriving DecidableEq, Repr

structure CopyPlan where
  scope : Scope Ty
  exits : List (Nat × Nat)
  owned : List Bool
  nested : List Marked
  deriving DecidableEq, Repr

namespace CopyPlan

variable (p : CopyPlan)

def handler : Span := p.scope.handlerSpan

def place : Nat := p.scope.finish

def growth : Nat := p.exits.length * p.handler.length

def copyStart (exit : Nat) : Nat := p.place + exit * p.handler.length

def shift (i : Nat) : Nat := if p.place ≤ i then i + p.growth else i

/-- Where a region that starts at `first` ends once the copies are there. A region that ends where
the copies go takes them in if it starts no later than the scope. -/
def shiftEnd (itself : Bool) (first last : Nat) : Nat :=
  if p.place < last || (last = p.place && !itself && first ≤ p.scope.tryBegin) then last + p.growth
  else last

def shiftScope (itself : Bool) (s : Scope Ty) : Scope Ty :=
  { kind := s.kind.mapStart p.shift
    tryBegin := p.shift s.tryBegin
    tryEnd := p.shiftEnd itself s.tryBegin s.tryEnd
    handlerBegin := p.shift s.handlerBegin
    handlerEnd := p.shiftEnd itself s.handlerBegin s.handlerEnd }

def copyTarget (start target : Nat) : Nat :=
  if p.handler.contains target then target - p.handler.first + start else p.shift target

def copy (body : List Stmt) (exit target : Nat) : List Stmt :=
  (body.zip p.owned).map fun (s, ends) =>
    if ends then .goto (p.shift target) else s.mapTarget (p.copyTarget (p.copyStart exit))

def copiedScopes : List Marked :=
  p.nested.flatMap fun m =>
    (List.range p.exits.length).map fun exit =>
      { m with scope := m.scope.mapBounds (· + (p.copyStart exit - p.handler.first)) }

end CopyPlan

namespace Inlining

def slice (stmts : List Stmt) (s : Span) : List Stmt := (stmts.drop s.first).take s.length

def exits (stmts : List Stmt) (s : Scope Ty) : List (Nat × Nat) :=
  ((slice stmts s.trySpan).zipIdx s.tryBegin).filterMap fun
    | (.leave target, i) => if s.inTry target then none else some (i, target)
    | _ => none

def inInnerHandler (others : List Marked) (handler : Span) (i : Nat) : Bool :=
  others.any fun m =>
    (m.scope.isFinally || m.scope.isFault) && m.scope.handlerSpan.contains i &&
      m.scope.handlerSpan.within handler

def liesIn (s : Scope Ty) (handler : Span) : Bool :=
  handler.first ≤ min s.tryBegin s.handlerSide && s.finish ≤ handler.last

def plan (stmts : List Stmt) (s : Scope Ty) (others : List Marked) : CopyPlan :=
  let handler := s.handlerSpan
  { scope := s
    exits := exits stmts s
    owned := ((slice stmts handler).zipIdx handler.first).map fun (stmt, i) =>
      stmt = .endFinally && !inInnerHandler others handler i
    nested := others.filter fun m => liesIn m.scope handler }

def redirect (p : CopyPlan) (stmts : List Stmt) : List Stmt :=
  p.exits.zipIdx.foldl (fun stmts ((i, _), exit) => stmts.set i (.leave (p.copyStart exit))) stmts

def apply (b : Inlining) (number : Nat) (p : CopyPlan) : Inlining :=
  let body := slice b.stmts p.handler
  let moved := b.stmts.map (·.mapTarget p.shift)
  let inserted := p.exits.zipIdx.flatMap fun ((_, target), exit) => p.copy body exit target
  let scopes := b.scopes.mapIdx fun i m => { m with scope := p.shiftScope (i = number) m.scope }
  { stmts := redirect p (moved.take p.place ++ inserted ++ moved.drop p.place)
    scopes := scopes ++ p.copiedScopes
    copies := b.copies + p.exits.length }

def waiting (scopes : List Marked) : List Nat :=
  (List.range scopes.length).filter fun i =>
    scopes[i]?.any fun m => !m.done && m.scope.isFinally

def nestedAt (scopes : List Marked) (i j : Nat) : Bool :=
  match scopes[i]?, scopes[j]? with
  | some s, some t => s.scope.nestedIn t.scope
  | _, _ => false

def earlier (scopes : List Marked) (i j : Nat) : Nat :=
  match scopes[i]?, scopes[j]? with
  | some s, some t => if s.scope.order t.scope = .gt then j else i
  | _, _ => i

def next? (scopes : List Marked) : Option Nat :=
  let waiting := waiting scopes
  let outermost := waiting.filter fun i => !waiting.any fun j => j != i && nestedAt scopes i j
  match outermost with
  | [] => none
  | first :: rest => some (rest.foldl (earlier scopes) first)

def treat (b : Inlining) (number : Nat) (m : Marked) : Inlining :=
  let marked := { b with scopes := b.scopes.set number { m with done := true } }
  let p := plan b.stmts m.scope (marked.scopes.eraseIdx number)
  if p.exits.isEmpty then marked else marked.apply number p

/-- Whether the regions of a scope can be cut out of the statements. A handler that is not copied is
only looked through. -/
def cutsOut (stmts : List Stmt) (s : Scope Ty) : Bool :=
  s.trySpan.fits stmts.length &&
    if (exits stmts s).isEmpty then s.handlerSpan.isEmpty || s.handlerEnd ≤ stmts.length
    else s.handlerSpan.fits stmts.length

/-- Treats waiting scopes until none is left, at most `rounds` of them. Copies can move the start of
an empty region past its end, and there is no result if such a region is to be cut out. -/
def run : Nat → Inlining → Option Inlining
  | 0, b => some b
  | rounds + 1, b =>
    match next? b.scopes with
    | none => some b
    | some number =>
      match b.scopes[number]? with
      | none => some b
      | some m => if cutsOut b.stmts m.scope then run rounds (b.treat number m) else none

/-- More rounds than the scopes of a body and of the copies of its handlers can take: a scope is
copied at most once for each exit from each scope around it. -/
def rounds (b : Body) : Nat :=
  Nat.pow (b.stmts.length + b.scopes.length + 2) (b.scopes.length + 2)

end Inlining

namespace Body

def inlineFinally (b : Body) : Option (Nat × Body) :=
  let start : Inlining := ⟨b.stmts, b.scopes.map fun s => ⟨s, false⟩, 0⟩
  (start.run (Inlining.rounds b)).map fun result =>
    (result.copies, { b with stmts := result.stmts, scopes := result.scopes.map (·.scope) })

end Body
end Destack
