import Destack.Code.Body

namespace Destack

inductive Region
  | tryRegion
  | handlerRegion
  | filterRegion
  deriving DecidableEq, Repr

def Region.name : Region → String
  | .tryRegion => "try"
  | .handlerRegion => "handler"
  | .filterRegion => "filter"

inductive VerifyError
  | danglingTarget (stmt target : Nat)
  | emptyRegion (scope : Nat) (region : Region)
  | regionOutOfRange (scope : Nat) (region : Region) (last length : Nat)
  | tryOverlapsHandler (scope : Nat)
  | crossingScopes (first second : Nat)
  | leaveAfterLowering (stmt : Nat)
  deriving DecidableEq, Repr

def VerifyError.message : VerifyError → String
  | .danglingTarget stmt target =>
    "Statement " ++ toString stmt ++ " branches to " ++ toString target ++
      ", past the end of the body"
  | .emptyRegion scope region =>
    "Scope " ++ toString scope ++ " has an empty " ++ region.name ++ " region"
  | .regionOutOfRange scope region last length =>
    "Scope " ++ toString scope ++ " " ++ region.name ++ " region ends at " ++ toString last ++
      ", past the body length " ++ toString length
  | .tryOverlapsHandler scope =>
    "Scope " ++ toString scope ++ " protects part of its own handler"
  | .crossingScopes first second =>
    "Regions of scopes " ++ toString first ++ " and " ++ toString second ++ " cross"
  | .leaveAfterLowering stmt =>
    "Statement " ++ toString stmt ++ " is a leave in a body whose leaves were lowered"

namespace Verify

def regions (s : Scope Ty) : List (Region × Span) :=
  [(.tryRegion, s.trySpan), (.handlerRegion, s.handlerSpan)] ++
    s.filterSpan?.toList.map (.filterRegion, ·)

def checkStmt (length : Nat) (lowered : Bool) (s : Stmt) (i : Nat) : Except VerifyError Unit :=
  match s.target? with
  | some target =>
    if length ≤ target then .error (.danglingTarget i target)
    else if lowered && s.isLeave then .error (.leaveAfterLowering i)
    else .ok ()
  | none => .ok ()

def checkRegion (length number : Nat) (region : Region) (s : Span) : Except VerifyError Unit :=
  if s.isEmpty then .error (.emptyRegion number region)
  else if length < s.last then .error (.regionOutOfRange number region s.last length)
  else .ok ()

def checkScope (length : Nat) (s : Scope Ty) (number : Nat) : Except VerifyError Unit := do
  (regions s).forM fun (region, span) => checkRegion length number region span
  if (regions s).tail.any fun (_, span) => s.trySpan.overlaps span then
    throw (.tryOverlapsHandler number)

def cross (s t : Span) : Bool := s.overlaps t && !t.within s && !s.within t

def scopesCross (s t : Scope Ty) : Bool :=
  (regions s).any fun (_, a) => (regions t).any fun (_, b) => cross a b

def checkPairs : List (Scope Ty × Nat) → Except VerifyError Unit
  | [] => .ok ()
  | (s, first) :: rest => do
    rest.forM fun (t, second) =>
      if scopesCross s t then throw (VerifyError.crossingScopes first second) else pure ()
    checkPairs rest

end Verify

def Body.verify (b : Body) : Except VerifyError Unit := do
  let length := b.stmts.length
  b.stmts.zipIdx.forM fun (s, i) => Verify.checkStmt length b.leavesLowered s i
  b.scopes.zipIdx.forM fun (s, number) => Verify.checkScope length s number
  Verify.checkPairs b.scopes.zipIdx

end Destack
