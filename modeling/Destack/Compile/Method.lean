import Destack.Compile.Error
import Destack.Compile.MethodCode
import Destack.Compile.Options
import Destack.Exit.Inline
import Destack.Exit.Lower
import Destack.Merge.Layout

namespace Destack

namespace MethodCode

def typedScope (view : View) (s : Scope Token) : Scope Ty :=
  { kind := match s.kind with
      | .catchBlock token => .catchBlock (view.type token).value
      | .filterBlock start => .filterBlock start
      | .finallyBlock => .finallyBlock
      | .faultBlock => .faultBlock
    tryBegin := s.tryBegin
    tryEnd := s.tryEnd
    handlerBegin := s.handlerBegin
    handlerEnd := s.handlerEnd }

def caught? (s : Scope Token) : Option Token :=
  match s.kind with
  | .catchBlock token => some token
  | _ => none

def scopeDiagnostic? (view : View) (s : Scope Token) : Option Diagnostic :=
  (caught? s).bind fun token =>
    if (view.type token).resolved then none
    else some ⟨.unresolvedType, s.handlerBegin, "catch type token " ++ token.text⟩

def read (m : MethodCode) : Except DecodeError (Listing × List (Scope Token)) := do
  let listing ← decode m.code
  return (listing, ← Clause.resolveAll listing m.clauses)

def settle (o : Options) (b : Body) : Except VerifyError Body := do
  let b := if o.lowerLeaves then b.lowerLeaves.2 else b
  if o.verify then b.verify
  return b

/-- Treats the exits of a body and checks it. There is no result if handlers cannot be copied. -/
def finish (o : Options) (b : Body) : Option (Except VerifyError Body) :=
  let inlined := if o.inlineFinally then b.inlineFinally.map (·.2) else some b
  inlined.map (settle o)

def job (m : MethodCode) (view : View) (o : Options) (listing : Listing) (scopes : List (Scope Ty))
    (graph : Graph) : Job :=
  { cx := { view, returnType := m.returnType, scopes, expandArrays := o.expandArrays }
    listing
    graph
    maxVisits := o.maxVisits }

def conclude (m : MethodCode) (view : View) (o : Options) (clauses : List (Scope Token))
    (graph : Graph) :
    Except ReplayError Nat × Build → Option (Except CompileError Body) × List Query
  | (.error e, s) => (some (.error (.replay e)), s.queries)
  | (.ok _, s) =>
    let b := s.layOut graph m.name (clauses.map (typedScope view))
    let diagnostics := clauses.filterMap (scopeDiagnostic? view) ++ b.diagnostics
    ((finish o { b with diagnostics }).map (·.mapError .verify), s.queries)

/-- The body of a method, and the lookups that were made for it. Without a body or an error the
compilation crashes. -/
def compile (m : MethodCode) (view : View) (o : Options) :
    Option (Except CompileError Body) × List Query :=
  match m.read with
  | .error e => (some (.error (.decode e)), [])
  | .ok (listing, clauses) =>
    let scopes := clauses.map (typedScope view)
    let queries := (clauses.filterMap caught?).map .type
    match Graph.build listing scopes with
    | .error e => (some (.error (.replay e)), queries)
    | .ok graph =>
      m.conclude view o clauses graph
        (Build.converge (m.job view o listing scopes graph)
          { Build.start graph m.vars with queries })

end MethodCode

def Registry.compile (registry : Registry) (r : Resolver) (o : Options) (m : MethodCode) :
    Option (Except CompileError Body) × Registry :=
  let (result, queries) := m.compile (registry.view r m.generics) o
  (result, registry.record r m.generics queries)

end Destack
