import Destack.Code.Scope
import Destack.Distinct
import Destack.Replay.Error

namespace Destack

inductive RootKind
  | entry
  | handler (scope : Nat)
  | filter (scope : Nat)
  | leaveTarget
  deriving DecidableEq, Repr

def RootKind.json : RootKind → Json
  | .entry => .str "Entry"
  | .handler scope => .tagged "Handler" (.nat scope)
  | .filter scope => .tagged "Filter" (.nat scope)
  | .leaveTarget => .str "LeaveTarget"

structure Block where
  entry : Nat
  exit : Nat
  /-- The targets of the last instruction come first, then the block that it falls through to. -/
  successors : List Nat
  predecessors : List Nat
  exception : Option Ty
  deriving DecidableEq, Repr

structure Graph where
  blocks : List Block
  roots : List (Nat × RootKind)
  deriving DecidableEq, Repr

namespace Graph

def blockAt? (g : Graph) (entry : Nat) : Option Nat := g.blocks.findIdx? fun b => b.entry = entry

def rootKind? (g : Graph) (block : Nat) : Option RootKind := g.roots.lookup block

def successors (g : Graph) (block : Nat) : List Nat :=
  (g.blocks[block]?.map (·.successors)).getD []

def predecessors (g : Graph) (block : Nat) : List Nat :=
  (g.blocks[block]?.map (·.predecessors)).getD []

end Graph

namespace Block

def instructions (b : Block) (l : Listing) : Listing := (l.drop b.entry).take (b.exit + 1 - b.entry)

end Block

namespace Graph

variable (l : Listing) (scopes : List (Scope Ty))

def danglingTarget? : Option ReplayError :=
  l.findSome? fun i =>
    (i.targets.find? fun target => l.length ≤ target).map fun target =>
      .danglingTarget i.index target

def boundaries (s : Scope Ty) : List Nat :=
  [s.tryBegin, s.tryEnd, s.handlerBegin, s.handlerEnd] ++
    (match s.kind with
      | .filterBlock start => [start]
      | _ => [])

def marks : List Nat :=
  0 :: l.flatMap (fun i => i.targets ++ if i.opcode.flow.endsBlock then [i.index + 1] else []) ++
    scopes.flatMap boundaries

def leaders : List Nat :=
  let starts := marks l scopes
  (List.range l.length).filter fun i => starts.contains i

def spans (length : Nat) : List Nat → List Span
  | [] => []
  | [entry] => [⟨entry, length⟩]
  | entry :: next :: rest => ⟨entry, next⟩ :: spans length (next :: rest)

def flowTargets (i : Instruction Nat) : List Nat :=
  (if i.opcode.flow.takesTargets then i.targets else []) ++
    (if i.opcode.flow.fallsThrough then [i.index + 1] else [])

def edges (leaders : List Nat) (last : Instruction Nat) : Except ReplayError (List Nat) := do
  let blocks ← (flowTargets last).mapM fun target =>
    match leaders.findIdx? (· = target) with
    | some block => Except.ok block
    | none => .error (.danglingTarget last.index target)
  return distinct blocks

def entries : List (Nat × RootKind) :=
  let ofScope (s : Scope Ty) (number : Nat) : List (Nat × RootKind) :=
    match s.kind with
    | .filterBlock start => [(start, .filter number), (s.handlerBegin, .handler number)]
    | _ => [(s.handlerBegin, .handler number)]
  let ofInstruction (i : Instruction Nat) : List (Nat × RootKind) :=
    if i.opcode.flow = .leave then i.target?.toList.map (·, .leaveTarget) else []
  (0, .entry) :: scopes.zipIdx.flatMap (fun (s, number) => ofScope s number) ++
    l.flatMap ofInstruction

def rootsOf (leaders : List Nat) : List (Nat × RootKind) :=
  (entries l scopes).foldl (fun found (position, kind) =>
    match leaders.findIdx? (· = position) with
    | some block => if found.any (·.1 = block) then found else found ++ [(block, kind)]
    | none => found) []

def exceptionOf : RootKind → Option Ty
  | .entry | .leaveTarget => none
  | .filter _ => some .object
  | .handler number =>
    scopes[number]?.bind fun s =>
      match s.kind with
      | .catchBlock t => some t
      | .filterBlock _ => some .object
      | .finallyBlock | .faultBlock => none

end Graph

def Graph.build (l : Listing) (scopes : List (Scope Ty)) : Except ReplayError Graph :=
  if l.isEmpty then .ok ⟨[], []⟩
  else
    match Graph.danglingTarget? l with
    | some e => .error e
    | none => do
      let leaders := Graph.leaders l scopes
      let spans := Graph.spans l.length leaders
      let successors ← spans.mapM fun s =>
        match l[s.last - 1]? with
        | some last => Graph.edges leaders last
        | none => pure []
      let roots := Graph.rootsOf l scopes leaders
      let blocks := (spans.zip successors).zipIdx.map fun ((span, next), number) =>
        { entry := span.first
          exit := span.last - 1
          successors := next
          predecessors := (successors.zipIdx.filter fun (next, _) => next.contains number).map (·.2)
          exception := (roots.lookup number).bind (Graph.exceptionOf scopes) }
      return ⟨blocks, roots⟩

end Destack
