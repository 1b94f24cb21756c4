import Destack.Types.Ty

namespace Destack

structure Span where
  first : Nat
  last : Nat
  deriving DecidableEq, Repr

namespace Span

def length (s : Span) : Nat := s.last - s.first

def isEmpty (s : Span) : Bool := s.last ≤ s.first

def contains (s : Span) (i : Nat) : Bool := s.first ≤ i && i < s.last

def fits (s : Span) (length : Nat) : Bool := s.first ≤ s.last && s.last ≤ length

def within (s t : Span) : Bool := t.first ≤ s.first && s.last ≤ t.last

def overlaps (s t : Span) : Bool := s.first < t.last && t.first < s.last

end Span

inductive HandlerKind (Caught : Type)
  | catchBlock (caught : Caught)
  | filterBlock (start : Nat)
  | finallyBlock
  | faultBlock
  deriving DecidableEq, Repr

namespace HandlerKind

variable {Caught : Type}

def isFinally : HandlerKind Caught → Bool
  | .finallyBlock => true
  | _ => false

def isFault : HandlerKind Caught → Bool
  | .faultBlock => true
  | _ => false

def mapStart (f : Nat → Nat) : HandlerKind Caught → HandlerKind Caught
  | .filterBlock start => .filterBlock (f start)
  | kind => kind

end HandlerKind

structure Scope (Caught : Type) where
  kind : HandlerKind Caught
  tryBegin : Nat
  tryEnd : Nat
  handlerBegin : Nat
  handlerEnd : Nat
  deriving DecidableEq, Repr

namespace Scope

variable {Caught : Type}

def trySpan (s : Scope Caught) : Span := ⟨s.tryBegin, s.tryEnd⟩
def handlerSpan (s : Scope Caught) : Span := ⟨s.handlerBegin, s.handlerEnd⟩

def filterSpan? (s : Scope Caught) : Option Span :=
  match s.kind with
  | .filterBlock start => some ⟨start, s.handlerBegin⟩
  | _ => none

def isFinally (s : Scope Caught) : Bool := s.kind.isFinally
def isFault (s : Scope Caught) : Bool := s.kind.isFault

def inTry (s : Scope Caught) (i : Nat) : Bool := s.trySpan.contains i

def inHandler (s : Scope Caught) (i : Nat) : Bool :=
  s.handlerSpan.contains i || s.filterSpan?.any (·.contains i)

def handlerSide (s : Scope Caught) : Nat :=
  match s.kind with
  | .filterBlock start => min start s.handlerBegin
  | _ => s.handlerBegin

def finish (s : Scope Caught) : Nat := max s.tryEnd s.handlerEnd

/-- Whether the protected region lies in a region of the other scope. Scopes that protect the same
region are siblings. -/
def nestedIn (s t : Scope Caught) : Bool :=
  s.trySpan != t.trySpan &&
    (s.trySpan.within t.trySpan || s.trySpan.within t.handlerSpan ||
      t.filterSpan?.any s.trySpan.within)

/-- Enclosing scopes come first; otherwise the position decides. -/
def order (s t : Scope Caught) : Ordering :=
  if t.nestedIn s then .lt
  else if s.nestedIn t then .gt
  else (compare s.tryBegin t.tryBegin).then (compare s.handlerBegin t.handlerBegin)

def mapBounds (f : Nat → Nat) (s : Scope Caught) : Scope Caught :=
  ⟨s.kind.mapStart f, f s.tryBegin, f s.tryEnd, f s.handlerBegin, f s.handlerEnd⟩

end Scope

namespace Span

def text (s : Span) : String := "[" ++ toString s.first ++ ", " ++ toString s.last ++ ")"

end Span

namespace Scope

def text (s : Scope Ty) : String :=
  let kind := match s.kind with
    | .catchBlock t => "catch " ++ t.text ++ " "
    | .filterBlock start => "filter " ++ (Span.mk start s.handlerBegin).text ++ " "
    | .finallyBlock => "finally "
    | .faultBlock => "fault "
  "try " ++ s.trySpan.text ++ " " ++ kind ++ s.handlerSpan.text

def json (s : Scope Ty) : Json :=
  let kind := match s.kind with
    | .catchBlock t => Json.tagged "Catch" t.json
    | .filterBlock start => .tagged "Filter" (.obj [("filter_begin", .nat start)])
    | .finallyBlock => .str "Finally"
    | .faultBlock => .str "Fault"
  .obj [("kind", kind), ("try_begin", .nat s.tryBegin), ("try_end", .nat s.tryEnd),
    ("handler_begin", .nat s.handlerBegin), ("handler_end", .nat s.handlerEnd)]

end Scope
end Destack
