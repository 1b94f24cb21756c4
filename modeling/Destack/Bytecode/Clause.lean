import Destack.Bytecode.Decode
import Destack.Code.Scope

namespace Destack

structure Clause where
  kind : HandlerKind Token
  tryOffset : Nat
  tryLength : Nat
  handlerOffset : Nat
  handlerLength : Nat
  deriving DecidableEq, Repr

namespace Clause

/-- The clause with given first and last offsets; a range that ends before it starts is empty. -/
def ofBounds (kind : HandlerKind Token) (tryBegin tryEnd handlerBegin handlerEnd : Nat) : Clause :=
  ⟨kind, tryBegin, tryEnd - tryBegin, handlerBegin, handlerEnd - handlerBegin⟩

-- Offsets are words of 32 bits, and so are their sums.
def tryEnd (c : Clause) : Nat := (c.tryOffset + c.tryLength) % UInt32.size
def handlerEnd (c : Clause) : Nat := (c.handlerOffset + c.handlerLength) % UInt32.size

def boundary (l : Listing) (number offset : Nat) : Except DecodeError Nat :=
  match l.indexAt? offset with
  | some index => .ok index
  | none => .error (.danglingBoundary number offset)

def resolveKind (l : Listing) (number : Nat) :
    HandlerKind Token → Except DecodeError (HandlerKind Token)
  | .filterBlock start => .filterBlock <$> boundary l number start
  | kind => pure kind

/-- The clause in positions; the filter's start is looked up first. -/
def resolve (l : Listing) (number : Nat) (c : Clause) : Except DecodeError (Scope Token) := do
  return {
    kind := ← resolveKind l number c.kind
    tryBegin := ← boundary l number c.tryOffset
    tryEnd := ← boundary l number c.tryEnd
    handlerBegin := ← boundary l number c.handlerOffset
    handlerEnd := ← boundary l number c.handlerEnd }

def resolveAll (l : Listing) (clauses : List Clause) : Except DecodeError (List (Scope Token)) :=
  clauses.zipIdx.mapM fun (c, number) => c.resolve l number

end Clause
end Destack
