import Destack.Proofs.Code.Valuation
import Destack.Replay.Block

namespace Destack

def View.called? (view : View) (i : Instruction Nat) : Option Method :=
  i.token?.bind fun token => (view.method? token).map (·.value)

def View.blank : View where
  type _ := ⟨.unknown, false⟩
  field token := ⟨.placeholder token.text, false⟩
  method? _ := none
  string token := ⟨token.text, false⟩

def Context.blank : Context where
  view := .blank
  returnType := .void
  scopes := []
  expandArrays := false

def Expr.isCall : Expr → Bool
  | .call _ | .newObject .. => true
  | _ => false

namespace Stmt

def mayWrite : Stmt → Bool
  | .assign (.deref ..) _ | .assign (.field ..) _ | .call _ => true
  | .assign _ e => e.isCall
  | _ => false

/-- A store to memory or a call: no variable changes, and control goes on with the next
statement. -/
def isEffect : Stmt → Bool
  | .assign (.var _) _ => false
  | .assign .. | .call _ => true
  | _ => false

def isStraight : Stmt → Bool
  | .assign .. | .call _ => true
  | _ => false

theorem isStraight_of_isEffect {s : Stmt} (effect : s.isEffect) : s.isStraight := by
  cases s <;> first | rfl | cases effect

theorem defined?_of_isEffect {s : Stmt} (effect : s.isEffect) : s.defined? = none := by
  cases s with
  | assign place e => cases place <;> first | rfl | cases effect
  | _ => rfl

theorem mayWrite_of_not_isStraight {s : Stmt} (ends : ¬ s.isStraight) : s.mayWrite = false := by
  cases s <;> first | rfl | exact absurd rfl ends

theorem defined?_of_not_isStraight {s : Stmt} (ends : ¬ s.isStraight) : s.defined? = none := by
  cases s <;> first | rfl | exact absurd rfl ends

def way (s : Stmt) : Option Nat × Bool := (s.target?, s.fallsThrough)

theorem way_of_isStraight {s : Stmt} (straight : s.isStraight) : s.way = (none, true) := by
  cases s <;> first | rfl | cases straight

end Stmt

namespace Replay

inductive Shape
  | working (takes : Nat) (puts : Option Nat)
  | doubled
  | leaving (takes : Option Nat) (ways : List (Option Nat × Bool))
  deriving DecidableEq, Repr

namespace Shape

def fresh : Shape := .working 0 (some 0)

def rest {α : Type} : Shape → List α → List α
  | .working takes _, stack | .leaving (some takes) _, stack => stack.drop takes
  | .doubled, stack => stack
  | .leaving none _, _ => []

theorem rest_map {α β : Type} (f : α → β) (s : Shape) (stack : List α) :
    s.rest (stack.map f) = (s.rest stack).map f := by
  cases s with
  | working takes puts => simp [rest]
  | doubled => rfl
  | leaving takes ways => cases takes <;> simp [rest]

def ways : Shape → List (Option Nat × Bool)
  | .working .. | .doubled => []
  | .leaving _ ways => ways

end Shape

def callShape (cx : Context) (m : Method) : Shape :=
  if m.sig.returnType = .void then .working m.argCount (some 0)
  else .working m.argCount (if cx.expandArrays && m.fillsArray then none else some 1)

end Replay

def Action.mayWrite : Action → Bool
  | .storeIndirect _ | .copyObject | .initObject | .storeField | .call _ | .newObject => true
  | _ => false

open Replay in
def Action.shape (cx : Context) (i : Instruction Nat) : Action → Shape
  | .skip | .unsupported => .working 0 (some 0)
  | .loadNull | .loadInt32 _ | .loadInt64 | .loadFloat32 | .loadFloat64 | .loadString | .load ..
  | .loadAddress _ | .loadStatic | .loadStaticAddress | .loadFunction | .sizeOf
  | .loadHandle => .working 0 (some 1)
  | .duplicate => .doubled
  | .store .. | .discard | .initObject | .storeStatic => .working 1 (some 0)
  | .unary _ | .convert .. | .loadIndirect _ | .loadField | .loadFieldAddress | .newArray
  | .arrayLength | .loadVirtualFunction | .castClass | .isInstance | .box
  | .unbox _ => .working 1 (some 1)
  | .storeIndirect _ | .copyObject | .storeField => .working 2 (some 0)
  | .binary .. | .compare .. | .loadElement _ | .loadElementAddress => .working 2 (some 1)
  | .storeElement _ => .working 3 (some 0)
  | .call _ => ((cx.view.called? i).map (callShape cx)).getD .fresh
  | .newObject =>
    ((cx.view.called? i).map fun m => .working m.sig.params.length (some 1)).getD .fresh
  | .jump => .leaving (some 0) [(i.target?, false)]
  | .branchIf _ => .leaving (some 1) [(i.target?, true)]
  | .branchOn .. => .leaving (some 2) [(i.target?, true)]
  | .switch => .leaving (some 1) (i.targets.map fun target => (some target, true))
  | .leave => .leaving none [(i.target?, false)]
  | .ret => .leaving (some (if cx.returnType = .void then 0 else 1)) [(none, false)]
  | .throw | .rethrow | .endFinally | .endFilter => .leaving none [(none, false)]

end Destack
