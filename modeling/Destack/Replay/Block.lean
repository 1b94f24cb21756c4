import Destack.Code.Body
import Destack.Flow.Graph
import Destack.Replay.Action
import Destack.Replay.ArrayData
import Destack.Replay.Coercion
import Destack.Replay.Stack
import Destack.Types.Registry

/-!
# Replay of a block

The instructions of a block are replayed on a symbolic operand stack, and leave statements behind.
A value on the stack keeps the meaning that it had when it was pushed: before a variable changes,
its copies on the stack are moved to a temporary. The temporaries of a block are reused, in order,
when the block is replayed again, so the same entry stack gives the same statements.

A failed replay keeps the temporaries that it made and the queries that it asked.
-/

namespace Destack

structure Context where
  view : View
  returnType : Ty
  scopes : List (Scope Ty)
  expandArrays : Bool

structure Progress where
  vars : Variables
  temps : List Nat
  used : Nat
  stack : OperandStack
  stmts : List Stmt
  diagnostics : List Diagnostic
  queries : List Query

abbrev Replay := EStateM ReplayError Progress

namespace Replay

def push (v : Value) : Replay Unit := modify fun p => { p with stack := v :: p.stack }

def clear : Replay Unit := modify fun p => { p with stack := [] }

def emit (s : Stmt) : Replay Unit := modify fun p => { p with stmts := p.stmts ++ [s] }

def note (kind : DiagnosticKind) (instruction : Nat) (message : String) : Replay Unit :=
  modify fun p => { p with diagnostics := p.diagnostics ++ [⟨kind, instruction, message⟩] }

def ask (q : Query) : Replay Unit := modify fun p => { p with queries := p.queries ++ [q] }

def typeOf (v : Value) : Replay Ty := return (← get).vars.typeOf v

def pop (i : Instruction Nat) : Replay Value := do
  let p ← get
  match p.stack.pop i.opcode i.index with
  | .ok (v, stack) => set { p with stack }; return v
  | .error e => throw e

def popMany (i : Instruction Nat) (count : Nat) : Replay (List Value) := do
  let p ← get
  match p.stack.popMany count i.opcode i.index with
  | .ok (values, stack) => set { p with stack }; return values
  | .error e => throw e

def temp (t : Ty) : Replay Value := do
  let p ← get
  match p.temps[p.used]? with
  | some id =>
    set { p with vars := p.vars.setTemp id t, used := p.used + 1 }
    return .temp id
  | none =>
    let (id, vars) := p.vars.newTemp t
    set { p with vars, temps := p.temps ++ [id], used := p.used + 1 }
    return .temp id

def materialize : Expr → Replay Value
  | .value v => return v
  | e => do
    let t ← temp (e.type (← get).vars)
    emit (.set t e)
    return t

def pushExpr (e : Expr) : Replay Unit := do push (← materialize e)

def spill (v : Value) : Replay Unit := do
  if (← get).stack.contains v then
    let t ← temp (← typeOf v)
    emit (.set t (.value v))
    modify fun p => { p with stack := p.stack.replace v t }

/-- Moves every declared variable on the stack to a temporary: a store through an address may
change any of them. -/
def spillDeclared : Replay Unit := do
  (distinct ((← get).stack.slots.filter (·.isDeclared))).forM spill

def coerced (v : Value) (dest : Ty) : Replay Expr := return coerceExpr (← get).vars v dest

def coerce (v : Value) (dest : Ty) : Replay Value := do materialize (← coerced v dest)

def widen (v : Value) (t dest : Ty) : Replay Value :=
  if needsWidening t dest then materialize (.cast v dest false false) else return v

/-- Brings the operands of a comparison to one type. A null literal takes the type of the other
operand; numbers are only ever widened. -/
def coercePair (left right : Value) : Replay (Value × Value) := do
  let leftType ← typeOf left
  let rightType ← typeOf right
  if left.isNull then return (.const (.null rightType), right)
  else if right.isNull then return (left, .const (.null leftType))
  else
    match comparisonType? leftType rightType with
    | none => return (left, right)
    | some dest => do
      let left ← widen left leftType dest
      let right ← widen right rightType dest
      return (left, right)

def coerceEach : List Value → List Ty → Replay (List Value)
  | v :: values, t :: types => do
    let v ← coerce v t
    return v :: (← coerceEach values types)
  | values, _ => return values

def coerceArgs (m : Method) (args : List Value) : Replay (List Value) :=
  if m.sig.hasThis then
    match args with
    | receiver :: args => return receiver :: (← coerceEach args m.sig.params)
    | [] => return []
  else coerceEach args m.sig.params

def malformed {α : Type} (i : Instruction Nat) : Replay α :=
  throw (.malformedOperand i.opcode i.index)

def tokenOperand (i : Instruction Nat) : Replay Token :=
  match i.operand with
  | .token token => return token
  | _ => malformed i

def targetOperand (i : Instruction Nat) : Replay Nat :=
  match i.operand with
  | .target target => return target
  | _ => malformed i

def variableOperand (i : Instruction Nat) (frame : Frame) : Option UInt16 → Replay Value
  | some index => return frame.value index
  | none =>
    match i.operand with
    | .var index => return frame.value index
    | _ => malformed i

def typeOperand (cx : Context) (i : Instruction Nat) : Replay Ty := do
  let token ← tokenOperand i
  ask (.type token)
  let found := cx.view.type token
  unless found.resolved do
    note .unresolvedType i.index ("type token " ++ token.text)
  return found.value

def fieldOperand (cx : Context) (i : Instruction Nat) : Replay Field := do
  let token ← tokenOperand i
  ask (.field token)
  let found := cx.view.field token
  unless found.resolved do
    note .unresolvedField i.index ("field token " ++ token.text)
  return found.value

def methodOperand (cx : Context) (i : Instruction Nat) : Replay Method := do
  let token ← tokenOperand i
  ask (.method token)
  match cx.view.method? token with
  | none => throw (.unknownCallShape token i.index)
  | some found =>
    unless found.resolved do
      note .unresolvedMethod i.index
        ("method token " ++ token.text ++ ", using its call-site signature")
    return found.value

def stringOperand (cx : Context) (i : Instruction Nat) : Replay String := do
  let token ← tokenOperand i
  ask (.string token)
  let found := cx.view.string token
  unless found.resolved do
    note .unresolvedString i.index ("string token " ++ token.text)
  return found.value

def statedType? (cx : Context) (i : Instruction Nat) : AccessType → Replay (Option Ty)
  | .fixed t => return some t
  | .operand => return some (← typeOperand cx i)
  | .inferred => return none

def accessedType (stated : Option Ty) (accessed : Value) : Replay Ty :=
  match stated with
  | some t => return t
  | none => return (← typeOf accessed).content

/-- The innermost finally or fault handler around a position; of two equally long ones the first. -/
def innermostHandler? (scopes : List (Scope Ty)) (index : Nat) : Option (Scope Ty) :=
  let around := scopes.filter fun s => s.handlerSpan.contains index && (s.isFinally || s.isFault)
  around.foldl (fun best s =>
    match best with
    | none => some s
    | some b => if s.handlerSpan.length < b.handlerSpan.length then some s else some b) none

def storeVariable (i : Instruction Nat) (v : Value) : Replay Unit := do
  let value ← pop i
  spill v
  let e ← coerced value (← typeOf v)
  emit (.assign (.var v) e)

def storeThrough (addr value : Value) (stated : Option Ty) : Replay Unit := do
  spillDeclared
  let t ← accessedType stated addr
  let e ← coerced value t
  emit (.assign (.deref addr t) e)

def emitArms (value : Value) : Nat → List Nat → Replay Unit
  | _, [] => return
  | number, target :: targets => do
    emit (.branch ⟨.eq, value, .const (.int32 (.ofNat number)), false⟩ target)
    emitArms value (number + 1) targets

def emitCall (i : Instruction Nat) (m : Method) (isVirtual : Bool) : Replay Unit := do
  let args ← coerceArgs m (← popMany i m.argCount)
  let call : Call := ⟨m, args, isVirtual⟩
  if m.sig.returnType = .void then emit (.call call) else pushExpr (.call call)

/-- Replaces a call that fills an array by stores. A call that is not replaced finds its arguments
back on the stack. -/
def fillArray (i : Instruction Nat) (m : Method) : Replay Bool := do
  let args ← popMany i m.argCount
  let p ← get
  match ArrayData.expand p.stmts p.vars args with
  | .ok stores =>
    modify fun p => { p with stmts := p.stmts ++ stores }
    return true
  | .error reason =>
    note .patternSkipped i.index reason.message
    modify fun p => { p with stack := args.reverse ++ p.stack }
    return false

def returnValue (cx : Context) (i : Instruction Nat) : Replay (Option Value) := do
  if cx.returnType = .void then return none
  else return some (← coerce (← pop i) cx.returnType)

def handleTarget (cx : Context) (i : Instruction Nat) : Replay HandleTarget := do
  let token ← tokenOperand i
  if token.isField then return .field (← fieldOperand cx i)
  else if token.isMethod then return .method (← methodOperand cx i)
  else return .type (← typeOperand cx i)

def perform (cx : Context) (i : Instruction Nat) : Action → Replay Unit
  | .skip => return
  | .unsupported => throw (.unsupportedOpcode i.opcode i.index i.offset)
  | .loadNull => push (.const (.null .null))
  | .loadInt32 (some n) => push (.const (.int32 n))
  | .loadInt32 none =>
    match i.operand with
    | .int32 n => push (.const (.int32 n))
    | _ => malformed i
  | .loadInt64 =>
    match i.operand with
    | .int64 n => push (.const (.int64 n))
    | _ => malformed i
  | .loadFloat32 =>
    match i.operand with
    | .float32 bits => push (.const (.float32 bits))
    | _ => malformed i
  | .loadFloat64 =>
    match i.operand with
    | .float64 bits => push (.const (.float64 bits))
    | _ => malformed i
  | .loadString => do push (.const (.str (← stringOperand cx i)))
  | .load frame implicit => do push (← variableOperand i frame implicit)
  | .store frame implicit => do storeVariable i (← variableOperand i frame implicit)
  | .loadAddress frame => do
    let v ← variableOperand i frame none
    spill v
    pushExpr (.addrOf v)
  | .duplicate => do
    let v ← pop i
    push v
    push v
  | .discard => do let _ ← pop i
  | .binary op checked unsigned => do
    let right ← pop i
    let left ← pop i
    let t := op.resultType (← typeOf left) (← typeOf right)
    pushExpr (.binary op left right checked unsigned t)
  | .unary op => do
    let operand ← pop i
    let t ← typeOf operand
    pushExpr (.unary op operand (if op = .ckfinite then t else t.stackType))
  | .convert dest checked unsigned => do pushExpr (.cast (← pop i) dest checked unsigned)
  | .compare op unsigned => do
    let right ← pop i
    let left ← pop i
    let (left, right) ← coercePair left right
    pushExpr (.binary op left right false unsigned .bool)
  | .jump => do emit (.goto (← targetOperand i))
  | .branchIf op => do
    let v ← pop i
    let zero := (← typeOf v).zero
    emit (.branch ⟨op, v, .const zero, false⟩ (← targetOperand i))
  | .branchOn op unsigned => do
    let right ← pop i
    let left ← pop i
    let (left, right) ← coercePair left right
    emit (.branch ⟨op, left, right, unsigned⟩ (← targetOperand i))
  | .switch => do
    let v ← pop i
    match i.operand with
    | .switch targets => emitArms v 0 targets
    | _ => malformed i
  | .leave => do
    clear
    emit (.leave (← targetOperand i))
  | .ret => do
    let value ← returnValue cx i
    let depth := (← get).stack.length
    if depth = 0 then emit (.ret value) else throw (.unbalancedStack i.opcode i.index depth)
  | .throw => do
    let v ← pop i
    clear
    emit (.throw v)
  | .rethrow => do
    clear
    emit .rethrow
  | .endFinally => do
    clear
    let inFault := (innermostHandler? cx.scopes i.index).any (·.isFault)
    emit (if inFault then .endFault else .endFinally)
  | .endFilter => do
    let v ← pop i
    clear
    emit (.endFilter v)
  | .loadIndirect access => do
    let stated ← statedType? cx i access
    let addr ← pop i
    pushExpr (.deref addr (← accessedType stated addr))
  | .storeIndirect access => do
    let stated ← statedType? cx i access
    let value ← pop i
    let addr ← pop i
    storeThrough addr value stated
  | .copyObject => do
    let t ← typeOperand cx i
    let source ← pop i
    let destination ← pop i
    let copy ← materialize (.deref source t)
    spillDeclared
    emit (.assign (.deref destination t) (.value copy))
  | .initObject => do
    let t ← typeOperand cx i
    let addr ← pop i
    spillDeclared
    emit (.assign (.deref addr t) (.default t))
  | .loadField => do
    let f ← fieldOperand cx i
    pushExpr (.field (← pop i) f)
  | .loadFieldAddress => do
    let f ← fieldOperand cx i
    let object ← pop i
    let managed := !(← typeOf object).isUnmanagedAddress
    pushExpr (.fieldAddr (some object) f managed)
  | .storeField => do
    let f ← fieldOperand cx i
    let value ← pop i
    let object ← pop i
    let e ← coerced value f.type
    emit (.assign (.field object f) e)
  | .loadStatic => do pushExpr (.staticField (← fieldOperand cx i))
  | .loadStaticAddress => do pushExpr (.fieldAddr none (← fieldOperand cx i) true)
  | .storeStatic => do
    let f ← fieldOperand cx i
    let value ← pop i
    let e ← coerced value f.type
    emit (.assign (.staticField f) e)
  | .newArray => do
    let elem ← typeOperand cx i
    pushExpr (.newArray elem (← pop i))
  | .arrayLength => do pushExpr (.arrayLength (← pop i))
  | .loadElement access => do
    let stated ← statedType? cx i access
    let index ← pop i
    let array ← pop i
    pushExpr (.element array index (← accessedType stated array))
  | .loadElementAddress => do
    let elem ← typeOperand cx i
    let index ← pop i
    let array ← pop i
    pushExpr (.elementAddr array index elem)
  | .storeElement access => do
    let stated ← statedType? cx i access
    let value ← pop i
    let index ← pop i
    let array ← pop i
    let elem ← accessedType stated array
    let e ← coerced value elem
    emit (.assign (.element array index elem) e)
  | .call isVirtual => do
    let m ← methodOperand cx i
    let filled ← if cx.expandArrays && m.fillsArray then fillArray i m else pure false
    unless filled do emitCall i m isVirtual
  | .newObject => do
    let ctor ← methodOperand cx i
    let args ← popMany i ctor.sig.params.length
    pushExpr (.newObject ctor (← coerceEach args ctor.sig.params))
  | .loadFunction => do pushExpr (.functionPointer (← methodOperand cx i) none)
  | .loadVirtualFunction => do
    let m ← methodOperand cx i
    pushExpr (.functionPointer m (some (← pop i)))
  | .castClass => do
    let t ← typeOperand cx i
    pushExpr (.cast (← pop i) t true false)
  | .isInstance => do
    let t ← typeOperand cx i
    pushExpr (.isInstance (← pop i) t)
  | .box => do
    let t ← typeOperand cx i
    pushExpr (.box (← coerce (← pop i) t) t)
  | .unbox any => do
    let t ← typeOperand cx i
    pushExpr (.unbox (← pop i) t any)
  | .sizeOf => do pushExpr (.sizeOf (← typeOperand cx i))
  | .loadHandle => do pushExpr (.handle (← handleTarget cx i))

def performAll (cx : Context) : Listing → Replay Unit
  | [] => return
  | i :: rest => do
    perform cx i i.opcode.action
    performAll cx rest

def receive : Option Ty → Replay Unit
  | none => return
  | some t => pushExpr (.caught t)

end Replay

structure BlockOutput where
  stmts : List Stmt
  exitStack : List Value
  exitTypes : List Ty
  diagnostics : List Diagnostic
  deriving DecidableEq, Repr

structure Shared where
  vars : Variables
  temps : List Nat
  queries : List Query
  deriving DecidableEq, Repr

def replayBlock (cx : Context) (l : Listing) (b : Block) (entry : List Value) (s : Shared) :
    Except ReplayError BlockOutput × Shared :=
  let start : Progress :=
    { vars := s.vars
      temps := s.temps
      used := 0
      stack := .ofSlots entry
      stmts := []
      diagnostics := []
      queries := s.queries }
  let run : Replay Unit := do
    Replay.receive b.exception
    Replay.performAll cx (b.instructions l)
  match run.run start with
  | .ok _ p =>
    let slots := p.stack.slots
    (.ok ⟨p.stmts, slots, slots.map p.vars.typeOf, p.diagnostics⟩, ⟨p.vars, p.temps, p.queries⟩)
  | .error e p => (.error e, ⟨p.vars, p.temps, p.queries⟩)

end Destack
