import Destack.Proofs.Replay.Logic

/-!
# Depth of the stack

What an instruction does to the depth of the stack depends on its operand, on what that names and
on the return type of the method, and not on the values that are on the stack. It is a list of stack
operations. The replay of an instruction ends as its operations do: it fails with the same error, or
it leaves a stack of the same depth and the same diagnostics.
-/

namespace Destack

inductive StackOp
  | take (count : Nat)
  | put
  | clear
  | drain
  | note (d : Diagnostic)
  | fail (e : ReplayError)
  deriving DecidableEq, Repr

namespace StackOp

def step (i : Instruction Nat) (depth : Nat) : StackOp → Except ReplayError Nat
  | .take count =>
    if count ≤ depth then .ok (depth - count) else .error (.stackUnderflow i.opcode i.index)
  | .put => .ok (depth + 1)
  | .clear => .ok 0
  | .drain => if depth = 0 then .ok 0 else .error (.unbalancedStack i.opcode i.index depth)
  | .note _ => .ok depth
  | .fail e => .error e

def run (i : Instruction Nat) (ops : List StackOp) (depth : Nat) : Except ReplayError Nat :=
  ops.foldlM (step i) depth

def note? : StackOp → Option Diagnostic
  | .note d => some d
  | _ => none

def notes (ops : List StackOp) : List Diagnostic := ops.filterMap note?

theorem run_append (i : Instruction Nat) (first rest : List StackOp) :
    run i (first ++ rest) = fun depth => run i first depth >>= run i rest :=
  funext fun _ => List.foldlM_append

theorem notes_append (first rest : List StackOp) :
    notes (first ++ rest) = notes first ++ notes rest :=
  List.filterMap_append

end StackOp

/-! ## Operations of instructions -/

section Operations

variable (view : View) (returnType : Ty) (i : Instruction Nat)

def malformedOps : List StackOp := [.fail (.malformedOperand i.opcode i.index)]

def lookUpOps (resolved : Bool) (kind : DiagnosticKind) (message : String) : List StackOp :=
  if resolved then [] else [.note ⟨kind, i.index, message⟩]

def tokenOps (ops : Token → List StackOp) : List StackOp :=
  (i.token?.map ops).getD (malformedOps i)

def typeOps : List StackOp :=
  tokenOps i fun token =>
    lookUpOps i (view.type token).resolved .unresolvedType ("type token " ++ token.text)

def fieldOps : List StackOp :=
  tokenOps i fun token =>
    lookUpOps i (view.field token).resolved .unresolvedField ("field token " ++ token.text)

def stringOps : List StackOp :=
  tokenOps i fun token =>
    lookUpOps i (view.string token).resolved .unresolvedString ("string token " ++ token.text)

def methodOps : List StackOp :=
  tokenOps i fun token =>
    match view.method? token with
    | none => [.fail (.unknownCallShape token i.index)]
    | some found => lookUpOps i found.resolved .unresolvedMethod
        ("method token " ++ token.text ++ ", using its call-site signature")

def handleOps : List StackOp :=
  tokenOps i fun token =>
    if token.isField then fieldOps view i
    else if token.isMethod then methodOps view i
    else typeOps view i

def targetOps : List StackOp := if i.target?.isSome then [] else malformedOps i

def variableOps : Option UInt16 → List StackOp
  | some _ => []
  | none =>
    match i.operand with
    | .var _ => []
    | _ => malformedOps i

def accessOps : AccessType → List StackOp
  | .operand => typeOps view i
  | .fixed _ | .inferred => []

def callOps (m : Method) : List StackOp :=
  .take m.argCount :: if m.sig.returnType = .void then [] else [.put]

def returnOps : List StackOp := if returnType = .void then [] else [.take 1]

def Action.stackOps : Action → List StackOp
  | .skip => []
  | .unsupported => [.fail (.unsupportedOpcode i.opcode i.index i.offset)]
  | .loadNull | .loadInt32 (some _) => [.put]
  | .loadInt32 none =>
    match i.operand with
    | .int32 _ => [.put]
    | _ => malformedOps i
  | .loadInt64 =>
    match i.operand with
    | .int64 _ => [.put]
    | _ => malformedOps i
  | .loadFloat32 =>
    match i.operand with
    | .float32 _ => [.put]
    | _ => malformedOps i
  | .loadFloat64 =>
    match i.operand with
    | .float64 _ => [.put]
    | _ => malformedOps i
  | .loadString => stringOps view i ++ [.put]
  | .load _ implicit => variableOps i implicit ++ [.put]
  | .store _ implicit => variableOps i implicit ++ [.take 1]
  | .loadAddress _ => variableOps i none ++ [.put]
  | .duplicate => [.take 1, .put, .put]
  | .discard => [.take 1]
  | .binary .. | .compare .. => [.take 1, .take 1, .put]
  | .unary _ | .convert .. | .arrayLength => [.take 1, .put]
  | .jump => targetOps i
  | .branchIf _ => .take 1 :: targetOps i
  | .branchOn .. => .take 1 :: .take 1 :: targetOps i
  | .switch => .take 1 ::
    match i.operand with
    | .switch _ => []
    | _ => malformedOps i
  | .leave => .clear :: targetOps i
  | .ret => returnOps returnType ++ [.drain]
  | .throw | .endFilter => [.take 1, .clear]
  | .rethrow | .endFinally => [.clear]
  | .loadIndirect access => accessOps view i access ++ [.take 1, .put]
  | .storeIndirect access => accessOps view i access ++ [.take 1, .take 1]
  | .copyObject => typeOps view i ++ [.take 1, .take 1]
  | .initObject => typeOps view i ++ [.take 1]
  | .loadField | .loadFieldAddress => fieldOps view i ++ [.take 1, .put]
  | .storeField => fieldOps view i ++ [.take 1, .take 1]
  | .loadStatic | .loadStaticAddress => fieldOps view i ++ [.put]
  | .storeStatic => fieldOps view i ++ [.take 1]
  | .newArray | .castClass | .isInstance | .box | .unbox _ => typeOps view i ++ [.take 1, .put]
  | .loadElement access => accessOps view i access ++ [.take 1, .take 1, .put]
  | .loadElementAddress => typeOps view i ++ [.take 1, .take 1, .put]
  | .storeElement access => accessOps view i access ++ [.take 1, .take 1, .take 1]
  | .call _ => methodOps view i ++ ((view.called? i).map callOps).getD []
  | .newObject => methodOps view i ++
      ((view.called? i).map fun m => [.take m.sig.params.length, .put]).getD []
  | .loadFunction => methodOps view i ++ [.put]
  | .loadVirtualFunction => methodOps view i ++ [.take 1, .put]
  | .sizeOf => typeOps view i ++ [.put]
  | .loadHandle => handleOps view i ++ [.put]

end Operations

namespace Replay

variable {α β : Type} (keep : Diagnostic → Bool) {i : Instruction Nat}

/-! ## Steps against operations -/

/-- A step from `p` ended as expected: with the depth that is computed from the depth before it,
and with the given diagnostics; or it failed with the error that is computed. Only some diagnostics
are looked at. -/
inductive Tracked (depths : Nat → Except ReplayError Nat) (notes : List Diagnostic) (p : Progress) :
    EStateM.Result ReplayError Progress α → Prop
  | ok {a : α} {q : Progress} (depth : depths p.stack.length = .ok q.stack.length)
      (diagnostics : q.diagnostics.filter keep = p.diagnostics.filter keep ++ notes.filter keep) :
      Tracked depths notes p (.ok a q)
  | error {e : ReplayError} {q : Progress} (fails : depths p.stack.length = .error e) :
      Tracked depths notes p (.error e q)

def Tracks (i : Instruction Nat) (x : Replay α) (ops : List StackOp) : Prop :=
  ∀ p, Tracked keep (StackOp.run i ops) (StackOp.notes ops) p (x p)

variable {keep} {ops rest : List StackOp}

theorem Tracked.bind {x : Replay α} {f : α → Replay β} {p : Progress}
    {depths depths' : Nat → Except ReplayError Nat} {notes notes' : List Diagnostic}
    (first : Tracked keep depths notes p (x p))
    (after : ∀ a q, x p = .ok a q → Tracked keep depths' notes' q (f a q)) :
    Tracked keep (fun depth => depths depth >>= depths') (notes ++ notes') p ((x >>= f) p) := by
  rw [bind_apply]
  cases ran : x p with
  | ok a q =>
      rw [ran] at first
      cases first with
      | ok depth diagnostics =>
      dsimp only
      have second := after a q ran
      generalize f a q = r at second
      cases second with
      | ok depth' diagnostics' =>
          refine .ok ?_ ?_
          · rw [depth]
            exact depth'
          · rw [diagnostics', diagnostics, List.filter_append, List.append_assoc]
      | error fails =>
          refine .error ?_
          rw [depth]
          exact fails
  | error e q =>
      rw [ran] at first
      cases first with
      | error fails =>
      refine .error ?_
      rw [fails]
      rfl

namespace Tracks

theorem bind {x : Replay α} {f : α → Replay β} (first : Tracks keep i x ops)
    (after : ∀ a, Returns x a → Tracks keep i (f a) rest) :
    Tracks keep i (x >>= f) (ops ++ rest) := by
  intro p
  have both := (first p).bind fun a q ran => after a ⟨p, q, ran⟩ q
  rwa [← StackOp.notes_append, ← StackOp.run_append] at both

theorem seq {x : Replay α} {f : α → Replay β} (first : Tracks keep i x ops)
    (after : ∀ a, Tracks keep i (f a) rest) : Tracks keep i (x >>= f) (ops ++ rest) :=
  first.bind fun a _ => after a

theorem skip {x : Replay α} {f : α → Replay β} (first : Tracks keep i x [])
    (after : ∀ a, Tracks keep i (f a) rest) : Tracks keep i (x >>= f) rest :=
  first.seq after

theorem last {x : Replay α} {f : α → Replay β} (first : Tracks keep i x ops)
    (after : ∀ a, Tracks keep i (f a) []) : Tracks keep i (x >>= f) ops := by
  have both := first.seq after
  rwa [List.append_nil] at both

theorem fail (e : ReplayError) : Tracks keep i (throw e : Replay α) (.fail e :: ops) :=
  fun _ => .error rfl

theorem malformed (i : Instruction Nat) :
    Tracks keep i (malformed i : Replay α) (malformedOps i) :=
  fail _

/-! ## Steps without operations -/

theorem ret (a : α) : Tracks keep i (pure a) [] :=
  fun _ => .ok rfl (List.append_nil _).symm

theorem of_same {x : Replay α}
    (same : ∀ p, ∃ a q, x p = .ok a q ∧ q.stack.length = p.stack.length ∧
      q.diagnostics = p.diagnostics) : Tracks keep i x [] := by
  intro p
  obtain ⟨a, q, ran, depth, diagnostics⟩ := same p
  rw [ran]
  exact .ok (congrArg Except.ok depth.symm) (by rw [diagnostics]; exact (List.append_nil _).symm)

theorem inspect (f : Progress → α) : Tracks keep i (inspect f) [] :=
  of_same fun p => ⟨f p, p, rfl, rfl, rfl⟩

theorem get : Tracks keep i (MonadState.get : Replay Progress) [] :=
  of_same fun p => ⟨p, p, rfl, rfl, rfl⟩

theorem emit (s : Stmt) : Tracks keep i (emit s) [] := of_same fun _ => ⟨_, _, rfl, rfl, rfl⟩

theorem ask (q : Query) : Tracks keep i (ask q) [] := of_same fun _ => ⟨_, _, rfl, rfl, rfl⟩

theorem temp (t : Ty) : Tracks keep i (temp t) [] := by
  refine of_same fun p => ?_
  unfold Replay.temp
  rw [get_bind]
  cases p.temps[p.used]? with
  | some id => exact ⟨_, _, rfl, rfl, rfl⟩
  | none => exact ⟨_, _, rfl, rfl, rfl⟩

theorem define (e : Expr) : Tracks keep i (define e) [] :=
  (inspect fun p => e.type p.vars).last fun t => (temp t).last fun v =>
    (emit (.set v e)).last fun _ => ret v

theorem materialize (e : Expr) : Tracks keep i (materialize e) [] := by
  cases e with
  | value v => exact ret v
  | _ => exact define _

theorem typeOf (v : Value) : Tracks keep i (typeOf v) [] := inspect fun p => p.vars.typeOf v

theorem coerced (v : Value) (dest : Ty) : Tracks keep i (coerced v dest) [] :=
  inspect fun p => coerceExpr p.vars v dest

theorem coerce (v : Value) (dest : Ty) : Tracks keep i (coerce v dest) [] :=
  (coerced v dest).last materialize

theorem widen (v : Value) (t dest : Ty) : Tracks keep i (widen v t dest) [] := by
  unfold Replay.widen
  split
  · exact materialize _
  · exact ret v

theorem coercePair (left right : Value) : Tracks keep i (coercePair left right) [] := by
  refine (typeOf left).last fun leftType => (typeOf right).last fun rightType => ?_
  split
  · exact ret _
  · split
    · exact ret _
    · split
      · exact ret _
      · exact (widen _ _ _).last fun left => (widen _ _ _).last fun right => ret _

theorem coerceEach (values : List Value) (types : List Ty) :
    Tracks keep i (coerceEach values types) [] := by
  induction values generalizing types with
  | nil => exact ret _
  | cons v values ih =>
      cases types with
      | nil => exact ret _
      | cons t types => exact (coerce v t).last fun v => (ih types).last fun rest => ret _

theorem coerceArgs (m : Method) (args : List Value) : Tracks keep i (coerceArgs m args) [] := by
  unfold Replay.coerceArgs
  split
  · cases args with
    | nil => exact ret _
    | cons receiver args => exact (coerceEach args _).last fun _ => ret _
  · exact coerceEach args _

theorem spill (v : Value) : Tracks keep i (spill v) [] := by
  refine get.last fun p => ?_
  split
  · refine (typeOf v).last fun t => (temp t).last fun u => (emit _).last fun _ => ?_
    exact of_same fun p => ⟨_, _, rfl, List.length_map _, rfl⟩
  · exact ret _

theorem spillAll (values : List Value) : Tracks keep i (values.forM Replay.spill) [] := by
  induction values with
  | nil => exact ret _
  | cons v values ih => exact (spill v).last fun _ => ih

theorem spillDeclared : Tracks keep i spillDeclared [] :=
  (inspect fun p => distinct (p.stack.slots.filter (·.isDeclared))).last spillAll

theorem accessedType (stated : Option Ty) (accessed : Value) :
    Tracks keep i (accessedType stated accessed) [] := by
  cases stated with
  | some t => exact ret t
  | none => exact (typeOf accessed).last fun t => ret t.content

theorem emitArms (value : Value) (number : Nat) (targets : List Nat) :
    Tracks keep i (emitArms value number targets) [] := by
  induction targets generalizing number with
  | nil => exact ret _
  | cons target targets ih => exact (emit _).last fun _ => ih (number + 1)

/-! ## Steps with operations -/

theorem pop (i : Instruction Nat) : Tracks keep i (pop i) [.take 1] := by
  intro p
  rw [pop_apply]
  cases stack : p.stack with
  | nil => exact .error (by rw [stack]; rfl)
  | cons v rest => exact .ok (by rw [stack]; rfl) (List.append_nil _).symm

theorem popMany (i : Instruction Nat) (count : Nat) :
    Tracks keep i (popMany i count) [.take count] := by
  intro p
  rw [popMany_apply]
  unfold OperandStack.popMany
  split
  · rename_i enough
    refine .ok ?_ (List.append_nil _).symm
    simp [StackOp.run, StackOp.step, enough]
  · rename_i lacking
    refine .error ?_
    simp [StackOp.run, StackOp.step, lacking]

theorem push (v : Value) : Tracks keep i (push v) [.put] :=
  fun _ => .ok rfl (List.append_nil _).symm

theorem pushExpr (e : Expr) : Tracks keep i (pushExpr e) [.put] := (materialize e).seq push

theorem clear : Tracks keep i clear [.clear] := fun _ => .ok rfl (List.append_nil _).symm

theorem note (kind : DiagnosticKind) (message : String) :
    Tracks keep i (note kind i.index message) [.note ⟨kind, i.index, message⟩] :=
  fun _ => .ok rfl (List.filter_append ..)

theorem popThen {f : Value → Replay β} (after : ∀ v, Tracks keep i (f v) rest) :
    Tracks keep i (Replay.pop i >>= f) (.take 1 :: rest) :=
  (pop i).seq after

theorem popManyThen {count : Nat} {f : List Value → Replay β}
    (after : ∀ values, Tracks keep i (f values) rest) :
    Tracks keep i (Replay.popMany i count >>= f) (.take count :: rest) :=
  (popMany i count).seq after

theorem clearThen {f : Unit → Replay β} (after : ∀ u, Tracks keep i (f u) rest) :
    Tracks keep i (Replay.clear >>= f) (.clear :: rest) :=
  clear.seq after

theorem popPush (e : Value → Expr) :
    Tracks keep i (do Replay.pushExpr (e (← Replay.pop i))) [.take 1, .put] :=
  popThen fun v => pushExpr (e v)

/-! ## Operands -/

theorem tokenOperand {f : Token → Replay β} {looks : Token → List StackOp}
    (after : ∀ token, Tracks keep i (f token) (looks token)) :
    Tracks keep i (Replay.tokenOperand i >>= f) (tokenOps i looks) := by
  unfold Replay.tokenOperand tokenOps Instruction.token?
  cases i.operand with
  | token token => exact after token
  | _ => exact fun _ => .error rfl

theorem lookUp {α : Type} (q : Query) (found : Found α) (kind : DiagnosticKind) (message : String) :
    Tracks keep i (do
      Replay.ask q
      unless found.resolved do Replay.note kind i.index message
      return found.value) (lookUpOps i found.resolved kind message) := by
  refine (ask q).skip fun _ => ?_
  unfold lookUpOps
  dsimp only
  split
  · exact ret _
  · exact (note _ _).last fun _ => ret _

theorem typeOperand (cx : Context) : Tracks keep i (typeOperand cx i) (typeOps cx.view i) :=
  tokenOperand fun _ => lookUp _ _ _ _

theorem fieldOperand (cx : Context) : Tracks keep i (fieldOperand cx i) (fieldOps cx.view i) :=
  tokenOperand fun _ => lookUp _ _ _ _

theorem stringOperand (cx : Context) : Tracks keep i (stringOperand cx i) (stringOps cx.view i) :=
  tokenOperand fun _ => lookUp _ _ _ _

theorem methodOperand (cx : Context) :
    Tracks keep i (methodOperand cx i) (methodOps cx.view i) := by
  refine tokenOperand fun token => ?_
  cases cx.view.method? token with
  | none => exact (ask _).skip fun _ => fail _
  | some found => exact lookUp _ found _ _

theorem handleTarget (cx : Context) :
    Tracks keep i (handleTarget cx i) (handleOps cx.view i) := by
  refine tokenOperand fun token => ?_
  split
  · exact (fieldOperand cx).last fun _ => ret _
  · split
    · exact (methodOperand cx).last fun _ => ret _
    · exact (typeOperand cx).last fun _ => ret _

theorem targetOperand : Tracks keep i (targetOperand i) (targetOps i) := by
  unfold Replay.targetOperand targetOps Instruction.target?
  cases i.operand with
  | target target => exact ret _
  | _ => exact malformed i

theorem variableOperand (frame : Frame) (implicit : Option UInt16) :
    Tracks keep i (variableOperand i frame implicit) (variableOps i implicit) := by
  unfold Replay.variableOperand variableOps
  cases implicit with
  | some index => exact ret _
  | none =>
      cases i.operand with
      | var index => exact ret _
      | _ => exact malformed i

theorem statedType? (cx : Context) (access : AccessType) :
    Tracks keep i (statedType? cx i access) (accessOps cx.view i access) := by
  cases access with
  | fixed t => exact ret _
  | operand => exact (typeOperand cx).last fun _ => ret _
  | inferred => exact ret _

/-! ## Instructions -/

theorem storeThrough (addr value : Value) (stated : Option Ty) :
    Tracks keep i (storeThrough addr value stated) [] :=
  spillDeclared.last fun _ => (accessedType stated addr).last fun _ => (coerced _ _).last fun _ =>
    emit _

theorem emitCall (m : Method) (isVirtual : Bool) :
    Tracks keep i (emitCall i m isVirtual) (callOps m) := by
  refine popManyThen fun popped => (coerceArgs m popped).skip fun args => ?_
  dsimp only
  split
  · exact emit _
  · exact pushExpr _

theorem returnValue (cx : Context) :
    Tracks keep i (returnValue cx i) (returnOps cx.returnType) := by
  unfold Replay.returnValue returnOps
  split
  · exact ret _
  · exact popThen fun v => (coerce v _).last fun _ => ret _

theorem perform (cx : Context) (a : Action)
    (plain : ∀ isVirtual m, a = .call isVirtual → cx.view.called? i = some m →
      (cx.expandArrays && m.fillsArray) = false) :
    Tracks keep i (perform cx i a) (a.stackOps cx.view cx.returnType i) := by
  -- No `Logic` says this: a shape tells neither which step fails first nor what is noted before.
  cases a with
  | skip => exact ret _
  | unsupported => exact fail _
  | loadNull => exact push _
  | loadInt32 implicit =>
      cases implicit with
      | some n => exact push _
      | none =>
          simp only [Replay.perform, Action.stackOps]
          cases i.operand <;> first | exact push _ | exact malformed i
  | loadInt64 | loadFloat32 | loadFloat64 =>
      simp only [Replay.perform, Action.stackOps]
      cases i.operand <;> first | exact push _ | exact malformed i
  | loadString => exact (stringOperand cx).seq fun _ => push _
  | load frame implicit => exact (variableOperand frame implicit).seq fun _ => push _
  | store frame implicit =>
      refine (variableOperand frame implicit).seq fun v => popThen fun value => ?_
      exact (spill v).last fun _ => (typeOf v).last fun _ => (coerced _ _).last fun _ => emit _
  | loadAddress frame =>
      exact (variableOperand frame none).seq fun v => (spill v).skip fun _ => pushExpr _
  | duplicate => exact popThen fun v => (push v).seq fun _ => push v
  | discard => exact popThen fun _ => ret _
  | binary op checked unsigned =>
      exact popThen fun right => popThen fun left => (typeOf left).skip fun _ =>
        (typeOf right).skip fun _ => pushExpr _
  | unary op => exact popThen fun operand => (typeOf operand).skip fun _ => pushExpr _
  | convert dest checked unsigned => exact popPush _
  | compare op unsigned =>
      exact popThen fun right => popThen fun left => (coercePair left right).skip fun _ =>
        pushExpr _
  | jump => exact targetOperand.last fun _ => emit _
  | branchIf op =>
      exact popThen fun v => (typeOf v).skip fun _ => targetOperand.last fun _ => emit _
  | branchOn op unsigned =>
      exact popThen fun right => popThen fun left => (coercePair left right).skip fun _ =>
        targetOperand.last fun _ => emit _
  | switch =>
      refine popThen fun v => ?_
      cases i.operand with
      | switch targets => exact emitArms v 0 targets
      | _ => exact malformed i
  | leave => exact clearThen fun _ => targetOperand.last fun _ => emit _
  | ret =>
      refine (returnValue cx).seq fun value => ?_
      intro p
      rw [get_bind]
      by_cases empty : p.stack.length = 0
      · rw [if_pos empty]
        exact .ok (by simp [StackOp.run, StackOp.step, empty]) (List.append_nil _).symm
      · rw [if_neg empty]
        exact .error (by simp [StackOp.run, StackOp.step, empty])
  | throw | endFilter => exact popThen fun _ => clearThen fun _ => emit _
  | rethrow | endFinally => exact clearThen fun _ => emit _
  | loadIndirect access =>
      exact (statedType? cx access).seq fun stated => popThen fun addr =>
        (accessedType stated addr).skip fun _ => pushExpr _
  | storeIndirect access =>
      exact (statedType? cx access).seq fun stated => popThen fun value => popThen fun addr =>
        storeThrough addr value stated
  | copyObject =>
      exact (typeOperand cx).seq fun t => popThen fun source => popThen fun destination =>
        (materialize _).skip fun copy => spillDeclared.skip fun _ => emit _
  | initObject =>
      exact (typeOperand cx).seq fun t => popThen fun addr => spillDeclared.skip fun _ => emit _
  | loadField => exact (fieldOperand cx).seq fun f => popPush _
  | loadFieldAddress =>
      exact (fieldOperand cx).seq fun f => popThen fun object => (typeOf object).skip fun _ =>
        pushExpr _
  | storeField =>
      exact (fieldOperand cx).seq fun f => popThen fun value => popThen fun object =>
        (coerced value _).skip fun _ => emit _
  | loadStatic | loadStaticAddress => exact (fieldOperand cx).seq fun f => pushExpr _
  | storeStatic =>
      exact (fieldOperand cx).seq fun f => popThen fun value => (coerced value _).skip fun _ =>
        emit _
  | newArray | castClass | isInstance | unbox => exact (typeOperand cx).seq fun t => popPush _
  | arrayLength => exact popPush _
  | loadElement access =>
      exact (statedType? cx access).seq fun stated => popThen fun index => popThen fun array =>
        (accessedType stated array).skip fun _ => pushExpr _
  | loadElementAddress =>
      exact (typeOperand cx).seq fun elem => popThen fun index => popThen fun array => pushExpr _
  | storeElement access =>
      exact (statedType? cx access).seq fun stated => popThen fun value => popThen fun index =>
        popThen fun array => (accessedType stated array).skip fun elem =>
          (coerced value elem).skip fun _ => emit _
  | call isVirtual =>
      rw [perform_call]
      refine (methodOperand cx).bind fun m returns => ?_
      have named : cx.view.called? i = some m := Logic.method_of_returns returns
      rw [plain isVirtual m rfl named, named]
      exact emitCall m isVirtual
  | newObject =>
      refine (methodOperand cx).bind fun ctor returns => ?_
      have named : cx.view.called? i = some ctor := Logic.method_of_returns returns
      rw [named]
      exact popManyThen fun args => (coerceEach args _).skip fun _ => pushExpr _
  | loadFunction => exact (methodOperand cx).seq fun _ => pushExpr _
  | loadVirtualFunction => exact (methodOperand cx).seq fun m => popPush _
  | box =>
      exact (typeOperand cx).seq fun t => popThen fun v => (coerce v t).skip fun _ => pushExpr _
  | sizeOf => exact (typeOperand cx).seq fun t => pushExpr _
  | loadHandle => exact (handleTarget cx).seq fun _ => pushExpr _

end Tracks
end Replay
end Destack
