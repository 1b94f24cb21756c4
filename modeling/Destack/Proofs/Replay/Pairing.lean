import Destack.Proofs.Replay.Log
import Destack.Proofs.Types.Lookups

/-!
# Two replays side by side

Two instructions at the same place have the same operand, and one of them is replayed under another
view. A relation between steps that sequencing keeps and that holds of the steps in which they can
differ holds of the two replays.
-/

namespace Destack

def Context.seeing (cx : Context) (w : View) : Context := { cx with view := w }

namespace Replay

variable {α β : Type}

namespace Logs

theorem pop (i : Instruction Nat) : Logs (pop i) := take (pop_apply i)

theorem popMany (i : Instruction Nat) (count : Nat) : Logs (popMany i count) :=
  take (popMany_apply i count)

theorem clear : Logs clear := fun _ _ => rfl

theorem typeOf (v : Value) : Logs (typeOf v) := look (f := fun p => p.vars.typeOf v) fun _ _ => rfl

theorem coerced (v : Value) (dest : Ty) : Logs (coerced v dest) :=
  look (f := fun p => coerceExpr p.vars v dest) fun _ _ => rfl

theorem materialize (e : Expr) : Logs (materialize e) := by
  cases e with
  | value v => exact fun _ _ => rfl
  | _ => exact define _

theorem pushExpr (e : Expr) : Logs (pushExpr e) := (materialize e).seq push

theorem coerce (v : Value) (dest : Ty) : Logs (coerce v dest) := (coerced v dest).seq materialize

theorem coercePair (left right : Value) : Logs (coercePair left right) :=
  have held : logging.holds [left, right] .fresh (Replay.coercePair left right) _ .fresh :=
    logging.coercePair (by simp) (by simp)
  held

theorem coerceEach (values : List Value) (types : List Ty) : Logs (coerceEach values types) :=
  have held : logging.holds values .fresh (Replay.coerceEach values types) id .fresh :=
    logging.coerceEach types fun _ => .inl
  held

theorem coerceArgs (m : Method) (args : List Value) : Logs (coerceArgs m args) :=
  have held : logging.holds args .fresh (Replay.coerceArgs m args) id .fresh :=
    logging.coerceArgs m fun _ => .inl
  held

theorem spill (v : Value) : Logs (spill v) :=
  have held : logged.holds [] (Replay.spill v) nothing := logged.spill v
  held

theorem spillDeclared : Logs spillDeclared :=
  have held : logging.holds [] .fresh Replay.spillDeclared nothing .fresh :=
    logging.spillDeclared
  held

theorem accessedType (stated : Option Ty) (accessed : Value) :
    Logs (accessedType stated accessed) := by
  cases stated with
  | some t => exact fun _ _ => rfl
  | none => exact (typeOf accessed).seq fun _ => fun _ _ => rfl

theorem storeThrough (addr value : Value) (stated : Option Ty) :
    Logs (storeThrough addr value stated) :=
  spillDeclared.seq fun _ => (accessedType stated addr).seq fun t =>
    (coerced value t).seq fun _ => emit _

theorem emitArms (value : Value) (number : Nat) (targets : List Nat) :
    Logs (emitArms value number targets) := by
  induction targets generalizing number with
  | nil => exact fun _ _ => rfl
  | cons target targets ih => exact (emit _).seq fun _ => ih (number + 1)

theorem noting (resolved : Bool) (kind : DiagnosticKind) (index : Nat) (message : String) (a : α) :
    Logs (do
      unless resolved do note kind index message
      return a) := by
  cases resolved <;> exact fun _ _ => rfl

end Logs

def calledMethod (i : Instruction Nat) (token : Token) : Option (Found Method) → Replay Method
  | none => throw (.unknownCallShape token i.index)
  | some found => do
    unless found.resolved do
      note .unresolvedMethod i.index
        ("method token " ++ token.text ++ ", using its call-site signature")
    return found.value

/-- A relation between the steps of two instructions. The steps can differ in how they fail and in
what they are told. -/
structure Pairing (cx : Context) (w : View) (i j : Instruction Nat) where
  rel {α : Type} (x y : Replay α) : Prop
  same {α : Type} {x : Replay α} (logs : Logs x) : rel x x
  seq {α β : Type} {x y : Replay α} {f g : α → Replay β} (first : rel x y)
    (rest : ∀ a, rel (f a) (g a)) : rel (x >>= f) (y >>= g)
  index : i.index = j.index
  operand : i.operand = j.operand
  malformed {α : Type} : rel (malformed i : Replay α) (malformed j)
  unsupported : rel (throw (.unsupportedOpcode i.opcode i.index i.offset) : Replay Unit)
    (throw (.unsupportedOpcode j.opcode j.index j.offset))
  unbalanced (depth : Nat) : rel (throw (.unbalancedStack i.opcode i.index depth) : Replay Unit)
    (throw (.unbalancedStack j.opcode j.index depth))
  pop : rel (pop i) (pop j)
  popMany (count : Nat) : rel (popMany i count) (popMany j count)
  asking {α : Type} (q : Query) {f : q.Answer → Replay α} (rest : ∀ a, Logs (f a)) :
    rel (ask q >>= fun _ => f (cx.view.answer q)) (ask q >>= fun _ => f (w.answer q))

namespace Pairing

variable {cx : Context} {w : View} {i j : Instruction Nat} (P : Pairing cx w i j)

theorem thenSame {x y : Replay α} {f : α → Replay β} (first : P.rel x y)
    (rest : ∀ a, Logs (f a)) : P.rel (x >>= f) (y >>= f) :=
  P.seq first fun a => P.same (rest a)

theorem popThen {f : Value → Replay α} (rest : ∀ v, Logs (f v)) :
    P.rel (Replay.pop i >>= f) (Replay.pop j >>= f) :=
  P.thenSame P.pop rest

theorem popsThen {f : Value → Value → Replay α} (rest : ∀ u v, Logs (f u v)) :
    P.rel (Replay.pop i >>= fun u => Replay.pop i >>= f u)
      (Replay.pop j >>= fun u => Replay.pop j >>= f u) :=
  P.seq P.pop fun u => P.popThen (rest u)

theorem tokenOperand : P.rel (tokenOperand i) (tokenOperand j) := by
  unfold Replay.tokenOperand
  rw [P.operand]
  split
  · exact P.same fun _ _ => rfl
  · exact P.malformed

theorem targetOperand : P.rel (targetOperand i) (targetOperand j) := by
  unfold Replay.targetOperand
  rw [P.operand]
  split
  · exact P.same fun _ _ => rfl
  · exact P.malformed

theorem variableOperand (frame : Frame) (implicit : Option UInt16) :
    P.rel (variableOperand i frame implicit) (variableOperand j frame implicit) := by
  unfold Replay.variableOperand
  rw [P.operand]
  split
  · exact P.same fun _ _ => rfl
  · split
    · exact P.same fun _ _ => rfl
    · exact P.malformed

theorem typeOperand : P.rel (typeOperand cx i) (typeOperand (cx.seeing w) j) := by
  unfold Replay.typeOperand
  rw [P.index]
  exact P.seq P.tokenOperand fun token => P.asking (.type token) fun found =>
    .noting found.resolved _ _ _ found.value

theorem fieldOperand : P.rel (fieldOperand cx i) (fieldOperand (cx.seeing w) j) := by
  unfold Replay.fieldOperand
  rw [P.index]
  exact P.seq P.tokenOperand fun token => P.asking (.field token) fun found =>
    .noting found.resolved _ _ _ found.value

theorem stringOperand : P.rel (stringOperand cx i) (stringOperand (cx.seeing w) j) := by
  unfold Replay.stringOperand
  rw [P.index]
  exact P.seq P.tokenOperand fun token => P.asking (.string token) fun found =>
    .noting found.resolved _ _ _ found.value

theorem methodOperand : P.rel (methodOperand cx i) (methodOperand (cx.seeing w) j) := by
  unfold Replay.methodOperand
  rw [P.index]
  refine P.seq P.tokenOperand fun token =>
    P.asking (.method token) (f := calledMethod j token) fun found? => ?_
  cases found? with
  | none => exact fun _ _ => rfl
  | some found => exact .noting found.resolved _ _ _ found.value

theorem statedType? (access : AccessType) :
    P.rel (statedType? cx i access) (statedType? (cx.seeing w) j access) := by
  cases access with
  | operand => exact P.thenSame P.typeOperand fun _ => fun _ _ => rfl
  | fixed t => exact P.same fun _ _ => rfl
  | inferred => exact P.same fun _ _ => rfl

theorem handleTarget : P.rel (handleTarget cx i) (handleTarget (cx.seeing w) j) := by
  refine P.seq P.tokenOperand fun token => ?_
  split
  · exact P.thenSame P.fieldOperand fun _ => fun _ _ => rfl
  · split
    · exact P.thenSame P.methodOperand fun _ => fun _ _ => rfl
    · exact P.thenSame P.typeOperand fun _ => fun _ _ => rfl

theorem storeVariable (v : Value) : P.rel (storeVariable i v) (storeVariable j v) :=
  P.popThen fun value => (Logs.spill v).seq fun _ => (Logs.typeOf v).seq fun t =>
    (Logs.coerced value t).seq fun _ => .emit _

theorem emitCall (m : Method) (isVirtual : Bool) :
    P.rel (emitCall i m isVirtual) (emitCall j m isVirtual) := by
  refine P.thenSame (P.popMany _) fun popped => (Logs.coerceArgs m popped).seq fun args => ?_
  dsimp only
  split
  · exact .emit _
  · exact .pushExpr _

theorem fillArray (m : Method) : P.rel (fillArray i m) (fillArray j m) := by
  unfold Replay.fillArray
  rw [P.index]
  refine P.thenSame (P.popMany _) fun args asked p => ?_
  rw [get_bind, get_bind]
  dsimp only
  cases ArrayData.expand p.stmts p.vars args <;> rfl

theorem returnValue : P.rel (returnValue cx i) (returnValue (cx.seeing w) j) := by
  unfold Replay.returnValue
  rw [show (cx.seeing w).returnType = cx.returnType from rfl]
  split
  · exact P.same fun _ _ => rfl
  · exact P.popThen fun v => (Logs.coerce v _).seq fun _ => fun _ _ => rfl

theorem perform (a : Action) : P.rel (perform cx i a) (perform (cx.seeing w) j a) := by
  cases a with
  | skip => exact P.same fun _ _ => rfl
  | unsupported => exact P.unsupported
  | loadNull => exact P.same (.push _)
  | loadInt32 implicit =>
      cases implicit with
      | some n => exact P.same (.push _)
      | none =>
          simp only [Replay.perform]
          rw [P.operand]
          split
          · exact P.same (.push _)
          · exact P.malformed
  | loadInt64 | loadFloat32 | loadFloat64 =>
      simp only [Replay.perform]
      rw [P.operand]
      split
      · exact P.same (.push _)
      · exact P.malformed
  | loadString => exact P.thenSame P.stringOperand fun _ => .push _
  | load frame implicit => exact P.thenSame (P.variableOperand frame implicit) fun _ => .push _
  | store frame implicit => exact P.seq (P.variableOperand frame implicit) P.storeVariable
  | loadAddress frame =>
      exact P.thenSame (P.variableOperand frame none) fun v => (Logs.spill v).seq fun _ =>
        .pushExpr _
  | duplicate => exact P.popThen fun v => (Logs.push v).seq fun _ => .push v
  | discard => exact P.popThen fun _ => fun _ _ => rfl
  | binary op checked unsigned =>
      exact P.popsThen fun right left => (Logs.typeOf left).seq fun _ =>
        (Logs.typeOf right).seq fun _ => .pushExpr _
  | unary op => exact P.popThen fun v => (Logs.typeOf v).seq fun _ => .pushExpr _
  | convert _ _ _ | arrayLength => exact P.popThen fun _ => .pushExpr _
  | compare op unsigned =>
      exact P.popsThen fun right left => (Logs.coercePair left right).seq fun _ => .pushExpr _
  | jump => exact P.thenSame P.targetOperand fun _ => .emit _
  | branchIf op =>
      exact P.seq P.pop fun v => P.seq (P.same (.typeOf v)) fun _ =>
        P.thenSame P.targetOperand fun _ => .emit _
  | branchOn op unsigned =>
      exact P.seq P.pop fun right => P.seq P.pop fun left =>
        P.seq (P.same (.coercePair left right)) fun _ => P.thenSame P.targetOperand fun _ => .emit _
  | switch =>
      refine P.seq P.pop fun v => ?_
      rw [P.operand]
      split
      · exact P.same (.emitArms v 0 _)
      · exact P.malformed
  | leave => exact P.seq (P.same .clear) fun _ => P.thenSame P.targetOperand fun _ => .emit _
  | ret =>
      refine P.seq P.returnValue fun value => ?_
      change P.rel (inspect (fun p => p.stack.length) >>= fun depth =>
          if depth = 0 then emit (.ret value) else throw (.unbalancedStack i.opcode i.index depth))
        (inspect (fun p => p.stack.length) >>= fun depth =>
          if depth = 0 then emit (.ret value) else throw (.unbalancedStack j.opcode j.index depth))
      refine P.seq (P.same (.look fun _ _ => rfl)) fun depth => ?_
      by_cases empty : depth = 0
      · rw [if_pos empty, if_pos empty]
        exact P.same (.emit _)
      · rw [if_neg empty, if_neg empty]
        exact P.unbalanced depth
  | throw | endFilter => exact P.popThen fun _ => Logs.clear.seq fun _ => .emit _
  | rethrow => exact P.same (Logs.clear.seq fun _ => .emit _)
  | endFinally =>
      simp only [Replay.perform]
      rw [P.index]
      exact P.same (Logs.clear.seq fun _ => .emit _)
  | loadIndirect access =>
      exact P.seq (P.statedType? access) fun stated => P.popThen fun addr =>
        (Logs.accessedType stated addr).seq fun _ => .pushExpr _
  | storeIndirect access =>
      exact P.seq (P.statedType? access) fun stated => P.popsThen fun value addr =>
        .storeThrough addr value stated
  | copyObject =>
      exact P.seq P.typeOperand fun _ => P.popsThen fun _ _ => (Logs.materialize _).seq fun _ =>
        Logs.spillDeclared.seq fun _ => .emit _
  | initObject =>
      exact P.seq P.typeOperand fun _ => P.popThen fun _ => Logs.spillDeclared.seq fun _ => .emit _
  | loadField => exact P.seq P.fieldOperand fun _ => P.popThen fun _ => .pushExpr _
  | loadFieldAddress =>
      exact P.seq P.fieldOperand fun _ => P.popThen fun object => (Logs.typeOf object).seq fun _ =>
        .pushExpr _
  | storeField =>
      exact P.seq P.fieldOperand fun f => P.popsThen fun value _ =>
        (Logs.coerced value f.type).seq fun _ => .emit _
  | loadStatic | loadStaticAddress => exact P.thenSame P.fieldOperand fun _ => .pushExpr _
  | storeStatic =>
      exact P.seq P.fieldOperand fun f => P.popThen fun value =>
        (Logs.coerced value f.type).seq fun _ => .emit _
  | newArray | castClass | isInstance | unbox _ =>
      exact P.seq P.typeOperand fun _ => P.popThen fun _ => .pushExpr _
  | box =>
      exact P.seq P.typeOperand fun t => P.popThen fun v => (Logs.coerce v t).seq fun _ =>
        .pushExpr _
  | loadElement access =>
      exact P.seq (P.statedType? access) fun stated => P.popsThen fun _ array =>
        (Logs.accessedType stated array).seq fun _ => .pushExpr _
  | loadElementAddress => exact P.seq P.typeOperand fun _ => P.popsThen fun _ _ => .pushExpr _
  | storeElement access =>
      exact P.seq (P.statedType? access) fun stated => P.seq P.pop fun value =>
        P.popsThen fun _ array => (Logs.accessedType stated array).seq fun elem =>
          (Logs.coerced value elem).seq fun _ => .emit _
  | call isVirtual =>
      have unfilled (filled : Bool) (m : Method) :
          P.rel (if filled = true then pure () else Replay.emitCall i m isVirtual)
            (if filled = true then pure () else Replay.emitCall j m isVirtual) := by
        split
        · exact P.same fun _ _ => rfl
        · exact P.emitCall m isVirtual
      refine P.seq P.methodOperand fun m => ?_
      dsimp only
      rw [show (cx.seeing w).expandArrays = cx.expandArrays from rfl]
      split
      · exact P.seq (P.fillArray m) fun filled => unfilled filled m
      · exact P.seq (P.same fun _ _ => rfl) fun filled => unfilled filled m
  | newObject =>
      exact P.seq P.methodOperand fun _ => P.thenSame (P.popMany _) fun args =>
        (Logs.coerceEach args _).seq fun _ => .pushExpr _
  | loadFunction => exact P.thenSame P.methodOperand fun _ => .pushExpr _
  | loadVirtualFunction => exact P.seq P.methodOperand fun _ => P.popThen fun _ => .pushExpr _
  | sizeOf => exact P.thenSame P.typeOperand fun _ => .pushExpr _
  | loadHandle => exact P.thenSame P.handleTarget fun _ => .pushExpr _

end Pairing
end Replay
end Destack
