import Destack.Proofs.Replay.Logic

namespace Destack
namespace Replay

/-- A property of steps that does not depend on shapes: `holds given x gives` is about a step `x`
that was handed the values `given` and hands on those that `gives` names in its result. -/
structure Uniform where
  holds {α : Type} (given : List Value) (x : Replay α) (gives : α → List Value) : Prop
  ret {α : Type} {given : List Value} {gives : α → List Value} {a : α}
    (usable : ∀ v ∈ gives a, Usable given v) : holds given (pure a) gives
  bind {α β : Type} {given : List Value} {x : Replay α} {f : α → Replay β}
    {middle : α → List Value} {gives : β → List Value} (first : holds given x middle)
    (rest : ∀ a, Returns x a → holds (middle a ++ given) (f a) gives) :
    holds given (x >>= f) gives
  fail {α : Type} {given : List Value} {gives : α → List Value} (e : ReplayError) :
    holds given (throw e : Replay α) gives
  look {α : Type} {given : List Value} {gives : α → List Value} {f : Progress → α}
    (depends : ∀ p q : Progress, q.stack = p.stack → q.stmts = p.stmts →
      (∀ v, Usable given v → q.vars.typeOf v = p.vars.typeOf v) → f q = f p)
    (usable : ∀ p, ∀ v ∈ gives (f p), Usable given v) : holds given (inspect f) gives
  note {given : List Value} (kind : DiagnosticKind) (instruction : Nat) (message : String) :
    holds given (note kind instruction message) nothing
  ask {given : List Value} (q : Query) : holds given (ask q) nothing
  pop {given : List Value} (i : Instruction Nat) : holds given (pop i) fun v => [v]
  popMany {given : List Value} (i : Instruction Nat) (count : Nat) :
    holds given (popMany i count) id
  peekMany {given : List Value} (i : Instruction Nat) (count : Nat) :
    holds given (peekMany i count) id
  push {given : List Value} {v : Value} (usable : Usable given v) : holds given (push v) nothing
  clear {given : List Value} : holds given clear nothing
  temp {given : List Value} (t : Ty) : holds given (temp t) fun v => [v]
  contains {given : List Value} (v : Value) :
    holds given (inspect fun p => p.stack.contains v) fun held => if held then [v] else []
  replace {given : List Value} {old new : Value} (usable : Usable given new) :
    holds given (modify fun p => { p with stack := p.stack.replace old new }) nothing
  emitAll {given : List Value} (stmts : List Stmt) :
    holds given (modify fun p => { p with stmts := p.stmts ++ stmts }) nothing

namespace Uniform

variable {α β : Type} (U : Uniform) {given : List Value}

theorem seq {x : Replay α} {f : α → Replay β} {middle : α → List Value} {gives : β → List Value}
    (first : U.holds given x middle) (rest : ∀ a, U.holds (middle a ++ given) (f a) gives) :
    U.holds given (x >>= f) gives :=
  U.bind first fun a _ => rest a

theorem define {e : Expr} (usable : ∀ v ∈ e.reads, Usable given v) :
    U.holds given (define e) fun v => [v] := by
  change U.holds given (inspect (fun p => e.type p.vars) >>= fun t => Replay.temp t >>=
    fun t => Replay.emit (.set t e) >>= fun _ => Pure.pure t) _
  have type : U.holds given (inspect fun p => e.type p.vars) nothing :=
    U.look (fun p q _ _ same => Expr.type_congr fun v read => same v (usable v read))
      (by simp [nothing])
  refine U.seq type fun t => U.seq (U.temp t) fun v => U.seq (U.emitAll _) fun _ => U.ret ?_
  simp

theorem spill (v : Value) : U.holds given (spill v) nothing := by
  -- The value is saved if it is on the stack, so its type is known then.
  change U.holds given (inspect (fun p => p.stack.contains v) >>= fun held =>
    if held then Replay.typeOf v >>= fun t => Replay.temp t >>= fun t =>
      Replay.emit (.set t (.value v)) >>= fun _ =>
        modify fun p => { p with stack := p.stack.replace v t }
    else Pure.pure ()) nothing
  have typeOf : U.holds (v :: given) (Replay.typeOf v) nothing :=
    U.look (f := fun p => p.vars.typeOf v) (fun _ _ _ _ same => same v (by simp))
      (by simp [nothing])
  refine U.seq (U.contains v) fun held => ?_
  cases held with
  | true =>
      refine U.seq typeOf fun t => U.seq (U.temp t) fun t => U.seq (U.emitAll _) fun _ => ?_
      exact U.replace (by simp)
  | false => exact U.ret (by simp [nothing])

def logic : Logic where
  holds given _ x gives _ := U.holds given x gives
  admits _ := True
  quiet _ := trivial
  ret := U.ret
  bind := U.bind
  fail := U.fail
  look := U.look
  note := U.note
  ask := U.ask
  pop := U.pop
  popMany := U.popMany
  peekMany := U.peekMany
  push fixed := U.push (.inr fixed)
  pushDefined usable _ := U.seq (U.define usable) fun _ => U.push (by simp)
  double i := U.seq (U.pop i) fun _ => U.seq (U.push (by simp)) fun _ => U.push (by simp)
  clear := U.clear
  define usable _ := U.define usable
  spill _ := U.spill _
  overwrite _ depends usable _ := U.seq (U.spill _) fun _ =>
    U.seq (U.look (fun p q _ _ => depends p q) usable) fun _ => U.emitAll _
  emitAll _ _ _ := U.emitAll _
  leave _ _ := U.emitAll _
  forget holding := holding
  depart holding := holding

theorem performAll (cx : Context) (l : Listing) : U.holds [] (performAll cx l) nothing := by
  induction l with
  | nil => exact U.ret (by simp [nothing])
  | cons i rest ih => exact U.seq (U.logic.perform cx i _ fun _ _ => trivial) fun _ => ih

theorem replay (cx : Context) (exception : Option Ty) (l : Listing) :
    U.holds [] (do receive exception; Replay.performAll cx l) nothing :=
  U.seq (U.logic.receive exception) fun _ => U.performAll cx l

end Uniform
end Replay
end Destack
