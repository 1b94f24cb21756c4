import Destack.Proofs.Code.Variables
import Destack.Proofs.Except
import Destack.Proofs.Flow.Edges
import Destack.Proofs.Replay.Shape

/-!
# Properties of every replay

An instruction is replayed by a handful of primitive steps. A `Logic` is a property of steps that
holds of each primitive and is kept by sequencing; it then holds of every instruction, and of the
replay of every block. Steps hand values to one another: a step may only use values that it was
handed, besides declared variables and constants, which are always at hand. They also pass on the
shape that the instruction has so far, so that every instruction ends with its own shape.
-/

namespace Destack

namespace ArrayData

theorem expand_congr (stmts : List Stmt) {a b : Variables} {args : List Value}
    (same : ∀ v ∈ args, b.typeOf v = a.typeOf v) : expand stmts b args = expand stmts a args := by
  unfold expand
  split
  · rename_i array handle
    rw [same array List.mem_cons_self]
  · rfl

theorem mem_expand {stmts stores : List Stmt} {vars : Variables} {args : List Value}
    (expanded : expand stmts vars args = .ok stores) {s : Stmt} (stored : s ∈ stores) :
    ∃ array ∈ args, ∃ elem i c, s = store array elem i c := by
  unfold expand at expanded
  split at expanded
  · rename_i array handle
    obtain ⟨⟨elem, length⟩, -, expanded⟩ := bind_eq_ok.mp expanded
    dsimp only at expanded
    split at expanded
    · cases expanded
    · obtain ⟨data, -, expanded⟩ := bind_eq_ok.mp expanded
      split at expanded
      · cases expanded
      · split at expanded
        · cases expanded
        · cases expanded
          obtain ⟨i, -, made⟩ := List.mem_filterMap.mp stored
          obtain ⟨c, -, rfl⟩ := Option.map_eq_some_iff.mp made
          exact ⟨array, List.mem_cons_self, elem, i, c, rfl⟩
  · cases expanded

end ArrayData

theorem Expr.type_congr {e : Expr} {a b : Variables}
    (same : ∀ v ∈ e.reads, b.typeOf v = a.typeOf v) : e.type b = e.type a := by
  cases e with
  | value v | addrOf v => simp only [type, same v List.mem_cons_self]
  | _ => rfl

theorem Value.isFixed_of_isDeclared {v : Value} (declared : v.isDeclared) : v.isFixed := by
  cases v <;> first | rfl | cases declared

theorem Frame.isDeclared_value (frame : Frame) (index : UInt16) :
    (frame.value index).isDeclared := by
  cases frame <;> rfl

namespace Replay

def Usable (given : List Value) (v : Value) : Prop := v ∈ given ∨ v.isFixed

@[simp] theorem usable_cons {given : List Value} {u v : Value} :
    Usable (u :: given) v ↔ v = u ∨ Usable given v := by
  simp [Usable, or_assoc]

@[simp] theorem usable_const (given : List Value) (c : Const) : Usable given (.const c) := .inr rfl

theorem usable_append {front given : List Value} {v : Value} :
    Usable (front ++ given) v ↔ v ∈ front ∨ Usable given v := by
  simp [Usable, or_assoc]

theorem usable_declared (given : List Value) {v : Value} (declared : v.isDeclared) :
    Usable given v :=
  .inr (Value.isFixed_of_isDeclared declared)

/-! ## Composed steps -/

def define (e : Expr) : Replay Value := do
  let t ← temp (e.type (← get).vars)
  emit (.set t e)
  return t

def inspect {α : Type} (f : Progress → α) : Replay α := return f (← get)

def overwrite (v : Value) (f : Progress → Expr) : Replay Unit := do
  spill v
  let e ← inspect f
  emit (.set v e)

def peekMany (i : Instruction Nat) (count : Nat) : Replay (List Value) := do
  let p ← get
  match p.stack.popMany count i.opcode i.index with
  | .ok (values, _) => return values
  | .error e => throw e

def offerCall (i : Instruction Nat) (m : Method) (isVirtual : Bool) : Replay Unit := do
  let args ← peekMany i m.argCount
  match ← inspect fun p => ArrayData.expand p.stmts p.vars args with
  | .ok stores =>
    let _ ← popMany i m.argCount
    modify fun p => { p with stmts := p.stmts ++ stores }
  | .error reason =>
    note .patternSkipped i.index reason.message
    emitCall i m isVirtual

/-! ## Steps on a state -/

variable {α β : Type}

theorem bind_apply (x : Replay α) (f : α → Replay β) (p : Progress) :
    (x >>= f) p =
      match x p with
      | .ok a q => f a q
      | .error e q => .error e q := by
  simp only [bind, EStateM.bind]
  cases x p <;> rfl

theorem get_bind (f : Progress → Replay α) (p : Progress) : (get >>= f) p = f p p := rfl

def withStack (p : Progress) :
    Except ReplayError (α × OperandStack) → EStateM.Result ReplayError Progress α
  | .ok (a, stack) => .ok a { p with stack }
  | .error e => .error e p

theorem pop_apply (i : Instruction Nat) (p : Progress) :
    pop i p = withStack p (p.stack.pop i.opcode i.index) := by
  simp only [pop, get_bind]
  cases p.stack.pop i.opcode i.index <;> rfl

theorem popMany_apply (i : Instruction Nat) (count : Nat) (p : Progress) :
    popMany i count p = withStack p (p.stack.popMany count i.opcode i.index) := by
  simp only [popMany, get_bind]
  cases p.stack.popMany count i.opcode i.index <;> rfl

theorem peekMany_apply (i : Instruction Nat) (count : Nat) (p : Progress) :
    peekMany i count p = withStack p
      ((p.stack.popMany count i.opcode i.index).map fun both => (both.1, p.stack)) := by
  simp only [peekMany, get_bind]
  cases p.stack.popMany count i.opcode i.index <;> rfl

theorem popMany_eq_ok {stack rest : OperandStack} {values : List Value} {count index : Nat}
    {op : Opcode} (taken : stack.popMany count op index = .ok (values, rest)) :
    values.length = count ∧ values.reverse ++ rest = stack := by
  unfold OperandStack.popMany at taken
  split at taken
  · rename_i enough
    cases taken
    rw [List.length_reverse, List.length_take_of_le enough, List.reverse_reverse,
      List.take_append_drop]
    exact ⟨rfl, rfl⟩
  · cases taken

theorem mem_popMany {stack rest : OperandStack} {values : List Value} {count index : Nat}
    {op : Opcode} (taken : stack.popMany count op index = .ok (values, rest)) :
    (∀ v ∈ values, v ∈ stack) ∧ ∀ v ∈ rest, v ∈ stack := by
  obtain ⟨-, rfl⟩ := popMany_eq_ok taken
  constructor
  · exact fun v member => List.mem_append_left _ (List.mem_reverse.mpr member)
  · exact fun v member => List.mem_append_right _ member

theorem fillArray_apply (i : Instruction Nat) (m : Method) (p : Progress) :
    fillArray i m p =
      match p.stack.popMany m.argCount i.opcode i.index with
      | .error e => .error e p
      | .ok (args, stack) =>
        match ArrayData.expand p.stmts p.vars args with
        | .ok stores => .ok true { p with stack, stmts := p.stmts ++ stores }
        | .error reason => .ok false
          { p with diagnostics := p.diagnostics ++ [⟨.patternSkipped, i.index, reason.message⟩] } := by
  simp only [fillArray, bind_apply, popMany_apply]
  cases taken : p.stack.popMany m.argCount i.opcode i.index with
  | error e => rfl
  | ok both =>
      obtain ⟨args, rest⟩ := both
      simp only [withStack, get, getThe, MonadStateOf.get, EStateM.get]
      cases ArrayData.expand p.stmts p.vars args with
      | ok stores => rfl
      | error reason =>
          simp only [note, bind_apply]
          change EStateM.Result.ok false
            { p with stack := args.reverse ++ rest, diagnostics := _ } = _
          rw [(popMany_eq_ok taken).2]

/-- A call that is not replaced finds the stack as it was. -/
theorem perform_call (cx : Context) (i : Instruction Nat) (isVirtual : Bool) :
    perform cx i (.call isVirtual) = (do
      let m ← methodOperand cx i
      if cx.expandArrays && m.fillsArray then offerCall i m isVirtual
      else emitCall i m isVirtual) := by
  simp only [perform]
  congr 1
  funext m
  split
  · funext p
    simp only [bind_apply, fillArray_apply, offerCall, peekMany_apply]
    cases taken : p.stack.popMany m.argCount i.opcode i.index with
    | error e => rfl
    | ok both =>
        obtain ⟨args, rest⟩ := both
        simp only [Except.map, withStack, inspect, bind_apply, get, getThe, MonadStateOf.get,
          EStateM.get, pure, EStateM.pure]
        cases ArrayData.expand p.stmts p.vars args with
        | ok stores =>
            simp only [bind_apply, popMany_apply, taken]
            rfl
        | error reason => rfl
  · rfl

def Returns (x : Replay α) (a : α) : Prop := ∃ p q, x p = .ok a q

theorem returns_pure {a b : α} (returns : Returns (pure a) b) : b = a := by
  obtain ⟨p, q, ran⟩ := returns
  cases ran
  rfl

theorem not_returns_throw {e : ReplayError} {a : α} : ¬ Returns (throw e) a := by
  rintro ⟨p, q, ran⟩
  cases ran

theorem returns_bind {x : Replay α} {f : α → Replay β} {b : β} (returns : Returns (x >>= f) b) :
    ∃ a, Returns x a ∧ Returns (f a) b := by
  obtain ⟨p, r, ran⟩ := returns
  rw [bind_apply] at ran
  cases first : x p with
  | ok a q =>
      rw [first] at ran
      exact ⟨a, ⟨p, q, first⟩, ⟨q, r, ran⟩⟩
  | error e q =>
      rw [first] at ran
      cases ran

theorem returns_inspect {f : Progress → α} {a : α} (returns : Returns (inspect f) a) :
    ∃ p, f p = a := by
  obtain ⟨p, q, ran⟩ := returns
  cases ran
  exact ⟨p, rfl⟩

def nothing : α → List Value := fun _ => []

@[simp] theorem nothing_append (a : α) (given : List Value) : nothing a ++ given = given := rfl

/-! ## Properties of steps -/

/-- A property of steps: `holds given s x gives t` is about the step `x` of an instruction that has
the shape `s` so far and has the shape `t` then. The step was handed the values `given` and hands
on the values that `gives` names in its result. -/
structure Logic where
  holds {α : Type} (given : List Value) (s : Shape) (x : Replay α) (gives : α → List Value)
    (t : Shape) : Prop
  /-- The statements that may be added: at least those that cannot write through an address. -/
  admits (s : Stmt) : Prop
  quiet {s : Stmt} (plain : s.mayWrite = false) : admits s
  ret {α : Type} {given : List Value} {s : Shape} {gives : α → List Value} {a : α}
    (usable : ∀ v ∈ gives a, Usable given v) : holds given s (pure a) gives s
  bind {α β : Type} {given : List Value} {s t u : Shape} {x : Replay α} {f : α → Replay β}
    {middle : α → List Value} {gives : β → List Value} (first : holds given s x middle t)
    (rest : ∀ a, Returns x a → holds (middle a ++ given) t (f a) gives u) :
    holds given s (x >>= f) gives u
  fail {α : Type} {given : List Value} {s t : Shape} {gives : α → List Value} (e : ReplayError) :
    holds given s (throw e : Replay α) gives t
  look {α : Type} {given : List Value} {s : Shape} {gives : α → List Value} {f : Progress → α}
    (depends : ∀ p q : Progress, q.stack = p.stack → q.stmts = p.stmts →
      (∀ v, Usable given v → q.vars.typeOf v = p.vars.typeOf v) → f q = f p)
    (usable : ∀ p, ∀ v ∈ gives (f p), Usable given v) : holds given s (inspect f) gives s
  note {given : List Value} {s : Shape} (kind : DiagnosticKind) (instruction : Nat)
    (message : String) : holds given s (note kind instruction message) nothing s
  ask {given : List Value} {s : Shape} (q : Query) : holds given s (ask q) nothing s
  -- Values are taken from the stack before any is put there.
  pop {given : List Value} {k : Nat} (i : Instruction Nat) :
    holds given (.working k (some 0)) (pop i) (fun v => [v]) (.working (1 + k) (some 0))
  popMany {given : List Value} {k : Nat} (i : Instruction Nat) (count : Nat) :
    holds given (.working k (some 0)) (popMany i count) id (.working (count + k) (some 0))
  peekMany {given : List Value} {s : Shape} (i : Instruction Nat) (count : Nat) :
    holds given s (peekMany i count) id s
  push {given : List Value} {k n : Nat} {v : Value} (fixed : v.isFixed) :
    holds given (.working k (some n)) (push v) nothing (.working k (some (n + 1)))
  pushDefined {given : List Value} {k n : Nat} {e : Expr} (usable : ∀ v ∈ e.reads, Usable given v)
    (admitted : ∀ v, admits (.set v e)) :
    holds given (.working k (some n)) (do Replay.push (← define e)) nothing
      (.working k (some (n + 1)))
  double {given : List Value} (i : Instruction Nat) :
    holds given .fresh (do
      let v ← Replay.pop i
      Replay.push v
      Replay.push v) nothing .doubled
  clear {given : List Value} {k : Nat} {n : Option Nat} :
    holds given (.working k n) clear nothing (.leaving none [])
  define {given : List Value} {k : Nat} {n : Option Nat} {e : Expr}
    (usable : ∀ v ∈ e.reads, Usable given v) (admitted : ∀ v, admits (.set v e)) :
    holds given (.working k n) (define e) (fun v => [v]) (.working k n)
  spill {given : List Value} {k : Nat} {n : Option Nat} {v : Value} (declared : v.isDeclared) :
    holds given (.working k n) (spill v) nothing (.working k n)
  overwrite {given : List Value} {k : Nat} {n : Option Nat} {v : Value} {f : Progress → Expr}
    (declared : v.isDeclared)
    (depends : ∀ p q : Progress,
      (∀ u, Usable given u → q.vars.typeOf u = p.vars.typeOf u) → f q = f p)
    (usable : ∀ p, ∀ u ∈ (f p).reads, Usable given u) (admitted : ∀ p, admits (.set v (f p))) :
    holds given (.working k n) (overwrite v f) nothing (.working k n)
  emitAll {given : List Value} {k : Nat} {n : Option Nat} {stmts : List Stmt}
    (effects : ∀ s ∈ stmts, s.isEffect) (usable : ∀ s ∈ stmts, ∀ v ∈ s.reads, Usable given v)
    (admitted : ∀ s ∈ stmts, admits s) :
    holds given (.working k n) (modify fun p => { p with stmts := p.stmts ++ stmts }) nothing
      (.working k n)
  leave {given : List Value} {takes : Option Nat} {ways : List (Option Nat × Bool)} {s : Stmt}
    (ends : ¬ s.isStraight) (usable : ∀ v ∈ s.reads, Usable given v) :
    holds given (.leaving takes ways) (emit s) nothing (.leaving takes (ways ++ [s.way]))
  -- A shape may be seen in another way: what is put may be left open, and from an instruction
  -- that puts nothing control may leave.
  forget {α : Type} {given : List Value} {s : Shape} {x : Replay α} {gives : α → List Value}
    {k n : Nat} (holding : holds given s x gives (.working k (some n))) :
    holds given s x gives (.working k none)
  depart {α : Type} {given : List Value} {s : Shape} {x : Replay α} {gives : α → List Value}
    {k : Nat} (holding : holds given s x gives (.working k (some 0))) :
    holds given s x gives (.leaving (some k) [])

namespace Logic

variable (L : Logic) {given : List Value} {s t u : Shape} {gives : β → List Value}

/-! ## Steps -/

theorem seq {x : Replay α} {f : α → Replay β} {middle : α → List Value}
    (first : L.holds given s x middle t) (rest : ∀ a, L.holds (middle a ++ given) t (f a) gives u) :
    L.holds given s (x >>= f) gives u :=
  L.bind first fun a _ => rest a

theorem done (a : α) : L.holds given s (Pure.pure a) nothing s :=
  L.ret fun _ member => absurd member List.not_mem_nil

theorem yields {v : Value} (usable : Usable given v) :
    L.holds given s (Pure.pure v) (fun v => [v]) s :=
  L.ret (by simpa using usable)

theorem typeOf {v : Value} (usable : Usable given v) : L.holds given s (typeOf v) nothing s :=
  L.look (f := fun p => p.vars.typeOf v) (fun _ _ _ _ same => same v usable) (by simp [nothing])

theorem stack (f : OperandStack → α) : L.holds given s (inspect fun p => f p.stack) nothing s :=
  L.look (fun _ _ same _ _ => congrArg f same) (by simp [nothing])

theorem coerceExpr_reads (vars : Variables) (v : Value) (dest : Ty) (usable : Usable given v) :
    ∀ u ∈ (coerceExpr vars v dest).reads, Usable given u := by
  unfold coerceExpr
  split <;> dsimp only <;> (repeat' split) <;> simp [Expr.reads, usable]

theorem isCall_coerceExpr (vars : Variables) (v : Value) (dest : Ty) :
    (coerceExpr vars v dest).isCall = false := by
  unfold coerceExpr
  split <;> dsimp only <;> (repeat' split) <;> rfl

theorem coerced {v : Value} (dest : Ty) (usable : Usable given v) :
    L.holds given s (coerced v dest) Expr.reads s := by
  refine L.look (f := fun p => coerceExpr p.vars v dest) ?_ ?_
  · intro p q _ _ same
    simp only [coerceExpr, same v usable]
  · exact fun p => coerceExpr_reads p.vars v dest usable

theorem isCall_of_returns {v : Value} {dest : Ty} {e : Expr}
    (returns : Returns (Replay.coerced v dest) e) : e.isCall = false := by
  obtain ⟨p, rfl⟩ := returns_inspect returns
  exact isCall_coerceExpr p.vars v dest

/-! ## Steps of an instruction that is at work -/

section Working

variable {k : Nat} {n : Option Nat}

theorem effect {s : Stmt} (effect : s.isEffect) (usable : ∀ v ∈ s.reads, Usable given v)
    (admitted : L.admits s) : L.holds given (.working k n) (emit s) nothing (.working k n) :=
  L.emitAll (by simpa using effect) (by simpa using usable) (by simpa using admitted)

theorem materialize {e : Expr} (usable : ∀ v ∈ e.reads, Usable given v)
    (plain : e.isCall = false := by rfl) :
    L.holds given (.working k n) (materialize e) (fun v => [v]) (.working k n) := by
  cases e with
  | value v => exact L.yields (usable v List.mem_cons_self)
  | _ => exact L.define usable fun _ => L.quiet plain

theorem pushAdmitted {m : Nat} {e : Expr} (usable : ∀ v ∈ e.reads, Usable given v)
    (admitted : ∀ v, L.admits (.set v e)) (computed : ∀ v, e ≠ .value v := by nofun) :
    L.holds given (.working k (some m)) (pushExpr e) nothing (.working k (some (m + 1))) := by
  cases e with
  | value v => exact absurd rfl (computed v)
  | _ => exact L.pushDefined usable admitted

theorem pushExpr {m : Nat} {e : Expr} (usable : ∀ v ∈ e.reads, Usable given v)
    (plain : e.isCall = false := by rfl) (computed : ∀ v, e ≠ .value v := by nofun) :
    L.holds given (.working k (some m)) (Replay.pushExpr e) nothing (.working k (some (m + 1))) :=
  L.pushAdmitted usable (fun _ => L.quiet plain) computed

theorem spillAll {values : List Value} (declared : ∀ v ∈ values, v.isDeclared) :
    L.holds given (.working k n) (values.forM Replay.spill) nothing (.working k n) := by
  induction values with
  | nil => exact L.done ()
  | cons v values ih =>
      rw [List.forall_mem_cons] at declared
      exact L.seq (L.spill declared.1) fun _ => ih declared.2

theorem spillDeclared : L.holds given (.working k n) spillDeclared nothing (.working k n) := by
  let found : OperandStack → List Value := fun stack => distinct (stack.slots.filter (·.isDeclared))
  change L.holds given _ (inspect (fun p => found p.stack) >>= fun values => values.forM _) _ _
  refine L.bind (L.stack found) fun values returns => L.spillAll fun v member => ?_
  obtain ⟨p, rfl⟩ := returns_inspect returns
  exact (List.mem_filter.mp (mem_distinct.mp member)).2

theorem coerce {v : Value} (dest : Ty) (usable : Usable given v) :
    L.holds given (.working k n) (coerce v dest) (fun v => [v]) (.working k n) :=
  L.bind (L.coerced dest usable) fun _ returns =>
    L.materialize (fun _ member => .inl (by simp [member])) (isCall_of_returns returns)

theorem storeCoerced {v : Value} {place : Place} (dest : Ty) (usable : Usable given v)
    (reads : ∀ u ∈ place.reads, Usable given u) (memory : ∀ e, (Stmt.assign place e).isEffect)
    (admitted : ∀ e, e.isCall = false → L.admits (.assign place e)) :
    L.holds given (.working k n) (do
      let e ← Replay.coerced v dest
      Replay.emit (.assign place e)) nothing (.working k n) := by
  refine L.bind (L.coerced dest usable) fun e returns => L.effect (memory e) ?_
    (admitted e (isCall_of_returns returns))
  intro u member
  rcases List.mem_append.mp member with member | member
  · exact usable_append.mpr (.inr (reads u member))
  · exact usable_append.mpr (.inl member)

theorem widen {v : Value} (t dest : Ty) (usable : Usable given v) :
    L.holds given (.working k n) (widen v t dest) (fun v => [v]) (.working k n) := by
  unfold Replay.widen
  split
  · exact L.materialize (by simpa [Expr.reads] using usable)
  · exact L.yields usable

theorem coercePair {left right : Value} (usableLeft : Usable given left)
    (usableRight : Usable given right) :
    L.holds given (.working k n) (coercePair left right) (fun pair => [pair.1, pair.2])
      (.working k n) := by
  refine L.seq (L.typeOf usableLeft) fun leftType => ?_
  refine L.seq (L.typeOf usableRight) fun rightType => ?_
  simp only [nothing_append]
  split
  · exact L.ret (by simpa using usableRight)
  · split
    · exact L.ret (by simpa using usableLeft)
    · split
      · exact L.ret (by simp [usableLeft, usableRight])
      · refine L.seq (L.widen _ _ usableLeft) fun left => ?_
        refine L.seq (L.widen _ _ (by simp [usableRight])) fun right => ?_
        exact L.ret (by simp)

theorem coerceEach {values : List Value} (types : List Ty)
    (usable : ∀ v ∈ values, Usable given v) :
    L.holds given (.working k n) (coerceEach values types) id (.working k n) := by
  fun_induction Replay.coerceEach values types generalizing given with
  | case1 v values t types ih =>
      rw [List.forall_mem_cons] at usable
      refine L.seq (L.coerce t usable.1) fun first => ?_
      refine L.seq (ih fun u member => by simp [usable.2 u member]) fun rest => ?_
      exact L.ret (by simp +contextual [Usable])
  | case2 values types _ => exact L.ret usable

theorem coerceArgs {args : List Value} (m : Method) (usable : ∀ v ∈ args, Usable given v) :
    L.holds given (.working k n) (coerceArgs m args) id (.working k n) := by
  unfold Replay.coerceArgs
  split
  · cases args with
    | nil => exact L.ret usable
    | cons receiver args =>
        rw [List.forall_mem_cons] at usable
        refine L.seq (L.coerceEach _ usable.2) fun rest => L.ret ?_
        intro v member
        rcases List.mem_cons.mp member with rfl | member
        · exact usable_append.mpr (.inr usable.1)
        · exact usable_append.mpr (.inl member)
  · exact L.coerceEach _ usable

end Working

/-! ## Operands -/

theorem malformed (i : Instruction Nat) : L.holds given s (malformed i) gives t := L.fail _

theorem tokenOperand (i : Instruction Nat) : L.holds given s (tokenOperand i) nothing s := by
  unfold Replay.tokenOperand
  split
  · exact L.done _
  · exact L.malformed i

theorem targetOperand (i : Instruction Nat) : L.holds given s (targetOperand i) nothing s := by
  unfold Replay.targetOperand
  split
  · exact L.done _
  · exact L.malformed i

theorem target_of_returns {i : Instruction Nat} {target : Nat}
    (returns : Returns (Replay.targetOperand i) target) : i.target? = some target := by
  unfold Replay.targetOperand at returns
  split at returns
  · rename_i named
    rw [returns_pure returns]
    simp only [Instruction.target?, named]
  · exact absurd returns not_returns_throw

theorem variableOperand (i : Instruction Nat) (frame : Frame) (implicit : Option UInt16) :
    L.holds given s (variableOperand i frame implicit) nothing s := by
  unfold Replay.variableOperand
  split
  · exact L.done _
  · split
    · exact L.done _
    · exact L.malformed i

theorem isDeclared_of_returns {i : Instruction Nat} {frame : Frame} {implicit : Option UInt16}
    {v : Value} (returns : Returns (Replay.variableOperand i frame implicit) v) : v.isDeclared := by
  unfold Replay.variableOperand at returns
  split at returns
  · rw [returns_pure returns]
    exact frame.isDeclared_value _
  · split at returns
    · rw [returns_pure returns]
      exact frame.isDeclared_value _
    · exact absurd returns not_returns_throw

theorem lookUp {α : Type} (q : Query) (found : Found α) (kind : DiagnosticKind)
    (instruction : Nat) (message : String) :
    L.holds given s (do
      Replay.ask q
      unless found.resolved do Replay.note kind instruction message
      return found.value) nothing s := by
  refine L.seq (L.ask q) fun _ => ?_
  dsimp only
  split
  · exact L.done _
  · exact L.seq (L.note _ _ _) fun _ => L.done _

theorem typeOperand (cx : Context) (i : Instruction Nat) :
    L.holds given s (typeOperand cx i) nothing s :=
  L.seq (L.tokenOperand i) fun _ => L.lookUp _ _ _ _ _

theorem fieldOperand (cx : Context) (i : Instruction Nat) :
    L.holds given s (fieldOperand cx i) nothing s :=
  L.seq (L.tokenOperand i) fun _ => L.lookUp _ _ _ _ _

theorem stringOperand (cx : Context) (i : Instruction Nat) :
    L.holds given s (stringOperand cx i) nothing s :=
  L.seq (L.tokenOperand i) fun _ => L.lookUp _ _ _ _ _

theorem methodOperand (cx : Context) (i : Instruction Nat) :
    L.holds given s (methodOperand cx i) nothing s := by
  refine L.seq (L.tokenOperand i) fun token => L.seq (L.ask _) fun _ => ?_
  split
  · exact L.fail _
  · dsimp only
    split
    · exact L.done _
    · exact L.seq (L.note _ _ _) fun _ => L.done _

theorem token_of_returns {i : Instruction Nat} {token : Token}
    (returns : Returns (Replay.tokenOperand i) token) : i.token? = some token := by
  unfold Replay.tokenOperand at returns
  split at returns
  · rename_i named
    rw [returns_pure returns]
    simp only [Instruction.token?, named]
  · exact absurd returns not_returns_throw

theorem method_of_returns {cx : Context} {i : Instruction Nat} {m : Method}
    (returns : Returns (Replay.methodOperand cx i) m) : cx.view.called? i = some m := by
  obtain ⟨token, first, returns⟩ := returns_bind returns
  obtain ⟨_, -, returns⟩ := returns_bind returns
  simp only [View.called?, token_of_returns first, Option.bind_some, Option.map_eq_some_iff]
  split at returns
  · exact absurd returns not_returns_throw
  · rename_i found named
    refine ⟨found, named, ?_⟩
    dsimp only at returns
    split at returns
    · exact (returns_pure returns).symm
    · obtain ⟨_, -, returns⟩ := returns_bind returns
      exact (returns_pure returns).symm

theorem statedType? (cx : Context) (i : Instruction Nat) (access : AccessType) :
    L.holds given s (statedType? cx i access) nothing s := by
  cases access with
  | fixed t => exact L.done _
  | operand => exact L.seq (L.typeOperand cx i) fun _ => L.done _
  | inferred => exact L.done _

theorem accessedType (stated : Option Ty) {accessed : Value} (usable : Usable given accessed) :
    L.holds given s (accessedType stated accessed) nothing s := by
  cases stated with
  | some t => exact L.done _
  | none => exact L.seq (L.typeOf usable) fun _ => L.done _

theorem handleTarget (cx : Context) (i : Instruction Nat) :
    L.holds given s (handleTarget cx i) nothing s := by
  refine L.seq (L.tokenOperand i) fun token => ?_
  split
  · exact L.seq (L.fieldOperand cx i) fun _ => L.done _
  · split
    · exact L.seq (L.methodOperand cx i) fun _ => L.done _
    · exact L.seq (L.typeOperand cx i) fun _ => L.done _

/-! ## Groups of actions -/

theorem storeVariable (i : Instruction Nat) {v : Value} (declared : v.isDeclared) :
    L.holds given .fresh (storeVariable i v) nothing (.working 1 (some 0)) := by
  change L.holds given _ (Replay.pop i >>= fun value =>
    Replay.overwrite v fun p => coerceExpr p.vars value (p.vars.typeOf v)) _ _
  refine L.seq (L.pop i) fun value => L.overwrite declared ?_ ?_ ?_
  · intro p q same
    simp only [coerceExpr, same value (by simp), same v (usable_declared _ declared)]
  · exact fun p => coerceExpr_reads p.vars value _ (by simp)
  · exact fun p => L.quiet (isCall_coerceExpr ..)

theorem storeThrough {k : Nat} {n : Option Nat} {addr value : Value} (stated : Option Ty)
    (usableAddr : Usable given addr) (usableValue : Usable given value)
    (writes : ∀ s, L.admits s) :
    L.holds given (.working k n) (storeThrough addr value stated) nothing (.working k n) := by
  refine L.seq L.spillDeclared fun _ => ?_
  refine L.seq (L.accessedType stated (by simp [usableAddr])) fun t => ?_
  refine L.storeCoerced t (by simp [usableValue]) ?_ (fun _ => rfl) fun _ _ => writes _
  simp [Place.reads, usableAddr]

theorem emitArms {value : Value} (usable : Usable given value) {takes : Option Nat}
    {ways : List (Option Nat × Bool)} (number : Nat) (targets : List Nat) :
    L.holds given (.leaving takes ways) (emitArms value number targets) nothing
      (.leaving takes (ways ++ targets.map fun target => (some target, true))) := by
  induction targets generalizing number ways with
  | nil =>
      rw [List.map_nil, List.append_nil]
      exact L.done ()
  | cons target targets ih =>
      rw [List.map_cons, List.append_cons]
      refine L.seq (L.leave (by simp [Stmt.isStraight]) ?_) fun _ => ih (number + 1)
      simp [Stmt.reads, Condition.reads, usable]

theorem asCall {x : Replay Unit} {cx : Context} {m : Method} {n : Nat}
    (holding : L.holds given s x nothing (.working m.argCount (some n)))
    (void : m.sig.returnType = .void → n = 0)
    (result : m.sig.returnType ≠ .void → ¬ (cx.expandArrays && m.fillsArray) → n = 1) :
    L.holds given s x nothing (callShape cx m) := by
  unfold callShape
  split
  · rename_i isVoid
    rwa [void isVoid] at holding
  · rename_i returns
    split
    · exact L.forget holding
    · rename_i kept
      rwa [result returns kept] at holding

theorem emitCall (cx : Context) (i : Instruction Nat) (m : Method) (isVirtual : Bool)
    (writes : ∀ s, L.admits s) :
    L.holds given .fresh (emitCall i m isVirtual) nothing (callShape cx m) := by
  suffices called : L.holds given .fresh (Replay.emitCall i m isVirtual) nothing
      (.working m.argCount (some (if m.sig.returnType = .void then 0 else 1))) from
    L.asCall called (fun void => if_pos void) fun returns _ => if_neg returns
  refine L.seq (L.popMany i m.argCount) fun popped => ?_
  refine L.seq (L.coerceArgs m fun v member => usable_append.mpr (.inl member)) fun args => ?_
  have usable : ∀ v ∈ args, Usable (id args ++ (id popped ++ given)) v :=
    fun v member => usable_append.mpr (.inl member)
  dsimp only
  split
  · exact L.effect rfl usable (writes _)
  · exact L.pushAdmitted (e := .call _) usable fun _ => writes _

def storeReads : Except ArrayData.Skip (List Stmt) → List Value
  | .ok stores => stores.flatMap Stmt.reads
  | .error _ => []

theorem expand {args : List Value} (usable : ∀ v ∈ args, Usable given v) :
    L.holds given s (inspect fun p => ArrayData.expand p.stmts p.vars args) storeReads s := by
  refine L.look ?_ ?_
  · intro p q _ sameStmts sameTypes
    rw [sameStmts]
    exact ArrayData.expand_congr _ fun v member => sameTypes v (usable v member)
  · intro p v member
    cases expanded : ArrayData.expand p.stmts p.vars args with
    | error reason => simp [expanded, storeReads] at member
    | ok stores =>
        simp only [expanded, storeReads, List.mem_flatMap] at member
        obtain ⟨s, stored, read⟩ := member
        obtain ⟨array, arg, elem, n, c, rfl⟩ := ArrayData.mem_expand expanded stored
        simp only [ArrayData.store, Stmt.reads, Place.reads, Expr.reads, List.mem_append,
          List.mem_cons, List.not_mem_nil, or_false] at read
        rcases read with (rfl | rfl) | rfl
        · exact usable _ arg
        · exact usable_const _ _
        · exact usable_const _ _

theorem offerCall (cx : Context) (i : Instruction Nat) (m : Method) (isVirtual : Bool)
    (offered : (cx.expandArrays && m.fillsArray) = true) (writes : ∀ s, L.admits s) :
    L.holds given .fresh (offerCall i m isVirtual) nothing (callShape cx m) := by
  refine L.seq (L.peekMany i m.argCount) fun args => ?_
  have usable : ∀ v ∈ args, Usable (id args ++ given) v :=
    fun v member => usable_append.mpr (.inl member)
  refine L.bind (L.expand usable) fun r returns => ?_
  cases r with
  | ok stores =>
      obtain ⟨p, expanded⟩ := returns_inspect returns
      have effects : ∀ s ∈ stores, s.isEffect := by
        intro s stored
        obtain ⟨array, -, elem, n, c, rfl⟩ := ArrayData.mem_expand expanded stored
        rfl
      refine L.asCall (n := 0) ?_ (fun _ => rfl) fun _ kept => absurd offered kept
      refine L.seq (L.popMany i m.argCount) fun _ => L.emitAll effects ?_ fun _ _ => writes _
      intro s stored v read
      exact usable_append.mpr (.inr (usable_append.mpr
        (.inl (List.mem_flatMap.mpr ⟨s, stored, read⟩))))
  | error reason => exact L.seq (L.note _ _ _) fun _ => L.emitCall cx i m isVirtual writes

theorem returnValue (cx : Context) (i : Instruction Nat) :
    L.holds given .fresh (returnValue cx i) Option.toList
      (.working (if cx.returnType = .void then 0 else 1) (some 0)) := by
  unfold Replay.returnValue
  split
  · exact L.ret (by simp)
  · refine L.seq (L.pop i) fun v => L.seq (L.coerce _ (by simp)) fun v => L.ret (by simp)

/-! ## Instructions -/

theorem popPush (i : Instruction Nat) {e : Value → Expr} (reads : ∀ v, (e v).reads = [v])
    (plain : ∀ v, (e v).isCall = false := by exact fun _ => rfl)
    (computed : ∀ v u, e v ≠ .value u := by nofun) :
    L.holds given .fresh (do Replay.pushExpr (e (← Replay.pop i))) nothing
      (.working 1 (some 1)) :=
  L.seq (L.pop i) fun v => L.pushExpr (by simp [reads]) (plain v) (computed v)

theorem exit {takes : Option Nat} {s : Stmt} (ends : ¬ s.isStraight)
    (usable : ∀ v ∈ s.reads, Usable given v) :
    L.holds given (.leaving takes []) (emit s) nothing (.leaving takes [s.way]) :=
  L.leave ends usable

theorem leaveBlock (i : Instruction Nat) (s : Value → Stmt) (reads : ∀ v, (s v).reads = [v])
    (ends : ∀ v, (s v).way = (none, false)) :
    L.holds given .fresh (do
      let v ← Replay.pop i
      Replay.clear
      Replay.emit (s v)) nothing (.leaving none [(none, false)]) := by
  refine L.seq (L.pop i) fun v => L.seq L.clear fun _ => ?_
  have leaves := ends v
  rw [← leaves]
  refine L.exit (fun straight => ?_) (by simp [reads])
  rw [Stmt.way_of_isStraight straight] at leaves
  cases leaves

theorem perform (cx : Context) (i : Instruction Nat) (a : Action)
    (writes : a.mayWrite → ∀ s, L.admits s) :
    L.holds given .fresh (perform cx i a) nothing (a.shape cx i) := by
  cases a with
  | skip => exact L.done ()
  | unsupported => exact L.fail _
  | loadNull => exact L.push rfl
  | loadInt32 implicit =>
      cases implicit with
      | some n => exact L.push rfl
      | none =>
          simp only [Replay.perform]
          split
          · exact L.push rfl
          · exact L.malformed i
  | loadInt64 | loadFloat32 | loadFloat64 =>
      simp only [Replay.perform]
      split
      · exact L.push rfl
      · exact L.malformed i
  | loadString => exact L.seq (L.stringOperand cx i) fun _ => L.push rfl
  | load frame implicit =>
      refine L.bind (L.variableOperand i frame implicit) fun _ returns => L.push ?_
      exact Value.isFixed_of_isDeclared (isDeclared_of_returns returns)
  | store frame implicit =>
      refine L.bind (L.variableOperand i frame implicit) fun _ returns => ?_
      exact L.storeVariable i (isDeclared_of_returns returns)
  | loadAddress frame =>
      refine L.bind (L.variableOperand i frame none) fun v returns => ?_
      have declared := isDeclared_of_returns returns
      refine L.seq (L.spill declared) fun _ => L.pushExpr ?_
      simpa [Expr.reads] using usable_declared _ declared
  | duplicate => exact L.double i
  | discard => exact L.seq (L.pop i) fun _ => L.done ()
  | binary op checked unsigned =>
      refine L.seq (L.pop i) fun right => L.seq (L.pop i) fun left => ?_
      refine L.seq (L.typeOf (by simp)) fun _ => L.seq (L.typeOf (by simp)) fun _ => ?_
      exact L.pushExpr (by simp [Expr.reads])
  | unary op =>
      refine L.seq (L.pop i) fun operand => L.seq (L.typeOf (by simp)) fun _ => ?_
      exact L.pushExpr (by simp [Expr.reads])
  | convert dest checked unsigned => exact L.popPush i fun _ => rfl
  | compare op unsigned =>
      refine L.seq (L.pop i) fun right => L.seq (L.pop i) fun left => ?_
      refine L.seq (L.coercePair (by simp) (by simp)) fun ⟨left, right⟩ => ?_
      exact L.pushExpr (by simp [Expr.reads])
  | jump =>
      refine L.bind (L.depart (L.targetOperand i)) fun target returns => ?_
      simp only [Action.shape, target_of_returns returns]
      exact L.exit (by simp [Stmt.isStraight]) (by simp [Stmt.reads])
  | branchIf op =>
      refine L.seq (L.pop i) fun v => L.seq (L.typeOf (by simp)) fun _ => ?_
      refine L.bind (L.depart (L.targetOperand i)) fun target returns => ?_
      simp only [Action.shape, target_of_returns returns]
      exact L.exit (by simp [Stmt.isStraight]) (by simp [Stmt.reads, Condition.reads])
  | branchOn op unsigned =>
      refine L.seq (L.pop i) fun right => L.seq (L.pop i) fun left => ?_
      refine L.seq (L.coercePair (by simp) (by simp)) fun ⟨left, right⟩ => ?_
      refine L.bind (L.depart (L.targetOperand i)) fun target returns => ?_
      simp only [Action.shape, target_of_returns returns]
      exact L.exit (by simp [Stmt.isStraight]) (by simp [Stmt.reads, Condition.reads])
  | switch =>
      refine L.seq (L.depart (L.pop i)) fun v => ?_
      split
      · rename_i targets named
        simp only [Action.shape, Instruction.targets, named, Operand.places]
        exact L.emitArms (by simp) 0 targets
      · exact L.malformed i
  | leave =>
      refine L.seq L.clear fun _ => L.bind (L.targetOperand i) fun target returns => ?_
      simp only [Action.shape, target_of_returns returns]
      exact L.exit (by simp [Stmt.isStraight]) (by simp [Stmt.reads])
  | ret =>
      refine L.seq (L.depart (L.returnValue cx i)) fun value => ?_
      change L.holds _ _ (inspect (fun p => p.stack.length) >>= fun depth =>
        if depth = 0 then Replay.emit (.ret value)
        else throw (.unbalancedStack i.opcode i.index depth)) _ _
      refine L.seq (L.stack List.length) fun depth => ?_
      have usable : ∀ v ∈ value.toList, Usable (value.toList ++ given) v :=
        fun v member => usable_append.mpr (.inl member)
      by_cases empty : depth = 0
      · rw [if_pos empty]
        exact L.exit (s := .ret value) (by simp [Stmt.isStraight]) usable
      · rw [if_neg empty]
        exact L.fail _
  | throw => exact L.leaveBlock i .throw (fun _ => rfl) fun _ => rfl
  | rethrow =>
      refine L.seq L.clear fun _ => ?_
      exact L.exit (by simp [Stmt.isStraight]) (by simp [Stmt.reads])
  | endFinally =>
      refine L.seq L.clear fun _ => ?_
      dsimp only
      split
      · exact L.exit (by simp [Stmt.isStraight]) (by simp [Stmt.reads])
      · exact L.exit (by simp [Stmt.isStraight]) (by simp [Stmt.reads])
  | endFilter => exact L.leaveBlock i .endFilter (fun _ => rfl) fun _ => rfl
  | loadIndirect access =>
      refine L.seq (L.statedType? cx i access) fun stated => L.seq (L.pop i) fun addr => ?_
      exact L.seq (L.accessedType stated (by simp)) fun _ => L.pushExpr (by simp [Expr.reads])
  | storeIndirect access =>
      refine L.seq (L.statedType? cx i access) fun stated => ?_
      refine L.seq (L.pop i) fun value => L.seq (L.pop i) fun addr => ?_
      exact L.storeThrough stated (by simp) (by simp) (writes rfl)
  | copyObject =>
      refine L.seq (L.typeOperand cx i) fun t => ?_
      refine L.seq (L.pop i) fun source => L.seq (L.pop i) fun destination => ?_
      refine L.seq (L.materialize (by simp [Expr.reads])) fun copy => ?_
      refine L.seq L.spillDeclared fun _ => L.effect rfl ?_ (writes rfl _)
      simp [Stmt.reads, Place.reads, Expr.reads]
  | initObject =>
      refine L.seq (L.typeOperand cx i) fun t => L.seq (L.pop i) fun addr => ?_
      refine L.seq L.spillDeclared fun _ => L.effect rfl ?_ (writes rfl _)
      simp [Stmt.reads, Place.reads, Expr.reads]
  | loadField => exact L.seq (L.fieldOperand cx i) fun f => L.popPush i fun _ => rfl
  | loadFieldAddress =>
      refine L.seq (L.fieldOperand cx i) fun f => L.seq (L.pop i) fun object => ?_
      exact L.seq (L.typeOf (by simp)) fun _ => L.pushExpr (by simp [Expr.reads])
  | storeField =>
      refine L.seq (L.fieldOperand cx i) fun f => ?_
      refine L.seq (L.pop i) fun value => L.seq (L.pop i) fun object => ?_
      refine L.storeCoerced _ (by simp) ?_ (fun _ => rfl) fun _ _ => writes rfl _
      simp [Place.reads]
  | loadStatic =>
      exact L.seq (L.fieldOperand cx i) fun _ => L.pushExpr (by simp [Expr.reads])
  | loadStaticAddress =>
      exact L.seq (L.fieldOperand cx i) fun _ => L.pushExpr (by simp [Expr.reads])
  | storeStatic =>
      refine L.seq (L.fieldOperand cx i) fun f => L.seq (L.pop i) fun value => ?_
      refine L.storeCoerced _ (by simp) ?_ (fun _ => rfl) fun _ plain => L.quiet plain
      simp [Place.reads]
  | newArray => exact L.seq (L.typeOperand cx i) fun _ => L.popPush i fun _ => rfl
  | arrayLength => exact L.popPush i fun _ => rfl
  | loadElement access =>
      refine L.seq (L.statedType? cx i access) fun stated => ?_
      refine L.seq (L.pop i) fun index => L.seq (L.pop i) fun array => ?_
      exact L.seq (L.accessedType stated (by simp)) fun _ => L.pushExpr (by simp [Expr.reads])
  | loadElementAddress =>
      refine L.seq (L.typeOperand cx i) fun elem => ?_
      refine L.seq (L.pop i) fun index => L.seq (L.pop i) fun array => ?_
      exact L.pushExpr (by simp [Expr.reads])
  | storeElement access =>
      refine L.seq (L.statedType? cx i access) fun stated => L.seq (L.pop i) fun value => ?_
      refine L.seq (L.pop i) fun index => L.seq (L.pop i) fun array => ?_
      refine L.seq (L.accessedType stated (by simp)) fun elem => ?_
      refine L.storeCoerced _ (by simp) ?_ (fun _ => rfl) fun _ plain => L.quiet plain
      simp [Place.reads]
  | call isVirtual =>
      rw [perform_call]
      refine L.bind (L.methodOperand cx i) fun m returns => ?_
      simp only [Action.shape, method_of_returns returns, Option.map_some, Option.getD_some]
      split
      · rename_i offered
        exact L.offerCall cx i m isVirtual offered (writes rfl)
      · exact L.emitCall cx i m isVirtual (writes rfl)
  | newObject =>
      refine L.bind (L.methodOperand cx i) fun ctor returns => ?_
      simp only [Action.shape, method_of_returns returns, Option.map_some, Option.getD_some]
      refine L.seq (L.popMany i _) fun popped => ?_
      refine L.seq (L.coerceEach _ fun v member => usable_append.mpr (.inl member)) fun args => ?_
      exact L.pushAdmitted (fun v member => usable_append.mpr (.inl member)) fun _ => writes rfl _
  | loadFunction =>
      exact L.seq (L.methodOperand cx i) fun _ => L.pushExpr (by simp [Expr.reads])
  | loadVirtualFunction => exact L.seq (L.methodOperand cx i) fun _ => L.popPush i fun _ => rfl
  | castClass => exact L.seq (L.typeOperand cx i) fun _ => L.popPush i fun _ => rfl
  | isInstance => exact L.seq (L.typeOperand cx i) fun _ => L.popPush i fun _ => rfl
  | box =>
      refine L.seq (L.typeOperand cx i) fun t => L.seq (L.pop i) fun v => ?_
      exact L.seq (L.coerce t (by simp)) fun _ => L.pushExpr (by simp [Expr.reads])
  | unbox any => exact L.seq (L.typeOperand cx i) fun _ => L.popPush i fun _ => rfl
  | sizeOf => exact L.seq (L.typeOperand cx i) fun _ => L.pushExpr (by simp [Expr.reads])
  | loadHandle => exact L.seq (L.handleTarget cx i) fun _ => L.pushExpr (by simp [Expr.reads])

theorem receive (exception : Option Ty) :
    L.holds given .fresh (receive exception) nothing (.working 0 (some exception.toList.length)) := by
  cases exception with
  | none => exact L.done ()
  | some t => exact L.pushExpr (by simp [Expr.reads])

end Logic
end Replay
end Destack
