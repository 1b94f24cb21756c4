import Destack.Proofs.Replay.Again
import Destack.Proofs.Replay.Quiet

/-!
# Values on their way to typed places

Locations, parameters, boxes and the return value have types, and the statements of a block give
each a value that it can take. Temporaries get their types while a block is replayed, but the types
that count are those at the end. So the replay is held against its repetition, which starts with
the final table and has it all along: there, what a step finds is what is found at the end.
-/

namespace Destack

/-! ## What places take -/

def Const.isIntegral : Const → Bool
  | .int32 _ | .int64 _ => true
  | _ => false

/-- What a place of the given type takes: its null, a truth value if it holds one, an integer
literal of the width that it has on the stack, and everything that needs no conversion. -/
def Accepts (vars : Variables) (t : Ty) (v : Value) : Prop :=
  v = .const (.null t) ∨ (t = .bool ∧ ∃ b, v = .const (.bool b)) ∨
    (∃ c, v = .const c ∧ c.isIntegral ∧ c.type = t.stackType) ∨
    needsCast (vars.typeOf v) t = false

def Takes (vars : Variables) (t : Ty) (e : Expr) : Prop :=
  (∃ v, e = .value v ∧ Accepts vars t v) ∨ needsCast (e.type vars) t = false

/-- Every parameter gets an argument that it takes; the receiver is not a parameter. -/
def Call.Fits (vars : Variables) (c : Call) : Prop :=
  List.Forall₂ (Accepts vars) c.method.sig.params (c.args.drop c.method.sig.hasThis.toNat)

def Expr.Fits (vars : Variables) : Expr → Prop
  | .call c => c.Fits vars
  | .newObject ctor args => List.Forall₂ (Accepts vars) ctor.sig.params args
  | .box v t => Accepts vars t v
  | _ => True

/-- The places that the statement gives values to take them, in a method that returns the given
type. A temporary has the very type of what it is assigned. -/
def Stmt.Fits (returnType : Ty) (vars : Variables) : Stmt → Prop
  | .assign place e =>
    (∀ id, place = .var (.temp id) → vars.typeOf (.temp id) = e.type vars) ∧
      Takes vars (place.type vars) e ∧ e.Fits vars
  | .call c => c.Fits vars
  | .ret (some v) => Accepts vars returnType v
  | _ => True

theorem needsCast_self (t : Ty) : needsCast t t = false := by simp [needsCast]

theorem fits_set {returnType : Ty} {vars : Variables} {id : Nat} {e : Expr}
    (type : vars.typeOf (.temp id) = e.type vars) (fits : e.Fits vars) :
    (Stmt.set (.temp id) e).Fits returnType vars := by
  refine ⟨fun id' same => ?_, .inr ?_, fits⟩
  · cases same
    exact type
  · rw [Place.type, type, needsCast_self]

theorem accepts_of_width {vars : Variables} {t : Ty} {c : Const} (integral : c.isIntegral)
    (width : t.stackType = c.type) : Accepts vars t (.const c) :=
  .inr (.inr (.inl ⟨c, rfl, integral, width.symm⟩))

theorem fits_store {returnType : Ty} {vars : Variables} {place : Place} {e : Expr}
    (takes : Takes vars (place.type vars) e ∧ e.Fits vars)
    (kept : ∀ id, place ≠ .var (.temp id) := by simp) :
    (Stmt.assign place e).Fits returnType vars :=
  ⟨fun id same => absurd same (kept id), takes⟩

theorem takes_coerceExpr (vars : Variables) (v : Value) (t : Ty) :
    Takes vars t (coerceExpr vars v t) := by
  have general : Takes vars t
      (if needsCast (vars.typeOf v) t then .cast v t false false else .value v) := by
    split
    · exact .inr (needsCast_self t)
    · rename_i fits
      exact .inl ⟨v, rfl, .inr (.inr (.inr (Bool.eq_false_iff.mpr fits)))⟩
  simp only [coerceExpr]
  split
  · exact .inl ⟨_, rfl, .inl rfl⟩
  · by_cases bool : t = .bool
    · rw [if_pos bool]
      exact .inl ⟨_, rfl, .inr (.inl ⟨bool, _, rfl⟩)⟩
    · rw [if_neg bool]
      by_cases width : t.stackType = .int32
      · rw [if_pos width]
        exact .inl ⟨_, rfl, accepts_of_width rfl width⟩
      · rw [if_neg width]
        exact general
  · by_cases width : t.stackType = .int64
    · rw [if_pos width]
      exact .inl ⟨_, rfl, accepts_of_width rfl width⟩
    · rw [if_neg width]
      exact general
  · exact general

theorem fits_coerceExpr (vars : Variables) (v : Value) (t : Ty) :
    (coerceExpr vars v t).Fits vars := by
  unfold coerceExpr
  split <;> dsimp only <;> (repeat' split) <;> trivial

namespace Replay

variable {α β : Type}

/-! ## The final table all along -/

structure Poised (final : Variables) (p : Progress) : Prop where
  vars : p.vars = final
  bounded : p.used ≤ p.temps.length
  allocated : Allocated p.vars p.temps
  distinct : p.temps.Nodup

theorem poised_between {table : Variables} {p q r : Progress} (before : Poised table p)
    (after : Poised table r) (grows : Grows p q) (frames : Frames p q) (later : Grows q r)
    (rest : Frames q r) : Poised table q := by
  -- A table that is final before and after is final in between: what was taken in the first part
  -- is not taken again, so a type that changed there would not change back.
  have bounded : q.used ≤ q.temps.length := by
    have := frames.filled before.bounded
    omega
  have located {i id : Nat} (found : q.temps[i]? = some id) : r.temps[i]? = some id := by
    obtain ⟨more, extended⟩ := later.temps
    rw [← extended, List.getElem?_append_left (List.getElem?_eq_some_iff.mp found).1, found]
  have start := before.vars
  have stop := after.vars
  refine ⟨?_, bounded, grows.allocated before.allocated,
    frames.distinct before.allocated before.distinct⟩
  rw [← start]
  refine Variables.eq_of_typeOf_eq grows.locals grows.params grows.merges ?_ fun id => ?_
  · have := grows.allocation
    have := later.allocation
    rw [start] at *
    rw [stop] at *
    omega
  -- A temporary that was taken by then is left alone later; any other was left alone before.
  · by_cases taken : ∃ i, i < q.used ∧ q.temps[i]? = some id
    · obtain ⟨i, used, found⟩ := taken
      have kept := rest.kept bounded (.temp id) fun j id' lower _ here same => by
        cases same
        have := (List.getElem?_inj (List.getElem?_eq_some_iff.mp here).1 after.distinct).mp
          (here.trans (located found).symm)
        omega
      rw [← kept, stop, start]
    · refine frames.kept before.bounded _ fun i id' _ used found same => taken ?_
      cases same
      exact ⟨i, used, found⟩

structure Typed (returnType : Ty) (table : Variables) (given : Prop) (x : Replay α)
    (gives : α → Prop) : Prop extends Framed x where
  fits : given → ∀ p a q, x p = .ok a q → Poised table p → Poised table q →
    (∀ s ∈ p.stmts, s.Fits returnType table) → (∀ s ∈ q.stmts, s.Fits returnType table) ∧ gives a

def anything : α → Prop := fun _ => True

variable {returnType : Ty} {table : Variables} {given : Prop}

namespace Typed

/-! ## Primitive steps -/

theorem bind {x : Replay α} {f : α → Replay β} {middle : α → Prop} {gives : β → Prop}
    (first : Typed returnType table given x middle)
    (rest : ∀ a, Typed returnType table (given ∧ middle a) (f a) gives) :
    Typed returnType table given (x >>= f) gives where
  toFramed := first.toFramed.bind fun a _ => (rest a).toFramed
  fits holds p b r ran before after fit := by
    obtain ⟨a, q, ranFirst, ranRest⟩ := bind_ok ran
    have grows := first.grows p
    have frames := first.frames p
    have later := (rest a).grows q
    have restFrames := (rest a).frames q
    simp only [final, ranFirst, ranRest] at grows frames later restFrames
    have between := poised_between before after grows frames later restFrames
    obtain ⟨fit, gives⟩ := first.fits holds p a q ranFirst before between fit
    exact (rest a).fits ⟨holds, gives⟩ q b r ranRest between after fit

theorem seq {x : Replay α} {f : α → Replay β} {gives : β → Prop}
    (first : Typed returnType table given x anything)
    (rest : ∀ a, Typed returnType table given (f a) gives) :
    Typed returnType table given (x >>= f) gives :=
  first.bind fun a => { rest a with fits := fun holds => (rest a).fits holds.1 }

theorem still {x : Replay α} {gives : α → Prop}
    (leaves : ∀ p, (final x p).vars = p.vars ∧ (final x p).temps = p.temps ∧
      (final x p).used = p.used ∧ (final x p).stmts = p.stmts)
    (result : given → ∀ p a q, x p = .ok a q → p.vars = table → gives a) :
    Typed returnType table given x gives where
  toFramed := .of_eq fun p => ⟨(leaves p).1, (leaves p).2.1, (leaves p).2.2.1⟩
  fits holds p a q ran before _ fit := by
    have same := (leaves p).2.2.2
    simp only [final, ran] at same
    rw [same]
    exact ⟨fit, result holds p a q ran before.vars⟩

theorem ret {gives : α → Prop} {a : α} (holds : given → gives a) :
    Typed returnType table given (pure a) gives :=
  still (fun _ => ⟨rfl, rfl, rfl, rfl⟩) fun facts _ _ _ ran _ => by
    cases ran
    exact holds facts

theorem fail {gives : α → Prop} (e : ReplayError) :
    Typed returnType table given (throw e : Replay α) gives :=
  still (fun _ => ⟨rfl, rfl, rfl, rfl⟩) fun _ _ _ _ ran _ => by cases ran

theorem look {gives : α → Prop} {f : Progress → α} (sees : ∀ p, p.vars = table → gives (f p)) :
    Typed returnType table given (inspect f) gives :=
  still (fun _ => ⟨rfl, rfl, rfl, rfl⟩) fun _ p _ _ ran final => by
    cases ran
    exact sees p final

theorem change {f : Progress → Progress} (leaves : ∀ p, (f p).vars = p.vars ∧
      (f p).temps = p.temps ∧ (f p).used = p.used ∧ (f p).stmts = p.stmts) :
    Typed returnType table given (modify f) anything :=
  still leaves fun _ _ _ _ _ _ => trivial

theorem take {x : Replay α} {gives : α → Prop}
    {f : OperandStack → Except ReplayError (α × OperandStack)}
    (takes : ∀ p, x p = withStack p (f p.stack))
    (result : ∀ stack a rest, f stack = .ok (a, rest) → gives a) :
    Typed returnType table given x gives := by
  refine still (fun p => ?_) fun _ p a q ran _ => ?_
  · simp only [final, takes]
    cases f p.stack <;> exact ⟨rfl, rfl, rfl, rfl⟩
  · rw [takes] at ran
    cases taken : f p.stack with
    | error e => rw [taken] at ran; cases ran
    | ok both =>
        rw [taken] at ran
        cases ran
        exact result _ _ _ taken

theorem pop (i : Instruction Nat) : Typed returnType table given (pop i) anything :=
  take (f := OperandStack.pop i.opcode i.index) (pop_apply i) fun _ _ _ _ => trivial

theorem popMany (i : Instruction Nat) (count : Nat) :
    Typed returnType table given (popMany i count) fun values => values.length = count :=
  take (f := OperandStack.popMany count i.opcode i.index) (popMany_apply i count)
    fun _ _ _ taken => (popMany_eq_ok taken).1

theorem push (v : Value) : Typed returnType table given (push v) anything :=
  change fun _ => ⟨rfl, rfl, rfl, rfl⟩

theorem clear : Typed returnType table given clear anything :=
  change fun _ => ⟨rfl, rfl, rfl, rfl⟩

theorem note (kind : DiagnosticKind) (instruction : Nat) (message : String) :
    Typed returnType table given (note kind instruction message) anything :=
  change fun _ => ⟨rfl, rfl, rfl, rfl⟩

theorem ask (q : Query) : Typed returnType table given (ask q) anything :=
  change fun _ => ⟨rfl, rfl, rfl, rfl⟩

theorem emit {s : Stmt} (fit : given → s.Fits returnType table) :
    Typed returnType table given (emit s) anything where
  toFramed := .of_eq fun _ => ⟨rfl, rfl, rfl⟩
  fits holds p a q ran _ _ fitting := by
    cases ran
    refine ⟨fun s member => ?_, trivial⟩
    rcases List.mem_append.mp member with member | member
    · exact fitting s member
    · rw [List.mem_singleton.mp member]
      exact fit holds

theorem temp (t : Ty) : Typed returnType table given (temp t) fun v =>
    ∃ id, v = .temp id ∧ table.typeOf v = t where
  grows := grows_temp t
  frames := Frames.temp t
  fits _ p v q ran before after fit := by
    obtain ⟨id, vars, temps, made, -, -, -, types⟩ := temp_eq t before.bounded before.allocated
    rw [made] at ran
    cases ran
    refine ⟨fit, id, rfl, ?_⟩
    rw [← show vars = table from after.vars, types, if_pos rfl]

/-! ## Composed steps -/

theorem mono {x : Replay α} {gives stated : α → Prop} (typed : Typed returnType table given x gives)
    (weaker : given → ∀ a, gives a → stated a) : Typed returnType table given x stated where
  toFramed := typed.toFramed
  fits holds p a q ran before after fit :=
    (typed.fits holds p a q ran before after fit).imp_right (weaker holds a)

theorem typeOf (v : Value) :
    Typed returnType table given (typeOf v) fun t => t = table.typeOf v :=
  look (f := fun p => p.vars.typeOf v) fun p final => by rw [final]

theorem define {e : Expr} (fit : given → e.Fits table) :
    Typed returnType table given (define e) fun v => table.typeOf v = e.type table := by
  change Typed returnType table given (inspect (fun p => e.type p.vars) >>= fun t =>
    Replay.temp t >>= fun t => Replay.emit (.set t e) >>= fun _ => pure t) _
  have type : Typed returnType table given (inspect fun p => e.type p.vars)
      fun t => t = e.type table := look fun p final => by rw [final]
  refine type.bind fun t => (temp t).bind fun v => (emit ?_).seq fun _ => ret ?_
  · rintro ⟨⟨holds, rfl⟩, id, rfl, type⟩
    exact fits_set type (fit holds)
  · rintro ⟨⟨-, rfl⟩, -, -, type⟩
    exact type

theorem spill (v : Value) : Typed returnType table given (spill v) anything := by
  change Typed returnType table given (inspect (fun p => p.stack.contains v) >>= fun held =>
    if held then Replay.typeOf v >>= fun t => Replay.temp t >>= fun t =>
      Replay.emit (.set t (.value v)) >>= fun _ =>
        modify fun p => { p with stack := p.stack.replace v t }
    else pure ()) anything
  refine (look fun _ _ => trivial).seq fun held => ?_
  cases held with
  | true =>
      refine (typeOf v).bind fun t => (temp t).bind fun u => (emit ?_).seq fun _ =>
        change fun _ => ⟨rfl, rfl, rfl, rfl⟩
      rintro ⟨⟨-, rfl⟩, id, rfl, type⟩
      exact fits_set type trivial
  | false => exact ret fun _ => trivial

theorem spillAll (values : List Value) :
    Typed returnType table given (values.forM Replay.spill) anything := by
  induction values with
  | nil => exact ret fun _ => trivial
  | cons v values ih => exact (spill v).seq fun _ => ih

theorem spillDeclared : Typed returnType table given spillDeclared anything :=
  (look fun _ _ => trivial).seq fun _ => spillAll _

theorem coerced (v : Value) (dest : Ty) :
    Typed returnType table given (coerced v dest) fun e => Takes table dest e ∧ e.Fits table :=
  look (f := fun p => coerceExpr p.vars v dest) fun p final => by
    rw [final]
    exact ⟨takes_coerceExpr table v dest, fits_coerceExpr table v dest⟩

theorem materialize {t : Ty} {e : Expr} (takes : given → Takes table t e)
    (fit : given → e.Fits table) :
    Typed returnType table given (materialize e) (Accepts table t) := by
  have computed (holds : given) (v : Value) (other : ∀ u, e ≠ .value u)
      (type : table.typeOf v = e.type table) : Accepts table t v := by
    rcases takes holds with ⟨u, same, -⟩ | fits
    · exact absurd same (other u)
    · exact .inr (.inr (.inr (type ▸ fits)))
  cases e with
  | value v =>
      refine ret fun holds => ?_
      rcases takes holds with ⟨u, same, accepts⟩ | fits
      · cases same
        exact accepts
      · exact .inr (.inr (.inr fits))
  | _ => exact (define fit).mono fun holds v => computed holds v (by simp)

theorem reduce {e : Expr} (fit : given → e.Fits table) :
    Typed returnType table given (Replay.materialize e) fun v =>
      needsCast (table.typeOf v) (e.type table) = false := by
  cases e with
  | value v => exact ret fun _ => needsCast_self _
  | _ =>
      refine (define fit).mono fun _ v type => ?_
      rw [type, needsCast_self]

theorem pushExpr {e : Expr} (fit : given → e.Fits table) :
    Typed returnType table given (pushExpr e) anything :=
  ((reduce fit).mono fun _ _ _ => trivial).seq fun v => push v

theorem coerce (v : Value) (dest : Ty) :
    Typed returnType table given (coerce v dest) (Accepts table dest) :=
  (coerced v dest).bind fun _ => materialize (fun facts => facts.2.1) fun facts => facts.2.2

theorem widen (v : Value) (t dest : Ty) :
    Typed returnType table given (widen v t dest) anything := by
  unfold Replay.widen
  split
  · exact (reduce (e := .cast v dest false false) fun _ => trivial).mono fun _ _ _ => trivial
  · exact ret fun _ => trivial

theorem coercePair (left right : Value) :
    Typed returnType table given (coercePair left right) anything := by
  refine (look fun _ _ => trivial).seq fun leftType => (look fun _ _ => trivial).seq
    fun rightType => ?_
  split
  · exact ret fun _ => trivial
  · split
    · exact ret fun _ => trivial
    · split
      · exact ret fun _ => trivial
      · exact (widen _ _ _).seq fun _ => (widen _ _ _).seq fun _ => ret fun _ => trivial

theorem coerceEach (values : List Value) (types : List Ty) :
    Typed returnType table given (coerceEach values types) fun coerced =>
      values.length = types.length → List.Forall₂ (Accepts table) types coerced := by
  fun_induction Replay.coerceEach values types generalizing given with
  | case1 v values t types ih =>
      refine (coerce v t).bind fun first => ih.bind fun rest => ret ?_
      rintro ⟨⟨-, accepts⟩, others⟩ enough
      exact .cons accepts (others (Nat.succ.inj enough))
  | case2 values types short =>
      refine ret fun _ enough => ?_
      cases values with
      | nil =>
          rw [List.length_eq_zero_iff.mp enough.symm]
          exact .nil
      | cons v values =>
          cases types with
          | nil => cases enough
          | cons t types => exact (short v values t types rfl rfl).elim

theorem coerceArgs (m : Method) (args : List Value) (isVirtual : Bool) :
    Typed returnType table given (coerceArgs m args) fun coerced =>
      args.length = m.argCount → Call.Fits table ⟨m, coerced, isVirtual⟩ := by
  unfold Replay.coerceArgs Call.Fits Method.argCount
  dsimp only
  cases m.sig.hasThis with
  | true =>
      cases args with
      | nil => exact ret fun _ enough => by simp at enough
      | cons receiver args =>
          refine (coerceEach args m.sig.params).bind fun rest => ret ?_
          rintro ⟨-, fits⟩ enough
          exact fits (Nat.succ.inj enough)
  | false =>
      rw [if_neg Bool.false_ne_true]
      exact coerceEach args m.sig.params

/-! ## Operands -/

theorem tokenOperand (i : Instruction Nat) :
    Typed returnType table given (tokenOperand i) anything := by
  unfold Replay.tokenOperand
  split
  · exact ret fun _ => trivial
  · exact fail _

theorem targetOperand (i : Instruction Nat) :
    Typed returnType table given (targetOperand i) anything := by
  unfold Replay.targetOperand
  split
  · exact ret fun _ => trivial
  · exact fail _

theorem variableOperand (i : Instruction Nat) (frame : Frame) (implicit : Option UInt16) :
    Typed returnType table given (variableOperand i frame implicit) fun v => v.isDeclared := by
  unfold Replay.variableOperand
  split
  · exact ret fun _ => frame.isDeclared_value _
  · split
    · exact ret fun _ => frame.isDeclared_value _
    · exact fail _

theorem lookUp (q : Query) (found : Found α) (kind : DiagnosticKind) (instruction : Nat)
    (message : String) :
    Typed returnType table given (do
      Replay.ask q
      unless found.resolved do Replay.note kind instruction message
      return found.value) anything := by
  refine (ask q).seq fun _ => ?_
  dsimp only
  split
  · exact ret fun _ => trivial
  · exact (note _ _ _).seq fun _ => ret fun _ => trivial

variable (cx : Context) (i : Instruction Nat)

theorem typeOperand : Typed returnType table given (typeOperand cx i) anything :=
  (tokenOperand i).seq fun _ => lookUp _ _ _ _ _

theorem fieldOperand : Typed returnType table given (fieldOperand cx i) anything :=
  (tokenOperand i).seq fun _ => lookUp _ _ _ _ _

theorem stringOperand : Typed returnType table given (stringOperand cx i) anything :=
  (tokenOperand i).seq fun _ => lookUp _ _ _ _ _

theorem methodOperand : Typed returnType table given (methodOperand cx i) anything := by
  refine (tokenOperand i).seq fun token => (ask _).seq fun _ => ?_
  split
  · exact fail _
  · dsimp only
    split
    · exact ret fun _ => trivial
    · exact (note _ _ _).seq fun _ => ret fun _ => trivial

theorem statedType? (access : AccessType) :
    Typed returnType table given (statedType? cx i access) anything := by
  cases access with
  | operand => exact (typeOperand cx i).seq fun _ => ret fun _ => trivial
  | fixed _ | inferred => exact ret fun _ => trivial

theorem accessedType (stated : Option Ty) (accessed : Value) :
    Typed returnType table given (accessedType stated accessed) anything := by
  cases stated with
  | some t => exact ret fun _ => trivial
  | none => exact (look fun _ _ => trivial).seq fun _ => ret fun _ => trivial

theorem handleTarget : Typed returnType table given (handleTarget cx i) anything := by
  refine (tokenOperand i).seq fun token => ?_
  split
  · exact (fieldOperand cx i).seq fun _ => ret fun _ => trivial
  · split
    · exact (methodOperand cx i).seq fun _ => ret fun _ => trivial
    · exact (typeOperand cx i).seq fun _ => ret fun _ => trivial

/-! ## Groups of actions -/

variable {i} in
theorem storeVariable {v : Value} (declared : given → v.isDeclared) :
    Typed returnType table given (storeVariable i v) anything := by
  refine (pop i).seq fun value => (spill v).seq fun _ => (typeOf v).bind fun t =>
    (coerced value t).bind fun e => emit ?_
  rintro ⟨⟨holds, rfl⟩, takes⟩
  refine fits_store takes fun id same => ?_
  cases same
  cases declared holds

theorem storeThrough (addr value : Value) (stated : Option Ty) :
    Typed returnType table given (storeThrough addr value stated) anything :=
  spillDeclared.seq fun _ => (accessedType stated addr).seq fun t => (coerced value t).bind fun _ =>
    emit fun facts => fits_store facts.2

theorem emitArms (value : Value) (number : Nat) (targets : List Nat) :
    Typed returnType table given (emitArms value number targets) anything := by
  induction targets generalizing number with
  | nil => exact ret fun _ => trivial
  | cons target targets ih =>
      refine Typed.seq (emit ?_) fun _ => ih (number + 1)
      exact fun _ => trivial

theorem emitCall (m : Method) (isVirtual : Bool) :
    Typed returnType table given (emitCall i m isVirtual) anything := by
  refine (popMany i m.argCount).bind fun popped => ?_
  refine (coerceArgs m popped isVirtual).bind fun args => ?_
  dsimp only
  split
  · exact emit fun facts => facts.2 facts.1.2
  · exact pushExpr fun facts => facts.2 facts.1.2

theorem returnValue : Typed returnType table given (returnValue cx i) fun value =>
    ∀ v ∈ value, Accepts table cx.returnType v := by
  unfold Replay.returnValue
  split
  · exact ret fun _ v member => by cases member
  · refine (pop i).seq fun v => (coerce v cx.returnType).bind fun w => ret ?_
    rintro ⟨-, accepts⟩ u same
    cases same
    exact accepts

/-! ## Instructions -/

theorem popPush {e : Value → Expr} (fit : given → ∀ v, (e v).Fits table) :
    Typed returnType table given (do Replay.pushExpr (e (← Replay.pop i))) anything :=
  (pop i).seq fun v => pushExpr fun holds => fit holds v

theorem perform (kept : cx.expandArrays = false) (a : Action) :
    Typed cx.returnType table given (perform cx i a) anything := by
  -- No `Logic` says this: it hands values on, but not the types that they were coerced to.
  cases a with
  | skip => exact ret fun _ => trivial
  | unsupported => exact fail _
  | loadNull => exact push _
  | loadInt32 implicit =>
      cases implicit with
      | some n => exact push _
      | none =>
          simp only [Replay.perform]
          split
          · exact push _
          · exact fail _
  | loadInt64 | loadFloat32 | loadFloat64 =>
      simp only [Replay.perform]
      split
      · exact push _
      · exact fail _
  | loadString => exact (stringOperand cx i).seq fun _ => push _
  | load frame implicit =>
      exact ((variableOperand i frame implicit).mono fun _ _ _ => trivial).seq fun _ => push _
  | store frame implicit =>
      exact (variableOperand i frame implicit).bind fun _ => storeVariable fun facts => facts.2
  | loadAddress frame =>
      refine ((variableOperand i frame none).mono fun _ _ _ => trivial).seq fun v => ?_
      exact (spill v).seq fun _ => pushExpr fun _ => trivial
  | duplicate => exact (pop i).seq fun v => (push v).seq fun _ => push v
  | discard => exact (pop i).seq fun _ => ret fun _ => trivial
  | binary op checked unsigned =>
      refine (pop i).seq fun right => (pop i).seq fun left => ?_
      refine (look fun _ _ => trivial).seq fun _ => (look fun _ _ => trivial).seq fun _ => ?_
      exact pushExpr fun _ => trivial
  | unary op =>
      refine (pop i).seq fun v => (look fun _ _ => trivial).seq fun _ => ?_
      exact pushExpr fun _ => trivial
  | convert dest checked unsigned => exact popPush i fun _ _ => trivial
  | compare op unsigned =>
      refine (pop i).seq fun right => (pop i).seq fun left => ?_
      exact (coercePair left right).seq fun _ => pushExpr fun _ => trivial
  | jump => exact (targetOperand i).seq fun _ => emit fun _ => trivial
  | branchIf op =>
      refine (pop i).seq fun v => (look fun _ _ => trivial).seq fun _ => ?_
      exact (targetOperand i).seq fun _ => emit fun _ => trivial
  | branchOn op unsigned =>
      refine (pop i).seq fun right => (pop i).seq fun left => ?_
      refine (coercePair left right).seq fun _ => (targetOperand i).seq fun _ => ?_
      exact emit fun _ => trivial
  | switch =>
      refine (pop i).seq fun v => ?_
      split
      · exact emitArms v 0 _
      · exact fail _
  | leave => exact clear.seq fun _ => (targetOperand i).seq fun _ => emit fun _ => trivial
  | ret =>
      refine (returnValue cx i).bind fun value => (look fun _ _ => trivial).seq fun p => ?_
      dsimp only
      split
      · refine emit fun facts => ?_
        cases value with
        | none => trivial
        | some v => exact facts.2 v rfl
      · exact fail _
  | throw | endFilter => exact (pop i).seq fun v => clear.seq fun _ => emit fun _ => trivial
  | rethrow => exact clear.seq fun _ => emit fun _ => trivial
  | endFinally =>
      refine clear.seq fun _ => emit fun _ => ?_
      split <;> trivial
  | loadIndirect access =>
      refine (statedType? cx i access).seq fun stated => (pop i).seq fun addr => ?_
      exact (accessedType stated addr).seq fun _ => pushExpr fun _ => trivial
  | storeIndirect access =>
      refine (statedType? cx i access).seq fun stated => (pop i).seq fun value => ?_
      exact (pop i).seq fun addr => storeThrough addr value stated
  | copyObject =>
      refine (typeOperand cx i).seq fun t => (pop i).seq fun source => ?_
      refine (pop i).seq fun destination => ?_
      refine (reduce (e := .deref source t) fun _ => trivial).bind fun copy => ?_
      exact spillDeclared.seq fun _ => emit fun facts => fits_store ⟨.inr facts.2, trivial⟩
  | initObject =>
      refine (typeOperand cx i).seq fun t => (pop i).seq fun addr => spillDeclared.seq fun _ => ?_
      exact emit fun _ => fits_store ⟨.inr (needsCast_self t), trivial⟩
  | loadField => exact (fieldOperand cx i).seq fun f => popPush i fun _ _ => trivial
  | loadFieldAddress =>
      refine (fieldOperand cx i).seq fun f => (pop i).seq fun object => ?_
      exact (look fun _ _ => trivial).seq fun _ => pushExpr fun _ => trivial
  | storeField =>
      refine (fieldOperand cx i).seq fun f => (pop i).seq fun value => (pop i).seq fun object => ?_
      exact (coerced value f.type).bind fun e => emit fun facts => fits_store facts.2
  | loadStatic | loadStaticAddress =>
      exact (fieldOperand cx i).seq fun f => pushExpr fun _ => trivial
  | storeStatic =>
      refine (fieldOperand cx i).seq fun f => (pop i).seq fun value => ?_
      exact (coerced value f.type).bind fun e => emit fun facts => fits_store facts.2
  | arrayLength => exact popPush i fun _ _ => trivial
  | newArray | castClass | isInstance | unbox _ =>
      exact (typeOperand cx i).seq fun t => popPush i fun _ _ => trivial
  | loadElement access =>
      refine (statedType? cx i access).seq fun stated => (pop i).seq fun index => ?_
      refine (pop i).seq fun array => (accessedType stated array).seq fun _ => ?_
      exact pushExpr fun _ => trivial
  | loadElementAddress =>
      refine (typeOperand cx i).seq fun elem => (pop i).seq fun index => ?_
      exact (pop i).seq fun array => pushExpr fun _ => trivial
  | storeElement access =>
      refine (statedType? cx i access).seq fun stated => (pop i).seq fun value => ?_
      refine (pop i).seq fun index => (pop i).seq fun array => ?_
      refine (accessedType stated array).seq fun elem => (coerced value elem).bind fun e => ?_
      exact emit fun facts => fits_store facts.2
  | call isVirtual =>
      rw [perform_call, kept]
      exact (methodOperand cx i).seq fun m => emitCall i m isVirtual
  | newObject =>
      refine (methodOperand cx i).seq fun ctor => (popMany i _).bind fun popped => ?_
      refine (coerceEach popped ctor.sig.params).bind fun args => ?_
      exact pushExpr fun facts => facts.2 facts.1.2
  | loadFunction => exact (methodOperand cx i).seq fun m => pushExpr fun _ => trivial
  | loadVirtualFunction => exact (methodOperand cx i).seq fun m => popPush i fun _ _ => trivial
  | box =>
      refine (typeOperand cx i).seq fun t => (pop i).seq fun v => ?_
      exact (coerce v t).bind fun w => pushExpr fun facts => facts.2
  | sizeOf => exact (typeOperand cx i).seq fun t => pushExpr fun _ => trivial
  | loadHandle => exact (handleTarget cx i).seq fun t => pushExpr fun _ => trivial

theorem performAll (kept : cx.expandArrays = false) (l : Listing) :
    Typed cx.returnType table given (performAll cx l) anything := by
  induction l with
  | nil => exact ret fun _ => trivial
  | cons i rest ih => exact (perform cx i kept _).seq fun _ => ih

theorem replay (kept : cx.expandArrays = false) (l : Listing) (b : Block) :
    Typed cx.returnType table given (b.replay cx l) anything := by
  refine Typed.seq ?_ fun _ => performAll cx kept _
  cases b.exception with
  | none => exact ret fun _ => trivial
  | some t => exact pushExpr fun _ => trivial

end Typed

end Replay

open Replay

/-! ## Blocks -/

/-- Every place that a block gives a value to takes it, by the types that variables have in the
end. -/
theorem replayBlock_fits {cx : Context} {l : Listing} {b : Block} {entry : List Value}
    {s t : Shared} {output : BlockOutput} (kept : cx.expandArrays = false)
    (distinct : s.temps.Nodup) (allocated : Allocated s.vars s.temps)
    (apart : Apart s.vars s.temps entry)
    (ran : replayBlock cx l b entry s = (.ok output, t)) :
    ∀ stmt ∈ output.stmts, stmt.Fits cx.returnType t.vars := by
  have repeats := b.replay_repeats cx l entry
  have grows := repeats.grows (s.begin entry)
  have frames := repeats.frames (s.begin entry)
  have left : t = _ := ran ▸ replayBlock_snd cx l b entry s
  obtain ⟨log, -, again⟩ := replayBlock_repeats [] ran allocated apart
  have poised (p : Progress) (vars : p.vars = t.vars) (temps : p.temps = t.temps)
      (bounded : p.used ≤ p.temps.length) : Poised t.vars p := by
    refine ⟨vars, bounded, ?_, ?_⟩
    · rw [vars, temps, left]
      exact grows.allocated allocated
    · rw [temps, left]
      exact frames.distinct allocated distinct
  -- The repetition starts and ends with the final table, and its statements are those of the block.
  let start : Progress := Shared.begin ⟨t.vars, t.temps, []⟩ entry
  have before : Poised t.vars start := poised start rfl rfl (Nat.zero_le _)
  rw [replayBlock_eq] at again
  cases ended : b.replay cx l start with
  | error e q => simp [start, ended] at again
  | ok u q =>
      have filled := (repeats.frames start).filled before.bounded
      simp only [start, ended, Prod.mk.injEq, Except.ok.injEq, Shared.mk.injEq] at again
      simp only [final, ended] at filled
      obtain ⟨rfl, vars, temps, -⟩ := again
      have after : Poised t.vars q := poised q vars temps (by omega)
      have none : ∀ s ∈ start.stmts, s.Fits cx.returnType t.vars :=
        fun s member => absurd member List.not_mem_nil
      exact ((Typed.replay cx kept l b).fits trivial start u q ended before after none).1

def boxWider : Listing :=
  .ofOps [(.stloc1, .none), (.ldcI4_1, .none), (.stloc0, .none), (.ldarg0, .none),
    (.box, .token ⟨0x02000001⟩), (.ret, .none)]

def boxWiderContext : Context :=
  { Context.blank with
    view := { View.blank with type := fun _ => ⟨.int64, true⟩ }
    returnType := .object }

def boxWiderStart : Shared where
  vars := { locals := [.bool, .string], params := [.int32], temps := [.string, .int32] }
  temps := [1]
  queries := []

def boxWiderEnd : Shared where
  vars := { locals := [.bool, .string], params := [.int32], temps := [.string, .int64, .object] }
  temps := [1, 2]
  queries := [.type ⟨0x02000001⟩]

def boxWiderOutput : BlockOutput where
  stmts :=
    [.assign (.var (.localVar 1)) (.value (.temp 0)),
      .assign (.var (.localVar 0)) (.value (.const (.bool true))),
      .set (.temp 1) (.cast (.param 0) .int64 false false),
      .set (.temp 2) (.box (.temp 1) .int64), .ret (some (.temp 2))]
  exitStack := []
  exitTypes := []
  diagnostics := []

theorem boxWider_fits :
    (boxWiderStart.temps.Nodup ∧ Allocated boxWiderStart.vars boxWiderStart.temps ∧
      Apart boxWiderStart.vars boxWiderStart.temps [.temp 0] ∧
      replayBlock boxWiderContext boxWider ⟨0, 5, [], [], none⟩ [.temp 0] boxWiderStart =
        (.ok boxWiderOutput, boxWiderEnd)) ∧
    ∀ stmt ∈ boxWiderOutput.stmts, stmt.Fits boxWiderContext.returnType boxWiderEnd.vars := by
  have distinct : boxWiderStart.temps.Nodup := by decide
  have allocated : Allocated boxWiderStart.vars boxWiderStart.temps := by
    unfold Allocated
    decide
  have apart : Apart boxWiderStart.vars boxWiderStart.temps [.temp 0] := by
    intro id member
    obtain rfl : id = 0 := by simpa using member
    decide
  have ran : replayBlock boxWiderContext boxWider ⟨0, 5, [], [], none⟩ [.temp 0] boxWiderStart =
      (.ok boxWiderOutput, boxWiderEnd) := by decide +kernel
  have kept : boxWiderContext.expandArrays = false := rfl
  exact ⟨⟨distinct, allocated, apart, ran⟩, replayBlock_fits kept distinct allocated apart ran⟩

end Destack
