import Destack.Proofs.Replay.Trace

namespace Destack

open Replay

namespace Instruction

def Pushes (i : Instruction Nat) (v : Value) : Prop :=
  ∀ (cx : Context) (p : Progress),
    perform cx i i.opcode.action p = .ok () { p with stack := v :: p.stack }

/-- The instruction takes a value from the stack and assigns it to the variable, coerced to the
variable's type, in whatever block and state. -/
structure Stores (i : Instruction Nat) (v : Value) : Prop where
  underflow : ∀ (cx : Context) (p : Progress), p.stack = [] →
    perform cx i i.opcode.action p = .error (.stackUnderflow i.opcode i.index) p
  assign : ∀ (cx : Context) (p : Progress) (top : Value) (rest : OperandStack),
    p.stack = top :: rest → v ∉ rest →
    perform cx i i.opcode.action p = .ok ()
      { p with
        stack := rest
        stmts := p.stmts ++ [.set v (coerceExpr p.vars top (p.vars.typeOf v))] }
  save : ∀ (cx : Context) (p : Progress) (top : Value) (rest : OperandStack),
    p.stack = top :: rest → v ∈ rest →
    ∃ t q, temp (p.vars.typeOf v) { p with stack := rest } = .ok t q ∧
      perform cx i i.opcode.action p = .ok ()
        { q with
          stack := rest.replace v t
          stmts := p.stmts ++
            [.set t (.value v), .set v (coerceExpr q.vars top (p.vars.typeOf v))] }

def accessed? (i : Instruction Nat) (frame : Frame) : Option UInt16 → Option Value
  | some index => some (frame.value index)
  | none =>
    match i.operand with
    | .var index => some (frame.value index)
    | _ => none

theorem isDeclared_of_accessed? {i : Instruction Nat} {frame : Frame} {implicit : Option UInt16}
    {v : Value} (found : i.accessed? frame implicit = some v) : v.isDeclared := by
  obtain ⟨index, offset, size, op, operand⟩ := i
  cases implicit with
  | some n =>
      cases found
      exact frame.isDeclared_value n
  | none =>
      cases operand <;> cases found
      exact frame.isDeclared_value _

theorem accessed?_eq_value {i : Instruction Nat} {frame other : Frame} {implicit : Option UInt16}
    {n : UInt16} :
    i.accessed? frame implicit = some (other.value n) ↔
      frame = other ∧ (implicit = some n ∨ implicit = none ∧ i.operand = .var n) := by
  have injective {m : UInt16} : frame.value m = other.value n ↔ frame = other ∧ m = n := by
    cases frame <;> cases other <;> simp [Frame.value]
  obtain ⟨index, offset, size, op, operand⟩ := i
  cases implicit with
  | some m => simp [accessed?, injective]
  | none => cases operand <;> simp [accessed?, injective]

end Instruction

namespace Action

def pushed? (i : Instruction Nat) : Action → Option Value
  | .loadNull => some (.const (.null .null))
  | .loadInt32 (some n) => some (.const (.int32 n))
  | .loadInt32 none =>
    match i.operand with
    | .int32 n => some (.const (.int32 n))
    | _ => none
  | .loadInt64 =>
    match i.operand with
    | .int64 n => some (.const (.int64 n))
    | _ => none
  | .loadFloat32 =>
    match i.operand with
    | .float32 bits => some (.const (.float32 bits))
    | _ => none
  | .loadFloat64 =>
    match i.operand with
    | .float64 bits => some (.const (.float64 bits))
    | _ => none
  | .load frame implicit => i.accessed? frame implicit
  | _ => none

def stored? (i : Instruction Nat) : Action → Option Value
  | .store frame implicit => i.accessed? frame implicit
  | _ => none

theorem pushed?_eq_int32 {i : Instruction Nat} {a : Action} {n : Int32} :
    a.pushed? i = some (.const (.int32 n)) ↔
      a = .loadInt32 (some n) ∨ a = .loadInt32 none ∧ i.operand = .int32 n := by
  constructor
  · intro pushed
    obtain ⟨index, offset, size, op, operand⟩ := i
    cases a with
    | loadInt32 implicit =>
        cases implicit with
        | some m =>
            cases pushed
            exact .inl rfl
        | none =>
            cases operand <;> cases pushed
            exact .inr ⟨rfl, rfl⟩
    | load frame implicit => cases Instruction.isDeclared_of_accessed? pushed
    | loadInt64 | loadFloat32 | loadFloat64 => cases operand <;> cases pushed
    | _ => cases pushed
  · rintro (rfl | ⟨rfl, named⟩)
    · rfl
    · cases i
      cases named
      rfl

theorem pushed?_eq_value {i : Instruction Nat} {a : Action} {frame : Frame} {n : UInt16} :
    a.pushed? i = some (frame.value n) ↔
      a = .load frame (some n) ∨ a = .load frame none ∧ i.operand = .var n := by
  constructor
  · intro pushed
    cases a with
    | load other implicit =>
        obtain ⟨rfl, named⟩ := Instruction.accessed?_eq_value.mp pushed
        exact named.imp (congrArg _) (And.imp_left (congrArg _))
    | loadInt32 implicit =>
        obtain ⟨index, offset, size, op, operand⟩ := i
        cases frame <;> cases implicit <;> cases operand <;> cases pushed
    | loadInt64 | loadFloat32 | loadFloat64 =>
        obtain ⟨index, offset, size, op, operand⟩ := i
        cases frame <;> cases operand <;> cases pushed
    | _ => cases frame <;> cases pushed
  · rintro (rfl | ⟨rfl, named⟩)
    · rfl
    · cases i
      cases named
      rfl

theorem stored?_eq_some {i : Instruction Nat} {a : Action} {v : Value}
    (stored : a.stored? i = some v) :
    ∃ frame implicit, a = .store frame implicit ∧ i.accessed? frame implicit = some v := by
  cases a with
  | store frame implicit => exact ⟨frame, implicit, rfl, stored⟩
  | _ => cases stored

theorem stored?_eq_value {i : Instruction Nat} {a : Action} {frame : Frame} {n : UInt16} :
    a.stored? i = some (frame.value n) ↔
      a = .store frame (some n) ∨ a = .store frame none ∧ i.operand = .var n := by
  constructor
  · intro stored
    obtain ⟨other, implicit, rfl, accessed⟩ := stored?_eq_some stored
    obtain ⟨rfl, named⟩ := Instruction.accessed?_eq_value.mp accessed
    exact named.imp (congrArg _) (And.imp_left (congrArg _))
  · rintro (rfl | ⟨rfl, named⟩)
    · rfl
    · cases i
      cases named
      rfl

end Action

namespace Replay

theorem variableOperand_eq {i : Instruction Nat} {frame : Frame} {implicit : Option UInt16}
    {v : Value} (found : i.accessed? frame implicit = some v) :
    variableOperand i frame implicit = pure v := by
  obtain ⟨index, offset, size, op, operand⟩ := i
  cases implicit with
  | some n =>
      cases found
      rfl
  | none =>
      cases operand <;> cases found
      rfl

theorem exists_temp (t : Ty) (p : Progress) : ∃ v q, temp t p = .ok v q := by
  cases found : p.temps[p.used]? with
  | some id => exact ⟨_, _, temp_reused t found⟩
  | none => exact ⟨_, _, temp_fresh t found⟩

theorem typeOf_of_temp {t : Ty} {p q : Progress} {v u : Value} (made : temp t p = .ok v q)
    (fixed : u.isFixed) : q.vars.typeOf u = p.vars.typeOf u := by
  have grows := grows_temp t p
  simp only [final, made] at grows
  exact Variables.typeOf_of_isFixed fixed grows.locals grows.params

theorem spill_of_not_mem {v : Value} {p : Progress} (absent : v ∉ p.stack) :
    spill v p = .ok () p := by
  have free : ¬ p.stack.contains v := by rwa [List.contains_iff_mem]
  simp only [spill, get_bind, if_neg free]
  rfl

theorem spill_of_mem {v t : Value} {p q : Progress} (held : v ∈ p.stack)
    (made : temp (p.vars.typeOf v) p = .ok t q) :
    spill v p = .ok ()
      { q with stmts := q.stmts ++ [.set t (.value v)], stack := q.stack.replace v t } := by
  have held : p.stack.contains v := List.contains_iff_mem.mpr held
  simp only [spill, get_bind, if_pos held]
  change (temp (p.vars.typeOf v) >>= fun t => emit (.set t (.value v)) >>= fun _ =>
    modify fun p => { p with stack := p.stack.replace v t }) p = _
  rw [bind_apply, made]
  rfl

theorem storeVariable_cons (i : Instruction Nat) (v : Value) {p : Progress} {top : Value}
    {rest : OperandStack} (stack : p.stack = top :: rest) {q : Progress}
    (spilled : spill v { p with stack := rest } = .ok () q) :
    storeVariable i v p = .ok ()
      { q with stmts := q.stmts ++ [.set v (coerceExpr q.vars top (q.vars.typeOf v))] } := by
  rw [storeVariable, bind_apply, pop_apply, stack]
  dsimp only [OperandStack.pop, withStack]
  rw [bind_apply, spilled]
  rfl

end Replay

namespace Instruction

variable {i : Instruction Nat} {v : Value}

theorem pushes_of_pushed? (pushed : i.opcode.action.pushed? i = some v) : i.Pushes v := by
  intro cx p
  generalize i.opcode.action = a at pushed
  obtain ⟨index, offset, size, op, operand⟩ := i
  cases a with
  | loadNull =>
      cases pushed
      rfl
  | loadInt32 implicit =>
      cases implicit with
      | some n =>
          cases pushed
          rfl
      | none =>
          cases operand <;> cases pushed
          rfl
  | loadInt64 | loadFloat32 | loadFloat64 =>
      cases operand <;> cases pushed
      rfl
  | load frame implicit =>
      rw [perform, variableOperand_eq pushed]
      rfl
  | _ => cases pushed

theorem stores_of_stored? (stored : i.opcode.action.stored? i = some v) : i.Stores v := by
  obtain ⟨frame, implicit, action, accessed⟩ := Action.stored?_eq_some stored
  have declared := isDeclared_of_accessed? accessed
  have performs (cx : Context) : perform cx i i.opcode.action = storeVariable i v := by
    rw [action, perform, variableOperand_eq accessed]
    rfl
  constructor
  · intro cx p empty
    rw [performs, storeVariable, bind_apply, pop_apply, empty]
    rfl
  · intro cx p top rest stack absent
    rw [performs, storeVariable_cons i v stack (spill_of_not_mem absent)]
  · intro cx p top rest stack held
    obtain ⟨t, q, made⟩ := exists_temp (p.vars.typeOf v) { p with stack := rest }
    have type := typeOf_of_temp made (Value.isFixed_of_isDeclared declared)
    obtain ⟨below, before⟩ := temp_leaves made
    refine ⟨t, q, made, ?_⟩
    rw [performs, storeVariable_cons i v stack (spill_of_mem held made)]
    simp only [below, before, type, List.append_assoc, List.cons_append, List.nil_append]

end Instruction

namespace Replay

def blankContext : Context where
  view := ⟨fun _ => ⟨.unknown, true⟩, fun token => ⟨.placeholder token.text, true⟩, fun _ => none,
    fun token => ⟨token.text, true⟩⟩
  returnType := .void
  scopes := []
  expandArrays := false

def blank (stack : OperandStack) : Progress := ⟨{}, [], 0, stack, [], [], []⟩

theorem emitArms_eq (value : Value) (number : Nat) (targets : List Nat) (p : Progress) :
    ∃ arms, emitArms value number targets p = .ok () { p with stmts := p.stmts ++ arms } ∧
      ∀ s ∈ arms, s.isBranch := by
  induction targets generalizing number p with
  | nil => exact ⟨[], by rw [List.append_nil]; rfl, by simp⟩
  | cons target targets ih =>
      obtain ⟨arms, ran, branches⟩ := ih (number + 1)
        { p with stmts := p.stmts ++
          [.branch ⟨.eq, value, .const (.int32 (.ofNat number)), false⟩ target] }
      refine ⟨.branch ⟨.eq, value, .const (.int32 (.ofNat number)), false⟩ target :: arms, ?_,
        List.forall_mem_cons.mpr ⟨rfl, branches⟩⟩
      rw [emitArms, bind_apply]
      refine ran.trans ?_
      simp only [List.append_assoc, List.singleton_append]

theorem loadHandle_blank (i : Instruction Nat) (stack : OperandStack) {q : Progress}
    (ran : perform blankContext i .loadHandle (blank stack) = .ok () q) :
    q.stmts ≠ [] ∧ q.stack ≠ [] := by
  obtain ⟨index, offset, size, op, operand⟩ := i
  cases operand with
  | token token =>
      have target (i : Instruction Nat) (named : i.operand = .token token) :
          handleTarget blankContext i =
            if token.isField then .field <$> fieldOperand blankContext i
            else if token.isMethod then .method <$> methodOperand blankContext i
            else .type <$> typeOperand blankContext i := by
        simp only [handleTarget, tokenOperand, named]
        rfl
      rw [perform, target _ rfl] at ran
      split at ran
      · cases ran
        exact ⟨List.cons_ne_nil _ _, List.cons_ne_nil _ _⟩
      · split at ran <;> cases ran
        all_goals exact ⟨List.cons_ne_nil _ _, List.cons_ne_nil _ _⟩
  | _ => cases ran

theorem pushed?_of_blank {i : Instruction Nat} {a : Action} {v : Value}
    (ran : perform blankContext i a (blank []) = .ok () (blank [v])) : a.pushed? i = some v := by
  -- On an empty stack all other instructions fail, or leave a statement or a query behind, or
  -- push nothing.
  obtain ⟨index, offset, size, op, operand⟩ := i
  cases a with
  | loadNull =>
      cases ran
      rfl
  | loadInt32 implicit | load frame implicit =>
      cases implicit with
      | some n =>
          cases ran
          rfl
      | none =>
          cases operand <;> cases ran
          rfl
  | loadInt64 | loadFloat32 | loadFloat64 =>
      cases operand <;> cases ran
      rfl
  | store frame implicit =>
      cases implicit with
      | some n => cases ran
      | none => cases operand <;> cases ran
  | loadIndirect access | storeIndirect access | loadElement access | storeElement access =>
      cases access with
      | operand => cases operand <;> cases ran
      | _ => cases ran
  | loadHandle =>
      have computed := loadHandle_blank _ [] ran
      exact absurd rfl computed.1
  | _ => cases operand <;> cases ran

theorem stored?_of_blank {i : Instruction Nat} {a : Action} {v : Value} {e : Expr}
    (ran : perform blankContext i a (blank [.const (.null .null)]) =
      .ok () { blank [] with stmts := [.set v e] }) : a.stored? i = some v := by
  obtain ⟨index, offset, size, op, operand⟩ := i
  cases a with
  | store frame implicit =>
      cases implicit with
      | some n =>
          cases frame <;> cases ran <;> rfl
      | none =>
          cases frame <;> cases operand <;> cases ran <;> rfl
  | loadInt32 implicit | load frame implicit =>
      cases implicit with
      | some n => cases ran
      | none => cases operand <;> cases ran
  | loadIndirect access | storeIndirect access | loadElement access | storeElement access =>
      cases access with
      | operand => cases operand <;> cases ran
      | _ => cases ran
  | loadAddress frame => cases frame <;> cases operand <;> cases ran
  | loadHandle =>
      have computed := loadHandle_blank _ _ ran
      exact absurd rfl computed.2
  | switch =>
      cases operand with
      | switch targets =>
          -- However many arms there are, they are branches.
          obtain ⟨arms, emitted, branches⟩ :=
            emitArms_eq (.const (.null .null)) 0 targets (blank [])
          rw [show perform blankContext ⟨index, offset, size, op, .switch targets⟩ .switch
              (blank [.const (.null .null)]) = _ from emitted] at ran
          injection ran with _ same
          have same : [] ++ arms = [.set v e] := congrArg Progress.stmts same
          subst same
          cases branches _ (List.mem_singleton_self _)
      | _ => cases ran
  | _ => cases operand <;> cases ran

end Replay

namespace Instruction

variable {i : Instruction Nat} {v : Value}

theorem pushes_iff : i.Pushes v ↔ i.opcode.action.pushed? i = some v :=
  ⟨fun pushes => pushed?_of_blank (pushes blankContext (blank [])), pushes_of_pushed?⟩

theorem stores_iff : i.Stores v ↔ i.opcode.action.stored? i = some v :=
  ⟨fun stores => stored?_of_blank
    (stores.assign blankContext (blank [.const (.null .null)]) _ [] rfl List.not_mem_nil),
    stores_of_stored?⟩

end Instruction

end Destack
