import Destack.Proofs.Replay.Values

namespace Destack

namespace Replay

variable {α β : Type}

theorem bind_ok {x : Replay α} {f : α → Replay β} {p r : Progress} {b : β}
    (ran : (x >>= f) p = .ok b r) : ∃ a q, x p = .ok a q ∧ f a q = .ok b r := by
  rw [bind_apply] at ran
  cases first : x p with
  | ok a q =>
      rw [first] at ran
      exact ⟨a, q, rfl, ran⟩
  | error e q =>
      rw [first] at ran
      cases ran

def AddsQuietly (p q : Progress) : Prop :=
  ∃ new, q.stmts = p.stmts ++ new ∧ ∀ s ∈ new, s.mayWrite = false

theorem addsQuietly_of_eq {p q : Progress} (same : q.stmts = p.stmts) : AddsQuietly p q :=
  ⟨[], by rw [same, List.append_nil], by simp⟩

theorem AddsQuietly.trans {p q r : Progress} (first : AddsQuietly p q) (second : AddsQuietly q r) :
    AddsQuietly p r := by
  obtain ⟨new, stmts, quiet⟩ := first
  obtain ⟨more, stmts', quiet'⟩ := second
  refine ⟨new ++ more, by rw [stmts', stmts, List.append_assoc], fun s member => ?_⟩
  exact (List.mem_append.mp member).elim (quiet s) (quiet' s)

def Quiet (x : Replay α) : Prop := ∀ p a q, x p = .ok a q → AddsQuietly p q

def Still (x : Replay α) : Prop :=
  ∀ p a q, x p = .ok a q → q.stack = p.stack ∧ AddsQuietly p q

theorem Still.quiet {x : Replay α} (still : Still x) : Quiet x :=
  fun p a q ran => (still p a q ran).2

theorem Quiet.bind {x : Replay α} {f : α → Replay β} (first : Quiet x)
    (rest : ∀ a, Returns x a → Quiet (f a)) : Quiet (x >>= f) := by
  intro p b r ran
  obtain ⟨a, q, ranFirst, ranRest⟩ := bind_ok ran
  exact (first p a q ranFirst).trans (rest a ⟨p, q, ranFirst⟩ q b r ranRest)

theorem Quiet.seq {x : Replay α} {f : α → Replay β} (first : Quiet x) (rest : ∀ a, Quiet (f a)) :
    Quiet (x >>= f) :=
  first.bind fun a _ => rest a

theorem Still.bind {x : Replay α} {f : α → Replay β} (first : Still x) (rest : ∀ a, Still (f a)) :
    Still (x >>= f) := by
  intro p b r ran
  obtain ⟨a, q, ranFirst, ranRest⟩ := bind_ok ran
  obtain ⟨stack, adds⟩ := first p a q ranFirst
  obtain ⟨stack', adds'⟩ := rest a q b r ranRest
  exact ⟨stack'.trans stack, adds.trans adds'⟩

theorem still_of_eq {x : Replay α}
    (same : ∀ p a q, x p = .ok a q → q.stack = p.stack ∧ q.stmts = p.stmts) : Still x :=
  fun p a q ran => ⟨(same p a q ran).1, addsQuietly_of_eq (same p a q ran).2⟩

theorem still_pure (a : α) : Still (pure a) := still_of_eq (by rintro p a q ⟨⟩; exact ⟨rfl, rfl⟩)

theorem still_throw (e : ReplayError) : Still (throw e : Replay α) := by
  rintro p a q ⟨⟩

theorem still_inspect (f : Progress → α) : Still (inspect f) :=
  still_of_eq (by rintro p a q ⟨⟩; exact ⟨rfl, rfl⟩)

theorem still_note (kind : DiagnosticKind) (instruction : Nat) (message : String) :
    Still (note kind instruction message) :=
  still_of_eq (by rintro p a q ⟨⟩; exact ⟨rfl, rfl⟩)

theorem still_ask (query : Query) : Still (ask query) :=
  still_of_eq (by rintro p a q ⟨⟩; exact ⟨rfl, rfl⟩)

theorem still_temp (t : Ty) : Still (temp t) := still_of_eq fun _ _ _ made => temp_leaves made

theorem still_emit {s : Stmt} (quiet : s.mayWrite = false) : Still (emit s) := by
  rintro p a q ⟨⟩
  exact ⟨rfl, [s], rfl, by simpa using quiet⟩

theorem still_define {e : Expr} (plain : e.isCall = false) : Still (define e) :=
  (still_inspect fun p => e.type p.vars).bind fun t => (still_temp t).bind fun v =>
    (still_emit (s := .set v e) plain).bind fun _ => still_pure v

theorem still_materialize {e : Expr} (plain : e.isCall = false) : Still (materialize e) := by
  cases e with
  | value v => exact still_pure v
  | _ => exact still_define plain

theorem still_typeOf (v : Value) : Still (typeOf v) := still_inspect fun p => p.vars.typeOf v

theorem still_coerced (v : Value) (dest : Ty) : Still (coerced v dest) :=
  still_inspect fun p => coerceExpr p.vars v dest

theorem still_coerce (v : Value) (dest : Ty) : Still (coerce v dest) :=
  fun p a q ran => still_materialize (Logic.isCall_coerceExpr p.vars v dest) p a q ran

theorem still_coerceEach (values : List Value) (types : List Ty) :
    Still (coerceEach values types) := by
  induction values generalizing types with
  | nil => exact still_pure _
  | cons v values ih =>
      cases types with
      | nil => exact still_pure _
      | cons t types =>
          exact (still_coerce v t).bind fun _ => (ih types).bind fun _ => still_pure _

theorem still_coerceArgs (m : Method) (args : List Value) : Still (coerceArgs m args) := by
  unfold coerceArgs
  split
  · cases args with
    | nil => exact still_pure _
    | cons receiver args => exact (still_coerceEach _ _).bind fun _ => still_pure _
  · exact still_coerceEach _ _

section Operands

variable (cx : Context) (i : Instruction Nat)

theorem still_tokenOperand : Still (tokenOperand i) := by
  unfold tokenOperand
  split
  · exact still_pure _
  · exact still_throw _

theorem still_lookUp (query : Query) (found : Found α) (kind : DiagnosticKind)
    (instruction : Nat) (message : String) :
    Still (do
      ask query
      unless found.resolved do note kind instruction message
      return found.value) := by
  refine (still_ask query).bind fun _ => ?_
  dsimp only
  split
  · exact still_pure _
  · exact (still_note _ _ _).bind fun _ => still_pure _

theorem still_typeOperand : Still (typeOperand cx i) :=
  (still_tokenOperand i).bind fun _ => still_lookUp _ _ _ _ _

theorem still_fieldOperand : Still (fieldOperand cx i) :=
  (still_tokenOperand i).bind fun _ => still_lookUp _ _ _ _ _

theorem still_methodOperand : Still (methodOperand cx i) := by
  refine (still_tokenOperand i).bind fun _ => (still_ask _).bind fun _ => ?_
  split
  · exact still_throw _
  · dsimp only
    split
    · exact still_pure _
    · exact (still_note _ _ _).bind fun _ => still_pure _

theorem still_statedType? (access : AccessType) : Still (statedType? cx i access) := by
  cases access with
  | fixed t => exact still_pure _
  | operand => exact (still_typeOperand cx i).bind fun _ => still_pure _
  | inferred => exact still_pure _

theorem still_accessedType (stated : Option Ty) (accessed : Value) :
    Still (accessedType stated accessed) := by
  cases stated with
  | some t => exact still_pure _
  | none => exact (still_typeOf accessed).bind fun _ => still_pure _

end Operands

theorem quiet_push (v : Value) : Quiet (push v) := by
  rintro p a q ⟨⟩
  exact addsQuietly_of_eq rfl

theorem quiet_clear : Quiet clear := by
  rintro p a q ⟨⟩
  exact addsQuietly_of_eq rfl

theorem pop_ok {i : Instruction Nat} {p q : Progress} {v : Value} (ran : pop i p = .ok v q) :
    p.stack = v :: q.stack ∧ q.stmts = p.stmts := by
  rw [pop_apply] at ran
  cases stack : p.stack with
  | nil =>
      rw [stack] at ran
      cases ran
  | cons top rest =>
      rw [stack] at ran
      cases ran
      exact ⟨rfl, rfl⟩

theorem popMany_ok {i : Instruction Nat} {count : Nat} {p q : Progress} {values : List Value}
    (ran : popMany i count p = .ok values q) :
    q.stack = p.stack.drop count ∧ q.stmts = p.stmts := by
  rw [popMany_apply] at ran
  cases taken : p.stack.popMany count i.opcode i.index with
  | error e =>
      rw [taken] at ran
      cases ran
  | ok both =>
      rw [taken] at ran
      cases ran
      obtain ⟨rfl, stack⟩ := popMany_eq_ok taken
      rw [← stack, ← List.length_reverse, List.drop_left]
      exact ⟨rfl, rfl⟩

theorem peekMany_ok {i : Instruction Nat} {count : Nat} {p q : Progress} {values : List Value}
    (ran : peekMany i count p = .ok values q) : q = p := by
  rw [peekMany_apply] at ran
  cases taken : p.stack.popMany count i.opcode i.index with
  | error e =>
      rw [taken] at ran
      cases ran
  | ok both =>
      rw [taken] at ran
      cases ran
      rfl

theorem inspect_ok {f : Progress → α} {p q : Progress} {a : α} (ran : inspect f p = .ok a q) :
    a = f p ∧ q = p := by
  cases ran
  exact ⟨rfl, rfl⟩

theorem quiet_pop (i : Instruction Nat) : Quiet (pop i) :=
  fun _ _ _ ran => addsQuietly_of_eq (pop_ok ran).2

theorem quiet_spill (v : Value) : Quiet (spill v) := by
  intro p a q ran
  obtain ⟨-, rfl⟩ | ⟨-, id, r, made, rfl⟩ := spill_eq_ok ran
  · exact addsQuietly_of_eq rfl
  · exact ⟨[.set (.temp id) (.value v)], congrArg (· ++ _) (temp_leaves made).2, by simp; rfl⟩

def quietly : Logic where
  holds _ _ x _ _ := Quiet x
  admits s := s.mayWrite = false
  quiet plain := plain
  ret _ := (still_pure _).quiet
  bind := Quiet.bind
  fail e := (still_throw e).quiet
  look _ _ := (still_inspect _).quiet
  note _ _ _ := (still_note _ _ _).quiet
  ask q := (still_ask q).quiet
  pop := quiet_pop
  popMany _ _ := fun _ _ _ ran => addsQuietly_of_eq (popMany_ok ran).2
  peekMany _ _ := fun _ _ _ ran => addsQuietly_of_eq (congrArg Progress.stmts (peekMany_ok ran))
  push _ := quiet_push _
  pushDefined _ plain := (still_define (plain (.temp 0))).quiet.seq quiet_push
  double i := (quiet_pop i).seq fun v => (quiet_push v).seq fun _ => quiet_push v
  clear := quiet_clear
  define _ plain := (still_define (plain (.temp 0))).quiet
  spill _ := quiet_spill _
  overwrite _ _ _ plain := (quiet_spill _).seq fun _ => by
    intro p a q ran
    exact (still_emit (plain p)).quiet p a q ran
  emitAll _ _ plain := by
    rintro p a q ⟨⟩
    exact ⟨_, rfl, plain⟩
  leave ends _ := (still_emit (Stmt.mayWrite_of_not_isStraight ends)).quiet
  forget holding := holding
  depart holding := holding

theorem perform_quiet (cx : Context) (i : Instruction Nat) {a : Action}
    (plain : a.mayWrite = false) : Quiet (perform cx i a) :=
  have held : quietly.holds [] .fresh (perform cx i a) nothing (a.shape cx i) :=
    quietly.perform cx i a fun writes => absurd writes (Bool.eq_false_iff.mp plain)
  held

end Replay
end Destack
