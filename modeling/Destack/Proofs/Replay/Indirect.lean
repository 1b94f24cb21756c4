import Destack.Proofs.Replay.Quiet

namespace Destack

def Place.writesThrough (vars : Variables) : Place → Bool
  | .deref .. => true
  | .field object _ => (vars.typeOf object).isPointer
  | _ => false

def Expr.handsAddress (vars : Variables) : Expr → Bool
  | .call c => c.args.any fun v => (vars.typeOf v).isPointer
  | .newObject _ args => args.any fun v => (vars.typeOf v).isPointer
  | _ => false

def Stmt.writesThrough (vars : Variables) : Stmt → Bool
  | .assign place e => place.writesThrough vars || e.handsAddress vars
  | .call c => (Expr.call c).handsAddress vars
  | _ => false

def Stmt.isDerefStore : Stmt → Bool
  | .assign (.deref ..) _ => true
  | _ => false

theorem Stmt.mayWrite_of_writesThrough {vars : Variables} {s : Stmt}
    (writes : s.writesThrough vars = true) : s.mayWrite = true := by
  cases s with
  | assign place e =>
      cases place <;> first
        | rfl
        | (cases e <;> first | rfl | cases writes)
  | call c => rfl
  | _ => cases writes

theorem Stmt.not_isDerefStore_of_not_mayWrite {s : Stmt} (quiet : s.mayWrite = false) :
    s.isDerefStore = false := by
  cases s with
  | assign place e => cases place <;> first | rfl | cases quiet
  | _ => rfl

namespace Replay

theorem spill_ok {v w : Value} {p q : Progress} {u : Unit} (ran : spill v p = .ok u q)
    (held : w ∈ q.stack) (declared : w.isDeclared = true) : w ∈ p.stack ∧ w ≠ v := by
  obtain ⟨gone, rfl⟩ | ⟨-, id, r, made, rfl⟩ := spill_eq_ok ran
  · exact ⟨held, fun same => gone (same ▸ held)⟩
  · obtain ⟨old, there, same⟩ := List.mem_map.mp held
    rw [(temp_leaves made).1] at there
    split at same
    · rw [← same] at declared
      cases declared
    · rename_i other
      rw [← same]
      exact ⟨there, other⟩

theorem spillAll_ok {values : List Value} {w : Value} {p q : Progress} {u : Unit}
    (ran : values.forM spill p = .ok u q) (held : w ∈ q.stack) (declared : w.isDeclared = true) :
    w ∈ p.stack ∧ w ∉ values := by
  induction values generalizing p with
  | nil =>
      cases ran
      exact ⟨held, List.not_mem_nil⟩
  | cons v values ih =>
      obtain ⟨_, r, first, rest⟩ := bind_ok ran
      obtain ⟨between, absent⟩ := ih rest
      obtain ⟨before, different⟩ := spill_ok first between declared
      refine ⟨before, fun member => ?_⟩
      exact (List.mem_cons.mp member).elim different absent

theorem quiet_spillAll (values : List Value) : Quiet (values.forM spill) := by
  induction values with
  | nil => exact (still_pure ()).quiet
  | cons v values ih => exact (quiet_spill v).seq fun _ => ih

theorem spillDeclared_ok {p q : Progress} {u : Unit} (ran : spillDeclared p = .ok u q) :
    (∀ v ∈ q.stack, v.isDeclared = false) ∧ AddsQuietly p q := by
  let found := distinct (p.stack.slots.filter (·.isDeclared))
  have ran : found.forM spill p = .ok u q := ran
  refine ⟨fun v held => ?_, quiet_spillAll found p u q ran⟩
  -- A declared variable that is left was there before, so it was among those that are moved.
  rw [← Bool.not_eq_true]
  intro declared
  obtain ⟨before, absent⟩ := spillAll_ok ran held declared
  refine absent (mem_distinct.mpr (List.mem_filter.mpr ⟨?_, declared⟩))
  exact List.mem_reverse.mpr before

inductive Written (rest : OperandStack) (p q : Progress) : Prop
  | nothing (quiet : AddsQuietly p q)
  | through (new : List Stmt) (stmts : q.stmts = p.stmts ++ new)
      (stores : ∀ s ∈ new, s.mayWrite = true → s.isDerefStore = true)
      (spilled : ∀ v ∈ q.stack, v.isDeclared = false)
  | beside (new : List Stmt) (stmts : q.stmts = p.stmts ++ new)
      (others : ∀ s ∈ new, s.isDerefStore = false) (added : List Value)
      (stack : q.stack = added ++ rest)

section Written

variable {cx : Context} {i : Instruction Nat} {p q r : Progress} {rest : OperandStack} {u : Unit}

theorem written_deref {addr : Value} {t : Ty} {e : Expr} (quiet : AddsQuietly p r)
    (spilled : ∀ v ∈ r.stack, v.isDeclared = false)
    (ran : emit (.assign (.deref addr t) e) r = .ok u q) : Written rest p q := by
  obtain ⟨new, stmts, plain⟩ := quiet
  cases ran
  refine .through (new ++ [.assign (.deref addr t) e]) ?_ (fun s member writes => ?_) spilled
  · rw [← List.append_assoc, ← stmts]
  · rcases List.mem_append.mp member with old | last
    · rw [plain s old] at writes
      cases writes
    · rw [List.mem_singleton.mp last]
      rfl

theorem written_beside {s : Stmt} (added : List Value) (quiet : AddsQuietly p r)
    (other : s.isDerefStore = false) (stmts : q.stmts = r.stmts ++ [s])
    (stack : q.stack = added ++ rest) : Written rest p q := by
  obtain ⟨new, before, plain⟩ := quiet
  refine .beside (new ++ [s]) ?_ (fun s' member => ?_) added stack
  · rw [stmts, before, List.append_assoc]
  · rcases List.mem_append.mp member with old | last
    · exact Stmt.not_isDerefStore_of_not_mayWrite (plain s' old)
    · rw [List.mem_singleton.mp last]
      exact other

theorem storeThrough_written {addr value : Value} {stated : Option Ty} (quiet : AddsQuietly p r)
    (ran : storeThrough addr value stated r = .ok u q) : Written rest p q := by
  obtain ⟨_, r₁, spilt, ran⟩ := bind_ok ran
  obtain ⟨spilled, adds⟩ := spillDeclared_ok spilt
  obtain ⟨t, r₂, accessed, ran⟩ := bind_ok ran
  obtain ⟨stack, adds'⟩ := still_accessedType _ _ _ _ _ accessed
  obtain ⟨e, r₃, coerced, ran⟩ := bind_ok ran
  obtain ⟨stack', adds''⟩ := still_coerced _ _ _ _ _ coerced
  refine written_deref (quiet.trans (adds.trans (adds'.trans adds''))) ?_ ran
  rw [stack', stack]
  exact spilled

theorem pushExpr_ok {e : Expr} (calls : e.isCall = true) (ran : pushExpr e p = .ok u q) :
    ∃ id, q.stack = .temp id :: p.stack ∧ q.stmts = p.stmts ++ [.set (.temp id) e] := by
  obtain ⟨v, r, made, pushed⟩ := bind_ok ran
  have defined : define e p = .ok v r := by
    cases e with
    | value v => cases calls
    | _ => exact made
  obtain ⟨id, r', rfl, made', rfl⟩ := define_eq_ok defined
  obtain ⟨stack, stmts⟩ := temp_leaves made'
  cases pushed
  exact ⟨id, congrArg (_ :: ·) stack, congrArg (· ++ _) stmts⟩

theorem emitCall_written {m : Method} {isVirtual : Bool} (quiet : AddsQuietly p r)
    (ran : emitCall i m isVirtual r = .ok u q) : Written (r.stack.drop m.argCount) p q := by
  obtain ⟨popped, r₁, taken, ran⟩ := bind_ok ran
  obtain ⟨below, same⟩ := popMany_ok taken
  obtain ⟨args, r₂, coerced, ran⟩ := bind_ok ran
  obtain ⟨stack, adds⟩ := still_coerceArgs _ _ _ _ _ coerced
  have before := quiet.trans ((addsQuietly_of_eq same).trans adds)
  dsimp only at ran
  split at ran
  · cases ran
    exact written_beside [] before rfl rfl (stack.trans below)
  · obtain ⟨id, pushed, stmts⟩ := pushExpr_ok rfl ran
    refine written_beside [.temp id] before rfl stmts ?_
    rw [pushed, stack, below]
    rfl

theorem offerCall_written {m : Method} {isVirtual : Bool} (quiet : AddsQuietly p r)
    (ran : offerCall i m isVirtual r = .ok u q) : Written (r.stack.drop m.argCount) p q := by
  obtain ⟨args, r₁, peeked, ran⟩ := bind_ok ran
  obtain ⟨outcome, r₂, looked, ran⟩ := bind_ok ran
  obtain ⟨expanded, same⟩ := inspect_ok looked
  rw [same, peekMany_ok peeked] at ran
  cases outcome with
  | ok stores =>
      obtain ⟨_, r₃, taken, ran⟩ := bind_ok ran
      cases ran
      have elements : ∀ s ∈ stores, s.mayWrite = false := by
        intro s stored
        obtain ⟨array, -, elem, n, c, rfl⟩ := ArrayData.mem_expand expanded.symm stored
        rfl
      exact .nothing (quiet.trans ((addsQuietly_of_eq (popMany_ok taken).2).trans
        ⟨stores, rfl, elements⟩))
  | error reason =>
      obtain ⟨_, r₃, noted, ran⟩ := bind_ok ran
      obtain ⟨stack, adds⟩ := still_note _ _ _ _ _ _ noted
      rw [← stack]
      exact emitCall_written (quiet.trans adds) ran

theorem perform_written {a : Action} (ran : perform cx i a p = .ok () q) :
    Written ((a.shape cx i).rest p.stack) p q := by
  cases plain : a.mayWrite with
  | false => exact .nothing (perform_quiet cx i plain p () q ran)
  | true =>
      cases a with
      | storeIndirect access =>
          obtain ⟨stated, r₁, named, ran⟩ := bind_ok ran
          obtain ⟨value, r₂, first, ran⟩ := bind_ok ran
          obtain ⟨addr, r₃, second, ran⟩ := bind_ok ran
          have quiet := (still_statedType? cx i access).quiet p stated r₁ named
          exact storeThrough_written (quiet.trans ((quiet_pop i _ _ _ first).trans
            (quiet_pop i _ _ _ second))) ran
      | copyObject =>
          obtain ⟨t, r₁, named, ran⟩ := bind_ok ran
          obtain ⟨source, r₂, first, ran⟩ := bind_ok ran
          obtain ⟨destination, r₃, second, ran⟩ := bind_ok ran
          obtain ⟨copy, r₄, copied, ran⟩ := bind_ok ran
          obtain ⟨_, r₅, spilt, ran⟩ := bind_ok ran
          obtain ⟨spilled, adds⟩ := spillDeclared_ok spilt
          have quiet := (still_typeOperand cx i).quiet p t r₁ named
          have copies := (still_materialize (e := .deref source t) rfl).quiet r₃ copy r₄ copied
          exact written_deref (quiet.trans ((quiet_pop i _ _ _ first).trans
            ((quiet_pop i _ _ _ second).trans (copies.trans adds)))) spilled ran
      | initObject =>
          obtain ⟨t, r₁, named, ran⟩ := bind_ok ran
          obtain ⟨addr, r₂, first, ran⟩ := bind_ok ran
          obtain ⟨_, r₃, spilt, ran⟩ := bind_ok ran
          obtain ⟨spilled, adds⟩ := spillDeclared_ok spilt
          have quiet := (still_typeOperand cx i).quiet p t r₁ named
          exact written_deref (quiet.trans ((quiet_pop i _ _ _ first).trans adds)) spilled ran
      | storeField =>
          obtain ⟨f, r₁, named, ran⟩ := bind_ok ran
          obtain ⟨stack, quiet⟩ := still_fieldOperand cx i p f r₁ named
          obtain ⟨value, r₂, first, ran⟩ := bind_ok ran
          obtain ⟨object, r₃, second, ran⟩ := bind_ok ran
          obtain ⟨e, r₄, coerced, ran⟩ := bind_ok ran
          obtain ⟨stack', adds⟩ := still_coerced _ _ _ _ _ coerced
          cases ran
          refine written_beside [] (quiet.trans ((quiet_pop i _ _ _ first).trans
            ((quiet_pop i _ _ _ second).trans adds))) rfl rfl ?_
          change r₄.stack = p.stack.drop 2
          rw [← stack, (pop_ok first).1, (pop_ok second).1, stack']
          rfl
      | call isVirtual =>
          rw [perform_call] at ran
          obtain ⟨m, r, named, ran⟩ := bind_ok ran
          obtain ⟨stack, quiet⟩ := still_methodOperand cx i p m r named
          have rest : (Action.shape cx i (.call isVirtual)).rest p.stack =
              r.stack.drop m.argCount := by
            simp only [Action.shape, Logic.method_of_returns ⟨p, r, named⟩, Option.map_some,
              Option.getD_some, callShape, stack]
            split <;> rfl
          rw [rest]
          split at ran
          · exact offerCall_written quiet ran
          · exact emitCall_written quiet ran
      | newObject =>
          obtain ⟨m, r₁, named, ran⟩ := bind_ok ran
          obtain ⟨stack, quiet⟩ := still_methodOperand cx i p m r₁ named
          obtain ⟨popped, r₂, taken, ran⟩ := bind_ok ran
          obtain ⟨below, same⟩ := popMany_ok taken
          obtain ⟨args, r₃, coerced, ran⟩ := bind_ok ran
          obtain ⟨stack', adds⟩ := still_coerceEach _ _ _ _ _ coerced
          obtain ⟨id, pushed, stmts⟩ := pushExpr_ok rfl ran
          refine written_beside [.temp id] (quiet.trans ((addsQuietly_of_eq same).trans adds)) rfl
            stmts ?_
          simp only [Action.shape, Logic.method_of_returns ⟨p, r₁, named⟩, Option.map_some,
            Option.getD_some, Shape.rest]
          rw [pushed, stack', below, stack]
          rfl
      | _ => cases plain

end Written

/-- The slots that an instruction of the given shape leaves on the stack. -/
def keptSlots (s : Shape) (before after : OperandStack) : List Value :=
  after.drop (newSlots s before after).length

/-- A replay of the block comes to the instruction `i` in the state `p`, and gets to `q` by it. -/
structure Passes (cx : Context) (l : Listing) (b : Block) (entry : List Value) (s : Shared)
    (i : Instruction Nat) (p q : Progress) : Prop where
  reached : ∃ n, (b.instructions l)[n]? = some i ∧
    replayAll cx b.exception ((b.instructions l).take n) (s.begin entry) = .ok () p
  performed : perform cx i i.opcode.action p = .ok () q

theorem keptSlots_of_eq {s : Shape} {before after : OperandStack} {added : List Value}
    (stack : after = added ++ s.rest before) : keptSlots s before after = s.rest before := by
  have new : newSlots s before after = added := by
    rw [newSlots, stack, List.length_append, Nat.add_sub_cancel, List.take_left]
  rw [keptSlots, new, stack, List.drop_left]

end Replay

open Replay

/-- After a statement that writes through an address no slot that was there before holds a declared
variable, if the statement is a store to what an address points to. After a store to a field, a call
and a construction this is so only if none did before. -/
theorem kept_slots_undeclared {cx : Context} {l : Listing} {b : Block} {entry : List Value}
    {s : Shared} {i : Instruction Nat} {p q : Progress} (passes : Passes cx l b entry s i p q) :
    ∃ new, q.stmts = p.stmts ++ new ∧ ∀ stmt ∈ new, stmt.writesThrough q.vars = true →
      ((∀ v ∈ keptSlots (i.opcode.action.shape cx i) p.stack q.stack, v.isDeclared = false) ↔
        stmt.isDerefStore = true ∨
          ∀ v ∈ (i.opcode.action.shape cx i).rest p.stack, v.isDeclared = false) := by
  cases perform_written passes.performed with
  | nothing quiet =>
      obtain ⟨new, stmts, plain⟩ := quiet
      refine ⟨new, stmts, fun stmt member writes => ?_⟩
      have may := Stmt.mayWrite_of_writesThrough writes
      rw [plain stmt member] at may
      cases may
  | through new stmts stores spilled =>
      refine ⟨new, stmts, fun stmt member writes => ?_⟩
      have store := stores stmt member (Stmt.mayWrite_of_writesThrough writes)
      exact iff_of_true (fun v kept => spilled v (List.mem_of_mem_drop kept)) (.inl store)
  | beside new stmts others added stack =>
      refine ⟨new, stmts, fun stmt member _ => ?_⟩
      rw [keptSlots_of_eq stack, others stmt member]
      simp

def borrow : Listing :=
  .ofOps [(.ldlocaS, .var 0), (.stloc1, .none), (.ldloc0, .none), (.ldloc1, .none),
    (.ldcI4_1, .none), (.stfld, .token ⟨0x04000001⟩), (.ldloc1, .none),
    (.initobj, .token ⟨0x02000001⟩)]

def borrowed : Ty := .structType "S" []

def borrowContext : Context :=
  { Context.blank with
    view := { View.blank with
      type := fun _ => ⟨borrowed, true⟩
      field := fun _ => ⟨⟨"f", borrowed, .int32, false, none, false⟩, true⟩ } }

def borrowShared : Shared := ⟨{ locals := [borrowed, .byRef borrowed] }, [], []⟩

def borrowLoaded : Progress where
  vars := { locals := [borrowed, .byRef borrowed], temps := [.byRef borrowed] }
  temps := [0]
  used := 1
  stack := [.const (.int32 1), .localVar 1, .localVar 0]
  stmts := [.set (.temp 0) (.addrOf (.localVar 0)), .set (.localVar 1) (.value (.temp 0))]
  diagnostics := []
  queries := []

def borrowStored : Progress :=
  { borrowLoaded with
    stack := [.localVar 0]
    stmts := borrowLoaded.stmts ++
      [.assign (.field (.localVar 1) ⟨"f", borrowed, .int32, false, none, false⟩)
        (.value (.const (.int32 1)))]
    queries := [.field ⟨0x04000001⟩] }

def borrowReloaded : Progress := { borrowStored with stack := [.localVar 1, .localVar 0] }

theorem borrow_undeclared :
    ∃ i q, Passes borrowContext borrow ⟨0, 7, [], [], none⟩ [] borrowShared i borrowReloaded q ∧
      q.stack = [.temp 1] ∧ ∃ new, q.stmts = borrowReloaded.stmts ++ new ∧
        ∀ stmt ∈ new, stmt.writesThrough q.vars = true →
          ((∀ v ∈ keptSlots (i.opcode.action.shape borrowContext i) borrowReloaded.stack q.stack,
              v.isDeclared = false) ↔ stmt.isDerefStore = true ∨
            ∀ v ∈ (i.opcode.action.shape borrowContext i).rest borrowReloaded.stack,
              v.isDeclared = false) :=
  have passes : Passes borrowContext borrow ⟨0, 7, [], [], none⟩ [] borrowShared _
      borrowReloaded _ := ⟨⟨7, rfl, rfl⟩, rfl⟩
  ⟨_, _, passes, rfl, kept_slots_undeclared passes⟩

/-- When the field is stored to, the variable itself stays on the stack. -/
theorem borrow_stale :
    ∃ i, Passes borrowContext borrow ⟨0, 7, [], [], none⟩ [] borrowShared i borrowLoaded
        borrowStored ∧
      ∃ stmt, borrowStored.stmts = borrowLoaded.stmts ++ [stmt] ∧
        stmt.writesThrough borrowStored.vars = true ∧
        .localVar 0 ∈ keptSlots (i.opcode.action.shape borrowContext i) borrowLoaded.stack
          borrowStored.stack := by
  refine ⟨_, ⟨⟨5, rfl, rfl⟩, rfl⟩, _, rfl, rfl, ?_⟩
  decide

end Destack
