import Destack.Proofs.Replay.Balance
import Destack.Proofs.Replay.Quiet

namespace Destack

def Diagnostic.isKept (d : Diagnostic) : Bool := d.kind != .patternSkipped

namespace Replay

/-- The values that the call of the method takes in the state `p` can be filled in by stores. -/
def Replaced (i : Instruction Nat) (m : Method) (p : Progress) : Prop :=
  ∃ args rest stores, p.stack.popMany m.argCount i.opcode i.index = .ok (args, rest) ∧
    ArrayData.expand p.stmts p.vars args = .ok stores

theorem tokenOperand_leaves {i : Instruction Nat} {p q : Progress} {token : Token}
    (ran : tokenOperand i p = .ok token q) : q = p := by
  unfold tokenOperand at ran
  cases operand : i.operand <;> rw [operand] at ran <;> cases ran
  rfl

theorem methodOperand_leaves {cx : Context} {i : Instruction Nat} {p q : Progress} {m : Method}
    (ran : methodOperand cx i p = .ok m q) :
    q.stack = p.stack ∧ q.stmts = p.stmts ∧ q.vars = p.vars := by
  obtain ⟨token, p', named, ran⟩ := bind_ok ran
  obtain ⟨_, p'', asked, ran⟩ := bind_ok ran
  rw [tokenOperand_leaves named] at asked
  cases asked
  cases known : cx.view.method? token with
  | none =>
      rw [known] at ran
      cases ran
  | some found =>
      rw [known] at ran
      dsimp only at ran
      split at ran
      · cases ran
        exact ⟨rfl, rfl, rfl⟩
      · cases ran
        exact ⟨rfl, rfl, rfl⟩

theorem Tracked.of_start {α : Type} {keep : Diagnostic → Bool}
    {depths : Nat → Except ReplayError Nat} {notes : List Diagnostic} {p q : Progress}
    {r : EStateM.Result ReplayError Progress α} (tracked : Tracked keep depths notes q r)
    (stack : q.stack.length = p.stack.length)
    (diagnostics : q.diagnostics.filter keep = p.diagnostics.filter keep) :
    Tracked keep depths notes p r := by
  cases tracked with
  | ok depth diagnostics' => exact .ok (stack ▸ depth) (diagnostics ▸ diagnostics')
  | error fails => exact .error (stack ▸ fails)

theorem fillArray_tracked {i : Instruction Nat} {m : Method} {isVirtual : Bool} {p : Progress}
    (silent : Replaced i m p → m.sig.returnType = .void) :
    Tracked Diagnostic.isKept (StackOp.run i (callOps m)) (StackOp.notes (callOps m)) p ((do
      let filled ← fillArray i m
      unless filled do emitCall i m isVirtual) p) := by
  have popped : Tracked Diagnostic.isKept (StackOp.run i [.take m.argCount]) [] p
      (popMany i m.argCount p) := Tracks.popMany i m.argCount p
  rw [popMany_apply] at popped
  rw [bind_apply, fillArray_apply]
  cases taken : p.stack.popMany m.argCount i.opcode i.index with
  | error e =>
      rw [taken] at popped
      cases popped with
      | error fails =>
      refine .error ?_
      rw [callOps, ← List.singleton_append, StackOp.run_append]
      dsimp only
      rw [fails]
      rfl
  | ok both =>
      obtain ⟨args, stack⟩ := both
      rw [taken] at popped
      dsimp only
      cases expanded : ArrayData.expand p.stmts p.vars args with
      | ok stores =>
          -- the stores put nothing, which is a call without a result
          have void := silent ⟨args, stack, stores, taken, expanded⟩
          rw [callOps, if_pos void]
          cases popped with
          | ok depth diagnostics => exact .ok depth diagnostics
      | error reason =>
          -- all that is left of the attempt is a skipped pattern, which is not kept
          have called : Tracks Diagnostic.isKept i (emitCall i m isVirtual) (callOps m) :=
            .emitCall m isVirtual
          refine (called _).of_start rfl ?_
          simp [Diagnostic.isKept]

/-- Where each instruction is reached, a call that is replaced by stores has no result. -/
def ReplacesSilently (cx : Context) (l : Listing) (b : Block) (entry : List Value) (s : Shared) :
    Prop :=
  ∀ n i p isVirtual m, (b.instructions l)[n]? = some i →
    replayAll cx b.exception ((b.instructions l).take n) (s.begin entry) = .ok () p →
    i.opcode.action = .call isVirtual → cx.view.called? i = some m → m.fillsArray →
    Replaced i m p → m.sig.returnType = .void

theorem perform_tracked {cx : Context} {i : Instruction Nat} {p : Progress}
    (silent : ∀ isVirtual m, i.opcode.action = .call isVirtual → cx.view.called? i = some m →
      m.fillsArray → Replaced i m p → m.sig.returnType = .void) :
    Tracked Diagnostic.isKept (StackOp.run i (i.opcode.action.stackOps cx.view cx.returnType i))
      (StackOp.notes (i.opcode.action.stackOps cx.view cx.returnType i)) p
      (perform cx i i.opcode.action p) := by
  by_cases offered : ∃ isVirtual m, i.opcode.action = .call isVirtual ∧
      cx.view.called? i = some m ∧ (cx.expandArrays && m.fillsArray) = true
  · obtain ⟨isVirtual, m, action, named, fills⟩ := offered
    have fillsArray : m.fillsArray := (Bool.and_eq_true_iff.mp fills).2
    have called : cx.view.called? i = some m := named
    rw [action, Action.stackOps, called, StackOp.notes_append, StackOp.run_append]
    refine (Tracks.methodOperand cx p).bind fun m' q ran => ?_
    obtain rfl : m' = m := by
      have named' := Logic.method_of_returns ⟨p, q, ran⟩
      rw [named] at named'
      exact (Option.some.inj named').symm
    rw [if_pos fills]
    refine fillArray_tracked fun replaced => silent isVirtual m' action named fillsArray ?_
    obtain ⟨stack, stmts, vars⟩ := methodOperand_leaves ran
    unfold Replaced at replaced ⊢
    rwa [stack, stmts, vars] at replaced
  · refine Tracks.perform cx _ (fun isVirtual m action named => ?_) p
    by_contra fills
    exact offered ⟨isVirtual, m, action, named, by simpa using fills⟩

end Replay

open Replay

inductive EndsAlike : Except ReplayError BlockOutput → Except ReplayError BlockOutput → Prop
  | ok {filled kept : BlockOutput} (depth : filled.exitStack.length = kept.exitStack.length)
      (diagnostics : kept.diagnostics = filled.diagnostics.filter Diagnostic.isKept) :
      EndsAlike (.ok filled) (.ok kept)
  | error (e : ReplayError) : EndsAlike (.error e) (.error e)

theorem notesOf_isKept (view : View) (returnType : Ty) (l : Listing) :
    (notesOf view returnType l).filter Diagnostic.isKept = notesOf view returnType l := by
  rw [List.filter_eq_self]
  intro d noted
  obtain ⟨i, -, noted⟩ := List.mem_flatMap.mp noted
  obtain ⟨op, made, noted⟩ := List.mem_filterMap.mp noted
  have fits := List.all_eq_true.mp (stackOps_fits view returnType i i.opcode.action) op made
  cases op with
  | note d' =>
      cases noted
      exact fits
  | _ => cases noted

/-- Replacing calls that fill arrays by stores changes neither whether and how the replay of a block
fails nor the depth of the stack that it leaves, as long as no call is replaced that has a result.
The diagnostics without it are those with it but for the patterns that were skipped. -/
theorem replayBlock_filling (cx : Context) (l : Listing) (b : Block) (entry : List Value)
    (s : Shared) (silent : ReplacesSilently { cx with expandArrays := true } l b entry s) :
    EndsAlike (replayBlock { cx with expandArrays := true } l b entry s).1
      (replayBlock { cx with expandArrays := false } l b entry s).1 := by
  have filled := replayBlock_ended Diagnostic.isKept fun n i p located reached =>
    perform_tracked fun isVirtual m => silent n i p isVirtual m located reached
  have kept := replayBlock_ended_of_kept (fun _ => true) { cx with expandArrays := false } rfl l b
    entry s
  generalize (replayBlock { cx with expandArrays := true } l b entry s).1 = r at filled
  generalize (replayBlock { cx with expandArrays := false } l b entry s).1 = r' at kept
  cases filled with
  | ok left diagnostics =>
      cases kept with
      | ok left' diagnostics' =>
          refine .ok (Except.ok.inj (left.symm.trans left')) ?_
          rw [notesOf_isKept] at diagnostics
          rw [List.filter_true, List.filter_true] at diagnostics'
          exact diagnostics'.trans diagnostics.symm
      | error fails => cases left.symm.trans fails
  | error fails =>
      cases kept with
      | ok left diagnostics => cases fails.symm.trans left
      | error fails' =>
          cases fails.symm.trans fails'
          exact .error _

def fillOnce : Listing :=
  .ofOps [(.ldcI4_1, .none), (.newarr, .token ⟨0x02000001⟩), (.ldtoken, .token ⟨0x04000001⟩),
    (.call, .token ⟨0x0a000001⟩), (.ret, .none)]

def fillMethod (result : Ty) : Method where
  name := "InitializeArray"
  declaringType := .classType "RuntimeHelpers" []
  sig := ⟨false, [.array .int32, .handle], result⟩

def fillContext (result : Ty) : Context :=
  { Context.blank with
    view := { View.blank with
      type := fun _ => ⟨.int32, true⟩
      field := fun _ => ⟨⟨"zero", .object, .unknown, true, some [0, 0, 0, 0], false⟩, true⟩
      method? := fun _ => some ⟨fillMethod result, true⟩ }
    expandArrays := true }

def fillBlock : Block := ⟨0, 4, [], [], none⟩

theorem fillOnce_alike :
    ReplacesSilently { fillContext .void with expandArrays := true } fillOnce fillBlock []
        ⟨{}, [], []⟩ ∧
      (replayBlock { fillContext .void with expandArrays := true } fillOnce fillBlock []
        ⟨{}, [], []⟩).1.map (·.stmts[2]?) =
          .ok (some (ArrayData.store (.temp 0) .int32 0 (.int32 0))) ∧
      EndsAlike
        (replayBlock { fillContext .void with expandArrays := true } fillOnce fillBlock []
          ⟨{}, [], []⟩).1
        (replayBlock { fillContext .void with expandArrays := false } fillOnce fillBlock []
          ⟨{}, [], []⟩).1 := by
  have silent : ReplacesSilently { fillContext .void with expandArrays := true } fillOnce fillBlock
      [] ⟨{}, [], []⟩ := by
    intro n i p isVirtual m _ _ _ named _ _
    obtain ⟨token, -, named⟩ := Option.bind_eq_some_iff.mp named
    cases named
    rfl
  exact ⟨silent, by decide +kernel, replayBlock_filling (fillContext .void) fillOnce fillBlock []
    ⟨{}, [], []⟩ silent⟩

/-- A call with a result: its replay with stores ends with an empty stack, and the result is left on
the stack if it is kept. -/
theorem fillOnce_unlike :
    (replayBlock { fillContext .int32 with expandArrays := true } fillOnce fillBlock []
        ⟨{}, [], []⟩).1.map (·.exitStack) = .ok [] ∧
      (replayBlock { fillContext .int32 with expandArrays := false } fillOnce fillBlock []
        ⟨{}, [], []⟩).1 = .error (.unbalancedStack .ret 4 1) := by
  constructor <;> decide +kernel

end Destack
