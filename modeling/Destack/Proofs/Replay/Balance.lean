import Destack.Proofs.Replay.Depth
import Destack.Proofs.Replay.Values

namespace Destack

namespace StackOp

def taken : StackOp → Nat
  | .take count => count
  | _ => 0

def pops (ops : List StackOp) : Nat := (ops.map taken).sum

def pushes (ops : List StackOp) : Nat := ops.count .put

def fits (clears : Bool) : StackOp → Bool
  | .clear => clears
  | .note d => d.kind != .patternSkipped
  | .fail (.diverged ..) => false
  | _ => true

theorem run_cons (i : Instruction Nat) (op : StackOp) (ops : List StackOp) (depth : Nat) :
    run i (op :: ops) depth = step i depth op >>= run i ops :=
  rfl

theorem step_balance {i : Instruction Nat} {op : StackOp} {depth after : Nat}
    (fits : op.fits false) (ran : step i depth op = .ok after) :
    after + op.taken = depth + pushes [op] := by
  cases op with
  | take count =>
      simp only [step] at ran
      split at ran
      · rename_i enough
        cases ran
        exact Nat.sub_add_cancel enough
      · cases ran
  | put =>
      cases ran
      rfl
  | clear => cases fits
  | drain =>
      -- it succeeds only on an empty stack, which it leaves so
      simp only [step] at ran
      split at ran
      · rename_i empty
        cases ran
        rw [empty]
        rfl
      · cases ran
  | note d =>
      cases ran
      rfl
  | fail e => cases ran

theorem run_balance {i : Instruction Nat} {ops : List StackOp} {depth after : Nat}
    (fits : ops.all (fits false)) (ran : run i ops depth = .ok after) :
    after + pops ops = depth + pushes ops := by
  induction ops generalizing depth with
  | nil =>
      cases ran
      rfl
  | cons op ops ih =>
      rw [run_cons] at ran
      obtain ⟨between, first, second⟩ := bind_eq_ok.mp ran
      rw [List.all_cons, Bool.and_eq_true] at fits
      have here := step_balance fits.1 first
      have there := ih fits.2 second
      have count : pushes ([op] ++ ops) = pushes [op] + pushes ops := List.count_append
      rw [List.singleton_append] at count
      simp only [pops, List.map_cons, List.sum_cons] at there ⊢
      omega

theorem step_ne_diverged {clears : Bool} {i : Instruction Nat} {op : StackOp} {depth : Nat}
    (fits : op.fits clears) (entry visits : Nat) :
    step i depth op ≠ .error (.diverged entry visits) := by
  cases op with
  | take count | drain =>
      simp only [step]
      split <;> simp
  | fail e =>
      intro failed
      cases failed
      cases fits
  | _ => simp [step]

theorem run_ne_diverged {clears : Bool} {i : Instruction Nat} {ops : List StackOp} {depth : Nat}
    (fits : ops.all (fits clears)) (entry visits : Nat) :
    run i ops depth ≠ .error (.diverged entry visits) := by
  induction ops generalizing depth with
  | nil => exact fun failed => by cases failed
  | cons op ops ih =>
      rw [List.all_cons, Bool.and_eq_true] at fits
      intro failed
      rcases bind_eq_error.mp failed with first | ⟨between, -, second⟩
      · exact step_ne_diverged fits.1 entry visits first
      · exact ih fits.2 second

end StackOp

/-- Whether the instruction leaves an empty stack, however deep it was. -/
def Action.clears : Action → Bool
  | .leave | .throw | .rethrow | .endFinally | .endFilter => true
  | _ => false

section Fits

variable {view : View} {returnType : Ty} {i : Instruction Nat} {clears : Bool}

theorem malformedOps_fits : (malformedOps i).all (StackOp.fits clears) := rfl

theorem lookUpOps_fits {resolved : Bool} {kind : DiagnosticKind} {message : String}
    (other : kind ≠ .patternSkipped) :
    (lookUpOps i resolved kind message).all (StackOp.fits clears) := by
  unfold lookUpOps
  split
  · rfl
  · simpa [StackOp.fits] using other

theorem tokenOps_fits {ops : Token → List StackOp}
    (fits : ∀ token, (ops token).all (StackOp.fits clears)) :
    (tokenOps i ops).all (StackOp.fits clears) := by
  unfold tokenOps
  cases i.token? with
  | none => exact malformedOps_fits
  | some token => exact fits token

@[simp] theorem typeOps_fits : (typeOps view i).all (StackOp.fits clears) :=
  tokenOps_fits fun _ => lookUpOps_fits (by decide)

@[simp] theorem fieldOps_fits : (fieldOps view i).all (StackOp.fits clears) :=
  tokenOps_fits fun _ => lookUpOps_fits (by decide)

@[simp] theorem stringOps_fits : (stringOps view i).all (StackOp.fits clears) :=
  tokenOps_fits fun _ => lookUpOps_fits (by decide)

@[simp] theorem methodOps_fits : (methodOps view i).all (StackOp.fits clears) := by
  refine tokenOps_fits fun token => ?_
  cases view.method? token with
  | none => rfl
  | some found => exact lookUpOps_fits (by decide)

@[simp] theorem handleOps_fits : (handleOps view i).all (StackOp.fits clears) := by
  refine tokenOps_fits fun token => ?_
  split
  · exact fieldOps_fits
  · split
    · exact methodOps_fits
    · exact typeOps_fits

@[simp] theorem targetOps_fits : (targetOps i).all (StackOp.fits clears) := by
  unfold targetOps
  split
  · rfl
  · exact malformedOps_fits

@[simp] theorem variableOps_fits (implicit : Option UInt16) :
    (variableOps i implicit).all (StackOp.fits clears) := by
  unfold variableOps
  cases implicit with
  | some index => rfl
  | none => cases i.operand <;> rfl

@[simp] theorem accessOps_fits (access : AccessType) :
    (accessOps view i access).all (StackOp.fits clears) := by
  cases access with
  | operand => exact typeOps_fits
  | _ => rfl

theorem callOps_fits (m : Method) : (callOps m).all (StackOp.fits clears) := by
  unfold callOps
  split <;> rfl

theorem stackOps_fits (view : View) (returnType : Ty) (i : Instruction Nat) (a : Action) :
    (a.stackOps view returnType i).all (StackOp.fits a.clears) := by
  cases a with
  | loadInt32 implicit =>
      cases implicit with
      | some n => rfl
      | none =>
          simp only [Action.stackOps]
          cases i.operand <;> rfl
  | loadInt64 | loadFloat32 | loadFloat64 | switch =>
      simp only [Action.stackOps]
      cases i.operand <;> rfl
  | ret =>
      simp only [Action.stackOps, returnOps]
      split <;> rfl
  | call isVirtual =>
      rw [Action.stackOps, List.all_append, methodOps_fits]
      cases view.called? i with
      | none => rfl
      | some m => exact callOps_fits m
  | newObject =>
      rw [Action.stackOps, List.all_append, methodOps_fits]
      cases view.called? i <;> rfl
  | _ => simp [Action.stackOps, Action.clears, StackOp.fits]

end Fits

section Blocks

variable (view : View) (returnType : Ty)

def Instruction.pops (i : Instruction Nat) : Nat :=
  StackOp.pops (i.opcode.action.stackOps view returnType i)

def Instruction.pushes (i : Instruction Nat) : Nat :=
  StackOp.pushes (i.opcode.action.stackOps view returnType i)

def depthAfter : Listing → Nat → Except ReplayError Nat
  | [], depth => .ok depth
  | i :: rest, depth =>
    StackOp.run i (i.opcode.action.stackOps view returnType i) depth >>= depthAfter rest

def notesOf (l : Listing) : List Diagnostic :=
  l.flatMap fun i => StackOp.notes (i.opcode.action.stackOps view returnType i)

variable {view returnType}

theorem depthAfter_balance {l : Listing} {depth after : Nat}
    (kept : ∀ i ∈ l, i.opcode.action.clears = false)
    (ran : depthAfter view returnType l depth = .ok after) :
    after + (l.map (Instruction.pops view returnType)).sum =
      depth + (l.map (Instruction.pushes view returnType)).sum := by
  induction l generalizing depth with
  | nil =>
      cases ran
      rfl
  | cons i rest ih =>
      rw [List.forall_mem_cons] at kept
      obtain ⟨between, first, second⟩ := bind_eq_ok.mp ran
      have fits := stackOps_fits view returnType i i.opcode.action
      rw [kept.1] at fits
      have here : between + i.pops view returnType = depth + i.pushes view returnType :=
        StackOp.run_balance fits first
      have there := ih kept.2 second
      simp only [List.map_cons, List.sum_cons]
      omega

end Blocks

namespace Replay

variable (keep : Diagnostic → Bool) {cx : Context}

theorem performAll_tracked {l : Listing} {p : Progress}
    (each : ∀ n i q, l[n]? = some i → performAll cx (l.take n) p = .ok () q →
      Tracked keep (StackOp.run i (i.opcode.action.stackOps cx.view cx.returnType i))
        (StackOp.notes (i.opcode.action.stackOps cx.view cx.returnType i)) q
        (perform cx i i.opcode.action q)) :
    Tracked keep (depthAfter cx.view cx.returnType l) (notesOf cx.view cx.returnType l) p
      (performAll cx l p) := by
  induction l generalizing p with
  | nil => exact .ok rfl (List.append_nil _).symm
  | cons i rest ih =>
      have first := each 0 i p rfl rfl
      -- the instruction at `n` of the rest is at `n + 1` here, and reached through `i`
      refine first.bind fun _ q ran => ih fun n j r located reached => ?_
      refine each (n + 1) j r located ?_
      rw [List.take_succ_cons, performAll, bind_apply, ran]
      exact reached

theorem receive_tracked (exception : Option Ty) (p : Progress) :
    Tracked keep (fun depth => .ok (depth + exception.toList.length)) [] p
      (receive exception p) := by
  cases exception with
  | none => exact .ok rfl (List.append_nil _).symm
  | some t =>
      -- no instruction puts it, so any can stand here
      have pushed : Tracks keep ⟨0, 0, 0, .nop, .none⟩ (pushExpr (.caught t)) [.put] := .pushExpr _
      exact pushed p

inductive Ended (depth : Except ReplayError Nat)
    (notes : List Diagnostic) : Except ReplayError BlockOutput → Prop
  | ok {output : BlockOutput} (left : depth = .ok output.exitStack.length)
      (diagnostics : output.diagnostics.filter keep = notes.filter keep) :
      Ended depth notes (.ok output)
  | error {e : ReplayError} (fails : depth = .error e) : Ended depth notes (.error e)

theorem replayBlock_ended {l : Listing} {b : Block} {entry : List Value} {s : Shared}
    (each : ∀ n i q, (b.instructions l)[n]? = some i →
      replayAll cx b.exception ((b.instructions l).take n) (s.begin entry) = .ok () q →
      Tracked keep (StackOp.run i (i.opcode.action.stackOps cx.view cx.returnType i))
        (StackOp.notes (i.opcode.action.stackOps cx.view cx.returnType i)) q
        (perform cx i i.opcode.action q)) :
    Ended keep
      (depthAfter cx.view cx.returnType (b.instructions l)
        (entry.length + b.exception.toList.length))
      (notesOf cx.view cx.returnType (b.instructions l)) (replayBlock cx l b entry s).1 := by
  have received := receive_tracked keep b.exception (s.begin entry)
  have tracked := received.bind (f := fun _ => performAll cx (b.instructions l)) fun _ q ran =>
    performAll_tracked keep fun n i r located reached => each n i r located (by
      rw [replayAll, bind_apply, ran]
      exact reached)
  have depth : (s.begin entry).stack.length = entry.length := List.length_reverse
  rw [replayBlock_eq]
  change Tracked _ _ _ _ (b.replay cx l (s.begin entry)) at tracked
  generalize b.replay cx l (s.begin entry) = r at tracked
  cases tracked with
  | ok left diagnostics =>
      refine .ok ?_ diagnostics
      rw [depth] at left
      exact left.trans (congrArg Except.ok List.length_reverse.symm)
  | error fails =>
      rw [depth] at fails
      exact .error fails

theorem replayBlock_ended_of_kept (cx : Context) (kept : cx.expandArrays = false) (l : Listing)
    (b : Block) (entry : List Value) (s : Shared) :
    Ended keep
      (depthAfter cx.view cx.returnType (b.instructions l)
        (entry.length + b.exception.toList.length))
      (notesOf cx.view cx.returnType (b.instructions l)) (replayBlock cx l b entry s).1 :=
  replayBlock_ended keep fun _ _ q _ _ => Tracks.perform cx _ (by simp [kept]) q

section Errors

variable {α β : Type}

def NeverDiverges (x : Replay α) : Prop :=
  ∀ p entry visits q, x p ≠ .error (.diverged entry visits) q

theorem NeverDiverges.bind {x : Replay α} {f : α → Replay β} (first : NeverDiverges x)
    (rest : ∀ a, NeverDiverges (f a)) : NeverDiverges (x >>= f) := by
  intro p entry visits q failed
  rw [bind_apply] at failed
  cases ran : x p with
  | ok a p' =>
      rw [ran] at failed
      exact rest a p' entry visits q failed
  | error e p' =>
      rw [ran] at failed
      cases failed
      exact first p entry visits q ran

theorem Tracks.neverDiverges {i : Instruction Nat} {x : Replay α} {ops : List StackOp}
    (tracks : Tracks (fun _ => true) i x ops) (clears : Bool)
    (fits : ops.all (StackOp.fits clears)) : NeverDiverges x := by
  intro p entry visits q failed
  have tracked := tracks p
  rw [failed] at tracked
  cases tracked with
  | error fails => exact StackOp.run_ne_diverged fits entry visits fails

theorem fillArray_neverDiverges (i : Instruction Nat) (m : Method) :
    NeverDiverges (fillArray i m) := by
  intro p entry visits q failed
  rw [fillArray_apply] at failed
  unfold OperandStack.popMany at failed
  by_cases enough : m.argCount ≤ p.stack.length
  · rw [if_pos enough] at failed
    dsimp only at failed
    split at failed <;> cases failed
  · rw [if_neg enough] at failed
    cases failed

theorem perform_neverDiverges (i : Instruction Nat) (a : Action) :
    NeverDiverges (perform cx i a) := by
  by_cases calls : ∃ isVirtual, a = .call isVirtual
  · obtain ⟨isVirtual, rfl⟩ := calls
    have operand : Tracks (fun _ => true) i (methodOperand cx i) (methodOps cx.view i) :=
      .methodOperand cx
    refine (operand.neverDiverges false methodOps_fits).bind fun m => ?_
    have emitted : Tracks (fun _ => true) i (emitCall i m isVirtual) (callOps m) :=
      .emitCall m isVirtual
    have rest : ∀ filled : Bool,
        NeverDiverges (if filled then pure () else emitCall i m isVirtual) := by
      intro filled
      split
      · exact fun _ _ _ _ failed => by cases failed
      · exact emitted.neverDiverges false (callOps_fits m)
    dsimp only
    split
    · exact (fillArray_neverDiverges i m).bind rest
    · exact rest false
  · have plain : Tracks (fun _ => true) i (perform cx i a) _ :=
      .perform cx a fun isVirtual m same => absurd ⟨isVirtual, same⟩ calls
    exact plain.neverDiverges _ (stackOps_fits _ _ i a)

theorem performAll_neverDiverges (l : Listing) : NeverDiverges (performAll cx l) := by
  induction l with
  | nil => exact fun _ _ _ _ failed => by cases failed
  | cons i rest ih => exact (perform_neverDiverges i _).bind fun _ => ih

theorem replayBlock_ne_diverged (cx : Context) (l : Listing) (b : Block) (entry : List Value)
    (s : Shared) (position visits : Nat) :
    (replayBlock cx l b entry s).1 ≠ .error (.diverged position visits) := by
  have received : NeverDiverges (receive b.exception) := by
    intro p position visits q failed
    have tracked := receive_tracked (fun _ => true) b.exception p
    rw [failed] at tracked
    cases tracked with
    | error fails => cases fails
  intro failed
  rw [replayBlock_eq] at failed
  cases ran : b.replay cx l (s.begin entry) with
  | ok u p =>
      rw [ran] at failed
      cases failed
  | error e p =>
      rw [ran] at failed
      cases failed
      exact received.bind (fun _ => performAll_neverDiverges _) _ _ _ _ ran

end Errors

end Replay

open Replay

theorem pops_of_call {view : View} {returnType : Ty} {i : Instruction Nat} {isVirtual : Bool}
    {m : Method} (action : i.opcode.action = .call isVirtual) (called : view.called? i = some m) :
    i.pops view returnType = m.argCount ∧
      i.pushes view returnType = if m.sig.returnType = .void then 0 else 1 := by
  obtain ⟨token, named, called'⟩ := Option.bind_eq_some_iff.mp called
  obtain ⟨found, known, -⟩ := Option.map_eq_some_iff.mp called'
  have looks : methodOps view i = lookUpOps i found.resolved .unresolvedMethod
      ("method token " ++ token.text ++ ", using its call-site signature") := by
    simp only [methodOps, tokenOps, named, known, Option.map_some, Option.getD_some]
  unfold Instruction.pops Instruction.pushes
  rw [action, Action.stackOps, looks, called, Option.map_some, Option.getD_some]
  unfold lookUpOps callOps
  constructor
  · split <;> split <;> simp [StackOp.pops, StackOp.taken]
  · split <;> split <;> simp [StackOp.pushes]

/-- With calls kept, whether the replay of a block succeeds, with which error it fails if not, and
the depth of the stack that it leaves are computed from the depth that it is entered with; the
values and types on the stack do not matter. Unless an instruction clears the stack, the depths
differ by what the instructions put and take. A call takes its parameters and its receiver, and
puts a value if it returns one. -/
theorem replayBlock_depth (cx : Context) (kept : cx.expandArrays = false) (l : Listing) (b : Block)
    (entry : List Value) (s : Shared) :
    (replayBlock cx l b entry s).1.map (·.exitStack.length) =
        depthAfter cx.view cx.returnType (b.instructions l)
          (entry.length + b.exception.toList.length) ∧
      (∀ output, (replayBlock cx l b entry s).1 = .ok output →
        (∀ i ∈ b.instructions l, i.opcode.action.clears = false) →
        output.exitStack.length + ((b.instructions l).map (·.pops cx.view cx.returnType)).sum =
          entry.length + b.exception.toList.length +
            ((b.instructions l).map (·.pushes cx.view cx.returnType)).sum) ∧
      ∀ i isVirtual m, i.opcode.action = .call isVirtual → cx.view.called? i = some m →
        i.pops cx.view cx.returnType = m.sig.params.length + m.sig.hasThis.toNat ∧
          i.pushes cx.view cx.returnType = if m.sig.returnType = .void then 0 else 1 := by
  have ended := replayBlock_ended_of_kept (fun _ => true) cx kept l b entry s
  refine ⟨?_, ?_, fun i isVirtual m => pops_of_call⟩
  · generalize (replayBlock cx l b entry s).1 = result at ended
    cases ended with
    | ok left diagnostics => exact left.symm
    | error fails => exact fails.symm
  · intro output ran unbroken
    rw [ran] at ended
    cases ended with
    | ok left diagnostics => exact depthAfter_balance unbroken left

def askTwice : Listing :=
  .ofOps [(.callvirt, .token ⟨0x0a000001⟩), (.ldcI4_2, .none), (.add, .none), (.dup, .none)]

def askContext : Context :=
  { Context.blank with
    view := { View.blank with
      method? := fun _ => some ⟨⟨"Code", .classType "E" [], ⟨true, [], .int32⟩, false⟩, true⟩ } }

def askBlock : Block := ⟨0, 3, [], [], some (.classType "E" [])⟩

theorem askTwice_depth :
    askContext.expandArrays = false ∧
      (replayBlock askContext askTwice askBlock [] ⟨{}, [], []⟩).1.map (·.exitStack.length) =
        .ok 2 ∧
      ((askBlock.instructions askTwice).map
        (·.pops askContext.view askContext.returnType)).sum = 4 ∧
      ((askBlock.instructions askTwice).map
        (·.pushes askContext.view askContext.returnType)).sum = 5 :=
  ⟨rfl, (replayBlock_depth askContext rfl askTwice askBlock [] ⟨{}, [], []⟩).1, by decide,
    by decide⟩

end Destack
