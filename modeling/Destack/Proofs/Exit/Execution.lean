import Destack.Exit.Lower
import Destack.Proofs.Exit.Nesting

/-!
# Normal control flow

A run of a body from its first statement while nothing throws, with an oracle for the conditional
branches. Assignments, calls, conditions, returns and throws can be observed. An exit passes the
finally handlers of the regions that it leaves, innermost first, and then goes on to its target; the
end of a handler goes on with the exit that the handler was entered for.

Two bodies have the same observations if a relation between their control points is kept by every
step. Turning exits into jumps is such a case once no handler is left to pass.
-/

namespace Destack

inductive Event
  | assign (place : Place) (e : Expr)
  | call (c : Call)
  | test (cond : Condition)
  | ret (value : Option Value)
  | throw (value : Value)
  | rethrow
  deriving DecidableEq, Repr

namespace Stmt

def event? : Stmt → Option Event
  | .assign place e => some (.assign place e)
  | .call c => some (.call c)
  | .branch cond _ => some (.test cond)
  | .ret value => some (.ret value)
  | .throw value => some (.throw value)
  | .rethrow => some .rethrow
  | _ => none

def successors (s : Stmt) (i : Nat) : List Nat :=
  s.target?.toList ++ if s.fallsThrough then [i + 1] else []

/-- Where the statement at position `i` leads on its own; a condition holds if `taken`. -/
def jump? (taken : Bool) (i : Nat) : Stmt → Option Nat
  | .assign .. | .call _ => some (i + 1)
  | .branch _ target => some (if taken then target else i + 1)
  | .goto target => some target
  | _ => none

theorem mem_successors {s : Stmt} {i next : Nat} :
    next ∈ s.successors i ↔ s.target? = some next ∨ s.fallsThrough = true ∧ next = i + 1 := by
  unfold successors
  cases s.fallsThrough <;> simp

theorem jump?_mem {s : Stmt} {taken : Bool} {i next : Nat} (jumps : s.jump? taken i = some next) :
    next ∈ s.successors i := by
  rw [mem_successors]
  cases s with
  | assign | call =>
      cases jumps
      exact .inr ⟨rfl, rfl⟩
  | branch =>
      cases taken with
      | true =>
          cases jumps
          exact .inl rfl
      | false =>
          cases jumps
          exact .inr ⟨rfl, rfl⟩
  | goto =>
      cases jumps
      exact .inl rfl
  | _ => cases jumps

theorem jump?_mapTarget {f g : Nat → Nat} {s : Stmt} {taken : Bool} {i k : Nat}
    (targets : ∀ target, s.target? = some target → f target = g target)
    (falls : s.fallsThrough = true → k + 1 = g (i + 1)) :
    (s.mapTarget f).jump? taken k = (s.jump? taken i).map g := by
  cases s with
  | assign | call => exact congrArg some (falls rfl)
  | branch cond target =>
      cases taken with
      | true => exact congrArg some (targets target rfl)
      | false => exact congrArg some (falls rfl)
  | goto target => exact congrArg some (targets target rfl)
  | _ => rfl

theorem event?_mapTarget (f : Nat → Nat) (s : Stmt) : (s.mapTarget f).event? = s.event? := by
  cases s <;> rfl

theorem event?_lowered (s : Stmt) : s.lowered.event? = s.event? := by cases s <;> rfl

end Stmt

/-- The guards whose protected region is left on the way from `i` to `target`, innermost first. -/
def crossed (guards : List (Scope Ty)) (i target : Nat) : List (Scope Ty) :=
  (guards.filter fun s => s.inTry i && !s.inTry target).insertionSort
    fun s t => s.trySpan.length ≤ t.trySpan.length

structure Exiting where
  handlers : List (Scope Ty)
  target : Nat
  deriving DecidableEq, Repr

structure Control where
  position : Nat
  exiting : List Exiting
  deriving DecidableEq, Repr

namespace Control

def through (handlers : List (Scope Ty)) (target : Nat) (exiting : List Exiting) : Control :=
  match handlers with
  | [] => ⟨target, exiting⟩
  | first :: rest => ⟨first.handlerBegin, ⟨first :: rest, target⟩ :: exiting⟩

def after (guards : List (Scope Ty)) (taken : Bool) (c : Control) : Stmt → Option Control
  | .leave target => some (through (crossed guards c.position target) target c.exiting)
  | .endFinally =>
    match c.exiting with
    | [] => none
    | e :: rest => some (through e.handlers.tail e.target rest)
  | s => (s.jump? taken c.position).map fun next => { c with position := next }

theorem after_of_plain {guards : List (Scope Ty)} {taken : Bool} {c : Control} {s : Stmt}
    (stays : s.isLeave = false) (goes : s ≠ .endFinally) :
    c.after guards taken s =
      (s.jump? taken c.position).map fun next => { c with position := next } := by
  cases s with
  | leave => cases stays
  | endFinally => exact absurd rfl goes
  | _ => rfl

end Control

structure Guarding (guards : List (Scope Ty)) : Prop where
  laid : ∀ s ∈ guards, s.Laid
  nested : guards.Pairwise Scope.Nested
  distinct : guards.Pairwise fun s t => s.trySpan ≠ t.trySpan

section Chains

variable {guards chain : List (Scope Ty)} {i target : Nat} {s t : Scope Ty}

theorem mem_crossed :
    s ∈ crossed guards i target ↔ s ∈ guards ∧ s.inTry i = true ∧ s.inTry target = false := by
  simp [crossed]

theorem Scope.Laid.length_lt (laid : s.Laid) (inside : s.hull.within t.trySpan = true) :
    s.trySpan.length < t.trySpan.length := by
  have := laid.tryBegin_lt
  have := laid.tryEnd_le_handlerBegin
  have := laid.handlerBegin_lt
  rw [laid.hull_eq, Span.within_iff] at inside
  simp only [Scope.trySpan, Span.length] at inside ⊢
  omega

theorem Scope.Nested.inside_or_around (laid : s.Laid) (laid' : t.Laid) (nested : s.Nested t)
    (different : s.trySpan ≠ t.trySpan) (here : s.inTry i = true) (here' : t.inTry i = true) :
    s.hull.within t.trySpan = true ∨ t.hull.within s.trySpan = true := by
  have inHull {s : Scope Ty} (laid : s.Laid) (here : s.inTry i = true) :
      s.hull.first ≤ i ∧ i < s.hull.last := by
    have inside := laid.span_within_hull s.trySpan_mem
    rw [Span.within_iff] at inside
    rw [Scope.inTry, Span.contains_iff] at here
    omega
  have inRegion {s t : Scope Ty} (laid : s.Laid) (laid' : t.Laid) (here : s.inTry i = true)
      (here' : t.inTry i = true) (within : s.LiesWithin t) : s.hull.within t.trySpan = true := by
    obtain ⟨r, region, fits⟩ := within
    have bounds := inHull laid here
    have fits' := Span.within_iff.mp fits
    have same : t.trySpan = r := laid'.span_unique t.trySpan_mem region here'
      (by rw [Span.contains_iff]; omega)
    exact same ▸ fits
  rcases nested with within | within | apart | siblings
  · exact .inl (inRegion laid laid' here here' within)
  · exact .inr (inRegion laid' laid here' here within)
  · have clear := apart _ s.trySpan_mem _ t.trySpan_mem
    rw [Span.not_overlaps_iff] at clear
    rw [Scope.inTry, Span.contains_iff] at here here'
    omega
  · exact absurd siblings.1 different

namespace Guarding

theorem inside_or_around (guarding : Guarding guards) (member : s ∈ guards) (member' : t ∈ guards)
    (different : s ≠ t) (here : s.inTry i = true) (here' : t.inTry i = true) :
    s.hull.within t.trySpan = true ∨ t.hull.within s.trySpan = true := by
  have : Std.Symm Scope.Nested := ⟨fun _ _ nested => nested.symm⟩
  have : Std.Symm fun s t : Scope Ty => s.trySpan ≠ t.trySpan := ⟨fun _ _ distinct => distinct.symm⟩
  have nested := guarding.nested.forall member member' different
  have distinct := guarding.distinct.forall member member' different
  exact nested.inside_or_around (guarding.laid s member) (guarding.laid t member') distinct here
    here'

theorem nodup_crossed (guarding : Guarding guards) : (crossed guards i target).Nodup := by
  have nodup : guards.Nodup := guarding.distinct.imp fun {s t} different same =>
    different (congrArg Scope.trySpan same)
  exact ((List.perm_insertionSort _ _).nodup_iff).mpr (nodup.filter _)

theorem sorted_crossed :
    (crossed guards i target).Pairwise fun s t => s.trySpan.length ≤ t.trySpan.length := by
  have : Std.Total fun s t : Scope Ty => s.trySpan.length ≤ t.trySpan.length :=
    ⟨fun s t => Nat.le_total _ _⟩
  have : IsTrans (Scope Ty) fun s t => s.trySpan.length ≤ t.trySpan.length :=
    ⟨fun s t u => Nat.le_trans⟩
  exact List.pairwise_insertionSort _ _

theorem chain_crossed (guarding : Guarding guards) :
    (crossed guards i target).Pairwise fun s t => s.hull.within t.trySpan = true := by
  refine (sorted_crossed.and guarding.nodup_crossed).imp_of_mem ?_
  rintro s t member member' ⟨shorter, different⟩
  obtain ⟨guard, here, -⟩ := mem_crossed.mp member
  obtain ⟨guard', here', -⟩ := mem_crossed.mp member'
  rcases guarding.inside_or_around guard guard' different here here' with inside | around
  · exact inside
  · have := (guarding.laid t guard').length_lt around
    omega

theorem crossed_eq (guarding : Guarding guards)
    (chained : chain.Pairwise fun s t => s.hull.within t.trySpan = true)
    (members : ∀ s, s ∈ chain ↔ s ∈ guards ∧ s.inTry i = true ∧ s.inTry target = false) :
    crossed guards i target = chain := by
  have shorter : chain.Pairwise fun s t => s.trySpan.length < t.trySpan.length :=
    chained.imp_of_mem fun {s t} member _ inside =>
      (guarding.laid s ((members s).mp member).1).length_lt inside
  have nodup : chain.Nodup := shorter.imp fun less same => by
    rw [same] at less
    exact less.false
  have perm : (crossed guards i target).Perm chain := by
    rw [List.perm_ext_iff_of_nodup guarding.nodup_crossed nodup]
    intro s
    rw [mem_crossed, members]
  refine List.Perm.eq_of_pairwise ?_ sorted_crossed (shorter.imp fun less => less.le) perm
  intro s t member member' le ge
  by_contra different
  obtain ⟨guard, here, -⟩ := mem_crossed.mp member
  obtain ⟨guard', here', -⟩ := (members t).mp member'
  rcases guarding.inside_or_around guard guard' different here here' with inside | around
  · have := (guarding.laid s guard).length_lt inside
    omega
  · have := (guarding.laid t guard').length_lt around
    omega

end Guarding
end Chains

structure Observed where
  trace : List Event
  control : Option Control
  deriving DecidableEq, Repr

def Observed.step (stmts : List Stmt) (guards : List (Scope Ty)) (oracle : List Event → Bool)
    (r : Observed) : Observed :=
  match r.control with
  | none => r
  | some c =>
    match stmts[c.position]? with
    | none => { r with control := none }
    | some stmt =>
      let trace := r.trace ++ stmt.event?.toList
      ⟨trace, c.after guards (oracle trace) stmt⟩

def execute (stmts : List Stmt) (guards : List (Scope Ty)) (oracle : List Event → Bool) :
    Nat → Observed
  | 0 => ⟨[], some ⟨0, []⟩⟩
  | n + 1 => (execute stmts guards oracle n).step stmts guards oracle

def Body.execute (b : Body) (oracle : List Event → Bool) (n : Nat) : Observed :=
  Destack.execute b.stmts (b.scopes.filter (·.isFinally)) oracle n

def InStep (R : Control → Control → Prop) (stmts : List Stmt) (guards : List (Scope Ty))
    (stmts' : List Stmt) (guards' : List (Scope Ty)) : Prop :=
  ∀ c c', R c c' →
    (stmts[c.position]? = none ∧ stmts'[c'.position]? = none) ∨
    ∃ s s', stmts[c.position]? = some s ∧ stmts'[c'.position]? = some s' ∧ s.event? = s'.event? ∧
      ∀ taken, Option.Rel R (c.after guards taken s) (c'.after guards' taken s')

/-- Two runs that showed the same and are both over or both not. -/
def SameRun (r r' : Observed) : Prop :=
  r.trace = r'.trace ∧ r.control.isSome = r'.control.isSome

theorem execute_inStep {R : Control → Control → Prop} {stmts stmts' : List Stmt}
    {guards guards' : List (Scope Ty)} (inStep : InStep R stmts guards stmts' guards')
    (start : R ⟨0, []⟩ ⟨0, []⟩) (oracle : List Event → Bool) (n : Nat) :
    SameRun (execute stmts guards oracle n) (execute stmts' guards' oracle n) := by
  suffices related :
      (execute stmts guards oracle n).trace = (execute stmts' guards' oracle n).trace ∧
      Option.Rel R (execute stmts guards oracle n).control
        (execute stmts' guards' oracle n).control by
    have bothOver {a b : Option Control} (rel : Option.Rel R a b) : a.isSome = b.isSome := by
      cases rel <;> rfl
    exact ⟨related.1, bothOver related.2⟩
  induction n with
  | zero => exact ⟨rfl, .some start⟩
  | succ n ih =>
      obtain ⟨trace, control⟩ := ih
      simp only [execute]
      generalize execute stmts guards oracle n = r at trace control
      generalize execute stmts' guards' oracle n = r' at trace control
      obtain ⟨trace₁, control₁⟩ := r
      obtain ⟨trace₂, control₂⟩ := r'
      simp only at trace control
      subst trace
      cases control with
      | none => exact ⟨rfl, .none⟩
      | some related =>
          rcases inStep _ _ related with ⟨ended, ended'⟩ | ⟨s, s', here, here', shown, leads⟩
          · simp only [Observed.step, ended, ended', true_and]
            exact .none
          · simp only [Observed.step, here, here', shown, true_and]
            exact leads _

theorem SameRun.trans {r₁ r₂ r₃ : Observed} (first : SameRun r₁ r₂) (second : SameRun r₂ r₃) :
    SameRun r₁ r₃ :=
  ⟨first.1.trans second.1, first.2.trans second.2⟩

theorem crossed_nil (i target : Nat) : crossed [] i target = [] := rfl

theorem execute_lowered (stmts : List Stmt) (guards : List (Scope Ty)) (oracle : List Event → Bool)
    (n : Nat) :
    SameRun (execute stmts [] oracle n) (execute (stmts.map (·.lowered)) guards oracle n) := by
  refine execute_inStep (R := Eq) ?_ rfl oracle n
  rintro c _ rfl
  rw [List.getElem?_map]
  cases stmts[c.position]? with
  | none => exact .inl ⟨rfl, rfl⟩
  | some s =>
      refine .inr ⟨s, s.lowered, rfl, rfl, s.event?_lowered.symm, fun taken => ?_⟩
      have same : c.after [] taken s = c.after guards taken s.lowered := by
        cases s with
        | leave target => simp only [Control.after, crossed_nil, Control.through]; rfl
        | _ => rfl
      rw [same]
      cases c.after guards taken s.lowered with
      | none => exact .none
      | some next => exact .some rfl

/-- Control is in a finally or fault handler before a step exactly if it is after it. -/
def HandlersClosed (stmts : List Stmt) (scopes : List (Scope Ty)) : Prop :=
  ∀ i stmt, stmts[i]? = some stmt → ∀ next ∈ stmt.successors i, ∀ s ∈ scopes, s.cleansUp = true →
    s.handlerSpan.contains i = s.handlerSpan.contains next

/-- Branches, exits and ends of handlers respect the regions of a body. -/
@[mk_iff]
structure Body.Structured (b : Body) : Prop where
  distinct : (b.scopes.filter (·.isFinally)).Pairwise fun s t => s.trySpan ≠ t.trySpan
  flow : ∀ x ∈ b.stmts.zipIdx, x.1.isLeave = false → ∀ next ∈ x.1.successors x.2,
    ∀ s ∈ b.scopes, ∀ r ∈ s.spans, (r.contains x.2 = true → r.contains next = true) ∧
      (r.contains next = true → r.contains x.2 = true ∨ r = s.trySpan ∧ next = s.tryBegin)
  /-- No exit leaves a finally handler, a fault handler or a filter, or enters the side of a
  handler from outside. -/
  exits : ∀ x ∈ b.stmts.zipIdx, x.1.isLeave = true → ∀ next ∈ x.1.successors x.2,
    ∀ s ∈ b.scopes,
      (s.cleansUp = true → s.handlerSpan.contains x.2 = true → s.handlerSpan.contains next = true) ∧
      (∀ r ∈ s.filterSpan?.toList, r.contains x.2 = true → r.contains next = true) ∧
      ∀ r ∈ s.spans.tail, r.contains next = true → r.contains x.2 = true
  owned : ∀ x ∈ b.stmts.zipIdx, x.1 = .endFinally → ∃ s ∈ b.scopes, s.isFinally = true ∧
    s.handlerSpan.contains x.2 = true ∧ ∀ t ∈ b.scopes, t.cleansUp = true →
      t.handlerSpan.contains x.2 = true → s.handlerSpan.within t.handlerSpan = true

instance (b : Body) : Decidable b.Structured := decidable_of_iff _ b.structured_iff.symm

theorem Body.Structured.closed {b : Body} (structured : b.Structured)
    (laid : ∀ s ∈ b.scopes, s.Laid) : HandlersClosed b.stmts b.scopes := by
  intro i stmt here next leads s member cleans
  have located : (stmt, i) ∈ b.stmts.zipIdx := List.mk_mem_zipIdx_iff_getElem?.mpr here
  rw [Bool.eq_iff_iff]
  cases exit : stmt.isLeave with
  | true =>
      have exits := structured.exits _ located exit next leads s member
      exact ⟨exits.1 cleans, exits.2.2 _ List.mem_cons_self⟩
  | false =>
      have flow := structured.flow _ located exit next leads s member _ s.handlerSpan_mem
      refine ⟨flow.1, fun inside => (flow.2 inside).resolve_right ?_⟩
      rintro ⟨same, -⟩
      have := (laid s member).tryBegin_lt
      have := (laid s member).tryEnd_le_handlerBegin
      simp only [Scope.handlerSpan, Scope.trySpan, Span.mk.injEq] at same
      omega

end Destack
