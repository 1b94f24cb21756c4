import Destack.Proofs.Exit.Guards

namespace Destack.Inlining

variable {b after : Inlining} {m : Marked} {others : List Marked} {p : CopyPlan}

inductive Carried (p : CopyPlan) : Exiting → Exiting → Prop
  | past {handlers : List (Scope Ty)} {target : Nat}
      (begins : ∀ s ∈ handlers, p.handler.contains s.handlerBegin = false)
      (ends : p.handler.contains target = false) :
      Carried p ⟨handlers, target⟩ ⟨handlers.map (p.shiftScope false), p.shift target⟩
  | toCopy {first : Scope Ty} {rest : List (Scope Ty)} {exit l target : Nat}
      (begins : ∀ s ∈ first :: rest, p.handler.contains s.handlerBegin = false)
      (listed : p.exits[exit]? = some (l, target)) :
      Carried p ⟨(first :: rest) ++ [p.scope], target⟩
        ⟨(first :: rest).map (p.shiftScope false), p.copyStart exit⟩

inductive Begun (p : CopyPlan) (others : List Marked) : List Exiting → Nat → Prop
  | none {i : Nat} (inside : p.handler.contains i = true)
      (outer : inInnerHandler others p.handler i = false) : Begun p others [] i
  | more {first : Scope Ty} {rest : List (Scope Ty)} {target i : Nat} {lower : List Exiting}
      (inside : p.handler.contains i = true) (running : first.handlerSpan.contains i = true)
      (guards : ∀ s ∈ first :: rest, ∃ o ∈ others, Waits o ∧ o.scope = s ∧
        s.hull.within p.handler = true)
      (below : Begun p others lower target) : Begun p others (⟨first :: rest, target⟩ :: lower) i

def inCopy (p : CopyPlan) (exit : Nat) (e : Exiting) : Exiting :=
  ⟨e.handlers.map (p.copied exit), e.target + p.offset exit⟩

/-- Control before and after the treatment. -/
inductive Follows (p : CopyPlan) (others : List Marked) : Control → Control → Prop
  | outside {i : Nat} {exiting exiting' : List Exiting} (out : p.handler.contains i = false)
      (carried : List.Forall₂ (Carried p) exiting exiting') :
      Follows p others ⟨i, exiting⟩ ⟨p.shift i, exiting'⟩
  | within {i exit l target : Nat} {begun carried carried' : List Exiting}
      (listed : p.exits[exit]? = some (l, target)) (inside : Begun p others begun i)
      (rest : List.Forall₂ (Carried p) carried carried') :
      Follows p others ⟨i, begun ++ ⟨[p.scope], target⟩ :: carried⟩
        ⟨i + p.offset exit, begun.map (inCopy p exit) ++ carried'⟩

namespace Begun

variable {begun : List Exiting} {i : Nat}

theorem mem_handler (inside : Begun p others begun i) : p.handler.contains i = true := by
  cases inside <;> assumption

theorem of_agrees (inside : Begun p others begun i) {next : Nat}
    (stays : p.handler.contains next = true)
    (agrees : ∀ o ∈ others, o.scope.cleansUp = true →
      o.scope.handlerSpan.contains i = o.scope.handlerSpan.contains next) :
    Begun p others begun next := by
  cases inside with
  | none _ outer =>
      refine .none stays ?_
      simp only [inInnerHandler, List.any_eq_false] at outer ⊢
      intro o inList
      cases cleans : o.scope.cleansUp with
      | false =>
          rw [Scope.cleansUp] at cleans
          simp [cleans]
      | true =>
          rw [← agrees o inList cleans]
          exact outer o inList
  | @more first rest target _ lower _ running guards below =>
      refine .more stays ?_ guards below
      obtain ⟨o, inList, waits, rfl, -⟩ := guards _ List.mem_cons_self
      rw [← agrees o inList (Scope.cleansUp_of_isFinally waits.2)]
      exact running

theorem inner_of_cons {e : Exiting} (turn : Turn b after m others p)
    (inside : Begun p others (e :: begun) i) : inInnerHandler others p.handler i = true := by
  cases inside with
  | more _ running guards _ =>
      obtain ⟨o, inList, waits, rfl, fits⟩ := guards _ List.mem_cons_self
      have other := turn.treatment.other o inList
      have whole := Span.within_trans (other.laid.span_within_hull o.scope.handlerSpan_mem) fits
      simp only [inInnerHandler, List.any_eq_true]
      exact ⟨o, inList, by simp [waits.2, running, whole]⟩

end Begun

namespace Turn

variable {i target exit l : Nat} {carried carried' begun : List Exiting}

theorem through_moved {handlers : List (Scope Ty)}
    (begins : ∀ s ∈ handlers, p.handler.contains s.handlerBegin = false)
    (ends : p.handler.contains target = false)
    (rest : List.Forall₂ (Carried p) carried carried') :
    Follows p others (.through handlers target carried)
      (.through (handlers.map (p.shiftScope false)) (p.shift target) carried') := by
  cases handlers with
  | nil => exact .outside ends rest
  | cons first later =>
      exact .outside (begins first List.mem_cons_self) (.cons (.past begins ends) rest)

theorem through_toCopy (turn : Turn b after m others p) {handlers : List (Scope Ty)}
    (begins : ∀ s ∈ handlers, p.handler.contains s.handlerBegin = false)
    (listed : p.exits[exit]? = some (l, target))
    (rest : List.Forall₂ (Carried p) carried carried') :
    Follows p others (.through (handlers ++ [p.scope]) target carried)
      (.through (handlers.map (p.shiftScope false)) (p.copyStart exit) carried') := by
  cases handlers with
  | nil =>
      have outer : inInnerHandler others p.handler p.scope.handlerBegin = false := by
        simp only [inInnerHandler, List.any_eq_false, Bool.and_eq_true, not_and]
        intro o inList inner fits
        have other := turn.treatment.other o inList
        have whole := CopyPlan.hull_within_handler turn.treatment.plans.ready other fits
        rw [CopyPlan.handlerBegin_not_mem other whole] at inner
        cases inner.2
      rw [← CopyPlan.handler_add_offset turn.treatment.plans.ready]
      exact .within listed (.none turn.treatment.handlerBegin_mem outer) rest
  | cons first later =>
      exact .outside (begins first List.mem_cons_self) (.cons (.toCopy begins listed) rest)

theorem through_inCopy (turn : Turn b after m others p) {handlers : List (Scope Ty)}
    (guards : ∀ s ∈ handlers, ∃ o ∈ others, Waits o ∧ o.scope = s ∧ s.hull.within p.handler = true)
    {goal : Nat} (below : Begun p others begun goal)
    (listed : p.exits[exit]? = some (l, target))
    (rest : List.Forall₂ (Carried p) carried carried') :
    Follows p others (.through handlers goal (begun ++ ⟨[p.scope], target⟩ :: carried))
      (.through (handlers.map (p.copied exit)) (goal + p.offset exit)
        (begun.map (inCopy p exit) ++ carried')) := by
  cases handlers with
  | nil => exact .within listed below rest
  | cons first later =>
      obtain ⟨o, inList, waits, rfl, fits⟩ := guards _ List.mem_cons_self
      have inside := Span.contains_of_within fits (turn.handlerBegin_inHull inList)
      have running : o.scope.handlerSpan.contains o.scope.handlerBegin = true :=
        Span.contains_iff.mpr ⟨le_rfl, (turn.treatment.other o inList).laid.handlerBegin_lt⟩
      have begun' : Begun p others (⟨o.scope :: later, goal⟩ :: begun) o.scope.handlerBegin :=
        .more inside running guards below
      exact Follows.within listed begun' rest

theorem begins_of_crossed (turn : Turn b after m others p) (out : p.handler.contains i = false) :
    ∀ s ∈ crossed (guards others) i target, p.handler.contains s.handlerBegin = false := by
  intro s member
  obtain ⟨guard, here, -⟩ := mem_crossed.mp member
  obtain ⟨o, inList, waits, rfl⟩ := mem_guards.mp guard
  exact turn.handlerBegin_outside inList waits out here

theorem leave_outside (turn : Turn b after m others p) (out : p.handler.contains i = false)
    (here : b.stmts[i]? = some (.leave target)) (taken : Bool)
    (rest : List.Forall₂ (Carried p) carried carried') :
    ∃ s', after.stmts[p.shift i]? = some s' ∧ s'.event? = none ∧
      Option.Rel (Follows p others)
        (Control.after (guards b.scopes) taken ⟨i, carried⟩ (.leave target))
        (Control.after (guards after.scopes) taken ⟨p.shift i, carried'⟩ s') := by
  have treatment := turn.treatment
  have ends : p.handler.contains target = false := by
    rw [← treatment.handler_closed turn.orderly.closed here
      (Stmt.mem_successors.mpr (.inl rfl)), out]
  by_cases exits : (i, target) ∈ p.exits
  · obtain ⟨exit, listed⟩ := List.getElem?_of_mem exits
    obtain ⟨inTry, -, outTry⟩ := treatment.plans.mem_exits.mp exits
    refine ⟨.leave (p.copyStart exit), ?_, rfl, ?_⟩
    · rw [treatment.exit_shift listed, treatment.stmts, treatment.plans.spliced_exit listed]
    · simp only [Control.after, treatment.exit_shift listed, turn.crossed_after_of_exit listed,
        turn.crossed_before_of_exit inTry outTry]
      exact .some (turn.through_toCopy (turn.begins_of_crossed out) listed rest)
  · have stays : ∀ goal, (i, goal) ∉ p.exits := by
      intro goal listed
      have same := (treatment.plans.mem_exits.mp listed).2.1
      rw [here] at same
      cases same
      exact exits listed
    have remains : p.scope.inTry i = true → p.scope.inTry target = true := by
      intro inTry
      by_contra outTry
      exact exits (treatment.plans.mem_exits.mpr ⟨inTry, here, Bool.eq_false_of_not_eq_true outTry⟩)
    refine ⟨.leave (p.shift target), ?_, rfl, ?_⟩
    · rw [treatment.stmts, treatment.plans.spliced_moved stays, here]
      rfl
    · simp only [Control.after, turn.crossed_after_of_stays, turn.crossed_before_of_stays remains]
      exact .some (through_moved (turn.begins_of_crossed out) ends rest)

theorem end_outside (turn : Turn b after m others p) (taken : Bool) {k : Nat}
    (rest : List.Forall₂ (Carried p) carried carried') :
    Option.Rel (Follows p others) (Control.after (guards b.scopes) taken ⟨i, carried⟩ .endFinally)
      (Control.after (guards after.scopes) taken ⟨k, carried'⟩ .endFinally) := by
  cases rest with
  | nil => exact .none
  | cons head later =>
      cases head with
      | past begins ends =>
          simp only [Control.after, ← List.map_tail]
          exact .some (through_moved (fun s member => begins s (List.mem_of_mem_tail member)) ends
            later)
      | toCopy begins listed =>
          exact .some (turn.through_toCopy
            (fun s member => begins s (List.mem_cons_of_mem _ member)) listed later)

theorem step_outside (turn : Turn b after m others p) {stmt : Stmt}
    (out : p.handler.contains i = false) (here : b.stmts[i]? = some stmt)
    (rest : List.Forall₂ (Carried p) carried carried') :
    ∃ s', after.stmts[p.shift i]? = some s' ∧ stmt.event? = s'.event? ∧ ∀ taken,
      Option.Rel (Follows p others) (Control.after (guards b.scopes) taken ⟨i, carried⟩ stmt)
        (Control.after (guards after.scopes) taken ⟨p.shift i, carried'⟩ s') := by
  have treatment := turn.treatment
  cases leaves : stmt.isLeave with
  | true =>
      cases stmt with
      | leave target =>
          obtain ⟨s', here', shown, -⟩ := turn.leave_outside out here true rest
          refine ⟨s', here', shown.symm, fun taken => ?_⟩
          obtain ⟨s'', here'', -, leads⟩ := turn.leave_outside out here taken rest
          cases here'.symm.trans here''
          exact leads
      | _ => cases leaves
  | false =>
      have stays : ∀ goal, (i, goal) ∉ p.exits := by
        intro goal listed
        have same := (treatment.plans.mem_exits.mp listed).2.1
        rw [here] at same
        cases same
        cases leaves
      refine ⟨stmt.mapTarget p.shift, ?_, (stmt.event?_mapTarget _).symm, fun taken => ?_⟩
      · rw [treatment.stmts, treatment.plans.spliced_moved stays, here]
        rfl
      by_cases finishes : stmt = .endFinally
      · subst finishes
        exact turn.end_outside taken rest
      · have kept : (stmt.mapTarget p.shift).isLeave = false ∧
            stmt.mapTarget p.shift ≠ .endFinally := by
          cases stmt <;> simp_all [Stmt.mapTarget, Stmt.isLeave]
        have moved : (stmt.mapTarget p.shift).jump? taken (p.shift i) =
            (stmt.jump? taken i).map p.shift :=
          Stmt.jump?_mapTarget (fun _ _ => rfl) fun falls =>
            (treatment.shift_succ turn.orderly.closed here
              (Stmt.mem_successors.mpr (.inr ⟨falls, rfl⟩))).symm
        rw [Control.after_of_plain leaves finishes, Control.after_of_plain kept.1 kept.2, moved]
        cases jumps : stmt.jump? taken i with
        | none => exact .none
        | some next =>
            have closed := treatment.handler_closed turn.orderly.closed here (Stmt.jump?_mem jumps)
            exact .some (.outside (closed ▸ out) rest)

theorem begun_next (turn : Turn b after m others p) {stmt : Stmt} {next : Nat}
    (inside : Begun p others begun i) (here : b.stmts[i]? = some stmt)
    (leads : next ∈ stmt.successors i) : Begun p others begun next := by
  have closed := turn.treatment.handler_closed turn.orderly.closed here leads
  refine inside.of_agrees (closed ▸ inside.mem_handler) fun o inList cleans => ?_
  exact turn.orderly.closed i stmt here next leads _ (turn.treatment.mem_before inList) cleans

theorem end_within (turn : Turn b after m others p)
    (listed : p.exits[exit]? = some (l, target)) (inside : Begun p others begun i)
    (here : b.stmts[i]? = some .endFinally) (taken : Bool)
    (rest : List.Forall₂ (Carried p) carried carried') :
    ∃ s', after.stmts[i + p.offset exit]? = some s' ∧ s'.event? = none ∧
      Option.Rel (Follows p others)
        (Control.after (guards b.scopes) taken ⟨i, begun ++ ⟨[p.scope], target⟩ :: carried⟩
          .endFinally)
        (Control.after (guards after.scopes) taken
          ⟨i + p.offset exit, begun.map (inCopy p exit) ++ carried'⟩ s') := by
  have treatment := turn.treatment
  have copy := treatment.plans.spliced_copy listed inside.mem_handler
  rw [here, Option.map_some, ← treatment.stmts] at copy
  refine ⟨_, copy, ?_, ?_⟩
  · split <;> rfl
  cases inside with
  | none _ outer =>
      have ends : p.ends others .endFinally i = true := by simp [CopyPlan.ends, outer]
      rw [if_pos ends]
      exact .some (.outside (treatment.target_outside turn.orderly.closed listed) rest)
  | more inside running guards below =>
      have inner := (Begun.more inside running guards below).inner_of_cons turn
      have goes : p.ends others .endFinally i = false := by simp [CopyPlan.ends, inner]
      rw [goes, if_neg Bool.false_ne_true]
      exact .some (turn.through_inCopy (fun s member => guards s (List.mem_cons_of_mem _ member))
        below listed rest)

theorem step_within (turn : Turn b after m others p) {stmt : Stmt}
    (listed : p.exits[exit]? = some (l, target)) (inside : Begun p others begun i)
    (here : b.stmts[i]? = some stmt) (rest : List.Forall₂ (Carried p) carried carried') :
    ∃ s', after.stmts[i + p.offset exit]? = some s' ∧ stmt.event? = s'.event? ∧ ∀ taken,
      Option.Rel (Follows p others)
        (Control.after (guards b.scopes) taken ⟨i, begun ++ ⟨[p.scope], target⟩ :: carried⟩ stmt)
        (Control.after (guards after.scopes) taken
          ⟨i + p.offset exit, begun.map (inCopy p exit) ++ carried'⟩ s') := by
  have treatment := turn.treatment
  have ready := treatment.plans.ready
  by_cases finishes : stmt = .endFinally
  · subst finishes
    obtain ⟨s', here', shown, -⟩ := turn.end_within listed inside here true rest
    refine ⟨s', here', shown.symm, fun taken => ?_⟩
    obtain ⟨s'', here'', -, leads⟩ := turn.end_within listed inside here taken rest
    cases here'.symm.trans here''
    exact leads
  have goes : p.ends others stmt i = false := by simp [CopyPlan.ends, finishes]
  have copy := treatment.plans.spliced_copy listed inside.mem_handler
  rw [here, Option.map_some, ← treatment.stmts, goes, if_neg Bool.false_ne_true] at copy
  refine ⟨_, copy, (stmt.event?_mapTarget _).symm, fun taken => ?_⟩
  have stays {next : Nat} (leads : next ∈ stmt.successors i) :
      p.handler.contains next = true :=
    treatment.handler_closed turn.orderly.closed here leads ▸ inside.mem_handler
  have moves (goal : Nat) (goes : stmt.target? = some goal) :
      p.copyTarget (p.copyStart exit) goal = goal + p.offset exit := by
    rw [CopyPlan.Plans.copyTarget_eq ready,
      if_pos (stays (Stmt.mem_successors.mpr (.inl goes)))]
  cases leaves : stmt.isLeave with
  | true =>
      cases stmt with
      | leave goal =>
          have leads : goal ∈ (Stmt.leave goal).successors i := Stmt.mem_successors.mpr (.inl rfl)
          have outTry : p.scope.inTry i = true → p.scope.inTry goal = true := by
            intro inTry
            have := turn.try_outside_handler inTry
            rw [inside.mem_handler] at this
            cases this
          simp only [Stmt.mapTarget, Control.after, moves goal rfl,
            turn.crossed_before_of_stays outTry, turn.crossed_after_of_copy
              (Treatment.exit_bound listed) inside.mem_handler (stays leads)]
          refine .some (turn.through_inCopy ?_ (turn.begun_next inside here leads) listed rest)
          intro s member
          obtain ⟨guard, inTry, -⟩ := mem_crossed.mp member
          obtain ⟨o, inList, waits, rfl⟩ := mem_guards.mp guard
          exact ⟨o, inList, waits, rfl, turn.hull_inside inList waits inside.mem_handler inTry⟩
      | _ => cases leaves
  | false =>
      have kept : (stmt.mapTarget (p.copyTarget (p.copyStart exit))).isLeave = false ∧
          stmt.mapTarget (p.copyTarget (p.copyStart exit)) ≠ .endFinally := by
        cases stmt <;> simp_all [Stmt.mapTarget, Stmt.isLeave]
      have moved : (stmt.mapTarget (p.copyTarget (p.copyStart exit))).jump? taken
          (i + p.offset exit) = (stmt.jump? taken i).map (· + p.offset exit) :=
        Stmt.jump?_mapTarget moves fun _ => Nat.add_right_comm i (p.offset exit) 1
      rw [Control.after_of_plain leaves finishes, Control.after_of_plain kept.1 kept.2, moved]
      cases jumps : stmt.jump? taken i with
      | none => exact .none
      | some next =>
          exact .some (.within listed (turn.begun_next inside here (Stmt.jump?_mem jumps)) rest)

theorem inStep (turn : Turn b after m others p) :
    InStep (Follows p others) b.stmts (guards b.scopes) after.stmts (guards after.scopes) := by
  have treatment := turn.treatment
  intro c c' follows
  cases follows with
  | @outside i _ _ out rest =>
      cases here : b.stmts[i]? with
      | none =>
          have stays : ∀ goal, (i, goal) ∉ p.exits := by
            intro goal listed
            have found := (treatment.plans.mem_exits.mp listed).2.1
            rw [here] at found
            cases found
          refine .inl ⟨rfl, ?_⟩
          simp only
          rw [treatment.stmts, treatment.plans.spliced_moved stays, here]
          rfl
      | some stmt =>
          obtain ⟨s', here', shown, leads⟩ := turn.step_outside out here rest
          exact .inr ⟨stmt, s', rfl, here', shown, leads⟩
  | @within i _ _ _ _ _ _ listed inside rest =>
      cases here : b.stmts[i]? with
      | none =>
          refine .inl ⟨rfl, ?_⟩
          simp only
          rw [treatment.stmts, treatment.plans.spliced_copy listed inside.mem_handler, here]
          rfl
      | some stmt =>
          obtain ⟨s', here', shown, leads⟩ := turn.step_within listed inside here rest
          exact .inr ⟨stmt, s', rfl, here', shown, leads⟩

theorem sameRun (turn : Turn b after m others p) (oracle : List Event → Bool) (n : Nat) :
    SameRun (execute b.stmts (guards b.scopes) oracle n)
      (execute after.stmts (guards after.scopes) oracle n) := by
  have bounds := turn.treatment.plans.ready.bounds
  refine execute_inStep turn.inStep ?_ oracle n
  have first : p.shift 0 = 0 := CopyPlan.shift_of_lt (by omega)
  have start : Follows p others ⟨0, []⟩ ⟨p.shift 0, []⟩ := by
    refine .outside ?_ .nil
    rw [← Bool.not_eq_true, Span.contains_iff, turn.treatment.plans.ready.handler_eq]
    simp only
    omega
  rw [first] at start
  exact start

end Turn

end Destack.Inlining
