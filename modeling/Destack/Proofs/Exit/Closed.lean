import Destack.Proofs.Exit.Execution
import Destack.Proofs.Exit.Positions
import Destack.Proofs.Exit.Run

namespace Destack

theorem Stmt.fallsThrough_mapTarget (f : Nat → Nat) (s : Stmt) :
    (s.mapTarget f).fallsThrough = s.fallsThrough := by
  cases s <;> rfl

theorem Scope.cleansUp_of_isFinally {s : Scope Ty} (final : s.isFinally = true) :
    s.cleansUp = true := by
  simp [cleansUp, final]

theorem HandlerKind.isFinally_mapStart (f : Nat → Nat) (kind : HandlerKind Ty) :
    (kind.mapStart f).isFinally = kind.isFinally := by
  cases kind <;> rfl

theorem HandlerKind.isFault_mapStart (f : Nat → Nat) (kind : HandlerKind Ty) :
    (kind.mapStart f).isFault = kind.isFault := by
  cases kind <;> rfl

theorem Span.map_injective {f : Nat → Nat} (inj : Function.Injective f) :
    Function.Injective (Span.map f) := by
  rintro ⟨first, last⟩ ⟨first', last'⟩ same
  simp only [Span.map, Span.mk.injEq] at same
  rw [inj same.1, inj same.2]

theorem Scope.Apart.trySpan_ne {s t : Scope Ty} (laid : s.Laid) (apart : s.Apart t) :
    s.trySpan ≠ t.trySpan := by
  intro same
  have clear := apart _ s.trySpan_mem _ t.trySpan_mem
  have := laid.tryBegin_lt
  rw [← same, Span.not_overlaps_iff] at clear
  simp only [Scope.trySpan] at clear
  omega

namespace CopyPlan

variable {p : CopyPlan} {s : Scope Ty}

theorem isFinally_shiftScope (itself : Bool) :
    (p.shiftScope itself s).isFinally = s.isFinally :=
  HandlerKind.isFinally_mapStart _ _

theorem cleansUp_shiftScope (itself : Bool) : (p.shiftScope itself s).cleansUp = s.cleansUp := by
  simp only [Scope.cleansUp, Scope.isFinally, Scope.isFault, shiftScope,
    HandlerKind.isFinally_mapStart, HandlerKind.isFault_mapStart]

theorem isFinally_copied (exit : Nat) : (p.copied exit s).isFinally = s.isFinally :=
  HandlerKind.isFinally_mapStart _ _

theorem cleansUp_copied (exit : Nat) : (p.copied exit s).cleansUp = s.cleansUp := by
  simp only [Scope.cleansUp, Scope.isFinally, Scope.isFault, copied, Scope.mapBounds,
    HandlerKind.isFinally_mapStart, HandlerKind.isFault_mapStart]

theorem hull_within_handler (ready : p.Ready) (other : p.Other s)
    (inside : s.handlerSpan.within p.handler = true) : s.hull.within p.handler = true := by
  have bounds := ready.bounds
  have positive := other.laid.handlerBegin_lt
  have here : s.handlerSpan.contains s.handlerBegin = true := by
    rw [Span.contains_iff]
    exact ⟨le_rfl, positive⟩
  have there : p.handler.contains s.handlerBegin = true := Span.contains_of_within inside here
  have meets : ¬ s.handlerSpan.overlaps p.scope.handlerSpan = false := fun clear => by
    have := Span.not_contains_of_clear clear here
    change p.handler.contains s.handlerBegin = false at this
    rw [there] at this
    cases this
  by_cases within : s.LiesWithin p.scope
  · obtain ⟨r, region, fits⟩ := within
    have shared := Span.contains_of_within
      (Span.within_trans (other.laid.span_within_hull s.handlerSpan_mem) fits) here
    obtain rfl : r = p.scope.handlerSpan :=
      ready.laid.span_unique region p.scope.handlerSpan_mem shared there
    exact fits
  by_cases around : p.scope.LiesWithin s
  · -- The treated scope would lie in the handler, which lies in its own handler.
    obtain ⟨r, region, fits⟩ := around
    have shared := Span.contains_of_within
      (Span.within_trans (ready.laid.span_within_hull p.scope.handlerSpan_mem) fits) there
    obtain rfl : r = s.handlerSpan := other.laid.span_unique region s.handlerSpan_mem shared here
    have whole := Span.within_trans fits inside
    rw [ready.hull_eq, ready.handler_eq, Span.within_iff] at whole
    simp only at whole
    omega
  · exact absurd (other.nested.handler_clear other.laid ready.laid ready.final within around _
      s.handlerSpan_mem) meets

theorem handlerBegin_not_mem (other : p.Other s) (inside : s.hull.within p.handler = true) :
    s.handlerSpan.contains p.scope.handlerBegin = false := by
  have := other.laid.tryBegin_lt
  have := other.laid.tryEnd_le_handlerBegin
  rw [other.laid.hull_eq, Span.within_iff] at inside
  have starts : p.scope.handlerBegin ≤ s.tryBegin := inside.1
  rw [← Bool.not_eq_true, Span.contains_iff]
  simp only [Scope.handlerSpan]
  omega

end CopyPlan

namespace Inlining

inductive Step (p : CopyPlan) (stmts : List Stmt) (others : List Marked) : Nat → Nat → Prop
  | moved {i next : Nat} {stmt : Stmt} (here : stmts[i]? = some stmt)
      (leads : next ∈ stmt.successors i) : Step p stmts others (p.shift i) (p.shift next)
  | enters {exit l target : Nat} (listed : p.exits[exit]? = some (l, target)) :
      Step p stmts others l (p.copyStart exit)
  | inside {exit i next : Nat} {stmt : Stmt} (bound : exit < p.exits.length)
      (here : stmts[i]? = some stmt) (leads : next ∈ stmt.successors i)
      (inside : p.handler.contains i = true) (stays : p.handler.contains next = true) :
      Step p stmts others (i + p.offset exit) (next + p.offset exit)
  | returns {exit l target i : Nat} (listed : p.exits[exit]? = some (l, target))
      (inside : p.handler.contains i = true)
      (ends : inInnerHandler others p.handler i = false) :
      Step p stmts others (i + p.offset exit) (p.shift target)

namespace Treatment

variable {b after : Inlining} {m : Marked} {others : List Marked} {p : CopyPlan}

theorem handler_closed (treatment : Treatment b after m others p)
    (closed : HandlersClosed b.stmts (b.scopes.map (·.scope))) {i next : Nat} {stmt : Stmt}
    (here : b.stmts[i]? = some stmt) (leads : next ∈ stmt.successors i) :
    p.handler.contains i = p.handler.contains next := by
  refine closed i stmt here next leads p.scope ?_
    (Scope.cleansUp_of_isFinally treatment.plans.ready.final)
  rw [treatment.scope]
  exact List.mem_map_of_mem (treatment.listed.mem_iff.mpr List.mem_cons_self)

theorem shift_succ (treatment : Treatment b after m others p)
    (closed : HandlersClosed b.stmts (b.scopes.map (·.scope))) {i : Nat} {stmt : Stmt}
    (here : b.stmts[i]? = some stmt) (follows : i + 1 ∈ stmt.successors i) :
    p.shift (i + 1) = p.shift i + 1 := by
  -- Control does not fall out of the handler, so nothing falls into the copies.
  have ready := treatment.plans.ready
  have stays := treatment.handler_closed closed here follows
  rw [Bool.eq_iff_iff, Span.contains_iff, Span.contains_iff, ready.handler_eq] at stays
  have := ready.bounds
  simp only at stays
  unfold CopyPlan.shift
  split <;> split <;> omega

theorem step (treatment : Treatment b after m others p)
    (closed : HandlersClosed b.stmts (b.scopes.map (·.scope))) {k next : Nat} {stmt : Stmt}
    (found : after.stmts[k]? = some stmt) (leads : next ∈ stmt.successors k) :
    Step p b.stmts others k next := by
  have ready := treatment.plans.ready
  rcases treatment.getElem?_stmts found with ⟨i, original, rfl, here, -, rfl⟩ |
    ⟨target, exit, listed, rfl⟩ | ⟨exit, l, target, i, original, listed, inside, rfl, here, rfl⟩
  · rw [Stmt.mem_successors, Stmt.target?_mapTarget, Stmt.fallsThrough_mapTarget] at leads
    rcases leads with jumps | ⟨falls, rfl⟩
    · obtain ⟨goal, goes, rfl⟩ := Option.map_eq_some_iff.mp jumps
      exact .moved here (Stmt.mem_successors.mpr (.inl goes))
    · have follows : i + 1 ∈ original.successors i := Stmt.mem_successors.mpr (.inr ⟨falls, rfl⟩)
      rw [← treatment.shift_succ closed here follows]
      exact .moved here follows
  · rw [Stmt.mem_successors] at leads
    rcases leads with jumps | ⟨falls, -⟩
    · cases jumps
      exact .enters listed
    · cases falls
  · have bound := (List.getElem?_eq_some_iff.mp listed).1
    split at leads
    · rename_i ends
      rw [Stmt.mem_successors] at leads
      rcases leads with jumps | ⟨falls, -⟩
      · cases jumps
        simp only [CopyPlan.ends, Bool.and_eq_true, Bool.not_eq_true'] at ends
        exact .returns listed inside ends.2
      · cases falls
    · rw [Stmt.mem_successors, Stmt.target?_mapTarget, Stmt.fallsThrough_mapTarget] at leads
      rcases leads with jumps | ⟨falls, rfl⟩
      · obtain ⟨goal, goes, rfl⟩ := Option.map_eq_some_iff.mp jumps
        have follows : goal ∈ original.successors i := Stmt.mem_successors.mpr (.inl goes)
        have stays := (treatment.handler_closed closed here follows).symm.trans inside
        rw [CopyPlan.Plans.copyTarget_eq ready, if_pos stays]
        exact .inside bound here follows inside stays
      · have follows : i + 1 ∈ original.successors i := Stmt.mem_successors.mpr (.inr ⟨falls, rfl⟩)
        have stays := (treatment.handler_closed closed here follows).symm.trans inside
        rw [Nat.add_right_comm]
        exact .inside bound here follows inside stays

section Exits

variable {exit l target : Nat}

theorem exit_leads (treatment : Treatment b after m others p)
    (listed : p.exits[exit]? = some (l, target)) :
    b.stmts[l]? = some (.leave target) ∧ target ∈ (Stmt.leave target).successors l :=
  ⟨(treatment.plans.mem_exits.mp (List.mem_of_getElem? listed)).2.1,
    Stmt.mem_successors.mpr (.inl rfl)⟩

theorem exit_bound (listed : p.exits[exit]? = some (l, target)) : exit < p.exits.length :=
  (List.getElem?_eq_some_iff.mp listed).1

theorem exit_shift (treatment : Treatment b after m others p)
    (listed : p.exits[exit]? = some (l, target)) : p.shift l = l :=
  CopyPlan.shift_of_lt (treatment.plans.exit_lt_place (List.mem_of_getElem? listed))

theorem exit_outside (treatment : Treatment b after m others p)
    (listed : p.exits[exit]? = some (l, target)) : p.handler.contains l = false := by
  have here := (treatment.plans.mem_exits.mp (List.mem_of_getElem? listed)).1
  refine Span.not_contains_of_clear ?_ here
  rw [Span.not_overlaps_iff]
  exact .inr treatment.plans.ready.laid.tryEnd_le_handlerBegin

theorem target_outside (treatment : Treatment b after m others p)
    (closed : HandlersClosed b.stmts (b.scopes.map (·.scope)))
    (listed : p.exits[exit]? = some (l, target)) : p.handler.contains target = false := by
  have leads := treatment.exit_leads listed
  rw [← treatment.handler_closed closed leads.1 leads.2, treatment.exit_outside listed]

theorem exit_inside (treatment : Treatment b after m others p)
    (listed : p.exits[exit]? = some (l, target)) {o : Marked} (inList : o ∈ others)
    (stays : o.scope.handlerSpan.contains l = o.scope.handlerSpan.contains target) :
    o.scope.handlerSpan.contains l = p.scope.hull.within o.scope.handlerSpan := by
  -- A handler that an exit of the treated scope stays in is around that scope.
  have ready := treatment.plans.ready
  have other := treatment.other o inList
  obtain ⟨here, -, out⟩ := treatment.plans.mem_exits.mp (List.mem_of_getElem? listed)
  have inHull := Span.contains_of_within (ready.laid.span_within_hull p.scope.trySpan_mem) here
  rw [Bool.eq_iff_iff]
  refine ⟨fun inside => ?_, fun fits => Span.contains_of_within fits inHull⟩
  rw [inside, eq_comm] at stays
  rcases other.nested with within | around | apart | siblings
  · obtain ⟨r, region, fits⟩ := within
    have reaches := Span.within_trans (other.laid.span_within_hull o.scope.handlerSpan_mem) fits
    obtain rfl : r = p.scope.trySpan := ready.laid.span_unique region p.scope.trySpan_mem
      (Span.contains_of_within reaches inside) here
    rw [Scope.inTry, Span.contains_of_within reaches stays] at out
    cases out
  · obtain ⟨r, region, fits⟩ := around
    obtain rfl : r = o.scope.handlerSpan := other.laid.span_unique region o.scope.handlerSpan_mem
      (Span.contains_of_within fits inHull) inside
    exact fits
  · have := Span.not_contains_of_clear (apart _ o.scope.handlerSpan_mem _ p.scope.trySpan_mem)
      inside
    rw [Scope.inTry] at here
    rw [here] at this
    cases this
  · rw [Scope.inTry, ← siblings.1] at here
    have := other.laid.span_unique o.scope.trySpan_mem o.scope.handlerSpan_mem here inside
    have := other.laid.tryBegin_lt
    have := other.laid.tryEnd_le_handlerBegin
    simp only [Scope.trySpan, Scope.handlerSpan, Span.mk.injEq] at *
    omega

end Exits

section Handlers

variable {k next : Nat}

theorem handlerBegin_mem (treatment : Treatment b after m others p) :
    p.handler.contains p.scope.handlerBegin = true :=
  Span.contains_iff.mpr ⟨le_rfl, treatment.plans.ready.laid.handlerBegin_lt⟩

theorem copies_behind (treatment : Treatment b after m others p)
    (copy : p.copies.contains k = true) : p.handler.contains k = false := by
  rw [Span.contains_iff] at copy
  rw [← Bool.not_eq_true, Span.contains_iff, treatment.plans.ready.handler_eq]
  simp only [CopyPlan.copies] at copy ⊢
  omega

theorem closed_itself (treatment : Treatment b after m others p)
    (closed : HandlersClosed b.stmts (b.scopes.map (·.scope)))
    (step : Step p b.stmts others k next) : p.handler.contains k = p.handler.contains next := by
  have ready := treatment.plans.ready
  cases step with
  | moved here leads =>
      rw [CopyPlan.handler_shift ready, CopyPlan.handler_shift ready]
      exact treatment.handler_closed closed here leads
  | enters listed =>
      have copy := CopyPlan.copies_contains ready (exit_bound listed) treatment.handlerBegin_mem
      rw [treatment.exit_outside listed, ← CopyPlan.handler_add_offset ready,
        treatment.copies_behind copy]
  | inside bound _ _ inside stays =>
      rw [treatment.copies_behind (CopyPlan.copies_contains ready bound inside),
        treatment.copies_behind (CopyPlan.copies_contains ready bound stays)]
  | returns listed inside _ =>
      have copy := CopyPlan.copies_contains ready (exit_bound listed) inside
      rw [treatment.copies_behind copy, CopyPlan.handler_shift ready,
        treatment.target_outside closed listed]

theorem closed_placed (treatment : Treatment b after m others p)
    (closed : HandlersClosed b.stmts (b.scopes.map (·.scope))) {o : Marked} (inList : o ∈ others)
    (cleans : o.scope.cleansUp = true) (step : Step p b.stmts others k next) :
    (p.shiftScope false o.scope).handlerSpan.contains k =
      (p.shiftScope false o.scope).handlerSpan.contains next := by
  have ready := treatment.plans.ready
  have other := treatment.other o inList
  have stays {i next : Nat} {stmt : Stmt} (here : b.stmts[i]? = some stmt)
      (leads : next ∈ stmt.successors i) :
      o.scope.handlerSpan.contains i = o.scope.handlerSpan.contains next :=
    closed i stmt here next leads _ (treatment.mem_before inList) cleans
  have exitStays {exit l target : Nat} (listed : p.exits[exit]? = some (l, target)) :
      o.scope.handlerSpan.contains l = o.scope.handlerSpan.contains target :=
    stays (treatment.exit_leads listed).1 (treatment.exit_leads listed).2
  cases step with
  | moved here leads =>
      rw [CopyPlan.handlerSpan_shiftScope ready other, CopyPlan.handlerSpan_shiftScope ready other]
      exact stays here leads
  | enters listed =>
      have copy := CopyPlan.copies_contains ready (exit_bound listed) treatment.handlerBegin_mem
      rw [← CopyPlan.handler_add_offset ready, CopyPlan.handlerSpan_copies ready other copy,
        ← treatment.exit_inside listed inList (exitStays listed),
        ← CopyPlan.handlerSpan_shiftScope ready other, treatment.exit_shift listed]
  | inside bound _ _ inside stays =>
      rw [CopyPlan.handlerSpan_copies ready other (CopyPlan.copies_contains ready bound inside),
        CopyPlan.handlerSpan_copies ready other (CopyPlan.copies_contains ready bound stays)]
  | returns listed inside _ =>
      have copy := CopyPlan.copies_contains ready (exit_bound listed) inside
      rw [CopyPlan.handlerSpan_copies ready other copy, CopyPlan.handlerSpan_shiftScope ready other,
        ← exitStays listed, treatment.exit_inside listed inList (exitStays listed)]

theorem closed_duplicate (treatment : Treatment b after m others p)
    (closed : HandlersClosed b.stmts (b.scopes.map (·.scope))) {o : Marked} (inList : o ∈ others)
    (cleans : o.scope.cleansUp = true) (fits : o.scope.hull.within p.handler = true) {number : Nat}
    (numbered : number < p.exits.length) (step : Step p b.stmts others k next) :
    (p.copied number o.scope).handlerSpan.contains k =
      (p.copied number o.scope).handlerSpan.contains next := by
  have ready := treatment.plans.ready
  have other := treatment.other o inList
  have atShift (i : Nat) : (p.copied number o.scope).handlerSpan.contains (p.shift i) = false :=
    CopyPlan.copied_shift ready other.laid fits numbered (Scope.handlerSpan_mem _)
  have atCopy {i : Nat} (exit : Nat) (inside : p.handler.contains i = true) :
      (p.copied number o.scope).handlerSpan.contains (i + p.offset exit) =
        (decide (number = exit) && o.scope.handlerSpan.contains i) :=
    CopyPlan.copied_contains ready other.laid fits inside o.scope.handlerSpan_mem exit
  cases step with
  | moved => rw [atShift, atShift]
  | @enters exit _ _ listed =>
      rw [← treatment.exit_shift listed, atShift, ← CopyPlan.handler_add_offset ready,
        atCopy exit treatment.handlerBegin_mem, CopyPlan.handlerBegin_not_mem other fits,
        Bool.and_false]
  | @inside exit i next stmt bound here leads inside stays =>
      rw [atCopy exit inside, atCopy exit stays,
        closed i stmt here next leads _ (treatment.mem_before inList) cleans]
  | @returns exit _ _ i listed inside ends =>
      have outside : o.scope.handlerSpan.contains i = false := by
        have whole := Span.within_trans (other.laid.span_within_hull o.scope.handlerSpan_mem) fits
        simp only [inInnerHandler, List.any_eq_false] at ends
        have alone := ends o inList
        rw [Scope.cleansUp] at cleans
        simpa [cleans, whole] using alone
      rw [atCopy exit inside, atShift, outside, Bool.and_false]

theorem closed (treatment : Treatment b after m others p)
    (closed : HandlersClosed b.stmts (b.scopes.map (·.scope))) :
    HandlersClosed after.stmts (after.scopes.map (·.scope)) := by
  intro k stmt here next leads c member cleans
  obtain ⟨c, listed, rfl⟩ := List.mem_map.mp member
  have step := treatment.step closed here leads
  rcases treatment.mem_scopes.mp listed with rfl | ⟨o, inList, rfl⟩ |
    ⟨o, inList, fits, number, numbered, rfl⟩
  · rw [← treatment.scope]
    exact treatment.closed_itself closed step
  · rw [placed, CopyPlan.cleansUp_shiftScope] at cleans
    exact treatment.closed_placed closed inList cleans step
  · rw [duplicate, CopyPlan.cleansUp_copied] at cleans
    exact treatment.closed_duplicate closed inList cleans fits numbered step

end Handlers

section Guards

theorem waits_placed {o : Marked} : Waits (placed p o) ↔ Waits o := by
  simp only [Waits, placed, CopyPlan.isFinally_shiftScope]

theorem waits_duplicate {exit : Nat} {o : Marked} : Waits (duplicate p exit o) ↔ Waits o := by
  simp only [Waits, duplicate, CopyPlan.isFinally_copied]

theorem trySpan_copied_ne (treatment : Treatment b after m others p) {o o' : Marked}
    (inList : o ∈ others) (inList' : o' ∈ others) (fits : o'.scope.hull.within p.handler = true)
    {exit : Nat} (bound : exit < p.exits.length) :
    (p.shiftScope false o.scope).trySpan ≠ (p.copied exit o'.scope).trySpan := by
  have ready := treatment.plans.ready
  have other' := treatment.other o' inList'
  intro same
  rw [CopyPlan.trySpan_shiftScope ready (treatment.other o inList)] at same
  have first : p.shift o.scope.tryBegin = (p.copied exit o'.scope).tryBegin :=
    congrArg Span.first same
  have outside := CopyPlan.copied_shift (i := o.scope.tryBegin) ready other'.laid fits bound
    (Scope.trySpan_mem _)
  rw [first, ← Bool.not_eq_true, Span.contains_iff] at outside
  exact outside ⟨le_rfl, (CopyPlan.laid_copied other'.laid).tryBegin_lt⟩

theorem distinct (treatment : Treatment b after m others p)
    (distinct : b.scopes.Pairwise fun s t =>
      Waits s → Waits t → s.scope.trySpan ≠ t.scope.trySpan) :
    after.scopes.Pairwise fun s t => Waits s → Waits t → s.scope.trySpan ≠ t.scope.trySpan := by
  have ready := treatment.plans.ready
  have before := (treatment.listed.pairwise_iff fun {s t} different second first =>
    (different first second).symm).mp distinct
  rw [List.pairwise_cons] at before
  refine (treatment.scopes.pairwise_iff fun {s t} different second first =>
    (different first second).symm).mpr ?_
  rw [List.pairwise_cons, List.pairwise_append, List.pairwise_map, treatment.copiedScopes_eq,
    List.pairwise_flatMap]
  refine ⟨?_, ?_, ⟨?_, ?_⟩, ?_⟩
  · rintro c - waits
    cases waits.1
  · refine before.2.imp_of_mem fun {s t} first second different waits waits' => ?_
    simp only [placed]
    rw [CopyPlan.trySpan_shiftScope ready (treatment.other s first),
      CopyPlan.trySpan_shiftScope ready (treatment.other t second)]
    have apart := different (waits_placed.mp waits) (waits_placed.mp waits')
    exact fun same => apart (Span.map_injective p.shift_strictMono.injective same)
  · intro o kept
    obtain ⟨inList, fits⟩ := List.mem_filter.mp kept
    have laid := (treatment.other o inList).laid
    rw [List.pairwise_map]
    exact List.nodup_range.imp fun different _ _ => Scope.Apart.trySpan_ne
      (CopyPlan.laid_copied laid) (CopyPlan.apart_copied ready laid laid fits fits different)
  · refine (before.2.filter _).imp_of_mem fun {s t} first second different => ?_
    obtain ⟨inList, fits⟩ := List.mem_filter.mp first
    obtain ⟨inList', fits'⟩ := List.mem_filter.mp second
    simp only [List.forall_mem_map]
    intro exit _ exit' _ waits waits'
    by_cases same : exit = exit'
    · subst same
      have apart := different (waits_duplicate.mp waits) (waits_duplicate.mp waits')
      have inj := (p.offset_strictMono exit).injective
      exact fun same => apart (Span.map_injective inj same)
    · have laid := (treatment.other s inList).laid
      exact Scope.Apart.trySpan_ne (CopyPlan.laid_copied laid) (CopyPlan.apart_copied ready laid
        (treatment.other t inList').laid fits fits' same)
  · intro c moved d made _ _
    rw [← treatment.copiedScopes_eq] at made
    obtain ⟨o, inList, rfl⟩ := List.mem_map.mp moved
    obtain ⟨o', inList', fits, exit, bound, rfl⟩ := treatment.mem_copiedScopes.mp made
    exact treatment.trySpan_copied_ne inList inList' fits bound

end Guards

end Treatment

/-- What every body on the way satisfies. -/
structure Orderly (b : Inlining) : Prop where
  sound : Sound b.stmts (b.scopes.map (·.scope))
  closed : HandlersClosed b.stmts (b.scopes.map (·.scope))
  distinct : b.scopes.Pairwise fun s t => Waits s → Waits t → s.scope.trySpan ≠ t.scope.trySpan

theorem Treatment.orderly {b after : Inlining} {m : Marked} {others : List Marked} {p : CopyPlan}
    (treatment : Treatment b after m others p) (orderly : b.Orderly) : after.Orderly where
  sound := treatment.sound orderly.sound
  closed := treatment.closed orderly.closed
  distinct := treatment.distinct orderly.distinct

end Inlining
end Destack
