import Destack.Proofs.Exit.Closed

namespace Destack.Inlining

def guards (scopes : List Marked) : List (Scope Ty) :=
  (scopes.filter fun m => Waits m).map (·.scope)

theorem mem_guards {scopes : List Marked} {s : Scope Ty} :
    s ∈ guards scopes ↔ ∃ o ∈ scopes, Waits o ∧ o.scope = s := by
  simp [guards, and_assoc]

theorem guarding_guards {scopes : List Marked} (laid : ∀ o ∈ scopes, o.scope.Laid)
    (nested : scopes.Pairwise fun s t => s.scope.Nested t.scope)
    (distinct : scopes.Pairwise fun s t => Waits s → Waits t → s.scope.trySpan ≠ t.scope.trySpan) :
    Guarding (guards scopes) where
  laid := by
    intro s member
    obtain ⟨o, inList, -, rfl⟩ := mem_guards.mp member
    exact laid o inList
  nested := by
    rw [guards, List.pairwise_map]
    exact nested.filter _
  distinct := by
    rw [guards, List.pairwise_map]
    refine (distinct.filter _).imp_of_mem fun {s t} first second different => ?_
    have waits := (List.mem_filter.mp first).2
    have waits' := (List.mem_filter.mp second).2
    exact different (of_decide_eq_true waits) (of_decide_eq_true waits')

theorem Orderly.guarding {b : Inlining} (orderly : b.Orderly) : Guarding (guards b.scopes) :=
  guarding_guards (List.forall_mem_map.mp orderly.sound.laid)
    (List.pairwise_map.mp orderly.sound.nested) orderly.distinct

/-- The treatment of a scope that waits and lies in no other waiting scope. -/
structure Turn (b after : Inlining) (m : Marked) (others : List Marked) (p : CopyPlan) : Prop where
  treatment : Treatment b after m others p
  orderly : b.Orderly
  waits : Waits m
  alone : ∀ o ∈ others, Waits o → ¬ p.scope.LiesWithin o.scope

theorem turn_of_outermost {b : Inlining} {number : Nat} {m : Marked} (orderly : b.Orderly)
    (found : b.scopes[number]? = some m) (chosen : number ∈ outermost b.scopes) :
    ∃ others p, Turn b (b.treat number m) m others p := by
  obtain ⟨others, p, treatment, waits, alone⟩ :=
    treatment_of_outermost orderly.sound found chosen
  exact ⟨others, p, treatment, orderly, waits, alone⟩

namespace Turn

variable {b after : Inlining} {m o : Marked} {others : List Marked} {p : CopyPlan}
  {i target exit : Nat} {s : Scope Ty}

theorem mem_guards_before (turn : Turn b after m others p) :
    s ∈ guards b.scopes ↔ s = p.scope ∨ s ∈ guards others := by
  rw [mem_guards, mem_guards, turn.treatment.scope]
  simp only [turn.treatment.listed.mem_iff, List.mem_cons, or_and_right, exists_or,
    exists_eq_left, turn.waits, true_and]
  exact or_congr_left eq_comm

theorem mem_guards_after (turn : Turn b after m others p) :
    s ∈ guards after.scopes ↔ (∃ o ∈ others, Waits o ∧ s = p.shiftScope false o.scope) ∨
      ∃ o ∈ others, Waits o ∧ o.scope.hull.within p.handler = true ∧
        ∃ exit < p.exits.length, s = p.copied exit o.scope := by
  rw [mem_guards]
  constructor
  · rintro ⟨c, member, waits, rfl⟩
    rcases turn.treatment.mem_scopes.mp member with rfl | ⟨o, inList, rfl⟩ |
      ⟨o, inList, fits, exit, bound, rfl⟩
    · cases waits.1
    · exact .inl ⟨o, inList, Treatment.waits_placed.mp waits, rfl⟩
    · exact .inr ⟨o, inList, Treatment.waits_duplicate.mp waits, fits, exit, bound, rfl⟩
  · rintro (⟨o, inList, waits, rfl⟩ | ⟨o, inList, waits, fits, exit, bound, rfl⟩)
    · exact ⟨placed p o, turn.treatment.mem_scopes.mpr (.inr (.inl ⟨o, inList, rfl⟩)),
        Treatment.waits_placed.mpr waits, rfl⟩
    · exact ⟨duplicate p exit o,
        turn.treatment.mem_scopes.mpr (.inr (.inr ⟨o, inList, fits, exit, bound, rfl⟩)),
        Treatment.waits_duplicate.mpr waits, rfl⟩

theorem guarding_others (turn : Turn b after m others p) : Guarding (guards others) := by
  refine guarding_guards (fun o inList => (turn.treatment.other o inList).laid)
    turn.treatment.nested ?_
  have before := (turn.treatment.listed.pairwise_iff fun {s t} different second first =>
    (different first second).symm).mp turn.orderly.distinct
  exact (List.pairwise_cons.mp before).2

theorem guarding_after (turn : Turn b after m others p) : Guarding (guards after.scopes) :=
  (turn.treatment.orderly turn.orderly).guarding

theorem waiting_cases (turn : Turn b after m others p) (inList : o ∈ others) (waits : Waits o) :
    o.scope.hull.within p.scope.trySpan = true ∨ o.scope.hull.within p.handler = true ∨
      o.scope.Apart p.scope := by
  have before := (turn.treatment.listed.pairwise_iff fun {s t} different second first =>
    (different first second).symm).mp turn.orderly.distinct
  have different := (List.pairwise_cons.mp before).1 o inList turn.waits waits
  rcases (turn.treatment.other o inList).nested with ⟨r, region, fits⟩ | around | apart | siblings
  · rw [Scope.spans_of_isFinally turn.treatment.plans.ready.final, List.mem_cons,
      List.mem_singleton] at region
    rcases region with rfl | rfl
    · exact .inl fits
    · exact .inr (.inl fits)
  · exact absurd around (turn.alone o inList waits)
  · exact .inr (.inr apart)
  · rw [← turn.treatment.scope] at different
    exact absurd siblings.1.symm different

theorem inHull (turn : Turn b after m others p) (inList : o ∈ others)
    (here : o.scope.inTry i = true) : o.scope.hull.contains i = true :=
  Span.contains_of_within
    ((turn.treatment.other o inList).laid.span_within_hull o.scope.trySpan_mem) here

theorem handlerBegin_inHull (turn : Turn b after m others p) (inList : o ∈ others) :
    o.scope.hull.contains o.scope.handlerBegin = true := by
  have laid := (turn.treatment.other o inList).laid
  refine Span.contains_of_within (laid.span_within_hull o.scope.handlerSpan_mem) ?_
  exact Span.contains_iff.mpr ⟨le_rfl, laid.handlerBegin_lt⟩

theorem try_outside_handler (turn : Turn b after m others p) (here : p.scope.inTry i = true) :
    p.handler.contains i = false := by
  refine Span.not_contains_of_clear ?_ here
  rw [Span.not_overlaps_iff]
  exact .inr turn.treatment.plans.ready.laid.tryEnd_le_handlerBegin

theorem handlerBegin_outside (turn : Turn b after m others p) (inList : o ∈ others)
    (waits : Waits o) (out : p.handler.contains i = false) (here : o.scope.inTry i = true) :
    p.handler.contains o.scope.handlerBegin = false := by
  -- The handler of a guard of a position outside the treated handler is outside of it too.
  rcases turn.waiting_cases inList waits with fits | fits | apart
  · exact turn.try_outside_handler
      (Span.contains_of_within fits (turn.handlerBegin_inHull inList))
  · rw [Span.contains_of_within fits (turn.inHull inList here)] at out
    cases out
  · refine Span.not_contains_of_clear (apart _ o.scope.handlerSpan_mem _ p.scope.handlerSpan_mem) ?_
    exact Span.contains_iff.mpr ⟨le_rfl, (turn.treatment.other o inList).laid.handlerBegin_lt⟩

theorem hull_inside (turn : Turn b after m others p) (inList : o ∈ others) (waits : Waits o)
    (inside : p.handler.contains i = true) (here : o.scope.inTry i = true) :
    o.scope.hull.within p.handler = true := by
  rcases turn.waiting_cases inList waits with fits | fits | apart
  · have := turn.try_outside_handler (Span.contains_of_within fits (turn.inHull inList here))
    rw [inside] at this
    cases this
  · exact fits
  · have := Span.not_contains_of_clear
      (apart _ o.scope.trySpan_mem _ p.scope.handlerSpan_mem) here
    change p.handler.contains i = false at this
    rw [inside] at this
    cases this

theorem crossed_before_of_stays (turn : Turn b after m others p)
    (stays : p.scope.inTry i = true → p.scope.inTry target = true) :
    crossed (guards b.scopes) i target = crossed (guards others) i target := by
  refine turn.orderly.guarding.crossed_eq turn.guarding_others.chain_crossed fun s => ?_
  rw [mem_crossed, turn.mem_guards_before]
  constructor
  · rintro ⟨guard, here, out⟩
    exact ⟨.inr guard, here, out⟩
  · rintro ⟨rfl | guard, here, out⟩
    · rw [stays here] at out
      cases out
    · exact ⟨guard, here, out⟩

theorem crossed_before_of_exit (turn : Turn b after m others p) (here : p.scope.inTry i = true)
    (out : p.scope.inTry target = false) :
    crossed (guards b.scopes) i target = crossed (guards others) i target ++ [p.scope] := by
  refine turn.orderly.guarding.crossed_eq ?_ fun s => ?_
  · rw [List.pairwise_append]
    refine ⟨turn.guarding_others.chain_crossed, List.pairwise_singleton _ _, ?_⟩
    intro s member t last
    obtain rfl := List.mem_singleton.mp last
    obtain ⟨guard, inside, -⟩ := mem_crossed.mp member
    obtain ⟨o, inList, waits, rfl⟩ := mem_guards.mp guard
    rcases turn.waiting_cases inList waits with fits | fits | apart
    · exact fits
    · have := turn.try_outside_handler here
      rw [Span.contains_of_within fits (turn.inHull inList inside)] at this
      cases this
    · have := Span.not_contains_of_clear (apart _ o.scope.trySpan_mem _ p.scope.trySpan_mem) inside
      rw [Scope.inTry] at here
      rw [here] at this
      cases this
  · rw [List.mem_append, List.mem_singleton, mem_crossed, turn.mem_guards_before]
    constructor
    · rintro (⟨guard, inside, left⟩ | rfl)
      · exact ⟨.inr guard, inside, left⟩
      · exact ⟨.inl rfl, here, out⟩
    · rintro ⟨rfl | guard, inside, left⟩
      · exact .inr rfl
      · exact .inl ⟨guard, inside, left⟩

theorem hull_shiftScope_within (turn : Turn b after m others p) {o o' : Marked}
    (inList : o ∈ others) (inList' : o' ∈ others)
    (inside : o.scope.hull.within o'.scope.trySpan = true) :
    (p.shiftScope false o.scope).hull.within (p.shiftScope false o'.scope).trySpan = true := by
  have ready := turn.treatment.plans.ready
  have other := turn.treatment.other o inList
  have mono := p.shift_strictMono.monotone
  have ends : (p.shiftScope false o.scope).handlerEnd ≤ p.shift o.scope.handlerEnd := by
    simp only [CopyPlan.shiftScope, CopyPlan.shiftEnd, CopyPlan.shift]
    split
    · rename_i moved
      simp only [Bool.or_eq_true, Bool.and_eq_true, decide_eq_true_eq] at moved
      rw [if_pos (by omega)]
    · split <;> omega
  rw [(CopyPlan.laid_shiftScope ready other).hull_eq,
    CopyPlan.trySpan_shiftScope ready (turn.treatment.other o' inList'), Span.within_iff]
  rw [other.laid.hull_eq, Span.within_iff] at inside
  exact ⟨mono inside.1, ends.trans (mono inside.2)⟩

theorem chain_map_shiftScope (turn : Turn b after m others p) :
    ((crossed (guards others) i target).map (p.shiftScope false)).Pairwise
      fun s t => s.hull.within t.trySpan = true := by
  rw [List.pairwise_map]
  refine turn.guarding_others.chain_crossed.imp_of_mem fun {s t} first second inside => ?_
  obtain ⟨o, inList, -, rfl⟩ := mem_guards.mp (mem_crossed.mp first).1
  obtain ⟨o', inList', -, rfl⟩ := mem_guards.mp (mem_crossed.mp second).1
  exact turn.hull_shiftScope_within inList inList' inside

theorem crossed_after_of_moved (turn : Turn b after m others p) {next : Nat}
    (same : ∀ o ∈ others, Waits o → o.scope.inTry i = true →
      (p.shiftScope false o.scope).inTry next = o.scope.inTry target) :
    crossed (guards after.scopes) (p.shift i) next =
      (crossed (guards others) i target).map (p.shiftScope false) := by
  have ready := turn.treatment.plans.ready
  refine turn.guarding_after.crossed_eq turn.chain_map_shiftScope fun s => ?_
  rw [List.mem_map, turn.mem_guards_after]
  constructor
  · rintro ⟨s, member, rfl⟩
    obtain ⟨guard, here, out⟩ := mem_crossed.mp member
    obtain ⟨o, inList, waits, rfl⟩ := mem_guards.mp guard
    refine ⟨.inl ⟨o, inList, waits, rfl⟩, ?_, ?_⟩
    · rw [CopyPlan.inTry_shiftScope ready (turn.treatment.other o inList), here]
    · rw [same o inList waits here, out]
  · rintro ⟨⟨o, inList, waits, rfl⟩ | ⟨o, inList, waits, fits, exit, bound, rfl⟩, here, out⟩
    · rw [CopyPlan.inTry_shiftScope ready (turn.treatment.other o inList)] at here
      rw [same o inList waits here] at out
      exact ⟨o.scope, mem_crossed.mpr ⟨mem_guards.mpr ⟨o, inList, waits, rfl⟩, here, out⟩, rfl⟩
    · rw [Scope.inTry, CopyPlan.copied_shift ready (turn.treatment.other o inList).laid fits bound
        (Scope.trySpan_mem _)] at here
      cases here

theorem crossed_after_of_stays (turn : Turn b after m others p) :
    crossed (guards after.scopes) (p.shift i) (p.shift target) =
      (crossed (guards others) i target).map (p.shiftScope false) :=
  turn.crossed_after_of_moved fun o inList _ _ =>
    CopyPlan.inTry_shiftScope turn.treatment.plans.ready (turn.treatment.other o inList)

theorem crossed_after_of_exit (turn : Turn b after m others p)
    (listed : p.exits[exit]? = some (i, target)) :
    crossed (guards after.scopes) i (p.copyStart exit) =
      (crossed (guards others) i target).map (p.shiftScope false) := by
  have ready := turn.treatment.plans.ready
  obtain ⟨here, -, out⟩ := turn.treatment.plans.mem_exits.mp (List.mem_of_getElem? listed)
  have copy := CopyPlan.copies_contains ready (Treatment.exit_bound listed)
    turn.treatment.handlerBegin_mem
  rw [CopyPlan.handler_add_offset ready] at copy
  conv_lhs => rw [← turn.treatment.exit_shift listed]
  refine turn.crossed_after_of_moved fun o inList waits inside => ?_
  rw [CopyPlan.inTry_copies ready (turn.treatment.other o inList) (turn.alone o inList waits) copy,
    eq_comm, ← Bool.not_eq_true]
  intro stays
  rcases turn.waiting_cases inList waits with fits | fits | apart
  · rw [Scope.inTry, Span.contains_of_within fits (turn.inHull inList stays)] at out
    cases out
  · have := turn.try_outside_handler here
    rw [Span.contains_of_within fits (turn.inHull inList inside)] at this
    cases this
  · have := Span.not_contains_of_clear (apart _ o.scope.trySpan_mem _ p.scope.trySpan_mem) inside
    rw [Scope.inTry] at here
    rw [here] at this
    cases this

theorem crossed_after_of_copy (turn : Turn b after m others p) (bound : exit < p.exits.length)
    (inside : p.handler.contains i = true) (stays : p.handler.contains target = true) :
    crossed (guards after.scopes) (i + p.offset exit) (target + p.offset exit) =
      (crossed (guards others) i target).map (p.copied exit) := by
  have ready := turn.treatment.plans.ready
  have mono := p.offset_strictMono exit
  have inTry {o : Marked} (inList : o ∈ others) (fits : o.scope.hull.within p.handler = true)
      {k : Nat} (inside : p.handler.contains k = true) (exit' : Nat) :
      (p.copied exit' o.scope).inTry (k + p.offset exit) =
        (decide (exit' = exit) && o.scope.inTry k) :=
    CopyPlan.copied_contains ready (turn.treatment.other o inList).laid fits inside
      o.scope.trySpan_mem exit
  refine turn.guarding_after.crossed_eq ?_ fun s => ?_
  · rw [List.pairwise_map]
    refine turn.guarding_others.chain_crossed.imp fun {s t} fits => ?_
    change (s.mapBounds (· + p.offset exit)).hull.within (t.trySpan.map (· + p.offset exit)) = true
    rw [Scope.hull_mapBounds mono.monotone, Span.within_map mono]
    exact fits
  · rw [List.mem_map, turn.mem_guards_after]
    constructor
    · rintro ⟨s, member, rfl⟩
      obtain ⟨guard, here, out⟩ := mem_crossed.mp member
      obtain ⟨o, inList, waits, rfl⟩ := mem_guards.mp guard
      have fits := turn.hull_inside inList waits inside here
      refine ⟨.inr ⟨o, inList, waits, fits, exit, bound, rfl⟩, ?_, ?_⟩
      · rw [inTry inList fits inside, here, decide_eq_true rfl, Bool.and_true]
      · rw [inTry inList fits stays, out, Bool.and_false]
    · rintro ⟨⟨o, inList, waits, rfl⟩ | ⟨o, inList, waits, fits, exit', bound', rfl⟩, here, out⟩
      · rw [CopyPlan.inTry_copies ready (turn.treatment.other o inList) (turn.alone o inList waits)
          (CopyPlan.copies_contains ready bound inside)] at here
        cases here
      · rw [inTry inList fits inside, Bool.and_eq_true, decide_eq_true_eq] at here
        obtain ⟨rfl, here⟩ := here
        rw [inTry inList fits stays, decide_eq_true rfl, Bool.true_and] at out
        exact ⟨o.scope, mem_crossed.mpr ⟨mem_guards.mpr ⟨o, inList, waits, rfl⟩, here, out⟩, rfl⟩

end Turn
end Destack.Inlining
