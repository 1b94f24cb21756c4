import Destack.Proofs.Exit.Closed

/-!
# How often a scope is going to be treated

A waiting scope in the handlers of other waiting scopes is treated once for each way to pick an
exit, or none, of each of those: its weight is the product of the numbers of their exits, each with
one added. A scope that is treated lies in no waiting handler, so its weight is one. The weight of a
scope in its handler is shared out among that scope and its copies, and no other weight changes.
-/

namespace Destack

namespace Inlining

/-! ## Lists -/

theorem flatMap_singletons {α β : Type} (l : List α) (q : α → Bool) (f : α → β) :
    (l.flatMap fun a => if q a then [f a] else []) = (l.filter q).map f := by
  induction l with
  | nil => rfl
  | cons a l ih =>
      rw [List.flatMap_cons, ih]
      cases chosen : q a <;> simp [chosen]

theorem sum_shared {α : Type} {l : List α} {q : α → Bool} {v w : α → Nat} {joining : α → List Nat}
    (kept : ∀ a ∈ l, q a = false → v a = w a)
    (joined : ∀ a ∈ l, q a = true → v a + (joining a).sum = w a) :
    (l.map v).sum + ((l.filter q).flatMap joining).sum = (l.map w).sum := by
  induction l with
  | nil => rfl
  | cons a l ih =>
      have later := ih (fun b member => kept b (List.mem_cons_of_mem a member))
        (fun b member => joined b (List.mem_cons_of_mem a member))
      simp only [List.map_cons, List.sum_cons]
      cases chosen : q a with
      | false =>
          have first := kept a List.mem_cons_self chosen
          rw [List.filter_cons_of_neg (by simp [chosen])]
          omega
      | true =>
          have first := joined a List.mem_cons_self chosen
          rw [List.filter_cons_of_pos chosen, List.flatMap_cons, List.sum_append]
          omega

/-! ## Exits -/

theorem length_exits_eq {stmts stmts' : List Stmt} {s s' : Scope Ty} {f : Nat → Nat}
    (inj : Function.Injective f)
    (origin : ∀ k goal, (k, goal) ∈ exits stmts' s' → ∃ i target, (i, target) ∈ exits stmts s ∧
      f i = k)
    (moved : ∀ i target, (i, target) ∈ exits stmts s → ∃ goal, (f i, goal) ∈ exits stmts' s') :
    (exits stmts' s').length = (exits stmts s).length := by
  have alike : ((exits stmts' s').map (·.1)).Perm (((exits stmts s).map (·.1)).map f) := by
    refine (List.perm_ext_iff_of_nodup exits_nodup (exits_nodup.map inj)).mpr fun k => ?_
    rw [List.map_map, List.mem_map, List.mem_map]
    constructor
    · rintro ⟨⟨k, goal⟩, listed, rfl⟩
      obtain ⟨i, target, listed', same⟩ := origin k goal listed
      exact ⟨(i, target), listed', same⟩
    · rintro ⟨⟨i, target⟩, listed, rfl⟩
      obtain ⟨goal, listed'⟩ := moved i target listed
      exact ⟨(f i, goal), listed', rfl⟩
  simpa only [List.length_map] using alike.length_eq

theorem length_exits_lt (stmts : List Stmt) (s : Scope Ty) :
    (exits stmts s).length < stmts.length + 1 := by
  refine Nat.lt_succ_of_le ((List.length_filterMap_le _ _).trans ?_)
  rw [List.length_zipIdx, slice, List.length_take, List.length_drop]
  omega

namespace Treatment

variable {b after : Inlining} {m o a : Marked} {others : List Marked} {p : CopyPlan}

theorem exits_eq (treatment : Treatment b after m others p) :
    p.exits = exits b.stmts m.scope := by
  rw [treatment.plans.planned, treatment.scope]
  rfl

theorem leave_mapTarget {f : Nat → Nat} {stmt : Stmt} {goal : Nat}
    (leaves : stmt.mapTarget f = .leave goal) :
    ∃ target, stmt = .leave target ∧ goal = f target := by
  cases stmt with
  | leave target =>
      cases leaves
      exact ⟨target, rfl, rfl⟩
  | _ => cases leaves

theorem exit_leaves (treatment : Treatment b after m others p) (inList : o ∈ others)
    (beside : ¬ p.scope.LiesWithin o.scope) {l target exit : Nat}
    (numbered : p.exits[exit]? = some (l, target)) (here : o.scope.inTry l = true) :
    o.scope.inTry target = false := by
  have ready := treatment.plans.ready
  have other := treatment.other o inList
  obtain ⟨inTry, -, outTry⟩ := treatment.plans.mem_exits.mp (List.mem_of_getElem? numbered)
  have inHull {j : Nat} (inside : o.scope.inTry j = true) : o.scope.hull.contains j = true :=
    Span.contains_of_within (other.laid.span_within_hull o.scope.trySpan_mem) inside
  rcases other.nested with ⟨r, region, fits⟩ | around | apart | siblings
  · obtain rfl : r = p.scope.trySpan := ready.laid.span_unique region p.scope.trySpan_mem
      (Span.contains_of_within fits (inHull here)) inTry
    rw [← Bool.not_eq_true]
    intro stays
    rw [Scope.inTry, Span.contains_of_within fits (inHull stays)] at outTry
    cases outTry
  · exact absurd around beside
  · have := Span.not_contains_of_clear (apart _ o.scope.trySpan_mem _ p.scope.trySpan_mem) here
    rw [Scope.inTry] at inTry
    rw [inTry] at this
    cases this
  · rw [Scope.inTry, siblings.1]
    exact outTry

theorem exits_placed (treatment : Treatment b after m others p) (inList : o ∈ others)
    (beside : ¬ p.scope.LiesWithin o.scope) :
    (exits after.stmts (p.shiftScope false o.scope)).length = (exits b.stmts o.scope).length := by
  have ready := treatment.plans.ready
  have other := treatment.other o inList
  have inTry (i : Nat) : (p.shiftScope false o.scope).inTry (p.shift i) = o.scope.inTry i :=
    CopyPlan.inTry_shiftScope ready other
  have copies {exit i : Nat} (bound : exit < p.exits.length)
      (inside : p.handler.contains i = true) :
      (p.shiftScope false o.scope).inTry (i + p.offset exit) = false :=
    CopyPlan.inTry_copies ready other beside (CopyPlan.copies_contains ready bound inside)
  refine length_exits_eq p.shift_strictMono.injective (fun k goal listed => ?_)
    fun i target listed => ?_
  · obtain ⟨here, found, out⟩ := mem_exits.mp listed
    rcases treatment.getElem?_stmts found with ⟨i, original, rfl, origin, -, same⟩ |
      ⟨target, exit, numbered, same⟩ | ⟨exit, l, target, i, original, numbered, inside, rfl, -, -⟩
    · obtain ⟨target, rfl, rfl⟩ := leave_mapTarget same.symm
      rw [inTry] at here out
      exact ⟨i, target, mem_exits.mpr ⟨here, origin, out⟩, rfl⟩
    · rw [← treatment.exit_shift numbered, inTry] at here
      have found' := (treatment.exit_leads numbered).1
      exact ⟨k, target, mem_exits.mpr ⟨here, found',
        treatment.exit_leaves inList beside numbered here⟩, treatment.exit_shift numbered⟩
    · -- The copies are outside of the protected region.
      rw [copies (exit_bound numbered) inside] at here
      cases here
  · obtain ⟨here, found, out⟩ := mem_exits.mp listed
    rw [← inTry] at here out
    by_cases stays : ∀ target, (i, target) ∉ p.exits
    · have moved := treatment.plans.spliced_moved stays
      rw [← treatment.stmts, found] at moved
      exact ⟨p.shift target, mem_exits.mpr ⟨here, moved, out⟩⟩
    · -- An exit of the treated scope leads to a copy now, which is outside as well.
      obtain ⟨goal, leaves⟩ := not_forall_not.mp stays
      obtain ⟨exit, numbered⟩ := List.getElem?_of_mem leaves
      have led := treatment.plans.spliced_exit numbered
      rw [← treatment.stmts, ← treatment.exit_shift numbered] at led
      have clear := copies (exit_bound numbered) treatment.handlerBegin_mem
      rw [CopyPlan.handler_add_offset ready] at clear
      exact ⟨p.copyStart exit, mem_exits.mpr ⟨here, led, clear⟩⟩

theorem exits_duplicate (treatment : Treatment b after m others p) (inList : o ∈ others)
    (fits : o.scope.hull.within p.handler = true) {number : Nat}
    (numbered : number < p.exits.length) :
    (exits after.stmts (p.copied number o.scope)).length = (exits b.stmts o.scope).length := by
  have ready := treatment.plans.ready
  have laid := (treatment.other o inList).laid
  have atShift (i : Nat) : (p.copied number o.scope).inTry (p.shift i) = false :=
    CopyPlan.copied_shift ready laid fits numbered (Scope.trySpan_mem _)
  have atCopy {i : Nat} (exit : Nat) (inside : p.handler.contains i = true) :
      (p.copied number o.scope).inTry (i + p.offset exit) =
        (decide (number = exit) && o.scope.inTry i) :=
    CopyPlan.copied_contains ready laid fits inside o.scope.trySpan_mem exit
  have inHandler {i : Nat} (inside : o.scope.inTry i = true) : p.handler.contains i = true :=
    Span.contains_of_within (Span.within_trans (laid.span_within_hull o.scope.trySpan_mem) fits)
      inside
  have goal (target : Nat) : (p.copied number o.scope).inTry
      (p.copyTarget (p.copyStart number) target) = o.scope.inTry target := by
    rw [CopyPlan.Plans.copyTarget_eq ready]
    split
    · rename_i stays
      rw [atCopy number stays, decide_eq_true rfl, Bool.true_and]
    · rename_i leaves
      rw [atShift, eq_comm, ← Bool.not_eq_true]
      exact fun stays => leaves (inHandler stays)
  refine length_exits_eq (p.offset_strictMono number).injective (fun k goal' listed => ?_)
    fun i target listed => ?_
  · obtain ⟨here, found, out⟩ := mem_exits.mp listed
    rcases treatment.getElem?_stmts found with ⟨i, -, rfl, -⟩ | ⟨target, exit, listed', -⟩ |
      ⟨exit, l, target, i, original, listed', inside, rfl, origin, same⟩
    · rw [atShift] at here
      cases here
    · rw [← treatment.exit_shift listed', atShift] at here
      cases here
    · rw [atCopy exit inside, Bool.and_eq_true, decide_eq_true_eq] at here
      obtain ⟨rfl, here⟩ := here
      split at same
      · cases same
      obtain ⟨target, rfl, rfl⟩ := leave_mapTarget same.symm
      rw [goal] at out
      exact ⟨i, target, mem_exits.mpr ⟨here, origin, out⟩, rfl⟩
  · obtain ⟨here, found, out⟩ := mem_exits.mp listed
    have inside := inHandler here
    have copied := treatment.plans.spliced_copy (List.getElem?_eq_getElem numbered) inside
    rw [← treatment.stmts, found] at copied
    refine ⟨p.copyTarget (p.copyStart number) target, mem_exits.mpr ⟨?_, copied, ?_⟩⟩
    · rw [atCopy number inside, decide_eq_true rfl, here]
      rfl
    · rw [goal, out]

/-! ## Handlers around a scope -/

theorem hull_contains_tryBegin {s : Scope Ty} (laid : s.Laid) :
    s.hull.contains s.tryBegin = true :=
  Span.contains_of_within (laid.span_within_hull s.trySpan_mem)
    (Span.contains_iff.mpr ⟨le_rfl, laid.tryBegin_lt⟩)

theorem hull_within_shiftScope (treatment : Treatment b after m others p) (inList : o ∈ others)
    (inList' : a ∈ others) :
    (p.shiftScope false o.scope).hull.within (p.shiftScope false a.scope).handlerSpan =
      o.scope.hull.within a.scope.handlerSpan := by
  have ready := treatment.plans.ready
  have other := treatment.other o inList
  have other' := treatment.other a inList'
  have mono := p.shift_strictMono
  have starts := p.le_shift a.scope.handlerBegin
  have ends := p.le_shift a.scope.handlerEnd
  have ends' := p.le_shift o.scope.handlerEnd
  have positive := other.laid.tryBegin_lt
  have := other.laid.tryEnd_le_handlerBegin
  have := other.laid.handlerBegin_lt
  by_cases within : o.scope.LiesWithin p.scope <;> by_cases within' : a.scope.LiesWithin p.scope
  · rw [CopyPlan.shiftScope_inside ready other.laid within,
      CopyPlan.shiftScope_inside ready other'.laid within']
  · -- The handler may end behind the copies, and then it is around the scope before and after.
    have bounds := CopyPlan.inside_bounds ready other.laid within
    rw [CopyPlan.shiftScope_inside ready other.laid within,
      CopyPlan.shiftScope_outside ready other' within', Bool.eq_iff_iff, Span.within_iff,
      Span.within_iff, other.laid.hull_eq]
    simp only [Scope.handlerSpan, Scope.mapBounds]
    constructor
    · rintro ⟨first, last⟩
      refine ⟨by omega, ?_⟩
      by_contra before
      rw [CopyPlan.shift_of_lt (show a.scope.handlerEnd < p.place by omega)] at last
      omega
    · rintro ⟨first, last⟩
      rw [CopyPlan.shift_of_lt (show a.scope.handlerBegin < p.place by omega)]
      omega
  · have bounds := CopyPlan.inside_bounds ready other'.laid within'
    have outside : o.scope.hull.within a.scope.handlerSpan = false := by
      rw [← Bool.not_eq_true]
      intro fits
      exact within (Scope.LiesWithin.trans other'.laid ⟨_, a.scope.handlerSpan_mem, fits⟩ within')
    rw [outside, CopyPlan.shiftScope_outside ready other within,
      CopyPlan.shiftScope_inside ready other'.laid within',
      Scope.hull_mapBounds mono.monotone, ← Bool.not_eq_true]
    intro fits
    rw [other.laid.hull_eq, Span.within_iff] at fits
    simp only [Span.map, Scope.handlerSpan] at fits
    rw [CopyPlan.shift_of_lt (show o.scope.tryBegin < p.place by omega)] at fits
    rw [← Bool.not_eq_true, other.laid.hull_eq, Span.within_iff] at outside
    exact outside ⟨fits.1, by simp only [Scope.handlerSpan]; omega⟩
  · rw [CopyPlan.shiftScope_outside ready other within,
      CopyPlan.shiftScope_outside ready other' within', Scope.hull_mapBounds mono.monotone]
    change (o.scope.hull.map p.shift).within (a.scope.handlerSpan.map p.shift) = _
    exact Span.within_map mono

theorem hull_within_copied (treatment : Treatment b after m others p) (inList : o ∈ others)
    (inList' : a ∈ others) (fits : o.scope.hull.within p.handler = true)
    (fits' : a.scope.hull.within p.handler = true) (exit exit' : Nat) :
    (p.copied exit o.scope).hull.within (p.copied exit' a.scope).handlerSpan =
      (decide (exit' = exit) && o.scope.hull.within a.scope.handlerSpan) := by
  -- A copied scope lies in a copied handler exactly if both are copies for one exit.
  have laid := (treatment.other o inList).laid
  have made : (p.copied exit o.scope).Laid := CopyPlan.laid_copied laid
  by_cases same : exit' = exit
  · subst same
    have mono := p.offset_strictMono exit'
    rw [decide_eq_true rfl, Bool.true_and]
    change (o.scope.mapBounds (· + p.offset exit')).hull.within
      (a.scope.handlerSpan.map (· + p.offset exit')) = _
    rw [Scope.hull_mapBounds mono.monotone, Span.within_map mono]
  · rw [decide_eq_false same, Bool.false_and, ← Bool.not_eq_true]
    intro inside
    have starts := Span.contains_of_within inside (hull_contains_tryBegin made)
    have apart := CopyPlan.apart_copied treatment.plans.ready laid
      (treatment.other a inList').laid fits fits' (Ne.symm same)
    have clear := Span.not_contains_of_clear (apart _ (Scope.trySpan_mem _) _
      (Scope.handlerSpan_mem _)) (Span.contains_iff.mpr ⟨le_rfl, made.tryBegin_lt⟩)
    exact Bool.false_ne_true (clear.symm.trans starts)

theorem not_within_copied (treatment : Treatment b after m others p) (inList : o ∈ others)
    (inList' : a ∈ others) (fits : a.scope.hull.within p.handler = true) {exit : Nat}
    (bound : exit < p.exits.length) :
    (p.shiftScope false o.scope).hull.within (p.copied exit a.scope).handlerSpan = false := by
  have ready := treatment.plans.ready
  have moved := CopyPlan.laid_shiftScope ready (treatment.other o inList)
  have starts : (p.shiftScope false o.scope).hull.contains (p.shift o.scope.tryBegin) = true :=
    hull_contains_tryBegin moved
  rw [← Bool.not_eq_true]
  intro inside
  have there := Span.contains_of_within inside starts
  rw [CopyPlan.copied_shift ready (treatment.other a inList').laid fits bound
    (Scope.handlerSpan_mem _)] at there
  cases there

theorem copied_not_within (treatment : Treatment b after m others p) (inList : o ∈ others)
    (inList' : a ∈ others) (beside : ¬ p.scope.LiesWithin a.scope)
    (fits : o.scope.hull.within p.handler = true) {exit : Nat} (bound : exit < p.exits.length) :
    (p.copied exit o.scope).hull.within (p.shiftScope false a.scope).handlerSpan = false := by
  have ready := treatment.plans.ready
  have made : (p.copied exit o.scope).Laid := CopyPlan.laid_copied (treatment.other o inList).laid
  have inHull := hull_contains_tryBegin made
  have copy := Span.contains_of_within (Span.within_trans (CopyPlan.hull_copied ready fits)
    (p.copySpan_within bound)) inHull
  have clear := Span.not_contains_of_clear (CopyPlan.copies_clear_of_beside ready
    (treatment.other a inList') beside _ (Scope.handlerSpan_mem _)) copy
  rw [← Bool.not_eq_true]
  intro inside
  rw [Span.contains_of_within inside inHull] at clear
  cases clear

theorem hull_within_of_shared (treatment : Treatment b after m others p) (inList : o ∈ others)
    (inList' : a ∈ others) (beside : ¬ p.scope.LiesWithin a.scope)
    (fits : o.scope.hull.within p.handler = true)
    (inside : o.scope.hull.within a.scope.handlerSpan = true) :
    a.scope.hull.within p.handler = true := by
  have ready := treatment.plans.ready
  have laid := (treatment.other o inList).laid
  have other := treatment.other a inList'
  have here := hull_contains_tryBegin laid
  have shared := Span.contains_of_within inside here
  have there : p.scope.handlerSpan.contains o.scope.tryBegin = true :=
    Span.contains_of_within fits here
  by_cases within : a.scope.LiesWithin p.scope
  · obtain ⟨r, region, whole⟩ := within
    have inRegion := Span.contains_of_within (Span.within_trans
      (other.laid.span_within_hull a.scope.handlerSpan_mem) whole) shared
    obtain rfl : r = p.scope.handlerSpan :=
      ready.laid.span_unique region p.scope.handlerSpan_mem inRegion there
    exact whole
  · have clear := Span.not_contains_of_clear (other.nested.handler_clear other.laid ready.laid
      ready.final within beside _ a.scope.handlerSpan_mem) shared
    rw [there] at clear
    cases clear

end Treatment

/-! ## Weights -/

/-- The number of ways to pick an exit, or none, of each waiting scope with a handler around the
given scope. -/
def weight (stmts : List Stmt) (scopes : List Marked) (s : Scope Ty) : Nat :=
  ((scopes.filter fun a => Waits a && s.hull.within a.scope.handlerSpan).map fun a =>
    (exits stmts a.scope).length + 1).prod

theorem weight_eq_one {stmts : List Stmt} {scopes : List Marked} {s : Scope Ty}
    (clear : ∀ a ∈ scopes, Waits a → s.hull.within a.scope.handlerSpan = false) :
    weight stmts scopes s = 1 := by
  have none : (scopes.filter fun a => Waits a && s.hull.within a.scope.handlerSpan) = [] := by
    rw [List.filter_eq_nil_iff]
    intro a member counted
    rw [Bool.and_eq_true, decide_eq_true_eq] at counted
    rw [clear a member counted.1] at counted
    cases counted.2
  rw [weight, none]
  rfl

theorem weight_le (stmts : List Stmt) (scopes : List Marked) (s : Scope Ty) :
    weight stmts scopes s ≤ (stmts.length + 1) ^ scopes.length := by
  have each : ∀ x ∈ (scopes.filter fun a => Waits a && s.hull.within a.scope.handlerSpan).map
      fun a => (exits stmts a.scope).length + 1, x ≤ stmts.length + 1 := by
    rw [List.forall_mem_map]
    exact fun a _ => length_exits_lt stmts a.scope
  refine (List.prod_le_pow_card _ _ each).trans (Nat.pow_le_pow_right (Nat.succ_pos _) ?_)
  rw [List.length_map]
  exact List.length_filter_le _ _

namespace Treatment

variable {b after : Inlining} {m o : Marked} {others : List Marked} {p : CopyPlan}

theorem weight_before (treatment : Treatment b after m others p) (waits : Waits m) (s : Scope Ty) :
    weight b.stmts b.scopes s =
      (if s.hull.within p.handler then p.exits.length + 1 else 1) * weight b.stmts others s := by
  rw [weight, ((treatment.listed.filter _).map _).prod_eq, CopyPlan.handler, treatment.scope,
    treatment.exits_eq]
  cases fits : s.hull.within m.scope.handlerSpan with
  | true =>
      rw [List.filter_cons_of_pos (by simp [waits, fits]), List.map_cons, List.prod_cons]
      rfl
  | false =>
      rw [List.filter_cons_of_neg (by simp [fits])]
      exact (Nat.one_mul _).symm

theorem weight_treated (treatment : Treatment b after m others p) (waits : Waits m)
    (alone : ∀ o ∈ others, Waits o → ¬ p.scope.LiesWithin o.scope) :
    weight b.stmts b.scopes m.scope = 1 := by
  have outside : m.scope.hull.within p.handler = false := by
    rw [← Bool.not_eq_true]
    intro fits
    refine treatment.plans.ready.laid.not_within_self ⟨_, p.scope.handlerSpan_mem, ?_⟩
    rw [← treatment.scope] at fits
    exact fits
  rw [treatment.weight_before waits, outside]
  refine (Nat.one_mul _).trans (weight_eq_one fun a inList waits' => ?_)
  rw [← Bool.not_eq_true]
  intro inside
  refine alone a inList waits' ⟨_, a.scope.handlerSpan_mem, ?_⟩
  rw [treatment.scope]
  exact inside

theorem weight_after (treatment : Treatment b after m others p) (s : Scope Ty) :
    weight after.stmts after.scopes s =
      weight after.stmts (others.map (placed p)) s * weight after.stmts p.copiedScopes s := by
  rw [weight, ((treatment.scopes.filter _).map _).prod_eq,
    List.filter_cons_of_neg (by simp [Waits]), List.filter_append, List.map_append,
    List.prod_append]
  rfl

theorem weight_placed (treatment : Treatment b after m others p)
    (alone : ∀ o ∈ others, Waits o → ¬ p.scope.LiesWithin o.scope) (inList : o ∈ others) :
    weight after.stmts after.scopes (p.shiftScope false o.scope) =
      weight b.stmts others o.scope := by
  have copies : weight after.stmts p.copiedScopes (p.shiftScope false o.scope) = 1 := by
    refine weight_eq_one fun c made _ => ?_
    obtain ⟨a, inList', fits, exit, bound, rfl⟩ := treatment.mem_copiedScopes.mp made
    exact treatment.not_within_copied inList inList' fits bound
  rw [treatment.weight_after, copies, Nat.mul_one, weight, List.filter_map, List.map_map, weight]
  have same : others.filter ((fun a => decide (Waits a) &&
      (p.shiftScope false o.scope).hull.within a.scope.handlerSpan) ∘ placed p) =
        others.filter fun a => Waits a && o.scope.hull.within a.scope.handlerSpan := by
    refine List.filter_congr fun a inList' => ?_
    simp only [Function.comp_apply, waits_placed]
    exact congrArg (decide (Waits a) && ·) (treatment.hull_within_shiftScope inList inList')
  rw [same]
  refine congrArg List.prod (List.map_congr_left fun a counted => ?_)
  obtain ⟨inList', counted⟩ := List.mem_filter.mp counted
  rw [Bool.and_eq_true, decide_eq_true_eq] at counted
  exact congrArg (· + 1) (treatment.exits_placed inList' (alone a inList' counted.1))

theorem filter_copiedScopes (treatment : Treatment b after m others p)
    (alone : ∀ o ∈ others, Waits o → ¬ p.scope.LiesWithin o.scope) (inList : o ∈ others)
    (fits : o.scope.hull.within p.handler = true) {exit : Nat} (bound : exit < p.exits.length) :
    (p.copiedScopes.filter fun c => decide (Waits c) &&
        (p.copied exit o.scope).hull.within c.scope.handlerSpan) =
      (others.filter fun a => Waits a && o.scope.hull.within a.scope.handlerSpan).map
        (duplicate p exit) := by
  let around (a : Marked) : Bool := Waits a && o.scope.hull.within a.scope.handlerSpan
  rw [treatment.copiedScopes_eq, List.filter_flatMap]
  have each : ∀ a ∈ others.filter fun a => a.scope.hull.within p.handler,
      (((List.range p.exits.length).map fun exit' => duplicate p exit' a).filter fun c =>
        decide (Waits c) && (p.copied exit o.scope).hull.within c.scope.handlerSpan) =
      if around a then [duplicate p exit a] else [] := by
    intro a kept
    obtain ⟨inList', fits'⟩ := List.mem_filter.mp kept
    have test (exit' : Nat) : (decide (Waits (duplicate p exit' a)) &&
        (p.copied exit o.scope).hull.within (duplicate p exit' a).scope.handlerSpan) =
          (exit' == exit && around a) := by
      simp only [waits_duplicate]
      change (_ && (p.copied exit o.scope).hull.within (p.copied exit' a.scope).handlerSpan) = _
      rw [treatment.hull_within_copied inList inList' fits fits', beq_eq_decide,
        Bool.and_left_comm]
    rw [List.filter_map]
    simp only [Function.comp_def, test]
    cases around a with
    | false => simp
    | true =>
        have once := List.count_eq_one_of_mem List.nodup_range (List.mem_range.mpr bound)
        simp [List.filter_beq, once]
  rw [List.flatMap_congr each, flatMap_singletons, List.filter_filter]
  congr 1
  refine List.filter_congr fun a inList' => ?_
  change (around a && a.scope.hull.within p.handler) = around a
  cases counted : around a with
  | false => rfl
  | true =>
      simp only [around, Bool.and_eq_true, decide_eq_true_eq] at counted
      exact treatment.hull_within_of_shared inList inList' (alone a inList' counted.1) fits
        counted.2

theorem weight_duplicate (treatment : Treatment b after m others p)
    (alone : ∀ o ∈ others, Waits o → ¬ p.scope.LiesWithin o.scope) (inList : o ∈ others)
    (fits : o.scope.hull.within p.handler = true) {exit : Nat} (bound : exit < p.exits.length) :
    weight after.stmts after.scopes (p.copied exit o.scope) = weight b.stmts others o.scope := by
  have moved : weight after.stmts (others.map (placed p)) (p.copied exit o.scope) = 1 := by
    refine weight_eq_one fun c there waits => ?_
    obtain ⟨a, inList', rfl⟩ := List.mem_map.mp there
    exact treatment.copied_not_within inList inList' (alone a inList' (waits_placed.mp waits)) fits
      bound
  rw [treatment.weight_after, moved, Nat.one_mul, weight,
    treatment.filter_copiedScopes alone inList fits bound, List.map_map, weight]
  refine congrArg List.prod (List.map_congr_left fun a counted => ?_)
  obtain ⟨inList', counted⟩ := List.mem_filter.mp counted
  rw [Bool.and_eq_true, decide_eq_true_eq] at counted
  have fits' := treatment.hull_within_of_shared inList inList' (alone a inList' counted.1) fits
    counted.2
  exact congrArg (· + 1) (treatment.exits_duplicate inList' fits' bound)

theorem weight_shared (treatment : Treatment b after m others p) (waits : Waits m)
    (alone : ∀ o ∈ others, Waits o → ¬ p.scope.LiesWithin o.scope) {α : Type} {entries : List α}
    (entry : α → Marked) (listed : ∀ x ∈ entries, entry x ∈ others) (v : α → Nat) :
    (entries.map fun x =>
        v x * weight after.stmts after.scopes (p.shiftScope false (entry x).scope)).sum +
      ((entries.filter fun x => (entry x).scope.hull.within p.handler).flatMap fun x =>
        (List.range p.exits.length).map fun exit =>
          v x * weight after.stmts after.scopes (p.copied exit (entry x).scope)).sum =
      (entries.map fun x => v x * weight b.stmts b.scopes (entry x).scope).sum := by
  refine sum_shared (fun x member outside => ?_) fun x member fits => ?_
  · rw [treatment.weight_placed alone (listed x member), treatment.weight_before waits, outside]
    exact congrArg (v x * ·) (Nat.one_mul _).symm
  · have copies : ((List.range p.exits.length).map fun exit =>
        v x * weight after.stmts after.scopes (p.copied exit (entry x).scope)) =
          (List.range p.exits.length).map fun _ => v x * weight b.stmts others (entry x).scope :=
      List.map_congr_left fun exit bound => by
        rw [treatment.weight_duplicate alone (listed x member) fits (List.mem_range.mp bound)]
    rw [copies, List.map_const', List.sum_replicate, List.length_range, smul_eq_mul,
      treatment.weight_placed alone (listed x member), treatment.weight_before waits, fits]
    simp only [↓reduceIte]
    ring

end Treatment

/-! ## Totals -/

def load (v : List Stmt → Scope Ty → Nat) (b : Inlining) : Nat :=
  (b.scopes.map fun m =>
    (if Waits m then v b.stmts m.scope else 0) * weight b.stmts b.scopes m.scope).sum

theorem load_eq_zero {v : List Stmt → Scope Ty → Nat} {b : Inlining}
    (settled : ∀ m ∈ b.scopes, ¬ Waits m) : load v b = 0 := by
  rw [load, List.sum_eq_zero_iff, List.forall_mem_map]
  intro m member
  rw [if_neg (settled m member), Nat.zero_mul]

/-- A treatment takes away what the treated scope counts, if moved and copied scopes count what they
did before. -/
theorem Treatment.load_eq {b after : Inlining} {m : Marked} {others : List Marked} {p : CopyPlan}
    (treatment : Treatment b after m others p) (waits : Waits m)
    (alone : ∀ o ∈ others, Waits o → ¬ p.scope.LiesWithin o.scope)
    {v : List Stmt → Scope Ty → Nat}
    (moved : ∀ o ∈ others, ¬ p.scope.LiesWithin o.scope →
      v after.stmts (p.shiftScope false o.scope) = v b.stmts o.scope)
    (copied : ∀ o ∈ others, o.scope.hull.within p.handler = true → ∀ exit < p.exits.length,
      v after.stmts (p.copied exit o.scope) = v b.stmts o.scope) :
    load v b = v b.stmts m.scope + load v after := by
  let count (o : Marked) : Nat := if Waits o then v b.stmts o.scope else 0
  have shared := treatment.weight_shared waits alone id (fun o inList => inList) count
  have before : load v b = v b.stmts m.scope +
      (others.map fun o => count o * weight b.stmts b.scopes o.scope).sum := by
    rw [load, (treatment.listed.map _).sum_eq, List.map_cons, List.sum_cons, if_pos waits,
      treatment.weight_treated waits alone, Nat.mul_one]
  rw [before, load, (treatment.scopes.map _).sum_eq, List.map_cons, List.sum_cons,
    if_neg (by simp [Waits]), Nat.zero_mul, Nat.zero_add, List.map_append, List.sum_append,
    treatment.copiedScopes_eq, List.map_flatMap, List.map_map]
  refine congrArg (v b.stmts m.scope + ·) (shared.symm.trans ?_)
  congr 2
  · refine List.map_congr_left fun o inList => ?_
    simp only [Function.comp_apply, waits_placed, count, id]
    by_cases waits' : Waits o
    · rw [if_pos waits', if_pos waits', ← moved o inList (alone o inList waits')]
      rfl
    · rw [if_neg waits', if_neg waits']
      rfl
  · refine List.flatMap_congr fun o kept => ?_
    obtain ⟨inList, fits⟩ := List.mem_filter.mp kept
    rw [List.map_map]
    refine List.map_congr_left fun exit bound => ?_
    simp only [Function.comp_apply, waits_duplicate, count, id]
    rw [← copied o inList fits exit (List.mem_range.mp bound)]
    rfl

end Inlining

end Destack
