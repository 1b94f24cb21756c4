import Destack.Proofs.Exit.Splice

namespace Destack

namespace Inlining

/-- The statements `after` are those of `before` with the copies that the plan asks for. -/
structure Relabels (p : CopyPlan) (others : List Marked) (before after : List Stmt) : Prop where
  length : after.length = before.length + p.exits.length * p.handler.length
  places : ∀ k, (∃ i, k = p.shift i) ∨
    ∃ exit j, exit < p.exits.length ∧ j < p.handler.length ∧ k = p.copyStart exit + j
  exits : ∀ i target, (i, target) ∈ p.exits ↔ p.scope.inTry i = true ∧
    before[i]? = some (.leave target) ∧ p.scope.inTry target = false
  moved : ∀ i stmt, before[i]? = some stmt → (∀ target, (i, target) ∉ p.exits) →
    after[p.shift i]? = some (stmt.mapTarget p.shift)
  led : ∀ exit i target, p.exits[exit]? = some (i, target) →
    after[p.shift i]? = some (.leave (p.copyStart exit))
  copied : ∀ exit i target j stmt, p.exits[exit]? = some (i, target) → j < p.handler.length →
    before[p.handler.first + j]? = some stmt → after[p.copyStart exit + j]? = some
      (if p.ends others stmt (p.handler.first + j) then .goto (p.shift target)
      else stmt.mapTarget fun t =>
        if p.handler.contains t then p.copyStart exit + (t - p.handler.first) else p.shift t)
  /-- A branch into a copy starts there, or is the exit that the copy is for. -/
  entered : ∀ k stmt target exit, after[k]? = some stmt → stmt.target? = some target →
    exit < p.exits.length → (p.copySpan exit).contains target = true →
    (p.copySpan exit).contains k = true ∨ ∃ goal, p.exits[exit]? = some (k, goal)
  apart : ∀ k stmt target exit exit', after[k]? = some stmt → stmt.target? = some target →
    exit < p.exits.length → exit' < p.exits.length → (p.copySpan exit).contains k = true →
    (p.copySpan exit').contains target = true → exit = exit'

section Copies

variable {p : CopyPlan} {stmts : List Stmt} {others : List Marked}

theorem copyTarget_eq_add (p : CopyPlan) (exit : Nat) :
    p.copyTarget (p.copyStart exit) = fun t =>
      if p.handler.contains t then p.copyStart exit + (t - p.handler.first) else p.shift t := by
  funext t
  unfold CopyPlan.copyTarget
  split
  · exact Nat.add_comm _ _
  · rfl

theorem copySpan_unique {exit exit' i : Nat} (first : (p.copySpan exit).contains i = true)
    (second : (p.copySpan exit').contains i = true) : exit = exit' := by
  by_contra different
  have clear := p.copySpan_clear different
  rw [Span.contains_iff] at first second
  rw [Span.not_overlaps_iff] at clear
  omega

theorem copySpan_contains_add {exit j : Nat} :
    (p.copySpan exit).contains (p.copyStart exit + j) = true ↔ j < p.handler.length := by
  rw [Span.contains_iff, CopyPlan.copySpan, CopyPlan.copyStart_succ]
  simp only
  omega

theorem shift_not_mem_copySpan {exit : Nat} (bound : exit < p.exits.length) (i : Nat) :
    (p.copySpan exit).contains (p.shift i) ≠ true := by
  intro inside
  have copies := p.shift_not_mem_copies i
  have within := Span.within_iff.mp (p.copySpan_within bound)
  rw [Span.contains_iff] at inside
  rw [← Bool.not_eq_true, Span.contains_iff] at copies
  omega

theorem target_of_copied {exit target goal j : Nat} {stmt : Stmt}
    (branch : (if p.ends others stmt j then Stmt.goto (p.shift goal)
      else stmt.mapTarget (p.copyTarget (p.copyStart exit))).target? = some target) :
    (∃ t, target = p.shift t) ∨
      ∃ k, k < p.handler.length ∧ target = p.copyStart exit + k := by
  split at branch
  · cases branch
    exact .inl ⟨goal, rfl⟩
  · rw [Stmt.target?_mapTarget, copyTarget_eq_add, Option.map_eq_some_iff] at branch
    obtain ⟨t, -, rfl⟩ := branch
    split
    · rename_i inside
      rw [Span.contains_iff] at inside
      exact .inr ⟨_, by rw [Span.length]; omega, rfl⟩
    · exact .inl ⟨t, rfl⟩

theorem spliced_entered (fits : p.Fits stmts others) {k target exit : Nat} {stmt : Stmt}
    (found : (spliced p stmts)[k]? = some stmt) (branch : stmt.target? = some target)
    (bound : exit < p.exits.length) (inside : (p.copySpan exit).contains target = true) :
    (p.copySpan exit).contains k = true ∨ ∃ goal, p.exits[exit]? = some (k, goal) := by
  rcases p.shift_or_copy k with ⟨i, rfl⟩ | ⟨own, j, ownBound, within, rfl⟩
  · by_cases stays : ∀ goal, (i, goal) ∉ p.exits
    · rw [fits.spliced_moved stays, Option.map_eq_some_iff] at found
      obtain ⟨original, -, rfl⟩ := found
      rw [Stmt.target?_mapTarget, Option.map_eq_some_iff] at branch
      obtain ⟨t, -, rfl⟩ := branch
      exact absurd inside (shift_not_mem_copySpan bound t)
    · obtain ⟨goal, leaves⟩ := not_forall_not.mp stays
      obtain ⟨own, listed⟩ := List.getElem?_of_mem leaves
      rw [CopyPlan.shift_of_lt (fits.exit_lt_place leaves)] at found ⊢
      rw [fits.spliced_exit listed, Option.some.injEq] at found
      subst found
      cases branch
      -- The copy is not empty, since the target is in it, so the exit leads to its first statement.
      have starts : (p.copySpan own).contains (p.copyStart own) = true := by
        rw [Span.contains_iff, CopyPlan.copySpan, CopyPlan.copyStart_succ] at inside ⊢
        simp only at inside ⊢
        omega
      exact .inr ⟨goal, copySpan_unique starts inside ▸ listed⟩
  · have listed := List.getElem?_eq_getElem ownBound
    rw [fits.spliced_copyStart listed within, Option.map_eq_some_iff] at found
    obtain ⟨original, -, rfl⟩ := found
    rcases target_of_copied branch with ⟨t, rfl⟩ | ⟨l, length, rfl⟩
    · exact absurd inside (shift_not_mem_copySpan bound t)
    · have same := copySpan_unique (copySpan_contains_add.mpr length) inside
      exact .inl (same ▸ copySpan_contains_add.mpr within)

end Copies

/-- Making the copies of a scope's handler relabels the statements of a body and adds one copy for
each exit, which control enters from that exit only. The scope may be any whose regions lie in the
body; its handler may come before the protected region. -/
theorem apply_relabels (b : Inlining) (number : Nat) (s : Scope Ty) (others : List Marked)
    (tried : s.tryEnd ≤ b.stmts.length) (ordered : s.handlerBegin ≤ s.handlerEnd)
    (bounded : s.handlerEnd ≤ b.stmts.length) :
    Relabels (plan b.stmts s others) others b.stmts
      (b.apply number (plan b.stmts s others)).stmts := by
  have fits : (plan b.stmts s others).Fits b.stmts others := ⟨tried, ordered, bounded, rfl⟩
  change Relabels _ others b.stmts (spliced (plan b.stmts s others) b.stmts)
  generalize plan b.stmts s others = p at fits
  refine
    { length := fits.length_spliced
      places := p.shift_or_copy
      exits := fun _ _ => fits.mem_exits
      moved := ?moved
      led := ?led
      copied := ?copied
      entered := fun _ _ _ _ => spliced_entered fits
      apart := ?apart }
  case moved =>
    intro i stmt here stays
    rw [fits.spliced_moved stays, here, Option.map_some]
  case led =>
    intro exit i target listed
    rw [CopyPlan.shift_of_lt (fits.exit_lt_place (List.mem_of_getElem? listed))]
    exact fits.spliced_exit listed
  case copied =>
    intro exit i target j stmt listed within here
    rw [fits.spliced_copyStart listed within, here, Option.map_some, copyTarget_eq_add]
  case apart =>
    intro k stmt target exit exit' found branch bound bound' inside inside'
    rcases spliced_entered fits found branch bound' inside' with here | ⟨goal, listed⟩
    · exact copySpan_unique inside here
    -- Exits stand before all copies.
    · have before := fits.exit_lt_place (List.mem_of_getElem? listed)
      rw [Span.contains_iff, CopyPlan.copySpan] at inside
      have starts : p.place ≤ p.copyStart exit := Nat.le_add_right _ _
      simp only at inside
      omega

def upfront : Inlining where
  stmts :=
    [.branch ⟨.eq, .param 0, .const (.int32 0), false⟩ 2,
      .set (.localVar 0) (.value (.param 0)),
      .endFinally,
      .branch ⟨.eq, .param 1, .const (.int32 0), false⟩ 5,
      .leave 6,
      .leave 7,
      .set (.localVar 1) (.value (.param 1)),
      .ret none]
  scopes := [⟨⟨.finallyBlock, 3, 6, 0, 3⟩, true⟩]
  copies := 0

theorem upfront_relabels :
    6 ≤ upfront.stmts.length ∧ 0 ≤ 3 ∧ 3 ≤ upfront.stmts.length ∧
      (plan upfront.stmts ⟨.finallyBlock, 3, 6, 0, 3⟩ []).exits = [(4, 6), (5, 7)] ∧
      (upfront.apply 0 (plan upfront.stmts ⟨.finallyBlock, 3, 6, 0, 3⟩ [])).stmts.map
          Stmt.target? =
        [some 2, none, none, some 5, some 6, some 9, some 8, none, some 12, some 11, none, some 13,
          none, none] ∧
      Relabels (plan upfront.stmts ⟨.finallyBlock, 3, 6, 0, 3⟩ []) [] upfront.stmts
        (upfront.apply 0 (plan upfront.stmts ⟨.finallyBlock, 3, 6, 0, 3⟩ [])).stmts :=
  ⟨by decide, by decide, by decide, by decide, by decide,
    apply_relabels upfront 0 ⟨.finallyBlock, 3, 6, 0, 3⟩ [] (by decide) (by decide) (by decide)⟩

end Inlining
end Destack
