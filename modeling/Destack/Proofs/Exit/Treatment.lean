import Destack.Proofs.Exit.Splice
import Destack.Proofs.Exit.Verified

namespace Destack

theorem Stmt.mapTarget_id (s : Stmt) : s.mapTarget id = s := by cases s <;> rfl

namespace Inlining

def placed (p : CopyPlan) (m : Marked) : Marked := { m with scope := p.shiftScope false m.scope }

section NoExits

variable {p : CopyPlan}

theorem growth_of_nil (none : p.exits = []) : p.growth = 0 := by
  rw [CopyPlan.growth, none, List.length_nil, Nat.zero_mul]

theorem shift_of_nil (none : p.exits = []) : p.shift = id := by
  funext i
  rw [CopyPlan.shift, growth_of_nil none]
  exact ite_self i

theorem shiftScope_of_nil (none : p.exits = []) (itself : Bool) (s : Scope Ty) :
    p.shiftScope itself s = s := by
  have ends (first last : Nat) : p.shiftEnd itself first last = last := by
    rw [CopyPlan.shiftEnd, growth_of_nil none]
    exact ite_self last
  have kind : s.kind.mapStart id = s.kind := by cases s.kind <;> rfl
  simp only [CopyPlan.shiftScope, ends, shift_of_nil none, kind, id]

theorem spliced_of_nil (none : p.exits = []) (stmts : List Stmt) : spliced p stmts = stmts := by
  have moved : stmts.map (·.mapTarget p.shift) = stmts := by
    rw [shift_of_nil none]
    exact (List.map_congr_left fun s _ => s.mapTarget_id).trans (List.map_id stmts)
  simp [spliced, redirect, moved, none]

theorem copiedScopes_of_nil (none : p.exits = []) : p.copiedScopes = [] := by
  simp [CopyPlan.copiedScopes, none]

end NoExits

theorem exists_split {α : Type} {l : List α} {n : Nat} {a : α} (found : l[n]? = some a) :
    ∃ left right, l = left ++ a :: right ∧ left.length = n := by
  obtain ⟨bound, here⟩ := List.getElem?_eq_some_iff.mp found
  refine ⟨l.take n, l.drop (n + 1), ?_, by rw [List.length_take]; omega⟩
  rw [← here, ← List.drop_eq_getElem_cons bound, List.take_append_drop]

theorem getElem?_of_mem_split {α : Type} {l left right : List α} {a o : α}
    (split : l = left ++ a :: right) (member : o ∈ left ++ right) :
    ∃ j, j ≠ left.length ∧ l[j]? = some o := by
  rw [split]
  rcases List.mem_append.mp member with before | behind
  · obtain ⟨j, found⟩ := List.getElem?_of_mem before
    have bound := (List.getElem?_eq_some_iff.mp found).1
    exact ⟨j, bound.ne, by rw [List.getElem?_append_left bound, found]⟩
  · obtain ⟨j, found⟩ := List.getElem?_of_mem behind
    refine ⟨left.length + (j + 1), by omega, ?_⟩
    rw [List.getElem?_append_right (by omega), Nat.add_sub_cancel_left]
    exact found

theorem mapIdx_split {α β : Type} (f : Bool → α → β) (left right : List α) (a : α) :
    (left ++ a :: right).mapIdx (fun i x => f (i = left.length) x) =
      left.map (f false) ++ f true a :: right.map (f false) := by
  have plain (l : List α) (g : Nat → α → β) (same : ∀ i, i < l.length → ∀ x, g i x = f false x) :
      l.mapIdx g = l.map (f false) :=
    List.ext_getElem (by simp) fun i _ bound => by simp [same i (by simpa using bound)]
  rw [List.mapIdx_append, List.mapIdx_cons, plain left, plain right]
  · simp
  · intro i _ x
    simp
  · intro i bound x
    simp [bound.ne]

section Treat

variable {b : Inlining} {left right : List Marked} {m : Marked} {p : CopyPlan}

theorem marked_split (split : b.scopes = left ++ m :: right) :
    b.scopes.set left.length { m with done := true } =
      left ++ { m with done := true } :: right := by
  simp [split]

theorem others_split (split : b.scopes = left ++ m :: right) :
    (b.scopes.set left.length { m with done := true }).eraseIdx left.length = left ++ right := by
  rw [marked_split split, List.eraseIdx_append_of_length_le le_rfl, Nat.sub_self]
  rfl

theorem treat_stmts (split : b.scopes = left ++ m :: right)
    (planned : p = plan b.stmts m.scope (left ++ right)) :
    (b.treat left.length m).stmts = spliced p b.stmts := by
  unfold treat
  simp only [others_split split, ← planned]
  split
  · rename_i none
    exact (spliced_of_nil (List.isEmpty_iff.mp none) b.stmts).symm
  · rfl

theorem treat_scopes (split : b.scopes = left ++ m :: right)
    (planned : p = plan b.stmts m.scope (left ++ right)) :
    (b.treat left.length m).scopes =
      left.map (placed p) ++ ⟨p.shiftScope true m.scope, true⟩ :: right.map (placed p) ++
        p.copiedScopes := by
  unfold treat
  simp only [others_split split, ← planned]
  split
  · rename_i none
    rw [List.isEmpty_iff] at none
    have same (l : List Marked) : l.map (placed p) = l :=
      (List.map_congr_left fun o _ => by rw [placed, shiftScope_of_nil none]; rfl).trans
        (List.map_id l)
    rw [same, same, shiftScope_of_nil none, copiedScopes_of_nil none, List.append_nil]
    exact marked_split split
  · simp only [apply, marked_split split]
    exact congrArg (· ++ p.copiedScopes) (mapIdx_split
      (fun itself (o : Marked) => (⟨p.shiftScope itself o.scope, o.done⟩ : Marked)) left right _)

theorem treat_copies (split : b.scopes = left ++ m :: right)
    (planned : p = plan b.stmts m.scope (left ++ right)) :
    (b.treat left.length m).copies = b.copies + p.exits.length := by
  unfold treat
  simp only [others_split split, ← planned]
  split
  · rename_i none
    rw [List.isEmpty_iff.mp none]
    rfl
  · rfl

end Treat

/-- What the treatment of a scope does: `m` is treated beside the `others` after the plan `p`. -/
structure Treatment (b after : Inlining) (m : Marked) (others : List Marked) (p : CopyPlan) :
    Prop where
  plans : p.Plans b.stmts others
  scope : p.scope = m.scope
  listed : b.scopes.Perm (m :: others)
  other : ∀ o ∈ others, p.Other o.scope
  nested : others.Pairwise fun s t => s.scope.Nested t.scope
  stmts : after.stmts = spliced p b.stmts
  scopes : after.scopes.Perm (⟨m.scope, true⟩ :: (others.map (placed p) ++ p.copiedScopes))
  copies : after.copies = b.copies + p.exits.length

theorem treatment_of_split {b : Inlining} {left right : List Marked} {m : Marked}
    (sound : Sound b.stmts (b.scopes.map (·.scope))) (split : b.scopes = left ++ m :: right)
    (final : m.scope.isFinally = true) :
    Treatment b (b.treat left.length m) m (left ++ right)
      (plan b.stmts m.scope (left ++ right)) := by
  have listed : b.scopes.Perm (m :: (left ++ right)) := split ▸ List.perm_middle
  have member {o : Marked} (inList : o ∈ m :: (left ++ right)) :
      o.scope ∈ b.scopes.map (·.scope) :=
    List.mem_map_of_mem (listed.mem_iff.mpr inList)
  have ready : (plan b.stmts m.scope (left ++ right)).Ready :=
    ⟨sound.laid _ (member List.mem_cons_self), final⟩
  have pairs : (m :: (left ++ right)).Pairwise fun s t => s.scope.Nested t.scope := by
    have table := sound.nested
    rw [List.pairwise_map] at table
    exact (listed.pairwise_iff fun h => h.symm).mp table
  rw [List.pairwise_cons] at pairs
  exact
    { plans := .of_ready ready (sound.bounded _ (member List.mem_cons_self)) rfl
      scope := rfl
      listed
      other := fun o inList => ⟨sound.laid _ (member (List.mem_cons_of_mem m inList)),
        (pairs.1 o inList).symm⟩
      nested := pairs.2
      stmts := treat_stmts split rfl
      scopes := by
        have itself : (plan b.stmts m.scope (left ++ right)).shiftScope true m.scope = m.scope :=
          ready.shiftScope_itself
        rw [treat_scopes split rfl, itself, List.map_append]
        simp only [List.append_assoc, List.cons_append]
        exact List.perm_middle
      copies := treat_copies split rfl }

def duplicate (p : CopyPlan) (exit : Nat) (m : Marked) : Marked :=
  { m with scope := p.copied exit m.scope }

namespace Treatment

variable {b after : Inlining} {m : Marked} {others : List Marked} {p : CopyPlan}

theorem nested_eq (treatment : Treatment b after m others p) :
    p.nested = others.filter fun o => o.scope.hull.within p.handler := by
  conv_lhs => rw [treatment.plans.planned]
  rfl

theorem copiedScopes_eq (treatment : Treatment b after m others p) :
    p.copiedScopes = (others.filter fun o => o.scope.hull.within p.handler).flatMap fun o =>
      (List.range p.exits.length).map fun exit => duplicate p exit o := by
  rw [← treatment.nested_eq]
  rfl

theorem mem_copiedScopes (treatment : Treatment b after m others p) {c : Marked} :
    c ∈ p.copiedScopes ↔ ∃ o ∈ others, o.scope.hull.within p.handler = true ∧
      ∃ exit < p.exits.length, c = duplicate p exit o := by
  simp only [treatment.copiedScopes_eq, List.mem_flatMap, List.mem_filter, List.mem_map,
    List.mem_range, and_assoc, eq_comm]

theorem mem_scopes (treatment : Treatment b after m others p) {c : Marked} :
    c ∈ after.scopes ↔ c = ⟨m.scope, true⟩ ∨ (∃ o ∈ others, c = placed p o) ∨
      ∃ o ∈ others, o.scope.hull.within p.handler = true ∧
        ∃ exit < p.exits.length, c = duplicate p exit o := by
  rw [treatment.scopes.mem_iff, List.mem_cons, List.mem_append, treatment.mem_copiedScopes,
    List.mem_map]
  simp only [eq_comm]

theorem length_stmts (treatment : Treatment b after m others p) :
    after.stmts.length = b.stmts.length + p.growth := by
  rw [treatment.stmts, treatment.plans.length_spliced]

theorem mem_before (treatment : Treatment b after m others p) {o : Marked} (inList : o ∈ others) :
    o.scope ∈ b.scopes.map (·.scope) :=
  List.mem_map_of_mem (treatment.listed.mem_iff.mpr (List.mem_cons_of_mem m inList))

theorem shift_lt (treatment : Treatment b after m others p) {target : Nat}
    (bound : target < b.stmts.length) : p.shift target < after.stmts.length := by
  rw [treatment.length_stmts]
  unfold CopyPlan.shift
  split <;> omega

theorem copy_lt (treatment : Treatment b after m others p) {exit i : Nat}
    (bound : exit < p.exits.length) (inside : p.handler.contains i = true) :
    i + p.offset exit < after.stmts.length := by
  have contained := CopyPlan.copySpan_contains treatment.plans.ready exit i
  have reaches := Span.within_iff.mp (p.copySpan_within bound)
  have place := treatment.plans.place_le
  rw [inside, Span.contains_iff] at contained
  rw [treatment.length_stmts]
  simp only [CopyPlan.copies] at reaches
  omega

theorem getElem?_stmts (treatment : Treatment b after m others p) {k : Nat} {stmt : Stmt}
    (found : after.stmts[k]? = some stmt) :
    (∃ i original, k = p.shift i ∧ b.stmts[i]? = some original ∧ (∀ target, (i, target) ∉ p.exits) ∧
      stmt = original.mapTarget p.shift) ∨
    (∃ target exit, p.exits[exit]? = some (k, target) ∧ stmt = .leave (p.copyStart exit)) ∨
    ∃ exit l target i original, p.exits[exit]? = some (l, target) ∧ p.handler.contains i = true ∧
      k = i + p.offset exit ∧ b.stmts[i]? = some original ∧
      stmt = if p.ends others original i then .goto (p.shift target)
        else original.mapTarget (p.copyTarget (p.copyStart exit)) := by
  have plans := treatment.plans
  rw [treatment.stmts] at found
  rcases plans.position_cases k with ⟨i, rfl⟩ | ⟨exit, i, bound, inside, rfl⟩
  · by_cases stays : ∀ target, (i, target) ∉ p.exits
    · rw [plans.spliced_moved stays, Option.map_eq_some_iff] at found
      obtain ⟨original, here, rfl⟩ := found
      exact .inl ⟨i, original, rfl, here, stays, rfl⟩
    · obtain ⟨target, leaves⟩ := not_forall_not.mp stays
      obtain ⟨exit, listed⟩ := List.getElem?_of_mem leaves
      rw [CopyPlan.shift_of_lt (plans.exit_lt_place leaves)] at found ⊢
      rw [plans.spliced_exit listed, Option.some.injEq] at found
      exact .inr (.inl ⟨target, exit, listed, found.symm⟩)
  · have listed := List.getElem?_eq_getElem bound
    rw [plans.spliced_copy listed inside, Option.map_eq_some_iff] at found
    obtain ⟨original, here, rfl⟩ := found
    exact .inr (.inr ⟨exit, _, _, i, original, listed, inside, rfl, here, rfl⟩)

theorem targets (treatment : Treatment b after m others p)
    (sound : Sound b.stmts (b.scopes.map (·.scope))) :
    ∀ stmt ∈ after.stmts, ∀ target, stmt.target? = some target → target < after.stmts.length := by
  have ready := treatment.plans.ready
  intro stmt member target branch
  obtain ⟨k, found⟩ := List.getElem?_of_mem member
  rcases treatment.getElem?_stmts found with ⟨i, original, -, here, -, rfl⟩ |
    ⟨_, exit, listed, rfl⟩ | ⟨exit, l, goal, i, original, listed, inside, -, here, rfl⟩
  · rw [Stmt.target?_mapTarget, Option.map_eq_some_iff] at branch
    obtain ⟨before, goes, rfl⟩ := branch
    exact treatment.shift_lt (sound.targets original (List.mem_of_getElem? here) before goes)
  · cases branch
    rw [← CopyPlan.handler_add_offset ready exit]
    refine treatment.copy_lt (List.getElem?_eq_some_iff.mp listed).1 ?_
    rw [Span.contains_iff]
    exact ⟨le_rfl, ready.laid.handlerBegin_lt⟩
  · have bound := (List.getElem?_eq_some_iff.mp listed).1
    have leaves := (treatment.plans.mem_exits.mp (List.mem_of_getElem? listed)).2.1
    split at branch
    · cases branch
      exact treatment.shift_lt (sound.targets _ (List.mem_of_getElem? leaves) goal rfl)
    · rw [Stmt.target?_mapTarget, Option.map_eq_some_iff] at branch
      obtain ⟨before, goes, rfl⟩ := branch
      rw [CopyPlan.Plans.copyTarget_eq ready]
      split
      · exact treatment.copy_lt bound (by assumption)
      · exact treatment.shift_lt (sound.targets original (List.mem_of_getElem? here) before goes)

theorem laid_scopes (treatment : Treatment b after m others p) {c : Marked}
    (member : c ∈ after.scopes) : c.scope.Laid := by
  have ready := treatment.plans.ready
  rcases treatment.mem_scopes.mp member with rfl | ⟨o, inList, rfl⟩ | ⟨o, inList, -, exit, -, rfl⟩
  · exact treatment.scope ▸ ready.laid
  · exact CopyPlan.laid_shiftScope ready (treatment.other o inList)
  · exact CopyPlan.laid_copied (treatment.other o inList).laid

theorem bounded_scopes (treatment : Treatment b after m others p)
    (sound : Sound b.stmts (b.scopes.map (·.scope))) {c : Marked} (member : c ∈ after.scopes) :
    c.scope.handlerEnd ≤ after.stmts.length := by
  have ready := treatment.plans.ready
  have laid := treatment.laid_scopes member
  rw [treatment.length_stmts]
  rcases treatment.mem_scopes.mp member with rfl | ⟨o, inList, rfl⟩ |
    ⟨o, inList, inside, exit, bound, rfl⟩
  · have := treatment.plans.bounded
    rw [treatment.scope] at this
    simp only
    omega
  · exact CopyPlan.bounded_shiftScope ready (treatment.other o inList)
      (sound.bounded _ (treatment.mem_before inList))
  · have reaches := Span.within_trans (CopyPlan.hull_copied ready inside) (p.copySpan_within bound)
    have place := treatment.plans.place_le
    have hull := laid.hull_eq
    simp only [duplicate] at hull ⊢
    rw [hull, Span.within_iff] at reaches
    simp only [CopyPlan.copies] at reaches
    omega

theorem nested_copiedScopes (treatment : Treatment b after m others p) :
    p.copiedScopes.Pairwise fun s t => s.scope.Nested t.scope := by
  have ready := treatment.plans.ready
  have inside {o : Marked} (kept : o ∈ others.filter fun o => o.scope.hull.within p.handler) :
      o.scope.Laid ∧ o.scope.hull.within p.handler = true :=
    ⟨(treatment.other o (List.mem_filter.mp kept).1).laid, (List.mem_filter.mp kept).2⟩
  rw [treatment.copiedScopes_eq, List.pairwise_flatMap]
  constructor
  · intro o kept
    have ⟨laid, within⟩ := inside kept
    rw [List.pairwise_map]
    exact List.nodup_range.imp fun different =>
      .inr (.inr (.inl (CopyPlan.apart_copied ready laid laid within within different)))
  · refine (treatment.nested.filter _).imp_of_mem fun {s t} first second nested => ?_
    simp only [List.forall_mem_map, duplicate]
    intro exit _ exit' _
    by_cases same : exit = exit'
    · subst same
      exact CopyPlan.nested_copied nested
    · exact .inr (.inr (.inl (CopyPlan.apart_copied ready (inside first).1 (inside second).1
        (inside first).2 (inside second).2 same)))

theorem nested_scopes (treatment : Treatment b after m others p) :
    (after.scopes.map (·.scope)).Pairwise Scope.Nested := by
  have ready := treatment.plans.ready
  rw [List.pairwise_map, treatment.scopes.pairwise_iff fun h => h.symm, List.pairwise_cons,
    List.pairwise_append, List.pairwise_map]
  refine ⟨?_, ?_, treatment.nested_copiedScopes, ?_⟩
  · simp only [← treatment.scope]
    intro c member
    rcases List.mem_append.mp member with moved | made
    · obtain ⟨o, inList, rfl⟩ := List.mem_map.mp moved
      exact (CopyPlan.nested_shiftScope_itself ready (treatment.other o inList)).symm
    · obtain ⟨o, inList, inside, exit, bound, rfl⟩ := treatment.mem_copiedScopes.mp made
      exact .inr (.inr (.inl (CopyPlan.apart_copied_itself ready (treatment.other o inList).laid
        inside bound).symm))
  · exact treatment.nested.imp_of_mem fun {s t} first second nested =>
      CopyPlan.nested_shiftScope ready (treatment.other s first) (treatment.other t second) nested
  · intro c moved d made
    obtain ⟨t, inList, rfl⟩ := List.mem_map.mp moved
    obtain ⟨o, inList', inside, exit, bound, rfl⟩ := treatment.mem_copiedScopes.mp made
    exact (CopyPlan.nested_copied_shiftScope ready (treatment.other o inList').laid inside bound
      (treatment.other t inList)).symm

theorem sound (treatment : Treatment b after m others p)
    (sound : Sound b.stmts (b.scopes.map (·.scope))) :
    Sound after.stmts (after.scopes.map (·.scope)) where
  targets := treatment.targets sound
  laid := List.forall_mem_map.mpr fun _ => treatment.laid_scopes
  bounded := List.forall_mem_map.mpr fun _ => treatment.bounded_scopes sound
  nested := treatment.nested_scopes

end Treatment

end Inlining
end Destack
