import Destack.Exit.Inline
import Destack.Proofs.Exit.Nesting

/-!
# Where scopes go when a handler is copied

The copies of a handler stand right behind its scope. A scope that lies in the treated one stays
where it is. Any other scope is stretched or pushed back as a whole: all its bounds move with the
statements, since a region that ends where the copies go and does not lie in the treated scope is
around it. The scopes of a copy are the scopes of the handler at a distance.

So the table stays properly nested: moving keeps the relations of scopes that move alike, and the
copies lie in one region of every scope around the treated one and clear of all others.
-/

namespace Destack

namespace Scope

theorem spans_of_isFinally {s : Scope Ty} (final : s.isFinally = true) :
    s.spans = [s.trySpan, s.handlerSpan] := by
  obtain ⟨kind, a, b, c, d⟩ := s
  cases kind <;> first | rfl | cases final

theorem handlerSide_of_isFinally {s : Scope Ty} (final : s.isFinally = true) :
    s.handlerSide = s.handlerBegin := by
  obtain ⟨kind, a, b, c, d⟩ := s
  cases kind <;> first | rfl | cases final

theorem Nested.handler_clear {s o : Scope Ty} (laid : s.Laid) (laidO : o.Laid)
    (final : o.isFinally = true) (nested : s.Nested o) (outside : ¬ s.LiesWithin o)
    (beside : ¬ o.LiesWithin s) : ∀ r ∈ s.spans, r.overlaps o.handlerSpan = false := by
  rcases nested with within | within | apart | siblings
  · exact absurd within outside
  · exact absurd within beside
  · exact fun r region => apart r region o.handlerSpan o.handlerSpan_mem
  · intro r region
    rw [Span.overlaps_comm]
    refine siblings.symm.clear laidO laid ?_ r region
    rw [Span.within_iff, side, handlerSide_of_isFinally final]
    exact ⟨le_rfl, le_rfl⟩

end Scope

namespace CopyPlan

section Positions

variable {p : CopyPlan} {i j : Nat}

theorem shift_of_lt (before : i < p.place) : p.shift i = i := by
  rw [shift, if_neg (by omega)]

theorem shift_of_le (behind : p.place ≤ i) : p.shift i = i + p.growth := by
  rw [shift, if_pos behind]

theorem shift_strictMono (p : CopyPlan) : StrictMono p.shift := by
  intro i j less
  unfold shift
  split <;> split <;> omega

theorem le_shift (p : CopyPlan) (i : Nat) : i ≤ p.shift i := by
  unfold shift
  split <;> omega

def copies (p : CopyPlan) : Span := ⟨p.place, p.place + p.growth⟩

def copySpan (p : CopyPlan) (exit : Nat) : Span := ⟨p.copyStart exit, p.copyStart (exit + 1)⟩

def offset (p : CopyPlan) (exit : Nat) : Nat := p.copyStart exit - p.handler.first

theorem copyStart_succ (p : CopyPlan) (exit : Nat) :
    p.copyStart (exit + 1) = p.copyStart exit + p.handler.length := by
  unfold copyStart
  ring

theorem copyStart_mono (p : CopyPlan) {e e' : Nat} (le : e ≤ e') :
    p.copyStart e ≤ p.copyStart e' := by
  unfold copyStart
  gcongr

theorem copySpan_within (p : CopyPlan) {exit : Nat} (bound : exit < p.exits.length) :
    (p.copySpan exit).within p.copies = true := by
  have start := p.copyStart_mono (Nat.zero_le exit)
  have finish := p.copyStart_mono (Nat.succ_le_of_lt bound)
  rw [Span.within_iff]
  simp only [copyStart, Nat.zero_mul, Nat.add_zero, copySpan, copies, growth] at *
  exact ⟨start, finish⟩

theorem copySpan_clear (p : CopyPlan) {e e' : Nat} (different : e ≠ e') :
    (p.copySpan e).overlaps (p.copySpan e') = false := by
  rw [Span.not_overlaps_iff]
  rcases Nat.lt_or_gt_of_ne different with less | less
  · exact .inr (p.copyStart_mono less)
  · exact .inl (p.copyStart_mono less)

theorem shift_not_mem_copies (p : CopyPlan) (i : Nat) : p.copies.contains (p.shift i) = false := by
  rw [← Bool.not_eq_true, Span.contains_iff]
  simp only [copies]
  unfold shift
  split <;> omega

theorem shift_or_copy (p : CopyPlan) (k : Nat) :
    (∃ i, k = p.shift i) ∨
      ∃ exit j, exit < p.exits.length ∧ j < p.handler.length ∧ k = p.copyStart exit + j := by
  by_cases before : k < p.place
  · exact .inl ⟨k, (shift_of_lt before).symm⟩
  by_cases behind : p.place + p.growth ≤ k
  · exact .inl ⟨k - p.growth, by rw [shift_of_le (by omega)]; omega⟩
  right
  have short : k - p.place < p.exits.length * p.handler.length := by
    unfold growth at behind
    omega
  have positive : 0 < p.handler.length := Nat.pos_of_mul_pos_left (Nat.zero_lt_of_lt short)
  have whole := Nat.div_add_mod (k - p.place) p.handler.length
  refine ⟨(k - p.place) / p.handler.length, (k - p.place) % p.handler.length,
    (Nat.div_lt_iff_lt_mul positive).mpr short, Nat.mod_lt _ positive, ?_⟩
  rw [copyStart, Nat.mul_comm]
  omega

end Positions

structure Ready (p : CopyPlan) : Prop where
  laid : p.scope.Laid
  final : p.scope.isFinally = true

structure Other (p : CopyPlan) (s : Scope Ty) : Prop where
  laid : s.Laid
  nested : s.Nested p.scope

namespace Ready

variable {p : CopyPlan}

theorem place_eq (ready : p.Ready) : p.place = p.scope.handlerEnd := ready.laid.finish_eq

theorem bounds (ready : p.Ready) :
    p.scope.tryBegin < p.scope.tryEnd ∧ p.scope.tryEnd ≤ p.scope.handlerBegin ∧
      p.scope.handlerBegin < p.place := by
  rw [ready.place_eq]
  exact ⟨ready.laid.tryBegin_lt, ready.laid.tryEnd_le_handlerBegin, ready.laid.handlerBegin_lt⟩

theorem hull_eq (ready : p.Ready) : p.scope.hull = ⟨p.scope.tryBegin, p.place⟩ := by
  rw [ready.laid.hull_eq, ready.place_eq]

theorem handler_eq (ready : p.Ready) : p.handler = ⟨p.scope.handlerBegin, p.place⟩ := by
  rw [ready.place_eq]
  rfl

theorem shiftScope_itself (ready : p.Ready) : p.shiftScope true p.scope = p.scope := by
  have place := ready.place_eq
  have := ready.bounds
  have kind : p.scope.kind.mapStart p.shift = p.scope.kind := by
    have final := ready.final
    cases kind : p.scope.kind with
    | filterBlock start => simp [Scope.isFinally, HandlerKind.isFinally, kind] at final
    | _ => rfl
  have ends {first last : Nat} (le : last ≤ p.place) : p.shiftEnd true first last = last := by
    simp [shiftEnd, Nat.not_lt.mpr le]
  simp only [shiftScope, kind, shift_of_lt (show p.scope.tryBegin < p.place by omega),
    shift_of_lt (show p.scope.handlerBegin < p.place by omega),
    ends (show p.scope.tryEnd ≤ p.place by omega),
    ends (show p.scope.handlerEnd ≤ p.place by omega)]

end Ready

section Moved

variable {p : CopyPlan} {s t : Scope Ty}

/-- A region moves with its bounds unless it ends at the copies and starts inside the scope. -/
theorem shiftEnd_eq_shift {first last : Nat}
    (around : last = p.place → first ≤ p.scope.tryBegin) :
    p.shiftEnd false first last = p.shift last := by
  unfold shiftEnd shift
  by_cases behind : p.place < last
  · simp [behind, behind.le]
  · by_cases here : last = p.place
    · simp [here, around here]
    · simp [behind, here, show ¬ p.place ≤ last by omega]

theorem shiftEnd_eq_self {first last : Nat} (inside : last ≤ p.place)
    (starts : last = p.place → p.scope.tryBegin < first) :
    p.shiftEnd false first last = last := by
  unfold shiftEnd
  by_cases here : last = p.place
  · simp [here, starts here]
  · simp [Nat.not_lt.mpr inside, here]

theorem inside_bounds (ready : p.Ready) (laid : s.Laid) (within : s.LiesWithin p.scope) :
    p.scope.tryBegin ≤ s.tryBegin ∧ s.handlerEnd ≤ p.place ∧
      (s.handlerEnd = p.place → p.scope.tryBegin < s.tryBegin) := by
  have := ready.bounds
  obtain ⟨r, region, inside⟩ := within
  rw [laid.hull_eq, Span.within_iff] at inside
  simp only [Scope.spans_of_isFinally ready.final, List.mem_cons, List.not_mem_nil, or_false]
    at region
  rcases region with rfl | rfl
  · simp only [Scope.trySpan] at inside
    omega
  · have place := ready.place_eq
    simp only [Scope.handlerSpan] at inside
    omega

theorem shiftScope_inside (ready : p.Ready) (laid : s.Laid) (within : s.LiesWithin p.scope) :
    p.shiftScope false s = s := by
  have bounds := inside_bounds ready laid within
  have := laid.tryBegin_lt
  have := laid.tryEnd_le
  have := s.handlerSide_le
  have := laid.handlerBegin_lt
  have kind : s.kind.mapStart p.shift = s.kind := by
    cases kind : s.kind with
    | filterBlock start =>
        have positive := laid.filter_lt ⟨start, s.handlerBegin⟩ (by simp [Scope.filterSpan?, kind])
        simp only at positive
        simp only [HandlerKind.mapStart, shift_of_lt (show start < p.place by omega)]
    | _ => rfl
  simp only [shiftScope, kind, shift_of_lt (show s.tryBegin < p.place by omega),
    shift_of_lt (show s.handlerBegin < p.place by omega)]
  rw [shiftEnd_eq_self (by omega) (by omega), shiftEnd_eq_self (by omega) (by omega)]

/-- A region of a scope around or beside the treated one that reaches the copies is around it. -/
theorem around_of_reaches (ready : p.Ready) (other : p.Other s)
    (outside : ¬ s.LiesWithin p.scope) {r : Span} (region : r ∈ s.spans)
    (starts : r.first < p.place) (reaches : p.place ≤ r.last) :
    p.scope.hull.within r = true := by
  have := ready.bounds
  by_cases around : p.scope.LiesWithin s
  · obtain ⟨q, region', inside⟩ := around
    have bounds := inside
    rw [ready.hull_eq, Span.within_iff] at bounds
    have same : r = q := other.laid.span_unique region region' (i := p.place - 1)
      (by rw [Span.contains_iff]; omega) (by rw [Span.contains_iff]; simp only at bounds; omega)
    exact same ▸ inside
  · have clear := other.nested.handler_clear other.laid ready.laid ready.final outside around r
      region
    rw [Span.not_overlaps_iff] at clear
    change p.handler.last ≤ _ ∨ _ ≤ p.handler.first at clear
    rw [ready.handler_eq] at clear
    simp only at clear
    omega

theorem shiftScope_outside (ready : p.Ready) (other : p.Other s)
    (outside : ¬ s.LiesWithin p.scope) : p.shiftScope false s = s.mapBounds p.shift := by
  have ends {r : Span} (region : r ∈ s.spans) :
      p.shiftEnd false r.first r.last = p.shift r.last := by
    apply shiftEnd_eq_shift
    intro here
    have positive := other.laid.span_nonempty region
    have around := around_of_reaches ready other outside region (by omega) (by omega)
    rw [ready.hull_eq, Span.within_iff] at around
    exact around.1
  have tryEnd := ends s.trySpan_mem
  have handlerEnd := ends s.handlerSpan_mem
  simp only [Scope.trySpan, Scope.handlerSpan] at tryEnd handlerEnd
  rw [shiftScope, tryEnd, handlerEnd]
  rfl

theorem laid_shiftScope (ready : p.Ready) (other : p.Other s) : (p.shiftScope false s).Laid := by
  by_cases within : s.LiesWithin p.scope
  · rw [shiftScope_inside ready other.laid within]
    exact other.laid
  · rw [shiftScope_outside ready other within]
    exact other.laid.mapBounds p.shift_strictMono

theorem bounded_shiftScope (ready : p.Ready) (other : p.Other s) {length : Nat}
    (bounded : s.handlerEnd ≤ length) : (p.shiftScope false s).handlerEnd ≤ length + p.growth := by
  by_cases within : s.LiesWithin p.scope
  · rw [shiftScope_inside ready other.laid within]
    omega
  · rw [shiftScope_outside ready other within]
    change p.shift s.handlerEnd ≤ _
    unfold shift
    split <;> omega

theorem not_overlaps_shift {r q : Span} (starts : r.first < p.place) (ends : r.last ≤ p.place)
    (clear : r.overlaps q = false) : r.overlaps (q.map p.shift) = false := by
  rw [Span.not_overlaps_iff] at *
  simp only [Span.map]
  unfold shift
  split <;> split <;> omega

theorem nested_shiftScope_itself (ready : p.Ready) (other : p.Other s) :
    (p.shiftScope false s).Nested p.scope := by
  have := ready.bounds
  by_cases within : s.LiesWithin p.scope
  · rw [shiftScope_inside ready other.laid within]
    exact other.nested
  rw [shiftScope_outside ready other within]
  have mono := p.shift_strictMono
  rcases other.nested with inside | ⟨q, region, inside⟩ | apart | siblings
  · exact absurd inside within
  · refine .inr (.inl ⟨q.map p.shift, ?_, ?_⟩)
    · rw [Scope.spans_mapBounds]
      exact List.mem_map_of_mem region
    · rw [ready.hull_eq, Span.within_iff] at *
      simp only [Span.map] at *
      rw [shift_of_lt (by omega), shift_of_le (by omega)]
      omega
  · refine .inr (.inr (.inl (Scope.Apart.symm ?_)))
    intro r region q moved
    rw [Scope.spans_mapBounds] at moved
    obtain ⟨q, original, rfl⟩ := List.mem_map.mp moved
    have inside := ready.laid.span_within_hull region
    have positive := ready.laid.span_nonempty region
    rw [ready.hull_eq, Span.within_iff] at inside
    exact not_overlaps_shift (by simp only at inside; omega) inside.2
      (apart.symm r region q original)
  · refine .inr (.inr (.inr (Scope.Siblings.symm ⟨?_, ?_⟩)))
    · have bounds := siblings.1
      simp only [Scope.trySpan, Span.mk.injEq] at bounds
      simp only [Scope.mapBounds, Scope.trySpan, Span.mk.injEq]
      rw [shift_of_lt (by omega), shift_of_lt (by omega)]
      omega
    · rw [Scope.side_mapBounds mono.monotone]
      refine not_overlaps_shift ?_ ?_ siblings.symm.2
      · simp only [Scope.side, Scope.handlerSide_of_isFinally ready.final]
        omega
      · exact ready.place_eq.ge

theorem outside_shiftScope (ready : p.Ready) (other : p.Other s)
    (outside : ¬ s.LiesWithin p.scope) : ¬ (p.shiftScope false s).LiesWithin p.scope := by
  rintro ⟨r, region, inside⟩
  apply outside
  refine ⟨r, region, ?_⟩
  have reaches := ready.laid.span_within_hull region
  have positive := other.laid.tryBegin_lt
  have := other.laid.tryEnd_le_handlerBegin
  have := other.laid.handlerBegin_lt
  have grows := p.le_shift s.handlerEnd
  rw [shiftScope_outside ready other outside, Scope.hull_mapBounds p.shift_strictMono.monotone,
    other.laid.hull_eq, Span.within_iff] at inside
  rw [ready.hull_eq, Span.within_iff] at reaches
  rw [other.laid.hull_eq, Span.within_iff]
  simp only [Span.map] at inside reaches ⊢
  rw [shift_of_lt (by omega)] at inside
  omega

theorem nested_shiftScope (ready : p.Ready) (first : p.Other s) (second : p.Other t)
    (nested : s.Nested t) : (p.shiftScope false s).Nested (p.shiftScope false t) := by
  -- A scope inside the treated one takes its relation to a moved scope from the treated one.
  have mixed {s t : Scope Ty} (first : p.Other s) (second : p.Other t)
      (within : s.LiesWithin p.scope) (outside : ¬ t.LiesWithin p.scope) :
      (p.shiftScope false s).Nested (p.shiftScope false t) := by
    rw [shiftScope_inside ready first.laid within]
    exact Scope.Nested.of_within first.laid ready.laid (laid_shiftScope ready second) within
      (nested_shiftScope_itself ready second).symm (outside_shiftScope ready second outside)
  by_cases within : s.LiesWithin p.scope <;> by_cases within' : t.LiesWithin p.scope
  · rw [shiftScope_inside ready first.laid within, shiftScope_inside ready second.laid within']
    exact nested
  · exact mixed first second within within'
  · exact (mixed second first within' within).symm
  · rw [shiftScope_outside ready first within, shiftScope_outside ready second within']
    exact nested.mapBounds p.shift_strictMono.monotone

end Moved

section Copied

variable {p : CopyPlan} {s t : Scope Ty} {exit : Nat}

def copied (p : CopyPlan) (exit : Nat) (s : Scope Ty) : Scope Ty :=
  s.mapBounds (· + p.offset exit)

theorem offset_strictMono (p : CopyPlan) (exit : Nat) : StrictMono (· + p.offset exit) :=
  fun _ _ less => Nat.add_lt_add_right less _

theorem handler_add_offset (ready : p.Ready) (exit : Nat) :
    p.scope.handlerBegin + p.offset exit = p.copyStart exit := by
  have := ready.bounds
  have := p.copyStart_mono (Nat.zero_le exit)
  simp only [copyStart, Nat.zero_mul] at this
  simp only [offset, ready.handler_eq, copyStart]
  omega

theorem place_add_offset (ready : p.Ready) (exit : Nat) :
    p.place + p.offset exit = p.copyStart (exit + 1) := by
  have := ready.bounds
  have start := handler_add_offset ready exit
  rw [copyStart_succ, Span.length, ready.handler_eq]
  simp only
  omega

theorem copySpan_contains (ready : p.Ready) (exit i : Nat) :
    (p.copySpan exit).contains (i + p.offset exit) = p.handler.contains i := by
  have start := handler_add_offset ready exit
  have finish := place_add_offset ready exit
  rw [Bool.eq_iff_iff, Span.contains_iff, Span.contains_iff, copySpan, ready.handler_eq]
  simp only
  omega

theorem laid_copied (laid : s.Laid) : (p.copied exit s).Laid :=
  laid.mapBounds (p.offset_strictMono exit)

theorem hull_copied (ready : p.Ready) (inside : s.hull.within p.handler = true) :
    (p.copied exit s).hull.within (p.copySpan exit) = true := by
  have mono := p.offset_strictMono exit
  have same : p.copySpan exit = p.handler.map (· + p.offset exit) := by
    rw [copySpan, ready.handler_eq, Span.map, handler_add_offset ready, place_add_offset ready]
  rw [copied, Scope.hull_mapBounds mono.monotone, same, Span.within_map mono]
  exact inside

theorem nested_copied (nested : s.Nested t) : (p.copied exit s).Nested (p.copied exit t) :=
  nested.mapBounds (p.offset_strictMono exit).monotone

theorem apart_copied (ready : p.Ready) (laid : s.Laid) (laid' : t.Laid)
    (inside : s.hull.within p.handler = true) (inside' : t.hull.within p.handler = true)
    {exit' : Nat} (different : exit ≠ exit') : (p.copied exit s).Apart (p.copied exit' t) := by
  refine Scope.apart_of_clear (laid_copied laid) (hull_copied ready inside) fun q region => ?_
  have reaches := Span.within_trans ((laid_copied laid').span_within_hull region)
    (hull_copied ready inside')
  rw [Span.overlaps_comm]
  apply Span.not_overlaps_of_within reaches
  exact p.copySpan_clear different.symm

theorem copies_clear (laid : s.Laid) (before : s.handlerEnd ≤ p.place) :
    ∀ q ∈ s.spans, p.copies.overlaps q = false := by
  intro q region
  have inside := laid.span_within_hull region
  rw [laid.hull_eq, Span.within_iff] at inside
  rw [Span.not_overlaps_iff]
  left
  simp only [copies]
  simp only at inside
  omega

theorem copies_within_map (ready : p.Ready) {q : Span} (inside : p.scope.hull.within q = true) :
    p.copies.within (q.map p.shift) = true := by
  have := ready.bounds
  rw [ready.hull_eq, Span.within_iff] at inside
  rw [Span.within_iff]
  simp only [Span.map, copies] at inside ⊢
  rw [shift_of_lt (by omega), shift_of_le (by omega)]
  omega

theorem copies_clear_of_beside (ready : p.Ready) (other : p.Other s)
    (beside : ¬ p.scope.LiesWithin s) :
    ∀ q ∈ (p.shiftScope false s).spans, p.copies.overlaps q = false := by
  have := ready.bounds
  by_cases within : s.LiesWithin p.scope
  · rw [shiftScope_inside ready other.laid within]
    exact copies_clear other.laid (inside_bounds ready other.laid within).2.1
  rw [shiftScope_outside ready other within, Scope.spans_mapBounds]
  intro q moved
  obtain ⟨q, region, rfl⟩ := List.mem_map.mp moved
  have clear := other.nested.handler_clear other.laid ready.laid ready.final within beside q region
  rw [Span.not_overlaps_iff] at clear ⊢
  change p.handler.last ≤ _ ∨ _ ≤ p.handler.first at clear
  rw [ready.handler_eq] at clear
  simp only [Span.map, copies] at clear ⊢
  rcases clear with behind | before
  · rw [shift_of_le behind]
    omega
  · rw [shift_of_lt (show q.last < p.place by omega)]
    omega

theorem nested_copied_shiftScope (ready : p.Ready) (laid : s.Laid)
    (inside : s.hull.within p.handler = true) (bound : exit < p.exits.length)
    (other : p.Other t) : (p.copied exit s).Nested (p.shiftScope false t) := by
  have reaches := Span.within_trans (hull_copied ready inside) (p.copySpan_within bound)
  by_cases around : p.scope.LiesWithin t
  · obtain ⟨q, region, inside⟩ := around
    have outside : ¬ t.LiesWithin p.scope :=
      Scope.LiesWithin.asymm ready.laid other.laid ⟨q, region, inside⟩
    rw [shiftScope_outside ready other outside]
    refine .inl ⟨q.map p.shift, ?_, Span.within_trans reaches (copies_within_map ready inside)⟩
    rw [Scope.spans_mapBounds]
    exact List.mem_map_of_mem region
  · exact .inr (.inr (.inl (Scope.apart_of_clear (laid_copied laid) reaches
      (copies_clear_of_beside ready other around))))

theorem apart_copied_itself (ready : p.Ready) (laid : s.Laid)
    (inside : s.hull.within p.handler = true) (bound : exit < p.exits.length) :
    (p.copied exit s).Apart p.scope := by
  have reaches := Span.within_trans (hull_copied ready inside) (p.copySpan_within bound)
  exact Scope.apart_of_clear (laid_copied laid) reaches
    (copies_clear ready.laid ready.place_eq.ge)

end Copied

end CopyPlan
end Destack
