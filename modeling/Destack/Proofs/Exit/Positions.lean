import Destack.Proofs.Exit.Relocation

namespace Destack

theorem Span.contains_map {f : Nat → Nat} (mono : StrictMono f) {s : Span} {i : Nat} :
    (s.map f).contains (f i) = s.contains i := by
  simp only [contains, map, mono.le_iff_le, mono.lt_iff_lt]

theorem Span.contains_of_within {s t : Span} {i : Nat} (fits : s.within t = true)
    (inside : s.contains i = true) : t.contains i = true := by
  rw [within_iff] at fits
  rw [contains_iff] at *
  omega

theorem Span.not_contains_of_clear {s t : Span} {i : Nat} (clear : s.overlaps t = false)
    (inside : s.contains i = true) : t.contains i = false := by
  rw [not_overlaps_iff] at clear
  rw [contains_iff] at inside
  rw [← Bool.not_eq_true, contains_iff]
  omega

namespace CopyPlan

variable {p : CopyPlan} {s : Scope Ty} {i k exit : Nat}

theorem contains_shift {r : Span} (ends : r.last ≤ p.place) :
    r.contains (p.shift i) = r.contains i := by
  rw [Bool.eq_iff_iff, Span.contains_iff, Span.contains_iff]
  unfold shift
  split <;> omega

theorem handler_shift (ready : p.Ready) : p.handler.contains (p.shift i) = p.handler.contains i :=
  contains_shift ready.place_eq.ge

section Moved

theorem trySpan_shiftScope (ready : p.Ready) (other : p.Other s) :
    (p.shiftScope false s).trySpan = s.trySpan.map p.shift := by
  by_cases within : s.LiesWithin p.scope
  · have bounds := inside_bounds ready other.laid within
    have := other.laid.tryBegin_lt
    have := other.laid.tryEnd_le_handlerBegin
    have := other.laid.handlerBegin_lt
    rw [shiftScope_inside ready other.laid within, Span.map, Scope.trySpan, Span.mk.injEq]
    simp only
    rw [shift_of_lt (by omega), shift_of_lt (by omega)]
    exact ⟨rfl, rfl⟩
  · rw [shiftScope_outside ready other within]
    rfl

theorem inTry_shiftScope (ready : p.Ready) (other : p.Other s) :
    (p.shiftScope false s).inTry (p.shift i) = s.inTry i := by
  rw [Scope.inTry, trySpan_shiftScope ready other, Span.contains_map p.shift_strictMono]
  rfl

theorem handlerSpan_shiftScope (ready : p.Ready) (other : p.Other s) :
    (p.shiftScope false s).handlerSpan.contains (p.shift i) = s.handlerSpan.contains i := by
  by_cases within : s.LiesWithin p.scope
  · rw [shiftScope_inside ready other.laid within]
    exact contains_shift (inside_bounds ready other.laid within).2.1
  · rw [shiftScope_outside ready other within]
    exact Span.contains_map (s := s.handlerSpan) p.shift_strictMono

theorem handlerSpan_copies (ready : p.Ready) (other : p.Other s)
    (inside : p.copies.contains k = true) :
    (p.shiftScope false s).handlerSpan.contains k = p.scope.hull.within s.handlerSpan := by
  cases fits : p.scope.hull.within s.handlerSpan with
  | true =>
      have outside : ¬ s.LiesWithin p.scope :=
        Scope.LiesWithin.asymm ready.laid other.laid ⟨_, s.handlerSpan_mem, fits⟩
      rw [shiftScope_outside ready other outside]
      exact Span.contains_of_within (copies_within_map ready fits) inside
  | false =>
      by_cases around : p.scope.LiesWithin s
      · -- The treated scope is in another region of the same scope, so the copies are too.
        obtain ⟨q, region, fits'⟩ := around
        have outside : ¬ s.LiesWithin p.scope :=
          Scope.LiesWithin.asymm ready.laid other.laid ⟨q, region, fits'⟩
        have there := Span.contains_of_within (copies_within_map ready fits') inside
        rw [shiftScope_outside ready other outside, ← Bool.not_eq_true]
        intro both
        have mono := p.shift_strictMono
        have same := (other.laid.mapBounds mono).span_unique (Scope.handlerSpan_mem _)
          (by rw [Scope.spans_mapBounds]; exact List.mem_map_of_mem region) both there
        have equal : s.handlerSpan = q := by
          change s.handlerSpan.map p.shift = q.map p.shift at same
          simp only [Span.map, Span.mk.injEq, mono.injective.eq_iff] at same
          exact congrArg₂ Span.mk same.1 same.2
        rw [equal, fits'] at fits
        cases fits
      · exact Span.not_contains_of_clear
          (copies_clear_of_beside ready other around _ (Scope.handlerSpan_mem _)) inside

theorem inTry_copies (ready : p.Ready) (other : p.Other s) (beside : ¬ p.scope.LiesWithin s)
    (inside : p.copies.contains k = true) : (p.shiftScope false s).inTry k = false :=
  Span.not_contains_of_clear (copies_clear_of_beside ready other beside _ (Scope.trySpan_mem _))
    inside

end Moved

section Copied

theorem copies_contains (ready : p.Ready) (bound : exit < p.exits.length)
    (inside : p.handler.contains i = true) : p.copies.contains (i + p.offset exit) = true := by
  rw [← copySpan_contains ready exit] at inside
  exact Span.contains_of_within (p.copySpan_within bound) inside

theorem copied_shift (ready : p.Ready) (laid : s.Laid) (fits : s.hull.within p.handler = true)
    (bound : exit < p.exits.length) {r : Span} (region : r ∈ (p.copied exit s).spans) :
    r.contains (p.shift i) = false := by
  have reaches := Span.within_trans ((laid_copied laid).span_within_hull region)
    (Span.within_trans (hull_copied ready fits) (p.copySpan_within bound))
  rw [← Bool.not_eq_true]
  intro inside
  have copies := Span.contains_of_within reaches inside
  rw [p.shift_not_mem_copies] at copies
  cases copies

theorem copied_contains (ready : p.Ready) (laid : s.Laid) (fits : s.hull.within p.handler = true)
    (inside : p.handler.contains i = true) {r : Span} (region : r ∈ s.spans) (exit' : Nat) :
    (r.map (· + p.offset exit)).contains (i + p.offset exit') =
      (decide (exit = exit') && r.contains i) := by
  by_cases same : exit = exit'
  · subst same
    rw [decide_eq_true rfl, Bool.true_and]
    exact Span.contains_map (p.offset_strictMono exit)
  · rw [decide_eq_false same, Bool.false_and, ← Bool.not_eq_true]
    intro both
    have region' : r.map (· + p.offset exit) ∈ (p.copied exit s).spans := by
      rw [copied, Scope.spans_mapBounds]
      exact List.mem_map_of_mem region
    have here := Span.contains_of_within (Span.within_trans
      ((laid_copied laid).span_within_hull region') (hull_copied ready fits)) both
    have there := Span.not_contains_of_clear (p.copySpan_clear same) here
    rw [copySpan_contains ready, inside] at there
    cases there

end Copied

end CopyPlan
end Destack
