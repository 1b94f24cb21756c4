import Destack.Code.Verify
import Mathlib

namespace Destack

namespace Span

theorem contains_iff {s : Span} {i : Nat} : s.contains i = true ↔ s.first ≤ i ∧ i < s.last := by
  simp [contains]

theorem within_iff {s t : Span} : s.within t = true ↔ t.first ≤ s.first ∧ s.last ≤ t.last := by
  simp [within]

theorem overlaps_iff {s t : Span} :
    s.overlaps t = true ↔ s.first < t.last ∧ t.first < s.last := by
  simp [overlaps]

theorem not_overlaps_iff {s t : Span} :
    s.overlaps t = false ↔ t.last ≤ s.first ∨ s.last ≤ t.first := by
  rw [← Bool.not_eq_true, overlaps_iff]
  omega

theorem within_trans {r s t : Span} (first : r.within s = true) (second : s.within t = true) :
    r.within t = true := by
  rw [within_iff] at *
  omega

theorem overlaps_comm (s t : Span) : s.overlaps t = t.overlaps s := by
  simp only [overlaps, Bool.and_comm]

theorem not_overlaps_of_within {r s t : Span} (inside : r.within s = true)
    (clear : s.overlaps t = false) : r.overlaps t = false := by
  rw [within_iff] at inside
  rw [not_overlaps_iff] at *
  omega

def map (f : Nat → Nat) (s : Span) : Span := ⟨f s.first, f s.last⟩

theorem within_map_of_within {f : Nat → Nat} (mono : Monotone f) {s t : Span}
    (inside : s.within t = true) : (s.map f).within (t.map f) = true := by
  rw [within_iff] at *
  exact ⟨mono inside.1, mono inside.2⟩

theorem not_overlaps_map {f : Nat → Nat} (mono : Monotone f) {s t : Span}
    (clear : s.overlaps t = false) : (s.map f).overlaps (t.map f) = false := by
  rw [not_overlaps_iff] at *
  exact clear.imp (mono ·) (mono ·)

theorem within_map {f : Nat → Nat} (mono : StrictMono f) {s t : Span} :
    (s.map f).within (t.map f) = s.within t := by
  simp only [within, map, mono.le_iff_le]

end Span

namespace Scope

def cleansUp (s : Scope Ty) : Bool := s.isFinally || s.isFault

def spans (s : Scope Ty) : List Span := (Verify.regions s).map (·.2)

def hull (s : Scope Ty) : Span := ⟨min s.tryBegin s.handlerSide, s.finish⟩

def side (s : Scope Ty) : Span := ⟨s.handlerSide, s.handlerEnd⟩

def LiesWithin (s t : Scope Ty) : Prop := ∃ r ∈ t.spans, s.hull.within r = true

def Apart (s t : Scope Ty) : Prop := ∀ r ∈ s.spans, ∀ q ∈ t.spans, r.overlaps q = false

def Siblings (s t : Scope Ty) : Prop := s.trySpan = t.trySpan ∧ s.side.overlaps t.side = false

def Nested (s t : Scope Ty) : Prop :=
  s.LiesWithin t ∨ t.LiesWithin s ∨ s.Apart t ∨ s.Siblings t

instance (s t : Scope Ty) : Decidable (s.LiesWithin t) :=
  inferInstanceAs (Decidable (∃ r ∈ t.spans, s.hull.within r = true))

instance (s t : Scope Ty) : Decidable (s.Apart t) :=
  inferInstanceAs (Decidable (∀ r ∈ s.spans, ∀ q ∈ t.spans, r.overlaps q = false))

instance (s t : Scope Ty) : Decidable (s.Siblings t) :=
  inferInstanceAs (Decidable (s.trySpan = t.trySpan ∧ s.side.overlaps t.side = false))

instance (s t : Scope Ty) : Decidable (s.Nested t) :=
  inferInstanceAs (Decidable (s.LiesWithin t ∨ t.LiesWithin s ∨ s.Apart t ∨ s.Siblings t))

end Scope

/-- Every handler comes after the region that it protects, and any two scopes are nested. -/
structure ProperlyNested (scopes : List (Scope Ty)) : Prop where
  ordered : ∀ s ∈ scopes, s.tryEnd ≤ s.handlerSide
  pairs : scopes.Pairwise Scope.Nested

theorem properlyNested_iff {scopes : List (Scope Ty)} :
    ProperlyNested scopes ↔
      (∀ s ∈ scopes, s.tryEnd ≤ s.handlerSide) ∧ scopes.Pairwise Scope.Nested :=
  ⟨fun h => ⟨h.ordered, h.pairs⟩, fun h => ⟨h.1, h.2⟩⟩

instance (scopes : List (Scope Ty)) : Decidable (ProperlyNested scopes) :=
  decidable_of_iff _ properlyNested_iff.symm

namespace Scope

theorem mem_spans {s : Scope Ty} {r : Span} :
    r ∈ s.spans ↔ r = s.trySpan ∨ r = s.handlerSpan ∨ s.filterSpan? = some r := by
  simp [spans, Verify.regions]

theorem trySpan_mem (s : Scope Ty) : s.trySpan ∈ s.spans := mem_spans.mpr (.inl rfl)

theorem handlerSpan_mem (s : Scope Ty) : s.handlerSpan ∈ s.spans := mem_spans.mpr (.inr (.inl rfl))

theorem Apart.symm {s t : Scope Ty} (apart : s.Apart t) : t.Apart s := by
  intro r inT q inS
  rw [Span.overlaps_comm]
  exact apart q inS r inT

theorem Siblings.symm {s t : Scope Ty} (siblings : s.Siblings t) : t.Siblings s :=
  ⟨siblings.1.symm, by rw [Span.overlaps_comm]; exact siblings.2⟩

theorem Nested.symm {s t : Scope Ty} (nested : s.Nested t) : t.Nested s := by
  rcases nested with within | within | apart | siblings
  · exact .inr (.inl within)
  · exact .inl within
  · exact .inr (.inr (.inl apart.symm))
  · exact .inr (.inr (.inr siblings.symm))

/-- The regions of a scope are not empty, and come in the order of protected region, filter and
handler. -/
structure Laid (s : Scope Ty) : Prop where
  tryBegin_lt : s.tryBegin < s.tryEnd
  tryEnd_le : s.tryEnd ≤ s.handlerSide
  filter_lt : ∀ r, s.filterSpan? = some r → r.first < r.last
  handlerBegin_lt : s.handlerBegin < s.handlerEnd

theorem handlerSide_le (s : Scope Ty) : s.handlerSide ≤ s.handlerBegin := by
  cases kind : s.kind <;> simp only [handlerSide, kind]
  all_goals omega

theorem filterSpan_eq {s : Scope Ty} (laid : s.Laid) {r : Span} (filter : s.filterSpan? = some r) :
    r = ⟨s.handlerSide, s.handlerBegin⟩ := by
  have positive := laid.filter_lt r filter
  cases kind : s.kind <;> simp only [filterSpan?, kind] at filter
  all_goals first | contradiction | skip
  cases filter
  simp only at positive
  simp only [handlerSide, kind]
  rw [min_eq_left (by omega)]

namespace Laid

variable {s t : Scope Ty}

theorem tryEnd_le_handlerBegin (laid : s.Laid) : s.tryEnd ≤ s.handlerBegin :=
  laid.tryEnd_le.trans s.handlerSide_le

theorem finish_eq (laid : s.Laid) : s.finish = s.handlerEnd := by
  have := laid.tryEnd_le_handlerBegin
  have := laid.handlerBegin_lt
  rw [finish, max_eq_right (by omega)]

theorem hull_eq (laid : s.Laid) : s.hull = ⟨s.tryBegin, s.handlerEnd⟩ := by
  have := laid.tryBegin_lt
  have := laid.tryEnd_le
  rw [hull, laid.finish_eq, min_eq_left (by omega)]

theorem span_bounds (laid : s.Laid) {r : Span} (region : r ∈ s.spans) :
    r = ⟨s.tryBegin, s.tryEnd⟩ ∨ r = ⟨s.handlerBegin, s.handlerEnd⟩ ∨
      s.handlerSide < s.handlerBegin ∧ r = ⟨s.handlerSide, s.handlerBegin⟩ := by
  rcases mem_spans.mp region with rfl | rfl | filter
  · exact .inl rfl
  · exact .inr (.inl rfl)
  · have positive := laid.filter_lt r filter
    obtain rfl := filterSpan_eq laid filter
    exact .inr (.inr ⟨positive, rfl⟩)

theorem span_nonempty (laid : s.Laid) {r : Span} (region : r ∈ s.spans) : r.first < r.last := by
  have := laid.tryBegin_lt
  have := laid.handlerBegin_lt
  rcases laid.span_bounds region with rfl | rfl | ⟨positive, rfl⟩ <;> assumption

theorem span_within_hull (laid : s.Laid) {r : Span} (region : r ∈ s.spans) :
    r.within s.hull = true := by
  have := laid.tryBegin_lt
  have := laid.tryEnd_le
  have := s.handlerSide_le
  have := laid.handlerBegin_lt
  rw [laid.hull_eq, Span.within_iff]
  rcases laid.span_bounds region with rfl | rfl | ⟨positive, rfl⟩ <;> simp only <;> omega

theorem tail_beside (laid : s.Laid) {r : Span} (region : r ∈ s.spans.tail) :
    r.within s.side = true := by
  have := s.handlerSide_le
  have := laid.handlerBegin_lt
  have cases : r = s.handlerSpan ∨ s.filterSpan? = some r := by
    simpa [spans, Verify.regions] using region
  rw [Span.within_iff, side]
  rcases cases with rfl | filter
  · simp only [handlerSpan]
    omega
  · obtain rfl := filterSpan_eq laid filter
    simp only
    omega

theorem span_cases (laid : s.Laid) {r : Span} (region : r ∈ s.spans) :
    r = s.trySpan ∨ r.within s.side = true := by
  have split : s.spans = s.trySpan :: s.spans.tail := rfl
  rw [split, List.mem_cons] at region
  exact region.imp_right laid.tail_beside

theorem try_apart_side (laid : s.Laid) : s.trySpan.overlaps s.side = false := by
  rw [Span.not_overlaps_iff]
  exact .inr laid.tryEnd_le

theorem span_unique (laid : s.Laid) {r q : Span} (region : r ∈ s.spans) (other : q ∈ s.spans)
    {i : Nat} (inside : r.contains i = true) (both : q.contains i = true) : r = q := by
  have := laid.tryEnd_le
  have := s.handlerSide_le
  rw [Span.contains_iff] at inside both
  rcases laid.span_bounds region with rfl | rfl | ⟨-, rfl⟩ <;>
    rcases laid.span_bounds other with rfl | rfl | ⟨-, rfl⟩ <;>
    simp only at inside both <;> first | rfl | omega

theorem not_within_self (laid : s.Laid) : ¬ s.LiesWithin s := by
  rintro ⟨r, region, inside⟩
  have := laid.tryBegin_lt
  have := laid.tryEnd_le
  have := s.handlerSide_le
  have := laid.handlerBegin_lt
  rw [laid.hull_eq, Span.within_iff] at inside
  rcases laid.span_bounds region with rfl | rfl | ⟨-, rfl⟩ <;> simp only at inside <;> omega

end Laid

section Inside

variable {s t o : Scope Ty}

theorem LiesWithin.trans (laid : o.Laid) (inner : s.LiesWithin o) (outer : o.LiesWithin t) :
    s.LiesWithin t := by
  obtain ⟨r, region, inside⟩ := inner
  obtain ⟨q, region', inside'⟩ := outer
  have reaches := Span.within_trans inside (laid.span_within_hull region)
  exact ⟨q, region', Span.within_trans reaches inside'⟩

theorem LiesWithin.asymm (laid : s.Laid) (laid' : t.Laid) (inner : s.LiesWithin t) :
    ¬ t.LiesWithin s :=
  fun outer => laid.not_within_self (inner.trans laid' outer)

theorem LiesWithin.length_lt (laid : s.Laid) (laid' : t.Laid) (within : s.LiesWithin t) :
    s.hull.length < t.hull.length := by
  obtain ⟨r, region, fits⟩ := within
  have := laid.tryBegin_lt
  have := laid.tryEnd_le_handlerBegin
  have := laid.handlerBegin_lt
  have := laid'.tryBegin_lt
  have := laid'.tryEnd_le
  have := t.handlerSide_le
  have := laid'.handlerBegin_lt
  rw [laid.hull_eq, Span.within_iff] at fits
  rw [laid.hull_eq, laid'.hull_eq]
  simp only [Span.length] at fits ⊢
  rcases laid'.span_bounds region with rfl | rfl | ⟨-, rfl⟩ <;> simp only at fits <;> omega

theorem apart_of_clear (laid : s.Laid) {r : Span} (inside : s.hull.within r = true)
    (clear : ∀ q ∈ t.spans, r.overlaps q = false) : s.Apart t := by
  intro a region q other
  have reaches := Span.within_trans (laid.span_within_hull region) inside
  exact Span.not_overlaps_of_within reaches (clear q other)

theorem Siblings.clear (laid : o.Laid) (laid' : t.Laid) (siblings : o.Siblings t) {r : Span}
    (inside : r.within o.side = true) : ∀ q ∈ t.spans, r.overlaps q = false := by
  intro q other
  apply Span.not_overlaps_of_within inside
  rcases laid'.span_cases other with rfl | beside
  · rw [← siblings.1, Span.overlaps_comm]
    exact laid.try_apart_side
  · rw [Span.overlaps_comm]
    apply Span.not_overlaps_of_within beside
    rw [Span.overlaps_comm]
    exact siblings.2

theorem Nested.of_within (laid : s.Laid) (laidO : o.Laid) (laidT : t.Laid)
    (inner : s.LiesWithin o) (nested : o.Nested t) (outside : ¬ t.LiesWithin o) : s.Nested t := by
  rcases nested with within | within | apart | siblings
  · exact .inl (inner.trans laidO within)
  · exact absurd within outside
  · obtain ⟨r, region, inside⟩ := inner
    exact .inr (.inr (.inl (apart_of_clear laid inside (apart r region))))
  · obtain ⟨r, region, inside⟩ := inner
    rcases laidO.span_cases region with rfl | beside
    · exact .inl ⟨t.trySpan, t.trySpan_mem, siblings.1 ▸ inside⟩
    · exact .inr (.inr (.inl (apart_of_clear laid inside (siblings.clear laidO laidT beside))))

theorem nestedIn_iff_exists :
    s.nestedIn t = true ↔ s.trySpan ≠ t.trySpan ∧ ∃ r ∈ t.spans, s.trySpan.within r = true := by
  simp only [nestedIn, Bool.and_eq_true, bne_iff_ne, Bool.or_eq_true, Option.any_eq_true,
    mem_spans]
  refine and_congr_right fun _ => ⟨?_, ?_⟩
  · rintro ((fits | fits) | ⟨r, filter, fits⟩)
    · exact ⟨_, .inl rfl, fits⟩
    · exact ⟨_, .inr (.inl rfl), fits⟩
    · exact ⟨r, .inr (.inr filter), fits⟩
  · rintro ⟨r, rfl | rfl | filter, fits⟩
    · exact .inl (.inl fits)
    · exact .inl (.inr fits)
    · exact .inr ⟨r, filter, fits⟩

/-- In a properly nested table a scope is nested in another if its protected region is. -/
theorem Nested.nestedIn_iff (laid : s.Laid) (laid' : t.Laid) (nested : s.Nested t) :
    s.nestedIn t = true ↔ s.LiesWithin t := by
  have starts {r : Span} (fits : s.trySpan.within r = true) : r.contains s.tryBegin = true := by
    have := laid.tryBegin_lt
    rw [Span.within_iff] at fits
    rw [Span.contains_iff]
    simp only [trySpan] at fits
    omega
  have here : s.trySpan.contains s.tryBegin = true := starts (Span.within_iff.mpr ⟨le_rfl, le_rfl⟩)
  rw [nestedIn_iff_exists]
  constructor
  · rintro ⟨different, r, region, fits⟩
    rcases nested with within | ⟨q, region', around⟩ | apart | siblings
    · exact within
    · -- The region of `t` would be all of `t`.
      have inHull := laid'.span_within_hull region
      obtain rfl : q = s.trySpan := laid.span_unique region' s.trySpan_mem
        (starts (Span.within_trans fits (Span.within_trans inHull around))) here
      have whole := Span.within_trans around fits
      have := laid'.tryBegin_lt
      have := laid'.tryEnd_le
      have := t.handlerSide_le
      have := laid'.handlerBegin_lt
      rw [laid'.hull_eq, Span.within_iff] at whole
      rcases laid'.span_bounds region with rfl | rfl | ⟨-, rfl⟩ <;> simp only at whole <;> omega
    · have clear := apart _ s.trySpan_mem r region
      have inside := starts fits
      rw [Span.not_overlaps_iff] at clear
      rw [Span.contains_iff] at here inside
      omega
    · exact absurd siblings.1 different
  · rintro ⟨r, region, fits⟩
    have inRegion := Span.within_trans (laid.span_within_hull s.trySpan_mem) fits
    refine ⟨fun same => ?_, r, region, inRegion⟩
    obtain rfl : r = t.trySpan := laid'.span_unique region t.trySpan_mem (starts inRegion)
      (same ▸ here)
    have := laid.tryEnd_le_handlerBegin
    have := laid.handlerBegin_lt
    rw [← same, laid.hull_eq, Span.within_iff] at fits
    simp only [trySpan] at fits
    omega

end Inside

section Moving

variable {f : Nat → Nat} {s t : Scope Ty}

theorem spans_mapBounds (f : Nat → Nat) (s : Scope Ty) :
    (s.mapBounds f).spans = s.spans.map (·.map f) := by
  obtain ⟨kind, a, b, c, d⟩ := s
  cases kind <;> rfl

theorem handlerSide_mapBounds (mono : Monotone f) (s : Scope Ty) :
    (s.mapBounds f).handlerSide = f s.handlerSide := by
  obtain ⟨kind, a, b, c, d⟩ := s
  cases kind <;> simp [mapBounds, HandlerKind.mapStart, handlerSide, mono.map_min]

theorem hull_mapBounds (mono : Monotone f) (s : Scope Ty) :
    (s.mapBounds f).hull = s.hull.map f := by
  simp only [hull, Span.map, handlerSide_mapBounds mono, finish, mono.map_min, mono.map_max]
  rfl

theorem side_mapBounds (mono : Monotone f) (s : Scope Ty) :
    (s.mapBounds f).side = s.side.map f := by
  rw [side, handlerSide_mapBounds mono]
  rfl

theorem Laid.mapBounds_of_lt (mono : Monotone f) (laid : s.Laid)
    (positive : ∀ r ∈ s.spans, f r.first < f r.last) : (s.mapBounds f).Laid where
  tryBegin_lt := positive _ s.trySpan_mem
  tryEnd_le := by
    rw [handlerSide_mapBounds mono]
    exact mono laid.tryEnd_le
  filter_lt := by
    intro r filter
    have region : r ∈ (s.mapBounds f).spans := mem_spans.mpr (.inr (.inr filter))
    rw [spans_mapBounds] at region
    obtain ⟨q, original, rfl⟩ := List.mem_map.mp region
    exact positive q original
  handlerBegin_lt := positive _ s.handlerSpan_mem

theorem Laid.mapBounds (mono : StrictMono f) (laid : s.Laid) : (s.mapBounds f).Laid :=
  laid.mapBounds_of_lt mono.monotone fun _ region => mono (laid.span_nonempty region)

theorem LiesWithin.mapBounds (mono : Monotone f) (within : s.LiesWithin t) :
    (s.mapBounds f).LiesWithin (t.mapBounds f) := by
  obtain ⟨r, region, inside⟩ := within
  refine ⟨r.map f, ?_, ?_⟩
  · rw [spans_mapBounds]
    exact List.mem_map_of_mem region
  · rw [hull_mapBounds mono]
    exact Span.within_map_of_within mono inside

theorem Apart.mapBounds (mono : Monotone f) (apart : s.Apart t) :
    (s.mapBounds f).Apart (t.mapBounds f) := by
  intro r region q other
  rw [spans_mapBounds] at region other
  obtain ⟨a, original, rfl⟩ := List.mem_map.mp region
  obtain ⟨b, original', rfl⟩ := List.mem_map.mp other
  exact Span.not_overlaps_map mono (apart a original b original')

theorem Siblings.mapBounds (mono : Monotone f) (siblings : s.Siblings t) :
    (s.mapBounds f).Siblings (t.mapBounds f) := by
  constructor
  · exact congrArg (Span.map f) siblings.1
  · rw [side_mapBounds mono, side_mapBounds mono]
    exact Span.not_overlaps_map mono siblings.2

theorem Nested.mapBounds (mono : Monotone f) (nested : s.Nested t) :
    (s.mapBounds f).Nested (t.mapBounds f) := by
  rcases nested with within | within | apart | siblings
  · exact .inl (within.mapBounds mono)
  · exact .inr (.inl (within.mapBounds mono))
  · exact .inr (.inr (.inl (apart.mapBounds mono)))
  · exact .inr (.inr (.inr (siblings.mapBounds mono)))

end Moving

end Scope
end Destack
