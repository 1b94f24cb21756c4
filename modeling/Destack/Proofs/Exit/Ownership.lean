import Destack.Proofs.Exit.Splice
import Destack.Replay.Block

/-!
# Innermost handlers

Which finally or fault handler a position belongs to is asked twice: the replay looks for the
shortest handler around an instruction, the copying of handlers looks for a handler with no other
one inside. In a properly nested table the handlers around a position lie in one another, so the
shortest lies in all the others. Two handlers with the same bounds are equally short, and each lies
in the other: the replay then takes the first, and the copying takes neither.
-/

namespace Destack

theorem Span.eq_of_within {s t : Span} (inside : s.within t = true) (outside : t.within s = true) :
    s = t := by
  obtain ⟨a, b⟩ := s
  obtain ⟨c, d⟩ := t
  simp only [within_iff, mk.injEq] at *
  omega

theorem Span.length_lt_of_within {s t : Span} (inside : s.within t = true) (differ : s ≠ t)
    (some : s.first < s.last) : s.length < t.length := by
  obtain ⟨a, b⟩ := s
  obtain ⟨c, d⟩ := t
  simp only [within_iff, length, ne_eq, mk.injEq] at *
  omega

namespace Scope

def Cleans (s : Scope Ty) (i : Nat) : Prop :=
  s.cleansUp = true ∧ s.handlerSpan.contains i = true

instance (s : Scope Ty) (i : Nat) : Decidable (s.Cleans i) :=
  inferInstanceAs (Decidable (_ ∧ _))

@[simp] theorem isFinally_mapBounds (f : Nat → Nat) (s : Scope Ty) :
    (s.mapBounds f).isFinally = s.isFinally := by
  obtain ⟨kind, a, b, c, d⟩ := s
  cases kind <;> rfl

@[simp] theorem isFault_mapBounds (f : Nat → Nat) (s : Scope Ty) :
    (s.mapBounds f).isFault = s.isFault := by
  obtain ⟨kind, a, b, c, d⟩ := s
  cases kind <;> rfl

theorem handler_within_hull (s : Scope Ty) : s.handlerSpan.within s.hull = true := by
  rw [Span.within_iff]
  exact ⟨(min_le_right _ _).trans s.handlerSide_le, le_max_right _ _⟩

variable {s t : Scope Ty} {i : Nat}

theorem LiesWithin.hull_within (lies : s.LiesWithin t) (ordered : t.tryEnd ≤ t.handlerSide)
    (inner : s.handlerSpan.contains i = true) (outer : t.handlerSpan.contains i = true) :
    s.hull.within t.handlerSpan = true := by
  obtain ⟨r, region, inside⟩ := lies
  have around := Span.within_trans s.handler_within_hull inside
  have side := t.handlerSide_le
  rw [Span.contains_iff] at inner outer
  rw [Span.within_iff] at around
  rcases mem_spans.mp region with rfl | rfl | filter
  · simp only [trySpan, handlerSpan] at *
    omega
  · exact inside
  · cases kind : t.kind <;> simp only [filterSpan?, kind] at filter
    all_goals first | contradiction | skip
    cases filter
    simp only [handlerSpan] at *
    omega

theorem Nested.hull_within (nested : s.Nested t) (first : s.tryEnd ≤ s.handlerSide)
    (second : t.tryEnd ≤ t.handlerSide) (inS : s.handlerSpan.contains i = true)
    (inT : t.handlerSpan.contains i = true) :
    s.hull.within t.handlerSpan = true ∨ t.hull.within s.handlerSpan = true := by
  rcases nested with lies | lies | apart | siblings
  · exact .inl (lies.hull_within second inS inT)
  · exact .inr (lies.hull_within first inT inS)
  · have clear := apart _ s.handlerSpan_mem _ t.handlerSpan_mem
    rw [Span.contains_iff] at inS inT
    rw [Span.not_overlaps_iff] at clear
    omega
  · have clear := siblings.2
    have := s.handlerSide_le
    have := t.handlerSide_le
    rw [Span.contains_iff] at inS inT
    rw [Span.not_overlaps_iff] at clear
    simp only [side, handlerSpan] at *
    omega

end Scope

namespace ProperlyNested

variable {scopes : List (Scope Ty)} {s t : Scope Ty} {m n i : Nat}

theorem mapBounds {f : Nat → Nat} (mono : Monotone f) (nested : ProperlyNested scopes) :
    ProperlyNested (scopes.map (·.mapBounds f)) where
  ordered := by
    rw [List.forall_mem_map]
    intro s member
    rw [Scope.handlerSide_mapBounds mono]
    exact mono (nested.ordered s member)
  pairs := by
    rw [List.pairwise_map]
    exact nested.pairs.imp fun nested => nested.mapBounds mono

theorem hull_within (nested : ProperlyNested scopes) (differ : m ≠ n)
    (first : scopes[m]? = some s) (second : scopes[n]? = some t) (inS : s.Cleans i)
    (inT : t.Cleans i) :
    s.hull.within t.handlerSpan = true ∨ t.hull.within s.handlerSpan = true := by
  have pair : s.Nested t := by
    obtain ⟨inside, rfl⟩ := List.getElem?_eq_some_iff.mp first
    obtain ⟨within, rfl⟩ := List.getElem?_eq_some_iff.mp second
    rcases Nat.lt_or_gt_of_ne differ with less | more
    · exact List.pairwise_iff_getElem.mp nested.pairs m n inside within less
    · exact (List.pairwise_iff_getElem.mp nested.pairs n m within inside more).symm
  exact pair.hull_within (nested.ordered s (List.mem_of_getElem? first))
    (nested.ordered t (List.mem_of_getElem? second)) inS.2 inT.2

theorem handler_within (nested : ProperlyNested scopes) (differ : m ≠ n)
    (first : scopes[m]? = some s) (second : scopes[n]? = some t) (inS : s.Cleans i)
    (inT : t.Cleans i) :
    s.handlerSpan.within t.handlerSpan = true ∨ t.handlerSpan.within s.handlerSpan = true :=
  (nested.hull_within differ first second inS inT).imp (Span.within_trans s.handler_within_hull)
    (Span.within_trans t.handler_within_hull)

theorem handler_ne (nested : ProperlyNested scopes)
    (nonempty : ∀ s ∈ scopes, s.cleansUp = true → s.tryBegin < s.tryEnd) (differ : m ≠ n)
    (first : scopes[m]? = some s) (second : scopes[n]? = some t) (inS : s.Cleans i)
    (inT : t.Cleans i) : s.handlerSpan ≠ t.handlerSpan := by
  -- If protected regions are not empty, different handlers around a position have different
  -- bounds.
  intro same
  have inner : ∀ {u v : Scope Ty}, u ∈ scopes → u.Cleans i → u.handlerSpan = v.handlerSpan →
      ¬ u.hull.within v.handlerSpan = true := by
    intro u v member cleans same inside
    have positive := nonempty u member cleans.1
    have ordered := nested.ordered u member
    have side := u.handlerSide_le
    rw [Span.within_iff] at inside
    simp only [Scope.hull, Scope.handlerSpan, Span.mk.injEq] at same inside
    omega
  rcases nested.hull_within differ first second inS inT with inside | inside
  · exact inner (List.mem_of_getElem? first) inS same inside
  · exact inner (List.mem_of_getElem? second) inT same.symm inside

end ProperlyNested

/-- The scope with the number `n` has the shortest finally or fault handler around a position, and
is the first with one of that length. -/
def Innermost (scopes : List (Scope Ty)) (i n : Nat) : Prop :=
  ∃ s, scopes[n]? = some s ∧ s.Cleans i ∧ ∀ m t, scopes[m]? = some t → t.Cleans i →
    s.handlerSpan.length < t.handlerSpan.length ∨
      s.handlerSpan.length = t.handlerSpan.length ∧ n ≤ m

def FaultAround (scopes : List (Scope Ty)) (i : Nat) : Prop :=
  ∃ n s, Innermost scopes i n ∧ scopes[n]? = some s ∧ s.isFault = true

section Innermost

variable {scopes : List (Scope Ty)} {s b : Scope Ty} {i m n : Nat}

theorem Innermost.unique (first : Innermost scopes i m) (second : Innermost scopes i n) :
    m = n := by
  obtain ⟨s, hereS, inS, leastS⟩ := first
  obtain ⟨t, hereT, inT, leastT⟩ := second
  have := leastS n t hereT inT
  have := leastT m s hereS inS
  omega

theorem getElem?_concat_cases {t : Scope Ty} (found : (scopes ++ [s])[m]? = some t) :
    scopes[m]? = some t ∧ m < scopes.length ∨ m = scopes.length ∧ t = s := by
  rw [List.getElem?_append] at found
  split at found
  · exact .inl ⟨found, by assumption⟩
  · rename_i past
    rw [List.getElem?_singleton] at found
    split at found
    · exact .inr ⟨by omega, (Option.some.inj found).symm⟩
    · cases found

theorem Innermost.concat (innermost : Innermost scopes i n) (found : scopes[n]? = some b)
    (longer : s.Cleans i → b.handlerSpan.length ≤ s.handlerSpan.length) :
    Innermost (scopes ++ [s]) i n := by
  obtain ⟨same, located, inside, least⟩ := innermost
  obtain rfl := Option.some.inj (located.symm.trans found)
  have within := (List.getElem?_eq_some_iff.mp located).1
  refine ⟨same, by rw [List.getElem?_append_left within, located], inside, fun m t other too => ?_⟩
  rcases getElem?_concat_cases other with ⟨before, -⟩ | ⟨rfl, rfl⟩
  · exact least m t before too
  · have := longer too
    omega

theorem innermost_last (inside : s.Cleans i) (shorter : ∀ t ∈ scopes, t.Cleans i →
      s.handlerSpan.length < t.handlerSpan.length) :
    Innermost (scopes ++ [s]) i scopes.length := by
  refine ⟨s, by simp, inside, fun m t other too => ?_⟩
  rcases getElem?_concat_cases other with ⟨before, -⟩ | ⟨rfl, rfl⟩
  · exact .inl (shorter t (List.mem_of_getElem? before) too)
  · exact .inr ⟨rfl, le_rfl⟩

namespace Replay

theorem innermostHandler?_concat (scopes : List (Scope Ty)) (s : Scope Ty) (i : Nat) :
    innermostHandler? (scopes ++ [s]) i =
      if s.Cleans i then
        (innermostHandler? scopes i).elim (some s) fun b =>
          if s.handlerSpan.length < b.handlerSpan.length then some s else some b
      else innermostHandler? scopes i := by
  have same : (s.handlerSpan.contains i && (s.isFinally || s.isFault)) = decide (s.Cleans i) := by
    rw [Bool.and_comm]
    simp [Scope.Cleans, Scope.cleansUp]
  unfold innermostHandler?
  rw [List.filter_append, List.foldl_append]
  by_cases inside : s.Cleans i
  · simp only [List.filter_cons, same, inside, decide_true, if_true, List.filter_nil,
      List.foldl_cons, List.foldl_nil]
    split <;> simp_all
  · simp only [List.filter_cons, same, inside, decide_false, Bool.false_eq_true, if_false,
      List.filter_nil, List.foldl_nil]

theorem innermostHandler?_spec (scopes : List (Scope Ty)) (i : Nat) :
    (innermostHandler? scopes i = none → ∀ s ∈ scopes, ¬ s.Cleans i) ∧
      ∀ b, innermostHandler? scopes i = some b →
        ∃ n, Innermost scopes i n ∧ scopes[n]? = some b := by
  induction scopes using List.reverseRecOn with
  | nil =>
      constructor
      · simp
      · intro b found
        cases found
  | append_singleton scopes s ih =>
      rw [innermostHandler?_concat]
      by_cases inside : s.Cleans i
      · rw [if_pos inside]
        cases before : innermostHandler? scopes i with
        | none =>
            refine ⟨by simp, fun b found => ?_⟩
            obtain rfl : s = b := Option.some.inj found
            refine ⟨_, innermost_last inside fun t member too => ?_, by simp⟩
            exact absurd too (ih.1 before t member)
        | some best =>
            obtain ⟨n, innermost, located⟩ := ih.2 best before
            rw [Option.elim_some]
            split
            · rename_i shorter
              refine ⟨by simp, fun b found => ?_⟩
              obtain rfl : s = b := Option.some.inj found
              refine ⟨_, innermost_last inside fun t member too => ?_, by simp⟩
              obtain ⟨m, other⟩ := List.mem_iff_getElem?.mp member
              obtain ⟨same, found, -, least⟩ := innermost
              obtain rfl := Option.some.inj (found.symm.trans located)
              have := least m t other too
              omega
            · rename_i longer
              refine ⟨by simp, fun b found => ?_⟩
              obtain rfl : best = b := Option.some.inj found
              have within := (List.getElem?_eq_some_iff.mp located).1
              exact ⟨n, innermost.concat located fun _ => Nat.le_of_not_lt longer,
                by rw [List.getElem?_append_left within, located]⟩
      · rw [if_neg inside]
        constructor
        · intro none
          rw [List.forall_mem_append, List.forall_mem_singleton]
          exact ⟨ih.1 none, inside⟩
        · intro b found
          obtain ⟨n, innermost, located⟩ := ih.2 b found
          have within := (List.getElem?_eq_some_iff.mp located).1
          exact ⟨n, innermost.concat located fun too => absurd too inside,
            by rw [List.getElem?_append_left within, located]⟩

theorem exists_innermost (member : s ∈ scopes) (inside : s.Cleans i) :
    ∃ n, Innermost scopes i n := by
  cases found : innermostHandler? scopes i with
  | none => exact absurd inside ((innermostHandler?_spec scopes i).1 found s member)
  | some b =>
      obtain ⟨n, innermost, -⟩ := (innermostHandler?_spec scopes i).2 b found
      exact ⟨n, innermost⟩

theorem innermostHandler?_isFault (scopes : List (Scope Ty)) (i : Nat) :
    (innermostHandler? scopes i).any (·.isFault) = true ↔ FaultAround scopes i := by
  obtain ⟨nowhere, somewhere⟩ := innermostHandler?_spec scopes i
  constructor
  · intro fault
    rw [Option.any_eq_true] at fault
    obtain ⟨b, found, isFault⟩ := fault
    obtain ⟨n, innermost, located⟩ := somewhere b found
    exact ⟨n, b, innermost, located, isFault⟩
  · rintro ⟨n, s, innermost, located, isFault⟩
    cases found : innermostHandler? scopes i with
    | none =>
        obtain ⟨t, here, inside, -⟩ := innermost
        exact absurd inside (nowhere found t (List.mem_of_getElem? here))
    | some b =>
        obtain ⟨m, other, here⟩ := somewhere b found
        obtain rfl := other.unique innermost
        obtain rfl := Option.some.inj (here.symm.trans located)
        exact isFault

end Replay

theorem Innermost.within {t : Scope Ty} (innermost : Innermost scopes i n)
    (nested : ProperlyNested scopes) (found : scopes[n]? = some s) (other : scopes[m]? = some t)
    (inside : t.Cleans i) : s.handlerSpan.within t.handlerSpan = true := by
  obtain ⟨same, located, inS, least⟩ := innermost
  obtain rfl := Option.some.inj (located.symm.trans found)
  by_cases differ : n = m
  · subst differ
    obtain rfl := Option.some.inj (located.symm.trans other)
    exact Span.within_iff.mpr ⟨le_rfl, le_rfl⟩
  · rcases nested.handler_within differ located other inS inside with within | within
    · exact within
    · have no_longer := least m t other inside
      have positive := Span.contains_iff.mp inside.2
      by_cases equal : t.handlerSpan = same.handlerSpan
      · rw [equal]
        exact Span.within_iff.mpr ⟨le_rfl, le_rfl⟩
      · have := Span.length_lt_of_within within equal (by omega)
        omega

end Innermost

namespace Body

variable {b : Body} {n p : Nat}

/-- The copies of the handler of the scope with the number `n` end at a position. -/
def Owns (b : Body) (n p : Nat) : Prop :=
  ∃ s, b.scopes[n]? = some s ∧ s.isFinally = true ∧ s.handlerSpan.contains p = true ∧
    (Inlining.plan b.stmts s ((b.scopes.map fun s => ⟨s, false⟩).eraseIdx n)).owned[
      p - s.handlerBegin]? = some true

def Alone (b : Body) (n : Nat) : Prop :=
  ∀ m s t, m ≠ n → b.scopes[n]? = some s → b.scopes[m]? = some t → t.cleansUp = true →
    t.handlerSpan ≠ s.handlerSpan

theorem owned_plan {stmts : List Stmt} {s : Scope Ty} {others : List Marked}
    (inside : s.handlerSpan.contains p = true) :
    (Inlining.plan stmts s others).owned[p - s.handlerBegin]? = stmts[p]?.map fun stmt =>
      stmt = .endFinally && !Inlining.inInnerHandler others s.handlerSpan p := by
  rw [Span.contains_iff] at inside
  have bound : p - s.handlerBegin < s.handlerSpan.length := by
    simp only [Span.length, Scope.handlerSpan] at *
    omega
  have position : s.handlerSpan.first + (p - s.handlerBegin) = p := by
    simp only [Scope.handlerSpan] at *
    omega
  rw [Inlining.plan, List.getElem?_map, List.getElem?_zipIdx, Inlining.getElem?_slice bound,
    Option.map_map, position]
  rfl

theorem owns_iff (ends : b.stmts[p]? = some .endFinally) :
    b.Owns n p ↔ ∃ s, b.scopes[n]? = some s ∧ s.isFinally = true ∧
      s.handlerSpan.contains p = true ∧ ∀ m t, m ≠ n → b.scopes[m]? = some t → t.Cleans p →
        ¬ t.handlerSpan.within s.handlerSpan = true := by
  refine exists_congr fun s => and_congr_right fun _ => and_congr_right fun _ =>
    and_congr_right fun inside => ?_
  rw [owned_plan inside, ends]
  simp only [Option.map_some, decide_true, Bool.true_and, Option.some.injEq, Bool.not_eq_true',
    Inlining.inInnerHandler, List.any_eq_false, List.mem_eraseIdx_iff_getElem?]
  constructor
  · intro clear m t differ found inner within
    refine clear ⟨t, false⟩ ⟨m, differ, by rw [List.getElem?_map, found]; rfl⟩ ?_
    simpa [Scope.Cleans, Scope.cleansUp, within] using inner
  · rintro clear marked ⟨m, differ, found⟩ inner
    rw [List.getElem?_map, Option.map_eq_some_iff] at found
    obtain ⟨t, found, rfl⟩ := found
    simp only [Bool.and_eq_true] at inner
    exact clear m t differ found ⟨inner.1.1, inner.1.2⟩ inner.2

/-- In a properly nested table a position ends the handler that lies strictly inside all others
around it, if there is one and it is a finally handler. -/
theorem owns_iff_of_nested (nested : ProperlyNested b.scopes)
    (ends : b.stmts[p]? = some .endFinally) :
    b.Owns n p ↔ ∃ s, b.scopes[n]? = some s ∧ s.isFinally = true ∧
      s.handlerSpan.contains p = true ∧ ∀ m t, m ≠ n → b.scopes[m]? = some t → t.Cleans p →
        s.handlerSpan.within t.handlerSpan = true ∧ t.handlerSpan ≠ s.handlerSpan := by
  rw [owns_iff ends]
  refine exists_congr fun s => and_congr_right fun found => and_congr_right fun isFinally =>
    and_congr_right fun inside => ?_
  have inS : s.Cleans p := ⟨by simp [Scope.cleansUp, isFinally], inside⟩
  refine forall_congr' fun m => forall_congr' fun t => forall_congr' fun differ =>
    forall_congr' fun other => forall_congr' fun inT =>
      ⟨fun outside => ?_, fun strictly within => ?_⟩
  · refine ⟨(nested.handler_within differ other found inT inS).resolve_left outside, ?_⟩
    intro same
    rw [same] at outside
    exact outside (Span.within_iff.mpr ⟨le_rfl, le_rfl⟩)
  · exact strictly.2 (Span.eq_of_within within strictly.1)

end Body

/-- The scopes of a body are those of a properly nested table, with bounds moved in order, and the
position `p` in the body is in the handlers that the position `i` was in. -/
structure Carries (f : Nat → Nat) (scopes : List (Scope Ty)) (b : Body) (i p : Nat) : Prop where
  mono : Monotone f
  nested : ProperlyNested scopes
  moved : b.scopes = scopes.map (·.mapBounds f)
  around : ∀ s ∈ scopes, (s.mapBounds f).handlerSpan.contains p = s.handlerSpan.contains i

namespace Carries

variable {f : Nat → Nat} {scopes : List (Scope Ty)} {b : Body} {i m n p : Nat} {s t : Scope Ty}
  (carries : Carries f scopes b i p)
include carries

theorem getElem?_scopes : b.scopes[n]? = scopes[n]?.map (·.mapBounds f) := by
  rw [carries.moved, List.getElem?_map]

theorem properlyNested : ProperlyNested b.scopes := by
  rw [carries.moved]
  exact carries.nested.mapBounds carries.mono

theorem cleans_iff (member : s ∈ scopes) : (s.mapBounds f).Cleans p ↔ s.Cleans i := by
  rw [Scope.Cleans, Scope.Cleans, carries.around s member, Scope.cleansUp, Scope.cleansUp,
    Scope.isFinally_mapBounds, Scope.isFault_mapBounds]

theorem within (innermost : Innermost scopes i n) (found : b.scopes[n]? = some s)
    (member : t ∈ b.scopes) (inside : t.Cleans p) :
    s.handlerSpan.within t.handlerSpan = true := by
  rw [carries.getElem?_scopes, Option.map_eq_some_iff] at found
  rw [carries.moved] at member
  obtain ⟨s, found, rfl⟩ := found
  obtain ⟨t, listed, rfl⟩ := List.mem_map.mp member
  obtain ⟨m, other⟩ := List.mem_iff_getElem?.mp listed
  have inside := (carries.cleans_iff listed).mp inside
  exact Span.within_map_of_within carries.mono (innermost.within carries.nested found other inside)

theorem isFinally (innermost : Innermost scopes i n) (clear : ¬ FaultAround scopes i)
    (found : b.scopes[n]? = some s) : s.isFinally = true := by
  rw [carries.getElem?_scopes, Option.map_eq_some_iff] at found
  obtain ⟨s, found, rfl⟩ := found
  obtain ⟨same, located, inside, least⟩ := innermost
  obtain rfl := Option.some.inj (located.symm.trans found)
  have kinds := inside.1
  rw [Scope.cleansUp, Bool.or_eq_true] at kinds
  rw [Scope.isFinally_mapBounds]
  exact kinds.resolve_right fun fault =>
    clear ⟨n, same, ⟨same, located, inside, least⟩, located, fault⟩

theorem innermost_of_strictly (found : scopes[n]? = some s) (inside : s.Cleans i)
    (strictly : ∀ m t, m ≠ n → b.scopes[m]? = some t → t.Cleans p →
      (s.mapBounds f).handlerSpan.within t.handlerSpan = true ∧
        t.handlerSpan ≠ (s.mapBounds f).handlerSpan) : Innermost scopes i n := by
  -- A handler that lies strictly inside all others in the body was the innermost one before.
  refine ⟨s, found, inside, fun m t other inT => ?_⟩
  by_cases differ : m = n
  · subst differ
    obtain rfl := Option.some.inj (found.symm.trans other)
    exact .inr ⟨rfl, le_rfl⟩
  · obtain ⟨within, apart⟩ := strictly m (t.mapBounds f) differ
      (by rw [carries.getElem?_scopes, other, Option.map_some])
      ((carries.cleans_iff (List.mem_of_getElem? other)).mpr inT)
    have inner : s.handlerSpan.within t.handlerSpan = true := by
      refine (carries.nested.handler_within differ other found inT inside).resolve_left ?_
      intro outer
      exact apart (Span.eq_of_within (Span.within_map_of_within carries.mono outer) within)
    have unequal : s.handlerSpan ≠ t.handlerSpan := by
      intro same
      apply apart
      change t.handlerSpan.map f = s.handlerSpan.map f
      rw [same]
    have positive := Span.contains_iff.mp inside.2
    exact .inl (Span.length_lt_of_within inner unequal (by omega))

/-- A position ends the handler that was innermost, unless another handler has the same bounds in
the body: then it ends none. -/
theorem owns_iff (clear : ¬ FaultAround scopes i) (ends : b.stmts[p]? = some .endFinally) :
    b.Owns n p ↔ Innermost scopes i n ∧ b.Alone n := by
  rw [Body.owns_iff_of_nested carries.properlyNested ends]
  constructor
  · rintro ⟨s, found, isFinally, inside, strictly⟩
    have inS : s.Cleans p := ⟨by simp [Scope.cleansUp, isFinally], inside⟩
    constructor
    · rw [carries.getElem?_scopes, Option.map_eq_some_iff] at found
      obtain ⟨s, found, rfl⟩ := found
      exact carries.innermost_of_strictly found
        ((carries.cleans_iff (List.mem_of_getElem? found)).mp inS) strictly
    · intro m same t differ here other cleanup equal
      obtain rfl := Option.some.inj (here.symm.trans found)
      exact (strictly m t differ other ⟨cleanup, equal ▸ inside⟩).2 equal
  · rintro ⟨innermost, alone⟩
    obtain ⟨s, found, inS, least⟩ := id innermost
    have located : b.scopes[n]? = some (s.mapBounds f) := by
      rw [carries.getElem?_scopes, found, Option.map_some]
    refine ⟨_, located, carries.isFinally innermost clear located,
      ((carries.cleans_iff (List.mem_of_getElem? found)).mpr inS).2, fun m t differ other inT => ?_⟩
    exact ⟨carries.within innermost located (List.mem_of_getElem? other) inT,
      alone m _ t differ located other inT.1⟩

theorem alone (nonempty : ∀ s ∈ b.scopes, s.cleansUp = true → s.tryBegin < s.tryEnd)
    (innermost : Innermost scopes i n) : b.Alone n := by
  intro m s t differ found other cleanup equal
  have here := found
  rw [carries.getElem?_scopes, Option.map_eq_some_iff] at here
  obtain ⟨u, here, rfl⟩ := here
  obtain ⟨same, located, inside, -⟩ := innermost
  obtain rfl := Option.some.inj (located.symm.trans here)
  have inS := (carries.cleans_iff (List.mem_of_getElem? here)).mpr inside
  have inT : t.Cleans p := ⟨cleanup, equal ▸ inS.2⟩
  exact carries.properlyNested.handler_ne nonempty differ other found inT inS equal

theorem exists_innermost (inside : ∃ t ∈ b.scopes, t.Cleans p) :
    ∃ n s, Innermost scopes i n ∧ b.scopes[n]? = some s := by
  obtain ⟨t, member, inT⟩ := inside
  rw [carries.moved] at member
  obtain ⟨t, listed, rfl⟩ := List.mem_map.mp member
  obtain ⟨n, innermost⟩ := Replay.exists_innermost listed ((carries.cleans_iff listed).mp inT)
  obtain ⟨s, found, -⟩ := id innermost
  exact ⟨n, s.mapBounds f, innermost, by rw [carries.getElem?_scopes, found, Option.map_some]⟩

theorem exists_owner (nonempty : ∀ s ∈ b.scopes, s.cleansUp = true → s.tryBegin < s.tryEnd)
    (clear : ¬ FaultAround scopes i) (ends : b.stmts[p]? = some .endFinally)
    (inside : ∃ s ∈ b.scopes, s.Cleans p) :
    ∃ n s, b.scopes[n]? = some s ∧ (∀ m, b.Owns m p ↔ m = n) ∧
      ∀ t ∈ b.scopes, t.Cleans p → s.handlerSpan.within t.handlerSpan = true := by
  obtain ⟨n, s, innermost, located⟩ := carries.exists_innermost inside
  refine ⟨n, s, located, fun m => ?_, fun t => carries.within innermost located⟩
  rw [carries.owns_iff clear ends]
  constructor
  · exact fun both => both.1.unique innermost
  · rintro rfl
    exact ⟨innermost, carries.alone nonempty innermost⟩

end Carries
end Destack
