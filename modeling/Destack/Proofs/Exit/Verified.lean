import Destack.Exit.Lower
import Destack.Proofs.Exit.Nesting
import Destack.Proofs.Except

namespace Destack

namespace Verify

variable {length : Nat} {s t : Scope Ty}

theorem checkStmt_ok {lowered : Bool} {stmt : Stmt} {i : Nat} :
    checkStmt length lowered stmt i = .ok () ↔
      ∀ target, stmt.target? = some target →
        target < length ∧ (lowered = true → stmt.isLeave = false) := by
  unfold checkStmt
  cases stmt.target? with
  | none => simp
  | some target =>
      by_cases past : length ≤ target
      · simp [past, Nat.not_lt.mpr past]
      · cases lowered <;> cases stmt.isLeave <;> simp [past, Nat.not_le.mp past]

theorem checkRegion_ok {number : Nat} {region : Region} {r : Span} :
    checkRegion length number region r = .ok () ↔ r.first < r.last ∧ r.last ≤ length := by
  unfold checkRegion Span.isEmpty
  by_cases empty : r.last ≤ r.first
  · simp [empty, Nat.not_lt.mpr empty]
  · by_cases past : length < r.last
    · simp [empty, past, Nat.not_le.mpr past]
    · simp [empty, past, Nat.not_le.mp empty, Nat.not_lt.mp past]

theorem checkScope_ok {number : Nat} :
    checkScope length s number = .ok () ↔
      (∀ r ∈ s.spans, r.first < r.last ∧ r.last ≤ length) ∧
        ∀ r ∈ s.spans.tail, s.trySpan.overlaps r = false := by
  have regions : (∀ a ∈ regions s, checkRegion length number a.1 a.2 = .ok ()) ↔
      ∀ r ∈ s.spans, r.first < r.last ∧ r.last ≤ length := by
    simp only [checkRegion_ok, Scope.spans, List.forall_mem_map]
  unfold checkScope
  rw [seq_eq_ok, ← regions, ← forM_eq_ok, Scope.spans, ← List.map_tail, List.forall_mem_map]
  refine and_congr_right fun _ => ?_
  by_cases meets : (Verify.regions s).tail.any fun x => s.trySpan.overlaps x.2
  · simp only [meets, ↓reduceIte]
    simp only [List.any_eq_true] at meets
    obtain ⟨a, member, meets⟩ := meets
    exact iff_of_false (by rintro ⟨⟩) fun clear => by simp [clear a member] at meets
  · simp only [meets]
    simp only [List.any_eq_true, not_exists, not_and, Bool.not_eq_true] at meets
    exact iff_of_true rfl meets

theorem scopesCross_eq_false :
    scopesCross s t = false ↔ ∀ r ∈ s.spans, ∀ q ∈ t.spans, cross r q = false := by
  simp only [scopesCross, List.any_eq_false, Bool.not_eq_true, Scope.spans, List.forall_mem_map]

theorem checkPairs_ok {l : List (Scope Ty × Nat)} :
    checkPairs l = .ok () ↔ (l.map (·.1)).Pairwise fun s t => scopesCross s t = false := by
  induction l with
  | nil => simp [checkPairs]
  | cons head l ih =>
      rw [checkPairs, seq_eq_ok, List.map_cons, List.pairwise_cons, ← ih, forM_eq_ok,
        List.forall_mem_map]
      refine and_congr_left fun _ => forall₂_congr fun x _ => ?_
      cases crosses : scopesCross head.1 x.1 with
      | false =>
          simp only [crosses]
          exact iff_of_true rfl trivial
      | true =>
          simp only [crosses, ↓reduceIte]
          exact iff_of_false (by rintro ⟨⟩) (by simp)

end Verify

theorem Body.verify_ok {b : Body} :
    b.verify = .ok () ↔
      (∀ stmt ∈ b.stmts, ∀ target, stmt.target? = some target →
        target < b.stmts.length ∧ (b.leavesLowered = true → stmt.isLeave = false)) ∧
      (∀ s ∈ b.scopes, (∀ r ∈ s.spans, r.first < r.last ∧ r.last ≤ b.stmts.length) ∧
        ∀ r ∈ s.spans.tail, s.trySpan.overlaps r = false) ∧
      b.scopes.Pairwise fun s t => Verify.scopesCross s t = false := by
  unfold Body.verify
  rw [seq_eq_ok, seq_eq_ok, forM_zipIdx_eq_ok fun _ _ => Verify.checkStmt_ok,
    forM_zipIdx_eq_ok fun _ _ => Verify.checkScope_ok, Verify.checkPairs_ok, List.zipIdx_map_fst]

structure Sound (stmts : List Stmt) (scopes : List (Scope Ty)) : Prop where
  targets : ∀ stmt ∈ stmts, ∀ target, stmt.target? = some target → target < stmts.length
  laid : ∀ s ∈ scopes, s.Laid
  bounded : ∀ s ∈ scopes, s.handlerEnd ≤ stmts.length
  nested : scopes.Pairwise Scope.Nested

theorem Scope.Nested.not_cross {s t : Scope Ty} (laid : s.Laid) (laid' : t.Laid)
    (nested : s.Nested t) : Verify.scopesCross s t = false := by
  have inside {s t : Scope Ty} (laid : s.Laid) (laid' : t.Laid) (within : s.LiesWithin t) :
      ∀ r ∈ s.spans, ∀ q ∈ t.spans, r.overlaps q = false ∨ r.within q = true := by
    intro r region q other
    obtain ⟨around, region', fits⟩ := within
    have fits := Span.within_trans (laid.span_within_hull region) fits
    have positive := laid.span_nonempty region
    rw [Span.within_iff] at fits
    by_cases meets : r.overlaps q = true
    · right
      rw [Span.overlaps_iff] at meets
      -- A position that `r` and `q` share is in the region around `r` too.
      have shared : q = around := laid'.span_unique other region' (i := max r.first q.first)
        (by rw [Span.contains_iff]; have := laid'.span_nonempty other; omega)
        (by rw [Span.contains_iff]; omega)
      rw [shared, Span.within_iff]
      exact fits
    · exact .inl (Bool.eq_false_of_not_eq_true meets)
  rw [Verify.scopesCross_eq_false]
  intro r region q other
  unfold Verify.cross
  rcases nested with within | within | apart | siblings
  · rcases inside laid laid' within r region q other with clear | fits <;> simp [*]
  · rcases inside laid' laid within q other r region with clear | fits
    · simp [Span.overlaps_comm r q, clear]
    · simp [fits]
  · simp [apart r region q other]
  · rcases laid.span_cases region with rfl | beside
    · rcases laid'.span_cases other with rfl | beside
      · have same : t.trySpan.within s.trySpan = true := by simp [siblings.1, Span.within]
        simp [same]
      · have clear := siblings.symm.clear laid' laid beside s.trySpan s.trySpan_mem
        simp [Span.overlaps_comm s.trySpan q, clear]
    · simp [siblings.clear laid laid' beside q other]

theorem Body.verify_properlyNested {b : Body} :
    b.verify = .ok () ∧ ProperlyNested b.scopes ↔
      Sound b.stmts b.scopes ∧
        (b.leavesLowered = true → ∀ stmt ∈ b.stmts, stmt.isLeave = false) := by
  rw [Body.verify_ok]
  constructor
  · rintro ⟨⟨stmts, scopes, -⟩, ordered, pairs⟩
    refine ⟨⟨fun stmt member target branch => (stmts stmt member target branch).1, ?_, ?_, pairs⟩,
      ?_⟩
    · intro s member
      have regions := (scopes s member).1
      exact ⟨(regions _ s.trySpan_mem).1, ordered s member,
        fun r filter => (regions r (Scope.mem_spans.mpr (.inr (.inr filter)))).1,
        (regions _ s.handlerSpan_mem).1⟩
    · exact fun s member => ((scopes s member).1 _ s.handlerSpan_mem).2
    · intro lowered stmt member
      cases stmt with
      | leave target => exact (stmts _ member target rfl).2 lowered
      | _ => rfl
  · rintro ⟨sound, lowered⟩
    refine ⟨⟨?_, ?_, ?_⟩, fun s member => (sound.laid s member).tryEnd_le, sound.nested⟩
    · exact fun stmt member target branch =>
        ⟨sound.targets stmt member target branch, fun h => lowered h stmt member⟩
    · intro s member
      have laid := sound.laid s member
      refine ⟨fun r region => ⟨laid.span_nonempty region, ?_⟩, fun r region => ?_⟩
      · have inside := laid.span_within_hull region
        rw [laid.hull_eq, Span.within_iff] at inside
        exact inside.2.trans (sound.bounded s member)
      · rw [Span.overlaps_comm]
        apply Span.not_overlaps_of_within (laid.tail_beside region)
        rw [Span.overlaps_comm]
        exact laid.try_apart_side
    · exact sound.nested.imp_of_mem fun {s t} inS inT nested =>
        nested.not_cross (sound.laid s inS) (sound.laid t inT)

end Destack
