import Destack.Proofs.Exit.Run

namespace Destack

namespace Scope

def position (s t : Scope Ty) : Ordering :=
  (compare s.tryBegin t.tryBegin).then
    ((compare t.tryEnd s.tryEnd).then (compare s.handlerBegin t.handlerBegin))

section Position

variable {s t : Scope Ty}

theorem position_eq_lt :
    s.position t = .lt ↔ s.tryBegin < t.tryBegin ∨ s.tryBegin = t.tryBegin ∧
      (t.tryEnd < s.tryEnd ∨ s.tryEnd = t.tryEnd ∧ s.handlerBegin < t.handlerBegin) := by
  simp only [position, Ordering.then_eq_lt, Nat.compare_eq_lt, Nat.compare_eq_eq]
  omega

theorem position_eq_eq :
    s.position t = .eq ↔ s.tryBegin = t.tryBegin ∧ s.tryEnd = t.tryEnd ∧
      s.handlerBegin = t.handlerBegin := by
  simp only [position, Ordering.then_eq_eq, Nat.compare_eq_eq]
  omega

theorem position_swap (s t : Scope Ty) : t.position s = (s.position t).swap := by
  simp only [position, Ordering.swap_then, Nat.compare_swap]

theorem position_eq_gt : s.position t = .gt ↔ t.position s = .lt := by
  rw [position_swap t s, Ordering.swap_eq_gt]

end Position

section Nesting

variable {s t : Scope Ty}

theorem Laid.position_of_nestedIn (laid : t.Laid) (nested : s.nestedIn t = true) :
    t.position s = .lt := by
  -- A scope comes after the scopes that it is nested in.
  have := laid.tryBegin_lt
  have := laid.tryEnd_le
  have := t.handlerSide_le
  obtain ⟨different, r, region, fits⟩ := nestedIn_iff_exists.mp nested
  rw [Span.within_iff, trySpan] at fits
  rw [position_eq_lt]
  rcases laid.span_bounds region with rfl | rfl | ⟨-, rfl⟩
  · have : s.tryBegin ≠ t.tryBegin ∨ s.tryEnd ≠ t.tryEnd := by
      rw [← not_and_or]
      rintro ⟨first, last⟩
      exact different (by rw [trySpan, trySpan, first, last])
    dsimp only at fits
    omega
  · dsimp only at fits
    omega
  · dsimp only at fits
    omega

theorem nestedIn_of_tryEnd_lt (same : s.tryBegin = t.tryBegin) (less : s.tryEnd < t.tryEnd) :
    s.nestedIn t = true := by
  refine nestedIn_iff_exists.mpr ⟨fun equal => ?_, t.trySpan, t.trySpan_mem, ?_⟩
  · exact less.ne (congrArg Span.last equal)
  · exact Span.within_iff.mpr ⟨same.ge, less.le⟩

theorem Laid.order_eq_position (laid : s.Laid) (laid' : t.Laid) : s.order t = s.position t := by
  unfold order
  split
  · rename_i nested
    exact (laid.position_of_nestedIn nested).symm
  · rename_i outside
    split
    · rename_i nested
      exact (position_eq_gt.mpr (laid'.position_of_nestedIn nested)).symm
    · rename_i outside'
      -- Regions that begin together are nested unless they are the same.
      rcases eq_or_ne s.tryBegin t.tryBegin with same | different
      · have ends : s.tryEnd = t.tryEnd := by
          rcases Nat.lt_trichotomy s.tryEnd t.tryEnd with less | same | more
          · exact absurd (nestedIn_of_tryEnd_lt same less) outside'
          · exact same
          · exact absurd (nestedIn_of_tryEnd_lt same.symm more) outside
        simp only [position, same, ends, Nat.compare_eq_eq.mpr, Ordering.eq_then]
      · have : compare s.tryBegin t.tryBegin ≠ .eq := by
          rwa [Ne, Nat.compare_eq_eq]
        rw [position]
        cases compared : compare s.tryBegin t.tryBegin
        · rfl
        · contradiction
        · rfl

end Nesting

end Scope

namespace Inlining

def Precedes (scopes : List Marked) (i j : Nat) : Prop :=
  ∃ s t, scopes[i]? = some s ∧ scopes[j]? = some t ∧
    (s.scope.order t.scope = .lt ∨ s.scope.order t.scope = .eq ∧ i ≤ j)

section Choice

variable {scopes : List Marked} (laid : ∀ m ∈ scopes, m.scope.Laid) {i j k : Nat}
include laid

theorem precedes_iff {s t : Marked} (found : scopes[i]? = some s) (found' : scopes[j]? = some t) :
    Precedes scopes i j ↔
      s.scope.position t.scope = .lt ∨ s.scope.position t.scope = .eq ∧ i ≤ j := by
  have order := (laid s (List.mem_of_getElem? found)).order_eq_position
    (laid t (List.mem_of_getElem? found'))
  simp [Precedes, found, found', order]

theorem Precedes.trans (first : Precedes scopes i j) (second : Precedes scopes j k) :
    Precedes scopes i k := by
  obtain ⟨r, s, foundR, foundS, -⟩ := id first
  obtain ⟨-, t, -, foundT, -⟩ := id second
  rw [precedes_iff laid foundR foundS, Scope.position_eq_lt, Scope.position_eq_eq] at first
  rw [precedes_iff laid foundS foundT, Scope.position_eq_lt, Scope.position_eq_eq] at second
  rw [precedes_iff laid foundR foundT, Scope.position_eq_lt, Scope.position_eq_eq]
  omega

theorem Precedes.antisymm (first : Precedes scopes i j) (second : Precedes scopes j i) : i = j := by
  obtain ⟨s, t, found, found', -⟩ := id first
  rw [precedes_iff laid found found', Scope.position_eq_lt, Scope.position_eq_eq] at first
  rw [precedes_iff laid found' found, Scope.position_eq_lt, Scope.position_eq_eq] at second
  omega

theorem Precedes.refl {s : Marked} (found : scopes[i]? = some s) : Precedes scopes i i := by
  rw [precedes_iff laid found found, Scope.position_eq_eq]
  exact .inr ⟨⟨rfl, rfl, rfl⟩, le_rfl⟩

theorem earlier_precedes {s t : Marked} (found : scopes[i]? = some s)
    (found' : scopes[j]? = some t) (less : i < j) :
    Precedes scopes (earlier scopes i j) i ∧ Precedes scopes (earlier scopes i j) j := by
  have order := (laid s (List.mem_of_getElem? found)).order_eq_position
    (laid t (List.mem_of_getElem? found'))
  simp only [earlier, found, found', order]
  split
  · rename_i greater
    exact ⟨(precedes_iff laid found' found).mpr (.inl (Scope.position_eq_gt.mp greater)),
      .refl laid found'⟩
  · rename_i notGreater
    refine ⟨.refl laid found, (precedes_iff laid found found').mpr ?_⟩
    cases compared : s.scope.position t.scope with
    | lt => exact .inl rfl
    | eq => exact .inr ⟨rfl, less.le⟩
    | gt => exact absurd compared notGreater

theorem foldl_earlier_precedes {first : Nat} {rest : List Nat}
    (sorted : (first :: rest).Pairwise (· < ·)) (known : ∀ j ∈ first :: rest, j < scopes.length) :
    ∀ j ∈ first :: rest, Precedes scopes (rest.foldl (earlier scopes) first) j := by
  induction rest generalizing first with
  | nil =>
      intro j member
      obtain rfl := List.mem_singleton.mp member
      exact .refl laid (List.getElem?_eq_getElem (known j member))
  | cons next rest ih =>
      rw [List.pairwise_cons, List.pairwise_cons] at sorted
      obtain ⟨before, later, sorted⟩ := sorted
      rw [List.forall_mem_cons, List.forall_mem_cons] at known ⊢
      obtain ⟨here, there, known⟩ := known
      have least := earlier_precedes laid (List.getElem?_eq_getElem here)
        (List.getElem?_eq_getElem there) (before next List.mem_cons_self)
      rw [List.foldl_cons]
      -- The earlier of the first two takes the place of the first.
      have kept := earlier_mem scopes first next
      have all := @ih (earlier scopes first next) (List.pairwise_cons.mpr ⟨fun j member => by
          rcases kept with same | same <;> rw [same]
          · exact before j (List.mem_cons_of_mem _ member)
          · exact later j member, sorted⟩)
        (List.forall_mem_cons.mpr ⟨by rcases kept with same | same <;> rwa [same], known⟩)
      rw [List.forall_mem_cons] at all
      exact ⟨all.1.trans laid least.1, all.1.trans laid least.2, all.2⟩

end Choice

theorem waiting_sorted (scopes : List Marked) : (waiting scopes).Pairwise (· < ·) :=
  List.pairwise_lt_range.filter _

theorem lt_of_mem_waiting {scopes : List Marked} {i : Nat} (member : i ∈ waiting scopes) :
    i < scopes.length := by
  obtain ⟨m, found, -⟩ := mem_waiting.mp member
  exact (List.getElem?_eq_some_iff.mp found).1

section Next

variable {scopes : List Marked} (laid : ∀ m ∈ scopes, m.scope.Laid) {number : Nat}
include laid

theorem exists_least (waits : number ∈ waiting scopes) :
    ∃ least ∈ waiting scopes, ∀ j ∈ waiting scopes, Precedes scopes least j := by
  cases listed : waiting scopes with
  | nil =>
      rw [listed] at waits
      cases waits
  | cons first rest =>
      refine ⟨rest.foldl (earlier scopes) first, foldl_earlier_mem first rest, ?_⟩
      apply foldl_earlier_precedes laid
      · exact listed ▸ waiting_sorted scopes
      · exact fun j member => lt_of_mem_waiting (listed ▸ member)

theorem mem_outermost_of_least (waits : number ∈ waiting scopes)
    (least : ∀ j ∈ waiting scopes, Precedes scopes number j) : number ∈ outermost scopes := by
  -- The least scope is nested in no other, for it would come after that one.
  obtain ⟨m, found, waitsM⟩ := mem_waiting.mp waits
  refine mem_outermost.mpr ⟨m, found, waitsM, fun j o found' waitsO _ => ?_⟩
  rw [← Bool.not_eq_true]
  intro nested
  have after := (laid o (List.mem_of_getElem? found')).position_of_nestedIn nested
  have before := least j (mem_waiting.mpr ⟨o, found', waitsO⟩)
  rw [precedes_iff laid found found', Scope.position_eq_lt, Scope.position_eq_eq] at before
  rw [Scope.position_eq_lt] at after
  omega

theorem precedes_of_next? (chosen : next? scopes = some number) :
    ∀ j ∈ outermost scopes, Precedes scopes number j := by
  rw [next?_eq] at chosen
  have sorted : (outermost scopes).Pairwise (· < ·) := (waiting_sorted scopes).filter _
  have known : ∀ j ∈ outermost scopes, j < scopes.length := fun j member =>
    lt_of_mem_waiting (List.mem_filter.mp member).1
  cases listed : outermost scopes with
  | nil =>
      rw [listed] at chosen
      cases chosen
  | cons first rest =>
      rw [listed] at chosen sorted known
      cases chosen
      exact foldl_earlier_precedes laid sorted known

theorem next?_eq_some :
    next? scopes = some number ↔
      number ∈ waiting scopes ∧ ∀ j ∈ waiting scopes, Precedes scopes number j := by
  have chosen_least {n : Nat} (chosen : next? scopes = some n) :
      n ∈ waiting scopes ∧ ∀ j ∈ waiting scopes, Precedes scopes n j := by
    have waits := (List.mem_filter.mp (mem_outermost_of_next? chosen)).1
    obtain ⟨w, waitsW, least⟩ := exists_least laid waits
    have first := precedes_of_next? laid chosen w (mem_outermost_of_least laid waitsW least)
    exact ⟨waits, fun j member => first.trans laid (least j member)⟩
  refine ⟨chosen_least, ?_⟩
  rintro ⟨waits, least⟩
  cases chosen : next? scopes with
  | none =>
      have member := mem_outermost_of_least laid waits least
      rw [outermost_of_next?_eq_none chosen] at member
      cases member
  | some n =>
      obtain ⟨waitsN, leastN⟩ := chosen_least chosen
      rw [(leastN number waits).antisymm laid (least n waitsN)]

end Next

end Inlining

theorem Body.laid_of_verify {b : Body} (checked : b.verify = .ok ())
    (ordered : ∀ s ∈ b.scopes, s.tryEnd ≤ s.handlerSide) : ∀ s ∈ b.scopes, s.Laid := by
  intro s member
  have regions := ((Body.verify_ok.mp checked).2.1 s member).1
  exact ⟨(regions _ s.trySpan_mem).1, ordered s member,
    fun r filter => (regions r (Scope.mem_spans.mpr (.inr (.inr filter)))).1,
    (regions _ s.handlerSpan_mem).1⟩

/-- In a checked body with every handler after the region that it protects, scopes are ordered by
begin, then by end, the later one first, then by handler. So the order is total, and the scope that
is treated next is the least one that waits, the first of several that are equal. -/
theorem Body.order_scopes {b : Body} (checked : b.verify = .ok ())
    (ordered : ∀ s ∈ b.scopes, s.tryEnd ≤ s.handlerSide) :
    (∀ s ∈ b.scopes, ∀ t ∈ b.scopes, s.order t =
      (compare s.tryBegin t.tryBegin).then
        ((compare t.tryEnd s.tryEnd).then (compare s.handlerBegin t.handlerBegin))) ∧
    (∀ s ∈ b.scopes, s.order s = .eq) ∧
    (∀ s ∈ b.scopes, ∀ t ∈ b.scopes, t.order s = (s.order t).swap) ∧
    (∀ r ∈ b.scopes, ∀ s ∈ b.scopes, ∀ t ∈ b.scopes,
      r.order s ≠ .gt → s.order t ≠ .gt → r.order t ≠ .gt) ∧
    ∀ scopes : List Marked, scopes.map (·.scope) = b.scopes → ∀ number,
      Inlining.next? scopes = some number ↔ ∃ m, scopes[number]? = some m ∧ Inlining.Waits m ∧
        ∀ j o, scopes[j]? = some o → Inlining.Waits o →
          m.scope.order o.scope = .lt ∨ m.scope.order o.scope = .eq ∧ number ≤ j := by
  have laid := Body.laid_of_verify checked ordered
  have order : ∀ s ∈ b.scopes, ∀ t ∈ b.scopes, s.order t = s.position t := fun s inS t inT =>
    (laid s inS).order_eq_position (laid t inT)
  refine ⟨order, ?_, ?_, ?_, ?_⟩
  · intro s member
    rw [order s member s member, Scope.position_eq_eq]
    exact ⟨rfl, rfl, rfl⟩
  · intro s inS t inT
    rw [order s inS t inT, order t inT s inS, Scope.position_swap]
  · intro r inR s inS t inT first second
    rw [order r inR s inS, Ne, Scope.position_eq_gt, Scope.position_eq_lt] at first
    rw [order s inS t inT, Ne, Scope.position_eq_gt, Scope.position_eq_lt] at second
    rw [order r inR t inT, Ne, Scope.position_eq_gt, Scope.position_eq_lt]
    omega
  · intro scopes same number
    have laid : ∀ m ∈ scopes, m.scope.Laid := fun m member =>
      laid _ (same ▸ List.mem_map_of_mem member)
    rw [Inlining.next?_eq_some laid, Inlining.mem_waiting]
    constructor
    · rintro ⟨⟨m, found, waits⟩, least⟩
      refine ⟨m, found, waits, fun j o found' waits' => ?_⟩
      obtain ⟨s, t, foundS, foundT, before⟩ :=
        least j (Inlining.mem_waiting.mpr ⟨o, found', waits'⟩)
      rw [found] at foundS
      rw [found'] at foundT
      cases foundS
      cases foundT
      exact before
    · rintro ⟨m, found, waits, least⟩
      refine ⟨⟨m, found, waits⟩, fun j member => ?_⟩
      obtain ⟨o, found', waits'⟩ := Inlining.mem_waiting.mp member
      exact ⟨m, o, found, found', least j o found' waits'⟩

theorem Body.cascade_order :
    cascade.verify = .ok () ∧ (∀ s ∈ cascade.scopes, s.tryEnd ≤ s.handlerSide) ∧
    (∀ r ∈ cascade.scopes, ∀ s ∈ cascade.scopes, ∀ t ∈ cascade.scopes,
      r.order s ≠ .gt → s.order t ≠ .gt → r.order t ≠ .gt) ∧
    ∃ m, (Inlining.ofBody cascade).scopes[1]? = some m ∧ Inlining.Waits m ∧
      ∀ j o, (Inlining.ofBody cascade).scopes[j]? = some o → Inlining.Waits o →
        m.scope.order o.scope = .lt ∨ m.scope.order o.scope = .eq ∧ 1 ≤ j :=
  have checked : cascade.verify = .ok () := by decide +kernel
  have ordered : ∀ s ∈ cascade.scopes, s.tryEnd ≤ s.handlerSide := by decide
  have order := order_scopes checked ordered
  ⟨checked, ordered, order.2.2.2.1,
    (order.2.2.2.2 _ (Inlining.scopes_ofBody cascade) 1).mp (by decide +kernel)⟩

end Destack
