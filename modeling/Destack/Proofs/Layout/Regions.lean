import Destack.Proofs.Exit.Treatment
import Destack.Proofs.Layout.Flow

/-!
# Scopes of a body

Laying blocks out moves the bounds of the scopes from instructions to statements. The order of the
bounds is kept, and a region that control cannot fall out of keeps a statement, since a block that
ends without falling through has one. So properly nested scopes with such regions are laid out in
the body and nested in it.
-/

namespace Destack

/-- The scopes are properly nested, and each region has a last instruction, out of which control
does not fall. -/
structure Guarded (l : Listing) (scopes : List (Scope Ty)) : Prop where
  nested : ProperlyNested scopes
  nonempty : ∀ s ∈ scopes, ∀ r ∈ s.spans, r.first < r.last
  ends : ∀ s ∈ scopes, ∀ r ∈ s.spans,
    (l[r.last - 1]?.any fun last => !last.opcode.flow.fallsThrough) = true

theorem guarded_iff {l : Listing} {scopes : List (Scope Ty)} :
    Guarded l scopes ↔ ProperlyNested scopes ∧ (∀ s ∈ scopes, ∀ r ∈ s.spans, r.first < r.last) ∧
      ∀ s ∈ scopes, ∀ r ∈ s.spans,
        (l[r.last - 1]?.any fun last => !last.opcode.flow.fallsThrough) = true :=
  ⟨fun h => ⟨h.nested, h.nonempty, h.ends⟩, fun h => ⟨h.1, h.2.1, h.2.2⟩⟩

instance (l : Listing) (scopes : List (Scope Ty)) : Decidable (Guarded l scopes) :=
  decidable_of_iff _ guarded_iff.symm

namespace Guarded

variable {l : Listing} {scopes : List (Scope Ty)} (guarded : Guarded l scopes) {s : Scope Ty}
include guarded

theorem laid (member : s ∈ scopes) : s.Laid where
  tryBegin_lt := guarded.nonempty s member _ s.trySpan_mem
  tryEnd_le := guarded.nested.ordered s member
  filter_lt := fun r filter =>
    guarded.nonempty s member r (Scope.mem_spans.mpr (.inr (.inr filter)))
  handlerBegin_lt := guarded.nonempty s member _ s.handlerSpan_mem

theorem exists_last (member : s ∈ scopes) {r : Span} (region : r ∈ s.spans) :
    ∃ last, l[r.last - 1]? = some last ∧ last.opcode.flow.fallsThrough = false := by
  have ends := guarded.ends s member r region
  rw [Option.any_eq_true] at ends
  obtain ⟨last, found, leaves⟩ := ends
  exact ⟨last, found, by simpa using leaves⟩

theorem last_le (member : s ∈ scopes) {r : Span} (region : r ∈ s.spans) : r.last ≤ l.length := by
  obtain ⟨last, found, -⟩ := guarded.exists_last member region
  have within := (List.getElem?_eq_some_iff.mp found).1
  omega

end Guarded

namespace Scope

theorem mem_boundaries_of_mem_spans {s : Scope Ty} {r : Span} (region : r ∈ s.spans) :
    r.first ∈ Graph.boundaries s ∧ r.last ∈ Graph.boundaries s := by
  rcases mem_spans.mp region with rfl | rfl | filter
  · simp [Graph.boundaries, trySpan]
  · simp [Graph.boundaries, handlerSpan]
  · cases kind : s.kind <;> simp only [filterSpan?, kind] at filter
    all_goals first | contradiction | skip
    cases filter
    simp [Graph.boundaries, kind]

theorem mapBounds_congr {f g : Nat → Nat} {s : Scope Ty}
    (same : ∀ t ∈ Graph.boundaries s, f t = g t) : s.mapBounds f = s.mapBounds g := by
  obtain ⟨kind, a, b, c, d⟩ := s
  cases kind <;>
    simp_all [Graph.boundaries, mapBounds, HandlerKind.mapStart]

end Scope

theorem Graph.mem_leaders_of_boundary {l : Listing} {scopes : List (Scope Ty)} {s : Scope Ty}
    (member : s ∈ scopes) {t : Nat} (bound : t ∈ boundaries s) (within : t < l.length) :
    t ∈ leaders l scopes := by
  rw [mem_leaders]
  exact ⟨within, List.mem_append_right _ (List.mem_flatMap.mpr ⟨s, member, bound⟩)⟩

namespace Layout

def landing (starts : List Nat) (blocks : List (List Stmt)) (t : Nat) : Nat :=
  start blocks (starts.findIdx fun u => t ≤ u)

theorem landing_mono (starts : List Nat) (blocks : List (List Stmt)) :
    Monotone (landing starts blocks) := by
  intro t u order
  apply start_mono
  apply List.findIdx_le_findIdx
  intro v _ past
  simp only [decide_eq_true_eq] at past ⊢
  exact order.trans past

section

variable {l : Listing} {starts : List Nat} {g : Graph} (laid : Graph.Laid l starts g)
  {blocks : List (List Stmt)}
include laid

theorem findIdx_of_start {id t : Nat} (found : starts[id]? = some t) :
    (starts.findIdx fun u => t ≤ u) = id := by
  obtain ⟨within, here⟩ := List.getElem?_eq_some_iff.mp found
  rw [List.findIdx_eq within]
  refine ⟨by simp [here], fun k before => ?_⟩
  have less := List.pairwise_iff_getElem.mp laid.sorted k id (before.trans within) within before
  rw [here] at less
  simpa using less

theorem findIdx_of_length_le {t : Nat} (past : l.length ≤ t) :
    (starts.findIdx fun u => t ≤ u) = starts.length := by
  rw [List.findIdx_eq_length]
  intro u member
  have less := laid.bounded u member
  simp only [decide_eq_false_iff_not]
  omega

theorem position_eq_landing (length : blocks.length = starts.length) {t : Nat}
    (bound : t ∈ starts ∨ l.length ≤ t) : position g blocks t = landing starts blocks t := by
  unfold landing
  rcases bound with member | past
  · obtain ⟨id, found⟩ := List.mem_iff_getElem?.mp member
    have leads : g.blockAt? t = some id := by
      rw [laid.blockAt?_eq]
      exact Graph.findIdx?_of_sorted laid.sorted found
    rw [Build.position_of_blockAt? leads, findIdx_of_start laid found]
  · have nowhere : g.blockAt? t = none := by
      rw [laid.blockAt?_eq, List.findIdx?_eq_none_iff]
      intro u member
      have less := laid.bounded u member
      simp only [decide_eq_false_iff_not]
      omega
    rw [position, nowhere, findIdx_of_length_le laid past, length]

theorem exists_block_before {a b : Nat} (first : a ∈ starts) (order : a < b)
    (bound : b ∈ starts ∨ b = l.length) :
    ∃ id block, g.blocks[id]? = some block ∧ block.exit + 1 = b ∧
      (starts.findIdx fun u => a ≤ u) ≤ id ∧ (starts.findIdx fun u => b ≤ u) = id + 1 := by
  obtain ⟨low, found⟩ := List.mem_iff_getElem?.mp first
  obtain ⟨within, here⟩ := List.getElem?_eq_some_iff.mp found
  -- The bound is where the span with the number before its own ends.
  have ends : ∃ high ≤ starts.length, (starts.findIdx fun u => b ≤ u) = high ∧
      starts[high]?.getD l.length = b := by
    rcases bound with member | rfl
    · obtain ⟨high, found'⟩ := List.mem_iff_getElem?.mp member
      exact ⟨high, (List.getElem?_eq_some_iff.mp found').1.le, findIdx_of_start laid found',
        by simp [found']⟩
    · exact ⟨starts.length, le_rfl, findIdx_of_length_le laid le_rfl, by simp⟩
  obtain ⟨high, bounded, index, ends⟩ := ends
  have after : low < high := by
    by_contra early
    have inside : high < starts.length := by omega
    rw [List.getElem?_eq_getElem inside, Option.getD_some] at ends
    rcases Nat.lt_or_eq_of_le (Nat.le_of_not_lt early) with before | rfl
    · have less := List.pairwise_iff_getElem.mp laid.sorted high low inside within before
      omega
    · omega
  obtain ⟨id, rfl⟩ := Nat.exists_eq_succ_of_ne_zero (Nat.ne_of_gt (Nat.zero_lt_of_lt after))
  have listed : id < g.blocks.length := laid.length ▸ bounded
  refine ⟨id, _, List.getElem?_eq_getElem listed, ?_, ?_, index⟩
  · rw [laid.exit (List.getElem?_eq_getElem listed)]
    exact ends
  · rw [findIdx_of_start laid found]
    exact Nat.le_of_lt_succ after

end

end Layout

namespace Build

variable {job : Job} {s : Build} {scopes : List (Scope Ty)}

theorem mapBounds_position (finished : Finished job s)
    (built : Graph.build job.listing scopes = .ok job.graph) {scope : Scope Ty}
    (member : scope ∈ scopes) :
    scope.mapBounds (Layout.position job.graph s.pieces) =
      scope.mapBounds (Layout.landing (Graph.leaders job.listing scopes) s.pieces) := by
  have laid := Graph.build_laid_leaders built
  have length : s.pieces.length = (Graph.leaders job.listing scopes).length := by
    rw [length_pieces, finished.length_sites, laid.length]
  apply Scope.mapBounds_congr
  intro t bound
  apply Layout.position_eq_landing laid length
  rcases Nat.lt_or_ge t job.listing.length with within | past
  · exact .inl (Graph.mem_leaders_of_boundary member bound within)
  · exact .inr past

theorem landing_lt (finished : Finished job s) (numbered : Numbered 0 job.listing)
    (built : Graph.build job.listing scopes = .ok job.graph)
    (guarded : Guarded job.listing scopes) {scope : Scope Ty} (member : scope ∈ scopes) {r : Span}
    (region : r ∈ scope.spans) :
    Layout.landing (Graph.leaders job.listing scopes) s.pieces r.first <
      Layout.landing (Graph.leaders job.listing scopes) s.pieces r.last := by
  have laid := Graph.build_laid_leaders built
  have order := guarded.nonempty scope member r region
  have inside := guarded.last_le member region
  obtain ⟨last, found, leaves⟩ := guarded.exists_last member region
  obtain ⟨first, final⟩ := Scope.mem_boundaries_of_mem_spans region
  have bound : r.last ∈ Graph.leaders job.listing scopes ∨ r.last = job.listing.length :=
    (Nat.lt_or_eq_of_le inside).imp_left (Graph.mem_leaders_of_boundary member final)
  obtain ⟨id, block, listed, exit, low, high⟩ := Layout.exists_block_before laid
    (Graph.mem_leaders_of_boundary member first (by omega)) order bound
  rw [← exit, Nat.add_sub_cancel] at found
  have grows := start_lt_succ finished numbered laid (Graph.build_linked built) listed found leaves
  calc Layout.landing (Graph.leaders job.listing scopes) s.pieces r.first
      ≤ Layout.start s.pieces id := Layout.start_mono _ low
    _ < Layout.start s.pieces (id + 1) := grows
    _ = Layout.landing (Graph.leaders job.listing scopes) s.pieces r.last := by
      rw [Layout.landing, high]

theorem target_body_lt (finished : Finished job s) (numbered : Numbered 0 job.listing)
    (built : Graph.build job.listing scopes = .ok job.graph) {stmt : Stmt}
    (member : stmt ∈ s.body job.graph) {target : Nat} (leads : stmt.target? = some target) :
    target < (s.body job.graph).length := by
  obtain ⟨stmt, placed, rfl⟩ := List.mem_map.mp member
  rw [Stmt.target?_mapTarget] at leads
  obtain ⟨t, named, rfl⟩ := Option.map_eq_some_iff.mp leads
  rw [body, List.length_map]
  exact target_lt_length finished numbered (Graph.build_laid_leaders built)
    (Graph.build_linked built) placed named

theorem landing_le_length (starts : List Nat) (g : Graph) (t : Nat) :
    Layout.landing starts s.pieces t ≤ (s.body g).length := by
  rw [body, List.length_map, Layout.landing, Layout.start]
  exact ((List.take_sublist _ s.pieces).flatten).length_le

theorem layOut_sound (finished : Finished job s) (numbered : Numbered 0 job.listing)
    (built : Graph.build job.listing scopes = .ok job.graph)
    (guarded : Guarded job.listing scopes) (name : String) :
    Sound (s.layOut job.graph name scopes).stmts (s.layOut job.graph name scopes).scopes := by
  have mono := Layout.landing_mono (Graph.leaders job.listing scopes) s.pieces
  have moved : (s.layOut job.graph name scopes).scopes = scopes.map (·.mapBounds
      (Layout.landing (Graph.leaders job.listing scopes) s.pieces)) :=
    List.map_congr_left fun scope member => mapBounds_position finished built member
  rw [moved, stmts_layOut]
  refine ⟨fun stmt member target leads => ?_, ?_, ?_, ?_⟩
  · exact target_body_lt finished numbered built member leads
  · rw [List.forall_mem_map]
    intro scope member
    exact (guarded.laid member).mapBounds_of_lt mono fun r region =>
      landing_lt finished numbered built guarded member region
  · rw [List.forall_mem_map]
    exact fun scope _ => landing_le_length _ _ scope.handlerEnd
  · rw [List.pairwise_map]
    exact guarded.nested.pairs.imp fun nested => nested.mapBounds mono

end Build
end Destack
