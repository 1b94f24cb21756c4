import Destack.Flow.Graph
import Destack.Proofs.Except

namespace Destack

theorem mem_foldl_unless {α : Type} [DecidableEq α] {a : α} {items found : List α} :
    a ∈ items.foldl (fun seen b => if b ∈ seen then seen else seen ++ [b]) found ↔
      a ∈ found ∨ a ∈ items := by
  induction items generalizing found with
  | nil => simp
  | cons b items ih =>
      rw [List.foldl_cons, ih, List.mem_cons]
      split
      · rename_i known
        constructor
        · rintro (old | later)
          · exact .inl old
          · exact .inr (.inr later)
        · rintro (old | rfl | later)
          · exact .inl old
          · exact .inl known
          · exact .inr later
      · simp only [List.mem_append, List.mem_singleton]
        exact or_assoc

theorem mem_distinct {α : Type} [DecidableEq α] {a : α} {items : List α} :
    a ∈ distinct items ↔ a ∈ items := by
  rw [distinct, mem_foldl_unless]
  simp

namespace Graph

structure Linked (g : Graph) : Prop where
  successor_lt : ∀ p b, b ∈ g.successors p → b < g.blocks.length
  mirrored : ∀ p b, b < g.blocks.length → (p ∈ g.predecessors b ↔ b ∈ g.successors p)
  root_lt : ∀ b ∈ g.roots.map (·.1), b < g.blocks.length

theorem length_spans (length : Nat) (leaders : List Nat) :
    (spans length leaders).length = leaders.length := by
  fun_induction spans length leaders with
  | case1 => rfl
  | case2 => rfl
  | case3 entry next rest ih => exact congrArg (· + 1) ih

theorem findIdx?_of_edge {leaders : List Nat} {last : Instruction Nat} {t b : Nat}
    (leads : (match leaders.findIdx? (· = t) with
      | some block => Except.ok block
      | none => .error (ReplayError.danglingTarget last.index t)) = .ok b) :
    leaders.findIdx? (· = t) = some b := by
  split at leads
  · cases leads
    assumption
  · cases leads

theorem edges_lt {leaders next : List Nat} {last : Instruction Nat}
    (found : edges leaders last = .ok next) : ∀ b ∈ next, b < leaders.length := by
  obtain ⟨targets, blocks, same⟩ := bind_eq_ok.mp found
  cases same
  intro b member
  rw [mem_distinct] at member
  obtain ⟨target, -, leads⟩ := (mapM_eq_ok blocks).2 b member
  exact (List.findIdx?_eq_some_iff_findIdx_eq.mp (findIdx?_of_edge leads)).1

theorem rootsOf_lt (l : Listing) (scopes : List (Scope Ty)) (leaders : List Nat) :
    ∀ b ∈ (rootsOf l scopes leaders).map (·.1), b < leaders.length := by
  unfold rootsOf
  apply List.foldlRecOn (motive := fun found : List (Nat × RootKind) =>
    ∀ b ∈ found.map (·.1), b < leaders.length)
  · simp
  · rintro found bounded ⟨position, kind⟩ -
    dsimp only
    split
    · rename_i block here
      split
      · exact bounded
      · intro b member
        rw [List.map_append, List.mem_append] at member
        rcases member with old | new
        · exact bounded b old
        · obtain rfl := List.mem_singleton.mp new
          exact (List.findIdx?_eq_some_iff_findIdx_eq.mp here).1
    · exact bounded

theorem linked_of_successors {spans : List Span} {next : List (List Nat)}
    {roots : List (Nat × RootKind)} (exception : Nat → Option Ty)
    (size : next.length = spans.length)
    (bounded : ∀ list ∈ next, ∀ b ∈ list, b < next.length)
    (rooted : ∀ b ∈ roots.map (·.1), b < next.length) :
    Linked
      { blocks := (spans.zip next).zipIdx.map fun ((span, out), number) =>
          { entry := span.first
            exit := span.last - 1
            successors := out
            predecessors := (next.zipIdx.filter fun (out, _) => out.contains number).map (·.2)
            exception := exception number }
        roots } := by
  generalize graph : Graph.mk _ roots = g
  have length : g.blocks.length = next.length := by
    rw [← graph, List.length_map, List.length_zipIdx, List.length_zip, size, min_self]
  have successors_eq (p : Nat) : g.successors p = (next[p]?).getD [] := by
    rw [successors, ← graph, List.getElem?_map, List.getElem?_zipIdx, List.zip,
      List.getElem?_zipWith]
    by_cases bound : p < next.length
    · rw [List.getElem?_eq_getElem bound, List.getElem?_eq_getElem (size ▸ bound)]
      rfl
    · rw [List.getElem?_eq_none (by omega), List.getElem?_eq_none (by omega)]
      rfl
  have mem_successors {p b : Nat} :
      b ∈ g.successors p ↔ ∃ list, next[p]? = some list ∧ b ∈ list := by
    rw [successors_eq]
    cases next[p]? <;> simp
  have mem_predecessors {p b : Nat} (bound : b < next.length) :
      p ∈ g.predecessors b ↔ ∃ list, next[p]? = some list ∧ b ∈ list := by
    rw [predecessors, ← graph, List.getElem?_map, List.getElem?_zipIdx, List.zip,
      List.getElem?_zipWith, List.getElem?_eq_getElem bound,
      List.getElem?_eq_getElem (size ▸ bound)]
    simp only [Option.map_some, Option.getD_some, List.mem_map, List.mem_filter,
      List.contains_iff_mem, Prod.exists, exists_eq_right, List.mk_mem_zipIdx_iff_getElem?,
      Nat.zero_add]
  refine ⟨fun p b leads => ?_, fun p b bound => ?_, ?_⟩
  · obtain ⟨list, here, member⟩ := mem_successors.mp leads
    rw [length]
    exact bounded list (List.mem_of_getElem? here) b member
  · rw [mem_successors, mem_predecessors (length ▸ bound)]
  · rw [length, ← graph]
    exact rooted

theorem build_linked {l : Listing} {scopes : List (Scope Ty)} {g : Graph}
    (built : build l scopes = .ok g) : g.Linked := by
  unfold build at built
  split at built
  · cases built
    exact ⟨by simp [successors], by simp, by simp⟩
  split at built
  · cases built
  obtain ⟨next, found, same⟩ := bind_eq_ok.mp built
  cases same
  obtain ⟨size, sources⟩ := mapM_eq_ok found
  have leading := size.trans (length_spans l.length (leaders l scopes))
  refine linked_of_successors (fun number =>
    ((rootsOf l scopes (leaders l scopes)).lookup number).bind (exceptionOf scopes)) size ?_ ?_
  · intro list member b leads
    obtain ⟨span, -, here⟩ := sources list member
    rw [leading]
    split at here
    · exact edges_lt here b leads
    · cases here
      cases leads
  · rw [leading]
    exact rootsOf_lt l scopes (leaders l scopes)

end Graph
end Destack
