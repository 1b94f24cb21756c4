import Destack.Proofs.Bytecode.Numbered
import Destack.Proofs.Flow.Edges

namespace Destack

namespace Graph

section Leaders

variable {l : Listing} {scopes : List (Scope Ty)}

theorem mem_leaders {t : Nat} : t ∈ leaders l scopes ↔ t < l.length ∧ t ∈ marks l scopes := by
  simp [leaders]

theorem leaders_sorted : (leaders l scopes).Pairwise (· < ·) :=
  List.pairwise_lt_range.filter _

theorem mem_leaders_of_target {i : Instruction Nat} {t : Nat} (listed : i ∈ l)
    (target : t ∈ i.targets) (within : t < l.length) : t ∈ leaders l scopes := by
  rw [mem_leaders]
  refine ⟨within, List.mem_append_left _ (List.mem_cons_of_mem _ (List.mem_flatMap.mpr ?_))⟩
  exact ⟨i, listed, List.mem_append_left _ target⟩

theorem mem_leaders_of_endsBlock {i : Instruction Nat} (listed : i ∈ l)
    (ends : i.opcode.flow.endsBlock) (within : i.index + 1 < l.length) :
    i.index + 1 ∈ leaders l scopes := by
  rw [mem_leaders]
  refine ⟨within, List.mem_append_left _ (List.mem_cons_of_mem _ (List.mem_flatMap.mpr ?_))⟩
  exact ⟨i, listed, List.mem_append_right _ (by simp [ends])⟩

end Leaders

def spanEnd (length : Nat) (leaders : List Nat) (id : Nat) : Nat := (leaders[id + 1]?).getD length

theorem spans_getElem? (length : Nat) (leaders : List Nat) (id : Nat) :
    (spans length leaders)[id]? =
      leaders[id]?.map fun entry => ⟨entry, spanEnd length leaders id⟩ := by
  fun_induction spans length leaders generalizing id with
  | case1 => simp
  | case2 entry => cases id <;> simp [spanEnd]
  | case3 entry next rest ih =>
      cases id with
      | zero => simp [spanEnd]
      | succ id => simpa [spanEnd] using ih id

section Sorted

variable {length : Nat} {starts : List Nat} (sorted : starts.Pairwise (· < ·))
include sorted

theorem findIdx?_of_sorted {id t : Nat} (found : starts[id]? = some t) :
    starts.findIdx? (· = t) = some id := by
  rw [List.findIdx?_eq_some_iff_getElem]
  obtain ⟨within, here⟩ := List.getElem?_eq_some_iff.mp found
  refine ⟨within, by simpa using here, fun k before => ?_⟩
  have less := List.pairwise_iff_getElem.mp sorted k id (before.trans within) within before
  rw [here] at less
  simpa using less.ne

theorem lt_spanEnd {id t : Nat} (found : starts[id]? = some t)
    (bounded : ∀ t ∈ starts, t < length) : t < spanEnd length starts id := by
  obtain ⟨within, here⟩ := List.getElem?_eq_some_iff.mp found
  unfold spanEnd
  cases next : starts[id + 1]? with
  | none => exact bounded t (List.mem_of_getElem? found)
  | some u =>
      obtain ⟨withinNext, hereNext⟩ := List.getElem?_eq_some_iff.mp next
      have less := List.pairwise_iff_getElem.mp sorted id (id + 1) within withinNext
        (Nat.lt_succ_self id)
      rwa [here, hereNext] at less

theorem spanEnd_le {id t u : Nat} (found : starts[id]? = some t) (member : u ∈ starts)
    (later : t < u) : spanEnd length starts id ≤ u := by
  obtain ⟨k, within, here⟩ := List.getElem_of_mem member
  obtain ⟨withinFirst, hereFirst⟩ := List.getElem?_eq_some_iff.mp found
  have after : id < k := by
    by_contra notAfter
    rcases Nat.lt_or_eq_of_le (Nat.le_of_not_lt notAfter) with before | rfl
    · have less := List.pairwise_iff_getElem.mp sorted k id within withinFirst before
      omega
    · omega
  unfold spanEnd
  rw [List.getElem?_eq_getElem (by omega), Option.getD_some]
  rcases Nat.lt_or_eq_of_le (Nat.succ_le_of_lt after) with before | rfl
  · have less := List.pairwise_iff_getElem.mp sorted (id + 1) k (by omega) within before
    omega
  · exact here.le

end Sorted

theorem edges_eq_ok {leaders next : List Nat} {last : Instruction Nat}
    (found : edges leaders last = .ok next) :
    (∀ t ∈ flowTargets last, ∃ b, leaders.findIdx? (· = t) = some b) ∧
      ∀ b, b ∈ next ↔ ∃ t ∈ flowTargets last, leaders.findIdx? (· = t) = some b := by
  obtain ⟨blocks, mapped, same⟩ := bind_eq_ok.mp found
  cases same
  have each {t : Nat} (member : t ∈ flowTargets last) :
      ∃ b ∈ blocks, leaders.findIdx? (· = t) = some b := by
    obtain ⟨k, located⟩ := List.mem_iff_getElem?.mp member
    obtain ⟨b, placed, here⟩ := mapM_getElem? mapped located
    exact ⟨b, List.mem_of_getElem? placed, findIdx?_of_edge here⟩
  refine ⟨fun t member => ?_, fun b => ?_⟩
  · obtain ⟨b, -, here⟩ := each member
    exact ⟨b, here⟩
  · rw [mem_distinct]
    constructor
    · intro member
      obtain ⟨t, there, here⟩ := (mapM_eq_ok mapped).2 b member
      exact ⟨t, there, findIdx?_of_edge here⟩
    · rintro ⟨t, there, here⟩
      obtain ⟨c, member, same⟩ := each there
      rw [same, Option.some.injEq] at here
      exact here ▸ member

theorem mem_rootsOf {l : Listing} {scopes : List (Scope Ty)} {leaders : List Nat} {t b : Nat}
    {kind : RootKind} (listed : (t, kind) ∈ entries l scopes)
    (here : leaders.findIdx? (· = t) = some b) :
    b ∈ (rootsOf l scopes leaders).map (·.1) := by
  unfold rootsOf
  obtain ⟨front, back, listing⟩ := List.append_of_mem listed
  rw [listing, List.foldl_append, List.foldl_cons]
  -- The way makes the block a root, and what comes later takes no root away.
  apply List.foldlRecOn (motive := fun found : List (Nat × RootKind) => b ∈ found.map (·.1))
  · simp only [here]
    split
    · rename_i old
      simpa using old
    · simp
  · rintro found known ⟨position, kind⟩ -
    dsimp only
    split
    · split
      · exact known
      · rw [List.map_append]
        exact List.mem_append_left _ known
    · exact known

theorem mem_entries_of_leave {l : Listing} {scopes : List (Scope Ty)} {i : Instruction Nat}
    (listed : i ∈ l) (leaves : i.opcode.flow = .leave) {t : Nat} (target : i.target? = some t) :
    (t, .leaveTarget) ∈ entries l scopes := by
  apply List.mem_append_right
  rw [List.mem_flatMap]
  exact ⟨i, listed, by simp [leaves, target]⟩

/-- The blocks of the graph start at `starts` and reach from one to the next, and the graph has the
edges that the last instructions of the blocks ask for. Exits from protected regions lead to
roots. -/
structure Laid (l : Listing) (starts : List Nat) (g : Graph) : Prop where
  sorted : starts.Pairwise (· < ·)
  bounded : ∀ t ∈ starts, t < l.length
  targets : ∀ i ∈ l, ∀ t ∈ i.targets, t ∈ starts
  ends : ∀ i ∈ l, i.opcode.flow.endsBlock → i.index + 1 < l.length → i.index + 1 ∈ starts
  length : g.blocks.length = starts.length
  entry : ∀ {id : Nat} {b : Block}, g.blocks[id]? = some b → starts[id]? = some b.entry
  exit : ∀ {id : Nat} {b : Block}, g.blocks[id]? = some b →
    b.exit + 1 = spanEnd l.length starts id
  edges : ∀ {id : Nat} {b : Block} {last : Instruction Nat}, g.blocks[id]? = some b →
    l[b.exit]? = some last → edges starts last = .ok b.successors
  exits : ∀ i ∈ l, i.opcode.flow = .leave → ∀ t, i.target? = some t → ∀ id,
    starts.findIdx? (· = t) = some id → id ∈ g.roots.map (·.1)

theorem lt_of_danglingTarget? {l : Listing} (sound : danglingTarget? l = none) :
    ∀ i ∈ l, ∀ t ∈ i.targets, t < l.length := by
  intro i listed t target
  have fits := List.findSome?_eq_none_iff.mp sound i listed
  rw [Option.map_eq_none_iff, List.find?_eq_none] at fits
  simpa using fits t target

theorem laid_of_leaders {l : Listing} {scopes : List (Scope Ty)} {next : List (List Nat)}
    (exception : Nat → Option Ty) (sound : danglingTarget? l = none)
    (linked : (spans l.length (leaders l scopes)).mapM (fun s =>
      match l[s.last - 1]? with
      | some last => Graph.edges (leaders l scopes) last
      | none => pure []) = .ok next) :
    Laid l (leaders l scopes)
      { blocks := ((spans l.length (leaders l scopes)).zip next).zipIdx.map
          fun ((span, out), number) =>
            { entry := span.first
              exit := span.last - 1
              successors := out
              predecessors := (next.zipIdx.filter fun (out, _) => out.contains number).map (·.2)
              exception := exception number }
        roots := rootsOf l scopes (leaders l scopes) } := by
  generalize graph : Graph.mk _ _ = g
  have sorted : (leaders l scopes).Pairwise (· < ·) := leaders_sorted
  have bounded : ∀ t ∈ leaders l scopes, t < l.length := fun t member => (mem_leaders.mp member).1
  have block {id : Nat} {b : Block} (found : g.blocks[id]? = some b) :
      (leaders l scopes)[id]? = some b.entry ∧
        b.exit = spanEnd l.length (leaders l scopes) id - 1 ∧ next[id]? = some b.successors := by
    rw [← graph, List.getElem?_map, List.getElem?_zipIdx, List.zip, List.getElem?_zipWith,
      spans_getElem?] at found
    cases entry : (leaders l scopes)[id]? with
    | none => simp [entry] at found
    | some entry =>
        cases out : next[id]? with
        | none => simp [entry, out] at found
        | some out =>
            simp only [entry, out, Option.map_some, Option.some.injEq] at found
            rw [← found]
            exact ⟨rfl, rfl, rfl⟩
  have exit {id : Nat} {b : Block} (found : g.blocks[id]? = some b) :
      b.exit + 1 = spanEnd l.length (leaders l scopes) id := by
    have past := lt_spanEnd sorted (block found).1 bounded
    have read := (block found).2.1
    omega
  refine ⟨sorted, bounded, fun i listed t target => ?_, fun i listed ends within => ?_, ?_,
    fun found => (block found).1, exit, fun {id b last} found ends => ?_,
    fun i listed leaves t target id here => ?_⟩
  · exact mem_leaders_of_target listed target (lt_of_danglingTarget? sound i listed t target)
  · exact mem_leaders_of_endsBlock listed ends within
  · rw [← graph, List.length_map, List.length_zipIdx, List.length_zip, (mapM_eq_ok linked).1,
      length_spans, min_self]
  · have span := spans_getElem? l.length (leaders l scopes) id
    rw [(block found).1, Option.map_some] at span
    obtain ⟨list, same, leads⟩ := mapM_getElem? linked span
    rw [(block found).2.2, Option.some.injEq] at same
    rw [← exit found, Nat.add_sub_cancel, ends] at leads
    exact same ▸ leads
  · rw [← graph]
    exact mem_rootsOf (mem_entries_of_leave listed leaves target) here

theorem build_laid_leaders {l : Listing} {scopes : List (Scope Ty)} {g : Graph}
    (built : build l scopes = .ok g) : Laid l (leaders l scopes) g := by
  unfold build at built
  split at built
  · rename_i empty
    cases built
    rw [List.isEmpty_iff] at empty
    constructor <;> simp [empty, leaders]
  split at built
  · cases built
  · rename_i sound
    obtain ⟨next, linked, same⟩ := bind_eq_ok.mp built
    cases same
    exact laid_of_leaders (fun number =>
      ((rootsOf l scopes (leaders l scopes)).lookup number).bind (exceptionOf scopes)) sound linked

theorem build_laid {l : Listing} {scopes : List (Scope Ty)} {g : Graph}
    (built : build l scopes = .ok g) : ∃ starts, Laid l starts g :=
  ⟨_, build_laid_leaders built⟩

theorem lt_of_blockAt? {g : Graph} {t id : Nat} (found : g.blockAt? t = some id) :
    id < g.blocks.length :=
  (List.findIdx?_eq_some_iff_findIdx_eq.mp found).1

namespace Laid

variable {l : Listing} {starts : List Nat} {g : Graph} (laid : Laid l starts g) {id : Nat}
  {b : Block}
include laid

theorem nonempty (found : g.blocks[id]? = some b) : b.entry ≤ b.exit := by
  have past := lt_spanEnd laid.sorted (laid.entry found) laid.bounded
  have exit := laid.exit found
  omega

theorem next {c : Block} (found : g.blocks[id]? = some b) (after : g.blocks[id + 1]? = some c) :
    c.entry = b.exit + 1 := by
  rw [laid.exit found, spanEnd, laid.entry after, Option.getD_some]

theorem final (found : g.blocks[id]? = some b) (last : g.blocks.length ≤ id + 1) :
    b.exit + 1 = l.length := by
  rw [laid.exit found, spanEnd, List.getElem?_eq_none (laid.length ▸ last), Option.getD_none]

theorem within (found : g.blocks[id]? = some b) : b.exit < l.length := by
  rw [← Nat.succ_le_iff, Nat.succ_eq_add_one]
  by_cases last : g.blocks.length ≤ id + 1
  · exact (laid.final found last).le
  · have after := List.getElem?_eq_getElem (Nat.lt_of_not_le last)
    rw [← laid.next found after]
    exact (laid.bounded _ (List.mem_of_getElem? (laid.entry after))).le

theorem exists_last (bounded : id < g.blocks.length) :
    ∃ b last, g.blocks[id]? = some b ∧ l[b.exit]? = some last := by
  have found := List.getElem?_eq_getElem bounded
  exact ⟨_, _, found, List.getElem?_eq_getElem (laid.within found)⟩

theorem inside (numbered : Numbered 0 l) (found : g.blocks[id]? = some b) {k : Nat}
    {i : Instruction Nat} (first : b.entry ≤ k) (before : k < b.exit) (here : l[k]? = some i) :
    i.opcode.flow.endsBlock = false := by
  by_contra ends
  rw [Bool.not_eq_false] at ends
  have index := numbered.index here
  have within := laid.within found
  have start := laid.ends i (List.mem_of_getElem? here) ends (by omega)
  have apart : spanEnd l.length starts id ≤ i.index + 1 :=
    spanEnd_le laid.sorted (laid.entry found) start (by omega)
  have exit := laid.exit found
  omega

theorem blockAt?_eq (t : Nat) : g.blockAt? t = starts.findIdx? (· = t) := by
  have entries : g.blocks.map (·.entry) = starts := by
    apply List.ext_getElem?
    intro id
    rw [List.getElem?_map]
    cases found : g.blocks[id]? with
    | none =>
        rw [List.getElem?_eq_none_iff, laid.length] at found
        rw [List.getElem?_eq_none found]
        rfl
    | some b => exact (laid.entry found).symm
  rw [← entries, List.findIdx?_map]
  rfl

theorem blockAt?_entry (found : g.blocks[id]? = some b) : g.blockAt? b.entry = some id := by
  rw [laid.blockAt?_eq]
  exact findIdx?_of_sorted laid.sorted (laid.entry found)

theorem blockAt?_target {i : Instruction Nat} (listed : i ∈ l) {t : Nat} (target : t ∈ i.targets) :
    ∃ id, g.blockAt? t = some id := by
  obtain ⟨id, here⟩ := List.mem_iff_getElem?.mp (laid.targets i listed t target)
  refine ⟨id, ?_⟩
  rw [laid.blockAt?_eq]
  exact findIdx?_of_sorted laid.sorted here

variable {last : Instruction Nat} (found : g.blocks[id]? = some b) (ends : l[b.exit]? = some last)
include found ends

theorem blockAt?_flow {t : Nat} (flows : t ∈ flowTargets last) :
    ∃ after, g.blockAt? t = some after := by
  simp only [laid.blockAt?_eq]
  exact (edges_eq_ok (laid.edges found ends)).1 t flows

theorem mem_successors {after : Nat} :
    after ∈ g.successors id ↔ ∃ t ∈ flowTargets last, g.blockAt? t = some after := by
  rw [Graph.successors, found, Option.map_some, Option.getD_some,
    (edges_eq_ok (laid.edges found ends)).2]
  simp only [laid.blockAt?_eq]

theorem next_of_fallsThrough (numbered : Numbered 0 l) (falls : last.opcode.flow.fallsThrough) :
    id + 1 < g.blocks.length ∧ g.blockAt? (last.index + 1) = some (id + 1) := by
  have flows : last.index + 1 ∈ flowTargets last := List.mem_append_right _ (by simp [falls])
  obtain ⟨block, leads⟩ := laid.blockAt?_flow found ends flows
  have index := numbered.index ends
  have more : id + 1 < g.blocks.length := by
    by_contra none
    have exit := laid.final found (Nat.le_of_not_lt none)
    rw [laid.blockAt?_eq] at leads
    obtain ⟨within, here, -⟩ := List.findIdx?_eq_some_iff_getElem.mp leads
    have less := laid.bounded _ (List.getElem_mem within)
    simp only [decide_eq_true_eq] at here
    omega
  have after := List.getElem?_eq_getElem more
  refine ⟨more, ?_⟩
  rw [index, ← laid.next found after]
  exact laid.blockAt?_entry after

end Laid
end Graph
end Destack
