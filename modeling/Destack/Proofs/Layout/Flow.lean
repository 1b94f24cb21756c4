import Destack.Proofs.Exit.Execution
import Destack.Proofs.Layout.Placement
import Destack.Proofs.Replay.Ways

namespace Destack

open Replay

namespace Moves

theorem way_saveConditions (written : List Value) (stmts : List Stmt) (s : Saved) :
    (saveConditions written stmts s).1.map Stmt.way = stmts.map Stmt.way := by
  fun_induction saveConditions written stmts s with
  | case1 => rfl
  | case2 s cond target rest left first right second rest' final ih =>
      simp_all [Stmt.way, Stmt.target?, Stmt.fallsThrough]
  | case3 s stmt rest other rest' final ih => simp_all

theorem isStraight_stage (vars : Variables) (moves : List Move) :
    (∀ s ∈ (stage vars moves).1, s.isStraight) ∧ ∀ s ∈ (stage vars moves).2.1, s.isStraight := by
  induction moves generalizing vars with
  | nil => simp [stage]
  | cons m moves ih =>
      simp only [stage, List.forall_mem_cons]
      exact ⟨⟨rfl, (ih _).1⟩, ⟨rfl, (ih _).2⟩⟩

theorem isStraight_assignments (vars : Variables) (moves : List Move) :
    ∀ s ∈ (assignments vars moves).1, s.isStraight := by
  unfold assignments
  split
  · intro s member
    rcases List.mem_append.mp member with member | member
    · exact (isStraight_stage vars moves).1 s member
    · exact (isStraight_stage vars moves).2 s member
  · intro s member
    obtain ⟨m, -, rfl⟩ := List.mem_map.mp member
    rfl

theorem takeWhile_of_leads {ways : List (Option Nat × Bool)} {stmts : List Stmt}
    (leads : Leads ways [] stmts) (branches : ∀ w ∈ ways, w.1.isSome) :
    Leads [] [] (stmts.takeWhile fun s => !s.isBranch) ∧
      (stmts.dropWhile fun s => !s.isBranch).map Stmt.way = ways := by
  obtain ⟨front, back, rfl, straight, rfl⟩ := leads.split
  have goesOn : ∀ s ∈ front, !s.isBranch := by
    intro s member
    have target : s.target? = none := congrArg Prod.fst (straight s member)
    simp [Stmt.isBranch, target]
  have leaves (nonempty : 0 < back.length) : ¬ (!back[0].isBranch) = true := by
    have branch : back[0].isBranch := branches _ (List.mem_map_of_mem (List.getElem_mem nonempty))
    simp [branch]
  rw [List.takeWhile_append_of_pos goesOn, List.dropWhile_append_of_pos goesOn,
    List.takeWhile_eq_nil_iff.mpr leaves, List.append_nil, List.dropWhile_eq_self_iff.mpr leaves]
  refine ⟨⟨front.length, ?_⟩, rfl⟩
  rw [List.map_nil, List.nil_append, List.append_nil, ← List.map_const']
  exact List.map_congr_left straight

theorem insert_leads {ways : List (Option Nat × Bool)} {stmts : List Stmt} {moves : List Move}
    (vars : Variables) (leads : Leads ways [] stmts)
    (branches : moves ≠ [] → ∀ w ∈ ways, w.1.isSome) :
    Leads ways [] (insert stmts moves vars).1 := by
  unfold insert
  split
  · exact leads
  · rename_i some
    rw [List.isEmpty_iff] at some
    obtain ⟨before, after⟩ := takeWhile_of_leads leads (branches some)
    have saved : ∀ s ∈ (saveConditions (written moves) (stmts.dropWhile fun s => !s.isBranch)
        ⟨vars, []⟩).2.copies.map (fun both => Stmt.set both.2 (.value both.1)), s.isStraight := by
      intro s member
      obtain ⟨both, -, rfl⟩ := List.mem_map.mp member
      rfl
    have moved := (before.straight saved).straight (isStraight_assignments
      (saveConditions (written moves) (stmts.dropWhile fun s => !s.isBranch) ⟨vars, []⟩).2.vars
      moves)
    refine moved.trans ⟨0, ?_⟩
    rw [List.map_append, way_saveConditions, after]
    simp

end Moves

inductive Runs (stmts : List Stmt) (first last : Nat) : Nat → Prop
  | here : Runs stmts first last first
  | next {i : Nat} {s : Stmt} (before : Runs stmts first last i) (inside : i < last)
      (found : stmts[i]? = some s) (falls : s.fallsThrough) : Runs stmts first last (i + 1)

/-- Where control that enters at `first` leaves the statements before `last` to: the target of a
statement, or the position after the last one. -/
def LeavesTo (stmts : List Stmt) (first last target : Nat) : Prop :=
  (∃ i s, Runs stmts first last i ∧ i < last ∧ stmts[i]? = some s ∧ s.target? = some target) ∨
    Runs stmts first last last ∧ target = last

section LeavesTo

variable {stmts piece : List Stmt} {first target : Nat} {ways : List (Option Nat × Bool)}

theorem runs_iff (laid : ∀ k < piece.length, stmts[first + k]? = piece[k]?) {k : Nat}
    (within : k ≤ piece.length) :
    Runs stmts first (first + piece.length) (first + k) ↔
      ∀ s ∈ piece.take k, s.fallsThrough := by
  induction k with
  | zero => simp [Runs.here]
  | succ k ih =>
      have inside : k < piece.length := within
      have here := laid k inside
      rw [List.getElem?_eq_getElem inside] at here
      rw [List.take_add_one, List.getElem?_eq_getElem inside, Option.toList_some,
        List.forall_mem_append, ← ih inside.le]
      simp only [List.mem_singleton, forall_eq]
      constructor
      · intro runs
        generalize position : first + (k + 1) = i at runs
        cases runs with
        | here => omega
        | @next j s before less found falls =>
            obtain rfl : j = first + k := by omega
            rw [here, Option.some.injEq] at found
            exact ⟨before, found ▸ falls⟩
      · rintro ⟨before, falls⟩
        exact before.next (by omega) here falls

theorem leavesTo_piece (laid : ∀ k < piece.length, stmts[first + k]? = piece[k]?) :
    LeavesTo stmts first (first + piece.length) target ↔
      (∃ front s back, piece = front ++ s :: back ∧ (∀ s ∈ front, s.fallsThrough) ∧
        s.target? = some target) ∨
      (∀ s ∈ piece, s.fallsThrough) ∧ target = first + piece.length := by
  have ends := runs_iff laid le_rfl
  rw [List.take_length] at ends
  unfold LeavesTo
  rw [ends]
  apply or_congr_left
  constructor
  · rintro ⟨i, s, runs, less, found, leads⟩
    obtain ⟨k, rfl⟩ : ∃ k, i = first + k := by
      apply Nat.exists_eq_add_of_le
      clear found less
      induction runs with
      | here => rfl
      | next before inside found falls ih => exact ih.trans (Nat.le_succ _)
    have inside : k < piece.length := by omega
    rw [laid k inside] at found
    refine ⟨piece.take k, s, piece.drop (k + 1), ?_, (runs_iff laid inside.le).mp runs, leads⟩
    obtain ⟨_, rfl⟩ := List.getElem?_eq_some_iff.mp found
    rw [← List.drop_eq_getElem_cons inside, List.take_append_drop]
  · rintro ⟨front, s, back, rfl, falls, leads⟩
    have inside : front.length < (front ++ s :: back).length := by simp
    refine ⟨first + front.length, s, ?_, by omega, ?_, leads⟩
    · rw [runs_iff laid inside.le, List.take_left]
      exact falls
    · rw [laid _ inside]
      simp

theorem leavesTo_iff (laid : ∀ k < piece.length, stmts[first + k]? = piece[k]?)
    (leads : Leads ways [] piece) (goOn : ∀ w ∈ ways.dropLast, w.2 = true) :
    LeavesTo stmts first (first + piece.length) target ↔
      (∃ w ∈ ways, w.1 = some target) ∨ ways.all (·.2) ∧ target = first + piece.length := by
  obtain ⟨straight, leaving, rfl, straight_way, rfl⟩ := leads.split
  rw [leavesTo_piece laid]
  apply or_congr
  · constructor
    · rintro ⟨front, s, back, split, -, leads⟩
      have member : s ∈ straight ++ leaving := by simp [split]
      rcases List.mem_append.mp member with member | member
      · have none := congrArg Prod.fst (straight_way _ member)
        rw [show s.way.1 = s.target? from rfl, leads] at none
        cases none
      · exact ⟨s.way, List.mem_map_of_mem member, leads⟩
    · rintro ⟨w, member, named⟩
      obtain ⟨s, located, rfl⟩ := List.mem_map.mp member
      obtain ⟨before, after, rfl⟩ := List.append_of_mem located
      refine ⟨straight ++ before, s, after, (List.append_assoc _ _ _).symm, fun t member => ?_,
        named⟩
      rcases List.mem_append.mp member with member | member
      · exact congrArg Prod.snd (straight_way _ member)
      · apply goOn t.way
        rw [List.map_append, List.map_cons, List.dropLast_append_cons]
        exact List.mem_append_left _ (List.mem_map_of_mem member)
  · apply and_congr_left'
    rw [List.forall_mem_append, List.all_map, List.all_eq_true]
    constructor
    · exact fun falls => falls.2
    · exact fun falls => ⟨fun s member => congrArg Prod.snd (straight_way _ member), falls⟩

end LeavesTo

theorem Stmt.way_mapTarget (f : Nat → Nat) (s : Stmt) :
    (s.mapTarget f).way = (s.way.1.map f, s.way.2) := by
  cases s <;> rfl

theorem Replay.Leads.mapTarget {ways : List (Option Nat × Bool)} {stmts : List Stmt}
    (leads : Leads ways [] stmts) (f : Nat → Nat) :
    Leads (ways.map fun w => (w.1.map f, w.2)) [] (stmts.map (·.mapTarget f)) := by
  obtain ⟨n, same⟩ := leads
  refine ⟨n, ?_⟩
  have moved := congrArg (List.map fun w : Option Nat × Bool => (w.1.map f, w.2)) same
  simpa [Function.comp_def, Stmt.way_mapTarget] using moved

namespace Graph

def onward (g : Graph) (id : Nat) (last : Instruction Nat) : List Nat :=
  g.successors id ++
    if last.opcode.flow = .leave then (last.target?.bind g.blockAt?).toList else []

theorem Linked.lt_of_mem_onward {g : Graph} (linked : g.Linked) {id after : Nat}
    {last : Instruction Nat} (onward : after ∈ g.onward id last) : after < g.blocks.length := by
  rcases List.mem_append.mp onward with edge | exits
  · exact linked.successor_lt id after edge
  · split at exits
    · rw [Option.mem_toList, Option.bind_eq_some_iff] at exits
      obtain ⟨t, -, leads⟩ := exits
      exact lt_of_blockAt? leads
    · cases exits

theorem Laid.mem_onward {l : Listing} {starts : List Nat} {g : Graph} {id : Nat} {b : Block}
    {last : Instruction Nat} (laid : Laid l starts g) (numbered : Numbered 0 l)
    (found : g.blocks[id]? = some b) (ends : l[b.exit]? = some last) (targeted : last.Targeted)
    {after : Nat} :
    after ∈ g.onward id last ↔
      (∃ t, (∃ w ∈ last.ways, w.1 = some t) ∧ g.blockAt? t = some after) ∨
        last.opcode.flow.fallsThrough ∧ after = id + 1 := by
  simp only [Instruction.mem_ways targeted]
  rw [onward, List.mem_append, laid.mem_successors found ends]
  constructor
  · rintro (⟨t, flows, leads⟩ | exits)
    · rcases List.mem_append.mp flows with target | falls
      · split at target
        · exact .inl ⟨t, ⟨target, .inl (by assumption)⟩, leads⟩
        · cases target
      · split at falls
        · rename_i falling
          rw [List.mem_singleton.mp falls,
            (laid.next_of_fallsThrough found ends numbered falling).2] at leads
          exact .inr ⟨falling, (Option.some.inj leads).symm⟩
        · cases falls
    · split at exits
      · rename_i leaves
        rw [Option.mem_toList, Option.bind_eq_some_iff] at exits
        obtain ⟨t, named, leads⟩ := exits
        refine .inl ⟨t, ⟨?_, .inr leaves⟩, leads⟩
        rw [Instruction.targets_of_target? named]
        exact List.mem_singleton.mpr rfl
      · cases exits
  · rintro (⟨t, ⟨target, takes | leaves⟩, leads⟩ | ⟨falls, rfl⟩)
    · exact .inl ⟨t, List.mem_append_left _ (by rwa [if_pos takes]), leads⟩
    · right
      obtain ⟨named, same⟩ := targeted (.inr (.inr leaves))
      rw [Instruction.targets_of_target? same, List.mem_singleton] at target
      rw [if_pos leaves, same, ← target, Option.bind_some, leads]
      exact List.mem_singleton.mpr rfl
    · left
      refine ⟨_, List.mem_append_right _ ?_, (laid.next_of_fallsThrough found ends numbered falls).2⟩
      rw [if_pos falls]
      exact List.mem_singleton.mpr rfl

end Graph

namespace Build

/-- A body has the control flow of a graph. Its statements are the given pieces, one for each
block. -/
structure FlowsAs (l : Listing) (g : Graph) (pieces : List (List Stmt)) (stmts : List Stmt) :
    Prop where
  targets : ∀ s ∈ stmts, ∀ target, s.target? = some target → target < stmts.length
  blocks : ∀ (id : Nat) (b : Block) (last : Instruction Nat), g.blocks[id]? = some b →
    l[b.exit]? = some last → ∀ target,
      LeavesTo stmts (Layout.start pieces id) (Layout.start pieces (id + 1)) target ↔
        ∃ after ∈ g.onward id last, target = Layout.start pieces after
  ends : ∀ (id : Nat) (b : Block) (last : Instruction Nat), g.blocks[id]? = some b →
    l[b.exit]? = some last →
    last.opcode ∈ [.ret, .throw, .rethrow, .endfinally, .endfilter] → ∀ target,
      ¬ LeavesTo stmts (Layout.start pieces id) (Layout.start pieces (id + 1)) target

variable {job : Job} {s : Build} {starts : List Nat} {id : Nat} {b : Block}
  {last : Instruction Nat}

def body (s : Build) (g : Graph) : List Stmt :=
  s.pieces.flatten.map (·.mapTarget (Layout.position g s.pieces))

theorem stmts_layOut (s : Build) (g : Graph) (name : String) (scopes : List (Scope Ty)) :
    (s.layOut g name scopes).stmts = s.body g :=
  rfl

theorem body_getElem? (g : Graph) {piece : List Stmt} {k : Nat}
    (placed : s.pieces[id]? = some piece) (within : k < piece.length) :
    (s.body g)[Layout.start s.pieces id + k]? =
      piece[k]?.map (·.mapTarget (Layout.position g s.pieces)) := by
  rw [body, List.getElem?_map, Layout.getElem?_flatten placed within]

theorem position_of_blockAt? {g : Graph} {pieces : List (List Stmt)} {t after : Nat}
    (leads : g.blockAt? t = some after) : Layout.position g pieces t = Layout.start pieces after := by
  rw [Layout.position, leads]

section Finished

variable (finished : Finished job s) (numbered : Numbered 0 job.listing)
  (laid : Graph.Laid job.listing starts job.graph) (linked : job.graph.Linked)
  (found : job.graph.blocks[id]? = some b)
include finished numbered laid linked found

theorem piece_leads (ends : job.listing[b.exit]? = some last) :
    ∃ piece, s.pieces[id]? = some piece ∧ Leads last.ways [] piece ∧ last.Targeted := by
  obtain ⟨site, entry, output, seen, located, rfl, left, record, placed⟩ := finished.block found
  obtain ⟨after, ran, -⟩ := record.ran
  obtain ⟨leads, targeted⟩ := replayBlock_leads numbered laid found ends ran
  refine ⟨_, placed, Moves.insert_leads _ leads fun moves w member => ?_, targeted⟩
  -- A block that owes moves has an edge, so its last statements are branches.
  obtain ⟨m, owed⟩ := List.exists_mem_of_ne_nil _ moves
  obtain ⟨c, other, there, edge, -⟩ := Layout.mem_movesFrom.mp owed
  rw [finished.mem_predecessors linked there, laid.mem_successors found ends] at edge
  obtain ⟨t, flows, -⟩ := edge
  exact Instruction.isSome_of_mem_ways targeted flows member

theorem leavesTo_start (ends : job.listing[b.exit]? = some last) (target : Nat) :
    LeavesTo (s.body job.graph) (Layout.start s.pieces id) (Layout.start s.pieces (id + 1)) target ↔
      ∃ after ∈ job.graph.onward id last, target = Layout.start s.pieces after := by
  obtain ⟨piece, placed, leads, targeted⟩ := piece_leads finished numbered laid linked found ends
  have here : ∀ k < (piece.map (·.mapTarget (Layout.position job.graph s.pieces))).length,
      (s.body job.graph)[Layout.start s.pieces id + k]? =
        (piece.map (·.mapTarget (Layout.position job.graph s.pieces)))[k]? := by
    intro k inside
    rw [List.length_map] at inside
    rw [body_getElem? _ placed inside, List.getElem?_map]
  have leaves : LeavesTo _ _ _ target ↔ _ := leavesTo_iff here (leads.mapTarget _) (by
    intro w member
    rw [← List.map_dropLast] at member
    obtain ⟨v, earlier, rfl⟩ := List.mem_map.mp member
    exact Instruction.ways_dropLast v earlier)
  rw [List.length_map, ← Layout.start_succ placed] at leaves
  rw [leaves]
  have falls : (last.ways.map fun w => (w.1.map (Layout.position job.graph s.pieces), w.2)).all
      (·.2) = last.opcode.flow.fallsThrough := by
    rw [List.all_map]
    exact Instruction.all_ways
  rw [falls]
  simp only [laid.mem_onward numbered found ends targeted]
  constructor
  · rintro (⟨w, member, leads⟩ | ⟨falls, rfl⟩)
    · obtain ⟨v, way, rfl⟩ := List.mem_map.mp member
      obtain ⟨t, named, rfl⟩ := Option.map_eq_some_iff.mp leads
      have target := ((Instruction.mem_ways targeted).mp ⟨v, way, named⟩).1
      obtain ⟨after, block⟩ := laid.blockAt?_target (List.mem_of_getElem? ends) target
      exact ⟨after, .inl ⟨t, ⟨v, way, named⟩, block⟩, position_of_blockAt? block⟩
    · exact ⟨id + 1, .inr ⟨falls, rfl⟩, rfl⟩
  · rintro ⟨after, ⟨t, ⟨v, member, named⟩, block⟩ | ⟨falls, rfl⟩, rfl⟩
    · left
      refine ⟨_, List.mem_map_of_mem member, ?_⟩
      rw [named, Option.map_some, position_of_blockAt? block]
    · exact .inr ⟨falls, rfl⟩

end Finished

theorem start_lt_succ (finished : Finished job s) (numbered : Numbered 0 job.listing)
    (laid : Graph.Laid job.listing starts job.graph) (linked : job.graph.Linked)
    (found : job.graph.blocks[id]? = some b) (ends : job.listing[b.exit]? = some last)
    (leaves : last.opcode.flow.fallsThrough = false) :
    Layout.start s.pieces id < Layout.start s.pieces (id + 1) := by
  -- A block that control cannot fall out of has a statement.
  obtain ⟨piece, placed, ⟨n, same⟩, -⟩ := piece_leads finished numbered laid linked found ends
  have nonempty : last.ways ≠ [] := by
    intro none
    have falls := last.all_ways
    rw [none, List.all_nil, leaves] at falls
    cases falls
  have some : 0 < piece.length := by
    rw [← List.length_map Stmt.way, same, List.length_append]
    exact Nat.add_pos_right _ (List.length_pos_iff.mpr nonempty)
  rw [Layout.start_succ placed]
  exact Nat.lt_add_of_pos_right some

theorem start_lt_length (finished : Finished job s) (numbered : Numbered 0 job.listing)
    (laid : Graph.Laid job.listing starts job.graph) (linked : job.graph.Linked)
    (within : id < job.graph.blocks.length) : Layout.start s.pieces id < s.pieces.flatten.length := by
  -- No block starts at the end of the body: control cannot fall out of the last block, so that
  -- has a statement.
  obtain ⟨final, length⟩ := Nat.exists_eq_succ_of_ne_zero (Nat.ne_of_gt (Nat.zero_lt_of_lt within))
  obtain ⟨b, last, found, ends⟩ := laid.exists_last (length ▸ Nat.lt_succ_self final)
  have leaves : last.opcode.flow.fallsThrough = false := by
    by_contra falls
    rw [Bool.not_eq_false] at falls
    have more := (laid.next_of_fallsThrough found ends numbered falls).1
    omega
  have grows := start_lt_succ finished numbered laid linked found ends leaves
  have all : Layout.start s.pieces (final + 1) = s.pieces.flatten.length :=
    Layout.start_all (by rw [length_pieces, finished.length_sites, length])
  have order := Layout.start_mono s.pieces (Nat.le_of_lt_succ (length ▸ within))
  omega

theorem target_lt_length (finished : Finished job s) (numbered : Numbered 0 job.listing)
    (laid : Graph.Laid job.listing starts job.graph) (linked : job.graph.Linked) {stmt : Stmt}
    (member : stmt ∈ s.pieces.flatten) {t : Nat} (target : stmt.target? = some t) :
    Layout.position job.graph s.pieces t < s.pieces.flatten.length := by
  obtain ⟨piece, listed, member⟩ := List.mem_flatten.mp member
  obtain ⟨id, placed⟩ := List.mem_iff_getElem?.mp listed
  obtain ⟨b, last, found, ends⟩ := laid.exists_last (finished.lt_of_placed placed)
  obtain ⟨other, same, ⟨n, ways⟩, targeted⟩ :=
    piece_leads finished numbered laid linked found ends
  rw [placed, Option.some.injEq] at same
  subst same
  have way : stmt.way ∈ last.ways := by
    have listed := List.mem_map_of_mem (f := Stmt.way) member
    rw [ways, List.map_nil, List.nil_append, List.mem_append] at listed
    refine listed.resolve_left fun straight => ?_
    have none := congrArg Prod.fst (List.eq_of_mem_replicate straight)
    rw [show stmt.way.1 = stmt.target? from rfl, target] at none
    cases none
  have named := ((Instruction.mem_ways targeted).mp ⟨_, way, target⟩).1
  obtain ⟨after, block⟩ := laid.blockAt?_target (List.mem_of_getElem? ends) named
  rw [position_of_blockAt? block]
  exact start_lt_length finished numbered laid linked (Graph.lt_of_blockAt? block)

/-- The body of a finished search has the control flow of the graph. -/
theorem layOut_flowsAs {scopes : List (Scope Ty)} {vars : Variables} {count : Nat}
    (numbered : Numbered 0 job.listing)
    (built : Graph.build job.listing scopes = .ok job.graph)
    (converged : (converge job (start job.graph vars)).1 = .ok count) (name : String) :
    FlowsAs job.listing job.graph (converge job (start job.graph vars)).2.pieces
      ((converge job (start job.graph vars)).2.layOut job.graph name scopes).stmts := by
  have finished := converge_finished built converged
  obtain ⟨starts, laid⟩ := Graph.build_laid built
  have linked := Graph.build_linked built
  generalize (converge job (start job.graph vars)).2 = s at finished ⊢
  rw [stmts_layOut]
  refine ⟨fun stmt member target leads => ?_, fun id b last found ends => ?_,
    fun id b last found ends opcode target leaves => ?_⟩
  · obtain ⟨stmt, placed, rfl⟩ := List.mem_map.mp member
    have way := congrArg Prod.fst (stmt.way_mapTarget (Layout.position job.graph s.pieces))
    obtain ⟨t, named, rfl⟩ := Option.map_eq_some_iff.mp (way.symm.trans leads)
    rw [body, List.length_map]
    exact target_lt_length finished numbered laid linked placed named
  · exact leavesTo_start finished numbered laid linked found ends
  · rw [leavesTo_start finished numbered laid linked found ends] at leaves
    obtain ⟨after, member, -⟩ := leaves
    have silent : Graph.flowTargets last = [] ∧ last.opcode.flow ≠ .leave := by
      simp only [List.mem_cons, List.not_mem_nil, or_false] at opcode
      rcases opcode with same | same | same | same | same <;>
        simp [Graph.flowTargets, same, Opcode.flow, Opcode.row, Flow.takesTargets, Flow.fallsThrough]
    rw [Graph.onward, if_neg silent.2, List.append_nil, laid.mem_successors found ends,
      silent.1] at member
    simp at member

theorem relay_flowsAs :
    Numbered 0 relay.listing ∧ Graph.build relay.listing [] = .ok relay.graph ∧
      (converge relay (start relay.graph relayVars)).1 = .ok 6 ∧
      FlowsAs relay.listing relay.graph (converge relay (start relay.graph relayVars)).2.pieces
        ((converge relay (start relay.graph relayVars)).2.layOut relay.graph "Relay" []).stmts :=
  ⟨numbered_ofOps _, relay_built, relay_converged,
    layOut_flowsAs (numbered_ofOps _) relay_built relay_converged "Relay"⟩

end Build
end Destack
