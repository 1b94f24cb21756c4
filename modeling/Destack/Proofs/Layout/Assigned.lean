import Destack.Proofs.Layout.Flow
import Destack.Proofs.Replay.Assigned

namespace Destack

open Replay

theorem Replay.Usable.retype {available : List Value} {v : Value} (usable : Usable available v)
    (t : Ty) : Usable available (v.retype t) := by
  unfold Value.retype
  split
  · exact usable_const _ _
  · exact usable

namespace Moves

variable {available : List Value} {stmts : List Stmt} {moves : List Move}

theorem stage_reads (usable : ∀ m ∈ moves, Usable available m.source) (vars : Variables) :
    (∀ s ∈ (stage vars moves).1, ∀ v ∈ s.reads, Usable available v) ∧
      (∀ s ∈ (stage vars moves).2.1, ∀ v ∈ s.reads, v ∈ Stmt.defines (stage vars moves).1) ∧
      Stmt.defines (stage vars moves).2.1 = written moves := by
  induction moves generalizing vars with
  | nil => simp [stage, written, Stmt.defines]
  | cons m moves ih =>
      rw [List.forall_mem_cons] at usable
      obtain ⟨reads, writes, defines⟩ := ih usable.2 (vars.newTemp (vars.typeOf (.merge m.merge))).2
      simp only [stage, List.forall_mem_cons]
      refine ⟨⟨?_, reads⟩, ⟨?_, ?_⟩, ?_⟩
      · intro v read
        obtain rfl := List.mem_singleton.mp read
        exact usable.1.retype _
      · intro v read
        obtain rfl := List.mem_singleton.mp read
        exact List.mem_cons_self
      · exact fun s member v read => List.mem_cons_of_mem _ (writes s member v read)
      · exact congrArg (Value.merge m.merge :: ·) defines

theorem assignments_reads (usable : ∀ m ∈ moves, Usable available m.source) (vars : Variables) :
    Reads available (assignments vars moves).1 ∧
      ∀ m ∈ moves, .merge m.merge ∈ Stmt.defines (assignments vars moves).1 := by
  unfold assignments
  split
  · obtain ⟨reads, writes, defines⟩ := stage_reads usable vars
    refine ⟨reads_append.mpr ⟨reads_of_usable reads, reads_of_usable fun s member v read => ?_⟩,
      fun m member => ?_⟩
    · exact .inl (List.mem_append_right _ (writes s member v read))
    · rw [Stmt.defines_append, defines]
      exact List.mem_append_right _ (List.mem_map_of_mem member)
  · refine ⟨reads_of_usable fun s member v read => ?_, fun m member => ?_⟩
    · obtain ⟨m, listed, rfl⟩ := List.mem_map.mp member
      obtain rfl := List.mem_singleton.mp read
      exact (usable m listed).retype _
    · exact Stmt.mem_defines.mpr ⟨_, List.mem_map_of_mem member, rfl⟩

theorem saveOperand_reads (written : List Value) {v : Value} {s : Saved}
    (usable : Usable available v) (copies : ∀ both ∈ s.copies, Usable available both.1) :
    (∀ both ∈ (saveOperand written v s).2.copies, Usable available both.1) ∧
      s.copies ⊆ (saveOperand written v s).2.copies ∧
      Usable (available ++ (saveOperand written v s).2.copies.map (·.2))
        (saveOperand written v s).1 := by
  unfold saveOperand
  split
  · split
    · rename_i copy found
      refine ⟨copies, List.Subset.refl _, .inl (List.mem_append_right _ ?_)⟩
      obtain ⟨front, back, same, -⟩ := List.lookup_eq_some_iff.mp found
      simp [same]
    · refine ⟨?_, List.subset_append_left _ _, .inl (List.mem_append_right _ ?_)⟩
      · rw [List.forall_mem_append, List.forall_mem_singleton]
        exact ⟨copies, usable⟩
      · simp
  · exact ⟨copies, List.Subset.refl _, usable.append_right _⟩

theorem usable_copies {copies more : List (Value × Value)} {v : Value}
    (usable : Usable (available ++ copies.map (·.2)) v) (within : copies ⊆ more) :
    Usable (available ++ more.map (·.2)) v := by
  apply usable.mono
  intro u member
  rcases List.mem_append.mp member with member | member
  · exact .inl (List.mem_append_left _ member)
  · exact .inl (List.mem_append_right _ (List.map_subset _ within member))

theorem saveConditions_reads (written : List Value) {s : Saved}
    (usable : ∀ t ∈ stmts, ∀ v ∈ t.reads, Usable available v)
    (copies : ∀ both ∈ s.copies, Usable available both.1) :
    (∀ both ∈ (saveConditions written stmts s).2.copies, Usable available both.1) ∧
      s.copies ⊆ (saveConditions written stmts s).2.copies ∧
      ∀ t ∈ (saveConditions written stmts s).1, ∀ v ∈ t.reads,
        Usable (available ++ (saveConditions written stmts s).2.copies.map (·.2)) v := by
  induction stmts generalizing s with
  | nil => exact ⟨copies, List.Subset.refl _, by simp [saveConditions]⟩
  | cons stmt rest ih =>
      rw [List.forall_mem_cons] at usable
      by_cases branch : ∃ cond target, stmt = .branch cond target
      · obtain ⟨cond, target, rfl⟩ := branch
        obtain ⟨inLeft, fromLeft, left⟩ := saveOperand_reads written
          (usable.1 cond.left (by simp [Stmt.reads, Condition.reads])) copies
        obtain ⟨inRight, fromRight, right⟩ := saveOperand_reads written
          (usable.1 cond.right (by simp [Stmt.reads, Condition.reads])) inLeft
        obtain ⟨inRest, fromRest, later⟩ := ih usable.2 inRight
        refine ⟨inRest, fun both member => fromRest (fromRight (fromLeft member)), ?_⟩
        simp only [saveConditions, List.forall_mem_cons]
        refine ⟨?_, later⟩
        simp only [Stmt.reads, Condition.reads, List.forall_mem_cons, List.not_mem_nil,
          IsEmpty.forall_iff, implies_true, and_true]
        exact ⟨usable_copies left fun both member => fromRest (fromRight member),
          usable_copies right fromRest⟩
      · obtain ⟨inRest, fromRest, later⟩ := ih usable.2 copies
        have same : saveConditions written (stmt :: rest) s =
            (stmt :: (saveConditions written rest s).1, (saveConditions written rest s).2) := by
          cases stmt with
          | branch cond target => exact absurd ⟨cond, target, rfl⟩ branch
          | _ => rfl
        rw [same]
        refine ⟨inRest, fromRest, List.forall_mem_cons.mpr ⟨?_, later⟩⟩
        exact fun v read => (usable.1 v read).append_right _

theorem insert_reads (reads : Reads available stmts)
    (branches : Stmt.defines (stmts.dropWhile fun s => !s.isBranch) = [])
    (usable : ∀ m ∈ moves, Usable (available ++ Stmt.defines stmts) m.source)
    (vars : Variables) :
    Reads available (insert stmts moves vars).1 ∧
      Stmt.defines stmts ⊆ Stmt.defines (insert stmts moves vars).1 ∧
      ∀ m ∈ moves, .merge m.merge ∈ Stmt.defines (insert stmts moves vars).1 := by
  unfold insert
  split
  · rename_i none
    rw [List.isEmpty_iff] at none
    exact ⟨reads, List.Subset.refl _, by simp [none]⟩
  · generalize before : (stmts.takeWhile fun s => !s.isBranch) = front
    generalize after : (stmts.dropWhile fun s => !s.isBranch) = back at branches ⊢
    obtain rfl : stmts = front ++ back := by
      rw [← before, ← after, List.takeWhile_append_dropWhile]
    rw [Stmt.defines_append, branches, List.append_nil] at usable ⊢
    obtain ⟨first, last⟩ := reads_append.mp reads
    obtain ⟨copied, -, conditions⟩ := saveConditions_reads (written moves) (s := ⟨vars, []⟩)
      (last.usable_of_defines_eq_nil branches) (by simp)
    generalize saveConditions (written moves) back ⟨vars, []⟩ = result at copied conditions
    obtain ⟨after, vars, copies⟩ := result
    have sources : ∀ m ∈ moves,
        Usable (available ++ Stmt.defines front ++ copies.map (·.2)) m.source :=
      fun m member => (usable m member).append_right _
    obtain ⟨assigned, defined⟩ := assignments_reads sources vars
    have saves : Stmt.defines (copies.map fun both => .set both.2 (.value both.1)) =
        copies.map (·.2) := by
      simp [Stmt.defines, Stmt.set, Stmt.defined?, Function.comp_def]
    dsimp only at copied conditions ⊢
    rw [reads_append, reads_append, reads_append]
    simp only [Stmt.defines_append, saves, ← List.append_assoc]
    refine ⟨⟨⟨⟨first, reads_of_usable fun s member v read => ?_⟩, assigned⟩, ?_⟩, ?_, ?_⟩
    · obtain ⟨both, listed, rfl⟩ := List.mem_map.mp member
      obtain rfl := List.mem_singleton.mp read
      exact copied both listed
    · exact reads_of_usable fun s member v read => (conditions s member v read).append_right _
    · intro v member
      simp [member]
    · intro m member
      simp [defined m member]

end Moves

namespace Replay.Leads

variable {ways : List (Option Nat × Bool)} {stmts : List Stmt} (leads : Leads ways [] stmts)
  (leaving : ∀ w ∈ ways, w ≠ (none, true))
include leads leaving

theorem split_defines : ∃ front back, stmts = front ++ back ∧
    (∀ s ∈ front, s.way = (none, true)) ∧ ∀ s ∈ back, s.defined? = none := by
  obtain ⟨front, back, rfl, straight, rfl⟩ := leads.split
  refine ⟨front, back, rfl, straight, fun s member => ?_⟩
  apply Stmt.defined?_of_not_isStraight
  exact fun goesOn => leaving _ (List.mem_map_of_mem member) (Stmt.way_of_isStraight goesOn)

theorem defines_take {k : Nat} {s : Stmt} (found : stmts[k]? = some s)
    (leaves : s.way ≠ (none, true)) : Stmt.defines stmts ⊆ Stmt.defines (stmts.take k) := by
  obtain ⟨front, back, rfl, straight, silent⟩ := leads.split_defines leaving
  have past : front.length ≤ k := by
    by_contra inside
    rw [List.getElem?_append_left (Nat.lt_of_not_le inside)] at found
    exact leaves (straight s (List.mem_of_getElem? found))
  rw [Stmt.defines_append, Stmt.defines_eq_nil silent, List.append_nil,
    List.take_append, List.take_of_length_le past, Stmt.defines_append]
  exact List.subset_append_left _ _

theorem defines_dropWhile : Stmt.defines (stmts.dropWhile fun s => !s.isBranch) = [] := by
  obtain ⟨front, back, rfl, straight, silent⟩ := leads.split_defines leaving
  have goesOn : ∀ s ∈ front, !s.isBranch := by
    intro s member
    have target : s.target? = none := congrArg Prod.fst (straight s member)
    simp [Stmt.isBranch, target]
  rw [List.dropWhile_append_of_pos goesOn]
  exact Stmt.defines_eq_nil fun s member => silent s (List.dropWhile_sublist _ |>.subset member)

end Replay.Leads

@[simp] theorem Stmt.reads_mapTarget (f : Nat → Nat) (s : Stmt) :
    (s.mapTarget f).reads = s.reads := by
  cases s <;> rfl

@[simp] theorem Stmt.defined?_mapTarget (f : Nat → Nat) (s : Stmt) :
    (s.mapTarget f).defined? = s.defined? := by
  cases s <;> rfl

/-- Paths of control from the statement at `first`, with the statements that they pass and the
position that they get to. -/
inductive Path (stmts : List Stmt) (first : Nat) : List Stmt → Nat → Prop
  | here : Path stmts first [] first
  | step {passed : List Stmt} {i next : Nat} {s : Stmt} (before : Path stmts first passed i)
      (found : stmts[i]? = some s) (leads : next ∈ s.successors i) :
      Path stmts first (passed ++ [s]) next

/-- On every path from `first`, temporaries and merge variables are assigned to before they are
read. -/
def DefinitelyAssigned (stmts : List Stmt) (first : Nat) : Prop :=
  ∀ passed i s v, Path stmts first passed i → stmts[i]? = some s → v ∈ s.reads →
    (∃ id, v = .temp id ∨ v = .merge id) → ∃ before ∈ passed, before.defined? = some v

namespace Build

variable {job : Job} {s : Build} {starts : List Nat} {id : Nat} {b : Block}
  {last : Instruction Nat} {passed : List Stmt}

def Supplied (s : Build) (passed : List Stmt) (id : Nat) : Prop :=
  ∀ site entry, s.sites[id]? = some site → site.entry = some entry →
    ∀ v ∈ entry, Usable (Stmt.defines passed) v

/-- What a block with its moves reads, and what it leaves on the stack, it was entered with or has
assigned to. It assigns to the merge variables of the blocks after it. -/
structure Delivers (s : Build) (id : Nat) (entry exit : List Value) (piece : List Stmt) :
    Prop where
  reads : Reads entry piece
  leaves : ∀ v ∈ exit, Usable (entry ++ Stmt.defines piece) v
  moves : ∀ m ∈ Layout.movesFrom s.sites id exit, .merge m.merge ∈ Stmt.defines piece

theorem supplied_root (finished : Finished job s) (passed : List Stmt)
    (root : id ∈ job.graph.roots.map (·.1)) : Supplied s passed id := by
  obtain ⟨site, located, entered⟩ := finished.agree.roots id root
  intro site' entry located' entered' v member
  rw [located, Option.some.injEq] at located'
  subst located'
  rw [entered, Option.some.injEq] at entered'
  subst entered'
  cases member

section Finished

variable (finished : Finished job s) (numbered : Numbered 0 job.listing)
  (laid : Graph.Laid job.listing starts job.graph) (linked : job.graph.Linked)
  (found : job.graph.blocks[id]? = some b) (ends : job.listing[b.exit]? = some last)
include finished numbered laid found ends

theorem piece_delivers : ∃ site entry exit piece, s.sites[id]? = some site ∧
    site.entry = some entry ∧ exitStack? s.sites id = some exit ∧ s.pieces[id]? = some piece ∧
      Delivers s id entry exit piece := by
  obtain ⟨site, entry, output, seen, located, rfl, left, record, placed⟩ := finished.block found
  obtain ⟨after, ran, -⟩ := record.ran
  obtain ⟨leads, targeted⟩ := replayBlock_leads numbered laid found ends ran
  have assigned := replayBlock_assigned ran
  have sources : ∀ m ∈ Layout.movesFrom s.sites id output.exitStack,
      Usable (entry ++ Stmt.defines output.stmts) m.source := by
    intro m owed
    obtain ⟨c, other, there, edge, owed⟩ := Layout.mem_movesFrom.mp owed
    obtain ⟨slot, -, source, -⟩ := Layout.mem_movesInto.mp owed
    exact assigned.stack _ (List.mem_of_getElem? source)
  have moved := Moves.insert_reads assigned.reads
    (leads.defines_dropWhile fun w member => Instruction.ne_of_mem_ways targeted member) sources
    (s.tableFor id)
  refine ⟨site, entry, output.exitStack, _, located, record.entered, ?_, placed, moved.1, ?_,
    moved.2.2⟩
  · rw [exitStack?_eq located, left]
    rfl
  · intro v member
    apply (assigned.stack v member).mono
    intro u known
    rcases List.mem_append.mp known with entered | defined
    · exact .inl (List.mem_append_left _ entered)
    · exact .inl (List.mem_append_right _ (moved.2.1 defined))

include linked in
theorem supplied_onward (supplied : Supplied s passed id) {piece : List Stmt}
    (placed : s.pieces[id]? = some piece) (done : Stmt.defines piece ⊆ Stmt.defines passed)
    {after : Nat} (onward : after ∈ job.graph.onward id last) : Supplied s passed after := by
  rcases List.mem_append.mp onward with edge | exits
  · obtain ⟨site, entry, exit, piece', located, entered, left, placed', delivers⟩ :=
      piece_delivers finished numbered laid found ends
    rw [placed, Option.some.injEq] at placed'
    subst placed'
    obtain ⟨next, wanted, exit', there, enters, left', depth, slots⟩ :=
      finished.agree.edges id after edge
    rw [left, Option.some.injEq] at left'
    subst left'
    have leaves (v : Value) (member : v ∈ exit) : Usable (Stmt.defines passed) v := by
      apply (delivers.leaves v member).mono
      intro u member
      rcases List.mem_append.mp member with known | defined
      · exact supplied site entry located entered u known
      · exact .inl (done defined)
    intro next' wanted' there' enters' v member
    rw [there, Option.some.injEq] at there'
    subst there'
    rw [enters, Option.some.injEq] at enters'
    subst enters'
    obtain ⟨slot, held⟩ := List.mem_iff_getElem?.mp member
    rcases slots slot v held with ⟨m, merge, rfl⟩ | kept
    -- The block left the merge variable on the stack, or it owes a move.
    · have within : slot < exit.length := depth ▸ (List.getElem?_eq_some_iff.mp held).1
      have source := List.getElem?_eq_getElem within
      by_cases holds : exit[slot] = .merge m
      · exact leaves _ (holds ▸ List.getElem_mem within)
      · refine .inl (done (delivers.moves ⟨m, exit[slot]⟩ (Layout.mem_movesFrom.mpr ?_)))
        exact ⟨after, next, there, (finished.mem_predecessors linked there).mpr edge,
          Layout.mem_movesInto.mpr ⟨slot, merge, source, holds⟩⟩
    · exact leaves v (List.mem_of_getElem? kept)
  · split at exits
    · rename_i flow
      rw [Option.mem_toList, Option.bind_eq_some_iff] at exits
      obtain ⟨t, target, leads⟩ := exits
      rw [laid.blockAt?_eq] at leads
      exact supplied_root finished passed
        (laid.exits last (List.mem_of_getElem? ends) flow t target after leads)
    · cases exits

end Finished

theorem exists_supplied (finished : Finished job s) (numbered : Numbered 0 job.listing)
    (laid : Graph.Laid job.listing starts job.graph) (linked : job.graph.Linked)
    (within : id < job.graph.blocks.length) (supplied : Supplied s passed id) :
    ∃ next piece, s.pieces[next]? = some piece ∧ piece ≠ [] ∧
      Layout.start s.pieces next = Layout.start s.pieces id ∧ Supplied s passed next := by
  -- Blocks without statements hand on what they are entered with.
  induction remaining : job.graph.blocks.length - id using Nat.strong_induction_on
    generalizing id with
  | _ n ih =>
  obtain ⟨b, last, found, ends⟩ := laid.exists_last within
  obtain ⟨piece, placed, leads, targeted⟩ := piece_leads finished numbered laid linked found ends
  by_cases empty : piece = []
  · subst empty
    obtain ⟨n, same⟩ := leads
    have ways : last.ways = [] := (List.append_eq_nil_iff.mp same.symm).2
    have falls : last.opcode.flow.fallsThrough := by
      rw [← Instruction.all_ways, ways]
      rfl
    have onward : id + 1 ∈ job.graph.onward id last :=
      (laid.mem_onward numbered found ends targeted).mpr (.inr ⟨falls, rfl⟩)
    have after := supplied_onward finished numbered laid linked found ends supplied placed
      (by simp [Stmt.defines]) onward
    have more := (laid.next_of_fallsThrough found ends numbered falls).1
    obtain ⟨next, piece, here, nonempty, same, supplied⟩ :=
      ih (job.graph.blocks.length - (id + 1)) (by omega) more after rfl
    refine ⟨next, piece, here, nonempty, same.trans ?_, supplied⟩
    rw [Layout.start_succ placed]
    rfl
  · exact ⟨id, piece, placed, empty, rfl, supplied⟩

structure Inside (s : Build) (g : Graph) (passed : List Stmt) (i id k : Nat) (piece : List Stmt) :
    Prop where
  placed : s.pieces[id]? = some piece
  within : k < piece.length
  position : i = Layout.start s.pieces id + k
  runs : Runs (s.body g) (Layout.start s.pieces id) (Layout.start s.pieces (id + 1)) i
  supplied : Supplied s passed id
  done : Stmt.defines (piece.take k) ⊆ Stmt.defines passed

theorem Supplied.mono {more : List Stmt} (supplied : Supplied s passed id)
    (longer : Stmt.defines passed ⊆ Stmt.defines more) : Supplied s more id :=
  fun site entry located entered v member =>
    (supplied site entry located entered v member).mono fun _ known => .inl (longer known)

section Body

variable (finished : Finished job s) (numbered : Numbered 0 job.listing)
  (laid : Graph.Laid job.listing starts job.graph) (linked : job.graph.Linked)
include finished numbered laid linked

theorem exists_inside (within : id < job.graph.blocks.length) (supplied : Supplied s passed id) :
    ∃ next k piece, Inside s job.graph passed (Layout.start s.pieces id) next k piece := by
  obtain ⟨next, piece, placed, nonempty, same, supplied⟩ :=
    exists_supplied finished numbered laid linked within supplied
  rw [← same]
  refine ⟨next, 0, piece, placed, List.length_pos_iff.mpr nonempty, rfl, .here, supplied, ?_⟩
  simp [Stmt.defines]

variable {i k : Nat} {piece : List Stmt} {stmt : Stmt}
  (inside : Inside s job.graph passed i id k piece) (found : (s.body job.graph)[i]? = some stmt)
include inside found

omit linked in
theorem Inside.usable {v : Value} (read : v ∈ stmt.reads) : Usable (Stmt.defines passed) v := by
  obtain ⟨b, last, block, ends⟩ := laid.exists_last (finished.lt_of_placed inside.placed)
  obtain ⟨site, entry, exit, piece', located, entered, -, placed, delivers⟩ :=
    piece_delivers finished numbered laid block ends
  rw [inside.placed, Option.some.injEq] at placed
  subst placed
  rw [inside.position, body_getElem? _ inside.placed inside.within, Option.map_eq_some_iff] at found
  obtain ⟨stmt, here, rfl⟩ := found
  rw [Stmt.reads_mapTarget] at read
  apply (delivers.reads.usable here read).mono
  intro u member
  rcases List.mem_append.mp member with known | defined
  · exact inside.supplied site entry located entered u known
  · exact .inl (inside.done defined)

theorem Inside.step {next : Nat} (leads : next ∈ stmt.successors i) :
    ∃ id k piece, Inside s job.graph (passed ++ [stmt]) next id k piece := by
  obtain ⟨b, last, block, ends⟩ := laid.exists_last (finished.lt_of_placed inside.placed)
  obtain ⟨piece', placed, ways, targeted⟩ := piece_leads finished numbered laid linked block ends
  rw [inside.placed, Option.some.injEq] at placed
  subst placed
  have bound : i < Layout.start s.pieces (id + 1) := by
    rw [Layout.start_succ inside.placed, inside.position]
    exact Nat.add_lt_add_left inside.within _
  have here := found
  rw [inside.position, body_getElem? _ inside.placed inside.within, Option.map_eq_some_iff] at here
  obtain ⟨origin, here, rfl⟩ := here
  have longer : Stmt.defines passed ⊆ Stmt.defines
      (passed ++ [origin.mapTarget (Layout.position job.graph s.pieces)]) := by
    rw [Stmt.defines_append]
    exact List.subset_append_left _ _
  have supplied := inside.supplied.mono longer
  have done : Stmt.defines (piece.take (k + 1)) ⊆ Stmt.defines
      (passed ++ [origin.mapTarget (Layout.position job.graph s.pieces)]) := by
    rw [List.take_add_one, here, Stmt.defines_append, List.append_subset]
    exact ⟨fun v member => longer (inside.done member), by simp⟩
  -- Control that leaves the block has passed all its assignments.
  have leave (all : Stmt.defines piece ⊆ Stmt.defines
        (passed ++ [origin.mapTarget (Layout.position job.graph s.pieces)]))
      (leaves : LeavesTo (s.body job.graph) (Layout.start s.pieces id)
        (Layout.start s.pieces (id + 1)) next) :
      ∃ id k piece, Inside s job.graph
        (passed ++ [origin.mapTarget (Layout.position job.graph s.pieces)]) next id k piece := by
    obtain ⟨after, onward, rfl⟩ :=
      (leavesTo_start finished numbered laid linked block ends next).mp leaves
    exact exists_inside finished numbered laid linked (linked.lt_of_mem_onward onward)
      (supplied_onward finished numbered laid linked block ends supplied inside.placed all onward)
  rcases Stmt.mem_successors.mp leads with target | ⟨falls, rfl⟩
  · refine leave ?_ (.inl ⟨i, _, inside.runs, bound, found, target⟩)
    have leaves : origin.way ≠ (none, true) := by
      intro straight
      have way := origin.way_mapTarget (Layout.position job.graph s.pieces)
      rw [straight] at way
      have none : (origin.mapTarget (Layout.position job.graph s.pieces)).target? = none :=
        congrArg Prod.fst way
      rw [target] at none
      cases none
    have all := ways.defines_take (fun w => Instruction.ne_of_mem_ways targeted) here leaves
    exact fun v member => longer (inside.done (all member))
  · have runs := inside.runs.next bound found falls
    by_cases more : k + 1 < piece.length
    · exact ⟨id, k + 1, piece, inside.placed, more, by rw [inside.position, Nat.add_assoc], runs,
        supplied, done⟩
    · have last : i + 1 = Layout.start s.pieces (id + 1) := by
        have within := inside.within
        have position := inside.position
        rw [Layout.start_succ inside.placed]
        omega
      rw [List.take_of_length_le (Nat.le_of_not_lt more)] at done
      exact leave done (.inr ⟨last ▸ runs, last⟩)

end Body

/-- In the body of a finished search, every temporary and merge variable is assigned to before it
is read, whichever root control starts from. -/
theorem layOut_definitelyAssigned {scopes : List (Scope Ty)} {vars : Variables} {count : Nat}
    (numbered : Numbered 0 job.listing)
    (built : Graph.build job.listing scopes = .ok job.graph)
    (converged : (converge job (start job.graph vars)).1 = .ok count) (name : String) {root : Nat}
    (isRoot : root ∈ job.graph.roots.map (·.1)) :
    DefinitelyAssigned
      ((converge job (start job.graph vars)).2.layOut job.graph name scopes).stmts
      (Layout.start (converge job (start job.graph vars)).2.pieces root) := by
  have finished := converge_finished built converged
  obtain ⟨starts, laid⟩ := Graph.build_laid built
  have linked := Graph.build_linked built
  generalize (converge job (start job.graph vars)).2 = s at finished ⊢
  rw [stmts_layOut]
  have inside {passed : List Stmt} {i : Nat}
      (path : Path (s.body job.graph) (Layout.start s.pieces root) passed i) :
      ∃ id k piece, Inside s job.graph passed i id k piece := by
    induction path with
    | here =>
        exact exists_inside finished numbered laid linked (linked.root_lt root isRoot)
          (supplied_root finished [] isRoot)
    | step before found leads ih =>
        obtain ⟨id, k, piece, inside⟩ := ih
        exact inside.step finished numbered laid linked found leads
  rintro passed i stmt v path found read ⟨id, kind⟩
  obtain ⟨_, _, _, inside⟩ := inside path
  rcases inside.usable finished numbered laid found read with defined | fixed
  · exact Stmt.mem_defines.mp defined
  · rcases kind with rfl | rfl <;> cases fixed

theorem relay_definitelyAssigned :
    Numbered 0 relay.listing ∧ Graph.build relay.listing [] = .ok relay.graph ∧
      (converge relay (start relay.graph relayVars)).1 = .ok 6 ∧
      0 ∈ relay.graph.roots.map (·.1) ∧
      DefinitelyAssigned
        ((converge relay (start relay.graph relayVars)).2.layOut relay.graph "Relay" []).stmts
        (Layout.start (converge relay (start relay.graph relayVars)).2.pieces 0) :=
  ⟨numbered_ofOps _, relay_built, relay_converged, by decide,
    layOut_definitelyAssigned (numbered_ofOps _) relay_built relay_converged "Relay" (by decide)⟩

end Build
end Destack
