import Destack.Proofs.Layout.Flow
import Destack.Proofs.Merge.Copies

/-!
# Stacks across edges

The moves of a block carry its stack over to the blocks after it: the entry stack of each of them
stands for what the block left. The moves that a block owes to its other successors are harmless as
long as it is known how many values each instruction puts on the stack. A call that is replaced by
stores but has a result breaks that, and then a move can overwrite what another successor is handed.
-/

namespace Destack

open Replay

def FillsSilently (cx : Context) (l : Listing) : Prop :=
  cx.expandArrays → ∀ i ∈ l, ∀ isVirtual m, i.opcode.action = .call isVirtual →
    cx.view.called? i = some m → m.fillsArray → m.sig.returnType = .void

theorem putsKnown_of_fillsSilently {cx : Context} {l : Listing} (silent : FillsSilently cx l) :
    PutsKnown cx l := by
  intro i listed
  cases action : i.opcode.action with
  | call isVirtual =>
      simp only [Action.shape]
      cases named : cx.view.called? i with
      | none => rfl
      | some m =>
          simp only [Option.map_some, Option.getD_some, callShape]
          split
          · rfl
          · rename_i result
            split
            · rename_i fills
              rw [Bool.and_eq_true] at fills
              exact absurd (silent fills.1 i listed isVirtual m action named fills.2) result
            · rfl
  | newObject =>
      simp only [Action.shape]
      cases cx.view.called? i <;> rfl
  | _ => rfl

namespace Build

variable {job : Job} {s : Build} {p b : Nat}

def moved (s : Build) (p : Nat) : List Stmt :=
  match s.sites[p]?.bind (·.output) with
  | none => []
  | some output =>
    Moves.inserted output.stmts (Layout.movesFrom s.sites p output.exitStack) (s.tableFor p)

/-- An edge on which nothing is lost. -/
structure Crosses (s : Build) (p b : Nat) : Prop where
  added : ∃ output branches, s.sites[p]?.bind (·.output) = some output ∧
    s.pieces[p]? = some ((output.stmts.takeWhile fun s => !s.isBranch) ++ s.moved p ++ branches) ∧
    branches.map Stmt.way = (output.stmts.dropWhile fun s => !s.isBranch).map Stmt.way
  /-- Whatever the variables stand for before them, the entry stack of the block after stands for the
  same values after them as the stack that was left. -/
  carries : ∃ entry exit, entryStack? s.sites b = some entry ∧ exitStack? s.sites p = some exit ∧
    ∀ {D W : Type} (M : Meaning D W) (σ : Store D W),
      entry.map (M.eval (M.run σ (s.moved p)).vars) = exit.map (M.eval σ.vars)

section Moves

variable {exit : List Value}

theorem owns_of_move {m : Move} (owed : m ∈ Layout.movesFrom s.sites p exit) :
    ∃ c slot, Owns s.sites c slot m.merge ∧ exit[slot]? = some m.source ∧
      m.source ≠ .merge m.merge := by
  obtain ⟨c, site, located, -, into⟩ := Layout.mem_movesFrom.mp owed
  obtain ⟨slot, merge, source, apart⟩ := Layout.mem_movesInto.mp into
  exact ⟨c, slot, ⟨site, located, merge⟩, source, apart⟩

theorem move_of_owns (finished : Finished job s) (linked : job.graph.Linked)
    (edge : b ∈ job.graph.successors p) {slot m : Nat} (owns : Owns s.sites b slot m) {v : Value}
    (source : exit[slot]? = some v) (apart : v ≠ .merge m) :
    ⟨m, v⟩ ∈ Layout.movesFrom s.sites p exit := by
  obtain ⟨site, located, merge⟩ := owns
  refine Layout.mem_movesFrom.mpr ⟨b, site, located, ?_, ?_⟩
  · exact (finished.mem_predecessors linked located).mpr edge
  · exact Layout.mem_movesInto.mpr ⟨slot, merge, source, apart⟩

theorem sources_agree (owned : Owned s) :
    ∀ m ∈ Layout.movesFrom s.sites p exit, ∀ n ∈ Layout.movesFrom s.sites p exit,
      m.merge = n.merge → m.source = n.source := by
  intro m first n second same
  obtain ⟨c, slot, owns, source, -⟩ := owns_of_move first
  obtain ⟨d, other, owns', source', -⟩ := owns_of_move second
  rw [← same] at owns'
  obtain ⟨-, rfl⟩ := owned.unique owns owns'
  rw [source, Option.some.injEq] at source'
  exact source'

theorem not_written_of_owns (owned : Owned s) {c slot m : Nat} (owns : Owns s.sites c slot m)
    (held : exit[slot]? = some (.merge m)) :
    .merge m ∉ Moves.written (Layout.movesFrom s.sites p exit) := by
  intro written
  obtain ⟨move, owed, same⟩ := List.mem_map.mp written
  cases same
  obtain ⟨d, other, owns', source, apart⟩ := owns_of_move owed
  obtain ⟨-, rfl⟩ := owned.unique owns owns'
  rw [held, Option.some.injEq] at source
  exact apart source.symm

end Moves

theorem pieces_eq {output : BlockOutput} (last : s.sites[p]?.bind (·.output) = some output) :
    ∃ branches, s.pieces[p]? =
        some ((output.stmts.takeWhile fun s => !s.isBranch) ++ s.moved p ++ branches) ∧
      branches.map Stmt.way = (output.stmts.dropWhile fun s => !s.isBranch).map Stmt.way := by
  obtain ⟨site, located, replayed⟩ := Option.bind_eq_some_iff.mp last
  have placed : s.pieces[p]? = _ := Layout.placed_getElem? located replayed
  rw [Nat.zero_add, Moves.insert_eq] at placed
  rw [moved, last]
  refine ⟨_, placed, ?_⟩
  split
  · rfl
  · exact Moves.way_saveConditions _ _ _

theorem Finished.older (finished : Finished job s) {exit : List Value}
    (left : exitStack? s.sites p = some exit) {v : Value} (listed : v ∈ exit) :
    v.Older (s.tableFor p).temps.length := by
  intro id temp
  have made : id < s.vars.temps.length := finished.made.exits left id (temp ▸ listed)
  exact made.trans_le (Layout.temps_placed _ _ _ _)

section Slots

variable (finished : Finished job s) {output : BlockOutput} {D W : Type} (M : Meaning D W)
include finished

theorem Finished.carries_own (linked : job.graph.Linked) (edge : b ∈ job.graph.successors p)
    (left : exitStack? s.sites p = some output.exitStack) {slot m : Nat}
    (owns : Owns s.sites b slot m) {v : Value} (source : output.exitStack[slot]? = some v)
    (σ : Store D W) :
    M.eval (M.run σ (Moves.inserted output.stmts (Layout.movesFrom s.sites p output.exitStack)
      (s.tableFor p))).vars (.merge m) = M.eval σ.vars v := by
  by_cases same : v = .merge m
  -- There is no move from a variable to itself, and no other slot has a move to this one.
  · rw [same] at source ⊢
    apply Moves.run_inserted_older M _ (finished.older left (List.mem_of_getElem? source))
    exact not_written_of_owns finished.agree.owned owns source
  · have owed := move_of_owns finished linked edge owns source same
    exact Moves.run_inserted M _ owed (finished.older left (List.mem_of_getElem? source))
      (fun n other => sources_agree finished.agree.owned n other ⟨m, v⟩ owed) σ

theorem Finished.carries_kept (left : exitStack? s.sites p = some output.exitStack) {slot : Nat}
    {v : Value} (source : output.exitStack[slot]? = some v)
    (copies : ∀ {home own m : Nat}, Owns s.sites home own m → v = .merge m →
      output.exitStack[own]? = some v) (σ : Store D W) :
    M.eval (M.run σ (Moves.inserted output.stmts (Layout.movesFrom s.sites p output.exitStack)
      (s.tableFor p))).vars v = M.eval σ.vars v := by
  -- A value that stays on the stack is not written as long as its slots hold it.
  apply Moves.run_inserted_older M _ (finished.older left (List.mem_of_getElem? source))
  intro written
  obtain ⟨move, owed, rfl⟩ := List.mem_map.mp written
  obtain ⟨c, own, owns, -, -⟩ := owns_of_move owed
  exact not_written_of_owns finished.agree.owned owns (copies owns rfl) written

end Slots

/-- The moves of a block carry its whole stack over every edge, for all of its successors at once. -/
theorem converge_crosses {scopes : List (Scope Ty)} {vars : Variables} {count : Nat}
    (built : Graph.build job.listing scopes = .ok job.graph)
    (converged : (converge job (start job.graph vars)).1 = .ok count)
    (silent : FillsSilently job.cx job.listing)
    (reachable : ∀ b < job.graph.blocks.length, job.graph.Reachable b)
    (edge : b ∈ job.graph.successors p) :
    Crosses (converge job (start job.graph vars)).2 p b := by
  have linked := Graph.build_linked built
  have known := putsKnown_of_fillsSilently silent
  have finished := converge_finished built converged
  have copies := @converge_copies job scopes vars count built converged known reachable
  generalize (converge job (start job.graph vars)).2 = s at finished copies
  obtain ⟨site, entry, exit, located, entered, left, depth, slots⟩ := finished.agree.edges p b edge
  obtain ⟨output, last, rfl⟩ := Option.map_eq_some_iff.mp left
  obtain ⟨branches, placed⟩ := pieces_eq last
  refine ⟨⟨output, branches, last, placed⟩, entry, output.exitStack, ?_, left, ?_⟩
  · rw [entryStack?_eq located, entered]
  intro D W M σ
  rw [moved, last]
  apply List.ext_getElem (by rw [List.length_map, List.length_map, depth])
  intro slot below within
  rw [List.getElem_map, List.getElem_map]
  rw [List.length_map] at below within
  obtain ⟨m, merge, own⟩ | kept := slots slot _ (List.getElem?_eq_getElem below)
  · rw [own]
    exact finished.carries_own M linked edge left ⟨site, located, merge⟩
      (List.getElem?_eq_getElem within) σ
  -- What was left here can be the merge variable of another slot. A move would write to it, did that
  -- slot not hold it as well.
  · obtain ⟨_, same⟩ := List.getElem?_eq_some_iff.mp kept
    rw [same]
    refine finished.carries_kept M left kept (fun owner holds => ?_) σ
    rw [holds] at kept ⊢
    exact copies owner left kept

theorem relay_crosses :
    Graph.build relay.listing [] = .ok relay.graph ∧
      (converge relay (start relay.graph relayVars)).1 = .ok 6 ∧
      FillsSilently relay.cx relay.listing ∧
      (∀ b < relay.graph.blocks.length, relay.graph.Reachable b) ∧ 4 ∈ relay.graph.successors 3 ∧
      Crosses (converge relay (start relay.graph relayVars)).2 3 4 := by
  have silent : FillsSilently relay.cx relay.listing := by
    intro expands
    cases expands
  have reachable : ∀ b < relay.graph.blocks.length, relay.graph.Reachable b :=
    Graph.reachable_of_earlier (by decide)
  have edge : 4 ∈ relay.graph.successors 3 := by decide
  exact ⟨relay_built, relay_converged, silent, reachable, edge,
    converge_crosses relay_built relay_converged silent reachable edge⟩

def filledArray : List (Opcode × Operand Nat) :=
  [(.newarr, .token ⟨0x01000001⟩), (.dup, .none), (.ldtoken, .token ⟨0x04000001⟩),
    (.call, .token ⟨0x0a000001⟩)]

def zeroes : Field where
  name := "zeroes"
  declaringType := .object
  type := .unknown
  isStatic := true
  initialData := some (List.replicate 64 0)

def initializeArray : Method where
  name := "InitializeArray"
  declaringType := .classType "RuntimeHelpers" []
  sig := ⟨false, [.array .int32, .handle], .int32⟩

def refill : Job where
  cx :=
    { Context.blank with
      view := { View.blank with
        type := fun _ => ⟨.int32, true⟩
        field := fun _ => ⟨zeroes, true⟩
        method? := fun _ => some ⟨initializeArray, true⟩ }
      expandArrays := true }
  listing := .ofOps <|
    [(.ldarg0, .none), (.brtrue, .target 5), (.ldarg1, .none), (.ldarg2, .none), (.br, .target 7),
      (.ldarg3, .none), (.ldarg1, .none), (.pop, .none), (.ldarg0, .none), (.brtrue, .target 15),
      (.dup, .none), (.ldcI4_3, .none), (.ldcI4_3, .none), (.ldcI4_3, .none), (.br, .target 21),
      (.br, .target 16), (.br, .target 17), (.dup, .none), (.ldcI4_3, .none), (.ldcI4_3, .none),
      (.ldcI4_5, .none), (.ldarg0, .none), (.brtrue, .target 38), (.dup, .none)] ++
    filledArray ++ [(.pop, .none)] ++ filledArray ++ List.replicate 4 (.pop, .none) ++
    [(.br, .target 63), (.dup, .none), (.dup, .none)] ++ filledArray ++ [(.pop, .none)] ++
    filledArray ++ [(.pop, .none)] ++ filledArray ++ List.replicate 4 (.pop, .none) ++
    filledArray ++ [(.pop, .none), (.dup, .none)] ++ filledArray ++ [(.pop, .none)] ++
    filledArray ++ [(.pop, .none), (.ldarg0, .none), (.brtrue, .target 7), (.stloc0, .none),
      (.stloc1, .none), (.ret, .none)]
  graph :=
    { blocks :=
        [⟨0, 1, [2, 1], [], none⟩, ⟨2, 4, [3], [0], none⟩, ⟨5, 6, [3], [0], none⟩,
          ⟨7, 9, [5, 4], [1, 2, 11], none⟩, ⟨10, 14, [8], [3], none⟩, ⟨15, 15, [6], [3], none⟩,
          ⟨16, 16, [7], [5], none⟩, ⟨17, 20, [8], [6], none⟩, ⟨21, 22, [10, 9], [4, 7], none⟩,
          ⟨23, 37, [11], [8], none⟩, ⟨38, 62, [11], [8], none⟩, ⟨63, 75, [3, 12], [9, 10], none⟩,
          ⟨76, 78, [], [11], none⟩]
      roots := [(0, .entry)] }
  maxVisits := 64

def refillVars : Variables where
  locals := [.int32, .int32]
  params := [.int32, .int32, .int32, .int32]

theorem refill_built : Graph.build refill.listing [] = .ok refill.graph := by decide +kernel

theorem refill_converged :
    ((converge refill (start refill.graph refillVars)).1,
      entryStack? (converge refill (start refill.graph refillVars)).2.sites 12,
      exitStack? (converge refill (start refill.graph refillVars)).2.sites 11,
      (converge refill (start refill.graph refillVars)).2.moved 11) =
    (.ok 19, some [.merge 3, .merge 0], some [.merge 3, .merge 0],
      [.set (.temp 23) (.value (.merge 3)), .set (.temp 24) (.value (.merge 0)),
        .set (.merge 0) (.value (.temp 23)), .set (.merge 1) (.value (.temp 24))]) :=
  converge_of_searchWithin 40
    (f := fun r => (r.1, entryStack? r.2.sites 12, exitStack? r.2.sites 11, r.2.moved 11))
    (by decide +kernel)

/-- The block at the end of the loop leaves a merge variable of the loop's head twice, once through
a merge variable of its own. The move for the head overwrites it for the block after the loop. -/
theorem refill_overwrites :
    Graph.build refill.listing [] = .ok refill.graph ∧
      (∀ b < refill.graph.blocks.length, refill.graph.Reachable b) ∧
      (converge refill (start refill.graph refillVars)).1 = .ok 19 ∧
      12 ∈ refill.graph.successors 11 ∧
      ∃ entry exit,
        entryStack? (converge refill (start refill.graph refillVars)).2.sites 12 = some entry ∧
        exitStack? (converge refill (start refill.graph refillVars)).2.sites 11 = some exit ∧
        ∃ (M : Meaning Nat Unit) (σ : Store Nat Unit),
          entry.map (M.eval (M.run σ
            ((converge refill (start refill.graph refillVars)).2.moved 11)).vars) ≠
          exit.map (M.eval σ.vars) := by
  obtain ⟨converged, entered, left, moved⟩ := by simpa only [Prod.mk.injEq] using refill_converged
  refine ⟨refill_built, Graph.reachable_of_earlier (by decide), converged, by decide, _, _, entered,
    left, ⟨fun _ => 0, fun _ _ => rfl, fun _ _ _ => 0, fun _ _ _ => ()⟩,
    ⟨(), fun v => if v = .merge 3 then 1 else 0⟩, ?_⟩
  rw [moved]
  decide

end Build
end Destack
