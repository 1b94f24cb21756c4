import Destack.Merge.Layout
import Destack.Proofs.Layout.Parallel
import Destack.Proofs.Merge.Finished

namespace Destack
namespace Layout

theorem start_succ {blocks : List (List Stmt)} {id : Nat} {stmts : List Stmt}
    (found : blocks[id]? = some stmts) : start blocks (id + 1) = start blocks id + stmts.length := by
  simp [start, List.take_add_one, found]

theorem start_mono (blocks : List (List Stmt)) {id later : Nat} (order : id ≤ later) :
    start blocks id ≤ start blocks later :=
  ((List.take_prefix_take_left order).flatten).length_le

theorem start_all {blocks : List (List Stmt)} {id : Nat} (all : blocks.length ≤ id) :
    start blocks id = blocks.flatten.length := by
  rw [start, List.take_of_length_le all]

theorem flatten_split {blocks : List (List Stmt)} {id : Nat} {stmts : List Stmt}
    (found : blocks[id]? = some stmts) :
    blocks.flatten = (blocks.take id).flatten ++ (stmts ++ (blocks.drop (id + 1)).flatten) := by
  obtain ⟨within, here⟩ := List.getElem?_eq_some_iff.mp found
  conv_lhs => rw [← List.take_append_drop id blocks]
  rw [List.flatten_append, List.drop_eq_getElem_cons within, here, List.flatten_cons]

theorem getElem?_flatten {blocks : List (List Stmt)} {id k : Nat} {stmts : List Stmt}
    (found : blocks[id]? = some stmts) (inside : k < stmts.length) :
    blocks.flatten[start blocks id + k]? = stmts[k]? := by
  rw [flatten_split found, start, List.getElem?_append_right (Nat.le_add_right _ _),
    Nat.add_sub_cancel_left, List.getElem?_append_left inside]

theorem exists_of_flatten_getElem? {blocks : List (List Stmt)} {i : Nat} {s : Stmt}
    (found : blocks.flatten[i]? = some s) :
    ∃ id stmts k, blocks[id]? = some stmts ∧ stmts[k]? = some s ∧ i = start blocks id + k := by
  induction blocks generalizing i with
  | nil => simp at found
  | cons first blocks ih =>
      rw [List.flatten_cons] at found
      by_cases inside : i < first.length
      · rw [List.getElem?_append_left inside] at found
        exact ⟨0, first, i, rfl, found, by simp [start]⟩
      · rw [List.getElem?_append_right (Nat.le_of_not_lt inside)] at found
        obtain ⟨id, stmts, k, located, here, position⟩ := ih found
        refine ⟨id + 1, stmts, k, located, here, ?_⟩
        simp only [start, List.take_succ_cons, List.flatten_cons, List.length_append] at position ⊢
        omega

theorem length_placed (all : List Site) (id : Nat) (sites : List Site) (vars : Variables) :
    (placed all id sites vars).1.length = sites.length := by
  induction sites generalizing id vars with
  | nil => rfl
  | cons site sites ih => exact congrArg (· + 1) (ih _ _)

theorem temps_placed (all : List Site) (id : Nat) (sites : List Site) (vars : Variables) :
    vars.temps.length ≤ (placed all id sites vars).2.temps.length := by
  induction sites generalizing id vars with
  | nil => exact le_rfl
  | cons site sites ih =>
      refine le_trans ?_ (ih _ _)
      cases site.output with
      | none => exact le_rfl
      | some output => exact Moves.length_insert _ _ _

theorem placed_getElem? {all : List Site} {id : Nat} {sites : List Site} {vars : Variables}
    {k : Nat} {site : Site} {output : BlockOutput} (found : sites[k]? = some site)
    (replayed : site.output = some output) :
    (placed all id sites vars).1[k]? =
      some (Moves.insert output.stmts (movesFrom all (id + k) output.exitStack)
        (placed all id (sites.take k) vars).2).1 := by
  induction sites generalizing id vars k with
  | nil => simp at found
  | cons first sites ih =>
      cases k with
      | zero =>
          rw [List.getElem?_cons_zero, Option.some.injEq] at found
          simp only [placed, found, replayed, List.getElem?_cons_zero, Nat.add_zero, List.take_zero]
      | succ k =>
          simp only [placed, List.getElem?_cons_succ, List.take_succ_cons]
          rw [ih found, Nat.add_right_comm, Nat.add_assoc]

theorem mem_movesInto {merges : List (Option Nat)} {stack : List Value} {m : Move} :
    m ∈ movesInto merges stack ↔ ∃ slot : Nat, merges[slot]? = some (some m.merge) ∧
      stack[slot]? = some m.source ∧ m.source ≠ .merge m.merge := by
  obtain ⟨id, source⟩ := m
  simp only [movesInto, List.mem_filterMap, Prod.exists, Option.bind_eq_some_iff]
  constructor
  · rintro ⟨merge, v, member, other, rfl, kept⟩
    obtain ⟨slot, located⟩ := List.mem_iff_getElem?.mp member
    rw [List.zip, List.getElem?_zipWith_eq_some] at located
    obtain ⟨_, _, here, there, same⟩ := located
    cases same
    split at kept
    · cases kept
    · cases kept
      exact ⟨slot, here, there, by assumption⟩
  · rintro ⟨slot, here, there, apart⟩
    refine ⟨some id, source, List.mem_of_getElem? (i := slot) ?_, id, rfl, if_neg apart⟩
    rw [List.zip, List.getElem?_zipWith_eq_some]
    exact ⟨_, _, here, there, rfl⟩

theorem mem_movesFrom {sites : List Site} {id : Nat} {exitStack : List Value} {m : Move} :
    m ∈ movesFrom sites id exitStack ↔ ∃ (b : Nat) (site : Site), sites[b]? = some site ∧
      id ∈ site.block.predecessors ∧ m ∈ movesInto site.merges exitStack := by
  simp only [movesFrom, List.mem_flatMap]
  constructor
  · rintro ⟨site, member, owed⟩
    obtain ⟨b, located⟩ := List.mem_iff_getElem?.mp member
    split at owed
    · rename_i edge
      exact ⟨b, site, located, List.contains_iff_mem.mp edge, owed⟩
    · cases owed
  · rintro ⟨b, site, located, edge, owed⟩
    refine ⟨site, List.mem_of_getElem? located, ?_⟩
    rwa [if_pos (List.contains_iff_mem.mpr edge)]

end Layout

namespace Build

def pieces (s : Build) : List (List Stmt) := (Layout.placed s.sites 0 s.sites s.vars).1

def tableFor (s : Build) (id : Nat) : Variables :=
  (Layout.placed s.sites 0 (s.sites.take id) s.vars).2

theorem length_pieces (s : Build) : s.pieces.length = s.sites.length := Layout.length_placed _ _ _ _

namespace Finished

variable {job : Job} {s : Build} (finished : Finished job s) {id : Nat} {b : Block}
include finished

theorem lt_of_placed {piece : List Stmt} (placed : s.pieces[id]? = some piece) :
    id < job.graph.blocks.length := by
  rw [← finished.length_sites, ← length_pieces]
  exact (List.getElem?_eq_some_iff.mp placed).1

theorem block (found : job.graph.blocks[id]? = some b) :
    ∃ site entry output seen, s.sites[id]? = some site ∧ site.block = b ∧
      site.output = some output ∧ Record job s site entry output seen ∧
      s.pieces[id]? = some (Moves.insert output.stmts
        (Layout.movesFrom s.sites id output.exitStack) (s.tableFor id)).1 := by
  rw [← finished.agree.blocks, List.getElem?_map, Option.map_eq_some_iff] at found
  obtain ⟨site, located, rfl⟩ := found
  have replayed := finished.agree.replayed site (List.mem_of_getElem? located)
  obtain ⟨output, left⟩ := Option.isSome_iff_exists.mp replayed
  obtain ⟨entry, seen, record⟩ := finished.recorded.records located left
  refine ⟨site, entry, output, seen, located, rfl, left, record, ?_⟩
  rw [pieces, Layout.placed_getElem? located left, Nat.zero_add]
  rfl

end Finished
end Build
end Destack
