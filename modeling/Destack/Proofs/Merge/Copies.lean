import Destack.Proofs.Merge.Finished
import Destack.Proofs.Replay.Origins

/-!
# Copies of a merge variable

A merge variable comes onto the stack in its own slot of its own block. From there it can be copied
upwards only, so that where a block leaves a copy of it on the stack, it leaves the merge variable in
its own slot too. The slots in between must not have got merge variables of their own while the
search was on its way: they never do, since a slot that holds a copy at the end held a copy of the
slot below it all along.
-/

namespace Destack

/-! ## Reachable blocks -/

namespace Graph

inductive Reachable (g : Graph) : Nat → Prop
  | root {b : Nat} (root : b ∈ g.roots.map (·.1)) : Reachable g b
  | next {p b : Nat} (before : Reachable g p) (edge : b ∈ g.successors p) : Reachable g b

theorem reachable_of_earlier {g : Graph}
    (earlier : ∀ b < g.blocks.length, b ∈ g.roots.map (·.1) ∨ ∃ p < b, b ∈ g.successors p) :
    ∀ b < g.blocks.length, Reachable g b := by
  intro b bounded
  induction b using Nat.strong_induction_on with
  | _ b ih =>
      obtain root | ⟨p, before, edge⟩ := earlier b bounded
      · exact .root root
      · exact .next (ih p before (before.trans bounded)) edge

end Graph

open Replay

namespace Build

variable {job : Job} {s : Build}

/-! ## What blocks do to their stacks -/

theorem Recorded.follows (recorded : Recorded job s) (known : PutsKnown job.cx job.listing)
    {p : Nat} {exit : List Value} (left : exitStack? s.sites p = some exit) :
    ∃ site entry f, s.sites[p]? = some site ∧ entryStack? s.sites p = some entry ∧ Renames f ∧
      List.Forall₂ (Comes entry f)
        (site.block.origins job.cx job.listing entry.length).reverse exit := by
  rw [exitStack?, Option.map_eq_some_iff] at left
  obtain ⟨output, left, rfl⟩ := left
  obtain ⟨site, located, left⟩ := Option.bind_eq_some_iff.mp left
  obtain ⟨entry, seen, record⟩ := recorded.records located left
  obtain ⟨after, ran, -⟩ := record.ran
  have inside : PutsKnown job.cx (site.block.instructions job.listing) := fun i member =>
    known i (List.mem_of_mem_drop (List.mem_of_mem_take member))
  obtain ⟨f, renames, comes⟩ := replayBlock_follows inside ran
  exact ⟨site, entry, f, located, (entryStack?_eq located).trans record.entered, renames, comes⟩

section Finished

variable (finished : Finished job s) {home slot m : Nat} (owner : Owns s.sites home slot m)
include finished

theorem entryStack?_of_root {b : Nat} (root : b ∈ job.graph.roots.map (·.1)) :
    entryStack? s.sites b = some [] := by
  obtain ⟨site, located, entered⟩ := finished.agree.roots b root
  rw [entryStack?_eq located, entered]

theorem exists_stacks {p b : Nat} (edge : b ∈ job.graph.successors p) :
    ∃ entry exit, entryStack? s.sites b = some entry ∧ exitStack? s.sites p = some exit ∧
      exit.length = entry.length := by
  obtain ⟨site, entry, exit, located, entered, left, depth, -⟩ := finished.agree.edges p b edge
  exact ⟨entry, exit, (entryStack?_eq located).trans entered, left, depth⟩

theorem eq_of_owns {b k n : Nat} {entry : List Value} {v : Value} (owns : Owns s.sites b k n)
    (entered : entryStack? s.sites b = some entry) (held : entry[k]? = some v) : v = .merge n := by
  obtain ⟨site, located, merge⟩ := owns
  have replayed := finished.agree.replayed site (List.mem_of_getElem? located)
  obtain ⟨entry', entered', fits⟩ := finished.agreed.fits b site located List.not_mem_nil replayed
  rw [entryStack?_eq located, entered', Option.some.injEq] at entered
  subst entered
  have enter : incoming job.graph s.sites b site.block ≠ [] := fun none => by
    simp [fits.empty none] at held
  obtain ⟨merge', values, owned, -, slotFits⟩ := (fits.settled enter).slot held
  rw [merge, Option.some.injEq] at owned
  subst owned
  exact slotFits

theorem held_before {p b k : Nat} {entry exit : List Value} (edge : b ∈ job.graph.successors p)
    (entered : entryStack? s.sites b = some entry) (held : entry[k]? = some (.merge m))
    (left : exitStack? s.sites p = some exit) :
    Owns s.sites b k m ∨ exit[k]? = some (.merge m) := by
  obtain ⟨site, entry', exit', located, entered', left', -, slots⟩ :=
    finished.agree.edges p b edge
  rw [entryStack?_eq located, entered', Option.some.injEq] at entered
  subst entered
  rw [left', Option.some.injEq] at left
  subst left
  rcases slots k _ held with ⟨n, merge, same⟩ | before
  · cases same
    exact .inl ⟨site, located, merge⟩
  · exact .inr before

variable (known : PutsKnown job.cx job.listing)
include known

theorem held_on_entry {p k : Nat} {exit : List Value} (left : exitStack? s.sites p = some exit)
    (held : exit[k]? = some (.merge m)) :
    ∃ entry j, entryStack? s.sites p = some entry ∧ entry[j]? = some (.merge m) ∧ j ≤ k := by
  obtain ⟨site, entry, f, -, entered, renames, comes⟩ := finished.recorded.follows known left
  obtain ⟨j, origin, before⟩ := exists_origin_of_merge renames comes held
  exact ⟨entry, j, entered, before, (Block.origins_lineage _ _ _ _).slot_le origin⟩

include owner

theorem slot_le_of_held {b k : Nat} {entry : List Value} (reachable : job.graph.Reachable b)
    (entered : entryStack? s.sites b = some entry) (held : entry[k]? = some (.merge m)) :
    slot ≤ k := by
  induction reachable generalizing k entry with
  | root root =>
      rw [entryStack?_of_root finished root, Option.some.injEq] at entered
      subst entered
      simp at held
  | next before edge ih =>
      obtain ⟨-, exit, -, left, -⟩ := exists_stacks finished edge
      rcases held_before finished edge entered held left with owns | leaves
      · exact (finished.agree.owned.unique owner owns).2.le
      · obtain ⟨earlier, j, entered, held, below⟩ := held_on_entry finished known left leaves
        exact (ih entered held).trans below

end Finished

/-! ## Worklists -/

def Replayed (sites : List Site) (b : Nat) : Prop := (exitStack? sites b).isSome

structure Fed (g : Graph) (worklist : List Nat) (s : Build) : Prop where
  roots : ∀ b ∈ g.roots.map (·.1), Replayed s.sites b ∨ b ∈ worklist
  closed : ∀ p b, Replayed s.sites p → b ∈ g.successors p → Replayed s.sites b ∨ b ∈ worklist
  waits : ∀ b ∈ worklist,
    b ∈ g.roots.map (·.1) ∨ ∃ p, Replayed s.sites p ∧ b ∈ g.successors p

theorem fed_start (g : Graph) (vars : Variables) :
    Fed g (distinct (g.roots.map (·.1))) (start g vars) where
  roots b root := .inr (mem_distinct.mpr root)
  closed p b replayed := by
    rw [Replayed, exitStack?_start] at replayed
    cases replayed
  waits b member := .inl (mem_distinct.mp member)

theorem Fed.replayed {g : Graph} (fed : Fed g [] s) {b : Nat} (reachable : g.Reachable b) :
    Replayed s.sites b := by
  induction reachable with
  | root root => exact (fed.roots _ root).resolve_right List.not_mem_nil
  | next before edge ih => exact (fed.closed _ _ ih edge).resolve_right List.not_mem_nil

theorem replayed_iff {sites : List Site} {b : Nat} {site : Site}
    (located : sites[b]? = some site) : Replayed sites b ↔ site.output.isSome := by
  rw [Replayed, exitStack?_eq located, Option.isSome_map]

theorem Fed.replace {g : Graph} {id : Nat} {rest worklist : List Nat} {after : Build}
    (fed : Fed g (id :: rest) s)
    (same : ∀ b, Replayed after.sites b ↔ Replayed s.sites b ∨ b = id)
    (waits : ∀ b, b ∈ worklist → b ∈ rest ∨ b ∈ g.successors id)
    (kept : ∀ b ∈ rest, b ∈ worklist)
    (next : Replayed s.sites id ∨ ∀ b ∈ g.successors id, b ∈ worklist) :
    Fed g worklist after := by
  have moves {b : Nat} (before : Replayed s.sites b ∨ b ∈ id :: rest) :
      Replayed after.sites b ∨ b ∈ worklist := by
    rw [same, List.mem_cons] at *
    rcases before with replayed | here | member
    · exact .inl (.inl replayed)
    · exact .inl (.inr here)
    · exact .inr (kept b member)
  constructor
  · exact fun b root => moves (fed.roots b root)
  · intro p b replayed edge
    rcases (same p).mp replayed with before | rfl
    · exact moves (fed.closed p b before edge)
    · rcases next with before | next
      · exact moves (fed.closed p b before edge)
      · exact .inr (next b edge)
  · intro b member
    rcases waits b member with old | new
    · refine (fed.waits b (List.mem_cons_of_mem _ old)).imp_right ?_
      rintro ⟨p, replayed, edge⟩
      exact ⟨p, (same p).mpr (.inl replayed), edge⟩
    · exact .inr ⟨id, (same id).mpr (.inr rfl), new⟩

theorem Touched.replayed_iff {id : Nat} {after : Build} {site new : Site} {c : Candidate}
    (touched : Touched job id s after site new c) (output : new.output.isSome) (b : Nat) :
    Replayed after.sites b ↔ Replayed s.sites b ∨ b = id := by
  rw [Replayed, touched.exitStack?_eq]
  split
  · rename_i here
    simpa [here] using output
  · rename_i other
    simp [Replayed, other]

theorem Fed.visited {id : Nat} {rest : List Nat} {after : Build} {r : Option Bool}
    (fed : Fed job.graph (id :: rest) s) (bounded : id < s.sites.length)
    (visited : Visited job id s r after) : Fed job.graph (waiting job.graph id rest r) after := by
  cases visited with
  | absent missing =>
      rw [List.getElem?_eq_none_iff] at missing
      exact absurd bounded (Nat.not_lt_of_le missing)
  | @current site c located computed upToDate =>
      simp only [Site.upToDate, Bool.and_eq_true] at upToDate
      have output : site.output.isSome := upToDate.1.1
      exact fed.replace ((touched_current located computed).replayed_iff output)
        (fun b member => .inl member) (fun b member => member)
        (.inl ((Build.replayed_iff located).mpr output))
  | @replayed site c output shared located computed allowed ran =>
      have touched := touched_replayed located computed ran
      cases changed : exitChanged site.output output with
      | true =>
          exact fed.replace (touched.replayed_iff rfl) (fun b member => mem_enqueue.mp member)
            (fun b member => mem_enqueue.mpr (.inl member))
            (.inr fun b member => mem_enqueue.mpr (.inr member))
      | false =>
          have before := exitStack_of_unchanged changed
          refine fed.replace (touched.replayed_iff rfl) (fun b member => .inl member)
            (fun b member => member) (.inl ?_)
          rw [Replayed, exitStack?_eq located, before]
          rfl

/-! ## Searches on their way -/

/-- What is known of a search, seen from its end: stacks are as deep as they will be, and where a
copy of the merge variable `m` will be, there is a copy of the slot below. -/
structure Tracks (last : Build) (m slot : Nat) (s : Build) : Prop where
  depth : ∀ {b : Nat} {entry final : List Value}, entryStack? s.sites b = some entry →
    entryStack? last.sites b = some final → entry.length = final.length
  copies : ∀ {b k : Nat} {final : List Value}, slot ≤ k → entryStack? last.sites b = some final →
    final[k + 1]? = some (.merge m) →
    (∀ entry, entryStack? s.sites b = some entry → entry[k]? = entry[k + 1]?) ∧
      ∀ n, ¬ Owns s.sites b k n

theorem not_owns_start (g : Graph) (vars : Variables) (b k n : Nat) :
    ¬ Owns (start g vars).sites b k n := by
  rintro ⟨site, located, merge⟩
  simp only [start, List.getElem?_map, Option.map_eq_some_iff] at located
  obtain ⟨block, -, rfl⟩ := located
  simp at merge

theorem tracks_start (last : Build) (m slot : Nat) (g : Graph) (vars : Variables) :
    Tracks last m slot (start g vars) := by
  constructor
  · intro b entry final entered
    rw [entryStack?_start] at entered
    cases entered
  · intro b k final above begins held
    refine ⟨fun entry entered => ?_, not_owns_start g vars b k⟩
    rw [entryStack?_start] at entered
    cases entered

section Tracks

variable {last : Build} {m slot : Nat} (finished : Finished job last)
  (known : PutsKnown job.cx job.listing) (blocks : s.sites.map (·.block) = job.graph.blocks)
  (recorded : Recorded job s) (tracks : Tracks last m slot s)
include finished known blocks recorded tracks

theorem Tracks.replays {p : Nat} {exit final : List Value}
    (left : exitStack? s.sites p = some exit) (leaves : exitStack? last.sites p = some final) :
    ∃ o entry begin f g, entryStack? s.sites p = some entry ∧
      entryStack? last.sites p = some begin ∧
      Lineage o ∧ Renames f ∧ Renames g ∧ List.Forall₂ (Comes entry f) o.reverse exit ∧
      List.Forall₂ (Comes begin g) o.reverse final := by
  obtain ⟨site, entry, f, located, entered, renames, comes⟩ := recorded.follows known left
  obtain ⟨site', begin, g, located', entered', renames', comes'⟩ :=
    finished.recorded.follows known leaves
  have same : site'.block = site.block := by
    have here := congrArg (·[p]?) (blocks.trans finished.agree.blocks.symm)
    simpa [located, located'] using here.symm
  rw [same, ← tracks.depth entered entered'] at comes'
  exact ⟨_, entry, begin, f, g, entered, entered', Block.origins_lineage _ _ _ _, renames, renames',
    comes, comes'⟩

theorem Tracks.exit_depth {p : Nat} {exit final : List Value}
    (left : exitStack? s.sites p = some exit) (leaves : exitStack? last.sites p = some final) :
    exit.length = final.length := by
  obtain ⟨o, entry, begin, f, g, -, -, -, -, -, comes, comes'⟩ :=
    tracks.replays finished known blocks recorded left leaves
  rw [← comes.length_eq, comes'.length_eq]

theorem Tracks.exit_copies {p k : Nat} {exit final : List Value}
    (left : exitStack? s.sites p = some exit) (leaves : exitStack? last.sites p = some final)
    (above : slot ≤ k) (held : final[k + 1]? = some (.merge m)) : exit[k]? = exit[k + 1]? := by
  obtain ⟨o, entry, begin, f, g, entered, begins, lineage, -, renames, comes, comes'⟩ :=
    tracks.replays finished known blocks recorded left leaves
  obtain ⟨j, origin, before⟩ := exists_origin_of_merge renames comes' held
  obtain ⟨u, source, here⟩ := held_of_origin comes origin
  obtain ⟨stays, place⟩ := lineage.slot origin
  rcases place with same | ⟨below, same, order, copy⟩
  · -- The copy was there on entry, and so was what it is a copy of.
    subst same
    have twin := (tracks.copies above begins before).1 entry entered
    obtain ⟨v, source', there⟩ := held_of_origin comes (stays k (Nat.le_succ k))
    rw [source, source', Option.some.injEq] at twin
    rw [here, there, twin]
  · -- The block has made the copy.
    cases same
    obtain ⟨v, source', there⟩ := held_of_origin comes copy
    rw [source, Option.some.injEq] at source'
    rw [here, there, source']

end Tracks

/-! ## What a visit does to a copy -/

theorem Touched.owns_after {id : Nat} {after : Build} {site new : Site} {c : Candidate}
    (touched : Touched job id s after site new c) {b k n : Nat} (owns : Owns s.sites b k n) :
    Owns after.sites b k n := by
  obtain ⟨found, located, merge⟩ := owns
  by_cases here : b = id
  · subst here
    rw [touched.located, Option.some.injEq] at located
    subst located
    obtain ⟨columns, rfl⟩ := candidate_mergeSlots touched.computed
    refine ⟨new, touched.here, ?_⟩
    rw [touched.merges]
    exact mergeSlots_keeps merge
  · exact ⟨found, (touched.elsewhere here).trans located, merge⟩

theorem Visited.owns_after {id : Nat} {after : Build} {r : Option Bool}
    (visited : Visited job id s r after) {b k n : Nat} (owns : Owns s.sites b k n) :
    Owns after.sites b k n := by
  rcases visited.touched with rfl | ⟨site, new, c, touched⟩
  · exact owns
  · exact touched.owns_after owns

section Visits

variable {last after : Build} {id m slot home : Nat} {rest : List Nat} {site new : Site}
  {c : Candidate} (linked : job.graph.Linked) (finished : Finished job last)
  (known : PutsKnown job.cx job.listing) (owner : Owns last.sites home slot m)
  (agreed : Agreed job.graph (id :: rest) s) (recorded : Recorded job s)
  (fed : Fed job.graph (id :: rest) s) (tracks : Tracks last m slot s)
  (touched : Touched job id s after site new c)
include linked finished known agreed recorded fed tracks touched

theorem Tracks.candidate_depth {final : List Value}
    (begins : entryStack? last.sites id = some final) :
    c.entry.length = final.length ∧ incoming job.graph s.sites id site.block ≠ [] := by
  have fits := candidate_fits touched.computed
  rcases fed.waits id List.mem_cons_self with root | ⟨p, replayed, edge⟩
  · have arrives : [] ∈ incoming job.graph s.sites id site.block := mem_incoming_root root
    rw [entryStack?_of_root finished root, Option.some.injEq] at begins
    subst begins
    exact ⟨(fits.depth [] arrives).symm, List.ne_nil_of_mem arrives⟩
  · obtain ⟨exit, left⟩ := Option.isSome_iff_exists.mp replayed
    obtain ⟨final', leaves, begins', left', depth⟩ := exists_stacks finished edge
    rw [begins, Option.some.injEq] at begins'
    subst begins'
    have arrives : exit ∈ incoming job.graph s.sites id site.block :=
      mem_incoming ((agreed.predecessors linked touched.located).mpr edge) left
    refine ⟨?_, List.ne_nil_of_mem arrives⟩
    rw [← fits.depth exit arrives, ← depth]
    exact tracks.exit_depth finished known agreed.blocks recorded left left'

include owner

omit fed in
theorem Tracks.incoming_copies {k : Nat} {final : List Value} (above : slot ≤ k)
    (begins : entryStack? last.sites id = some final) (held : final[k + 1]? = some (.merge m))
    {input : List Value} (arrives : input ∈ incoming job.graph s.sites id site.block) :
    input[k]? = input[k + 1]? := by
  rcases List.mem_append.mp arrives with root | edge
  · split at root
    · rw [List.mem_singleton.mp root]
      rfl
    · cases root
  · obtain ⟨p, before, left⟩ := List.mem_filterMap.mp edge
    have edge := (agreed.predecessors linked touched.located).mp before
    obtain ⟨-, leaves, -, left', -⟩ := exists_stacks finished edge
    rcases held_before finished edge begins held left' with owns | held
    · have same := (finished.agree.owned.unique owner owns).2
      omega
    · exact tracks.exit_copies finished known agreed.blocks recorded left left' above held

theorem Tracks.candidate_copies {k : Nat} {final : List Value} (above : slot ≤ k)
    (begins : entryStack? last.sites id = some final) (held : final[k + 1]? = some (.merge m))
    (grows : ∀ n, c.merges[k + 1]? = some (some n) → Owns last.sites id (k + 1) n) :
    c.entry[k]? = c.entry[k + 1]? ∧ ∀ n, c.merges[k]? ≠ some (some n) := by
  -- The visited block is entered with a copy too, and has no merge variable for the slot below.
  obtain ⟨depth, enter⟩ :=
    tracks.candidate_depth linked finished known agreed recorded fed touched begins
  have fits := candidate_fits touched.computed
  have within : k + 1 < c.entry.length := depth ▸ (List.getElem?_eq_some_iff.mp held).1
  have upper := List.getElem?_eq_getElem within
  have lower := List.getElem?_eq_getElem (Nat.lt_of_succ_lt within)
  have arrive : ∀ input ∈ incoming job.graph s.sites id site.block,
      input[k]? = some c.entry[k + 1] := by
    intro input arrives
    rw [tracks.incoming_copies linked finished known owner agreed recorded touched above begins held
      arrives]
    rcases fits.slot upper with ⟨n, own, -⟩ | all
    · have owns := grows n own
      have same := eq_of_owns finished owns begins held
      cases same
      have same := (finished.agree.owned.unique owner owns).2
      omega
    · exact all input arrives
  have free : ∀ n, c.merges[k]? ≠ some (some n) := by
    intro n
    rcases candidate_eq touched.computed with ⟨none, -⟩ | ⟨height, -, deep, same⟩
    · exact absurd none enter
    · obtain ⟨input, arrives⟩ := List.exists_mem_of_ne_nil _ enter
      have column : ∃ values,
          (columns height (incoming job.graph s.sites id site.block))[k]? = some values := by
        refine ⟨_, List.getElem?_eq_getElem ?_⟩
        rw [length_columns, ← deep input arrives, fits.depth input arrives]
        exact Nat.lt_of_succ_lt within
      obtain ⟨values, column⟩ := column
      rw [same]
      refine mergeSlots_free column (v := c.entry[k + 1]) (fun u member => ?_) (fun n own => ?_) n
      · obtain ⟨other, comes, here⟩ := (mem_column column).mp member
        rw [arrive other comes, Option.some.injEq] at here
        exact here.symm
      · exact (tracks.copies above begins held).2 n ⟨site, touched.located, own⟩
  refine ⟨?_, free⟩
  rcases fits.slot lower with ⟨n, own, -⟩ | all
  · exact absurd own (free n)
  · obtain ⟨input, arrives⟩ := List.exists_mem_of_ne_nil _ enter
    rw [lower, upper, ← all input arrives, arrive input arrives]

theorem Tracks.replace (entered : new.entry = some c.entry)
    (grows : ∀ b k n, Owns after.sites b k n → Owns last.sites b k n) :
    Tracks last m slot after := by
  constructor
  · intro b entry final found begins
    rw [touched.entryStack?_eq] at found
    split at found
    · rename_i here
      subst here
      rw [entered, Option.some.injEq] at found
      subst found
      exact (tracks.candidate_depth linked finished known agreed recorded fed touched begins).1
    · exact tracks.depth found begins
  · intro b k final above begins held
    by_cases here : b = id
    · subst here
      obtain ⟨copies, free⟩ := tracks.candidate_copies linked finished known owner agreed recorded
        fed touched above begins held fun n own =>
          grows _ _ _ ⟨new, touched.here, touched.merges ▸ own⟩
      refine ⟨fun entry found => ?_, fun n owns => ?_⟩
      · rw [touched.entryStack?_eq, if_pos rfl, entered, Option.some.injEq] at found
        exact found ▸ copies
      · obtain ⟨found, located, merge⟩ := owns
        rw [touched.here, Option.some.injEq] at located
        rw [← located, touched.merges] at merge
        exact free n merge
    · obtain ⟨copies, free⟩ := tracks.copies above begins held
      refine ⟨fun entry found => copies entry ?_, fun n owns => free n ?_⟩
      · rwa [touched.entryStack?_eq, if_neg here] at found
      · obtain ⟨found, located, merge⟩ := owns
        exact ⟨found, (touched.elsewhere here).symm.trans located, merge⟩

omit touched in
theorem Tracks.visited {r : Option Bool} (visited : Visited job id s r after)
    (grows : ∀ b k n, Owns after.sites b k n → Owns last.sites b k n) :
    Tracks last m slot after := by
  cases visited with
  | absent missing => exact tracks
  | current located computed upToDate =>
      simp only [Site.upToDate, Bool.and_eq_true, decide_eq_true_eq] at upToDate
      exact tracks.replace linked finished known owner agreed recorded fed
        (touched_current located computed) upToDate.2 grows
  | replayed located computed allowed ran =>
      exact tracks.replace linked finished known owner agreed recorded fed
        (touched_replayed located computed ran) rfl grows

end Visits

theorem Fed.lt_of_waits {g : Graph} {worklist : List Nat} (fed : Fed g worklist s)
    (linked : g.Linked) {b : Nat} (waits : b ∈ worklist) : b < g.blocks.length := by
  rcases fed.waits b waits with root | ⟨p, -, edge⟩
  · exact linked.root_lt b root
  · exact linked.successor_lt p b edge

/-! ## The end of a search -/

section Converged

variable {scopes : List (Scope Ty)} {vars : Variables} {count : Nat}
  (built : Graph.build job.listing scopes = .ok job.graph)
  (converged : (converge job (start job.graph vars)).1 = .ok count)
  (known : PutsKnown job.cx job.listing)
  (reachable : ∀ b < job.graph.blocks.length, job.graph.Reachable b)
include built converged known reachable

theorem converge_tracks {home slot m : Nat}
    (owner : Owns (converge job (start job.graph vars)).2.sites home slot m) :
    Tracks (converge job (start job.graph vars)).2 m slot
      (converge job (start job.graph vars)).2 := by
  have linked := Graph.build_linked built
  have finished := converge_finished built converged
  have ran : converge job (start job.graph vars) =
      (.ok count, (converge job (start job.graph vars)).2) := Prod.ext converged rfl
  generalize (converge job (start job.graph vars)).2 = last at owner finished ran ⊢
  -- Merge variables stay, so a slot without one at the end never had one.
  obtain ⟨⟨-, -, -, tracks⟩, -⟩ :=
    search_keeps (P := fun worklist s => Agreed job.graph worklist s ∧ Recorded job s ∧
        Fed job.graph worklist s ∧
        ((∀ b k n, Owns s.sites b k n → Owns last.sites b k n) → Tracks last m slot s))
      (fun id rest s r after ⟨agreed, recorded, fed, tracks⟩ visited => by
        have bounded : id < s.sites.length := by
          rw [← List.length_map (·.block), agreed.blocks]
          exact fed.lt_of_waits linked List.mem_cons_self
        refine ⟨agreed.visited linked visited, recorded.visited visited,
          fed.visited bounded visited, fun grows => ?_⟩
        have before := tracks fun b k n owns => grows b k n (visited.owns_after owns)
        exact before.visited linked finished known owner agreed recorded fed visited grows)
      (fun id s ⟨agreed, recorded, fed, tracks⟩ unseen => by
        obtain ⟨site, located, missing⟩ := exists_of_unvisited? unseen
        have bounded := (List.getElem?_eq_some_iff.mp (agreed.block located)).1
        have replayed := (replayed_iff located).mp (fed.replayed (reachable id bounded))
        rw [missing] at replayed
        cases replayed)
      ran ⟨agreed_start _ _ _, recorded_start _ _ _, fed_start _ _, fun _ => tracks_start _ _ _ _ _⟩
  exact tracks fun b k n owns => owns

/-- A block that leaves a merge variable on the stack leaves it in the variable's own slot. -/
theorem converge_copies {home slot m p k : Nat} {exit : List Value}
    (owner : Owns (converge job (start job.graph vars)).2.sites home slot m)
    (left : exitStack? (converge job (start job.graph vars)).2.sites p = some exit)
    (held : exit[k]? = some (.merge m)) : exit[slot]? = some (.merge m) := by
  have tracks := converge_tracks built converged known reachable owner
  have finished := converge_finished built converged
  generalize (converge job (start job.graph vars)).2 = s at owner left tracks finished
  obtain ⟨site, entry, f, located, entered, renames, comes⟩ :=
    finished.recorded.follows known left
  obtain ⟨j, origin, before⟩ := exists_origin_of_merge renames comes held
  have bounded := (List.getElem?_eq_some_iff.mp (finished.agreed.block located)).1
  have above := slot_le_of_held finished owner known (reachable p bounded) entered before
  -- All slots from the variable's own up to this one hold it on entry.
  have down : ∀ i ≤ j - slot, entry[j - i]? = some (.merge m) := by
    intro i order
    induction i with
    | zero => exact before
    | succ i ih =>
        have next : j - (i + 1) + 1 = j - i := by omega
        have twin := (tracks.copies (by omega) entered (next ▸ ih (by omega))).1 entry entered
        rw [twin, next]
        exact ih (by omega)
  have own : entry[slot]? = some (.merge m) := by
    have last := down (j - slot) le_rfl
    rwa [Nat.sub_sub_self above] at last
  have stays := ((Block.origins_lineage _ _ _ _).slot origin).1 slot above
  obtain ⟨u, source, here⟩ := held_of_origin comes stays
  rw [own, Option.some.injEq] at source
  subst source
  rcases renames (.merge m) with same | ⟨declared, -⟩
  · rw [here, same]
  · cases declared

end Converged

end Build
end Destack
