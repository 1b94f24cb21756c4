import Destack.Proofs.Merge.Recheck
import Destack.Proofs.Replay.Values

namespace Destack

open Replay

theorem replayBlock_made {cx : Context} {l : Listing} {b : Block} {entry : List Value}
    {s t : Shared} {output : BlockOutput} (allocated : Allocated s.vars s.temps)
    (made : Made s.vars entry) (ran : replayBlock cx l b entry s = (.ok output, t)) :
    Made t.vars output.exitStack := by
  obtain ⟨q, ⟨-, made⟩, rfl, rfl⟩ := replayBlock_invariant
    (P := fun p => Allocated p.vars p.temps ∧ Made p.vars p.stack)
    (fun shape p q before reached =>
      reached_inUse (P := fun vars temps _ inUse => Allocated vars temps ∧ Made vars inUse)
        (fun before usable => ⟨before.1, fun id member => before.2 id (mem_of_usable usable member)⟩)
        temp_made before reached) ran
    ⟨allocated, fun id member => made id (List.mem_reverse.mp member)⟩
  exact fun id member => made id (List.mem_reverse.mp member)

namespace Build

def entryStack? (sites : List Site) (block : Nat) : Option (List Value) :=
  sites[block]?.bind (·.entry)

theorem entryStack?_eq {sites : List Site} {id : Nat} {site : Site}
    (located : sites[id]? = some site) : entryStack? sites id = site.entry := by
  rw [entryStack?, located]
  rfl

theorem entryStack?_start (g : Graph) (vars : Variables) (b : Nat) :
    entryStack? (start g vars).sites b = none := by
  cases found : g.blocks[b]? <;> simp [entryStack?, start, found]

theorem exitStack?_start (g : Graph) (vars : Variables) (b : Nat) :
    exitStack? (start g vars).sites b = none := by
  cases found : g.blocks[b]? <;> simp [exitStack?, start, found]

structure StacksMade (s : Build) : Prop where
  entries : ∀ {b : Nat} {entry : List Value}, entryStack? s.sites b = some entry → Made s.vars entry
  exits : ∀ {b : Nat} {exit : List Value}, exitStack? s.sites b = some exit → Made s.vars exit

theorem stacksMade_start (g : Graph) (vars : Variables) : StacksMade (start g vars) := by
  constructor
  · intro b entry entered
    rw [entryStack?_start] at entered
    cases entered
  · intro b exit left
    rw [exitStack?_start] at left
    cases left

section

variable {job : Job} {id : Nat} {s after : Build} {site new : Site} {c : Candidate}

theorem Touched.longerTemps (touched : Touched job id s after site new c) :
    s.vars.temps.length ≤ after.vars.temps.length := by
  rw [← touched.extended.temps]
  exact touched.temps

theorem Touched.entryStack?_eq (touched : Touched job id s after site new c) (b : Nat) :
    entryStack? after.sites b = if b = id then new.entry else entryStack? s.sites b := by
  split
  · rename_i here
    rw [here, Build.entryStack?_eq touched.here]
  · rename_i other
    rw [entryStack?, touched.elsewhere other]
    rfl

theorem Touched.exitStack?_eq (touched : Touched job id s after site new c) (b : Nat) :
    exitStack? after.sites b =
      if b = id then new.output.map (·.exitStack) else exitStack? s.sites b := by
  rw [touched.sites]
  exact exitStack?_set touched.located

theorem StacksMade.replace (made : StacksMade s) (touched : Touched job id s after site new c)
    (entered : ∀ entry, new.entry = some entry → Made after.vars entry)
    (leaves : ∀ exit, new.output.map (·.exitStack) = some exit → Made after.vars exit) :
    StacksMade after := by
  constructor
  · intro b entry found
    rw [touched.entryStack?_eq] at found
    split at found
    · exact entered entry found
    · exact (made.entries found).longer touched.longerTemps
  · intro b exit found
    rw [touched.exitStack?_eq] at found
    split at found
    · exact leaves exit found
    · exact (made.exits found).longer touched.longerTemps

theorem StacksMade.incoming (made : StacksMade s) {g : Graph} {b : Block} {stack : List Value}
    (arrives : stack ∈ incoming g s.sites id b) : Made s.vars stack := by
  rcases List.mem_append.mp arrives with root | edge
  · split at root
    · rw [List.mem_singleton.mp root]
      exact fun id member => absurd member List.not_mem_nil
    · cases root
  · obtain ⟨p, -, leaves⟩ := List.mem_filterMap.mp edge
    exact made.exits leaves

theorem StacksMade.candidate (made : StacksMade s)
    (computed : candidate job.graph s id site = .ok c) : Made s.vars c.entry := by
  intro u member
  obtain ⟨slot, located⟩ := List.mem_iff_getElem?.mp member
  have fits := candidate_fits computed
  rcases fits.slot located with ⟨m, -, same⟩ | arrive
  · cases same
  · have enter : Build.incoming job.graph s.sites id site.block ≠ [] := fun none => by
      simp [fits.empty none] at located
    obtain ⟨input, arrives⟩ := List.exists_mem_of_ne_nil _ enter
    exact made.incoming arrives u (List.mem_of_getElem? (arrive input arrives))

theorem StacksMade.visited {r : Option Bool} (made : StacksMade s) (recorded : Recorded job s)
    (visited : Visited job id s r after) : StacksMade after := by
  cases visited with
  | absent missing => exact made
  | @current site c located computed upToDate =>
      have touched := touched_current located computed
      refine made.replace touched (fun entry entered => ?_) fun exit left => ?_
      · exact (made.entries ((entryStack?_eq located).trans entered)).longer touched.longerTemps
      · exact (made.exits ((exitStack?_eq located).trans left)).longer touched.longerTemps
  | @replayed site c output shared located computed allowed ran =>
      have touched := touched_replayed located computed ran
      have entered := made.candidate computed
      refine made.replace touched (fun entry same => ?_) fun exit same => ?_
      · cases same
        exact entered.longer touched.longerTemps
      · cases same
        have table : c.vars.temps = s.vars.temps := touched.extended.temps
        refine replayBlock_made (s := ⟨c.vars, site.temps, s.queries⟩) ?_ ?_ ran
        · intro u member
          rw [table]
          exact recorded.allocated located u member
        · intro u member
          rw [table]
          exact entered u member

end

structure Finished (job : Job) (s : Build) : Prop where
  agree : StacksAgree job.graph s
  agreed : Agreed job.graph [] s
  recorded : Recorded job s
  made : StacksMade s

theorem converge_finished {job : Job} {scopes : List (Scope Ty)} {vars : Variables} {count : Nat}
    (built : Graph.build job.listing scopes = .ok job.graph)
    (converged : (converge job (start job.graph vars)).1 = .ok count) :
    Finished job (converge job (start job.graph vars)).2 := by
  have linked := Graph.build_linked built
  have ran : converge job (start job.graph vars) =
      (.ok count, (converge job (start job.graph vars)).2) := Prod.ext converged rfl
  obtain ⟨⟨agreed, recorded, made⟩, seen⟩ :=
    search_invariant
      (P := fun worklist s => Agreed job.graph worklist s ∧ Recorded job s ∧ StacksMade s)
      (fun id rest s r after all visited =>
        ⟨all.1.visited linked visited, all.2.1.visited visited, all.2.2.visited all.2.1 visited⟩)
      (fun id s all => ⟨all.1.seed id, all.2⟩)
      ran ⟨agreed_start _ _ _, recorded_start _ _ _, stacksMade_start _ _⟩
  exact ⟨agreed.stacksAgree linked recorded.owned seen, agreed, recorded, made⟩

namespace Finished

variable {job : Job} {s : Build} (finished : Finished job s) {id : Nat}
include finished

theorem length_sites : s.sites.length = job.graph.blocks.length := by
  rw [← finished.agree.blocks, List.length_map]

theorem mem_predecessors (linked : job.graph.Linked) {p : Nat} {site : Site}
    (located : s.sites[id]? = some site) :
    p ∈ site.block.predecessors ↔ id ∈ job.graph.successors p := by
  have block : job.graph.blocks[id]? = some site.block := by
    rw [← finished.agree.blocks, List.getElem?_map, located]
    rfl
  rw [← linked.mirrored p id (List.getElem?_eq_some_iff.mp block).1, Graph.predecessors, block]
  rfl

end Finished
end Build
end Destack
