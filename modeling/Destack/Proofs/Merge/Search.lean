import Destack.Proofs.Flow.Edges
import Destack.Proofs.Merge.Entry

namespace Destack
namespace Build

inductive Visited (job : Job) (id : Nat) (s : Build) : Option Bool → Build → Prop
  | absent (missing : s.sites[id]? = none) : Visited job id s none s
  | current {site : Site} {c : Candidate} (located : s.sites[id]? = some site)
      (computed : candidate job.graph s id site = .ok c) (upToDate : site.upToDate c) :
      Visited job id s none
        { s with vars := c.vars, sites := s.sites.set id (site.settled c) }
  | replayed {site : Site} {c : Candidate} {output : BlockOutput} {shared : Shared}
      (located : s.sites[id]? = some site) (computed : candidate job.graph s id site = .ok c)
      (allowed : site.visits < job.maxVisits)
      (ran : replayBlock job.cx job.listing site.block c.entry ⟨c.vars, site.temps, s.queries⟩ =
        (.ok output, shared)) :
      Visited job id s (some (exitChanged site.output output))
        ⟨shared.vars, s.sites.set id (site.replayed c shared.temps output), shared.queries⟩

theorem visited_of_visit {job : Job} {id : Nat} {s after : Build} {r : Option Bool}
    (visited : visit job id s = (.ok r, after)) : Visited job id s r after := by
  unfold visit at visited
  split at visited
  · rename_i missing
    cases visited
    exact .absent missing
  · rename_i site located
    split at visited
    · cases visited
    · rename_i c computed
      split at visited
      · rename_i upToDate
        cases visited
        exact .current located computed upToDate
      · split at visited
        · cases visited
        · rename_i allowed
          split at visited
          · cases visited
          · rename_i ran
            cases visited
            exact .replayed located computed (Nat.lt_of_not_le allowed) ran

theorem mem_enqueue {worklist blocks : List Nat} {b : Nat} :
    b ∈ enqueue worklist blocks ↔ b ∈ worklist ∨ b ∈ blocks :=
  mem_foldl_unless

def waiting (g : Graph) (id : Nat) (rest : List Nat) : Option Bool → List Nat
  | some true => enqueue rest (g.successors id)
  | _ => rest

theorem unvisited?_eq_none {sites : List Site} :
    unvisited? sites = none ↔ ∀ site ∈ sites, site.output.isSome := by
  simp [unvisited?, List.findIdx?_eq_none_iff]

theorem exists_of_unvisited? {sites : List Site} {id : Nat} (found : unvisited? sites = some id) :
    ∃ site, sites[id]? = some site ∧ site.output = none := by
  obtain ⟨bounded, unseen, -⟩ := List.findIdx?_eq_some_iff_getElem.mp found
  exact ⟨sites[id], List.getElem?_eq_getElem bounded, by simpa using unseen⟩

theorem search_cons (job : Job) (id : Nat) (rest : List Nat) (count : Nat) (s : Build) :
    search job (id :: rest) count s =
      match visit job id s with
      | (.error e, after) => (.error e, after)
      | (.ok none, after) => search job rest count after
      | (.ok (some changed), after) =>
        search job (waiting job.graph id rest (some changed)) (count + 1) after := by
  rw [search]
  split
  · rename_i visited
    rw [visited]
  · rename_i visited
    rw [visited]
  · rename_i changed after visited
    rw [visited]
    cases changed <;> rfl

theorem search_nil (job : Job) (count : Nat) (s : Build) :
    search job [] count s =
      match unvisited? s.sites with
      | none => (.ok count, s)
      | some id =>
        match visit job id s with
        | (.error e, after) => (.error e, after)
        | (.ok none, after) => (.ok count, after)
        | (.ok (some changed), after) =>
          search job (waiting job.graph id [] (some changed)) (count + 1) after := by
  rw [search]
  cases unvisited? s.sites with
  | none => rfl
  | some id =>
      dsimp only
      split
      · rename_i visited
        rw [visited]
      · rename_i visited
        rw [visited]
      · rename_i changed after visited
        rw [visited]
        cases changed <;> rfl

/-- What visits keep holds at the end of a search. Once the worklist is empty, the first block that
was never replayed is put on it. -/
theorem search_keeps {job : Job} {P : List Nat → Build → Prop}
    (visits : ∀ id rest s r after, P (id :: rest) s → Visited job id s r after →
      P (waiting job.graph id rest r) after)
    (seeds : ∀ id s, P [] s → unvisited? s.sites = some id → P [id] s) {worklist : List Nat}
    {count n : Nat} {s t : Build} (ran : search job worklist count s = (.ok n, t))
    (holds : P worklist s) : P [] t ∧ unvisited? t.sites = none := by
  fun_induction search job worklist count s with
  | case1 count s id rest e after visited => cases ran
  | case2 count s id rest after visited ih =>
      exact ih ran (visits id rest s none after holds (visited_of_visit visited))
  | case3 count s id rest changed after visited next ih =>
      refine ih ran ?_
      have kept := visits id rest s (some changed) after holds (visited_of_visit visited)
      cases changed <;> exact kept
  | case4 count s seen =>
      cases ran
      exact ⟨holds, seen⟩
  | case5 count s id found e after visited => cases ran
  | case6 count s id found after visited =>
      obtain ⟨site, located, unseen⟩ := exists_of_unvisited? found
      have replayed := (visit_none visited).2 site located
      simp [unseen] at replayed
  | case7 count s id found changed after visited next ih =>
      refine ih ran ?_
      have kept := visits id [] s (some changed) after (seeds id s holds found)
        (visited_of_visit visited)
      cases changed <;> exact kept

theorem search_invariant {job : Job} {P : List Nat → Build → Prop}
    (visits : ∀ id rest s r after, P (id :: rest) s → Visited job id s r after →
      P (waiting job.graph id rest r) after)
    (seeds : ∀ id s, P [] s → P [id] s) {worklist : List Nat} {count n : Nat} {s t : Build}
    (ran : search job worklist count s = (.ok n, t)) (holds : P worklist s) :
    P [] t ∧ unvisited? t.sites = none :=
  search_keeps visits (fun id s before _ => seeds id s before) ran holds

/-- The search, given up after so many steps. It computes. -/
def searchWithin (job : Job) : Nat → List Nat → Nat → Build →
    Option (Except ReplayError Nat × Build)
  | 0, _, _, _ => none
  | steps + 1, id :: rest, count, s =>
    match visit job id s with
    | (.error e, after) => some (.error e, after)
    | (.ok none, after) => searchWithin job steps rest count after
    | (.ok (some changed), after) =>
      searchWithin job steps (waiting job.graph id rest (some changed)) (count + 1) after
  | steps + 1, [], count, s =>
    match unvisited? s.sites with
    | none => some (.ok count, s)
    | some id =>
      match visit job id s with
      | (.error e, after) => some (.error e, after)
      | (.ok none, after) => some (.ok count, after)
      | (.ok (some changed), after) =>
        searchWithin job steps (waiting job.graph id [] (some changed)) (count + 1) after

theorem search_eq_of_searchWithin {job : Job} {steps : Nat} {worklist : List Nat} {count : Nat}
    {s : Build} {r : Except ReplayError Nat × Build}
    (ended : searchWithin job steps worklist count s = some r) :
    search job worklist count s = r := by
  fun_induction searchWithin job steps worklist count s with
  | case1 => cases ended
  | case2 steps id rest count s e after visited =>
      cases ended
      rw [search_cons, visited]
  | case3 steps id rest count s after visited ih =>
      rw [search_cons, visited]
      exact ih ended
  | case4 steps id rest count s changed after visited ih =>
      rw [search_cons, visited]
      exact ih ended
  | case5 steps count s seen =>
      cases ended
      rw [search_nil, seen]
  | case6 steps count s id found e after visited =>
      cases ended
      rw [search_nil, found]
      dsimp only
      rw [visited]
  | case7 steps count s id found after visited =>
      cases ended
      rw [search_nil, found]
      dsimp only
      rw [visited]
  | case8 steps count s id found changed after visited ih =>
      rw [search_nil, found]
      dsimp only
      rw [visited]
      exact ih ended

theorem converge_of_searchWithin {α : Type} {job : Job} {s : Build} (steps : Nat)
    {f : Except ReplayError Nat × Build → α} {a : α}
    (ended : (searchWithin job steps (distinct (job.graph.roots.map (·.1))) 0 s).map f = some a) :
    f (converge job s) = a := by
  obtain ⟨r, within, rfl⟩ := Option.map_eq_some_iff.mp ended
  rw [converge, search_eq_of_searchWithin within]

end Build
end Destack
