import Destack.Proofs.Merge.Agreement
import Destack.Proofs.Replay.Balance

/-!
# Turns of a search

In each turn of a search the first block that waits is visited, or, if none waits, the first block
that was never replayed. Main statement: a search ends after a number of turns that the graph and
the visits that are allowed bound, whatever the stacks do on the way. No block is replayed more
often than is allowed, and a search that gives up names a block that was replayed just as often.
-/

namespace Destack
namespace Build

inductive Outcome (job : Job) (id : Nat) (s : Build) :
    Bool → Except ReplayError (Option Bool) × Build → Prop
  | absent (missing : s.sites[id]? = none) : Outcome job id s false (.ok none, s)
  | mismatched {site : Site} {e : ReplayError} (located : s.sites[id]? = some site)
      (failed : candidate job.graph s id site = .error e) : Outcome job id s false (.error e, s)
  | current {site : Site} {c : Candidate} (located : s.sites[id]? = some site)
      (computed : candidate job.graph s id site = .ok c) (upToDate : site.upToDate c) :
      Outcome job id s false
        (.ok none, { s with vars := c.vars, sites := s.sites.set id (site.settled c) })
  | exhausted {site : Site} {c : Candidate} (located : s.sites[id]? = some site)
      (computed : candidate job.graph s id site = .ok c) (stale : ¬ site.upToDate c)
      (spent : job.maxVisits ≤ site.visits) :
      Outcome job id s false (.error (.diverged site.block.entry site.visits),
        { s with vars := c.vars, sites := s.sites.set id (site.settled c) })
  | failed {site : Site} {c : Candidate} {e : ReplayError} {shared : Shared}
      (located : s.sites[id]? = some site) (computed : candidate job.graph s id site = .ok c)
      (stale : ¬ site.upToDate c) (allowed : site.visits < job.maxVisits)
      (ran : replayBlock job.cx job.listing site.block c.entry ⟨c.vars, site.temps, s.queries⟩ =
        (.error e, shared)) :
      Outcome job id s true
        (.error e, ⟨shared.vars, s.sites.set id (site.attempted c shared.temps), shared.queries⟩)
  | replayed {site : Site} {c : Candidate} {output : BlockOutput} {shared : Shared}
      (located : s.sites[id]? = some site) (computed : candidate job.graph s id site = .ok c)
      (stale : ¬ site.upToDate c) (allowed : site.visits < job.maxVisits)
      (ran : replayBlock job.cx job.listing site.block c.entry ⟨c.vars, site.temps, s.queries⟩ =
        (.ok output, shared)) :
      Outcome job id s true (.ok (some (exitChanged site.output output)),
        ⟨shared.vars, s.sites.set id (site.replayed c shared.temps output), shared.queries⟩)

theorem exists_outcome (job : Job) (id : Nat) (s : Build) :
    ∃ replays, Outcome job id s replays (visit job id s) := by
  unfold visit
  split
  · rename_i missing
    exact ⟨_, .absent missing⟩
  · rename_i site located
    split
    · rename_i e failed
      exact ⟨_, .mismatched located failed⟩
    · rename_i c computed
      split
      · rename_i upToDate
        exact ⟨_, .current located computed upToDate⟩
      · rename_i stale
        split
        · rename_i spent
          exact ⟨_, .exhausted located computed stale spent⟩
        · rename_i allowed
          split
          · rename_i e shared ran
            exact ⟨_, .failed located computed stale (Nat.lt_of_not_le allowed) ran⟩
          · rename_i output shared ran
            exact ⟨_, .replayed located computed stale (Nat.lt_of_not_le allowed) ran⟩

section Outcome

variable {job : Job} {id : Nat} {s after : Build} {replays : Bool}
  {r : Except ReplayError (Option Bool)}

theorem Outcome.visit_eq (outcome : Outcome job id s replays (r, after)) :
    visit job id s = (r, after) := by
  cases outcome with
  | absent missing => simp [visit, missing]
  | mismatched located failed => simp [visit, located, failed]
  | current located computed upToDate => simp [visit, located, computed, upToDate]
  | exhausted located computed stale spent => simp [visit, located, computed, stale, spent]
  | failed located computed stale allowed ran =>
      simp [visit, located, computed, stale, Nat.not_le.mpr allowed, ran]
  | replayed located computed stale allowed ran =>
      simp [visit, located, computed, stale, Nat.not_le.mpr allowed, ran]

theorem Outcome.replays_eq {changed : Option Bool}
    (outcome : Outcome job id s replays (.ok changed, after)) : replays = changed.isSome := by
  cases outcome <;> rfl

theorem outcome_of_visit {changed : Option Bool} (visited : visit job id s = (.ok changed, after)) :
    Outcome job id s changed.isSome (.ok changed, after) := by
  obtain ⟨replays, outcome⟩ := exists_outcome job id s
  rw [visited] at outcome
  rwa [← outcome.replays_eq]

end Outcome

structure Turn where
  block : Nat
  replays : Bool
  deriving DecidableEq, Repr

def replaysOf (turns : List Turn) : List Nat := (turns.filter (·.replays)).map (·.block)

theorem replaysOf_append (turns more : List Turn) :
    replaysOf (turns ++ more) = replaysOf turns ++ replaysOf more := by
  simp [replaysOf]

def next? (worklist : List Nat) (s : Build) : Option (Nat × List Nat) :=
  match worklist with
  | id :: rest => some (id, rest)
  | [] => (unvisited? s.sites).map (·, [])

inductive Run (job : Job) :
    List Nat → Nat → Build → List Turn → Except ReplayError Nat × Build → Prop
  | done {worklist : List Nat} {count : Nat} {s : Build} (none : next? worklist s = none) :
      Run job worklist count s [] (.ok count, s)
  | fail {worklist rest : List Nat} {id count : Nat} {s after : Build} {replays : Bool}
      {e : ReplayError} (next : next? worklist s = some (id, rest))
      (outcome : Outcome job id s replays (.error e, after)) :
      Run job worklist count s [⟨id, replays⟩] (.error e, after)
  | go {worklist rest : List Nat} {id count : Nat} {s after : Build} {replays : Bool}
      {changed : Option Bool} {turns : List Turn} {result : Except ReplayError Nat × Build}
      (next : next? worklist s = some (id, rest))
      (outcome : Outcome job id s replays (.ok changed, after))
      (run : Run job (waiting job.graph id rest changed) (count + replays.toNat) after turns
        result) :
      Run job worklist count s (⟨id, replays⟩ :: turns) result

theorem next?_of_unvisited {s : Build} {id : Nat} (found : unvisited? s.sites = some id) :
    next? [] s = some (id, []) := by
  rw [next?, found, Option.map_some]

theorem not_current_of_unvisited {job : Job} {id : Nat} {s after : Build}
    (found : unvisited? s.sites = some id) : visit job id s ≠ (.ok none, after) := by
  intro visited
  obtain ⟨site, located, unseen⟩ := exists_of_unvisited? found
  have seen := (visit_none visited).2 site located
  simp [unseen] at seen

theorem exists_run (job : Job) (worklist : List Nat) (count : Nat) (s : Build) :
    ∃ turns, Run job worklist count s turns (search job worklist count s) := by
  fun_induction search job worklist count s with
  | case1 count s id rest e after visited =>
      obtain ⟨replays, outcome⟩ := exists_outcome job id s
      rw [visited] at outcome
      exact ⟨_, .fail rfl outcome⟩
  | case2 count s id rest after visited ih =>
      obtain ⟨turns, run⟩ := ih
      exact ⟨_, .go rfl (outcome_of_visit visited) run⟩
  | case3 count s id rest changed after visited next ih =>
      obtain ⟨turns, run⟩ := ih
      cases changed <;> exact ⟨_, .go rfl (outcome_of_visit visited) run⟩
  | case4 count s seen => exact ⟨_, .done (by rw [next?, seen, Option.map_none])⟩
  | case5 count s id found e after visited =>
      obtain ⟨replays, outcome⟩ := exists_outcome job id s
      rw [visited] at outcome
      exact ⟨_, .fail (next?_of_unvisited found) outcome⟩
  | case6 count s id found after visited => exact absurd visited (not_current_of_unvisited found)
  | case7 count s id found changed after visited next ih =>
      obtain ⟨turns, run⟩ := ih
      have first := next?_of_unvisited found
      cases changed <;> exact ⟨_, .go first (outcome_of_visit visited) run⟩

theorem search_next {worklist rest : List Nat} {id : Nat} {s : Build} (job : Job) (count : Nat)
    (next : next? worklist s = some (id, rest)) :
    search job worklist count s =
      match visit job id s with
      | (.error e, after) => (.error e, after)
      | (.ok changed, after) =>
        search job (waiting job.graph id rest changed) (count + changed.isSome.toNat) after := by
  cases worklist with
  | nil =>
      obtain ⟨first, found, same⟩ := Option.map_eq_some_iff.mp next
      cases same
      rw [search_nil, found]
      dsimp only
      split
      · rename_i visited
        rw [visited]
      · rename_i visited
        exact absurd visited (not_current_of_unvisited found)
      · rename_i visited
        rw [visited]
        rfl
  | cons first rest =>
      cases next
      rw [search_cons]
      split <;> rename_i visited <;> rw [visited] <;> rfl

section Run

variable {job : Job} {worklist : List Nat} {count : Nat} {s : Build} {turns : List Turn}
  {result : Except ReplayError Nat × Build}

theorem Run.eq_search (run : Run job worklist count s turns result) :
    result = search job worklist count s := by
  induction run with
  | @done worklist count s none =>
      cases worklist with
      | nil => rw [search_nil, Option.map_eq_none_iff.mp none]
      | cons id rest => cases none
  | fail next outcome => rw [search_next _ _ next, outcome.visit_eq]
  | go next outcome run ih =>
      rw [search_next _ _ next, outcome.visit_eq, ih, outcome.replays_eq]

end Run

def visitsOf (sites : List Site) (b : Nat) : Nat := (sites[b]?.map (·.visits)).getD 0

structure Accounts (job : Job) (s : Build) (turns : List Turn) (after : Build) : Prop where
  blocks : after.sites.map (·.block) = s.sites.map (·.block)
  visits : ∀ b, visitsOf after.sites b = visitsOf s.sites b + (replaysOf turns).count b
  located : ∀ b ∈ replaysOf turns, b < s.sites.length
  allowed : ∀ b, visitsOf s.sites b ≤ job.maxVisits → visitsOf after.sites b ≤ job.maxVisits

namespace Accounts

variable {job : Job} {s between after : Build} {turns more : List Turn}

theorem of_idle (idle : replaysOf turns = []) : Accounts job s turns s := by
  refine ⟨rfl, ?_, ?_, fun _ => id⟩ <;> simp [idle]

theorem trans (first : Accounts job s turns between) (second : Accounts job between more after) :
    Accounts job s (turns ++ more) after where
  blocks := second.blocks.trans first.blocks
  visits b := by
    rw [second.visits, first.visits, replaysOf_append, List.count_append, Nat.add_assoc]
  located b member := by
    have same : between.sites.length = s.sites.length := by
      simpa using congrArg List.length first.blocks
    rw [replaysOf_append, List.mem_append] at member
    rcases member with early | late
    · exact first.located b early
    · exact same ▸ second.located b late
  allowed b within := second.allowed b (first.allowed b within)

theorem count_replaysOf_single (id b : Nat) (replays : Bool) :
    (replaysOf [⟨id, replays⟩]).count b = if id = b then replays.toNat else 0 := by
  cases replays <;> simp [replaysOf, List.count_singleton, beq_iff_eq]

theorem replace {id : Nat} {site new : Site} {replays : Bool} (located : s.sites[id]? = some site)
    (sites : after.sites = s.sites.set id new) (block : new.block = site.block)
    (visits : new.visits = site.visits + replays.toNat)
    (allowed : replays = true → site.visits < job.maxVisits) :
    Accounts job s [⟨id, replays⟩] after := by
  obtain ⟨inside, here⟩ := List.getElem?_eq_some_iff.mp located
  have moved : ∀ b, visitsOf after.sites b =
      visitsOf s.sites b + if id = b then replays.toNat else 0 := by
    intro b
    rw [visitsOf, sites, List.getElem?_set]
    by_cases same : id = b
    · subst same
      simp [visitsOf, inside, here, visits]
    · simp [same, visitsOf]
  constructor
  · rw [sites, set_blocks located block]
  · intro b
    rw [moved, count_replaysOf_single]
  · intro b member
    have counted := List.count_pos_iff.mpr member
    rw [count_replaysOf_single] at counted
    split at counted
    · rename_i same
      exact same ▸ inside
    · omega
  · intro b within
    rw [moved]
    split
    · rename_i same
      subst same
      have current : visitsOf s.sites id = site.visits := by simp [visitsOf, inside, here]
      cases replays with
      | false => exact within
      | true => exact current ▸ allowed rfl
    · exact within

theorem of_outcome {id : Nat} {replays : Bool} {r : Except ReplayError (Option Bool)}
    (outcome : Outcome job id s replays (r, after)) : Accounts job s [⟨id, replays⟩] after := by
  cases outcome with
  | absent | mismatched => exact of_idle rfl
  | current located | exhausted located => exact replace located rfl rfl rfl (by simp)
  | failed located computed stale allowed | replayed located computed stale allowed =>
      exact replace located rfl rfl rfl fun _ => allowed

theorem of_run {worklist : List Nat} {count : Nat} {result : Except ReplayError Nat × Build}
    (run : Run job worklist count s turns result) : Accounts job s turns result.2 := by
  induction run with
  | done none => exact of_idle rfl
  | fail next outcome => exact of_outcome outcome
  | go next outcome run ih => exact (of_outcome outcome).trans ih

end Accounts

theorem length_foldl_unless_le (items found : List Nat) :
    (items.foldl (fun seen b => if b ∈ seen then seen else seen ++ [b]) found).length ≤
      found.length + items.length := by
  induction items generalizing found with
  | nil => simp
  | cons b items ih =>
      rw [List.foldl_cons]
      split
      · have := ih found
        simp only [List.length_cons]
        omega
      · have := ih (found ++ [b])
        simp only [List.length_cons, List.length_append, List.length_nil] at this ⊢
        omega

theorem length_waiting_le (g : Graph) (id : Nat) (rest : List Nat) (changed : Option Bool) :
    (waiting g id rest changed).length ≤
      rest.length + changed.isSome.toNat * (g.successors id).length := by
  cases changed with
  | none => simp [waiting]
  | some changed =>
      cases changed with
      | false => simp [waiting]
      | true => simpa [waiting, enqueue] using length_foldl_unless_le (g.successors id) rest

theorem length_rest_le {job : Job} {worklist rest : List Nat} {id : Nat} {s after : Build}
    {replays : Bool} {changed : Option Bool} (next : next? worklist s = some (id, rest))
    (outcome : Outcome job id s replays (.ok changed, after)) :
    rest.length + 1 ≤ worklist.length + replays.toNat := by
  -- A turn takes a block from the worklist, or it replays a block that was not on it.
  cases worklist with
  | nil =>
      obtain ⟨first, found, same⟩ := Option.map_eq_some_iff.mp next
      cases same
      rw [outcome.replays_eq]
      cases changed with
      | none => exact absurd outcome.visit_eq (not_current_of_unvisited found)
      | some changed => exact Nat.le_refl _
  | cons first rest =>
      cases next
      exact Nat.le_add_right ..

theorem Outcome.diverged {job : Job} {id : Nat} {s after : Build} {replays : Bool}
    {entry visits : Nat}
    (outcome : Outcome job id s replays (.error (.diverged entry visits), after)) :
    job.maxVisits ≤ visits ∧
      ∃ site, after.sites[id]? = some site ∧ site.block.entry = entry ∧ site.visits = visits := by
  cases outcome with
  | mismatched located failed =>
      unfold candidate at failed
      dsimp only at failed
      split at failed
      · cases failed
      · split at failed <;> cases failed
  | exhausted located computed stale spent =>
      have inside := (List.getElem?_eq_some_iff.mp located).1
      exact ⟨spent, _, List.getElem?_set_self inside, rfl, rfl⟩
  | failed located computed stale allowed ran =>
      exact (Replay.replayBlock_ne_diverged _ _ _ _ _ entry visits (congrArg Prod.fst ran)).elim

namespace Run

variable {job : Job} {worklist : List Nat} {count : Nat} {s : Build} {turns : List Turn}
  {result : Except ReplayError Nat × Build}

theorem count_eq (run : Run job worklist count s turns result) {n : Nat}
    (ended : result.1 = .ok n) : n = count + (replaysOf turns).length := by
  induction run with
  | done none =>
      cases ended
      rfl
  | fail next outcome => cases ended
  | @go worklist rest id count s after replays changed turns result next outcome run ih =>
      rw [ih ended]
      cases replays <;> simp [replaysOf]
      omega

theorem length_le (run : Run job worklist count s turns result) :
    turns.length ≤ worklist.length +
      ((replaysOf turns).map fun b => (job.graph.successors b).length + 1).sum + 1 := by
  induction run with
  | done none => simp
  | fail next outcome => simp
  | @go worklist rest id count s after replays changed turns result next outcome run ih =>
      have left := length_rest_le next outcome
      have added := length_waiting_le job.graph id rest changed
      rw [← outcome.replays_eq] at added
      cases replays with
      | false =>
          simp only [Bool.toNat_false, Nat.zero_mul] at left added
          simp only [List.length_cons, replaysOf, List.filter_cons] at ih ⊢
          simp only [Bool.false_eq_true, if_false]
          omega
      | true =>
          simp only [Bool.toNat_true, Nat.one_mul] at left added
          simp only [List.length_cons, replaysOf, List.filter_cons, if_true, List.map_cons,
            List.sum_cons] at ih ⊢
          omega

theorem diverged (run : Run job worklist count s turns result) {entry visits : Nat}
    (ended : result.1 = .error (.diverged entry visits)) :
    job.maxVisits ≤ visits ∧ ∃ (b : Nat) (site : Site), result.2.sites[b]? = some site ∧
      site.block.entry = entry ∧ site.visits = visits := by
  induction run with
  | done none => cases ended
  | fail next outcome =>
      cases ended
      obtain ⟨spent, named⟩ := outcome.diverged
      exact ⟨spent, _, named⟩
  | go next outcome run ih => exact ih ended

end Run

theorem sum_map_le_mul_sum {l : List Nat} {visits length : Nat} (weight : Nat → Nat)
    (counted : ∀ b, l.count b ≤ visits) (below : ∀ b ∈ l, b < length) :
    (l.map weight).sum ≤ visits * ∑ b ∈ Finset.range length, weight b := by
  have inside : l.toFinset ⊆ Finset.range length := by
    intro b member
    exact Finset.mem_range.mpr (below b (List.mem_toFinset.mp member))
  calc (l.map weight).sum
      = ∑ b ∈ l.toFinset, l.count b * weight b := by
        simp only [Finset.sum_list_map_count, smul_eq_mul]
    _ ≤ ∑ b ∈ l.toFinset, visits * weight b :=
        Finset.sum_le_sum fun b _ => Nat.mul_le_mul_right _ (counted b)
    _ ≤ ∑ b ∈ Finset.range length, visits * weight b := Finset.sum_le_sum_of_subset inside
    _ = visits * ∑ b ∈ Finset.range length, weight b := (Finset.mul_sum ..).symm

/-- The turns that a search from the roots takes. -/
def Converges (job : Job) (s : Build) (turns : List Turn)
    (result : Except ReplayError Nat × Build) : Prop :=
  Run job (distinct (job.graph.roots.map (·.1))) 0 s turns result

theorem visitsOf_start (g : Graph) (vars : Variables) (b : Nat) :
    visitsOf (start g vars).sites b = 0 := by
  cases found : g.blocks[b]? <;> simp [visitsOf, start, found]

theorem blocks_start (g : Graph) (vars : Variables) :
    (start g vars).sites.map (·.block) = g.blocks := by
  simp [start, Function.comp_def]

/-- A search from the roots takes a number of turns that is bounded by the roots, the edges and the
visits that are allowed. In them no block is replayed more often than allowed, and the result counts
the replays. A search gives up only on a block that was replayed as often as is allowed. -/
theorem converge_bounded (job : Job) (vars : Variables) (queries : List Query) :
    (∃ turns, Converges job { start job.graph vars with queries } turns
      (converge job { start job.graph vars with queries })) ∧
    ∀ turns result, Converges job { start job.graph vars with queries } turns result →
      result = converge job { start job.graph vars with queries } ∧
      turns.length ≤ job.graph.roots.length + job.maxVisits *
        ∑ b ∈ Finset.range job.graph.blocks.length, ((job.graph.successors b).length + 1) + 1 ∧
      (∀ b, (replaysOf turns).count b ≤ job.maxVisits) ∧
      (∀ n, result.1 = .ok n →
        n = (replaysOf turns).length ∧ n ≤ job.graph.blocks.length * job.maxVisits) ∧
      ∀ entry visits, result.1 = .error (.diverged entry visits) → visits = job.maxVisits ∧
        ∃ b block, job.graph.blocks[b]? = some block ∧ block.entry = entry ∧
          (replaysOf turns).count b = job.maxVisits := by
  refine ⟨exists_run .., fun turns result run => ?_⟩
  have accounts := Accounts.of_run run
  have visits : ∀ b, visitsOf result.2.sites b = (replaysOf turns).count b := by
    intro b
    rw [accounts.visits, visitsOf_start, Nat.zero_add]
  have counted : ∀ b, (replaysOf turns).count b ≤ job.maxVisits := by
    intro b
    rw [← visits]
    exact accounts.allowed b ((visitsOf_start job.graph vars b).trans_le (Nat.zero_le _))
  have below : ∀ b ∈ replaysOf turns, b < job.graph.blocks.length := by
    intro b member
    simpa [start] using accounts.located b member
  refine ⟨run.eq_search, ?_, counted, fun n ended => ?_, fun entry visits' ended => ?_⟩
  · have roots := length_foldl_unless_le (job.graph.roots.map (·.1)) []
    have turned := run.length_le
    have replayed := sum_map_le_mul_sum (fun b => (job.graph.successors b).length + 1) counted below
    simp only [distinct, List.length_map, List.length_nil, Nat.zero_add] at roots turned
    omega
  · have total := sum_map_le_mul_sum (fun _ => 1) counted below
    have same := run.count_eq ended
    simp at total
    rw [Nat.mul_comm]
    omega
  · obtain ⟨spent, b, site, located, named, reached⟩ := run.diverged ended
    have count : (replaysOf turns).count b = visits' := by
      rw [← visits, ← reached]
      simp [visitsOf, located]
    have exact : visits' = job.maxVisits := Nat.le_antisymm (count ▸ counted b) spent
    refine ⟨exact, b, site.block, ?_, named, count.trans exact⟩
    rw [← blocks_start job.graph vars, ← accounts.blocks, List.getElem?_map, located]
    rfl

def growing (maxVisits : Nat) : Job where
  cx := .blank
  listing := [⟨0, 0, 1, .ret, .none⟩, ⟨1, 1, 1, .ldcI4_0, .none⟩, ⟨2, 2, 2, .brS, .target 1⟩]
  graph := { blocks := [⟨0, 0, [], [], none⟩, ⟨1, 2, [1], [1], none⟩], roots := [(0, .entry)] }
  maxVisits

example : (converge (growing 3) (start (growing 3).graph {})).1 = .error (.diverged 1 3) :=
  converge_of_searchWithin 8 (f := Prod.fst) (by decide +kernel)

end Build
end Destack
