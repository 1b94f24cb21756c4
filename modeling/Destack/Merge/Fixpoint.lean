import Destack.Merge.Moves
import Destack.Replay.Block

/-!
# Agreement of stacks

All blocks of a method are replayed until each is entered with the stack that the blocks before
it leave. Where these leave different values in a slot, the slot becomes a merge variable. A block
has at most one merge variable for each slot; once there it stays, and only its type may still
widen.

Every replay of a block uses up one of the visits that it is allowed, so the search ends: the
visits left, and with them equal the length of the worklist, get smaller with each step.
-/

namespace Destack

structure Site where
  block : Block
  entry : Option (List Value) := none
  merges : List (Option Nat) := []
  output : Option BlockOutput := none
  temps : List Nat := []
  visits : Nat := 0
  deriving DecidableEq, Repr

structure Build where
  vars : Variables
  sites : List Site
  queries : List Query := []

structure Job where
  cx : Context
  listing : Listing
  graph : Graph
  maxVisits : Nat

namespace Build

def start (g : Graph) (vars : Variables) : Build := ⟨vars, g.blocks.map fun block => { block }, []⟩

def exitStack? (sites : List Site) (block : Nat) : Option (List Value) :=
  (sites[block]?.bind (·.output)).map (·.exitStack)

def incoming (g : Graph) (sites : List Site) (id : Nat) (b : Block) : List (List Value) :=
  (if (g.rootKind? id).isSome then [[]] else []) ++ b.predecessors.filterMap (exitStack? sites)

structure Slot where
  value : Value
  merge : Option Nat
  vars : Variables
  widened : Bool

def mergeSlot (vars : Variables) (merge : Option Nat) (values : List Value) : Slot :=
  match merge, values with
  | some m, values =>
    let current := vars.typeOf (.merge m)
    let others := values.filter (· != .merge m)
    let t := others.foldl (fun t v => t.join (vars.typeOf v)) current
    ⟨.merge m, some m, vars.setMerge m t, t != current⟩
  | none, [] => ⟨.const (.null .null), none, vars, false⟩
  | none, first :: rest =>
    if rest.all (· = first) then ⟨first, none, vars, false⟩
    else
      let t := rest.foldl (fun t v => t.join (vars.typeOf v)) (vars.typeOf first)
      let (m, vars) := vars.newMerge t
      ⟨.merge m, some m, vars, false⟩

structure Candidate where
  entry : List Value
  merges : List (Option Nat)
  vars : Variables
  widened : Bool

def mergeSlots (vars : Variables) : List (Option Nat) → List (List Value) → Candidate
  | merges, [] => ⟨[], merges, vars, false⟩
  | merges, values :: columns =>
    let slot := mergeSlot vars merges.head?.join values
    let rest := mergeSlots slot.vars merges.tail columns
    ⟨slot.value :: rest.entry, slot.merge :: rest.merges, rest.vars, slot.widened || rest.widened⟩

def columns (depth : Nat) (entries : List (List Value)) : List (List Value) :=
  (List.range depth).map fun slot => entries.filterMap (·[slot]?)

def candidate (g : Graph) (s : Build) (id : Nat) (site : Site) :
    Except ReplayError Candidate :=
  let entries := incoming g s.sites id site.block
  match entries with
  | [] => .ok ⟨[], site.merges, s.vars, false⟩
  | first :: _ =>
    match entries.find? fun stack => stack.length ≠ first.length with
    | some bad => .error (.stackMismatch site.block.entry first.length bad.length)
    | none => .ok (mergeSlots s.vars site.merges (columns first.length entries))

def exitChanged (before : Option BlockOutput) (after : BlockOutput) : Bool :=
  match before with
  | none => true
  | some old => old.exitStack != after.exitStack || old.exitTypes != after.exitTypes

end Build

namespace Site

def upToDate (site : Site) (c : Build.Candidate) : Bool :=
  site.output.isSome && !c.widened && site.entry = some c.entry

def settled (site : Site) (c : Build.Candidate) : Site := { site with merges := c.merges }

def attempted (site : Site) (c : Build.Candidate) (temps : List Nat) : Site :=
  { site with merges := c.merges, temps, visits := site.visits + 1 }

def replayed (site : Site) (c : Build.Candidate) (temps : List Nat) (output : BlockOutput) :
    Site :=
  { site.attempted c temps with entry := some c.entry, output := some output }

end Site

namespace Build

/-- Replays a block unless it is up to date. Gives nothing if it is, and otherwise whether the
stack that it leaves has changed. -/
def visit (job : Job) (id : Nat) (s : Build) : Except ReplayError (Option Bool) × Build :=
  match s.sites[id]? with
  | none => (.ok none, s)
  | some site =>
    match candidate job.graph s id site with
    | .error e => (.error e, s)
    | .ok c =>
      if site.upToDate c then
        (.ok none, { s with vars := c.vars, sites := s.sites.set id (site.settled c) })
      else if job.maxVisits ≤ site.visits then
        (.error (.diverged site.block.entry site.visits),
          { s with vars := c.vars, sites := s.sites.set id (site.settled c) })
      else
        match replayBlock job.cx job.listing site.block c.entry
          ⟨c.vars, site.temps, s.queries⟩ with
        | (.error e, shared) =>
          (.error e,
            ⟨shared.vars, s.sites.set id (site.attempted c shared.temps), shared.queries⟩)
        | (.ok output, shared) =>
          (.ok (some (exitChanged site.output output)),
            ⟨shared.vars, s.sites.set id (site.replayed c shared.temps output), shared.queries⟩)

def budget (maxVisits : Nat) (sites : List Site) : Nat :=
  sites.foldr (fun site rest => maxVisits - site.visits + rest) 0

theorem budget_set (maxVisits : Nat) {id : Nat} {sites : List Site} {site : Site} (new : Site)
    (located : sites[id]? = some site) :
    budget maxVisits (sites.set id new) + (maxVisits - site.visits) =
      budget maxVisits sites + (maxVisits - new.visits) := by
  induction sites generalizing id with
  | nil => simp at located
  | cons head tail ih =>
      cases id with
      | zero =>
          simp only [List.getElem?_cons_zero, Option.some.injEq] at located
          subst located
          simp [budget]
          omega
      | succ id =>
          have step := ih (by simpa using located)
          simp only [budget, List.set_cons_succ, List.foldr_cons] at step ⊢
          omega

theorem visit_none {job : Job} {id : Nat} {s after : Build}
    (visited : visit job id s = (.ok none, after)) :
    budget job.maxVisits after.sites = budget job.maxVisits s.sites ∧
      ∀ site, s.sites[id]? = some site → site.output.isSome := by
  unfold visit at visited
  split at visited
  · rename_i missing
    cases visited
    exact ⟨rfl, by simp [missing]⟩
  · rename_i site located
    split at visited
    · simp at visited
    · rename_i c _
      split at visited
      · rename_i upToDate
        cases visited
        refine ⟨?_, ?_⟩
        · have same := budget_set job.maxVisits (site.settled c) located
          simp only [Site.settled] at same ⊢
          omega
        · intro other found
          rw [located] at found
          cases found
          simp only [Site.upToDate, Bool.and_eq_true] at upToDate
          exact upToDate.1.1
      · split at visited
        · simp at visited
        · split at visited <;> simp at visited

theorem visit_some {job : Job} {id : Nat} {s after : Build} {changed : Bool}
    (visited : visit job id s = (.ok (some changed), after)) :
    budget job.maxVisits after.sites < budget job.maxVisits s.sites := by
  unfold visit at visited
  split at visited
  · simp at visited
  · rename_i site located
    split at visited
    · simp at visited
    · rename_i c _
      split at visited
      · simp at visited
      · split at visited
        · simp at visited
        · rename_i allowed
          split at visited
          · simp at visited
          · rename_i output shared _
            cases visited
            have fewer := budget_set job.maxVisits (site.replayed c shared.temps output) located
            simp only [Site.replayed, Site.attempted] at fewer ⊢
            omega

def enqueue (worklist blocks : List Nat) : List Nat :=
  blocks.foldl (fun waiting b => if b ∈ waiting then waiting else waiting ++ [b]) worklist

def unvisited? (sites : List Site) : Option Nat :=
  sites.findIdx? fun site => site.output.isNone

/-- Visits the blocks of a worklist, and the blocks after those whose exit stacks change, until
nothing is left to do. Blocks that control does not reach come last. Gives the number of
replays, counted from `count`. -/
def search (job : Job) (worklist : List Nat) (count : Nat) (s : Build) :
    Except ReplayError Nat × Build :=
  match worklist with
  | id :: rest =>
    match visited : visit job id s with
    | (.error e, s) => (.error e, s)
    | (.ok none, after) => search job rest count after
    | (.ok (some changed), after) =>
      let waiting := if changed then enqueue rest (job.graph.successors id) else rest
      search job waiting (count + 1) after
  | [] =>
    match unvisited? s.sites with
    | none => (.ok count, s)
    | some id =>
      match visited : visit job id s with
      | (.error e, s) => (.error e, s)
      | (.ok none, after) => (.ok count, after)
      | (.ok (some changed), after) =>
        let waiting := if changed then enqueue [] (job.graph.successors id) else []
        search job waiting (count + 1) after
termination_by (budget job.maxVisits s.sites, worklist.length)
decreasing_by
  · have := visit_none visited
    simp_wf
    rw [this.1]
    apply Prod.Lex.right
    omega
  · exact Prod.Lex.left _ _ (visit_some visited)
  · exact Prod.Lex.left _ _ (visit_some visited)

def converge (job : Job) (s : Build) : Except ReplayError Nat × Build :=
  search job (distinct (job.graph.roots.map (·.1))) 0 s

end Build
end Destack
