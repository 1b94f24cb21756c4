import Destack.Proofs.Merge.Agreement

/-!
# Checking a finished search again

At the end of a search, the entry stack of every block can be computed again from the stacks of
the blocks before it: it comes out the same, with the same merge variables. A block that is then
replayed again gives the same statements, provided that the values on its entry stack still have
the types that they had when it was last replayed. For declared variables, constants and the
block's own merge variables they have. A value that another block hands on may have got a wider
type since: the search compares entry stacks by their values, so it does not notice.
-/

namespace Destack
namespace Build

open Replay

structure Record (job : Job) (s : Build) (site : Site) (entry : List Value)
    (output : BlockOutput) (seen : Shared) : Prop where
  entered : site.entry = some entry
  ran : ∃ left, replayBlock job.cx job.listing site.block entry seen = (.ok output, left) ∧
    left.temps = site.temps
  allocated : Allocated seen.vars seen.temps
  locals : seen.vars.locals = s.vars.locals
  params : seen.vars.params = s.vars.params
  merges : ∀ m, some m ∈ site.merges →
    seen.vars.typeOf (.merge m) = s.vars.typeOf (.merge m)

def Bounded (vars : Variables) (values : List Value) : Prop :=
  ∀ m, .merge m ∈ values → m < vars.merges.length

structure Recorded (job : Job) (s : Build) : Prop where
  owned : Owned s
  allocated : ∀ {b : Nat} {site : Site}, s.sites[b]? = some site → Allocated s.vars site.temps
  entries : ∀ {b : Nat} {site : Site} {entry : List Value}, s.sites[b]? = some site →
    site.entry = some entry → Bounded s.vars entry
  exits : ∀ {b : Nat} {site : Site} {output : BlockOutput}, s.sites[b]? = some site →
    site.output = some output → Bounded s.vars output.exitStack
  records : ∀ {b : Nat} {site : Site} {output : BlockOutput}, s.sites[b]? = some site →
    site.output = some output → ∃ entry seen, Record job s site entry output seen

theorem recorded_start (job : Job) (g : Graph) (vars : Variables) :
    Recorded job (start g vars) := by
  have blank : ∀ {b : Nat} {site : Site}, (start g vars).sites[b]? = some site →
      ∃ block, site = { block } := by
    intro b site located
    simp only [start, List.getElem?_map, Option.map_eq_some_iff] at located
    obtain ⟨block, -, rfl⟩ := located
    exact ⟨block, rfl⟩
  refine ⟨owned_start g vars, ?_, ?_, ?_, ?_⟩
  · intro b site located
    obtain ⟨block, rfl⟩ := blank located
    exact fun id member => absurd member List.not_mem_nil
  · intro b site entry located entered
    obtain ⟨block, rfl⟩ := blank located
    cases entered
  · intro b site output located replayed
    obtain ⟨block, rfl⟩ := blank located
    cases replayed
  · intro b site output located replayed
    obtain ⟨block, rfl⟩ := blank located
    cases replayed

section

variable {job : Job} {id : Nat} {s after : Build} {site new : Site} {c : Candidate}

theorem Bounded.mono {a b : Variables} {values : List Value} (bounded : Bounded a values)
    (longer : a.merges.length ≤ b.merges.length) : Bounded b values :=
  fun m member => Nat.lt_of_lt_of_le (bounded m member) longer

theorem Touched.longer (touched : Touched job id s after site new c) :
    s.vars.merges.length ≤ after.vars.merges.length := by
  rw [touched.merged]
  exact touched.extended.merges

theorem Touched.allocated (touched : Touched job id s after site new c) {temps : List Nat}
    (allocated : Allocated s.vars temps) : Allocated after.vars temps := by
  intro id member
  have before := allocated id member
  have longer := touched.temps
  rw [touched.extended.temps] at longer
  exact Nat.lt_of_lt_of_le before longer

theorem Touched.here (touched : Touched job id s after site new c) :
    after.sites[id]? = some new := by
  rw [touched.sites]
  exact List.getElem?_set_self (List.getElem?_eq_some_iff.mp touched.located).1

theorem Touched.elsewhere (touched : Touched job id s after site new c) {b : Nat} (other : b ≠ id) :
    after.sites[b]? = s.sites[b]? := by
  rw [touched.sites]
  exact List.getElem?_set_ne (Ne.symm other)

theorem Touched.typeOf_merge (touched : Touched job id s after site new c) (m : Nat) :
    after.vars.typeOf (.merge m) = c.vars.typeOf (.merge m) := by
  simp only [Variables.typeOf, touched.merged]

theorem Touched.typeOf (touched : Touched job id s after site new c) (owned : Owned after)
    {b slot m : Nat} (other : b ≠ id) (owns : Owns after.sites b slot m) :
    after.vars.typeOf (.merge m) = s.vars.typeOf (.merge m) := by
  have foreign : some m ∉ c.merges := by
    intro member
    obtain ⟨slot', located⟩ := List.mem_iff_getElem?.mp member
    rw [← touched.merges] at located
    exact other (owned.unique owns ⟨new, touched.here, located⟩).1
  rw [touched.typeOf_merge]
  obtain ⟨columns, rfl⟩ := candidate_mergeSlots touched.computed
  refine mergeSlots_typeOf fun n same => ?_
  cases same
  exact foreign

theorem Recorded.bounded_incoming (recorded : Recorded job s) {g : Graph} {b : Block}
    {stack : List Value} (arrives : stack ∈ incoming g s.sites id b) : Bounded s.vars stack := by
  rcases List.mem_append.mp arrives with root | edge
  · have empty : stack = [] := by
      split_ifs at root
      · exact List.mem_singleton.mp root
      · cases root
    rw [empty]
    exact fun m member => absurd member List.not_mem_nil
  · obtain ⟨p, -, leaves⟩ := List.mem_filterMap.mp edge
    obtain ⟨output, replayed, rfl⟩ := Option.map_eq_some_iff.mp leaves
    obtain ⟨before, located, replayed⟩ := Option.bind_eq_some_iff.mp replayed
    exact recorded.exits located replayed

theorem Touched.bounded_entry (touched : Touched job id s after site new c)
    (recorded : Recorded job s) (owned : Owned after) : Bounded after.vars c.entry := by
  intro m member
  have fits := candidate_fits touched.computed
  obtain ⟨slot, located⟩ := List.mem_iff_getElem?.mp member
  rcases fits.slot located with ⟨n, merge, same⟩ | arrive
  · cases same
    rw [← touched.merges] at merge
    exact owned.bounded ⟨new, touched.here, merge⟩
  · have enter : incoming job.graph s.sites id site.block ≠ [] := fun none => by
      simp [fits.empty none] at located
    obtain ⟨stack, arrives⟩ := List.exists_mem_of_ne_nil _ enter
    have held := List.mem_of_getElem? (arrive stack arrives)
    exact (recorded.bounded_incoming arrives).mono touched.longer m held

theorem Record.elsewhere {b : Nat} {old : Site} {entry : List Value} {output : BlockOutput}
    {seen : Shared} (record : Record job s old entry output seen)
    (touched : Touched job id s after site new c) (owned : Owned after) (other : b ≠ id)
    (located : s.sites[b]? = some old) : Record job after old entry output seen where
  entered := record.entered
  ran := record.ran
  allocated := record.allocated
  locals := by rw [record.locals, touched.locals, touched.extended.locals]
  params := by rw [record.params, touched.params, touched.extended.params]
  merges m member := by
    obtain ⟨slot, merge⟩ := List.mem_iff_getElem?.mp member
    rw [record.merges m member]
    exact (touched.typeOf owned other ⟨old, touched.elsewhere other ▸ located, merge⟩).symm

theorem Recorded.replace (recorded : Recorded job s) (touched : Touched job id s after site new c)
    (owned : Owned after) (temps : Allocated after.vars new.temps)
    (entered : ∀ entry, new.entry = some entry → Bounded after.vars entry)
    (leaves : ∀ output, new.output = some output → Bounded after.vars output.exitStack)
    (record : ∀ output, new.output = some output →
      ∃ entry seen, Record job after new entry output seen) : Recorded job after := by
  have cases : ∀ {b : Nat} {found : Site}, after.sites[b]? = some found →
      found = new ∨ b ≠ id ∧ s.sites[b]? = some found := by
    intro b found located
    by_cases here : b = id
    · rw [here, touched.here] at located
      exact .inl (Option.some.inj located).symm
    · exact .inr ⟨here, touched.elsewhere here ▸ located⟩
  refine ⟨owned, ?_, ?_, ?_, ?_⟩
  · intro b found located
    rcases cases located with rfl | ⟨-, before⟩
    · exact temps
    · exact touched.allocated (recorded.allocated before)
  · intro b found entry located same
    rcases cases located with rfl | ⟨-, before⟩
    · exact entered entry same
    · exact (recorded.entries before same).mono touched.longer
  · intro b found output located same
    rcases cases located with rfl | ⟨-, before⟩
    · exact leaves output same
    · exact (recorded.exits before same).mono touched.longer
  · intro b found output located same
    rcases cases located with rfl | ⟨other, before⟩
    · exact record output same
    · obtain ⟨entry, seen, old⟩ := recorded.records before same
      exact ⟨entry, seen, old.elsewhere touched owned other before⟩

theorem Recorded.merges_current (recorded : Recorded job s) (located : s.sites[id]? = some site)
    (computed : candidate job.graph s id site = .ok c) (upToDate : site.upToDate c) {m : Nat}
    (member : some m ∈ c.merges) :
    some m ∈ site.merges ∧ c.vars.typeOf (.merge m) = s.vars.typeOf (.merge m) := by
  -- A block that is found up to date has the merge variables that it was replayed with, and they
  -- have kept their types.
  simp only [Site.upToDate, Bool.and_eq_true, Bool.not_eq_true', decide_eq_true_eq] at upToDate
  have touched := touched_current located computed
  obtain ⟨slot, merge⟩ := List.mem_iff_getElem?.mp member
  rcases touched.owns ⟨_, touched.here, merge⟩ with owns | ⟨-, -, fresh, -, held⟩
  · have bounded := recorded.owned.bounded owns
    obtain ⟨found, same, old⟩ := owns
    rw [located] at same
    cases same
    refine ⟨List.mem_of_getElem? old, ?_⟩
    obtain ⟨columns, rfl⟩ := candidate_mergeSlots computed
    exact mergeSlots_typeOf_of_narrow upToDate.1.2 bounded
  · -- A new merge variable would be on the stack, but the stack was recorded before.
    have bounded := recorded.entries located upToDate.2 m (List.mem_of_getElem? held)
    exact absurd bounded (Nat.not_lt_of_le fresh)

theorem Recorded.visited {r : Option Bool} (recorded : Recorded job s)
    (visited : Visited job id s r after) : Recorded job after := by
  have owned := recorded.owned.visited visited
  cases visited with
  | absent missing => exact recorded
  | @current site c located computed upToDate =>
      have touched := touched_current located computed
      have temps : Allocated c.vars site.temps := touched.allocated (recorded.allocated located)
      refine recorded.replace touched owned temps
        (fun entry entered => (recorded.entries located entered).mono touched.longer)
        (fun output replayed => (recorded.exits located replayed).mono touched.longer) ?_
      intro output replayed
      obtain ⟨entry, seen, record⟩ := recorded.records located replayed
      refine ⟨entry, seen, record.entered, record.ran, record.allocated, ?_, ?_, ?_⟩
      · rw [record.locals, touched.extended.locals]
      · rw [record.params, touched.extended.params]
      · intro m member
        obtain ⟨old, same⟩ := recorded.merges_current located computed upToDate member
        exact (record.merges m old).trans same.symm
  | @replayed site c output shared located computed allowed ran =>
      -- The new record is this replay, under the table with the merge variables of its entry.
      have touched := touched_replayed located computed ran
      have allocated : Allocated c.vars site.temps := by
        intro id member
        rw [touched.extended.temps]
        exact recorded.allocated located id member
      have bounded := touched.bounded_entry recorded owned
      obtain ⟨p, grows, rfl⟩ := replayBlock_grows ran
      refine recorded.replace touched owned (grows.allocated allocated) ?_ ?_ ?_
      · intro entry entered
        cases entered
        exact bounded
      · intro output leaves m member
        cases leaves
        rcases replayBlock_held ran allocated _ member with usable | ⟨id, -, same⟩
        · rcases usable with held | fixed
          · exact bounded m held
          · cases fixed
        · cases same
      · intro output leaves
        cases leaves
        refine ⟨c.entry, ⟨c.vars, site.temps, s.queries⟩, rfl, ⟨_, ran, rfl⟩, allocated,
          touched.locals.symm, touched.params.symm, fun m _ => ?_⟩
        exact (touched.typeOf_merge m).symm

end

/-- What is found when a block is checked again. -/
structure Rechecks (job : Job) (s : Build) (id : Nat) (site : Site) : Prop where
  entry : ∃ entry c, site.entry = some entry ∧ candidate job.graph s id site = .ok c ∧
    c.entry = entry ∧ c.merges = site.merges ∧
    c.vars.merges.length = s.vars.merges.length ∧
    (c.widened = false ↔ Absorbs s.vars site.merges
      (columns entry.length (incoming job.graph s.sites id site.block))) ∧
    (c.widened = false → c.vars = s.vars)
  /-- The record is that of a replay, and a replay makes the same again if what other blocks hand
  on has the types that it had. -/
  replay : ∃ entry output, site.entry = some entry ∧ site.output = some output ∧
    (∃ seen, Record job s site entry output seen) ∧
    ∀ seen, Record job s site entry output seen →
      (∀ v ∈ entry, v.isFixed ∨ (∃ m, some m ∈ site.merges ∧ v = .merge m) ∨
        seen.vars.typeOf v = s.vars.typeOf v) →
      ∀ queries, (replayBlock job.cx job.listing site.block entry
        ⟨s.vars, site.temps, queries⟩).1 = .ok output

theorem Record.again {job : Job} {s : Build} {site : Site} {entry : List Value}
    {output : BlockOutput} {seen : Shared} (record : Record job s site entry output seen)
    (allocated : Allocated s.vars site.temps)
    (types : ∀ v ∈ entry, v.isFixed ∨ (∃ m, some m ∈ site.merges ∧ v = .merge m) ∨
      seen.vars.typeOf v = s.vars.typeOf v) (queries : List Query) :
    (replayBlock job.cx job.listing site.block entry ⟨s.vars, site.temps, queries⟩).1 =
      .ok output := by
  obtain ⟨left, ran, temps⟩ := record.ran
  refine replayBlock_again ran (by rw [temps]) record.allocated allocated record.locals.symm
    record.params.symm fun v member => ?_
  rcases types v member with fixed | ⟨m, own, rfl⟩ | same
  · exact Variables.typeOf_of_isFixed fixed record.locals.symm record.params.symm
  · exact (record.merges m own).symm
  · exact same.symm

/-- Every block of a finished search can be checked again. -/
theorem converge_rechecks {job : Job} {scopes : List (Scope Ty)} {vars : Variables}
    {count : Nat} (built : Graph.build job.listing scopes = .ok job.graph)
    (converged : (converge job (start job.graph vars)).1 = .ok count) :
    ∀ id site, (converge job (start job.graph vars)).2.sites[id]? = some site →
      Rechecks job (converge job (start job.graph vars)).2 id site := by
  have linked := Graph.build_linked built
  have ran : converge job (start job.graph vars) =
      (.ok count, (converge job (start job.graph vars)).2) := Prod.ext converged rfl
  obtain ⟨⟨agreed, recorded⟩, seen⟩ :=
    search_invariant (P := fun worklist s => Agreed job.graph worklist s ∧ Recorded job s)
      (fun id rest s r after both visited =>
        ⟨both.1.visited linked visited, both.2.visited visited⟩)
      (fun id s both => ⟨both.1.seed id, both.2⟩)
      ran ⟨agreed_start _ _ _, recorded_start _ _ _⟩
  intro id site located
  have replayed := unvisited?_eq_none.mp seen site (List.mem_of_getElem? located)
  constructor
  · obtain ⟨entry, entered, fits⟩ := agreed.fits id site located List.not_mem_nil replayed
    obtain ⟨c, again⟩ := candidate_again fits
    exact ⟨entry, c, entered, again⟩
  · obtain ⟨output, left⟩ := Option.isSome_iff_exists.mp replayed
    obtain ⟨entry, seen, record⟩ := recorded.records located left
    exact ⟨entry, output, record.entered, left, ⟨seen, record⟩,
      fun _ found => found.again (recorded.allocated located)⟩

theorem relay_last :
    (converge relay (start relay.graph relayVars)).2.vars =
        { relayVars with merges := [.object] } ∧
      (converge relay (start relay.graph relayVars)).2.sites[4]? =
        some
          { block := ⟨6, 8, [3], [3], none⟩
            entry := some [.merge 0]
            merges := [none]
            output := some
              { stmts := [.set (.localVar 0) (.value (.merge 0)), .goto 5]
                exitStack := [.param 3]
                exitTypes := [.object]
                diagnostics := [] }
            temps := []
            visits := 1 } := by
  refine Prod.mk.inj (converge_of_searchWithin 12 (f := fun r => (r.2.vars, r.2.sites[4]?)) ?_)
  decide +kernel

theorem relay_rechecks :
    Graph.build relay.listing [] = .ok relay.graph ∧
      (converge relay (start relay.graph relayVars)).1 = .ok 6 ∧
      ∃ site, (converge relay (start relay.graph relayVars)).2.sites[4]? = some site ∧
        Rechecks relay (converge relay (start relay.graph relayVars)).2 4 site :=
  ⟨relay_built, relay_converged, _, relay_last.2,
    converge_rechecks relay_built relay_converged 4 _ relay_last.2⟩

/-- The block is out of date: replayed again, it converts what it stores. -/
theorem relay_outOfDate :
    ∃ site entry output, (converge relay (start relay.graph relayVars)).2.sites[4]? = some site ∧
      site.entry = some entry ∧ site.output = some output ∧
      output.stmts = [.set (.localVar 0) (.value (.merge 0)), .goto 5] ∧
      (replayBlock relay.cx relay.listing site.block entry
        ⟨(converge relay (start relay.graph relayVars)).2.vars, site.temps, []⟩).1.map (·.stmts) =
        .ok [.set (.localVar 0) (.cast (.merge 0) .string false false), .goto 5] := by
  refine ⟨_, _, _, relay_last.2, rfl, rfl, rfl, ?_⟩
  rw [relay_last.1]
  decide +kernel

end Build
end Destack
