import Destack.Proofs.Merge.Search
import Destack.Proofs.Replay.Faithful

namespace Destack
namespace Build

structure Touched (job : Job) (id : Nat) (s after : Build) (site new : Site) (c : Candidate) :
    Prop where
  located : s.sites[id]? = some site
  computed : candidate job.graph s id site = .ok c
  sites : after.sites = s.sites.set id new
  block : new.block = site.block
  merges : new.merges = c.merges
  locals : after.vars.locals = c.vars.locals
  params : after.vars.params = c.vars.params
  merged : after.vars.merges = c.vars.merges
  temps : c.vars.temps.length ≤ after.vars.temps.length

theorem touched_current {job : Job} {id : Nat} {s : Build} {site : Site} {c : Candidate}
    (located : s.sites[id]? = some site) (computed : candidate job.graph s id site = .ok c) :
    Touched job id s { s with vars := c.vars, sites := s.sites.set id (site.settled c) } site
      (site.settled c) c :=
  ⟨located, computed, rfl, rfl, rfl, rfl, rfl, rfl, le_refl _⟩

theorem touched_replayed {job : Job} {id : Nat} {s : Build} {site : Site} {c : Candidate}
    {output : BlockOutput} {shared : Shared} (located : s.sites[id]? = some site)
    (computed : candidate job.graph s id site = .ok c)
    (ran : replayBlock job.cx job.listing site.block c.entry ⟨c.vars, site.temps, s.queries⟩ =
      (.ok output, shared)) :
    Touched job id s
      ⟨shared.vars, s.sites.set id (site.replayed c shared.temps output), shared.queries⟩ site
      (site.replayed c shared.temps output) c := by
  obtain ⟨p, grows, rfl⟩ := replayBlock_grows ran
  exact ⟨located, computed, rfl, rfl, rfl, grows.locals, grows.params, grows.merges,
    grows.allocation⟩

theorem Visited.touched {job : Job} {id : Nat} {s after : Build} {r : Option Bool}
    (visited : Visited job id s r after) :
    after = s ∨ ∃ site new c, Touched job id s after site new c := by
  cases visited with
  | absent missing => exact .inl rfl
  | current located computed upToDate => exact .inr ⟨_, _, _, touched_current located computed⟩
  | replayed located computed allowed ran =>
      exact .inr ⟨_, _, _, touched_replayed located computed ran⟩

def Owns (sites : List Site) (b slot m : Nat) : Prop :=
  ∃ site, sites[b]? = some site ∧ site.merges[slot]? = some (some m)

structure Owned (s : Build) : Prop where
  unique : ∀ {b b' slot slot' m : Nat}, Owns s.sites b slot m → Owns s.sites b' slot' m →
    b = b' ∧ slot = slot'
  bounded : ∀ {b slot m : Nat}, Owns s.sites b slot m → m < s.vars.merges.length

theorem owns_set {sites : List Site} {id b slot m : Nat} {new : Site}
    (owns : Owns (sites.set id new) b slot m) :
    (b = id ∧ new.merges[slot]? = some (some m)) ∨ (b ≠ id ∧ Owns sites b slot m) := by
  obtain ⟨site, located, merge⟩ := owns
  rw [List.getElem?_set] at located
  split_ifs at located with here bounded
  · cases located
    exact .inl ⟨here.symm, merge⟩
  · exact .inr ⟨Ne.symm here, site, located, merge⟩

theorem Touched.owns {job : Job} {id : Nat} {s after : Build} {site new : Site} {c : Candidate}
    (touched : Touched job id s after site new c) {b slot m : Nat}
    (owns : Owns after.sites b slot m) :
    Owns s.sites b slot m ∨
      b = id ∧ c.merges[slot]? = some (some m) ∧ s.vars.merges.length ≤ m ∧
        m < after.vars.merges.length ∧ c.entry[slot]? = some (.merge m) := by
  rw [touched.sites] at owns
  rcases owns_set owns with ⟨rfl, merge⟩ | ⟨-, before⟩
  · obtain ⟨columns, rfl⟩ := candidate_mergeSlots touched.computed
    rw [touched.merges] at merge
    rcases mergeSlots_source merge with old | ⟨least, most, value⟩
    · exact .inl ⟨site, touched.located, old⟩
    · rw [← touched.merged] at most
      exact .inr ⟨rfl, merge, least, most, value⟩
  · exact .inl before

theorem Touched.extended {job : Job} {id : Nat} {s after : Build} {site new : Site} {c : Candidate}
    (touched : Touched job id s after site new c) : Extended s.vars c.vars := by
  obtain ⟨columns, rfl⟩ := candidate_mergeSlots touched.computed
  exact mergeSlots_extended _ _ _

theorem Owned.visited {job : Job} {id : Nat} {s after : Build} {r : Option Bool} (owned : Owned s)
    (visited : Visited job id s r after) : Owned after := by
  rcases visited.touched with rfl | ⟨site, new, c, touched⟩
  · exact owned
  · constructor
    -- New merge variables lie beyond the old ones, and those of one visit are distinct.
    · intro b b' slot slot' m first second
      rcases touched.owns first with before | ⟨rfl, here, fresh, -⟩
      · rcases touched.owns second with before' | ⟨-, -, fresh, -⟩
        · exact owned.unique before before'
        · exact absurd (owned.bounded before) (Nat.not_lt_of_le fresh)
      · rcases touched.owns second with before | ⟨rfl, there, -⟩
        · exact absurd (owned.bounded before) (Nat.not_lt_of_le fresh)
        · obtain ⟨columns, rfl⟩ := candidate_mergeSlots touched.computed
          refine ⟨rfl, mergeSlots_fresh ?_ here there fresh⟩
          exact fun slot n merge => owned.bounded ⟨site, touched.located, merge⟩
    · intro b slot m owns
      rcases touched.owns owns with before | ⟨-, -, -, bounded, -⟩
      · rw [touched.merged]
        exact Nat.lt_of_lt_of_le (owned.bounded before) touched.extended.merges
      · exact bounded

theorem owned_start (g : Graph) (vars : Variables) : Owned (start g vars) := by
  have none : ∀ {b slot m : Nat}, ¬Owns (start g vars).sites b slot m := by
    rintro b slot m ⟨site, located, merge⟩
    simp only [start, List.getElem?_map, Option.map_eq_some_iff] at located
    obtain ⟨block, -, rfl⟩ := located
    simp at merge
  exact ⟨fun owns => absurd owns none, fun owns => absurd owns none⟩

theorem exitStack?_set {sites : List Site} {id p : Nat} {site new : Site}
    (located : sites[id]? = some site) :
    exitStack? (sites.set id new) p =
      if p = id then new.output.map (·.exitStack) else exitStack? sites p := by
  unfold exitStack?
  rw [List.getElem?_set]
  have bounded : id < sites.length := (List.getElem?_eq_some_iff.mp located).1
  split_ifs with here <;> first | rfl | omega

theorem exitStack?_eq {sites : List Site} {id : Nat} {site : Site}
    (located : sites[id]? = some site) :
    exitStack? sites id = site.output.map (·.exitStack) := by
  rw [exitStack?, located]
  rfl

theorem exitStack_of_unchanged {before : Option BlockOutput} {after : BlockOutput}
    (unchanged : exitChanged before after = false) :
    before.map (·.exitStack) = some after.exitStack := by
  cases before with
  | none => cases unchanged
  | some old =>
      simp only [exitChanged, Bool.or_eq_false_iff, bne_eq_false_iff_eq] at unchanged
      exact congrArg some unchanged.1

theorem incoming_congr {g : Graph} {before after : List Site} {id : Nat} {b : Block}
    (same : ∀ p ∈ b.predecessors, exitStack? after p = exitStack? before p) :
    incoming g after id b = incoming g before id b := by
  unfold incoming
  rw [List.filterMap_congr same]

structure Agreed (g : Graph) (worklist : List Nat) (s : Build) : Prop where
  blocks : s.sites.map (·.block) = g.blocks
  fits : ∀ id site, s.sites[id]? = some site → id ∉ worklist → site.output.isSome →
    ∃ entry, site.entry = some entry ∧
      Fits (incoming g s.sites id site.block) site.merges entry

theorem Agreed.block {g : Graph} {worklist : List Nat} {s : Build} (agreed : Agreed g worklist s)
    {id : Nat} {site : Site} (located : s.sites[id]? = some site) :
    g.blocks[id]? = some site.block := by
  rw [← agreed.blocks, List.getElem?_map, located]
  rfl

theorem Agreed.predecessors {g : Graph} {worklist : List Nat} {s : Build}
    (agreed : Agreed g worklist s) (linked : g.Linked) {p id : Nat} {site : Site}
    (located : s.sites[id]? = some site) :
    p ∈ site.block.predecessors ↔ id ∈ g.successors p := by
  have block := agreed.block located
  rw [← linked.mirrored p id (List.getElem?_eq_some_iff.mp block).1, Graph.predecessors, block]
  rfl

theorem set_blocks {sites : List Site} {id : Nat} {site new : Site}
    (located : sites[id]? = some site) (same : new.block = site.block) :
    (sites.set id new).map (·.block) = sites.map (·.block) := by
  obtain ⟨bounded, rfl⟩ := List.getElem?_eq_some_iff.mp located
  have inMap : id < (sites.map (·.block)).length := by simpa using bounded
  have here : (sites[id]).block = (sites.map (·.block))[id] := by simp
  rw [List.map_set, same, here, List.set_getElem_self]

theorem Agreed.replace {job : Job} {id : Nat} {rest worklist : List Nat} {s after : Build}
    {site new : Site} {c : Candidate} (linked : job.graph.Linked)
    (agreed : Agreed job.graph (id :: rest) s) (touched : Touched job id s after site new c)
    (entered : new.entry = some c.entry) (waits : ∀ b ∈ rest, b ∈ worklist)
    (leads : new.output.map (·.exitStack) = exitStack? s.sites id ∨
      ∀ b ∈ job.graph.successors id, b ∈ worklist) :
    Agreed job.graph worklist after := by
  -- The visited block fits. A block that another stack now leads to has to wait.
  refine ⟨?_, fun other found located idle replayed => ?_⟩
  · rw [touched.sites, set_blocks touched.located touched.block, agreed.blocks]
  · rw [touched.sites] at located ⊢
    have known : ∃ old, s.sites[other]? = some old ∧ old.block = found.block := by
      rw [List.getElem?_set] at located
      split_ifs at located with here bounded
      · cases located
        exact ⟨site, here ▸ touched.located, touched.block.symm⟩
      · exact ⟨found, located, rfl⟩
    obtain ⟨old, before, sameBlock⟩ := known
    -- What leads to the block is as before, or an edge from the visited block makes it wait.
    have same : incoming job.graph (s.sites.set id new) other found.block =
        incoming job.graph s.sites other found.block := by
      refine incoming_congr fun p member => ?_
      rw [exitStack?_set touched.located]
      split_ifs with here
      · subst here
        rcases leads with same | next
        · exact same
        · rw [← sameBlock, agreed.predecessors linked before] at member
          exact absurd (next other member) idle
      · rfl
    rw [same]
    rw [List.getElem?_set] at located
    split_ifs at located with here bounded
    · cases located
      subst here
      refine ⟨c.entry, entered, ?_⟩
      rw [touched.merges, touched.block]
      exact candidate_fits touched.computed
    · refine agreed.fits other found located (fun member => ?_) replayed
      rcases List.mem_cons.mp member with rfl | member
      · exact here rfl
      · exact idle (waits other member)

theorem Agreed.visited {job : Job} {id : Nat} {rest : List Nat} {s after : Build}
    {r : Option Bool} (linked : job.graph.Linked) (agreed : Agreed job.graph (id :: rest) s)
    (visited : Visited job id s r after) :
    Agreed job.graph (waiting job.graph id rest r) after := by
  cases visited with
  | absent missing =>
      refine ⟨agreed.blocks, fun other site located waits replayed => ?_⟩
      refine agreed.fits other site located (fun member => ?_) replayed
      rcases List.mem_cons.mp member with rfl | member
      · rw [missing] at located
        cases located
      · exact waits member
  | @current site c located computed upToDate =>
      simp only [Site.upToDate, Bool.and_eq_true, decide_eq_true_eq] at upToDate
      refine agreed.replace linked (touched_current located computed) upToDate.2
        (fun b member => member) (.inl ?_)
      exact (exitStack?_eq located).symm
  | @replayed site c output shared located computed allowed ran =>
      have touched := touched_replayed located computed ran
      cases changed : exitChanged site.output output with
      | true =>
          exact agreed.replace linked touched rfl (fun b member => mem_enqueue.mpr (.inl member))
            (.inr fun b member => mem_enqueue.mpr (.inr member))
      | false =>
          refine agreed.replace linked touched rfl (fun b member => member) (.inl ?_)
          rw [exitStack?_eq located]
          exact (exitStack_of_unchanged changed).symm

theorem Agreed.seed {g : Graph} {s : Build} (agreed : Agreed g [] s) (id : Nat) :
    Agreed g [id] s :=
  ⟨agreed.blocks, fun other site located _ => agreed.fits other site located List.not_mem_nil⟩

theorem agreed_start (g : Graph) (vars : Variables) (worklist : List Nat) :
    Agreed g worklist (start g vars) := by
  refine ⟨by simp [start, Function.comp_def], fun id site located _ replayed => ?_⟩
  simp only [start, List.getElem?_map, Option.map_eq_some_iff] at located
  obtain ⟨block, -, rfl⟩ := located
  cases replayed

/-- The stacks of all blocks agree. -/
structure StacksAgree (g : Graph) (s : Build) : Prop where
  blocks : s.sites.map (·.block) = g.blocks
  replayed : ∀ site ∈ s.sites, site.output.isSome
  roots : ∀ b ∈ g.roots.map (·.1), ∃ site, s.sites[b]? = some site ∧ site.entry = some []
  /-- An edge leads to a block that is entered at the depth at which the block before it ends. In
  each slot it holds the merge variable that it has for the slot, or what that block left. -/
  edges : ∀ p b, b ∈ g.successors p → ∃ site entry exit, s.sites[b]? = some site ∧
    site.entry = some entry ∧ exitStack? s.sites p = some exit ∧ exit.length = entry.length ∧
    ∀ (slot : Nat) (v : Value), entry[slot]? = some v →
      (∃ m, site.merges[slot]? = some (some m) ∧ v = .merge m) ∨ exit[slot]? = some v
  owned : Owned s

theorem mem_incoming_root {g : Graph} {sites : List Site} {id : Nat} {b : Block}
    (root : id ∈ g.roots.map (·.1)) : [] ∈ incoming g sites id b := by
  obtain ⟨⟨block, kind⟩, member, rfl⟩ := List.mem_map.mp root
  have found : (g.rootKind? block).isSome := by
    rw [Graph.rootKind?, List.lookup_isSome_iff]
    exact ⟨(block, kind), member, by simp⟩
  unfold incoming
  rw [if_pos found]
  exact List.mem_append_left _ List.mem_cons_self

theorem mem_incoming {g : Graph} {sites : List Site} {id p : Nat} {b : Block} {exit : List Value}
    (edge : p ∈ b.predecessors) (leaves : exitStack? sites p = some exit) :
    exit ∈ incoming g sites id b :=
  List.mem_append_right _ (List.mem_filterMap.mpr ⟨p, edge, leaves⟩)

theorem Agreed.stacksAgree {g : Graph} {s : Build} (linked : g.Linked) (agreed : Agreed g [] s)
    (owned : Owned s) (seen : unvisited? s.sites = none) : StacksAgree g s := by
  rw [unvisited?_eq_none] at seen
  have length : s.sites.length = g.blocks.length := by
    rw [← agreed.blocks, List.length_map]
  have entered {b : Nat} (bounded : b < g.blocks.length) : ∃ site entry,
      s.sites[b]? = some site ∧ site.entry = some entry ∧
        Fits (incoming g s.sites b site.block) site.merges entry := by
    have located := List.getElem?_eq_getElem (length.symm ▸ bounded)
    obtain ⟨entry, same, fits⟩ := agreed.fits b _ located List.not_mem_nil
      (seen _ (List.mem_of_getElem? located))
    exact ⟨_, entry, located, same, fits⟩
  refine ⟨agreed.blocks, seen, ?_, ?_, owned⟩
  · intro b root
    obtain ⟨site, entry, located, same, fits⟩ := entered (linked.root_lt b root)
    refine ⟨site, located, ?_⟩
    have shallow := fits.depth [] (mem_incoming_root root)
    rw [same, List.length_eq_zero_iff.mp shallow.symm]
  · intro p b edge
    obtain ⟨site, entry, located, same, fits⟩ := entered (linked.successor_lt p b edge)
    have before : p < s.sites.length := by
      by_contra outside
      rw [length, not_lt] at outside
      simp [Graph.successors, List.getElem?_eq_none outside] at edge
    obtain ⟨output, replayed⟩ := Option.isSome_iff_exists.mp (seen _ (List.getElem_mem before))
    have leaves : exitStack? s.sites p = some output.exitStack := by
      rw [exitStack?_eq (List.getElem?_eq_getElem before), replayed]
      rfl
    have arrives : output.exitStack ∈ incoming g s.sites b site.block :=
      mem_incoming ((agreed.predecessors linked located).mpr edge) leaves
    refine ⟨site, entry, output.exitStack, located, same, leaves, fits.depth _ arrives, ?_⟩
    intro slot v held
    exact (fits.slot held).imp_right fun all => all _ arrives

/-- When a search succeeds, the stacks of all blocks agree. -/
theorem converge_stacksAgree {job : Job} {scopes : List (Scope Ty)} {vars : Variables}
    {count : Nat} (built : Graph.build job.listing scopes = .ok job.graph)
    (converged : (converge job (start job.graph vars)).1 = .ok count) :
    StacksAgree job.graph (converge job (start job.graph vars)).2 := by
  have linked := Graph.build_linked built
  have ran : converge job (start job.graph vars) =
      (.ok count, (converge job (start job.graph vars)).2) := Prod.ext converged rfl
  obtain ⟨⟨agreed, owned⟩, seen⟩ :=
    search_invariant (P := fun worklist s => Agreed job.graph worklist s ∧ Owned s)
      (fun id rest s r after both visited =>
        ⟨both.1.visited linked visited, both.2.visited visited⟩)
      (fun id s both => ⟨both.1.seed id, both.2⟩)
      ran ⟨agreed_start _ _ _, owned_start _ _⟩
  exact agreed.stacksAgree linked owned seen

def relay : Job where
  cx := .blank
  listing := .ofOps
    [(.ldarg0, .none), (.brtrue, .target 4), (.ldarg1, .none), (.br, .target 5), (.ldarg2, .none),
      (.br, .target 6), (.stloc0, .none), (.ldarg3, .none), (.br, .target 5)]
  graph :=
    { blocks :=
        [⟨0, 1, [2, 1], [], none⟩, ⟨2, 3, [3], [0], none⟩, ⟨4, 4, [3], [0], none⟩,
          ⟨5, 5, [4], [1, 2, 4], none⟩, ⟨6, 8, [3], [3], none⟩]
      roots := [(0, .entry)] }
  maxVisits := 8

def relayVars : Variables where
  locals := [.string]
  params := [.int32, .string, .string, .object]

theorem relay_built : Graph.build relay.listing [] = .ok relay.graph := by decide +kernel

theorem relay_converged : (converge relay (start relay.graph relayVars)).1 = .ok 6 :=
  converge_of_searchWithin 12 (f := Prod.fst) (by decide +kernel)

theorem relay_stacksAgree :
    Graph.build relay.listing [] = .ok relay.graph ∧
      (converge relay (start relay.graph relayVars)).1 = .ok 6 ∧
      StacksAgree relay.graph (converge relay (start relay.graph relayVars)).2 :=
  ⟨relay_built, relay_converged, converge_stacksAgree relay_built relay_converged⟩

end Build
end Destack
