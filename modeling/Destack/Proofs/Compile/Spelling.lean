import Destack.Merge.Layout
import Destack.Proofs.Bytecode.Numbered
import Destack.Proofs.Merge.Search
import Destack.Proofs.Replay.Spelling

namespace Destack

namespace Graph

variable (l : Listing)

theorem danglingTarget?_plain : danglingTarget? (l.map Instruction.plain) = danglingTarget? l := by
  unfold danglingTarget?
  rw [List.findSome?_map, List.length_map]
  congr 1
  funext i
  rw [Function.comp_apply, i.targets_plain.1]
  rfl

theorem marks_plain (scopes : List (Scope Ty)) :
    marks (l.map Instruction.plain) scopes = marks l scopes := by
  unfold marks
  rw [List.flatMap_map]
  congr 3
  funext i
  rw [i.targets_plain.1, i.flow_plain]
  rfl

theorem leaders_plain (scopes : List (Scope Ty)) :
    leaders (l.map Instruction.plain) scopes = leaders l scopes := by
  unfold leaders
  rw [marks_plain, List.length_map]

theorem edges_plain (leaders : List Nat) (i : Instruction Nat) :
    edges leaders i.plain = edges leaders i := by
  have targets : flowTargets i.plain = flowTargets i := by
    unfold flowTargets
    rw [i.targets_plain.1, i.flow_plain]
    rfl
  unfold edges
  rw [targets]
  rfl

theorem entries_plain (scopes : List (Scope Ty)) :
    entries (l.map Instruction.plain) scopes = entries l scopes := by
  simp only [entries, List.flatMap_map, Instruction.flow_plain, (Instruction.targets_plain _).2]

theorem rootsOf_plain (scopes : List (Scope Ty)) (leaders : List Nat) :
    rootsOf (l.map Instruction.plain) scopes leaders = rootsOf l scopes leaders := by
  rw [rootsOf, entries_plain, rootsOf]

theorem build_plain (scopes : List (Scope Ty)) :
    build (l.map Instruction.plain) scopes = build l scopes := by
  unfold build
  rw [danglingTarget?_plain, leaders_plain, List.length_map, List.isEmpty_map]
  split
  · rfl
  · cases danglingTarget? l with
    | some e => rfl
    | none =>
        dsimp only
        rw [rootsOf_plain]
        congr 2
        funext s
        rw [List.getElem?_map]
        cases l[s.last - 1]? with
        | none => rfl
        | some last => exact edges_plain _ last

end Graph

section Outcomes

variable {α σ : Type} {x : Except ReplayError α × σ} {s : σ}

theorem eq_of_spelledOut_ok {a : α} (same : spelledOut x = spelledOut (.ok a, s)) :
    x = (.ok a, s) := by
  obtain ⟨_ | _, _⟩ := x <;> cases same
  rfl

theorem error_of_spelledOut {e : ReplayError} (same : spelledOut x = spelledOut (.error e, s)) :
    ∃ e', x = (.error e', s) ∧ e'.plain = e.plain := by
  obtain ⟨e' | _, _⟩ := x
  · simp only [spelledOut, Except.mapError, Prod.mk.injEq, Except.error.injEq] at same
    exact ⟨e', by rw [same.2], same.1⟩
  · cases same

theorem spelledOut_error {e e' : ReplayError} (same : e.plain = e'.plain) :
    spelledOut (.error e, s) = spelledOut ((.error e', s) : Except ReplayError α × σ) := by
  simp only [spelledOut, Except.mapError, same]

end Outcomes

def Job.plain (job : Job) : Job := { job with listing := job.listing.map Instruction.plain }

namespace Build

theorem visit_plain (job : Job) (id : Nat) (s : Build) :
    spelledOut (visit job.plain id s) = spelledOut (visit job id s) := by
  obtain ⟨cx, l, g, maxVisits⟩ := job
  change spelledOut (visit ⟨cx, l.map Instruction.plain, g, maxVisits⟩ id s) = _
  unfold visit
  cases s.sites[id]? with
  | none => rfl
  | some site =>
      dsimp only
      cases candidate g s id site with
      | error e => rfl
      | ok c =>
          dsimp only
          split
          · rfl
          · split
            · rfl
            · have same := replayBlock_plain cx l site.block c.entry ⟨c.vars, site.temps, s.queries⟩
              rcases ran : replayBlock cx l site.block c.entry ⟨c.vars, site.temps, s.queries⟩
                with ⟨e | output, shared⟩
              · rw [ran] at same
                obtain ⟨e', failed, alike⟩ := error_of_spelledOut same
                rw [failed]
                exact spelledOut_error alike
              · rw [ran] at same
                rw [eq_of_spelledOut_ok same]

theorem visit_plain_ok {job : Job} {id : Nat} {s after : Build} {r : Option Bool}
    (visited : visit job id s = (.ok r, after)) : visit job.plain id s = (.ok r, after) :=
  eq_of_spelledOut_ok (visited ▸ visit_plain job id s)

theorem visit_plain_error {job : Job} {id : Nat} {s after : Build} {e : ReplayError}
    (visited : visit job id s = (.error e, after)) :
    ∃ e', visit job.plain id s = (.error e', after) ∧ e'.plain = e.plain :=
  error_of_spelledOut (visited ▸ visit_plain job id s)

theorem search_plain (job : Job) (worklist : List Nat) (count : Nat) (s : Build) :
    spelledOut (search job.plain worklist count s) = spelledOut (search job worklist count s) := by
  induction worklist, count, s using search.induct job with
  | case1 count s id rest e after visited =>
      obtain ⟨e', failed, alike⟩ := visit_plain_error visited
      rw [search_cons, search_cons, visited, failed]
      exact spelledOut_error alike
  | case2 count s id rest after visited ih =>
      rw [search_cons, search_cons, visited, visit_plain_ok visited]
      exact ih
  | case3 count s id rest changed after visited next ih =>
      rw [search_cons, search_cons, visited, visit_plain_ok visited]
      cases changed <;> exact ih
  | case4 count s seen => rw [search_nil, search_nil, seen]
  | case5 count s id found e after visited =>
      obtain ⟨e', failed, alike⟩ := visit_plain_error visited
      simp only [search_nil, found, visited, failed]
      exact spelledOut_error alike
  | case6 count s id found after visited =>
      simp only [search_nil, found, visited, visit_plain_ok visited]
  | case7 count s id found changed after visited next ih =>
      simp only [search_nil, found, visited, visit_plain_ok visited]
      cases changed <;> exact ih

theorem converge_plain (job : Job) (s : Build) :
    spelledOut (converge job.plain s) = spelledOut (converge job s) :=
  search_plain job _ 0 s

end Build

def Job.body (job : Job) (vars : Variables) (name : String) : Except ReplayError Body :=
  let (result, s) := Build.converge job (Build.start job.graph vars)
  result.map fun _ => s.layOut job.graph name job.cx.scopes

theorem Job.body_plain (job : Job) (vars : Variables) (name : String) :
    (job.plain.body vars name).mapError ReplayError.plain =
      (job.body vars name).mapError ReplayError.plain := by
  obtain ⟨cx, l, g, maxVisits⟩ := job
  have same := Build.converge_plain ⟨cx, l, g, maxVisits⟩ (Build.start g vars)
  unfold Job.body
  dsimp only [Job.plain] at same ⊢
  rcases ran : Build.converge ⟨cx, l, g, maxVisits⟩ (Build.start g vars) with ⟨e | count, s⟩
  · rw [ran] at same
    obtain ⟨e', failed, alike⟩ := error_of_spelledOut same
    rw [failed]
    exact congrArg Except.error alike
  · rw [ran] at same
    rw [eq_of_spelledOut_ok same]

theorem map_plain_eq {l l' : Listing} (numbered : Numbered 0 l) (numbered' : Numbered 0 l')
    (spelled : l.map Instruction.inFull = l'.map Instruction.inFull) :
    l.map Instruction.plain = l'.map Instruction.plain := by
  refine List.ext_getElem? fun k => ?_
  have same := congrArg (·[k]?) spelled
  simp only [List.getElem?_map] at same ⊢
  cases found : l[k]? with
  | none =>
      rw [found, Option.map_none, eq_comm, Option.map_eq_none_iff] at same
      rw [same]
  | some i =>
      rw [found, Option.map_some, eq_comm, Option.map_eq_some_iff] at same
      obtain ⟨j, found', same⟩ := same
      rw [found', Option.map_some, Option.map_some, Instruction.plain, Instruction.plain, same,
        numbered.index found, numbered'.index found']

/-- The spelling of instructions does not matter: the graph is the same, and so is the body or, up
to the spelling of the opcode that it blames, the error. -/
theorem body_eq_of_inFull_eq {l l' : Listing} (numbered : Numbered 0 l)
    (numbered' : Numbered 0 l')
    (spelled : l.map Instruction.inFull = l'.map Instruction.inFull) :
    (∀ scopes, Graph.build l scopes = Graph.build l' scopes) ∧
    ∀ (cx : Context) (g : Graph) (maxVisits : Nat) (vars : Variables) (name : String),
      (∃ body, Job.body ⟨cx, l, g, maxVisits⟩ vars name = .ok body ∧
        Job.body ⟨cx, l', g, maxVisits⟩ vars name = .ok body) ∨
      ∃ e e', Job.body ⟨cx, l, g, maxVisits⟩ vars name = .error e ∧
        Job.body ⟨cx, l', g, maxVisits⟩ vars name = .error e' ∧ e.plain = e'.plain := by
  have full := map_plain_eq numbered numbered' spelled
  refine ⟨fun scopes => ?_, fun cx g maxVisits vars name => ?_⟩
  · rw [← Graph.build_plain, full, Graph.build_plain]
  · have same := Job.body_plain ⟨cx, l, g, maxVisits⟩ vars name
    rw [Job.plain, full] at same
    have same := same.symm.trans (Job.body_plain ⟨cx, l', g, maxVisits⟩ vars name)
    generalize Job.body ⟨cx, l, g, maxVisits⟩ vars name = x at same ⊢
    generalize Job.body ⟨cx, l', g, maxVisits⟩ vars name = y at same ⊢
    obtain e | body := x
    · obtain e' | body := y
      · exact .inr ⟨e, e', rfl, rfl, Except.error.inj same⟩
      · cases same
    · obtain e' | body := y <;> cases same
      exact .inl ⟨body, rfl, rfl⟩

def shortChoice : Listing :=
  .ofOps [(.ldarg0, .none), (.brtrueS, .target 4), (.ldcI4M1, .none), (.ret, .none),
    (.ldcI4S, .int32 5), (.ret, .none)]

def wideChoice : Listing :=
  .ofOps [(.ldarg, .var 0), (.brtrue, .target 4), (.ldcI4, .int32 (-1)), (.ret, .none),
    (.ldcI4, .int32 5), (.ret, .none)]

def choiceJob (l : Listing) : Job where
  cx := { Context.blank with returnType := .int32 }
  listing := l
  graph :=
    { blocks := [⟨0, 1, [2, 1], [], none⟩, ⟨2, 3, [], [0], none⟩, ⟨4, 5, [], [0], none⟩]
      roots := [(0, .entry)] }
  maxVisits := 8

theorem choice_body :
    (shortChoice ≠ wideChoice ∧ Numbered 0 shortChoice ∧ Numbered 0 wideChoice ∧
      shortChoice.map Instruction.inFull = wideChoice.map Instruction.inFull) ∧
    Graph.build shortChoice [] = Graph.build wideChoice [] ∧
    ∃ body, (choiceJob shortChoice).body { params := [.bool] } "choose" = .ok body ∧
      (choiceJob wideChoice).body { params := [.bool] } "choose" = .ok body := by
  have numbered : Numbered 0 shortChoice := numbered_ofOps _
  have numbered' : Numbered 0 wideChoice := numbered_ofOps _
  have spelled : shortChoice.map Instruction.inFull = wideChoice.map Instruction.inFull := by
    decide
  have same := body_eq_of_inFull_eq numbered numbered' spelled
  refine ⟨⟨by decide, numbered, numbered', spelled⟩, same.1 [], ?_⟩
  rcases same.2 (choiceJob []).cx (choiceJob []).graph 8 { params := [.bool] } "choose" with
    both | ⟨e, e', failed, -⟩
  · exact both
  · have converged : (Build.converge (choiceJob shortChoice)
        (Build.start (choiceJob shortChoice).graph { params := [.bool] })).1 = .ok 3 :=
      Build.converge_of_searchWithin 8 (f := Prod.fst) (by decide +kernel)
    have body : (choiceJob shortChoice).body { params := [.bool] } "choose" = .error e := failed
    rw [Job.body] at body
    dsimp only at body
    rw [converged] at body
    cases body

end Destack
