import Destack.Compile.Method
import Destack.Proofs.Merge.Turns

namespace Destack

def Job.allowing (job : Job) (visits : Nat) : Job := { job with maxVisits := visits }

namespace Build

variable {job : Job} {visits : Nat}

theorem Outcome.allowing {id : Nat} {s after : Build} {replays : Bool}
    {r : Except ReplayError (Option Bool)} (more : job.maxVisits ≤ visits)
    (outcome : Outcome job id s replays (r, after))
    (settled : ∀ entry n, r ≠ .error (.diverged entry n)) :
    Outcome (job.allowing visits) id s replays (r, after) := by
  cases outcome with
  | absent missing => exact .absent missing
  | mismatched located failed => exact .mismatched located failed
  | current located computed upToDate => exact .current located computed upToDate
  | exhausted => exact absurd rfl (settled _ _)
  | failed located computed stale allowed ran =>
      exact .failed located computed stale (allowed.trans_le more) ran
  | replayed located computed stale allowed ran =>
      exact .replayed located computed stale (allowed.trans_le more) ran

theorem Run.allowing {worklist : List Nat} {count : Nat} {s : Build} {turns : List Turn}
    {result : Except ReplayError Nat × Build} (more : job.maxVisits ≤ visits)
    (run : Run job worklist count s turns result)
    (settled : ∀ entry n, result.1 ≠ .error (.diverged entry n)) :
    Run (job.allowing visits) worklist count s turns result := by
  induction run with
  | done none => exact .done none
  | fail next outcome =>
      refine .fail next (outcome.allowing more fun entry n same => ?_)
      cases same
      exact settled entry n rfl
  | go next outcome run ih =>
      refine .go next (outcome.allowing more fun entry n same => ?_) (ih settled)
      cases same

theorem converge_allowing {s : Build} (more : job.maxVisits ≤ visits)
    (settled : ∀ entry n, (converge job s).1 ≠ .error (.diverged entry n)) :
    converge (job.allowing visits) s = converge job s := by
  obtain ⟨turns, run⟩ := exists_run job (distinct (job.graph.roots.map (·.1))) 0 s
  exact (run.allowing more settled).eq_search.symm

end Build

namespace MethodCode

section Compile

variable {m : MethodCode} {view : View} {o : Options} {listing : Listing}
  {clauses : List (Scope Token)} {graph : Graph}

/-- A method is given up if and only if the search for its stacks is. -/
theorem compile_eq_diverged_iff (reading : m.read = .ok (listing, clauses))
    (built : Graph.build listing (clauses.map (typedScope view)) = .ok graph) (entry n : Nat) :
    (m.compile view o).1 = some (.error (.replay (.diverged entry n))) ↔
      (Build.converge (m.job view o listing (clauses.map (typedScope view)) graph)
        { Build.start graph m.vars with queries := (clauses.filterMap caught?).map .type }).1 =
        .error (.diverged entry n) := by
  simp only [compile, reading, built]
  generalize Build.converge _ _ = found
  obtain ⟨e | count, s⟩ := found
  · simp [conclude]
  · simp only [conclude, reduceCtorEq, iff_false]
    intro given
    rcases finished : finish o _ with _ | (e | b) <;> rw [finished] at given <;> cases given

theorem compile_allowing {visits : Nat} (more : o.maxVisits ≤ visits)
    (settled : ∀ entry n, (m.compile view o).1 ≠ some (.error (.replay (.diverged entry n)))) :
    m.compile view { o with maxVisits := visits } = m.compile view o := by
  cases reading : m.read with
  | error e => simp only [compile, reading]
  | ok both =>
      obtain ⟨listing, clauses⟩ := both
      cases built : Graph.build listing (clauses.map (typedScope view)) with
      | error e => simp only [compile, reading, built]
      | ok graph =>
          have same : Build.converge (m.job view { o with maxVisits := visits } listing
              (clauses.map (typedScope view)) graph) _ = _ :=
            Build.converge_allowing more fun entry n diverged =>
              settled entry n ((compile_eq_diverged_iff reading built entry n).mpr diverged)
          simp only [compile, reading, built, same]
          generalize Build.converge _ _ = found
          obtain ⟨e | count, s⟩ := found <;> rfl

end Compile
end MethodCode

/-- A compilation that is not given up has the same result, and leaves the same registry, if more
visits are allowed. -/
theorem Registry.compile_more_visits (registry : Registry) (r : Resolver) (o : Options)
    (m : MethodCode) (visits : Nat) (more : o.maxVisits ≤ visits)
    (settled : ∀ entry n,
      (registry.compile r o m).1 ≠ some (.error (.replay (.diverged entry n)))) :
    registry.compile r { o with maxVisits := visits } m = registry.compile r o m := by
  simp only [Registry.compile, MethodCode.compile_allowing more settled]

def doubling : MethodCode where
  method := { name := "Double", declaringType := .object, sig := ⟨false, [.bool], .int32⟩ }
  code := [0x17, 0x18, 0x5a, 0x02, 0x2d, 0xfb, 0x2a]

def doublingListing : Listing :=
  [⟨0, 0, 1, .ldcI4_1, .none⟩, ⟨1, 1, 1, .ldcI4_2, .none⟩, ⟨2, 2, 1, .mul, .none⟩,
    ⟨3, 3, 1, .ldarg0, .none⟩, ⟨4, 4, 2, .brtrueS, .target 1⟩, ⟨5, 6, 1, .ret, .none⟩]

def doublingGraph : Graph where
  blocks := [⟨0, 0, [1], [], none⟩, ⟨1, 4, [1, 2], [0, 1], none⟩, ⟨5, 5, [], [1], none⟩]
  roots := [(0, .entry)]

theorem doubling_read : doubling.read = .ok (doublingListing, []) := by decide +kernel

theorem doubling_build : Graph.build doublingListing [] = .ok doublingGraph := by decide +kernel

theorem doubling_more_visits :
    (2 ≤ 64 ∧ ∀ entry n,
      (({} : Registry).compile ({} : Catalog).resolver { maxVisits := 2 } doubling).1 ≠
        some (.error (.replay (.diverged entry n)))) ∧
    ({} : Registry).compile ({} : Catalog).resolver { maxVisits := 64 } doubling =
      ({} : Registry).compile ({} : Catalog).resolver { maxVisits := 2 } doubling := by
  have settled : ∀ entry n,
      (({} : Registry).compile ({} : Catalog).resolver { maxVisits := 2 } doubling).1 ≠
        some (.error (.replay (.diverged entry n))) := by
    intro entry n diverged
    have searched := (MethodCode.compile_eq_diverged_iff doubling_read doubling_build entry n).mp
      diverged
    rw [Build.converge_of_searchWithin 8 (f := Prod.fst) (a := .ok 4) (by decide +kernel)]
      at searched
    cases searched
  exact ⟨⟨by decide, settled⟩, Registry.compile_more_visits {} ({} : Catalog).resolver
    { maxVisits := 2 } doubling 64 (by decide) settled⟩

example : (({} : Registry).compile ({} : Catalog).resolver { maxVisits := 1 } doubling).1 =
    some (.error (.replay (.diverged 1 1))) :=
  (MethodCode.compile_eq_diverged_iff doubling_read doubling_build 1 1).mpr
    (Build.converge_of_searchWithin 8 (f := Prod.fst) (by decide +kernel))

end Destack
