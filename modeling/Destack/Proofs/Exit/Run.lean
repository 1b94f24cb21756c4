import Destack.Proofs.Exit.Treatment

namespace Destack

namespace Inlining

def Waits (m : Marked) : Prop := m.done = false ∧ m.scope.isFinally = true

instance (m : Marked) : Decidable (Waits m) :=
  inferInstanceAs (Decidable (m.done = false ∧ m.scope.isFinally = true))

section Choice

variable {scopes : List Marked} {number : Nat}

theorem mem_waiting : number ∈ waiting scopes ↔ ∃ m, scopes[number]? = some m ∧ Waits m := by
  rw [waiting, List.mem_filter, List.mem_range, Option.any_eq_true]
  constructor
  · rintro ⟨-, m, found, waits⟩
    exact ⟨m, found, by simpa [Waits] using waits⟩
  · rintro ⟨m, found, waits⟩
    exact ⟨(List.getElem?_eq_some_iff.mp found).1, m, found, by simpa [Waits] using waits⟩

theorem earlier_mem (scopes : List Marked) (i j : Nat) :
    earlier scopes i j = i ∨ earlier scopes i j = j := by
  unfold earlier
  split
  · split
    · exact .inr rfl
    · exact .inl rfl
  · exact .inl rfl

theorem foldl_earlier_mem (first : Nat) (rest : List Nat) :
    rest.foldl (earlier scopes) first ∈ first :: rest := by
  induction rest generalizing first with
  | nil => exact List.mem_cons_self
  | cons next rest ih =>
      rw [List.foldl_cons]
      rcases List.mem_cons.mp (ih (earlier scopes first next)) with same | later
      · rw [same]
        rcases earlier_mem scopes first next with kept | kept
        · rw [kept]
          exact List.mem_cons_self
        · rw [kept]
          exact List.mem_cons_of_mem _ List.mem_cons_self
      · exact List.mem_cons_of_mem _ (List.mem_cons_of_mem _ later)

def outermost (scopes : List Marked) : List Nat :=
  (waiting scopes).filter fun i => !(waiting scopes).any fun j => j != i && nestedAt scopes i j

theorem next?_eq :
    next? scopes = match outermost scopes with
      | [] => none
      | first :: rest => some (rest.foldl (earlier scopes) first) :=
  rfl

theorem mem_outermost_of_next? (chosen : next? scopes = some number) :
    number ∈ outermost scopes := by
  rw [next?_eq] at chosen
  cases found : outermost scopes with
  | nil =>
      rw [found] at chosen
      cases chosen
  | cons first rest =>
      rw [found] at chosen
      cases chosen
      exact foldl_earlier_mem first rest

theorem outermost_of_next?_eq_none (nothing : next? scopes = none) : outermost scopes = [] := by
  rw [next?_eq] at nothing
  cases found : outermost scopes with
  | nil => rfl
  | cons first rest =>
      rw [found] at nothing
      cases nothing

theorem mem_outermost :
    number ∈ outermost scopes ↔ ∃ m, scopes[number]? = some m ∧ Waits m ∧
      ∀ j o, scopes[j]? = some o → Waits o → j ≠ number → m.scope.nestedIn o.scope = false := by
  rw [outermost, List.mem_filter, mem_waiting]
  constructor
  · rintro ⟨⟨m, found, waits⟩, alone⟩
    refine ⟨m, found, waits, fun j o found' waits' different => ?_⟩
    simp only [Bool.not_eq_true', List.any_eq_false, Bool.and_eq_true, bne_iff_ne, not_and,
      Bool.not_eq_true] at alone
    simpa [nestedAt, found, found'] using alone j (mem_waiting.mpr ⟨o, found', waits'⟩) different
  · rintro ⟨m, found, waits, alone⟩
    refine ⟨⟨m, found, waits⟩, ?_⟩
    simp only [Bool.not_eq_true', List.any_eq_false, Bool.and_eq_true, bne_iff_ne, not_and,
      Bool.not_eq_true]
    intro j inList different
    obtain ⟨o, found', waits'⟩ := mem_waiting.mp inList
    simp only [nestedAt, found, found']
    exact alone j o found' waits' different

end Choice

theorem run_induction {P : Inlining → Prop}
    (kept : ∀ b number m, P b → b.scopes[number]? = some m → number ∈ outermost b.scopes →
      cutsOut b.stmts m.scope = true ∧ P (b.treat number m)) (rounds : Nat) (b : Inlining)
    (start : P b) : ∃ c, b.run rounds = some c ∧ P c := by
  induction rounds generalizing b with
  | zero => exact ⟨b, rfl, start⟩
  | succ rounds ih =>
      rw [run]
      split
      · exact ⟨b, rfl, start⟩
      · rename_i number chosen
        split
        · exact ⟨b, rfl, start⟩
        · rename_i m found
          obtain ⟨cuts, later⟩ := kept b number m start found (mem_outermost_of_next? chosen)
          rw [if_pos cuts]
          exact ih _ later

theorem cutsOut_of_sound {b : Inlining} {number : Nat} {m : Marked}
    (sound : Sound b.stmts (b.scopes.map (·.scope))) (found : b.scopes[number]? = some m) :
    cutsOut b.stmts m.scope = true := by
  have member := List.mem_map_of_mem (f := (·.scope)) (List.mem_of_getElem? found)
  have laid := sound.laid _ member
  have bounded := sound.bounded _ member
  have region := laid.span_nonempty m.scope.trySpan_mem
  have handler := laid.span_nonempty m.scope.handlerSpan_mem
  have inside := laid.span_within_hull m.scope.trySpan_mem
  rw [laid.hull_eq, Span.within_iff] at inside
  have tryFits : m.scope.trySpan.fits b.stmts.length = true := by
    simpa [Span.fits] using ⟨region.le, inside.2.trans bounded⟩
  have handlerFits : m.scope.handlerSpan.fits b.stmts.length = true := by
    simpa [Span.fits] using ⟨handler.le, bounded⟩
  simp [cutsOut, tryFits, handlerFits, bounded]

def ofBody (b : Body) : Inlining := ⟨b.stmts, b.scopes.map fun s => ⟨s, false⟩, 0⟩

theorem scopes_ofBody (b : Body) : (ofBody b).scopes.map (·.scope) = b.scopes := by
  rw [ofBody, List.map_map]
  exact List.map_id b.scopes

theorem alone_of_outermost {b : Inlining} {left right : List Marked} {m : Marked}
    (sound : Sound b.stmts (b.scopes.map (·.scope))) (split : b.scopes = left ++ m :: right)
    (chosen : left.length ∈ outermost b.scopes) :
    Waits m ∧ ∀ o ∈ left ++ right, Waits o → ¬ m.scope.LiesWithin o.scope := by
  have found : b.scopes[left.length]? = some m := by simp [split]
  obtain ⟨m', found', waits, alone⟩ := mem_outermost.mp chosen
  obtain rfl : m = m' := Option.some.inj (found.symm.trans found')
  refine ⟨waits, fun o inList waits' around => ?_⟩
  obtain ⟨j, different, there⟩ := getElem?_of_mem_split split inList
  have treatment := treatment_of_split sound split waits.2
  have other := treatment.other o inList
  have nested := (other.nested.symm.nestedIn_iff treatment.plans.ready.laid other.laid).mpr around
  rw [treatment.scope, alone j o there waits' different] at nested
  cases nested

theorem treatment_of_outermost {b : Inlining} {number : Nat} {m : Marked}
    (sound : Sound b.stmts (b.scopes.map (·.scope))) (found : b.scopes[number]? = some m)
    (chosen : number ∈ outermost b.scopes) :
    ∃ others p, Treatment b (b.treat number m) m others p ∧ Waits m ∧
      ∀ o ∈ others, Waits o → ¬ p.scope.LiesWithin o.scope := by
  obtain ⟨left, right, split, rfl⟩ := exists_split found
  obtain ⟨waits, alone⟩ := alone_of_outermost sound split chosen
  exact ⟨left ++ right, _, treatment_of_split sound split waits.2, waits, alone⟩

theorem sound_run {b : Inlining} (rounds : Nat) (sound : Sound b.stmts (b.scopes.map (·.scope))) :
    ∃ c, b.run rounds = some c ∧ Sound c.stmts (c.scopes.map (·.scope)) := by
  refine run_induction (P := fun b => Sound b.stmts (b.scopes.map (·.scope))) ?_ rounds b sound
  intro b number m sound found chosen
  obtain ⟨others, p, treatment, -⟩ := treatment_of_outermost sound found chosen
  exact ⟨cutsOut_of_sound sound found, treatment.sound sound⟩

end Inlining

theorem Body.inlineFinally_eq {b : Body} {c : Inlining}
    (ran : (Inlining.ofBody b).run (Inlining.rounds b) = some c) :
    b.inlineFinally =
      some (c.copies, { b with stmts := c.stmts, scopes := c.scopes.map (·.scope) }) :=
  congrArg (Option.map _) ran

theorem Stmt.target?_lowered (s : Stmt) : s.lowered.target? = s.target? := by cases s <;> rfl

theorem Stmt.isLeave_lowered (s : Stmt) : s.lowered.isLeave = false := by cases s <;> rfl

theorem Sound.lowered {stmts : List Stmt} {scopes : List (Scope Ty)} (sound : Sound stmts scopes) :
    Sound (stmts.map (·.lowered)) scopes where
  targets := by
    intro stmt member target branch
    obtain ⟨original, there, rfl⟩ := List.mem_map.mp member
    rw [Stmt.target?_lowered] at branch
    rw [List.length_map]
    exact sound.targets original there target branch
  laid := sound.laid
  bounded := by
    rw [List.length_map]
    exact sound.bounded
  nested := sound.nested

/-- Copying finally handlers keeps a body well formed, and so does turning exits into jumps then. -/
theorem Body.inlineFinally_wellFormed {b : Body} (pending : b.leavesLowered = false)
    (verified : b.verify = .ok ()) (nested : ProperlyNested b.scopes) :
    ∃ count copied, b.inlineFinally = some (count, copied) ∧
      (copied.verify = .ok () ∧ ProperlyNested copied.scopes) ∧
      copied.lowerLeaves.2.verify = .ok () ∧ ProperlyNested copied.lowerLeaves.2.scopes := by
  have start : Sound (Inlining.ofBody b).stmts ((Inlining.ofBody b).scopes.map (·.scope)) := by
    rw [Inlining.scopes_ofBody]
    exact (Body.verify_properlyNested.mp ⟨verified, nested⟩).1
  obtain ⟨c, ran, sound⟩ := Inlining.sound_run (Inlining.rounds b) start
  refine ⟨_, _, Body.inlineFinally_eq ran, ?_, ?_⟩
  · refine Body.verify_properlyNested.mpr ⟨sound, fun lowered => ?_⟩
    exact absurd lowered (by simp [pending])
  · refine Body.verify_properlyNested.mpr ⟨sound.lowered, fun _ stmt member => ?_⟩
    obtain ⟨original, -, rfl⟩ := List.mem_map.mp member
    exact original.isLeave_lowered

def cascade : Body where
  name := "cascade"
  stmts :=
    [.branch ⟨.ne, .param 0, .const (.int32 0), false⟩ 2, .leave 8, .leave 9,
      .set (.localVar 0) (.value (.param 0)), .endFinally,
      .leave 7, .endFinally, .endFinally,
      .ret none, .ret (some (.localVar 0))]
  scopes := [⟨.finallyBlock, 0, 3, 3, 5⟩, ⟨.finallyBlock, 0, 5, 5, 8⟩, ⟨.finallyBlock, 5, 6, 6, 7⟩]
  vars := { locals := [.int32], params := [.int32] }
  diagnostics := []
  leavesLowered := false

theorem Body.cascade_wellFormed :
    cascade.verify = .ok () ∧ ProperlyNested cascade.scopes ∧
      ∃ count copied, cascade.inlineFinally = some (count, copied) ∧
        (copied.verify = .ok () ∧ ProperlyNested copied.scopes) ∧
        copied.lowerLeaves.2.verify = .ok () ∧ ProperlyNested copied.lowerLeaves.2.scopes :=
  have verified : cascade.verify = .ok () := rfl
  have nested : ProperlyNested cascade.scopes := by decide
  ⟨verified, nested, Body.inlineFinally_wellFormed rfl verified nested⟩

end Destack
