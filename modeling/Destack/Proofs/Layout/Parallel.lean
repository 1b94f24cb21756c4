import Destack.Merge.Moves
import Destack.Proofs.Code.Valuation

namespace Destack

def Value.Older (count : Nat) (v : Value) : Prop := ∀ id, v = .temp id → id < count

theorem Value.Older.mono {count more : Nat} {v : Value} (older : v.Older count)
    (less : count ≤ more) : v.Older more :=
  fun id same => (older id same).trans_le less

namespace Moves

variable {D W : Type} (M : Meaning D W) {moves : List Move} {target : Nat} {d : D} {v : Value}
  {vars : Variables}

theorem mem_written {m : Move} (member : m ∈ moves) : .merge m.merge ∈ written moves :=
  List.mem_map_of_mem member

theorem run_assignment (vars : Variables) {σ : Store D W}
    (sources : ∀ m ∈ moves, m.merge = target → M.eval σ.vars m.source = d)
    (apart : ∀ m ∈ moves, m.source ∉ written moves) (moved : target ∈ moves.map (·.merge)) :
    M.eval (M.run σ (moves.map (assignment vars))).vars (.merge target) = d := by
  induction moves generalizing σ with
  | nil => cases moved
  | cons first moves ih =>
      rw [List.map_cons, M.run_cons]
      -- The variable gets the same value again later, or it keeps the one from here.
      by_cases again : target ∈ moves.map (·.merge)
      · refine ih (fun m member here => ?_) (fun m member written => ?_) again
        · rw [← sources m (List.mem_cons_of_mem _ member) here]
          apply M.eval_update_of_ne
          intro same
          exact apart m (List.mem_cons_of_mem _ member) (same ▸ List.mem_cons_self)
        · exact apart m (List.mem_cons_of_mem _ member) (List.mem_cons_of_mem _ written)
      · obtain rfl : target = first.merge := (List.mem_cons.mp moved).resolve_right again
        rw [M.eval_run_of_not_defined, ← sources first List.mem_cons_self rfl,
          ← M.eval_retype σ.vars _ first.source]
        · exact M.eval_update_self rfl _ _
        · intro s member defined
          obtain ⟨m, listed, rfl⟩ := List.mem_map.mp member
          have same : Value.merge m.merge = .merge first.merge := Option.some.inj defined
          exact again (List.mem_map.mpr ⟨m, listed, Value.merge.inj same⟩)

def staged (vars : Variables) : List Move → List Move
  | [] => []
  | m :: moves =>
    ⟨m.merge, .temp vars.temps.length⟩ :: staged (vars.newTemp (vars.typeOf (.merge m.merge))).2 moves

theorem stage_writes (vars table : Variables) :
    (stage vars moves).2.1 = (staged vars moves).map (assignment table) := by
  induction moves generalizing vars with
  | nil => rfl
  | cons m moves ih => exact congrArg _ (ih _)

theorem map_staged (vars : Variables) :
    (staged vars moves).map (·.merge) = moves.map (·.merge) := by
  induction moves generalizing vars with
  | nil => rfl
  | cons m moves ih => exact congrArg (m.merge :: ·) (ih _)

theorem source_of_staged {m : Move} (member : m ∈ staged vars moves) :
    ∃ id, m.source = .temp id := by
  induction moves generalizing vars with
  | nil => cases member
  | cons first moves ih =>
      rcases List.mem_cons.mp member with rfl | member
      · exact ⟨_, rfl⟩
      · exact ih member

theorem length_newTemp (vars : Variables) (t : Ty) :
    (vars.newTemp t).2.temps.length = vars.temps.length + 1 := by
  simp [Variables.newTemp]

theorem length_stage (vars : Variables) :
    vars.temps.length ≤ (stage vars moves).2.2.temps.length := by
  induction moves generalizing vars with
  | nil => exact le_rfl
  | cons m moves ih =>
      have rest := ih (vars.newTemp (vars.typeOf (.merge m.merge))).2
      rw [length_newTemp] at rest
      exact Nat.le_of_succ_le rest

theorem defined_stage {s : Stmt} (member : s ∈ (stage vars moves).1) :
    ∃ id, vars.temps.length ≤ id ∧ id < (stage vars moves).2.2.temps.length ∧
      s.defined? = some (.temp id) := by
  induction moves generalizing vars with
  | nil => cases member
  | cons m moves ih =>
      rcases List.mem_cons.mp member with rfl | member
      · have known : (vars.newTemp (vars.typeOf (.merge m.merge))).2.temps.length ≤
            (stage vars (m :: moves)).2.2.temps.length := length_stage _
        rw [length_newTemp] at known
        exact ⟨vars.temps.length, le_rfl, known, rfl⟩
      · obtain ⟨id, less, known, defined⟩ := ih member
        simp only [List.length_append, List.length_singleton] at less
        exact ⟨id, Nat.le_of_succ_le less, known, defined⟩

theorem run_stage_older (older : v.Older vars.temps.length) (σ : Store D W) :
    M.eval (M.run σ (stage vars moves).1).vars v = M.eval σ.vars v := by
  apply M.eval_run_of_not_defined
  intro s member defined
  obtain ⟨id, less, -, same⟩ := defined_stage member
  rw [same, Option.some.injEq] at defined
  exact absurd (older id defined.symm) (Nat.not_lt_of_le less)

theorem run_stage {σ : Store D W}
    (sources : ∀ m ∈ moves, m.merge = target →
      m.source.Older vars.temps.length ∧ M.eval σ.vars m.source = d) :
    ∀ m ∈ staged vars moves, m.merge = target →
      M.eval (M.run σ (stage vars moves).1).vars m.source = d := by
  induction moves generalizing vars σ with
  | nil => simp [staged]
  | cons first moves ih =>
      rw [List.forall_mem_cons] at sources
      simp only [staged, stage, M.run_cons, List.forall_mem_cons]
      constructor
      · intro here
        rw [run_stage_older, ← (sources.1 here).2,
          ← M.eval_retype σ.vars (vars.typeOf (.merge first.merge)) first.source]
        · exact M.eval_update_self rfl _ _
        · intro id same
          cases same
          rw [length_newTemp]
          exact Nat.lt_succ_self _
      · apply ih
        intro m member here
        obtain ⟨older, source⟩ := sources.2 m member here
        rw [length_newTemp, ← source]
        refine ⟨older.mono (Nat.le_succ _), ?_⟩
        apply M.eval_update_of_ne
        intro same
        exact Nat.lt_irrefl _ (older _ same)

theorem run_assignments {σ : Store D W}
    (sources : ∀ m ∈ moves, m.merge = target →
      m.source.Older vars.temps.length ∧ M.eval σ.vars m.source = d)
    (moved : target ∈ moves.map (·.merge)) :
    M.eval (M.run σ (assignments vars moves).1).vars (.merge target) = d := by
  unfold assignments
  split
  · dsimp only
    rw [M.run_append, stage_writes vars vars]
    apply run_assignment M vars (run_stage M sources)
    · intro m member written
      obtain ⟨id, temp⟩ := source_of_staged member
      obtain ⟨other, -, merge⟩ := List.mem_map.mp written
      rw [temp] at merge
      cases merge
    · rwa [map_staged]
  · rename_i safe
    apply run_assignment M vars (fun m member here => (sources m member here).2) _ moved
    intro m member written
    apply safe
    exact List.any_eq_true.mpr ⟨m, member, List.contains_iff_mem.mpr written⟩

theorem run_assignments_older (older : v.Older vars.temps.length) (apart : v ∉ written moves)
    (σ : Store D W) : M.eval (M.run σ (assignments vars moves).1).vars v = M.eval σ.vars v := by
  have unwritten {other : List Move} (same : other.map (·.merge) = moves.map (·.merge))
      {s : Stmt} (member : s ∈ other.map (assignment vars)) : s.defined? ≠ some v := by
    intro defined
    obtain ⟨m, listed, rfl⟩ := List.mem_map.mp member
    have merge : Value.merge m.merge = v := Option.some.inj defined
    have target : m.merge ∈ moves.map (·.merge) := same ▸ List.mem_map_of_mem listed
    obtain ⟨move, wanted, eq⟩ := List.mem_map.mp target
    apply apart
    rw [← merge, ← eq]
    exact mem_written wanted
  unfold assignments
  split
  · dsimp only
    rw [M.run_append, stage_writes vars vars, M.eval_run_of_not_defined]
    · exact run_stage_older M older σ
    · exact fun s => unwritten (map_staged vars)
  · exact M.eval_run_of_not_defined (fun s => unwritten rfl) σ

structure NewCopies (count : Nat) (s : Saved) : Prop where
  longer : count ≤ s.vars.temps.length
  copies : ∀ both ∈ s.copies, ∃ id, both.2 = .temp id ∧ count ≤ id ∧ id < s.vars.temps.length
  distinct : (s.copies.map (·.2)).Nodup

theorem saveOperand_newCopies {count : Nat} {s : Saved} (new : NewCopies count s)
    (written : List Value) (v : Value) : NewCopies count (saveOperand written v s).2 := by
  unfold saveOperand
  split
  · split
    · exact new
    · refine ⟨?_, List.forall_mem_append.mpr ⟨fun both member => ?_, ?_⟩, ?_⟩
      · rw [length_newTemp]
        exact Nat.le_succ_of_le new.longer
      · obtain ⟨id, copy, less, known⟩ := new.copies both member
        rw [length_newTemp]
        exact ⟨id, copy, less, Nat.lt_succ_of_lt known⟩
      · rw [List.forall_mem_singleton, length_newTemp]
        exact ⟨_, rfl, new.longer, Nat.lt_succ_self _⟩
      · rw [List.map_append, List.map_singleton, List.nodup_append]
        refine ⟨new.distinct, List.nodup_singleton _, fun copy listed other single same => ?_⟩
        obtain ⟨both, member, rfl⟩ := List.mem_map.mp listed
        obtain ⟨id, copy, -, known⟩ := new.copies both member
        rw [List.mem_singleton.mp single, copy] at same
        exact known.ne (Value.temp.inj same)
  · exact new

theorem saveConditions_newCopies {count : Nat} {s : Saved} (new : NewCopies count s)
    (written : List Value) (stmts : List Stmt) :
    NewCopies count (saveConditions written stmts s).2 := by
  fun_induction saveConditions written stmts s with
  | case1 => exact new
  | case2 cond target rest s left first leftEq right second rightEq rest' final restEq ih =>
      have afterLeft := saveOperand_newCopies new written cond.left
      rw [leftEq] at afterLeft
      have afterRight := saveOperand_newCopies afterLeft written cond.right
      rw [rightEq] at afterRight
      rw [restEq] at ih
      exact ih afterRight
  | case3 stmt rest s other rest' final restEq ih =>
      rw [restEq] at ih
      exact ih new

def saved (stmts : List Stmt) (moves : List Move) (vars : Variables) : Saved :=
  (saveConditions (written moves) (stmts.dropWhile fun s => !s.isBranch) ⟨vars, []⟩).2

def inserted (stmts : List Stmt) (moves : List Move) (vars : Variables) : List Stmt :=
  if moves.isEmpty then []
  else
    (saved stmts moves vars).copies.map (fun both => .set both.2 (.value both.1)) ++
      (assignments (saved stmts moves vars).vars moves).1

theorem insert_eq (stmts : List Stmt) (moves : List Move) (vars : Variables) :
    (insert stmts moves vars).1 = (stmts.takeWhile fun s => !s.isBranch) ++
      inserted stmts moves vars ++
        if moves.isEmpty then stmts.dropWhile fun s => !s.isBranch
        else (saveConditions (written moves) (stmts.dropWhile fun s => !s.isBranch) ⟨vars, []⟩).1 := by
  unfold insert inserted
  split
  · rw [List.append_nil, List.takeWhile_append_dropWhile]
  · simp [saved]

theorem saved_newCopies (stmts : List Stmt) (moves : List Move) (vars : Variables) :
    NewCopies vars.temps.length (saved stmts moves vars) := by
  apply saveConditions_newCopies
  exact ⟨le_rfl, by simp, List.nodup_nil⟩

theorem run_saves_older (older : v.Older vars.temps.length) (stmts : List Stmt)
    (moves : List Move) (σ : Store D W) :
    M.eval (M.run σ ((saved stmts moves vars).copies.map
      fun both => .set both.2 (.value both.1))).vars v = M.eval σ.vars v := by
  apply M.eval_run_of_not_defined
  intro s member defined
  obtain ⟨both, listed, rfl⟩ := List.mem_map.mp member
  obtain ⟨id, copy, less, -⟩ := (saved_newCopies stmts moves vars).copies both listed
  have same : both.2 = v := Option.some.inj defined
  exact absurd (older id (same.symm.trans copy)) (Nat.not_lt_of_le less)

theorem run_inserted (stmts : List Stmt) {m : Move} (member : m ∈ moves)
    (older : m.source.Older vars.temps.length)
    (agree : ∀ n ∈ moves, n.merge = m.merge → n.source = m.source) (σ : Store D W) :
    M.eval (M.run σ (inserted stmts moves vars)).vars (.merge m.merge) =
      M.eval σ.vars m.source := by
  unfold inserted
  split
  · rename_i none
    rw [List.isEmpty_iff] at none
    rw [none] at member
    cases member
  · rw [M.run_append]
    refine run_assignments M (fun n other here => ?_) (List.mem_map_of_mem member)
    rw [agree n other here, run_saves_older M older]
    exact ⟨older.mono (saved_newCopies stmts moves vars).longer, rfl⟩

theorem length_insert (stmts : List Stmt) (moves : List Move) (vars : Variables) :
    vars.temps.length ≤ (insert stmts moves vars).2.temps.length := by
  have longer := (saved_newCopies stmts moves vars).longer
  unfold insert
  split
  · exact le_rfl
  · refine longer.trans ?_
    dsimp only [assignments, saved]
    split
    · exact length_stage _
    · exact le_rfl

theorem run_inserted_older (stmts : List Stmt) (older : v.Older vars.temps.length)
    (apart : v ∉ written moves) (σ : Store D W) :
    M.eval (M.run σ (inserted stmts moves vars)).vars v = M.eval σ.vars v := by
  unfold inserted
  split
  · rfl
  · rw [M.run_append, run_assignments_older M _ apart]
    · exact run_saves_older M older stmts moves σ
    · exact older.mono (saved_newCopies stmts moves vars).longer

end Moves
end Destack
