import Destack.Proofs.Layout.Parallel

namespace Destack

def Variables.Has (vars : Variables) : Value → Prop
  | .localVar i => i.toNat < vars.locals.length
  | .param i => i.toNat < vars.params.length
  | .temp id => id < vars.temps.length
  | .merge id => id < vars.merges.length
  | .const _ => False

namespace Meaning

variable {D W : Type} (M : Meaning D W)

theorem vars_run_of_branches {stmts : List Stmt} (branches : ∀ s ∈ stmts, s.isBranch)
    (σ : Store D W) : (M.run σ stmts).vars = σ.vars := by
  induction stmts generalizing σ with
  | nil => rfl
  | cons s stmts ih =>
      rw [List.forall_mem_cons] at branches
      rw [run_cons, ih branches.2]
      cases s with
      | assign place e => simp [Stmt.isBranch, Stmt.target?] at branches
      | _ => rfl

theorem run_copies {copies : List (Value × Value)} (distinct : (copies.map (·.2)).Nodup)
    (assignable : ∀ both ∈ copies, both.2.isVariable)
    (apart : ∀ both ∈ copies, both.1 ∉ copies.map (·.2)) (σ : Store D W) :
    ∀ both ∈ copies,
      M.eval (M.run σ (copies.map fun both => .set both.2 (.value both.1))).vars both.2 =
        M.eval σ.vars both.1 := by
  induction copies generalizing σ with
  | nil => simp
  | cons first copies ih =>
      rw [List.map_cons, List.nodup_cons] at distinct
      rw [List.forall_mem_cons] at assignable apart ⊢
      rw [List.map_cons, M.run_cons]
      constructor
      · rw [M.eval_run_of_not_defined]
        · exact M.eval_update_self assignable.1 _ _
        · intro s member defined
          obtain ⟨both, listed, rfl⟩ := List.mem_map.mp member
          have same : both.2 = first.2 := Option.some.inj defined
          exact distinct.1 (same ▸ List.mem_map_of_mem listed)
      · intro both member
        rw [ih distinct.2 assignable.2 _ _ both member]
        · apply M.eval_update_of_ne
          intro same
          exact apart.2 both member (same ▸ List.mem_cons_self)
        · intro other listed copied
          exact apart.2 other listed (List.mem_cons_of_mem _ copied)

end Meaning

namespace Moves

variable {moves : List Move} {stmts : List Stmt} {vars : Variables} {v u : Value}

def Stands (written : List Value) (copies : List (Value × Value)) (v u : Value) : Prop :=
  (v ∉ written ∧ u = v) ∨ (v ∈ written ∧ (v, u) ∈ copies)

inductive Reworded (written : List Value) (copies : List (Value × Value)) : Stmt → Stmt → Prop
  | branch {cond : Condition} {target : Nat} {left right : Value}
      (ofLeft : Stands written copies cond.left left)
      (ofRight : Stands written copies cond.right right) :
      Reworded written copies (.branch cond target) (.branch { cond with left, right } target)
  | plain {s : Stmt} (unconditional : ∀ cond target, s ≠ .branch cond target) :
      Reworded written copies s s

section Saving

variable {written : List Value} {copies more : List (Value × Value)} {s : Saved}

theorem Stands.mono (stands : Stands written copies v u) (within : copies ⊆ more) :
    Stands written more v u := by
  rcases stands with kept | ⟨changes, copied⟩
  · exact .inl kept
  · exact .inr ⟨changes, within copied⟩

theorem Reworded.isBranch {t r : Stmt} (reworded : Reworded written copies t r) :
    r.isBranch = t.isBranch := by
  cases reworded <;> rfl

theorem saveOperand_stands (written : List Value) (v : Value) (s : Saved) :
    s.copies ⊆ (saveOperand written v s).2.copies ∧
      Stands written (saveOperand written v s).2.copies v (saveOperand written v s).1 := by
  unfold saveOperand
  split
  · rename_i changes
    rw [List.contains_iff_mem] at changes
    split
    · rename_i copy found
      obtain ⟨front, back, same, -⟩ := List.lookup_eq_some_iff.mp found
      exact ⟨List.Subset.refl _, .inr ⟨changes, by simp [same]⟩⟩
    · exact ⟨List.subset_append_left _ _, .inr ⟨changes, by simp⟩⟩
  · rename_i kept
    rw [List.contains_iff_mem] at kept
    exact ⟨List.Subset.refl _, .inl ⟨kept, rfl⟩⟩

theorem saveOperand_copied (copied : ∀ both ∈ s.copies, both.1 ∈ written) (v : Value) :
    ∀ both ∈ (saveOperand written v s).2.copies, both.1 ∈ written := by
  unfold saveOperand
  split
  · rename_i changes
    split
    · exact copied
    · rw [List.forall_mem_append, List.forall_mem_singleton]
      exact ⟨copied, List.contains_iff_mem.mp changes⟩
  · exact copied

theorem merges_saveOperand (written : List Value) (v : Value) (s : Saved) :
    (saveOperand written v s).2.vars.merges = s.vars.merges := by
  unfold saveOperand
  split
  · split <;> rfl
  · rfl

theorem saveConditions_branch (cond : Condition) (target : Nat) (rest : List Stmt) :
    saveConditions written (.branch cond target :: rest) s =
      (.branch
          { cond with
            left := (saveOperand written cond.left s).1
            right := (saveOperand written cond.right (saveOperand written cond.left s).2).1 }
          target ::
        (saveConditions written rest
          (saveOperand written cond.right (saveOperand written cond.left s).2).2).1,
      (saveConditions written rest
        (saveOperand written cond.right (saveOperand written cond.left s).2).2).2) := rfl

theorem saveConditions_plain {t : Stmt} (unconditional : ∀ cond target, t ≠ .branch cond target)
    (rest : List Stmt) :
    saveConditions written (t :: rest) s =
      (t :: (saveConditions written rest s).1, (saveConditions written rest s).2) := by
  cases t with
  | branch cond target => exact absurd rfl (unconditional cond target)
  | _ => rfl

theorem saveConditions_induction {P : Saved → Prop}
    (step : ∀ v s, P s → P (saveOperand written v s).2) (stmts : List Stmt) (holds : P s) :
    P (saveConditions written stmts s).2 := by
  induction stmts generalizing s with
  | nil => exact holds
  | cons t rest ih =>
      by_cases conditional : ∃ cond target, t = .branch cond target
      · obtain ⟨cond, target, rfl⟩ := conditional
        rw [saveConditions_branch]
        exact ih (step _ _ (step _ _ holds))
      · rw [saveConditions_plain fun cond target same => conditional ⟨cond, target, same⟩]
        exact ih holds

theorem saveConditions_reworded (written : List Value) (stmts : List Stmt) (s : Saved) :
    s.copies ⊆ (saveConditions written stmts s).2.copies ∧
      List.Forall₂ (Reworded written (saveConditions written stmts s).2.copies) stmts
        (saveConditions written stmts s).1 := by
  induction stmts generalizing s with
  | nil => exact ⟨List.Subset.refl _, .nil⟩
  | cons t rest ih =>
      by_cases conditional : ∃ cond target, t = .branch cond target
      · obtain ⟨cond, target, rfl⟩ := conditional
        obtain ⟨first, ofLeft⟩ := saveOperand_stands written cond.left s
        obtain ⟨second, ofRight⟩ :=
          saveOperand_stands written cond.right (saveOperand written cond.left s).2
        obtain ⟨later, reworded⟩ :=
          ih (saveOperand written cond.right (saveOperand written cond.left s).2).2
        rw [saveConditions_branch]
        have left := ofLeft.mono (List.Subset.trans second later)
        exact ⟨List.Subset.trans (List.Subset.trans first second) later,
          .cons (.branch left (ofRight.mono later)) reworded⟩
      · have unconditional := fun cond target same => conditional ⟨cond, target, same⟩
        obtain ⟨later, reworded⟩ := ih s
        rw [saveConditions_plain unconditional]
        exact ⟨later, .cons (.plain unconditional) reworded⟩

end Saving

section Values

variable {D W : Type} (M : Meaning D W)

theorem saved_copied (stmts : List Stmt) (moves : List Move) (vars : Variables) :
    ∀ both ∈ (saved stmts moves vars).copies, both.1 ∈ written moves :=
  saveConditions_induction (P := fun s => ∀ both ∈ s.copies, both.1 ∈ written moves)
    (fun v _ copied => saveOperand_copied copied v) _ (by simp)

theorem run_saves (stmts : List Stmt) (moves : List Move) (vars : Variables) (σ : Store D W) :
    ∀ both ∈ (saved stmts moves vars).copies,
      M.eval (M.run σ ((saved stmts moves vars).copies.map
        fun both => .set both.2 (.value both.1))).vars both.2 = M.eval σ.vars both.1 := by
  have new := saved_newCopies stmts moves vars
  apply M.run_copies new.distinct
  · intro both member
    obtain ⟨id, copy, -⟩ := new.copies both member
    rw [copy]
    rfl
  · intro both member copied
    obtain ⟨m, -, merge⟩ := List.mem_map.mp (saved_copied stmts moves vars both member)
    obtain ⟨other, listed, same⟩ := List.mem_map.mp copied
    obtain ⟨id, copy, -⟩ := new.copies other listed
    rw [← merge, copy] at same
    cases same

theorem run_inserted_stands (stands : Stands (written moves) (saved stmts moves vars).copies v u)
    (older : v.Older vars.temps.length) (σ : Store D W) :
    M.eval (M.run σ (inserted stmts moves vars)).vars u = M.eval σ.vars v := by
  rcases stands with ⟨kept, rfl⟩ | ⟨changes, copied⟩
  · exact run_inserted_older M stmts older kept σ
  · obtain ⟨id, copy, -, known⟩ := (saved_newCopies stmts moves vars).copies _ copied
    have apart : u ∉ written moves := by
      intro written
      obtain ⟨m, -, merge⟩ := List.mem_map.mp written
      rw [← merge] at copy
      cases copy
    have older : u.Older (saved stmts moves vars).vars.temps.length := by
      intro other same
      rw [same, Value.temp.injEq] at copy
      rwa [copy]
    unfold inserted
    split
    · rename_i none
      rw [List.isEmpty_iff.mp none] at changes
      cases changes
    · rw [M.run_append, run_assignments_older M older apart]
      exact run_saves M stmts moves vars σ _ copied

end Values

theorem merges_stage (vars : Variables) : (stage vars moves).2.2.merges = vars.merges := by
  induction moves generalizing vars with
  | nil => rfl
  | cons m moves ih => exact ih _

theorem defined_assignments (allocated : ∀ m ∈ moves, m.merge < vars.merges.length) {s : Stmt}
    (member : s ∈ (assignments vars moves).1) :
    ∃ v, s.defined? = some v ∧ (assignments vars moves).2.Has v := by
  have merges : (assignments vars moves).2.merges = vars.merges := by
    unfold assignments
    split
    · exact merges_stage vars
    · rfl
  have moved {others : List Move} (same : others.map (·.merge) = moves.map (·.merge))
      (member : s ∈ others.map (assignment vars)) :
      ∃ v, s.defined? = some v ∧ (assignments vars moves).2.Has v := by
    obtain ⟨other, listed, rfl⟩ := List.mem_map.mp member
    have target : other.merge ∈ moves.map (·.merge) := same ▸ List.mem_map_of_mem listed
    obtain ⟨m, wanted, merge⟩ := List.mem_map.mp target
    refine ⟨.merge other.merge, rfl, ?_⟩
    rw [Variables.Has, merges, ← merge]
    exact allocated m wanted
  unfold assignments at member moved ⊢
  split at member
  · rename_i hazardous
    rw [if_pos hazardous] at moved ⊢
    rcases List.mem_append.mp member with read | write
    · obtain ⟨id, -, known, defined⟩ := defined_stage read
      exact ⟨.temp id, defined, known⟩
    · rw [stage_writes vars vars] at write
      exact moved (map_staged vars) write
  · rename_i safe
    rw [if_neg safe] at moved ⊢
    exact moved rfl member

theorem defined_inserted (allocated : ∀ m ∈ moves, m.merge < vars.merges.length) {s : Stmt}
    (member : s ∈ inserted stmts moves vars) :
    ∃ v, s.defined? = some v ∧ (insert stmts moves vars).2.Has v := by
  unfold inserted at member
  split at member
  · cases member
  · rename_i moving
    have table : (insert stmts moves vars).2 =
        (assignments (saved stmts moves vars).vars moves).2 := by
      rw [insert, if_neg moving]
      rfl
    have merges : (saved stmts moves vars).vars.merges = vars.merges :=
      saveConditions_induction (P := fun s => s.vars.merges = vars.merges)
        (fun v s kept => (merges_saveOperand _ v s).trans kept) _ rfl
    rw [table]
    rcases List.mem_append.mp member with save | assign
    · obtain ⟨both, listed, rfl⟩ := List.mem_map.mp save
      obtain ⟨id, copy, -, known⟩ := (saved_newCopies stmts moves vars).copies both listed
      refine ⟨.temp id, congrArg some copy, known.trans_le ?_⟩
      unfold assignments
      split
      · exact length_stage _
      · exact le_rfl
    · apply defined_assignments _ assign
      rwa [merges]

section Parallel

variable {D W : Type} (M : Meaning D W)

/-- Between two stores the moves have happened at once. Temporaries that are not among the first
`count` are of no account. -/
structure Parallel (count : Nat) (moves : List Move) (σ τ : Store D W) : Prop where
  moved : ∀ m ∈ moves, m.source.Older count →
    M.eval τ.vars (.merge m.merge) = M.eval σ.vars m.source
  kept : ∀ v, v.Older count → v ∉ written moves → M.eval τ.vars v = M.eval σ.vars v

/-- Run from `τ`, the statements `after` branch like the statements `before` run from `σ`: each
condition compares the same values in the same way. -/
structure BranchesAlike (count : Nat) (σ τ : Store D W) (before after : List Stmt) : Prop where
  length : after.length = before.length
  plain : ∀ (k : Nat) (s : Stmt), before[k]? = some s → (∀ cond target, s ≠ .branch cond target) →
    after[k]? = some s
  conditions : ∀ (k : Nat) (cond : Condition) (target : Nat),
    before[k]? = some (.branch cond target) →
    ∃ left right, after[k]? = some (.branch { cond with left, right } target) ∧
      (cond.left.Older count → M.eval (M.run τ (after.take k)).vars left =
        M.eval (M.run σ (before.take k)).vars cond.left) ∧
      (cond.right.Older count → M.eval (M.run τ (after.take k)).vars right =
        M.eval (M.run σ (before.take k)).vars cond.right)

theorem branchesAlike_of_reworded {before after : List Stmt} {σ τ : Store D W} {count : Nat}
    {written : List Value} {copies : List (Value × Value)}
    (reworded : List.Forall₂ (Reworded written copies) before after)
    (branches : ∀ s ∈ before, s.isBranch)
    (stands : ∀ {v u : Value}, Stands written copies v u → v.Older count →
      M.eval τ.vars u = M.eval σ.vars v) : BranchesAlike M count σ τ before after := by
  obtain ⟨length, pairs⟩ := List.forall₂_iff_get.mp reworded
  have paired {k : Nat} {s : Stmt} (found : before[k]? = some s) :
      ∃ r, after[k]? = some r ∧ Reworded written copies s r := by
    obtain ⟨within, rfl⟩ := List.getElem?_eq_some_iff.mp found
    exact ⟨_, List.getElem?_eq_getElem (length ▸ within), pairs k within (length ▸ within)⟩
  have afterwards : ∀ r ∈ after, r.isBranch := by
    intro r member
    obtain ⟨k, within, rfl⟩ := List.getElem_of_mem member
    exact (pairs k (length ▸ within) within).isBranch.trans (branches _ (List.get_mem _ _))
  refine ⟨length.symm, fun k s found unconditional => ?_, fun k cond target found => ?_⟩
  · obtain ⟨r, there, here⟩ := paired found
    cases here with
    | branch ofLeft ofRight => exact absurd rfl (unconditional _ _)
    | plain _ => exact there
  · obtain ⟨r, there, here⟩ := paired found
    cases here with
    | branch ofLeft ofRight =>
        -- Up to here there are only branches, so both stores still have their variables.
        refine ⟨_, _, there, ?_⟩
        rw [M.vars_run_of_branches fun s member => afterwards s (List.mem_of_mem_take member),
          M.vars_run_of_branches fun s member => branches s (List.mem_of_mem_take member)]
        exact ⟨stands ofLeft, stands ofRight⟩
    | plain unconditional => exact absurd rfl (unconditional _ _)

theorem reworded_inserted (stmts : List Stmt) (moves : List Move) (vars : Variables) :
    ∃ after,
      (insert stmts moves vars).1 =
        (stmts.takeWhile fun s => !s.isBranch) ++ inserted stmts moves vars ++ after ∧
      List.Forall₂ (Reworded (written moves) (saved stmts moves vars).copies)
        (stmts.dropWhile fun s => !s.isBranch) after := by
  refine ⟨_, insert_eq stmts moves vars, ?_⟩
  split
  · rename_i none
    apply List.forall₂_same.mpr
    intro s member
    rw [List.isEmpty_iff.mp none]
    cases s with
    | branch cond target =>
        exact .branch (.inl ⟨List.not_mem_nil, rfl⟩) (.inl ⟨List.not_mem_nil, rfl⟩)
    | _ => exact .plain (by simp)
  · exact (saveConditions_reworded _ _ _).2

end Parallel

/-- The statements that moves add before the first branch are one parallel assignment: each merge
variable gets what its source stood for, no other variable that was there changes, and the branches
after them compare what they compared without the moves. -/
theorem insert_parallel (stmts : List Stmt) (moves : List Move) (vars : Variables)
    (branches : ∀ s ∈ stmts.dropWhile fun s => !s.isBranch, s.isBranch)
    (distinct : (moves.map (·.merge)).Nodup)
    (allocated : ∀ m ∈ moves, m.merge < vars.merges.length) :
    ∃ added after,
      (insert stmts moves vars).1 = (stmts.takeWhile fun s => !s.isBranch) ++ added ++ after ∧
      (∀ s ∈ added, ∃ v, s.defined? = some v ∧ (insert stmts moves vars).2.Has v) ∧
      ∀ {D W : Type} (M : Meaning D W) (σ : Store D W),
        Parallel M vars.temps.length moves σ (M.run σ added) ∧
          BranchesAlike M vars.temps.length σ (M.run σ added)
            (stmts.dropWhile fun s => !s.isBranch) after := by
  obtain ⟨after, same, reworded⟩ := reworded_inserted stmts moves vars
  refine ⟨_, after, same, fun s => defined_inserted allocated, fun M σ => ⟨⟨?_, ?_⟩, ?_⟩⟩
  · intro m member older
    apply run_inserted M stmts member older
    intro n other merge
    rw [List.inj_on_of_nodup_map distinct other member merge]
  · exact fun v older kept => run_inserted_older M stmts older kept σ
  · exact branchesAlike_of_reworded M reworded branches
      fun stands older => run_inserted_stands M stands older σ

def exchange : List Stmt :=
  [.set (.localVar 0) (.value (.merge 0)), .branch ⟨.lt, .merge 0, .merge 1, false⟩ 7,
    .branch ⟨.eq, .merge 1, .temp 0, false⟩ 9, .goto 3]

def exchangeMoves : List Move := [⟨0, .merge 1⟩, ⟨1, .merge 0⟩, ⟨2, .const (.null .object)⟩]

def exchangeVars : Variables where
  locals := [.int32]
  params := []
  temps := [.int32]
  merges := [.int32, .int32, .string]

theorem exchange_parallel :
    (∀ s ∈ exchange.dropWhile fun s => !s.isBranch, s.isBranch) ∧
    (exchangeMoves.map (·.merge)).Nodup ∧
    (∀ m ∈ exchangeMoves, m.merge < exchangeVars.merges.length) ∧
    ∃ added after,
      (insert exchange exchangeMoves exchangeVars).1 =
        (exchange.takeWhile fun s => !s.isBranch) ++ added ++ after ∧
      (∀ s ∈ added, ∃ v, s.defined? = some v ∧
        (insert exchange exchangeMoves exchangeVars).2.Has v) ∧
      ∀ {D W : Type} (M : Meaning D W) (σ : Store D W),
        Parallel M exchangeVars.temps.length exchangeMoves σ (M.run σ added) ∧
          BranchesAlike M exchangeVars.temps.length σ (M.run σ added)
            (exchange.dropWhile fun s => !s.isBranch) after :=
  have branches : ∀ s ∈ exchange.dropWhile fun s => !s.isBranch, s.isBranch := by decide
  have distinct : (exchangeMoves.map (·.merge)).Nodup := by decide
  have allocated : ∀ m ∈ exchangeMoves, m.merge < exchangeVars.merges.length := by decide
  ⟨branches, distinct, allocated, insert_parallel _ _ _ branches distinct allocated⟩

end Moves
end Destack
