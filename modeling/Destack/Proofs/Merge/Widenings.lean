import Destack.Proofs.Merge.Turns

namespace Destack

def changes {α : Type} [DecidableEq α] (l : List α) : Nat :=
  (l.zip l.tail).countP fun step => step.1 ≠ step.2

/-- A value that another one has followed does not come back. -/
def NeverReturns {α : Type} (l : List α) : Prop :=
  ∀ (i j k : Nat) (a : α), i ≤ j → j ≤ k → l[i]? = some a → l[k]? = some a → l[j]? = some a

namespace Ty

theorem height_le_four (t : Ty) : t.height ≤ 4 := by
  by_cases known : t = unknown
  · exact known ▸ le_refl 4
  · exact (height_lt_four known).le

theorem rises_of_mem_scanl {t u : Ty} {types : List Ty} (member : u ∈ types.scanl join t) :
    t.Rises u := by
  induction types generalizing t with
  | nil =>
      rw [List.scanl_nil, List.mem_singleton] at member
      exact .inl member.symm
  | cons next types ih =>
      rw [List.scanl_cons] at member
      rcases List.mem_cons.mp member with rfl | later
      · exact .refl _
      · exact (rises_join t next).trans (ih later)

theorem pairwise_scanl_join (t : Ty) (types : List Ty) : (types.scanl join t).Pairwise Rises := by
  induction types generalizing t with
  | nil => simp
  | cons next types ih =>
      rw [List.scanl_cons, List.pairwise_cons]
      exact ⟨fun u member => (rises_join t next).trans (rises_of_mem_scanl member), ih _⟩

/-- Every change of a rising sequence leads up by one height at least. -/
theorem changes_add_height_le {t : Ty} {types : List Ty} (rising : (t :: types).Pairwise Rises) :
    changes (t :: types) + t.height ≤ 4 := by
  induction types generalizing t with
  | nil => simpa [changes] using height_le_four t
  | cons u types ih =>
      obtain ⟨above, later⟩ := List.pairwise_cons.mp rising
      have rest := ih later
      have step : changes (t :: u :: types) = changes (u :: types) + if t ≠ u then 1 else 0 := by
        simp [changes, List.countP_cons]
      rw [step]
      rcases above u List.mem_cons_self with rfl | higher
      · simpa using rest
      · split <;> omega

theorem changes_le_four {types : List Ty} (rising : types.Pairwise Rises) : changes types ≤ 4 := by
  cases types with
  | nil => simp [changes]
  | cons t types => exact (Nat.le_add_right _ _).trans (changes_add_height_le rising)

theorem neverReturns_of_rising {types : List Ty} (rising : types.Pairwise Rises) :
    NeverReturns types := by
  have ordered : ∀ {i j : Nat} {t u : Ty}, i ≤ j → types[i]? = some t → types[j]? = some u →
      t.Rises u := by
    intro i j t u le first second
    obtain ⟨below, rfl⟩ := List.getElem?_eq_some_iff.mp first
    obtain ⟨inside, rfl⟩ := List.getElem?_eq_some_iff.mp second
    rcases Nat.lt_or_eq_of_le le with less | rfl
    · exact List.pairwise_iff_getElem.mp rising i j below inside less
    · exact .refl _
  intro i j k t first second here there
  have inside : j < types.length := second.trans_lt (List.getElem?_eq_some_iff.mp there).1
  have between := List.getElem?_eq_getElem inside
  rw [between, (ordered first here between).antisymm (ordered second between there)]

-- An enumeration over the null type takes all four steps.
example :
    changes ([null, string, array int32, int32].scanl join (enumType "E" null [])) = 4 := by
  decide

end Ty

namespace Build

def Climbs (before after : List Ty) : Prop :=
  ∀ (m : Nat) (t : Ty), before[m]? = some t → ∃ u, after[m]? = some u ∧ t.Rises u

def totalHeight (types : List Ty) : Nat := (types.map Ty.height).sum

theorem totalHeight_le (types : List Ty) : totalHeight types ≤ 4 * types.length := by
  have each : ∀ height ∈ types.map Ty.height, height ≤ 4 := by
    rw [List.forall_mem_map]
    exact fun t _ => t.height_le_four
  have sum := List.sum_le_card_nsmul _ 4 each
  rw [List.length_map, smul_eq_mul, Nat.mul_comm] at sum
  exact sum

namespace Climbs

variable {before between after : List Ty}

theorem refl (types : List Ty) : Climbs types types := fun _ t found => ⟨t, found, .refl t⟩

theorem trans (first : Climbs before between) (second : Climbs between after) :
    Climbs before after := by
  intro m t found
  obtain ⟨u, next, up⟩ := first m t found
  obtain ⟨v, last, further⟩ := second m u next
  exact ⟨v, last, up.trans further⟩

theorem set {m : Nat} {types : List Ty} {u : Ty} (rises : ∀ t, types[m]? = some t → t.Rises u) :
    Climbs types (types.set m u) := by
  intro n t found
  rw [List.getElem?_set]
  split
  · rename_i here
    subst here
    rw [if_pos (List.getElem?_eq_some_iff.mp found).1]
    exact ⟨u, rfl, rises t found⟩
  · exact ⟨t, found, .refl t⟩

theorem append (types more : List Ty) : Climbs types (types ++ more) := by
  intro m t found
  rw [List.getElem?_append_left (List.getElem?_eq_some_iff.mp found).1]
  exact ⟨t, found, .refl t⟩

theorem of_cons {t : Ty} {types : List Ty} (climbs : Climbs (t :: types) after) :
    ∃ u rest, after = u :: rest ∧ t.Rises u ∧ Climbs types rest := by
  cases after with
  | nil =>
      obtain ⟨u, found, -⟩ := climbs 0 t rfl
      cases found
  | cons u rest =>
      obtain ⟨u', found, rises⟩ := climbs 0 t rfl
      cases found
      exact ⟨u, rest, rfl, rises, fun m v found => climbs (m + 1) v found⟩

theorem totalHeight_le (climbs : Climbs before after) : totalHeight before ≤ totalHeight after := by
  induction before generalizing after with
  | nil => exact Nat.zero_le _
  | cons t types ih =>
      obtain ⟨u, rest, rfl, rises, later⟩ := climbs.of_cons
      exact Nat.add_le_add rises.height_le (ih later)

theorem totalHeight_lt (climbs : Climbs before after) {m : Nat} {t u : Ty}
    (old : before[m]? = some t) (new : after[m]? = some u) (differ : t ≠ u) :
    totalHeight before < totalHeight after := by
  induction before generalizing after m with
  | nil => simp at old
  | cons first types ih =>
      obtain ⟨second, rest, rfl, rises, later⟩ := climbs.of_cons
      cases m with
      | zero =>
          cases old
          cases new
          exact Nat.add_lt_add_of_lt_of_le (rises.resolve_left differ) later.totalHeight_le
      | succ m => exact Nat.add_lt_add_of_le_of_lt rises.height_le (ih later old new)

end Climbs

theorem typeOf_merge_of_getElem? {vars : Variables} {m : Nat} {t : Ty}
    (found : vars.merges[m]? = some t) : vars.typeOf (.merge m) = t := by
  simp [Variables.typeOf, found]

theorem rises_widest (vars : Variables) (m : Nat) (values : List Value) :
    (vars.typeOf (.merge m)).Rises (widest vars m values) := by
  have folded : widest vars m values =
      ((values.filter (· != .merge m)).map vars.typeOf).foldl Ty.join (vars.typeOf (.merge m)) :=
    List.foldl_map.symm
  rw [folded]
  exact Ty.rises_foldl_join _ _

theorem Filled.climbs {vars : Variables} {merge : Option Nat} {values : List Value} {slot : Slot}
    (filled : Filled vars merge values slot) : Climbs vars.merges slot.vars.merges := by
  cases filled with
  | owned m values =>
      refine .set fun t found => ?_
      rw [← typeOf_merge_of_getElem? found]
      exact rises_widest vars m values
  | empty => exact .refl _
  | shared same => exact .refl _
  | split differ t => exact .append _ _

theorem Filled.totalHeight {vars : Variables} {merge : Option Nat} {values : List Value}
    {slot : Slot} (filled : Filled vars merge values slot) :
    totalHeight vars.merges + slot.widened.toNat ≤ totalHeight slot.vars.merges := by
  -- A slot whose type widens has a merge variable of the table: others are of unknown type.
  have climbs := filled.climbs
  cases widened : slot.widened with
  | false => exact climbs.totalHeight_le
  | true =>
      cases filled with
      | owned m values =>
          have differ : widest vars m values ≠ vars.typeOf (.merge m) := by simpa using widened
          cases found : vars.merges[m]? with
          | none =>
              have top : vars.typeOf (.merge m) = .unknown := by simp [Variables.typeOf, found]
              have up := (rises_widest vars m values).resolve_left differ.symm
              rw [top] at up
              exact absurd up (Nat.not_lt_of_le (Ty.height_le_four _))
          | some t =>
              have new : (vars.merges.set m (widest vars m values))[m]? =
                  some (widest vars m values) :=
                List.getElem?_set_self (List.getElem?_eq_some_iff.mp found).1
              rw [typeOf_merge_of_getElem? found] at differ
              exact climbs.totalHeight_lt found new differ.symm
      | empty => cases widened
      | shared same => cases widened
      | split differ t => cases widened

theorem mergeSlots_climbs (vars : Variables) (merges : List (Option Nat))
    (columns : List (List Value)) :
    Climbs vars.merges (mergeSlots vars merges columns).vars.merges ∧
      totalHeight vars.merges + (mergeSlots vars merges columns).widened.toNat ≤
        totalHeight (mergeSlots vars merges columns).vars.merges := by
  induction columns generalizing vars merges with
  | nil => exact ⟨.refl _, Nat.le_refl _⟩
  | cons values columns ih =>
      obtain ⟨slot, filled, eq⟩ := mergeSlots_cons vars merges values columns
      obtain ⟨later, laterHeight⟩ := ih slot.vars merges.tail
      rw [eq]
      have height := filled.totalHeight
      have either : ∀ a b : Bool, (a || b).toNat ≤ a.toNat + b.toNat := by decide
      have widened := either slot.widened (mergeSlots slot.vars merges.tail columns).widened
      exact ⟨filled.climbs.trans later, by dsimp only; omega⟩

def widens (job : Job) (s : Build) (id : Nat) : Bool :=
  s.sites[id]?.any fun site => (candidate job.graph s id site).toOption.any (·.widened)

theorem widens_of_candidate {job : Job} {s : Build} {id : Nat} {site : Site} {c : Candidate}
    (located : s.sites[id]? = some site) (computed : candidate job.graph s id site = .ok c) :
    widens job s id = c.widened := by
  simp [widens, located, computed, Except.toOption]

theorem Outcome.merges {job : Job} {id : Nat} {s : Build} {replays : Bool}
    {result : Except ReplayError (Option Bool) × Build}
    (outcome : Outcome job id s replays result) :
    (result.2.vars.merges = s.vars.merges ∧ widens job s id = false) ∨
      ∃ merges columns, result.2.vars.merges = (mergeSlots s.vars merges columns).vars.merges ∧
        widens job s id = (mergeSlots s.vars merges columns).widened := by
  cases outcome with
  | absent missing => exact .inl ⟨rfl, by simp [widens, missing]⟩
  | mismatched located failed =>
      exact .inl ⟨rfl, by simp [widens, located, failed, Except.toOption]⟩
  | current located computed | exhausted located computed =>
      have widens := widens_of_candidate located computed
      obtain ⟨columns, rfl⟩ := candidate_mergeSlots computed
      exact .inr ⟨_, columns, rfl, widens⟩
  | failed located computed _ _ ran | replayed located computed _ _ ran =>
      have widens := widens_of_candidate located computed
      obtain ⟨columns, rfl⟩ := candidate_mergeSlots computed
      obtain ⟨p, grows, rfl⟩ := replayBlock_grows ran
      exact .inr ⟨_, columns, grows.merges, widens⟩

theorem visit_climbs (job : Job) (id : Nat) (s : Build) :
    Climbs s.vars.merges (visit job id s).2.vars.merges ∧
      totalHeight s.vars.merges + (widens job s id).toNat ≤
        totalHeight (visit job id s).2.vars.merges := by
  obtain ⟨replays, outcome⟩ := exists_outcome job id s
  rcases outcome.merges with ⟨same, narrow⟩ | ⟨merges, columns, same, widens⟩
  · rw [same, narrow]
    exact ⟨.refl _, Nat.le_refl _⟩
  · rw [same, widens]
    exact mergeSlots_climbs s.vars merges columns

def states (job : Job) (s : Build) (turns : List Turn) : List Build :=
  turns.scanl (fun s turn => (visit job turn.block s).2) s

def typesOf (m : Nat) (states : List Build) : List Ty := states.filterMap (·.vars.merges[m]?)

def widenings (job : Job) (s : Build) (turns : List Turn) : Nat :=
  ((states job s turns).zip turns).countP fun step => widens job step.1 step.2.block

section States

variable (job : Job) (s : Build) (turn : Turn) (turns : List Turn)

theorem states_cons :
    states job s (turn :: turns) = s :: states job (visit job turn.block s).2 turns :=
  List.scanl_cons

theorem widenings_cons :
    widenings job s (turn :: turns) =
      widenings job (visit job turn.block s).2 turns + (widens job s turn.block).toNat := by
  rw [widenings, states_cons, List.zip_cons_cons, List.countP_cons]
  cases widens job s turn.block <;> rfl

variable {job s turns}

theorem climbs_of_mem_states {t : Build} (member : t ∈ states job s turns) :
    Climbs s.vars.merges t.vars.merges := by
  induction turns generalizing s with
  | nil =>
      rw [List.mem_singleton.mp member]
      exact .refl _
  | cons turn turns ih =>
      rw [states_cons] at member
      rcases List.mem_cons.mp member with rfl | later
      · exact .refl _
      · exact (visit_climbs job turn.block s).1.trans (ih later)

theorem pairwise_typesOf (m : Nat) : (typesOf m (states job s turns)).Pairwise Ty.Rises := by
  have climbing :
      (states job s turns).Pairwise fun t u => Climbs t.vars.merges u.vars.merges := by
    induction turns generalizing s with
    | nil => exact List.pairwise_singleton _ _
    | cons turn turns ih =>
        rw [states_cons, List.pairwise_cons]
        refine ⟨fun t member => ?_, ih⟩
        exact (visit_climbs job turn.block s).1.trans (climbs_of_mem_states member)
  refine List.pairwise_filterMap.mpr (climbing.imp fun climbs t found u next => ?_)
  obtain ⟨u', next', rises⟩ := climbs m t found
  rw [next] at next'
  cases next'
  exact rises

end States

theorem Run.states {job : Job} {worklist : List Nat} {count : Nat} {s : Build} {turns : List Turn}
    {result : Except ReplayError Nat × Build} (run : Run job worklist count s turns result) :
    (Build.states job s turns).getLast? = some result.2 ∧
      totalHeight s.vars.merges + widenings job s turns ≤ totalHeight result.2.vars.merges := by
  induction run with
  | done none => exact ⟨rfl, Nat.le_refl _⟩
  | @fail worklist rest id count s after replays e next outcome =>
      have height := (visit_climbs job id s).2
      rw [outcome.visit_eq] at height
      refine ⟨by simp [Build.states, outcome.visit_eq], ?_⟩
      rw [widenings_cons]
      simpa [widenings, Build.states] using height
  | @go worklist rest id count s after replays changed turns result next outcome run ih =>
      have height := (visit_climbs job id s).2
      obtain ⟨last, later⟩ := ih
      rw [widenings_cons, states_cons, outcome.visit_eq, List.getLast?_cons, last]
      rw [outcome.visit_eq] at height
      exact ⟨rfl, by dsimp only at height ⊢; omega⟩

/-- A type that is joined with others one after another changes at most four times and never
comes back. So does the type of every merge variable in the course of a search from the roots, and
the turns that widen a type are at most four for each merge variable. -/
theorem converge_widenings (t : Ty) (types : List Ty) (job : Job) (s : Build) :
    (changes (types.scanl Ty.join t) ≤ 4 ∧ NeverReturns (types.scanl Ty.join t)) ∧
    (∃ turns, Converges job s turns (converge job s)) ∧
    ∀ turns result, Converges job s turns result →
      (states job s turns).getLast? = some result.2 ∧
      (∀ m, changes (typesOf m (states job s turns)) ≤ 4 ∧
        NeverReturns (typesOf m (states job s turns))) ∧
      widenings job s turns ≤ 4 * result.2.vars.merges.length := by
  have joins := Ty.pairwise_scanl_join t types
  refine ⟨⟨Ty.changes_le_four joins, Ty.neverReturns_of_rising joins⟩, exists_run .., ?_⟩
  intro turns result run
  obtain ⟨last, spent⟩ := Run.states run
  refine ⟨last, fun m => ?_, ?_⟩
  · have rising : (typesOf m (states job s turns)).Pairwise Ty.Rises := pairwise_typesOf m
    exact ⟨Ty.changes_le_four rising, Ty.neverReturns_of_rising rising⟩
  · have most := totalHeight_le result.2.vars.merges
    omega

def ladder : Job where
  cx := .blank
  listing :=
    [⟨0, 0, 1, .ldnull, .none⟩,
     ⟨1, 1, 1, .pop, .none⟩, ⟨2, 2, 1, .ldarg0, .none⟩, ⟨3, 3, 1, .ldarg2, .none⟩,
     ⟨4, 4, 2, .brtrueS, .target 1⟩,
     ⟨5, 6, 1, .pop, .none⟩, ⟨6, 7, 1, .ldarg1, .none⟩, ⟨7, 8, 1, .ldarg2, .none⟩,
     ⟨8, 9, 2, .brtrueS, .target 1⟩,
     ⟨9, 11, 1, .pop, .none⟩, ⟨10, 12, 1, .ldarg2, .none⟩, ⟨11, 13, 2, .brS, .target 1⟩]
  graph :=
    { blocks := [⟨0, 0, [1], [], none⟩, ⟨1, 4, [1, 2], [0, 1, 2, 3], none⟩,
        ⟨5, 8, [1, 3], [1], none⟩, ⟨9, 11, [1], [2], none⟩]
      roots := [(0, .entry)] }
  maxVisits := 16

def ladderStart : Build :=
  start ladder.graph { params := [.string, .array .int32, .int32] }

theorem ladder_widenings :
    (converge ladder ladderStart).2.vars.merges = [.unknown] ∧
    ∃ turns, Converges ladder ladderStart turns (converge ladder ladderStart) ∧
      (∀ m, changes (typesOf m (states ladder ladderStart turns)) ≤ 4 ∧
        NeverReturns (typesOf m (states ladder ladderStart turns))) ∧
      widenings ladder ladderStart turns ≤ 4 := by
  have merges : (converge ladder ladderStart).2.vars.merges = [.unknown] :=
    converge_of_searchWithin 8 (f := fun r => r.2.vars.merges) (by decide +kernel)
  obtain ⟨-, ⟨turns, run⟩, all⟩ := converge_widenings .string [] ladder ladderStart
  obtain ⟨-, each, total⟩ := all turns _ run
  rw [merges] at total
  exact ⟨merges, turns, run, each, total⟩

example :
    typesOf 0 (states ladder ladderStart ([0, 1, 1, 2, 1, 3, 1].map (⟨·, true⟩))) =
      [.string, .string, .object, .object, .unknown] := by
  decide +kernel

end Build
end Destack
