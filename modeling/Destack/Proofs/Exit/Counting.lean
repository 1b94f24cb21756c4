import Destack.Proofs.Exit.Rounds

namespace Destack

def Scope.isLeftBy (s : Scope Ty) (stmt : Stmt) (i : Nat) : Bool :=
  s.inTry i && match stmt with
    | .leave target => !s.inTry target
    | _ => false

namespace Body

def exitCount (b : Body) (s : Scope Ty) : Nat :=
  b.stmts.zipIdx.countP fun x => s.isLeftBy x.1 x.2

def finallyScopes (b : Body) : List (Scope Ty) := b.scopes.filter (·.isFinally)

/-- The number of ways to pick an exit, or none, of each finally scope whose handler contains the
given scope. -/
def multiplicity (b : Body) (s : Scope Ty) : Nat :=
  ((b.finallyScopes.filter fun a => s.hull.within a.handlerSpan).map fun a =>
    b.exitCount a + 1).prod

end Body

namespace Inlining

theorem length_exits (b : Body) (s : Scope Ty) : (exits b.stmts s).length = b.exitCount s := by
  have distinct : ((b.stmts.zipIdx.filter fun x => s.isLeftBy x.1 x.2).map (·.2)).Nodup := by
    refine List.Nodup.sublist (List.filter_sublist.map _) ?_
    rw [List.zipIdx_map_snd]
    exact List.nodup_range'
  have alike : ((exits b.stmts s).map (·.1)).Perm
      ((b.stmts.zipIdx.filter fun x => s.isLeftBy x.1 x.2).map (·.2)) := by
    refine (List.perm_ext_iff_of_nodup exits_nodup distinct).mpr fun i => ?_
    simp only [List.mem_map, List.mem_filter, Prod.exists, mem_exits,
      List.mem_zipIdx_iff_getElem?]
    constructor
    · rintro ⟨i, target, ⟨here, found, out⟩, rfl⟩
      exact ⟨_, i, ⟨found, by simp [Scope.isLeftBy, here, out]⟩, rfl⟩
    · rintro ⟨stmt, i, ⟨found, left⟩, rfl⟩
      cases stmt with
      | leave target =>
          obtain ⟨here, out⟩ : s.inTry i = true ∧ s.inTry target = false := by
            simpa [Scope.isLeftBy] using left
          exact ⟨i, target, ⟨here, found, out⟩, rfl⟩
      | _ => simp [Scope.isLeftBy] at left
  rw [Body.exitCount, List.countP_eq_length_filter]
  simpa only [List.length_map] using alike.length_eq

theorem weight_ofBody (b : Body) (s : Scope Ty) :
    weight (ofBody b).stmts (ofBody b).scopes s = b.multiplicity s := by
  rw [weight, ofBody, List.filter_map, List.map_map, Body.multiplicity, Body.finallyScopes,
    List.filter_filter]
  simp only [Function.comp_def, Waits, true_and, Bool.decide_eq_true, length_exits, Bool.and_comm]

theorem sum_chosen {α : Type} (l : List α) (q : α → Prop) [DecidablePred q] (v w : α → Nat) :
    (l.map fun a => (if q a then v a else 0) * w a).sum =
      ((l.filter q).map fun a => v a * w a).sum := by
  simp [ite_mul, List.sum_map_ite]

theorem load_ofBody (b : Body) (v : List Stmt → Scope Ty → Nat) :
    load v (ofBody b) = (b.finallyScopes.map fun s => v b.stmts s * b.multiplicity s).sum := by
  rw [load]
  simp only [weight_ofBody]
  rw [ofBody, List.map_map]
  simp only [Function.comp_def, Waits, true_and]
  rw [sum_chosen, Body.finallyScopes]
  simp only [Bool.decide_eq_true]

theorem Treatment.length_handler {b after : Inlining} {m o : Marked} {others : List Marked}
    {p : CopyPlan} (treatment : Treatment b after m others p) (inList : o ∈ others)
    (beside : ¬ p.scope.LiesWithin o.scope) :
    (p.shiftScope false o.scope).handlerSpan.length = o.scope.handlerSpan.length := by
  have ready := treatment.plans.ready
  have other := treatment.other o inList
  have nonempty := other.laid.handlerBegin_lt
  by_cases within : o.scope.LiesWithin p.scope
  · rw [CopyPlan.shiftScope_inside ready other.laid within]
  · rw [CopyPlan.shiftScope_outside ready other within]
    simp only [Scope.handlerSpan, Scope.mapBounds, Span.length]
    have together : o.scope.handlerBegin < p.place → o.scope.handlerEnd < p.place := by
      intro starts
      by_contra reaches
      exact beside ⟨_, o.scope.handlerSpan_mem, CopyPlan.around_of_reaches ready other within
        o.scope.handlerSpan_mem starts (Nat.le_of_not_lt reaches)⟩
    rcases Nat.lt_or_ge o.scope.handlerBegin p.place with before | behind
    · rw [CopyPlan.shift_of_lt before, CopyPlan.shift_of_lt (together before)]
    · rw [CopyPlan.shift_of_le behind, CopyPlan.shift_of_le (by omega)]
      omega

theorem length_handler_copied (p : CopyPlan) (exit : Nat) (s : Scope Ty) :
    (p.copied exit s).handlerSpan.length = s.handlerSpan.length :=
  Nat.add_sub_add_right ..

namespace Treated

variable {n : Nat} {b c : Inlining}

theorem copies_add_load (treated : Treated n b c)
    (sound : Sound b.stmts (b.scopes.map (·.scope))) :
    c.copies + load (fun stmts s => (exits stmts s).length) c =
      b.copies + load (fun stmts s => (exits stmts s).length) b := by
  refine treated.conserved (f := fun d => d.copies + load _ d)
    (fun treatment waits alone => ?_) sound
  rw [treatment.copies, treatment.exits_eq,
    treatment.load_eq waits alone (fun o inList beside => treatment.exits_placed inList beside)
      fun o inList fits exit bound => treatment.exits_duplicate inList fits bound,
    Nat.add_assoc]

theorem length_add_load (treated : Treated n b c)
    (sound : Sound b.stmts (b.scopes.map (·.scope))) :
    c.stmts.length + load (fun stmts s => (exits stmts s).length * s.handlerSpan.length) c =
      b.stmts.length + load (fun stmts s => (exits stmts s).length * s.handlerSpan.length) b := by
  refine treated.conserved (f := fun d => d.stmts.length + load _ d)
    (fun {b after m others p} treatment waits alone => ?_) sound
  have moved : ∀ o ∈ others, ¬ p.scope.LiesWithin o.scope → _ := fun o inList beside =>
    congrArg₂ (· * ·) (treatment.exits_placed inList beside)
      (treatment.length_handler inList beside)
  have copied : ∀ o ∈ others, o.scope.hull.within p.handler = true →
      ∀ exit < p.exits.length, _ := fun o inList fits exit bound =>
    congrArg₂ (· * ·) (treatment.exits_duplicate inList fits bound)
      (length_handler_copied p exit o.scope)
  rw [treatment.length_stmts, treatment.load_eq waits alone moved copied, CopyPlan.growth,
    CopyPlan.handler, treatment.exits_eq, treatment.scope, Nat.add_assoc]

end Treated

/-- What the scopes stem from after a treatment, as numbers of scopes of the body that was given:
scopes stay where they were, and the copies of a scope stem from what it stems from. -/
def descend (b : Inlining) (number : Nat) (m : Marked) (origins : List Nat) : List Nat :=
  let copied := ((b.scopes.zip origins).eraseIdx number).filter fun x =>
    liesIn x.1.scope m.scope.handlerSpan
  origins ++ copied.flatMap fun x => List.replicate (exits b.stmts m.scope).length x.2

def originsAfter : Nat → Inlining → List Nat → List Nat
  | 0, _, origins => origins
  | rounds + 1, b, origins =>
    match next? b.scopes with
    | none => origins
    | some number =>
      match b.scopes[number]? with
      | none => origins
      | some m => originsAfter rounds (b.treat number m) (descend b number m origins)

theorem originsAfter_induction {P : Inlining → List Nat → Prop}
    (kept : ∀ b number m origins, P b origins → b.scopes[number]? = some m →
      number ∈ outermost b.scopes → P (b.treat number m) (descend b number m origins))
    (rounds : Nat) (b c : Inlining) (origins : List Nat) (start : P b origins)
    (ran : b.run rounds = some c) : P c (originsAfter rounds b origins) := by
  induction rounds generalizing b origins with
  | zero =>
      cases ran
      exact start
  | succ rounds ih =>
      rw [run] at ran
      rw [originsAfter]
      cases chosen : next? b.scopes with
      | none =>
          rw [chosen] at ran
          cases ran
          exact start
      | some number =>
          rw [chosen] at ran
          dsimp only at ran ⊢
          cases found : b.scopes[number]? with
          | none =>
              rw [found] at ran
              cases ran
              exact start
          | some m =>
              simp only [found, Option.ite_none_right_eq_some] at ran
              exact ih _ _ (kept b number m origins start found
                (mem_outermost_of_next? chosen)) ran.2

structure Descent (b after : Inlining) (origins origins' : List Nat) (m : Marked) (origin : Nat)
    (others : List (Marked × Nat)) (p : CopyPlan) : Prop where
  treatment : Treatment b after m (others.map (·.1)) p
  listed : (b.scopes.zip origins).Perm ((m, origin) :: others)
  scopes : (after.scopes.zip origins').Perm ((⟨m.scope, true⟩, origin) ::
    (others.map (fun x => (placed p x.1, x.2)) ++
      (others.filter fun x => x.1.scope.hull.within p.handler).flatMap fun x =>
        (List.range p.exits.length).map fun exit => (duplicate p exit x.1, x.2)))
  length_eq : origins'.length = after.scopes.length
  kept : origins <+: origins'

theorem zip_flatMap_replicate {α β γ : Type} (l : List α) (f : α → List β) (g : α → γ) {k : Nat}
    (size : ∀ a ∈ l, (f a).length = k) :
    (l.flatMap f).zip (l.flatMap fun a => List.replicate k (g a)) =
      l.flatMap fun a => (f a).map fun x => (x, g a) := by
  induction l with
  | nil => rfl
  | cons a l ih =>
      have first := size a List.mem_cons_self
      have copies : (f a).zip (List.replicate k (g a)) = (f a).map fun x => (x, g a) := by
        rw [List.map_prod_left_eq_zip, List.map_const', first]
      simp only [List.flatMap_cons]
      rw [List.zip_append (by rw [first, List.length_replicate]), copies,
        ih fun a' member => size a' (List.mem_cons_of_mem a member)]

theorem Treatment.zip_copiedScopes {b after : Inlining} {m : Marked} {others : List (Marked × Nat)}
    {p : CopyPlan} (treatment : Treatment b after m (others.map (·.1)) p) :
    p.copiedScopes.zip ((others.filter fun x => x.1.scope.hull.within p.handler).flatMap fun x =>
        List.replicate p.exits.length x.2) =
      (others.filter fun x => x.1.scope.hull.within p.handler).flatMap fun x =>
        (List.range p.exits.length).map fun exit => (duplicate p exit x.1, x.2) := by
  rw [treatment.copiedScopes_eq, List.filter_map, List.flatMap_map]
  refine (zip_flatMap_replicate _ _ _ fun x _ => ?_).trans ?_
  · rw [List.length_map, List.length_range]
  · simp only [List.map_map, Function.comp_def]

theorem exists_split_pair {α β : Type} {l : List α} {l' : List β} {number : Nat} {a : α}
    (aligned : l'.length = l.length) (found : l[number]? = some a) :
    ∃ left right before b behind, l = left ++ a :: right ∧ l' = before ++ b :: behind ∧
      left.length = number ∧ before.length = number ∧ right.length = behind.length := by
  obtain ⟨left, right, split, rfl⟩ := exists_split found
  obtain ⟨b, there⟩ : ∃ b, l'[left.length]? = some b :=
    ⟨_, List.getElem?_eq_getElem (by rw [aligned, split]; simp)⟩
  obtain ⟨before, behind, split', sameLength⟩ := exists_split there
  refine ⟨left, right, before, b, behind, split, split', rfl, sameLength, ?_⟩
  rw [split, split'] at aligned
  simp only [List.length_append, List.length_cons] at aligned
  omega

theorem descent_of_outermost {b : Inlining} {number : Nat} {m : Marked} {origins : List Nat}
    (sound : Sound b.stmts (b.scopes.map (·.scope))) (aligned : origins.length = b.scopes.length)
    (found : b.scopes[number]? = some m) (chosen : number ∈ outermost b.scopes) :
    ∃ origin others p, Descent b (b.treat number m) origins (descend b number m origins) m origin
      others p ∧ Waits m ∧ ∀ x ∈ others, Waits x.1 → ¬ p.scope.LiesWithin x.1.scope := by
  obtain ⟨left, right, before, origin, behind, split, split', rfl, sameLength, sizes⟩ :=
    exists_split_pair aligned found
  obtain ⟨waits, alone⟩ := alone_of_outermost sound split chosen
  -- Both lists are split at the treated scope, so that every scope stays beside its origin.
  let others := left.zip before ++ right.zip behind
  have marked : others.map (·.1) = left ++ right := by
    rw [List.map_append, List.map_fst_zip sameLength.ge, List.map_fst_zip sizes.le]
  have pairs : b.scopes.zip origins = left.zip before ++ (m, origin) :: right.zip behind := by
    rw [split, split', List.zip_append sameLength.symm, List.zip_cons_cons]
  have erased : (b.scopes.zip origins).eraseIdx left.length = others := by
    have size : (left.zip before).length = left.length := by
      rw [List.length_zip, sameLength, min_self]
    rw [pairs, List.eraseIdx_append_of_length_le size.le, size, Nat.sub_self]
    rfl
  obtain ⟨p, planned⟩ : ∃ p, p = plan b.stmts m.scope (left ++ right) := ⟨_, rfl⟩
  have treatment := treatment_of_split sound split waits.2
  rw [← planned, ← marked] at treatment
  have itself : p.shiftScope true m.scope = m.scope := by
    rw [← treatment.scope]
    exact treatment.plans.ready.shiftScope_itself
  let moved := left.map (placed p) ++ ⟨m.scope, true⟩ :: right.map (placed p)
  have scopes : (b.treat left.length m).scopes = moved ++ p.copiedScopes := by
    rw [treat_scopes split planned, itself]
  let copies := (others.filter fun x => x.1.scope.hull.within p.handler).flatMap fun x =>
    List.replicate p.exits.length x.2
  have descends : descend b left.length m origins = origins ++ copies := by
    simp only [descend, erased, copies, treatment.exits_eq, CopyPlan.handler, treatment.scope]
    rfl
  have alongside : moved.zip origins =
      (left.zip before).map (fun x => (placed p x.1, x.2)) ++ (⟨m.scope, true⟩, origin) ::
        (right.zip behind).map fun x => (placed p x.1, x.2) := by
    rw [split', List.zip_append (by rw [List.length_map, sameLength]), List.zip_cons_cons,
      List.zip_map_left, List.zip_map_left]
    rfl
  have lengths : moved.length = origins.length := by
    rw [aligned, split]
    simp only [moved, List.length_append, List.length_cons, List.length_map]
  refine ⟨origin, others, p, ⟨treatment, ?_, ?_, ?_, ?_⟩, waits, fun x inList waits' => ?_⟩
  · rw [pairs]
    exact List.perm_middle
  · rw [scopes, descends, List.zip_append lengths, alongside, treatment.zip_copiedScopes,
      List.map_append, List.append_assoc, List.append_assoc, List.cons_append]
    exact List.perm_middle
  · rw [scopes, descends, List.length_append, List.length_append, lengths,
      treatment.copiedScopes_eq, List.filter_map, List.flatMap_map, List.length_flatMap,
      List.length_flatMap]
    simp only [List.length_map, List.length_range, List.length_replicate, Function.comp_def]
  · rw [descends]
    exact List.prefix_append ..
  · rw [treatment.scope]
    exact alone x.1 (marked ▸ List.mem_map_of_mem inList) waits'

def tally (i : Nat) (b : Inlining) (origins : List Nat) : Nat :=
  ((b.scopes.zip origins).map fun x =>
    (if x.2 = i then 1 else 0) * weight b.stmts b.scopes x.1.scope).sum

theorem tally_settled {i : Nat} {b : Inlining} {origins : List Nat}
    (aligned : origins.length = b.scopes.length) (settled : ∀ m ∈ b.scopes, ¬ Waits m) :
    tally i b origins = origins.count i := by
  have ones (s : Scope Ty) : weight b.stmts b.scopes s = 1 :=
    weight_eq_one fun a member waits => absurd waits (settled a member)
  have second : (b.scopes.zip origins).map (·.2) = origins := List.map_snd_zip aligned.le
  conv_rhs => rw [← second]
  rw [tally, sum_chosen, List.count_eq_countP, List.countP_map, List.countP_eq_length_filter]
  simp only [ones, Nat.mul_one, List.map_const', List.sum_replicate, smul_eq_mul,
    Function.comp_def, beq_eq_decide]

theorem filter_zipIdx {α : Type} {l : List α} {i : Nat} {a : α} (found : l[i]? = some a) (n : Nat) :
    (l.zipIdx n).filter (fun x => x.2 = n + i) = [(a, n + i)] := by
  induction l generalizing i n with
  | nil => cases found
  | cons b l ih =>
      rw [List.zipIdx_cons]
      cases i with
      | zero =>
          cases found
          rw [List.filter_cons_of_pos (by simp), List.filter_eq_nil_iff.mpr fun x member => ?_]
          · rfl
          · have := List.le_snd_of_mem_zipIdx member
            simp only [decide_eq_true_eq]
            omega
      | succ i =>
          have later := ih found (n + 1)
          rw [Nat.add_right_comm] at later
          rw [List.filter_cons_of_neg (by simp)]
          exact later

theorem zip_ofBody (b : Body) :
    (ofBody b).scopes.zip (List.range b.scopes.length) = (ofBody b).scopes.zipIdx := by
  rw [List.zipIdx_eq_zip_range', List.range_eq_range', ofBody, List.length_map]

theorem tally_ofBody {b : Body} {i : Nat} {s : Scope Ty} (found : b.scopes[i]? = some s) :
    tally i (ofBody b) (List.range b.scopes.length) = b.multiplicity s := by
  have marked : (ofBody b).scopes[i]? = some ⟨s, false⟩ := by
    rw [ofBody, List.getElem?_map, found]
    rfl
  have single := filter_zipIdx marked 0
  rw [Nat.zero_add] at single
  rw [tally, sum_chosen, zip_ofBody, single]
  simp only [List.map_cons, List.map_nil, List.sum_cons, List.sum_nil, Nat.one_mul, Nat.add_zero]
  exact weight_ofBody b s

theorem Treatment.weight_marked {b after : Inlining} {m : Marked} {others : List Marked}
    {p : CopyPlan} (treatment : Treatment b after m others p)
    (alone : ∀ o ∈ others, Waits o → ¬ p.scope.LiesWithin o.scope) :
    weight after.stmts after.scopes m.scope = 1 := by
  have ready := treatment.plans.ready
  have bounds := ready.bounds
  rw [← treatment.scope]
  refine weight_eq_one fun c member waits => ?_
  rw [← Bool.not_eq_true, ready.hull_eq, Span.within_iff]
  rintro ⟨starts, ends⟩
  rcases treatment.mem_scopes.mp member with rfl | ⟨o, inList, rfl⟩ |
    ⟨o, inList, fits, exit, bound, rfl⟩
  · cases waits.1
  · -- A handler that is around the treated scope now was around it before.
    have other := treatment.other o inList
    refine alone o inList (waits_placed.mp waits) ⟨_, o.scope.handlerSpan_mem, ?_⟩
    rw [ready.hull_eq, Span.within_iff]
    by_cases within : o.scope.LiesWithin p.scope
    · simp only [placed, CopyPlan.shiftScope_inside ready other.laid within] at starts ends
      exact ⟨starts, ends⟩
    · simp only [placed, CopyPlan.shiftScope_outside ready other within, Scope.handlerSpan,
        Scope.mapBounds] at starts ends ⊢
      have := p.le_shift o.scope.handlerBegin
      refine ⟨by omega, ?_⟩
      by_contra before
      rw [CopyPlan.shift_of_lt (Nat.lt_of_not_le before)] at ends
      exact before ends
  · have clear := CopyPlan.copied_shift (i := p.scope.tryBegin) ready
      (treatment.other o inList).laid fits bound (Scope.handlerSpan_mem _)
    rw [CopyPlan.shift_of_lt (by omega), ← Bool.not_eq_true, Span.contains_iff] at clear
    simp only [duplicate] at starts ends
    exact clear ⟨starts, by omega⟩

theorem Descent.tally_eq {b after : Inlining} {origins origins' : List Nat} {m : Marked}
    {origin : Nat} {others : List (Marked × Nat)} {p : CopyPlan}
    (descent : Descent b after origins origins' m origin others p) (waits : Waits m)
    (alone : ∀ x ∈ others, Waits x.1 → ¬ p.scope.LiesWithin x.1.scope) (i : Nat) :
    tally i after origins' = tally i b origins := by
  have treatment := descent.treatment
  have alone' : ∀ o ∈ others.map (·.1), Waits o → ¬ p.scope.LiesWithin o.scope :=
    List.forall_mem_map.mpr alone
  rw [tally, (descent.scopes.map _).sum_eq, tally, (descent.listed.map _).sum_eq, List.map_cons,
    List.map_cons, List.sum_cons, List.sum_cons, treatment.weight_treated waits alone',
    treatment.weight_marked alone', List.map_append, List.sum_append, List.map_map,
    List.map_flatMap]
  simp only [List.map_map]
  exact congrArg _ (treatment.weight_shared waits alone' Prod.fst
    (fun x inList => List.mem_map_of_mem inList) fun x : Marked × Nat => if x.2 = i then 1 else 0)

structure Stems (b : Body) (c : Inlining) (origins : List Nat) : Prop where
  sound : Sound c.stmts (c.scopes.map (·.scope))
  aligned : origins.length = c.scopes.length
  own : List.range b.scopes.length <+: origins
  total : ∀ i s, b.scopes[i]? = some s → tally i c origins = b.multiplicity s
  kind : ∀ x ∈ c.scopes.zip origins, ∃ s f, b.scopes[x.2]? = some s ∧
    x.1.scope.kind = s.kind.mapStart f

theorem mapStart_mapStart (f g : Nat → Nat) (kind : HandlerKind Ty) :
    (kind.mapStart f).mapStart g = kind.mapStart (g ∘ f) := by
  cases kind <;> rfl

theorem stems_ofBody {b : Body} (sound : Sound b.stmts b.scopes) :
    Stems b (ofBody b) (List.range b.scopes.length) where
  sound := sound_ofBody sound
  aligned := by rw [List.length_range, ofBody, List.length_map]
  own := List.prefix_rfl
  total := fun _ _ => tally_ofBody
  kind := by
    intro x member
    rw [zip_ofBody, List.mem_zipIdx_iff_getElem?, ofBody, List.getElem?_map,
      Option.map_eq_some_iff] at member
    obtain ⟨s, found, same⟩ := member
    refine ⟨s, id, found, ?_⟩
    rw [← same]
    cases s.kind <;> rfl

theorem Stems.treat {b : Body} {c : Inlining} {origins : List Nat} {number : Nat} {m : Marked}
    (stems : Stems b c origins) (found : c.scopes[number]? = some m)
    (chosen : number ∈ outermost c.scopes) :
    Stems b (c.treat number m) (descend c number m origins) := by
  obtain ⟨origin, others, p, descent, waits, alone⟩ :=
    descent_of_outermost stems.sound stems.aligned found chosen
  have before {x : Marked × Nat} (inList : x ∈ others) :=
    stems.kind x (descent.listed.mem_iff.mpr (List.mem_cons_of_mem _ inList))
  exact
    { sound := descent.treatment.sound stems.sound
      aligned := descent.length_eq
      own := stems.own.trans descent.kept
      total := fun i s there => (descent.tally_eq waits alone i).trans (stems.total i s there)
      kind := by
        intro x member
        rw [descent.scopes.mem_iff, List.mem_cons, List.mem_append, List.mem_map,
          List.mem_flatMap] at member
        rcases member with rfl | ⟨y, inList, rfl⟩ | ⟨y, kept, made⟩
        · exact stems.kind (m, origin) (descent.listed.mem_iff.mpr List.mem_cons_self)
        · obtain ⟨s, f, there, same⟩ := before inList
          refine ⟨s, p.shift ∘ f, there, ?_⟩
          rw [← mapStart_mapStart, ← same]
          rfl
        · obtain ⟨s, f, there, same⟩ := before (List.mem_filter.mp kept).1
          obtain ⟨exit, -, rfl⟩ := List.mem_map.mp made
          refine ⟨s, (· + p.offset exit) ∘ f, there, ?_⟩
          rw [← mapStart_mapStart, ← same]
          rfl }

theorem stems_run {b : Body} {c : Inlining} {rounds : Nat} (sound : Sound b.stmts b.scopes)
    (ran : (ofBody b).run rounds = some c) :
    Stems b c (originsAfter rounds (ofBody b) (List.range b.scopes.length)) :=
  originsAfter_induction (fun _ _ _ _ stems found chosen => stems.treat found chosen) rounds _ _ _
    (stems_ofBody sound) ran

end Inlining

open Inlining

def Body.origins (b : Body) : List Nat :=
  originsAfter (rounds b) (ofBody b) (List.range b.scopes.length)

/-- How many copies are made, how many statements they have, and how many scopes stem from each
scope, all from numbers of the body as it was given. -/
theorem Body.inlineFinally_counts {b : Body} (verified : b.verify = .ok ())
    (nested : ProperlyNested b.scopes) :
    ∃ count copied, b.inlineFinally = some (count, copied) ∧
      count = (b.finallyScopes.map fun s => b.exitCount s * b.multiplicity s).sum ∧
      copied.stmts.length = b.stmts.length + (b.finallyScopes.map fun s =>
        b.exitCount s * s.handlerSpan.length * b.multiplicity s).sum ∧
      (∀ i s, b.scopes[i]? = some s → b.origins.count i = b.multiplicity s) ∧
      b.origins.length = copied.scopes.length ∧
      List.range b.scopes.length <+: b.origins ∧
      ∀ s' i, (s', i) ∈ copied.scopes.zip b.origins →
        ∃ s f, b.scopes[i]? = some s ∧ s'.kind = s.kind.mapStart f := by
  have sound := (Body.verify_properlyNested.mp ⟨verified, nested⟩).1
  obtain ⟨c, ran, treated, last⟩ := run_rounds_eq sound
  have settled := treated.settled sound last
  have stems := stems_run sound ran
  have copies := treated.copies_add_load (sound_ofBody sound)
  have length := treated.length_add_load (sound_ofBody sound)
  rw [load_eq_zero settled, load_ofBody, Nat.add_zero] at copies length
  simp only [length_exits] at copies length
  refine ⟨_, _, Body.inlineFinally_eq ran, copies.trans (Nat.zero_add _), length,
    fun i s found => ?_, ?_, stems.own, ?_⟩
  · rw [← stems.total i s found, tally_settled stems.aligned settled]
    rfl
  · rw [List.length_map]
    exact stems.aligned
  · intro s' i member
    rw [List.zip_map_left] at member
    obtain ⟨x, inList, same⟩ := List.mem_map.mp member
    cases same
    exact stems.kind x inList

theorem Body.cascade_counts :
    cascade.verify = .ok () ∧ ProperlyNested cascade.scopes ∧
      ∃ copied, cascade.inlineFinally = some (7, copied) ∧ copied.stmts.length = 23 ∧
        cascade.origins.count 2 = 3 := by
  have verified : cascade.verify = .ok () := rfl
  have nested : ProperlyNested cascade.scopes := by decide
  obtain ⟨count, copied, inlined, copies, length, stemming, -⟩ :=
    Body.inlineFinally_counts verified nested
  have seven : count = 7 := copies.trans (by decide)
  exact ⟨verified, nested, copied, seven ▸ inlined, length.trans (by decide),
    (stemming 2 _ rfl).trans (by decide)⟩

end Destack
