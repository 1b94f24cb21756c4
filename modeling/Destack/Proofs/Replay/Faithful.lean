import Destack.Proofs.Replay.Uniform

/-!
# Replays that repeat one another

A block that is replayed again takes its temporaries from the list that the first replay left, in
the same order, and gives each the type that it needs. So the second replay does what the first
did, as long as the two variable tables agree on the types that the block can ask for: those of
declared variables, and of the values that the block is entered with.
-/

namespace Destack
namespace Replay

/-! ## What a replay leaves alone -/

def final {α : Type} (x : Replay α) (p : Progress) : Progress :=
  match x p with
  | .ok _ q | .error _ q => q

section Final

variable {α β : Type} {x : Replay α} {f : α → Replay β} {p q : Progress}

theorem final_bind_ok {a : α} (ran : x p = .ok a q) : final (x >>= f) p = final (f a) q := by
  simp only [final, bind_apply, ran]

theorem final_bind_error {e : ReplayError} (ran : x p = .error e q) :
    final (x >>= f) p = final x p := by
  simp only [final, bind_apply, ran]

end Final

def Allocated (vars : Variables) (temps : List Nat) : Prop := ∀ id ∈ temps, id < vars.temps.length

structure Grows (p q : Progress) : Prop where
  locals : q.vars.locals = p.vars.locals
  params : q.vars.params = p.vars.params
  merges : q.vars.merges = p.vars.merges
  allocation : p.vars.temps.length ≤ q.vars.temps.length
  temps : p.temps <+: q.temps
  used : p.used ≤ q.used
  allocated : Allocated p.vars p.temps → Allocated q.vars q.temps

theorem Grows.of_eq {p q : Progress} (vars : q.vars = p.vars) (temps : q.temps = p.temps)
    (used : q.used = p.used) : Grows p q := by
  constructor <;> simp only [vars, temps, used, imp_self, le_refl, List.prefix_rfl]

theorem Grows.refl (p : Progress) : Grows p p := .of_eq rfl rfl rfl

theorem Grows.trans {p q r : Progress} (first : Grows p q) (second : Grows q r) : Grows p r where
  locals := second.locals.trans first.locals
  params := second.params.trans first.params
  merges := second.merges.trans first.merges
  allocation := first.allocation.trans second.allocation
  temps := first.temps.trans second.temps
  used := first.used.trans second.used
  allocated := second.allocated ∘ first.allocated

/-! ## Two replays side by side -/

/-- Values whose types both replays agree on: those that the block is entered with, declared
variables, constants, and the temporaries that were used so far. -/
def Known (entry : List Value) (p : Progress) (v : Value) : Prop :=
  Usable entry v ∨ ∃ i < p.used, ∃ id, p.temps[i]? = some id ∧ v = .temp id

theorem Known.mono {entry : List Value} {p q : Progress} {v : Value} (known : Known entry p v)
    (grows : Grows p q) : Known entry q v := by
  rcases known with usable | ⟨i, used, id, found, rfl⟩
  · exact .inl usable
  · refine .inr ⟨i, Nat.lt_of_lt_of_le used grows.used, id, ?_, rfl⟩
    obtain ⟨more, extended⟩ := grows.temps
    rw [← extended, List.getElem?_append_left (List.getElem?_eq_some_iff.mp found).1, found]

structure Matches (entry : List Value) (p q : Progress) : Prop where
  stack : q.stack = p.stack
  stmts : q.stmts = p.stmts
  diagnostics : q.diagnostics = p.diagnostics
  used : q.used = p.used
  used_le : p.used ≤ p.temps.length
  temps : p.temps <+: q.temps
  allocated : Allocated p.vars p.temps
  allocatedAgain : Allocated q.vars q.temps
  types : ∀ v, Known entry p v → q.vars.typeOf v = p.vars.typeOf v
  held : ∀ v ∈ p.stack, Known entry p v

inductive Agree {α : Type} (entry : List Value) (gives : α → List Value) :
    EStateM.Result ReplayError Progress α → EStateM.Result ReplayError Progress α → Prop
  | ok {a : α} {p q : Progress} (matching : Matches entry p q)
      (known : ∀ v ∈ gives a, Known entry p v) : Agree entry gives (.ok a p) (.ok a q)
  | error {e : ReplayError} {p q : Progress} : Agree entry gives (.error e p) (.error e q)

/-- A step does the same in both replays, provided that the second has all the temporaries that
the first will need. -/
structure Faithful {α : Type} (entry given : List Value) (x : Replay α)
    (gives : α → List Value) : Prop where
  grows : ∀ p, Grows p (final x p)
  agrees : ∀ p q, Matches entry p q → (∀ v ∈ given, Known entry p v) →
    (final x p).temps <+: q.temps → Agree entry gives (x p) (x q)

variable {α β : Type} {entry given : List Value}

theorem known_of_usable {p : Progress} (known : ∀ v ∈ given, Known entry p v) {v : Value}
    (usable : Usable given v) : Known entry p v := by
  rcases usable with member | fixed
  · exact known v member
  · exact .inl (.inr fixed)

/-! ## Primitive steps -/

namespace Faithful

theorem ret {gives : α → List Value} {a : α} (usable : ∀ v ∈ gives a, Usable given v) :
    Faithful entry given (pure a) gives where
  grows p := .refl p
  agrees _ _ matching known _ :=
    .ok matching fun v member => known_of_usable known (usable v member)

theorem fail {gives : α → List Value} (e : ReplayError) :
    Faithful entry given (throw e : Replay α) gives where
  grows p := .refl p
  agrees _ _ _ _ _ := .error

theorem bind {x : Replay α} {f : α → Replay β} {middle : α → List Value} {gives : β → List Value}
    (first : Faithful entry given x middle)
    (rest : ∀ a, Returns x a → Faithful entry (middle a ++ given) (f a) gives) :
    Faithful entry given (x >>= f) gives where
  grows p := by
    have here := first.grows p
    simp only [final, bind_apply] at here ⊢
    cases ran : x p with
    | ok a after =>
        simp only [ran] at here ⊢
        exact here.trans ((rest a ⟨p, after, ran⟩).grows after)
    | error e after =>
        simp only [ran] at here ⊢
        exact here
  agrees p q matching known enough := by
    -- The temporaries of the whole are enough for each part, since parts only add some.
    have here := first.grows p
    have agreed := first.agrees p q matching known
    have growsAgain := first.grows q
    simp only [final, bind_apply] at here agreed growsAgain enough ⊢
    cases ran : x p with
    | ok a after =>
        simp only [ran] at here agreed enough ⊢
        have continued := rest a ⟨p, after, ran⟩
        have later := continued.grows after
        cases ranAgain : x q with
        | ok b afterAgain =>
            rw [ranAgain] at agreed growsAgain
            cases agreed (later.temps.trans enough) with
            | ok matchingAfter handed =>
                refine continued.agrees after afterAgain matchingAfter ?_
                  (enough.trans growsAgain.temps)
                intro v member
                rcases List.mem_append.mp member with member | member
                · exact handed v member
                · exact (known v member).mono here
        | error e afterAgain =>
            rw [ranAgain] at agreed
            cases agreed (later.temps.trans enough)
    | error e after =>
        simp only [ran] at agreed enough ⊢
        cases ranAgain : x q with
        | ok b afterAgain =>
            rw [ranAgain] at agreed
            cases agreed enough
        | error e afterAgain =>
            rw [ranAgain] at agreed
            cases agreed enough
            exact .error

theorem look {gives : α → List Value} {f : Progress → α}
    (depends : ∀ p q : Progress, q.stack = p.stack → q.stmts = p.stmts →
      (∀ v, Usable given v → q.vars.typeOf v = p.vars.typeOf v) → f q = f p)
    (usable : ∀ p, ∀ v ∈ gives (f p), Usable given v) :
    Faithful entry given (inspect f) gives where
  grows p := .refl p
  agrees p q matching known _ := by
    have same : f q = f p := depends p q matching.stack matching.stmts fun v usable =>
      matching.types v (known_of_usable known usable)
    change Agree entry gives (.ok (f p) p) (.ok (f q) q)
    rw [same]
    exact .ok matching fun v member => known_of_usable known (usable p v member)

theorem change {f : Progress → Progress} (vars : ∀ p, (f p).vars = p.vars)
    (temps : ∀ p, (f p).temps = p.temps) (used : ∀ p, (f p).used = p.used)
    (carries : ∀ p q, Matches entry p q → (∀ v ∈ given, Known entry p v) →
      Matches entry (f p) (f q)) : Faithful entry given (modify f) nothing where
  grows p := .of_eq (vars p) (temps p) (used p)
  agrees p q matching known _ := .ok (carries p q matching known) (by simp [nothing])

theorem push {v : Value} (usable : Usable given v) :
    Faithful entry given (push v) nothing := by
  refine change (fun _ => rfl) (fun _ => rfl) (fun _ => rfl) fun p q matching known => ?_
  refine { matching with stack := congrArg (v :: ·) matching.stack, held := ?_ }
  intro u member
  rcases List.mem_cons.mp member with rfl | member
  · exact known_of_usable known usable
  · exact matching.held u member

theorem clear : Faithful entry given clear nothing :=
  change (fun _ => rfl) (fun _ => rfl) (fun _ => rfl) fun _ _ matching _ =>
    { matching with stack := rfl, held := by simp }

theorem emitAll (stmts : List Stmt) :
    Faithful entry given (modify fun p => { p with stmts := p.stmts ++ stmts }) nothing :=
  change (fun _ => rfl) (fun _ => rfl) (fun _ => rfl) fun _ _ matching _ =>
    { matching with stmts := congrArg (· ++ stmts) matching.stmts }

theorem note (kind : DiagnosticKind) (instruction : Nat) (message : String) :
    Faithful entry given (note kind instruction message) nothing :=
  change (fun _ => rfl) (fun _ => rfl) (fun _ => rfl) fun _ _ matching _ =>
    { matching with
      diagnostics := congrArg (· ++ [⟨kind, instruction, message⟩]) matching.diagnostics }

theorem ask (q : Query) : Faithful entry given (ask q) nothing :=
  change (fun _ => rfl) (fun _ => rfl) (fun _ => rfl) fun _ _ matching _ => { matching with }

theorem take {x : Replay α} {gives : α → List Value}
    {f : OperandStack → Except ReplayError (α × OperandStack)}
    (takes : ∀ p, x p = withStack p (f p.stack))
    (within : ∀ stack a rest, f stack = .ok (a, rest) →
      (∀ v ∈ gives a, v ∈ stack) ∧ ∀ v ∈ rest, v ∈ stack) :
    Faithful entry given x gives where
  grows p := by
    simp only [final, takes]
    cases f p.stack with
    | ok taken => exact .of_eq rfl rfl rfl
    | error e => exact .refl p
  agrees p q matching known _ := by
    simp only [takes, matching.stack]
    cases taken : f p.stack with
    | ok both =>
        obtain ⟨handed, left⟩ := within _ _ _ taken
        refine .ok { matching with stack := rfl, held := ?_ } ?_
        · exact fun v member => matching.held v (left v member)
        · exact fun v member => matching.held v (handed v member)
    | error e => exact .error

theorem pop (i : Instruction Nat) : Faithful entry given (pop i) fun v => [v] := by
  refine take (f := OperandStack.pop i.opcode i.index) (pop_apply i) fun stack a rest taken => ?_
  cases stack with
  | nil => cases taken
  | cons v stack =>
      cases taken
      exact ⟨by simp, fun u member => List.mem_cons_of_mem _ member⟩

theorem popMany (i : Instruction Nat) (count : Nat) :
    Faithful entry given (popMany i count) id :=
  take (f := OperandStack.popMany count i.opcode i.index) (popMany_apply i count)
    fun _ _ _ taken => mem_popMany taken

theorem peekMany (i : Instruction Nat) (count : Nat) :
    Faithful entry given (peekMany i count) id := by
  refine take (f := fun stack => (stack.popMany count i.opcode i.index).map fun both =>
    (both.1, stack)) (peekMany_apply i count) fun stack values rest taken => ?_
  cases popped : stack.popMany count i.opcode i.index with
  | error e =>
      rw [popped] at taken
      cases taken
  | ok both =>
      rw [popped] at taken
      cases taken
      exact ⟨(mem_popMany popped).1, fun _ member => member⟩

end Faithful

/-! ## Temporaries -/

theorem temp_reused {p : Progress} {id : Nat} (t : Ty) (found : p.temps[p.used]? = some id) :
    temp t p =
      .ok (.temp id) { p with vars := p.vars.setTemp id t, used := p.used + 1 } := by
  simp only [temp, bind, EStateM.bind, get, getThe, MonadStateOf.get, EStateM.get, found]
  rfl

theorem temp_fresh {p : Progress} (t : Ty) (missing : p.temps[p.used]? = none) :
    temp t p =
      .ok (.temp p.vars.temps.length)
        { p with
          vars := (p.vars.newTemp t).2
          temps := p.temps ++ [p.vars.temps.length]
          used := p.used + 1 } := by
  simp only [temp, bind, EStateM.bind, get, getThe, MonadStateOf.get, EStateM.get, missing]
  rfl

theorem allocated_setTemp {vars : Variables} {temps : List Nat} (id : Nat) (t : Ty)
    (allocated : Allocated vars temps) : Allocated (vars.setTemp id t) temps := by
  simpa [Allocated, Variables.setTemp] using allocated

theorem allocated_newTemp {vars : Variables} {temps : List Nat} (t : Ty)
    (allocated : Allocated vars temps) :
    Allocated (vars.newTemp t).2 (temps ++ [vars.temps.length]) := by
  intro id member
  simp only [Variables.newTemp, List.length_append, List.length_singleton]
  rcases List.mem_append.mp member with member | member
  · exact Nat.lt_succ_of_lt (allocated id member)
  · rw [List.mem_singleton.mp member]
    exact Nat.lt_succ_self _

theorem grows_temp (t : Ty) (p : Progress) : Grows p (final (temp t) p) := by
  cases found : p.temps[p.used]? with
  | some id =>
      simp only [final, temp_reused t found]
      refine ⟨rfl, rfl, rfl, ?_, List.prefix_rfl, Nat.le_succ _, allocated_setTemp id t⟩
      simp [Variables.setTemp]
  | none =>
      simp only [final, temp_fresh t found]
      refine ⟨rfl, rfl, rfl, ?_, List.prefix_append _ _, Nat.le_succ _, allocated_newTemp t⟩
      simp [Variables.newTemp]

theorem temp_eq {p : Progress} (t : Ty) (bounded : p.used ≤ p.temps.length)
    (allocated : Allocated p.vars p.temps) : ∃ id vars temps,
      temp t p = .ok (.temp id) { p with vars, temps, used := p.used + 1 } ∧
        p.temps <+: temps ∧ temps[p.used]? = some id ∧ Allocated vars temps ∧
        ∀ v, vars.typeOf v = if v = .temp id then t else p.vars.typeOf v := by
  cases found : p.temps[p.used]? with
  | some id =>
      exact ⟨id, _, p.temps, temp_reused t found, List.prefix_rfl, found,
        allocated_setTemp id t allocated,
        Variables.typeOf_setTemp t (allocated id (List.mem_of_getElem? found))⟩
  | none =>
      have full : p.used = p.temps.length :=
        Nat.le_antisymm bounded (List.getElem?_eq_none_iff.mp found)
      exact ⟨_, _, _, temp_fresh t found, List.prefix_append _ _, by simp [full],
        allocated_newTemp t allocated, p.vars.typeOf_newTemp t⟩

theorem known_succ {p : Progress} {vars : Variables} {temps : List Nat} {id : Nat}
    {v : Value} (extended : p.temps <+: temps) (found : temps[p.used]? = some id)
    (bounded : p.used ≤ p.temps.length)
    (known : Known entry { p with vars, temps, used := p.used + 1 } v) :
    v = .temp id ∨ Known entry p v := by
  rcases known with usable | ⟨i, used, other, located, rfl⟩
  · exact .inr (.inl usable)
  · rcases Nat.lt_succ_iff_lt_or_eq.mp used with earlier | rfl
    · refine .inr (.inr ⟨i, earlier, other, ?_, rfl⟩)
      obtain ⟨more, rfl⟩ := extended
      rwa [List.getElem?_append_left (Nat.lt_of_lt_of_le earlier bounded)] at located
    · left
      rw [Value.temp.injEq]
      exact Option.some.inj (located.symm.trans found)

namespace Faithful

theorem temp (t : Ty) : Faithful entry given (temp t) fun v => [v] where
  grows := grows_temp t
  agrees p q matching known enough := by
    have grown := grows_temp t p
    obtain ⟨id, vars, temps, ran, extended, found, allocated, types⟩ :=
      temp_eq t matching.used_le matching.allocated
    have boundedAgain : q.used ≤ q.temps.length := by
      rw [matching.used]
      exact matching.used_le.trans matching.temps.length_le
    obtain ⟨other, varsAgain, tempsAgain, ranAgain, extendedAgain, foundAgain, allocatedAgain,
      typesAgain⟩ := temp_eq t boundedAgain matching.allocatedAgain
    simp only [final, ran] at enough grown
    have longer : temps <+: tempsAgain := enough.trans extendedAgain
    -- The list that the second replay starts with has the temporary of the first at its place.
    have same : other = id := by
      obtain ⟨more, rfl⟩ := longer
      rw [matching.used, List.getElem?_append_left (List.getElem?_eq_some_iff.mp found).1,
        found] at foundAgain
      exact (Option.some.inj foundAgain).symm
    subst same
    rw [ran, ranAgain]
    refine .ok { matching with
      used := congrArg (· + 1) matching.used
      used_le := (List.getElem?_eq_some_iff.mp found).1
      temps := longer
      allocated := allocated
      allocatedAgain := allocatedAgain
      types := ?_
      held := fun v member => (matching.held v member).mono grown } ?_
    · intro v known
      simp only [types, typesAgain]
      split
      · rfl
      · rename_i distinct
        exact matching.types v
          ((known_succ extended found matching.used_le known).resolve_left distinct)
    · intro v member
      rw [List.mem_singleton.mp member]
      exact .inr ⟨p.used, Nat.lt_succ_self _, other, found, rfl⟩

theorem contains (v : Value) : Faithful entry given (inspect fun p => p.stack.contains v)
    fun held => if held then [v] else [] where
  grows p := .refl p
  agrees p q matching _ _ := by
    change Agree entry _ (.ok (p.stack.contains v) p) (.ok (q.stack.contains v) q)
    rw [matching.stack]
    refine .ok matching fun u member => ?_
    split at member
    · rename_i held
      rw [List.mem_singleton.mp member]
      exact matching.held v (List.contains_iff_mem.mp held)
    · cases member

theorem replace {old new : Value} (usable : Usable given new) :
    Faithful entry given (modify fun p => { p with stack := p.stack.replace old new }) nothing := by
  refine change (fun _ => rfl) (fun _ => rfl) (fun _ => rfl) fun p q matching known => ?_
  refine { matching with
    stack := congrArg (OperandStack.replace old new) matching.stack
    held := ?_ }
  intro v member
  obtain ⟨u, held, rfl⟩ := List.mem_map.mp member
  split
  · exact known_of_usable known usable
  · exact matching.held u held

end Faithful

def faithful (entry : List Value) : Uniform where
  holds given x gives := Faithful entry given x gives
  ret := Faithful.ret
  bind := Faithful.bind
  fail := Faithful.fail
  look := Faithful.look
  note := Faithful.note
  ask := Faithful.ask
  pop := Faithful.pop
  popMany := Faithful.popMany
  peekMany := Faithful.peekMany
  push := Faithful.push
  clear := Faithful.clear
  temp := Faithful.temp
  contains := Faithful.contains
  replace := Faithful.replace
  emitAll := Faithful.emitAll

end Replay

/-! ## Blocks -/

open Replay

def Shared.begin (s : Shared) (entry : List Value) : Progress :=
  ⟨s.vars, s.temps, 0, .ofSlots entry, [], [], s.queries⟩

def Block.replay (cx : Context) (l : Listing) (b : Block) : Replay Unit := do
  receive b.exception
  performAll cx (b.instructions l)

theorem Block.replay_faithful (cx : Context) (l : Listing) (b : Block) (entry : List Value) :
    Faithful entry [] (b.replay cx l) nothing :=
  (faithful entry).replay cx b.exception (b.instructions l)

theorem replayBlock_eq (cx : Context) (l : Listing) (b : Block) (entry : List Value) (s : Shared) :
    replayBlock cx l b entry s =
      match b.replay cx l (s.begin entry) with
      | .ok _ p =>
        (.ok ⟨p.stmts, p.stack.slots, p.stack.slots.map p.vars.typeOf, p.diagnostics⟩,
          ⟨p.vars, p.temps, p.queries⟩)
      | .error e p => (.error e, ⟨p.vars, p.temps, p.queries⟩) :=
  rfl

theorem replayBlock_grows {cx : Context} {l : Listing} {b : Block} {entry : List Value}
    {s t : Shared} {r : Except ReplayError BlockOutput}
    (ran : replayBlock cx l b entry s = (r, t)) :
    ∃ p, Grows (s.begin entry) p ∧ t = ⟨p.vars, p.temps, p.queries⟩ := by
  have grows := (b.replay_faithful cx l entry).grows (s.begin entry)
  rw [replayBlock_eq] at ran
  simp only [final] at grows
  cases ended : b.replay cx l (s.begin entry) with
  | ok u p =>
      simp only [ended, Prod.mk.injEq] at ran grows
      exact ⟨p, grows, ran.2.symm⟩
  | error e p =>
      simp only [ended, Prod.mk.injEq] at ran grows
      exact ⟨p, grows, ran.2.symm⟩

theorem matches_begin {entry : List Value} {s again : Shared} (temps : s.temps <+: again.temps)
    (allocated : Allocated s.vars s.temps) (allocatedAgain : Allocated again.vars again.temps)
    (locals : again.vars.locals = s.vars.locals) (params : again.vars.params = s.vars.params)
    (types : ∀ v ∈ entry, again.vars.typeOf v = s.vars.typeOf v) :
    Matches entry (s.begin entry) (again.begin entry) where
  stack := rfl
  stmts := rfl
  diagnostics := rfl
  used := rfl
  used_le := Nat.zero_le _
  temps := temps
  allocated := allocated
  allocatedAgain := allocatedAgain
  types v known := by
    rcases known with (member | fixed) | ⟨i, used, -⟩
    · exact types v member
    · exact Variables.typeOf_of_isFixed fixed locals params
    · exact absurd used (Nat.not_lt_zero i)
  held v member := .inl (.inl (List.mem_reverse.mp member))

theorem replayBlock_held {cx : Context} {l : Listing} {b : Block} {entry : List Value}
    {s t : Shared} {output : BlockOutput} (ran : replayBlock cx l b entry s = (.ok output, t))
    (allocated : Allocated s.vars s.temps) :
    ∀ v ∈ output.exitStack, Usable entry v ∨ ∃ id ∈ t.temps, v = .temp id := by
  obtain ⟨p, grows, rfl⟩ := replayBlock_grows ran
  have step := b.replay_faithful cx l entry
  -- The replay is held against itself, with all the temporaries that it ends with.
  let again : Shared := ⟨s.vars.padded p.vars.temps.length, p.temps, s.queries⟩
  have allocatedAgain : Allocated again.vars again.temps := by
    intro id member
    have bounded := grows.allocated allocated id member
    simp only [again, Variables.padded, List.length_append, List.length_replicate]
    omega
  rw [replayBlock_eq] at ran
  cases ended : b.replay cx l (s.begin entry) with
  | error e q => simp [ended] at ran
  | ok u q =>
      simp only [ended, Prod.mk.injEq, Except.ok.injEq, Shared.mk.injEq] at ran
      obtain ⟨rfl, sameVars, sameTemps, -⟩ := ran
      have agreed := step.agrees _ (again.begin entry)
        (matches_begin grows.temps allocated allocatedAgain rfl rfl
          fun v _ => s.vars.typeOf_padded _ v)
        (by simp) (by simp only [final, ended]; rw [sameTemps]; exact List.prefix_rfl)
      rw [ended] at agreed
      intro v member
      have known : Known entry q v := by
        cases endedAgain : b.replay cx l (again.begin entry) with
        | ok u r =>
            rw [endedAgain] at agreed
            cases agreed with
            | ok matching _ => exact matching.held v (List.mem_reverse.mp member)
        | error e r =>
            rw [endedAgain] at agreed
            cases agreed
      rcases known with usable | ⟨i, -, id, found, rfl⟩
      · exact .inl usable
      · exact .inr ⟨id, sameTemps ▸ List.mem_of_getElem? found, rfl⟩

/-- A block that is replayed again, with the temporaries that its replay left and with the same
types for declared variables and for the values on its entry stack, gives the same. -/
theorem replayBlock_again {cx : Context} {l : Listing} {b : Block} {entry : List Value}
    {s t again : Shared} {r : Except ReplayError BlockOutput}
    (ran : replayBlock cx l b entry s = (r, t)) (temps : t.temps <+: again.temps)
    (allocated : Allocated s.vars s.temps) (allocatedAgain : Allocated again.vars again.temps)
    (locals : again.vars.locals = s.vars.locals) (params : again.vars.params = s.vars.params)
    (types : ∀ v ∈ entry, again.vars.typeOf v = s.vars.typeOf v) :
    (replayBlock cx l b entry again).1 = r := by
  have step := b.replay_faithful cx l entry
  have grows := step.grows (s.begin entry)
  rw [replayBlock_eq] at ran ⊢
  have enough : (final (b.replay cx l) (s.begin entry)).temps <+: again.temps := by
    simp only [final]
    cases ended : b.replay cx l (s.begin entry) <;>
      · simp only [ended, Prod.mk.injEq] at ran ⊢
        rw [← ran.2] at temps
        exact temps
  have agreed := step.agrees _ _
    (matches_begin (grows.temps.trans enough) allocated allocatedAgain locals params types)
    (by simp) enough
  cases ended : b.replay cx l (s.begin entry) with
  | ok u p =>
      rw [ended] at ran agreed
      cases endedAgain : b.replay cx l (again.begin entry) with
      | ok u q =>
          rw [endedAgain] at agreed
          cases agreed with
          | ok matching _ =>
              have sameTypes : p.stack.slots.map q.vars.typeOf = p.stack.slots.map p.vars.typeOf :=
                List.map_congr_left fun v member =>
                  matching.types v (matching.held v (List.mem_reverse.mp member))
              simp only [Prod.mk.injEq] at ran
              simp only [matching.stack, matching.stmts, matching.diagnostics, sameTypes, ran.1]
      | error e q =>
          rw [endedAgain] at agreed
          cases agreed
  | error e p =>
      rw [ended] at ran agreed
      cases endedAgain : b.replay cx l (again.begin entry) with
      | ok u q =>
          rw [endedAgain] at agreed
          cases agreed
      | error e q =>
          rw [endedAgain] at agreed
          cases agreed
          exact (Prod.mk.inj ran).1

end Destack
