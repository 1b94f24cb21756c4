import Destack.Proofs.Replay.Trace

namespace Destack
namespace Replay

variable {start p q : Progress} {hand : List Value} {s : Shape}

def Made (vars : Variables) (values : List Value) : Prop :=
  ∀ id, .temp id ∈ values → id < vars.temps.length

theorem Made.longer {a b : Variables} {values : List Value} (made : Made a values)
    (longer : a.temps.length ≤ b.temps.length) : Made b values :=
  fun id member => Nat.lt_of_lt_of_le (made id member) longer

theorem mem_of_usable {inUse other : List Value} (usable : ∀ v ∈ other, Usable inUse v) {id : Nat}
    (member : .temp id ∈ other) : .temp id ∈ inUse := by
  rcases usable _ member with member | fixed
  · exact member
  · cases fixed

theorem temp_made {inUse : List Value} {t : Ty} {id : Nat}
    (before : Allocated p.vars p.temps ∧ Made p.vars inUse)
    (made : temp t p = .ok (.temp id) q) :
    Allocated q.vars q.temps ∧ Made q.vars (.temp id :: inUse) := by
  obtain ⟨allocated, known⟩ := before
  cases found : p.temps[p.used]? with
  | some next =>
      rw [temp_reused t found] at made
      cases made
      refine ⟨allocated_setTemp id t allocated, fun u member => ?_⟩
      simp only [Variables.setTemp, List.length_set]
      rcases List.mem_cons.mp member with eq | member
      · cases eq
        exact allocated id (List.mem_of_getElem? found)
      · exact known u member
  | none =>
      rw [temp_fresh t found] at made
      cases made
      refine ⟨allocated_newTemp t allocated, fun u member => ?_⟩
      simp only [Variables.newTemp, List.length_append, List.length_singleton]
      rcases List.mem_cons.mp member with eq | member
      · cases eq
        exact Nat.lt_succ_self _
      · exact Nat.lt_succ_of_lt (known u member)

structure Orderly (vars : Variables) (temps : List Nat) (used : Nat) (inUse : List Value) :
    Prop where
  distinct : temps.Nodup
  allocated : Allocated vars temps
  made : Made vars inUse
  spent : ∀ id, .temp id ∈ inUse → id ∉ temps.drop used

theorem Orderly.mono {vars : Variables} {temps : List Nat} {used : Nat} {inUse other : List Value}
    (orderly : Orderly vars temps used inUse) (usable : ∀ v ∈ other, Usable inUse v) :
    Orderly vars temps used other :=
  ⟨orderly.distinct, orderly.allocated, fun id member => orderly.made id (mem_of_usable usable member),
    fun id member => orderly.spent id (mem_of_usable usable member)⟩

theorem temp_orderly {inUse : List Value} {t : Ty} {id : Nat}
    (orderly : Orderly p.vars p.temps p.used inUse) (made : temp t p = .ok (.temp id) q) :
    .temp id ∉ inUse ∧ Orderly q.vars q.temps q.used (.temp id :: inUse) := by
  obtain ⟨allocated, inTable⟩ := temp_made ⟨orderly.allocated, orderly.made⟩ made
  cases found : p.temps[p.used]? with
  | some next =>
      rw [temp_reused t found] at made
      cases made
      obtain ⟨less, here⟩ := List.getElem?_eq_some_iff.mp found
      have drop : p.temps.drop p.used = id :: p.temps.drop (p.used + 1) := by
        rw [List.drop_eq_getElem_cons less, here]
      have distinct := orderly.distinct.sublist (List.drop_sublist p.used _)
      rw [drop, List.nodup_cons] at distinct
      have spent := orderly.spent
      simp only [drop, List.mem_cons, not_or] at spent
      refine ⟨fun member => (spent id member).1 rfl, orderly.distinct, allocated, inTable,
        fun u member => ?_⟩
      rcases List.mem_cons.mp member with eq | member
      · cases eq
        exact distinct.1
      · exact (spent u member).2
  | none =>
      rw [temp_fresh t found] at made
      cases made
      refine ⟨fun member => Nat.lt_irrefl _ (orderly.made _ member), ?_, allocated, inTable,
        fun u _ => ?_⟩
      · rw [List.nodup_append]
        refine ⟨orderly.distinct, List.nodup_singleton _, fun a member b last => ?_⟩
        rw [List.mem_singleton.mp last]
        exact Nat.ne_of_lt (orderly.allocated a member)
      · rw [List.drop_eq_nil_of_le]
        · exact List.not_mem_nil
        · rw [List.length_append, List.length_singleton]
          exact Nat.succ_le_succ (List.getElem?_eq_none_iff.mp found)

theorem reached_inUse {P : Variables → List Nat → Nat → List Value → Prop}
    (fewer : ∀ {vars temps used inUse other}, P vars temps used inUse →
      (∀ v ∈ other, Usable inUse v) → P vars temps used other)
    (more : ∀ {p q t id inUse}, P p.vars p.temps p.used inUse → temp t p = .ok (.temp id) q →
      P q.vars q.temps q.used (.temp id :: inUse))
    (holds : P start.vars start.temps start.used start.stack) (reached : Reached start hand s p) :
    P p.vars p.temps p.used (hand ++ p.stack) := by
  induction reached with
  | begin => exact holds
  | regard reached usable ih =>
      apply fewer ih
      intro v member
      rcases List.mem_append.mp member with member | member
      · exact usable v member
      · exact .inl (List.mem_append_right _ member)
  | take reached stack ih =>
      rw [stack] at ih
      apply fewer ih
      intro v member
      simp only [Usable, List.mem_append] at member ⊢
      tauto
  | put reached usable apart ih =>
      apply fewer ih
      intro v member
      simp only [List.mem_append, List.mem_cons] at member
      rcases member with member | rfl | member
      · exact .inl (List.mem_append_left _ member)
      · rcases usable with member | fixed
        · exact .inl (List.mem_append_left _ member)
        · exact .inr fixed
      · exact .inl (List.mem_append_right _ member)
  | double reached stack ih =>
      apply fewer ih
      intro v member
      rw [stack] at member ⊢
      simp only [Usable, List.mem_append, List.mem_cons] at member ⊢
      tauto
  | clear reached ih =>
      apply fewer ih
      intro v member
      rw [List.append_nil] at member
      exact .inl (List.mem_append_left _ member)
  | define reached usable made ih =>
      have after := more ih made
      rwa [← (temp_leaves made).1] at after
  | spill reached declared held made ih =>
      have after := more ih made
      rw [← (temp_leaves made).1] at after
      apply fewer after
      intro v member
      rcases List.mem_append.mp member with member | member
      · exact .inl (List.mem_cons_of_mem _ (List.mem_append_left _ member))
      · obtain ⟨u, held, rfl⟩ := List.mem_map.mp member
        split
        · exact .inl List.mem_cons_self
        · exact .inl (List.mem_cons_of_mem _ (List.mem_append_right _ held))
  | overwrite reached declared gone usable ih => exact ih
  | effects reached effects usable ih => exact ih
  | leave reached ends usable ih => exact ih
  | remark reached diagnostics queries ih => exact ih
  | forget reached ih => exact ih
  | depart reached ih => exact ih

theorem reached_orderly (orderly : Orderly start.vars start.temps start.used start.stack)
    (reached : Reached start hand s p) : Orderly p.vars p.temps p.used (hand ++ p.stack) :=
  reached_inUse Orderly.mono (fun orderly made => (temp_orderly orderly made).2) orderly reached

def Shape.Puts (f : Value → Value) (before : OperandStack) : Shape → List Value → Prop
  | .working takes puts, added =>
    takes ≤ before.length ∧ (∀ v ∈ added, v.merge? = none) ∧ ∀ n ∈ puts, added.length = n
  | .doubled, added => ∃ v rest, before = v :: rest ∧ added = [f v]
  | .leaving takes _, added => (∀ n ∈ takes, n ≤ before.length) ∧ added = []

def Shape.Effect (f : Value → Value) (s : Shape) (before after : OperandStack) : Prop :=
  ∃ added, after = added ++ (s.rest before).map f ∧ s.Puts f before added

theorem Shape.Effect.mem_after {f : Value → Value} {before after : OperandStack}
    (effect : s.Effect f before after) {v : Value} (stays : v ∈ s.rest before) : f v ∈ after := by
  obtain ⟨added, rfl, -⟩ := effect
  exact List.mem_append_right _ (List.mem_map_of_mem stays)

def Renames (f : Value → Value) : Prop := ∀ v, f v = v ∨ v.isDeclared ∧ (f v).merge? = none

/-- From `start` to `p` what stays on the stack is renamed by `f` and stands for the same values. -/
structure Carried (start : Progress) (s : Shape) (p : Progress) (f : Value → Value) : Prop where
  renames : Renames f
  effect : s.Effect f start.stack p.stack
  values : Orderly start.vars start.temps start.used start.stack →
    ∀ {D W : Type} (M : Meaning D W) (σ : Store D W), ∀ v ∈ s.rest start.stack,
      M.eval (M.run σ p.stmts).vars (f v) = M.eval (M.run σ start.stmts).vars v

namespace Carried

variable {f : Value → Value}

theorem emit (carried : Carried start s p f) (stack : q.stack = p.stack) {stmts : List Stmt}
    (emitted : q.stmts = p.stmts ++ stmts)
    (kept : Orderly start.vars start.temps start.used start.stack →
      ∀ v ∈ p.stack, ∀ s ∈ stmts, s.defined? ≠ some v) : Carried start s q f where
  renames := carried.renames
  effect := stack ▸ carried.effect
  values orderly _ _ M σ v stays := by
    rw [emitted, M.run_append, M.eval_run_of_not_defined]
    · exact carried.values orderly M σ v stays
    · exact kept orderly _ (carried.effect.mem_after stays)

theorem take {k : Nat} {values : List Value} {rest : OperandStack}
    (carried : Carried start (.working k (some 0)) p f) (stack : p.stack = values ++ rest) :
    Carried start (.working (values.length + k) (some 0)) { p with stack := rest } f := by
  obtain ⟨added, after, within, -, none⟩ := carried.effect
  rw [List.eq_nil_of_length_eq_zero (none 0 rfl), List.nil_append, stack] at after
  refine ⟨carried.renames, ⟨[], ?_, ?_, by simp, by simp⟩, fun orderly _ _ M σ v stays => ?_⟩
  · have dropped := congrArg (List.drop values.length) after
    rwa [List.drop_left, Shape.rest, ← List.map_drop, List.drop_drop, Nat.add_comm] at dropped
  · have length := congrArg List.length after
    rw [List.length_append, List.length_map, Shape.rest, List.length_drop] at length
    omega
  · apply carried.values orderly M σ v
    rw [Shape.rest, Nat.add_comm, ← List.drop_drop] at stays
    exact List.mem_of_mem_drop stays

theorem put {k n : Nat} {v : Value} (carried : Carried start (.working k (some n)) p f)
    (apart : v.merge? = none) :
    Carried start (.working k (some (n + 1))) { p with stack := v :: p.stack } f := by
  obtain ⟨added, after, within, plain, count⟩ := carried.effect
  refine ⟨carried.renames, ⟨v :: added, ?_, within, ?_, ?_⟩, carried.values⟩
  · exact congrArg (v :: ·) after
  · exact List.forall_mem_cons.mpr ⟨apart, plain⟩
  · rintro m ⟨⟩
    rw [List.length_cons, count n rfl]

theorem double {v : Value} {rest : OperandStack} (carried : Carried start .fresh p f)
    (stack : p.stack = v :: rest) : Carried start .doubled { p with stack := v :: p.stack } f := by
  obtain ⟨added, after, within, -, none⟩ := carried.effect
  rw [List.eq_nil_of_length_eq_zero (none 0 rfl), List.nil_append] at after
  change p.stack = start.stack.map f at after
  refine ⟨carried.renames, ⟨[v], ?_, ?_⟩, carried.values⟩
  · exact congrArg (v :: ·) after
  · rw [after] at stack
    obtain ⟨u, below, before, rfl, -⟩ := List.map_eq_cons_iff.mp stack
    exact ⟨u, below, before, rfl⟩

theorem clear {k : Nat} {n : Option Nat} (carried : Carried start (.working k n) p f) :
    Carried start (.leaving none []) { p with stack := [] } f :=
  ⟨carried.renames, ⟨[], rfl, by simp, rfl⟩, by simp [Shape.rest]⟩

theorem ways {takes : Option Nat} {ways : List (Option Nat × Bool)}
    (carried : Carried start (.leaving takes ways) p f) (other : List (Option Nat × Bool)) :
    Carried start (.leaving takes other) p f := by
  cases takes <;> exact ⟨carried.renames, carried.effect, carried.values⟩

theorem spill {k : Nat} {n : Option Nat} {v : Value} {t : Ty} {id : Nat}
    (carried : Carried start (.working k n) p f) (declared : v.isDeclared)
    (inOrder : Orderly start.vars start.temps start.used start.stack →
      Orderly p.vars p.temps p.used (hand ++ p.stack))
    (made : temp t p = .ok (.temp id) q) :
    Carried start (.working k n)
      { q with
        stmts := q.stmts ++ [.set (.temp id) (.value v)]
        stack := q.stack.replace v (.temp id) }
      fun u => if f u = v then .temp id else f u := by
  obtain ⟨stack, stmts⟩ := temp_leaves made
  obtain ⟨added, after, within, plain, count⟩ := carried.effect
  refine ⟨fun u => ?_, ⟨OperandStack.replace v (.temp id) added, ?_, within, ?_, ?_⟩,
    fun orderly _ _ M σ u stays => ?_⟩
  · rcases carried.renames u with same | ⟨wasDeclared, plain⟩
    · rw [same]
      split
      · rename_i eq
        exact .inr ⟨eq ▸ declared, rfl⟩
      · exact .inl rfl
    · refine .inr ⟨wasDeclared, ?_⟩
      split
      · rfl
      · exact plain
  · change q.stack.map _ = _
    rw [stack, after, List.map_append, List.map_map]
    rfl
  · intro u member
    obtain ⟨w, old, rfl⟩ := List.mem_map.mp member
    split
    · rfl
    · exact plain w old
  · simpa [OperandStack.replace] using count
  · have same := carried.values orderly M σ u stays
    -- A temporary of the block can be used again, but not while it is on the stack.
    have fresh : f u ≠ .temp id := by
      intro eq
      apply (temp_orderly (inOrder orderly) made).1
      rw [← eq]
      exact List.mem_append_right _ (carried.effect.mem_after stays)
    dsimp only
    rw [stmts, M.run_concat, ← same]
    split
    · rename_i eq
      rw [eq]
      exact M.eval_update_self rfl _ _
    · exact M.eval_update_of_ne fresh _ _

end Carried

theorem reached_carried (reached : Reached start hand s p) : ∃ f, Carried start s p f := by
  induction reached with
  | begin =>
      refine ⟨id, fun _ => .inl rfl, ⟨[], ?_, Nat.zero_le _, by simp, by simp⟩,
        fun _ _ _ _ _ _ _ => rfl⟩
      rw [List.nil_append, List.map_id]
      rfl
  | regard reached usable ih => exact ih
  | take reached stack ih =>
      obtain ⟨f, carried⟩ := ih
      exact ⟨f, carried.take stack⟩
  | put reached usable apart ih =>
      obtain ⟨f, carried⟩ := ih
      exact ⟨f, carried.put apart⟩
  | double reached stack ih =>
      obtain ⟨f, carried⟩ := ih
      exact ⟨f, carried.double stack⟩
  | clear reached ih =>
      obtain ⟨f, carried⟩ := ih
      exact ⟨f, carried.clear⟩
  | define reached usable made ih =>
      obtain ⟨f, carried⟩ := ih
      obtain ⟨stack, stmts⟩ := temp_leaves made
      refine ⟨f, carried.emit stack (congrArg (· ++ _) stmts) fun orderly v held s emitted => ?_⟩
      rw [List.mem_singleton.mp emitted]
      rintro ⟨⟩
      apply (temp_orderly (reached_orderly orderly reached) made).1
      exact List.mem_append_right _ held
  | spill reached declared held made ih =>
      obtain ⟨f, carried⟩ := ih
      exact ⟨_, carried.spill declared (fun orderly => reached_orderly orderly reached) made⟩
  | overwrite reached declared gone usable ih =>
      obtain ⟨f, carried⟩ := ih
      refine ⟨f, carried.emit rfl rfl fun _ v held s emitted => ?_⟩
      -- The copies on the stack were spilled before.
      rw [List.mem_singleton.mp emitted]
      rintro ⟨⟩
      exact gone held
  | effects reached effects usable ih =>
      obtain ⟨f, carried⟩ := ih
      refine ⟨f, carried.emit rfl rfl fun _ v _ s emitted => ?_⟩
      simp [Stmt.defined?_of_isEffect (effects s emitted)]
  | leave reached ends usable ih =>
      obtain ⟨f, carried⟩ := ih
      refine ⟨f, (carried.ways _).emit rfl rfl fun _ v _ s emitted => ?_⟩
      rw [List.mem_singleton.mp emitted, Stmt.defined?_of_not_isStraight ends]
      simp
  | remark reached diagnostics queries ih =>
      obtain ⟨f, carried⟩ := ih
      exact ⟨f, carried.renames, carried.effect, carried.values⟩
  | forget reached ih =>
      obtain ⟨f, carried⟩ := ih
      obtain ⟨added, after, within, plain, -⟩ := carried.effect
      exact ⟨f, carried.renames, ⟨added, after, within, plain, by simp⟩, carried.values⟩
  | depart reached ih =>
      obtain ⟨f, carried⟩ := ih
      obtain ⟨added, after, within, -, none⟩ := carried.effect
      refine ⟨f, carried.renames, ⟨[], ?_, by simpa using within, rfl⟩, carried.values⟩
      rwa [List.eq_nil_of_length_eq_zero (none 0 rfl)] at after

def replayAll (cx : Context) (exception : Option Ty) (l : Listing) : Replay Unit := do
  receive exception
  performAll cx l

def newSlots (s : Shape) (before after : OperandStack) : List Value :=
  after.take (after.length - (s.rest before).length)

theorem Carried.eval_stack {f : Value → Value} (carried : Carried start s p f)
    (orderly : Orderly start.vars start.temps start.used start.stack) {D W : Type}
    (M : Meaning D W) (σ : Store D W) :
    p.stack.map (M.eval (M.run σ p.stmts).vars) =
      (newSlots s start.stack p.stack).map (M.eval (M.run σ p.stmts).vars) ++
        s.rest (start.stack.map (M.eval (M.run σ start.stmts).vars)) := by
  obtain ⟨added, after, -⟩ := carried.effect
  have new : newSlots s start.stack p.stack = added := by
    rw [newSlots, after, List.length_append, List.length_map, Nat.add_sub_cancel, List.take_left]
  have kept : ((s.rest start.stack).map f).map (M.eval (M.run σ p.stmts).vars) =
      (s.rest start.stack).map (M.eval (M.run σ start.stmts).vars) := by
    rw [List.map_map]
    exact List.map_congr_left (carried.values orderly M σ)
  rw [new, Shape.rest_map, ← kept, ← List.map_append, ← after]

/-- `Boundary … n p seen`: after `n` instructions the replay is in the state `p`, and `seen` lists
the values that the slots of the stack had at the boundary at which they were new, or on entry. The
statements of the replay are executed from `σ`. -/
inductive Boundary {D W : Type} (M : Meaning D W) (σ : Store D W) (cx : Context)
    (exception : Option Ty) (l : Listing) (start : Progress) : Nat → Progress → List D → Prop
  | entered {p : Progress} (ran : receive exception start = .ok () p) :
      Boundary M σ cx exception l start 0 p
        ((newSlots .fresh start.stack p.stack).map (M.eval (M.run σ p.stmts).vars) ++
          start.stack.map (M.eval σ.vars))
  | passed {n : Nat} {p q : Progress} {seen : List D} {i : Instruction Nat}
      (before : Boundary M σ cx exception l start n p seen) (next : l[n]? = some i)
      (ran : perform cx i i.opcode.action p = .ok () q) :
      Boundary M σ cx exception l start (n + 1) q
        ((newSlots (i.opcode.action.shape cx i) p.stack q.stack).map
            (M.eval (M.run σ q.stmts).vars) ++
          (i.opcode.action.shape cx i).rest seen)

section Boundary

variable {D W : Type} {M : Meaning D W} {σ : Store D W} {cx : Context} {exception : Option Ty}
  {l : Listing} {n : Nat} {seen : List D}

theorem replayAll_nil : replayAll cx exception [] = receive exception := bind_pure _

theorem replayAll_concat (i : Instruction Nat) :
    replayAll cx exception (l ++ [i]) = (do
      replayAll cx exception l
      perform cx i i.opcode.action) := by
  rw [replayAll, performAll_concat, replayAll, bind_assoc]

theorem exists_boundary (M : Meaning D W) (σ : Store D W) (within : n ≤ l.length)
    (ran : replayAll cx exception (l.take n) start = .ok () p) :
    ∃ seen, Boundary M σ cx exception l start n p seen := by
  induction n generalizing p with
  | zero =>
      rw [List.take_zero, replayAll_nil] at ran
      exact ⟨_, .entered ran⟩
  | succ n ih =>
      have next : l[n]? = some (l.get ⟨n, within⟩) := List.getElem?_eq_getElem within
      rw [List.take_add_one, next, Option.toList_some, replayAll_concat, bind_apply] at ran
      cases earlier : replayAll cx exception (l.take n) start with
      | error e q =>
          rw [earlier] at ran
          cases ran
      | ok u q =>
          rw [earlier] at ran
          obtain ⟨seen, boundary⟩ := ih (Nat.le_of_succ_le within) earlier
          exact ⟨_, boundary.passed next ran⟩

theorem boundary_values (orderly : Orderly start.vars start.temps start.used start.stack)
    (empty : start.stmts = []) (boundary : Boundary M σ cx exception l start n p seen) :
    Orderly p.vars p.temps p.used p.stack ∧
      p.stack.map (M.eval (M.run σ p.stmts).vars) = seen := by
  induction boundary with
  | entered ran =>
      have reached := receive_reached ran
      obtain ⟨f, carried⟩ := reached_carried reached
      refine ⟨reached_orderly orderly reached, ?_⟩
      rw [carried.eval_stack orderly, empty]
      rfl
  | passed before next ran ih =>
      have reached := perform_reached ran
      obtain ⟨f, carried⟩ := reached_carried reached
      refine ⟨reached_orderly ih.1 reached, ?_⟩
      rw [carried.eval_stack ih.1, ih.2]

end Boundary
end Replay

open Replay

/-- At every instruction boundary of a block, every slot of the stack stands for the value that it
had when it was pushed, or on entry. -/
theorem slots_keep_values {D W : Type} (M : Meaning D W) (σ : Store D W) (cx : Context)
    (l : Listing) (b : Block) (entry : List Value) (s : Shared) (distinct : s.temps.Nodup)
    (allocated : Allocated s.vars s.temps)
    (apart : ∀ id, .temp id ∈ entry → id ∉ s.temps ∧ id < s.vars.temps.length) (n : Nat)
    (within : n ≤ (b.instructions l).length) (p : Progress)
    (ran : replayAll cx b.exception ((b.instructions l).take n) (s.begin entry) = .ok () p) :
    (∃ seen, Boundary M σ cx b.exception (b.instructions l) (s.begin entry) n p seen) ∧
      ∀ seen, Boundary M σ cx b.exception (b.instructions l) (s.begin entry) n p seen →
        p.stack.map (M.eval (M.run σ p.stmts).vars) = seen := by
  refine ⟨exists_boundary M σ within ran, fun seen boundary => ?_⟩
  apply (boundary_values ?_ rfl boundary).2
  have held (id : Nat) (member : .temp id ∈ (s.begin entry).stack) : .temp id ∈ entry :=
    List.mem_reverse.mp member
  refine ⟨distinct, allocated, fun id member => (apart id (held id member)).2, fun id member => ?_⟩
  exact (apart id (held id member)).1

def reload : Listing :=
  .ofOps [(.ldloc0, .none), (.dup, .none), (.ldarg0, .none), (.stloc0, .none)]

def reloadShared : Shared :=
  ⟨{ locals := [.int32], params := [.int32], temps := [.int32, .int32] }, [0], []⟩

def reloadMeaning : Meaning Nat Unit :=
  ⟨fun _ => 0, fun _ _ => rfl, fun _ _ _ => 1, fun _ _ _ => ()⟩

theorem reload_keeps_values :
    ∃ p, replayAll .blank none ((Block.instructions ⟨0, 3, [], [], none⟩ reload).take 4)
          (reloadShared.begin [.temp 1]) = .ok () p ∧
        p.stack = [.temp 0, .temp 0, .temp 1] ∧
        (∃ seen, Boundary reloadMeaning ⟨(), fun _ => 5⟩ .blank none
          (Block.instructions ⟨0, 3, [], [], none⟩ reload) (reloadShared.begin [.temp 1]) 4 p seen) ∧
        ∀ seen, Boundary reloadMeaning ⟨(), fun _ => 5⟩ .blank none
          (Block.instructions ⟨0, 3, [], [], none⟩ reload) (reloadShared.begin [.temp 1]) 4 p seen →
          p.stack.map (reloadMeaning.eval (reloadMeaning.run ⟨(), fun _ => 5⟩ p.stmts).vars) = seen :=
  ⟨_, rfl, rfl, slots_keep_values reloadMeaning ⟨(), fun _ => 5⟩ .blank reload
    ⟨0, 3, [], [], none⟩ [.temp 1] reloadShared (by decide) (by simp [Allocated, reloadShared])
    (by simp [reloadShared]) 4 (by decide) _ rfl⟩

end Destack
