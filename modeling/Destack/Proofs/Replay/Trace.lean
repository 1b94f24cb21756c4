import Destack.Proofs.Replay.Faithful

namespace Destack

theorem Value.merge?_of_isFixed {v : Value} (fixed : v.isFixed) : v.merge? = none := by
  cases v <;> first | rfl | cases fixed

namespace Replay

/-- The states that an instruction passes through. It has the values `hand` at hand and the shape
`s` so far. -/
inductive Reached (start : Progress) : List Value → Shape → Progress → Prop
  | begin : Reached start [] .fresh start
  | regard {hand other : List Value} {s : Shape} {p : Progress} (reached : Reached start hand s p)
      (usable : ∀ v ∈ other, Usable (hand ++ p.stack) v) : Reached start other s p
  | take {hand values : List Value} {k : Nat} {p : Progress} {rest : OperandStack}
      (reached : Reached start hand (.working k (some 0)) p) (stack : p.stack = values ++ rest) :
      Reached start hand (.working (values.length + k) (some 0)) { p with stack := rest }
  | put {hand : List Value} {k n : Nat} {p : Progress} {v : Value}
      (reached : Reached start hand (.working k (some n)) p) (usable : Usable hand v)
      (apart : v.merge? = none) :
      Reached start hand (.working k (some (n + 1))) { p with stack := v :: p.stack }
  | double {hand : List Value} {p : Progress} {v : Value} {rest : OperandStack}
      (reached : Reached start hand .fresh p) (stack : p.stack = v :: rest) :
      Reached start hand .doubled { p with stack := v :: p.stack }
  | clear {hand : List Value} {k : Nat} {n : Option Nat} {p : Progress}
      (reached : Reached start hand (.working k n) p) :
      Reached start hand (.leaving none []) { p with stack := [] }
  | define {hand : List Value} {k : Nat} {n : Option Nat} {p q : Progress} {e : Expr} {id : Nat}
      (reached : Reached start hand (.working k n) p) (usable : ∀ v ∈ e.reads, Usable hand v)
      (made : temp (e.type p.vars) p = .ok (.temp id) q) :
      Reached start (.temp id :: hand) (.working k n)
        { q with stmts := q.stmts ++ [.set (.temp id) e] }
  | spill {hand : List Value} {k : Nat} {n : Option Nat} {p q : Progress} {v : Value} {id : Nat}
      (reached : Reached start hand (.working k n) p) (declared : v.isDeclared)
      (held : v ∈ p.stack) (made : temp (p.vars.typeOf v) p = .ok (.temp id) q) :
      Reached start hand (.working k n)
        { q with
          stmts := q.stmts ++ [.set (.temp id) (.value v)]
          stack := q.stack.replace v (.temp id) }
  | overwrite {hand : List Value} {k : Nat} {n : Option Nat} {p : Progress} {v : Value} {e : Expr}
      (reached : Reached start hand (.working k n) p) (declared : v.isDeclared)
      (gone : v ∉ p.stack) (usable : ∀ u ∈ e.reads, Usable hand u) :
      Reached start hand (.working k n) { p with stmts := p.stmts ++ [.set v e] }
  | effects {hand : List Value} {k : Nat} {n : Option Nat} {p : Progress} {stmts : List Stmt}
      (reached : Reached start hand (.working k n) p) (effects : ∀ s ∈ stmts, s.isEffect)
      (usable : ∀ s ∈ stmts, ∀ v ∈ s.reads, Usable hand v) :
      Reached start hand (.working k n) { p with stmts := p.stmts ++ stmts }
  | leave {hand : List Value} {takes : Option Nat} {ways : List (Option Nat × Bool)} {p : Progress}
      {s : Stmt} (reached : Reached start hand (.leaving takes ways) p) (ends : ¬ s.isStraight)
      (usable : ∀ v ∈ s.reads, Usable hand v) :
      Reached start hand (.leaving takes (ways ++ [s.way])) { p with stmts := p.stmts ++ [s] }
  | remark {hand : List Value} {s : Shape} {p : Progress} (reached : Reached start hand s p)
      (diagnostics : List Diagnostic) (queries : List Query) :
      Reached start hand s { p with diagnostics, queries }
  | forget {hand : List Value} {k n : Nat} {p : Progress}
      (reached : Reached start hand (.working k (some n)) p) :
      Reached start hand (.working k none) p
  | depart {hand : List Value} {k : Nat} {p : Progress}
      (reached : Reached start hand (.working k (some 0)) p) :
      Reached start hand (.leaving (some k) []) p

namespace Reached

variable {start p : Progress} {hand values : List Value} {s : Shape}

theorem handed (reached : Reached start hand s p) (usable : ∀ v ∈ values, Usable hand v) :
    Reached start (values ++ hand) s p := by
  apply reached.regard
  intro v member
  rcases List.mem_append.mp member with member | member
  · rcases usable v member with member | fixed
    · exact .inl (List.mem_append_left _ member)
    · exact .inr fixed
  · exact .inl (List.mem_append_left _ member)

theorem held (reached : Reached start hand s p) (held : ∀ v ∈ values, v ∈ p.stack) :
    Reached start (values ++ hand) s p := by
  apply reached.regard
  intro v member
  rcases List.mem_append.mp member with member | member
  · exact .inl (List.mem_append_right _ (held v member))
  · exact .inl (List.mem_append_left _ member)

end Reached

def Traced {α : Type} (start : Progress) (given : List Value) (s : Shape) (x : Replay α)
    (gives : α → List Value) (t : Shape) : Prop :=
  ∀ p a q, Reached start given s p → x p = .ok a q → Reached start (gives a ++ given) t q

theorem temp_eq_ok {t : Ty} {p q : Progress} {v : Value} (ran : temp t p = .ok v q) :
    ∃ id, v = .temp id := by
  cases found : p.temps[p.used]? with
  | some id =>
      rw [temp_reused t found] at ran
      cases ran
      exact ⟨id, rfl⟩
  | none =>
      rw [temp_fresh t found] at ran
      cases ran
      exact ⟨_, rfl⟩

theorem temp_leaves {t : Ty} {p q : Progress} {v : Value} (made : temp t p = .ok v q) :
    q.stack = p.stack ∧ q.stmts = p.stmts := by
  cases found : p.temps[p.used]? with
  | some next =>
      rw [temp_reused t found] at made
      cases made
      exact ⟨rfl, rfl⟩
  | none =>
      rw [temp_fresh t found] at made
      cases made
      exact ⟨rfl, rfl⟩

theorem define_eq_ok {e : Expr} {p q : Progress} {v : Value} (ran : define e p = .ok v q) :
    ∃ id r, v = .temp id ∧ temp (e.type p.vars) p = .ok (.temp id) r ∧
      q = { r with stmts := r.stmts ++ [.set (.temp id) e] } := by
  change (temp (e.type p.vars) >>= fun t => emit (.set t e) >>= fun _ => pure t) p = _ at ran
  rw [bind_apply] at ran
  cases made : temp (e.type p.vars) p with
  | error err r =>
      rw [made] at ran
      cases ran
  | ok w r =>
      obtain ⟨id, rfl⟩ := temp_eq_ok made
      rw [made] at ran
      cases ran
      exact ⟨id, r, rfl, rfl, rfl⟩

theorem spill_eq_ok {v : Value} {p q : Progress} {u : Unit} (ran : spill v p = .ok u q) :
    v ∉ p.stack ∧ q = p ∨
      v ∈ p.stack ∧ ∃ id r, temp (p.vars.typeOf v) p = .ok (.temp id) r ∧
        q = { r with
          stmts := r.stmts ++ [.set (.temp id) (.value v)]
          stack := r.stack.replace v (.temp id) } := by
  by_cases held : p.stack.contains v
  · right
    have ran : (temp (p.vars.typeOf v) >>= fun t => emit (.set t (.value v)) >>= fun _ =>
        modify fun p => { p with stack := p.stack.replace v t }) p = .ok u q := by
      rw [← ran]
      simp only [spill, get_bind, if_pos held]
      rfl
    rw [bind_apply] at ran
    cases made : temp (p.vars.typeOf v) p with
    | error err r =>
        rw [made] at ran
        cases ran
    | ok w r =>
        obtain ⟨id, rfl⟩ := temp_eq_ok made
        rw [made] at ran
        cases ran
        exact ⟨List.contains_iff_mem.mp held, id, r, rfl, rfl⟩
  · left
    simp only [spill, get_bind, if_neg held] at ran
    cases ran
    exact ⟨fun member => held (List.contains_iff_mem.mpr member), rfl⟩

namespace Traced

variable {α β : Type} {start : Progress} {given : List Value} {s t u : Shape} {k : Nat}
  {n : Option Nat}

theorem ret {gives : α → List Value} {a : α} (usable : ∀ v ∈ gives a, Usable given v) :
    Traced start given s (pure a) gives s := by
  intro p b q reached ran
  cases ran
  exact reached.handed usable

theorem bind {x : Replay α} {f : α → Replay β} {middle : α → List Value} {gives : β → List Value}
    (first : Traced start given s x middle t)
    (rest : ∀ a, Returns x a → Traced start (middle a ++ given) t (f a) gives u) :
    Traced start given s (x >>= f) gives u := by
  intro p b r reached ran
  rw [bind_apply] at ran
  cases ranFirst : x p with
  | error e q =>
      rw [ranFirst] at ran
      cases ran
  | ok a q =>
      rw [ranFirst] at ran
      have between := first p a q reached ranFirst
      have after := rest a ⟨p, q, ranFirst⟩ q b r between ran
      -- What was handed from the first part to the second is not needed any more.
      apply after.regard
      intro v member
      simp only [Usable, List.mem_append] at member ⊢
      tauto

theorem fail {gives : α → List Value} (e : ReplayError) :
    Traced start given s (throw e) gives t := by
  intro p a q _ ran
  cases ran

theorem look {gives : α → List Value} {f : Progress → α}
    (usable : ∀ p, ∀ v ∈ gives (f p), Usable given v) :
    Traced start given s (inspect f) gives s := by
  intro p a q reached ran
  cases ran
  exact ret (usable p) p (f p) p reached rfl

theorem pop (i : Instruction Nat) :
    Traced start given (.working k (some 0)) (pop i) (fun v => [v])
      (.working (1 + k) (some 0)) := by
  intro p v q reached ran
  rw [pop_apply] at ran
  cases stack : p.stack with
  | nil =>
      rw [stack] at ran
      cases ran
  | cons top rest =>
      rw [stack] at ran
      cases ran
      have held : ∀ u ∈ [v], u ∈ p.stack := by simp [stack]
      have split : p.stack = [v] ++ rest := stack
      exact (reached.held held).take split

theorem popMany (i : Instruction Nat) (count : Nat) :
    Traced start given (.working k (some 0)) (popMany i count) id
      (.working (count + k) (some 0)) := by
  intro p values q reached ran
  rw [popMany_apply] at ran
  cases taken : p.stack.popMany count i.opcode i.index with
  | error e =>
      rw [taken] at ran
      cases ran
  | ok both =>
      obtain ⟨top, rest⟩ := both
      rw [taken] at ran
      cases ran
      obtain ⟨rfl, stack⟩ := popMany_eq_ok taken
      have after := (reached.held (mem_popMany taken).1).take stack.symm
      rwa [List.length_reverse] at after

theorem peekMany (i : Instruction Nat) (count : Nat) :
    Traced start given s (peekMany i count) id s := by
  intro p values q reached ran
  rw [peekMany_apply] at ran
  cases taken : p.stack.popMany count i.opcode i.index with
  | error e =>
      rw [taken] at ran
      cases ran
  | ok both =>
      rw [taken] at ran
      cases ran
      exact reached.held (mem_popMany taken).1

theorem push {v : Value} {m : Nat} (usable : Usable given v) (apart : v.merge? = none) :
    Traced start given (.working k (some m)) (push v) nothing (.working k (some (m + 1))) := by
  intro p a q reached ran
  cases ran
  exact reached.put usable apart

theorem double (i : Instruction Nat) :
    Traced start given .fresh (do
      let v ← Replay.pop i
      Replay.push v
      Replay.push v) nothing .doubled := by
  intro p a q reached ran
  rw [bind_apply, pop_apply] at ran
  cases stack : p.stack with
  | nil =>
      rw [stack] at ran
      cases ran
  | cons top rest =>
      rw [stack] at ran
      cases ran
      have after := reached.double stack
      rw [stack] at after
      exact after

theorem clear : Traced start given (.working k n) clear nothing (.leaving none []) := by
  intro p u q reached ran
  cases ran
  exact reached.clear

theorem define {e : Expr} (usable : ∀ v ∈ e.reads, Usable given v) :
    Traced start given (.working k n) (define e) (fun v => [v]) (.working k n) := by
  intro p v q reached ran
  obtain ⟨id, r, rfl, made, rfl⟩ := define_eq_ok ran
  exact reached.define usable made

theorem spill {v : Value} (declared : v.isDeclared) :
    Traced start given (.working k n) (spill v) nothing (.working k n) := by
  intro p u q reached ran
  obtain ⟨-, rfl⟩ | ⟨held, id, r, made, rfl⟩ := spill_eq_ok ran
  · exact reached
  · exact reached.spill declared held made

theorem not_mem_of_spill {v : Value} {p q : Progress} {u : Unit} (declared : v.isDeclared)
    (ran : Replay.spill v p = .ok u q) : v ∉ q.stack := by
  obtain ⟨gone, rfl⟩ | ⟨-, id, r, -, rfl⟩ := spill_eq_ok ran
  · exact gone
  · intro member
    obtain ⟨w, -, same⟩ := List.mem_map.mp member
    split at same
    · rw [← same] at declared
      cases declared
    · contradiction

theorem overwrite {v : Value} {f : Progress → Expr} (declared : v.isDeclared)
    (usable : ∀ p, ∀ u ∈ (f p).reads, Usable given u) :
    Traced start given (.working k n) (overwrite v f) nothing (.working k n) := by
  intro p u q reached ran
  simp only [Replay.overwrite, bind_apply] at ran
  cases spilt : Replay.spill v p with
  | error e r =>
      rw [spilt] at ran
      cases ran
  | ok w r =>
      have after := spill declared p w r reached spilt
      rw [spilt] at ran
      cases ran
      exact after.overwrite declared (not_mem_of_spill declared spilt) (usable r)

end Traced

def traced (start : Progress) : Logic where
  holds := Traced start
  admits _ := True
  quiet _ := trivial
  ret := Traced.ret
  bind := Traced.bind
  fail := Traced.fail
  look _ := Traced.look
  note kind instruction message := by
    intro p a q reached ran
    cases ran
    exact reached.remark _ _
  ask question := by
    intro p a q reached ran
    cases ran
    exact reached.remark _ _
  pop := Traced.pop
  popMany := Traced.popMany
  peekMany := Traced.peekMany
  push fixed := Traced.push (.inr fixed) (Value.merge?_of_isFixed fixed)
  pushDefined usable _ := by
    apply Traced.bind (Traced.define usable)
    intro v returns
    obtain ⟨p, q, ran⟩ := returns
    obtain ⟨id, r, rfl, -, -⟩ := define_eq_ok ran
    exact Traced.push (.inl List.mem_cons_self) rfl
  double := Traced.double
  clear := Traced.clear
  define usable _ := Traced.define usable
  spill := Traced.spill
  overwrite declared _ usable _ := Traced.overwrite declared usable
  emitAll effects usable _ := by
    intro p a q reached ran
    cases ran
    exact reached.effects effects usable
  leave ends usable := by
    intro p a q reached ran
    cases ran
    exact reached.leave ends usable
  forget traced := fun p a q reached ran => (traced p a q reached ran).forget
  depart traced := fun p a q reached ran => (traced p a q reached ran).depart

theorem perform_reached {cx : Context} {i : Instruction Nat} {a : Action} {p q : Progress}
    {u : Unit} (ran : perform cx i a p = .ok u q) : Reached p [] (a.shape cx i) q :=
  (traced p).perform cx i a (fun _ _ => trivial) p u q .begin ran

theorem receive_reached {exception : Option Ty} {p q : Progress} {u : Unit}
    (ran : receive exception p = .ok u q) :
    Reached p [] (.working 0 (some exception.toList.length)) q :=
  (traced p).receive exception p u q .begin ran

theorem performAll_concat (cx : Context) (l : Listing) (i : Instruction Nat) :
    performAll cx (l ++ [i]) = (do
      performAll cx l
      perform cx i i.opcode.action) := by
  induction l with
  | nil => simp [performAll]
  | cons first l ih => simp [performAll, ih]

theorem performAll_invariant {cx : Context} {l : Listing} {P : Progress → Prop}
    (step : ∀ i ∈ l, ∀ p q, P p → Reached p [] (i.opcode.action.shape cx i) q → P q)
    {p q : Progress} {u : Unit} (ran : performAll cx l p = .ok u q) (holds : P p) : P q := by
  induction l generalizing p with
  | nil =>
      cases ran
      exact holds
  | cons i l ih =>
      rw [List.forall_mem_cons] at step
      rw [performAll, bind_apply] at ran
      cases first : perform cx i i.opcode.action p with
      | error e r =>
          rw [first] at ran
          cases ran
      | ok v r =>
          rw [first] at ran
          exact ih step.2 ran (step.1 p r holds (perform_reached first))

section Block

variable {cx : Context} {l : Listing} {b : Block} {entry : List Value} {s t : Shared}
  {output : BlockOutput}

theorem replayBlock_eq_ok (ran : replayBlock cx l b entry s = (.ok output, t)) :
    ∃ p q, receive b.exception (s.begin entry) = .ok () p ∧
      performAll cx (b.instructions l) p = .ok () q ∧
      output = ⟨q.stmts, q.stack.slots, q.stack.slots.map q.vars.typeOf, q.diagnostics⟩ ∧
      t = ⟨q.vars, q.temps, q.queries⟩ := by
  rw [replayBlock_eq] at ran
  cases ended : b.replay cx l (s.begin entry) with
  | error e q => simp [ended] at ran
  | ok u q =>
      rw [ended] at ran
      cases ran
      rw [Block.replay, bind_apply] at ended
      cases received : receive b.exception (s.begin entry) with
      | error e p =>
          rw [received] at ended
          cases ended
      | ok v p =>
          rw [received] at ended
          exact ⟨p, q, rfl, ended, rfl, rfl⟩

theorem replayBlock_invariant {P : Progress → Prop}
    (step : ∀ shape p q, P p → Reached p [] shape q → P q)
    (ran : replayBlock cx l b entry s = (.ok output, t)) (holds : P (s.begin entry)) :
    ∃ q, P q ∧
      output = ⟨q.stmts, q.stack.slots, q.stack.slots.map q.vars.typeOf, q.diagnostics⟩ ∧
      t = ⟨q.vars, q.temps, q.queries⟩ := by
  obtain ⟨p, q, received, ended, same⟩ := replayBlock_eq_ok ran
  have begins := step _ _ p holds (receive_reached received)
  exact ⟨q, performAll_invariant (fun i _ p q => step _ p q) ended begins, same⟩

end Block

end Replay
end Destack
