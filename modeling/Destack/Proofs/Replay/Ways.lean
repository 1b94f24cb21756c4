import Destack.Proofs.Flow.Blocks
import Destack.Proofs.Replay.Trace

namespace Destack

def Instruction.ways (i : Instruction Nat) : List (Option Nat × Bool) :=
  match i.opcode.flow with
  | .next | .call | .modifier => []
  | .jump | .leave => [(i.target?, false)]
  | .branch => [(i.target?, true)]
  | .switch => i.targets.map fun target => (some target, true)
  | .ret | .raise | .endHandler => [(none, false)]

def Action.flow? : Action → Option Flow
  | .jump => some .jump
  | .branchIf _ | .branchOn .. => some .branch
  | .switch => some .switch
  | .leave => some .leave
  | .ret => some .ret
  | .throw | .rethrow => some .raise
  | .endFinally | .endFilter => some .endHandler
  | _ => none

theorem Opcode.flow?_action (op : Opcode) :
    op.action.flow? = if op.flow.endsBlock then some op.flow else none := by
  cases op <;> rfl

open Replay

theorem Action.ways_shape (cx : Context) (i : Instruction Nat) (a : Action) :
    (a.shape cx i).ways =
      match a.flow? with
      | some .jump | some .leave => [(i.target?, false)]
      | some .branch => [(i.target?, true)]
      | some .switch => i.targets.map fun target => (some target, true)
      | some .ret | some .raise | some .endHandler => [(none, false)]
      | _ => [] := by
  cases a with
  | call isVirtual =>
      simp only [shape, flow?]
      cases cx.view.called? i with
      | none => rfl
      | some m =>
          simp only [Option.map_some, Option.getD_some, callShape]
          split <;> rfl
  | newObject =>
      simp only [shape, flow?]
      cases cx.view.called? i <;> rfl
  | _ => rfl

namespace Instruction

variable {cx : Context} {i : Instruction Nat}

theorem ways_shape : (i.opcode.action.shape cx i).ways = i.ways := by
  rw [Action.ways_shape, i.opcode.flow?_action, ways]
  cases i.opcode.flow <;> rfl

theorem ways_of_not_endsBlock (goesOn : i.opcode.flow.endsBlock = false) : i.ways = [] := by
  unfold ways
  cases flow : i.opcode.flow <;> first | rfl | simp [flow, Flow.endsBlock] at goesOn

theorem all_ways : i.ways.all (·.2) = i.opcode.flow.fallsThrough := by
  unfold ways
  cases i.opcode.flow <;> simp [Flow.fallsThrough]

theorem ways_dropLast : ∀ w ∈ i.ways.dropLast, w.2 = true := by
  unfold ways
  cases i.opcode.flow
  case switch =>
      intro w member
      obtain ⟨target, -, rfl⟩ := List.mem_map.mp (List.mem_of_mem_dropLast member)
      rfl
  all_goals simp

def Targeted (i : Instruction Nat) : Prop :=
  i.opcode.flow = .jump ∨ i.opcode.flow = .branch ∨ i.opcode.flow = .leave →
    ∃ target, i.target? = some target

theorem targets_of_target? {target : Nat} (named : i.target? = some target) :
    i.targets = [target] := by
  unfold target? at named
  split at named
  · rename_i operand
    cases named
    simp only [targets, operand, Operand.places]
  · cases named

theorem mem_ways (targeted : i.Targeted) {target : Nat} :
    (∃ w ∈ i.ways, w.1 = some target) ↔
      target ∈ i.targets ∧ (i.opcode.flow.takesTargets ∨ i.opcode.flow = .leave) := by
  have single (named : ∃ target, i.target? = some target) :
      i.target? = some target ↔ target ∈ i.targets := by
    obtain ⟨other, named⟩ := named
    rw [targets_of_target? named, named, List.mem_singleton, Option.some.injEq, eq_comm]
  unfold ways
  cases flow : i.opcode.flow
  case jump => simp [Flow.takesTargets, single (targeted (.inl flow))]
  case branch => simp [Flow.takesTargets, single (targeted (.inr (.inl flow)))]
  case leave => simp [Flow.takesTargets, single (targeted (.inr (.inr flow)))]
  all_goals simp [Flow.takesTargets]

theorem ne_of_mem_ways (targeted : i.Targeted) {w : Option Nat × Bool} (member : w ∈ i.ways) :
    w ≠ (none, true) := by
  rintro rfl
  unfold ways at member
  cases flow : i.opcode.flow
  case branch =>
      obtain ⟨target, named⟩ := targeted (.inr (.inl flow))
      simp [flow, named] at member
  all_goals simp [flow] at member

theorem isSome_of_mem_ways (targeted : i.Targeted) {t : Nat} (edge : t ∈ Graph.flowTargets i)
    {w : Option Nat × Bool} (member : w ∈ i.ways) : w.1.isSome := by
  unfold Graph.flowTargets at edge
  unfold ways at member
  cases flow : i.opcode.flow
  case jump =>
      obtain ⟨target, named⟩ := targeted (.inl flow)
      simp_all
  case branch =>
      obtain ⟨target, named⟩ := targeted (.inr (.inl flow))
      simp_all
  case switch =>
      rw [flow] at member
      obtain ⟨target, -, rfl⟩ := List.mem_map.mp member
      rfl
  all_goals simp_all [Flow.takesTargets, Flow.fallsThrough]

end Instruction

namespace Replay

variable {start p q : Progress} {hand : List Value} {s : Shape}

/-- The statements of the second list follow those of the first: some that go on with the next one,
and then some that lead the given ways. -/
def Leads (ways : List (Option Nat × Bool)) (before after : List Stmt) : Prop :=
  ∃ n, after.map Stmt.way = before.map Stmt.way ++ List.replicate n (none, true) ++ ways

theorem Leads.refl (stmts : List Stmt) : Leads [] stmts stmts := ⟨0, by simp⟩

theorem Leads.straight {before after : List Stmt} (leads : Leads [] before after)
    {stmts : List Stmt} (straight : ∀ s ∈ stmts, s.isStraight) :
    Leads [] before (after ++ stmts) := by
  obtain ⟨n, same⟩ := leads
  have ways : stmts.map Stmt.way = List.replicate stmts.length (none, true) := by
    rw [← List.map_const']
    exact List.map_congr_left fun s member => Stmt.way_of_isStraight (straight s member)
  refine ⟨n + stmts.length, ?_⟩
  rw [List.map_append, same, ways, List.append_nil, List.append_nil, List.append_assoc,
    List.replicate_append_replicate]

theorem Leads.trans {ways : List (Option Nat × Bool)} {first second third : List Stmt}
    (leads : Leads [] first second) (leave : Leads ways second third) : Leads ways first third := by
  obtain ⟨n, same⟩ := leads
  obtain ⟨m, more⟩ := leave
  refine ⟨n + m, ?_⟩
  rw [more, same, List.append_nil, ← List.replicate_append_replicate]
  simp only [List.append_assoc]

theorem Leads.split {ways : List (Option Nat × Bool)} {stmts : List Stmt}
    (leads : Leads ways [] stmts) :
    ∃ front back, stmts = front ++ back ∧ (∀ s ∈ front, s.way = (none, true)) ∧
      back.map Stmt.way = ways := by
  obtain ⟨n, same⟩ := leads
  rw [List.map_nil, List.nil_append, List.map_eq_append_iff] at same
  obtain ⟨front, back, rfl, straight, leaving⟩ := same
  refine ⟨front, back, rfl, fun s member => ?_, leaving⟩
  apply List.eq_of_mem_replicate (n := n)
  rw [← straight]
  exact List.mem_map_of_mem member

theorem reached_leads (reached : Reached start hand s p) : Leads s.ways start.stmts p.stmts := by
  induction reached with
  | begin => exact .refl _
  | regard reached usable ih => exact ih
  | take reached stack ih => exact ih
  | put reached usable apart ih => exact ih
  | double reached stack ih => exact ih
  | clear reached ih => exact ih
  | define reached usable made ih =>
      rw [← (temp_leaves made).2] at ih
      exact ih.straight (by simp [Stmt.set, Stmt.isStraight])
  | spill reached declared held made ih =>
      rw [← (temp_leaves made).2] at ih
      exact ih.straight (by simp [Stmt.set, Stmt.isStraight])
  | overwrite reached declared gone usable ih =>
      exact ih.straight (by simp [Stmt.set, Stmt.isStraight])
  | effects reached effects usable ih =>
      exact ih.straight fun s member => Stmt.isStraight_of_isEffect (effects s member)
  | leave reached ends usable ih =>
      obtain ⟨n, same⟩ := ih
      exact ⟨n, by rw [List.map_append, same]; simp [Shape.ways]⟩
  | remark reached diagnostics queries ih => exact ih
  | forget reached ih => exact ih
  | depart reached ih => exact ih

variable {cx : Context} {u : Unit}

theorem perform_leads {i : Instruction Nat} (ran : perform cx i i.opcode.action p = .ok u q) :
    Leads i.ways p.stmts q.stmts := by
  have leads := reached_leads (perform_reached ran)
  rwa [Instruction.ways_shape] at leads

theorem perform_targeted {i : Instruction Nat}
    (ran : perform cx i i.opcode.action p = .ok u q) : i.Targeted := by
  intro branch
  have flow := i.opcode.flow?_action
  have returns : Returns (perform cx i i.opcode.action) u := ⟨p, q, ran⟩
  cases action : i.opcode.action with
  | jump =>
      rw [action] at returns
      obtain ⟨target, named, -⟩ := returns_bind returns
      exact ⟨target, Logic.target_of_returns named⟩
  | branchIf op =>
      rw [action] at returns
      obtain ⟨_, -, returns⟩ := returns_bind returns
      obtain ⟨_, -, returns⟩ := returns_bind returns
      obtain ⟨target, named, -⟩ := returns_bind returns
      exact ⟨target, Logic.target_of_returns named⟩
  | branchOn op unsigned =>
      rw [action] at returns
      obtain ⟨_, -, returns⟩ := returns_bind returns
      obtain ⟨_, -, returns⟩ := returns_bind returns
      obtain ⟨_, -, returns⟩ := returns_bind returns
      obtain ⟨target, named, -⟩ := returns_bind returns
      exact ⟨target, Logic.target_of_returns named⟩
  | leave =>
      rw [action] at returns
      obtain ⟨_, -, returns⟩ := returns_bind returns
      obtain ⟨target, named, -⟩ := returns_bind returns
      exact ⟨target, Logic.target_of_returns named⟩
  | _ =>
      rw [action] at flow
      rcases branch with branch | branch | branch <;>
        simp [branch, Action.flow?, Flow.endsBlock] at flow

theorem performAll_leads {l : Listing} {last : Instruction Nat}
    (goOn : ∀ i ∈ l, i.opcode.flow.endsBlock = false)
    (ran : performAll cx (l ++ [last]) p = .ok u q) :
    Leads last.ways p.stmts q.stmts ∧ last.Targeted := by
  rw [performAll_concat, bind_apply] at ran
  cases earlier : performAll cx l p with
  | error e r =>
      rw [earlier] at ran
      cases ran
  | ok v r =>
      rw [earlier] at ran
      have straight : Leads [] p.stmts r.stmts := by
        refine performAll_invariant (P := fun r => Leads [] p.stmts r.stmts) ?_ earlier (.refl _)
        intro i member before after leads reached
        have more := reached_leads reached
        rw [Instruction.ways_shape, Instruction.ways_of_not_endsBlock (goOn i member)] at more
        exact leads.trans more
      exact ⟨straight.trans (perform_leads ran), perform_targeted ran⟩

end Replay

theorem Block.instructions_eq {b : Block} {l : Listing} {last : Instruction Nat}
    (nonempty : b.entry ≤ b.exit) (ends : l[b.exit]? = some last) :
    b.instructions l = (l.drop b.entry).take (b.exit - b.entry) ++ [last] := by
  rw [instructions, Nat.sub_add_comm nonempty, List.take_add_one, List.getElem?_drop,
    Nat.add_sub_cancel' nonempty, ends, Option.toList_some]

theorem replayBlock_leads {cx : Context} {l : Listing} {starts : List Nat} {g : Graph} {id : Nat}
    {b : Block} {entry : List Value} {s t : Shared} {output : BlockOutput}
    {last : Instruction Nat} (numbered : Numbered 0 l) (laid : Graph.Laid l starts g)
    (found : g.blocks[id]? = some b) (ends : l[b.exit]? = some last)
    (ran : replayBlock cx l b entry s = (.ok output, t)) :
    Leads last.ways [] output.stmts ∧ last.Targeted := by
  -- The exception that a handler starts with comes first, then all instructions but the last go on.
  obtain ⟨p, q, received, ended, rfl, -⟩ := replayBlock_eq_ok ran
  rw [Block.instructions_eq (laid.nonempty found) ends] at ended
  have begins := reached_leads (receive_reached received)
  have inner : ∀ i ∈ (l.drop b.entry).take (b.exit - b.entry),
      i.opcode.flow.endsBlock = false := by
    intro i member
    obtain ⟨k, located⟩ := List.mem_iff_getElem?.mp member
    rw [List.getElem?_take, List.getElem?_drop] at located
    split at located
    · exact laid.inside numbered found (Nat.le_add_right _ _) (by omega) located
    · cases located
  obtain ⟨leads, targeted⟩ := performAll_leads inner ended
  exact ⟨begins.trans leads, targeted⟩

end Destack
