import Destack.Proofs.Replay.Pairing

namespace Destack

namespace Opcode

def implied? : Opcode → Option (Opcode × Operand Nat)
  | .ldarg0 => some (.ldarg, .var 0)
  | .ldarg1 => some (.ldarg, .var 1)
  | .ldarg2 => some (.ldarg, .var 2)
  | .ldarg3 => some (.ldarg, .var 3)
  | .ldloc0 => some (.ldloc, .var 0)
  | .ldloc1 => some (.ldloc, .var 1)
  | .ldloc2 => some (.ldloc, .var 2)
  | .ldloc3 => some (.ldloc, .var 3)
  | .stloc0 => some (.stloc, .var 0)
  | .stloc1 => some (.stloc, .var 1)
  | .stloc2 => some (.stloc, .var 2)
  | .stloc3 => some (.stloc, .var 3)
  | .ldcI4M1 => some (.ldcI4, .int32 (-1))
  | .ldcI4_0 => some (.ldcI4, .int32 0)
  | .ldcI4_1 => some (.ldcI4, .int32 1)
  | .ldcI4_2 => some (.ldcI4, .int32 2)
  | .ldcI4_3 => some (.ldcI4, .int32 3)
  | .ldcI4_4 => some (.ldcI4, .int32 4)
  | .ldcI4_5 => some (.ldcI4, .int32 5)
  | .ldcI4_6 => some (.ldcI4, .int32 6)
  | .ldcI4_7 => some (.ldcI4, .int32 7)
  | .ldcI4_8 => some (.ldcI4, .int32 8)
  | _ => none

def plain (op : Opcode) : Opcode :=
  match op.implied? with
  | some (full, _) => full
  | none => if op = .ldcI4S then .ldcI4 else op.longForm

theorem plain_plain (op : Opcode) : op.plain.plain = op.plain := by
  cases op <;> rfl

theorem flow_plain (op : Opcode) : op.plain.flow = op.flow := by
  cases op <;> rfl

theorem action_plain {op : Opcode} (stated : op.implied? = none) : op.plain.action = op.action := by
  cases op <;> first | rfl | cases stated

theorem action_implied {op : Opcode} {full : Opcode × Operand Nat}
    (implied : op.implied? = some full) :
    (∃ frame n, op.action = .load frame (some n) ∧ full.1.action = .load frame none ∧
        full.2 = .var n) ∨
      (∃ frame n, op.action = .store frame (some n) ∧ full.1.action = .store frame none ∧
        full.2 = .var n) ∨
      ∃ n, op.action = .loadInt32 (some n) ∧ full.1.action = .loadInt32 none ∧
        full.2 = .int32 n := by
  cases op <;> cases implied <;> simp [action]

end Opcode

namespace Instruction

def inFull (i : Instruction Nat) : Opcode × Operand Nat :=
  match i.opcode.implied?, i.operand with
  | some full, .none => full
  | some _, operand => (i.opcode, operand)
  | none, operand => (i.opcode.plain, operand)

def plain (i : Instruction Nat) : Instruction Nat := ⟨i.index, 0, 0, i.inFull.1, i.inFull.2⟩

theorem inFull_cases (i : Instruction Nat) :
    (i.operand = .none ∧ i.opcode.implied? = some i.inFull) ∨ i.inFull.2 = i.operand ∧
      i.inFull.1.action = i.opcode.action ∧ i.inFull.1.plain = i.opcode.plain := by
  unfold inFull
  split
  · rename_i implied operand
    exact .inl ⟨operand, implied⟩
  · exact .inr ⟨rfl, rfl, rfl⟩
  · rename_i stated
    exact .inr ⟨rfl, i.opcode.action_plain stated, i.opcode.plain_plain⟩

theorem plain_inFull (i : Instruction Nat) : i.inFull.1.plain = i.opcode.plain := by
  rcases i.inFull_cases with ⟨-, implied⟩ | ⟨-, -, same⟩
  · have full : i.opcode.plain = i.inFull.1 := by rw [Opcode.plain, implied]
    rw [← full, Opcode.plain_plain]
  · exact same

theorem flow_plain (i : Instruction Nat) : i.plain.opcode.flow = i.opcode.flow := by
  rw [← i.opcode.flow_plain, ← plain_inFull, Opcode.flow_plain]
  rfl

theorem targets_plain (i : Instruction Nat) :
    i.plain.targets = i.targets ∧ i.plain.target? = i.target? := by
  unfold targets target?
  rcases i.inFull_cases with ⟨operand, implied⟩ | ⟨operand, -⟩
  · have full : i.plain.operand = i.inFull.2 := rfl
    rw [operand, full]
    obtain ⟨_, _, -, -, same⟩ | ⟨_, _, -, -, same⟩ | ⟨_, -, -, same⟩ :=
      Opcode.action_implied implied
    all_goals
      rw [same]
      exact ⟨rfl, rfl⟩
  · rw [show i.plain.operand = i.operand from operand]
    exact ⟨rfl, rfl⟩

end Instruction

def ReplayError.plain : ReplayError → ReplayError
  | .stackUnderflow op index => .stackUnderflow op.plain index
  | .unbalancedStack op index depth => .unbalancedStack op.plain index depth
  | .unsupportedOpcode op index _ => .unsupportedOpcode op.plain index 0
  | .malformedOperand op index => .malformedOperand op.plain index
  | e => e

namespace Replay

variable {α β : Type}

def blaming : EStateM.Result ReplayError Progress α → EStateM.Result ReplayError Progress α
  | .ok a p => .ok a p
  | .error e p => .error e.plain p

/-- The steps do the same, and fail with errors that differ in spelling at most. -/
def Akin (x y : Replay α) : Prop := ∀ p, blaming (x p) = blaming (y p)

namespace Akin

theorem refl (x : Replay α) : Akin x x := fun _ => rfl

theorem seq {x y : Replay α} {f g : α → Replay β} (first : Akin x y)
    (rest : ∀ a, Akin (f a) (g a)) : Akin (x >>= f) (y >>= g) := by
  intro p
  have here := first p
  rw [bind_apply, bind_apply]
  cases ran : x p with
  | ok a q =>
      cases other : y p with
      | ok b r =>
          simp only [ran, other, blaming, EStateM.Result.ok.injEq] at here
          obtain ⟨rfl, rfl⟩ := here
          exact rest a q
      | error e r => simp [ran, other, blaming] at here
  | error e q =>
      cases other : y p with
      | ok b r => simp [ran, other, blaming] at here
      | error e' r =>
          rw [ran, other] at here
          simpa [blaming] using here

theorem last {x y : Replay α} {f : α → Replay β} (first : Akin x y) : Akin (x >>= f) (y >>= f) :=
  first.seq fun a => refl (f a)

end Akin

theorem akin_throw {e e' : ReplayError} (same : e.plain = e'.plain) :
    Akin (throw e : Replay α) (throw e') :=
  fun p => congrArg (EStateM.Result.error · p) same

structure SameSpot (i j : Instruction Nat) : Prop where
  index : i.index = j.index
  opcode : i.opcode.plain = j.opcode.plain

section SameSpot

variable {i j : Instruction Nat} (spot : SameSpot i j)
include spot

theorem akin_malformed : Akin (malformed i : Replay α) (malformed j) :=
  akin_throw (by simp only [ReplayError.plain, spot.index, spot.opcode])

theorem akin_pop : Akin (pop i) (pop j) := by
  intro p
  rw [pop_apply, pop_apply]
  cases p.stack with
  | nil =>
      simp only [OperandStack.pop, withStack, blaming, ReplayError.plain, spot.index, spot.opcode]
  | cons v rest => rfl

theorem akin_popMany (count : Nat) : Akin (popMany i count) (popMany j count) := by
  intro p
  rw [popMany_apply, popMany_apply, OperandStack.popMany, OperandStack.popMany]
  split
  · rfl
  · simp only [withStack, blaming, ReplayError.plain, spot.index, spot.opcode]

theorem akin_storeVariable (v : Value) : Akin (storeVariable i v) (storeVariable j v) :=
  (akin_pop spot).last

end SameSpot

structure Twins (i j : Instruction Nat) : Prop extends SameSpot i j where
  operand : i.operand = j.operand

def Twins.pairing {i j : Instruction Nat} (twins : Twins i j) (cx : Context) :
    Pairing cx cx.view i j where
  rel := Akin
  same _ := .refl _
  seq := .seq
  index := twins.index
  operand := twins.operand
  malformed := akin_malformed twins.toSameSpot
  unsupported := akin_throw (by simp only [ReplayError.plain, twins.index, twins.opcode])
  unbalanced _ := akin_throw (by simp only [ReplayError.plain, twins.index, twins.opcode])
  pop := akin_pop twins.toSameSpot
  popMany := akin_popMany twins.toSameSpot
  asking _ _ _ := .refl _

theorem akin_perform {i j : Instruction Nat} (twins : Twins i j) (cx : Context) (a : Action) :
    Akin (perform cx i a) (perform cx j a) :=
  (twins.pairing cx).perform a

theorem sameSpot_plain (i : Instruction Nat) : SameSpot i i.plain := ⟨rfl, i.plain_inFull.symm⟩

theorem variableOperand_of_var {i : Instruction Nat} {n : UInt16} (frame : Frame)
    (named : i.operand = .var n) :
    variableOperand i frame none = variableOperand i frame (some n) := by
  simp only [variableOperand, named]

theorem akin_plain (cx : Context) (i : Instruction Nat) :
    Akin (perform cx i i.opcode.action) (perform cx i.plain i.plain.opcode.action) := by
  have spot := sameSpot_plain i
  rcases i.inFull_cases with ⟨-, implied⟩ | ⟨operand, action, -⟩
  · obtain ⟨frame, n, short, full, operand⟩ | ⟨frame, n, short, full, operand⟩ |
      ⟨n, short, full, operand⟩ := Opcode.action_implied implied
    all_goals rw [short, show i.plain.opcode.action = _ from full]
    · simp only [perform, variableOperand_of_var (i := i.plain) frame operand]
      exact .refl _
    · simp only [perform, variableOperand_of_var (i := i.plain) frame operand]
      exact akin_storeVariable spot _
    · simp only [perform, show i.plain.operand = .int32 n from operand]
      exact .refl _
  · rw [show i.plain.opcode.action = i.opcode.action from action]
    exact akin_perform ⟨spot, operand.symm⟩ cx _

theorem akin_performAll (cx : Context) (l : Listing) :
    Akin (performAll cx l) (performAll cx (l.map Instruction.plain)) := by
  induction l with
  | nil => exact .refl _
  | cons i rest ih => exact (akin_plain cx i).seq fun _ => ih

end Replay

open Replay

theorem Block.akin_replay (cx : Context) (l : Listing) (b : Block) :
    Akin (b.replay cx l) (b.replay cx (l.map Instruction.plain)) := by
  have instructions : b.instructions (l.map Instruction.plain) =
      (b.instructions l).map Instruction.plain := by
    rw [Block.instructions, ← List.map_drop, ← List.map_take, Block.instructions]
  unfold Block.replay
  rw [instructions]
  exact (Akin.refl _).seq fun _ => akin_performAll cx _

def spelledOut {α σ : Type} (outcome : Except ReplayError α × σ) : Except ReplayError α × σ :=
  (outcome.1.mapError ReplayError.plain, outcome.2)

theorem replayBlock_plain (cx : Context) (l : Listing) (b : Block) (entry : List Value)
    (s : Shared) : spelledOut (replayBlock cx (l.map Instruction.plain) b entry s) =
      spelledOut (replayBlock cx l b entry s) := by
  have akin := b.akin_replay cx l (s.begin entry)
  rw [replayBlock_eq, replayBlock_eq]
  cases ran : b.replay cx l (s.begin entry) with
  | ok u p =>
      cases other : b.replay cx (l.map Instruction.plain) (s.begin entry) with
      | ok v q =>
          rw [ran, other] at akin
          cases akin
          rfl
      | error e q => simp [ran, other, blaming] at akin
  | error e p =>
      cases other : b.replay cx (l.map Instruction.plain) (s.begin entry) with
      | ok v q => simp [ran, other, blaming] at akin
      | error e' q =>
          simp only [ran, other, blaming, EStateM.Result.error.injEq] at akin
          simp only [spelledOut, Except.mapError, akin]

end Destack
