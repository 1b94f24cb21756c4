import Destack.Proofs.Bytecode.Grammar

namespace Destack

namespace Assembly

inductive Call
  | define
  | mark (label : Label)
  | emit (op : Opcode) (operand : Operand Label)
  | loadInt (value : Int32)
  | loadLocal (index : UInt16)
  | storeLocal (index : UInt16)
  | loadParam (index : UInt16)
  deriving DecidableEq, Repr

namespace Call

def emitted? : Call → Option (Opcode × Operand Label)
  | .define | .mark _ => none
  | .emit op operand => some (op, operand)
  | .loadInt value => some (Assembly.loadInt value)
  | .loadLocal index => some (Assembly.loadLocal index)
  | .storeLocal index => some (Assembly.storeLocal index)
  | .loadParam index => some (Assembly.loadParam index)

def labels : Call → List Label
  | .mark label => [label]
  | c => (c.emitted?.map fun e => e.2.places).getD []

def definesLabel : Call → Bool
  | .define => true
  | _ => false

def perform (a : Assembly) : Call → Assembly
  | .define => a.define.2
  | .mark label => a.mark label
  | .emit op operand => a.emit op operand
  | .loadInt value => a.emit (Assembly.loadInt value).1 (Assembly.loadInt value).2
  | .loadLocal index => a.emit (Assembly.loadLocal index).1 (Assembly.loadLocal index).2
  | .storeLocal index => a.emit (Assembly.storeLocal index).1 (Assembly.storeLocal index).2
  | .loadParam index => a.emit (Assembly.loadParam index).1 (Assembly.loadParam index).2

end Call

def write (calls : List Call) : Assembly := calls.foldl Call.perform {}

def emitted (calls : List Call) : List (Opcode × Operand Label) := calls.filterMap Call.emitted?

def defined (calls : List Call) : Nat := calls.countP Call.definesLabel

/-- Every label that a call names was defined before it, or is one of those known at the start. -/
def OwnLabels (known : Nat) : List Call → Prop
  | [] => True
  | c :: calls =>
    (∀ label ∈ c.labels, label < known) ∧ OwnLabels (known + defined [c]) calls

instance decidableOwnLabels : ∀ known calls, Decidable (OwnLabels known calls)
  | _, [] => .isTrue trivial
  | known, c :: calls =>
    have := decidableOwnLabels (known + defined [c]) calls
    inferInstanceAs (Decidable ((∀ label ∈ c.labels, label < known) ∧
      OwnLabels (known + defined [c]) calls))

theorem ownLabels_append {known : Nat} {calls more : List Call} :
    OwnLabels known (calls ++ more) ↔
      OwnLabels known calls ∧ OwnLabels (known + defined calls) more := by
  induction calls generalizing known with
  | nil => simp [OwnLabels, defined]
  | cons c calls ih =>
      have count : defined (c :: calls) = defined [c] + defined calls := by
        simp only [defined, List.countP_cons, List.countP_nil]
        omega
      rw [List.cons_append, OwnLabels, OwnLabels, ih, count, and_assoc, Nat.add_assoc]

theorem write_append (calls more : List Call) :
    write (calls ++ more) = more.foldl Call.perform (write calls) :=
  List.foldl_append

section Perform

variable {a : Assembly} {c : Call} {op : Opcode} {operand : Operand Label}

theorem perform_eq_emit (a : Assembly) (emits : c.emitted? = some (op, operand)) :
    c.perform a = a.emit op operand := by
  cases c with
  | define => cases emits
  | mark label => cases emits
  | emit op operand =>
      cases emits
      rfl
  | _ =>
      obtain ⟨rfl, rfl⟩ := Prod.mk.inj (Option.some.inj emits)
      rfl

theorem labels_of_emitted? (emits : c.emitted? = some (op, operand)) :
    c.labels = operand.places := by
  cases c with
  | define => cases emits
  | mark label => cases emits
  | _ =>
      rw [Call.labels, emits]
      · rfl
      · rintro label ⟨⟩

theorem definesLabel_of_emitted? (emits : c.emitted? = some (op, operand)) :
    c.definesLabel = false := by
  cases c with
  | define => cases emits
  | _ => rfl

theorem instructions_emit (a : Assembly) (op : Opcode) (operand : Operand Label) :
    (a.emit op operand).instructions = a.instructions ++
      [⟨a.instructions.length, a.offset, op.encoding.bytes.length + operand.size op.kind, op,
        operand⟩] :=
  rfl

theorem labels_emit (a : Assembly) (op : Opcode) (operand : Operand Label) :
    (a.emit op operand).labels = a.labels := by
  unfold emit
  dsimp only
  split <;> rfl

theorem fault_emit (a : Assembly) (op : Opcode) (operand : Operand Label) :
    (a.emit op operand).fault = none ↔ a.fault = none ∧ operand.fits op.kind = true := by
  unfold emit
  dsimp only
  split
  · rename_i fits
    simp [fits]
  · rename_i unfit
    simp [fail, unfit]

theorem mark_of_bound {label : Label} {offset : Nat}
    (bound : a.labels[label]? = some (some offset)) :
    a.mark label = a.fail (.reboundLabel label) := by
  rw [mark, bound]

theorem mark_of_unbound {label : Label} (unbound : ∀ offset, a.labels[label]? ≠ some (some offset)) :
    a.mark label = { a with labels := a.labels.set label (some a.offset) } := by
  unfold mark
  split
  · rename_i offset bound
    exact absurd bound (unbound offset)
  · rfl

theorem perform_cases (a : Assembly) (c : Call) :
    (c = .define ∧ c.perform a = a.define.2) ∨
    (∃ label offset, c = .mark label ∧ a.labels[label]? = some (some offset) ∧
      c.perform a = a.fail (.reboundLabel label)) ∨
    (∃ label, c = .mark label ∧ (∀ offset, a.labels[label]? ≠ some (some offset)) ∧
      c.perform a = { a with labels := a.labels.set label (some a.offset) }) ∨
    ∃ op operand, c.emitted? = some (op, operand) ∧ c.perform a = a.emit op operand := by
  cases emits : c.emitted? with
  | some e => exact .inr (.inr (.inr ⟨e.1, e.2, rfl, perform_eq_emit a emits⟩))
  | none =>
      cases c with
      | define => exact .inl ⟨rfl, rfl⟩
      | mark label =>
          by_cases bound : ∃ offset, a.labels[label]? = some (some offset)
          · obtain ⟨offset, bound⟩ := bound
            exact .inr (.inl ⟨label, offset, rfl, bound, mark_of_bound bound⟩)
          · rw [not_exists] at bound
            exact .inr (.inr (.inl ⟨label, rfl, bound, mark_of_unbound bound⟩))
      | _ => cases emits

theorem instructions_perform (a : Assembly) (c : Call) :
    a.instructions <+: (c.perform a).instructions := by
  rcases perform_cases a c with ⟨-, same⟩ | ⟨label, offset, -, -, same⟩ | ⟨label, -, -, same⟩ |
    ⟨op, operand, -, same⟩
  · rw [same]
    exact List.prefix_rfl
  · rw [same]
    exact List.prefix_rfl
  · rw [same]
  · rw [same]
    exact List.prefix_append _ _

theorem labels_perform {label : Label} {offset : Nat}
    (bound : a.labels[label]? = some (some offset)) :
    (c.perform a).labels[label]? = some (some offset) := by
  rcases perform_cases a c with ⟨-, same⟩ | ⟨other, there, -, -, same⟩ | ⟨other, -, unbound, same⟩ |
    ⟨op, operand, -, same⟩
  · rw [same, Assembly.define, List.getElem?_append_left (List.getElem?_eq_some_iff.mp bound).1]
    exact bound
  · rw [same]
    exact bound
  · have differs : other ≠ label := fun here => unbound offset (here ▸ bound)
    rw [same, List.getElem?_set_ne differs]
    exact bound
  · rw [same, labels_emit]
    exact bound

theorem fault_perform (sound : (c.perform a).fault = none) : a.fault = none := by
  rcases perform_cases a c with ⟨-, same⟩ | ⟨label, offset, -, -, same⟩ | ⟨label, -, -, same⟩ |
    ⟨op, operand, -, same⟩
  · rw [same] at sound
    exact sound
  · rw [same] at sound
    simp [fail] at sound
  · rw [same] at sound
    exact sound
  · rw [same, fault_emit] at sound
    exact sound.1

end Perform

section Foldl

variable {a : Assembly} (calls : List Call)

theorem instructions_foldl (a : Assembly) :
    a.instructions <+: (calls.foldl Call.perform a).instructions := by
  induction calls generalizing a with
  | nil => exact List.prefix_rfl
  | cons c calls ih => exact (instructions_perform a c).trans (ih _)

theorem labels_foldl {label : Label} {offset : Nat}
    (bound : a.labels[label]? = some (some offset)) :
    (calls.foldl Call.perform a).labels[label]? = some (some offset) := by
  induction calls generalizing a with
  | nil => exact bound
  | cons c calls ih => exact ih (labels_perform bound)

theorem fault_foldl (sound : (calls.foldl Call.perform a).fault = none) : a.fault = none := by
  induction calls generalizing a with
  | nil => exact sound
  | cons c calls ih => exact fault_perform (ih sound)

end Foldl

structure Records (calls : List Call) (a : Assembly) : Prop where
  emits : a.instructions.map (fun i => (i.opcode, i.operand)) = emitted calls
  placed : Placed 0 0 a.instructions
  sized : ∀ i ∈ a.instructions,
    i.size = i.opcode.encoding.bytes.length + i.operand.size i.opcode.kind
  fits : a.fault = none → ∀ i ∈ a.instructions, i.operand.fits i.opcode.kind = true
  defines : a.labels.length = defined calls
  owns : OwnLabels 0 calls → ∀ i ∈ a.instructions, ∀ label ∈ i.targets, label < a.labels.length
  bound : ∀ (label : Label) (offset : Nat), a.labels[label]? = some (some offset) →
    ∃ k ≤ a.instructions.length, offset = extent (a.instructions.take k)

namespace Records

theorem start : Records [] {} where
  emits := rfl
  placed := placed_nil
  sized := by simp
  fits := by simp
  defines := rfl
  owns := by simp
  bound := by simp

variable {calls : List Call} {a : Assembly} (records : Records calls a)
include records

theorem length_instructions : a.instructions.length = (emitted calls).length := by
  rw [← records.emits, List.length_map]

theorem offset_eq : a.offset = extent a.instructions := by
  have last := records.placed.getLast?_eq
  rwa [Nat.zero_add] at last

theorem size_pos : ∀ i ∈ a.instructions, 0 < i.size := by
  intro i member
  rw [records.sized i member]
  exact Nat.add_pos_left i.opcode.length_encoding_pos _

theorem relabel {c : Call} {labels : List (Option Nat)} {fault : Option AssembleError}
    (silent : c.emitted? = none) (sound : fault = none → a.fault = none)
    (defines : labels.length = a.labels.length + defined [c])
    (bound : ∀ (label : Label) (offset : Nat), labels[label]? = some (some offset) →
      ∃ k ≤ a.instructions.length, offset = extent (a.instructions.take k)) :
    Records (calls ++ [c]) ⟨a.instructions, labels, fault⟩ where
  emits := by
    rw [records.emits]
    simp [emitted, silent]
  placed := records.placed
  sized := records.sized
  fits := fun fine => records.fits (sound fine)
  defines := by
    rw [defines, records.defines, defined, defined, defined, List.countP_append]
  owns := by
    intro own i member label named
    have known := records.owns (ownLabels_append.mp own).1 i member label named
    exact known.trans_le ((Nat.le_add_right _ _).trans_eq defines.symm)
  bound := bound

theorem emit {c : Call} {op : Opcode} {operand : Operand Label}
    (emits : c.emitted? = some (op, operand)) : Records (calls ++ [c]) (a.emit op operand) where
  emits := by
    rw [instructions_emit, List.map_append, records.emits]
    simp [emitted, emits]
  placed := by
    rw [instructions_emit]
    exact records.placed.concat (Nat.zero_add _).symm
      (records.offset_eq.trans (Nat.zero_add _).symm)
  sized := by
    rw [instructions_emit, List.forall_mem_append]
    exact ⟨records.sized, by simp⟩
  fits := by
    intro sound
    rw [fault_emit] at sound
    rw [instructions_emit, List.forall_mem_append]
    exact ⟨records.fits sound.1, by simp [sound.2]⟩
  defines := by
    rw [labels_emit, records.defines]
    simp [defined, definesLabel_of_emitted? emits]
  owns := by
    intro own
    obtain ⟨own, here, -⟩ := ownLabels_append.mp own
    rw [labels_of_emitted? emits, Nat.zero_add, ← records.defines] at here
    rw [instructions_emit, labels_emit, List.forall_mem_append]
    exact ⟨records.owns own, by simpa [Instruction.targets] using here⟩
  bound := by
    intro label offset found
    rw [labels_emit] at found
    obtain ⟨k, within, rfl⟩ := records.bound label offset found
    rw [instructions_emit, List.length_append]
    refine ⟨k, Nat.le_add_right_of_le within, ?_⟩
    rw [List.take_append_of_le_length within]

theorem perform (c : Call) : Records (calls ++ [c]) (c.perform a) := by
  rcases perform_cases a c with ⟨rfl, same⟩ | ⟨label, offset, rfl, -, same⟩ |
    ⟨label, rfl, -, same⟩ | ⟨op, operand, emits, same⟩
  · rw [same]
    refine records.relabel rfl id (by simp [defined, Call.definesLabel]) ?_
    intro label offset found
    apply records.bound label offset
    rw [List.getElem?_append] at found
    split at found
    · exact found
    · rw [List.getElem?_singleton] at found
      split at found <;> simp at found
  · rw [same]
    refine records.relabel rfl (fun sound => ?_) (by simp [defined, Call.definesLabel]) records.bound
    simp at sound
  · rw [same]
    refine records.relabel rfl id (by simp [defined, Call.definesLabel]) ?_
    intro other offset found
    rw [List.getElem?_set] at found
    split at found
    · split at found
      · rw [Option.some.injEq, Option.some.injEq] at found
        refine ⟨a.instructions.length, le_rfl, ?_⟩
        rw [← found, records.offset_eq, List.take_length]
      · cases found
    · exact records.bound other offset found
  · rw [same]
    exact records.emit emits

end Records

theorem records_write (calls : List Call) : Records calls (write calls) := by
  induction calls using List.reverseRecOn with
  | nil => exact Records.start
  | append_singleton calls c ih =>
      rw [write_append]
      exact ih.perform c

theorem labels_of_marked {before after : List Call} {label : Label}
    (sound : (write (before ++ .mark label :: after)).fault = none)
    (own : OwnLabels 0 (before ++ .mark label :: after)) :
    (write (before ++ .mark label :: after)).labels[label]? =
      some (some (extent ((write (before ++ .mark label :: after)).instructions.take
        (emitted before).length))) := by
  have records := records_write before
  obtain ⟨-, here, -⟩ := ownLabels_append.mp own
  have known : label < (write before).labels.length := by
    rw [records.defines, ← Nat.zero_add (defined before)]
    exact here label List.mem_cons_self
  rw [write_append, List.foldl_cons] at sound ⊢
  have marked : (Call.perform (write before) (.mark label)).labels[label]? =
      some (some (write before).offset) := by
    have fine := fault_foldl after sound
    rcases perform_cases (write before) (.mark label) with ⟨wrong, -⟩ |
      ⟨other, offset, same, -, after⟩ | ⟨other, same, -, after⟩ | ⟨op, operand, wrong, -⟩
    · cases wrong
    · rw [after] at fine
      simp [fail] at fine
    · cases same
      rw [after, List.getElem?_set_self known]
    · cases wrong
  have kept := ((instructions_perform (write before) (.mark label)).trans
    (instructions_foldl after _))
  rw [labels_foldl after marked, records.offset_eq, ← records.length_instructions,
    ← List.prefix_iff_eq_take.mp kept]

end Assembly
end Destack
