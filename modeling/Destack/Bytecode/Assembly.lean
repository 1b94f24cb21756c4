import Destack.Bytecode.Bytes
import Destack.Bytecode.Instruction

/-!
# Writing code

An assembly collects instructions whose branches name labels. Sizes do not depend on where labels
end up, so the offset of each instruction is known when it is emitted; the displacements are filled
in when the assembly is finished. The first fault on the way sticks, and later calls go on as if
nothing had happened.
-/

namespace Destack

abbrev Label := Nat

inductive AssembleError
  | unboundLabel (label : Label)
  | reboundLabel (label : Label)
  | shortBranchOutOfRange (offset : Nat) (displacement : Int)
  | operandMismatch (opcode : Opcode) (offset : Nat)
  deriving DecidableEq, Repr

def AssembleError.message : AssembleError → String
  | .unboundLabel label => "Label " ++ toString label ++ " is referenced but never marked"
  | .reboundLabel label => "Label " ++ toString label ++ " is marked more than once"
  | .shortBranchOutOfRange offset displacement =>
    "Short branch at offset " ++ toString offset ++ " cannot reach displacement " ++
      toString displacement
  | .operandMismatch op offset =>
    "Opcode " ++ op.mnemonic ++ " at offset " ++ toString offset ++ " expects a " ++
      op.kind.name ++ " operand"

namespace Operand

variable {Place : Type}

def fits (kind : OperandKind) : Operand Place → Bool
  | .none => kind = .none
  | .int32 _ => kind = .int32 || kind = .shortInt
  | .int64 _ => kind = .int64
  | .float32 _ => kind = .float32
  | .float64 _ => kind = .float64
  | .var _ => kind = .var || kind = .shortVar
  | .token _ => kind = .token
  | .target _ => kind = .branch || kind = .shortBranch
  | .switch _ => kind = .switch
  | .byte _ => kind = .byte

def size (kind : OperandKind) : Operand Place → Nat
  | .none => 0
  | .int32 _ => if kind = .shortInt then 1 else 4
  | .int64 _ => 8
  | .float32 _ => 4
  | .float64 _ => 8
  | .var _ => if kind = .shortVar then 1 else 2
  | .token _ => 4
  | .target _ => if kind = .shortBranch then 1 else 4
  | .switch places => 4 + 4 * places.length
  | .byte _ => 1

/-- The operand's bytes after an opcode of the given kind, for branches that name displacements.
Short forms keep the lowest byte. -/
def bytes (kind : OperandKind) : Operand Int → List UInt8
  | .none => []
  | .int32 value => Bytes.spell (if kind = .shortInt then 1 else 4) value.toInt
  | .int64 value => Bytes.spell 8 value.toInt
  | .float32 bits => Bytes.spell 4 bits.toNat
  | .float64 bits => Bytes.spell 8 bits.toNat
  | .var index => Bytes.spell (if kind = .shortVar then 1 else 2) index.toNat
  | .token t => Bytes.spell 4 t.raw.toNat
  | .target displacement => Bytes.spell (if kind = .shortBranch then 1 else 4) displacement
  | .switch displacements =>
    Bytes.spell 4 displacements.length ++ displacements.flatMap (Bytes.spell 4)
  | .byte value => [value]

def map {Other : Type} (f : Place → Other) : Operand Place → Operand Other
  | .none => .none
  | .int32 value => .int32 value
  | .int64 value => .int64 value
  | .float32 bits => .float32 bits
  | .float64 bits => .float64 bits
  | .var index => .var index
  | .token t => .token t
  | .target place => .target (f place)
  | .switch places => .switch (places.map f)
  | .byte value => .byte value

end Operand

structure Assembly where
  instructions : List (Instruction Label) := []
  labels : List (Option Nat) := []
  fault : Option AssembleError := none

namespace Assembly

def offset (a : Assembly) : Nat := (a.instructions.getLast?.map (·.nextOffset)).getD 0

def fail (a : Assembly) (e : AssembleError) : Assembly := { a with fault := a.fault.or (some e) }

def define (a : Assembly) : Label × Assembly :=
  (a.labels.length, { a with labels := a.labels ++ [none] })

def mark (a : Assembly) (label : Label) : Assembly :=
  match a.labels[label]? with
  | some (some _) => a.fail (.reboundLabel label)
  | _ => { a with labels := a.labels.set label (some a.offset) }

def emit (a : Assembly) (op : Opcode) (operand : Operand Label) : Assembly :=
  let size := op.encoding.bytes.length + operand.size op.kind
  let checked := if operand.fits op.kind then a else a.fail (.operandMismatch op a.offset)
  { checked with
    instructions := a.instructions ++ [⟨a.instructions.length, a.offset, size, op, operand⟩] }

def loadInt (value : Int32) : Opcode × Operand Label :=
  match value.toInt with
  | -1 => (.ldcI4M1, .none)
  | 0 => (.ldcI4_0, .none)
  | 1 => (.ldcI4_1, .none)
  | 2 => (.ldcI4_2, .none)
  | 3 => (.ldcI4_3, .none)
  | 4 => (.ldcI4_4, .none)
  | 5 => (.ldcI4_5, .none)
  | 6 => (.ldcI4_6, .none)
  | 7 => (.ldcI4_7, .none)
  | 8 => (.ldcI4_8, .none)
  | v => (if -128 ≤ v && v ≤ 127 then .ldcI4S else .ldcI4, .int32 value)

/-- The shortest of three kinds of instruction that access a variable: without an operand for the
first few, with a byte, with two bytes. -/
def accessVar (implicit : List Opcode) (short long : Opcode) (index : UInt16) :
    Opcode × Operand Label :=
  match implicit[index.toNat]? with
  | some op => (op, .none)
  | none => (if index.toNat ≤ 255 then short else long, .var index)

def loadLocal : UInt16 → Opcode × Operand Label :=
  accessVar [.ldloc0, .ldloc1, .ldloc2, .ldloc3] .ldlocS .ldloc

def storeLocal : UInt16 → Opcode × Operand Label :=
  accessVar [.stloc0, .stloc1, .stloc2, .stloc3] .stlocS .stloc

def loadParam : UInt16 → Opcode × Operand Label :=
  accessVar [.ldarg0, .ldarg1, .ldarg2, .ldarg3] .ldargS .ldarg

def referenced (a : Assembly) : List Label := a.instructions.flatMap (·.targets)

/-- The offset reported for a label that is neither bound nor named. -/
def unboundOffset : Nat := 0xFFFFFFFF

def labelOffset (a : Assembly) (label : Label) : Nat :=
  (a.labels[label]?.join).getD unboundOffset

def unbound? (a : Assembly) : Option Label :=
  (List.range a.labels.length).find? fun label =>
    a.labels[label]? = some none && a.referenced.contains label

def displacement (a : Assembly) (i : Instruction Label) (label : Label) : Int :=
  a.labelOffset label - i.nextOffset

def overreach? (a : Assembly) (i : Instruction Label) : Option AssembleError :=
  match i.opcode.kind, i.operand with
  | .shortBranch, .target label =>
    let d := a.displacement i label
    if -128 ≤ d && d ≤ 127 then none else some (.shortBranchOutOfRange i.offset d)
  | _, _ => none

def encode (a : Assembly) (i : Instruction Label) : List UInt8 :=
  i.opcode.encoding.bytes ++ (i.operand.map (a.displacement i)).bytes i.opcode.kind

structure Finished where
  code : List UInt8
  labels : List Nat
  deriving DecidableEq, Repr

def finish (a : Assembly) : Except AssembleError Finished :=
  match a.fault, a.unbound?, a.instructions.findSome? a.overreach? with
  | some e, _, _ => .error e
  | none, some label, _ => .error (.unboundLabel label)
  | none, none, some e => .error e
  | none, none, none =>
    .ok ⟨a.instructions.flatMap a.encode, (List.range a.labels.length).map a.labelOffset⟩

end Assembly
end Destack
