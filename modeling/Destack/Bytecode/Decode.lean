import Destack.Bytecode.Bytes
import Destack.Bytecode.Instruction

/-!
# Reading code

Code is first cut into instructions, whose branches then name byte offsets; after that every
offset is replaced by the position of the instruction that starts there. So a broken instruction
is reported before a branch into the middle of one, wherever the two stand.
-/

namespace Destack

inductive DecodeError
  | invalidOpcode (byte : UInt8) (offset : Nat)
  | invalidExtendedOpcode (byte : UInt8) (offset : Nat)
  | unexpectedEnd (offset : Nat)
  | danglingTarget (offset : Nat) (target : Int)
  | danglingBoundary (clause : Nat) (offset : Nat)
  deriving DecidableEq, Repr

def DecodeError.message : DecodeError → String
  | .invalidOpcode byte offset =>
    "Invalid opcode byte " ++ Text.hexNumber 2 byte.toNat ++ " at offset " ++ toString offset
  | .invalidExtendedOpcode byte offset =>
    "Invalid extended opcode 0xfe " ++ Text.hexNumber 2 byte.toNat ++ " at offset " ++
      toString offset
  | .unexpectedEnd offset =>
    "Unexpected end of bytecode in instruction at offset " ++ toString offset
  | .danglingTarget offset target =>
    "Branch at offset " ++ toString offset ++ " targets " ++ toString target ++
      ", which is not an instruction boundary"
  | .danglingBoundary clause offset =>
    "Exception clause " ++ toString clause ++ " has boundary " ++ toString offset ++
      " which is not an instruction boundary"

namespace Decode

def operandSize? (kind : OperandKind) (bytes : List UInt8) : Option Nat :=
  match kind.size? with
  | some size => some size
  | none => if 4 ≤ bytes.length then some (4 + 4 * Bytes.unsigned (bytes.take 4)) else none

/-- The operand that the bytes spell. Displacements count from the offset `next` of the following
instruction. -/
def operand (next : Nat) (kind : OperandKind) (bytes : List UInt8) : Operand Int :=
  match kind with
  | .none => .none
  | .shortInt | .int32 => .int32 (.ofInt (Bytes.signed bytes))
  | .int64 => .int64 (.ofInt (Bytes.signed bytes))
  | .float32 => .float32 (.ofNat (Bytes.unsigned bytes))
  | .float64 => .float64 (.ofNat (Bytes.unsigned bytes))
  | .shortVar | .var => .var (.ofNat (Bytes.unsigned bytes))
  | .shortBranch | .branch => .target (next + Bytes.signed bytes)
  | .switch =>
    .switch ((Bytes.words (bytes.drop 4)).map fun displacement => next + Bytes.signed displacement)
  | .token => .token ⟨.ofNat (Bytes.unsigned bytes)⟩
  | .byte => .byte (.ofNat (Bytes.unsigned bytes))

def opcode (offset : Nat) (first : UInt8) (rest : List UInt8) :
    Except DecodeError (Opcode × List UInt8) :=
  if first = Encoding.escape then
    match rest with
    | [] => .error (.unexpectedEnd offset)
    | second :: rest =>
      match Opcode.ofEncoding? (.extended second) with
      | some op => .ok (op, rest)
      | none => .error (.invalidExtendedOpcode second offset)
  else
    match Opcode.ofEncoding? (.short first) with
    | some op => .ok (op, rest)
    | none => .error (.invalidOpcode first offset)

def instruction (index offset : Nat) (first : UInt8) (rest : List UInt8) :
    Except DecodeError (Instruction Int × List UInt8) := do
  let (op, rest) ← opcode offset first rest
  match operandSize? op.kind rest with
  | none => .error (.unexpectedEnd offset)
  | some size =>
    if size ≤ rest.length then
      let total := op.encoding.bytes.length + size
      .ok (⟨index, offset, total, op, operand (offset + total) op.kind (rest.take size)⟩,
        rest.drop size)
    else .error (.unexpectedEnd offset)

theorem length_opcode {offset : Nat} {first : UInt8} {rest after : List UInt8} {op : Opcode}
    (h : opcode offset first rest = .ok (op, after)) : after.length ≤ rest.length := by
  unfold opcode at h
  split at h
  · cases rest with
    | nil => simp at h
    | cons second rest =>
        simp only at h
        split at h <;> simp_all
  · split at h <;> simp_all

theorem length_instruction {index offset : Nat} {first : UInt8} {rest after : List UInt8}
    {i : Instruction Int} (h : instruction index offset first rest = .ok (i, after)) :
    after.length ≤ rest.length := by
  unfold instruction at h
  cases read : opcode offset first rest with
  | error e => simp [read, bind, Except.bind] at h
  | ok found =>
      have shorter := length_opcode read
      simp only [read, bind, Except.bind] at h
      split at h
      · simp at h
      · split at h
        · simp only [Except.ok.injEq, Prod.mk.injEq] at h
          rw [← h.2, List.length_drop]
          omega
        · simp at h

def scan (index offset : Nat) (code : List UInt8) : Except DecodeError (List (Instruction Int)) :=
  match code with
  | [] => .ok []
  | first :: rest =>
    match read : instruction index offset first rest with
    | .error e => .error e
    | .ok (i, after) => do
      have := length_instruction read
      return i :: (← scan (index + 1) i.nextOffset after)
termination_by code.length

def place (scanned : List (Instruction Int)) (offset : Nat) (target : Int) :
    Except DecodeError Nat :=
  match scanned.findIdx? fun i => (i.offset : Int) = target with
  | some index => .ok index
  | none => .error (.danglingTarget offset target)

def link (scanned : List (Instruction Int)) (i : Instruction Int) :
    Except DecodeError (Instruction Nat) := do
  return ⟨i.index, i.offset, i.size, i.opcode, ← i.operand.resolve (place scanned i.offset)⟩

end Decode

def decode (code : List UInt8) : Except DecodeError Listing := do
  let scanned ← Decode.scan 0 0 code
  scanned.mapM (Decode.link scanned)

end Destack
