import Destack.Bytecode.Opcode
import Destack.Bytecode.Token
import Destack.Decimal.Text

namespace Destack

inductive Operand (Place : Type)
  | none
  | int32 (value : Int32)
  | int64 (value : Int64)
  | float32 (bits : UInt32)
  | float64 (bits : UInt64)
  | var (index : UInt16)
  | token (token : Token)
  | target (place : Place)
  | switch (places : List Place)
  | byte (value : UInt8)
  deriving DecidableEq, Repr

namespace Operand

variable {Place Other ε : Type}

def places : Operand Place → List Place
  | .target place => [place]
  | .switch places => places
  | _ => []

def resolve (f : Place → Except ε Other) : Operand Place → Except ε (Operand Other)
  | .none => pure .none
  | .int32 value => pure (.int32 value)
  | .int64 value => pure (.int64 value)
  | .float32 bits => pure (.float32 bits)
  | .float64 bits => pure (.float64 bits)
  | .var index => pure (.var index)
  | .token t => pure (.token t)
  | .target place => return .target (← f place)
  | .switch places => return .switch (← places.mapM f)
  | .byte value => pure (.byte value)

end Operand

structure Instruction (Place : Type) where
  index : Nat
  offset : Nat
  size : Nat
  opcode : Opcode
  operand : Operand Place
  deriving DecidableEq, Repr

namespace Instruction

variable {Place : Type}

def nextOffset (i : Instruction Place) : Nat := i.offset + i.size

def target? (i : Instruction Place) : Option Place :=
  match i.operand with
  | .target place => some place
  | _ => none

def targets (i : Instruction Place) : List Place := i.operand.places

def token? (i : Instruction Place) : Option Token :=
  match i.operand with
  | .token token => some token
  | _ => none

end Instruction

abbrev Listing := List (Instruction Nat)

namespace Listing

def codeSize (l : Listing) : Nat := (l.getLast?.map (·.nextOffset)).getD 0

/-- The last of `size` positions from `base` on whose instruction does not start after the offset,
or `base` if there is none, found by halving. -/
def bisect (l : Listing) (offset base size : Nat) : Nat :=
  if 1 < size then
    let half := size / 2
    let middle := base + half
    if l[middle]?.any fun i => offset < i.offset then l.bisect offset base (size - half)
    else l.bisect offset middle (size - half)
  else base
termination_by size

/-- The position of the instruction at a byte offset; the end of the code counts as the position
after the last instruction. -/
def indexAt? (l : Listing) (offset : Nat) : Option Nat :=
  if offset = l.codeSize then some l.length
  else
    let found := l.bisect offset 0 l.length
    if l[found]?.any fun i => i.offset = offset then some found else none

def sizeOf (opcode : Opcode) : Operand Nat → Nat
  | .switch places => 5 + 4 * places.length
  | _ => opcode.size?.getD 1

def place (index offset : Nat) : List (Opcode × Operand Nat) → Listing
  | [] => []
  | (opcode, operand) :: rest =>
    let size := sizeOf opcode operand
    ⟨index, offset, size, opcode, operand⟩ :: place (index + 1) (offset + size) rest

def ofOps (ops : List (Opcode × Operand Nat)) : Listing := place 0 0 ops

end Listing

def Operand.text : Operand Nat → String
  | .none => ""
  | .int32 value => " " ++ toString value.toInt
  | .int64 value => " " ++ toString value.toInt
  | .float32 bits => " " ++ Decimal.listing Decimal.binary32 bits.toNat
  | .float64 bits => " " ++ Decimal.listing Decimal.binary64 bits.toNat
  | .var index => " " ++ toString index.toNat
  | .token t => " " ++ t.text
  | .target place => " #" ++ toString place
  | .switch places => " (" ++ String.intercalate ", " (places.map fun p => "#" ++ toString p) ++ ")"
  | .byte value => " " ++ toString value.toNat

def Instruction.text (i : Instruction Nat) : String :=
  "IL_" ++ Text.hex 4 i.offset ++ ": " ++ i.opcode.mnemonic ++ i.operand.text

end Destack
