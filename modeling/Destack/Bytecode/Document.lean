import Destack.Bytecode.Clause

namespace Destack

/-- The opcode's name in a document: the pieces of its mnemonic, capitalized and put together, with
a mark between two numbers. -/
def Opcode.name (op : Opcode) : String :=
  ((op.mnemonic.splitOn ".").filter (· ≠ "")).foldl join ""
where
  join (name piece : String) : String :=
    let apart := name.toList.getLast?.any Char.isDigit && piece.toList.head?.any Char.isDigit
    name ++ (if apart then "_" else "") ++ piece.capitalize

def Operand.json : Operand Nat → Json
  | .none => .str "None"
  | .int32 value => .tagged "Int32" (.int value.toInt)
  | .int64 value => .tagged "Int64" (.int value.toInt)
  | .float32 bits => .tagged "Float32" (.float32 bits)
  | .float64 bits => .tagged "Float64" (.float64 bits)
  | .var index => .tagged "Var" (.nat index.toNat)
  | .token t => .tagged "Token" (.nat t.raw.toNat)
  | .target place => .tagged "Target" (.nat place)
  | .switch places => .tagged "Switch" (.ofList .nat places)
  | .byte value => .tagged "Byte" (.nat value.toNat)

def Instruction.json (i : Instruction Nat) : Json :=
  .obj [("index", .nat i.index), ("offset", .nat i.offset), ("size", .nat i.size),
    ("opcode", .str i.opcode.name), ("operand", i.operand.json)]

namespace Clause

def kindJson (start : String) : HandlerKind Token → Json
  | .catchBlock t => .tagged "Catch" (.nat t.raw.toNat)
  | .filterBlock first => .tagged "Filter" (.obj [(start, .nat first)])
  | .finallyBlock => .str "Finally"
  | .faultBlock => .str "Fault"

def json (c : Clause) : Json :=
  .obj [("kind", kindJson "filter_offset" c.kind), ("try_offset", .nat c.tryOffset),
    ("try_length", .nat c.tryLength), ("handler_offset", .nat c.handlerOffset),
    ("handler_length", .nat c.handlerLength)]

def resolvedJson (s : Scope Token) : Json :=
  .obj [("kind", kindJson "filter_start" s.kind), ("try_start", .nat s.tryBegin),
    ("try_end", .nat s.tryEnd), ("handler_start", .nat s.handlerBegin),
    ("handler_end", .nat s.handlerEnd)]

end Clause
end Destack
