import Destack.Code.Value
import Destack.Replay.Error

namespace Destack

abbrev OperandStack := List Value

namespace OperandStack

def ofSlots (slots : List Value) : OperandStack := slots.reverse

def slots (s : OperandStack) : List Value := s.reverse

def pop (op : Opcode) (index : Nat) :
    OperandStack → Except ReplayError (Value × OperandStack)
  | [] => .error (.stackUnderflow op index)
  | v :: s => .ok (v, s)

/-- Takes the top values; they are given in the order in which they were pushed. -/
def popMany (count : Nat) (op : Opcode) (index : Nat) (s : OperandStack) :
    Except ReplayError (List Value × OperandStack) :=
  if count ≤ s.length then .ok ((s.take count).reverse, s.drop count)
  else .error (.stackUnderflow op index)

def replace (old new : Value) (s : OperandStack) : OperandStack :=
  s.map fun v => if v = old then new else v

end OperandStack
end Destack
