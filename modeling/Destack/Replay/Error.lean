import Destack.Bytecode.Instruction

namespace Destack

inductive ReplayError
  | danglingTarget (index target : Nat)
  | stackUnderflow (opcode : Opcode) (index : Nat)
  | stackMismatch (entry expected found : Nat)
  | unbalancedStack (opcode : Opcode) (index depth : Nat)
  | unsupportedOpcode (opcode : Opcode) (index offset : Nat)
  | malformedOperand (opcode : Opcode) (index : Nat)
  | unknownCallShape (token : Token) (index : Nat)
  | diverged (entry visits : Nat)
  deriving DecidableEq, Repr

def ReplayError.message : ReplayError → String
  | .danglingTarget index target =>
    "Instruction " ++ toString index ++ " targets " ++ toString target ++
      ", which is outside the method body"
  | .stackUnderflow op index =>
    "Stack underflow at " ++ op.mnemonic ++ " (instruction " ++ toString index ++ ")"
  | .stackMismatch entry expected found =>
    "Stack depth mismatch entering instruction " ++ toString entry ++ ": expected " ++
      toString expected ++ ", found " ++ toString found
  | .unbalancedStack op index depth =>
    toString depth ++ " value(s) left on the stack at " ++ op.mnemonic ++ " (instruction " ++
      toString index ++ ")"
  | .unsupportedOpcode op index offset =>
    "Unsupported opcode " ++ op.mnemonic ++ " at instruction " ++ toString index ++ " (offset " ++
      Text.hexNumber 4 offset ++ ")"
  | .malformedOperand op index =>
    "Malformed operand for " ++ op.mnemonic ++ " at instruction " ++ toString index
  | .unknownCallShape token index =>
    "Cannot determine the signature of method " ++ token.text ++ " called at instruction " ++
      toString index
  | .diverged entry visits =>
    "Stack-merge fixpoint did not converge after " ++ toString visits ++
      " visits of block at instruction " ++ toString entry

end Destack
