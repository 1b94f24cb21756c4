import Destack.Bytecode.Decode
import Destack.Code.Verify
import Destack.Replay.Error

namespace Destack

inductive LoadError
  | notFound (token : Token)
  | noBody (token : Token)
  | malformed (token : Token) (reason : String)
  deriving DecidableEq, Repr

def LoadError.message : LoadError → String
  | .notFound token => "Method " ++ token.text ++ " not found"
  | .noBody token => "Method " ++ token.text ++ " has no IL body"
  | .malformed token reason => "Cannot read body of method " ++ token.text ++ ": " ++ reason

inductive CompileError
  | decode (cause : DecodeError)
  | load (cause : LoadError)
  | replay (cause : ReplayError)
  | verify (cause : VerifyError)
  | interrupted (token : Token)
  deriving DecidableEq, Repr

def CompileError.message : CompileError → String
  | .decode cause => "Decode error: " ++ cause.message
  | .load cause => "Provider error: " ++ cause.message
  | .replay cause => cause.message
  | .verify cause => "Verification failed: " ++ cause.message
  | .interrupted token => "Compilation of method " ++ token.text ++ " was interrupted"

end Destack
