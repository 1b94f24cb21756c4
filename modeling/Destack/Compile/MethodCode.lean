import Destack.Bytecode.Clause
import Destack.Code.Value
import Destack.Types.Member

namespace Destack

structure MethodCode where
  method : Method
  generics : GenericArgs := {}
  code : List UInt8 := []
  clauses : List Clause := []
  locals : List Ty := []

namespace MethodCode

/-- The type of the receiver. A receiver that is no reference itself is passed by reference. -/
def receiverType (m : MethodCode) : Ty :=
  let declaring := m.method.declaringType.substitute m.generics
  match declaring.category with
  | .structLike | .enumLike | .primitive => .byRef declaring
  | _ => declaring

def paramTypes (m : MethodCode) : List Ty :=
  (if m.method.sig.hasThis then [m.receiverType] else []) ++
    m.method.sig.params.map (·.substitute m.generics)

def returnType (m : MethodCode) : Ty := m.method.sig.returnType.substitute m.generics

def vars (m : MethodCode) : Variables :=
  { locals := m.locals.map (·.substitute m.generics), params := m.paramTypes }

def name (m : MethodCode) : String := m.method.text

end MethodCode
end Destack
