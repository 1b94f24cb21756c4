import Destack.Types.Ty

namespace Destack

structure Field where
  name : String
  declaringType : Ty
  type : Ty
  isStatic : Bool
  initialData : Option (List UInt8) := none
  unknown : Bool := false
  deriving DecidableEq, Repr

structure Signature where
  hasThis : Bool
  params : List Ty
  returnType : Ty
  deriving DecidableEq, Repr

structure Method where
  name : String
  declaringType : Ty
  sig : Signature
  unknown : Bool := false
  deriving DecidableEq, Repr

namespace Field

def placeholder (description : String) : Field :=
  { name := "<unknown field " ++ description ++ ">"
    declaringType := .unknown
    type := .unknown
    isStatic := false
    unknown := true }

def substitute (args : GenericArgs) (f : Field) : Field :=
  { f with declaringType := f.declaringType.substitute args, type := f.type.substitute args }

def text (f : Field) : String :=
  if f.unknown then f.name else f.declaringType.text ++ "::" ++ f.name

def json (f : Field) : Json :=
  .obj [("name", .str f.name), ("declaring_type", f.declaringType.json),
    ("field_type", f.type.json), ("is_static", .bool f.isStatic), ("unknown", .bool f.unknown)]

end Field

namespace Signature

def substitute (args : GenericArgs) (s : Signature) : Signature :=
  { s with
    params := s.params.map (·.substitute args)
    returnType := s.returnType.substitute args }

def json (s : Signature) : Json :=
  .obj [("has_this", .bool s.hasThis), ("params", .ofList Ty.json s.params),
    ("return_type", s.returnType.json)]

end Signature

namespace Method

def placeholder (description : String) (sig : Signature) : Method :=
  { name := "<unknown method " ++ description ++ ">"
    declaringType := .unknown
    sig
    unknown := true }

def isConstructor (m : Method) : Bool := m.name = ".ctor"

def argCount (m : Method) : Nat := m.sig.params.length + m.sig.hasThis.toNat

def substitute (args : GenericArgs) (m : Method) : Method :=
  { m with declaringType := m.declaringType.substitute args, sig := m.sig.substitute args }

def text (m : Method) : String :=
  if m.unknown then m.name else m.declaringType.text ++ "::" ++ m.name

def json (m : Method) : Json :=
  .obj [("name", .str m.name), ("declaring_type", m.declaringType.json), ("sig", m.sig.json),
    ("unknown", .bool m.unknown)]

end Method
end Destack
