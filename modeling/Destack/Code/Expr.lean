import Destack.Code.Value
import Destack.Types.Member

namespace Destack

inductive UnaryOp
  | neg
  | not
  | ckfinite
  deriving DecidableEq, Repr

inductive BinaryOp
  | add | sub | mul | div | rem | and | or | xor | shl | shr | eq | ne | lt | le | gt | ge
  deriving DecidableEq, Repr

namespace BinaryOp

def isComparison : BinaryOp → Bool
  | .eq | .ne | .lt | .le | .gt | .ge => true
  | _ => false

def isBitwise : BinaryOp → Bool
  | .and | .or | .xor => true
  | _ => false

def isShift : BinaryOp → Bool
  | .shl | .shr => true
  | _ => false

def symbol : BinaryOp → String
  | .add => "+"
  | .sub => "-"
  | .mul => "*"
  | .div => "/"
  | .rem => "%"
  | .and => "&"
  | .or => "|"
  | .xor => "^"
  | .shl => "<<"
  | .shr => ">>"
  | .eq => "=="
  | .ne => "!="
  | .lt => "<"
  | .le => "<="
  | .gt => ">"
  | .ge => ">="

end BinaryOp

structure Call where
  method : Method
  args : List Value
  isVirtual : Bool
  deriving DecidableEq, Repr

inductive HandleTarget
  | type (type : Ty)
  | field (field : Field)
  | method (method : Method)
  deriving DecidableEq, Repr

inductive Expr
  | value (v : Value)
  | field (object : Value) (f : Field)
  | staticField (f : Field)
  | fieldAddr (object : Option Value) (f : Field) (managed : Bool)
  | element (array index : Value) (elem : Ty)
  | elementAddr (array index : Value) (elem : Ty)
  | arrayLength (array : Value)
  | deref (addr : Value) (type : Ty)
  | addrOf (v : Value)
  | call (c : Call)
  | cast (v : Value) (dest : Ty) (checked unsigned : Bool)
  | newObject (ctor : Method) (args : List Value)
  | newArray (elem : Ty) (length : Value)
  | sizeOf (type : Ty)
  | unary (op : UnaryOp) (operand : Value) (type : Ty)
  | binary (op : BinaryOp) (left right : Value) (checked unsigned : Bool) (type : Ty)
  | box (v : Value) (type : Ty)
  /-- The boxed value itself if `any` is set, a reference to it otherwise. -/
  | unbox (v : Value) (type : Ty) (any : Bool)
  | isInstance (v : Value) (type : Ty)
  | handle (target : HandleTarget)
  | functionPointer (method : Method) (object : Option Value)
  | default (type : Ty)
  | caught (type : Ty)
  deriving DecidableEq, Repr

inductive Place
  | var (v : Value)
  | field (object : Value) (f : Field)
  | staticField (f : Field)
  | element (array index : Value) (elem : Ty)
  | deref (addr : Value) (type : Ty)
  deriving DecidableEq, Repr

namespace Expr

def type (vars : Variables) : Expr → Ty
  | .value v => vars.typeOf v
  | .field _ f | .staticField f => f.type
  | .fieldAddr _ f managed => if managed then .byRef f.type else .pointer f.type
  | .element _ _ elem => elem
  | .elementAddr _ _ elem => .byRef elem
  | .arrayLength _ => .nativeUInt
  | .deref _ t => t
  | .addrOf v => .byRef (vars.typeOf v)
  | .call c => c.method.sig.returnType
  | .cast _ dest _ _ => dest
  | .newObject ctor _ => ctor.declaringType
  | .newArray elem _ => .array elem
  | .sizeOf _ => .uint32
  | .unary _ _ t => t
  | .binary _ _ _ _ _ t => t
  | .box _ _ => .object
  | .unbox _ t any => if any then t else .byRef t
  | .isInstance _ t => t
  | .handle _ => .handle
  | .functionPointer _ _ => .nativeInt
  | .default t | .caught t => t

def reads : Expr → List Value
  | .value v | .field v _ | .arrayLength v | .deref v _ | .addrOf v | .cast v _ _ _
  | .newArray _ v | .unary _ v _ | .box v _ | .unbox v _ _ | .isInstance v _ => [v]
  | .fieldAddr object _ _ | .functionPointer _ object => object.toList
  | .element array index _ | .elementAddr array index _ => [array, index]
  | .binary _ left right _ _ _ => [left, right]
  | .call c => c.args
  | .newObject _ args => args
  | .staticField _ | .sizeOf _ | .handle _ | .default _ | .caught _ => []

end Expr

namespace Place

def type (vars : Variables) : Place → Ty
  | .var v => vars.typeOf v
  | .field _ f | .staticField f => f.type
  | .element _ _ elem => elem
  | .deref _ t => t

def reads : Place → List Value
  | .var _ | .staticField _ => []
  | .field object _ => [object]
  | .element array index _ => [array, index]
  | .deref addr _ => [addr]

end Place

def opSuffix (checked unsigned : Bool) : String :=
  (if checked then ".ovf" else "") ++ (if unsigned then ".un" else "")

def Call.text (c : Call) : String :=
  (if c.isVirtual then "callvirt " else "call ") ++ c.method.text ++ "(" ++ Value.textAll c.args ++
    ")"

def HandleTarget.text : HandleTarget → String
  | .type t => t.text
  | .field f => f.text
  | .method m => m.text

def elementText (array index : Value) : String := array.text ++ "[" ++ index.text ++ "]"

def Expr.text : Expr → String
  | .value v => v.text
  | .field object f => object.text ++ "." ++ f.name
  | .staticField f => f.text
  | .fieldAddr (some object) f _ => "&" ++ object.text ++ "." ++ f.name
  | .fieldAddr none f _ => "&" ++ f.text
  | .element array index _ => elementText array index
  | .elementAddr array index _ => "&" ++ elementText array index
  | .arrayLength array => "len(" ++ array.text ++ ")"
  | .deref addr _ => "*" ++ addr.text
  | .addrOf v => "&" ++ v.text
  | .call c => c.text
  | .cast v dest checked unsigned =>
    "conv" ++ opSuffix checked unsigned ++ "(" ++ dest.text ++ ", " ++ v.text ++ ")"
  | .newObject ctor args => "new " ++ ctor.declaringType.text ++ "(" ++ Value.textAll args ++ ")"
  | .newArray elem length => "new " ++ elem.text ++ "[" ++ length.text ++ "]"
  | .sizeOf t => "sizeof(" ++ t.text ++ ")"
  | .unary .neg operand _ => "-" ++ operand.text
  | .unary .not operand _ => "~" ++ operand.text
  | .unary .ckfinite operand _ => "ckfinite(" ++ operand.text ++ ")"
  | .binary op left right checked unsigned _ =>
    left.text ++ " " ++ op.symbol ++ opSuffix checked unsigned ++ " " ++ right.text
  | .box v t => "box<" ++ t.text ++ ">(" ++ v.text ++ ")"
  | .unbox v t any =>
    (if any then "unbox.any<" else "unbox<") ++ t.text ++ ">(" ++ v.text ++ ")"
  | .isInstance v t => v.text ++ " as " ++ t.text
  | .handle target => "token(" ++ target.text ++ ")"
  | .functionPointer m none => "ftn(" ++ m.text ++ ")"
  | .functionPointer m (some object) => "virtftn(" ++ object.text ++ ", " ++ m.text ++ ")"
  | .default t => "default(" ++ t.text ++ ")"
  | .caught t => "caught " ++ t.text

def Place.text : Place → String
  | .var v => v.text
  | .field object f => object.text ++ "." ++ f.name
  | .staticField f => f.text
  | .element array index _ => elementText array index
  | .deref addr _ => "*" ++ addr.text

def UnaryOp.word : UnaryOp → String
  | .neg => "Neg"
  | .not => "Not"
  | .ckfinite => "CkFinite"

def UnaryOp.ofWord? (word : String) : Option UnaryOp :=
  [neg, not, ckfinite].find? (·.word = word)

def BinaryOp.word : BinaryOp → String
  | .add => "Add"
  | .sub => "Sub"
  | .mul => "Mul"
  | .div => "Div"
  | .rem => "Rem"
  | .and => "And"
  | .or => "Or"
  | .xor => "Xor"
  | .shl => "Shl"
  | .shr => "Shr"
  | .eq => "Eq"
  | .ne => "Ne"
  | .lt => "Lt"
  | .le => "Le"
  | .gt => "Gt"
  | .ge => "Ge"

def BinaryOp.all : List BinaryOp :=
  [add, sub, mul, div, rem, and, or, xor, shl, shr, eq, ne, lt, le, gt, ge]

def BinaryOp.ofWord? (word : String) : Option BinaryOp := all.find? (·.word = word)

def Call.json (c : Call) : Json :=
  .obj [("method", c.method.json), ("args", .ofList Value.json c.args),
    ("virtual_call", .bool c.isVirtual)]

def HandleTarget.json : HandleTarget → Json
  | .type t => .tagged "Type" t.json
  | .field f => .tagged "Field" f.json
  | .method m => .tagged "Method" m.json

def elementJson (array index : Value) (elem : Ty) : Json :=
  .obj [("array", array.json), ("index", index.json), ("elem", elem.json)]

def Expr.json : Expr → Json
  | .value v => .tagged "Value" v.json
  | .field object f => .tagged "Field" (.obj [("object", object.json), ("field", f.json)])
  | .staticField f => .tagged "StaticField" f.json
  | .fieldAddr object f managed =>
    .tagged "FieldAddr"
      (.obj [("object", .ofOption Value.json object), ("field", f.json),
        ("managed", .bool managed)])
  | .element array index elem => .tagged "ArrayElem" (elementJson array index elem)
  | .elementAddr array index elem => .tagged "ArrayElemAddr" (elementJson array index elem)
  | .arrayLength array => .tagged "ArrayLength" array.json
  | .deref addr t => .tagged "Deref" (.obj [("addr", addr.json), ("ty", t.json)])
  | .addrOf v => .tagged "AddrOf" v.json
  | .call c => .tagged "Call" c.json
  | .cast v dest checked unsigned =>
    .tagged "Cast"
      (.obj [("value", v.json), ("to", dest.json), ("checked", .bool checked),
        ("unsigned", .bool unsigned)])
  | .newObject ctor args =>
    .tagged "NewObj" (.obj [("ctor", ctor.json), ("args", .ofList Value.json args)])
  | .newArray elem length =>
    .tagged "NewArray" (.obj [("elem", elem.json), ("length", length.json)])
  | .sizeOf t => .tagged "SizeOf" t.json
  | .unary op operand t =>
    .tagged "Unary" (.obj [("op", .str op.word), ("operand", operand.json), ("ty", t.json)])
  | .binary op left right checked unsigned t =>
    .tagged "Binary"
      (.obj [("op", .str op.word), ("left", left.json), ("right", right.json),
        ("checked", .bool checked), ("unsigned", .bool unsigned), ("ty", t.json)])
  | .box v t => .tagged "Box" (.obj [("value", v.json), ("ty", t.json)])
  | .unbox v t any =>
    .tagged "Unbox" (.obj [("value", v.json), ("ty", t.json), ("any", .bool any)])
  | .isInstance v t => .tagged "IsInst" (.obj [("value", v.json), ("ty", t.json)])
  | .handle target => .tagged "LoadToken" target.json
  | .functionPointer m object =>
    .tagged "FunctionPointer" (.obj [("method", m.json), ("object", .ofOption Value.json object)])
  | .default t => .tagged "Default" t.json
  | .caught t => .tagged "CaughtException" t.json

def Place.json : Place → Json
  | .var v => .tagged "Var" v.json
  | .field object f => .tagged "Field" (.obj [("object", object.json), ("field", f.json)])
  | .staticField f => .tagged "StaticField" f.json
  | .element array index elem => .tagged "ArrayElem" (elementJson array index elem)
  | .deref addr t => .tagged "Deref" (.obj [("addr", addr.json), ("ty", t.json)])

end Destack
