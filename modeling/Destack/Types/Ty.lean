import Destack.Json.Basic

namespace Destack

inductive BaseType
  | void | bool | char | int8 | uint8 | int16 | uint16 | int32 | uint32 | int64 | uint64
  | nativeInt | nativeUInt | float32 | float64 | string | object
  | null
  | handle
  | unknown
  deriving DecidableEq, Repr

inductive Ty
  | base (type : BaseType)
  | classType (name : String) (args : List Ty)
  | structType (name : String) (args : List Ty)
  | enumType (name : String) (underlying : Ty) (args : List Ty)
  | array (element : Ty)
  | pointer (target : Ty)
  | byRef (target : Ty)
  | typeVar (index : UInt16)
  | methodVar (index : UInt16)
  deriving Repr

namespace Ty

@[match_pattern] abbrev void : Ty := .base .void
@[match_pattern] abbrev bool : Ty := .base .bool
@[match_pattern] abbrev char : Ty := .base .char
@[match_pattern] abbrev int8 : Ty := .base .int8
@[match_pattern] abbrev uint8 : Ty := .base .uint8
@[match_pattern] abbrev int16 : Ty := .base .int16
@[match_pattern] abbrev uint16 : Ty := .base .uint16
@[match_pattern] abbrev int32 : Ty := .base .int32
@[match_pattern] abbrev uint32 : Ty := .base .uint32
@[match_pattern] abbrev int64 : Ty := .base .int64
@[match_pattern] abbrev uint64 : Ty := .base .uint64
@[match_pattern] abbrev nativeInt : Ty := .base .nativeInt
@[match_pattern] abbrev nativeUInt : Ty := .base .nativeUInt
@[match_pattern] abbrev float32 : Ty := .base .float32
@[match_pattern] abbrev float64 : Ty := .base .float64
@[match_pattern] abbrev string : Ty := .base .string
@[match_pattern] abbrev object : Ty := .base .object
@[match_pattern] abbrev null : Ty := .base .null
@[match_pattern] abbrev handle : Ty := .base .handle
@[match_pattern] abbrev unknown : Ty := .base .unknown

mutual
def beq : Ty → Ty → Bool
  | .base a, .base b => decide (a = b)
  | .classType n xs, .classType m ys => decide (n = m) && beqAll xs ys
  | .structType n xs, .structType m ys => decide (n = m) && beqAll xs ys
  | .enumType n u xs, .enumType m v ys => decide (n = m) && (beq u v && beqAll xs ys)
  | .array a, .array b => beq a b
  | .pointer a, .pointer b => beq a b
  | .byRef a, .byRef b => beq a b
  | .typeVar i, .typeVar j => decide (i = j)
  | .methodVar i, .methodVar j => decide (i = j)
  | _, _ => false

def beqAll : List Ty → List Ty → Bool
  | [], [] => true
  | x :: xs, y :: ys => beq x y && beqAll xs ys
  | _, _ => false
end

mutual
theorem beq_iff : (a b : Ty) → (beq a b = true ↔ a = b)
  | .base _, b => by cases b <;> simp [beq]
  | .classType _ xs, b => by cases b <;> simp [beq, beqAll_iff xs]
  | .structType _ xs, b => by cases b <;> simp [beq, beqAll_iff xs]
  | .enumType _ u xs, b => by cases b <;> simp [beq, beq_iff u, beqAll_iff xs]
  | .array a, b => by cases b <;> simp [beq, beq_iff a]
  | .pointer a, b => by cases b <;> simp [beq, beq_iff a]
  | .byRef a, b => by cases b <;> simp [beq, beq_iff a]
  | .typeVar _, b => by cases b <;> simp [beq]
  | .methodVar _, b => by cases b <;> simp [beq]

theorem beqAll_iff : (xs ys : List Ty) → (beqAll xs ys = true ↔ xs = ys)
  | [], ys => by cases ys <;> simp [beqAll]
  | x :: xs, ys => by cases ys <;> simp [beqAll, beq_iff x, beqAll_iff xs]
end

instance : DecidableEq Ty := fun a b => decidable_of_iff _ (beq_iff a b)

end Ty

inductive Category
  | primitive | classLike | structLike | enumLike | array | pointer
  deriving DecidableEq, Repr

namespace BaseType

def isInteger : BaseType → Bool
  | .bool | .char | .int8 | .uint8 | .int16 | .uint16 | .int32 | .uint32 | .int64 | .uint64
  | .nativeInt | .nativeUInt => true
  | _ => false

def isFloat : BaseType → Bool
  | .float32 | .float64 => true
  | _ => false

def isReference : BaseType → Bool
  | .string | .object | .null => true
  | _ => false

def stackType : BaseType → BaseType
  | .bool | .char | .int8 | .uint8 | .int16 | .uint16 | .int32 | .uint32 => .int32
  | .int64 | .uint64 => .int64
  | .nativeInt | .nativeUInt => .nativeInt
  | .float32 | .float64 => .float64
  | other => other

end BaseType

namespace Ty

def category : Ty → Category
  | .base b => if b.isInteger || b.isFloat then .primitive else .classLike
  | .classType .. => .classLike
  | .structType .. => .structLike
  | .enumType .. => .enumLike
  | .array _ => .array
  | .pointer _ | .byRef _ => .pointer
  | .typeVar _ | .methodVar _ => .classLike

def isReference : Ty → Bool
  | .base b => b.isReference
  | .classType .. | .array _ => true
  | _ => false

def isManaged : Ty → Bool
  | .byRef _ => true
  | t => t.isReference

def isPointer : Ty → Bool
  | .pointer _ | .byRef _ => true
  | _ => false

def isInteger : Ty → Bool
  | .base b => b.isInteger
  | _ => false

def isFloat : Ty → Bool
  | .base b => b.isFloat
  | _ => false

def isGenericParameter : Ty → Bool
  | .typeVar _ | .methodVar _ => true
  | _ => false

def element? : Ty → Option Ty
  | .array t | .pointer t | .byRef t => some t
  | _ => none

def stackType : Ty → Ty
  | .base b => .base b.stackType
  | .enumType _ underlying _ => underlying.stackType
  | t => t

def joinStack (a b : Ty) : Ty :=
  let a := a.stackType
  let b := b.stackType
  if a = b then a
  else if a = nativeInt && b.isInteger || b = nativeInt && a.isInteger then nativeInt
  else unknown

/-- The type of a slot that may hold a value of either type. -/
def join (a b : Ty) : Ty :=
  if a = b then a
  else if a = unknown || b = unknown then unknown
  else if a = null && (b.isReference || b.isPointer) then b
  else if b = null && (a.isReference || a.isPointer) then a
  else if a.isReference && b.isReference then object
  else if a.isPointer && b.isPointer then nativeInt
  else joinStack a b

end Ty

structure GenericArgs where
  ofType : List Ty := []
  ofMethod : List Ty := []
  deriving DecidableEq, Repr

def GenericArgs.isEmpty (args : GenericArgs) : Bool := args.ofType.isEmpty && args.ofMethod.isEmpty

namespace Ty

mutual
/-- Replaces generic parameters by their arguments; one without an argument stays. The type under
an enumeration is left as it is. -/
def substitute (args : GenericArgs) : Ty → Ty
  | .typeVar i => args.ofType[i.toNat]?.getD (.typeVar i)
  | .methodVar i => args.ofMethod[i.toNat]?.getD (.methodVar i)
  | .array t => .array (substitute args t)
  | .pointer t => .pointer (substitute args t)
  | .byRef t => .byRef (substitute args t)
  | .classType name ts => .classType name (substituteAll args ts)
  | .structType name ts => .structType name (substituteAll args ts)
  | .enumType name underlying ts => .enumType name underlying (substituteAll args ts)
  | .base b => .base b

def substituteAll (args : GenericArgs) : List Ty → List Ty
  | [] => []
  | t :: ts => substitute args t :: substituteAll args ts
end

end Ty

def BaseType.text : BaseType → String
  | .void => "void"
  | .bool => "bool"
  | .char => "char"
  | .int8 => "sbyte"
  | .uint8 => "byte"
  | .int16 => "short"
  | .uint16 => "ushort"
  | .int32 => "int"
  | .uint32 => "uint"
  | .int64 => "long"
  | .uint64 => "ulong"
  | .nativeInt => "nint"
  | .nativeUInt => "nuint"
  | .float32 => "float"
  | .float64 => "double"
  | .string => "string"
  | .object => "object"
  | .null => "null"
  | .handle => "handle"
  | .unknown => "?"

def BaseType.word : BaseType → String
  | .void => "Void"
  | .bool => "Bool"
  | .char => "Char"
  | .int8 => "I1"
  | .uint8 => "U1"
  | .int16 => "I2"
  | .uint16 => "U2"
  | .int32 => "I4"
  | .uint32 => "U4"
  | .int64 => "I8"
  | .uint64 => "U8"
  | .nativeInt => "IntPtr"
  | .nativeUInt => "UIntPtr"
  | .float32 => "R4"
  | .float64 => "R8"
  | .string => "String"
  | .object => "Object"
  | .null => "Null"
  | .handle => "RuntimeHandle"
  | .unknown => "Unknown"

def BaseType.all : List BaseType :=
  [.void, .bool, .char, .int8, .uint8, .int16, .uint16, .int32, .uint32, .int64, .uint64,
   .nativeInt, .nativeUInt, .float32, .float64, .string, .object, .null, .handle, .unknown]

def BaseType.ofWord? (word : String) : Option BaseType := all.find? (·.word = word)

def Category.word : Category → String
  | .primitive => "Primitive"
  | .classLike => "Class"
  | .structLike => "Struct"
  | .enumLike => "Enum"
  | .array => "Array"
  | .pointer => "Pointer"

namespace Ty

def applied (name : String) : List String → String
  | [] => name
  | args => name ++ "<" ++ String.intercalate ", " args ++ ">"

mutual
def text : Ty → String
  | .base b => b.text
  | .classType name ts | .structType name ts => applied name (textAll ts)
  | .enumType name _ ts => applied name (textAll ts)
  | .array t => text t ++ "[]"
  | .pointer t => text t ++ "*"
  | .byRef t => text t ++ "&"
  | .typeVar i => "!" ++ toString i.toNat
  | .methodVar i => "!!" ++ toString i.toNat

def textAll : List Ty → List String
  | [] => []
  | t :: ts => text t :: textAll ts
end

def namedJson (name : String) (kind : Json) (args : List Json) : Json :=
  .tagged "Named" (.obj [("name", .str name), ("kind", kind), ("generic_args", .arr args)])

mutual
def json : Ty → Json
  | .base b => .str b.word
  | .classType name ts => namedJson name (.str "Class") (jsonAll ts)
  | .structType name ts => namedJson name (.str "Struct") (jsonAll ts)
  | .enumType name underlying ts => namedJson name (.tagged "Enum" (json underlying)) (jsonAll ts)
  | .array t => .tagged "Array" (json t)
  | .pointer t => .tagged "Pointer" (json t)
  | .byRef t => .tagged "ByRef" (json t)
  | .typeVar i => .tagged "TypeVar" (.nat i.toNat)
  | .methodVar i => .tagged "MethodVar" (.nat i.toNat)

def jsonAll : List Ty → List Json
  | [] => []
  | t :: ts => json t :: jsonAll ts
end

end Ty
end Destack
