import Destack.Bytecode.Bytes
import Destack.Code.Stmt

namespace Destack

def Ty.name? : Ty → Option String
  | .classType name _ | .structType name _ | .enumType name _ _ => some name
  | _ => none

def Method.fillsArray (m : Method) : Bool :=
  m.name = "InitializeArray" && m.declaringType.name?.any (·.endsWith "RuntimeHelpers")

namespace ArrayData

def elementSize? : Ty → Option Nat
  | .bool | .int8 | .uint8 => some 1
  | .char | .int16 | .uint16 => some 2
  | .int32 | .uint32 | .float32 => some 4
  | .int64 | .uint64 | .float64 => some 8
  | .enumType _ underlying _ => elementSize? underlying
  | _ => none

def element? : Ty → List UInt8 → Option Const
  | .bool, bytes => some (.bool (Bytes.unsigned bytes != 0))
  | .int8, bytes | .int16, bytes | .int32, bytes | .uint32, bytes =>
    some (.int32 (.ofInt (Bytes.signed bytes)))
  | .uint8, bytes | .uint16, bytes | .char, bytes =>
    some (.int32 (.ofInt (Bytes.unsigned bytes)))
  | .int64, bytes | .uint64, bytes => some (.int64 (.ofInt (Bytes.signed bytes)))
  | .float32, bytes => some (.float32 (.ofNat (Bytes.unsigned bytes)))
  | .float64, bytes => some (.float64 (.ofNat (Bytes.unsigned bytes)))
  | .enumType _ underlying _, bytes => element? underlying bytes
  | _, _ => none

def definition? (stmts : List Stmt) (v : Value) : Option Expr :=
  stmts.reverse.findSome? fun
    | .assign (.var w) e => if w = v then some e else none
    | _ => none

inductive Skip
  | argumentCount (found : Nat)
  | lengthNotConstant (array : Value)
  | notFresh (array : Value)
  | otherType (array : Value) (elem : Ty)
  | noData (field : Field)
  | notFieldHandle (handle : Value)
  | notPrimitive (elem : Ty)
  | tooShort (found needed : Nat)
  deriving DecidableEq, Repr

def Skip.message : Skip → String
  | .argumentCount found => "expected two arguments, found " ++ toString found
  | .lengthNotConstant array => "array " ++ array.text ++ " has no constant length"
  | .notFresh array => array.text ++ " is not a fresh array"
  | .otherType array elem => array.text ++ " does not hold a " ++ elem.text ++ " array"
  | .noData field => "field " ++ field.text ++ " has no initial data"
  | .notFieldHandle handle => handle.text ++ " is not a field handle"
  | .notPrimitive elem => "element type " ++ elem.text ++ " is not primitive"
  | .tooShort found needed =>
    "initial data holds " ++ toString found ++ " bytes, " ++ toString needed ++ " needed"

def allocation (stmts : List Stmt) (array : Value) : Except Skip (Ty × Nat) :=
  match definition? stmts array with
  | some (.newArray elem (.const (.int32 n))) =>
    if 0 ≤ n.toInt then .ok (elem, n.toInt.toNat) else .error (.lengthNotConstant array)
  | some (.newArray _ _) => .error (.lengthNotConstant array)
  | _ => .error (.notFresh array)

def contents (stmts : List Stmt) (handle : Value) : Except Skip (List UInt8) :=
  match definition? stmts handle with
  | some (.handle (.field f)) =>
    match f.initialData with
    | some data => .ok data
    | none => .error (.noData f)
  | _ => .error (.notFieldHandle handle)

def store (array : Value) (elem : Ty) (index : Nat) (c : Const) : Stmt :=
  .assign (.element array (.const (.int32 (.ofNat index))) elem) (.value (.const c))

def expand (stmts : List Stmt) (vars : Variables) : List Value → Except Skip (List Stmt)
  | [array, handle] => do
    let (elem, length) ← allocation stmts array
    if vars.typeOf array != .array elem then throw (.otherType array elem)
    let data ← contents stmts handle
    match elementSize? elem with
    | none => throw (.notPrimitive elem)
    | some size =>
      if data.length < size * length then throw (.tooShort data.length (size * length))
      return (List.range length).filterMap fun i =>
        (element? elem ((data.drop (i * size)).take size)).map (store array elem i)
  | args => .error (.argumentCount args.length)

end ArrayData
end Destack
