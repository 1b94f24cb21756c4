import Destack.Code.Expr

namespace Destack

def Ty.content (t : Ty) : Ty := t.element?.getD .object

def Ty.isUnmanagedAddress : Ty → Bool
  | .pointer _ | .nativeInt | .nativeUInt => true
  | _ => false

def Ty.isWide : Ty → Bool
  | .int32 | .uint32 | .int64 | .uint64 | .nativeInt | .nativeUInt | .float32 | .float64 => true
  | _ => false

def BinaryOp.resultType (op : BinaryOp) (left right : Ty) : Ty :=
  if op.isComparison then .bool
  else if op.isShift then left.stackType
  else if left = right && (left.isWide || op.isBitwise) then left
  else if left.isPointer && right.isInteger then left
  else if right.isPointer && left.isInteger && op = .add then right
  else left.stackType.join right.stackType

def comparisonType? (left right : Ty) : Option Ty :=
  if left = right then none
  else if left.isFloat && right.isFloat then some .float64
  else
    match left.stackType, right.stackType with
    | .nativeInt, .int32 | .int32, .nativeInt => some .nativeInt
    | _, _ => none

def needsWidening (source dest : Ty) : Bool :=
  source != dest && (source.isFloat || source.stackType != dest)

def Ty.zero (t : Ty) : Const :=
  if t.isReference || t.isPointer || t.isGenericParameter then .null t
  else
    match t with
    | .bool => .bool false
    | .float32 => .float32 0
    | .float64 => .float64 0
    | t => if t.stackType = .int64 then .int64 0 else .int32 0

def needsCast (source dest : Ty) : Bool :=
  source != dest && !source.isGenericParameter && !dest.isGenericParameter &&
    source != .unknown && source != .null && dest != .unknown &&
    !(dest = .object && source.isReference)

/-- A value on its way to a place of type `dest`. Null literals take its type, integer literals
become booleans or stay as they are where they fit, and other values are converted if needed. -/
def coerceExpr (vars : Variables) (v : Value) (dest : Ty) : Expr :=
  let general := if needsCast (vars.typeOf v) dest then .cast v dest false false else .value v
  match v with
  | .const (.null _) => .value (.const (.null dest))
  | .const (.int32 n) =>
    if dest = .bool then .value (.const (.bool (n != 0)))
    else if dest.stackType = .int32 then .value v
    else general
  | .const (.int64 _) => if dest.stackType = .int64 then .value v else general
  | _ => general

end Destack
