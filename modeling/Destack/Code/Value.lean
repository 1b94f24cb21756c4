import Destack.Text.Quoted
import Destack.Types.Ty

namespace Destack

/-- A literal. Floating-point literals are bit patterns, so equality is structural. -/
inductive Const
  | null (type : Ty)
  | bool (value : Bool)
  | int32 (value : Int32)
  | int64 (value : Int64)
  | float32 (bits : UInt32)
  | float64 (bits : UInt64)
  | str (value : String)
  deriving DecidableEq, Repr

inductive Value
  | localVar (index : UInt16)
  | param (index : UInt16)
  | temp (id : Nat)
  | merge (id : Nat)
  | const (value : Const)
  deriving DecidableEq, Repr

structure Variables where
  locals : List Ty := []
  params : List Ty := []
  temps : List Ty := []
  merges : List Ty := []
  deriving DecidableEq, Repr

namespace Const

def type : Const → Ty
  | .null t => t
  | .bool _ => .bool
  | .int32 _ => .int32
  | .int64 _ => .int64
  | .float32 _ => .float32
  | .float64 _ => .float64
  | .str _ => .string

end Const

namespace Value

def isVariable : Value → Bool
  | .const _ => false
  | _ => true

def isDeclared : Value → Bool
  | .localVar _ | .param _ => true
  | _ => false

def isNull : Value → Bool
  | .const (.null _) => true
  | _ => false

def merge? : Value → Option Nat
  | .merge id => some id
  | _ => none

def retype (t : Ty) : Value → Value
  | .const (.null _) => .const (.null t)
  | v => v

end Value

namespace Variables

def typeOf (vars : Variables) : Value → Ty
  | .localVar i => vars.locals[i.toNat]?.getD .unknown
  | .param i => vars.params[i.toNat]?.getD .unknown
  | .temp id => vars.temps[id]?.getD .unknown
  | .merge id => vars.merges[id]?.getD .unknown
  | .const c => c.type

def newTemp (vars : Variables) (t : Ty) : Nat × Variables :=
  (vars.temps.length, { vars with temps := vars.temps ++ [t] })

def newMerge (vars : Variables) (t : Ty) : Nat × Variables :=
  (vars.merges.length, { vars with merges := vars.merges ++ [t] })

def setTemp (vars : Variables) (id : Nat) (t : Ty) : Variables :=
  { vars with temps := vars.temps.set id t }

def setMerge (vars : Variables) (id : Nat) (t : Ty) : Variables :=
  { vars with merges := vars.merges.set id t }

end Variables

namespace Const

def text : Const → String
  | .null _ => "null"
  | .bool value => if value then "true" else "false"
  | .int32 value => toString value.toInt
  | .int64 value => toString value.toInt ++ "L"
  | .float32 bits => Decimal.listing Decimal.binary32 bits.toNat ++ "f"
  | .float64 bits => Decimal.listing Decimal.binary64 bits.toNat ++ "d"
  | .str value => Text.quoted value

def json : Const → Json
  | .null t => .tagged "Null" t.json
  | .bool value => .tagged "Bool" (.bool value)
  | .int32 value => .tagged "I4" (.int value.toInt)
  | .int64 value => .tagged "I8" (.int value.toInt)
  | .float32 bits => .tagged "R4" (.float32 bits)
  | .float64 bits => .tagged "R8" (.float64 bits)
  | .str value => .tagged "Str" (.str value)

end Const

namespace Value

def text : Value → String
  | .localVar i => "l" ++ toString i.toNat
  | .param i => "a" ++ toString i.toNat
  | .temp id => "t" ++ toString id
  | .merge id => "m" ++ toString id
  | .const c => c.text

def json : Value → Json
  | .localVar i => .tagged "Local" (.nat i.toNat)
  | .param i => .tagged "Param" (.nat i.toNat)
  | .temp id => .tagged "Temp" (.nat id)
  | .merge id => .tagged "Merge" (.nat id)
  | .const c => .tagged "Const" c.json

def textAll (values : List Value) : String := String.intercalate ", " (values.map text)

end Value

def Variables.json (vars : Variables) : Json :=
  .obj [("locals", .ofList Ty.json vars.locals), ("params", .ofList Ty.json vars.params),
    ("temps", .ofList Ty.json vars.temps), ("merges", .ofList Ty.json vars.merges)]

end Destack
