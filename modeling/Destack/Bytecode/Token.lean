import Destack.Text.Hex

namespace Destack

structure Token where
  raw : UInt32
  deriving DecidableEq, Repr

namespace Token

def ofRow (table : UInt8) (row : UInt32) : Token := ⟨table.toUInt32 <<< 24 ||| (row &&& 0xffffff)⟩

def table (t : Token) : UInt8 := (t.raw >>> 24).toUInt8
def row (t : Token) : UInt32 := t.raw &&& 0xffffff

def typeReferences : UInt8 := 0x01
def typeDefinitions : UInt8 := 0x02
def fields : UInt8 := 0x04
def methodDefinitions : UInt8 := 0x06
def memberReferences : UInt8 := 0x0a
def typeInstances : UInt8 := 0x1b
def methodInstances : UInt8 := 0x2b
def userStrings : UInt8 := 0x70

def isType (t : Token) : Bool :=
  t.table = typeReferences || t.table = typeDefinitions || t.table = typeInstances

/-- A member reference may name a field as well, so it counts as neither. -/
def isMethod (t : Token) : Bool := t.table = methodDefinitions || t.table = methodInstances

def isField (t : Token) : Bool := t.table = fields

def text (t : Token) : String := Text.hexNumber 8 t.raw.toNat

end Token
end Destack
