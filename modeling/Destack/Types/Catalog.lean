import Destack.Bytecode.Token
import Destack.Types.Member

namespace Destack

structure Resolver where
  type? : GenericArgs → Token → Option Ty
  field? : GenericArgs → Token → Option Field
  method? : GenericArgs → Token → Option Method
  signature? : GenericArgs → Token → Option Signature
  string? : GenericArgs → Token → Option String

/-- Entries by token; of two entries under one token the later one counts and stands first. -/
abbrev TokenMap (α : Type) := List (Token × α)

namespace TokenMap

variable {α : Type}

def get? (m : TokenMap α) (token : Token) : Option α := m.lookup token

def insert (m : TokenMap α) (token : Token) (a : α) : TokenMap α := (token, a) :: m

end TokenMap

structure Catalog where
  types : TokenMap Ty := []
  fields : TokenMap Field := []
  methods : TokenMap Method := []
  signatures : TokenMap Signature := []
  strings : TokenMap String := []
  typeRows : Nat := 0
  fieldRows : Nat := 0
  methodRows : Nat := 0
  stringRows : Nat := 0

namespace Catalog

def rowToken (table : UInt8) (row : Nat) : Token := .ofRow table (.ofNat row)

def insertType (c : Catalog) (token : Token) (t : Ty) : Catalog :=
  { c with types := c.types.insert token t }

def insertField (c : Catalog) (token : Token) (f : Field) : Catalog :=
  { c with fields := c.fields.insert token f }

def insertMethod (c : Catalog) (token : Token) (m : Method) : Catalog :=
  { c with methods := c.methods.insert token m }

def insertSignature (c : Catalog) (token : Token) (s : Signature) : Catalog :=
  { c with signatures := c.signatures.insert token s }

def addType (c : Catalog) (t : Ty) : Token × Catalog :=
  let token := rowToken Token.typeReferences (c.typeRows + 1)
  (token, { c with types := c.types.insert token t, typeRows := c.typeRows + 1 })

def addField (c : Catalog) (f : Field) : Token × Catalog :=
  let token := rowToken Token.fields (c.fieldRows + 1)
  (token, { c with fields := c.fields.insert token f, fieldRows := c.fieldRows + 1 })

def addMethod (c : Catalog) (m : Method) : Token × Catalog :=
  let token := rowToken Token.memberReferences (c.methodRows + 1)
  (token, { c with methods := c.methods.insert token m, methodRows := c.methodRows + 1 })

def addString (c : Catalog) (s : String) : Token × Catalog :=
  let token := rowToken Token.userStrings (c.stringRows + 1)
  (token, { c with strings := c.strings.insert token s, stringRows := c.stringRows + 1 })

/-- A signature of its own comes before that of the method, and is taken as it stands. -/
def resolver (c : Catalog) : Resolver where
  type? args token := (c.types.get? token).map (·.substitute args)
  field? args token := (c.fields.get? token).map (·.substitute args)
  method? args token := (c.methods.get? token).map (·.substitute args)
  signature? args token :=
    (c.signatures.get? token).or ((c.methods.get? token).map fun m => (m.substitute args).sig)
  string? _ token := c.strings.get? token

end Catalog
end Destack
