import Destack.Types.Catalog

/-!
# The registry

The registry keeps the answer to every lookup, so that a token means the same in all methods that
share it, even when the resolver changes its mind. Failed lookups are kept as placeholders. An
entry's handle is its position.

A compilation does not change the registry while it runs: it sees a `View`, which gives what the
registry holds or would hold, and reports the queries it made; `Registry.record` enters them
afterwards.
-/

namespace Destack

structure Found (α : Type) where
  value : α
  resolved : Bool
  deriving DecidableEq, Repr

abbrev Cache (κ α : Type) := List (κ × Found α)

namespace Cache

variable {κ α : Type} [DecidableEq κ]

def find? (cache : Cache κ α) (key : κ) : Option (Nat × Found α) :=
  (cache.findIdx? fun entry => entry.1 = key).bind fun handle =>
    cache[handle]?.map fun entry => (handle, entry.2)

def record (cache : Cache κ α) (key : κ) (answer : Found α) : (Nat × Found α) × Cache κ α :=
  match cache.find? key with
  | some hit => (hit, cache)
  | none => ((cache.length, answer), cache ++ [(key, answer)])

def at? (cache : Cache κ α) (handle : Nat) : Option α :=
  cache[handle]?.map fun entry => entry.2.value

end Cache

structure Registry where
  types : Cache (Token × GenericArgs) Ty := []
  fields : Cache (Token × GenericArgs) Field := []
  methods : Cache (Token × GenericArgs) Method := []
  strings : Cache Token String := []

namespace Resolver

variable (r : Resolver) (args : GenericArgs) (token : Token)

def findType : Found Ty :=
  match r.type? args token with
  | some t => ⟨t, true⟩
  | none => ⟨.unknown, false⟩

def findField : Found Field :=
  match r.field? args token with
  | some f => ⟨f, true⟩
  | none => ⟨.placeholder token.text, false⟩

def findMethod? : Option (Found Method) :=
  match r.method? args token with
  | some m => some ⟨m, true⟩
  | none => (r.signature? args token).map fun sig => ⟨.placeholder token.text sig, false⟩

def findString : Found String :=
  match r.string? args token with
  | some s => ⟨s, true⟩
  | none => ⟨"<unknown string " ++ token.text ++ ">", false⟩

end Resolver

namespace Registry

variable (registry : Registry) (r : Resolver) (args : GenericArgs) (token : Token)

def lookupType : (Nat × Found Ty) × Registry :=
  let (hit, types) := registry.types.record (token, args) (r.findType args token)
  (hit, { registry with types })

def lookupField : (Nat × Found Field) × Registry :=
  let (hit, fields) := registry.fields.record (token, args) (r.findField args token)
  (hit, { registry with fields })

def lookupMethod : Option (Nat × Found Method) × Registry :=
  match registry.methods.find? (token, args) with
  | some hit => (some hit, registry)
  | none =>
    match r.findMethod? args token with
    | none => (none, registry)
    | some answer =>
      let (hit, methods) := registry.methods.record (token, args) answer
      (some hit, { registry with methods })

def lookupString : (Nat × Found String) × Registry :=
  let (hit, strings) := registry.strings.record token (r.findString args token)
  (hit, { registry with strings })

end Registry

structure View where
  type : Token → Found Ty
  field : Token → Found Field
  method? : Token → Option (Found Method)
  string : Token → Found String

inductive Query
  | type (token : Token)
  | field (token : Token)
  | method (token : Token)
  | string (token : Token)
  deriving DecidableEq, Repr

namespace Registry

/-- What the registry holds, or would hold after a lookup. -/
def view (registry : Registry) (r : Resolver) (args : GenericArgs) : View where
  type token := (registry.lookupType r args token).1.2
  field token := (registry.lookupField r args token).1.2
  method? token := (registry.lookupMethod r args token).1.map (·.2)
  string token := (registry.lookupString r args token).1.2

def recordQuery (r : Resolver) (args : GenericArgs) (registry : Registry) : Query → Registry
  | .type token => (registry.lookupType r args token).2
  | .field token => (registry.lookupField r args token).2
  | .method token => (registry.lookupMethod r args token).2
  | .string token => (registry.lookupString r args token).2

def record (registry : Registry) (r : Resolver) (args : GenericArgs) (queries : List Query) :
    Registry :=
  queries.foldl (recordQuery r args) registry

end Registry
end Destack
