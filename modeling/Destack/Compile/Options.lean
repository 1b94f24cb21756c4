import Destack.Json.Basic
import Destack.Json.Reader

namespace Destack

structure Options where
  inlineFinally : Bool := true
  lowerLeaves : Bool := true
  expandArrays : Bool := true
  maxVisits : Nat := 64
  verify : Bool := true
  workers : Nat := 0
  deriving DecidableEq, Repr

inductive Setting
  | inlineFinally
  | lowerLeaves
  | expandArrays
  | maxVisits
  | verify
  | workers
  deriving DecidableEq, Repr

namespace Setting

def all : List Setting :=
  [.inlineFinally, .lowerLeaves, .expandArrays, .maxVisits, .verify, .workers]

def key : Setting → String
  | .inlineFinally => "inline_finally"
  | .lowerLeaves => "lower_leaves"
  | .expandArrays => "inline_array_initializers"
  | .maxVisits => "max_block_visits"
  | .verify => "verify_output"
  | .workers => "worker_threads"

def ofKey? (key : String) : Option Setting := all.find? (·.key = key)

end Setting

namespace Options

def value (o : Options) : Setting → Json
  | .inlineFinally => .bool o.inlineFinally
  | .lowerLeaves => .bool o.lowerLeaves
  | .expandArrays => .bool o.expandArrays
  | .maxVisits => .nat o.maxVisits
  | .verify => .bool o.verify
  | .workers => .nat o.workers

def json (o : Options) : Json := .obj (Setting.all.map fun s => (s.key, o.value s))

open Json (Read ReadError skipBlanks)

def readValue (o : Options) (cs : List Char) : Setting → Read (Options × List Char)
  | .inlineFinally =>
    (Json.readBool cs).map fun (inlineFinally, rest) => ({ o with inlineFinally }, rest)
  | .lowerLeaves => (Json.readBool cs).map fun (lowerLeaves, rest) => ({ o with lowerLeaves }, rest)
  | .expandArrays =>
    (Json.readBool cs).map fun (expandArrays, rest) => ({ o with expandArrays }, rest)
  | .maxVisits => (Json.readWordNumber cs).map fun (maxVisits, rest) => ({ o with maxVisits }, rest)
  | .verify => (Json.readBool cs).map fun (verify, rest) => ({ o with verify }, rest)
  | .workers => (Json.readWordNumber cs).map fun (workers, rest) => ({ o with workers }, rest)

def skipToKey (cs : List Char) : Read (List Char) :=
  match skipBlanks cs with
  | '"' :: rest => .ok rest
  | [] => .error .truncated
  | _ => .error .malformed

/-- Reads a field whose opening quote was read. Fields of other names are passed over, whatever
their value; a setting that is given twice is refused before its second value. -/
def readField (o : Options) (seen : List Setting) (cs : List Char) :
    Read (Options × List Setting × List Char) := do
  let (key, rest) ← Json.readString cs
  match Setting.ofKey? key with
  | none => return (o, seen, ← Json.skipValue (← Json.skipColon rest))
  | some s =>
    if s ∈ seen then throw .mismatched
    let (o, rest) ← o.readValue (← Json.skipColon rest) s
    return (o, s :: seen, rest)

def readFields : Nat → Options → List Setting → List Char → Read (Options × List Char)
  | 0, _, _, _ => .error .malformed
  | fuel + 1, o, seen, cs => do
    match skipBlanks cs with
    | '\x7d' :: rest => return (o, rest)
    | ',' :: rest =>
      let (o, seen, rest) ← o.readField seen (← skipToKey rest)
      readFields fuel o seen rest
    | [] => throw .truncated
    | _ => throw .malformed

def readObject (cs : List Char) : Read (Options × List Char) := do
  match skipBlanks cs with
  | '\x7d' :: rest => return ({}, rest)
  | rest =>
    let (o, seen, rest) ← ({} : Options).readField [] (← skipToKey rest)
    readFields (rest.length + 1) o seen rest

def readItems (o : Options) : List Setting → List Char → Read (Options × List Char)
  | [], cs =>
    match skipBlanks cs with
    | ']' :: rest => .ok (o, rest)
    | [] => .error .truncated
    | _ => .error .malformed
  | s :: settings, cs => do
    match skipBlanks cs with
    | ']' :: rest => return (o, rest)
    | ',' :: rest =>
      match skipBlanks rest with
      | ']' :: _ => throw .malformed
      | [] => throw .truncated
      | rest =>
        let (o, rest) ← o.readValue rest s
        readItems o settings rest
    | [] => throw .truncated
    | _ => throw .malformed

def readList (cs : List Char) : Read (Options × List Char) := do
  match skipBlanks cs with
  | ']' :: rest => return ({}, rest)
  | rest =>
    let (o, rest) ← ({} : Options).readValue rest .inlineFinally
    readItems o Setting.all.tail rest

def read (text : String) : Except ReadError Options := do
  let (o, rest) ← match skipBlanks text.toList with
    | '\x7b' :: rest => readObject rest
    | '[' :: rest => readList rest
    | rest => Json.wrongType rest
  if (skipBlanks rest).isEmpty then return o else throw .malformed

end Options
end Destack
