/-!
# Reading JSON

Readers that take the start of a text and give the rest. They tell three faults apart: the text is
not JSON, it is JSON of the wrong kind, or it ends too early. The first fault in reading order is
the one reported.
-/

namespace Destack.Json

inductive ReadError
  | malformed
  | mismatched
  | truncated
  deriving DecidableEq, Repr

abbrev Read (α : Type) := Except ReadError α

def skipBlanks (cs : List Char) : List Char :=
  cs.dropWhile fun c => c = ' ' || c = '\n' || c = '\t' || c = '\r'

def readWord : List Char → List Char → Read (List Char)
  | [], cs => .ok cs
  | _ :: _, [] => .error .truncated
  | w :: word, c :: cs => if c = w then readWord word cs else .error .malformed

def hexValue? (c : Char) : Option Nat :=
  if '0' ≤ c && c ≤ '9' then some (c.toNat - '0'.toNat)
  else if 'a' ≤ c && c ≤ 'f' then some (c.toNat - 'a'.toNat + 10)
  else if 'A' ≤ c && c ≤ 'F' then some (c.toNat - 'A'.toNat + 10)
  else none

def shortEscape? : Char → Option Char
  | '"' => some '"'
  | '\\' => some '\\'
  | '/' => some '/'
  | 'b' => some '\x08'
  | 'f' => some '\x0c'
  | 'n' => some '\n'
  | 'r' => some '\r'
  | 't' => some '\t'
  | _ => none

inductive StringMode
  | plain
  | escape
  /-- Inside a numbered escape of which `left` bytes are missing. An escape that is cut off by the
  end of the text is not faulted for its digits, so digits are judged at its end. -/
  | code (left value : Nat) (valid : Bool) (leading : Option Nat)
  | pair (leading : Nat)
  | pairEscape (leading : Nat)

inductive CodeUnit
  | char (c : Char)
  | leading (value : Nat)
  | invalid

def codeUnit (leading : Option Nat) (value : Nat) : CodeUnit :=
  match leading with
  | some first =>
    if 0xdc00 ≤ value && value ≤ 0xdfff then
      .char (.ofNat (0x10000 + (first - 0xd800) * 0x400 + (value - 0xdc00)))
    else .invalid
  | none =>
    if 0xdc00 ≤ value && value ≤ 0xdfff then .invalid
    else if 0xd800 ≤ value && value ≤ 0xdbff then .leading value
    else .char (.ofNat value)

def readStringFrom (used : Bool) : StringMode → List Char → List Char → Read (String × List Char)
  | _, _, [] => .error .truncated
  | .plain, text, c :: cs =>
    if c = '"' then .ok (String.ofList text.reverse, cs)
    else if c = '\\' then readStringFrom used .escape text cs
    else if c.toNat < 0x20 then .error .malformed
    else readStringFrom used .plain (c :: text) cs
  | .escape, text, c :: cs =>
    if c = 'u' then readStringFrom used (.code 4 0 true none) text cs
    else
      match shortEscape? c with
      | some escaped => readStringFrom used .plain (escaped :: text) cs
      | none => .error .malformed
  | .code left value valid leading, text, c :: cs =>
    let valid := valid && (hexValue? c).isSome
    let value := 16 * value + (hexValue? c).getD 0
    if c.utf8Size < left then
      readStringFrom used (.code (left - c.utf8Size) value valid leading) text cs
    else if !valid then .error .malformed
    else if !used then readStringFrom used .plain text cs
    else
      match codeUnit leading value with
      | .char c => readStringFrom used .plain (c :: text) cs
      | .leading first => readStringFrom used (.pair first) text cs
      | .invalid => .error .malformed
  | .pair leading, text, c :: cs =>
    if c = '\\' then readStringFrom used (.pairEscape leading) text cs else .error .malformed
  | .pairEscape leading, text, c :: cs =>
    if c = 'u' then readStringFrom used (.code 4 0 true (some leading)) text cs
    else .error .malformed

def readString (cs : List Char) : Read (String × List Char) := readStringFrom true .plain [] cs

def skipString (cs : List Char) : Read (List Char) :=
  (readStringFrom false .plain [] cs).map (·.2)

def digits (cs : List Char) : List Char × List Char := cs.span (·.isDigit)

structure NumberText where
  whole : List Char
  fraction : List Char
  isWhole : Bool
  exponent : Int

def someDigits (short : ReadError) (cs : List Char) : Read (List Char × List Char) :=
  match digits cs with
  | ([], []) => .error short
  | ([], _) => .error .malformed
  | found => .ok found

def wholePart (short : ReadError) (cs : List Char) : Read (List Char × List Char) := do
  let (whole, rest) ← someDigits short cs
  if whole.head? = some '0' && 1 < whole.length then throw .malformed
  return (whole, rest)

def fractionPart (short : ReadError) : List Char → Read (List Char × Bool × List Char)
  | '.' :: cs => do
    let (fraction, rest) ← someDigits short cs
    return (fraction, true, rest)
  | cs => return ([], false, cs)

def digitsValue (ds : List Char) : Nat := ds.foldl (fun n d => 10 * n + (d.toNat - '0'.toNat)) 0

def exponentDigits (short : ReadError) (negative : Bool) (cs : List Char) :
    Read (Int × Bool × List Char) := do
  let (ds, rest) ← someDigits short cs
  return (if negative then -(digitsValue ds : Int) else digitsValue ds, true, rest)

def exponentPart (short : ReadError) : List Char → Read (Int × Bool × List Char)
  | c :: cs =>
    if c = 'e' || c = 'E' then
      match cs with
      | '+' :: cs => exponentDigits short false cs
      | '-' :: cs => exponentDigits short true cs
      | cs => exponentDigits short false cs
    else return (0, false, c :: cs)
  | [] => return (0, false, [])

def numberText (short : ReadError) (cs : List Char) : Read (NumberText × List Char) := do
  let (whole, rest) ← wholePart short cs
  let (fraction, hasFraction, rest) ← fractionPart short rest
  let (exponent, hasExponent, rest) ← exponentPart short rest
  return (⟨whole, fraction, !hasFraction && !hasExponent, exponent⟩, rest)

def maxWord : Nat := 0xFFFFFFFFFFFFFFFF

def leadingDigits (start : Nat) : List Char → Nat × Nat
  | [] => (start, 0)
  | d :: ds =>
    let next := 10 * start + (d.toNat - '0'.toNat)
    if next ≤ maxWord then leadingDigits next ds else (start, ds.length + 1)

def round53 (n : Nat) : Nat :=
  let unit := Nat.pow 2 (Nat.log2 n - 52)
  let below := n / unit
  let twice := 2 * (n % unit)
  if n < Nat.pow 2 53 then n
  else if twice < unit || (twice = unit && below % 2 = 0) then below * unit
  else (below + 1) * unit

namespace NumberText

/-- Whether the number can be held in 64-bit floating point, from as many of its first digits as
fit in 64 bits. -/
def inRange (n : NumberText) : Bool :=
  let (whole, dropped) := leadingDigits 0 n.whole
  let (significand, unread) := leadingDigits whole n.fraction
  let exponent : Int := n.exponent + dropped - (n.fraction.length - unread : Nat)
  significand = 0 || exponent < 0 ||
    (exponent ≤ 308 &&
      round53 significand * round53 (Nat.pow 10 exponent.toNat) <
        Nat.pow 2 1024 - Nat.pow 2 970)

def word? (n : NumberText) : Option Nat :=
  if n.isWhole && digitsValue n.whole ≤ maxWord then some (digitsValue n.whole) else none

end NumberText

def readNumber (negative : Bool) (cs : List Char) : Read (Option Nat × List Char) := do
  let (n, rest) ← numberText .truncated cs
  match n.word? with
  | some word => return (if negative then none else some word, rest)
  | none => if n.inRange then return (none, rest) else throw .malformed

def skipNumber (cs : List Char) : Read (List Char) := (numberText .malformed cs).map (·.2)

def skipColon (cs : List Char) : Read (List Char) :=
  match skipBlanks cs with
  | [] => .error .truncated
  | ':' :: rest => .ok rest
  | _ => .error .malformed

mutual
def skipValueFrom : Nat → List Char → Read (List Char)
  | 0, _ => .error .malformed
  | fuel + 1, cs =>
    match skipBlanks cs with
    | [] => .error .truncated
    | 'n' :: rest => readWord "ull".toList rest
    | 't' :: rest => readWord "rue".toList rest
    | 'f' :: rest => readWord "alse".toList rest
    | '"' :: rest => skipString rest
    | '-' :: rest => skipNumber rest
    | '[' :: rest =>
      match skipBlanks rest with
      | ']' :: rest => .ok rest
      | rest => skipItems fuel rest
    | '\x7b' :: rest =>
      match skipBlanks rest with
      | '\x7d' :: rest => .ok rest
      | rest => skipFields fuel rest
    | c :: rest => if c.isDigit then skipNumber (c :: rest) else .error .malformed

def skipItems : Nat → List Char → Read (List Char)
  | 0, _ => .error .malformed
  | fuel + 1, cs => do
    let rest ← skipValueFrom fuel cs
    match skipBlanks rest with
    | [] => .error .truncated
    | ',' :: rest => skipItems fuel rest
    | ']' :: rest => .ok rest
    | _ => .error .malformed

def skipFields : Nat → List Char → Read (List Char)
  | 0, _ => .error .malformed
  | fuel + 1, cs =>
    match skipBlanks cs with
    | [] => .error .truncated
    | '"' :: rest => do
      let rest ← skipValueFrom fuel (← skipColon (← skipString rest))
      match skipBlanks rest with
      | [] => .error .truncated
      | ',' :: rest => skipFields fuel rest
      | '\x7d' :: rest => .ok rest
      | _ => .error .malformed
    | _ => .error .malformed
end

def skipValue (cs : List Char) : Read (List Char) := skipValueFrom (2 * cs.length + 2) cs

/-- The fault of a value of the wrong type: one that starts as it should not, unless the value
itself is faulty before its type can be told. -/
def wrongType {α : Type} (cs : List Char) : Read α := do
  match cs with
  | 'n' :: rest => let _ ← readWord "ull".toList rest; throw .mismatched
  | 't' :: rest => let _ ← readWord "rue".toList rest; throw .mismatched
  | 'f' :: rest => let _ ← readWord "alse".toList rest; throw .mismatched
  | '"' :: rest => let _ ← readString rest; throw .mismatched
  | '-' :: rest => let _ ← readNumber true rest; throw .mismatched
  | '[' :: _ | '\x7b' :: _ => throw .mismatched
  | c :: rest =>
    if c.isDigit then
      let _ ← readNumber false (c :: rest)
      throw .mismatched
    else throw .malformed
  | [] => throw .truncated

def readBool (cs : List Char) : Read (Bool × List Char) :=
  match skipBlanks cs with
  | 't' :: rest => (readWord "rue".toList rest).map (true, ·)
  | 'f' :: rest => (readWord "alse".toList rest).map (false, ·)
  | rest => wrongType rest

def readWordNumber (cs : List Char) : Read (Nat × List Char) :=
  match skipBlanks cs with
  | '-' :: rest => do let _ ← readNumber true rest; throw .mismatched
  | c :: rest =>
    if c.isDigit then do
      match ← readNumber false (c :: rest) with
      | (some n, rest) => return (n, rest)
      | (none, _) => throw .mismatched
    else wrongType (c :: rest)
  | [] => .error .truncated

end Destack.Json
