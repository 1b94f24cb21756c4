import Destack.Decimal.Shortest

namespace Destack.Decimal

structure Style where
  tie : Tie
  positional : Int → Bool
  whole : String

def plain : Style := ⟨.up, fun _ => true, ""⟩

def document32 : Style := ⟨.even, fun p => -6 < p && p ≤ 13, ".0"⟩

def document64 : Style := ⟨.even, fun p => -5 < p && p ≤ 16, ".0"⟩

def zeros (n : Nat) : String := String.ofList (List.replicate n '0')

namespace Numeral

def positional (style : Style) (d : Numeral) : String :=
  let digits := Nat.toDigits 10 d.digits
  if 0 ≤ d.exponent then String.ofList digits ++ zeros d.exponent.toNat ++ style.whole
  else if 0 < d.point then
    String.ofList (digits.take d.point.toNat) ++ "." ++ String.ofList (digits.drop d.point.toNat)
  else "0." ++ zeros (-d.point).toNat ++ String.ofList digits

def exponentPart (e : Int) : String := "e" ++ (if e < 0 then "-" else "+") ++ toString e.natAbs

def scientific (d : Numeral) : String :=
  let digits := Nat.toDigits 10 d.digits
  let fraction := if digits.length = 1 then "" else "." ++ String.ofList (digits.drop 1)
  String.ofList (digits.take 1) ++ fraction ++ exponentPart (d.point - 1)

def write (style : Style) (d : Numeral) : String :=
  if style.positional d.point then d.positional style else d.scientific

end Numeral

def sign (negative : Bool) : String := if negative then "-" else ""

def write? (style : Style) (f : Format) (bits : Nat) : Option String :=
  match f.read bits with
  | .nan | .infinite _ => none
  | .zero negative => some (sign negative ++ "0" ++ style.whole)
  | .finite negative x => some (sign negative ++ (shortest style.tie x).write style)

def listing (f : Format) (bits : Nat) : String :=
  match f.read bits with
  | .nan => "NaN"
  | .infinite negative => sign negative ++ "inf"
  | _ => (write? plain f bits).getD ""

end Destack.Decimal
