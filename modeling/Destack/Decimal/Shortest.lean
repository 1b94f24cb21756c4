import Destack.Decimal.Binary

/-!
# Shortest decimals

The decimal with the fewest digits among those that read back as a given binary number, and of
these the nearest to it. A binary number owns the reals between the midpoints to its neighbours;
the midpoints belong to it when its significand is even. The search tries one digit, two digits,
and so on; on each grid only the two decimals around the number can be nearest.
-/

namespace Destack.Decimal

structure Numeral where
  digits : Nat
  exponent : Int
  deriving DecidableEq, Repr

inductive Tie
  | up
  | even
  deriving DecidableEq, Repr

def digitCount (n : Nat) : Nat := (Nat.toDigits 10 n).length

namespace Numeral

def trim (d : Numeral) : Numeral :=
  let zeros := ((Nat.toDigits 10 d.digits).reverse.takeWhile (· = '0')).length
  if d.digits = 0 then d else ⟨d.digits / Nat.pow 10 zeros, d.exponent + zeros⟩

def point (d : Numeral) : Int := digitCount d.digits + d.exponent

end Numeral

structure Owned where
  low : Nat
  value : Nat
  high : Nat
  denominator : Nat
  closed : Bool

namespace Owned

def ofBinary (x : Binary) : Owned :=
  let scale := Nat.pow 2 (x.exponent - 2).toNat
  { low := (4 * x.significand - (if x.stepsBelow then 1 else 2)) * scale
    value := 4 * x.significand * scale
    high := (4 * x.significand + 2) * scale
    denominator := Nat.pow 2 (2 - x.exponent).toNat
    closed := x.significand % 2 = 0 }

def point (x : Owned) : Int :=
  if x.denominator ≤ x.value then digitCount (x.value / x.denominator)
  else 1 - digitCount ((x.denominator - 1) / x.value)

def scaled (x : Owned) (e : Int) : Owned :=
  let up := Nat.pow 10 (-e).toNat
  { x with
    low := x.low * up
    value := x.value * up
    high := x.high * up
    denominator := x.denominator * Nat.pow 10 e.toNat }

def nearest? (tie : Tie) (x : Owned) : Option Nat :=
  let below := x.value / x.denominator
  let belowIn := if x.closed then x.low ≤ below * x.denominator else x.low < below * x.denominator
  let aboveIn :=
    if x.closed then (below + 1) * x.denominator ≤ x.high else (below + 1) * x.denominator < x.high
  let middle := (2 * below + 1) * x.denominator
  if belowIn then
    if !aboveIn || 2 * x.value < middle then some below
    else if middle < 2 * x.value then some (below + 1)
    else match tie with
      | .up => some (below + 1)
      | .even => some (if below % 2 = 0 then below else below + 1)
  else if aboveIn then some (below + 1)
  else none

end Owned

/-- The shortest decimal that reads back; seventeen digits suffice for both formats. -/
def shortest (tie : Tie) (x : Binary) : Numeral :=
  let owned := Owned.ofBinary x
  let found := (List.range 17).findSome? fun (count : Nat) =>
    let e := owned.point - (count + 1 : Nat)
    (owned.scaled e).nearest? tie |>.map fun digits => Numeral.trim ⟨digits, e⟩
  found.getD ⟨x.significand, x.exponent⟩

end Destack.Decimal
