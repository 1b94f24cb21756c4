namespace Destack.Decimal

structure Format where
  exponentBits : Nat
  fractionBits : Nat

def binary32 : Format := ⟨8, 23⟩
def binary64 : Format := ⟨11, 52⟩

/-- The positive number `significand * 2 ^ exponent`, with its distance to the next number below:
half the usual one where the exponent steps. -/
structure Binary where
  significand : Nat
  exponent : Int
  stepsBelow : Bool
  deriving DecidableEq, Repr

inductive Reading
  | nan
  | infinite (negative : Bool)
  | zero (negative : Bool)
  | finite (negative : Bool) (magnitude : Binary)
  deriving DecidableEq, Repr

namespace Format

def leastExponent (f : Format) : Int := 2 - Nat.pow 2 (f.exponentBits - 1) - f.fractionBits

def read (f : Format) (bits : Nat) : Reading :=
  let fraction := bits % Nat.pow 2 f.fractionBits
  let field := bits / Nat.pow 2 f.fractionBits % Nat.pow 2 f.exponentBits
  let negative := bits / Nat.pow 2 (f.fractionBits + f.exponentBits) % 2 = 1
  if field = Nat.pow 2 f.exponentBits - 1 then
    if fraction = 0 then .infinite negative else .nan
  else if field = 0 then
    if fraction = 0 then .zero negative else .finite negative ⟨fraction, f.leastExponent, false⟩
  else
    .finite negative
      ⟨Nat.pow 2 f.fractionBits + fraction, f.leastExponent + (field - 1 : Nat),
        fraction = 0 && 1 < field⟩

end Format
end Destack.Decimal
