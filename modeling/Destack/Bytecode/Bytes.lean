namespace Destack.Bytes

def unsigned : List UInt8 → Nat
  | [] => 0
  | b :: bytes => b.toNat + 256 * unsigned bytes

def signed (bytes : List UInt8) : Int := (unsigned bytes : Int).bmod (Nat.pow 256 bytes.length)

def spell : Nat → Int → List UInt8
  | 0, _ => []
  | width + 1, x => .ofNat (x % 256).toNat :: spell width (x / 256)

def words : List UInt8 → List (List UInt8)
  | a :: b :: c :: d :: rest => [a, b, c, d] :: words rest
  | _ => []

@[simp] theorem length_spell (width : Nat) (x : Int) : (spell width x).length = width := by
  induction width generalizing x with
  | zero => rfl
  | succ width ih => simp [spell, ih]

end Destack.Bytes
