import Destack.Bytecode.Bytes
import Mathlib

namespace Destack.Bytes

theorem unsigned_lt (bytes : List UInt8) : unsigned bytes < 256 ^ bytes.length := by
  induction bytes with
  | nil => simp [unsigned]
  | cons b bytes ih =>
      have low : b.toNat < 256 := b.toNat_lt
      rw [unsigned, List.length_cons, pow_succ]
      omega

theorem emod_split (x : Int) {p : Int} (positive : 0 < p) :
    x % (256 * p) = x % 256 + 256 * (x / 256 % p) := by
  have low := Int.emod_add_mul_ediv x 256
  have high := Int.emod_add_mul_ediv (x / 256) p
  have above := Int.emod_lt_of_pos (x / 256) positive
  have below := Int.emod_nonneg (x / 256) positive.ne'
  have same : x = x % 256 + 256 * (x / 256 % p) + 256 * p * (x / 256 / p) := by
    linear_combination -low - 256 * high
  conv_lhs => rw [same]
  rw [Int.add_mul_emod_self_left]
  exact Int.emod_eq_of_lt (by omega) (by omega)

theorem unsigned_spell (width : Nat) (x : Int) :
    (unsigned (spell width x) : Int) = x % 256 ^ width := by
  induction width generalizing x with
  | zero => simp [spell, unsigned]
  | succ width ih =>
      have low : ((UInt8.ofNat (x % 256).toNat).toNat : Int) = x % 256 := by
        rw [UInt8.toNat_ofNat']
        omega
      rw [pow_succ', emod_split x (by positivity), spell, unsigned, Nat.cast_add, Nat.cast_mul, ih,
        low]
      rfl

theorem unsigned_spell_of_lt {width n : Nat} (less : n < 256 ^ width) :
    unsigned (spell width n) = n := by
  have same := unsigned_spell width n
  rw [Int.emod_eq_of_lt (by simp) (by exact_mod_cast less)] at same
  exact_mod_cast same

theorem eq_of_unsigned_eq {a b : List UInt8} (length : a.length = b.length)
    (same : unsigned a = unsigned b) : a = b := by
  induction a generalizing b with
  | nil => exact (List.length_eq_zero_iff.mp length.symm).symm
  | cons first a ih =>
      cases b with
      | nil => simp at length
      | cons second b =>
          have low : first.toNat < 256 := first.toNat_lt
          have low' : second.toNat < 256 := second.toNat_lt
          rw [unsigned, unsigned] at same
          have head : first = second := UInt8.toNat_inj.mp (by omega)
          rw [head, ih (by simpa using length) (by omega)]

theorem spell_congr {width : Nat} {x y : Int} (same : x % 256 ^ width = y % 256 ^ width) :
    spell width x = spell width y := by
  apply eq_of_unsigned_eq (by simp)
  rw [← unsigned_spell, ← unsigned_spell] at same
  exact_mod_cast same

theorem signed_spell (width : Nat) (x : Int) :
    signed (spell width x) = x.bmod (256 ^ width) := by
  have modulus : ((256 ^ width : Nat) : Int) = 256 ^ width := by simp
  rw [signed, length_spell, unsigned_spell, ← modulus]
  exact Int.emod_bmod x (256 ^ width)

theorem signed_emod (bytes : List UInt8) : signed bytes % 256 ^ bytes.length = unsigned bytes := by
  have modulus : ((256 ^ bytes.length : Nat) : Int) = 256 ^ bytes.length := by simp
  have less := unsigned_lt bytes
  have reduced : signed bytes % (256 ^ bytes.length : Nat) =
      unsigned bytes % (256 ^ bytes.length : Nat) := Int.bmod_emod
  rw [← modulus, reduced]
  exact Int.emod_eq_of_lt (by simp) (by exact_mod_cast less)

theorem spell_signed {bytes : List UInt8} {width : Nat} (length : bytes.length = width) :
    spell width (signed bytes) = bytes := by
  subst length
  apply eq_of_unsigned_eq (length_spell _ _)
  have same := unsigned_spell bytes.length (signed bytes)
  rw [signed_emod] at same
  exact_mod_cast same

theorem spell_unsigned {bytes : List UInt8} {width : Nat} (length : bytes.length = width) :
    spell width (unsigned bytes) = bytes := by
  subst length
  apply eq_of_unsigned_eq (length_spell _ _)
  exact unsigned_spell_of_lt (unsigned_lt bytes)

theorem signed_spell_of_lt {width : Nat} {x : Int} {reach : Int} (half : 2 * reach = 256 ^ width)
    (low : -reach ≤ x) (high : x < reach) : signed (spell width x) = x := by
  have modulus : ((256 ^ width : Nat) : Int) = 256 ^ width := by simp
  rw [signed_spell]
  apply Int.bmod_eq_of_le_mul_two <;> rw [modulus] <;> omega

theorem signed_bounds (reach : Int) {bytes : List UInt8} (half : 2 * reach = 256 ^ bytes.length) :
    -reach ≤ signed bytes ∧ signed bytes < reach := by
  have modulus : ((256 ^ bytes.length : Nat) : Int) = 256 ^ bytes.length := by simp
  have low : -(((256 ^ bytes.length : Nat) : Int) / 2) ≤ signed bytes := 
    Int.le_bmod (Nat.pow_pos (by decide))
  have high : signed bytes < (((256 ^ bytes.length : Nat) : Int) + 1) / 2 :=
    Int.bmod_lt (Nat.pow_pos (by decide))
  omega

theorem words_spells (l : List Int) : words (l.flatMap (spell 4)) = l.map (spell 4) := by
  induction l with
  | nil => rfl
  | cons x l ih =>
      rw [List.flatMap_cons, List.map_cons, ← ih]
      rfl

theorem words_whole (bytes : List UInt8) (count : Nat) (length : bytes.length = 4 * count) :
    (words bytes).length = count ∧ (∀ w ∈ words bytes, w.length = 4) ∧
      (words bytes).flatten = bytes := by
  fun_induction words bytes generalizing count with
  | case1 a b c d rest ih =>
      simp only [List.length_cons] at length
      obtain ⟨counted, four, whole⟩ := ih (count - 1) (by omega)
      refine ⟨by rw [List.length_cons, counted]; omega, ?_, by simp [whole]⟩
      rw [List.forall_mem_cons]
      exact ⟨rfl, four⟩
  | case2 rest short =>
      rcases rest with _ | ⟨a, _ | ⟨b, _ | ⟨c, _ | ⟨d, rest⟩⟩⟩⟩
      · simp at length ⊢
        omega
      · simp at length
        omega
      · simp at length
        omega
      · simp at length
        omega
      · exact absurd rfl (short a b c d rest)

theorem spells_words {bytes : List UInt8} {count : Nat} (length : bytes.length = 4 * count) :
    ((words bytes).map signed).flatMap (spell 4) = bytes := by
  obtain ⟨-, four, whole⟩ := words_whole bytes count length
  rw [List.flatMap_map]
  conv_rhs => rw [← whole, ← List.flatMap_id]
  apply List.flatMap_congr
  intro w member
  exact spell_signed (four w member)

end Destack.Bytes
