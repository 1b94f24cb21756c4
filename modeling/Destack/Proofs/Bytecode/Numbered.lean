import Destack.Bytecode.Decode
import Destack.Proofs.Except

namespace Destack

def Numbered {Place : Type} (first : Nat) (l : List (Instruction Place)) : Prop :=
  ∀ (k : Nat) (i : Instruction Place), l[k]? = some i → i.index = first + k

theorem Numbered.index {l : Listing} (numbered : Numbered 0 l) {k : Nat} {i : Instruction Nat}
    (found : l[k]? = some i) : i.index = k := by
  rw [numbered k i found, Nat.zero_add]

theorem numbered_cons {Place : Type} {first : Nat} {i : Instruction Place}
    {l : List (Instruction Place)} (here : i.index = first) (later : Numbered (first + 1) l) :
    Numbered first (i :: l) := by
  intro k j found
  cases k with
  | zero =>
      cases found
      exact here
  | succ k =>
      rw [later k j found]
      omega

theorem numbered_ofOps (ops : List (Opcode × Operand Nat)) : Numbered 0 (Listing.ofOps ops) := by
  suffices placed : ∀ index offset, Numbered index (Listing.place index offset ops) from placed 0 0
  induction ops with
  | nil => exact fun index offset k i found => by simp [Listing.place] at found
  | cons op ops ih =>
      intro index offset
      exact numbered_cons rfl (ih _ _)

namespace Decode

theorem index_instruction {index offset : Nat} {first : UInt8} {rest after : List UInt8}
    {i : Instruction Int} (read : instruction index offset first rest = .ok (i, after)) :
    i.index = index := by
  obtain ⟨⟨op, rest⟩, -, read⟩ := bind_eq_ok.mp read
  dsimp only at read
  split at read
  · cases read
  · split at read
    · cases read
      rfl
    · cases read

theorem numbered_scan {index offset : Nat} {code : List UInt8} {scanned : List (Instruction Int)}
    (read : scan index offset code = .ok scanned) : Numbered index scanned := by
  fun_induction scan index offset code generalizing scanned with
  | case1 index offset =>
      cases read
      exact fun k i found => by simp at found
  | case2 index offset first rest e failed => cases read
  | case3 index offset first rest i after found _ ih =>
      obtain ⟨later, scanned, same⟩ := bind_eq_ok.mp read
      cases same
      exact numbered_cons (index_instruction found) (ih scanned)

end Decode

theorem numbered_decode {code : List UInt8} {l : Listing} (read : decode code = .ok l) :
    Numbered 0 l := by
  obtain ⟨scanned, read, linked⟩ := bind_eq_ok.mp read
  intro k i found
  obtain ⟨length, -⟩ := mapM_eq_ok linked
  have within : k < scanned.length := length ▸ (List.getElem?_eq_some_iff.mp found).1
  have here := List.getElem?_eq_getElem within
  obtain ⟨j, same, link⟩ := mapM_getElem? linked here
  rw [found, Option.some.injEq] at same
  subst same
  obtain ⟨operand, -, made⟩ := bind_eq_ok.mp link
  cases made
  exact Decode.numbered_scan read k _ here

end Destack
