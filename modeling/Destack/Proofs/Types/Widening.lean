import Mathlib
import Destack.Types.Ty

namespace Destack
namespace Ty

/-- How far up a type is: types that are not kept on the stack, the null type, stack types, the
types that references and addresses join to, and at the top the unknown type. -/
def height (t : Ty) : Nat :=
  if t = unknown then 4
  else if t = object ∨ t = nativeInt then 3
  else if t = null then 1
  else if t.stackType = t then 2
  else 0

theorem stackType_stackType (t : Ty) : t.stackType.stackType = t.stackType := by
  fun_induction stackType t with
  | case1 b => cases b <;> rfl
  | case2 name underlying args ih => exact ih
  | case3 t notBase notEnum => unfold stackType; split <;> simp_all

theorem height_lt_four {t : Ty} (known : t ≠ unknown) : t.height < 4 := by
  unfold height
  rw [if_neg known]
  split_ifs <;> omega

theorem height_lt_three {t : Ty} (known : t ≠ unknown) (joined : ¬(t = object ∨ t = nativeInt)) :
    t.height < 3 := by
  unfold height
  rw [if_neg known, if_neg joined]
  split_ifs <;> omega

theorem height_eq_zero {t : Ty} (off : t.stackType ≠ t) : t.height = 0 := by
  have notUnknown : t ≠ unknown := by rintro rfl; exact off rfl
  have notJoined : ¬(t = object ∨ t = nativeInt) := by rintro (rfl | rfl) <;> exact off rfl
  have notNull : t ≠ null := by rintro rfl; exact off rfl
  unfold height
  rw [if_neg notUnknown, if_neg notJoined, if_neg notNull, if_neg off]

theorem height_pos {t : Ty} (on : t.stackType = t) : 0 < t.height := by
  unfold height
  rw [if_pos on]
  split_ifs <;> omega

theorem stackType_of_reference {t : Ty} (reference : t.isReference || t.isPointer) :
    t.stackType = t := by
  cases t with
  | base b => cases b <;> first | rfl | cases reference
  | enumType name underlying args => cases reference
  | _ => rfl

theorem one_lt_height {t : Ty} (reference : t.isReference || t.isPointer) (typed : t ≠ null) :
    1 < t.height := by
  unfold height
  rw [if_neg typed, if_pos (stackType_of_reference reference)]
  split_ifs <;> omega

def Rises (t u : Ty) : Prop := t = u ∨ t.height < u.height

namespace Rises

variable {t u v : Ty}

theorem refl (t : Ty) : t.Rises t := .inl rfl

theorem height_le (rises : t.Rises u) : t.height ≤ u.height := by
  rcases rises with rfl | higher
  · exact le_refl _
  · exact higher.le

theorem trans (first : t.Rises u) (second : u.Rises v) : t.Rises v := by
  rcases first with rfl | higher
  · exact second
  · exact .inr (higher.trans_le second.height_le)

theorem antisymm (up : t.Rises u) (down : u.Rises t) : t = u := by
  rcases up with same | higher
  · exact same
  · exact absurd higher (Nat.not_lt_of_le down.height_le)

end Rises

theorem rises_joinStack {a b : Ty} (known : a ≠ unknown) : a.Rises (a.joinStack b) := by
  by_cases on : a.stackType = a
  · unfold joinStack
    simp only [on]
    split_ifs with same native
    · exact .inl rfl
    · by_cases here : a = nativeInt
      · exact .inl here
      · right
        have notJoined : ¬(a = object ∨ a = nativeInt) := by
          rintro (rfl | rfl)
          · simp [isInteger, BaseType.isInteger] at native
          · exact here rfl
        exact height_lt_three known notJoined
    · exact .inr (height_lt_four known)
  · right
    rw [height_eq_zero on]
    unfold joinStack
    dsimp only
    split_ifs
    · exact height_pos (stackType_stackType a)
    · decide
    · decide

theorem rises_join (a b : Ty) : a.Rises (a.join b) := by
  unfold join
  split_ifs with same top fromNull toNull references pointers
  · exact .inl rfl
  · by_cases here : a = unknown
    · exact .inl here
    · exact .inr (height_lt_four here)
  · simp only [Bool.and_eq_true, decide_eq_true_eq] at fromNull
    obtain ⟨rfl, reference⟩ := fromNull
    exact .inr (one_lt_height reference (Ne.symm same))
  · exact .inl rfl
  · by_cases here : a = object
    · exact .inl here
    · right
      refine height_lt_three (fun unknown => by simp [unknown] at top) ?_
      rintro (rfl | rfl)
      · exact here rfl
      · simp [isReference, BaseType.isReference] at references
  · right
    refine height_lt_three (fun unknown => by simp [unknown] at top) ?_
    rintro (rfl | rfl) <;> simp [isPointer] at pointers
  · exact rises_joinStack fun unknown => by simp [unknown] at top

theorem join_self (t : Ty) : t.join t = t := if_pos rfl

theorem rises_foldl_join (t : Ty) (types : List Ty) : t.Rises (types.foldl join t) := by
  induction types generalizing t with
  | nil => exact .refl t
  | cons u types ih => exact (rises_join t u).trans (ih (t.join u))

/-- Joins one after another end where they started only if none of them went up. -/
theorem foldl_join_eq_iff {t : Ty} {types : List Ty} :
    types.foldl join t = t ↔ ∀ u ∈ types, t.join u = t := by
  induction types with
  | nil => simp
  | cons u types ih =>
      rw [List.foldl_cons, List.forall_mem_cons]
      constructor
      · intro back
        have down := rises_foldl_join (t.join u) types
        rw [back] at down
        have same := (rises_join t u).antisymm down
        rw [← same] at back
        exact ⟨same.symm, ih.mp back⟩
      · rintro ⟨stays, rest⟩
        rw [stays]
        exact ih.mpr rest

-- A join need not absorb what it was made of.
example : (pointer int32).join (pointer int64) = nativeInt ∧
    nativeInt.join (pointer int32) = unknown := by decide

end Ty
end Destack
