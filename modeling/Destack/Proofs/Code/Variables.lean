import Mathlib
import Destack.Code.Value

namespace Destack

theorem getElem?_concat_of_ne {α : Type} {l : List α} {a : α} {i : Nat} (other : i ≠ l.length) :
    (l ++ [a])[i]? = l[i]? := by
  rcases Nat.lt_or_gt_of_ne other with less | more
  · exact List.getElem?_append_left less
  · rw [List.getElem?_eq_none (by simpa using more), List.getElem?_eq_none more.le]

def Value.isFixed : Value → Bool
  | .temp _ | .merge _ => false
  | _ => true

namespace Variables

theorem typeOf_of_isFixed {a b : Variables} {v : Value} (fixed : v.isFixed)
    (locals : b.locals = a.locals) (params : b.params = a.params) : b.typeOf v = a.typeOf v := by
  cases v with
  | localVar index => simp only [typeOf, locals]
  | param index => simp only [typeOf, params]
  | const c => rfl
  | temp id => cases fixed
  | merge id => cases fixed

theorem typeOf_setTemp {vars : Variables} {id : Nat} (t : Ty) (allocated : id < vars.temps.length)
    (v : Value) : (vars.setTemp id t).typeOf v = if v = .temp id then t else vars.typeOf v := by
  cases v with
  | temp other =>
      by_cases same : id = other
      · simp [typeOf, setTemp, ← same, allocated]
      · simp [typeOf, setTemp, same, Ne.symm same]
  | _ => rfl

theorem typeOf_newTemp (vars : Variables) (t : Ty) (v : Value) :
    (vars.newTemp t).2.typeOf v = if v = .temp vars.temps.length then t else vars.typeOf v := by
  cases v with
  | temp other =>
      by_cases same : other = vars.temps.length
      · simp [typeOf, newTemp, same]
      · simp [typeOf, newTemp, same, getElem?_concat_of_ne same]
  | _ => rfl

def padded (vars : Variables) (count : Nat) : Variables :=
  { vars with temps := vars.temps ++ List.replicate count .unknown }

theorem typeOf_padded (vars : Variables) (count : Nat) (v : Value) :
    (vars.padded count).typeOf v = vars.typeOf v := by
  cases v with
  | temp id =>
      simp only [typeOf, padded, List.getElem?_append, List.getElem?_replicate]
      split_ifs with known more
      · rfl
      · rw [List.getElem?_eq_none (Nat.le_of_not_lt known)]
        rfl
      · rw [List.getElem?_eq_none (Nat.le_of_not_lt known)]
  | _ => rfl

theorem typeOf_setMerge_of_ne {vars : Variables} {m : Nat} {t : Ty} {v : Value}
    (other : v ≠ .merge m) : (vars.setMerge m t).typeOf v = vars.typeOf v := by
  cases v with
  | merge id =>
      have apart : m ≠ id := fun same => other (congrArg Value.merge same.symm)
      simp [typeOf, setMerge, apart]
  | _ => rfl

theorem typeOf_setMerge_self {vars : Variables} {m : Nat} (t : Ty)
    (bounded : m < vars.merges.length) : (vars.setMerge m t).typeOf (.merge m) = t := by
  simp [typeOf, setMerge, bounded]

theorem typeOf_newMerge_self (vars : Variables) (t : Ty) :
    (vars.newMerge t).2.typeOf (.merge (vars.newMerge t).1) = t := by
  simp [typeOf, newMerge]

theorem typeOf_newMerge_of_ne {vars : Variables} {t : Ty} {v : Value}
    (other : v ≠ .merge vars.merges.length) :
    (vars.newMerge t).2.typeOf v = vars.typeOf v := by
  cases v with
  | merge id =>
      have apart : id ≠ vars.merges.length := fun same => other (congrArg Value.merge same)
      simp [typeOf, newMerge, getElem?_concat_of_ne apart]
  | _ => rfl

theorem setMerge_typeOf (vars : Variables) (m : Nat) :
    vars.setMerge m (vars.typeOf (.merge m)) = vars := by
  have same : vars.merges.set m (vars.typeOf (.merge m)) = vars.merges := by
    apply List.ext_getElem?
    intro i
    rw [List.getElem?_set]
    split_ifs with here bounded
    · subst here
      simp [typeOf, bounded]
    · subst here
      exact (List.getElem?_eq_none (Nat.le_of_not_lt bounded)).symm
    · rfl
  unfold setMerge
  rw [same]

end Variables
end Destack
