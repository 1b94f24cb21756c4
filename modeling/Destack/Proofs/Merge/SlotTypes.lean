import Destack.Merge.Fixpoint
import Destack.Proofs.Code.Variables
import Destack.Proofs.Types.Joining

namespace Destack

namespace Build

theorem foldl_typeOf (vars : Variables) (values : List Value) (t : Ty) :
    values.foldl (fun t v => t.join (vars.typeOf v)) t = (values.map vars.typeOf).foldl Ty.join t :=
  List.foldl_map.symm

theorem foldl_join_of_same {t : Ty} {types : List Ty} (same : ∀ u ∈ types, u = t) :
    types.foldl Ty.join t = t :=
  Ty.foldl_join_eq_iff.2 fun u mem => by rw [same u mem, Ty.join_self]

theorem typeOf_mergeSlot_none (vars : Variables) (first : Value) (rest : List Value) :
    (mergeSlot vars none (first :: rest)).vars.typeOf (mergeSlot vars none (first :: rest)).value =
      (rest.map vars.typeOf).foldl Ty.join (vars.typeOf first) := by
  unfold mergeSlot
  dsimp only
  split
  · -- no merge variable is made when the same value arrives everywhere
    rename_i same
    refine (foldl_join_of_same ?_).symm
    simp only [List.all_eq_true, decide_eq_true_eq] at same
    simp only [List.forall_mem_map]
    exact fun v mem => by rw [same v mem]
  · rw [Variables.typeOf_newMerge_self, foldl_typeOf]

def visited (m : Nat) (t : Ty) (visits : List (Variables × List Value)) : Ty :=
  visits.foldl (fun t visit =>
    (mergeSlot (visit.1.setMerge m t) (some m) visit.2).vars.typeOf (.merge m)) t

def arrived (m : Nat) (visits : List (Variables × List Value)) : List Ty :=
  visits.flatMap fun visit => (visit.2.filter (· != .merge m)).map visit.1.typeOf

theorem typeOf_mergeSlot_some {vars : Variables} {m : Nat} (t : Ty)
    (bounded : m < vars.merges.length) (values : List Value) :
    (mergeSlot (vars.setMerge m t) (some m) values).vars.typeOf (.merge m) =
      ((values.filter (· != .merge m)).map vars.typeOf).foldl Ty.join t := by
  -- only the type of the merge variable itself was set, and it is filtered out
  have others : (values.filter (· != .merge m)).map (vars.setMerge m t).typeOf =
      (values.filter (· != .merge m)).map vars.typeOf := by
    refine List.map_congr_left fun v mem => ?_
    have other : v ≠ .merge m := by simpa using (List.mem_filter.1 mem).2
    exact Variables.typeOf_setMerge_of_ne other
  unfold mergeSlot
  dsimp only
  rw [Variables.typeOf_setMerge_self _ (by simpa [Variables.setMerge] using bounded), foldl_typeOf,
    others, Variables.typeOf_setMerge_self _ bounded]

theorem visited_eq {m : Nat} {visits : List (Variables × List Value)}
    (bounded : ∀ visit ∈ visits, m < visit.1.merges.length) (t : Ty) :
    visited m t visits = (arrived m visits).foldl Ty.join t := by
  unfold visited arrived
  induction visits generalizing t with
  | nil => rfl
  | cons visit visits ih =>
      rw [List.forall_mem_cons] at bounded
      rw [List.foldl_cons, typeOf_mergeSlot_some t bounded.1, ih bounded.2, List.flatMap_cons,
        List.foldl_append]

/-- Two types that were joined from the given types: they are equal unless one of the two is not
known, and equal if the given types are coherent. -/
def Agree (types : List Ty) (t u : Ty) : Prop :=
  (t ≠ .unknown → u ≠ .unknown → t = u) ∧ (Ty.Coherent {v | v ∈ types} → t = u)

theorem agree_of_same {t u : Ty} {ts us : List Ty} (same : ∀ v, v ∈ t :: ts ↔ v ∈ u :: us) :
    Agree (t :: ts) (ts.foldl Ty.join t) (us.foldl Ty.join u) :=
  ⟨Ty.foldl_join_eq_of_known same, fun coherent => coherent.foldl_join_eq (fun _ mem => mem) same⟩

/-- A join is idempotent and commutative; it absorbs all but different pointers, and it is
associative but where one way of joining three types tears. So the order of the values that arrive
in a slot, and how often they arrive, decides at most whether the type of its merge variable is
known. -/
theorem mergeSlot_join_laws (a b c : Ty) (vars vars' : Variables) (values values' : List Value)
    (m : Nat) (t : Ty) (visits visits' : List (Variables × List Value)) :
    a.join a = a ∧ a.join b = b.join a ∧
      (a.join (a.join b) = a.join b ↔ ¬(a ≠ b ∧ a.isPointer ∧ b.isPointer)) ∧
      ((a.join b).join c = a.join (b.join c) ↔ ¬(Ty.Torn a b c ∨ Ty.Torn c b a)) ∧
      (values ≠ [] → (∀ u, u ∈ values.map vars.typeOf ↔ u ∈ values'.map vars'.typeOf) →
        Agree (values.map vars.typeOf)
          ((mergeSlot vars none values).vars.typeOf (mergeSlot vars none values).value)
          ((mergeSlot vars' none values').vars.typeOf (mergeSlot vars' none values').value)) ∧
      ((∀ visit ∈ visits ++ visits', m < visit.1.merges.length) →
        (∀ u, u ∈ t :: arrived m visits ↔ u ∈ t :: arrived m visits') →
        Agree (t :: arrived m visits) (visited m t visits) (visited m t visits')) := by
  refine ⟨Ty.join_self a, Ty.join_comm a b, Ty.join_join_self_iff a b, Ty.join_assoc_iff a b c,
    ?_, ?_⟩
  · intro arrive same
    cases values with
    | nil => exact absurd rfl arrive
    | cons first rest =>
        cases values' with
        | nil => exact absurd ((same _).1 (List.mem_cons_self ..)) List.not_mem_nil
        | cons first' rest' =>
            rw [typeOf_mergeSlot_none, typeOf_mergeSlot_none]
            exact agree_of_same same
  · intro bounded same
    rw [List.forall_mem_append] at bounded
    rw [visited_eq bounded.1, visited_eq bounded.2]
    exact agree_of_same same

def nativeAndSmall : Variables := { params := [.nativeInt, .uint16], merges := [.int32] }

theorem nativeAndSmall_visited :
    Ty.Coherent {t | t ∈ Ty.int32 :: arrived 0 [(nativeAndSmall, [.param 0, .param 1])]} ∧
      visited 0 .int32 [(nativeAndSmall, [.param 0, .param 1])] =
        visited 0 .int32 [(nativeAndSmall, [.param 1]), (nativeAndSmall, [.merge 0, .param 0]),
          (nativeAndSmall, [.param 1])] := by
  have coherent :
      Ty.Coherent {t | t ∈ Ty.int32 :: arrived 0 [(nativeAndSmall, [.param 0, .param 1])]} :=
    { enums := by simp only [Set.mem_ofPred_eq]; decide
      pointers := by simp only [Set.mem_ofPred_eq]; decide
      integers := ⟨.int64, by decide, by simp only [Set.mem_ofPred_eq]; decide⟩ }
  have laws := mergeSlot_join_laws .int32 .nativeInt .uint16 nativeAndSmall nativeAndSmall [] [] 0
    .int32 [(nativeAndSmall, [.param 0, .param 1])]
    [(nativeAndSmall, [.param 1]), (nativeAndSmall, [.merge 0, .param 0]),
      (nativeAndSmall, [.param 1])]
  refine ⟨coherent, (laws.2.2.2.2.2 ?_ ?_).2 coherent⟩
  · decide
  · intro t
    simp [arrived, nativeAndSmall, Variables.typeOf]
    tauto

theorem joins_torn :
    (Ty.pointer .int32).join ((Ty.pointer .int32).join (.pointer .int64)) ≠
      (Ty.pointer .int32).join (.pointer .int64) ∧
    (Ty.int32.join .int64).join .nativeInt ≠ Ty.int32.join (Ty.int64.join .nativeInt) ∧
    ∃ (vars : Variables) (values values' : List Value), values.Perm values' ∧
      (mergeSlot vars none values).vars.typeOf (mergeSlot vars none values).value ≠
        (mergeSlot vars none values').vars.typeOf (mergeSlot vars none values').value :=
  ⟨by decide, by decide, { params := [.int32, .int64, .nativeInt] },
    [.param 0, .param 1, .param 2], [.param 0, .param 2, .param 1], by decide, by decide⟩

end Build
end Destack
