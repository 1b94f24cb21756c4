import Mathlib

namespace Destack

theorem bind_eq_ok {ε α β : Type} {x : Except ε α} {f : α → Except ε β} {b : β} :
    (x >>= f) = .ok b ↔ ∃ a, x = .ok a ∧ f a = .ok b := by
  cases x <;> simp [bind, Except.bind]

theorem seq_eq_ok {ε α : Type} {x : Except ε Unit} {f : Unit → Except ε α} {a : α} :
    (x >>= f) = .ok a ↔ x = .ok () ∧ f () = .ok a := by
  rw [bind_eq_ok]
  exact ⟨fun ⟨(), both⟩ => both, fun both => ⟨(), both⟩⟩

theorem forM_eq_ok {ε α : Type} {f : α → Except ε Unit} {l : List α} :
    l.forM f = .ok () ↔ ∀ a ∈ l, f a = .ok () := by
  induction l with
  | nil => simp [pure, Except.pure]
  | cons a l ih =>
      change (f a >>= fun _ => l.forM f) = .ok () ↔ _
      rw [seq_eq_ok, ih, List.forall_mem_cons]

theorem forM_zipIdx_eq_ok {ε α : Type} {f : α × Nat → Except ε Unit} {l : List α} {P : α → Prop}
    (passes : ∀ a i, f (a, i) = .ok () ↔ P a) :
    l.zipIdx.forM f = .ok () ↔ ∀ a ∈ l, P a := by
  rw [forM_eq_ok]
  constructor
  · intro all a member
    obtain ⟨i, bound, rfl⟩ := List.getElem_of_mem member
    have numbered : (l[i], i) ∈ l.zipIdx := by simp [List.mk_mem_zipIdx_iff_getElem?]
    exact (passes _ i).mp (all _ numbered)
  · rintro all ⟨a, i⟩ member
    exact (passes a i).mpr (all a (List.fst_mem_of_mem_zipIdx member))

theorem mapM_eq_ok_iff {ε α β : Type} {f : α → Except ε β} {l : List α} {r : List β} :
    l.mapM f = .ok r ↔ l.map f = r.map Except.ok := by
  induction l generalizing r with
  | nil => cases r <;> simp [pure, Except.pure]
  | cons a l ih =>
      rw [List.mapM_cons, bind_eq_ok]
      simp only [bind_eq_ok, ih]
      cases r with
      | nil => simp [pure, Except.pure]
      | cons b r =>
          simp only [pure, Except.pure, Except.ok.injEq, List.cons.injEq, List.map_cons]
          constructor
          · rintro ⟨c, first, bs, later, rfl, rfl⟩
            exact ⟨first, later⟩
          · rintro ⟨first, later⟩
            exact ⟨b, first, r, later, rfl, rfl⟩

theorem mapM_eq_ok {ε α β : Type} {f : α → Except ε β} {l : List α} {r : List β}
    (succeeds : l.mapM f = .ok r) : r.length = l.length ∧ ∀ b ∈ r, ∃ a ∈ l, f a = .ok b := by
  have same := mapM_eq_ok_iff.mp succeeds
  refine ⟨by simpa using (congrArg List.length same).symm, fun b member => ?_⟩
  have listed : Except.ok b ∈ l.map f := same ▸ List.mem_map_of_mem member
  exact List.mem_map.mp listed

theorem mapM_getElem? {ε α β : Type} {f : α → Except ε β} {l : List α} {r : List β}
    (succeeds : l.mapM f = .ok r) {k : Nat} {a : α} (found : l[k]? = some a) :
    ∃ b, r[k]? = some b ∧ f a = .ok b := by
  have same := congrArg (·[k]?) (mapM_eq_ok_iff.mp succeeds)
  rw [List.getElem?_map, List.getElem?_map, found, Option.map_some] at same
  obtain ⟨b, here, ok⟩ := Option.map_eq_some_iff.mp same.symm
  exact ⟨b, here, ok.symm⟩

theorem exists_mapM_eq_ok {ε α β : Type} {f : α → Except ε β} {l : List α} :
    (∃ r, l.mapM f = .ok r) ↔ ∀ a ∈ l, ∃ b, f a = .ok b := by
  induction l with
  | nil => simp [pure, Except.pure]
  | cons a l ih =>
      rw [List.forall_mem_cons, ← ih]
      simp only [List.mapM_cons, bind_eq_ok]
      constructor
      · rintro ⟨r, b, first, bs, later, -⟩
        exact ⟨⟨b, first⟩, bs, later⟩
      · rintro ⟨⟨b, first⟩, bs, later⟩
        exact ⟨b :: bs, b, first, bs, later, rfl⟩

theorem bind_eq_error {ε α β : Type} {x : Except ε α} {f : α → Except ε β} {e : ε} :
    (x >>= f) = .error e ↔ x = .error e ∨ ∃ a, x = .ok a ∧ f a = .error e := by
  cases x <;> simp [bind, Except.bind]

theorem mapM_eq_error_iff {ε α β : Type} {f : α → Except ε β} {l : List α} {e : ε} :
    l.mapM f = .error e ↔ ∃ before a after, l = before ++ a :: after ∧
      (∀ c ∈ before, ∃ b, f c = .ok b) ∧ f a = .error e := by
  induction l with
  | nil => simp [pure, Except.pure]
  | cons a l ih =>
      rw [List.mapM_cons, bind_eq_error]
      simp only [bind_eq_error, ih]
      constructor
      · rintro (first | ⟨b, first, ⟨before, c, after, rfl, fine, fails⟩ | ⟨bs, -, fails⟩⟩)
        · exact ⟨[], a, l, rfl, by simp, first⟩
        · exact ⟨a :: before, c, after, rfl, List.forall_mem_cons.mpr ⟨⟨b, first⟩, fine⟩, fails⟩
        · cases fails
      · rintro ⟨before, c, after, same, fine, fails⟩
        cases before with
        | nil =>
            cases same
            exact .inl fails
        | cons d before =>
            cases same
            obtain ⟨⟨b, first⟩, fine⟩ := List.forall_mem_cons.mp fine
            exact .inr ⟨b, first, .inl ⟨before, c, after, rfl, fine, fails⟩⟩

theorem mapM_zipIdx_eq_error_iff {ε α β : Type} {f : α × Nat → Except ε β} {l : List α} {e : ε} :
    l.zipIdx.mapM f = .error e ↔ ∃ before a after, l = before ++ a :: after ∧
      (∀ p ∈ before.zipIdx, ∃ b, f p = .ok b) ∧ f (a, before.length) = .error e := by
  rw [mapM_eq_error_iff]
  constructor
  · rintro ⟨front, ⟨a, n⟩, back, split, fine, fails⟩
    have whole := congrArg (List.map Prod.fst) split
    rw [List.zipIdx_map_fst, List.map_append, List.map_cons] at whole
    have numbered := congrArg List.zipIdx whole
    rw [split, List.zipIdx_append, List.zipIdx_cons] at numbered
    obtain ⟨same, rest⟩ := List.append_inj numbered (by simp)
    obtain ⟨here, -⟩ := List.cons.inj rest
    obtain ⟨-, rfl⟩ := Prod.mk.inj here
    refine ⟨front.map Prod.fst, a, back.map Prod.fst, whole, ?_, ?_⟩
    · rwa [← same]
    · simpa using fails
  · rintro ⟨before, a, after, rfl, fine, fails⟩
    refine ⟨before.zipIdx, (a, before.length), after.zipIdx (before.length + 1), ?_, fine, fails⟩
    rw [List.zipIdx_append, List.zipIdx_cons, Nat.zero_add]

theorem mapM_eq_error {ε α β : Type} {f : α → Except ε β} {l : List α} {e : ε}
    (fails : l.mapM f = .error e) : ∃ a ∈ l, f a = .error e := by
  obtain ⟨before, a, after, rfl, -, fails⟩ := mapM_eq_error_iff.mp fails
  exact ⟨a, by simp, fails⟩

end Destack
