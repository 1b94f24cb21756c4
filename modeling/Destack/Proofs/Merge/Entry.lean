import Destack.Proofs.Merge.Slots

namespace Destack
namespace Build

structure Fits (inputs : List (List Value)) (merges : List (Option Nat)) (entry : List Value) :
    Prop where
  empty : inputs = [] → entry = []
  depth : ∀ input ∈ inputs, input.length = entry.length
  settled : inputs ≠ [] → Settled merges (columns entry.length inputs) entry

theorem length_columns (depth : Nat) (inputs : List (List Value)) :
    (columns depth inputs).length = depth := by
  simp [columns]

theorem columns_ne_nil {depth : Nat} {inputs : List (List Value)} (enter : inputs ≠ [])
    (deep : ∀ input ∈ inputs, input.length = depth) :
    ∀ values ∈ columns depth inputs, values ≠ [] := by
  intro values member
  obtain ⟨slot, bounded, rfl⟩ := List.mem_map.mp member
  obtain ⟨input, arrives⟩ := List.exists_mem_of_ne_nil inputs enter
  have located : slot < input.length := by
    rw [deep input arrives]
    exact List.mem_range.mp bounded
  refine List.ne_nil_of_mem (a := input[slot]) (List.mem_filterMap.mpr ⟨input, arrives, ?_⟩)
  exact List.getElem?_eq_getElem located

theorem mem_column {depth slot : Nat} {inputs : List (List Value)} {values : List Value}
    (column : (columns depth inputs)[slot]? = some values) {v : Value} :
    v ∈ values ↔ ∃ input ∈ inputs, input[slot]? = some v := by
  obtain ⟨bounded, rfl⟩ := List.getElem?_eq_some_iff.mp column
  simp [columns]

theorem Fits.slot {inputs : List (List Value)} {merges : List (Option Nat)} {entry : List Value}
    (fits : Fits inputs merges entry) {slot : Nat} {v : Value} (located : entry[slot]? = some v) :
    (∃ m, merges[slot]? = some (some m) ∧ v = .merge m) ∨
      ∀ input ∈ inputs, input[slot]? = some v := by
  have enter : inputs ≠ [] := fun none => by simp [fits.empty none] at located
  obtain ⟨merge, values, owned, column, slotFits⟩ := (fits.settled enter).slot located
  cases merge with
  | some m => exact .inl ⟨m, owned, slotFits⟩
  | none =>
      refine .inr fun input arrives => ?_
      have bounded : slot < input.length := by
        rw [fits.depth input arrives]
        exact (List.getElem?_eq_some_iff.mp located).1
      have found := List.getElem?_eq_getElem bounded
      rw [found, slotFits.2 _ ((mem_column column).mpr ⟨input, arrives, found⟩)]

theorem candidate_eq {g : Graph} {s : Build} {id : Nat} {site : Site} {c : Candidate}
    (computed : candidate g s id site = .ok c) :
    (incoming g s.sites id site.block = [] ∧ c = ⟨[], site.merges, s.vars, false⟩) ∨
      ∃ depth, incoming g s.sites id site.block ≠ [] ∧
        (∀ input ∈ incoming g s.sites id site.block, input.length = depth) ∧
        c = mergeSlots s.vars site.merges (columns depth (incoming g s.sites id site.block)) := by
  unfold candidate at computed
  dsimp only at computed
  split at computed
  · rename_i none
    cases computed
    exact .inl ⟨none, rfl⟩
  · rename_i first rest enter
    split at computed
    · cases computed
    · rename_i agree
      cases computed
      refine .inr ⟨first.length, by simp [enter], ?_, rfl⟩
      simpa using agree

theorem candidate_fits {g : Graph} {s : Build} {id : Nat} {site : Site} {c : Candidate}
    (computed : candidate g s id site = .ok c) :
    Fits (incoming g s.sites id site.block) c.merges c.entry := by
  rcases candidate_eq computed with ⟨none, rfl⟩ | ⟨depth, enter, deep, rfl⟩
  · exact ⟨fun _ => rfl, by simp [none], fun enter => absurd none enter⟩
  · have settled := mergeSlots_settled s.vars site.merges (columns_ne_nil enter deep)
    have length := settled.length_eq
    rw [length_columns] at length
    refine ⟨fun none => absurd none enter, ?_, fun _ => ?_⟩
    · rw [← length]
      exact deep
    · rw [← length]
      exact settled

theorem candidate_mergeSlots {g : Graph} {s : Build} {id : Nat} {site : Site} {c : Candidate}
    (computed : candidate g s id site = .ok c) :
    ∃ columns, c = mergeSlots s.vars site.merges columns := by
  rcases candidate_eq computed with ⟨-, rfl⟩ | ⟨depth, -, -, rfl⟩
  · exact ⟨[], rfl⟩
  · exact ⟨_, rfl⟩

/-- A recorded entry stack that fits is computed again, and no merge variable is made for it. -/
theorem candidate_again {g : Graph} {s : Build} {id : Nat} {site : Site} {entry : List Value}
    (fits : Fits (incoming g s.sites id site.block) site.merges entry) :
    ∃ c, candidate g s id site = .ok c ∧ c.entry = entry ∧ c.merges = site.merges ∧
      c.vars.merges.length = s.vars.merges.length ∧
      (c.widened = false ↔ Absorbs s.vars site.merges
        (columns entry.length (incoming g s.sites id site.block))) ∧
      (c.widened = false → c.vars = s.vars) := by
  unfold candidate
  dsimp only
  split
  · rename_i none
    have nothing : entry = [] := fits.empty none
    subst nothing
    refine ⟨_, rfl, rfl, rfl, rfl, ⟨fun _ slot m values _ there => ?_, fun _ => rfl⟩, fun _ => rfl⟩
    simp [columns] at there
  · rename_i first rest enter
    have deep : first.length = entry.length := fits.depth first (by simp [enter])
    have agree : (incoming g s.sites id site.block).find?
        (fun stack => stack.length ≠ first.length) = none := by
      rw [List.find?_eq_none, deep]
      simpa using fits.depth
    rw [agree, deep]
    exact ⟨_, rfl, (fits.settled (by simp [enter])).again s.vars⟩

end Build
end Destack
