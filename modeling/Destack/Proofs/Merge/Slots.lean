import Destack.Merge.Fixpoint
import Destack.Proofs.Code.Variables
import Destack.Proofs.Types.Widening

namespace Destack
namespace Build

def widest (vars : Variables) (m : Nat) (values : List Value) : Ty :=
  (values.filter (· != .merge m)).foldl (fun t v => t.join (vars.typeOf v)) (vars.typeOf (.merge m))

inductive Filled (vars : Variables) : Option Nat → List Value → Slot → Prop
  | owned (m : Nat) (values : List Value) :
      Filled vars (some m) values ⟨.merge m, some m, vars.setMerge m (widest vars m values),
        widest vars m values != vars.typeOf (.merge m)⟩
  | empty : Filled vars none [] ⟨.const (.null .null), none, vars, false⟩
  | shared {first : Value} {rest : List Value} (same : ∀ v ∈ rest, v = first) :
      Filled vars none (first :: rest) ⟨first, none, vars, false⟩
  | split {first : Value} {rest : List Value} (differ : ¬∀ v ∈ rest, v = first) (t : Ty) :
      Filled vars none (first :: rest)
        ⟨.merge vars.merges.length, some vars.merges.length, (vars.newMerge t).2, false⟩

theorem mergeSlot_filled (vars : Variables) (merge : Option Nat) (values : List Value) :
    Filled vars merge values (mergeSlot vars merge values) := by
  cases merge with
  | some m => exact .owned m values
  | none =>
      cases values with
      | nil => exact .empty
      | cons first rest =>
          unfold mergeSlot
          dsimp only
          split
          · rename_i same
            exact .shared (by simpa using same)
          · rename_i differ
            exact .split (by simpa using differ) _

def SlotFits (values : List Value) (v : Value) : Option Nat → Prop
  | some m => v = .merge m
  | none => values ≠ [] ∧ ∀ u ∈ values, u = v

theorem Filled.fits {vars : Variables} {merge : Option Nat} {values : List Value} {slot : Slot}
    (filled : Filled vars merge values slot) (arrive : values ≠ []) :
    SlotFits values slot.value slot.merge := by
  cases filled with
  | owned m values => rfl
  | empty => exact absurd rfl arrive
  | shared same => exact ⟨arrive, by simpa using same⟩
  | split differ t => rfl

/-- Each slot of an entry stack fits what arrives there. Merge variables of slots that are not
on the stack do not matter. -/
inductive Settled : List (Option Nat) → List (List Value) → List Value → Prop
  | nil (merges : List (Option Nat)) : Settled merges [] []
  | cons {merge : Option Nat} {merges : List (Option Nat)} {values : List Value}
      {columns : List (List Value)} {v : Value} {entry : List Value}
      (slot : SlotFits values v merge) (rest : Settled merges columns entry) :
      Settled (merge :: merges) (values :: columns) (v :: entry)

theorem mergeSlots_settled (vars : Variables) (merges : List (Option Nat))
    {columns : List (List Value)} (arrive : ∀ values ∈ columns, values ≠ []) :
    Settled (mergeSlots vars merges columns).merges columns
      (mergeSlots vars merges columns).entry := by
  induction columns generalizing vars merges with
  | nil => exact .nil merges
  | cons values columns ih =>
      rw [List.forall_mem_cons] at arrive
      exact .cons ((mergeSlot_filled _ _ _).fits arrive.1) (ih _ _ arrive.2)

theorem Settled.length_eq {merges : List (Option Nat)} {columns : List (List Value)}
    {entry : List Value} (settled : Settled merges columns entry) :
    columns.length = entry.length := by
  induction settled with
  | nil merges => rfl
  | cons slot rest ih => exact congrArg (· + 1) ih

theorem Settled.slot {merges : List (Option Nat)} {columns : List (List Value)}
    {entry : List Value} (settled : Settled merges columns entry) {slot : Nat} {v : Value}
    (located : entry[slot]? = some v) :
    ∃ merge values, merges[slot]? = some merge ∧ columns[slot]? = some values ∧
      SlotFits values v merge := by
  induction settled generalizing slot with
  | nil merges => simp at located
  | cons fits rest ih =>
      cases slot with
      | zero =>
          cases located
          exact ⟨_, _, rfl, rfl, fits⟩
      | succ slot => exact ih located

structure Extended (a b : Variables) : Prop where
  locals : b.locals = a.locals
  params : b.params = a.params
  temps : b.temps = a.temps
  merges : a.merges.length ≤ b.merges.length

theorem Extended.refl (vars : Variables) : Extended vars vars := ⟨rfl, rfl, rfl, le_refl _⟩

theorem Extended.trans {a b c : Variables} (first : Extended a b) (second : Extended b c) :
    Extended a c where
  locals := second.locals.trans first.locals
  params := second.params.trans first.params
  temps := second.temps.trans first.temps
  merges := first.merges.trans second.merges

theorem Filled.extended {vars : Variables} {merge : Option Nat} {values : List Value} {slot : Slot}
    (filled : Filled vars merge values slot) : Extended vars slot.vars := by
  cases filled with
  | owned m values => exact ⟨rfl, rfl, rfl, by simp [Variables.setMerge]⟩
  | empty => exact .refl vars
  | shared same => exact .refl vars
  | split differ t => exact ⟨rfl, rfl, rfl, by simp [Variables.newMerge]⟩

theorem Filled.source {vars : Variables} {merge : Option Nat} {values : List Value} {slot : Slot}
    (filled : Filled vars merge values slot) {m : Nat} (made : slot.merge = some m) :
    merge = some m ∨
      m = vars.merges.length ∧ slot.vars.merges.length = m + 1 ∧ slot.value = .merge m := by
  cases filled with
  | owned n values => exact .inl made
  | empty => cases made
  | shared same => cases made
  | split differ t =>
      cases made
      exact .inr ⟨rfl, by simp [Variables.newMerge], rfl⟩

theorem Filled.typeOf {vars : Variables} {merge : Option Nat} {values : List Value} {slot : Slot}
    (filled : Filled vars merge values slot) {v : Value}
    (other : ∀ m, v = .merge m → slot.merge ≠ some m) :
    slot.vars.typeOf v = vars.typeOf v := by
  cases filled with
  | owned m values => exact Variables.typeOf_setMerge_of_ne fun same => other m same rfl
  | empty => rfl
  | shared same => rfl
  | split differ t => exact Variables.typeOf_newMerge_of_ne fun same => other _ same rfl

theorem Filled.typeOf_of_narrow {vars : Variables} {merge : Option Nat} {values : List Value}
    {slot : Slot} (filled : Filled vars merge values slot) (narrow : slot.widened = false)
    {m : Nat} (bounded : m < vars.merges.length) :
    slot.vars.typeOf (.merge m) = vars.typeOf (.merge m) := by
  cases filled with
  | owned n values =>
      have same : widest vars n values = vars.typeOf (.merge n) := by simpa using narrow
      simp only [same, Variables.setMerge_typeOf]
  | empty => rfl
  | shared same => rfl
  | split differ t =>
      exact Variables.typeOf_newMerge_of_ne fun same => Nat.ne_of_lt bounded (Value.merge.inj same)

theorem mergeSlots_cons (vars : Variables) (merges : List (Option Nat)) (values : List Value)
    (columns : List (List Value)) :
    ∃ slot, Filled vars merges.head?.join values slot ∧
      mergeSlots vars merges (values :: columns) =
        let rest := mergeSlots slot.vars merges.tail columns
        ⟨slot.value :: rest.entry, slot.merge :: rest.merges, rest.vars,
          slot.widened || rest.widened⟩ :=
  ⟨_, mergeSlot_filled _ _ _, rfl⟩

theorem mergeSlots_extended (vars : Variables) (merges : List (Option Nat))
    (columns : List (List Value)) : Extended vars (mergeSlots vars merges columns).vars := by
  induction columns generalizing vars merges with
  | nil => exact .refl vars
  | cons values columns ih =>
      obtain ⟨slot, filled, eq⟩ := mergeSlots_cons vars merges values columns
      rw [eq]
      exact filled.extended.trans (ih slot.vars merges.tail)

theorem head?_join_eq_some {merges : List (Option Nat)} {m : Nat}
    (head : merges.head?.join = some m) : merges[0]? = some (some m) := by
  rw [← List.head?_eq_getElem?]
  exact Option.join_eq_some_iff.mp head

theorem mergeSlots_source {vars : Variables} {merges : List (Option Nat)}
    {columns : List (List Value)} {slot m : Nat}
    (located : (mergeSlots vars merges columns).merges[slot]? = some (some m)) :
    merges[slot]? = some (some m) ∨
      vars.merges.length ≤ m ∧ m < (mergeSlots vars merges columns).vars.merges.length ∧
        (mergeSlots vars merges columns).entry[slot]? = some (.merge m) := by
  induction columns generalizing vars merges slot with
  | nil => exact .inl located
  | cons values columns ih =>
      obtain ⟨made, filled, eq⟩ := mergeSlots_cons vars merges values columns
      rw [eq] at located ⊢
      cases slot with
      | zero =>
          rcases filled.source (Option.some.inj located) with old | ⟨rfl, length, value⟩
          · exact .inl (head?_join_eq_some old)
          · refine .inr ⟨le_refl _, ?_, congrArg some value⟩
            have longer := (mergeSlots_extended made.vars merges.tail columns).merges
            dsimp only
            omega
      | succ slot =>
          rcases ih located with old | ⟨least, most, value⟩
          · exact .inl (by simpa using old)
          · exact .inr ⟨filled.extended.merges.trans least, most, value⟩

theorem mergeSlots_keeps {vars : Variables} {merges : List (Option Nat)}
    {columns : List (List Value)} {k n : Nat} (owned : merges[k]? = some (some n)) :
    (mergeSlots vars merges columns).merges[k]? = some (some n) := by
  induction columns generalizing vars merges k with
  | nil => exact owned
  | cons values columns ih =>
      obtain ⟨made, filled, eq⟩ := mergeSlots_cons vars merges values columns
      rw [eq]
      cases k with
      | zero =>
          rw [← List.head?_eq_getElem?] at owned
          rw [owned] at filled
          cases filled
          rfl
      | succ k =>
          apply ih
          rw [List.getElem?_tail]
          exact owned

theorem mergeSlots_free {vars : Variables} {merges : List (Option Nat)}
    {columns : List (List Value)} {k : Nat} {values : List Value} {v : Value}
    (column : columns[k]? = some values) (same : ∀ u ∈ values, u = v)
    (free : ∀ n, merges[k]? ≠ some (some n)) (n : Nat) :
    (mergeSlots vars merges columns).merges[k]? ≠ some (some n) := by
  induction columns generalizing vars merges k with
  | nil => simp at column
  | cons first columns ih =>
      obtain ⟨made, filled, eq⟩ := mergeSlots_cons vars merges first columns
      rw [eq]
      cases k with
      | zero =>
          cases column
          have none : merges.head?.join = none := by
            rw [Option.eq_none_iff_forall_ne_some]
            intro n head
            exact free n (head?_join_eq_some head)
          rw [none] at filled
          cases filled with
          | empty => simp
          | shared same => simp
          | split differ t =>
              rw [List.forall_mem_cons] at same
              exact absurd (fun u member => (same.2 u member).trans same.1.symm) differ
      | succ k =>
          apply ih column
          intro n
          rw [List.getElem?_tail]
          exact free n

theorem mergeSlots_fresh {vars : Variables} {merges : List (Option Nat)}
    {columns : List (List Value)}
    (bounded : ∀ slot m : Nat, merges[slot]? = some (some m) → m < vars.merges.length)
    {i j m : Nat} (first : (mergeSlots vars merges columns).merges[i]? = some (some m))
    (second : (mergeSlots vars merges columns).merges[j]? = some (some m))
    (fresh : vars.merges.length ≤ m) : i = j := by
  induction columns generalizing vars merges i j with
  | nil => exact absurd (bounded i m first) (Nat.not_lt_of_le fresh)
  | cons values columns ih =>
      obtain ⟨made, filled, eq⟩ := mergeSlots_cons vars merges values columns
      rw [eq] at first second
      have boundedTail : ∀ slot n : Nat, merges.tail[slot]? = some (some n) →
          n < vars.merges.length :=
        fun slot n located => bounded (slot + 1) n (by simpa using located)
      -- A later slot has a variable beyond those that the first slot knows.
      have later : ∀ k : Nat,
          (mergeSlots made.vars merges.tail columns).merges[k]? = some (some m) →
            made.vars.merges.length ≤ m := by
        intro k located
        rcases mergeSlots_source located with old | ⟨least, -⟩
        · exact absurd (boundedTail k m old) (Nat.not_lt_of_le fresh)
        · exact least
      have apart : ∀ k : Nat, made.merge = some m →
          (mergeSlots made.vars merges.tail columns).merges[k]? ≠ some (some m) := by
        intro k here there
        have beyond := later k there
        rcases filled.source here with old | ⟨-, length, -⟩
        · exact absurd (bounded 0 m (head?_join_eq_some old)) (Nat.not_lt_of_le fresh)
        · omega
      cases i with
      | zero =>
          cases j with
          | zero => rfl
          | succ j => exact absurd second (apart j (Option.some.inj first))
      | succ i =>
          cases j with
          | zero => exact absurd first (apart i (Option.some.inj second))
          | succ j =>
              refine congrArg (· + 1) (ih ?_ first second (later i first))
              intro slot n located
              exact Nat.lt_of_lt_of_le (boundedTail slot n located) filled.extended.merges

theorem mergeSlots_typeOf {vars : Variables} {merges : List (Option Nat)}
    {columns : List (List Value)} {v : Value}
    (other : ∀ m, v = .merge m → some m ∉ (mergeSlots vars merges columns).merges) :
    (mergeSlots vars merges columns).vars.typeOf v = vars.typeOf v := by
  induction columns generalizing vars merges with
  | nil => rfl
  | cons values columns ih =>
      obtain ⟨made, filled, eq⟩ := mergeSlots_cons vars merges values columns
      rw [eq] at other ⊢
      have later := ih fun m same member => other m same (List.mem_cons_of_mem _ member)
      refine later.trans (filled.typeOf fun m same here => other m same ?_)
      exact List.mem_cons.mpr (.inl here.symm)

theorem mergeSlots_typeOf_of_narrow {vars : Variables} {merges : List (Option Nat)}
    {columns : List (List Value)} (narrow : (mergeSlots vars merges columns).widened = false)
    {m : Nat} (bounded : m < vars.merges.length) :
    (mergeSlots vars merges columns).vars.typeOf (.merge m) = vars.typeOf (.merge m) := by
  induction columns generalizing vars merges with
  | nil => rfl
  | cons values columns ih =>
      obtain ⟨made, filled, eq⟩ := mergeSlots_cons vars merges values columns
      rw [eq] at narrow ⊢
      obtain ⟨here, later⟩ := Bool.or_eq_false_iff.mp narrow
      refine (ih later ?_).trans (filled.typeOf_of_narrow here bounded)
      exact Nat.lt_of_lt_of_le bounded filled.extended.merges

theorem widest_eq_iff {vars : Variables} {m : Nat} {values : List Value} :
    widest vars m values = vars.typeOf (.merge m) ↔
      ∀ v ∈ values, (vars.typeOf (.merge m)).join (vars.typeOf v) = vars.typeOf (.merge m) := by
  have folded : widest vars m values =
      (((values.filter (· != .merge m)).map vars.typeOf).foldl Ty.join (vars.typeOf (.merge m))) :=
    List.foldl_map.symm
  rw [folded, Ty.foldl_join_eq_iff]
  simp only [List.forall_mem_map, List.mem_filter, bne_iff_ne, ne_eq, and_imp]
  constructor
  · intro others v member
    by_cases own : v = .merge m
    · rw [own, Ty.join_self]
    · exact others v member own
  · exact fun all v member _ => all v member

def Absorbs (vars : Variables) (merges : List (Option Nat)) (columns : List (List Value)) : Prop :=
  ∀ (slot m : Nat) (values : List Value), merges[slot]? = some (some m) →
    columns[slot]? = some values → ∀ v ∈ values,
      (vars.typeOf (.merge m)).join (vars.typeOf v) = vars.typeOf (.merge m)

theorem absorbs_cons {vars : Variables} {merge : Option Nat} {merges : List (Option Nat)}
    {values : List Value} {columns : List (List Value)} :
    Absorbs vars (merge :: merges) (values :: columns) ↔
      (∀ m, merge = some m → widest vars m values = vars.typeOf (.merge m)) ∧
        Absorbs vars merges columns := by
  constructor
  · intro absorbs
    refine ⟨fun m owned => widest_eq_iff.mpr (absorbs 0 m values (congrArg some owned) rfl), ?_⟩
    exact fun slot m arrive owned there => absorbs (slot + 1) m arrive owned there
  · rintro ⟨here, later⟩ slot m arrive owned there
    cases slot with
    | zero =>
        cases there
        exact widest_eq_iff.mp (here m (Option.some.inj owned))
    | succ slot => exact later slot m arrive owned there

theorem mergeSlot_of_fits (vars : Variables) {values : List Value} {v : Value}
    {merge : Option Nat} (fits : SlotFits values v merge) :
    (mergeSlot vars merge values).value = v ∧ (mergeSlot vars merge values).merge = merge ∧
      (mergeSlot vars merge values).vars.merges.length = vars.merges.length ∧
      ((mergeSlot vars merge values).widened = false ↔
        ∀ m, merge = some m → widest vars m values = vars.typeOf (.merge m)) ∧
      ((mergeSlot vars merge values).widened = false →
        (mergeSlot vars merge values).vars = vars) := by
  have filled := mergeSlot_filled vars merge values
  generalize mergeSlot vars merge values = slot at filled
  cases filled with
  | owned m values =>
      refine ⟨fits.symm, rfl, by simp [Variables.setMerge], by simp, fun narrow => ?_⟩
      have same : widest vars m values = vars.typeOf (.merge m) := by simpa using narrow
      rw [same, Variables.setMerge_typeOf]
  | empty => exact absurd rfl fits.1
  | @shared first rest same =>
      exact ⟨fits.2 first List.mem_cons_self, rfl, rfl, by simp, fun _ => rfl⟩
  | split differ t =>
      rw [SlotFits, List.forall_mem_cons] at fits
      exact absurd (fun u member => (fits.2.2 u member).trans fits.2.1.symm) differ

theorem Settled.again {merges : List (Option Nat)} {columns : List (List Value)}
    {entry : List Value} (settled : Settled merges columns entry) (vars : Variables) :
    (mergeSlots vars merges columns).entry = entry ∧
      (mergeSlots vars merges columns).merges = merges ∧
      (mergeSlots vars merges columns).vars.merges.length = vars.merges.length ∧
      ((mergeSlots vars merges columns).widened = false ↔ Absorbs vars merges columns) ∧
      ((mergeSlots vars merges columns).widened = false →
        (mergeSlots vars merges columns).vars = vars) := by
  induction settled generalizing vars with
  | nil merges => exact ⟨rfl, rfl, rfl, ⟨fun _ _ _ _ _ there => (by cases there), fun _ => rfl⟩,
      fun _ => rfl⟩
  | @cons merge merges values columns v entry fits rest ih =>
      obtain ⟨value, same, length, narrow, unchanged⟩ := mergeSlot_of_fits vars fits
      obtain ⟨entries, merged, lengths, narrows, unchangedLater⟩ :=
        ih (mergeSlot vars merge values).vars
      rw [absorbs_cons, ← narrow]
      refine ⟨?_, ?_, lengths.trans length, ?_, ?_⟩
      · exact congrArg₂ List.cons value entries
      · exact congrArg₂ List.cons same merged
      · simp only [mergeSlots, List.head?_cons, Option.join_some, List.tail_cons,
          Bool.or_eq_false_iff]
        refine and_congr_right fun here => ?_
        rw [narrows, unchanged here]
      · intro still
        obtain ⟨here, later⟩ := Bool.or_eq_false_iff.mp still
        exact (unchangedLater later).trans (unchanged here)

end Build
end Destack
