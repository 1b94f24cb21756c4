import Destack.Proofs.Replay.Values

namespace Destack
namespace Replay

def Shape.isKnown : Shape → Bool
  | .working _ none => false
  | _ => true

/-- The slots that the values on a stack come from, the top first, after an instruction of the
given shape. Values that were made come from nowhere. -/
def Shape.origins (s : Shape) (o : List (Option Nat)) : List (Option Nat) :=
  (match s with
    | .working _ puts => List.replicate (puts.getD 0) none
    | .doubled => o.take 1
    | .leaving .. => []) ++ s.rest o

def enteredOrigins : Nat → List (Option Nat)
  | 0 => []
  | depth + 1 => some depth :: enteredOrigins depth

inductive Lineage : List (Option Nat) → Prop
  | entered (depth : Nat) : Lineage (enteredOrigins depth)
  | copied {o : List (Option Nat)} {slot : Nat} (below : Lineage (some slot :: o)) :
      Lineage (some slot :: some slot :: o)
  | made {o : List (Option Nat)} (below : Lineage o) : Lineage (none :: o)

namespace Lineage

variable {o : List (Option Nat)}

theorem tail (lineage : Lineage o) : Lineage o.tail := by
  cases lineage with
  | entered depth =>
      cases depth with
      | zero => exact .entered 0
      | succ depth => exact .entered depth
  | copied below => exact below
  | made below => exact below

theorem drop (lineage : Lineage o) (k : Nat) : Lineage (o.drop k) := by
  induction k with
  | zero => exact lineage
  | succ k ih =>
      rw [← List.tail_drop]
      exact ih.tail

theorem replicate (lineage : Lineage o) (n : Nat) : Lineage (List.replicate n none ++ o) := by
  induction n with
  | zero => exact lineage
  | succ n ih => exact .made ih

theorem double (lineage : Lineage o) : Lineage (o.take 1 ++ o) := by
  cases o with
  | nil => exact lineage
  | cons top o =>
      cases top with
      | none => exact .made lineage
      | some slot => exact .copied lineage

theorem origins (lineage : Lineage o) (s : Shape) : Lineage (s.origins o) := by
  cases s with
  | working takes puts => exact (lineage.drop takes).replicate _
  | doubled => exact lineage.double
  | leaving takes ways =>
      cases takes with
      | none => exact .entered 0
      | some takes => exact lineage.drop takes

end Lineage

theorem reverse_enteredOrigins (depth : Nat) :
    (enteredOrigins depth).reverse = (List.range depth).map some := by
  induction depth with
  | zero => rfl
  | succ depth ih => simp [enteredOrigins, ih, List.range_succ]

theorem getElem?_concat_of_not_lt {α : Type} {l : List α} {a b : α} {k : Nat}
    (found : (l ++ [a])[k]? = some b) (past : ¬ k < l.length) : k = l.length ∧ a = b := by
  rw [List.getElem?_append_right (Nat.le_of_not_lt past), List.getElem?_singleton] at found
  split at found
  · cases found
    exact ⟨by omega, rfl⟩
  · cases found

/-- What comes from a slot stands in that slot, where everything below has stayed too, or right above
another copy. -/
theorem Lineage.slot {o : List (Option Nat)} (lineage : Lineage o) {k slot : Nat}
    (found : o.reverse[k]? = some (some slot)) :
    (∀ i ≤ slot, o.reverse[i]? = some (some i)) ∧
      (k = slot ∨ ∃ below, k = below + 1 ∧ slot ≤ below ∧
        o.reverse[below]? = some (some slot)) := by
  -- A new top does not change what stands below it.
  have lift {l : List (Option Nat)} {i : Nat} {x : Option Nat} (here : l[i]? = some x)
      (top : Option Nat) : (l ++ [top])[i]? = some x := by
    rw [List.getElem?_append_left (List.getElem?_eq_some_iff.mp here).1, here]
  have kept {o : List (Option Nat)} {k slot : Nat} (top : Option Nat)
      (before : (∀ i ≤ slot, o.reverse[i]? = some (some i)) ∧
        (k = slot ∨ ∃ below, k = below + 1 ∧ slot ≤ below ∧
          o.reverse[below]? = some (some slot))) :
      (∀ i ≤ slot, (o.reverse ++ [top])[i]? = some (some i)) ∧
        (k = slot ∨ ∃ below, k = below + 1 ∧ slot ≤ below ∧
          (o.reverse ++ [top])[below]? = some (some slot)) := by
    obtain ⟨stays, place⟩ := before
    refine ⟨fun i order => lift (stays i order) top, place.imp_right ?_⟩
    rintro ⟨below, rfl, order, copy⟩
    exact ⟨below, rfl, order, lift copy top⟩
  induction lineage generalizing k with
  | entered depth =>
      rw [reverse_enteredOrigins, List.getElem?_map, Option.map_eq_some_iff] at found
      obtain ⟨_, within, same⟩ := found
      cases same
      obtain ⟨less, same⟩ := List.getElem?_eq_some_iff.mp within
      rw [List.getElem_range] at same
      subst same
      rw [List.length_range] at less
      refine ⟨fun i order => ?_, .inl rfl⟩
      rw [reverse_enteredOrigins, List.getElem?_map,
        List.getElem?_range (Nat.lt_of_le_of_lt order less)]
      rfl
  | @copied o top below ih =>
      rw [List.reverse_cons] at found ⊢
      by_cases under : k < (some top :: o).reverse.length
      · rw [List.getElem?_append_left under] at found
        exact kept _ (ih found)
      · obtain ⟨rfl, same⟩ := getElem?_concat_of_not_lt found under
        cases same
        have next : (some slot :: o).reverse[o.length]? = some (some slot) := by simp
        obtain ⟨stays, place⟩ := ih next
        refine ⟨(kept _ ⟨stays, place⟩).1, .inr ⟨o.length, by simp, ?_, lift next _⟩⟩
        rcases place with same | ⟨under, same, order, -⟩ <;> omega
  | @made o below ih =>
      rw [List.reverse_cons] at found ⊢
      by_cases under : k < o.reverse.length
      · rw [List.getElem?_append_left under] at found
        exact kept _ (ih found)
      · obtain ⟨-, same⟩ := getElem?_concat_of_not_lt found under
        cases same

theorem Lineage.slot_le {o : List (Option Nat)} (lineage : Lineage o) {k slot : Nat}
    (found : o.reverse[k]? = some (some slot)) : slot ≤ k := by
  rcases (lineage.slot found).2 with same | ⟨below, same, order, -⟩ <;> omega

def Comes (entry : List Value) (f : Value → Value) : Option Nat → Value → Prop
  | some slot, v => ∃ u, entry[slot]? = some u ∧ v = f u
  | none, v => v.merge? = none

structure Follows (entry : List Value) (f : Value → Value) (o : List (Option Nat))
    (stack : OperandStack) : Prop where
  renames : Renames f
  comes : List.Forall₂ (Comes entry f) o stack

namespace Renames

variable {f g : Value → Value}

theorem merge?_eq (renames : Renames f) (v : Value) : (f v).merge? = v.merge? := by
  rcases renames v with same | ⟨declared, none⟩
  · rw [same]
  · rw [none, Value.merge?_of_isFixed (Value.isFixed_of_isDeclared declared)]

theorem comp (second : Renames g) (first : Renames f) : Renames (g ∘ f) := by
  intro v
  rcases first v with same | ⟨declared, none⟩
  · rw [Function.comp_apply, same]
    exact second v
  · exact .inr ⟨declared, (second.merge?_eq (f v)).trans none⟩

end Renames

theorem Comes.rename {entry : List Value} {f g : Value → Value} {origin : Option Nat} {v : Value}
    (renames : Renames g) (comes : Comes entry f origin v) :
    Comes entry (g ∘ f) origin (g v) := by
  cases origin with
  | none => exact (renames.merge?_eq v).trans comes
  | some slot =>
      obtain ⟨u, held, rfl⟩ := comes
      exact ⟨u, held, rfl⟩

theorem Follows.effect {entry : List Value} {f g : Value → Value} {o : List (Option Nat)}
    {before after : OperandStack} {s : Shape} (follows : Follows entry f o before)
    (renames : Renames g) (known : s.isKnown) (effect : s.Effect g before after) :
    Follows entry (g ∘ f) (s.origins o) after := by
  obtain ⟨added, rfl, puts⟩ := effect
  have renamed : List.Forall₂ (Comes entry (g ∘ f)) o (before.map g) :=
    List.forall₂_map_right_iff.mpr (follows.comes.imp fun _ _ comes => comes.rename renames)
  refine ⟨renames.comp follows.renames, List.rel_append ?_ ?_⟩
  · cases s with
    | working takes puts' =>
        obtain ⟨-, plain, count⟩ := puts
        cases puts' with
        | none => cases known
        | some n =>
            change List.Forall₂ _ (List.replicate n none) added
            rw [← count n rfl]
            clear count
            induction added with
            | nil => exact .nil
            | cons v added ih =>
                rw [List.forall_mem_cons] at plain
                exact .cons plain.1 (ih plain.2)
    | doubled =>
        obtain ⟨v, rest, rfl, rfl⟩ := puts
        exact List.forall₂_take 1 renamed
    | leaving takes ways =>
        obtain ⟨-, rfl⟩ := puts
        exact .nil
  · rw [← Shape.rest_map]
    cases s with
    | working takes puts => exact List.forall₂_drop takes renamed
    | doubled => exact renamed
    | leaving takes ways =>
        cases takes with
        | none => exact .nil
        | some takes => exact List.forall₂_drop takes renamed

section Slots

variable {entry : List Value} {f : Value → Value} {o : List (Option Nat)} {exit : List Value}
  (renames : Renames f) (comes : List.Forall₂ (Comes entry f) o exit)
include comes

theorem exists_origin {k : Nat} {v : Value} (held : exit[k]? = some v) :
    ∃ origin, o[k]? = some origin ∧ Comes entry f origin v := by
  induction comes generalizing k with
  | nil => simp at held
  | cons first rest ih =>
      cases k with
      | zero =>
          cases held
          exact ⟨_, rfl, first⟩
      | succ k => exact ih held

theorem held_of_origin {k slot : Nat} (origin : o[k]? = some (some slot)) :
    ∃ u, entry[slot]? = some u ∧ exit[k]? = some (f u) := by
  induction comes generalizing k with
  | nil => simp at origin
  | cons first rest ih =>
      cases k with
      | zero =>
          cases origin
          obtain ⟨u, held, rfl⟩ := first
          exact ⟨u, held, rfl⟩
      | succ k => exact ih origin

include renames in
theorem exists_origin_of_merge {k m : Nat} (held : exit[k]? = some (.merge m)) :
    ∃ slot, o[k]? = some (some slot) ∧ entry[slot]? = some (.merge m) := by
  obtain ⟨origin, here, comes⟩ := exists_origin comes held
  cases origin with
  | none => cases comes
  | some slot =>
      obtain ⟨u, there, same⟩ := comes
      have kind := renames.merge?_eq u
      rw [← same] at kind
      refine ⟨slot, here, ?_⟩
      cases u with
      | merge n =>
          cases kind
          exact there
      | _ => cases kind

end Slots

def listingOrigins (cx : Context) (l : Listing) (o : List (Option Nat)) : List (Option Nat) :=
  l.foldl (fun o i => (i.opcode.action.shape cx i).origins o) o

def PutsKnown (cx : Context) (l : Listing) : Prop :=
  ∀ i ∈ l, (i.opcode.action.shape cx i).isKnown

theorem listingOrigins_lineage (cx : Context) (l : Listing) {o : List (Option Nat)}
    (lineage : Lineage o) : Lineage (listingOrigins cx l o) := by
  induction l generalizing o with
  | nil => exact lineage
  | cons i l ih => exact ih (lineage.origins _)

theorem performAll_follows {cx : Context} {l : Listing} (known : PutsKnown cx l) {entry : List Value}
    {f : Value → Value} {o : List (Option Nat)} {p q : Progress} {u : Unit}
    (ran : performAll cx l p = .ok u q) (follows : Follows entry f o p.stack) :
    ∃ g, Follows entry g (listingOrigins cx l o) q.stack := by
  induction l generalizing f o p with
  | nil =>
      cases ran
      exact ⟨f, follows⟩
  | cons i l ih =>
      rw [PutsKnown, List.forall_mem_cons] at known
      rw [performAll, bind_apply] at ran
      cases first : perform cx i i.opcode.action p with
      | error e r =>
          rw [first] at ran
          cases ran
      | ok v r =>
          rw [first] at ran
          obtain ⟨g, carried⟩ := reached_carried (perform_reached first)
          exact ih known.2 ran (follows.effect carried.renames known.1 carried.effect)

theorem follows_entered (entry : List Value) :
    Follows entry id (enteredOrigins entry.length) (.ofSlots entry) := by
  refine ⟨fun v => .inl rfl, ?_⟩
  suffices upTo : ∀ depth ≤ entry.length,
      List.Forall₂ (Comes entry id) (enteredOrigins depth) (entry.take depth).reverse by
    have all := upTo entry.length le_rfl
    rwa [List.take_length] at all
  intro depth within
  induction depth with
  | zero => exact .nil
  | succ depth ih =>
      have top := List.getElem?_eq_getElem within
      rw [List.take_add_one, top, Option.toList_some, List.reverse_concat]
      exact .cons ⟨_, top, rfl⟩ (ih (Nat.le_of_succ_le within))

end Replay

open Replay

def Block.origins (cx : Context) (l : Listing) (b : Block) (depth : Nat) : List (Option Nat) :=
  listingOrigins cx (b.instructions l)
    ((Shape.working 0 (some b.exception.toList.length)).origins (enteredOrigins depth))

theorem Block.origins_lineage (cx : Context) (l : Listing) (b : Block) (depth : Nat) :
    Lineage (b.origins cx l depth) :=
  listingOrigins_lineage cx _ ((Lineage.entered depth).origins _)

theorem replayBlock_follows {cx : Context} {l : Listing} {b : Block} {entry : List Value}
    {s t : Shared} {output : BlockOutput} (known : PutsKnown cx (b.instructions l))
    (ran : replayBlock cx l b entry s = (.ok output, t)) :
    ∃ f, Renames f ∧ List.Forall₂ (Comes entry f) (b.origins cx l entry.length).reverse
      output.exitStack := by
  obtain ⟨p, q, received, ended, rfl, -⟩ := replayBlock_eq_ok ran
  obtain ⟨f, carried⟩ := reached_carried (receive_reached received)
  have begins := (follows_entered entry).effect carried.renames rfl carried.effect
  obtain ⟨g, follows⟩ := performAll_follows known ended begins
  exact ⟨g, follows.renames, List.rel_reverse follows.comes⟩

end Destack
