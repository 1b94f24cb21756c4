import Destack.Proofs.Exit.Weights

namespace Destack

namespace Inlining

def remaining (b : Inlining) : Nat := load (fun _ _ => 1) b

theorem Treatment.remaining_eq {b after : Inlining} {m : Marked} {others : List Marked}
    {p : CopyPlan} (treatment : Treatment b after m others p) (waits : Waits m)
    (alone : ∀ o ∈ others, Waits o → ¬ p.scope.LiesWithin o.scope) :
    remaining b = 1 + remaining after :=
  treatment.load_eq waits alone (fun _ _ _ => rfl) fun _ _ _ _ _ => rfl

theorem remaining_le (b : Inlining) :
    remaining b ≤ b.scopes.length * (b.stmts.length + 1) ^ b.scopes.length := by
  have each : ∀ x ∈ b.scopes.map fun m =>
      (if Waits m then 1 else 0) * weight b.stmts b.scopes m.scope,
      x ≤ (b.stmts.length + 1) ^ b.scopes.length := by
    rw [List.forall_mem_map]
    intro m _
    split
    · rw [Nat.one_mul]
      exact weight_le b.stmts b.scopes m.scope
    · rw [Nat.zero_mul]
      exact Nat.zero_le _
  have total := List.sum_le_card_nsmul _ _ each
  rwa [List.length_map, smul_eq_mul] at total

theorem settled_of_outermost {b : Inlining} (sound : Sound b.stmts (b.scopes.map (·.scope)))
    (nothing : outermost b.scopes = []) : ∀ m ∈ b.scopes, ¬ Waits m := by
  -- The widest waiting scope could be treated, so if none can be then none waits.
  intro m member waits
  obtain ⟨number, found⟩ := List.getElem?_of_mem member
  let width (i : Nat) : Nat := (b.scopes[i]?.map (·.scope.hull.length)).getD 0
  -- A waiting scope around the widest one would be wider still.
  obtain ⟨widest, inList, most⟩ := Finset.exists_max_image (waiting b.scopes).toFinset width
    ⟨number, List.mem_toFinset.mpr (mem_waiting.mpr ⟨m, found, waits⟩)⟩
  rw [List.mem_toFinset, mem_waiting] at inList
  obtain ⟨w, there, waits'⟩ := inList
  have free : widest ∈ outermost b.scopes := by
    refine mem_outermost.mpr ⟨w, there, waits', fun j o found' waits'' different => ?_⟩
    rw [← Bool.not_eq_true]
    intro nested
    have laid {c : Marked} {k : Nat} (found : b.scopes[k]? = some c) : c.scope.Laid :=
      sound.laid _ (List.mem_map_of_mem (List.mem_of_getElem? found))
    have related : w.scope.Nested o.scope := by
      have table := List.pairwise_iff_getElem.mp (List.pairwise_map.mp sound.nested)
      obtain ⟨bound, rfl⟩ := List.getElem?_eq_some_iff.mp there
      obtain ⟨bound', rfl⟩ := List.getElem?_eq_some_iff.mp found'
      rcases Nat.lt_or_gt_of_ne different with before | behind
      · exact (table _ _ bound' bound before).symm
      · exact table _ _ bound bound' behind
    have within := (related.nestedIn_iff (laid there) (laid found')).mp nested
    have wider := Scope.LiesWithin.length_lt (laid there) (laid found') within
    have le := most j (List.mem_toFinset.mpr (mem_waiting.mpr ⟨o, found', waits''⟩))
    simp only [width, there, found', Option.map_some, Option.getD_some] at le
    omega
  rw [nothing] at free
  cases free

theorem next?_eq_none_iff {b : Inlining} (sound : Sound b.stmts (b.scopes.map (·.scope))) :
    next? b.scopes = none ↔ ∀ m ∈ b.scopes, ¬ Waits m := by
  refine ⟨fun nothing => settled_of_outermost sound (outermost_of_next?_eq_none nothing),
    fun settled => ?_⟩
  cases chosen : next? b.scopes with
  | none => rfl
  | some number =>
      obtain ⟨m, found, waits, -⟩ := mem_outermost.mp (mem_outermost_of_next? chosen)
      exact absurd waits (settled m (List.mem_of_getElem? found))

/-- So many treatments, each of the scope that is chosen then, lead from one body to the other. -/
inductive Treated : Nat → Inlining → Inlining → Prop
  | refl (b : Inlining) : Treated 0 b b
  | step {n number : Nat} {b c : Inlining} {m : Marked} (chosen : next? b.scopes = some number)
      (found : b.scopes[number]? = some m) (later : Treated n (b.treat number m) c) :
      Treated (n + 1) b c

namespace Treated

variable {n : Nat} {b c : Inlining}

theorem sound (treated : Treated n b c) (sound : Sound b.stmts (b.scopes.map (·.scope))) :
    Sound c.stmts (c.scopes.map (·.scope)) := by
  induction treated with
  | refl => exact sound
  | step chosen found _ ih =>
      obtain ⟨others, p, treatment, -⟩ :=
        treatment_of_outermost sound found (mem_outermost_of_next? chosen)
      exact ih (treatment.sound sound)

theorem remaining_eq (treated : Treated n b c) (sound : Sound b.stmts (b.scopes.map (·.scope))) :
    remaining b = n + remaining c := by
  induction treated with
  | refl => exact (Nat.zero_add _).symm
  | step chosen found _ ih =>
      obtain ⟨others, p, treatment, waits, alone⟩ :=
        treatment_of_outermost sound found (mem_outermost_of_next? chosen)
      rw [treatment.remaining_eq waits alone, ih (treatment.sound sound)]
      omega

theorem conserved {f : Inlining → Nat}
    (kept : ∀ {b after : Inlining} {m : Marked} {others : List Marked} {p : CopyPlan},
      Treatment b after m others p → Waits m →
        (∀ o ∈ others, Waits o → ¬ p.scope.LiesWithin o.scope) → f after = f b)
    (treated : Treated n b c) (sound : Sound b.stmts (b.scopes.map (·.scope))) : f c = f b := by
  induction treated with
  | refl => rfl
  | step chosen found _ ih =>
      obtain ⟨others, p, treatment, waits, alone⟩ :=
        treatment_of_outermost sound found (mem_outermost_of_next? chosen)
      rw [ih (treatment.sound sound), kept treatment waits alone]

theorem run_eq (treated : Treated n b c) (sound : Sound b.stmts (b.scopes.map (·.scope)))
    (last : next? c.scopes = none) {rounds : Nat} (enough : n ≤ rounds) :
    b.run rounds = some c := by
  induction treated generalizing rounds with
  | refl =>
      cases rounds with
      | zero => rfl
      | succ rounds => rw [run, last]
  | step chosen found _ ih =>
      obtain ⟨rounds, rfl⟩ := Nat.exists_eq_add_of_lt enough
      obtain ⟨others, p, treatment, -⟩ :=
        treatment_of_outermost sound found (mem_outermost_of_next? chosen)
      rw [run, chosen]
      simp only [found, if_pos (cutsOut_of_sound sound found)]
      exact ih (treatment.sound sound) last (by omega)

end Treated

theorem exists_treated {b : Inlining} (sound : Sound b.stmts (b.scopes.map (·.scope))) :
    ∃ c, Treated (remaining b) b c ∧ next? c.scopes = none := by
  induction left : remaining b generalizing b with
  | zero =>
      refine ⟨b, .refl b, ?_⟩
      cases chosen : next? b.scopes with
      | none => rfl
      | some number =>
          have free := mem_outermost_of_next? chosen
          obtain ⟨m, found, -⟩ := mem_outermost.mp free
          obtain ⟨others, p, treatment, waits, alone⟩ := treatment_of_outermost sound found free
          have := treatment.remaining_eq waits alone
          omega
  | succ n ih =>
      cases chosen : next? b.scopes with
      | none =>
          rw [remaining, load_eq_zero ((next?_eq_none_iff sound).mp chosen)] at left
          cases left
      | some number =>
          have free := mem_outermost_of_next? chosen
          obtain ⟨m, found, -⟩ := mem_outermost.mp free
          obtain ⟨others, p, treatment, waits, alone⟩ := treatment_of_outermost sound found free
          have less := treatment.remaining_eq waits alone
          obtain ⟨c, treated, last⟩ := ih (treatment.sound sound) (by omega)
          exact ⟨c, .step chosen found treated, last⟩

theorem remaining_le_rounds (b : Body) : remaining (ofBody b) ≤ rounds b := by
  refine (remaining_le _).trans ?_
  have size : (ofBody b).scopes.length = b.scopes.length := List.length_map _
  rw [size, rounds]
  calc b.scopes.length * (b.stmts.length + 1) ^ b.scopes.length
      ≤ (b.stmts.length + b.scopes.length + 2) ^ 2 *
          (b.stmts.length + b.scopes.length + 2) ^ b.scopes.length := by
        have base := Nat.le_self_pow two_ne_zero (b.stmts.length + b.scopes.length + 2)
        exact Nat.mul_le_mul (by omega) (Nat.pow_le_pow_left (by omega) _)
    _ = (b.stmts.length + b.scopes.length + 2) ^ (b.scopes.length + 2) := by ring

theorem sound_ofBody {b : Body} (sound : Sound b.stmts b.scopes) :
    Sound (ofBody b).stmts ((ofBody b).scopes.map (·.scope)) := by
  rw [scopes_ofBody]
  exact sound

theorem run_rounds_eq {b : Body} (sound : Sound b.stmts b.scopes) :
    ∃ c, (ofBody b).run (rounds b) = some c ∧ Treated (remaining (ofBody b)) (ofBody b) c ∧
      next? c.scopes = none := by
  obtain ⟨c, treated, last⟩ := exists_treated (sound_ofBody sound)
  exact ⟨c, treated.run_eq (sound_ofBody sound) last (remaining_le_rounds b), treated, last⟩

theorem Treated.settled {n : Nat} {b : Body} {c : Inlining} (treated : Treated n (ofBody b) c)
    (sound : Sound b.stmts b.scopes) (last : next? c.scopes = none) :
    ∀ m ∈ c.scopes, ¬ Waits m :=
  (next?_eq_none_iff (treated.sound (sound_ofBody sound))).mp last

end Inlining

open Inlining

/-- Copying finally handlers ends, and leaves no finally scope that was not treated. No treatment
stops short of that: there is a scope to treat as long as a finally scope waits. -/
theorem Body.inlineFinally_settles {b : Body} (verified : b.verify = .ok ())
    (nested : ProperlyNested b.scopes) :
    ∃ n final, Treated n (ofBody b) final ∧ next? final.scopes = none ∧
      (∀ m ∈ final.scopes, m.scope.isFinally = true → m.done = true) ∧
      (∀ n' c, Treated n' (ofBody b) c → n' ≤ n ∧
        (next? c.scopes = none ↔ ∀ m ∈ c.scopes, m.scope.isFinally = true → m.done = true)) ∧
      b.inlineFinally = some
        (final.copies, { b with stmts := final.stmts, scopes := final.scopes.map (·.scope) }) := by
  have sound := (Body.verify_properlyNested.mp ⟨verified, nested⟩).1
  have ends {n' : Nat} {c : Inlining} (treated : Treated n' (ofBody b) c) :
      next? c.scopes = none ↔ ∀ m ∈ c.scopes, m.scope.isFinally = true → m.done = true := by
    rw [next?_eq_none_iff (treated.sound (sound_ofBody sound))]
    simp only [Waits, not_and', Bool.not_eq_false]
  obtain ⟨final, ran, treated, last⟩ := run_rounds_eq sound
  refine ⟨_, final, treated, last, (ends treated).mp last,
    fun n' c treated' => ⟨?_, ends treated'⟩, Body.inlineFinally_eq ran⟩
  have left := treated'.remaining_eq (sound_ofBody sound)
  omega

theorem Body.cascade_settles :
    cascade.verify = .ok () ∧ ProperlyNested cascade.scopes ∧
      ∃ n final, Treated n (ofBody cascade) final ∧ next? final.scopes = none ∧
        (∀ m ∈ final.scopes, m.scope.isFinally = true → m.done = true) ∧
        (∀ n' c, Treated n' (ofBody cascade) c → n' ≤ n ∧
          (next? c.scopes = none ↔ ∀ m ∈ c.scopes, m.scope.isFinally = true → m.done = true)) ∧
        cascade.inlineFinally = some (final.copies,
          { cascade with stmts := final.stmts, scopes := final.scopes.map (·.scope) }) :=
  have verified : cascade.verify = .ok () := rfl
  have nested : ProperlyNested cascade.scopes := by decide
  ⟨verified, nested, Body.inlineFinally_settles verified nested⟩

end Destack
