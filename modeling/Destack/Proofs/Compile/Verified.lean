import Destack.Compile.Method
import Destack.Proofs.Exit.Run
import Destack.Proofs.Layout.Regions
import Destack.Proofs.Replay.Log

namespace Destack

namespace MethodCode

def outline (s : Scope Token) : Scope Ty :=
  { kind := match s.kind with
      | .catchBlock _ => .catchBlock .object
      | .filterBlock start => .filterBlock start
      | .finallyBlock => .finallyBlock
      | .faultBlock => .faultBlock
    tryBegin := s.tryBegin
    tryEnd := s.tryEnd
    handlerBegin := s.handlerBegin
    handlerEnd := s.handlerEnd }

section Outline

variable (view : View) (s t : Scope Token)

theorem spans_typedScope : (typedScope view s).spans = (outline s).spans := by
  obtain ⟨kind, a, b, c, d⟩ := s
  cases kind <;> rfl

theorem handlerSide_typedScope : (typedScope view s).handlerSide = (outline s).handlerSide := by
  obtain ⟨kind, a, b, c, d⟩ := s
  cases kind <;> rfl

theorem hull_typedScope : (typedScope view s).hull = (outline s).hull := by
  rw [Scope.hull, handlerSide_typedScope]
  rfl

theorem side_typedScope : (typedScope view s).side = (outline s).side := by
  rw [Scope.side, handlerSide_typedScope]
  rfl

theorem nested_typedScope :
    (typedScope view s).Nested (typedScope view t) ↔ (outline s).Nested (outline t) := by
  simp only [Scope.Nested, Scope.LiesWithin, Scope.Apart, Scope.Siblings, spans_typedScope,
    hull_typedScope, side_typedScope]
  exact Iff.rfl

theorem guarded_typedScope (l : Listing) (clauses : List (Scope Token)) :
    Guarded l (clauses.map (typedScope view)) ↔ Guarded l (clauses.map outline) := by
  simp only [guarded_iff, properlyNested_iff, List.forall_mem_map, List.pairwise_map,
    spans_typedScope, handlerSide_typedScope, nested_typedScope]
  exact Iff.rfl

end Outline

def HasGuardedScopes (m : MethodCode) : Prop :=
  ∀ listing clauses, m.read = .ok (listing, clauses) → Guarded listing (clauses.map outline)

theorem sound_inlineFinally {b : Body} (sound : Sound b.stmts b.scopes) :
    ∃ count copied, b.inlineFinally = some (count, copied) ∧ Sound copied.stmts copied.scopes ∧
      copied.leavesLowered = b.leavesLowered := by
  rw [← Inlining.scopes_ofBody b] at sound
  obtain ⟨c, ran, sound⟩ := Inlining.sound_run (b := Inlining.ofBody b) (Inlining.rounds b) sound
  exact ⟨_, _, Body.inlineFinally_eq ran, sound, rfl⟩

theorem verify_of_sound {b : Body} (sound : Sound b.stmts b.scopes)
    (pending : b.leavesLowered = false) : b.verify = .ok () := by
  refine (Body.verify_properlyNested.mpr ⟨sound, fun lowered => ?_⟩).1
  rw [pending] at lowered
  cases lowered

theorem verify_lowerLeaves {b : Body} (sound : Sound b.stmts b.scopes) :
    b.lowerLeaves.2.verify = .ok () := by
  refine (Body.verify_properlyNested.mpr ⟨sound.lowered, fun _ stmt member => ?_⟩).1
  obtain ⟨original, -, rfl⟩ := List.mem_map.mp member
  exact original.isLeave_lowered

theorem settle_of_sound (o : Options) {b : Body} (sound : Sound b.stmts b.scopes)
    (pending : b.leavesLowered = false) : ∃ b', settle o b = .ok b' ∧ b'.verify = .ok () := by
  have accepted : (if o.lowerLeaves then b.lowerLeaves.2 else b).verify = .ok () := by
    cases o.lowerLeaves with
    | false => exact verify_of_sound sound pending
    | true => exact verify_lowerLeaves sound
  refine ⟨_, ?_, accepted⟩
  unfold settle
  cases o.verify with
  | false => rfl
  | true =>
      dsimp only
      rw [if_pos rfl, accepted]
      rfl

theorem finish_of_sound (o : Options) {b : Body} (sound : Sound b.stmts b.scopes)
    (pending : b.leavesLowered = false) :
    ∃ b', finish o b = some (.ok b') ∧ b'.verify = .ok () := by
  unfold finish
  cases o.inlineFinally with
  | false =>
      obtain ⟨b', settled, accepted⟩ := settle_of_sound o sound pending
      exact ⟨b', congrArg some settled, accepted⟩
  | true =>
      obtain ⟨count, copied, inlined, sound, same⟩ := sound_inlineFinally sound
      obtain ⟨b', settled, accepted⟩ := settle_of_sound o sound (same.trans pending)
      exact ⟨b', by simp [inlined, settled], accepted⟩

theorem compile_cases (m : MethodCode) (view : View) (o : Options) :
    (∃ e, (m.compile view o).1 = some (.error (.decode e))) ∨
    (∃ e, (m.compile view o).1 = some (.error (.replay e))) ∨
    ∃ listing clauses graph s b,
      m.read = .ok (listing, clauses) ∧
      Graph.build listing (clauses.map (typedScope view)) = .ok graph ∧
      Build.Finished (m.job view o listing (clauses.map (typedScope view)) graph) s ∧
      { s.layOut graph m.name (clauses.map (typedScope view)) with
        diagnostics := b.diagnostics } = b ∧
      (m.compile view o).1 = (finish o b).map (·.mapError .verify) := by
  unfold compile
  cases read : m.read with
  | error e => exact .inl ⟨e, rfl⟩
  | ok found =>
      right
      obtain ⟨listing, clauses⟩ := found
      dsimp only
      cases built : Graph.build listing (clauses.map (typedScope view)) with
      | error e => exact .inl ⟨e, rfl⟩
      | ok graph =>
          have later := Build.converge_after
            (m.job view o listing (clauses.map (typedScope view)) graph)
            ((clauses.filterMap caught?).map .type) (Build.start graph m.vars)
          dsimp only
          rw [show { Build.start graph m.vars with
              queries := (clauses.filterMap caught?).map .type } =
            (Build.start graph m.vars).after ((clauses.filterMap caught?).map .type) from
              congrArg (fun queries => { Build.start graph m.vars with queries := queries })
                (List.append_nil _).symm, later]
          cases converged : (Build.converge
              (m.job view o listing (clauses.map (typedScope view)) graph)
              (Build.start graph m.vars)).1 with
          | error e => exact .inl ⟨e, rfl⟩
          | ok count =>
              exact .inr ⟨listing, clauses, graph, _, _, rfl, built,
                Build.converge_finished built converged, rfl, rfl⟩

theorem compile_of_guarded {m : MethodCode} (guarded : m.HasGuardedScopes) (view : View)
    (o : Options) :
    ∃ result, (m.compile view o).1 = some result ∧ (∀ e, result ≠ .error (.verify e)) ∧
      ∀ b, result = .ok b → b.verify = .ok () := by
  rcases m.compile_cases view o with
    ⟨e, failed⟩ | ⟨e, failed⟩ | ⟨listing, clauses, graph, s, b, read, built, finished, laid, same⟩
  · exact ⟨_, failed, by rintro e' ⟨⟩, by rintro b ⟨⟩⟩
  · exact ⟨_, failed, by rintro e' ⟨⟩, by rintro b ⟨⟩⟩
  · have numbered : Numbered 0 listing := by
      obtain ⟨l, decoded, resolved⟩ := bind_eq_ok.mp read
      obtain ⟨scopes, -, pair⟩ := bind_eq_ok.mp resolved
      cases pair
      exact numbered_decode decoded
    have sound := Build.layOut_sound finished numbered built
      ((guarded_typedScope _ _ _).mpr (guarded listing clauses read)) m.name
    have body : Sound b.stmts b.scopes ∧ b.leavesLowered = false := by
      rw [← laid]
      exact ⟨sound, rfl⟩
    obtain ⟨b', finished, accepted⟩ := finish_of_sound o body.1 body.2
    refine ⟨.ok b', by rw [same, finished]; rfl, by rintro e ⟨⟩, ?_⟩
    rintro b ⟨⟩
    exact accepted

end MethodCode

namespace Registry

/-- The body of a method with guarded scopes passes the structural check, so the check never makes
a compilation fail. -/
theorem compile_passes_check {m : MethodCode} (guarded : m.HasGuardedScopes) (registry : Registry)
    (r : Resolver) (o : Options) :
    ∃ result, (registry.compile r o m).1 = some result ∧ (∀ e, result ≠ .error (.verify e)) ∧
      ∀ b, result = .ok b → b.verify = .ok () :=
  MethodCode.compile_of_guarded guarded (registry.view r m.generics) o

def shielded : MethodCode where
  method := { name := "Shielded", declaringType := .object, sig := ⟨false, [], .void⟩ }
  code := [0x00, 0xde, 0x08, 0x26, 0x17, 0xfe, 0x11, 0x26, 0xde, 0x01, 0xdc, 0x2a]
  clauses := [⟨.filterBlock 3, 0, 3, 7, 3⟩, ⟨.finallyBlock, 0, 10, 10, 1⟩]

theorem shielded_read :
    shielded.read = .ok
      ([⟨0, 0, 1, .nop, .none⟩, ⟨1, 1, 2, .leaveS, .target 8⟩, ⟨2, 3, 1, .pop, .none⟩,
        ⟨3, 4, 1, .ldcI4_1, .none⟩, ⟨4, 5, 2, .endfilter, .none⟩, ⟨5, 7, 1, .pop, .none⟩,
        ⟨6, 8, 2, .leaveS, .target 8⟩, ⟨7, 10, 1, .endfinally, .none⟩, ⟨8, 11, 1, .ret, .none⟩],
      [⟨.filterBlock 2, 0, 2, 5, 7⟩, ⟨.finallyBlock, 0, 7, 7, 8⟩]) := by
  decide +kernel

theorem shielded_hasGuardedScopes : shielded.HasGuardedScopes := by
  intro listing clauses read
  rw [shielded_read] at read
  cases read
  decide

theorem shielded_passes_check :
    shielded.HasGuardedScopes ∧
      ∃ result, (({} : Registry).compile ({} : Catalog).resolver {} shielded).1 = some result ∧
        (∀ e, result ≠ .error (.verify e)) ∧ ∀ b, result = .ok b → b.verify = .ok () :=
  ⟨shielded_hasGuardedScopes, compile_passes_check shielded_hasGuardedScopes {} _ {}⟩

end Registry
end Destack
