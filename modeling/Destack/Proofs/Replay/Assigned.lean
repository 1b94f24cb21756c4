import Destack.Proofs.Replay.Trace

namespace Destack

namespace Stmt

def defines (stmts : List Stmt) : List Value := stmts.filterMap defined?

@[simp] theorem defines_cons (s : Stmt) (stmts : List Stmt) :
    defines (s :: stmts) = s.defined?.toList ++ defines stmts := by
  cases defined : s.defined? <;> simp [defines, defined]

@[simp] theorem defines_append (front back : List Stmt) :
    defines (front ++ back) = defines front ++ defines back :=
  List.filterMap_append

theorem mem_defines {stmts : List Stmt} {v : Value} :
    v ∈ defines stmts ↔ ∃ s ∈ stmts, s.defined? = some v :=
  List.mem_filterMap

theorem defines_eq_nil {stmts : List Stmt} (none : ∀ s ∈ stmts, s.defined? = none) :
    defines stmts = [] :=
  List.filterMap_eq_nil_iff.mpr none

end Stmt

namespace Replay

theorem Usable.mono {given other : List Value} {v : Value} (usable : Usable given v)
    (within : ∀ v ∈ given, Usable other v) : Usable other v := by
  rcases usable with member | fixed
  · exact within v member
  · exact .inr fixed

theorem Usable.append_right {given : List Value} {v : Value} (usable : Usable given v)
    (more : List Value) : Usable (given ++ more) v :=
  usable.mono fun _ member => .inl (List.mem_append_left _ member)

def Reads (available : List Value) : List Stmt → Prop
  | [] => True
  | s :: rest => (∀ v ∈ s.reads, Usable available v) ∧ Reads (available ++ s.defined?.toList) rest

variable {available entry : List Value} {stmts front back : List Stmt}

theorem reads_append : Reads available (front ++ back) ↔
    Reads available front ∧ Reads (available ++ Stmt.defines front) back := by
  induction front generalizing available with
  | nil => simp [Reads, Stmt.defines]
  | cons s front ih =>
      rw [List.cons_append, Reads, Reads, ih, Stmt.defines_cons, List.append_assoc, and_assoc]

theorem reads_of_usable (usable : ∀ s ∈ stmts, ∀ v ∈ s.reads, Usable available v) :
    Reads available stmts := by
  induction stmts generalizing available with
  | nil => trivial
  | cons s stmts ih =>
      rw [List.forall_mem_cons] at usable
      exact ⟨usable.1, ih fun t member v read => (usable.2 t member v read).append_right _⟩

theorem Reads.concat (reads : Reads available stmts) {s : Stmt}
    (usable : ∀ v ∈ s.reads, Usable (available ++ Stmt.defines stmts) v) :
    Reads available (stmts ++ [s]) :=
  reads_append.mpr ⟨reads, usable, trivial⟩

theorem Reads.usable (reads : Reads available stmts) {k : Nat} {s : Stmt}
    (found : stmts[k]? = some s) {v : Value} (read : v ∈ s.reads) :
    Usable (available ++ Stmt.defines (stmts.take k)) v := by
  obtain ⟨within, rfl⟩ := List.getElem?_eq_some_iff.mp found
  rw [← List.take_append_drop k stmts, List.drop_eq_getElem_cons within, reads_append] at reads
  exact reads.2.1 v read

theorem Reads.usable_of_defines_eq_nil (reads : Reads available stmts)
    (none : Stmt.defines stmts = []) : ∀ s ∈ stmts, ∀ v ∈ s.reads, Usable available v := by
  induction stmts with
  | nil => simp
  | cons s stmts ih =>
      rw [Stmt.defines_cons, List.append_eq_nil_iff] at none
      rw [Reads, none.1, List.append_nil] at reads
      exact List.forall_mem_cons.mpr ⟨reads.1, ih reads.2 none.2⟩

structure Assigned (entry hand : List Value) (stmts : List Stmt) (stack : List Value) : Prop where
  reads : Reads entry stmts
  hand : ∀ v ∈ hand, Usable (entry ++ Stmt.defines stmts) v
  stack : ∀ v ∈ stack, Usable (entry ++ Stmt.defines stmts) v

namespace Assigned

variable {hand stack : List Value}

theorem usable (assigned : Assigned entry hand stmts stack) {v : Value} (usable : Usable hand v) :
    Usable (entry ++ Stmt.defines stmts) v :=
  usable.mono assigned.hand

theorem emit (assigned : Assigned entry hand stmts stack) {s : Stmt}
    (usable : ∀ v ∈ s.reads, Usable hand v) :
    Assigned entry (s.defined?.toList ++ hand) (stmts ++ [s]) stack := by
  have more (v : Value) (before : Usable (entry ++ Stmt.defines stmts) v) :
      Usable (entry ++ Stmt.defines (stmts ++ [s])) v := by
    rw [Stmt.defines_append, ← List.append_assoc]
    exact before.append_right _
  constructor
  · exact assigned.reads.concat fun v read => assigned.usable (usable v read)
  · intro v member
    rcases List.mem_append.mp member with defined | member
    · exact .inl (by simp [Option.mem_toList.mp defined])
    · exact more v (assigned.hand v member)
  · exact fun v member => more v (assigned.stack v member)

theorem set (assigned : Assigned entry hand stmts stack) {v : Value} {e : Expr}
    (usable : ∀ u ∈ e.reads, Usable hand u) :
    Assigned entry (v :: hand) (stmts ++ [.set v e]) stack :=
  assigned.emit (s := .set v e) usable

theorem restrict {other : List Value} (assigned : Assigned entry hand stmts stack)
    (within : other ⊆ hand) : Assigned entry other stmts stack :=
  ⟨assigned.reads, fun v member => assigned.hand v (within member), assigned.stack⟩

theorem emitAll (assigned : Assigned entry hand stmts stack) {more : List Stmt}
    (usable : ∀ s ∈ more, ∀ v ∈ s.reads, Usable hand v) :
    Assigned entry hand (stmts ++ more) stack := by
  induction more using List.reverseRecOn with
  | nil => simpa using assigned
  | append_singleton more s ih =>
      rw [List.forall_mem_append, List.forall_mem_singleton] at usable
      rw [← List.append_assoc]
      exact ((ih usable.1).emit usable.2).restrict (List.subset_append_right _ _)

end Assigned

theorem reached_assigned {start p : Progress} {hand : List Value} {s : Shape}
    (reached : Reached start hand s p) (assigned : Assigned entry [] start.stmts start.stack) :
    Assigned entry hand p.stmts p.stack := by
  induction reached with
  | begin => exact assigned
  | regard reached usable ih =>
      refine ⟨ih.reads, fun v member => ?_, ih.stack⟩
      apply (usable v member).mono
      intro u held
      exact (List.mem_append.mp held).elim (ih.hand u) (ih.stack u)
  | take reached stack ih =>
      rw [stack] at ih
      exact ⟨ih.reads, ih.hand, fun v member => ih.stack v (List.mem_append_right _ member)⟩
  | put reached usable apart ih =>
      exact ⟨ih.reads, ih.hand, List.forall_mem_cons.mpr ⟨ih.usable usable, ih.stack⟩⟩
  | double reached stack ih =>
      refine ⟨ih.reads, ih.hand, List.forall_mem_cons.mpr ⟨ih.stack _ ?_, ih.stack⟩⟩
      rw [stack]
      exact List.mem_cons_self
  | clear reached ih => exact ⟨ih.reads, ih.hand, by simp⟩
  | define reached usable made ih =>
      obtain ⟨stack, stmts⟩ := temp_leaves made
      rw [← stack, ← stmts] at ih
      exact ih.set usable
  | @spill hand k n p q v id reached declared held made ih =>
      obtain ⟨stack, stmts⟩ := temp_leaves made
      rw [← stack, ← stmts] at ih
      have copied : Assigned entry (.temp id :: hand) (q.stmts ++ [.set (.temp id) (.value v)])
          q.stack := by
        apply ih.set
        intro u read
        obtain rfl := List.mem_singleton.mp read
        exact usable_declared hand declared
      refine ⟨copied.reads, (copied.restrict (List.subset_cons_self _ _)).hand, fun u member => ?_⟩
      obtain ⟨w, there, same⟩ := List.mem_map.mp member
      split at same
      · exact copied.hand u (same ▸ List.mem_cons_self)
      · exact copied.stack u (same ▸ there)
  | overwrite reached declared gone usable ih =>
      exact (ih.set usable).restrict (List.subset_cons_self _ _)
  | effects reached effects usable ih => exact ih.emitAll usable
  | leave reached ends usable ih => exact ih.emitAll (by simpa using usable)
  | remark reached diagnostics queries ih => exact ih
  | forget reached ih => exact ih
  | depart reached ih => exact ih

end Replay

open Replay

/-- A block reads nothing but what it is entered with and what it has assigned to, and leaves
nothing else on the stack. -/
theorem replayBlock_assigned {cx : Context} {l : Listing} {b : Block} {entry : List Value}
    {s t : Shared} {output : BlockOutput}
    (ran : replayBlock cx l b entry s = (.ok output, t)) :
    Assigned entry [] output.stmts output.exitStack := by
  obtain ⟨p, assigned, rfl, -⟩ := replayBlock_invariant
    (P := fun p => Assigned entry [] p.stmts p.stack)
    (fun shape p q before reached => reached_assigned reached before) ran
    ⟨trivial, by simp, fun v member => .inl (List.mem_append_left _ (List.mem_reverse.mp member))⟩
  exact ⟨assigned.reads, assigned.hand, fun v member =>
    assigned.stack v (List.mem_reverse.mp member)⟩

end Destack
