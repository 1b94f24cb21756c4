import Destack.Proofs.Exit.Relocation

namespace Destack

theorem Stmt.target?_mapTarget (f : Nat → Nat) (s : Stmt) :
    (s.mapTarget f).target? = s.target?.map f := by
  cases s <;> rfl

theorem getElem?_flatMap_piece {α β : Type} {n : Nat} {f : α → List β} {l : List α}
    (even : ∀ a ∈ l, (f a).length = n) {j k : Nat} (bound : k < n) :
    (l.flatMap f)[j * n + k]? = l[j]?.bind fun a => (f a)[k]? := by
  induction l generalizing j with
  | nil => simp
  | cons a l ih =>
      have first := even a List.mem_cons_self
      rw [List.flatMap_cons]
      cases j with
      | zero => rw [List.getElem?_append_left (by omega)]; simp
      | succ j =>
          have later := ih (j := j) fun b member => even b (List.mem_cons_of_mem a member)
          rw [List.getElem?_append_right (by rw [first, Nat.add_one_mul]; omega), first,
            show (j + 1) * n + k - n = j * n + k by rw [Nat.add_one_mul]; omega, later]
          simp

theorem length_flatMap_piece {α β : Type} {n : Nat} {f : α → List β} {l : List α}
    (even : ∀ a ∈ l, (f a).length = n) : (l.flatMap f).length = l.length * n := by
  induction l with
  | nil => simp
  | cons a l ih =>
      rw [List.flatMap_cons, List.length_append, even a List.mem_cons_self,
        ih fun b member => even b (List.mem_cons_of_mem a member), List.length_cons]
      ring

namespace Inlining

variable {stmts : List Stmt} {s : Scope Ty} {others : List Marked}

theorem getElem?_slice {r : Span} {k : Nat} (bound : k < r.length) :
    (slice stmts r)[k]? = stmts[r.first + k]? := by
  rw [slice, List.getElem?_take_of_lt bound, List.getElem?_drop]

theorem length_slice {stmts : List Stmt} {r : Span} (bound : r.last ≤ stmts.length) :
    (slice stmts r).length = r.length := by
  rw [slice, List.length_take, List.length_drop, Span.length]
  omega

theorem mem_exits {i target : Nat} :
    (i, target) ∈ exits stmts s ↔
      s.inTry i = true ∧ stmts[i]? = some (.leave target) ∧ s.inTry target = false := by
  have located (stmt : Stmt) : (stmt, i) ∈ (slice stmts s.trySpan).zipIdx s.tryBegin ↔
      s.inTry i = true ∧ stmts[i]? = some stmt := by
    rw [List.mk_mem_zipIdx_iff_le_and_getElem?_sub, Scope.inTry, Span.contains_iff]
    constructor
    · rintro ⟨starts, found⟩
      have inside : i - s.tryBegin < s.trySpan.length := by
        have := (List.getElem?_eq_some_iff.mp found).1
        rw [slice, List.length_take] at this
        omega
      rw [getElem?_slice inside, show s.trySpan.first = s.tryBegin from rfl,
        Nat.add_sub_cancel' starts] at found
      simp only [Scope.trySpan, Span.length] at inside ⊢
      exact ⟨by omega, found⟩
    · rintro ⟨⟨starts, ends⟩, found⟩
      refine ⟨starts, ?_⟩
      simp only [Scope.trySpan] at starts ends
      rw [getElem?_slice (by simp only [Scope.trySpan, Span.length]; omega),
        show s.trySpan.first = s.tryBegin from rfl, Nat.add_sub_cancel' starts]
      exact found
  unfold exits
  rw [List.mem_filterMap]
  constructor
  · rintro ⟨⟨stmt, k⟩, member, kept⟩
    cases stmt with
    | leave t =>
        simp only [Option.ite_none_left_eq_some, Option.some.injEq, Prod.mk.injEq] at kept
        obtain ⟨out, rfl, rfl⟩ := kept
        have := (located _).mp member
        exact ⟨this.1, this.2, Bool.eq_false_of_not_eq_true out⟩
    | _ => simp at kept
  · rintro ⟨inside, found, out⟩
    exact ⟨(.leave target, i), (located _).mpr ⟨inside, found⟩, by simp [out]⟩

theorem exits_nodup : ((exits stmts s).map (·.1)).Nodup := by
  have kept {l : List (Stmt × Nat)} {g : Stmt × Nat → Option (Nat × Nat)}
      (position : ∀ x y, g x = some y → y.1 = x.2) :
      ((l.filterMap g).map (·.1)).Sublist (l.map (·.2)) := by
    induction l with
    | nil => exact .slnil
    | cons x l ih =>
        cases found : g x with
        | none => simpa [List.filterMap_cons, found] using ih.cons x.2
        | some y => simpa [List.filterMap_cons, found, position x y found] using ih
  refine List.Nodup.sublist (kept ?_) ?_
  · rintro ⟨stmt, k⟩ y found
    cases stmt with
    | leave t =>
        simp only [Option.ite_none_left_eq_some, Option.some.injEq] at found
        simp [← found.2]
    | _ => simp at found
  · rw [List.zipIdx_map_snd]
    exact List.nodup_range'

variable {p : CopyPlan} {xs : List Stmt}

theorem length_redirect : (redirect p xs).length = xs.length := by
  unfold redirect
  induction p.exits.zipIdx generalizing xs with
  | nil => rfl
  | cons head tail ih => rw [List.foldl_cons, ih, List.length_set]

def overwrite (g : Nat → Stmt) (l : List ((Nat × Nat) × Nat)) (xs : List Stmt) : List Stmt :=
  l.foldl (fun xs x => xs.set x.1.1 (g x.2)) xs

theorem overwrite_other {l : List ((Nat × Nat) × Nat)} {g : Nat → Stmt} {i : Nat}
    (different : ∀ x ∈ l, x.1.1 ≠ i) (xs : List Stmt) : (overwrite g l xs)[i]? = xs[i]? := by
  induction l generalizing xs with
  | nil => rfl
  | cons head tail ih =>
      have skipped := ih (fun x member => different x (List.mem_cons_of_mem head member))
        (xs.set head.1.1 (g head.2))
      rw [List.getElem?_set_ne (different head List.mem_cons_self)] at skipped
      exact skipped

theorem overwrite_at {l : List ((Nat × Nat) × Nat)} {g : Nat → Stmt} {x : (Nat × Nat) × Nat}
    (distinct : (l.map (·.1.1)).Nodup) (member : x ∈ l) (bound : x.1.1 < xs.length) :
    (overwrite g l xs)[x.1.1]? = some (g x.2) := by
  induction l generalizing xs with
  | nil => cases member
  | cons head tail ih =>
      rw [List.map_cons, List.nodup_cons] at distinct
      rcases List.mem_cons.mp member with rfl | later
      · have skipped := overwrite_other (g := g) (i := x.1.1)
          (fun y inTail same => distinct.1 (List.mem_map.mpr ⟨y, inTail, same⟩))
          (xs.set x.1.1 (g x.2))
        rw [List.getElem?_set_self bound] at skipped
        exact skipped
      · exact ih distinct.2 later (by simpa using bound)

theorem redirect_other {i : Nat} (different : ∀ x ∈ p.exits, x.1 ≠ i) :
    (redirect p xs)[i]? = xs[i]? :=
  overwrite_other (g := fun e => .leave (p.copyStart e)) (l := p.exits.zipIdx)
    (fun x member => different x.1 (List.fst_mem_of_mem_zipIdx member)) xs

theorem redirect_exit (distinct : (p.exits.map (·.1)).Nodup) {i target exit : Nat}
    (found : p.exits[exit]? = some (i, target)) (bound : i < xs.length) :
    (redirect p xs)[i]? = some (.leave (p.copyStart exit)) := by
  have positions : p.exits.zipIdx.map (·.1.1) = p.exits.map (·.1) := by
    conv_rhs => rw [← List.zipIdx_map_fst 0 p.exits, List.map_map]
    rfl
  exact overwrite_at (g := fun e => .leave (p.copyStart e)) (x := ((i, target), exit))
    (by rw [positions]; exact distinct) (List.mk_mem_zipIdx_iff_getElem?.mpr found) bound

def spliced (p : CopyPlan) (stmts : List Stmt) : List Stmt :=
  let moved := stmts.map (·.mapTarget p.shift)
  let inserted := p.exits.zipIdx.flatMap fun x => p.copy (slice stmts p.handler) x.2 x.1.2
  redirect p (moved.take p.place ++ inserted ++ moved.drop p.place)

end Inlining

open Inlining

/-- The plan is the one for its scope, whose regions are in the body. -/
structure CopyPlan.Fits (p : CopyPlan) (stmts : List Stmt) (others : List Marked) : Prop where
  tried : p.scope.tryEnd ≤ stmts.length
  ordered : p.scope.handlerBegin ≤ p.scope.handlerEnd
  bounded : p.scope.handlerEnd ≤ stmts.length
  planned : p = plan stmts p.scope others

structure CopyPlan.Plans (p : CopyPlan) (stmts : List Stmt) (others : List Marked) : Prop
    extends p.Fits stmts others where
  ready : p.Ready

def CopyPlan.ends (p : CopyPlan) (others : List Marked) (stmt : Stmt) (i : Nat) : Bool :=
  stmt = .endFinally && !inInnerHandler others p.handler i

namespace CopyPlan.Fits

variable {p : CopyPlan} {stmts : List Stmt} {others : List Marked}

theorem place_le (fits : p.Fits stmts others) : p.place ≤ stmts.length :=
  max_le fits.tried fits.bounded

theorem mem_exits (fits : p.Fits stmts others) {i target : Nat} :
    (i, target) ∈ p.exits ↔ p.scope.inTry i = true ∧ stmts[i]? = some (.leave target) ∧
      p.scope.inTry target = false := by
  rw [fits.planned]
  exact Inlining.mem_exits

theorem exits_nodup (fits : p.Fits stmts others) : (p.exits.map (·.1)).Nodup := by
  rw [fits.planned]
  exact Inlining.exits_nodup

theorem exit_lt_place (fits : p.Fits stmts others) {i target : Nat}
    (exit : (i, target) ∈ p.exits) : i < p.place := by
  have inside := (fits.mem_exits.mp exit).1
  rw [Scope.inTry, Span.contains_iff] at inside
  exact inside.2.trans_le (le_max_left _ _)

theorem copy_getElem? (fits : p.Fits stmts others) {exit target k : Nat}
    (bound : k < p.handler.length) :
    (p.copy (slice stmts p.handler) exit target)[k]? =
      stmts[p.handler.first + k]?.map fun stmt =>
        if p.ends others stmt (p.handler.first + k) then .goto (p.shift target)
        else stmt.mapTarget (p.copyTarget (p.copyStart exit)) := by
  have owned : p.owned[k]? = stmts[p.handler.first + k]?.map fun stmt =>
      p.ends others stmt (p.handler.first + k) := by
    have field : p.owned = ((slice stmts p.handler).zipIdx p.handler.first).map fun entry =>
        p.ends others entry.1 entry.2 := by
      conv_lhs => rw [fits.planned]
      rfl
    rw [field, List.getElem?_map, List.getElem?_zipIdx, getElem?_slice bound, Option.map_map]
    rfl
  unfold CopyPlan.copy
  rw [List.getElem?_map, List.zip, List.getElem?_zipWith, getElem?_slice bound, owned]
  cases stmts[p.handler.first + k]? <;> rfl

theorem length_copy (fits : p.Fits stmts others) {exit target : Nat} :
    (p.copy (slice stmts p.handler) exit target).length = p.handler.length := by
  have slice : (slice stmts p.handler).length = p.handler.length := length_slice fits.bounded
  have owned : p.owned.length = p.handler.length := by
    conv_lhs => rw [fits.planned]
    simp only [plan, List.length_map, List.length_zipIdx]
    exact slice
  rw [copy, List.length_map, List.length_zip, slice, owned, min_self]

theorem length_inserted (fits : p.Fits stmts others) :
    (p.exits.zipIdx.flatMap fun x => p.copy (slice stmts p.handler) x.2 x.1.2).length =
      p.growth := by
  rw [length_flatMap_piece fun _ _ => fits.length_copy, List.length_zipIdx]
  rfl

theorem length_spliced (fits : p.Fits stmts others) :
    (spliced p stmts).length = stmts.length + p.growth := by
  have := fits.place_le
  rw [spliced, length_redirect, List.length_append, List.length_append, fits.length_inserted,
    List.length_take, List.length_drop, List.length_map]
  omega

theorem getElem?_inserted (fits : p.Fits stmts others) (moved : List Stmt)
    (length : moved.length = stmts.length) {exit k : Nat} (bound : exit < p.exits.length)
    (inside : k < p.handler.length) :
    (moved.take p.place ++
      (p.exits.zipIdx.flatMap fun x => p.copy (slice stmts p.handler) x.2 x.1.2) ++
      moved.drop p.place)[p.copyStart exit + k]? =
      p.exits[exit]?.bind fun x => (p.copy (slice stmts p.handler) exit x.2)[k]? := by
  have place := fits.place_le
  have inSpan := Span.within_iff.mp (p.copySpan_within bound)
  simp only [copySpan, copies, copyStart_succ] at inSpan
  have taken : (moved.take p.place).length = p.place := by
    rw [List.length_take, length]
    omega
  rw [List.append_assoc, List.getElem?_append_right (by omega), taken,
    List.getElem?_append_left (by rw [fits.length_inserted]; omega)]
  have split : p.copyStart exit + k - p.place = exit * p.handler.length + k := by
    rw [copyStart]
    omega
  rw [split, getElem?_flatMap_piece (fun _ _ => fits.length_copy) inside, List.getElem?_zipIdx,
    Option.bind_map]
  simp

theorem spliced_moved (fits : p.Fits stmts others) {i : Nat}
    (stays : ∀ target, (i, target) ∉ p.exits) :
    (spliced p stmts)[p.shift i]? = stmts[i]?.map (·.mapTarget p.shift) := by
  have place := fits.place_le
  have different : ∀ x ∈ p.exits, x.1 ≠ p.shift i := by
    rintro ⟨l, target⟩ exit same
    have before := fits.exit_lt_place exit
    have : l = i := by
      simp only at same
      unfold CopyPlan.shift at same
      split at same <;> omega
    exact stays target (this ▸ exit)
  rw [spliced, redirect_other different]
  have taken : ((stmts.map (·.mapTarget p.shift)).take p.place).length = p.place := by
    rw [List.length_take, List.length_map]
    omega
  by_cases before : i < p.place
  · rw [shift_of_lt before, List.append_assoc, List.getElem?_append_left (by omega),
      List.getElem?_take_of_lt before, List.getElem?_map]
  · rw [shift_of_le (by omega), List.getElem?_append_right, List.length_append, taken,
      fits.length_inserted, List.getElem?_drop, List.getElem?_map,
      show p.place + (i + p.growth - (p.place + p.growth)) = i by omega]
    rw [List.length_append, taken, fits.length_inserted]
    omega

theorem spliced_exit (fits : p.Fits stmts others) {i target exit : Nat}
    (found : p.exits[exit]? = some (i, target)) :
    (spliced p stmts)[i]? = some (.leave (p.copyStart exit)) := by
  have before := fits.exit_lt_place (List.mem_of_getElem? found)
  have place := fits.place_le
  refine redirect_exit fits.exits_nodup found ?_
  simp only [List.length_append, List.length_take, List.length_map]
  omega

theorem spliced_copyStart (fits : p.Fits stmts others) {l target exit k : Nat}
    (found : p.exits[exit]? = some (l, target)) (inside : k < p.handler.length) :
    (spliced p stmts)[p.copyStart exit + k]? = stmts[p.handler.first + k]?.map fun stmt =>
      if p.ends others stmt (p.handler.first + k) then .goto (p.shift target)
      else stmt.mapTarget (p.copyTarget (p.copyStart exit)) := by
  have bound := (List.getElem?_eq_some_iff.mp found).1
  have different : ∀ x ∈ p.exits, x.1 ≠ p.copyStart exit + k := by
    rintro ⟨l, target⟩ leaves
    have before := fits.exit_lt_place leaves
    have starts : p.place ≤ p.copyStart exit := Nat.le_add_right _ _
    simp only [ne_eq]
    omega
  rw [spliced, redirect_other different, fits.getElem?_inserted _ (List.length_map _) bound inside,
    found, Option.bind_some, fits.copy_getElem? inside]

end CopyPlan.Fits

namespace CopyPlan.Plans

variable {p : CopyPlan} {stmts : List Stmt} {others : List Marked}

theorem of_ready (ready : p.Ready) (bounded : p.scope.handlerEnd ≤ stmts.length)
    (planned : p = plan stmts p.scope others) : p.Plans stmts others where
  tried := (ready.bounds.2.1.trans ready.laid.handlerBegin_lt.le).trans bounded
  ordered := ready.laid.handlerBegin_lt.le
  bounded := bounded
  planned := planned
  ready := ready

theorem add_offset (ready : p.Ready) {exit i : Nat} (starts : p.handler.first ≤ i) :
    i + p.offset exit = p.copyStart exit + (i - p.handler.first) := by
  have start := handler_add_offset ready exit
  change p.handler.first + p.offset exit = p.copyStart exit at start
  omega

theorem spliced_copy (plans : p.Plans stmts others) {l target exit i : Nat}
    (found : p.exits[exit]? = some (l, target)) (inside : p.handler.contains i = true) :
    (spliced p stmts)[i + p.offset exit]? = stmts[i]?.map fun stmt =>
      if p.ends others stmt i then .goto (p.shift target)
      else stmt.mapTarget (p.copyTarget (p.copyStart exit)) := by
  have bounds := Span.contains_iff.mp inside
  have copy := plans.spliced_copyStart found (k := i - p.handler.first)
    (by rw [Span.length]; omega)
  rw [Nat.add_sub_cancel' bounds.1] at copy
  rw [add_offset plans.ready bounds.1]
  exact copy

theorem copyTarget_eq (ready : p.Ready) {exit target : Nat} :
    p.copyTarget (p.copyStart exit) target =
      if p.handler.contains target then target + p.offset exit else p.shift target := by
  unfold copyTarget
  split
  · rename_i inside
    rw [add_offset ready (Span.contains_iff.mp inside).1, Nat.add_comm]
  · rfl

theorem position_cases (plans : p.Plans stmts others) (k : Nat) :
    (∃ i, k = p.shift i) ∨
      ∃ exit i, exit < p.exits.length ∧ p.handler.contains i = true ∧ k = i + p.offset exit := by
  refine (p.shift_or_copy k).imp_right ?_
  rintro ⟨exit, j, bound, inside, rfl⟩
  refine ⟨exit, p.handler.first + j, bound, ?_, ?_⟩
  · rw [Span.contains_iff]
    rw [Span.length] at inside
    omega
  · rw [add_offset plans.ready (Nat.le_add_right _ _), Nat.add_sub_cancel_left]

end CopyPlan.Plans
end Destack
