import Destack.Bytecode.Clause
import Destack.Proofs.Bytecode.Acceptance
import Destack.Proofs.Exit.Nesting

namespace Destack

namespace Listing

def IsBoundary (l : Listing) (offset : Nat) : Prop :=
  (∃ i ∈ l, i.offset = offset) ∨ offset = l.codeSize

instance (l : Listing) (offset : Nat) : Decidable (l.IsBoundary offset) :=
  inferInstanceAs (Decidable (_ ∨ _))

def position (l : Listing) (offset : Nat) : Nat := (l.indexAt? offset).getD 0

theorem size_pos_of_ofOps {ops : List (Opcode × Operand Nat)} :
    ∀ i ∈ ofOps ops, 0 < i.size := by
  suffices every : ∀ index offset, ∀ i ∈ place index offset ops, 0 < i.size from every 0 0
  induction ops with
  | nil => simp [place]
  | cons op ops ih =>
      intro index offset
      simp only [place, List.forall_mem_cons]
      refine ⟨?_, ih _ _⟩
      unfold sizeOf
      split
      · omega
      · cases fixed : op.1.kind.size? <;> simp [Opcode.size?, fixed, op.1.length_encoding_pos]

theorem placed_ofOps (ops : List (Opcode × Operand Nat)) : Placed 0 0 (ofOps ops) := by
  suffices every : ∀ index offset, Placed index offset (place index offset ops) from every 0 0
  induction ops with
  | nil => exact fun _ _ => placed_nil
  | cons op ops ih =>
      intro index offset
      exact placed_cons.mpr ⟨rfl, rfl, ih _ _⟩

end Listing

def Listing.IsStream (l : Listing) : Prop :=
  (∃ code, decode code = .ok l) ∨ ∃ ops, l = .ofOps ops

theorem Listing.IsStream.placed {l : Listing} (stream : l.IsStream) :
    Placed 0 0 l ∧ ∀ i ∈ l, 0 < i.size := by
  rcases stream with ⟨code, read⟩ | ⟨ops, rfl⟩
  · obtain ⟨placed, positive, -⟩ := placed_decode read
    exact ⟨placed, positive⟩
  · exact ⟨placed_ofOps ops, size_pos_of_ofOps⟩

section Positions

variable {l : Listing} (placed : Placed 0 0 l) (positive : ∀ i ∈ l, 0 < i.size)
include placed positive

theorem offset_lt_codeSize {i : Instruction Nat} (member : i ∈ l) : i.offset < l.codeSize := by
  have ends := placed.nextOffset_le member
  have size := positive i member
  rw [placed.codeSize_eq]
  rw [Instruction.nextOffset] at ends
  omega

theorem indexAt?_eq_some {offset k : Nat} :
    l.indexAt? offset = some k ↔
      (∃ i, l[k]? = some i ∧ i.offset = offset) ∨ (offset = l.codeSize ∧ k = l.length) := by
  constructor
  · intro found
    unfold Listing.indexAt? at found
    split at found
    · rename_i last
      exact .inr ⟨last, (Option.some.inj found).symm⟩
    · dsimp only at found
      split at found
      · rename_i here
        cases found
        obtain ⟨i, listed, same⟩ := Option.any_eq_true _ _ |>.mp here
        exact .inl ⟨i, listed, of_decide_eq_true same⟩
      · cases found
  · rintro (⟨i, found, rfl⟩ | ⟨rfl, rfl⟩)
    · have before := offset_lt_codeSize placed positive (List.mem_of_getElem? found)
      exact indexAt?_of_getElem? (placed.rising positive) found before.ne
    · rw [Listing.indexAt?, if_pos rfl]

theorem indexAt?_eq_some_iff_extent {offset k : Nat} :
    l.indexAt? offset = some k ↔ k ≤ l.length ∧ offset = extent (l.take k) := by
  constructor
  · intro found
    rcases (indexAt?_eq_some placed positive).mp found with ⟨i, listed, rfl⟩ | ⟨rfl, rfl⟩
    · refine ⟨(List.getElem?_eq_some_iff.mp listed).1.le, ?_⟩
      rw [placed.offsets k i listed, Nat.zero_add]
    · exact ⟨le_rfl, by rw [List.take_length, placed.codeSize_eq]⟩
  · rintro ⟨within, rfl⟩
    exact placed.indexAt?_extent positive within

theorem isBoundary_iff {offset : Nat} :
    l.IsBoundary offset ↔ l.indexAt? offset = some (l.position offset) := by
  constructor
  · rintro (⟨i, member, rfl⟩ | rfl)
    · obtain ⟨k, listed⟩ := List.mem_iff_getElem?.mp member
      have found := (indexAt?_eq_some placed positive).mpr (.inl ⟨i, listed, rfl⟩)
      rw [Listing.position, found, Option.getD_some]
    · have found := (indexAt?_eq_some placed positive).mpr (.inr ⟨rfl, rfl⟩)
      rw [Listing.position, found, Option.getD_some]
  · intro found
    rcases (indexAt?_eq_some placed positive).mp found with ⟨i, listed, same⟩ | ⟨last, -⟩
    · exact .inl ⟨i, List.mem_of_getElem? listed, same⟩
    · exact .inr last

theorem position_lt_position {x y : Nat} (first : l.IsBoundary x) (second : l.IsBoundary y) :
    l.position x < l.position y ↔ x < y := by
  rw [isBoundary_iff placed positive, indexAt?_eq_some_iff_extent placed positive] at first second
  have rises : StrictMonoOn (fun k => extent (l.take k)) {k | k ≤ l.length} :=
    fun j _ k within before => extent_take_lt positive before within
  have same := rises.lt_iff_lt first.1 second.1
  rw [← first.2, ← second.2] at same
  exact same.symm

end Positions

/-- Two regions lie to each other as two others do, both for the checks that are made of them and as
sets of positions. -/
structure Span.Alike (s t u v : Span) : Prop where
  isEmpty : s.isEmpty = u.isEmpty
  within : s.within t = u.within v
  overlaps : s.overlaps t = u.overlaps v
  cross : Verify.cross s t = Verify.cross u v
  none : (∀ x, ¬ s.contains x) ↔ ∀ k, ¬ u.contains k
  subset : (∀ x, s.contains x → t.contains x) ↔ ∀ k, u.contains k → v.contains k
  common : (∃ x, s.contains x ∧ t.contains x) ↔ ∃ k, u.contains k ∧ v.contains k

namespace Span

theorem not_contains_iff {s : Span} : (∀ x, ¬ s.contains x) ↔ s.last ≤ s.first := by
  simp only [contains_iff]
  constructor
  · intro none
    by_contra some
    exact none s.first ⟨le_rfl, Nat.lt_of_not_le some⟩
  · intro none x inside
    omega

theorem subset_iff {s t : Span} :
    (∀ x, s.contains x → t.contains x) ↔
      s.last ≤ s.first ∨ (t.first ≤ s.first ∧ s.last ≤ t.last) := by
  simp only [contains_iff]
  constructor
  · intro subset
    by_contra outside
    have first := subset s.first ⟨le_rfl, by omega⟩
    have last := subset (s.last - 1) ⟨by omega, by omega⟩
    omega
  · intro inside x within
    omega

theorem common_iff {s t : Span} :
    (∃ x, s.contains x ∧ t.contains x) ↔
      s.first < s.last ∧ t.first < t.last ∧ s.first < t.last ∧ t.first < s.last := by
  simp only [contains_iff]
  constructor
  · rintro ⟨x, within, inside⟩
    omega
  · intro meet
    exact ⟨max s.first t.first, by omega, by omega⟩

theorem alike_map {f : Nat → Nat} {s t : Span}
    (order : ∀ x ∈ [s.first, s.last, t.first, t.last], ∀ y ∈ [s.first, s.last, t.first, t.last],
      (f x < f y ↔ x < y)) : s.Alike t (s.map f) (t.map f) := by
  have lt := order
  have le : ∀ x ∈ [s.first, s.last, t.first, t.last], ∀ y ∈ [s.first, s.last, t.first, t.last],
      (f x ≤ f y ↔ x ≤ y) := by
    intro x first y second
    rw [← not_lt, ← not_lt, lt y second x first]
  simp only [List.forall_mem_cons, List.not_mem_nil, IsEmpty.forall_iff, implies_true,
    and_true] at lt le
  constructor
  · simp [isEmpty, map, le]
  · simp [within, map, le]
  · simp [overlaps, map, lt]
  · simp [Verify.cross, within, overlaps, map, lt, le]
  · simp only [not_contains_iff, map, le]
  · simp only [subset_iff, map, le]
  · simp only [common_iff, map, lt]

end Span

def HandlerKind.starts {Caught : Type} : HandlerKind Caught → List Nat
  | .filterBlock start => [start]
  | _ => []

namespace Clause

def boundaries (c : Clause) : List Nat :=
  c.kind.starts ++ [c.tryOffset, c.tryEnd, c.handlerOffset, c.handlerEnd]

def inBytes (c : Clause) : Scope Token :=
  ⟨c.kind, c.tryOffset, c.tryEnd, c.handlerOffset, c.handlerEnd⟩

theorem inBytes_of_lt {c : Clause} (inTry : c.tryOffset + c.tryLength < UInt32.size)
    (inHandler : c.handlerOffset + c.handlerLength < UInt32.size) :
    c.inBytes = ⟨c.kind, c.tryOffset, c.tryOffset + c.tryLength, c.handlerOffset,
      c.handlerOffset + c.handlerLength⟩ := by
  rw [inBytes, tryEnd, handlerEnd, Nat.mod_eq_of_lt inTry, Nat.mod_eq_of_lt inHandler]

theorem resolve_eq_error {l : Listing} {c : Clause} {number : Nat} {e : DecodeError} :
    c.resolve l number = .error e ↔ c.boundaries.mapM (boundary l number) = .error e := by
  cases kind : c.kind <;>
    simp [resolve, resolveKind, kind, boundaries, HandlerKind.starts, bind_eq_error, pure,
      Except.pure]

section Resolving

variable {l : Listing} (placed : Placed 0 0 l) (positive : ∀ i ∈ l, 0 < i.size)
include placed positive

theorem boundary_eq_ok {number offset k : Nat} :
    boundary l number offset = .ok k ↔ l.IsBoundary offset ∧ k = l.position offset := by
  rw [isBoundary_iff placed positive]
  unfold boundary Listing.position
  cases l.indexAt? offset <;> simp [eq_comm]

theorem boundary_eq_error {number offset : Nat} {e : DecodeError} :
    boundary l number offset = .error e ↔
      ¬ l.IsBoundary offset ∧ e = .danglingBoundary number offset := by
  rw [isBoundary_iff placed positive]
  unfold boundary Listing.position
  cases l.indexAt? offset <;> simp [eq_comm]

theorem resolveKind_eq_ok {number : Nat} {kind found : HandlerKind Token} :
    resolveKind l number kind = .ok found ↔
      (∀ o ∈ kind.starts, l.IsBoundary o) ∧ found = kind.mapStart l.position := by
  cases kind with
  | filterBlock start =>
      rw [resolveKind, map_eq_pure_bind, bind_eq_ok]
      simp [boundary_eq_ok placed positive, HandlerKind.starts, HandlerKind.mapStart, pure,
        Except.pure, and_assoc, eq_comm]
  | _ => simp [resolveKind, HandlerKind.starts, HandlerKind.mapStart, pure, Except.pure, eq_comm]

theorem resolve_eq_ok {c : Clause} {number : Nat} {s : Scope Token} :
    c.resolve l number = .ok s ↔
      (∀ o ∈ c.boundaries, l.IsBoundary o) ∧ s = c.inBytes.mapBounds l.position := by
  simp only [resolve, bind_eq_ok, boundary_eq_ok placed positive,
    resolveKind_eq_ok placed positive, boundaries, List.forall_mem_append, List.forall_mem_cons]
  simp [inBytes, Scope.mapBounds, pure, Except.pure, and_assoc, eq_comm]

theorem resolveAll_eq_ok {clauses : List Clause} {scopes : List (Scope Token)} :
    resolveAll l clauses = .ok scopes ↔
      (∀ c ∈ clauses, ∀ o ∈ c.boundaries, l.IsBoundary o) ∧
        scopes = clauses.map fun c => c.inBytes.mapBounds l.position := by
  suffices every : ∀ n, (clauses.zipIdx n).mapM (fun p => p.1.resolve l p.2) = .ok scopes ↔
      (∀ c ∈ clauses, ∀ o ∈ c.boundaries, l.IsBoundary o) ∧
        scopes = clauses.map fun c => c.inBytes.mapBounds l.position from every 0
  induction clauses generalizing scopes with
  | nil => simp [pure, Except.pure, eq_comm]
  | cons c clauses ih =>
      intro n
      simp only [List.zipIdx_cons, List.mapM_cons, bind_eq_ok, ih, resolve_eq_ok placed positive,
        List.forall_mem_cons, List.map_cons]
      simp [pure, Except.pure, and_assoc, and_left_comm, eq_comm]

theorem resolveAll_eq_error {clauses : List Clause} {e : DecodeError} :
    resolveAll l clauses = .error e ↔
      ∃ before c after good o more, clauses = before ++ c :: after ∧
        (∀ d ∈ before, ∀ x ∈ d.boundaries, l.IsBoundary x) ∧
        c.boundaries = good ++ o :: more ∧ (∀ x ∈ good, l.IsBoundary x) ∧ ¬ l.IsBoundary o ∧
        e = .danglingBoundary before.length o := by
  have passes {number : Nat} {x : Nat} :
      (∃ k, boundary l number x = .ok k) ↔ l.IsBoundary x := by
    simp [boundary_eq_ok placed positive]
  have resolves {d : Clause} {number : Nat} :
      (∃ s, d.resolve l number = .ok s) ↔ ∀ x ∈ d.boundaries, l.IsBoundary x := by
    simp [resolve_eq_ok placed positive]
  rw [resolveAll, mapM_zipIdx_eq_error_iff]
  simp only [resolve_eq_error, mapM_eq_error_iff, resolves, passes,
    boundary_eq_error placed positive]
  constructor
  · rintro ⟨before, c, after, split, fine, good, o, more, bounds, earlier, missing, rfl⟩
    refine ⟨before, c, after, good, o, more, split, ?_, bounds, earlier, missing, rfl⟩
    intro d member
    obtain ⟨k, found⟩ := List.mem_iff_getElem?.mp member
    exact fine (d, k) (List.mk_mem_zipIdx_iff_getElem?.mpr found)
  · rintro ⟨before, c, after, good, o, more, split, fine, bounds, earlier, missing, rfl⟩
    refine ⟨before, c, after, split, ?_, good, o, more, bounds, earlier, missing, rfl⟩
    intro p member
    exact fine p.1 (List.fst_mem_of_mem_zipIdx member)

end Resolving

/-- Clauses are resolved exactly, and in order. An offset has a position if an instruction starts
there or the code ends there. Clauses are resolved if all their boundaries have positions, and
otherwise the first boundary of the first clause that has none is reported. Positions are ordered as
the boundaries are, so regions lie to each other in the list as they do in the code. -/
theorem resolveAll_exact (l : Listing) (stream : l.IsStream) (clauses : List Clause) :
    (∀ offset k, l.indexAt? offset = some k ↔
      (∃ i, l[k]? = some i ∧ i.offset = offset) ∨ (offset = l.codeSize ∧ k = l.length)) ∧
    (∀ scopes, resolveAll l clauses = .ok scopes ↔
      (∀ c ∈ clauses, ∀ o ∈ c.boundaries, l.IsBoundary o) ∧
        scopes = clauses.map fun c => c.inBytes.mapBounds l.position) ∧
    (∀ e, resolveAll l clauses = .error e ↔
      ∃ before c after good o more, clauses = before ++ c :: after ∧
        (∀ d ∈ before, ∀ x ∈ d.boundaries, l.IsBoundary x) ∧
        c.boundaries = good ++ o :: more ∧ (∀ x ∈ good, l.IsBoundary x) ∧ ¬ l.IsBoundary o ∧
        e = .danglingBoundary before.length o) ∧
    (∀ x y, l.IsBoundary x → l.IsBoundary y → (x < y ↔ l.position x < l.position y)) ∧
    (∀ s t : Span, (∀ x ∈ [s.first, s.last, t.first, t.last], l.IsBoundary x) →
      s.Alike t (s.map l.position) (t.map l.position)) ∧
    ∀ c ∈ clauses, c.tryOffset + c.tryLength < UInt32.size →
      c.handlerOffset + c.handlerLength < UInt32.size →
      c.inBytes = ⟨c.kind, c.tryOffset, c.tryOffset + c.tryLength, c.handlerOffset,
        c.handlerOffset + c.handlerLength⟩ := by
  obtain ⟨placed, positive⟩ := stream.placed
  refine ⟨fun offset k => indexAt?_eq_some placed positive,
    fun scopes => resolveAll_eq_ok placed positive, fun e => resolveAll_eq_error placed positive,
    fun x y first second => (position_lt_position placed positive first second).symm,
    fun s t bounds => Span.alike_map fun x first y second => ?_, fun c _ => inBytes_of_lt⟩
  exact position_lt_position placed positive (bounds x first) (bounds y second)

def filtered : Listing :=
  .ofOps [(.nop, .none), (.leaveS, .target 7), (.pop, .none), (.ldcI4_1, .none),
    (.endfilter, .none), (.pop, .none), (.leaveS, .target 7), (.ret, .none)]

theorem filtered_resolved :
    filtered.IsStream ∧
    resolveAll filtered [⟨.filterBlock 3, 0, 3, 7, 3⟩, ⟨.finallyBlock, 0, 10, 10, 1⟩] =
      .ok [⟨.filterBlock 2, 0, 2, 5, 7⟩, ⟨.finallyBlock, 0, 7, 7, 8⟩] ∧
    resolveAll filtered [⟨.finallyBlock, 0, 10, 10, 1⟩, ⟨.filterBlock 6, 0, 2, 7, 3⟩] =
      .error (.danglingBoundary 1 6) ∧
    (⟨0, 3⟩ : Span).Alike ⟨0, 10⟩ ⟨0, 2⟩ ⟨0, 7⟩ := by
  have stream : filtered.IsStream := .inr ⟨_, rfl⟩
  refine ⟨stream, ((resolveAll_exact _ stream _).2.1 _).mpr (by decide +kernel), ?_, ?_⟩
  · refine ((resolveAll_exact _ stream _).2.2.1 _).mpr ⟨[_], _, [], [], 6, [0, 2, 7, 10], rfl, ?_⟩
    exact ⟨by decide, rfl, by decide, by decide, rfl⟩
  · have inner : Span.map filtered.position ⟨0, 3⟩ = ⟨0, 2⟩ := by decide +kernel
    have outer : Span.map filtered.position ⟨0, 10⟩ = ⟨0, 7⟩ := by decide +kernel
    rw [← inner, ← outer]
    exact (resolveAll_exact _ stream []).2.2.2.2.1 ⟨0, 3⟩ ⟨0, 10⟩ (by decide)

end Clause

end Destack
