import Destack.Proofs.Types.Widening

/-!
# Joins of types

What a join of two types can be, and which laws of a join hold. `Ty.join` is idempotent and
commutative. It absorbs all but different pointers, and it is associative but where one way of
joining three types ends at the unknown type and the other does not (`Ty.Torn`). Joins that end at
a known type are least upper bounds, so they depend only on which types are joined.
-/

namespace Destack
namespace Ty

/-! ## Stack types -/

def Refers (t : Ty) : Prop := t.isReference ∨ t.isPointer

instance (t : Ty) : Decidable t.Refers := inferInstanceAs (Decidable (_ ∨ _))

theorem stackType_of_isReference {t : Ty} (reference : t.isReference) : t.stackType = t :=
  stackType_of_reference (by rw [reference, Bool.true_or])

theorem stackType_of_isPointer {t : Ty} (pointer : t.isPointer) : t.stackType = t :=
  stackType_of_reference (by rw [pointer, Bool.or_true])

theorem isReference_apart {t : Ty} (reference : t.isReference) :
    t.isPointer = false ∧ t.isInteger = false := by
  cases t with
  | base b => cases b <;> first | exact ⟨rfl, rfl⟩ | cases reference
  | pointer | byRef => cases reference
  | _ => exact ⟨rfl, rfl⟩

theorem isPointer_apart {t : Ty} (pointer : t.isPointer) : t.isInteger = false := by
  cases t with
  | base b => cases pointer
  | _ => rfl

theorem isInteger_stackType {t : Ty} : t.stackType.isInteger ↔
    t.stackType = int32 ∨ t.stackType = int64 ∨ t.stackType = nativeInt := by
  fun_induction Ty.stackType t with
  | case1 b => cases b <;> decide
  | case2 name underlying args ih => exact ih
  | case3 t notBase notEnum => cases t <;> simp_all [isInteger]

theorem stack_constants :
    (unknown.stackType = unknown ∧ ¬unknown.Refers ∧ unknown.isInteger = false) ∧
    (null.stackType = null ∧ null.isReference ∧ null.isPointer = false) ∧
    (object.stackType = object ∧ object.isReference ∧ object.isPointer = false) ∧
    (nativeInt.stackType = nativeInt ∧ ¬nativeInt.Refers ∧ nativeInt.isInteger) ∧
    (¬int32.Refers ∧ int32.isInteger) ∧ ¬int64.Refers ∧ int64.isInteger := by
  decide

-- What `grind` needs to know of types; there is no arithmetic in what follows.
attribute [local grind =] stackType_stackType isInteger_stackType Refers
attribute [local grind →] stackType_of_isReference stackType_of_isPointer isReference_apart
  isPointer_apart

/-! ## Known joins -/

inductive Joins : Ty → Ty → Ty → Prop
  | same {t : Ty} (known : t ≠ unknown) : Joins t t t
  | nullRight {t : Ty} (refers : t.Refers) : Joins t null t
  | nullLeft {t : Ty} (refers : t.Refers) : Joins null t t
  | references {a b : Ty} (differ : a ≠ b) (typed : a ≠ null ∧ b ≠ null)
      (both : a.isReference ∧ b.isReference) : Joins a b object
  | pointers {a b : Ty} (differ : a ≠ b) (both : a.isPointer ∧ b.isPointer) : Joins a b nativeInt
  | stack {a b : Ty} (differ : a ≠ b) (same : a.stackType = b.stackType)
      (known : a.stackType ≠ unknown) : Joins a b a.stackType
  | native {a b : Ty} (differ : a.stackType ≠ b.stackType)
      (integers : a.stackType.isInteger ∧ b.stackType.isInteger)
      (native : a.stackType = nativeInt ∨ b.stackType = nativeInt) : Joins a b nativeInt

theorem joins_iff {a b t : Ty} : Joins a b t ↔ a.join b = t ∧ t ≠ unknown := by
  have constants := stack_constants
  constructor
  · intro joins
    cases joins with
    | same known => exact ⟨join_self _, known⟩
    | stack | native => unfold join joinStack; grind -linarith
    | _ => unfold join; grind -linarith
  · rintro ⟨rfl, known⟩
    unfold join joinStack at known ⊢
    grind -linarith [Joins]

theorem Joins.eq {a b t : Ty} (joins : Joins a b t) : a.join b = t := (joins_iff.1 joins).1

theorem Joins.known {a b t : Ty} (joins : Joins a b t) : t ≠ unknown := (joins_iff.1 joins).2

theorem Joins.ne_unknown {a b t : Ty} (joins : Joins a b t) : a.join b ≠ unknown := by
  rw [joins.eq]
  exact joins.known

theorem Joins.of_known {a b : Ty} (known : a.join b ≠ unknown) : Joins a b (a.join b) :=
  joins_iff.2 ⟨rfl, known⟩

theorem Joins.symm {a b t : Ty} (joins : Joins a b t) : Joins b a t := by
  cases joins with
  | same known => exact .same known
  | nullRight refers => exact .nullLeft refers
  | nullLeft refers => exact .nullRight refers
  | references differ typed both => exact .references differ.symm typed.symm both.symm
  | pointers differ both => exact .pointers differ.symm both.symm
  | stack differ same known =>
      rw [same] at known ⊢
      exact .stack differ.symm same.symm known
  | native differ integers native => exact .native differ.symm integers.symm native.symm

theorem join_comm (a b : Ty) : a.join b = b.join a := by
  by_cases known : a.join b = unknown
  · by_contra other
    rw [known] at other
    exact other ((Joins.of_known (Ne.symm other)).symm.eq ▸ known).symm
  · exact (Joins.of_known known).symm.eq.symm

theorem unknown_join (t : Ty) : unknown.join t = unknown := by
  unfold join
  grind -linarith

theorem join_unknown (t : Ty) : t.join unknown = unknown := by rw [join_comm, unknown_join]

theorem join_of_same_stackType {a b : Ty} (same : a.stackType = b.stackType)
    (known : a.stackType ≠ unknown) :
    a.join b ≠ unknown ∧ (a.join b).stackType = a.stackType := by
  by_cases equal : a = b
  · subst equal
    rw [join_self]
    exact ⟨by rintro rfl; exact known rfl, rfl⟩
  · have joins := Joins.stack equal same known
    rw [joins.eq]
    exact ⟨known, stackType_stackType a⟩

theorem join_of_native {a b : Ty} (integers : a.stackType.isInteger ∧ b.stackType.isInteger)
    (native : a.stackType = nativeInt ∨ b.stackType = nativeInt) :
    a.join b ≠ unknown ∧ (a.join b).stackType = nativeInt := by
  by_cases same : a.stackType = b.stackType
  · have nativeFirst : a.stackType = nativeInt := by grind -linarith
    have joined := join_of_same_stackType same (by rw [nativeFirst]; decide)
    rwa [nativeFirst] at joined
  · have joins := Joins.native same integers native
    rw [joins.eq]
    exact ⟨joins.known, rfl⟩

theorem join_join_of_native {a b c : Ty} (first : a.stackType.isInteger)
    (integers : b.stackType.isInteger ∧ c.stackType.isInteger)
    (native : b.stackType = nativeInt ∨ c.stackType = nativeInt) :
    a.join (b.join c) ≠ unknown := by
  have inner := (join_of_native integers native).2
  exact (join_of_native ⟨first, by rw [inner]; rfl⟩ (.inr inner)).1

theorem join_nativeInt {t : Ty} (integer : t.stackType.isInteger) :
    t.join nativeInt = nativeInt := by
  by_cases same : t = nativeInt
  · rw [same, join_self]
  · by_cases native : t.stackType = nativeInt
    · exact (Joins.stack same native (by rw [native]; decide)).eq.trans native
    · exact (Joins.native native ⟨integer, rfl⟩ (.inr rfl)).eq

theorem Joins.of_not_refers {a b t : Ty} (joins : Joins a b t) (plain : ¬a.Refers) :
    a.stackType = b.stackType ∨ (a.stackType.isInteger ∧ b.stackType.isInteger) ∧
      (a.stackType = nativeInt ∨ b.stackType = nativeInt) := by
  have constants := stack_constants
  cases joins <;> grind -linarith

theorem Joins.of_native {t u : Ty} (joins : Joins nativeInt t u) : t.stackType.isInteger := by
  rcases joins.of_not_refers (by decide) with same | ⟨integers, -⟩
  · rw [← same]
    rfl
  · exact integers.2

/-! ## Absorption -/

theorem join_join_self_iff (a b : Ty) :
    a.join (a.join b) = a.join b ↔ ¬(a ≠ b ∧ a.isPointer ∧ b.isPointer) := by
  have constants := stack_constants
  by_cases known : a.join b = unknown
  · rw [known, join_unknown]
    refine iff_of_true rfl ?_
    rintro ⟨differ, pointers⟩
    exact (Joins.pointers differ pointers).ne_unknown known
  · have joins := Joins.of_known known
    generalize a.join b = t at joins
    cases joins with
    | pointers differ both =>
        refine iff_of_false ?_ (fun other => other ⟨differ, both⟩)
        intro absorbed
        have again := Joins.of_known (a := a) (b := nativeInt) (by rw [absorbed]; decide)
        have integer := again.symm.of_native
        grind -linarith
    | same known => exact iff_of_true (join_self a) fun other => other.1 rfl
    | nullRight refers => exact iff_of_true (join_self a) fun other => by cases other.2.2
    | nullLeft refers =>
        exact iff_of_true (Joins.nullLeft refers).eq fun other => by cases other.2.1
    | references differ typed both =>
        refine iff_of_true ?_ (by grind -linarith)
        by_cases top : a = object
        · rw [top, join_self]
        · exact (Joins.references top ⟨typed.1, by decide⟩ ⟨both.1, rfl⟩).eq
    | stack differ same known =>
        refine iff_of_true ?_ (by grind -linarith)
        by_cases on : a = a.stackType
        · rw [← on, join_self]
        · exact (Joins.stack on (stackType_stackType a).symm known).eq
    | native differ integers native =>
        exact iff_of_true (join_nativeInt integers.1) (by grind -linarith)

/-! ## Three types -/

def Boxed (t : Ty) : Prop := t.stackType ≠ t ∧ t.stackType.Refers

instance (t : Ty) : Decidable t.Boxed := inferInstanceAs (Decidable (_ ∧ _))

/-- The ways in which the join of three types is known if the first two are joined first, and is
not if the last two are. -/
inductive Torn (a b c : Ty) : Prop
  | pointersLast (differ : b ≠ c) (pointers : b.isPointer ∧ c.isPointer) (first : a = b ∨ a = null)
  | pointersFirst (differ : a ≠ b) (pointers : a.isPointer ∧ b.isPointer)
      (last : c.stackType.isInteger)
  | integers (native : a.stackType = nativeInt)
      (sizes : b.stackType = int32 ∧ c.stackType = int64 ∨
        b.stackType = int64 ∧ c.stackType = int32)
  | boxedLast (boxed : c.Boxed) (joined : a.join b = c.stackType)
      (apart : b.stackType ≠ c.stackType)
  | boxedFirst (differ : a ≠ b) (same : a.stackType = b.stackType) (refers : a.stackType.Refers)
      (joined : a.stackType.join c ≠ unknown) (apart : (b.join c).stackType ≠ a.stackType)

theorem Joins.of_boxed {a b t : Ty} (joins : Joins a b t) (boxed : a.Boxed) :
    b.stackType = a.stackType ∧ t.stackType = a.stackType := by
  have constants := stack_constants
  obtain ⟨off, refers⟩ := boxed
  cases joins <;> grind -linarith

theorem join_of_references {a b : Ty} (first : a.isReference) (second : b.isReference) :
    (a.join b).isReference := by
  have constants := stack_constants
  unfold join
  grind -linarith

theorem torn_of_boxed {a b c : Ty} (boxed : c.Boxed) (joined : a.join b = c.stackType)
    (top : a.join (b.join c) = unknown) : Torn a b c := by
  refine .boxedLast boxed joined fun same => ?_
  have known : c.stackType ≠ unknown := by
    have constants := stack_constants
    grind -linarith [Boxed]
  have outer := Joins.of_known (joined ▸ known)
  by_cases on : b.stackType = b
  · have differ : b ≠ c := by grind -linarith [Boxed]
    have inner : b.join c = b := (Joins.stack differ same (same ▸ known)).eq.trans on
    rw [inner] at top
    exact outer.ne_unknown top
  · have like := outer.symm.of_boxed ⟨on, same ▸ boxed.2⟩
    have inner := join_of_same_stackType same (same ▸ known)
    have all := join_of_same_stackType (like.1.trans inner.2.symm) (by rw [like.1, same]; exact known)
    exact all.1 top

theorem torn_of_known {a b c : Ty} (known : (a.join b).join c ≠ unknown)
    (top : a.join (b.join c) = unknown) : Torn a b c := by
  have constants := stack_constants
  have inner : a.join b ≠ unknown := by
    intro inner
    rw [inner, unknown_join] at known
    exact known rfl
  have first := Joins.of_known inner
  have second := Joins.of_known known
  generalize a.join b = d at first second
  generalize d.join c = e at second
  cases first with
  | same known =>
      by_contra whole
      have absorbed := (join_join_self_iff a c).2 fun torn =>
        whole (.pointersLast torn.1 torn.2 (.inl rfl))
      rw [absorbed] at top
      exact second.ne_unknown top
  | nullRight refers =>
      by_cases target : c.Refers
      · rw [(Joins.nullLeft target).eq] at top
        exact absurd top second.ne_unknown
      · have alike : c.stackType = a := by cases second <;> grind -linarith
        have boxed : c.Boxed := ⟨by grind -linarith, by rwa [alike]⟩
        exact torn_of_boxed boxed ((Joins.nullRight refers).eq.trans alike.symm) top
  | nullLeft refers =>
      rw [second.eq] at top
      have lost : ¬e.Refers := fun target => (Joins.nullLeft target).ne_unknown top
      cases second with
      | pointers differ both => exact .pointersLast differ both (.inr rfl)
      | _ => grind -linarith
  | references differ typed both =>
      by_cases reference : c.isReference
      · have joined := join_of_references both.1 (join_of_references both.2 reference)
        rw [top] at joined
        cases joined
      · have alike : c.stackType = object := by cases second <;> grind -linarith
        have boxed : c.Boxed := ⟨by grind -linarith, by rw [alike]; exact .inl rfl⟩
        exact torn_of_boxed boxed ((Joins.references differ typed both).eq.trans alike.symm) top
  | pointers differ both => exact .pointersFirst differ both second.of_native
  | stack differ same known =>
      by_cases refers : a.stackType.Refers
      · refine .boxedFirst differ same refers second.ne_unknown ?_
        intro alike
        exact absurd top (join_of_same_stackType alike.symm known).1
      · by_cases alike : b.stackType = c.stackType
        · have inner := join_of_same_stackType alike (by rwa [← same])
          have outer := join_of_same_stackType (same.trans inner.2.symm) known
          exact absurd top outer.1
        · have native := second.of_not_refers refers
          rw [stackType_stackType, same] at native
          obtain ⟨integers, native⟩ := native.resolve_left alike
          exact absurd top (join_join_of_native (by rw [same]; exact integers.1) integers native)
  | native differ integers native =>
      have last := second.of_native
      by_cases joined : b.stackType = nativeInt ∨ c.stackType = nativeInt
      · exact absurd top (join_join_of_native integers.1 ⟨integers.2, last⟩ joined)
      · have nativeFirst : a.stackType = nativeInt := by grind -linarith
        by_cases same : b.stackType = c.stackType
        · have inner := join_of_same_stackType same (by grind -linarith)
          have both : a.stackType.isInteger ∧ (b.join c).stackType.isInteger := by grind -linarith
          exact absurd top (join_of_native both (.inl nativeFirst)).1
        · exact .integers nativeFirst (by grind -linarith)

theorem Torn.joins {a b c : Ty} (torn : Torn a b c) :
    (a.join b).join c ≠ unknown ∧ a.join (b.join c) = unknown := by
  have constants := stack_constants
  cases torn with
  | pointersLast differ pointers first =>
      have joined := Joins.pointers differ pointers
      have started : a.join b = b := by
        rcases first with rfl | rfl
        · exact join_self _
        · exact (Joins.nullLeft (.inr pointers.1)).eq
      rw [started, joined.eq]
      refine ⟨by decide, ?_⟩
      by_contra known
      have integer := (Joins.of_known known).symm.of_native
      grind -linarith
  | pointersFirst differ pointers last =>
      rw [(Joins.pointers differ pointers).eq]
      refine ⟨(join_of_native ⟨rfl, last⟩ (.inl rfl)).1, ?_⟩
      have inner : b.join c = unknown := by
        by_contra known
        have joined := (Joins.of_known known).symm.of_not_refers (by grind -linarith)
        grind -linarith
      rw [inner, join_unknown]
  | integers native sizes =>
      have left := join_of_native (a := a) (b := b) (by grind -linarith) (.inl native)
      refine ⟨(join_of_native (by grind -linarith) (.inl left.2)).1, ?_⟩
      have inner : b.join c = unknown := by
        by_contra known
        have joined := (Joins.of_known known).of_not_refers (by grind -linarith)
        grind -linarith
      rw [inner, join_unknown]
  | boxedLast boxed joined apart =>
      rw [joined]
      have like := join_of_same_stackType (stackType_stackType c) (by grind -linarith [Boxed])
      refine ⟨like.1, ?_⟩
      have inner : b.join c = unknown := by
        by_contra known
        exact apart ((Joins.of_known known).symm.of_boxed boxed).1
      rw [inner, join_unknown]
  | boxedFirst differ same refers joined apart =>
      rw [(Joins.stack differ same (by grind -linarith)).eq]
      refine ⟨joined, ?_⟩
      by_contra known
      have outer := Joins.of_known known
      by_cases on : a.stackType = a
      -- then the second type is the enumeration
      · have inner : b.join c ≠ unknown := by
          intro inner
          rw [inner, join_unknown] at known
          exact known rfl
        have boxed : b.Boxed := ⟨by grind -linarith, by rwa [← same]⟩
        exact apart (((Joins.of_known inner).of_boxed boxed).2.trans same.symm)
      · exact apart (outer.of_boxed ⟨on, refers⟩).1

/-! ## Upper bounds -/

def Under (s t : Ty) : Prop :=
  s = t ∨ t = unknown ∨ s = null ∧ t.Refers ∨ s.isReference ∧ t = object ∨
    (s.isPointer ∨ s.isInteger ∨ s = null) ∧ t = nativeInt

def Below (a t : Ty) : Prop := a = t ∨ Under a.stackType t

theorem Below.refl (t : Ty) : Below t t := .inl rfl

theorem Below.trans {a b c : Ty} (first : Below a b) (second : Below b c) : Below a c := by
  have constants := stack_constants
  grind -linarith [Below, Under]

theorem Below.antisymm {a b : Ty} (first : Below a b) (second : Below b a) : a = b := by
  have constants := stack_constants
  grind -linarith [Below, Under]

theorem Joins.upper {a b t : Ty} (joins : Joins a b t) : Below a t := by
  have constants := stack_constants
  cases joins <;> grind -linarith [Below, Under]

theorem Joins.least {a b t u : Ty} (joins : Joins a b t) (first : Below a u) (second : Below b u) :
    Below t u := by
  have constants := stack_constants
  cases joins <;> grind -linarith [Below, Under]

/-! ## Joins of many types -/

theorem foldl_join_unknown (types : List Ty) : types.foldl join unknown = unknown := by
  induction types with
  | nil => rfl
  | cons t types ih => rw [List.foldl_cons, unknown_join, ih]

theorem known_of_foldl_join {t : Ty} {types : List Ty} (known : types.foldl join t ≠ unknown) :
    t ≠ unknown := by
  rintro rfl
  exact known (foldl_join_unknown types)

theorem below_foldl_join {t : Ty} {types : List Ty} (known : types.foldl join t ≠ unknown) :
    ∀ u ∈ t :: types, Below u (types.foldl join t) := by
  induction types generalizing t with
  | nil => simp [Below.refl]
  | cons v types ih =>
      rw [List.foldl_cons] at known ⊢
      have joins := Joins.of_known (known_of_foldl_join known)
      have bounds := ih known
      rw [List.forall_mem_cons] at bounds
      rw [List.forall_mem_cons, List.forall_mem_cons]
      exact ⟨joins.upper.trans bounds.1, joins.symm.upper.trans bounds.1, bounds.2⟩

theorem foldl_join_below {t bound : Ty} {types : List Ty} (known : types.foldl join t ≠ unknown)
    (bounds : ∀ u ∈ t :: types, Below u bound) : Below (types.foldl join t) bound := by
  induction types generalizing t with
  | nil => exact bounds t (List.mem_singleton_self t)
  | cons v types ih =>
      rw [List.foldl_cons] at known ⊢
      rw [List.forall_mem_cons, List.forall_mem_cons] at bounds
      have joins := Joins.of_known (known_of_foldl_join known)
      exact ih known (List.forall_mem_cons.2 ⟨joins.least bounds.1 bounds.2.1, bounds.2.2⟩)

/-- Known joins of the same types are equal, in whichever order and however often each is joined. -/
theorem foldl_join_eq_of_known {t u : Ty} {ts us : List Ty} (same : ∀ v, v ∈ t :: ts ↔ v ∈ u :: us)
    (first : ts.foldl join t ≠ unknown) (second : us.foldl join u ≠ unknown) :
    ts.foldl join t = us.foldl join u :=
  Below.antisymm
    (foldl_join_below first fun v mem => below_foldl_join second v ((same v).1 mem))
    (foldl_join_below second fun v mem => below_foldl_join first v ((same v).2 mem))

theorem join_assoc_iff (a b c : Ty) :
    (a.join b).join c = a.join (b.join c) ↔ ¬(Torn a b c ∨ Torn c b a) := by
  have turned : c.join (b.join a) = (a.join b).join c := by rw [join_comm c, join_comm b]
  have turned' : (c.join b).join a = a.join (b.join c) := by rw [join_comm _ a, join_comm c]
  constructor
  · rintro same (torn | torn)
    · have joins := torn.joins
      rw [same] at joins
      exact joins.1 joins.2
    · have joins := torn.joins
      rw [turned, turned', same] at joins
      exact joins.1 joins.2
  · intro whole
    by_cases first : (a.join b).join c = unknown
    · by_contra differ
      rw [first, ← turned'] at differ
      exact whole (.inr (torn_of_known (Ne.symm differ) (turned.trans first)))
    · by_cases second : a.join (b.join c) = unknown
      · exact absurd (.inl (torn_of_known first second)) whole
      · have known : (b.join c).join a ≠ unknown := by rwa [join_comm]
        have listed : ∀ t, t ∈ [a, b, c] ↔ t ∈ [b, c, a] := by simp; tauto
        exact (foldl_join_eq_of_known listed first known).trans (join_comm (b.join c) a)

/-! ## Coherent families -/

/-- Types that join in any order: no enumeration is over a reference or a pointer type, there is
one pointer type at most, and one of the three integer types on the stack does not occur. -/
structure Coherent (family : Set Ty) : Prop where
  enums : ∀ t ∈ family, ¬t.Boxed
  pointers : ∀ a ∈ family, ∀ b ∈ family, a.isPointer → b.isPointer → a = b
  integers : ∃ size : Ty, size ∈ [int32, int64, nativeInt] ∧ ∀ t ∈ family, t.stackType ≠ size

def spanned (family : Set Ty) : Set Ty :=
  {t | t = unknown ∨ t = object ∨ ∃ a ∈ family, t = a ∨ t = a.stackType}

theorem subset_spanned (family : Set Ty) : family ⊆ spanned family :=
  fun t mem => .inr (.inr ⟨t, mem, .inl rfl⟩)

theorem Coherent.spanned {family : Set Ty} (coherent : Coherent family) :
    Coherent (spanned family) where
  enums := by
    rintro t (rfl | rfl | ⟨a, mem, rfl | rfl⟩) ⟨off, refers⟩
    · exact off rfl
    · exact off rfl
    · exact coherent.enums t mem ⟨off, refers⟩
    · exact off (stackType_stackType a)
  pointers := by
    have enums := coherent.enums
    have pointers := coherent.pointers
    have constants := stack_constants
    rintro a (rfl | rfl | ⟨x, mem, rfl | rfl⟩) b (rfl | rfl | ⟨y, mem', rfl | rfl⟩) <;>
      grind -linarith [Boxed]
  integers := by
    obtain ⟨size, listed, missing⟩ := coherent.integers
    refine ⟨size, listed, ?_⟩
    rintro t (rfl | rfl | ⟨a, mem, rfl | rfl⟩)
    · rintro rfl
      revert listed
      decide
    · rintro rfl
      revert listed
      decide
    · exact missing t mem
    · rw [stackType_stackType]
      exact missing a mem

theorem stackType_mem_spanned {family : Set Ty} {t : Ty} (mem : t ∈ Ty.spanned family) :
    t.stackType ∈ Ty.spanned family := by
  obtain rfl | rfl | ⟨a, mem, rfl | rfl⟩ := mem
  · exact .inl rfl
  · exact .inr (.inl rfl)
  · exact .inr (.inr ⟨t, mem, .inr rfl⟩)
  · rw [stackType_stackType]
    exact .inr (.inr ⟨a, mem, .inr rfl⟩)

theorem Coherent.join_mem {family : Set Ty} (coherent : Coherent family) {a b : Ty}
    (first : a ∈ Ty.spanned family) (second : b ∈ Ty.spanned family) :
    a.join b ∈ Ty.spanned family := by
  by_cases known : a.join b = unknown
  · exact .inl known
  have joins := Joins.of_known known
  generalize a.join b = t at joins
  cases joins with
  | same | nullRight => exact first
  | nullLeft => exact second
  | references => exact .inr (.inl rfl)
  | pointers differ both =>
      exact absurd (coherent.spanned.pointers a first b second both.1 both.2) differ
  | stack => exact stackType_mem_spanned first
  | native differ integers native =>
      rcases native with native | native
      · rw [← native]
        exact stackType_mem_spanned first
      · rw [← native]
        exact stackType_mem_spanned second

theorem Coherent.foldl_join_mem {family : Set Ty} (coherent : Coherent family) {t : Ty}
    {types : List Ty} (mem : ∀ u ∈ t :: types, u ∈ Ty.spanned family) :
    types.foldl join t ∈ Ty.spanned family := by
  induction types generalizing t with
  | nil => exact mem t (List.mem_singleton_self t)
  | cons v types ih =>
      rw [List.forall_mem_cons, List.forall_mem_cons] at mem
      exact ih (List.forall_mem_cons.2 ⟨coherent.join_mem mem.1 mem.2.1, mem.2.2⟩)

theorem Coherent.not_torn {family : Set Ty} (coherent : Coherent family) {a b c : Ty}
    (first : a ∈ family) (second : b ∈ family) (third : c ∈ family) : ¬Torn a b c := by
  intro torn
  cases torn with
  | pointersLast differ pointers _ =>
      exact differ (coherent.pointers b second c third pointers.1 pointers.2)
  | pointersFirst differ pointers _ =>
      exact differ (coherent.pointers a first b second pointers.1 pointers.2)
  | integers native sizes =>
      obtain ⟨size, listed, missing⟩ := coherent.integers
      have absent := missing a first
      have absent' := missing b second
      have absent'' := missing c third
      grind -linarith
  | boxedLast boxed _ _ => exact coherent.enums c third boxed
  | boxedFirst differ same refers _ _ =>
      have plain := coherent.enums a first
      have plain' := coherent.enums b second
      grind -linarith [Boxed]

theorem Coherent.join_assoc {family : Set Ty} (coherent : Coherent family) {a b c : Ty}
    (first : a ∈ family) (second : b ∈ family) (third : c ∈ family) :
    (a.join b).join c = a.join (b.join c) := by
  rw [join_assoc_iff]
  rintro (torn | torn)
  · exact coherent.not_torn first second third torn
  · exact coherent.not_torn third second first torn

theorem Coherent.join_join_self {family : Set Ty} (coherent : Coherent family) {a b : Ty}
    (first : a ∈ family) (second : b ∈ family) : a.join (a.join b) = a.join b := by
  rw [join_join_self_iff]
  rintro ⟨differ, pointers⟩
  exact differ (coherent.pointers a first b second pointers.1 pointers.2)

theorem Coherent.join_eq_of_join_join_eq {family : Set Ty} (coherent : Coherent family)
    {a b u : Ty} (first : a ∈ family) (joined : a.join b ∈ family) (bound : u ∈ family)
    (second : b ∈ family) (absorbs : (a.join b).join u = u) : a.join u = u :=
  calc a.join u = a.join ((a.join b).join u) := by rw [absorbs]
    _ = (a.join (a.join b)).join u := (coherent.join_assoc first joined bound).symm
    _ = (a.join b).join u := by rw [coherent.join_join_self first second]
    _ = u := absorbs

theorem Coherent.join_join_eq_iff {family : Set Ty} (coherent : Coherent family) {a b u : Ty}
    (first : a ∈ Ty.spanned family) (second : b ∈ Ty.spanned family)
    (bound : u ∈ Ty.spanned family) :
    (a.join b).join u = u ↔ a.join u = u ∧ b.join u = u := by
  have spans := coherent.spanned
  constructor
  · intro absorbs
    have turned : (b.join a).join u = u := by rwa [join_comm b a]
    have joined := coherent.join_mem first second
    have joined' := coherent.join_mem second first
    exact ⟨spans.join_eq_of_join_join_eq first joined bound second absorbs,
      spans.join_eq_of_join_join_eq second joined' bound first turned⟩
  · rintro ⟨absorbsFirst, absorbsSecond⟩
    rw [spans.join_assoc first second bound, absorbsSecond, absorbsFirst]

theorem Coherent.foldl_join_join_eq_iff {family : Set Ty} (coherent : Coherent family) {t u : Ty}
    {types : List Ty} (mem : ∀ v ∈ t :: types, v ∈ Ty.spanned family)
    (bound : u ∈ Ty.spanned family) :
    (types.foldl join t).join u = u ↔ ∀ v ∈ t :: types, v.join u = u := by
  induction types generalizing t with
  | nil => simp
  | cons w types ih =>
      rw [List.forall_mem_cons, List.forall_mem_cons] at mem
      have joined := coherent.join_mem mem.1 mem.2.1
      rw [List.foldl_cons, ih (List.forall_mem_cons.2 ⟨joined, mem.2.2⟩), List.forall_mem_cons,
        coherent.join_join_eq_iff mem.1 mem.2.1 bound, List.forall_mem_cons, List.forall_mem_cons,
        and_assoc]

theorem Coherent.foldl_join_eq {family : Set Ty} (coherent : Coherent family) {t u : Ty}
    {ts us : List Ty} (mem : ∀ v ∈ t :: ts, v ∈ family)
    (same : ∀ v, v ∈ t :: ts ↔ v ∈ u :: us) : ts.foldl join t = us.foldl join u := by
  have spans : ∀ v ∈ t :: ts, v ∈ Ty.spanned family := fun v listed =>
    subset_spanned family (mem v listed)
  have spans' : ∀ v ∈ u :: us, v ∈ Ty.spanned family := fun v listed =>
    spans v ((same v).2 listed)
  have bound := coherent.foldl_join_mem spans
  have bound' := coherent.foldl_join_mem spans'
  -- each of the two absorbs all types, and so the other
  have absorbs := (coherent.foldl_join_join_eq_iff spans bound).1 (join_self _)
  have absorbs' := (coherent.foldl_join_join_eq_iff spans' bound').1 (join_self _)
  calc ts.foldl join t
      = (us.foldl join u).join (ts.foldl join t) :=
        ((coherent.foldl_join_join_eq_iff spans' bound).2 fun v listed =>
          absorbs v ((same v).2 listed)).symm
    _ = (ts.foldl join t).join (us.foldl join u) := join_comm _ _
    _ = us.foldl join u :=
        (coherent.foldl_join_join_eq_iff spans bound').2 fun v listed =>
          absorbs' v ((same v).1 listed)

end Ty
end Destack
