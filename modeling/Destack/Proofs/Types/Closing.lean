import Destack.Proofs.Types.FreshTokens

namespace Destack

theorem TokenMap.mem_of_get? {α : Type} {m : TokenMap α} {token : Token} {a : α}
    (held : m.get? token = some a) : (token, a) ∈ m := by
  obtain ⟨front, rest, rfl, -⟩ := List.lookup_eq_some_iff.mp held
  simp

namespace Ty

mutual
def parts : Ty → List Ty
  | .base b => [.base b]
  | .classType name ts => .classType name ts :: partsAll ts
  | .structType name ts => .structType name ts :: partsAll ts
  | .enumType name underlying ts =>
    .enumType name underlying ts :: (parts underlying ++ partsAll ts)
  | .array t => .array t :: parts t
  | .pointer t => .pointer t :: parts t
  | .byRef t => .byRef t :: parts t
  | .typeVar i => [.typeVar i]
  | .methodVar i => [.methodVar i]

def partsAll : List Ty → List Ty
  | [] => []
  | t :: ts => parts t ++ partsAll ts
end

theorem partsAll_eq (ts : List Ty) : partsAll ts = ts.flatMap parts := by
  induction ts with
  | nil => rfl
  | cons t ts ih => rw [partsAll, List.flatMap_cons, ih]

def Everywhere (P : Ty → Prop) (t : Ty) : Prop := ∀ p ∈ t.parts, P p

instance (P : Ty → Prop) [DecidablePred P] (t : Ty) : Decidable (t.Everywhere P) :=
  inferInstanceAs (Decidable (∀ p ∈ t.parts, P p))

def components : Ty → List Ty
  | .classType _ ts | .structType _ ts => ts
  | .enumType _ underlying ts => underlying :: ts
  | .array t | .pointer t | .byRef t => [t]
  | .base _ | .typeVar _ | .methodVar _ => []

theorem parts_eq (t : Ty) : t.parts = t :: t.components.flatMap parts := by
  cases t <;> simp [parts, components, partsAll_eq]

theorem everywhere_iff {P : Ty → Prop} {t : Ty} :
    t.Everywhere P ↔ P t ∧ ∀ u ∈ t.components, u.Everywhere P := by
  rw [Everywhere, parts_eq, List.forall_mem_cons, List.forall_mem_flatMap]
  rfl

def underlying? : Ty → Option Ty
  | .enumType _ u _ => some u
  | _ => none

def IsClosed (t : Ty) : Prop := t.Everywhere (·.isGenericParameter = false)

instance (t : Ty) : Decidable t.IsClosed := inferInstanceAs (Decidable (t.Everywhere _))

theorem isClosed_iff {t : Ty} :
    t.IsClosed ↔ t.isGenericParameter = false ∧ ∀ u ∈ t.components, u.IsClosed :=
  everywhere_iff

def HasClosedEnums (t : Ty) : Prop := t.Everywhere fun p => ∀ u ∈ p.underlying?, u.IsClosed

instance (t : Ty) : Decidable t.HasClosedEnums := inferInstanceAs (Decidable (t.Everywhere _))

end Ty

namespace GenericArgs

def argument? (args : GenericArgs) : Ty → Option Ty
  | .typeVar i => args.ofType[i.toNat]?
  | .methodVar i => args.ofMethod[i.toNat]?
  | _ => none

def IsClosed (args : GenericArgs) : Prop := ∀ t ∈ args.ofType ++ args.ofMethod, t.IsClosed

instance (args : GenericArgs) : Decidable args.IsClosed :=
  inferInstanceAs (Decidable (∀ t ∈ args.ofType ++ args.ofMethod, t.IsClosed))

/-- There is an argument for every generic parameter of the type. -/
def Covers (args : GenericArgs) (t : Ty) : Prop :=
  t.Everywhere fun p => p.isGenericParameter → (args.argument? p).isSome

instance (args : GenericArgs) (t : Ty) : Decidable (args.Covers t) :=
  inferInstanceAs (Decidable (t.Everywhere _))

/-- What a part of a type needs to be closed by the arguments. Only a parameter is replaced; the
type under an enumeration stays. -/
def Closes (args : GenericArgs) (p : Ty) : Prop :=
  (p.isGenericParameter → ∃ a, args.argument? p = some a ∧ a.IsClosed) ∧
    ∀ u ∈ p.underlying?, u.IsClosed

variable {args : GenericArgs} {t : Ty}

theorem IsClosed.argument (closed : args.IsClosed) {p a : Ty}
    (given : args.argument? p = some a) : a.IsClosed := by
  cases p with
  | typeVar i => exact closed a (List.mem_append_left _ (List.mem_of_getElem? given))
  | methodVar i => exact closed a (List.mem_append_right _ (List.mem_of_getElem? given))
  | _ => cases given

theorem IsClosed.closes (closed : args.IsClosed) (enums : t.HasClosedEnums)
    (covers : args.Covers t) : t.Everywhere args.Closes := by
  intro p part
  refine ⟨fun isParameter => ?_, enums p part⟩
  obtain ⟨a, given⟩ := Option.isSome_iff_exists.mp (covers p part isParameter)
  exact ⟨a, given, closed.argument given⟩

end GenericArgs

namespace Ty

variable {args : GenericArgs}

theorem isClosed_of_argument {p : Ty} (isParameter : p.isGenericParameter)
    (closes : args.Closes p) : (p.substitute args).IsClosed := by
  obtain ⟨a, given, closed⟩ := closes.1 isParameter
  cases p with
  | typeVar i | methodVar i =>
      simp only [GenericArgs.argument?] at given
      simpa only [substitute, given, Option.getD_some] using closed
  | _ => cases given

mutual
theorem isClosed_substitute :
    (t : Ty) → t.Everywhere args.Closes → (t.substitute args).IsClosed
  | .base _, _ => isClosed_iff.mpr ⟨rfl, List.forall_mem_nil _⟩
  | .typeVar _, closes => isClosed_of_argument rfl (everywhere_iff.mp closes).1
  | .methodVar _, closes => isClosed_of_argument rfl (everywhere_iff.mp closes).1
  | .array t, closes | .pointer t, closes | .byRef t, closes => by
      have inner := List.forall_mem_singleton.mp (everywhere_iff.mp closes).2
      exact isClosed_iff.mpr ⟨rfl, List.forall_mem_singleton.mpr (isClosed_substitute t inner)⟩
  | .classType _ ts, closes | .structType _ ts, closes =>
      isClosed_iff.mpr ⟨rfl, isClosed_substituteAll ts (everywhere_iff.mp closes).2⟩
  | .enumType _ u ts, closes => by
      -- the type under the enumeration is not replaced, so it has to be closed as it is
      obtain ⟨here, below⟩ := everywhere_iff.mp closes
      have inner := (List.forall_mem_cons.mp below).2
      exact isClosed_iff.mpr
        ⟨rfl, List.forall_mem_cons.mpr ⟨here.2 u rfl, isClosed_substituteAll ts inner⟩⟩

theorem isClosed_substituteAll :
    (ts : List Ty) → (∀ t ∈ ts, t.Everywhere args.Closes) →
      ∀ t ∈ substituteAll args ts, t.IsClosed
  | [], _ => by simp [substituteAll]
  | t :: ts, closes => by
      rw [List.forall_mem_cons] at closes
      rw [substituteAll, List.forall_mem_cons]
      exact ⟨isClosed_substitute t closes.1, isClosed_substituteAll ts closes.2⟩
end

end Ty

namespace Topic

def types : (topic : Topic) → topic.Answer → List Ty
  | .type, t => [t]
  | .field, f => [f.declaringType, f.type]
  | .method, m => m.declaringType :: m.sig.returnType :: m.sig.params
  | .signature, s => s.returnType :: s.params
  | .string, _ => []

def substitute (args : GenericArgs) : (topic : Topic) → topic.Answer → topic.Answer
  | .type, t => t.substitute args
  | .field, f => f.substitute args
  | .method, m => m.substitute args
  | .signature, s => s.substitute args
  | .string, s => s

theorem types_substitute (args : GenericArgs) (topic : Topic) (a : topic.Answer) :
    topic.types (topic.substitute args a) = (topic.types a).map (·.substitute args) := by
  cases topic <;> rfl

end Topic

namespace Catalog

def stored? (c : Catalog) : (topic : Topic) → Token → Option topic.Answer
  | .type => c.types.get?
  | .field => c.fields.get?
  | .method => c.methods.get?
  | .signature => c.signatures.get?
  | .string => c.strings.get?

def Holds (c : Catalog) (t : Ty) : Prop :=
  ∃ topic token a, c.stored? topic token = some a ∧ t ∈ topic.types a

section Answers

variable {c : Catalog} {args : GenericArgs} {topic : Topic} {token : Token} {a : topic.Answer}

theorem find?_eq (other : topic ≠ .signature) :
    c.resolver.find? topic args token = (c.stored? topic token).map (topic.substitute args) := by
  cases topic with
  | signature => exact absurd rfl other
  | string => exact Option.map_id'.symm
  | _ => rfl

theorem find?_signature :
    c.resolver.find? .signature args token = (c.stored? .signature token).or
      ((c.stored? .method token).map fun m => (m.substitute args).sig) :=
  rfl

theorem isClosed_types_substitute (closed : args.IsClosed)
    (enums : ∀ t, c.Holds t → t.HasClosedEnums) (covers : ∀ t, c.Holds t → args.Covers t)
    (held : c.stored? topic token = some a) :
    ∀ t ∈ topic.types (topic.substitute args a), t.IsClosed := by
  rw [Topic.types_substitute, List.forall_mem_map]
  intro t member
  have holds : c.Holds t := ⟨topic, token, a, held, member⟩
  exact t.isClosed_substitute (closed.closes (enums t holds) (covers t holds))

end Answers

/-- Arguments without generic parameters that cover those of the entries close every answer about a
type, a field or a method, and the signature of a method. A signature that a token has of its own is
given as it is stored. -/
theorem answers_isClosed {calls : List Call} {args : GenericArgs} (closed : args.IsClosed)
    (enums : ∀ t, (after calls).Holds t → t.HasClosedEnums)
    (covers : ∀ t, (after calls).Holds t → args.Covers t) (token : Token) :
    (∀ topic ≠ .signature, ∀ a, (after calls).resolver.find? topic args token = some a →
      ∀ t ∈ topic.types a, t.IsClosed) ∧
    (∀ s, (after calls).resolver.find? .signature args token = some s →
      (after calls).stored? .signature token = none → ∀ t ∈ Topic.types .signature s, t.IsClosed) ∧
    ∀ s, (after calls).stored? .signature token = some s →
      (after calls).resolver.find? .signature args token = some s := by
  refine ⟨fun topic other a found => ?_, fun s found none => ?_, fun s own => ?_⟩
  · rw [find?_eq other] at found
    obtain ⟨entry, held, rfl⟩ := Option.map_eq_some_iff.mp found
    exact isClosed_types_substitute closed enums covers held
  · rw [find?_signature, none, Option.none_or] at found
    obtain ⟨m, held, rfl⟩ := Option.map_eq_some_iff.mp found
    have all := isClosed_types_substitute closed enums covers held
    exact fun t member => all t (List.mem_cons_of_mem _ member)
  · rw [find?_signature, own, Option.some_or]

def heldTypes (c : Catalog) : List Ty :=
  c.types.flatMap (Topic.types .type ·.2) ++ c.fields.flatMap (Topic.types .field ·.2) ++
    c.methods.flatMap (Topic.types .method ·.2) ++
    c.signatures.flatMap (Topic.types .signature ·.2)

theorem Holds.mem_heldTypes {c : Catalog} {t : Ty} (holds : c.Holds t) : t ∈ c.heldTypes := by
  obtain ⟨topic, token, a, held, member⟩ := holds
  simp only [heldTypes, List.mem_append, List.mem_flatMap]
  cases topic with
  | type => exact .inl (.inl (.inl ⟨_, TokenMap.mem_of_get? held, member⟩))
  | field => exact .inl (.inl (.inr ⟨_, TokenMap.mem_of_get? held, member⟩))
  | method => exact .inl (.inr ⟨_, TokenMap.mem_of_get? held, member⟩)
  | signature => exact .inr ⟨_, TokenMap.mem_of_get? held, member⟩
  | string => cases member

def genericCalls : List Call :=
  [.add .method ⟨"Map", .classType "List" [.typeVar 0],
      ⟨true, [.classType "Func" [.typeVar 0, .methodVar 0]], .array (.methodVar 0)⟩, false⟩,
    .insertType ⟨0x1b000001⟩ (.enumType "Mode" .uint8 [.typeVar 0]),
    .add .field ⟨"items", .classType "List" [.typeVar 0], .byRef (.array (.typeVar 0)), false, none,
      false⟩]

def genericArgs : GenericArgs := { ofType := [.int64], ofMethod := [.pointer .string] }

theorem genericCalls_isClosed :
    (genericArgs.IsClosed ∧ (∀ t, (after genericCalls).Holds t → t.HasClosedEnums) ∧
      ∀ t, (after genericCalls).Holds t → genericArgs.Covers t) ∧
    ∃ s, (after genericCalls).resolver.find? .signature genericArgs ⟨0x0a000001⟩ = some s ∧
      ∀ t ∈ Topic.types .signature s, t.IsClosed := by
  have closed : genericArgs.IsClosed := by decide
  have all : ∀ t ∈ (after genericCalls).heldTypes, t.HasClosedEnums ∧ genericArgs.Covers t := by
    decide
  have enums := fun t holds => (all t (Holds.mem_heldTypes holds)).1
  have covers := fun t holds => (all t (Holds.mem_heldTypes holds)).2
  obtain ⟨-, derived, -⟩ := answers_isClosed closed enums covers ⟨0x0a000001⟩
  exact ⟨⟨closed, enums, covers⟩, _, rfl, derived _ rfl rfl⟩

/-- A signature that a token has of its own stays open, whatever the arguments. -/
theorem ownSignature_open :
    (genericArgs.IsClosed ∧
      ∀ t, (after [.insertSignature ⟨0x0a000001⟩ ⟨false, [.typeVar 0], .void⟩]).Holds t →
        t.HasClosedEnums ∧ genericArgs.Covers t) ∧
    (after [.insertSignature ⟨0x0a000001⟩ ⟨false, [.typeVar 0], .void⟩]).resolver.find? .signature
      genericArgs ⟨0x0a000001⟩ = some ⟨false, [.typeVar 0], .void⟩ ∧
    .typeVar 0 ∈ Topic.types .signature ⟨false, [.typeVar 0], .void⟩ ∧
    ¬ (Ty.typeVar 0).IsClosed := by
  refine ⟨⟨by decide, fun t holds => ?_⟩, rfl, by decide, by decide⟩
  have all : ∀ t ∈ (after [.insertSignature ⟨0x0a000001⟩ ⟨false, [.typeVar 0], .void⟩]).heldTypes,
      t.HasClosedEnums ∧ genericArgs.Covers t := by decide
  exact all t holds.mem_heldTypes

end Catalog
end Destack
