import Destack.Proofs.Types.WriteOnce

namespace Destack

namespace TokenMap

variable {α : Type} {m : TokenMap α} {token other : Token} {a : α}

theorem get?_insert :
    (m.insert token a).get? other = if other = token then some a else m.get? other := by
  simp only [get?, insert, List.lookup_cons]
  by_cases same : other = token
  · simp [same]
  · simp [same, beq_false_of_ne same]

theorem isSome_get?_insert :
    ((m.insert token a).get? other).isSome ↔ (m.get? other).isSome ∨ token = other := by
  rw [get?_insert]
  split
  · simp_all
  · rename_i differs
    simp [Ne.symm differs]

end TokenMap

theorem Token.toNat_row_ofRow (table : UInt8) (row : UInt32) :
    (Token.ofRow table row).row.toNat = row.toNat % 2 ^ 24 := by
  have mask : (0xffffff : UInt32).toNat = 2 ^ 24 - 1 := rfl
  have high : table.toUInt32.toNat <<< (UInt32.toNat 24 % 32) % 2 ^ 32 % 2 ^ 24 = 0 := by
    have shift : UInt32.toNat 24 % 32 = 24 := rfl
    rw [shift, Nat.shiftLeft_eq, Nat.mod_mod_of_dvd _ (by decide), Nat.mul_mod_left]
  simp only [Token.row, Token.ofRow, UInt32.toNat_and, UInt32.toNat_or, UInt32.toNat_shiftLeft, mask,
    Nat.and_two_pow_sub_one_eq_mod, Nat.or_mod_two_pow, high, Nat.zero_or, Nat.mod_mod]

namespace Catalog

theorem rowToken_inj {table : UInt8} {row other : Nat} (small : row < 2 ^ 24)
    (small' : other < 2 ^ 24) (same : rowToken table row = rowToken table other) : row = other := by
  have rows := congrArg (fun token => token.row.toNat) same
  simp only [rowToken, Token.toNat_row_ofRow, UInt32.toNat_ofNat'] at rows
  omega

end Catalog

def Kind.table : Kind → UInt8
  | .type => Token.typeReferences
  | .field => Token.fields
  | .method => Token.memberReferences
  | .string => Token.userStrings

namespace Catalog

def entries (c : Catalog) : (k : Kind) → TokenMap k.Value
  | .type => c.types
  | .field => c.fields
  | .method => c.methods
  | .string => c.strings

def rows (c : Catalog) : Kind → Nat
  | .type => c.typeRows
  | .field => c.fieldRows
  | .method => c.methodRows
  | .string => c.stringRows

def add (c : Catalog) : (k : Kind) → k.Value → Token × Catalog
  | .type, t => c.addType t
  | .field, f => c.addField f
  | .method, m => c.addMethod m
  | .string, s => c.addString s

inductive Call
  | add (kind : Kind) (value : kind.Value)
  | insertType (token : Token) (t : Ty)
  | insertField (token : Token) (f : Field)
  | insertMethod (token : Token) (m : Method)
  | insertSignature (token : Token) (s : Signature)

namespace Call

def run (c : Catalog) : Call → Catalog
  | .add k value => (c.add k value).2
  | .insertType token t => c.insertType token t
  | .insertField token f => c.insertField token f
  | .insertMethod token m => c.insertMethod token m
  | .insertSignature token s => c.insertSignature token s

def adds? : Call → Option Kind
  | .add k _ => some k
  | _ => none

def inserts? : Call → Option (Kind × Token)
  | .insertType token _ => some (.type, token)
  | .insertField token _ => some (.field, token)
  | .insertMethod token _ => some (.method, token)
  | .add .. | .insertSignature .. => none

end Call

def after (calls : List Call) : Catalog := calls.foldl Call.run {}

theorem after_concat (calls : List Call) (call : Call) :
    after (calls ++ [call]) = call.run (after calls) := by
  simp [after]

def additions (k : Kind) (calls : List Call) : Nat := calls.countP (·.adds? = some k)

/-- Whether something of the kind is stored under the token. -/
def Binds (c : Catalog) (k : Kind) (token : Token) : Prop := ((c.entries k).get? token).isSome

instance (c : Catalog) (k : Kind) (token : Token) : Decidable (c.Binds k token) :=
  inferInstanceAs (Decidable (_ = true))

section Steps

variable (c : Catalog) {k other : Kind} (value : k.Value) {token : Token}

theorem add_token : (c.add k value).1 = rowToken k.table (c.rows k + 1) := by
  cases k <;> rfl

theorem entries_add_self :
    (c.add k value).2.entries k = (c.entries k).insert (c.add k value).1 value := by
  cases k <;> rfl

theorem entries_add_of_ne (differs : other ≠ k) :
    (c.add k value).2.entries other = c.entries other := by
  cases k <;> cases other <;> first | rfl | exact absurd rfl differs

theorem signatures_add : (c.add k value).2.signatures = c.signatures := by
  cases k <;> rfl

theorem rows_run (call : Call) :
    (call.run c).rows k = c.rows k + if call.adds? = some k then 1 else 0 := by
  cases call with
  | add kind value => cases kind <;> cases k <;> rfl
  | _ => cases k <;> rfl

theorem binds_add :
    (c.add k value).2.Binds other token ↔
      c.Binds other token ∨ other = k ∧ token = rowToken k.table (c.rows k + 1) := by
  by_cases same : other = k
  · subst same
    simp only [Binds, entries_add_self, TokenMap.isSome_get?_insert, add_token, true_and]
    rw [eq_comm (a := token)]
  · simp [Binds, entries_add_of_ne c value same, same]

theorem binds_run (call : Call) :
    (call.run c).Binds k token ↔ c.Binds k token ∨ call.inserts? = some (k, token) ∨
      call.adds? = some k ∧ token = rowToken k.table (c.rows k + 1) := by
  cases call with
  | add kind value =>
      simp only [Call.run, binds_add, Call.inserts?, Call.adds?]
      by_cases same : k = kind
      · simp [same]
      · simp [same, Ne.symm same]
  | insertType | insertField | insertMethod =>
      cases k <;> simp [Call.run, insertType, insertField, insertMethod, Binds, entries,
        TokenMap.isSome_get?_insert, Call.inserts?, Call.adds?]
  | insertSignature =>
      cases k <;> simp [Call.run, insertSignature, Binds, entries, Call.inserts?, Call.adds?]

end Steps

theorem additions_concat (k : Kind) (calls : List Call) (call : Call) :
    additions k (calls ++ [call]) = additions k calls + if call.adds? = some k then 1 else 0 := by
  simp [additions, List.countP_append, List.countP_cons]

theorem rows_after (k : Kind) (calls : List Call) : (after calls).rows k = additions k calls := by
  induction calls using List.reverseRecOn with
  | nil => cases k <;> rfl
  | append_singleton calls call ih => rw [after_concat, rows_run, additions_concat, ih]

theorem binds_after {k : Kind} {token : Token} {calls : List Call} :
    (after calls).Binds k token ↔ (∃ call ∈ calls, call.inserts? = some (k, token)) ∨
      ∃ row < additions k calls, token = rowToken k.table (row + 1) := by
  induction calls using List.reverseRecOn with
  | nil => cases k <;> simp [after, Binds, entries, additions, TokenMap.get?]
  | append_singleton calls call ih =>
      have chosen : (∃ c ∈ calls ++ [call], c.inserts? = some (k, token)) ↔
          (∃ c ∈ calls, c.inserts? = some (k, token)) ∨ call.inserts? = some (k, token) := by
        simp [or_and_right, exists_or]
      rw [after_concat, binds_run, ih, rows_after, additions_concat, chosen]
      by_cases adds : call.adds? = some k
      · simp only [adds, if_true, Nat.exists_lt_succ_right, true_and]
        exact or_or_or_comm
      · simp only [adds, if_false, Nat.add_zero, false_and, or_false]
        exact or_right_comm

theorem not_binds_next_iff {k : Kind} {calls : List Call} (few : additions k calls + 1 < 2 ^ 24) :
    ¬ (after calls).Binds k (rowToken k.table (additions k calls + 1)) ↔
      ∀ call ∈ calls, call.inserts? ≠ some (k, rowToken k.table (additions k calls + 1)) := by
  have given : ¬ ∃ row < additions k calls,
      rowToken k.table (additions k calls + 1) = rowToken k.table (row + 1) := by
    rintro ⟨row, earlier, same⟩
    have := rowToken_inj few (by omega) same
    omega
  rw [binds_after, or_iff_left given]
  push Not
  rfl

end Catalog

inductive Topic
  | type
  | field
  | method
  | signature
  | string
  deriving DecidableEq, Repr

abbrev Topic.Answer : Topic → Type
  | .type => Ty
  | .field => Field
  | .method => Method
  | .signature => Signature
  | .string => String

def Resolver.find? (r : Resolver) : (topic : Topic) → GenericArgs → Token → Option topic.Answer
  | .type => r.type?
  | .field => r.field?
  | .method => r.method?
  | .signature => r.signature?
  | .string => r.string?

namespace Catalog

section Answers

variable {c c' : Catalog} {token : Token} (topic : Topic) (args : GenericArgs)

theorem find?_congr (entries : ∀ k, (c'.entries k).get? token = (c.entries k).get? token)
    (signatures : c'.signatures = c.signatures) :
    c'.resolver.find? topic args token = c.resolver.find? topic args token := by
  have method : c'.methods.get? token = c.methods.get? token := entries .method
  cases topic with
  | type => exact congrArg (Option.map _) (entries .type)
  | field => exact congrArg (Option.map _) (entries .field)
  | method => exact congrArg (Option.map _) method
  | signature => simp only [Resolver.find?, resolver, signatures, method]
  | string => exact entries .string

theorem find?_mono
    (entries : ∀ k v, (c.entries k).get? token = some v → (c'.entries k).get? token = some v)
    (signatures : c'.signatures = c.signatures) {a : topic.Answer}
    (found : c.resolver.find? topic args token = some a) :
    c'.resolver.find? topic args token = some a := by
  cases topic with
  | type =>
      obtain ⟨t, held, rfl⟩ := Option.map_eq_some_iff.mp found
      exact congrArg (Option.map _) (entries .type t held)
  | field =>
      obtain ⟨f, held, rfl⟩ := Option.map_eq_some_iff.mp found
      exact congrArg (Option.map _) (entries .field f held)
  | method =>
      obtain ⟨m, held, rfl⟩ := Option.map_eq_some_iff.mp found
      exact congrArg (Option.map _) (entries .method m held)
  | signature =>
      simp only [Resolver.find?, resolver, signatures] at found ⊢
      rcases Option.or_eq_some_iff.mp found with own | ⟨none, derived⟩
      · rw [own, Option.some_or]
      · obtain ⟨m, held, rfl⟩ := Option.map_eq_some_iff.mp derived
        have held' : c'.methods.get? token = some m := entries .method m held
        rw [none, held', Option.none_or, Option.map_some]
  | string => exact entries .string a found

end Answers

/-- A value is stored under a token that was not given out before, and under other tokens all is
found as it was. The token is unused unless it was chosen for an insertion of the same kind, and if
it is unused then all that was found before is still found. -/
theorem add_unused_iff {calls : List Call} {k : Kind} {value : k.Value} {token : Token}
    {c : Catalog}
    (few : additions k (calls ++ [.add k value]) < 2 ^ 24)
    (added : (after calls).add k value = (token, c)) :
    (∀ before v rest, calls = before ++ .add k v :: rest → ((after before).add k v).1 ≠ token) ∧
    (∀ other ≠ token, ∀ topic args,
      c.resolver.find? topic args other = (after calls).resolver.find? topic args other) ∧
    (¬ (after calls).Binds k token ↔ ∀ call ∈ calls, call.inserts? ≠ some (k, token)) ∧
    (¬ (after calls).Binds k token → ∀ other topic args a,
      (after calls).resolver.find? topic args other = some a →
        c.resolver.find? topic args other = some a) := by
  obtain ⟨rfl, rfl⟩ :
      ((after calls).add k value).1 = token ∧ ((after calls).add k value).2 = c := by
    rw [added]
    exact ⟨rfl, rfl⟩
  have few : additions k calls + 1 < 2 ^ 24 := by simpa [additions_concat, Call.adds?] using few
  have given := add_token (after calls) value
  rw [rows_after] at given
  refine ⟨?_, ?_, ?_, ?_⟩
  · rintro before v rest rfl same
    rw [add_token, rows_after, given] at same
    have earlier : additions k before < additions k (before ++ .add k v :: rest) := by
      simp [additions, List.countP_append, Call.adds?]
    have := rowToken_inj (by omega) few same
    omega
  · intro other differs topic args
    refine find?_congr topic args (fun kind => ?_) (signatures_add _ value)
    by_cases same : kind = k
    · subst same
      rw [entries_add_self, TokenMap.get?_insert, if_neg differs]
    · rw [entries_add_of_ne _ value same]
  · rw [given]
    exact not_binds_next_iff few
  · intro unused other topic args a
    refine find?_mono topic args (fun kind v held => ?_) (signatures_add _ value)
    by_cases same : kind = k
    · subst same
      have differs : other ≠ ((after calls).add kind value).1 := by
        rintro rfl
        exact unused (Option.isSome_of_eq_some held)
      rw [entries_add_self, TokenMap.get?_insert, if_neg differs, held]
    · rw [entries_add_of_ne _ value same, held]

def interleaved : List Call :=
  [.add .type (.array (.typeVar 0)), .insertType ⟨0x01000003⟩ .int32,
    .insertField ⟨0x01000002⟩ ⟨"f", .object, .int64, true, none, false⟩]

theorem interleaved_unused :
    (additions .type (interleaved ++ [.add .type .string]) < 2 ^ 24 ∧
      (after interleaved).add .type .string =
        (⟨0x01000002⟩, ((after interleaved).add .type .string).2)) ∧
    ¬ (after interleaved).Binds .type ⟨0x01000002⟩ ∧
    ∀ other topic args a, (after interleaved).resolver.find? topic args other = some a →
      ((after interleaved).add .type .string).2.resolver.find? topic args other = some a := by
  have few : additions .type (interleaved ++ [.add .type .string]) < 2 ^ 24 := by decide
  have added : (after interleaved).add .type .string =
      (⟨0x01000002⟩, ((after interleaved).add .type .string).2) := by rfl
  obtain ⟨-, -, unused, kept⟩ := add_unused_iff few added
  have fresh : ¬ (after interleaved).Binds .type ⟨0x01000002⟩ := unused.mpr (by decide)
  exact ⟨⟨few, added⟩, fresh, kept fresh⟩

/-- A token that a caller has chosen is given out again, and what it named is lost. -/
theorem chosen_row_overwritten :
    ((after [.insertType ⟨0x01000001⟩ .int32]).add .type .string).1 = ⟨0x01000001⟩ ∧
    (after [.insertType ⟨0x01000001⟩ .int32]).Binds .type ⟨0x01000001⟩ ∧
    (after [.insertType ⟨0x01000001⟩ .int32]).resolver.find? .type {} ⟨0x01000001⟩ =
      some .int32 ∧
    ((after [.insertType ⟨0x01000001⟩ .int32]).add .type .string).2.resolver.find? .type {}
      ⟨0x01000001⟩ = some .string := by
  decide

end Catalog
end Destack
