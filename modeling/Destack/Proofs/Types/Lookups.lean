import Mathlib
import Destack.Types.Registry

namespace Destack

/-! ## Caches -/

namespace Cache

variable {κ α : Type} [DecidableEq κ] {cache : Cache κ α} {key other : κ}

def keys (cache : Cache κ α) : List κ := cache.map (·.1)

theorem find?_eq_none_iff : cache.find? key = none ↔ key ∉ cache.keys := by
  unfold find? keys
  cases located : cache.findIdx? fun entry => decide (entry.1 = key) with
  | none =>
      have missing := List.findIdx?_eq_none_iff.mp located
      simpa using fun found entered => by simpa using missing (key, found) entered
  | some handle =>
      obtain ⟨bound, matching, -⟩ := List.findIdx?_eq_some_iff_getElem.mp located
      rw [decide_eq_true_eq] at matching
      have entered : (cache[handle].1, cache[handle].2) ∈ cache := List.getElem_mem bound
      simpa [← matching, List.getElem?_eq_getElem bound] using ⟨_, entered⟩

theorem isSome_find? : (cache.find? key).isSome ↔ key ∈ cache.keys := by
  rw [Option.isSome_iff_ne_none, Ne, find?_eq_none_iff, not_not]

theorem record_of_some {hit : Nat × Found α} (answer : Found α)
    (found : cache.find? key = some hit) : cache.record key answer = (hit, cache) := by
  rw [record, found]

theorem record_of_none (answer : Found α) (missing : cache.find? key = none) :
    cache.record key answer = ((cache.length, answer), cache ++ [(key, answer)]) := by
  rw [record, missing]

theorem find?_record_self (answer : Found α) :
    (cache.record key answer).2.find? key = some (cache.record key answer).1 := by
  cases found : cache.find? key with
  | some hit => rw [record_of_some answer found, found]
  | none =>
      have missing : cache.findIdx? (fun entry => decide (entry.1 = key)) = none := by
        rw [List.findIdx?_eq_none_iff]
        intro entry entered
        have absent := find?_eq_none_iff.mp found
        exact decide_eq_false fun same => absent (same ▸ List.mem_map_of_mem entered)
      rw [record_of_none answer found, find?, List.findIdx?_append, missing]
      simp

theorem find?_record_of_ne (answer : Found α) (differs : other ≠ key) :
    (cache.record key answer).2.find? other = cache.find? other := by
  cases found : cache.find? key with
  | some hit => rw [record_of_some answer found]
  | none =>
      rw [record_of_none answer found, find?, find?, List.findIdx?_append]
      cases located : cache.findIdx? fun entry => decide (entry.1 = other) with
      | none => simp [differs.symm]
      | some handle =>
          obtain ⟨bound, -⟩ := List.findIdx?_eq_some_iff_getElem.mp located
          simp [List.getElem?_append_left bound]

theorem nodup_keys_record (distinct : cache.keys.Nodup) (answer : Found α) :
    (cache.record key answer).2.keys.Nodup := by
  cases found : cache.find? key with
  | some hit => rwa [record_of_some answer found]
  | none =>
      rw [record_of_none answer found, keys, List.map_append]
      exact List.Nodup.append distinct (List.nodup_singleton _)
        (List.disjoint_singleton.mpr (find?_eq_none_iff.mp found))

end Cache

/-! ## Kinds of lookups -/

inductive Kind
  | type
  | field
  | method
  | string
  deriving DecidableEq, Repr

namespace Kind

abbrev Key : Kind → Type
  | .type | .field | .method => Token × GenericArgs
  | .string => Token

abbrev Value : Kind → Type
  | .type => Ty
  | .field => Field
  | .method => Method
  | .string => String

instance : (k : Kind) → DecidableEq k.Key
  | .type | .field | .method => inferInstanceAs (DecidableEq (Token × GenericArgs))
  | .string => inferInstanceAs (DecidableEq Token)

end Kind

structure Request where
  kind : Kind
  token : Token
  args : GenericArgs

def Request.key : (q : Request) → q.kind.Key
  | ⟨.type, token, args⟩ | ⟨.field, token, args⟩ | ⟨.method, token, args⟩ => (token, args)
  | ⟨.string, token, _⟩ => token

def Request.place (q : Request) : (k : Kind) × k.Key := ⟨q.kind, q.key⟩

def Resolver.answer? (r : Resolver) : (q : Request) → Option (Found q.kind.Value)
  | ⟨.type, token, args⟩ => some (r.findType args token)
  | ⟨.field, token, args⟩ => some (r.findField args token)
  | ⟨.method, token, args⟩ => r.findMethod? args token
  | ⟨.string, token, args⟩ => some (r.findString args token)

namespace Registry

def cache (registry : Registry) : (k : Kind) → Cache k.Key k.Value
  | .type => registry.types
  | .field => registry.fields
  | .method => registry.methods
  | .string => registry.strings

def setCache (registry : Registry) : (k : Kind) → Cache k.Key k.Value → Registry
  | .type, types => { registry with types }
  | .field, fields => { registry with fields }
  | .method, methods => { registry with methods }
  | .string, strings => { registry with strings }

@[simp] theorem cache_setCache_self (registry : Registry) (k : Kind) (c : Cache k.Key k.Value) :
    (registry.setCache k c).cache k = c := by
  cases k <;> rfl

theorem cache_setCache_of_ne (registry : Registry) {k other : Kind} (c : Cache k.Key k.Value)
    (differs : other ≠ k) : (registry.setCache k c).cache other = registry.cache other := by
  cases k <;> cases other <;> first | rfl | exact absurd rfl differs

theorem setCache_cache (registry : Registry) (k : Kind) :
    registry.setCache k (registry.cache k) = registry := by
  cases k <;> rfl

def lookup (registry : Registry) (r : Resolver) :
    (q : Request) → Option (Nat × Found q.kind.Value) × Registry
  | ⟨.type, token, args⟩ =>
    let (hit, registry) := registry.lookupType r args token
    (some hit, registry)
  | ⟨.field, token, args⟩ =>
    let (hit, registry) := registry.lookupField r args token
    (some hit, registry)
  | ⟨.method, token, args⟩ => registry.lookupMethod r args token
  | ⟨.string, token, args⟩ =>
    let (hit, registry) := registry.lookupString r args token
    (some hit, registry)

variable {registry : Registry} {r : Resolver} {p q : Request}

/-- Enters an answer unless there is one, and gives the one that stands. -/
def insert (registry : Registry) (q : Request) (found : Found q.kind.Value) :
    (Nat × Found q.kind.Value) × Registry :=
  let (hit, entries) := (registry.cache q.kind).record q.key found
  (hit, registry.setCache q.kind entries)

theorem insert_of_some {hit : Nat × Found q.kind.Value} (found : Found q.kind.Value)
    (held : (registry.cache q.kind).find? q.key = some hit) :
    registry.insert q found = (hit, registry) := by
  simp only [insert, Cache.record_of_some found held, setCache_cache]

theorem insert_of_none (found : Found q.kind.Value)
    (missing : (registry.cache q.kind).find? q.key = none) :
    registry.insert q found = (((registry.cache q.kind).length, found),
      registry.setCache q.kind (registry.cache q.kind ++ [(q.key, found)])) := by
  simp only [insert, Cache.record_of_none found missing]

theorem cache_insert_self (found : Found q.kind.Value) :
    (registry.insert q found).2.cache q.kind =
      ((registry.cache q.kind).record q.key found).2 :=
  cache_setCache_self ..

theorem cache_insert_of_ne {k : Kind} {found : Found q.kind.Value} (differs : k ≠ q.kind) :
    (registry.insert q found).2.cache k = registry.cache k :=
  cache_setCache_of_ne _ _ differs

theorem find?_insert_self (found : Found q.kind.Value) :
    ((registry.insert q found).2.cache q.kind).find? q.key = some (registry.insert q found).1 := by
  rw [cache_insert_self]
  exact Cache.find?_record_self found

theorem find?_insert_of_ne (found : Found q.kind.Value) (differs : p.place ≠ q.place) :
    ((registry.insert q found).2.cache p.kind).find? p.key =
      (registry.cache p.kind).find? p.key := by
  obtain ⟨kind, token, args⟩ := p
  obtain ⟨kind', token', args'⟩ := q
  by_cases same : kind = kind'
  · subst same
    rw [cache_insert_self]
    exact Cache.find?_record_of_ne found fun keys => differs (congrArg (Sigma.mk kind) keys)
  · rw [cache_insert_of_ne same]

theorem lookup_of_hit {hit : Nat × Found q.kind.Value}
    (held : (registry.cache q.kind).find? q.key = some hit) :
    registry.lookup r q = (some hit, registry) := by
  obtain ⟨kind, token, args⟩ := q
  cases kind with
  | method =>
      change registry.methods.find? (token, args) = some hit at held
      simp [lookup, lookupMethod, held]
  | type =>
      change registry.types.find? (token, args) = some hit at held
      simp [lookup, lookupType, Cache.record_of_some _ held]
  | field =>
      change registry.fields.find? (token, args) = some hit at held
      simp [lookup, lookupField, Cache.record_of_some _ held]
  | string =>
      change registry.strings.find? token = some hit at held
      simp [lookup, lookupString, Cache.record_of_some _ held]

theorem lookup_of_unknown (missing : (registry.cache q.kind).find? q.key = none)
    (unknown : r.answer? q = none) : registry.lookup r q = (none, registry) := by
  obtain ⟨kind, token, args⟩ := q
  cases kind with
  | method =>
      change registry.methods.find? (token, args) = none at missing
      change r.findMethod? args token = none at unknown
      simp [lookup, lookupMethod, missing, unknown]
  | _ => cases unknown

theorem lookup_of_answer {found : Found q.kind.Value}
    (missing : (registry.cache q.kind).find? q.key = none) (answered : r.answer? q = some found) :
    registry.lookup r q = (some (registry.insert q found).1, (registry.insert q found).2) := by
  obtain ⟨kind, token, args⟩ := q
  cases kind with
  | method =>
      change registry.methods.find? (token, args) = none at missing
      change r.findMethod? args token = some found at answered
      simp only [lookup, lookupMethod, missing, answered]
      rfl
  | _ =>
      cases answered
      rfl

end Registry

/-! ## Queries as requests -/

abbrev Query.Answer : Query → Type
  | .type _ => Found Ty
  | .field _ => Found Field
  | .method _ => Option (Found Method)
  | .string _ => Found String

def View.answer (v : View) : (q : Query) → q.Answer
  | .type token => v.type token
  | .field token => v.field token
  | .method token => v.method? token
  | .string token => v.string token

namespace Query

abbrev kind : Query → Kind
  | .type _ => .type
  | .field _ => .field
  | .method _ => .method
  | .string _ => .string

def token : Query → Token
  | .type token | .field token | .method token | .string token => token

abbrev request (q : Query) (args : GenericArgs) : Request := ⟨q.kind, q.token, args⟩

def key (args : GenericArgs) (q : Query) : (k : Kind) × k.Key := (q.request args).place

/-- What is entered for an answer, if anything is. -/
def kept? : (q : Query) → q.Answer → Option (Found q.kind.Value)
  | .type _, found | .field _, found | .string _, found => some found
  | .method _, found? => found?

def isKnown (q : Query) (answer : q.Answer) : Bool := (q.kept? answer).isSome

def given : (q : Query) → Found q.kind.Value → q.Answer
  | .type _, found | .field _, found | .string _, found => found
  | .method _, found => some found

variable {args other : GenericArgs} {p q : Query}

theorem eq_of_key_eq (same : p.key args = q.key other) : p = q := by
  cases p <;> cases q <;> simp_all [key, Request.place, Request.key, token]

theorem args_of_key_eq (same : q.key args = q.key other) :
    args = other ∨ ∃ token, q = .string token := by
  cases q with
  | string token => exact .inr ⟨token, rfl⟩
  | _ => exact .inl (by simpa [key, Request.place, Request.key] using same)

theorem kept?_given (q : Query) (found : Found q.kind.Value) :
    q.kept? (q.given found) = some found := by
  cases q <;> rfl

theorem kept?_injective (q : Query) : Function.Injective q.kept? := by
  intro a b same
  cases q with
  | method token => exact same
  | _ => exact Option.some.inj same

theorem eq_given {answer : q.Answer} {found : Found q.kind.Value}
    (entered : q.kept? answer = some found) : answer = q.given found :=
  q.kept?_injective (entered.trans (q.kept?_given found).symm)

end Query

theorem View.eq_of_answer_eq {v w : View} (same : ∀ q, v.answer q = w.answer q) : v = w := by
  cases v
  cases w
  congr 1
  · exact funext fun token => same (.type token)
  · exact funext fun token => same (.field token)
  · exact funext fun token => same (.method token)
  · exact funext fun token => same (.string token)

namespace Resolver

variable (r : Resolver)

def view (args : GenericArgs) : View :=
  ⟨r.findType args, r.findField args, r.findMethod? args, r.findString args⟩

theorem kept?_answer (args : GenericArgs) (q : Query) :
    q.kept? ((r.view args).answer q) = r.answer? (q.request args) := by
  cases q <;> rfl

def Uniform : Prop :=
  ∀ (args other : GenericArgs) (q : Query), q.key args = q.key other →
    (r.view args).answer q = (r.view other).answer q

end Resolver

theorem Catalog.resolver_uniform (c : Catalog) : c.resolver.Uniform := by
  intro args other q same
  obtain rfl | ⟨token, rfl⟩ := Query.args_of_key_eq same <;> rfl

/-! ## The steps of a query -/

namespace Registry

variable {registry : Registry} {args other : GenericArgs} {p q : Query}

def cached? (registry : Registry) (args : GenericArgs) (q : Query) : Option q.Answer :=
  ((registry.cache q.kind).find? (q.request args).key).map fun hit => q.given hit.2

/-- Enters the answer to a query unless there is one, and gives the answer that stands. A method
without an answer is not entered. -/
def enter (registry : Registry) (args : GenericArgs) (q : Query) (answer : q.Answer) :
    q.Answer × Registry :=
  match q.kept? answer with
  | none => (answer, registry)
  | some found =>
    let (hit, later) := registry.insert (q.request args) found
    (q.given hit.2, later)

theorem cached?_congr (same : q.key args = q.key other) :
    registry.cached? args q = registry.cached? other q := by
  obtain rfl | ⟨token, rfl⟩ := Query.args_of_key_eq same <;> rfl

theorem enter_of_unknown {answer : q.Answer} (unknown : q.isKnown answer = false) :
    registry.enter args q answer = (answer, registry) := by
  rw [enter, Option.not_isSome_iff_eq_none.mp (Bool.eq_false_iff.mp unknown)]

theorem enter_of_kept {answer : q.Answer} {found : Found q.kind.Value}
    (entered : q.kept? answer = some found) :
    registry.enter args q answer = (q.given (registry.insert (q.request args) found).1.2,
      (registry.insert (q.request args) found).2) := by
  rw [enter, entered]

theorem enter_of_cached {standing answer : q.Answer}
    (held : registry.cached? args q = some standing) (known : q.isKnown answer) :
    registry.enter args q answer = (standing, registry) := by
  obtain ⟨hit, there, rfl⟩ := Option.map_eq_some_iff.mp held
  obtain ⟨found, entered⟩ := Option.isSome_iff_exists.mp known
  rw [enter_of_kept entered, insert_of_some (q := q.request args) found there]

theorem enter_of_missing (answer : q.Answer) (missing : registry.cached? args q = none) :
    (registry.enter args q answer).1 = answer := by
  cases entered : q.kept? answer with
  | none => rw [enter, entered]
  | some found =>
      have absent := Option.map_eq_none_iff.mp missing
      rw [enter_of_kept entered, insert_of_none (q := q.request args) found absent]
      exact (Query.eq_given entered).symm

theorem cached?_enter_self {answer : q.Answer} (known : q.isKnown answer) :
    (registry.enter args q answer).2.cached? args q = some (registry.enter args q answer).1 := by
  obtain ⟨found, entered⟩ := Option.isSome_iff_exists.mp known
  rw [enter_of_kept entered, cached?, find?_insert_self]
  rfl

theorem cached?_enter_of_ne (answer : q.Answer) (differs : p.key other ≠ q.key args) :
    (registry.enter args q answer).2.cached? other p = registry.cached? other p := by
  cases entered : q.kept? answer with
  | none => rw [enter, entered]
  | some found =>
      rw [enter_of_kept entered, cached?, cached?]
      exact congrArg (Option.map _) (find?_insert_of_ne found differs)

theorem isSome_cached?_enter (answer : q.Answer) :
    ((registry.enter args q answer).2.cached? other p).isSome ↔
      (registry.cached? other p).isSome ∨ p.key other = q.key args ∧ q.isKnown answer := by
  by_cases same : p.key other = q.key args
  · obtain rfl := Query.eq_of_key_eq same
    cases known : p.isKnown answer with
    | true => simp [cached?_congr same, cached?_enter_self known, same]
    | false => simp [enter_of_unknown known]
  · simp [cached?_enter_of_ne answer same, same]

def Within (registry later : Registry) : Prop :=
  ∀ args q, (registry.cached? args q).isSome → (later.cached? args q).isSome

theorem within_enter (registry : Registry) (args : GenericArgs) (q : Query) (found : q.Answer) :
    registry.Within (registry.enter args q found).2 :=
  fun _ _ held => (isSome_cached?_enter found).mpr (.inl held)

theorem recordQuery_eq_lookup (r : Resolver) (registry : Registry) (args : GenericArgs)
    (q : Query) : registry.recordQuery r args q = (registry.lookup r (q.request args)).2 := by
  cases q <;> rfl

theorem kept?_view (r : Resolver) (registry : Registry) (args : GenericArgs) (q : Query) :
    q.kept? ((registry.view r args).answer q) =
      (registry.lookup r (q.request args)).1.map fun hit => hit.2 := by
  cases q <;> rfl

theorem recordQuery_eq_enter (r : Resolver) (registry : Registry) (args : GenericArgs)
    (q : Query) :
    registry.recordQuery r args q = (registry.enter args q ((r.view args).answer q)).2 := by
  rw [recordQuery_eq_lookup, enter, r.kept?_answer]
  cases held : (registry.cache q.kind).find? (q.request args).key with
  | some hit =>
      rw [lookup_of_hit held]
      cases r.answer? (q.request args) with
      | none => rfl
      | some found => simp only [insert_of_some (q := q.request args) found held]
  | none =>
      cases answered : r.answer? (q.request args) with
      | none => rw [lookup_of_unknown held answered]
      | some found => rw [lookup_of_answer held answered]

theorem view_answer (r : Resolver) (registry : Registry) (args : GenericArgs) (q : Query) :
    (registry.view r args).answer q =
      (registry.cached? args q).getD ((r.view args).answer q) := by
  apply q.kept?_injective
  rw [kept?_view, cached?]
  cases held : (registry.cache q.kind).find? (q.request args).key with
  | some hit =>
      rw [lookup_of_hit held]
      exact (q.kept?_given hit.2).symm
  | none =>
      rw [Option.map_none, Option.getD_none, r.kept?_answer]
      cases answered : r.answer? (q.request args) with
      | none => rw [lookup_of_unknown held answered]; rfl
      | some found => rw [lookup_of_answer held answered, insert_of_none found held]; rfl

/-! ## Registries that agree with the resolver -/

/-- What the registry holds is what the resolver says. -/
def Echoes (registry : Registry) (r : Resolver) : Prop :=
  ∀ (args : GenericArgs) (q : Query) (found : q.Answer),
    registry.cached? args q = some found → found = (r.view args).answer q

variable {r : Resolver}

theorem cached?_empty (args : GenericArgs) (q : Query) :
    ({} : Registry).cached? args q = none := by
  cases q <;> rfl

theorem echoes_empty : ({} : Registry).Echoes r := by
  intro args q found held
  rw [cached?_empty] at held
  cases held

theorem Echoes.enter_eq (echoes : registry.Echoes r) (args : GenericArgs) (q : Query) :
    (registry.enter args q ((r.view args).answer q)).1 = (r.view args).answer q := by
  cases held : registry.cached? args q with
  | none => exact enter_of_missing _ held
  | some standing =>
      cases known : q.isKnown ((r.view args).answer q) with
      | true => rw [enter_of_cached held known, echoes args q standing held]
      | false => rw [enter_of_unknown known]

theorem Echoes.enter (echoes : registry.Echoes r) (uniform : r.Uniform) (args : GenericArgs)
    (q : Query) : (registry.enter args q ((r.view args).answer q)).2.Echoes r := by
  intro other p found held
  by_cases same : p.key other = q.key args
  · obtain rfl := Query.eq_of_key_eq same
    cases known : p.isKnown ((r.view args).answer p) with
    | true =>
        rw [cached?_congr same, cached?_enter_self known, echoes.enter_eq,
          Option.some.injEq] at held
        rw [← held, uniform other args p same]
    | false =>
        rw [enter_of_unknown known] at held
        exact echoes other p found held
  · rw [cached?_enter_of_ne _ same] at held
    exact echoes other p found held

theorem Echoes.view_eq (echoes : registry.Echoes r) (args : GenericArgs) :
    registry.view r args = r.view args := by
  apply View.eq_of_answer_eq
  intro q
  rw [view_answer]
  cases held : registry.cached? args q with
  | none => rfl
  | some found => exact echoes args q found held

/-! ## Counting entries -/

structure Stats where
  types : Nat
  fields : Nat
  methods : Nat
  strings : Nat
  deriving DecidableEq, Repr

def stats (registry : Registry) : Stats :=
  ⟨registry.types.length, registry.fields.length, registry.methods.length, registry.strings.length⟩

theorem stats_eq_lengths (registry : Registry) :
    registry.stats = ⟨(registry.cache .type).length, (registry.cache .field).length,
      (registry.cache .method).length, (registry.cache .string).length⟩ :=
  rfl

def Distinct (registry : Registry) : Prop := ∀ k, (registry.cache k).keys.Nodup

theorem distinct_empty : ({} : Registry).Distinct := fun k => by cases k <;> exact List.nodup_nil

theorem Distinct.insert (distinct : registry.Distinct) (q : Request)
    (found : Found q.kind.Value) : (registry.insert q found).2.Distinct := by
  intro k
  by_cases same : k = q.kind
  · subst same
    rw [cache_insert_self]
    exact Cache.nodup_keys_record (distinct q.kind) found
  · rw [cache_insert_of_ne same]
    exact distinct k

theorem Distinct.enter (distinct : registry.Distinct) (args : GenericArgs) (q : Query)
    (answer : q.Answer) : (registry.enter args q answer).2.Distinct := by
  cases entered : q.kept? answer with
  | none => rwa [Registry.enter, entered]
  | some found =>
      rw [enter_of_kept entered]
      exact distinct.insert (q.request args) found

theorem length_eq_of_isSome_find? {κ α : Type} [DecidableEq κ] {cache other : Cache κ α}
    (distinct : cache.keys.Nodup) (otherDistinct : other.keys.Nodup)
    (same : ∀ key, (cache.find? key).isSome ↔ (other.find? key).isSome) :
    cache.length = other.length := by
  have alike : cache.keys.Perm other.keys := by
    refine (List.perm_ext_iff_of_nodup distinct otherDistinct).mpr fun key => ?_
    rw [← Cache.isSome_find?, ← Cache.isSome_find?, same]
  simpa [Cache.keys] using alike.length_eq

theorem stats_eq {a b : Registry} (distinct : a.Distinct) (otherDistinct : b.Distinct)
    (same : ∀ args q, (a.cached? args q).isSome ↔ (b.cached? args q).isSome) :
    a.stats = b.stats := by
  have held (args : GenericArgs) (q : Query) :
      ((a.cache q.kind).find? (q.request args).key).isSome ↔
        ((b.cache q.kind).find? (q.request args).key).isSome := by
    simpa [cached?] using same args q
  have lengths (k : Kind) : (a.cache k).length = (b.cache k).length := by
    refine length_eq_of_isSome_find? (distinct k) (otherDistinct k) fun key => ?_
    cases k with
    | type => exact held key.2 (.type key.1)
    | field => exact held key.2 (.field key.1)
    | method => exact held key.2 (.method key.1)
    | string => exact held {} (.string key)
  rw [stats_eq_lengths, stats_eq_lengths, lengths, lengths, lengths, lengths]

/-! ## Many lookups -/

theorem record_cons (registry : Registry) (r : Resolver) (args : GenericArgs) (q : Query)
    (rest : List Query) :
    registry.record r args (q :: rest) =
      (registry.enter args q ((r.view args).answer q)).2.record r args rest := by
  rw [← recordQuery_eq_enter]
  rfl

theorem Echoes.record (echoes : registry.Echoes r) (uniform : r.Uniform) (args : GenericArgs)
    (queries : List Query) : (registry.record r args queries).Echoes r := by
  induction queries generalizing registry with
  | nil => exact echoes
  | cons q rest ih =>
      rw [record_cons]
      exact ih (echoes.enter uniform args q)

theorem Distinct.record (distinct : registry.Distinct) (r : Resolver) (args : GenericArgs)
    (queries : List Query) : (registry.record r args queries).Distinct := by
  induction queries generalizing registry with
  | nil => exact distinct
  | cons q rest ih =>
      rw [record_cons]
      exact ih (distinct.enter args q _)

theorem isSome_cached?_record (queries : List Query) :
    ((registry.record r args queries).cached? other p).isSome ↔
      (registry.cached? other p).isSome ∨ ∃ q ∈ queries, p.key other = q.key args ∧
        q.isKnown ((r.view args).answer q) := by
  induction queries generalizing registry with
  | nil => simp [record]
  | cons q rest ih =>
      simp only [record_cons, ih, isSome_cached?_enter, List.mem_cons, exists_eq_or_imp, or_assoc]

/-! ## Lookups made again -/

theorem view_record (queries : List Query) :
    (registry.record r args queries).view r args = registry.view r args := by
  induction queries generalizing registry with
  | nil => rfl
  | cons q rest ih =>
      rw [record_cons, ih]
      refine View.eq_of_answer_eq fun p => ?_
      rw [view_answer, view_answer]
      by_cases same : p.key args = q.key args
      · obtain rfl := Query.eq_of_key_eq same
        cases known : p.isKnown ((r.view args).answer p) with
        | false => rw [enter_of_unknown known]
        | true =>
            rw [cached?_enter_self known, Option.getD_some]
            cases held : registry.cached? args p with
            | none => exact enter_of_missing _ held
            | some standing => rw [enter_of_cached held known, Option.getD_some]
      · rw [cached?_enter_of_ne _ same]

theorem enter_snd_of_isSome {q : Query}
    (held : q.isKnown ((r.view args).answer q) → (registry.cached? args q).isSome) :
    (registry.enter args q ((r.view args).answer q)).2 = registry := by
  cases known : q.isKnown ((r.view args).answer q) with
  | false => rw [enter_of_unknown known]
  | true =>
      obtain ⟨standing, held⟩ := Option.isSome_iff_exists.mp (held known)
      rw [enter_of_cached held known]

theorem record_of_isSome (queries : List Query)
    (held : ∀ q ∈ queries, q.isKnown ((r.view args).answer q) → (registry.cached? args q).isSome) :
    registry.record r args queries = registry := by
  induction queries with
  | nil => rfl
  | cons q rest ih =>
      rw [List.forall_mem_cons] at held
      rw [record_cons, enter_snd_of_isSome held.1, ih held.2]

theorem record_record (queries : List Query) :
    (registry.record r args queries).record r args queries = registry.record r args queries :=
  record_of_isSome queries fun q asked known =>
    (isSome_cached?_record queries).mpr (.inr ⟨q, asked, rfl, known⟩)

end Registry
end Destack
