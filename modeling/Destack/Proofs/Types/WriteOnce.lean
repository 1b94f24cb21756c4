import Destack.Proofs.Types.Lookups

/-!
# The registry is written once

Any number of workers look things up in one registry, while the resolver may change its mind at any
time. A lookup reads the registry; if that finds nothing it asks the resolver and enters the answer,
each in a step of its own. Main statement: whatever the workers do, in whatever order, the first
answer that is entered under a key stands. All lookups of that key give it, with the same handle,
and the handle stands for it from then on.
-/

namespace Destack

namespace Cache

variable {κ α : Type} [DecidableEq κ] {cache : Cache κ α} {key other : κ} {handle : Nat}
  {found : Found α}

theorem prefix_record (answer : Found α) : cache <+: (cache.record key answer).2 := by
  cases held : cache.find? key with
  | some hit => rw [record_of_some answer held]
  | none =>
      rw [record_of_none answer held]
      exact List.prefix_append ..

theorem find?_record_of_some {hit : Nat × Found α} (answer : Found α)
    (held : cache.find? key = some hit) : (cache.record other answer).2.find? key = some hit := by
  by_cases same : key = other
  · rw [← same, record_of_some answer held, held]
  · rw [find?_record_of_ne answer same, held]

theorem mem_keys_record (answer : Found α) :
    key ∈ (cache.record other answer).2.keys ↔ key ∈ cache.keys ∨ key = other := by
  by_cases same : key = other
  · subst same
    rw [← isSome_find?, find?_record_self]
    simp
  · rw [← isSome_find?, find?_record_of_ne answer same, isSome_find?]
    simp [same]

theorem getElem?_of_find? (held : cache.find? key = some (handle, found)) :
    cache[handle]? = some (key, found) := by
  obtain ⟨position, located, entry⟩ := Option.bind_eq_some_iff.mp held
  obtain ⟨bound, matching, -⟩ := List.findIdx?_eq_some_iff_getElem.mp located
  obtain ⟨⟨key', found'⟩, there, same⟩ := Option.map_eq_some_iff.mp entry
  cases same
  rw [List.getElem?_eq_getElem bound, Option.some.injEq] at there
  rw [there, decide_eq_true_eq] at matching
  cases matching
  rw [List.getElem?_eq_getElem bound, there]

end Cache

inductive Stage
  | idle
  | missed (q : Request)
  | answered (q : Request) (found : Found q.kind.Value)

/-- Workers that look things up, with all lookups that have ended, by kind. -/
structure Session (ι : Type) where
  registry : Registry
  resolver : Resolver
  stage : ι → Stage
  log : (k : Kind) → List (k.Key × Option (Nat × Found k.Value))

namespace Session

variable {ι : Type}

def start (ι : Type) (r : Resolver) : Session ι := ⟨{}, r, fun _ => .idle, fun _ => []⟩

def logged (s : Session ι) (q : Request) (result : Option (Nat × Found q.kind.Value)) :
    Session ι :=
  { s with log := Function.update s.log q.kind (s.log q.kind ++ [(q.key, result)]) }

def entered (s : Session ι) (q : Request) (found : Found q.kind.Value) : Session ι :=
  let (hit, registry) := s.registry.insert q found
  { s.logged q (some hit) with registry }

section Steps

variable [DecidableEq ι]

def moved (s : Session ι) (w : ι) (stage : Stage) : Session ι :=
  { s with stage := Function.update s.stage w stage }

inductive Step (s : Session ι) : Session ι → Prop
  | hit (w : ι) (q : Request) {hit : Nat × Found q.kind.Value} (free : s.stage w = .idle)
      (held : (s.registry.cache q.kind).find? q.key = some hit) : Step s (s.logged q (some hit))
  | miss (w : ι) (q : Request) (free : s.stage w = .idle)
      (missing : (s.registry.cache q.kind).find? q.key = none) : Step s (s.moved w (.missed q))
  | fail (w : ι) (q : Request) (asks : s.stage w = .missed q)
      (unknown : s.resolver.answer? q = none) : Step s ((s.logged q none).moved w .idle)
  | answer (w : ι) (q : Request) {found : Found q.kind.Value} (asks : s.stage w = .missed q)
      (answered : s.resolver.answer? q = some found) : Step s (s.moved w (.answered q found))
  | enter (w : ι) (q : Request) {found : Found q.kind.Value}
      (enters : s.stage w = .answered q found) : Step s ((s.entered q found).moved w .idle)
  /-- The resolver may change its mind at any time. -/
  | edit (r : Resolver) : Step s { s with resolver := r }

abbrev Reaches : Session ι → Session ι → Prop := Relation.ReflTransGen Step

end Steps

inductive Change (s t : Session ι) : Prop
  | silent (registry : t.registry = s.registry) (log : t.log = s.log)
  | unknown (q : Request) (method : q.kind = .method) (registry : t.registry = s.registry)
      (log : t.log = (s.logged q none).log)
  | answered (q : Request) (found : Found q.kind.Value)
      (registry : t.registry = (s.entered q found).registry) (log : t.log = (s.entered q found).log)

variable {s t : Session ι} {q : Request} {found : Found q.kind.Value}
  {result : Option (Nat × Found q.kind.Value)} {k : Kind}

theorem entered_of_hit (found : Found q.kind.Value) {hit : Nat × Found q.kind.Value}
    (held : (s.registry.cache q.kind).find? q.key = some hit) :
    s.entered q found = s.logged q (some hit) := by
  rw [entered, Registry.insert_of_some found held]
  rfl

theorem entered_of_missing (found : Found q.kind.Value)
    (missing : (s.registry.cache q.kind).find? q.key = none) :
    s.entered q found = { s.logged q (some ((s.registry.cache q.kind).length, found)) with
      registry := s.registry.setCache q.kind (s.registry.cache q.kind ++ [(q.key, found)]) } := by
  rw [entered, Registry.insert_of_none found missing]

theorem Step.change [DecidableEq ι] (step : Step s t) : Change s t := by
  cases step with
  | @hit w q hit free held =>
      have same := entered_of_hit hit.2 held
      exact .answered q hit.2 (congrArg registry same.symm) (congrArg log same.symm)
  | miss w q free missing => exact .silent rfl rfl
  | fail w q asks unknown =>
      refine .unknown q ?_ rfl rfl
      obtain ⟨kind, token, args⟩ := q
      cases kind with
      | method => rfl
      | _ => cases unknown
  | answer w q asks answered => exact .silent rfl rfl
  | enter w q enters => exact .answered q _ rfl rfl
  | edit r => exact .silent rfl rfl

theorem cache_entered_self : (s.entered q found).registry.cache q.kind =
    ((s.registry.cache q.kind).record q.key found).2 :=
  Registry.cache_insert_self ..

theorem cache_entered_of_ne (differs : k ≠ q.kind) :
    (s.entered q found).registry.cache k = s.registry.cache k :=
  Registry.cache_insert_of_ne differs

theorem log_logged_self : (s.logged q result).log q.kind = s.log q.kind ++ [(q.key, result)] :=
  Function.update_self ..

theorem log_logged_of_ne (differs : k ≠ q.kind) : (s.logged q result).log k = s.log k :=
  Function.update_of_ne differs ..

theorem prefix_log_logged : s.log k <+: (s.logged q result).log k := by
  by_cases same : k = q.kind
  · subst same
    rw [log_logged_self]
    exact List.prefix_append ..
  · rw [log_logged_of_ne same]

theorem log_logged_ne : (s.logged q result).log ≠ s.log := by
  intro same
  have lengths := congrArg List.length (congrFun same q.kind)
  rw [log_logged_self, List.length_append] at lengths
  exact absurd lengths (by simp)

theorem eq_of_log_logged {q' : Request} {result' : Option (Nat × Found q'.kind.Value)}
    (same : (s.logged q result).log = (s.logged q' result').log) :
    q.kind = q'.kind ∧ result.isSome = result'.isSome := by
  have here := congrFun same q.kind
  obtain ⟨kind, token, args⟩ := q
  obtain ⟨kind', token', args'⟩ := q'
  by_cases kinds : kind = kind'
  · subst kinds
    rw [log_logged_self, log_logged_self] at here
    have last := List.singleton_inj.mp (List.append_cancel_left here)
    exact ⟨rfl, congrArg (·.2.isSome) last⟩
  · rw [log_logged_self, log_logged_of_ne kinds] at here
    exact absurd (congrArg List.length here) (by simp)

theorem Change.grows (change : Change s t) (k : Kind) :
    s.log k <+: t.log k ∧ s.registry.cache k <+: t.registry.cache k := by
  cases change with
  | silent registry log => exact ⟨by rw [log], by rw [registry]⟩
  | unknown q method registry log =>
      rw [registry, log]
      exact ⟨prefix_log_logged, List.prefix_rfl⟩
  | answered q found registry log =>
      rw [registry, log]
      refine ⟨prefix_log_logged, ?_⟩
      by_cases same : k = q.kind
      · subst same
        rw [cache_entered_self]
        exact Cache.prefix_record found
      · rw [cache_entered_of_ne same]

theorem grows_of_reaches [DecidableEq ι] (reached : Reaches s t) (k : Kind) :
    s.log k <+: t.log k ∧ s.registry.cache k <+: t.registry.cache k := by
  induction reached with
  | refl => exact ⟨List.prefix_rfl, List.prefix_rfl⟩
  | tail _ step ih =>
      obtain ⟨log, cache⟩ := step.change.grows k
      exact ⟨ih.1.trans log, ih.2.trans cache⟩

structure Sound (s : Session ι) : Prop where
  distinct : s.registry.Distinct
  stands : ∀ k key hit, (key, some hit) ∈ s.log k → (s.registry.cache k).find? key = some hit
  asked : ∀ k key, key ∈ (s.registry.cache k).keys → ∃ hit, (key, some hit) ∈ s.log k

theorem sound_start (r : Resolver) : (start ι r).Sound where
  distinct := Registry.distinct_empty
  stands k key hit member := absurd member List.not_mem_nil
  asked k key member := by cases k <;> exact absurd member List.not_mem_nil

theorem Sound.unknown (sound : s.Sound) (registry : t.registry = s.registry)
    (log : t.log = (s.logged q none).log) : t.Sound := by
  constructor
  · rw [registry]
    exact sound.distinct
  · intro k key hit member
    rw [registry]
    apply sound.stands
    rw [log] at member
    by_cases same : k = q.kind
    · subst same
      simpa [log_logged_self] using member
    · rwa [log_logged_of_ne same] at member
  · intro k key entered
    rw [registry] at entered
    obtain ⟨hit, member⟩ := sound.asked k key entered
    exact ⟨hit, log ▸ prefix_log_logged.subset member⟩

theorem Sound.entered (sound : s.Sound) : (s.entered q found).Sound := by
  constructor
  · exact sound.distinct.insert q found
  · intro k key hit member
    by_cases same : k = q.kind
    · subst same
      rw [cache_entered_self]
      rcases List.mem_append.mp (log_logged_self ▸ member) with old | last
      · exact Cache.find?_record_of_some found (sound.stands _ key hit old)
      · -- What is logged for the key is what stands, also if another worker was first.
        cases List.mem_singleton.mp last
        exact Cache.find?_record_self found
    · rw [cache_entered_of_ne same]
      exact sound.stands k key hit (log_logged_of_ne same ▸ member)
  · intro k key held
    by_cases same : k = q.kind
    · subst same
      rw [cache_entered_self, Cache.mem_keys_record] at held
      rcases held with old | rfl
      · obtain ⟨hit, member⟩ := sound.asked _ key old
        exact ⟨hit, prefix_log_logged.subset member⟩
      · refine ⟨((s.registry.cache q.kind).record q.key found).1, ?_⟩
        change _ ∈ (s.logged q _).log q.kind
        rw [log_logged_self]
        exact List.mem_append_right _ List.mem_cons_self
    · rw [cache_entered_of_ne same] at held
      obtain ⟨hit, member⟩ := sound.asked k key held
      exact ⟨hit, prefix_log_logged.subset member⟩

theorem Sound.change (sound : s.Sound) (change : Change s t) : t.Sound := by
  cases change with
  | silent registry log => exact ⟨registry ▸ sound.distinct, registry ▸ log ▸ sound.stands,
      registry ▸ log ▸ sound.asked⟩
  | unknown q method registry log => exact sound.unknown registry log
  | answered q found registry log =>
      have after : (s.entered q found).Sound := sound.entered
      exact ⟨registry ▸ after.distinct, registry ▸ log ▸ after.stands, registry ▸ log ▸ after.asked⟩

theorem sound_of_reaches [DecidableEq ι] {r : Resolver} (reached : Reaches (start ι r) s) :
    s.Sound := by
  induction reached with
  | refl => exact sound_start r
  | tail _ step ih => exact ih.change step.change

namespace Sound

variable {key other : k.Key} {handle : Nat} {a b : Found k.Value}

theorem entry (sound : s.Sound) (member : (key, some (handle, a)) ∈ s.log k) :
    (s.registry.cache k)[handle]? = some (key, a) :=
  Cache.getElem?_of_find? (sound.stands k key _ member)

theorem exists_lookup (sound : s.Sound) (bound : handle < (s.registry.cache k).length) :
    ∃ key found, (key, some (handle, found)) ∈ s.log k := by
  have here := List.getElem?_eq_getElem bound
  generalize (s.registry.cache k)[handle] = entry at here
  obtain ⟨key, found⟩ := entry
  have listed : (s.registry.cache k).keys[handle]? = some key := by
    rw [Cache.keys, List.getElem?_map, here]
    rfl
  obtain ⟨⟨position, standing⟩, member⟩ := sound.asked k key (List.mem_of_getElem? listed)
  -- A key has one entry, so the handle that was given for it is this one.
  have there := sound.entry member
  have listed' : (s.registry.cache k).keys[position]? = some key := by
    rw [Cache.keys, List.getElem?_map, there]
    rfl
  have within := (List.getElem?_eq_some_iff.mp listed').1
  have same : position = handle :=
    (List.getElem?_inj within (sound.distinct k)).mp (listed'.trans listed.symm)
  exact ⟨key, standing, same ▸ member⟩

end Sound

def foundKeys (s : Session ι) (k : Kind) : List k.Key :=
  ((s.log k).filter fun entry => entry.2.isSome).map (·.1)

theorem Sound.length_cache (sound : s.Sound) :
    (s.registry.cache k).length = (s.foundKeys k).dedup.length := by
  have alike : (s.registry.cache k).keys.Perm (s.foundKeys k).dedup := by
    refine (List.perm_ext_iff_of_nodup (sound.distinct k) (List.nodup_dedup _)).mpr fun key => ?_
    rw [List.mem_dedup, foundKeys, List.mem_map]
    constructor
    · intro entered
      obtain ⟨hit, member⟩ := sound.asked k key entered
      exact ⟨(key, some hit), List.mem_filter.mpr ⟨member, rfl⟩, rfl⟩
    · rintro ⟨⟨key, result⟩, kept, rfl⟩
      obtain ⟨member, some⟩ := List.mem_filter.mp kept
      obtain ⟨hit, rfl⟩ := Option.isSome_iff_exists.mp some
      rw [← Cache.isSome_find?, sound.stands k key hit member]
      rfl
  simpa [Cache.keys] using alike.length_eq

theorem reaches_lookup [DecidableEq ι] {w : ι} (free : s.stage w = .idle) (q : Request) :
    ∃ t, Reaches s t ∧ t.registry = (s.registry.lookup s.resolver q).2 ∧
      t.log = (s.logged q (s.registry.lookup s.resolver q).1).log := by
  cases held : (s.registry.cache q.kind).find? q.key with
  | some hit =>
      rw [Registry.lookup_of_hit held]
      exact ⟨_, .single (.hit w q free held), rfl, rfl⟩
  | none =>
      have asks : (s.moved w (.missed q)).stage w = .missed q := Function.update_self ..
      have missed : Reaches s (s.moved w (.missed q)) := .single (.miss w q free held)
      cases answered : s.resolver.answer? q with
      | none =>
          rw [Registry.lookup_of_unknown held answered]
          exact ⟨_, missed.tail (.fail w q asks answered), rfl, rfl⟩
      | some found =>
          rw [Registry.lookup_of_answer held answered]
          have enters : ((s.moved w (.missed q)).moved w (.answered q found)).stage w =
              .answered q found := Function.update_self ..
          exact ⟨_, (missed.tail (.answer w q asks answered)).tail (.enter w q enters), rfl, rfl⟩

theorem changes_of_step [DecidableEq ι] (step : Step s t) :
    t.registry = s.registry ∨ ∃ q found, q.key ∉ (s.registry.cache q.kind).keys ∧
      t.registry = s.registry.setCache q.kind (s.registry.cache q.kind ++ [(q.key, found)]) ∧
      t.log = (s.logged q (some ((s.registry.cache q.kind).length, found))).log := by
  cases step.change with
  | silent registry log => exact .inl registry
  | unknown q method registry log => exact .inl registry
  | answered q found registry log =>
      cases held : (s.registry.cache q.kind).find? q.key with
      | some hit =>
          rw [entered_of_hit found held] at registry
          exact .inl registry
      | none =>
          rw [entered_of_missing found held] at registry log
          exact .inr ⟨q, found, Cache.find?_eq_none_iff.mp held, registry, log⟩

theorem unknown_of_step [DecidableEq ι] (step : Step s t)
    (without : t.log = (s.logged q none).log) : t.registry = s.registry ∧ q.kind = .method := by
  cases step.change with
  | silent registry log => exact absurd (without.symm.trans log) log_logged_ne
  | unknown q' method registry log =>
      exact ⟨registry, (eq_of_log_logged (without.symm.trans log)).1 ▸ method⟩
  | answered q' found registry log =>
      cases (eq_of_log_logged (without.symm.trans log)).2

/-- What was entered stands, and nothing else was entered or given. -/
structure WriteOnce [DecidableEq ι] (s : Session ι) : Prop where
  distinct : ∀ k, (s.registry.cache k).keys.Nodup
  agree : ∀ k key a b, (key, some a) ∈ s.log k → (key, some b) ∈ s.log k → a = b
  dense : ∀ k handle, (∃ key found, (key, some (handle, found)) ∈ s.log k) ↔
    handle < (s.registry.cache k).length
  apart : ∀ k key other handle a b, (key, some (handle, a)) ∈ s.log k →
    (other, some (handle, b)) ∈ s.log k → key = other
  /-- Behind a handle there is what was found with it, now and later. -/
  lasting : ∀ k key handle found, (key, some (handle, found)) ∈ s.log k → ∀ t, Reaches s t →
    (key, some (handle, found)) ∈ t.log k ∧
      (t.registry.cache k).at? handle = some found.value
  unknown : ∀ t q, Step s t → t.log = (s.logged q none).log →
    t.registry = s.registry ∧ q.kind = .method
  /-- The registry changes only if the lookup of a key without an entry finds an answer. -/
  changes : ∀ t, Step s t → t.registry = s.registry ∨ ∃ q found,
    q.key ∉ (s.registry.cache q.kind).keys ∧
      t.registry = s.registry.setCache q.kind (s.registry.cache q.kind ++ [(q.key, found)]) ∧
      t.log = (s.logged q (some ((s.registry.cache q.kind).length, found))).log
  stats : s.registry.stats = ⟨(s.foundKeys .type).dedup.length, (s.foundKeys .field).dedup.length,
    (s.foundKeys .method).dedup.length, (s.foundKeys .string).dedup.length⟩
  whole : ∀ w q, s.stage w = .idle → ∃ t, Reaches s t ∧
    t.registry = (s.registry.lookup s.resolver q).2 ∧
    t.log = (s.logged q (s.registry.lookup s.resolver q).1).log

/-- Whatever the workers do and whenever the resolver changes its mind, the registry is written
once. -/
theorem writeOnce_of_reaches [DecidableEq ι] {r : Resolver} (reached : Reaches (start ι r) s) :
    s.WriteOnce := by
  have sound := sound_of_reaches reached
  constructor
  case distinct => exact sound.distinct
  case agree =>
    intro k key a b first second
    exact Option.some.inj ((sound.stands k key a first).symm.trans (sound.stands k key b second))
  case dense =>
    intro k handle
    refine ⟨?_, sound.exists_lookup⟩
    rintro ⟨key, found, member⟩
    exact (List.getElem?_eq_some_iff.mp (sound.entry member)).1
  case apart =>
    intro k key other handle a b first second
    have same := (sound.entry first).symm.trans (sound.entry second)
    exact congrArg Prod.fst (Option.some.inj same)
  case lasting =>
    intro k key handle found member t later
    have kept := (grows_of_reaches later k).1.subset member
    refine ⟨kept, ?_⟩
    rw [Cache.at?, (sound_of_reaches (reached.trans later)).entry kept]
    rfl
  case unknown => exact fun t q => unknown_of_step
  case changes => exact fun t => changes_of_step
  case stats =>
    rw [Registry.stats_eq_lengths, sound.length_cache, sound.length_cache, sound.length_cache,
      sound.length_cache]
  case whole => exact fun w q free => reaches_lookup free q

def contested : Request := ⟨.type, ⟨0x01000001⟩, {}⟩

/-- Two workers miss a type. The catalog gets it before the second one asks, but the first one has
been told that it is unknown and is the first to enter its answer. -/
theorem contested_writeOnce : ∃ s : Session Bool,
    Reaches (start Bool ({} : Catalog).resolver) s ∧
      s.resolver.answer? contested = some ⟨.int32, true⟩ ∧
      s.log .type = [((⟨0x01000001⟩, {}), some (0, ⟨.unknown, false⟩)),
        ((⟨0x01000001⟩, {}), some (0, ⟨.unknown, false⟩))] ∧
      s.WriteOnce := by
  have misses : Reaches (start Bool ({} : Catalog).resolver) _ :=
    (Relation.ReflTransGen.single (.miss false contested rfl rfl)).tail
      (.miss true contested rfl rfl)
  have answers := (misses.tail (.answer false contested rfl rfl)).tail
    (.edit ({ types := [(contested.token, .int32)] } : Catalog).resolver)
  have reached := ((answers.tail (.answer true contested rfl rfl)).tail
    (.enter false contested rfl)).tail (.enter true contested rfl)
  exact ⟨_, reached, rfl, rfl, writeOnce_of_reaches reached⟩

end Session
end Destack
