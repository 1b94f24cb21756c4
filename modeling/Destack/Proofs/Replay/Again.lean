import Destack.Proofs.Replay.Faithful
import Destack.Proofs.Types.Lookups

/-!
# Replays that repeat themselves

A block that is replayed again on what its own replay left takes the same temporaries and needs no
others. It may change their types on the way, but in the end each has the type that it had before.
The queries are those of the first replay, so the registry has their answers.
-/

namespace Destack

theorem Variables.typeOf_setTemp_of_ne (vars : Variables) {id : Nat} (t : Ty) {v : Value}
    (other : v ≠ .temp id) : (vars.setTemp id t).typeOf v = vars.typeOf v := by
  cases v with
  | temp id' =>
      have differs : id ≠ id' := fun same => other (by rw [same])
      simp [typeOf, setTemp, differs]
  | _ => rfl

theorem Variables.eq_of_typeOf_eq {a b : Variables} (locals : a.locals = b.locals)
    (params : a.params = b.params) (merges : a.merges = b.merges)
    (size : a.temps.length = b.temps.length)
    (types : ∀ id, a.typeOf (.temp id) = b.typeOf (.temp id)) : a = b := by
  have temps : a.temps = b.temps := by
    refine List.ext_getElem size fun id bound bound' => ?_
    simpa [typeOf, bound, bound'] using types id
  cases a
  cases b
  simp_all

namespace Replay

variable {α β : Type} {entry given : List Value}

/-- Temporaries are taken in order and made only when the block has none left. Only temporaries
that are taken change their types. -/
structure Frames (p q : Progress) : Prop where
  made : q.vars.temps.length + p.temps.length = p.vars.temps.length + q.temps.length
  new : ∀ id ∈ q.temps, id ∈ p.temps ∨ p.vars.temps.length ≤ id
  distinct : Allocated p.vars p.temps → p.temps.Nodup → q.temps.Nodup
  filled : p.used ≤ p.temps.length → q.temps.length = max p.temps.length q.used
  kept : p.used ≤ p.temps.length → ∀ v,
    (∀ i id, p.used ≤ i → i < q.used → q.temps[i]? = some id → v ≠ .temp id) →
      q.vars.typeOf v = p.vars.typeOf v

namespace Frames

theorem of_eq {p q : Progress} (vars : q.vars = p.vars) (temps : q.temps = p.temps)
    (used : q.used = p.used) : Frames p q where
  made := by rw [vars, temps]
  new id member := .inl (temps ▸ member)
  distinct _ distinct := by rwa [temps]
  filled bounded := by
    rw [temps, used]
    omega
  kept _ v _ := by rw [vars]

theorem trans {p q r : Progress} (first : Frames p q) (second : Frames q r) (grows : Grows p q)
    (later : Grows q r) : Frames p r where
  made := by
    have := first.made
    have := second.made
    omega
  new id member := by
    rcases second.new id member with member | new
    · exact first.new id member
    · exact .inr (grows.allocation.trans new)
  distinct allocated distinct :=
    second.distinct (grows.allocated allocated) (first.distinct allocated distinct)
  filled bounded := by
    have here := first.filled bounded
    have there := second.filled (by omega)
    have := later.used
    omega
  kept bounded v apart := by
    have here := first.filled bounded
    have := grows.used
    have := later.used
    rw [second.kept (by omega) v fun i id lower upper => apart i id (by omega) upper]
    refine first.kept bounded v fun i id lower upper found => apart i id lower (by omega) ?_
    obtain ⟨more, extended⟩ := later.temps
    rw [← extended, List.getElem?_append_left (List.getElem?_eq_some_iff.mp found).1, found]

theorem temp (t : Ty) (p : Progress) : Frames p (final (temp t) p) := by
  cases found : p.temps[p.used]? with
  | some id =>
      simp only [final, temp_reused t found]
      have bounded := (List.getElem?_eq_some_iff.mp found).1
      refine ⟨?_, fun id member => .inl member, fun _ distinct => distinct, fun _ => ?_,
        fun _ v apart => ?_⟩
      · simp [Variables.setTemp]
      · dsimp only
        omega
      · exact p.vars.typeOf_setTemp_of_ne t
          (apart p.used id (Nat.le_refl _) (Nat.lt_succ_self _) found)
  | none =>
      simp only [final, temp_fresh t found]
      have full := List.getElem?_eq_none_iff.mp found
      refine ⟨?_, fun id member => ?_, fun allocated distinct => ?_, fun bounded => ?_,
        fun bounded v apart => ?_⟩
      · simp only [Variables.newTemp, List.length_append, List.length_singleton]
        omega
      · rcases List.mem_append.mp member with member | member
        · exact .inl member
        · exact .inr (List.mem_singleton.mp member).ge
      · refine List.Nodup.append distinct (List.nodup_singleton _) ?_
        exact List.disjoint_singleton.mpr fun member => Nat.lt_irrefl _ (allocated _ member)
      · simp only [List.length_append, List.length_singleton]
        omega
      · have here : (p.temps ++ [p.vars.temps.length])[p.used]? = some p.vars.temps.length := by
          rw [Nat.le_antisymm bounded full, List.getElem?_concat_length]
        have other := apart p.used _ (Nat.le_refl _) (Nat.lt_succ_self _) here
        rw [p.vars.typeOf_newTemp, if_neg other]

end Frames

structure Framed (x : Replay α) : Prop where
  grows : ∀ p, Grows p (final x p)
  frames : ∀ p, Frames p (final x p)

namespace Framed

theorem of_eq {x : Replay α} (leaves : ∀ p, (final x p).vars = p.vars ∧
      (final x p).temps = p.temps ∧ (final x p).used = p.used) : Framed x where
  grows p := .of_eq (leaves p).1 (leaves p).2.1 (leaves p).2.2
  frames p := .of_eq (leaves p).1 (leaves p).2.1 (leaves p).2.2

theorem bind {x : Replay α} {f : α → Replay β} (first : Framed x)
    (rest : ∀ a, Returns x a → Framed (f a)) : Framed (x >>= f) := by
  have both (p : Progress) :
      Grows p (final (x >>= f) p) ∧ Frames p (final (x >>= f) p) := by
    have grows := first.grows p
    have frames := first.frames p
    cases ran : x p with
    | ok a q =>
        simp only [final, ran] at grows frames
        have continued := rest a ⟨p, q, ran⟩
        rw [final_bind_ok ran]
        exact ⟨grows.trans (continued.grows q),
          frames.trans (continued.frames q) grows (continued.grows q)⟩
    | error e q =>
        rw [final_bind_error ran]
        exact ⟨grows, frames⟩
  exact ⟨fun p => (both p).1, fun p => (both p).2⟩

end Framed

structure Abreast (entry : List Value) (p q p' q' : Progress) : Prop where
  matching : Matches entry p' q'
  asked : ∃ log, p'.queries = p.queries ++ log ∧ q'.queries = q.queries ++ log

theorem Abreast.trans {p q p' q' p'' q'' : Progress} (first : Abreast entry p q p' q')
    (second : Abreast entry p' q' p'' q'') : Abreast entry p q p'' q'' := by
  obtain ⟨log, here, hereAgain⟩ := first.asked
  obtain ⟨more, there, thereAgain⟩ := second.asked
  refine ⟨second.matching, log ++ more, ?_, ?_⟩
  · rw [there, here, List.append_assoc]
  · rw [thereAgain, hereAgain, List.append_assoc]

structure Repeats (entry given : List Value) (x : Replay α) (gives : α → List Value) : Prop
    extends Faithful entry given x gives, Framed x where
  ends : ∀ p q, Matches entry p q → (∀ v ∈ given, Known entry p v) →
    (final x p).temps <+: q.temps → Abreast entry p q (final x p) (final x q)

namespace Repeats

theorem of_faithful {x : Replay α} {gives : α → List Value}
    (faithful : Faithful entry given x gives) (frames : ∀ p, Frames p (final x p))
    (silent : ∀ p, (final x p).queries = p.queries)
    (unharmed : ∀ p e q, x p = .error e q → q = p) : Repeats entry given x gives where
  toFaithful := faithful
  frames := frames
  ends p q matching known enough := by
    refine ⟨?_, [], by rw [silent, List.append_nil], by rw [silent, List.append_nil]⟩
    have agreed := faithful.agrees p q matching known enough
    simp only [final]
    cases ran : x p with
    | ok a after =>
        cases ranAgain : x q with
        | ok b afterAgain =>
            rw [ran, ranAgain] at agreed
            cases agreed with
            | ok matchingAfter _ => exact matchingAfter
        | error e afterAgain =>
            rw [ran, ranAgain] at agreed
            cases agreed
    | error e after =>
        cases ranAgain : x q with
        | ok b afterAgain =>
            rw [ran, ranAgain] at agreed
            cases agreed
        | error e' afterAgain =>
            rw [unharmed p e after ran, unharmed q e' afterAgain ranAgain]
            exact matching

theorem of_quiet {x : Replay α} {gives : α → List Value} (faithful : Faithful entry given x gives)
    (quiet : ∀ p, (final x p).vars = p.vars ∧ (final x p).temps = p.temps ∧
      (final x p).used = p.used ∧ (final x p).queries = p.queries)
    (unharmed : ∀ p e q, x p = .error e q → q = p) : Repeats entry given x gives :=
  of_faithful faithful (fun p => .of_eq (quiet p).1 (quiet p).2.1 (quiet p).2.2.1)
    (fun p => (quiet p).2.2.2) unharmed

theorem bind {x : Replay α} {f : α → Replay β} {middle : α → List Value} {gives : β → List Value}
    (first : Repeats entry given x middle)
    (rest : ∀ a, Returns x a → Repeats entry (middle a ++ given) (f a) gives) :
    Repeats entry given (x >>= f) gives where
  toFaithful := first.toFaithful.bind fun a returns => (rest a returns).toFaithful
  frames := (first.toFramed.bind fun a returns => (rest a returns).toFramed).frames
  ends p q matching known enough := by
    have ended := first.ends p q matching known
    have agreed := first.agrees p q matching known
    have grows := first.grows p
    have growsAgain := first.grows q
    cases ran : x p with
    | ok a after =>
        have continued := rest a ⟨p, after, ran⟩
        rw [final_bind_ok ran] at enough ⊢
        simp only [final, ran] at ended agreed grows growsAgain
        have enoughHere : after.temps <+: q.temps := (continued.grows after).temps.trans enough
        cases ranAgain : x q with
        | ok b afterAgain =>
            rw [ranAgain] at agreed
            simp only [ranAgain] at ended growsAgain
            cases agreed enoughHere with
            | ok matchingAfter handed =>
                rw [final_bind_ok ranAgain]
                refine (ended enoughHere).trans (continued.ends after afterAgain matchingAfter ?_
                  (enough.trans growsAgain.temps))
                intro v member
                rcases List.mem_append.mp member with member | member
                · exact handed v member
                · exact (known v member).mono grows
        | error e afterAgain =>
            rw [ranAgain] at agreed
            cases agreed enoughHere
    | error e after =>
        rw [final_bind_error ran] at enough ⊢
        cases ranAgain : x q with
        | ok b afterAgain =>
            have agreed := agreed enough
            rw [ran, ranAgain] at agreed
            cases agreed
        | error e' afterAgain =>
            rw [final_bind_error ranAgain]
            exact ended enough

theorem ret {gives : α → List Value} {a : α} (usable : ∀ v ∈ gives a, Usable given v) :
    Repeats entry given (pure a) gives :=
  of_quiet (.ret usable) (fun _ => ⟨rfl, rfl, rfl, rfl⟩) (fun _ _ _ ran => by cases ran)

theorem fail {gives : α → List Value} (e : ReplayError) :
    Repeats entry given (throw e : Replay α) gives :=
  of_quiet (.fail e) (fun _ => ⟨rfl, rfl, rfl, rfl⟩) (fun _ _ _ ran => by cases ran; rfl)

theorem look {gives : α → List Value} {f : Progress → α}
    (depends : ∀ p q : Progress, q.stack = p.stack → q.stmts = p.stmts →
      (∀ v, Usable given v → q.vars.typeOf v = p.vars.typeOf v) → f q = f p)
    (usable : ∀ p, ∀ v ∈ gives (f p), Usable given v) : Repeats entry given (inspect f) gives :=
  of_quiet (.look depends usable) (fun _ => ⟨rfl, rfl, rfl, rfl⟩) (fun _ _ _ ran => by cases ran)

theorem take {x : Replay α} {gives : α → List Value}
    {f : OperandStack → Except ReplayError (α × OperandStack)}
    (faithful : Faithful entry given x gives) (takes : ∀ p, x p = withStack p (f p.stack)) :
    Repeats entry given x gives := by
  refine of_quiet faithful (fun p => ?_) (fun p e q ran => ?_)
  · simp only [final, takes]
    cases f p.stack <;> exact ⟨rfl, rfl, rfl, rfl⟩
  · rw [takes] at ran
    cases taken : f p.stack <;> rw [taken] at ran <;> cases ran
    rfl

theorem ask (query : Query) : Repeats entry given (ask query) nothing where
  toFaithful := .ask query
  frames _ := .of_eq rfl rfl rfl
  ends _ _ matching _ _ := ⟨{ matching with }, [query], rfl, rfl⟩

theorem change {f : Progress → Progress} (faithful : Faithful entry given (modify f) nothing)
    (quiet : ∀ p, (f p).vars = p.vars ∧ (f p).temps = p.temps ∧ (f p).used = p.used ∧
      (f p).queries = p.queries) : Repeats entry given (modify f) nothing :=
  of_quiet faithful quiet (fun _ _ _ ran => by cases ran)

theorem temp (t : Ty) : Repeats entry given (temp t) fun v => [v] := by
  refine of_faithful (.temp t) (Frames.temp t) (fun p => ?_) (fun p e q ran => ?_)
  · cases found : p.temps[p.used]? with
    | some id => simp only [final, temp_reused t found]
    | none => simp only [final, temp_fresh t found]
  · cases found : p.temps[p.used]? with
    | some id => simp [temp_reused t found] at ran
    | none => simp [temp_fresh t found] at ran

end Repeats

def repeating (entry : List Value) : Uniform where
  holds given x gives := Repeats entry given x gives
  ret := Repeats.ret
  bind := Repeats.bind
  fail := Repeats.fail
  look := Repeats.look
  note kind instruction message :=
    Repeats.change (.note kind instruction message) fun _ => ⟨rfl, rfl, rfl, rfl⟩
  ask := Repeats.ask
  pop i := Repeats.take (.pop i) (pop_apply i)
  popMany i count := Repeats.take (.popMany i count) (popMany_apply i count)
  peekMany i count := Repeats.take (f := fun stack =>
    (stack.popMany count i.opcode i.index).map fun both => (both.1, stack)) (.peekMany i count)
    (peekMany_apply i count)
  push usable := Repeats.change (.push usable) fun _ => ⟨rfl, rfl, rfl, rfl⟩
  clear := Repeats.change .clear fun _ => ⟨rfl, rfl, rfl, rfl⟩
  temp := Repeats.temp
  contains v := Repeats.of_quiet (.contains v) (fun _ => ⟨rfl, rfl, rfl, rfl⟩)
    (fun _ _ _ ran => by cases ran)
  replace usable := Repeats.change (.replace usable) fun _ => ⟨rfl, rfl, rfl, rfl⟩
  emitAll stmts := Repeats.change (.emitAll stmts) fun _ => ⟨rfl, rfl, rfl, rfl⟩

end Replay

open Replay

theorem Block.replay_repeats (cx : Context) (l : Listing) (b : Block) (entry : List Value) :
    Repeats entry [] (b.replay cx l) nothing :=
  (repeating entry).replay cx b.exception (b.instructions l)

theorem replayBlock_snd (cx : Context) (l : Listing) (b : Block) (entry : List Value)
    (s : Shared) :
    (replayBlock cx l b entry s).2 =
      ⟨(final (b.replay cx l) (s.begin entry)).vars, (final (b.replay cx l) (s.begin entry)).temps,
        (final (b.replay cx l) (s.begin entry)).queries⟩ := by
  rw [replayBlock_eq, final]
  cases b.replay cx l (s.begin entry) <;> rfl

def Apart (vars : Variables) (temps : List Nat) (entry : List Value) : Prop :=
  ∀ id, .temp id ∈ entry → id ∉ temps ∧ id < vars.temps.length

theorem typeOf_entry {entry : List Value} {p q : Progress} (frames : Frames p q)
    (bounded : p.used ≤ p.temps.length) (apart : Apart p.vars p.temps entry) {v : Value}
    (member : v ∈ entry) : q.vars.typeOf v = p.vars.typeOf v := by
  refine frames.kept bounded v fun i id _ _ found same => ?_
  subst same
  obtain ⟨foreign, made⟩ := apart id member
  rcases frames.new id (List.mem_of_getElem? found) with own | new
  · exact foreign own
  · omega

theorem eq_of_abreast {entry : List Value} {p q after : Progress} (matching : Matches entry p after)
    (frames : Frames q after) (grows : Grows q after) (vars : q.vars = p.vars)
    (temps : q.temps = p.temps) (fresh : q.used = 0) :
    after.vars = p.vars ∧ after.temps = p.temps := by
  -- The second of two replays abreast, which starts with what the first one left, leaves the
  -- same: it takes the temporaries that the first one took, and gives each the type that it has.
  have bounded : q.used ≤ q.temps.length := by omega
  have sameTemps : after.temps = p.temps := by
    rw [← temps]
    refine (grows.temps.eq_of_length ?_).symm
    have := frames.filled bounded
    have := matching.used_le
    have := matching.used
    rw [temps] at *
    omega
  refine ⟨?_, sameTemps⟩
  refine Variables.eq_of_typeOf_eq (grows.locals.trans (congrArg _ vars))
    (grows.params.trans (congrArg _ vars)) (grows.merges.trans (congrArg _ vars)) ?_ fun id => ?_
  · have made := frames.made
    rw [sameTemps, temps, vars] at made
    omega
  -- The second replay gave the temporaries that it took the types of the first, and took no others.
  · by_cases known : Known entry p (.temp id)
    · exact matching.types _ known
    · rw [← vars]
      refine frames.kept bounded _ fun i taken _ used found same => known (.inr ?_)
      exact ⟨i, matching.used ▸ used, taken, sameTemps ▸ found, same⟩

theorem replayBlock_repeats {cx : Context} {l : Listing} {b : Block} {entry : List Value}
    {s t : Shared} {r : Except ReplayError BlockOutput} (asked : List Query)
    (ran : replayBlock cx l b entry s = (r, t)) (allocated : Allocated s.vars s.temps)
    (apart : Apart s.vars s.temps entry) :
    ∃ log, t.queries = s.queries ++ log ∧
      replayBlock cx l b entry ⟨t.vars, t.temps, asked⟩ = (r, ⟨t.vars, t.temps, asked ++ log⟩) := by
  have repeats := b.replay_repeats cx l entry
  have grows := repeats.grows (s.begin entry)
  have frames := repeats.frames (s.begin entry)
  have left : t = _ := ran ▸ replayBlock_snd cx l b entry s
  have types (v : Value) (member : v ∈ entry) : t.vars.typeOf v = s.vars.typeOf v := by
    rw [left]
    exact typeOf_entry frames (Nat.zero_le _) apart member
  let again : Shared := ⟨t.vars, t.temps, asked⟩
  have ended : Abreast entry (s.begin entry) (again.begin entry)
      (final (b.replay cx l) (s.begin entry)) (final (b.replay cx l) (again.begin entry)) := by
    refine repeats.ends _ _ (matches_begin ?_ allocated ?_ ?_ ?_ types) (by simp) ?_
    all_goals simp only [again, left, Shared.begin]
    · exact grows.temps
    · exact grows.allocated allocated
    · exact grows.locals
    · exact grows.params
    · exact List.prefix_rfl
  have result : (replayBlock cx l b entry again).1 = r := by
    refine replayBlock_again ran List.prefix_rfl allocated ?_ ?_ ?_ types
    all_goals simp only [again, left]
    · exact grows.allocated allocated
    · exact grows.locals
    · exact grows.params
  have settled := eq_of_abreast ended.matching (repeats.frames _) (repeats.grows _)
    (congrArg Shared.vars left) (congrArg Shared.temps left) rfl
  obtain ⟨log, here, hereAgain⟩ := ended.asked
  refine ⟨log, by rw [left, here]; rfl, Prod.ext result ?_⟩
  rw [replayBlock_snd, settled.1, settled.2, hereAgain, left]
  rfl

structure Holdings where
  vars : Variables
  temps : List Nat
  registry : Registry

structure BlockSetting where
  resolver : Resolver
  generics : GenericArgs
  returnType : Ty
  scopes : List (Scope Ty)
  expandArrays : Bool
  listing : Listing
  block : Block

def BlockSetting.replay (x : BlockSetting) (entry : List Value) (h : Holdings) :
    Except ReplayError BlockOutput × Holdings :=
  let cx : Context :=
    ⟨h.registry.view x.resolver x.generics, x.returnType, x.scopes, x.expandArrays⟩
  let (result, t) := replayBlock cx x.listing x.block entry ⟨h.vars, h.temps, []⟩
  (result, ⟨t.vars, t.temps, h.registry.record x.resolver x.generics t.queries⟩)

/-- A block that is replayed again, with the same entry stack and on what the first replay left,
gives the same and leaves everything as it is. -/
theorem BlockSetting.replay_replay (x : BlockSetting) {entry : List Value} {h : Holdings}
    (allocated : Allocated h.vars h.temps) (apart : Apart h.vars h.temps entry) :
    x.replay entry (x.replay entry h).2 = x.replay entry h := by
  obtain ⟨r, t, ran⟩ : ∃ r t, replayBlock
      ⟨h.registry.view x.resolver x.generics, x.returnType, x.scopes, x.expandArrays⟩ x.listing
      x.block entry ⟨h.vars, h.temps, []⟩ = (r, t) := ⟨_, _, rfl⟩
  obtain ⟨log, asked, again⟩ := replayBlock_repeats [] ran allocated apart
  rw [List.nil_append] at asked again
  subst asked
  have first : x.replay entry h =
      (r, ⟨t.vars, t.temps, h.registry.record x.resolver x.generics t.queries⟩) := by
    rw [replay, ran]
  rw [first, replay]
  dsimp only
  rw [Registry.view_record, again, Registry.record_record]

def boxProduct : BlockSetting where
  resolver := ({} : Catalog).resolver
  generics := {}
  returnType := .object
  scopes := []
  expandArrays := true
  listing := .ofOps
    [(.ldarg0, .none), (.mul, .none), (.box, .token ⟨0x02000001⟩), (.ret, .none)]
  block := ⟨0, 3, [], [], none⟩

def boxHoldings : Holdings where
  vars := { params := [.int32], temps := [.int32, .string] }
  temps := [1]
  registry := {}

theorem boxProduct_replay :
    (Allocated boxHoldings.vars boxHoldings.temps ∧
      Apart boxHoldings.vars boxHoldings.temps [.temp 0]) ∧
    (boxProduct.replay [.temp 0] boxHoldings).2.temps = [1, 2] ∧
    boxProduct.replay [.temp 0] (boxProduct.replay [.temp 0] boxHoldings).2 =
      boxProduct.replay [.temp 0] boxHoldings := by
  have allocated : Allocated boxHoldings.vars boxHoldings.temps := by
    unfold Allocated
    decide
  have apart : Apart boxHoldings.vars boxHoldings.temps [.temp 0] := by
    intro id member
    obtain rfl : id = 0 := by simpa using member
    decide
  exact ⟨⟨allocated, apart⟩, by decide +kernel, boxProduct.replay_replay allocated apart⟩

end Destack
