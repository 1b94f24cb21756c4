import Destack.Compile.Method
import Destack.Proofs.Replay.Pairing

/-!
# What a compilation can know

A compilation learns about the names of a program only from the answers to its queries. Under two
views it does the same until it makes a query that they answer differently: what it asks next
depends on the answers so far, and so does its result once it asks no more.
-/

namespace Destack

/-- Two logs begin in the same way, up to a query that the views answer differently. -/
def Parted (v w : View) (log other : List Query) : Prop :=
  ∃ asked q, v.answer q ≠ w.answer q ∧ asked ++ [q] <+: log ∧ asked ++ [q] <+: other

theorem Parted.extend {v w : View} {log other longer wider : List Query}
    (parted : Parted v w log other) (goesOn : log <+: longer) (also : other <+: wider) :
    Parted v w longer wider := by
  obtain ⟨asked, q, differ, here, there⟩ := parted
  exact ⟨asked, q, differ, here.trans goesOn, there.trans also⟩

namespace Replay

variable {α β : Type} {v w : View}

theorem Logs.extends {x : Replay α} (logs : Logs x) (p : Progress) :
    p.queries <+: (final x p).queries := by
  have ran := logs p.queries { p with queries := [] }
  rw [List.append_nil] at ran
  change x p = _ at ran
  unfold final
  rw [ran]
  cases x { p with queries := [] } <;> exact List.prefix_append _ _

theorem final_extends_bind {x : Replay α} {f : α → Replay β} (rest : ∀ a, Logs (f a))
    (p : Progress) : (final x p).queries <+: (final (x >>= f) p).queries := by
  cases ran : x p with
  | ok a q =>
      rw [final_bind_ok ran]
      unfold final
      rw [ran]
      exact (rest a).extends q
  | error e q =>
      unfold final
      rw [bind_apply, ran]

/-- Steps that do the same under two views, unless they make a query on which these differ. -/
structure Alike (v w : View) (x y : Replay α) : Prop where
  logs : Logs x
  otherLogs : Logs y
  same : ∀ p, x p = y p ∨ Parted v w (final x p).queries (final y p).queries

namespace Alike

theorem refl {x : Replay α} (logs : Logs x) : Alike v w x x := ⟨logs, logs, fun _ => .inl rfl⟩

theorem seq {x y : Replay α} {f g : α → Replay β} (first : Alike v w x y)
    (rest : ∀ a, Alike v w (f a) (g a)) : Alike v w (x >>= f) (y >>= g) where
  logs := first.logs.seq fun a => (rest a).logs
  otherLogs := first.otherLogs.seq fun a => (rest a).otherLogs
  same p := by
    obtain agrees | parted := first.same p
    · cases ran : x p with
      | ok a q =>
          have other : y p = .ok a q := agrees ▸ ran
          rw [final_bind_ok ran, final_bind_ok other, bind_apply, bind_apply, ran, other]
          exact (rest a).same q
      | error e q =>
          have other : y p = .error e q := agrees ▸ ran
          left
          rw [bind_apply, bind_apply, ran, other]
    · right
      exact parted.extend (final_extends_bind (fun a => (rest a).logs) p)
        (final_extends_bind (fun a => (rest a).otherLogs) p)

theorem asking (q : Query) {f : q.Answer → Replay α} (rest : ∀ a, Logs (f a)) :
    Alike v w (ask q >>= fun _ => f (v.answer q)) (ask q >>= fun _ => f (w.answer q)) where
  logs := (Logs.ask q).seq fun _ => rest _
  otherLogs := (Logs.ask q).seq fun _ => rest _
  same p := by
    by_cases agree : v.answer q = w.answer q
    · rw [agree]
      exact .inl rfl
    · right
      refine ⟨p.queries, q, agree, ?_, ?_⟩
      all_goals exact (rest _).extends { p with queries := p.queries ++ [q] }

end Alike

section Lookups

variable (cx : Context) (w : View)

def alike (i : Instruction Nat) : Pairing cx w i i where
  rel := Alike cx.view w
  same := .refl
  seq := .seq
  index := rfl
  operand := rfl
  malformed := .refl fun _ _ => rfl
  unsupported := .refl fun _ _ => rfl
  unbalanced _ := .refl fun _ _ => rfl
  pop := .refl (.pop i)
  popMany count := .refl (.popMany i count)
  asking := .asking

theorem performAll_alike (l : Listing) :
    Alike cx.view w (performAll cx l) (performAll (cx.seeing w) l) := by
  induction l with
  | nil => exact .refl fun _ _ => rfl
  | cons i rest ih => exact ((alike cx w i).perform _).seq fun _ => ih

end Lookups
end Replay

open Replay

theorem Block.replay_alike (cx : Context) (w : View) (l : Listing) (b : Block) :
    Alike cx.view w (b.replay cx l) (b.replay (cx.seeing w) l) :=
  (Alike.refl (.receive _)).seq fun _ => performAll_alike cx w _

theorem replayBlock_queries (cx : Context) (l : Listing) (b : Block) (entry : List Value)
    (s : Shared) : (replayBlock cx l b entry s).2.queries =
      (final (b.replay cx l) (s.begin entry)).queries := by
  rw [replayBlock_eq]
  unfold final
  cases b.replay cx l (s.begin entry) <;> rfl

theorem replayBlock_alike (cx : Context) (w : View) (l : Listing) (b : Block) (entry : List Value)
    (s : Shared) : replayBlock cx l b entry s = replayBlock (cx.seeing w) l b entry s ∨
      Parted cx.view w (replayBlock cx l b entry s).2.queries
        (replayBlock (cx.seeing w) l b entry s).2.queries := by
  rw [replayBlock_queries, replayBlock_queries]
  apply ((b.replay_alike cx w l).same (s.begin entry)).imp_left
  intro same
  rw [replayBlock_eq, replayBlock_eq, same]

def Job.seeing (job : Job) (w : View) : Job := { job with cx := job.cx.seeing w }

namespace Build

variable (job : Job) (w : View)

theorem visit_alike (id : Nat) (s : Build) :
    visit job id s = visit (job.seeing w) id s ∨
      Parted job.cx.view w (visit job id s).2.queries (visit (job.seeing w) id s).2.queries := by
  unfold visit
  cases s.sites[id]? with
  | none => exact .inl rfl
  | some site =>
      dsimp only
      rw [show (job.seeing w).graph = job.graph from rfl]
      cases candidate job.graph s id site with
      | error e => exact .inl rfl
      | ok c =>
          have replayed := replayBlock_alike job.cx w job.listing site.block c.entry
            ⟨c.vars, site.temps, s.queries⟩
          dsimp only
          split
          · exact .inl rfl
          · rw [show (job.seeing w).maxVisits = job.maxVisits from rfl]
            split
            · exact .inl rfl
            · rw [show replayBlock (job.seeing w).cx (job.seeing w).listing =
                replayBlock (job.cx.seeing w) job.listing from rfl]
              obtain same | parted := replayed
              · rw [same]
                exact .inl rfl
              · right
                revert parted
                cases replayBlock job.cx job.listing site.block c.entry
                  ⟨c.vars, site.temps, s.queries⟩ with
                | mk r shared =>
                    cases replayBlock (job.cx.seeing w) job.listing site.block c.entry
                      ⟨c.vars, site.temps, s.queries⟩ with
                    | mk r' shared' =>
                        cases r <;> cases r' <;> exact fun parted => parted

theorem search_extends (worklist : List Nat) (count : Nat) (s : Build) :
    s.queries <+: (search job worklist count s).2.queries := by
  have ran := search_after job worklist count s.queries { s with queries := [] }
  rw [show ({ s with queries := [] } : Build).after s.queries = s by simp [after]] at ran
  rw [ran]
  exact List.prefix_append _ _

theorem visit_extends_cons (id : Nat) (rest : List Nat) (count : Nat) (s : Build) :
    (visit job id s).2.queries <+: (search job (id :: rest) count s).2.queries := by
  rw [search_cons]
  split <;> rename_i visited <;> rw [visited]
  · exact search_extends job ..
  · exact search_extends job ..

theorem visit_extends_nil {id : Nat} {s : Build} (found : unvisited? s.sites = some id)
    (count : Nat) : (visit job id s).2.queries <+: (search job [] count s).2.queries := by
  rw [search_nil, found]
  dsimp only
  split <;> rename_i visited <;> rw [visited]
  exact search_extends job ..

theorem search_alike (worklist : List Nat) (count : Nat) (s : Build) :
    search job worklist count s = search (job.seeing w) worklist count s ∨
      Parted job.cx.view w (search job worklist count s).2.queries
        (search (job.seeing w) worklist count s).2.queries := by
  -- Visits that part settle the matter; otherwise both searches go on from the same state.
  have consParted {id : Nat} (rest : List Nat) (count : Nat) {s : Build}
      (parted : Parted job.cx.view w (visit job id s).2.queries
        (visit (job.seeing w) id s).2.queries) :
      Parted job.cx.view w (search job (id :: rest) count s).2.queries
        (search (job.seeing w) (id :: rest) count s).2.queries :=
    parted.extend (visit_extends_cons ..) (visit_extends_cons ..)
  have nilParted {id : Nat} (count : Nat) {s : Build} (found : unvisited? s.sites = some id)
      (parted : Parted job.cx.view w (visit job id s).2.queries
        (visit (job.seeing w) id s).2.queries) :
      Parted job.cx.view w (search job [] count s).2.queries
        (search (job.seeing w) [] count s).2.queries :=
    parted.extend (visit_extends_nil _ found _) (visit_extends_nil _ found _)
  induction worklist, count, s using search.induct job with
  | case1 count s id rest e after visited =>
      refine (visit_alike job w id s).imp (fun same => ?_) (consParted rest count)
      rw [search_cons, search_cons, ← same, visited]
  | case2 count s id rest after visited ih =>
      obtain same | parted := visit_alike job w id s
      · rw [search_cons, search_cons, ← same, visited]
        exact ih
      · exact .inr (consParted rest count parted)
  | case3 count s id rest changed after visited next ih =>
      obtain same | parted := visit_alike job w id s
      · rw [search_cons, search_cons, ← same, visited]
        cases changed <;> exact ih
      · exact .inr (consParted rest count parted)
  | case4 count s seen =>
      left
      rw [search_nil, search_nil, seen]
  | case5 count s id found e after visited =>
      refine (visit_alike job w id s).imp (fun same => ?_) (nilParted count found)
      rw [search_nil, search_nil, found]
      dsimp only
      rw [← same, visited]
  | case6 count s id found after visited =>
      refine (visit_alike job w id s).imp (fun same => ?_) (nilParted count found)
      rw [search_nil, search_nil, found]
      dsimp only
      rw [← same, visited]
  | case7 count s id found changed after visited next ih =>
      obtain same | parted := visit_alike job w id s
      · rw [search_nil, search_nil, found]
        dsimp only
        rw [← same, visited]
        cases changed <;> exact ih
      · exact .inr (nilParted count found parted)

theorem converge_alike (s : Build) :
    converge job s = converge (job.seeing w) s ∨
      Parted job.cx.view w (converge job s).2.queries (converge (job.seeing w) s).2.queries :=
  search_alike job w _ 0 s

end Build

namespace Build

theorem converge_extends (job : Job) (s : Build) : s.queries <+: (converge job s).2.queries :=
  search_extends job _ 0 s

end Build

namespace MethodCode

variable {m : MethodCode} {o : Options} {v w : View}

theorem conclude_snd (clauses : List (Scope Token)) (graph : Graph)
    (found : Except ReplayError Nat × Build) :
    (m.conclude v o clauses graph found).2 = found.2.queries := by
  obtain ⟨e | count, s⟩ := found <;> rfl

theorem caught_extends_compile {listing : Listing} {clauses : List (Scope Token)}
    (reading : m.read = .ok (listing, clauses)) :
    (clauses.filterMap caught?).map .type <+: (m.compile v o).2 := by
  unfold compile
  rw [reading]
  dsimp only
  cases Graph.build listing (clauses.map (typedScope v)) with
  | error e => exact List.prefix_rfl
  | ok graph =>
      have logged := Build.converge_extends (m.job v o listing (clauses.map (typedScope v)) graph)
        { Build.start graph m.vars with queries := (clauses.filterMap caught?).map .type }
      rwa [← conclude_snd] at logged

theorem typedScope_congr {s : Scope Token}
    (agree : ∀ token, caught? s = some token → v.type token = w.type token) :
    typedScope v s = typedScope w s := by
  unfold typedScope
  cases kind : s.kind with
  | catchBlock token => simp only [agree token (by rw [caught?, kind])]
  | _ => rfl

theorem scopeDiagnostic?_congr {s : Scope Token}
    (agree : ∀ token, caught? s = some token → v.type token = w.type token) :
    scopeDiagnostic? v s = scopeDiagnostic? w s := by
  unfold scopeDiagnostic?
  cases caught : caught? s with
  | none => rfl
  | some token => simp only [Option.bind_some, agree token caught]

theorem compile_parted {listing : Listing} {clauses : List (Scope Token)}
    (reading : m.read = .ok (listing, clauses)) {token : Token}
    (caught : token ∈ clauses.filterMap caught?) (differ : v.type token ≠ w.type token) :
    Parted v w (m.compile v o).2 (m.compile w o).2 := by
  obtain ⟨before, rest, split⟩ := List.append_of_mem caught
  refine Parted.extend ⟨before.map .type, .type token, differ, ?_, ?_⟩
    (caught_extends_compile reading) (caught_extends_compile reading)
  all_goals
    rw [split]
    exact ⟨rest.map .type, by simp⟩

theorem compile_alike (m : MethodCode) (o : Options) (v w : View) :
    m.compile v o = m.compile w o ∨ Parted v w (m.compile v o).2 (m.compile w o).2 := by
  cases reading : m.read with
  | error e =>
      left
      unfold compile
      rw [reading]
  | ok both =>
      obtain ⟨listing, clauses⟩ := both
      by_cases agree : ∀ token ∈ clauses.filterMap caught?, v.type token = w.type token
      · have each : ∀ s ∈ clauses, ∀ token, caught? s = some token → v.type token = w.type token :=
          fun s member token caught => agree token (List.mem_filterMap.mpr ⟨s, member, caught⟩)
        have scopes : clauses.map (typedScope w) = clauses.map (typedScope v) :=
          List.map_congr_left fun s member => (typedScope_congr (each s member)).symm
        have diagnostics : clauses.filterMap (scopeDiagnostic? w) =
            clauses.filterMap (scopeDiagnostic? v) :=
          List.filterMap_congr fun s member => (scopeDiagnostic?_congr (each s member)).symm
        have concluded : m.conclude w o clauses = m.conclude v o clauses := by
          funext graph found
          obtain ⟨e | count, s⟩ := found <;> simp only [conclude, scopes, diagnostics]
        unfold compile
        rw [reading]
        dsimp only
        rw [scopes, concluded]
        cases Graph.build listing (clauses.map (typedScope v)) with
        | error e => exact .inl rfl
        | ok graph =>
            dsimp only
            rw [show m.job w o listing (clauses.map (typedScope v)) graph =
              (m.job v o listing (clauses.map (typedScope v)) graph).seeing w from rfl]
            obtain same | parted := Build.converge_alike
              (m.job v o listing (clauses.map (typedScope v)) graph) w
              { Build.start graph m.vars with queries := (clauses.filterMap caught?).map .type }
            · rw [same]
              exact .inl rfl
            · right
              rwa [conclude_snd, conclude_snd]
      · push Not at agree
        obtain ⟨token, caught, differ⟩ := agree
        exact .inr (compile_parted reading caught differ)

/-- A view that answers the first queries as another one is asked the same query next, and gives
the same result if there is none. -/
theorem compile_told {n : Nat}
    (told : ∀ q ∈ (m.compile v o).2.take n, w.answer q = v.answer q) :
    (m.compile w o).2[n]? = (m.compile v o).2[n]? ∧
      ((m.compile v o).2.length ≤ n → m.compile w o = m.compile v o) := by
  obtain same | ⟨asked, q, differ, here, there⟩ := compile_alike m o v w
  · rw [same]
    exact ⟨rfl, fun _ => rfl⟩
  · have late : n ≤ asked.length := by
      by_contra early
      have among := List.prefix_take_iff.mpr ⟨here, by simpa using Nat.lt_of_not_le early⟩
      exact differ (told q (among.subset (by simp))).symm
    have within : n < (asked ++ [q]).length := by simpa using Nat.lt_succ_of_le late
    constructor
    · obtain ⟨rest, log⟩ := here
      obtain ⟨other, otherLog⟩ := there
      rw [← log, ← otherLog, List.getElem?_append_left within, List.getElem?_append_left within]
    · intro ended
      exact absurd within (Nat.not_lt.mpr (here.length_le.trans ended))

end MethodCode
end Destack
