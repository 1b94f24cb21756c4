import Destack.Proofs.Layout.Assigned
import Destack.Proofs.Replay.Again

namespace Destack

open Replay

def Value.temp? : Value → Option Nat
  | .temp id => some id
  | _ => none

namespace Stmt

def temps (stmts : List Stmt) : List Nat := (defines stmts).filterMap Value.temp?

@[simp] theorem temps_append (front back : List Stmt) :
    temps (front ++ back) = temps front ++ temps back := by
  simp [temps]

theorem temps_cons (s : Stmt) (stmts : List Stmt) : temps (s :: stmts) = temps [s] ++ temps stmts :=
  temps_append [s] stmts

theorem temps_eq_nil {stmts : List Stmt}
    (none : ∀ s ∈ stmts, ∀ id, s.defined? ≠ some (.temp id)) : temps stmts = [] := by
  rw [temps, List.filterMap_eq_nil_iff]
  intro v member
  obtain ⟨s, listed, defined⟩ := mem_defines.mp member
  cases v with
  | temp id => exact absurd defined (none s listed id)
  | _ => rfl

theorem temps_eq_filterMap (stmts : List Stmt) :
    temps stmts = stmts.filterMap fun s => s.defined?.bind Value.temp? :=
  List.filterMap_filterMap

theorem mem_temps {stmts : List Stmt} {k id : Nat} {s : Stmt} (found : stmts[k]? = some s)
    (defined : s.defined? = some (.temp id)) : id ∈ temps stmts :=
  List.mem_filterMap.mpr
    ⟨_, mem_defines.mpr ⟨s, List.mem_of_getElem? found, defined⟩, rfl⟩

theorem eq_of_temps_nodup {stmts : List Stmt} (distinct : (temps stmts).Nodup) {i j id : Nat}
    {s t : Stmt} (here : stmts[i]? = some s) (there : stmts[j]? = some t)
    (first : s.defined? = some (.temp id)) (second : t.defined? = some (.temp id)) : i = j := by
  rw [temps_eq_filterMap, List.Nodup, List.pairwise_filterMap, List.pairwise_iff_getElem]
    at distinct
  obtain ⟨inside, rfl⟩ := List.getElem?_eq_some_iff.mp here
  obtain ⟨within, rfl⟩ := List.getElem?_eq_some_iff.mp there
  have one : stmts[i].defined?.bind Value.temp? = some id := by simp [first, Value.temp?]
  have two : stmts[j].defined?.bind Value.temp? = some id := by simp [second, Value.temp?]
  rcases Nat.lt_trichotomy i j with less | same | more
  · exact absurd rfl (distinct i j inside within less id one id two)
  · exact same
  · exact absurd rfl (distinct j i within inside more id two id one)

end Stmt

namespace Replay

theorem temp_takes {t : Ty} {p q : Progress} {id : Nat} (made : temp t p = .ok (.temp id) q)
    (bounded : p.used ≤ p.temps.length) :
    q.used ≤ q.temps.length ∧ q.temps.take q.used = p.temps.take p.used ++ [id] := by
  cases found : p.temps[p.used]? with
  | some next =>
      rw [temp_reused t found] at made
      cases made
      exact ⟨(List.getElem?_eq_some_iff.mp found).1, by rw [List.take_add_one, found]; rfl⟩
  | none =>
      rw [temp_fresh t found] at made
      cases made
      have all : p.used = p.temps.length := bounded.antisymm (List.getElem?_eq_none_iff.mp found)
      simp [all]

structure Taken (p : Progress) : Prop where
  bounded : p.used ≤ p.temps.length
  assigned : Stmt.temps p.stmts = p.temps.take p.used

theorem Taken.assign {t : Ty} {p q : Progress} {id : Nat} (taken : Taken p)
    (made : temp t p = .ok (.temp id) q) (e : Expr) (stack : OperandStack) :
    Taken { q with stmts := q.stmts ++ [.set (.temp id) e], stack } := by
  obtain ⟨bounded, takes⟩ := temp_takes made taken.bounded
  refine ⟨bounded, ?_⟩
  rw [Stmt.temps_append, (temp_leaves made).2, taken.assigned]
  exact takes.symm

theorem Taken.emit {p : Progress} {stmts : List Stmt} (taken : Taken p)
    (none : ∀ s ∈ stmts, ∀ id, s.defined? ≠ some (.temp id)) :
    Taken { p with stmts := p.stmts ++ stmts } := by
  refine ⟨taken.bounded, ?_⟩
  rw [Stmt.temps_append, Stmt.temps_eq_nil none, List.append_nil]
  exact taken.assigned

theorem Taken.reached {start p : Progress} {hand : List Value} {shape : Shape}
    (taken : Taken start) (reached : Reached start hand shape p) : Taken p := by
  induction reached with
  | begin => exact taken
  | regard _ _ ih | forget _ ih | depart _ ih => exact ih
  | take _ _ ih | put _ _ _ ih | double _ _ ih | clear _ ih | remark _ _ _ ih =>
      exact ⟨ih.bounded, ih.assigned⟩
  | define _ _ made ih => exact ih.assign made _ _
  | spill _ _ _ made ih => exact ih.assign made _ _
  | @overwrite _ _ _ _ v _ _ declared _ _ ih =>
      apply ih.emit
      intro s member id defined
      rw [List.mem_singleton.mp member] at defined
      obtain rfl : v = .temp id := Option.some.inj defined
      cases declared
  | effects _ effects _ ih =>
      apply ih.emit
      intro s member id defined
      rw [Stmt.defined?_of_isEffect (effects s member)] at defined
      cases defined
  | leave _ ends _ ih =>
      apply ih.emit
      intro s member id defined
      rw [List.mem_singleton.mp member, Stmt.defined?_of_not_isStraight ends] at defined
      cases defined

section Block

variable {cx : Context} {l : Listing} {b : Block} {entry : List Value} {s t : Shared}

/-- A replay assigns to the first of the block's temporaries, each once, and may leave the last
ones from an earlier replay unused. -/
theorem replayBlock_temps {output : BlockOutput}
    (ran : replayBlock cx l b entry s = (.ok output, t)) :
    ∃ n, Stmt.temps output.stmts = t.temps.take n := by
  have begins : Taken (s.begin entry) := ⟨Nat.zero_le _, rfl⟩
  obtain ⟨q, taken, rfl, rfl⟩ :=
    replayBlock_invariant (fun shape p q holds reached => Taken.reached holds reached) ran begins
  exact ⟨q.used, taken.assigned⟩

theorem replayBlock_adds {r : Except ReplayError BlockOutput}
    (ran : replayBlock cx l b entry s = (r, t)) (allocated : Allocated s.vars s.temps)
    (distinct : s.temps.Nodup) :
    t.temps.Nodup ∧ ∀ id ∈ t.temps, id ∈ s.temps ∨ s.vars.temps.length ≤ id := by
  have frames := (b.replay_repeats cx l entry).frames (s.begin entry)
  have left := replayBlock_snd cx l b entry s
  rw [ran] at left
  rw [show t = _ from left]
  exact ⟨frames.distinct allocated distinct, frames.new⟩

end Block

end Replay

namespace Build

structure Private (s : Build) : Prop where
  distinct : ∀ {b : Nat} {site : Site}, s.sites[b]? = some site → site.temps.Nodup
  apart : ∀ {b c : Nat} {site other : Site}, b ≠ c → s.sites[b]? = some site →
    s.sites[c]? = some other → site.temps.Disjoint other.temps

theorem private_start (g : Graph) (vars : Variables) : Private (start g vars) := by
  have blank : ∀ {b : Nat} {site : Site}, (start g vars).sites[b]? = some site →
      site.temps = [] := by
    intro b site located
    simp only [start, List.getElem?_map, Option.map_eq_some_iff] at located
    obtain ⟨block, -, rfl⟩ := located
    rfl
  refine ⟨fun located => ?_, fun _ located _ => ?_⟩
  · rw [blank located]
    exact List.nodup_nil
  · rw [blank located]
    exact List.disjoint_nil_left _

section Visits

variable {job : Job} {id : Nat} {s after : Build} {site new : Site} {c : Candidate}

theorem Private.replace (kept : Private s) (touched : Touched job id s after site new c)
    (distinct : new.temps.Nodup)
    (apart : ∀ {b : Nat} {other : Site}, b ≠ id → s.sites[b]? = some other →
      new.temps.Disjoint other.temps) : Private after := by
  -- A visit leaves the lists of the other blocks, so only that of its own block matters.
  have cases : ∀ {b : Nat} {found : Site}, after.sites[b]? = some found →
      b = id ∧ found = new ∨ b ≠ id ∧ s.sites[b]? = some found := by
    intro b found located
    by_cases here : b = id
    · rw [here, touched.here] at located
      exact .inl ⟨here, (Option.some.inj located).symm⟩
    · exact .inr ⟨here, touched.elsewhere here ▸ located⟩
  constructor
  · intro b found located
    rcases cases located with ⟨-, rfl⟩ | ⟨-, before⟩
    · exact distinct
    · exact kept.distinct before
  · intro b d found other differ located beside
    rcases cases located with ⟨rfl, rfl⟩ | ⟨elsewhere, before⟩
    · rcases cases beside with ⟨rfl, -⟩ | ⟨elsewhere, before⟩
      · exact absurd rfl differ
      · exact apart elsewhere before
    · rcases cases beside with ⟨-, rfl⟩ | ⟨-, too⟩
      · exact (apart elsewhere before).symm
      · exact kept.apart differ before too

theorem Private.visited {r : Option Bool} (kept : Private s) (recorded : Recorded job s)
    (visited : Visited job id s r after) : Private after := by
  cases visited with
  | absent missing => exact kept
  | @current site c located computed upToDate =>
      have distinct : site.temps.Nodup := kept.distinct located
      refine kept.replace (touched_current located computed) distinct fun elsewhere before => ?_
      change site.temps.Disjoint _
      exact kept.apart (Ne.symm elsewhere) located before
  | @replayed site c output shared located computed allowed ran =>
      have touched := touched_replayed located computed ran
      have allocated : Allocated c.vars site.temps := by
        intro id member
        rw [touched.extended.temps]
        exact recorded.allocated located id member
      obtain ⟨distinct, adds⟩ := replayBlock_adds ran allocated (kept.distinct located)
      refine kept.replace touched distinct fun {b other} elsewhere before => ?_
      intro t own foreign
      rcases adds t own with old | fresh
      · exact kept.apart (Ne.symm elsewhere) located before old foreign
      · -- The other block took its temporary before this replay.
        have known := recorded.allocated before t foreign
        rw [← touched.extended.temps] at known
        exact absurd known (Nat.not_lt_of_le fresh)

end Visits

theorem converge_private {job : Job} {vars : Variables} {count : Nat}
    (converged : (converge job (start job.graph vars)).1 = .ok count) :
    Private (converge job (start job.graph vars)).2 := by
  have ran : converge job (start job.graph vars) =
      (.ok count, (converge job (start job.graph vars)).2) := Prod.ext converged rfl
  exact (search_invariant (P := fun _ s => Recorded job s ∧ Private s)
    (fun id rest s r after both visited =>
      ⟨both.1.visited visited, both.2.visited both.1 visited⟩)
    (fun id s both => both) ran ⟨recorded_start _ _ _, private_start _ _⟩).1.2

end Build

structure Added (low high : Nat) (ids : List Nat) : Prop where
  distinct : ids.Nodup
  inside : ∀ id ∈ ids, low ≤ id ∧ id < high

theorem added_nil (low high : Nat) : Added low high [] := ⟨List.nodup_nil, by simp⟩

theorem Added.append {low middle high : Nat} {front back : List Nat}
    (first : Added low middle front) (second : Added middle high back) (below : low ≤ middle)
    (above : middle ≤ high) : Added low high (front ++ back) where
  distinct := by
    refine List.nodup_append.mpr ⟨first.distinct, second.distinct, fun a ha b hb same => ?_⟩
    exact absurd same ((first.inside a ha).2.trans_le (second.inside b hb).1).ne
  inside id member := by
    rcases List.mem_append.mp member with member | member
    · exact ⟨(first.inside id member).1, (first.inside id member).2.trans_le above⟩
    · exact ⟨below.trans (second.inside id member).1, (second.inside id member).2⟩

namespace Moves

theorem temps_saveConditions (written : List Value) (stmts : List Stmt) (s : Saved) :
    Stmt.temps (saveConditions written stmts s).1 = Stmt.temps stmts := by
  fun_induction saveConditions written stmts s with
  | case1 => rfl
  | case2 s cond target rest left first leftEq right second rightEq rest' final restEq ih =>
      rw [restEq] at ih
      exact ih
  | case3 s stmt rest other rest' final restEq ih =>
      rw [restEq] at ih
      rw [Stmt.temps_cons, ih, ← Stmt.temps_cons]

theorem temps_saves {count : Nat} {s : Saved} (new : NewCopies count s) :
    Added count s.vars.temps.length
      (Stmt.temps (s.copies.map fun both => .set both.2 (.value both.1))) := by
  have same : Stmt.temps (s.copies.map fun both => .set both.2 (.value both.1)) =
      (s.copies.map (·.2)).filterMap Value.temp? := by
    rw [Stmt.temps_eq_filterMap, List.filterMap_map, List.filterMap_map]
    rfl
  rw [same]
  constructor
  · rw [List.Nodup, List.pairwise_filterMap]
    refine new.distinct.imp fun differ id here other there same => differ ?_
    rename_i a b
    cases a <;> cases here
    cases b <;> cases there
    rw [same]
  · intro id member
    obtain ⟨v, listed, temp⟩ := List.mem_filterMap.mp member
    obtain ⟨both, copied, rfl⟩ := List.mem_map.mp listed
    obtain ⟨known, is, bounds⟩ := new.copies both copied
    rw [is] at temp
    cases temp
    exact bounds

theorem temps_stage (moves : List Move) (vars : Variables) :
    Added vars.temps.length (stage vars moves).2.2.temps.length
        (Stmt.temps (stage vars moves).1) ∧
      Stmt.temps (stage vars moves).2.1 = [] := by
  induction moves generalizing vars with
  | nil => exact ⟨added_nil _ _, rfl⟩
  | cons m moves ih =>
      obtain ⟨reads, writes⟩ := ih (vars.newTemp (vars.typeOf (.merge m.merge))).2
      have longer : _ ≤ (stage (vars.newTemp (vars.typeOf (.merge m.merge))).2
          moves).2.2.temps.length := length_stage _
      have one : Added vars.temps.length
          (vars.newTemp (vars.typeOf (.merge m.merge))).2.temps.length [vars.temps.length] := by
        rw [length_newTemp]
        exact ⟨List.nodup_singleton _, by simp⟩
      refine ⟨one.append reads ?_ longer, writes⟩
      rw [length_newTemp]
      exact Nat.le_succ _

theorem temps_assignments (moves : List Move) (vars : Variables) :
    Added vars.temps.length (assignments vars moves).2.temps.length
      (Stmt.temps (assignments vars moves).1) := by
  unfold assignments
  split
  · obtain ⟨reads, writes⟩ := temps_stage moves vars
    dsimp only
    rwa [Stmt.temps_append, writes, List.append_nil]
  · rw [Stmt.temps_eq_nil]
    · exact added_nil _ _
    · intro s member id defined
      obtain ⟨m, -, rfl⟩ := List.mem_map.mp member
      cases defined

theorem length_assignments (moves : List Move) (vars : Variables) :
    vars.temps.length ≤ (assignments vars moves).2.temps.length := by
  unfold assignments
  split
  · exact length_stage _
  · exact le_rfl

theorem temps_inserted (stmts : List Stmt) (moves : List Move) (vars : Variables) :
    Added vars.temps.length (insert stmts moves vars).2.temps.length
      (Stmt.temps (inserted stmts moves vars)) := by
  unfold insert inserted
  split
  · exact added_nil _ _
  · rw [Stmt.temps_append]
    have new := saved_newCopies stmts moves vars
    exact (temps_saves new).append (temps_assignments moves _) new.longer (length_assignments _ _)

theorem temps_insert (stmts : List Stmt) (moves : List Move) (vars : Variables) :
    ∃ front back, Stmt.temps stmts = front ++ back ∧
      Stmt.temps (insert stmts moves vars).1 =
        front ++ Stmt.temps (inserted stmts moves vars) ++ back := by
  refine ⟨Stmt.temps (stmts.takeWhile fun s => !s.isBranch),
    Stmt.temps (stmts.dropWhile fun s => !s.isBranch), ?_, ?_⟩
  · rw [← Stmt.temps_append, List.takeWhile_append_dropWhile]
  · rw [insert_eq]
    split <;> simp [temps_saveConditions]

end Moves

namespace Layout

theorem placed_append (all : List Site) (id : Nat) (front back : List Site) (vars : Variables) :
    (placed all id (front ++ back) vars).2 =
      (placed all (id + front.length) back (placed all id front vars).2).2 := by
  induction front generalizing id vars with
  | nil => rfl
  | cons site front ih =>
      rw [List.cons_append, List.length_cons, Nat.add_comm front.length, ← Nat.add_assoc]
      exact ih _ _

end Layout

namespace Build

theorem tableFor_succ {s : Build} {id : Nat} {site : Site} {output : BlockOutput}
    (located : s.sites[id]? = some site) (replayed : site.output = some output) :
    s.tableFor (id + 1) = (Moves.insert output.stmts
      (Layout.movesFrom s.sites id output.exitStack) (s.tableFor id)).2 := by
  have within := (List.getElem?_eq_some_iff.mp located).1
  rw [tableFor, List.take_add_one, located, Option.toList_some, Layout.placed_append,
    List.length_take, Nat.min_eq_left within.le, Nat.zero_add]
  simp only [Layout.placed, replayed]
  rfl

theorem tableFor_mono (s : Build) {id later : Nat} (order : id ≤ later) :
    (s.tableFor id).temps.length ≤ (s.tableFor later).temps.length := by
  obtain ⟨rest, same⟩ := List.take_prefix_take_left (l := s.sites) order
  rw [tableFor, tableFor, ← same, Layout.placed_append]
  exact Layout.temps_placed _ _ _ _

/-- The temporary is one of the block's own, or its moves brought it. -/
def Owner (s : Build) (id t : Nat) : Prop :=
  (∃ site, s.sites[id]? = some site ∧ t ∈ site.temps) ∨
    (s.tableFor id).temps.length ≤ t ∧ t < (s.tableFor (id + 1)).temps.length

theorem Private.owner_unique {job : Job} {s : Build} (kept : Private s)
    (recorded : Recorded job s) {a b t : Nat} (first : Owner s a t) (second : Owner s b t) :
    a = b := by
  have older : ∀ {id other : Nat} {site : Site}, s.sites[id]? = some site → t ∈ site.temps →
      t < (s.tableFor other).temps.length := fun located own =>
    (recorded.allocated located t own).trans_le (s.tableFor_mono (Nat.zero_le _))
  rcases first with ⟨site, located, own⟩ | ⟨above, below⟩
  · rcases second with ⟨other, beside, foreign⟩ | ⟨above, -⟩
    · by_contra differ
      exact kept.apart differ located beside own foreign
    · exact absurd (older located own) (Nat.not_lt_of_le above)
  · rcases second with ⟨site, located, own⟩ | ⟨above', below'⟩
    · exact absurd (older located own) (Nat.not_lt_of_le above)
    · rcases Nat.lt_trichotomy a b with less | same | more
      · exact absurd (below.trans_le (s.tableFor_mono less)) (Nat.not_lt_of_le above')
      · exact same
      · exact absurd (below'.trans_le (s.tableFor_mono more)) (Nat.not_lt_of_le above)

theorem Finished.temps_piece {job : Job} {s : Build} (finished : Finished job s)
    (kept : Private s) {id : Nat} {piece : List Stmt} (placed : s.pieces[id]? = some piece) :
    (Stmt.temps piece).Nodup ∧ ∀ t ∈ Stmt.temps piece, Owner s id t := by
  have within := finished.lt_of_placed placed
  obtain ⟨site, entry, output, seen, located, -, replayed, record, made⟩ :=
    finished.block (List.getElem?_eq_getElem within)
  obtain rfl := Option.some.inj (placed.symm.trans made)
  obtain ⟨left, ran, temps⟩ := record.ran
  obtain ⟨n, own⟩ := replayBlock_temps ran
  rw [temps] at own
  have added := Moves.temps_inserted output.stmts
    (Layout.movesFrom s.sites id output.exitStack) (s.tableFor id)
  rw [← tableFor_succ located replayed] at added
  obtain ⟨front, back, split, whole⟩ := Moves.temps_insert output.stmts
    (Layout.movesFrom s.sites id output.exitStack) (s.tableFor id)
  rw [split] at own
  have listed : ∀ t ∈ front ++ back, t ∈ site.temps := fun t member =>
    List.mem_of_mem_take (own ▸ member)
  have distinct : (front ++ back).Nodup :=
    own ▸ (kept.distinct located).sublist (List.take_sublist _ _)
  have order : (Stmt.temps (Moves.insert output.stmts
      (Layout.movesFrom s.sites id output.exitStack) (s.tableFor id)).1).Perm
        ((front ++ back) ++ Stmt.temps (Moves.inserted output.stmts
          (Layout.movesFrom s.sites id output.exitStack) (s.tableFor id))) := by
    rw [whole, List.append_assoc, List.append_assoc]
    exact List.perm_append_comm.append_left front
  rw [order.nodup_iff]
  constructor
  · refine List.nodup_append.mpr ⟨distinct, added.distinct, fun t old u new same => ?_⟩
    have known := (finished.recorded.allocated located t (listed t old)).trans_le
      (s.tableFor_mono (Nat.zero_le id))
    exact absurd same (known.trans_le (added.inside u new).1).ne
  · intro t member
    rcases List.mem_append.mp (order.mem_iff.mp member) with old | new
    · exact .inl ⟨site, located, listed t old⟩
    · exact .inr (added.inside t new)

/-- Temporaries belong to single blocks, and a body assigns to each of them at most once, among
the statements of the block that owns it. -/
structure SingleAssignment (s : Build) (stmts : List Stmt) : Prop extends Private s where
  once : ∀ {i j t : Nat} {u v : Stmt}, stmts[i]? = some u → stmts[j]? = some v →
    u.defined? = some (.temp t) → v.defined? = some (.temp t) → i = j
  within : ∀ {i t : Nat} {u : Stmt}, stmts[i]? = some u → u.defined? = some (.temp t) →
    ∃ id, (∀ other, Owner s other t ↔ other = id) ∧
      Layout.start s.pieces id ≤ i ∧ i < Layout.start s.pieces (id + 1)

theorem layOut_singleAssignment {job : Job} {scopes : List (Scope Ty)} {vars : Variables}
    {count : Nat} (built : Graph.build job.listing scopes = .ok job.graph)
    (converged : (converge job (start job.graph vars)).1 = .ok count) (name : String) :
    SingleAssignment (converge job (start job.graph vars)).2
      ((converge job (start job.graph vars)).2.layOut job.graph name scopes).stmts := by
  have finished := converge_finished built converged
  have kept := converge_private converged
  generalize (converge job (start job.graph vars)).2 = s at finished kept
  rw [stmts_layOut]
  -- Every assignment to a temporary stands in a block that owns the temporary.
  have inside : ∀ {i t : Nat} {u : Stmt}, (s.body job.graph)[i]? = some u →
      u.defined? = some (.temp t) → ∃ id piece k v, s.pieces[id]? = some piece ∧
        i = Layout.start s.pieces id + k ∧ piece[k]? = some v ∧ v.defined? = some (.temp t) ∧
        Owner s id t := by
    intro i t u found defined
    rw [body, List.getElem?_map, Option.map_eq_some_iff] at found
    obtain ⟨v, found, rfl⟩ := found
    obtain ⟨id, piece, k, placed, here, position⟩ := Layout.exists_of_flatten_getElem? found
    rw [Stmt.defined?_mapTarget] at defined
    exact ⟨id, piece, k, v, placed, position, here, defined,
      (finished.temps_piece kept placed).2 t (Stmt.mem_temps here defined)⟩
  refine ⟨kept, ?_, ?_⟩
  · intro i j t u w found other first second
    obtain ⟨a, piece, k, v, placed, rfl, here, defined, owner⟩ := inside found first
    obtain ⟨b, piece', k', v', placed', rfl, there, defined', owner'⟩ := inside other second
    obtain rfl := kept.owner_unique finished.recorded owner owner'
    obtain rfl := Option.some.inj (placed.symm.trans placed')
    rw [Stmt.eq_of_temps_nodup (finished.temps_piece kept placed).1 here there defined defined']
  · intro i t u found defined
    obtain ⟨id, piece, k, v, placed, rfl, here, -, owner⟩ := inside found defined
    have within := (List.getElem?_eq_some_iff.mp here).1
    refine ⟨id, fun other => ⟨fun too => ?_, fun same => same ▸ owner⟩, Nat.le_add_right _ _, ?_⟩
    · exact kept.owner_unique finished.recorded too owner
    · rw [Layout.start_succ placed]
      omega

def tally : Job where
  cx := .blank
  listing := .ofOps
    [(.ldarg0, .none), (.ldarg1, .none), (.add, .none), (.dup, .none), (.ldarg1, .none),
      (.blt, .target 1), (.neg, .none), (.stloc0, .none), (.ret, .none)]
  graph :=
    { blocks := [⟨0, 0, [1], [], none⟩, ⟨1, 5, [1, 2], [0, 1], none⟩, ⟨6, 8, [], [1], none⟩]
      roots := [(0, .entry)] }
  maxVisits := 8

def tallyVars : Variables where
  locals := [.int32]
  params := [.int32, .int32]

theorem tally_singleAssignment :
    Graph.build tally.listing [] = .ok tally.graph ∧
      (converge tally (start tally.graph tallyVars)).1 = .ok 4 ∧
      (converge tally (start tally.graph tallyVars)).2.sites.map (·.temps) = [[], [0], [1]] ∧
      SingleAssignment (converge tally (start tally.graph tallyVars)).2
        ((converge tally (start tally.graph tallyVars)).2.layOut tally.graph "Tally" []).stmts := by
  have built : Graph.build tally.listing [] = .ok tally.graph := by decide +kernel
  have converged : (converge tally (start tally.graph tallyVars)).1 = .ok 4 :=
    converge_of_searchWithin 12 (f := Prod.fst) (by decide +kernel)
  exact ⟨built, converged,
    converge_of_searchWithin 12 (f := fun r => r.2.sites.map (·.temps)) (by decide +kernel),
    layOut_singleAssignment built converged "Tally"⟩

end Build
end Destack
