import Destack.Proofs.Flow.Blocks

namespace Destack

/-! ## Lists without repetitions -/

section Distinct

variable {α : Type} [DecidableEq α]

theorem exists_foldl_unless (items found : List α) : ∃ rest,
    items.foldl (fun seen b => if b ∈ seen then seen else seen ++ [b]) found = found ++ rest ∧
      ∀ a ∈ rest, a ∉ found := by
  induction items generalizing found with
  | nil => exact ⟨[], by simp, by simp⟩
  | cons b items ih =>
      rw [List.foldl_cons]
      split
      · exact ih found
      · rename_i new
        obtain ⟨rest, same, apart⟩ := ih (found ++ [b])
        refine ⟨b :: rest, by rw [same, List.append_assoc]; rfl, ?_⟩
        rw [List.forall_mem_cons]
        exact ⟨new, fun a member known => apart a member (List.mem_append_left _ known)⟩

theorem nodup_distinct (items : List α) : (distinct items).Nodup := by
  unfold distinct
  apply List.foldlRecOn (motive := List.Nodup)
  · exact List.nodup_nil
  · intro seen nodup a _
    split
    · exact nodup
    · rename_i new
      exact nodup.append (List.nodup_singleton a) (List.disjoint_singleton.mpr new)

theorem distinct_append (items more : List α) : ∃ rest,
    distinct (items ++ more) = distinct items ++ rest ∧ ∀ a ∈ rest, a ∉ items := by
  obtain ⟨rest, same, apart⟩ := exists_foldl_unless more (distinct items)
  refine ⟨rest, ?_, fun a member known => apart a member (mem_distinct.mpr known)⟩
  rw [distinct, List.foldl_append]
  exact same

end Distinct

namespace Graph

/-! ## Methods without a graph -/

/-- What is wrong with a listing: the first target, in the order of the code, that is outside of
it, or else that control can fall off its end. -/
inductive Faulty (l : Listing) : ReplayError → Prop
  | dangling {before after : Listing} {i : Instruction Nat} {front back : List Nat} {t : Nat}
      (listing : l = before ++ i :: after) (sound : ∀ j ∈ before, ∀ u ∈ j.targets, u < l.length)
      (targets : i.targets = front ++ t :: back) (earlier : ∀ u ∈ front, u < l.length)
      (outside : l.length ≤ t) : Faulty l (.danglingTarget before.length t)
  | fallsOff {last : Instruction Nat} (sound : ∀ i ∈ l, ∀ t ∈ i.targets, t < l.length)
      (ends : l.getLast? = some last) (falls : last.opcode.flow.fallsThrough = true) :
      Faulty l (.danglingTarget (l.length - 1) l.length)

theorem danglingTarget?_eq_some_iff {l : Listing} (numbered : Numbered 0 l) {e : ReplayError} :
    danglingTarget? l = some e ↔ ∃ before i after front t back, l = before ++ i :: after ∧
      (∀ j ∈ before, ∀ u ∈ j.targets, u < l.length) ∧ i.targets = front ++ t :: back ∧
      (∀ u ∈ front, u < l.length) ∧ l.length ≤ t ∧ e = .danglingTarget before.length t := by
  have index {before after : Listing} {i : Instruction Nat} (listing : l = before ++ i :: after) :
      i.index = before.length := by
    apply numbered.index
    rw [listing, List.getElem?_append_right le_rfl, Nat.sub_self, List.getElem?_cons_zero]
  have sound (j : Instruction Nat) : ((j.targets.find? fun target => l.length ≤ target).map
      fun target => ReplayError.danglingTarget j.index target) = none ↔
        ∀ u ∈ j.targets, u < l.length := by
    simp
  unfold danglingTarget?
  rw [List.findSome?_eq_some_iff]
  simp only [sound, Option.map_eq_some_iff, List.find?_eq_some_iff_append]
  constructor
  · rintro ⟨before, i, after, listing, ⟨t, ⟨outside, front, back, targets, earlier⟩, rfl⟩, fits⟩
    refine ⟨before, i, after, front, t, back, listing, fits, targets, ?_, by simpa using outside,
      by rw [index listing]⟩
    simpa using earlier
  · rintro ⟨before, i, after, front, t, back, listing, fits, targets, earlier, outside, rfl⟩
    refine ⟨before, i, after, listing, ⟨t, ⟨by simpa using outside, front, back, targets, ?_⟩,
      by rw [index listing]⟩, fits⟩
    simpa using earlier

theorem sound_of_danglingTarget? {l : Listing} :
    danglingTarget? l = none ↔ ∀ i ∈ l, ∀ t ∈ i.targets, t < l.length := by
  refine ⟨lt_of_danglingTarget?, fun sound => ?_⟩
  unfold danglingTarget?
  simpa using sound

theorem edges_eq_error {leaders : List Nat} {last : Instruction Nat} {e : ReplayError}
    (failed : edges leaders last = .error e) :
    ∃ t ∈ flowTargets last, t ∉ leaders ∧ e = .danglingTarget last.index t := by
  rcases bind_eq_error.mp failed with failed | ⟨_, -, failed⟩
  · obtain ⟨t, member, failed⟩ := mapM_eq_error failed
    refine ⟨t, member, ?_⟩
    split at failed
    · cases failed
    · rename_i missing
      cases failed
      exact ⟨fun leads => by simpa using List.findIdx?_eq_none_iff.mp missing t leads, rfl⟩
  · cases failed

theorem zero_mem_leaders {l : Listing} (some : l ≠ []) (scopes : List (Scope Ty)) :
    0 ∈ leaders l scopes :=
  mem_leaders.mpr ⟨List.length_pos_of_ne_nil some, List.mem_cons_self⟩

theorem Laid.blocks_pos {l : Listing} {scopes : List (Scope Ty)} {g : Graph}
    (laid : Laid l (leaders l scopes) g) (some : l ≠ []) : 0 < g.blocks.length := by
  rw [laid.length]
  exact List.length_pos_of_mem (zero_mem_leaders some scopes)

theorem fallsOff_of_edges {l : Listing} {scopes : List (Scope Ty)} {e : ReplayError}
    {id entry : Nat} {last : Instruction Nat} (numbered : Numbered 0 l)
    (sound : ∀ i ∈ l, ∀ t ∈ i.targets, t < l.length)
    (found : (leaders l scopes)[id]? = some entry)
    (here : l[spanEnd l.length (leaders l scopes) id - 1]? = some last)
    (failed : Graph.edges (leaders l scopes) last = .error e) : Faulty l e := by
  -- A span whose edges cannot be found is the last one, and control falls off its end.
  obtain ⟨t, flows, missing, rfl⟩ := edges_eq_error failed
  have listed := List.mem_of_getElem? here
  have index := numbered.index here
  have past := lt_spanEnd leaders_sorted found fun t member => (mem_leaders.mp member).1
  rcases List.mem_append.mp flows with target | falling
  · split at target
    · exact absurd (mem_leaders_of_target listed target (sound last listed t target)) missing
    · cases target
  · split at falling
    · rename_i falls
      obtain rfl := List.mem_singleton.mp falling
      -- Falling through to another span would lead to its leader.
      have final : (leaders l scopes)[id + 1]? = none := by
        cases next : (leaders l scopes)[id + 1]? with
        | none => rfl
        | some u =>
            rw [spanEnd, next, Option.getD_some] at index past
            refine absurd (List.mem_of_getElem? next) ?_
            rwa [show u = last.index + 1 by omega]
      rw [spanEnd, final, Option.getD_none] at index here past
      rw [index, Nat.sub_add_cancel (by omega)]
      exact .fallsOff sound (by rw [List.getLast?_eq_getElem?, here]) falls
    · cases falling

theorem faulty_of_build {l : Listing} {scopes : List (Scope Ty)} {e : ReplayError}
    (numbered : Numbered 0 l) (failed : build l scopes = .error e) : Faulty l e := by
  unfold build at failed
  split at failed
  · cases failed
  split at failed
  · rename_i dangling
    cases failed
    obtain ⟨before, i, after, front, t, back, listing, fits, targets, earlier, outside, rfl⟩ :=
      (danglingTarget?_eq_some_iff numbered).mp dangling
    exact .dangling listing fits targets earlier outside
  · rename_i sound
    rcases bind_eq_error.mp failed with failed | ⟨_, -, failed⟩
    · obtain ⟨span, member, failed⟩ := mapM_eq_error failed
      obtain ⟨id, located⟩ := List.mem_iff_getElem?.mp member
      rw [spans_getElem?, Option.map_eq_some_iff] at located
      obtain ⟨entry, found, rfl⟩ := located
      split at failed
      · rename_i here
        exact fallsOff_of_edges numbered (sound_of_danglingTarget?.mp sound) found here failed
      · cases failed
    · cases failed

theorem build_of_faulty {l : Listing} {e : ReplayError} (numbered : Numbered 0 l)
    (faulty : Faulty l e) (scopes : List (Scope Ty)) : build l scopes = .error e := by
  cases faulty with
  | @dangling before after i front back t listing fits targets earlier outside =>
      have dangling := (danglingTarget?_eq_some_iff numbered).mpr
        ⟨before, i, after, front, t, back, listing, fits, targets, earlier, outside, rfl⟩
      have some : l.isEmpty = false := by simp [listing]
      simp [build, some, dangling]
  | @fallsOff last sound ends falls =>
      cases built : build l scopes with
      | error e =>
          -- Every branch is sound, so the fault is that control falls off the end.
          cases faulty_of_build numbered built with
          | @dangling before after i front back t listing _ targets _ outside =>
              have listed : i ∈ l := by simp [listing]
              have within := sound i listed t (by simp [targets])
              omega
          | fallsOff _ _ _ => rfl
      | ok g =>
          have laid := build_laid_leaders built
          have some := laid.blocks_pos (List.ne_nil_of_mem (List.mem_of_getLast? ends))
          obtain ⟨b, other, found, here⟩ := laid.exists_last (Nat.sub_lt some Nat.one_pos)
          have exit := laid.final found (by omega)
          rw [List.getLast?_eq_getElem?, ← exit, Nat.add_sub_cancel, here,
            Option.some.injEq] at ends
          subst ends
          have more := (laid.next_of_fallsThrough found here numbered falls).1
          omega

theorem build_eq_error_iff {l : Listing} {scopes : List (Scope Ty)} {e : ReplayError}
    (numbered : Numbered 0 l) : build l scopes = .error e ↔ Faulty l e :=
  ⟨faulty_of_build numbered, fun faulty => build_of_faulty numbered faulty scopes⟩

theorem exists_faulty_iff {l : Listing} (numbered : Numbered 0 l) : (∃ e, Faulty l e) ↔
    (∃ i ∈ l, ∃ t ∈ i.targets, l.length ≤ t) ∨
      ∃ last, l.getLast? = some last ∧ last.opcode.flow.fallsThrough = true := by
  constructor
  · rintro ⟨e, faulty⟩
    cases faulty with
    | @dangling before after i front back t listing _ targets _ outside =>
        exact .inl ⟨i, by simp [listing], t, by simp [targets], outside⟩
    | fallsOff _ ends falls => exact .inr ⟨_, ends, falls⟩
  · intro fault
    cases dangling : danglingTarget? l with
    | some e =>
        obtain ⟨before, i, after, front, t, back, listing, fits, targets, earlier, outside, -⟩ :=
          (danglingTarget?_eq_some_iff numbered).mp dangling
        exact ⟨_, .dangling listing fits targets earlier outside⟩
    | none =>
        have sound := sound_of_danglingTarget?.mp dangling
        rcases fault with ⟨i, listed, t, target, outside⟩ | ⟨last, ends, falls⟩
        · exact absurd (sound i listed t target) (Nat.not_lt.mpr outside)
        · exact ⟨_, .fallsOff sound ends falls⟩

/-! ## The parts of a graph -/

/-- The blocks follow one another without gaps from `first` up to `last`, and none is empty. -/
def Tiles : Nat → List Block → Nat → Prop
  | first, [], last => first = last
  | first, b :: blocks, last => b.entry = first ∧ b.entry ≤ b.exit ∧ Tiles (b.exit + 1) blocks last

/-- Positions at which control can come in or after which it can go elsewhere, and boundaries of
scopes. -/
inductive Cut (l : Listing) (scopes : List (Scope Ty)) : Nat → Prop
  | target {i : Instruction Nat} {t : Nat} (listed : i ∈ l) (target : t ∈ i.targets) :
      Cut l scopes t
  | after {i : Instruction Nat} (listed : i ∈ l) (ends : i.opcode.flow.endsBlock = true) :
      Cut l scopes (i.index + 1)
  | boundary {s : Scope Ty} {t : Nat} (listed : s ∈ scopes) (bound : t ∈ boundaries s) :
      Cut l scopes t

/-- The instruction hands control to the position by a branch. Exits from protected regions go
through handlers first, so they are no branches. -/
def BranchesTo (i : Instruction Nat) (t : Nat) : Prop :=
  i.opcode.flow.takesTargets = true ∧ t ∈ i.targets

structure Follows (g : Graph) (b : Block) (last : Instruction Nat) : Prop where
  nodup : b.successors.Nodup
  leads : ∀ s, s ∈ b.successors ↔ ∃ c, g.blocks[s]? = some c ∧
    (BranchesTo last c.entry ∨ last.opcode.flow.fallsThrough = true ∧ c.entry = b.exit + 1)
  order : ∃ taken rest, b.successors = taken ++ rest ∧
    (∀ s ∈ taken, ∃ c, g.blocks[s]? = some c ∧ BranchesTo last c.entry) ∧
    ∀ s ∈ rest, ∀ c, g.blocks[s]? = some c → ¬ BranchesTo last c.entry

inductive Entered (l : Listing) (scopes : List (Scope Ty)) : Nat → Prop
  | start : Entered l scopes 0
  | handler {s : Scope Ty} (listed : s ∈ scopes) : Entered l scopes s.handlerBegin
  | filter {s : Scope Ty} {t : Nat} (listed : s ∈ scopes) (kind : s.kind = .filterBlock t) :
      Entered l scopes t
  | exit {i : Instruction Nat} {t : Nat} (listed : i ∈ l) (leaves : i.opcode.flow = .leave)
      (target : i.target? = some t) : Entered l scopes t

structure Exact (l : Listing) (scopes : List (Scope Ty)) (g : Graph) : Prop where
  tiles : Tiles 0 g.blocks l.length
  located : ∀ t id, g.blockAt? t = some id ↔ ∃ b, g.blocks[id]? = some b ∧ b.entry = t
  uncut : ∀ b ∈ g.blocks, ∀ t, b.entry < t → t ≤ b.exit → ¬ Cut l scopes t
  successors : ∀ b ∈ g.blocks, ∃ last, l[b.exit]? = some last ∧ Follows g b last
  predecessors : ∀ id b, g.blocks[id]? = some b →
    b.predecessors.Nodup ∧ ∀ p, p ∈ b.predecessors ↔ id ∈ g.successors p
  roots : (g.roots.map (·.1)).Nodup ∧ ∀ id, id ∈ g.roots.map (·.1) ↔
    ∃ b, g.blocks[id]? = some b ∧ (id = 0 ∨ Entered l scopes b.entry)

/-! ## Blocks -/

theorem Laid.tiles {l : Listing} {starts : List Nat} {g : Graph} (laid : Laid l starts g)
    (id : Nat) : Tiles (starts[id]?.getD l.length) (g.blocks.drop id) l.length := by
  generalize rest : g.blocks.drop id = blocks
  induction blocks generalizing id with
  | nil =>
      have ended : starts.length ≤ id := laid.length ▸ List.drop_eq_nil_iff.mp rest
      rw [List.getElem?_eq_none ended]
      exact rfl
  | cons b blocks ih =>
      have found : g.blocks[id]? = some b := by
        rw [← Nat.add_zero id, ← List.getElem?_drop, rest, List.getElem?_cons_zero]
      rw [laid.entry found]
      refine ⟨rfl, laid.nonempty found, ?_⟩
      rw [laid.exit found]
      apply ih (id + 1)
      rw [← List.drop_drop, rest, List.drop_one, List.tail_cons]

theorem leaders_head {l : Listing} (some : l ≠ []) (scopes : List (Scope Ty)) :
    (leaders l scopes)[0]? = Option.some 0 := by
  obtain ⟨k, within, here⟩ := List.getElem_of_mem (zero_mem_leaders some scopes)
  cases k with
  | zero => rw [List.getElem?_eq_getElem within, here]
  | succ k =>
      have less := List.pairwise_iff_getElem.mp leaders_sorted 0 (k + 1) (by omega) within
        (Nat.succ_pos k)
      omega

theorem Laid.located {l : Listing} {starts : List Nat} {g : Graph} (laid : Laid l starts g)
    (t id : Nat) : g.blockAt? t = some id ↔ ∃ b, g.blocks[id]? = some b ∧ b.entry = t := by
  constructor
  · intro found
    obtain ⟨within, here, -⟩ := List.findIdx?_eq_some_iff_getElem.mp found
    exact ⟨_, List.getElem?_eq_getElem within, by simpa using here⟩
  · rintro ⟨b, found, rfl⟩
    exact laid.blockAt?_entry found

theorem Cut.mem_marks {l : Listing} {scopes : List (Scope Ty)} {t : Nat} (cut : Cut l scopes t) :
    t ∈ marks l scopes := by
  cases cut with
  | target listed target =>
      exact List.mem_append_left _ (List.mem_cons_of_mem _ (List.mem_flatMap.mpr
        ⟨_, listed, List.mem_append_left _ target⟩))
  | after listed ends =>
      exact List.mem_append_left _ (List.mem_cons_of_mem _ (List.mem_flatMap.mpr
        ⟨_, listed, List.mem_append_right _ (by simp [ends])⟩))
  | boundary listed bound => exact List.mem_append_right _ (List.mem_flatMap.mpr ⟨_, listed, bound⟩)

theorem Laid.uncut {l : Listing} {scopes : List (Scope Ty)} {g : Graph}
    (laid : Laid l (leaders l scopes) g) {id t : Nat} {b : Block}
    (found : g.blocks[id]? = some b) (later : b.entry < t) (within : t ≤ b.exit) :
    ¬ Cut l scopes t := by
  intro cut
  have inside := laid.within found
  have leads := mem_leaders.mpr ⟨by omega, cut.mem_marks⟩
  have apart : spanEnd l.length (leaders l scopes) id ≤ t :=
    spanEnd_le leaders_sorted (laid.entry found) leads later
  have exit := laid.exit found
  omega

/-! ## Edges -/

theorem edges_order {starts next : List Nat} {last : Instruction Nat}
    (found : edges starts last = .ok next) : ∃ taken rest, next = taken ++ rest ∧
      (∀ s ∈ taken, ∃ t, BranchesTo last t ∧ starts.findIdx? (· = t) = some s) ∧
      ∀ s ∈ rest, ∀ t, BranchesTo last t → starts.findIdx? (· = t) ≠ some s := by
  obtain ⟨blocks, mapped, same⟩ := bind_eq_ok.mp found
  cases same
  rw [mapM_eq_ok_iff, flowTargets, List.map_append] at mapped
  obtain ⟨branches, falling, rfl, byBranch, -⟩ := List.map_eq_append_iff.mp mapped.symm
  obtain ⟨rest, same, apart⟩ := distinct_append branches falling
  refine ⟨distinct branches, rest, same, fun s member => ?_, fun s member t taken leads => ?_⟩
  · have listed := byBranch ▸ List.mem_map_of_mem (f := Except.ok) (mem_distinct.mp member)
    obtain ⟨t, target, here⟩ := List.mem_map.mp listed
    split at target
    · rename_i takes
      exact ⟨t, ⟨takes, target⟩, findIdx?_of_edge here⟩
    · cases target
  · refine apart s member ?_
    have listed : Except.ok s ∈ branches.map (Except.ok (ε := ReplayError)) := by
      rw [byBranch, if_pos taken.1]
      exact List.mem_map.mpr ⟨t, taken.2, by rw [leads]⟩
    simpa using listed

theorem Laid.follows {l : Listing} {starts : List Nat} {g : Graph} (laid : Laid l starts g)
    (numbered : Numbered 0 l) {id : Nat} {b : Block} {last : Instruction Nat}
    (found : g.blocks[id]? = some b) (ends : l[b.exit]? = some last) : Follows g b last := by
  have edges := laid.edges found ends
  have located (t s : Nat) : starts.findIdx? (· = t) = some s ↔
      ∃ c, g.blocks[s]? = some c ∧ c.entry = t := by
    rw [← laid.blockAt?_eq, laid.located]
  refine ⟨?_, fun s => ?_, ?_⟩
  · obtain ⟨blocks, -, same⟩ := bind_eq_ok.mp edges
    rw [← Except.ok.inj same]
    exact nodup_distinct blocks
  · rw [(edges_eq_ok edges).2]
    simp only [located, flowTargets, numbered.index ends, BranchesTo]
    constructor
    · rintro ⟨t, flows, c, here, rfl⟩
      refine ⟨c, here, ?_⟩
      simpa using flows
    · rintro ⟨c, here, flows⟩
      refine ⟨c.entry, ?_, c, here, rfl⟩
      simpa using flows
  · obtain ⟨taken, rest, same, branches, others⟩ := edges_order edges
    refine ⟨taken, rest, same, fun s member => ?_, fun s member c here branch => ?_⟩
    · obtain ⟨t, branch, leads⟩ := branches s member
      obtain ⟨c, here, rfl⟩ := (located t s).mp leads
      exact ⟨c, here, branch⟩
    · exact others s member c.entry branch ((located c.entry s).mpr ⟨c, here, rfl⟩)

theorem build_predecessors {l : Listing} {scopes : List (Scope Ty)} {g : Graph} {id : Nat}
    {b : Block} (built : build l scopes = .ok g) (found : g.blocks[id]? = some b) :
    ∃ next : List (List Nat), b.predecessors =
      (next.zipIdx.filter fun (out, _) => out.contains id).map (·.2) := by
  unfold build at built
  split at built
  · cases built
    cases found
  split at built
  · cases built
  obtain ⟨next, -, same⟩ := bind_eq_ok.mp built
  cases same
  refine ⟨next, ?_⟩
  rw [List.getElem?_map, List.getElem?_zipIdx, Option.map_map, Option.map_eq_some_iff] at found
  obtain ⟨both, -, rfl⟩ := found
  simp

theorem nodup_predecessors {l : Listing} {scopes : List (Scope Ty)} {g : Graph} {id : Nat}
    {b : Block} (built : build l scopes = .ok g) (found : g.blocks[id]? = some b) :
    b.predecessors.Nodup := by
  obtain ⟨next, same⟩ := build_predecessors built found
  rw [same]
  have numbers : (next.zipIdx.map (·.2)).Nodup := by
    rw [List.zipIdx_map_snd]
    exact List.nodup_range'
  exact numbers.sublist (List.filter_sublist.map _)

/-! ## Roots -/

theorem entered_iff {l : Listing} {scopes : List (Scope Ty)} {t : Nat} :
    Entered l scopes t ↔ ∃ kind, (t, kind) ∈ entries l scopes := by
  constructor
  · intro entered
    cases entered with
    | start => exact ⟨.entry, List.mem_append_left _ List.mem_cons_self⟩
    | @handler s listed =>
        obtain ⟨n, here⟩ := List.mem_iff_getElem?.mp listed
        refine ⟨.handler n, List.mem_append_left _ (List.mem_cons_of_mem _ ?_)⟩
        refine List.mem_flatMap.mpr ⟨(s, n), List.mk_mem_zipIdx_iff_getElem?.mpr here, ?_⟩
        cases kind : s.kind <;> simp [kind]
    | @filter s t listed kind =>
        obtain ⟨n, here⟩ := List.mem_iff_getElem?.mp listed
        refine ⟨.filter n, List.mem_append_left _ (List.mem_cons_of_mem _ ?_)⟩
        exact List.mem_flatMap.mpr
          ⟨(s, n), List.mk_mem_zipIdx_iff_getElem?.mpr here, by simp [kind]⟩
    | exit listed leaves target => exact ⟨.leaveTarget, mem_entries_of_leave listed leaves target⟩
  · rintro ⟨kind, listed⟩
    simp only [entries, List.cons_append, List.mem_cons, List.mem_append,
      List.mem_flatMap] at listed
    rcases listed with first | ⟨⟨s, n⟩, listed, here⟩ | ⟨i, listed, here⟩
    · cases first
      exact .start
    · have listed := List.fst_mem_of_mem_zipIdx listed
      dsimp only at here
      split at here
      · rename_i kind
        simp only [List.mem_cons, Prod.mk.injEq, List.not_mem_nil, or_false] at here
        rcases here with ⟨rfl, -⟩ | ⟨rfl, -⟩
        · exact .filter listed kind
        · exact .handler listed
      · simp only [List.mem_cons, Prod.mk.injEq, List.not_mem_nil, or_false] at here
        rw [here.1]
        exact .handler listed
    · split at here
      · rename_i leaves
        simp only [List.mem_map, Option.mem_toList, Prod.mk.injEq] at here
        obtain ⟨t, target, rfl, -⟩ := here
        exact .exit listed leaves target
      · cases here

theorem rootsOf_nodup (l : Listing) (scopes : List (Scope Ty)) (leaders : List Nat) :
    ((rootsOf l scopes leaders).map (·.1)).Nodup := by
  unfold rootsOf
  apply List.foldlRecOn (motive := fun found : List (Nat × RootKind) => (found.map (·.1)).Nodup)
  · exact List.nodup_nil
  · rintro found nodup ⟨position, kind⟩ -
    dsimp only
    split
    · rename_i block _
      split
      · exact nodup
      · rename_i new
        rw [List.map_append]
        refine nodup.append (List.nodup_singleton block) (List.disjoint_singleton.mpr ?_)
        simpa using new
    · exact nodup

theorem mem_entries_of_rootsOf {l : Listing} {scopes : List (Scope Ty)} {leaders : List Nat} :
    ∀ b ∈ (rootsOf l scopes leaders).map (·.1), ∃ t kind, (t, kind) ∈ entries l scopes ∧
      leaders.findIdx? (· = t) = some b := by
  unfold rootsOf
  apply List.foldlRecOn (motive := fun found : List (Nat × RootKind) =>
    ∀ b ∈ found.map (·.1), ∃ t kind, (t, kind) ∈ entries l scopes ∧
      leaders.findIdx? (· = t) = some b)
  · simp
  · rintro found known ⟨position, kind⟩ listed
    dsimp only
    split
    · rename_i block here
      split
      · exact known
      · intro b member
        rw [List.map_append, List.mem_append] at member
        rcases member with old | new
        · exact known b old
        · obtain rfl := List.mem_singleton.mp new
          exact ⟨position, kind, listed, here⟩
    · exact known

theorem build_roots {l : Listing} {scopes : List (Scope Ty)} {g : Graph} (some : l ≠ [])
    (built : build l scopes = .ok g) : g.roots = rootsOf l scopes (leaders l scopes) := by
  unfold build at built
  split at built
  · rename_i empty
    exact absurd (List.isEmpty_iff.mp empty) some
  split at built
  · cases built
  obtain ⟨next, -, same⟩ := bind_eq_ok.mp built
  cases same
  rfl

theorem mem_roots_iff {l : Listing} {scopes : List (Scope Ty)} {g : Graph} (some : l ≠ [])
    (built : build l scopes = .ok g) (id : Nat) : id ∈ g.roots.map (·.1) ↔
      ∃ b, g.blocks[id]? = Option.some b ∧ (id = 0 ∨ Entered l scopes b.entry) := by
  have laid := build_laid_leaders built
  have located (t id : Nat) : (leaders l scopes).findIdx? (· = t) = Option.some id ↔
      ∃ b, g.blocks[id]? = Option.some b ∧ b.entry = t := by
    rw [← laid.blockAt?_eq, laid.located]
  rw [build_roots some built]
  constructor
  · intro member
    obtain ⟨t, kind, listed, leads⟩ := mem_entries_of_rootsOf id member
    obtain ⟨b, found, rfl⟩ := (located t id).mp leads
    exact ⟨b, found, .inr (entered_iff.mpr ⟨kind, listed⟩)⟩
  · rintro ⟨b, found, entered⟩
    have entered : Entered l scopes b.entry := by
      rcases entered with rfl | entered
      · have first := laid.entry found
        rw [leaders_head some, Option.some.injEq] at first
        exact first ▸ .start
      · exact entered
    obtain ⟨kind, listed⟩ := entered_iff.mp entered
    exact mem_rootsOf listed ((located b.entry id).mpr ⟨b, found, rfl⟩)

/-! ## The graph -/

theorem build_exact {l : Listing} {scopes : List (Scope Ty)} {g : Graph} (some : l ≠ [])
    (numbered : Numbered 0 l) (built : build l scopes = .ok g) : Exact l scopes g := by
  have laid := build_laid_leaders built
  refine ⟨?_, laid.located, fun b member t => ?_, fun b member => ?_, fun id b found => ?_, ?_⟩
  · have tiles := laid.tiles 0
    rwa [leaders_head some] at tiles
  · obtain ⟨id, found⟩ := List.mem_iff_getElem?.mp member
    exact laid.uncut found
  · obtain ⟨id, found⟩ := List.mem_iff_getElem?.mp member
    have ends := List.getElem?_eq_getElem (laid.within found)
    exact ⟨_, ends, laid.follows numbered found ends⟩
  · refine ⟨nodup_predecessors built found, fun p => ?_⟩
    have mirrored := (build_linked built).mirrored p id (List.getElem?_eq_some_iff.mp found).1
    rwa [predecessors, found] at mirrored
  · refine ⟨?_, mem_roots_iff some built⟩
    rw [build_roots some built]
    exact rootsOf_nodup l scopes (leaders l scopes)

/-- The graph of a method is built unless a branch leads out of it or control can fall off its end,
the first of which is blamed; if it is built, it is the graph of the method. -/
theorem build_faulty_or_exact {l : Listing} (scopes : List (Scope Ty)) (some : l ≠ [])
    (numbered : Numbered 0 l) :
    ((∃ e, build l scopes = .error e) ↔ (∃ i ∈ l, ∃ t ∈ i.targets, l.length ≤ t) ∨
      ∃ last, l.getLast? = Option.some last ∧ last.opcode.flow.fallsThrough = true) ∧
    (∀ e, build l scopes = .error e ↔ Faulty l e) ∧
    ∀ g, build l scopes = .ok g → Exact l scopes g := by
  refine ⟨?_, fun e => build_eq_error_iff numbered, fun g => build_exact some numbered⟩
  rw [← exists_faulty_iff numbered]
  exact exists_congr fun e => build_eq_error_iff numbered

def detour : Listing :=
  .ofOps [(.ldarg0, .none), (.switch, .switch [3, 2, 3]), (.leaveS, .target 5), (.leave, .target 5),
    (.endfinally, .none), (.ret, .none)]

def detourScopes : List (Scope Ty) := [⟨.finallyBlock, 1, 4, 4, 5⟩]

def detourGraph : Graph where
  blocks :=
    [⟨0, 0, [1], [], none⟩, ⟨1, 1, [3, 2], [0], none⟩, ⟨2, 2, [], [1], none⟩,
      ⟨3, 3, [], [1], none⟩, ⟨4, 4, [], [], none⟩, ⟨5, 5, [], [], none⟩]
  roots := [(0, .entry), (4, .handler 0), (5, .leaveTarget)]

theorem detour_exact : detour ≠ [] ∧ Numbered 0 detour ∧
    build detour detourScopes = .ok detourGraph ∧ Exact detour detourScopes detourGraph := by
  have some : detour ≠ [] := by decide
  have numbered : Numbered 0 detour := numbered_ofOps _
  have built : build detour detourScopes = .ok detourGraph := by decide +kernel
  exact ⟨some, numbered, built, (build_faulty_or_exact _ some numbered).2.2 _ built⟩

end Graph
end Destack
