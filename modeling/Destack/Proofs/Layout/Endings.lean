import Destack.Proofs.Exit.Ownership
import Destack.Proofs.Flow.Exact
import Destack.Proofs.Layout.Regions
import Destack.Proofs.Replay.Quiet

namespace Destack

open Replay

namespace Stmt

def endsHandler : Stmt → Bool
  | .endFinally | .endFault => true
  | _ => false

theorem way_of_endsHandler {s : Stmt} (ends : s.endsHandler) : s.way = (none, false) := by
  cases s <;> first | rfl | cases ends

@[simp] theorem endsHandler_mapTarget (f : Nat → Nat) (s : Stmt) :
    (s.mapTarget f).endsHandler = s.endsHandler := by
  cases s <;> rfl

theorem mapTarget_of_endsHandler (f : Nat → Nat) {s : Stmt} (ends : s.endsHandler) :
    s.mapTarget f = s := by
  cases s <;> first | rfl | cases ends

end Stmt

theorem Opcode.eq_endfinally {op : Opcode} (action : op.action = .endFinally) :
    op = .endfinally := by
  cases op <;> first | rfl | cases action

def Flow.isFinal : Flow → Bool
  | .ret | .raise | .endHandler => true
  | _ => false

namespace Instruction

variable {i : Instruction Nat}

theorem ways_of_isFinal (final : i.opcode.flow.isFinal) : i.ways = [(none, false)] := by
  unfold ways
  cases flow : i.opcode.flow <;> first | rfl | simp [flow, Flow.isFinal] at final

theorem isFinal_of_mem_ways (targeted : i.Targeted) (member : (none, false) ∈ i.ways) :
    i.opcode.flow.isFinal := by
  unfold ways at member
  cases flow : i.opcode.flow
  case jump =>
      obtain ⟨target, named⟩ := targeted (.inl flow)
      simp [flow, named] at member
  case leave =>
      obtain ⟨target, named⟩ := targeted (.inr (.inr flow))
      simp [flow, named] at member
  case ret | raise | endHandler => rfl
  all_goals simp [flow] at member

end Instruction

namespace Replay

def handlerEnd (scopes : List (Scope Ty)) (i : Nat) : Stmt :=
  if (innermostHandler? scopes i).any (·.isFault) then .endFault else .endFinally

theorem endsHandler_handlerEnd (scopes : List (Scope Ty)) (i : Nat) :
    (handlerEnd scopes i).endsHandler := by
  unfold handlerEnd
  split <;> rfl

theorem handlerEnd_eq_endFault {scopes : List (Scope Ty)} {i : Nat} :
    handlerEnd scopes i = .endFault ↔ FaultAround scopes i := by
  rw [← innermostHandler?_isFault, handlerEnd]
  split <;> simp_all

theorem handlerEnd_eq_endFinally {scopes : List (Scope Ty)} {i : Nat} :
    handlerEnd scopes i = .endFinally ↔ ¬ FaultAround scopes i := by
  rw [← innermostHandler?_isFault, handlerEnd]
  split <;> simp_all

def EndsAs (scopes : List (Scope Ty)) (i : Instruction Nat) (stmts : List Stmt) : Prop :=
  ∃ front stmt, stmts = front ++ [stmt] ∧
    (i.opcode = .endfinally → stmt = handlerEnd scopes i.index) ∧
    (stmt.endsHandler → i.opcode = .endfinally)

variable {cx : Context} {p q : Progress} {u : Unit}

theorem emit_ok {s : Stmt} (ran : emit s p = .ok u q) : q.stmts = p.stmts ++ [s] := by
  cases ran
  rfl

theorem endsAs_of_emit {scopes : List (Scope Ty)} {i : Instruction Nat} {s : Stmt}
    (other : i.opcode.action ≠ .endFinally) (plain : s.endsHandler = false)
    (ran : emit s p = .ok u q) : EndsAs scopes i q.stmts := by
  refine ⟨p.stmts, s, emit_ok ran, fun same => ?_, fun ends => ?_⟩
  · rw [same] at other
    exact absurd rfl other
  · rw [plain] at ends
    cases ends

theorem perform_final {i : Instruction Nat} (final : i.opcode.flow.isFinal)
    (ran : perform cx i i.opcode.action p = .ok u q) : EndsAs cx.scopes i q.stmts := by
  have flow := i.opcode.flow?_action
  cases action : i.opcode.action with
  | ret =>
      rw [action] at ran
      obtain ⟨value, r, -, ran⟩ := bind_ok ran
      obtain ⟨_, r, -, ran⟩ := bind_ok ran
      dsimp only at ran
      split at ran
      · exact endsAs_of_emit (by simp [action]) rfl ran
      · cases ran
  | throw =>
      rw [action] at ran
      obtain ⟨value, r, -, ran⟩ := bind_ok ran
      obtain ⟨_, r, -, ran⟩ := bind_ok ran
      exact endsAs_of_emit (by simp [action]) rfl ran
  | rethrow =>
      rw [action] at ran
      obtain ⟨_, r, -, ran⟩ := bind_ok ran
      exact endsAs_of_emit (by simp [action]) rfl ran
  | endFilter =>
      rw [action] at ran
      obtain ⟨value, r, -, ran⟩ := bind_ok ran
      obtain ⟨_, r, -, ran⟩ := bind_ok ran
      exact endsAs_of_emit (by simp [action]) rfl ran
  | endFinally =>
      rw [action] at ran
      obtain ⟨_, r, -, ran⟩ := bind_ok ran
      exact ⟨_, _, emit_ok ran, fun _ => rfl, fun _ => Opcode.eq_endfinally action⟩
  | _ =>
      rw [action] at flow
      cases kind : i.opcode.flow <;>
        simp [kind, Flow.isFinal, Action.flow?, Flow.endsBlock] at flow final

theorem replayBlock_final {l : Listing} {b : Block} {entry : List Value} {s t : Shared}
    {output : BlockOutput} {last : Instruction Nat} (nonempty : b.entry ≤ b.exit)
    (ends : l[b.exit]? = some last) (final : last.opcode.flow.isFinal)
    (ran : replayBlock cx l b entry s = (.ok output, t)) :
    EndsAs cx.scopes last output.stmts := by
  obtain ⟨p, q, -, ended, rfl, -⟩ := replayBlock_eq_ok ran
  rw [Block.instructions_eq nonempty ends, performAll_concat] at ended
  obtain ⟨_, r, -, ended⟩ := bind_ok ended
  exact perform_final final ended

end Replay

namespace Layout

variable {l : Listing} {starts : List Nat} {g : Graph} {blocks : List (List Stmt)} {id p t : Nat}
  {b : Block}

theorem start_le_iff (first : start blocks id ≤ p) (last : p < start blocks (id + 1)) {k : Nat} :
    start blocks k ≤ p ↔ k ≤ id := by
  constructor
  · intro before
    by_contra after
    have later : start blocks (id + 1) ≤ start blocks k :=
      start_mono blocks (Nat.lt_of_not_le after)
    omega
  · exact fun order => (start_mono blocks order).trans first

theorem landing_le_iff (laid : Graph.Laid l starts g) (found : g.blocks[id]? = some b)
    (bound : t ∈ starts ∨ l.length ≤ t) (first : start blocks id ≤ p)
    (last : p < start blocks (id + 1)) : landing starts blocks t ≤ p ↔ t ≤ b.exit := by
  obtain ⟨within, entry⟩ := List.getElem?_eq_some_iff.mp (laid.entry found)
  have nonempty := laid.nonempty found
  rw [landing, start_le_iff first last]
  constructor
  · intro early
    have inside := early.trans_lt within
    have past : t ≤ starts.get ⟨_, inside⟩ := by
      simpa using List.findIdx_getElem (w := inside)
    have order : starts.get ⟨_, inside⟩ ≤ starts[id] := by
      rcases Nat.lt_or_eq_of_le early with less | same
      · exact (List.pairwise_iff_getElem.mp laid.sorted _ _ inside within less).le
      · simp [same]
    omega
  · intro before
    by_contra late
    have missed : b.entry < t := by
      simpa [entry] using List.not_of_lt_findIdx (Nat.lt_of_not_le late)
    have exit := laid.exit found
    rcases bound with member | past
    · -- No block starts between the first and the last instruction of a block.
      have next : Graph.spanEnd l.length starts id ≤ t :=
        Graph.spanEnd_le laid.sorted (laid.entry found) member missed
      omega
    · have := laid.within found
      omega

end Layout

namespace Build

variable {job : Job} {s : Build} {scopes : List (Scope Ty)} {starts : List Nat}

/-- The statement at `p` is the last one of the block that ends with the instruction `i`. -/
def Closes (s : Build) (g : Graph) (i p : Nat) : Prop :=
  ∃ id b, g.blocks[id]? = some b ∧ b.exit = i ∧ Layout.start s.pieces id ≤ p ∧
    p + 1 = Layout.start s.pieces (id + 1)

theorem carries_layOut (finished : Finished job s) (nested : ProperlyNested scopes)
    (built : Graph.build job.listing scopes = .ok job.graph) (name : String) {i p : Nat}
    (closes : Closes s job.graph i p) :
    Carries (Layout.landing (Graph.leaders job.listing scopes) s.pieces) scopes
      (s.layOut job.graph name scopes) i p where
  mono := Layout.landing_mono _ _
  nested := nested
  moved := List.map_congr_left fun _ member => mapBounds_position finished built member
  around := by
    intro scope member
    obtain ⟨id, b, found, rfl, first, last⟩ := closes
    have laid := Graph.build_laid_leaders built
    have bounds : ∀ t ∈ Graph.boundaries scope,
        (Layout.landing (Graph.leaders job.listing scopes) s.pieces t ≤ p ↔ t ≤ b.exit) := by
      intro t bound
      refine Layout.landing_le_iff laid found ?_ first (by omega)
      rcases Nat.lt_or_ge t job.listing.length with within | past
      · exact .inl (Graph.mem_leaders_of_boundary member bound within)
      · exact .inr past
    obtain ⟨begins, ends⟩ := Scope.mem_boundaries_of_mem_spans scope.handlerSpan_mem
    rw [Bool.eq_iff_iff, Span.contains_iff, Span.contains_iff, ← not_le, ← not_le]
    exact and_congr (bounds _ begins) (not_congr (bounds _ ends))

section Pieces

variable (finished : Finished job s) (laid : Graph.Laid job.listing starts job.graph)
  (linked : job.graph.Linked) {id : Nat} {b : Block} {last : Instruction Nat}
  (found : job.graph.blocks[id]? = some b) (ends : job.listing[b.exit]? = some last)
include finished laid linked found ends

theorem endsAs_piece (final : last.opcode.flow.isFinal) {piece : List Stmt}
    (placed : s.pieces[id]? = some piece) (targeted : last.Targeted) :
    EndsAs job.cx.scopes last piece := by
  -- A block that control ends with owes no moves, so its last statement is that of the replay.
  obtain ⟨site, entry, output, seen, located, rfl, left, record, here⟩ := finished.block found
  obtain ⟨after, ran, -⟩ := record.ran
  have still : Layout.movesFrom s.sites id output.exitStack = [] := by
    by_contra moves
    obtain ⟨m, owed⟩ := List.exists_mem_of_ne_nil _ moves
    obtain ⟨c, other, there, edge, -⟩ := Layout.mem_movesFrom.mp owed
    rw [finished.mem_predecessors linked there, laid.mem_successors found ends] at edge
    obtain ⟨t, flows, -⟩ := edge
    have way : (none, false) ∈ last.ways := by simp [last.ways_of_isFinal final]
    cases Instruction.isSome_of_mem_ways targeted flows way
  obtain rfl := Option.some.inj (placed.symm.trans here)
  rw [still]
  exact replayBlock_final (laid.nonempty found) ends final ran

theorem piece_final (numbered : Numbered 0 job.listing) :
    ∃ piece, s.pieces[id]? = some piece ∧
      (last.opcode = .endfinally →
        ∃ front, piece = front ++ [handlerEnd job.cx.scopes last.index]) ∧
      ∀ k stmt, piece[k]? = some stmt → stmt.endsHandler →
        last.opcode = .endfinally ∧ k + 1 = piece.length := by
  obtain ⟨piece, placed, ⟨n, ways⟩, targeted⟩ :=
    piece_leads finished numbered laid linked found ends
  have closing := fun final =>
    endsAs_piece finished laid linked found ends final placed targeted
  refine ⟨piece, placed, fun opcode => ?_, fun k stmt here ending => ?_⟩
  · obtain ⟨front, stmt, split, is, -⟩ := closing (by rw [opcode]; rfl)
    exact ⟨front, by rw [split, is opcode]⟩
  · -- Only the last statement of a block that control ends with leads nowhere.
    have way : (piece.map Stmt.way)[k]? = some (none, false) := by
      rw [List.getElem?_map, here, Option.map_some, Stmt.way_of_endsHandler ending]
    rw [ways, List.map_nil, List.nil_append, List.getElem?_append, List.length_replicate] at way
    split at way
    · cases List.eq_of_mem_replicate (List.mem_of_getElem? way)
    · have final := Instruction.isFinal_of_mem_ways targeted (List.mem_of_getElem? way)
      obtain ⟨front, only, rfl, -, is⟩ := closing final
      rw [last.ways_of_isFinal final] at way ways
      have length := congrArg List.length ways
      have inside := (List.getElem?_eq_some_iff.mp way).1
      simp only [List.length_map, List.map_nil, List.nil_append, List.length_append,
        List.length_replicate, List.length_singleton] at length inside
      obtain rfl : k = front.length := by omega
      rw [List.getElem?_concat_length, Option.some.injEq] at here
      exact ⟨is (here ▸ ending), by simp⟩

end Pieces

section Statements

variable (finished : Finished job s) (numbered : Numbered 0 job.listing)
  (built : Graph.build job.listing scopes = .ok job.graph)
include finished numbered built

theorem exists_closes {i : Nat} {last : Instruction Nat} (found : job.listing[i]? = some last)
    (opcode : last.opcode = .endfinally) :
    ∃ p, Closes s job.graph i p ∧
      (s.body job.graph)[p]? = some (handlerEnd job.cx.scopes i) := by
  have laid := Graph.build_laid_leaders built
  have within := (List.getElem?_eq_some_iff.mp found).1
  have first : 0 ∈ Graph.leaders job.listing scopes := by
    refine List.mem_of_getElem? (Graph.leaders_head ?_ scopes)
    rintro empty
    simp [empty] at within
  have bound : i + 1 ∈ Graph.leaders job.listing scopes ∨ i + 1 = job.listing.length := by
    rcases Nat.lt_or_eq_of_le within with more | final
    · have starts := laid.ends last (List.mem_of_getElem? found) (by rw [opcode]; rfl)
      rw [numbered.index found] at starts
      exact .inl (starts more)
    · exact .inr final
  obtain ⟨id, b, listed, exit, -, -⟩ :=
    Layout.exists_block_before laid first (Nat.succ_pos i) bound
  obtain rfl : b.exit = i := Nat.succ.inj exit
  obtain ⟨piece, placed, closing, -⟩ :=
    piece_final finished laid (Graph.build_linked built) listed found numbered
  obtain ⟨front, rfl⟩ := closing opcode
  have next := Layout.start_succ placed
  rw [List.length_append, List.length_singleton] at next
  refine ⟨Layout.start s.pieces id + front.length,
    ⟨id, b, listed, rfl, Nat.le_add_right _ _, by omega⟩, ?_⟩
  rw [body_getElem? _ placed (by simp), List.getElem?_concat_length, Option.map_some,
    numbered.index found, Stmt.mapTarget_of_endsHandler _ (endsHandler_handlerEnd _ _)]

theorem closes_of_endsHandler {p : Nat} {stmt : Stmt} (found : (s.body job.graph)[p]? = some stmt)
    (ends : stmt.endsHandler) :
    ∃ i last, job.listing[i]? = some last ∧ last.opcode = .endfinally ∧
      Closes s job.graph i p ∧ stmt = handlerEnd job.cx.scopes i := by
  have laid := Graph.build_laid_leaders built
  rw [body, List.getElem?_map, Option.map_eq_some_iff] at found
  obtain ⟨stmt, found, rfl⟩ := found
  rw [Stmt.endsHandler_mapTarget] at ends
  obtain ⟨id, piece, k, placed, here, rfl⟩ := Layout.exists_of_flatten_getElem? found
  obtain ⟨b, last, listed, exit⟩ := laid.exists_last (finished.lt_of_placed placed)
  obtain ⟨other, same, closing, only⟩ :=
    piece_final finished laid (Graph.build_linked built) listed exit numbered
  obtain rfl := Option.some.inj (placed.symm.trans same)
  obtain ⟨opcode, final⟩ := only k stmt here ends
  obtain ⟨front, rfl⟩ := closing opcode
  have next := Layout.start_succ placed
  rw [List.length_append, List.length_singleton] at next final
  obtain rfl : k = front.length := Nat.succ.inj final
  rw [List.getElem?_concat_length, Option.some.injEq, numbered.index exit] at here
  refine ⟨b.exit, last, exit, opcode, ⟨id, b, listed, rfl, Nat.le_add_right _ _, by omega⟩, ?_⟩
  rw [Stmt.mapTarget_of_endsHandler _ ends, here]

end Statements

/-- The ends of handlers in a body and in the code; `closes` tells which statement stands for the
last instruction of a block. -/
structure EndsAgree (l : Listing) (scopes : List (Scope Ty)) (b : Body)
    (closes : Nat → Nat → Prop) : Prop where
  translated : ∀ {i : Nat} {last : Instruction Nat}, l[i]? = some last →
    last.opcode = .endfinally → ∃ p, closes i p ∧
      (b.stmts[p]? = some .endFault ↔ FaultAround scopes i) ∧
      (b.stmts[p]? = some .endFinally ↔ ¬ FaultAround scopes i)
  /-- A statement ends the innermost handler around its instruction if no other handler has the
  same bounds in the body, and otherwise it ends none. -/
  owned : ∀ {p : Nat}, b.stmts[p]? = some .endFinally →
    ∃ i last, l[i]? = some last ∧ last.opcode = .endfinally ∧ closes i p ∧
      (∀ m, b.Owns m p ↔ Innermost scopes i m ∧ b.Alone m) ∧
      ((∃ t ∈ b.scopes, t.Cleans p) → ∃ n s, Innermost scopes i n ∧ b.scopes[n]? = some s ∧
        s.isFinally = true ∧
        ∀ t ∈ b.scopes, t.Cleans p → s.handlerSpan.within t.handlerSpan = true)
  sole : (∀ s ∈ b.scopes, s.cleansUp = true → s.tryBegin < s.tryEnd) → ∀ {p : Nat},
    b.stmts[p]? = some .endFinally → (∃ s ∈ b.scopes, s.Cleans p) →
      ∃ n s, b.scopes[n]? = some s ∧ (∀ m, b.Owns m p ↔ m = n) ∧
        ∀ t ∈ b.scopes, t.Cleans p → s.handlerSpan.within t.handlerSpan = true

theorem layOut_endsAgree {vars : Variables} {count : Nat} (numbered : Numbered 0 job.listing)
    (nested : ProperlyNested job.cx.scopes)
    (built : Graph.build job.listing job.cx.scopes = .ok job.graph)
    (converged : (converge job (start job.graph vars)).1 = .ok count) (name : String) :
    EndsAgree job.listing job.cx.scopes
      ((converge job (start job.graph vars)).2.layOut job.graph name job.cx.scopes)
      (Closes (converge job (start job.graph vars)).2 job.graph) := by
  have finished := converge_finished built converged
  generalize (converge job (start job.graph vars)).2 = s at finished ⊢
  have stands : ∀ {p : Nat},
      (s.layOut job.graph name job.cx.scopes).stmts[p]? = some .endFinally →
        ∃ i last, job.listing[i]? = some last ∧ last.opcode = .endfinally ∧
          Closes s job.graph i p ∧ ¬ FaultAround job.cx.scopes i := by
    intro p ends
    obtain ⟨i, last, found, opcode, closes, same⟩ :=
      closes_of_endsHandler finished numbered built ends rfl
    exact ⟨i, last, found, opcode, closes, handlerEnd_eq_endFinally.mp same.symm⟩
  refine ⟨fun {i last} found opcode => ?_, fun {p} ends => ?_, fun regions {p} ends inside => ?_⟩
  · obtain ⟨p, closes, stmt⟩ := exists_closes finished numbered built found opcode
    refine ⟨p, closes, ?_⟩
    rw [stmts_layOut, stmt, Option.some.injEq, Option.some.injEq]
    exact ⟨handlerEnd_eq_endFault, handlerEnd_eq_endFinally⟩
  · obtain ⟨i, last, found, opcode, closes, clear⟩ := stands ends
    have carries := carries_layOut finished nested built name closes
    refine ⟨i, last, found, opcode, closes, fun m => carries.owns_iff clear ends, fun inside => ?_⟩
    obtain ⟨n, u, innermost, located⟩ := carries.exists_innermost inside
    exact ⟨n, u, innermost, located, carries.isFinally innermost clear located,
      fun t => carries.within innermost located⟩
  · obtain ⟨i, last, found, opcode, closes, clear⟩ := stands ends
    have carries := carries_layOut finished nested built name closes
    exact carries.exists_owner regions clear ends inside

def tiered : Job where
  cx :=
    { Context.blank with scopes :=
        [⟨.finallyBlock, 1, 2, 2, 3⟩, ⟨.faultBlock, 3, 4, 4, 5⟩, ⟨.finallyBlock, 0, 1, 1, 6⟩] }
  listing := .ofOps
    [(.leaveS, .target 6), (.leaveS, .target 3), (.endfinally, .none), (.leaveS, .target 5),
      (.endfinally, .none), (.endfinally, .none), (.ret, .none)]
  graph :=
    { blocks := (List.range 7).map fun i => ⟨i, i, [], [], none⟩
      roots := [(0, .entry), (2, .handler 0), (4, .handler 1), (1, .handler 2), (6, .leaveTarget),
        (3, .leaveTarget), (5, .leaveTarget)] }
  maxVisits := 8

theorem tiered_endsAgree :
    (Numbered 0 tiered.listing ∧ ProperlyNested tiered.cx.scopes ∧
      Graph.build tiered.listing tiered.cx.scopes = .ok tiered.graph ∧
      (converge tiered (start tiered.graph {})).1 = .ok 7) ∧
    ((converge tiered (start tiered.graph {})).2.layOut tiered.graph "Tiered"
      tiered.cx.scopes).stmts =
        [.leave 6, .leave 3, .endFinally, .leave 5, .endFault, .endFinally, .ret none] ∧
    EndsAgree tiered.listing tiered.cx.scopes
      ((converge tiered (start tiered.graph {})).2.layOut tiered.graph "Tiered" tiered.cx.scopes)
      (Closes (converge tiered (start tiered.graph {})).2 tiered.graph) := by
  have numbered : Numbered 0 tiered.listing := numbered_ofOps _
  have nested : ProperlyNested tiered.cx.scopes := by decide
  have built : Graph.build tiered.listing tiered.cx.scopes = .ok tiered.graph := by decide +kernel
  have converged : (converge tiered (start tiered.graph {})).1 = .ok 7 :=
    converge_of_searchWithin 20 (f := Prod.fst) (by decide +kernel)
  have stmts : ((converge tiered (start tiered.graph {})).2.layOut tiered.graph "Tiered"
      tiered.cx.scopes).stmts =
        [.leave 6, .leave 3, .endFinally, .leave 5, .endFault, .endFinally, .ret none] :=
    converge_of_searchWithin 20
      (f := fun r => (r.2.layOut tiered.graph "Tiered" tiered.cx.scopes).stmts)
      (by decide +kernel)
  exact ⟨⟨numbered, nested, built, converged⟩, stmts,
    layOut_endsAgree numbered nested built converged "Tiered"⟩

def overlaid : Job where
  cx :=
    { Context.blank with scopes := [⟨.finallyBlock, 0, 1, 1, 2⟩, ⟨.faultBlock, 1, 1, 1, 2⟩] }
  listing := .ofOps [(.leaveS, .target 2), (.endfinally, .none), (.ret, .none)]
  graph :=
    { blocks := [⟨0, 0, [], [], none⟩, ⟨1, 1, [], [], none⟩, ⟨2, 2, [], [], none⟩]
      roots := [(0, .entry), (1, .handler 0), (2, .leaveTarget)] }
  maxVisits := 8

/-- The replay takes the end of the handlers for that of the finally handler. The copying takes it
for the end of neither. -/
theorem overlaid_unowned :
    ProperlyNested overlaid.cx.scopes ∧
      Graph.build overlaid.listing overlaid.cx.scopes = .ok overlaid.graph ∧
      (converge overlaid (start overlaid.graph {})).1 = .ok 3 ∧
      ∃ b, (converge overlaid (start overlaid.graph {})).2.layOut overlaid.graph "Overlaid"
          overlaid.cx.scopes = b ∧
        b.stmts = [.leave 2, .endFinally, .ret none] ∧ b.scopes = overlaid.cx.scopes ∧
        ∀ n, ¬ b.Owns n 1 := by
  refine ⟨by decide, by decide +kernel,
    converge_of_searchWithin 12 (f := Prod.fst) (by decide +kernel),
    ⟨"Overlaid", [.leave 2, .endFinally, .ret none], overlaid.cx.scopes, {}, [], false⟩, ?_, rfl,
    rfl, fun n => ?_⟩
  · exact converge_of_searchWithin 12
      (f := fun r => r.2.layOut overlaid.graph "Overlaid" overlaid.cx.scopes) (by decide +kernel)
  · rw [Body.owns_iff rfl]
    rintro ⟨s, found, isFinally, -, clear⟩
    rcases n with _ | _ | n
    · cases found
      exact clear 1 _ (by simp) rfl (by decide) (by decide)
    · cases found
      cases isFinally
    · cases found

end Build
end Destack
