import Destack.Proofs.Compile.Verified
import Destack.Proofs.Compile.Workers

namespace Destack

variable {b : Batch} {p p' : Pool} {tokens : List Token}

namespace Batch

/-- The worker that loads or compiles the method is lost. -/
def Crashes (b : Batch) (token : Token) : Prop :=
  b.load token = .crashed ∨
    ∃ m, b.load token = .method m ∧ (m.compile (b.view m) b.options).1 = none

def crashes (b : Batch) (tokens : List Token) : Nat :=
  tokens.countP fun token => (b.alone token).isNone

def outcome (b : Batch) (token : Token) : Except CompileError Body :=
  (b.alone token).getD (.error (.interrupted token))

theorem alone_eq_none_iff {token : Token} : b.alone token = none ↔ b.Crashes token := by
  unfold Crashes
  cases loaded : b.load token with
  | method m => simp [alone_of_method loaded]
  | _ => simp [alone, loaded]

theorem countP_zipIdx (b : Batch) (tokens : List Token) :
    tokens.zipIdx.countP (fun task => (b.alone task.1).isNone) = b.crashes tokens := by
  rw [crashes, ← List.zipIdx_map_fst 0 tokens, List.countP_map, List.zipIdx_map_fst]
  rfl

end Batch

namespace Pool

theorem Sound.over_cases {w : Worker} (sound : p.Sound b tokens) (ended : p.isOver)
    (member : w ∈ p.workers) :
    w = .finished ∨ ∃ task, w = .lost task ∧ b.alone task.1 = none := by
  have known := sound.workers w member
  have done := List.all_eq_true.mp ended w member
  cases w with
  | finished => exact .inl rfl
  | lost task => exact .inr ⟨task, rfl, known⟩
  | _ => cases done

theorem Sound.queue_eq_nil (sound : p.Sound b tokens) (ended : p.isOver)
    (enough : b.crashes tokens < p.workers.length) : p.queue = [] := by
  by_contra waiting
  -- Without a finished worker all were lost, each to a task of its own.
  have lost : ∀ w ∈ p.workers, w.tasks.countP (fun task => (b.alone task.1).isNone) = 1 := by
    intro w member
    obtain rfl | ⟨task, rfl, crashed⟩ := sound.over_cases ended member
    · exact absurd (sound.drained member) waiting
    · simp [Worker.tasks, Worker.task?, crashed]
  have all : (p.workers.flatMap Worker.tasks).countP (fun task => (b.alone task.1).isNone) =
      p.workers.length := by
    rw [List.countP_flatMap, Function.comp_def, List.map_congr_left lost]
    simp
  have counted := sound.tasks.countP_eq fun task => (b.alone task.1).isNone
  rw [Pool.tasks, List.countP_append, List.countP_append, all, b.countP_zipIdx] at counted
  omega

theorem Sound.settled_of_lookup (sound : p.Sound b tokens) {task : Task}
    {result : Except CompileError Body} (found : p.sent.lookup task = some result) :
    b.Settled p.registry task result := by
  obtain ⟨front, back, entered, -⟩ := List.lookup_eq_some_iff.mp found
  exact sound.sent (task, result) (by rw [entered]; simp)

theorem Sound.lookup_sent (sound : p.Sound b tokens) (ended : p.isOver)
    (taken : p.queue = [] ∨ ∀ token ∈ tokens, b.alone token = none) {task : Task}
    (listed : task ∈ tokens.zipIdx) : p.sent.lookup task = b.alone task.1 := by
  cases found : p.sent.lookup task with
  | some result => exact (sound.settled_of_lookup found).alone.symm
  | none =>
      symm
      obtain empty | all := taken
      · have counted := sound.tasks.symm.subset listed
        simp only [Pool.tasks, empty, List.append_nil, List.mem_append, List.mem_flatMap] at counted
        obtain ⟨w, member, has⟩ | sent := counted
        · obtain rfl | ⟨other, rfl, crashed⟩ := sound.over_cases ended member
          · simp [Worker.tasks, Worker.task?] at has
          · obtain rfl : task = other := by simpa [Worker.tasks, Worker.task?] using has
            exact crashed
        · obtain ⟨entry, member, rfl⟩ := List.mem_map.mp sent
          have missing := List.lookup_eq_none_iff.mp found entry member
          simp at missing
      · exact all _ (List.fst_mem_of_mem_zipIdx listed)

theorem Sound.results_eq (sound : p.Sound b tokens) (ended : p.isOver)
    (enough : b.crashes tokens < p.workers.length ∨ ∀ token ∈ tokens, b.alone token = none) :
    p.results tokens = tokens.map b.outcome := by
  have taken := enough.imp_left (sound.queue_eq_nil ended)
  calc p.results tokens
      = tokens.zipIdx.map (fun task => b.outcome task.1) :=
        List.map_congr_left fun task listed => by
          rw [Batch.outcome, sound.lookup_sent ended taken listed]
    _ = (tokens.zipIdx.map Prod.fst).map b.outcome := by rw [List.map_map, Function.comp_def]
    _ = tokens.map b.outcome := by rw [List.zipIdx_map_fst]

end Pool

namespace Batch

variable {registry : Registry}

theorem compile_eq (echoes : registry.Echoes b.catalog.resolver) (m : MethodCode) :
    registry.compile b.catalog.resolver b.options m =
      ((m.compile (b.view m) b.options).1,
        registry.record b.catalog.resolver m.generics (b.log m)) := by
  rw [Registry.compile, echoes.view_eq]
  rfl

theorem outcome_of_crashed {token : Token} (crashed : b.alone token = none) :
    b.outcome token = .error (.interrupted token) := by
  rw [outcome, crashed, Option.getD_none]

theorem crashes_cons_of_crashed {token : Token} (crashed : b.alone token = none) :
    b.crashes (token :: tokens) = b.crashes tokens + 1 := by
  simp [crashes, crashed]

theorem crashes_cons_of_ne {token : Token} (safe : b.alone token ≠ none) :
    b.crashes (token :: tokens) = b.crashes tokens := by
  simp [crashes, safe]

/-- The registry after the method was compiled. -/
def after (b : Batch) (registry : Registry) (token : Token) : Registry :=
  match b.load token with
  | .method m => registry.record b.catalog.resolver m.generics (b.log m)
  | _ => registry

theorem echoes_after (echoes : registry.Echoes b.catalog.resolver) (token : Token) :
    (b.after registry token).Echoes b.catalog.resolver := by
  unfold after
  split
  · exact echoes.record b.catalog.resolver_uniform _ _
  · exact echoes

theorem distinct_after (distinct : registry.Distinct) (token : Token) :
    (b.after registry token).Distinct := by
  unfold after
  split
  · exact distinct.record _ _ _
  · exact distinct

theorem isSome_cached?_after {token : Token} {args : GenericArgs} {q : Query} :
    ((b.after registry token).cached? args q).isSome ↔
      (registry.cached? args q).isSome ∨ b.Asks [token] args q := by
  cases loaded : b.load token with
  | method m =>
      simp only [after, Asks, loaded, Registry.isSome_cached?_record, List.mem_singleton,
        exists_eq_left, Loaded.method.injEq, exists_eq_left']
      rfl
  | _ => simp [after, Asks, loaded]

theorem compileEach_cons (echoes : registry.Echoes b.catalog.resolver) (workers : Nat)
    (token : Token) (tokens : List Token) :
    Registry.compileEach b.catalog.resolver b.options b.load (workers + 1) registry
        (token :: tokens) =
      (Registry.compileEach b.catalog.resolver b.options b.load
        (if b.alone token = none then workers else workers + 1) (b.after registry token) tokens).map
          (b.outcome token :: ·) id := by
  rw [Registry.compileEach]
  cases loaded : b.load token with
  | method m =>
      simp only [outcome, alone_of_method loaded, after, loaded, compile_eq echoes]
      cases (m.compile (b.view m) b.options).1 <;> rfl
  | failed cause => simp [outcome, alone, after, loaded, Prod.map]
  | crashed => simp [outcome, alone, after, loaded, Prod.map]

theorem compileEach_fst (echoes : registry.Echoes b.catalog.resolver) {workers : Nat}
    (enough : b.crashes tokens < workers ∨ ∀ token ∈ tokens, b.alone token = none) :
    (Registry.compileEach b.catalog.resolver b.options b.load workers registry tokens).1 =
      tokens.map b.outcome := by
  induction tokens generalizing workers registry with
  | nil => rw [Registry.compileEach]; rfl
  | cons token tokens ih =>
      rw [List.forall_mem_cons] at enough
      cases workers with
      | zero =>
          obtain ⟨crashed, all⟩ := enough.resolve_left (Nat.not_lt_zero _)
          have rest := List.map_congr_left fun token member => outcome_of_crashed (all token member)
          rw [Registry.compileEach, List.map_cons, List.map_cons, outcome_of_crashed crashed, rest]
          simp
      | succ workers =>
          have kept := echoes_after echoes token
          rw [compileEach_cons echoes, Prod.map_fst, List.map_cons]
          refine congrArg (b.outcome token :: ·) ?_
          by_cases crashed : b.alone token = none
          · rw [crashes_cons_of_crashed crashed, Nat.add_lt_add_iff_right] at enough
            rw [if_pos crashed]
            exact ih kept (enough.imp_right And.right)
          · rw [crashes_cons_of_ne crashed] at enough
            rw [if_neg crashed]
            exact ih kept (.inl (enough.resolve_right fun all => crashed all.1))

theorem asks_cons {token : Token} {args : GenericArgs} {q : Query} :
    b.Asks (token :: tokens) args q ↔
      b.Asks [token] args q ∨ b.Asks tokens args q := by
  simp only [Asks, List.mem_cons, List.not_mem_nil, or_false, exists_eq_or_imp, exists_eq_left]

theorem compileEach_snd (echoes : registry.Echoes b.catalog.resolver)
    (distinct : registry.Distinct) {workers : Nat} (present : tokens = [] ∨ 0 < workers)
    (safe : ∀ token ∈ tokens, b.alone token ≠ none) :
    (Registry.compileEach b.catalog.resolver b.options b.load workers registry tokens).2.Distinct ∧
      ∀ args q, ((Registry.compileEach b.catalog.resolver b.options b.load workers registry
        tokens).2.cached? args q).isSome ↔
          (registry.cached? args q).isSome ∨ b.Asks tokens args q := by
  induction tokens generalizing registry with
  | nil =>
      rw [Registry.compileEach]
      exact ⟨distinct, by simp [Asks]⟩
  | cons token tokens ih =>
      obtain ⟨safe, rest⟩ := List.forall_mem_cons.mp safe
      have positive : 0 < workers := present.resolve_left (List.cons_ne_nil _ _)
      obtain ⟨workers, rfl⟩ := Nat.exists_eq_add_one_of_ne_zero positive.ne'
      obtain ⟨distinct, held⟩ :=
        ih (echoes_after echoes token) (distinct_after distinct token) (.inr positive) rest
      rw [compileEach_cons echoes, if_neg safe]
      refine ⟨distinct, fun args q => ?_⟩
      rw [Prod.map_snd, id, held, isSome_cached?_after, or_assoc, ← asks_cons]

end Batch

theorem MethodCode.compile_of_searchWithin {m : MethodCode} {v : View} {o : Options}
    {listing : Listing} {clauses : List (Scope Token)} {graph : Graph} (steps : Nat)
    (reading : m.read = .ok (listing, clauses))
    (built : Graph.build listing (clauses.map (typedScope v)) = .ok graph)
    {result : Option (Except CompileError Body) × List Query}
    (ended : (Build.searchWithin (m.job v o listing (clauses.map (typedScope v)) graph) steps
      (distinct (graph.roots.map (·.1))) 0
      { Build.start graph m.vars with queries := (clauses.filterMap caught?).map .type }).map
        (m.conclude v o clauses graph) = some result) :
    m.compile v o = result := by
  simp only [compile, reading, built]
  exact Build.converge_of_searchWithin steps ended

theorem MethodCode.compile_ne_interrupted (m : MethodCode) (v : View) (o : Options)
    (token : Token) : (m.compile v o).1 ≠ some (.error (.interrupted token)) := by
  rcases m.compile_cases v o with ⟨e, failed⟩ | ⟨e, failed⟩ | ⟨_, _, _, _, b, _, _, _, _, same⟩
  · simp [failed]
  · simp [failed]
  · rw [same]
    rcases finish o b with _ | (e | b') <;> simp [Except.mapError]

/-- Only the copying of handlers crashes a compilation. -/
theorem MethodCode.compile_ne_none_of_plain {m : MethodCode} {v : View} {o : Options}
    (plain : o.inlineFinally = false) : (m.compile v o).1 ≠ none := by
  rcases m.compile_cases v o with ⟨e, failed⟩ | ⟨e, failed⟩ | ⟨_, _, _, _, b, _, _, _, _, same⟩
  · simp [failed]
  · simp [failed]
  · simp [same, finish, plain]

namespace Batch

theorem outcome_eq_interrupted_iff {token : Token} :
    (∃ other, b.outcome token = .error (.interrupted other)) ↔ b.Crashes token := by
  rw [← alone_eq_none_iff, outcome]
  cases given : b.alone token with
  | none => simp
  | some result =>
      suffices ∀ other, result ≠ .error (.interrupted other) by simpa
      rintro other rfl
      unfold alone at given
      split at given
      · exact MethodCode.compile_ne_interrupted _ _ _ other given
      · cases given
      · cases given

theorem crashes_iff_of_guarded {token : Token}
    (guarded : b.options.inlineFinally = false ∨
      ∀ m, b.load token = .method m → m.HasGuardedScopes) :
    b.Crashes token ↔ b.load token = .crashed := by
  refine ⟨fun crashes => crashes.resolve_right ?_, .inl⟩
  rintro ⟨m, loaded, crashed⟩
  obtain plain | guarded := guarded
  · exact MethodCode.compile_ne_none_of_plain plain crashed
  · obtain ⟨result, given, -⟩ :=
      MethodCode.compile_of_guarded (guarded m loaded) (b.view m) b.options
    rw [crashed] at given
    cases given

end Batch

namespace Pool

theorem Sound.isSome_cached?_iff (sound : p.Sound b tokens) (ended : p.isOver)
    (taken : p.queue = [] ∨ ∀ token ∈ tokens, b.alone token = none)
    (safe : ∀ token ∈ tokens, b.alone token ≠ none) (args : GenericArgs) (q : Query) :
    (p.registry.cached? args q).isSome ↔ b.Asks tokens args q := by
  constructor
  · exact sound.registry.asked args q
  · rintro ⟨token, listed, m, loaded, own, queried, same, known⟩
    obtain ⟨i, bound, rfl⟩ := List.getElem_of_mem listed
    have task : (tokens[i], i) ∈ tokens.zipIdx := by simp [List.mk_mem_zipIdx_iff_getElem?]
    have found := sound.lookup_sent ended taken task
    obtain ⟨result, given⟩ := Option.ne_none_iff_exists'.mp (safe _ listed)
    rw [given] at found
    obtain rfl := Query.eq_of_key_eq same
    rw [Registry.cached?_congr same]
    exact (sound.settled_of_lookup found).held m loaded q queried known

theorem Sound.stats_eq (sound : p.Sound b tokens) (ended : p.isOver)
    (enough : b.crashes tokens < p.workers.length ∨ ∀ token ∈ tokens, b.alone token = none)
    (safe : ∀ token ∈ tokens, b.alone token ≠ none) :
    p.registry.stats = (Registry.compileEach b.catalog.resolver b.options b.load
      p.workers.length {} tokens).2.stats := by
  have present : tokens = [] ∨ 0 < p.workers.length := by
    refine enough.symm.imp (fun all => ?_) (Nat.zero_lt_of_lt ·)
    exact List.eq_nil_iff_forall_not_mem.mpr fun token member =>
      safe token member (all token member)
  obtain ⟨distinct, held⟩ := Batch.compileEach_snd (b := b) Registry.echoes_empty
    Registry.distinct_empty present safe
  refine Registry.stats_eq sound.registry.distinct distinct fun args q => ?_
  rw [sound.isSome_cached?_iff ended (enough.imp_left (sound.queue_eq_nil ended)) safe, held]
  simp [Registry.cached?_empty]

end Pool

namespace Batch

def cost (b : Batch) (task : Task) : Nat :=
  match b.load task.1 with
  | .method m => 2 * (b.log m).length + 4
  | .failed _ => 3
  | .crashed => 1

end Batch

def Worker.weight (b : Batch) : Worker → Nat
  | .idle => 1
  | .loading task => b.cost task
  | .looking c => 2 * ((b.log c.method).length - c.asked) + 3
  | .entering c .. => 2 * ((b.log c.method).length - c.asked) + 2
  | .sending .. => 2
  | .lost _ | .finished => 0

theorem Acts.weight_lt {w w' : Worker} (acts : Acts b p w w' p') (sound : w.Sound b p.registry) :
    w'.weight b + (p'.queue.map b.cost).sum < w.weight b + (p.queue.map b.cost).sum := by
  have asks {c : Compilation} {q : Query} (sound : c.Sound b p.registry)
      (next : c.next? b = some q) : c.asked < (b.log c.method).length := by
    rw [sound.next?_eq] at next
    exact (List.getElem?_eq_some_iff.mp next).1
  cases acts with
  | finish empty => simp [Worker.weight]
  | take first => simp [Worker.weight, first]
  | begin loaded => simp [Worker.weight, Batch.cost, loaded]
  | fail failed => simp [Worker.weight, Batch.cost, failed]
  | crash crashed => simp [Worker.weight, Batch.cost, crashed]
  | complete last given => simp [Worker.weight]
  | collapse last crashed => simp [Worker.weight]
  | @hit c q found next held =>
      have := asks sound next
      simp only [Worker.weight, Compilation.learn]
      omega
  | miss next missing => simp [Worker.weight]
  | enter c q found =>
      have := asks sound.1 sound.2.1
      simp only [Worker.weight, Compilation.learn]
      omega
  | send task result => simp [Worker.weight]

namespace Pool

def weight (b : Batch) (p : Pool) : Nat :=
  (p.workers.map (Worker.weight b)).sum + (p.queue.map b.cost).sum

theorem Sound.weight_step {k : Nat} (sound : p.Sound b tokens) (stepped : p.step b k = some p') :
    p'.weight b < p.weight b := by
  obtain ⟨w, w', q, here, acts, rfl⟩ := step_eq_some stepped
  have less := acts.weight_lt (sound.workers w (List.mem_of_getElem? here))
  have moved := sum_map_set (Worker.weight b) here w'
  simp only [weight]
  omega

theorem Sound.length_le_weight {schedule : List Nat} (sound : p.Sound b tokens)
    (ran : Pool.run b schedule p = some p') : schedule.length ≤ p.weight b := by
  induction schedule generalizing p with
  | nil => exact Nat.zero_le _
  | cons k schedule ih =>
      obtain ⟨q, stepped, ran⟩ := Option.bind_eq_some_iff.mp ran
      have less := sound.weight_step stepped
      have rest := ih (sound.step stepped) ran
      simp only [List.length_cons]
      omega

theorem exists_step (waiting : ¬ p.isOver) : ∃ k p', p.step b k = some p' := by
  simp only [isOver, List.all_eq_true, not_forall] at waiting
  obtain ⟨w, member, active⟩ := waiting
  obtain ⟨k, bound, rfl⟩ := List.getElem_of_mem member
  cases acted : p.workers[k].act b p with
  | none => exact absurd (Worker.act_eq_none_iff.mp acted) active
  | some done =>
      refine ⟨k, { done.2 with workers := p.workers.set k done.1 }, ?_⟩
      rw [step, List.getElem?_eq_getElem bound, Option.bind_some, acted, Option.map_some]

theorem Sound.exists_run (sound : p.Sound b tokens) :
    ∃ schedule p', Pool.run b schedule p = some p' ∧ p'.isOver := by
  induction size : p.weight b using Nat.strongRecOn generalizing p with
  | _ n ih =>
      by_cases ended : p.isOver
      · exact ⟨[], p, rfl, ended⟩
      · obtain ⟨k, q, stepped⟩ := exists_step (b := b) ended
        have less := sound.weight_step stepped
        obtain ⟨schedule, p', ran, ended⟩ := ih (q.weight b) (size ▸ less) (sound.step stepped) rfl
        exact ⟨k :: schedule, p', by rw [Pool.run, stepped, Option.bind_some, ran], ended⟩

/-- No schedule goes on for ever, and each can be carried on until the workers are through. Every
method that did not crash its worker then has the result that it has for itself, whatever the
schedule was, and every other method was interrupted. The results and the size of the registry
are those of compiling one method after another. -/
theorem results_of_run (b : Batch) (tokens : List Token) (workers : Nat)
    (enough : b.crashes tokens < min workers tokens.length ∨ ∀ token ∈ tokens, b.Crashes token) :
    ∃ bound, ∀ (schedule : List Nat) (p : Pool),
      run b schedule (start tokens workers) = some p →
        schedule.length ≤ bound ∧
        (∃ rest p', run b rest p = some p' ∧ p'.isOver) ∧
        (p.isOver →
          (∀ (i : Nat) (token : Token), tokens[i]? = some token →
            (p.results tokens)[i]? = some ((b.alone token).getD (.error (.interrupted token))) ∧
            ((∃ other, (p.results tokens)[i]? = some (.error (.interrupted other))) ↔
              b.Crashes token) ∧
            ((b.options.inlineFinally = false ∨
                ∀ m, b.load token = .method m → m.HasGuardedScopes) →
              (b.Crashes token ↔ b.load token = .crashed))) ∧
          p.results tokens = (Registry.compileEach b.catalog.resolver b.options b.load
            (min workers tokens.length) {} tokens).1 ∧
          ((∀ token ∈ tokens, ¬ b.Crashes token) →
            p.registry.stats = (Registry.compileEach b.catalog.resolver b.options b.load
              (min workers tokens.length) {} tokens).2.stats)) := by
  have started := start_sound b tokens workers
  refine ⟨(start tokens workers).weight b, fun schedule p ran => ?_⟩
  have sound := started.run ran
  have crew : p.workers.length = min workers tokens.length := by
    rw [workers_length_run ran, start, List.length_replicate]
  simp only [← Batch.alone_eq_none_iff] at enough ⊢
  rw [← crew] at enough ⊢
  refine ⟨started.length_le_weight ran, sound.exists_run, fun ended => ?_⟩
  have results := sound.results_eq ended enough
  refine ⟨fun i token here => ?_, ?_, sound.stats_eq ended enough⟩
  · have result : (p.results tokens)[i]? = some (b.outcome token) := by
      rw [results, List.getElem?_map, here, Option.map_some]
    rw [Batch.alone_eq_none_iff]
    exact ⟨result, by simpa [result] using Batch.outcome_eq_interrupted_iff,
      Batch.crashes_iff_of_guarded⟩
  · rw [results, Batch.compileEach_fst Registry.echoes_empty enough]

def race : Batch where
  catalog := { types := [(⟨0x01000001⟩, .object)] }
  options := {}
  load token :=
    if token = ⟨0x06000002⟩ then .crashed
    else .method
      { method := { name := "Race", declaringType := .object, sig := ⟨false, [], .void⟩ }
        code := [0x00, 0x26]
        clauses := [⟨.catchBlock ⟨0x01000001⟩, 0, 1, 1, 1⟩] }

def raced : List Token := [⟨0x06000001⟩, ⟨0x06000002⟩, ⟨0x06000003⟩]

theorem race_results :
    ∃ p, run race [0, 0, 0, 1, 1, 2, 2, 2, 0, 0, 0, 0, 2, 2, 2, 2] (start raced 3) = some p ∧
      p.isOver ∧ (p.results raced)[1]? = some (.error (.interrupted ⟨0x06000002⟩)) := by
  -- Workers 0 and 2 both look for the type before either enters it; worker 1 is lost.
  have ends : (run race [0, 0, 0, 1, 1, 2, 2, 2, 0, 0, 0, 0, 2, 2, 2, 2] (start raced 3)).any
      isOver := by
    decide +kernel
  rw [Option.any_eq_true] at ends
  obtain ⟨p, ran, ended⟩ := ends
  obtain ⟨bound, through⟩ := results_of_run race raced 3 (.inl (by decide +kernel))
  exact ⟨p, ran, ended, (((through _ p ran).2.2 ended).1 1 ⟨0x06000002⟩ rfl).1⟩

/-- A finally handler that is copied, and right behind it another one whose protected region is
empty: the copy goes before the start of that region, but behind its end. -/
def crumpled : MethodCode where
  method := { name := "Crumpled", declaringType := .object, sig := ⟨false, [], .void⟩ }
  code := [0xde, 0x02, 0xdc, 0xdc, 0x2a]
  clauses := [⟨.finallyBlock, 0, 2, 2, 1⟩, ⟨.finallyBlock, 3, 0, 3, 1⟩]

def returning : MethodCode where
  method := { name := "Returning", declaringType := .object, sig := ⟨false, [], .void⟩ }
  code := [0x2a]

def stranding : Batch where
  catalog := {}
  options := {}
  load token := .method (if token = ⟨0x06000001⟩ then crumpled else returning)

def stranded : List Token := [⟨0x06000001⟩, ⟨0x06000002⟩]

theorem crumpled_compile : crumpled.compile .blank {} = (none, []) := by
  have reading : crumpled.read = .ok
      ([⟨0, 0, 2, .leaveS, .target 3⟩, ⟨1, 2, 1, .endfinally, .none⟩,
        ⟨2, 3, 1, .endfinally, .none⟩, ⟨3, 4, 1, .ret, .none⟩],
      [⟨.finallyBlock, 0, 1, 1, 2⟩, ⟨.finallyBlock, 2, 2, 2, 3⟩]) := by decide +kernel
  have built : Graph.build
      [⟨0, 0, 2, .leaveS, .target 3⟩, ⟨1, 2, 1, .endfinally, .none⟩,
        ⟨2, 3, 1, .endfinally, .none⟩, ⟨3, 4, 1, .ret, .none⟩]
      [⟨.finallyBlock, 0, 1, 1, 2⟩, ⟨.finallyBlock, 2, 2, 2, 3⟩] = .ok
      ⟨[⟨0, 0, [], [], none⟩, ⟨1, 1, [], [], none⟩, ⟨2, 2, [], [], none⟩, ⟨3, 3, [], [], none⟩],
        [(0, .entry), (1, .handler 0), (2, .handler 1), (3, .leaveTarget)]⟩ := by decide +kernel
  exact MethodCode.compile_of_searchWithin 8 reading built (by decide +kernel)

theorem returning_compile :
    returning.compile (stranding.view returning) {} =
      (some (.ok ⟨returning.name, [.ret none], [], {}, [], true⟩), []) := by
  have reading : returning.read = .ok ([⟨0, 0, 1, .ret, .none⟩], []) := by decide +kernel
  have built : Graph.build [⟨0, 0, 1, .ret, .none⟩] [] =
      .ok ⟨[⟨0, 0, [], [], none⟩], [(0, .entry)]⟩ := by decide +kernel
  exact MethodCode.compile_of_searchWithin 4 reading built (by decide +kernel)

theorem stranding_interrupted :
    (∀ token ∈ stranded, stranding.load token ≠ .crashed) ∧
      (∃ body, stranding.alone ⟨0x06000002⟩ = some (.ok body)) ∧
      ∃ p, run stranding [0, 0, 0] (start stranded 1) = some p ∧ p.isOver ∧
        p.results stranded =
          [.error (.interrupted ⟨0x06000001⟩), .error (.interrupted ⟨0x06000002⟩)] := by
  have next : Compilation.next? stranding ⟨(⟨0x06000001⟩, 0), crumpled, .blank, 0⟩ = none :=
    congrArg (·.2[0]?) crumpled_compile
  have crashed : Compilation.result? stranding ⟨(⟨0x06000001⟩, 0), crumpled, .blank, 0⟩ = none :=
    congrArg Prod.fst crumpled_compile
  have lost : run stranding [0, 0, 0] (start stranded 1) =
      some ⟨[.lost (⟨0x06000001⟩, 0)], [(⟨0x06000002⟩, 1)], {}, []⟩ := by
    change (step stranding ⟨[.looking ⟨(⟨0x06000001⟩, 0), crumpled, .blank, 0⟩],
      [(⟨0x06000002⟩, 1)], {}, []⟩ 0).bind some = _
    simp [step, Worker.act, next, crashed]
  have finished : stranding.alone ⟨0x06000002⟩ = _ :=
    (Batch.alone_of_method rfl).trans (congrArg Prod.fst returning_compile)
  exact ⟨by simp [stranding], ⟨_, finished⟩, _, lost, rfl, rfl⟩

end Pool
end Destack
