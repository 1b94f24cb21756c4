import Destack.Compile.Batch
import Destack.Proofs.Compile.Causality

/-!
# Workers

The steps of workers that compile methods together. A worker takes a task, loads its method and
compiles it; every lookup is a read of the registry that all share and, if that finds nothing, a
later step that enters the resolver's answer. To load or to compile a method may crash the worker,
which is lost then. In between, other workers take any number of steps.
-/

namespace Destack

structure Batch where
  catalog : Catalog
  options : Options
  load : Loader

abbrev Task := Token × Nat

/-- A compilation under way, with the answers to the queries that it has made. -/
structure Compilation where
  task : Task
  method : MethodCode
  told : View
  asked : Nat

inductive Worker
  | idle
  | loading (task : Task)
  | looking (c : Compilation)
  | entering (c : Compilation) (q : Query) (found : q.Answer)
  | sending (task : Task) (result : Except CompileError Body)
  | lost (task : Task)
  | finished

structure Pool where
  workers : List Worker
  queue : List Task
  registry : Registry
  sent : List (Task × Except CompileError Body)

/-! ## Steps -/

namespace View

def learn (v : View) : (q : Query) → q.Answer → View
  | .type token, found => { v with type := Function.update v.type token found }
  | .field token, found => { v with field := Function.update v.field token found }
  | .method token, found => { v with method? := Function.update v.method? token found }
  | .string token, found => { v with string := Function.update v.string token found }

theorem answer_learn_self (v : View) (q : Query) (found : q.Answer) :
    (v.learn q found).answer q = found := by
  cases q <;> simp [learn, answer]

theorem answer_learn_of_ne (v : View) {p q : Query} (found : q.Answer) (differs : p ≠ q) :
    (v.learn q found).answer p = v.answer p := by
  cases q <;> cases p <;> simp_all [learn, answer]

end View

namespace Batch

variable (b : Batch)

def view (m : MethodCode) : View := b.catalog.resolver.view m.generics

def log (m : MethodCode) : List Query := (m.compile (b.view m) b.options).2

def alone (token : Token) : Option (Except CompileError Body) :=
  match b.load token with
  | .method m => (({} : Registry).compile b.catalog.resolver b.options m).1
  | .failed cause => some (.error (.load cause))
  | .crashed => none

end Batch

namespace Compilation

variable (b : Batch) (c : Compilation)

def next? : Option Query := (c.method.compile c.told b.options).2[c.asked]?

def result? : Option (Except CompileError Body) := (c.method.compile c.told b.options).1

def learn (q : Query) (found : q.Answer) : Compilation :=
  { c with told := c.told.learn q found, asked := c.asked + 1 }

end Compilation

namespace Worker

def act (b : Batch) (p : Pool) : Worker → Option (Worker × Pool)
  | .idle =>
    match p.queue with
    | [] => some (.finished, p)
    | task :: queue => some (.loading task, { p with queue })
  | .loading task =>
    match b.load task.1 with
    | .method m => some (.looking ⟨task, m, .blank, 0⟩, p)
    | .failed cause => some (.sending task (.error (.load cause)), p)
    | .crashed => some (.lost task, p)
  | .looking c =>
    match c.next? b with
    | none =>
      match c.result? b with
      | some result => some (.sending c.task result, p)
      | none => some (.lost c.task, p)
    | some q =>
      match p.registry.cached? c.method.generics q with
      | some found => some (.looking (c.learn q found), p)
      | none => some (.entering c q ((b.view c.method).answer q), p)
  | .entering c q found =>
    let (standing, registry) := p.registry.enter c.method.generics q found
    some (.looking (c.learn q standing), { p with registry })
  | .sending task result => some (.idle, { p with sent := p.sent ++ [(task, result)] })
  | .lost _ | .finished => none

def task? : Worker → Option Task
  | .idle | .finished => none
  | .loading task | .sending task _ | .lost task => some task
  | .looking c | .entering c .. => some c.task

def isOver : Worker → Bool
  | .lost _ | .finished => true
  | _ => false

end Worker

namespace Pool

def start (tokens : List Token) (workers : Nat) : Pool :=
  { workers := List.replicate (min workers tokens.length) .idle
    queue := tokens.zipIdx
    registry := {}
    sent := [] }

def step (b : Batch) (p : Pool) (k : Nat) : Option Pool :=
  p.workers[k]?.bind fun w => (w.act b p).map fun done =>
    { done.2 with workers := p.workers.set k done.1 }

def run (b : Batch) : List Nat → Pool → Option Pool
  | [], p => some p
  | k :: schedule, p => (p.step b k).bind (run b schedule)

def isOver (p : Pool) : Bool := p.workers.all Worker.isOver

def results (tokens : List Token) (p : Pool) : List (Except CompileError Body) :=
  tokens.zipIdx.map fun task => (p.sent.lookup task).getD (.error (.interrupted task.1))

end Pool

inductive Acts (b : Batch) (p : Pool) : Worker → Worker → Pool → Prop
  | finish (empty : p.queue = []) : Acts b p .idle .finished p
  | take {task : Task} {queue : List Task} (first : p.queue = task :: queue) :
    Acts b p .idle (.loading task) { p with queue }
  | begin {task : Task} {m : MethodCode} (loaded : b.load task.1 = .method m) :
    Acts b p (.loading task) (.looking ⟨task, m, .blank, 0⟩) p
  | fail {task : Task} {cause : LoadError} (failed : b.load task.1 = .failed cause) :
    Acts b p (.loading task) (.sending task (.error (.load cause))) p
  | crash {task : Task} (crashed : b.load task.1 = .crashed) :
    Acts b p (.loading task) (.lost task) p
  | complete {c : Compilation} {result : Except CompileError Body} (last : c.next? b = none)
    (given : c.result? b = some result) : Acts b p (.looking c) (.sending c.task result) p
  | collapse {c : Compilation} (last : c.next? b = none) (crashed : c.result? b = none) :
    Acts b p (.looking c) (.lost c.task) p
  | hit {c : Compilation} {q : Query} {found : q.Answer} (next : c.next? b = some q)
    (held : p.registry.cached? c.method.generics q = some found) :
    Acts b p (.looking c) (.looking (c.learn q found)) p
  | miss {c : Compilation} {q : Query} (next : c.next? b = some q)
    (missing : p.registry.cached? c.method.generics q = none) :
    Acts b p (.looking c) (.entering c q ((b.view c.method).answer q)) p
  | enter (c : Compilation) (q : Query) (found : q.Answer) :
    Acts b p (.entering c q found)
      (.looking (c.learn q (p.registry.enter c.method.generics q found).1))
      { p with registry := (p.registry.enter c.method.generics q found).2 }
  | send (task : Task) (result : Except CompileError Body) :
    Acts b p (.sending task result) .idle { p with sent := p.sent ++ [(task, result)] }

variable {b : Batch} {p p' : Pool} {w w' : Worker}

theorem Acts.of_act (done : w.act b p = some (w', p')) : Acts b p w w' p' := by
  cases w with
  | idle =>
      simp only [Worker.act] at done
      split at done <;> cases done
      · exact .finish ‹_›
      · exact .take ‹_›
  | loading task =>
      simp only [Worker.act] at done
      split at done <;> cases done
      · exact .begin ‹_›
      · exact .fail ‹_›
      · exact .crash ‹_›
  | looking c =>
      simp only [Worker.act] at done
      split at done
      · split at done <;> cases done
        · exact .complete ‹_› ‹_›
        · exact .collapse ‹_› ‹_›
      · split at done <;> cases done
        · exact .hit ‹_› ‹_›
        · exact .miss ‹_› ‹_›
  | entering c q found =>
      cases done
      exact .enter c q found
  | sending task result =>
      cases done
      exact .send task result
  | lost task => cases done
  | finished => cases done

theorem Worker.act_eq_none_iff : w.act b p = none ↔ w.isOver := by
  cases w with
  | idle => cases queue : p.queue <;> simp [act, isOver, queue]
  | loading task => cases loaded : b.load task.1 <;> simp [act, isOver, loaded]
  | looking c =>
      cases next : c.next? b with
      | none => cases given : c.result? b <;> simp [act, isOver, next, given]
      | some q =>
          cases held : p.registry.cached? c.method.generics q <;> simp [act, isOver, next, held]
  | _ => simp [act, isOver]

namespace Pool

theorem step_eq_some {k : Nat} (stepped : p.step b k = some p') :
    ∃ w w' q, p.workers[k]? = some w ∧ Acts b p w w' q ∧
      p' = { q with workers := p.workers.set k w' } := by
  obtain ⟨w, here, acted⟩ := Option.bind_eq_some_iff.mp stepped
  obtain ⟨⟨w', q⟩, done, rfl⟩ := Option.map_eq_some_iff.mp acted
  exact ⟨w, w', q, here, .of_act done, rfl⟩

theorem run_keeps {P : Pool → Prop} (kept : ∀ p k p', P p → p.step b k = some p' → P p')
    {schedule : List Nat} (holds : P p) (ran : run b schedule p = some p') : P p' := by
  induction schedule generalizing p with
  | nil =>
      cases ran
      exact holds
  | cons k schedule ih =>
      obtain ⟨q, stepped, ran⟩ := Option.bind_eq_some_iff.mp ran
      exact ih (kept p k q holds stepped) ran

end Pool

/-! ## What workers know -/

namespace Batch

def Holds (b : Batch) (registry : Registry) (m : MethodCode) (queries : List Query) : Prop :=
  ∀ q ∈ queries, q.isKnown ((b.view m).answer q) → (registry.cached? m.generics q).isSome

/-- The task has the result that it has for itself, and its lookups are in the registry. -/
structure Settled (b : Batch) (registry : Registry) (task : Task)
    (result : Except CompileError Body) : Prop where
  alone : b.alone task.1 = some result
  held : ∀ m, b.load task.1 = .method m → b.Holds registry m (b.log m)

def Asks (b : Batch) (tokens : List Token) (args : GenericArgs) (q : Query) : Prop :=
  ∃ token ∈ tokens, ∃ m, b.load token = .method m ∧ ∃ own ∈ b.log m,
    q.key args = own.key m.generics ∧ own.isKnown ((b.view m).answer own)

theorem alone_of_method {token : Token} {m : MethodCode} (loaded : b.load token = .method m) :
    b.alone token = (m.compile (b.view m) b.options).1 := by
  unfold alone
  rw [loaded]
  simp only [Registry.compile, Registry.echoes_empty.view_eq]
  rfl

end Batch

namespace Compilation

structure Sound (b : Batch) (registry : Registry) (c : Compilation) : Prop where
  loaded : b.load c.task.1 = .method c.method
  bounded : c.asked ≤ (b.log c.method).length
  told : ∀ q ∈ (b.log c.method).take c.asked, c.told.answer q = (b.view c.method).answer q
  held : b.Holds registry c.method ((b.log c.method).take c.asked)

namespace Sound

variable {registry later : Registry} {c : Compilation} {q : Query}

theorem next?_eq (sound : c.Sound b registry) : c.next? b = (b.log c.method)[c.asked]? :=
  (MethodCode.compile_told sound.told).1

theorem result?_eq (sound : c.Sound b registry) (last : c.next? b = none) :
    c.result? b = b.alone c.task.1 := by
  rw [sound.next?_eq, List.getElem?_eq_none_iff] at last
  rw [Batch.alone_of_method sound.loaded, result?, (MethodCode.compile_told sound.told).2 last]

theorem settled (sound : c.Sound b registry) (last : c.next? b = none)
    {result : Except CompileError Body} (given : c.result? b = some result) :
    b.Settled registry c.task result := by
  refine ⟨(sound.result?_eq last).symm.trans given, fun m loaded => ?_⟩
  rw [sound.next?_eq, List.getElem?_eq_none_iff] at last
  obtain rfl : c.method = m := by simpa [sound.loaded] using loaded
  exact List.take_of_length_le last ▸ sound.held

theorem learn (sound : c.Sound b registry) (next : c.next? b = some q)
    (within : registry.Within later)
    (known : q.isKnown ((b.view c.method).answer q) → (later.cached? c.method.generics q).isSome) :
    (c.learn q ((b.view c.method).answer q)).Sound b later := by
  rw [sound.next?_eq] at next
  have asked : (b.log c.method).take (c.asked + 1) = (b.log c.method).take c.asked ++ [q] := by
    rw [List.take_add_one, next, Option.toList_some]
  refine ⟨sound.loaded, (List.getElem?_eq_some_iff.mp next).1, ?_, ?_⟩
  · intro p member
    change p ∈ (b.log c.method).take (c.asked + 1) at member
    change (c.told.learn q _).answer p = (b.view c.method).answer p
    by_cases same : p = q
    · rw [same, View.answer_learn_self]
    · rw [View.answer_learn_of_ne _ _ same]
      rw [asked] at member
      exact sound.told p (by simpa [same] using member)
  · intro p member answered
    change p ∈ (b.log c.method).take (c.asked + 1) at member
    rw [asked, List.mem_append, List.mem_singleton] at member
    obtain earlier | rfl := member
    · exact within _ _ (sound.held p earlier answered)
    · exact known answered

end Sound
end Compilation

namespace Batch

/-- The registry says what the catalog says, and only what one of the methods asks for. -/
structure Keeps (b : Batch) (tokens : List Token) (registry : Registry) : Prop where
  echoes : registry.Echoes b.catalog.resolver
  distinct : registry.Distinct
  asked : ∀ args q, (registry.cached? args q).isSome → b.Asks tokens args q

theorem Keeps.enter {tokens : List Token} {registry : Registry} {token : Token} {m : MethodCode}
    {q : Query} (keeps : b.Keeps tokens registry) (listed : token ∈ tokens)
    (loaded : b.load token = .method m) (queried : q ∈ b.log m) :
    b.Keeps tokens (registry.enter m.generics q ((b.view m).answer q)).2 where
  echoes := keeps.echoes.enter b.catalog.resolver_uniform m.generics q
  distinct := keeps.distinct.enter m.generics q _
  asked := by
    intro args p held
    obtain before | ⟨same, known⟩ := (Registry.isSome_cached?_enter _).mp held
    · exact keeps.asked args p before
    · exact ⟨token, listed, m, loaded, q, queried, same, known⟩

theorem Settled.later {registry later : Registry} {task : Task}
    {result : Except CompileError Body} (settled : b.Settled registry task result)
    (within : registry.Within later) : b.Settled later task result where
  alone := settled.alone
  held m loaded q queried known := within _ _ (settled.held m loaded q queried known)

end Batch

theorem Compilation.Sound.later {registry later : Registry} {c : Compilation}
    (sound : c.Sound b registry) (within : registry.Within later) : c.Sound b later :=
  { sound with held := fun q queried known => within _ _ (sound.held q queried known) }

def Worker.Sound (b : Batch) (registry : Registry) : Worker → Prop
  | .idle | .loading _ | .finished => True
  | .looking c => c.Sound b registry
  | .entering c q found =>
    c.Sound b registry ∧ c.next? b = some q ∧ found = (b.view c.method).answer q
  | .sending task result => b.Settled registry task result
  | .lost task => b.alone task.1 = none

theorem Worker.Sound.later {registry later : Registry} (sound : w.Sound b registry)
    (within : registry.Within later) : w.Sound b later := by
  cases w with
  | looking c => exact Compilation.Sound.later sound within
  | entering c q found => exact ⟨sound.1.later within, sound.2⟩
  | sending task result => exact Batch.Settled.later sound within
  | _ => exact sound

namespace Acts

variable {tokens : List Token}

theorem registry_keeps (acts : Acts b p w w' p') (keeps : b.Keeps tokens p.registry)
    (sound : w.Sound b p.registry) (listed : ∀ task, w.task? = some task → task.1 ∈ tokens) :
    b.Keeps tokens p'.registry ∧ p.registry.Within p'.registry := by
  cases acts with
  | enter c q found =>
      obtain ⟨sound, next, rfl⟩ := sound
      rw [sound.next?_eq] at next
      constructor
      · exact keeps.enter (listed c.task rfl) sound.loaded (List.mem_of_getElem? next)
      · exact p.registry.within_enter _ _ _
  | _ => exact ⟨keeps, fun _ _ held => held⟩

theorem worker_sound (acts : Acts b p w w' p') (keeps : b.Keeps tokens p.registry)
    (sound : w.Sound b p.registry) : w'.Sound b p'.registry := by
  cases acts with
  | begin loaded => exact ⟨loaded, Nat.zero_le _, by simp, by simp [Batch.Holds]⟩
  | @fail task cause failed =>
      refine ⟨by rw [Batch.alone, failed], fun m loaded => ?_⟩
      rw [failed] at loaded
      cases loaded
  | @crash task crashed =>
      change b.alone task.1 = none
      rw [Batch.alone, crashed]
  | complete last given => exact Compilation.Sound.settled sound last given
  | collapse last crashed => exact (Compilation.Sound.result?_eq sound last).symm.trans crashed
  | @hit c q found next held =>
      rw [keeps.echoes _ _ _ held]
      exact Compilation.Sound.learn sound next (fun _ _ held => held) fun _ => by rw [held]; rfl
  | miss next missing => exact ⟨sound, next, rfl⟩
  | enter c q found =>
      obtain ⟨sound, next, rfl⟩ := sound
      have standing := keeps.echoes.enter_eq c.method.generics q
      rw [Batch.view, standing]
      refine Compilation.Sound.learn sound next (p.registry.within_enter _ _ _) fun known => ?_
      exact (Registry.isSome_cached?_enter _).mpr (.inr ⟨rfl, known⟩)
  | _ => trivial

theorem sent_settled (acts : Acts b p w w' p') (sound : w.Sound b p.registry)
    {entry : Task × Except CompileError Body} (member : entry ∈ p'.sent) :
    entry ∈ p.sent ∨ b.Settled p'.registry entry.1 entry.2 := by
  cases acts with
  | send task result =>
      obtain before | rfl := List.mem_append.mp member |>.imp_right List.mem_singleton.mp
      · exact .inl before
      · exact .inr sound
  | _ => exact .inl member

end Acts

/-! ## Tasks -/

def Worker.tasks (w : Worker) : List Task := w.task?.toList

theorem Acts.count_eq (acts : Acts b p w w' p') (task : Task) :
    w'.tasks.count task + p'.queue.count task + (p'.sent.map (·.1)).count task =
      w.tasks.count task + p.queue.count task + (p.sent.map (·.1)).count task := by
  cases acts with
  | @take task queue first => simp [Worker.tasks, Worker.task?, first, List.count_cons]; omega
  | send task result => simp [Worker.tasks, Worker.task?, List.count_cons]; omega
  | _ => rfl

theorem Acts.queue_eq_nil (acts : Acts b p w w' p') (empty : p.queue = []) : p'.queue = [] := by
  cases acts with
  | take first => rw [empty] at first; cases first
  | _ => exact empty

theorem Acts.finished_queue (acts : Acts b p w .finished p') : p'.queue = [] := by
  cases acts with
  | finish empty => exact empty

theorem sum_map_set {α : Type} (f : α → Nat) {l : List α} {k : Nat} {a : α}
    (here : l[k]? = some a) (new : α) :
    ((l.set k new).map f).sum + f a = (l.map f).sum + f new := by
  induction l generalizing k with
  | nil => simp at here
  | cons head tail ih =>
      cases k with
      | zero =>
          simp only [List.getElem?_cons_zero, Option.some.injEq] at here
          simp [here]
          omega
      | succ k =>
          have rest := ih (by simpa using here)
          simp only [List.set_cons_succ, List.map_cons, List.sum_cons]
          omega

namespace Pool

def tasks (p : Pool) : List Task :=
  p.workers.flatMap Worker.tasks ++ p.queue ++ p.sent.map (·.1)

theorem tasks_step {k : Nat} (stepped : p.step b k = some p') : p'.tasks.Perm p.tasks := by
  obtain ⟨w, w', q, here, acts, rfl⟩ := step_eq_some stepped
  rw [List.perm_iff_count]
  intro task
  have counted := acts.count_eq task
  have moved := sum_map_set (fun w => w.tasks.count task) here w'
  simp only [tasks, List.count_append, List.count_flatMap, Function.comp_def]
  omega

structure Sound (b : Batch) (tokens : List Token) (p : Pool) : Prop where
  registry : b.Keeps tokens p.registry
  workers : ∀ w ∈ p.workers, w.Sound b p.registry
  sent : ∀ entry ∈ p.sent, b.Settled p.registry entry.1 entry.2
  tasks : p.tasks.Perm tokens.zipIdx
  drained : .finished ∈ p.workers → p.queue = []

theorem start_sound (b : Batch) (tokens : List Token) (workers : Nat) :
    (start tokens workers).Sound b tokens where
  registry := by
    refine ⟨Registry.echoes_empty, Registry.distinct_empty, ?_⟩
    simp [start, Registry.cached?_empty]
  workers := by
    intro w member
    rw [List.eq_of_mem_replicate member]
    trivial
  sent := by simp [start]
  tasks := by
    have idle : (start tokens workers).workers.flatMap Worker.tasks = [] := by
      rw [List.flatMap_eq_nil_iff]
      intro w member
      rw [List.eq_of_mem_replicate member]
      rfl
    rw [Pool.tasks, idle]
    simp [start]
  drained := by simp [start]

theorem Sound.step {tokens : List Token} {k : Nat} (sound : p.Sound b tokens)
    (stepped : p.step b k = some p') : p'.Sound b tokens := by
  have tasks := (tasks_step stepped).trans sound.tasks
  obtain ⟨w, w', q, here, acts, rfl⟩ := step_eq_some stepped
  have known := sound.workers w (List.mem_of_getElem? here)
  have listed (task : Task) (has : w.task? = some task) : task.1 ∈ tokens := by
    have counted : task ∈ p.tasks := by
      simp only [Pool.tasks, List.mem_append, List.mem_flatMap]
      exact .inl (.inl ⟨w, List.mem_of_getElem? here, by simp [Worker.tasks, has]⟩)
    exact List.fst_mem_of_mem_zipIdx (sound.tasks.subset counted)
  obtain ⟨keeps, within⟩ := acts.registry_keeps sound.registry known listed
  refine ⟨keeps, ?_, ?_, tasks, ?_⟩
  · intro other member
    obtain before | rfl := List.mem_or_eq_of_mem_set member
    · exact (sound.workers other before).later within
    · exact acts.worker_sound sound.registry known
  · intro entry member
    obtain before | settled := acts.sent_settled known member
    · exact (sound.sent entry before).later within
    · exact settled
  · intro member
    obtain before | rfl := List.mem_or_eq_of_mem_set member
    · exact acts.queue_eq_nil (sound.drained before)
    · exact acts.finished_queue

theorem Sound.run {tokens : List Token} {schedule : List Nat} (sound : p.Sound b tokens)
    (ran : Pool.run b schedule p = some p') : p'.Sound b tokens :=
  run_keeps (fun _ _ _ => Sound.step) sound ran

theorem workers_length_run {schedule : List Nat} (ran : Pool.run b schedule p = some p') :
    p'.workers.length = p.workers.length := by
  refine run_keeps (P := fun q => q.workers.length = p.workers.length) ?_ rfl ran
  intro q k q' same stepped
  obtain ⟨w, w', r, here, acts, rfl⟩ := step_eq_some stepped
  simpa using same

end Pool
end Destack
