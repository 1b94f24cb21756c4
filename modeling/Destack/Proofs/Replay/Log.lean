import Destack.Proofs.Merge.Search
import Destack.Proofs.Replay.Faithful

namespace Destack
namespace Replay

variable {α β : Type}

def after (asked : List Query) :
    EStateM.Result ReplayError Progress α → EStateM.Result ReplayError Progress α
  | .ok a p => .ok a { p with queries := asked ++ p.queries }
  | .error e p => .error e { p with queries := asked ++ p.queries }

/-- The step only adds to the log. -/
def Logs (x : Replay α) : Prop :=
  ∀ (asked : List Query) (p : Progress),
    x { p with queries := asked ++ p.queries } = after asked (x p)

namespace Logs

theorem bind {x : Replay α} {f : α → Replay β} (first : Logs x)
    (rest : ∀ a, Returns x a → Logs (f a)) : Logs (x >>= f) := by
  intro asked p
  rw [bind_apply, bind_apply, first asked p]
  cases ran : x p with
  | ok a q => exact rest a ⟨p, q, ran⟩ asked q
  | error e q => rfl

theorem seq {x : Replay α} {f : α → Replay β} (first : Logs x) (rest : ∀ a, Logs (f a)) :
    Logs (x >>= f) :=
  first.bind fun a _ => rest a

theorem look {f : Progress → α}
    (ignores : ∀ (asked : List Query) (p : Progress),
      f { p with queries := asked ++ p.queries } = f p) : Logs (inspect f) := by
  intro asked p
  change EStateM.Result.ok (f _) _ = .ok (f p) _
  rw [ignores]

theorem take {x : Replay α} {f : OperandStack → Except ReplayError (α × OperandStack)}
    (takes : ∀ p, x p = withStack p (f p.stack)) : Logs x := by
  intro asked p
  rw [takes, takes]
  cases f p.stack <;> rfl

theorem temp (t : Ty) : Logs (temp t) := by
  intro asked p
  cases found : p.temps[p.used]? with
  | some id =>
      rw [temp_reused (p := { p with queries := asked ++ p.queries }) t found, temp_reused t found]
      rfl
  | none =>
      rw [temp_fresh (p := { p with queries := asked ++ p.queries }) t found, temp_fresh t found]
      rfl

theorem emit (s : Stmt) : Logs (emit s) := fun _ _ => rfl

theorem push (v : Value) : Logs (push v) := fun _ _ => rfl

theorem ask (q : Query) : Logs (ask q) := by
  intro asked p
  have same := List.append_assoc asked p.queries [q]
  exact congrArg (fun queries => EStateM.Result.ok () { p with queries := queries }) same

end Logs

def logged : Uniform where
  holds _ x _ := Logs x
  ret _ _ _ := rfl
  bind := Logs.bind
  fail _ _ _ := rfl
  look depends _ := Logs.look fun _ p => depends p _ rfl rfl fun _ _ => rfl
  note _ _ _ _ _ := rfl
  ask q := Logs.ask q
  pop i := Logs.take (pop_apply i)
  popMany i count := Logs.take (popMany_apply i count)
  peekMany i count := Logs.take (f := fun stack =>
    (stack.popMany count i.opcode i.index).map fun both => (both.1, stack)) (peekMany_apply i count)
  push _ := Logs.push _
  clear _ _ := rfl
  temp := Logs.temp
  contains _ := Logs.look fun _ _ => rfl
  replace _ _ _ := rfl
  emitAll _ _ _ := rfl

def logging : Logic := logged.logic

theorem Logs.define (e : Expr) : Logs (define e) :=
  have held : logged.holds e.reads (Replay.define e) fun v => [v] :=
    logged.define fun _ read => .inl read
  held

theorem Logs.receive (exception : Option Ty) : Logs (receive exception) :=
  have held : logging.holds [] .fresh (Replay.receive exception) nothing _ :=
    logging.receive exception
  held

end Replay

open Replay

theorem Block.replay_logs (cx : Context) (l : Listing) (b : Block) : Logs (b.replay cx l) :=
  logged.replay cx b.exception (b.instructions l)

def Shared.after (asked : List Query) (s : Shared) : Shared :=
  { s with queries := asked ++ s.queries }

theorem replayBlock_after (cx : Context) (l : Listing) (b : Block) (entry : List Value)
    (asked : List Query) (s : Shared) :
    replayBlock cx l b entry (s.after asked) =
      ((replayBlock cx l b entry s).1, (replayBlock cx l b entry s).2.after asked) := by
  have same := b.replay_logs cx l asked (s.begin entry)
  rw [replayBlock_eq, replayBlock_eq, show (s.after asked).begin entry =
    { s.begin entry with queries := asked ++ (s.begin entry).queries } from rfl, same]
  cases b.replay cx l (s.begin entry) <;> rfl

namespace Build

def after (asked : List Query) (s : Build) : Build := { s with queries := asked ++ s.queries }

theorem candidate_after (g : Graph) (asked : List Query) (s : Build) (id : Nat) (site : Site) :
    candidate g (s.after asked) id site = candidate g s id site :=
  rfl

theorem visit_after (job : Job) (id : Nat) (asked : List Query) (s : Build) :
    visit job id (s.after asked) = ((visit job id s).1, (visit job id s).2.after asked) := by
  unfold visit
  rw [show (s.after asked).sites[id]? = s.sites[id]? from rfl]
  cases s.sites[id]? with
  | none => rfl
  | some site =>
      dsimp only
      rw [candidate_after]
      cases candidate job.graph s id site with
      | error e => rfl
      | ok c =>
          have replayed : replayBlock job.cx job.listing site.block c.entry
              ⟨c.vars, site.temps, (s.after asked).queries⟩ = _ :=
            replayBlock_after job.cx job.listing site.block c.entry asked
              ⟨c.vars, site.temps, s.queries⟩
          dsimp only
          split
          · rfl
          · split
            · rfl
            · rw [replayed]
              cases replayBlock job.cx job.listing site.block c.entry
                ⟨c.vars, site.temps, s.queries⟩ with
              | mk r shared => cases r <;> rfl

theorem search_after (job : Job) (worklist : List Nat) (count : Nat) (asked : List Query)
    (s : Build) :
    search job worklist count (s.after asked) =
      ((search job worklist count s).1, (search job worklist count s).2.after asked) := by
  fun_induction search job worklist count s with
  | case1 count s id rest e after visited =>
      rw [search_cons, visit_after, visited]
  | case2 count s id rest after visited ih =>
      rw [search_cons, visit_after, visited]
      exact ih
  | case3 count s id rest changed after visited next ih =>
      rw [search_cons, visit_after, visited]
      cases changed <;> exact ih
  | case4 count s seen =>
      rw [search_nil, show unvisited? (s.after asked).sites = none from seen]
  | case5 count s id found e after visited =>
      rw [search_nil, show unvisited? (s.after asked).sites = some id from found]
      dsimp only
      rw [visit_after, visited]
  | case6 count s id found after visited =>
      rw [search_nil, show unvisited? (s.after asked).sites = some id from found]
      dsimp only
      rw [visit_after, visited]
  | case7 count s id found changed after visited next ih =>
      rw [search_nil, show unvisited? (s.after asked).sites = some id from found]
      dsimp only
      rw [visit_after, visited]
      cases changed <;> exact ih

theorem converge_after (job : Job) (asked : List Query) (s : Build) :
    converge job (s.after asked) = ((converge job s).1, (converge job s).2.after asked) :=
  search_after job _ 0 asked s

end Build
end Destack
