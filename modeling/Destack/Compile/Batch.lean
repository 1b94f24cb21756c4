import Destack.Compile.Method

namespace Destack

inductive Loaded
  | method (code : MethodCode)
  | failed (cause : LoadError)
  | crashed

abbrev Loader := Token → Loaded

namespace Options

/-- How many workers are started for a number of methods: as many as there are processors unless the
options say, and never more than there are methods. -/
def crew (o : Options) (processors methods : Nat) : Nat :=
  min (if o.workers = 0 then max processors 1 else o.workers) methods

end Options

namespace Registry

def compileEach (r : Resolver) (o : Options) (load : Loader) :
    Nat → Registry → List Token → List (Except CompileError Body) × Registry
  | _, registry, [] => ([], registry)
  | 0, registry, tokens => (tokens.map fun token => .error (.interrupted token), registry)
  | workers + 1, registry, token :: tokens =>
    match load token with
    | .method code =>
      match registry.compile r o code with
      | (some result, registry) =>
        let (results, registry) := compileEach r o load (workers + 1) registry tokens
        (result :: results, registry)
      | (none, registry) =>
        let (results, registry) := compileEach r o load workers registry tokens
        (.error (.interrupted token) :: results, registry)
    | .failed cause =>
      let (results, registry) := compileEach r o load (workers + 1) registry tokens
      (.error (.load cause) :: results, registry)
    | .crashed =>
      let (results, registry) := compileEach r o load workers registry tokens
      (.error (.interrupted token) :: results, registry)

def compileAll (registry : Registry) (r : Resolver) (o : Options) (processors : Nat) (load : Loader)
    (tokens : List Token) : List (Except CompileError Body) × Registry :=
  compileEach r o load (o.crew processors tokens.length) registry tokens

end Registry
end Destack
