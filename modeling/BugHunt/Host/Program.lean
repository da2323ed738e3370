import BugHunt.Host.Request
/-!
Programs: finite exchanges of requests and answers with a host. What a program does is fixed
before it is known which host answers, so it can be run on any.
-/

namespace BugHunt

inductive Program (α : Type) where
  | done (value : α)
  | ask (request : Request) (next : request.Answer → Program α)

/-- A host in some state answers each request and moves on to another state. -/
abbrev Host (σ : Type) := (request : Request) → σ → request.Answer × σ

namespace Program

def bind (p : Program α) (f : α → Program β) : Program β :=
  match p with
  | done value => f value
  | ask request next => ask request fun answer => (next answer).bind f

instance : Monad Program where
  pure := done
  bind := bind

@[simp] theorem done_bind (value : α) (f : α → Program β) :
    (done value).bind f = f value := rfl

@[simp] theorem ask_bind (request : Request) (next : request.Answer → Program α)
    (f : α → Program β) :
    (ask request next).bind f = ask request fun answer => (next answer).bind f := rfl

theorem bind_done (p : Program α) : p.bind done = p := by
  induction p with
  | done value => rfl
  | ask request next ih => simp [ih]

theorem bind_assoc (p : Program α) (f : α → Program β) (g : β → Program γ) :
    (p.bind f).bind g = p.bind fun a => (f a).bind g := by
  induction p with
  | done value => rfl
  | ask request next ih => simp [ih]

instance : LawfulMonad Program := LawfulMonad.mk' Program bind_done (fun _ _ => rfl) bind_assoc

/-- Runs a program to its end. -/
def run (host : Host σ) (s : σ) : Program α → α × σ
  | done value => (value, s)
  | ask request next =>
    let (answer, s) := host request s
    (next answer).run host s

/-- The requests of a run, in their order. -/
def trace (host : Host σ) (s : σ) : Program α → List Request
  | done _ => []
  | ask request next => request :: (next (host request s).1).trace host (host request s).2

theorem run_bind (host : Host σ) (s : σ) (p : Program α) (f : α → Program β) :
    (p.bind f).run host s = (f (p.run host s).1).run host (p.run host s).2 := by
  induction p generalizing s with
  | done value => rfl
  | ask request next ih => simp [run, ih]

def request (r : Request) : Program r.Answer := ask r done

def read (path : Path) : Program (Except Failure Bytes) := request (.file (.read path))
def «exists» (path : Path) : Program Bool := request (.file (.exists path))
def isFile (path : Path) : Program Bool := request (.file (.isFile path))
def createDirectories (path : Path) : Program (Except Failure Unit) :=
  request (.file (.createDirectories path))
def createDirectory (path : Path) : Program (Except Failure Unit) :=
  request (.file (.createDirectory path))
def write (path : Path) (content : Bytes) : Program (Except Failure Unit) :=
  request (.file (.write path content))
def makeExecutable (path : Path) : Program (Except Failure Unit) :=
  request (.file (.makeExecutable path))
def touch (path : Path) : Program (Except Failure Unit) := request (.file (.touch path))
def copy (source target : Path) : Program (Except Failure Unit) :=
  request (.file (.copy source target))
def rename (source target : Path) : Program (Except Failure Unit) :=
  request (.file (.rename source target))
def remove (path : Path) : Program (Except Failure Unit) := request (.file (.remove path))
def removeTree (path : Path) : Program (Except Failure Unit) := request (.file (.removeTree path))
def temporaryDirectory (before after : String) : Program (Except Failure Path) :=
  request (.temporaryDirectory before after)
def temporaryFile (directory : Path) (before after : String) : Program (Except Failure Path) :=
  request (.temporaryFile directory before after)
def search (root : Path) : Program (List Found) := request (.search root)
def isCancelled : Program Bool := request .isCancelled
def log (level : Level) (message : String) : Program Unit := request (.log ⟨level, message⟩)
def info (message : String) : Program Unit := log .info message
def warn (message : String) : Program Unit := log .warn message
def spawn (command : Command) (memory : Option Nat) : Program (Except Failure Child) :=
  request (.spawn command memory)
def await (child : Child) (stop : Observation → Option Ending) :
    Program (Except Failure Ending) :=
  request (.await child stop)
def terminate (child : Child) : Program Unit := request (.terminate child)
def collect (child : Child) : Program (Bytes × Bytes) := request (.collect child)

end Program

/-- A program that may end in an error. -/
abbrev Action (ε α : Type) := ExceptT ε Program α

namespace Action

/-- The value of an answer, or the failure as an error of the action. -/
def orFail (p : Program (Except φ α)) (toError : φ → ε) : Action ε α :=
  ExceptT.mk do
    match ← p with
    | .ok value => return .ok value
    | .error failure => return .error (toError failure)

/-- Runs `cleanup` on the result of the action, whatever it is. -/
def cleaningUp (a : Action ε α) (cleanup : Except ε α → Program Unit) : Action ε α :=
  ExceptT.mk do
    let result ← a.run
    cleanup result
    return result

end Action
end BugHunt
