import Tripwire.Command.Basic
import Tripwire.Demo
import Tripwire.Error

/-!
Carrying out commands: the lines that a command prints, or why it fails.
-/

namespace Tripwire

/-- The settings in a file, given its contents if there is such a file. -/
def Config.ofFile (contents : Option String) : Attempt Error Config :=
  match contents with
  | none => .ok .standard
  | some text => .mapError (.ofConfig .file) (.checked (Config.ofJson text))

namespace Query

def context (query : Query) : Context := .ofBindings query.mode (.ofList query.bindings)

def parse (query : Query) : Attempt Error Expr :=
  .mapError .parse (.checked (Expr.parse query.expression))

def value (query : Query) (config : Config) : Attempt Error (Value × Context) :=
  query.parse.bind fun e =>
    let (outcome, after) := (Engine.ofConfig config).tryEvaluate e query.context
    (Attempt.mapError Error.eval outcome).map fun value => (value, after)

def verdict (query : Query) (config : Config) : Attempt Error Bool :=
  query.parse.bind fun _ =>
    let (place, engines) := Engines.empty.add (.ofConfig config)
    let (condition, engines) := Condition.ofSource engines place query.expression
    Attempt.mapError Error.eval (condition.tryEvaluate engines query.context "cli").1

/-- The value, what it depends on, and the mode. -/
def report (value : Value) (after : Context) : List String :=
  let dependencies := after.dependencies.toList.map fun (name, value) => name ++ "=" ++ value.text
  ["value: " ++ value.text,
    "dependencies: [" ++ String.intercalate ", " dependencies ++ "]",
    "mode: " ++ after.mode.text]

end Query

namespace Command

/-- The lines that a command prints; elapsed times are given as text. -/
def run (config : Config) (nanoseconds : String) : Command → Attempt Error (List String)
  | eval query => (query.value config).map fun (value, after) => Query.report value after
  | check query => (query.verdict config).map fun truth => [(Value.boolean truth).text]
  | demo ticks =>
    (Attempt.guarded (Demo.start config)).map fun demo => demo.lines ticks nanoseconds

end Command

def Fault.code {ε : Type} : Fault ε → Nat
  | error _ => 1
  | crash _ => 101

/-- The exit code of a program that makes the attempt. -/
def Attempt.exitCode {ε α : Type} : Attempt ε α → Nat
  | .ok _ => 0
  | .error fault => fault.code

end Tripwire
