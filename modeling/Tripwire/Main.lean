import Tripwire.Command.Line
import Tripwire.Command.Run

/-!
The program: reads the settings, carries out the command, and prints.
-/

namespace Tripwire

def usage : String :=
  "usage: tripwire [--config PATH] [--verbose] COMMAND

  eval EXPRESSION [--var NAME=VALUE]... [--loose]    show the value of an expression
  check EXPRESSION [--var NAME=VALUE]... [--loose]   show whether it holds as a condition
  demo [--ticks N]                                   run some dispatch cycles"

/-- Tells on the error stream why nothing more is done. -/
def explain (refusal : Refusal) : IO Unit :=
  match refusal with
  | .help => IO.println usage
  | .version => IO.println "tripwire"
  | .misused error => do
    IO.eprintln ("error: " ++ error.message)
    IO.eprintln usage

def explainFault (fault : Fault Error) : IO Unit :=
  match fault with
  | .error error => IO.eprintln ("Error: " ++ error.message)
  | .crash crash => IO.eprintln crash.message

def loadConfig (path : String) : IO (Attempt Error Config) := do
  match ← (IO.FS.readFile path).toBaseIO with
  | .ok text => return Config.ofFile (some text)
  | .error (.noFileOrDirectory ..) => return Config.ofFile none
  | .error _ => return .error (.error (.ofConfig .file .unreadable))

/-- Prints the new records of a demonstration; the time is counted from a moment on. -/
def printRecords (verbose : Bool) (demo : Demo) (since : Nat) : IO Demo := do
  let (records, demo) := demo.records
  for record in records do
    let elapsed := (← IO.monoNanosNow) - since
    match Demo.line? (toString elapsed) record with
    | some line => IO.println line
    | none => if verbose then IO.eprintln s!"#{record.number} {record.entry.trigger} skipped"
  return demo

def playDemo (start : Demo) (verbose : Bool) (ticks pause : Nat) : IO Unit := do
  let mut demo ← printRecords verbose start (← IO.monoNanosNow)
  for tick in [0:ticks] do
    let since ← IO.monoNanosNow
    demo ← printRecords verbose (demo.cycle tick) since
    IO.sleep pause.toUInt32
  let since ← IO.monoNanosNow
  demo ← printRecords verbose demo.finish since
  IO.println demo.summary

def conclude {α : Type} (attempt : Attempt Error α) (print : α → IO Unit) : IO UInt32 := do
  match attempt with
  | .ok a => print a
  | .error fault => explainFault fault
  return attempt.exitCode.toUInt32

def perform (config : Config) (verbose : Bool) (command : Command) : IO UInt32 :=
  match command with
  | .demo ticks =>
    conclude (.guarded (Demo.start config)) fun demo =>
      playDemo demo verbose ticks config.pollInterval
  | command => conclude (command.run config "0") fun lines => lines.forM IO.println

def invoke (invocation : Invocation) : IO UInt32 := do
  match ← loadConfig invocation.config with
  | .ok config => perform config invocation.verbose invocation.command
  | failure => conclude failure fun _ => pure ()

end Tripwire

def main (words : List String) : IO UInt32 := do
  match Tripwire.Invocation.ofWords words with
  | .ok invocation => Tripwire.invoke invocation
  | .error refusal =>
    Tripwire.explain refusal
    return refusal.code.toUInt32
