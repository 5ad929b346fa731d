import Tripwire.Dispatcher

/-!
A demonstration: two triggers watch a state that moves with the cycles, and the
records of what fires are shown.
-/

namespace Tripwire

/-- What the jobs of a demonstration note. -/
inductive DemoNote
  /-- The trigger of a fall fired at a time. -/
  | fall (time : Value)
  | finish

structure Demo where
  dispatcher : Dispatcher DemoNote
  receiver : Nat
  falls : Nat

namespace Demo

/-- Fires while the state falls; notes the time. -/
def falling (condition : Condition) : Trigger DemoNote where
  name := "falling"
  source := .condition condition
  action := some fun snapshot =>
    ⟨[.fall ((snapshot.bindings.get? "time").getD .null)], .ok ()⟩

/-- Fires when the state is bored, or idle at certain times. -/
def restless (composite : Composite) : Trigger DemoNote where
  name := "restless"
  source := .composite composite
  action := none

/-- A demonstration before its first cycle; cycles cannot be paced without a time
between them. -/
def start (config : Config) : Except Crash Demo :=
  let (place, engines) := Engines.empty.add (.ofConfig config)
  let (fall, engines) := Condition.ofSource engines place "time > 1000 && state === 'falling'"
  let (rest, engines) :=
    Composite.ofSources engines place .any
      ["boredom >= 3", "state === 'idle' && time % 500 == 0"]
  let (receiver, bus) := (Bus.new config.logCapacity).subscribe
  let dispatcher := Dispatcher.ofConfig config engines ⟨0, some bus⟩
  let dispatcher := (dispatcher.register (falling fall)).register (restless rest)
  if config.pollInterval = 0 then .error ⟨some "the time between cycles is zero"⟩
  else .ok ⟨dispatcher, receiver, 0⟩

def bindings (tick : Nat) : List (String × Value) :=
  [("time", .integer (Int64.ofNat (tick * 250))),
    ("state", .string (if tick % 8 < 4 then "idle" else "falling")),
    ("boredom", .integer (Int64.ofNat (tick % 5)))]

/-- Lets the workers do what is queued, and counts the falls. -/
def settle (demo : Demo) : Demo :=
  let (notes, dispatcher) := demo.dispatcher.settle
  let isFall : DemoNote → Bool
    | .fall _ => true
    | .finish => false
  { demo with dispatcher := dispatcher, falls := demo.falls + notes.countP isFall }

def cycle (demo : Demo) (tick : Nat) : Demo :=
  let context :=
    (bindings tick).foldl (fun context (name, value) => context.set name value)
      demo.dispatcher.context
  let (_, dispatcher) := { demo.dispatcher with context := context }.poll
  { demo with dispatcher := dispatcher }.settle

def finish (demo : Demo) : Demo :=
  let (_, dispatcher) := demo.dispatcher.dispatch .low ⟨[.finish], .ok ()⟩
  let (_, dispatcher) := dispatcher.shutdown
  let demo := { demo with dispatcher := dispatcher }.settle
  let (_, dispatcher) := demo.dispatcher.await
  { demo with dispatcher := dispatcher }

def records (demo : Demo) : List Record × Demo :=
  let (records, journal) := demo.dispatcher.journal.drain demo.receiver
  (records, { demo with dispatcher := { demo.dispatcher with journal := journal } })

/-- The line for a record of success; others are not shown. -/
def line? (nanoseconds : String) (record : Record) : Option String :=
  let entry := record.entry
  if entry.success then
    some s!"[{entry.level.text}] #{record.number} {entry.trigger} fired ({nanoseconds} ns)"
  else none

/-- The last line: how often the state fell, and how the cache did. -/
def summary (demo : Demo) : String :=
  let stats := (demo.dispatcher.engines.get 0).stats
  let rate := Float.placesText 2 stats.rate
  s!"falling actions: {demo.falls}, cache hits: {stats.hits}, misses: {stats.misses}, " ++
    s!"hit rate: {rate}"

/-- All records of a number of cycles from a tick on. -/
def cycles : Nat → Nat → Demo → List Record × Demo
  | 0, _, demo => demo.records
  | count + 1, tick, demo =>
    let (records, demo) := (demo.cycle tick).records
    let (later, demo) := cycles count (tick + 1) demo
    (records ++ later, demo)

def lines (demo : Demo) (ticks : Nat) (nanoseconds : String) : List String :=
  let (records, demo) := cycles ticks 0 demo
  let (last, demo) := demo.finish.records
  (records ++ last).filterMap (line? nanoseconds) ++ [demo.summary]

end Demo

end Tripwire
