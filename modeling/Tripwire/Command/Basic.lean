import Tripwire.Value.Text

/-!
Commands: what the program can be asked to do, and the words and flags that say
so.
-/

namespace Tripwire

structure Query where
  expression : String
  bindings : List (String × Value)
  mode : Mode

inductive Command
  | eval (query : Query)
  /-- Show whether an expression holds as a condition. -/
  | check (query : Query)
  | demo (ticks : Nat)

structure Invocation where
  config : String
  /-- Whether to report more than the answers. -/
  verbose : Bool
  command : Command

inductive Verb
  | eval | check | demo | help
  deriving DecidableEq

namespace Verb

def text : Verb → String
  | eval => "eval"
  | check => "check"
  | demo => "demo"
  | help => "help"

def all : List Verb := [eval, check, demo, help]

def ofText? (text : String) : Option Verb := all.find? fun verb => verb.text = text

end Verb

inductive Flag
  | config | verbose | help | version | binding | loose | ticks
  deriving DecidableEq

namespace Flag

/-- The long name, which follows two dashes. -/
def name : Flag → String
  | config => "config"
  | verbose => "verbose"
  | help => "help"
  | version => "version"
  | binding => "var"
  | loose => "loose"
  | ticks => "ticks"

/-- The short name, which follows one dash. -/
def letter? : Flag → Option Char
  | config => some 'c'
  | verbose => some 'v'
  | help => some 'h'
  | version => some 'V'
  | ticks => some 't'
  | binding | loose => none

def takesValue : Flag → Bool
  | config | binding | ticks => true
  | verbose | help | version | loose => false

def repeats (flag : Flag) : Bool := flag = binding

/-- The flags that are known before a verb, or after it. -/
def known : Option Verb → List Flag
  | none => [config, verbose, help, version]
  | some .eval | some .check => [config, verbose, help, binding, loose]
  | some .demo => [config, verbose, help, ticks]
  | some .help => []

end Flag

inductive UsageError
  | missingCommand
  | unknownCommand (word : String)
  | missingExpression
  /-- A word that has no place after its verb. -/
  | surplusWord (word : String)
  | unknownFlag (word : String)
  | repeated (flag : Flag)
  | missingValue (flag : Flag)
  | surplusValue (flag : Flag)
  | unusableValue (flag : Flag) (value : String)
  deriving DecidableEq

namespace UsageError

def message : UsageError → String
  | missingCommand => "no command given"
  | unknownCommand word => s!"unknown command {word}"
  | missingExpression => "no expression given"
  | surplusWord word => s!"unexpected argument {word}"
  | unknownFlag word => s!"unknown flag {word}"
  | repeated flag => s!"--{flag.name} given twice"
  | missingValue flag => s!"--{flag.name} needs a value"
  | surplusValue flag => s!"--{flag.name} takes no value"
  | unusableValue flag value => s!"unusable value for --{flag.name}: {value}"

end UsageError

inductive Refusal
  | help
  | version
  | misused (error : UsageError)
  deriving DecidableEq

namespace Refusal

/-- The exit code: a request for a text is no failure. -/
def code : Refusal → Nat
  | help | version => 0
  | misused _ => 2

end Refusal

end Tripwire
