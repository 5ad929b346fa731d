import Tripwire.Json.Number
import Tripwire.Json.Reader
import Tripwire.Kind

/-!
Settings and their JSON text.  A text gives some of the six settings by name, or
the first few of them in order; the others keep their defaults.
-/

namespace Tripwire

/-- The settings of an engine; the last two are milliseconds. -/
structure Config where
  mode : Mode
  workers : Nat
  cacheCapacity : Nat
  logCapacity : Nat
  shutdownTimeout : Nat
  pollInterval : Nat
  deriving DecidableEq

inductive ConfigError
  /-- There is no file. -/
  | missing
  /-- A text that spells no settings. -/
  | unreadable
  /-- A setting that may not be zero. -/
  | zero (name : String)
  deriving DecidableEq

namespace Config

def standard : Config := ⟨.strict, 2, 1024, 8192, 2000, 50⟩

instance : Inhabited Config := ⟨standard⟩

/-- The settings in the order in which they are written. -/
inductive Setting
  | mode | workers | cacheCapacity | logCapacity | shutdownTimeout | pollInterval
  deriving DecidableEq

namespace Setting

def all : List Setting :=
  [mode, workers, cacheCapacity, logCapacity, shutdownTimeout, pollInterval]

def name : Setting → String
  | mode => "mode"
  | workers => "worker_pool_size"
  | cacheCapacity => "eval_cache_capacity"
  | logCapacity => "log_bus_capacity"
  | shutdownTimeout => "shutdown_timeout"
  | pollInterval => "poll_interval"

def ofName? (name : String) : Option Setting := all.find? fun setting => setting.name = name

end Setting

/-- A mode by its lower-case name, which may also stand as a key with null. -/
def readMode? : Json → Option Mode
  | .string (some text) => [Mode.strict, Mode.loose].find? fun mode => mode.text = text
  | .object [(some text, .null)] =>
    [Mode.strict, Mode.loose].find? fun mode => mode.text = text
  | _ => none

def readCount? : Json → Option Nat
  | .number numeral => numeral.toCount?
  | _ => none

/-- Changes one setting to what a document says. -/
def assign? (config : Config) (setting : Setting) (value : Json) : Option Config :=
  match setting with
  | .mode => (readMode? value).map fun mode => { config with mode := mode }
  | .workers => (readCount? value).map fun n => { config with workers := n }
  | .cacheCapacity => (readCount? value).map fun n => { config with cacheCapacity := n }
  | .logCapacity => (readCount? value).map fun n => { config with logCapacity := n }
  | .shutdownTimeout => (readCount? value).map fun n => { config with shutdownTimeout := n }
  | .pollInterval => (readCount? value).map fun n => { config with pollInterval := n }

/-- Settings by name, each at most once; other names are passed over. -/
def readEntries? (config : Config) (seen : List Setting) :
    List (Option String × Json) → Option Config
  | [] => some config
  | (none, _) :: _ => none
  | (some name, value) :: rest =>
    match Setting.ofName? name with
    | none => readEntries? config seen rest
    | some setting =>
      if setting ∈ seen then none
      else (config.assign? setting value).bind fun config =>
        readEntries? config (setting :: seen) rest

/-- Settings in order, which may end early but not late. -/
def readItems? (config : Config) : List Setting → List Json → Option Config
  | _, [] => some config
  | [], _ :: _ => none
  | setting :: settings, value :: rest =>
    (config.assign? setting value).bind fun config => readItems? config settings rest

def ofDocument? : Json → Option Config
  | .object entries => readEntries? standard [] entries
  | .array items => readItems? standard Setting.all items
  | _ => none

/-- The first count that may not be zero and is. -/
def check (config : Config) : Except ConfigError Config :=
  if config.workers = 0 then .error (.zero Setting.workers.name)
  else if config.cacheCapacity = 0 then .error (.zero Setting.cacheCapacity.name)
  else if config.logCapacity = 0 then .error (.zero Setting.logCapacity.name)
  else .ok config

/-- The settings that a JSON text spells. -/
def ofJson (text : String) : Except ConfigError Config :=
  match (Json.read? text).bind ofDocument? with
  | some config => config.check
  | none => .error .unreadable

/-- A setting as it is written; milliseconds keep their low 64 bits only. -/
def settingText (config : Config) : Setting → String
  | .mode => Json.quote config.mode.text
  | .workers => toString config.workers
  | .cacheCapacity => toString config.cacheCapacity
  | .logCapacity => toString config.logCapacity
  | .shutdownTimeout => toString (config.shutdownTimeout % UInt64.size)
  | .pollInterval => toString (config.pollInterval % UInt64.size)

/-- All settings as JSON text. -/
def json (config : Config) : String :=
  let entries := Setting.all.map fun setting =>
    Json.quote setting.name ++ ":" ++ config.settingText setting
  "\x7b" ++ String.intercalate "," entries ++ "\x7d"

end Config

/-- Where settings were read from. -/
inductive ConfigSource
  | text | file
  deriving DecidableEq

namespace ConfigError

/-- What is said of settings that cannot be used. -/
def message (source : ConfigSource) : ConfigError → String
  | missing => "Failed to open config file: No such file or directory (os error 2)"
  | unreadable =>
    match source with
    | .text => "Failed to parse config"
    | .file => "Failed to parse config file"
  | zero name => s!"{name} must be at least 1"

end ConfigError

end Tripwire
