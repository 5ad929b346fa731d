import Tripwire.Config
import Tripwire.Proofs.Json.Reading

/-!
Settings and the text that they are written as.

All six settings are written, so what reading starts from does not matter: each
entry takes over one setting of the settings that were written (`adopt`).  The
other way round, whatever a text leaves out is a default, and defaults are within
the same bounds as numbers that were read.
-/

namespace Tripwire

namespace Config

/-- Settings whose numbers have room in 64 bits. -/
structure Bounded (config : Config) : Prop where
  workers : config.workers < UInt64.size
  cacheCapacity : config.cacheCapacity < UInt64.size
  logCapacity : config.logCapacity < UInt64.size
  shutdownTimeout : config.shutdownTimeout < UInt64.size
  pollInterval : config.pollInterval < UInt64.size

/-- Settings whose numbers have room in 64 bits and whose counts are not zero. -/
structure Fits (config : Config) : Prop extends Bounded config where
  workersPositive : 1 ≤ config.workers
  cacheCapacityPositive : 1 ≤ config.cacheCapacity
  logCapacityPositive : 1 ≤ config.logCapacity

/-! ## From settings to text and back -/

/-- The document that a setting is written as. -/
def written (config : Config) : Setting → Json
  | .mode => .string (some config.mode.text)
  | .workers => .number (.ofCount config.workers)
  | .cacheCapacity => .number (.ofCount config.cacheCapacity)
  | .logCapacity => .number (.ofCount config.logCapacity)
  | .shutdownTimeout => .number (.ofCount (config.shutdownTimeout % UInt64.size))
  | .pollInterval => .number (.ofCount (config.pollInterval % UInt64.size))

/-- Takes one setting over from other settings. -/
def adopt (source config : Config) : Setting → Config
  | .mode => { config with mode := source.mode }
  | .workers => { config with workers := source.workers }
  | .cacheCapacity => { config with cacheCapacity := source.cacheCapacity }
  | .logCapacity => { config with logCapacity := source.logCapacity }
  | .shutdownTimeout => { config with shutdownTimeout := source.shutdownTimeout }
  | .pollInterval => { config with pollInterval := source.pollInterval }

theorem writes_settingText (config : Config) (setting : Setting) :
    Json.Writes (config.settingText setting).toList (config.written setting) := by
  cases setting with
  | mode => exact Json.writes_quote _
  | workers | cacheCapacity | logCapacity | shutdownTimeout | pollInterval =>
    exact Json.writes_toString _

theorem json_eq (config : Config) : config.json = String.ofList ('\x7b' ::
    Json.entriesText Setting.name (fun setting => (config.settingText setting).toList)
      Setting.all ++ ['\x7d']) := by
  apply String.toList_injective
  simp only [json, Json.entriesText, String.toList_append, String.toList_intercalate,
    List.map_map, String.toList_ofList, Function.comp_def, List.append_assoc]
  rfl

theorem read?_json (config : Config) :
    Json.read? config.json = some
      (.object (Setting.all.map fun setting => (some setting.name, config.written setting))) := by
  rw [json_eq]
  exact Json.read?_entriesText _ _ _ _ fun setting _ => config.writes_settingText setting

theorem readMode?_text (mode : Mode) : readMode? (.string (some mode.text)) = some mode := by
  cases mode <;> rfl

theorem readCount?_ofCount {n : Nat} (fits : n < UInt64.size) :
    readCount? (.number (.ofCount n)) = some n :=
  Numeral.toCount?_ofCount fits

/-- What is written narrowed reads back where nothing was cut off. -/
theorem readCount?_narrowed {n : Nat} (fits : n < UInt64.size) :
    readCount? (.number (.ofCount (n % UInt64.size))) = some n := by
  rw [Nat.mod_eq_of_lt fits]
  exact readCount?_ofCount fits

theorem assign?_written {source : Config} (bounded : source.Bounded) (config : Config)
    (setting : Setting) :
    config.assign? setting (source.written setting) = some (source.adopt config setting) := by
  cases setting with
  | mode => exact congrArg (Option.map _) (readMode?_text source.mode)
  | workers => exact congrArg (Option.map _) (readCount?_ofCount bounded.workers)
  | cacheCapacity => exact congrArg (Option.map _) (readCount?_ofCount bounded.cacheCapacity)
  | logCapacity => exact congrArg (Option.map _) (readCount?_ofCount bounded.logCapacity)
  | shutdownTimeout => exact congrArg (Option.map _) (readCount?_narrowed bounded.shutdownTimeout)
  | pollInterval => exact congrArg (Option.map _) (readCount?_narrowed bounded.pollInterval)

theorem Setting.ofName?_name (setting : Setting) : Setting.ofName? setting.name = some setting := by
  cases setting <;> rfl

/-- Entries for distinct settings, none of which was seen before, take these settings over. -/
theorem readEntries?_written {source : Config} (bounded : source.Bounded) (config : Config)
    {settings seen : List Setting} (distinct : settings.Nodup)
    (fresh : ∀ setting ∈ settings, setting ∉ seen) :
    readEntries? config seen
        (settings.map fun setting => (some setting.name, source.written setting)) =
      some (settings.foldl source.adopt config) := by
  induction settings generalizing config seen with
  | nil => rfl
  | cons setting settings ih =>
    obtain ⟨new, others⟩ := List.nodup_cons.mp distinct
    have later : ∀ other ∈ settings, other ∉ setting :: seen := by
      intro other member found
      rcases List.mem_cons.mp found with rfl | found
      · exact new member
      · exact fresh other (List.mem_cons_of_mem _ member) found
    simp only [List.map_cons, readEntries?, Setting.ofName?_name,
      if_neg (fresh setting List.mem_cons_self), assign?_written bounded, Option.bind_some,
      List.foldl_cons]
    exact ih _ others later

theorem check_of_fits {config : Config} (fits : config.Fits) : config.check = .ok config := by
  rw [check, if_neg (Nat.ne_of_gt fits.workersPositive),
    if_neg (Nat.ne_of_gt fits.cacheCapacityPositive),
    if_neg (Nat.ne_of_gt fits.logCapacityPositive)]

theorem ofJson_json {config : Config} (fits : config.Fits) : ofJson config.json = .ok config := by
  have distinct : Setting.all.Nodup := by decide
  have fresh : ∀ setting ∈ Setting.all, setting ∉ [] := fun _ _ => List.not_mem_nil
  have read := readEntries?_written fits.toBounded standard distinct fresh
  have all : Setting.all.foldl config.adopt standard = config := rfl
  rw [all] at read
  simp only [ofJson, read?_json, Option.bind_some, ofDocument?, read, check_of_fits fits]

/-! ## Settings from any text -/

theorem bounded_standard : standard.Bounded := by
  constructor <;> decide

theorem lt_of_readCount? {value : Json} {n : Nat} (read : readCount? value = some n) :
    n < UInt64.size := by
  cases value with
  | number numeral => exact Numeral.lt_of_toCount? read
  | null | boolean | string | array | object => cases read

namespace Bounded

variable {config after : Config}

theorem assign? (bounded : config.Bounded) {setting : Setting} {value : Json}
    (assigned : config.assign? setting value = some after) : after.Bounded := by
  cases setting with
  | mode =>
    obtain ⟨mode, _, rfl⟩ := Option.map_eq_some_iff.mp assigned
    exact { bounded with }
  | workers =>
    obtain ⟨n, read, rfl⟩ := Option.map_eq_some_iff.mp assigned
    exact { bounded with workers := lt_of_readCount? read }
  | cacheCapacity =>
    obtain ⟨n, read, rfl⟩ := Option.map_eq_some_iff.mp assigned
    exact { bounded with cacheCapacity := lt_of_readCount? read }
  | logCapacity =>
    obtain ⟨n, read, rfl⟩ := Option.map_eq_some_iff.mp assigned
    exact { bounded with logCapacity := lt_of_readCount? read }
  | shutdownTimeout =>
    obtain ⟨n, read, rfl⟩ := Option.map_eq_some_iff.mp assigned
    exact { bounded with shutdownTimeout := lt_of_readCount? read }
  | pollInterval =>
    obtain ⟨n, read, rfl⟩ := Option.map_eq_some_iff.mp assigned
    exact { bounded with pollInterval := lt_of_readCount? read }

theorem readEntries? (bounded : config.Bounded) {seen : List Setting}
    {entries : List (Option String × Json)}
    (read : Config.readEntries? config seen entries = some after) : after.Bounded := by
  fun_induction Config.readEntries? config seen entries with
  | case1 config => exact Option.some.inj read ▸ bounded
  | case2 => cases read
  | case3 config seen name value rest unknown ih => exact ih bounded read
  | case4 => cases read
  | case5 config seen name value rest setting known new ih =>
    obtain ⟨next, assigned, read⟩ := Option.bind_eq_some_iff.mp read
    exact ih next (bounded.assign? assigned) read

theorem readItems? (bounded : config.Bounded) {settings : List Setting} {items : List Json}
    (read : Config.readItems? config settings items = some after) : after.Bounded := by
  fun_induction Config.readItems? config settings items with
  | case1 config settings => exact Option.some.inj read ▸ bounded
  | case2 => cases read
  | case3 config setting settings value rest ih =>
    obtain ⟨next, assigned, read⟩ := Option.bind_eq_some_iff.mp read
    exact ih next (bounded.assign? assigned) read

theorem ofDocument? {document : Json} (read : Config.ofDocument? document = some config) :
    config.Bounded := by
  cases document with
  | object entries => exact bounded_standard.readEntries? read
  | array items => exact bounded_standard.readItems? read
  | null | boolean | number | string => cases read

theorem fits_of_check (bounded : config.Bounded) (passed : config.check = .ok after) :
    after.Fits := by
  unfold check at passed
  split at passed
  · cases passed
  · split at passed
    · cases passed
    · split at passed
      · cases passed
      · cases passed
        exact ⟨bounded, by omega, by omega, by omega⟩

end Bounded

theorem fits_of_ofJson {text : String} {config : Config} (read : ofJson text = .ok config) :
    config.Fits := by
  unfold ofJson at read
  split at read
  case h_1 found spelled =>
    obtain ⟨document, _, given⟩ := Option.bind_eq_some_iff.mp spelled
    exact (Bounded.ofDocument? given).fits_of_check read
  case h_2 => cases read

/-! ## Both ways -/

/-- The settings that read back from their own text are those whose numbers have room in 64 bits
and whose counts are not zero, and no text gives any others. -/
theorem json_reads_back :
    (∀ config : Config, ofJson config.json = .ok config ↔ config.Fits) ∧
      ∀ (text : String) (config : Config), ofJson text = .ok config →
        config.Fits ∧ ofJson config.json = .ok config := by
  refine ⟨fun config => ⟨fits_of_ofJson, ofJson_json⟩, fun text config read => ?_⟩
  have fits : config.Fits := fits_of_ofJson read
  exact ⟨fits, ofJson_json fits⟩

/-- A text of two settings, and the largest numbers that there is room for. -/
theorem json_reads_back_of_partial_text :
    (ofJson "\x7b\"mode\": \"loose\", \"poll_interval\": 10\x7d" =
        .ok ⟨.loose, 2, 1024, 8192, 2000, 10⟩ ∧
      ofJson (json ⟨.loose, 2, 1024, 8192, 2000, 10⟩) = .ok ⟨.loose, 2, 1024, 8192, 2000, 10⟩) ∧
    let greatest := 2 ^ 64 - 1
    let config : Config := ⟨.strict, greatest, 1, greatest, greatest, 0⟩
    config.Fits ∧ ofJson config.json = .ok config := by
  have read : ofJson "\x7b\"mode\": \"loose\", \"poll_interval\": 10\x7d" =
      .ok ⟨.loose, 2, 1024, 8192, 2000, 10⟩ := by decide +kernel
  have fits : Fits ⟨.strict, 2 ^ 64 - 1, 1, 2 ^ 64 - 1, 2 ^ 64 - 1, 0⟩ := by
    refine ⟨⟨?_, ?_, ?_, ?_, ?_⟩, ?_, ?_, ?_⟩ <;> decide
  exact ⟨⟨read, (json_reads_back.2 _ _ read).2⟩, fits, (json_reads_back.1 _).mpr fits⟩

end Config

end Tripwire
