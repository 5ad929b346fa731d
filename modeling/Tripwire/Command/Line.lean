import Tripwire.Command.Basic

/-!
Command lines.  The words are read in order into a draft of an invocation; the
first word that cannot stand where it does ends the reading, and so does the
first request for help.
-/

namespace Tripwire

/-- A variable as it is bound on a command line: name, equals sign, literal. -/
def Query.readBinding? (text : String) : Option (String × Value) :=
  let name := text.toList.takeWhile (· ≠ '=')
  match Text.trim name, text.toList.drop name.length with
  | first :: rest, _ :: literal =>
    some (String.ofList (first :: rest), .ofLiteral (String.ofList literal))
  | _, _ => none

def Command.readTicks? (text : String) : Option Nat :=
  match Decimal.readInteger? text.toList with
  | some n =>
    if 0 ≤ n.toInt ∧ n.toInt.toNat < UInt32.size then some n.toInt.toNat else none
  | none => none

/-- What the words so far say. -/
structure Draft where
  verb : Option Verb
  /-- The flags given since the verb, or before there is one. -/
  given : List Flag
  /-- The flag whose value comes next. -/
  waiting : Option Flag
  /-- Whether the words that follow are no flags. -/
  plain : Bool
  config : String
  verbose : Bool
  bindings : List (String × Value)
  ticks : Nat
  operand : Option String

namespace Draft

/-- What holds unless a word says otherwise. -/
def start : Draft where
  verb := none
  given := []
  waiting := none
  plain := false
  config := "config.json"
  verbose := false
  bindings := []
  ticks := 20
  operand := none

def refuse {α : Type} (error : UsageError) : Except Refusal α := .error (.misused error)

def mark (draft : Draft) (flag : Flag) : Except Refusal Draft :=
  if flag ∈ draft.given ∧ !flag.repeats then refuse (.repeated flag)
  else .ok { draft with given := flag :: draft.given }

def assign (draft : Draft) (flag : Flag) (value : String) : Except Refusal Draft :=
  let changed : Option Draft :=
    match flag with
    | .config => if value.isEmpty then none else some { draft with config := value }
    | .binding => (Query.readBinding? value).map fun binding =>
        { draft with bindings := draft.bindings ++ [binding] }
    | .ticks => (Command.readTicks? value).map fun ticks => { draft with ticks := ticks }
    | .verbose | .help | .version | .loose => none
  match changed with
  | some draft => .ok draft
  | none => refuse (.unusableValue flag value)

def attach (draft : Draft) (flag : Flag) (value : String) : Except Refusal Draft :=
  if flag.takesValue then (draft.mark flag).bind fun draft => draft.assign flag value
  else refuse (.surplusValue flag)

def raise (draft : Draft) (flag : Flag) : Except Refusal Draft :=
  match flag with
  | .help => .error .help
  | .version => .error .version
  | .verbose => { draft with verbose := true }.mark flag
  | .loose => draft.mark flag
  | .config | .binding | .ticks => { draft with waiting := some flag }.mark flag

def flags (draft : Draft) : List Flag := Flag.known draft.verb

/-- Reads a long flag; a value may follow an equals sign. -/
def readName (draft : Draft) (cs : List Char) : Except Refusal Draft :=
  let name := cs.takeWhile (· ≠ '=')
  match draft.flags.find? fun flag => flag.name.toList = name, cs.drop name.length with
  | none, _ => refuse (.unknownFlag (String.ofList ('-' :: '-' :: cs)))
  | some flag, [] => draft.raise flag
  | some flag, _ :: value => draft.attach flag (String.ofList value)

/-- Reads short flags in one word; the first one that takes a value takes the
rest of the word, an equals sign aside. -/
def readLetters (draft : Draft) : List Char → Except Refusal Draft
  | [] => .ok draft
  | letter :: rest =>
    match draft.flags.find? fun flag => flag.letter? = some letter with
    | none => refuse (.unknownFlag (String.ofList ['-', letter]))
    | some flag =>
      match flag.takesValue, rest with
      | true, '=' :: value => draft.attach flag (String.ofList value)
      | true, first :: value => draft.attach flag (String.ofList (first :: value))
      | _, rest => (draft.raise flag).bind fun draft => readLetters draft rest

def readOperand (draft : Draft) (word : String) : Except Refusal Draft :=
  match draft.verb, draft.operand with
  | none, _ => refuse (.unknownCommand word)
  | some .help, none =>
    if (Verb.ofText? word).isSome then .ok { draft with operand := some word }
    else refuse (.unknownCommand word)
  | some .eval, none | some .check, none => .ok { draft with operand := some word }
  | _, _ => refuse (.surplusWord word)

/-- Reads a word that may be a flag or a verb. -/
def readOpen (draft : Draft) (word : String) : Except Refusal Draft :=
  match word.toList with
  | ['-', '-'] => .ok { draft with plain := true }
  | '-' :: '-' :: cs => draft.readName cs
  | '-' :: letter :: letters => draft.readLetters (letter :: letters)
  | _ =>
    match draft.verb, Verb.ofText? word with
    | none, some verb =>
      .ok { draft with verb := some verb, given := [], plain := verb = .help }
    | _, _ => draft.readOperand word

def read (draft : Draft) (word : String) : Except Refusal Draft :=
  match draft.waiting, word.toList with
  | some flag, '-' :: _ :: _ => refuse (.missingValue flag)
  | some flag, _ => { draft with waiting := none }.assign flag word
  | none, _ => if draft.plain then draft.readOperand word else draft.readOpen word

def mode (draft : Draft) : Mode := if .loose ∈ draft.given then .loose else .strict

/-- The command of a draft that no word follows. -/
def command (draft : Draft) : Except Refusal Command :=
  let query := fun expression : String => Query.mk expression draft.bindings draft.mode
  match draft.waiting, draft.verb, draft.operand with
  | some flag, _, _ => refuse (.missingValue flag)
  | none, none, _ => refuse .missingCommand
  | none, some .help, _ => .error .help
  | none, some .demo, _ => .ok (.demo draft.ticks)
  | none, some .eval, some expression => .ok (.eval (query expression))
  | none, some .check, some expression => .ok (.check (query expression))
  | none, some .eval, none | none, some .check, none => refuse .missingExpression

end Draft

def Invocation.ofWords (words : List String) : Except Refusal Invocation :=
  (words.foldlM Draft.read .start).bind fun draft =>
    draft.command.map fun command => ⟨draft.config, draft.verbose, command⟩

end Tripwire
