import Tripwire.Context

/-!
Frozen results: a value with a copy of the variables that it hangs on.  In
strict mode that is the whole environment, in loose mode what was read.
-/

namespace Tripwire

structure Frozen where
  value : Value
  dependencies : NameMap Value
  mode : Mode
  deriving DecidableEq

namespace Frozen

instance : Inhabited Frozen := ⟨⟨.null, .empty, .strict⟩⟩

/-- Freezes the result of an evaluation that just ran in a context. -/
def capture (value : Value) (context : Context) : Frozen where
  value := value
  dependencies :=
    match context.mode with
    | .strict => context.bindings
    | .loose => context.dependencies
  mode := context.mode

/-- Whether live variables differ from the frozen copy.  In loose mode a name
without a value counts as null. -/
def isOutdated (frozen : Frozen) (live : NameMap Value) : Bool :=
  match frozen.mode with
  | .strict =>
    live.size ≠ frozen.dependencies.size ||
      frozen.dependencies.toList.any fun (name, value) =>
        match live.get? name with
        | some current => !current.unchanged value
        | none => true
  | .loose =>
    frozen.dependencies.toList.any fun (name, value) =>
      !((live.get? name).getD .null).unchanged value

end Frozen

end Tripwire
