/-!
Rules that read a row of items from an index.  A rule is data, built from a few
constructors; `run` gives the index after the items read and what was read, or
says what did not match.
-/

namespace Tripwire

/-- Why a rule does not match. -/
inductive Mismatch
  | endOfInput (position : Nat)
  | unexpected (expected found : String) (position : Nat)
  | noAlternative (position : Nat)
  | failure (message : String)
  | within (context : String) (cause : Mismatch)
  deriving DecidableEq, Inhabited

namespace Mismatch

def message : Mismatch → String
  | endOfInput position => s!"Unexpected end of input at token {position}"
  | unexpected expected found position =>
    s!"Unexpected {found} at token {position}, expected {expected}"
  | noAlternative position => s!"No alternative matched at token {position}"
  | failure message => s!"Fail: {message}"
  | within context cause => context ++ ": " ++ cause.message

/-- The mismatch without the contexts around it. -/
def root : Mismatch → Mismatch
  | within _ cause => cause.root
  | mismatch => mismatch

/-- The index that the root points at. -/
def position? (mismatch : Mismatch) : Option Nat :=
  match mismatch.root with
  | endOfInput position | unexpected _ _ position | noAlternative position => some position
  | _ => none

end Mismatch

/-- A rule that reads items of one type and yields a value of another. -/
inductive Rule (ι : Type) : Type → Type 1
  /-- One item equal to a given one. -/
  | equal (item : ι) : Rule ι ι
  /-- One item that has an image. -/
  | satisfy {α : Type} (image : ι → Option α) (expected : String) : Rule ι α
  /-- No alternative is left. -/
  | none {α : Type} : Rule ι α
  /-- The first rule, or else the second at the same place. -/
  | orElse {α : Type} (first second : Rule ι α) : Rule ι α
  | map {α β : Type} (f : α → β) (rule : Rule ι α) : Rule ι β
  | unit {α : Type} (rule : Rule ι α) : Rule ι Unit
  /-- The rule as often as it matches. -/
  | many {α : Type} (rule : Rule ι α) : Rule ι (List α)
  | pair {α β : Type} (first : Rule ι α) (second : Rule ι β) : Rule ι (α × β)
  | delimited {α : Type} (left : Rule ι Unit) (rule : Rule ι α) (right : Rule ι Unit) : Rule ι α
  | within {α : Type} (context : String) (rule : Rule ι α) : Rule ι α
  /-- A rule that is built when it is run. -/
  | deferred {α : Type} (rule : Unit → Rule ι α) : Rule ι α

namespace Rule

variable {ι α : Type}

instance : Inhabited (Rule ι α) := ⟨none⟩

/-- The first rule that matches. -/
def choice (rules : List (Rule ι α)) : Rule ι α := rules.foldr orElse none

/-- What running a rule yields. -/
abbrev Outcome (α : Type) := Except Mismatch (Nat × α)

/-- Repeats a step while it succeeds and moves on, at most `fuel` times. -/
def collect (step : Nat → Outcome α) : (fuel : Nat) → Nat → Nat × List α
  | 0, position => (position, [])
  | fuel + 1, position =>
    match step position with
    | .error _ => (position, [])
    | .ok (next, value) =>
      if position < next then
        let (final, values) := collect step fuel next
        (final, value :: values)
      else (position, [])

/-- Runs a rule on a row of items from an index. -/
def run [DecidableEq ι] [ToString ι] (input : Array ι) : {α : Type} → Rule ι α → Nat → Outcome α
  | _, equal item, position =>
    match input[position]? with
    | some found =>
      if found = item then .ok (position + 1, found)
      else .error (.unexpected (toString item) (toString found) position)
    | .none => .error (.endOfInput position)
  | _, satisfy image expected, position =>
    match input[position]? with
    | some found =>
      match image found with
      | some value => .ok (position + 1, value)
      | .none => .error (.unexpected expected (toString found) position)
    | .none => .error (.endOfInput position)
  | _, none, position => .error (.noAlternative position)
  | _, orElse first second, position =>
    match run input first position with
    | .ok result => .ok result
    | .error _ => run input second position
  | _, map f rule, position =>
    match run input rule position with
    | .ok (next, value) => .ok (next, f value)
    | .error mismatch => .error mismatch
  | _, unit rule, position =>
    match run input rule position with
    | .ok (next, _) => .ok (next, ())
    | .error mismatch => .error mismatch
  | _, many rule, position =>
    .ok (collect (fun position => run input rule position) (input.size + 1) position)
  | _, pair first second, position =>
    match run input first position with
    | .error mismatch => .error mismatch
    | .ok (middle, a) =>
      match run input second middle with
      | .error mismatch => .error mismatch
      | .ok (next, b) => .ok (next, (a, b))
  | _, delimited left rule right, position =>
    match run input left position with
    | .error mismatch => .error mismatch
    | .ok (inner, _) =>
      match run input rule inner with
      | .error mismatch => .error mismatch
      | .ok (outer, value) =>
        match run input right outer with
        | .error mismatch => .error mismatch
        | .ok (next, _) => .ok (next, value)
  | _, within context rule, position =>
    match run input rule position with
    | .ok result => .ok result
    | .error mismatch => .error (.within context mismatch)
  | _, deferred rule, position => run input (rule ()) position

end Rule

end Tripwire
