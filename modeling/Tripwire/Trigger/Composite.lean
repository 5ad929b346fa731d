import Tripwire.Trigger.Condition

/-!
Conditions joined by ALL or ANY, looked at in order until one decides.
-/

namespace Tripwire

inductive Combinator
  | all | any
  deriving DecidableEq

namespace Combinator

def text : Combinator → String
  | all => "ALL"
  | any => "ANY"

def ofText? (text : String) : Option Combinator :=
  [all, any].find? fun combinator => Text.sameLetters combinator.text text

def joiner : Combinator → String
  | all => " && "
  | any => " || "

/-- The truth of a condition that settles the whole. -/
def decisive : Combinator → Bool
  | all => false
  | any => true

end Combinator

structure Composite where
  combinator : Combinator
  conditions : List Condition
  deriving DecidableEq

namespace Composite

/-- Compiles texts to the conditions of a composite, on one engine. -/
def ofSources (engines : Engines) (engine : Nat) (combinator : Combinator) :
    List String → Composite × Engines
  | [] => (⟨combinator, []⟩, engines)
  | source :: rest =>
    let (condition, engines) := Condition.ofSource engines engine source
    let (composite, engines) := ofSources engines engine combinator rest
    ({ composite with conditions := condition :: composite.conditions }, engines)

def push (composite : Composite) (condition : Condition) : Composite :=
  { composite with conditions := composite.conditions ++ [condition] }

def text (composite : Composite) : String :=
  composite.combinator.text ++ "(" ++
    String.intercalate composite.combinator.joiner (composite.conditions.map (·.text)) ++ ")"

/-- Looks at conditions in order until one has the decisive truth. -/
def search (decisive : Bool) (label : String) :
    List Condition → Engines → Context → Except Crash Bool × Engines × Context
  | [], engines, context => (.ok !decisive, engines, context)
  | condition :: rest, engines, context =>
    match condition.holds engines context label with
    | (.ok truth, engines, context) =>
      if truth = decisive then (.ok decisive, engines, context)
      else search decisive label rest engines context
    | (.error crash, engines, context) => (.error crash, engines, context)

/-- The truth of the whole; without conditions it is false. -/
def holds (composite : Composite) (engines : Engines) (context : Context) (label : String) :
    Except Crash Bool × Engines × Context :=
  if composite.conditions.isEmpty then (.ok false, engines, context)
  else search composite.combinator.decisive label composite.conditions engines context

end Composite

end Tripwire
