import Tripwire.Engine

/-!
What a look-up through the cache of an engine can do: answer with a stored
result that is up to date, or evaluate anew and either store what came out or
crash without a trace in the engine.
-/

namespace Tripwire

namespace Context

variable {resolver : Resolver}

theorem snapshot_of_clearReads {context after : Context}
    (same : after.clearReads = context.clearReads) : after.snapshot = context.snapshot :=
  calc after.snapshot
    _ = after.clearReads.snapshot := rfl
    _ = context.clearReads.snapshot := by rw [same]
    _ = context.snapshot := rfl

/-- An evaluation changes nothing in a context but the log of reads. -/
theorem clearReads_of_evaluate {context after : Context} {e : Expr}
    {outcome : Except Crash Value} (evaluated : context.evaluate resolver e = (outcome, after)) :
    after.clearReads = context.clearReads := by
  cases (congrArg Prod.snd evaluated : _ = after)
  rfl

end Context

namespace Engine

variable (engine : Engine) (compiled : Compiled) (context : Context) (label : String)

/-- The engine after its cache was asked for the result of an expression in a context. -/
def asked : Engine := { engine with cache := (engine.cache.get (.ofContext compiled context)).2 }

/-- The result that the cache has for an expression in a context, up to date or not. -/
def stored? : Option Frozen := (engine.cache.get (.ofContext compiled context)).1

theorem refresh_cases :
    (∃ value after, context.clearReads.evaluate engine.resolver compiled.root = (.ok value, after) ∧
      engine.refresh compiled context label =
        (.ok ⟨.capture value after, false⟩,
          { engine with
            cache := engine.cache.put (.ofContext compiled context) (.capture value after)
            stats := engine.stats.recordMiss label },
          after)) ∨
    ∃ crash after, context.clearReads.evaluate engine.resolver compiled.root = (.error crash, after) ∧
      engine.refresh compiled context label = (.error crash, engine, after) := by
  simp only [refresh, evaluate]
  obtain ⟨outcome, after⟩ := context.clearReads.evaluate engine.resolver compiled.root
  cases outcome with
  | ok value => exact .inl ⟨value, after, rfl, rfl⟩
  | error crash => exact .inr ⟨crash, after, rfl, rfl⟩

theorem evaluateCached_cases :
    (∃ frozen, engine.stored? compiled context = some frozen ∧
      frozen.isOutdated context.bindings = false ∧
      engine.evaluateCached compiled context label =
        (.ok ⟨frozen, true⟩,
          { engine.asked compiled context with stats := engine.stats.recordHit label },
          context)) ∨
    (∀ frozen, engine.stored? compiled context = some frozen →
      frozen.isOutdated context.bindings = true) ∧
      engine.evaluateCached compiled context label =
        (engine.asked compiled context).refresh compiled context label := by
  simp only [stored?, asked, evaluateCached]
  obtain ⟨found, cache⟩ := engine.cache.get (.ofContext compiled context)
  cases found with
  | none => exact .inr ⟨nofun, rfl⟩
  | some frozen =>
    cases checked : frozen.isOutdated context.bindings with
    | false => exact .inl ⟨frozen, rfl, checked, by simp [checked]⟩
    | true => exact .inr ⟨fun other same => by cases same; exact checked, by simp [checked]⟩

/-- What a look-up through the cache comes to: a hit, a new result, or a crash. -/
theorem evaluateCached_outcomes :
    (∃ frozen, engine.stored? compiled context = some frozen ∧
      frozen.isOutdated context.bindings = false ∧
      engine.evaluateCached compiled context label =
        (.ok ⟨frozen, true⟩,
          { engine.asked compiled context with stats := engine.stats.recordHit label },
          context)) ∨
    (∀ frozen, engine.stored? compiled context = some frozen →
      frozen.isOutdated context.bindings = true) ∧
      ((∃ value after, (context.evaluate engine.resolver compiled.root).1 = .ok value ∧
        after.clearReads = context.clearReads ∧
        engine.evaluateCached compiled context label =
          (.ok ⟨.capture value after, false⟩,
            { engine.asked compiled context with
              cache := (engine.asked compiled context).cache.put (.ofContext compiled context)
                (.capture value after)
              stats := engine.stats.recordMiss label },
            after)) ∨
      ∃ crash after, (context.evaluate engine.resolver compiled.root).1 = .error crash ∧
        after.clearReads = context.clearReads ∧
        engine.evaluateCached compiled context label =
          (.error crash, engine.asked compiled context, after)) := by
  rcases engine.evaluateCached_cases compiled context label with hit | ⟨outdated, missed⟩
  · exact .inl hit
  refine .inr ⟨outdated, ?_⟩
  rcases (engine.asked compiled context).refresh_cases compiled context label with
    ⟨value, after, evaluated, refreshed⟩ | ⟨crash, after, evaluated, refreshed⟩
  · have same := Context.clearReads_of_evaluate evaluated
    exact .inl ⟨value, after, congrArg Prod.fst evaluated, same, missed.trans refreshed⟩
  · have same := Context.clearReads_of_evaluate evaluated
    exact .inr ⟨crash, after, congrArg Prod.fst evaluated, same, missed.trans refreshed⟩

/-- A look-up changes nothing in a context but the log of reads. -/
theorem clearReads_evaluateCached :
    (engine.evaluateCached compiled context label).2.2.clearReads = context.clearReads := by
  rcases engine.evaluateCached_outcomes compiled context label with
    ⟨frozen, _, _, hit⟩ | ⟨_, ⟨value, after, _, same, new⟩ | ⟨crash, after, _, same, crashed⟩⟩
  · rw [hit]
  · rw [new]
    exact same
  · rw [crashed]
    exact same

theorem snapshot_evaluateCached :
    (engine.evaluateCached compiled context label).2.2.snapshot = context.snapshot :=
  Context.snapshot_of_clearReads (engine.clearReads_evaluateCached compiled context label)

/-- A look-up leaves an engine as it is but for cache and counters. -/
theorem frame_evaluateCached :
    let later := (engine.evaluateCached compiled context label).2.1
    later.mode = engine.mode ∧ later.resolver = engine.resolver ∧
      later.compiled = engine.compiled := by
  rcases engine.evaluateCached_outcomes compiled context label with
    ⟨frozen, _, _, hit⟩ | ⟨_, ⟨value, after, _, _, new⟩ | ⟨crash, after, _, _, crashed⟩⟩
  · rw [hit]
    exact ⟨rfl, rfl, rfl⟩
  · rw [new]
    exact ⟨rfl, rfl, rfl⟩
  · rw [crashed]
    exact ⟨rfl, rfl, rfl⟩

theorem resolver_evaluateCached :
    (engine.evaluateCached compiled context label).2.1.resolver = engine.resolver :=
  (engine.frame_evaluateCached compiled context label).2.1

end Engine
end Tripwire
