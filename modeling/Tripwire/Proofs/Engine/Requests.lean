import Tripwire.Proofs.Cache.Refinement
import Tripwire.Proofs.Engine.Lookup
import Tripwire.Proofs.Engine.Session

/-!
What the operations of a session ask of the cache.

The cache of a session is the cache at the start after all requests so far
(`cache_run`), and so it is always a store that reflects its reference.
-/

namespace Tripwire

namespace Engine

variable (engine : Engine) (compiled : Compiled) (context : Context) (label : String)

/-- A look-up asks for the key, and stores what had to be evaluated anew. -/
def requests : List (Request Key Frozen) :=
  .get (.ofContext compiled context) ::
    match (engine.evaluateCached compiled context label).1 with
    | .ok ⟨frozen, false⟩ => [.put (.ofContext compiled context) frozen]
    | .ok ⟨_, true⟩ | .error _ => []

theorem cache_evaluateCached :
    (engine.evaluateCached compiled context label).2.1.cache =
      (engine.cache.serveAll (engine.requests compiled context label)).2 := by
  unfold requests
  rcases engine.evaluateCached_outcomes compiled context label with
    ⟨frozen, _, _, hit⟩ | ⟨_, ⟨value, after, _, _, new⟩ | ⟨crash, after, _, _, crashed⟩⟩
  · rw [hit]
    rfl
  · rw [new]
    rfl
  · rw [crashed]
    rfl

end Engine

namespace Session

/-- What one operation asks of the cache. -/
def requests (s : Session) : Operation → List (Request Key Frozen)
  | .clearCache => [.clear]
  | .lookUp key => [.get key]
  | .evict key => [.remove key]
  | .evaluateCached expression place label =>
    match s.expressions[expression]?, s.contexts[place]? with
    | some compiled, some context => s.engine.requests compiled context label
    | _, _ => []
  | _ => []

/-- Only a look-up that evaluates anew puts something into the cache. -/
theorem put_mem_requests {s : Session} {operation : Operation} {key : Key} {frozen : Frozen}
    (put : .put key frozen ∈ s.requests operation) :
    ∃ expression place label compiled context,
      operation = .evaluateCached expression place label ∧
      s.expressions[expression]? = some compiled ∧ s.contexts[place]? = some context ∧
      key = .ofContext compiled context ∧
      (s.engine.evaluateCached compiled context label).1 = .ok ⟨frozen, false⟩ := by
  cases operation with
  | evaluateCached expression place label =>
    simp only [requests] at put
    split at put
    next compiled context compiledAt contextAt =>
      simp only [Engine.requests, List.mem_cons, reduceCtorEq, false_or] at put
      split at put
      next stored answered =>
        cases List.mem_singleton.mp put
        exact ⟨expression, place, label, compiled, context, rfl, compiledAt, contextAt, rfl,
          answered⟩
      next => cases put
      next => cases put
    next => cases put
  | clearCache | lookUp _ | evict _ => simp [requests] at put
  | _ => cases put

/-- What operations ask of the cache one after another. -/
def allRequests (s : Session) : List Operation → List (Request Key Frozen)
  | [] => []
  | operation :: rest => s.requests operation ++ (s.step operation).allRequests rest

theorem cache_step (s : Session) (operation : Operation) :
    (s.step operation).engine.cache = (s.engine.cache.serveAll (s.requests operation)).2 := by
  cases operation with
  | compile source =>
    simp only [step, Engine.compile]
    split <;> rfl
  | evaluateCached expression place label =>
    simp only [step, evaluateCached, requests]
    cases s.expressions[expression]? with
    | none => rfl
    | some compiled =>
      cases s.contexts[place]? with
      | none => rfl
      | some context => exact s.engine.cache_evaluateCached compiled context label
  | _ => rfl

theorem cache_run (s : Session) (operations : List Operation) :
    (s.run operations).engine.cache = (s.engine.cache.serveAll (s.allRequests operations)).2 := by
  induction operations generalizing s with
  | nil => rfl
  | cons operation rest ih =>
    rw [allRequests, Lru.serveAll_append, ← s.cache_step]
    exact ih (s.step operation)

/-- Whatever was done with an engine, its cache is a store that reflects its reference. -/
theorem reflects_run (mode : Mode) (capacity : Nat) (resolver : Resolver)
    (operations : List Operation) :
    ∃ recency, ((start (.ofParts mode capacity resolver)).run operations).engine.cache.Reflects
      recency := by
  rw [cache_run]
  exact ⟨_, ((Lru.reflects_new capacity).serveAll _).2⟩

theorem capacity_step (s : Session) (operation : Operation) :
    (s.step operation).engine.cache.capacity = s.engine.cache.capacity := by
  rw [cache_step, Lru.capacity_serveAll]

theorem capacity_run (s : Session) (operations : List Operation) :
    (s.run operations).engine.cache.capacity = s.engine.cache.capacity := by
  rw [cache_run, Lru.capacity_serveAll]

end Session
end Tripwire
