import Tripwire.Proofs.Cache.Stats
import Tripwire.Proofs.Engine.Lookup
import Tripwire.Proofs.Engine.Session

/-!
What the counters of an engine tell.

A look-up that returns counts once, as a hit or, if it stored a new result, as a
miss, and a crash counts nothing (`counted_evaluateCached`).  So the counts
of all labels add up, and what was counted since the last reset is what returned
since then.  Nothing reads the counters: a run without them answers the same
(`lookUps_uncounted`).
-/

namespace Tripwire

namespace Lookup

def returned : Except Crash Lookup → Bool
  | .ok _ => true
  | .error _ => false

/-- What a look-up adds to the hits. -/
def hits : Except Crash Lookup → Nat
  | .ok lookup => lookup.hit.toNat
  | .error _ => 0

/-- What a look-up adds to the misses. -/
def misses : Except Crash Lookup → Nat
  | .ok lookup => (!lookup.hit).toNat
  | .error _ => 0

end Lookup

namespace Engine

/-- What a look-up of a key under a label does to the counters and to the cache of an engine. -/
structure Counted (key : Key) (label : String) (outcome : Except Crash Lookup)
    (engine later : Engine) : Prop where
  /-- A look-up that returns counts once, any other not at all. -/
  once : Lookup.hits outcome + Lookup.misses outcome = if Lookup.returned outcome then 1 else 0
  hits : later.stats.hits = engine.stats.hits + Lookup.hits outcome
  misses : later.stats.misses = engine.stats.misses + Lookup.misses outcome
  hitsFor : ∀ other, later.stats.hitsFor other =
    engine.stats.hitsFor other + if other = label then Lookup.hits outcome else 0
  missesFor : ∀ other, later.stats.missesFor other =
    engine.stats.missesFor other + if other = label then Lookup.misses outcome else 0
  /-- It is a miss exactly if a result was stored after the cache had been asked. -/
  stored : Lookup.misses outcome = 1 ↔
    ∃ frozen, later.cache = (engine.cache.get key).2.put key frozen
  new : ∀ frozen, outcome = .ok ⟨frozen, false⟩ →
    later.cache = (engine.cache.get key).2.put key frozen
  kept : Lookup.misses outcome = 0 → later.cache = (engine.cache.get key).2

variable {engine later : Engine} {key : Key} {label : String} {frozen : Frozen} {crash : Crash}

/-- Storing something shows in the clock of the cache. -/
theorem asked_ne_put :
    ¬∃ frozen, (engine.cache.get key).2 = (engine.cache.get key).2.put key frozen := by
  rintro ⟨frozen, same⟩
  have clock : (engine.cache.get key).2.clock = (engine.cache.get key).2.clock + 1 :=
    congrArg Lru.clock same
  omega

theorem counted_hit (stats : later.stats = engine.stats.recordHit label)
    (cache : later.cache = (engine.cache.get key).2) :
    Counted key label (.ok ⟨frozen, true⟩) engine later where
  once := rfl
  hits := by rw [stats]; rfl
  misses := by rw [stats]; rfl
  hitsFor other := by rw [stats]; exact Stats.countOf_bump ..
  missesFor other := by simp [stats, Lookup.misses, Stats.missesFor, Stats.recordHit]
  stored := by
    rw [cache]
    exact iff_of_false nofun asked_ne_put
  new := nofun
  kept _ := cache

theorem counted_miss (stats : later.stats = engine.stats.recordMiss label)
    (cache : later.cache = (engine.cache.get key).2.put key frozen) :
    Counted key label (.ok ⟨frozen, false⟩) engine later where
  once := rfl
  hits := by rw [stats]; rfl
  misses := by rw [stats]; rfl
  hitsFor other := by simp [stats, Lookup.hits, Stats.hitsFor, Stats.recordMiss]
  missesFor other := by rw [stats]; exact Stats.countOf_bump ..
  stored := iff_of_true rfl ⟨frozen, cache⟩
  new other same := by
    cases same
    exact cache
  kept := nofun

theorem counted_crash (stats : later.stats = engine.stats)
    (cache : later.cache = (engine.cache.get key).2) :
    Counted key label (.error crash) engine later where
  once := rfl
  hits := by rw [stats]; rfl
  misses := by rw [stats]; rfl
  hitsFor other := by simp [stats, Lookup.hits]
  missesFor other := by simp [stats, Lookup.misses]
  stored := by
    rw [cache]
    exact iff_of_false nofun asked_ne_put
  new := nofun
  kept _ := cache

theorem counted_evaluateCached (engine : Engine) (compiled : Compiled) (context : Context)
    (label : String) :
    Counted (.ofContext compiled context) label
      (engine.evaluateCached compiled context label).1 engine
      (engine.evaluateCached compiled context label).2.1 := by
  rcases engine.evaluateCached_outcomes compiled context label with
    ⟨frozen, _, _, hit⟩ | ⟨_, ⟨value, after, _, _, new⟩ | ⟨crash, after, _, _, crashed⟩⟩
  · rw [hit]
    exact counted_hit rfl rfl
  · rw [new]
    exact counted_miss rfl rfl
  · rw [crashed]
    exact counted_crash rfl rfl

theorem balanced_evaluateCached (balanced : engine.stats.Balanced) (compiled : Compiled)
    (context : Context) (label : String) :
    (engine.evaluateCached compiled context label).2.1.stats.Balanced := by
  rcases engine.evaluateCached_outcomes compiled context label with
    ⟨frozen, _, _, hit⟩ | ⟨_, ⟨value, after, _, _, new⟩ | ⟨crash, after, _, _, crashed⟩⟩
  · rw [hit]
    exact balanced.recordHit label
  · rw [new]
    exact balanced.recordMiss label
  · rw [crashed]
    exact balanced

theorem refresh_resetStats (engine : Engine) (compiled : Compiled) (context : Context)
    (label : String) :
    let counting := engine.refresh compiled context label
    let bare := engine.resetStats.refresh compiled context label
    bare.1 = counting.1 ∧ bare.2.1.resetStats = counting.2.1.resetStats ∧
      bare.2.2 = counting.2.2 := by
  simp only [refresh, resetStats, evaluate]
  obtain ⟨outcome, after⟩ := context.clearReads.evaluate engine.resolver compiled.root
  cases outcome <;> exact ⟨rfl, rfl, rfl⟩

/-- Without counters an engine answers the same and ends as it does with them. -/
theorem evaluateCached_resetStats (engine : Engine) (compiled : Compiled) (context : Context)
    (label : String) :
    let counting := engine.evaluateCached compiled context label
    let bare := engine.resetStats.evaluateCached compiled context label
    bare.1 = counting.1 ∧ bare.2.1.resetStats = counting.2.1.resetStats ∧
      bare.2.2 = counting.2.2 := by
  have same : engine.resetStats.cache = engine.cache := rfl
  simp only [evaluateCached, same]
  obtain ⟨found, cache⟩ := engine.cache.get (.ofContext compiled context)
  have refreshed := refresh_resetStats { engine with cache := cache } compiled context label
  cases found with
  | none => exact refreshed
  | some frozen =>
    cases outdated : frozen.isOutdated context.bindings with
    | true =>
      simp only [outdated, if_true]
      exact refreshed
    | false =>
      simp only [outdated, Bool.false_eq_true, if_false, resetStats, and_self]

end Engine

namespace Session

def Operation.isReset : Operation → Bool
  | .resetStats => true
  | _ => false

/-- What an operation looks up through the cache, if it does. -/
def lookUp? (s : Session) : Operation → Option (Except Crash Lookup)
  | .evaluateCached expression place label =>
    match s.expressions[expression]?, s.contexts[place]? with
    | some compiled, some context => some (s.engine.evaluateCached compiled context label).1
    | _, _ => none
  | _ => none

/-- The outcomes of the look-ups of a run in which `next` leads from state to state. -/
def lookUps (next : Session → Operation → Session) : Session → List Operation →
    List (Except Crash Lookup)
  | _, [] => []
  | s, operation :: rest => (s.lookUp? operation).toList ++ lookUps next (next s operation) rest

/-- The session with nothing counted. -/
def uncounted (s : Session) : Session := { s with engine := s.engine.resetStats }

/-- A step of a session whose engine keeps no counters. -/
def stepUncounted (s : Session) (operation : Operation) : Session := (s.step operation).uncounted

/-! ### Steps -/

theorem balanced_step {s : Session} (balanced : s.engine.stats.Balanced) (operation : Operation) :
    (s.step operation).engine.stats.Balanced := by
  cases operation with
  | resetStats => exact Stats.balanced_empty
  | compile source =>
    simp only [step, Engine.compile]
    split <;> exact balanced
  | evaluateCached expression place label =>
    simp only [step, evaluateCached]
    split
    · exact Engine.balanced_evaluateCached balanced ..
    · exact balanced
  | _ => exact balanced

/-- What is counted is what returns. -/
theorem counts_step (s : Session) {operation : Operation} (counting : operation.isReset = false) :
    (s.step operation).engine.stats.hits + (s.step operation).engine.stats.misses =
      s.engine.stats.hits + s.engine.stats.misses +
        (s.lookUp? operation).toList.countP Lookup.returned := by
  cases operation with
  | resetStats => cases counting
  | compile source =>
    simp only [step, Engine.compile]
    split <;> rfl
  | evaluateCached expression place label =>
    simp only [step, evaluateCached, lookUp?]
    cases s.expressions[expression]? with
    | none => rfl
    | some compiled =>
      cases s.contexts[place]? with
      | none => rfl
      | some context =>
        have counted := s.engine.counted_evaluateCached compiled context label
        have once := counted.once
        simp only [counted.hits, counted.misses, Option.toList_some, List.countP_singleton]
        omega
  | _ => rfl

theorem lookUp?_uncounted (s : Session) (operation : Operation) :
    s.uncounted.lookUp? operation = s.lookUp? operation := by
  cases operation with
  | evaluateCached expression place label =>
    simp only [lookUp?, uncounted]
    split
    next compiled context _ _ =>
      exact congrArg some (s.engine.evaluateCached_resetStats compiled context label).1
    next => rfl
  | _ => rfl

theorem uncounted_step (s : Session) (operation : Operation) :
    s.uncounted.stepUncounted operation = (s.step operation).uncounted := by
  cases operation with
  | compile source =>
    have same : s.uncounted.engine.compiled = s.engine.compiled := rfl
    simp only [stepUncounted, step, Engine.compile, same]
    cases s.engine.compiled.get? source <;> rfl
  | evaluateCached expression place label =>
    have expressions : s.uncounted.expressions = s.expressions := rfl
    have contexts : s.uncounted.contexts = s.contexts := rfl
    simp only [stepUncounted, step, evaluateCached, expressions, contexts]
    split
    next compiled context _ _ =>
      obtain ⟨_, engine, after⟩ := s.engine.evaluateCached_resetStats compiled context label
      simp only [uncounted, engine, after]
    next => rfl
  | _ => rfl

/-! ### Runs -/

theorem balanced_run {s : Session} (balanced : s.engine.stats.Balanced)
    (operations : List Operation) : (s.run operations).engine.stats.Balanced := by
  induction operations generalizing s with
  | nil => exact balanced
  | cons operation rest ih => exact ih (balanced_step balanced operation)

theorem counts_run (s : Session) {operations : List Operation}
    (counting : ∀ operation ∈ operations, operation.isReset = false) :
    (s.run operations).engine.stats.hits + (s.run operations).engine.stats.misses =
      s.engine.stats.hits + s.engine.stats.misses +
        (lookUps step s operations).countP Lookup.returned := by
  induction operations generalizing s with
  | nil => rfl
  | cons operation rest ih =>
    have first := s.counts_step (counting operation List.mem_cons_self)
    have later := ih (s.step operation) fun other member =>
      counting other (List.mem_cons_of_mem _ member)
    rw [lookUps, List.countP_append, ← Nat.add_assoc, ← first]
    exact later

/-- Without counters and resets a run looks up the same and ends as it does with them. -/
theorem lookUps_uncounted (s : Session) (operations : List Operation) :
    let bare := operations.filter fun operation => !operation.isReset
    lookUps stepUncounted s.uncounted bare = lookUps step s operations ∧
      bare.foldl stepUncounted s.uncounted = (s.run operations).uncounted := by
  induction operations generalizing s with
  | nil => exact ⟨rfl, rfl⟩
  | cons operation rest ih =>
    have later := ih (s.step operation)
    cases reset : operation.isReset with
    | true =>
      cases operation with
      | resetStats => exact later
      | _ => cases reset
    | false =>
      rw [← s.uncounted_step operation] at later
      simp only [List.filter_cons, reset, Bool.not_false, if_true, lookUps, List.foldl_cons,
        lookUp?_uncounted, later.1]
      exact ⟨trivial, later.2⟩

/-- Whatever was done with an engine and with what shares it, the counts by label add up, and the
counts altogether tell how many look-ups returned since the counters were last reset.  The next
look-up counts once, under its own label, if it returns.  A run in which nothing is counted or
reset looks up the same and ends as this one does but for the counters. -/
theorem counters_balance (mode : Mode) (capacity : Nat) (resolver : Resolver)
    (operations : List Operation) :
    let new := start (.ofParts mode capacity resolver)
    let s := new.run operations
    let bare := operations.filter fun operation => !operation.isReset
    s.engine.stats.Balanced ∧
    (∀ before after, operations = before ++ after →
      before = [] ∨ before.getLast? = some .resetStats →
      (∀ operation ∈ after, operation.isReset = false) →
      s.engine.stats.hits + s.engine.stats.misses =
        (lookUps step (new.run before) after).countP Lookup.returned) ∧
    (∀ compiled context label,
      Engine.Counted (.ofContext compiled context) label
        (s.engine.evaluateCached compiled context label).1 s.engine
        (s.engine.evaluateCached compiled context label).2.1) ∧
    lookUps stepUncounted new bare = lookUps step new operations ∧
    bare.foldl stepUncounted new = s.uncounted := by
  intro new s bare
  refine ⟨balanced_run Stats.balanced_empty operations, ?since,
    fun compiled context label => s.engine.counted_evaluateCached compiled context label,
    new.lookUps_uncounted operations⟩
  case since =>
    intro before after split beginning counting
    have counts := (new.run before).counts_run counting
    have none : (new.run before).engine.stats = .empty := by
      rcases beginning with rfl | last
      · rfl
      · obtain ⟨earlier, rfl⟩ := List.getLast?_eq_some_iff.mp last
        simp only [run, List.foldl_append, List.foldl_cons, List.foldl_nil]
        rfl
    have whole : (new.run before).run after = s := by
      simp only [s, split, run, List.foldl_append]
    rw [none, whole] at counts
    exact counts.trans (Nat.zero_add _)

/-- After a reset a hit is counted, and a look-up that crashes is not. -/
theorem counters_balance_after_crash :
    let brittle : Rules :=
      { Rules.standard with
        toNumber := fun value =>
          if value.kind = .boolean then .error ⟨some "to_number exploded"⟩
          else .ok (Coercion.toNumber value) }
    let before : List Operation :=
      [.bring "hp - 1" (.binary .subtract (.named "hp") (.constant (.integer 1))), .enter .loose,
        .adopt 0 brittle, .set 0 "hp" (.integer 5), .evaluateCached 0 0 "t", .resetStats]
    let after : List Operation :=
      [.evaluateCached 0 0 "u", .set 0 "hp" (.boolean true), .evaluateCached 0 0 "u"]
    let new := start (.ofParts .loose 1 .standard)
    let s := new.run (before ++ after)
    s.engine.stats.hits + s.engine.stats.misses =
        (lookUps step (new.run before) after).countP Lookup.returned ∧
      (lookUps step (new.run before) after).map Lookup.returned = [true, false] ∧
      s.engine.stats.hitsFor "u" = 1 ∧ s.engine.stats.hitsFor "t" = 0 := by
  intro brittle before after new s
  have last : before.getLast? = some .resetStats := rfl
  have counting : ∀ operation ∈ after, operation.isReset = false := by
    intro operation member
    simp only [after, List.mem_cons, List.not_mem_nil, or_false] at member
    rcases member with rfl | rfl | rfl <;> rfl
  refine ⟨?_, by decide +kernel, by decide +kernel, by decide +kernel⟩
  -- Named away, since comparing sums would run the operations.
  have whole : s = (start (.ofParts .loose 1 .standard)).run (before ++ after) := rfl
  rw [whole]
  exact (counters_balance .loose 1 .standard (before ++ after)).2.1 before after rfl (.inr last)
    counting

end Session
end Tripwire
