import Tripwire.Proofs.Engine.Transparency

/-!
Deployments: several engines over the same expressions, contexts and snapshots.

Seen from one of its engines a deployment is a session, and an operation on the
engine is an operation of that session.  A deployment is sound when the session
of every engine is sound under one common meaning.  What one engine does leaves
the sessions of the others sound, since the meaning only grows (`Grows.other`).
-/

namespace Tripwire

namespace Engines

theorem get_set_of_ne (engines : Engines) {place other : Nat} (apart : other ≠ place)
    (engine : Engine) : (engines.set place engine).get other = engines.get other := by
  simp only [get, set, List.getD_eq_getElem?_getD, List.getElem?_set_ne apart.symm]

theorem get_set_self (engines : Engines) {place : Nat} (inside : place < engines.all.length)
    (engine : Engine) : (engines.set place engine).get place = engine := by
  simp only [get, set, List.getD_eq_getElem?_getD, List.getElem?_set_self inside,
    Option.getD_some]

theorem get_set (engines : Engines) (place other : Nat) (engine : Engine) :
    (engines.set place engine).get other = engine ∧ other = place ∨
      (engines.set place engine).get other = engines.get other := by
  by_cases same : other = place
  · subst same
    by_cases inside : other < engines.all.length
    · exact .inl ⟨engines.get_set_self inside engine, rfl⟩
    · have unchanged : engines.set other engine = engines := by
        rw [set, List.set_eq_of_length_le (Nat.not_lt.mp inside)]
      exact .inr (by rw [unchanged])
  · exact .inr (engines.get_set_of_ne same engine)

theorem get_add_of_lt (engines : Engines) (engine : Engine) {place : Nat}
    (inside : place < engines.all.length) :
    (engines.add engine).2.get place = engines.get place := by
  simp only [get, add, List.getD_eq_getElem?_getD, List.getElem?_append_left inside]

theorem get_add (engines : Engines) (engine : Engine) (place : Nat) :
    (engines.add engine).2.get place = engine ∨
      (engines.add engine).2.get place = engines.get place := by
  rcases Nat.lt_trichotomy place engines.all.length with before | equal | behind
  · exact .inr (engines.get_add_of_lt engine before)
  · subst equal
    simp only [get, add, List.getD_eq_getElem?_getD, List.getElem?_concat_length]
    exact .inl rfl
  · have longer : (engines.all ++ [engine]).length ≤ place := by
      rwa [List.length_append, List.length_singleton]
    right
    simp only [get, add, List.getD_eq_getElem?_getD, List.getElem?_eq_none longer,
      List.getElem?_eq_none (Nat.le_of_lt behind)]

end Engines

namespace Session

variable {meaning later : Meaning} {s s' : Session}

/-- An engine that fits what a session has drawn may take the place of another one. -/
theorem Sound.replaceEngine (sound : s.Sound meaning) {engine : Engine}
    (compiled : ∀ source compiled, engine.compiled.get? source = some compiled →
      compiled.id < s.freshExpression ∧ meaning.root compiled.id = compiled.root)
    (cache : engine.cache.All
      (Cached meaning engine.resolver s.freshExpression s.freshRules)) :
    { s with engine := engine }.Sound meaning :=
  ⟨sound.standard, sound.expressions, compiled, sound.contexts, sound.snapshots, cache⟩

/-- An engine of which nothing was asked yet fits everywhere. -/
theorem Sound.withNew (sound : s.Sound meaning) (mode : Mode) (capacity : Nat)
    (resolver : Resolver) : { s with engine := .ofParts mode capacity resolver }.Sound meaning := by
  refine sound.replaceEngine (fun source compiled found => ?_) (Lru.all_new capacity)
  simp [Engine.ofParts] at found

/-- An engine that kept to the old meaning keeps to the grown one. -/
theorem Grows.other {other : Session} (grows : Grows meaning s later s')
    (sound : other.Sound meaning)
    (expressions : other.freshExpression = s.freshExpression)
    (rules : other.freshRules = s.freshRules) :
    { s' with engine := other.engine }.Sound later := by
  refine grows.sound.replaceEngine (fun source compiled found => ?_)
    (sound.cache.imp fun key frozen cached => ?_)
  · obtain ⟨old, root⟩ := sound.compiled source compiled found
    rw [expressions] at old
    exact ⟨Nat.lt_of_lt_of_le old grows.drawnExpressions, (grows.root _ old).trans root⟩
  · obtain ⟨expressionOld, rulesOld, holds⟩ := cached
    rw [expressions] at expressionOld
    rw [rules] at rulesOld
    refine ⟨Nat.lt_of_lt_of_le expressionOld grows.drawnExpressions,
      Nat.lt_of_lt_of_le rulesOld grows.drawnRules, ?_⟩
    rw [grows.root _ expressionOld, grows.rules _ rulesOld]
    exact holds

end Session

structure Deployment where
  engines : Engines
  expressions : List Compiled
  contexts : List Context
  snapshots : List Snapshot
  freshRules : Nat

namespace Deployment

inductive Operation
  /-- Another engine. -/
  | found (mode : Mode) (capacity : Nat) (resolver : Resolver)
  /-- An operation on the engine at a place and on what the engines share. -/
  | on (place : Nat) (operation : Session.Operation)

def start : Deployment := ⟨.empty, [], [], [], 1⟩

/-- What the engine at a place sees. -/
def session (d : Deployment) (place : Nat) : Session :=
  ⟨d.engines.get place, d.expressions, d.contexts, d.snapshots, d.engines.fresh, d.freshRules⟩

def withSession (d : Deployment) (place : Nat) (s : Session) : Deployment where
  engines := { d.engines.set place s.engine with fresh := s.freshExpression }
  expressions := s.expressions
  contexts := s.contexts
  snapshots := s.snapshots
  freshRules := s.freshRules

theorem engine_withSession (d : Deployment) (place other : Nat) (s : Session) :
    (d.withSession place s).engines.get other = s.engine ∧ other = place ∨
      (d.withSession place s).engines.get other = d.engines.get other :=
  d.engines.get_set place other s.engine

def step (d : Deployment) : Operation → Deployment
  | .found mode capacity resolver =>
    { d with engines := (d.engines.add (.ofParts mode capacity resolver)).2 }
  | .on place operation => d.withSession place ((d.session place).step operation)

def run (d : Deployment) (operations : List Operation) : Deployment := operations.foldl step d

theorem run_append (d : Deployment) (first second : List Operation) :
    d.run (first ++ second) = (d.run first).run second := List.foldl_append

/-- Every engine keeps to a common meaning. -/
def Sound (meaning : Meaning) (d : Deployment) : Prop := ∀ place, (d.session place).Sound meaning

/-- Some meaning is kept by every engine. -/
def Consistent (d : Deployment) : Prop := ∃ meaning, d.Sound meaning

variable {meaning : Meaning} {d : Deployment}

theorem consistent_start : start.Consistent :=
  ⟨_, fun _ => Session.sound_start .strict Engine.defaultCapacity .standard⟩

theorem Sound.found (sound : d.Sound meaning) (mode : Mode) (capacity : Nat)
    (resolver : Resolver) : (d.step (.found mode capacity resolver)).Sound meaning := by
  intro place
  have new := (sound place).withNew mode capacity resolver
  have old := sound place
  simp only [session] at new old
  simp only [session, step]
  rcases d.engines.get_add (.ofParts mode capacity resolver) place with added | kept
  · rw [added]
    exact new
  · rw [kept]
    exact old

theorem Sound.on (sound : d.Sound meaning) (place : Nat) (operation : Session.Operation) :
    (d.step (.on place operation)).Consistent := by
  obtain ⟨later, grows⟩ := (sound place).step operation
  refine ⟨later, fun other => ?_⟩
  have self := grows.sound
  have rest := grows.other (sound other) rfl rfl
  simp only [session, step] at self rest ⊢
  rcases d.engine_withSession place other ((d.session place).step operation) with
    ⟨stepped, _⟩ | kept
  · simp only [session] at stepped
    rw [stepped]
    exact self
  · simp only [session] at kept
    rw [kept]
    exact rest

theorem Consistent.run (consistent : d.Consistent) (operations : List Operation) :
    (d.run operations).Consistent := by
  induction operations generalizing d with
  | nil => exact consistent
  | cons operation rest ih =>
    obtain ⟨meaning, sound⟩ := consistent
    cases operation with
    | found mode capacity resolver => exact ih ⟨meaning, sound.found mode capacity resolver⟩
    | on place operation => exact ih (sound.on place operation)

/-! ### Look-ups for one context -/

/-- A deployment follows another one by look-ups for the context at a seat: engines decide as
before, and the context is the same but for its log of reads. -/
structure Follows (seat : Nat) (d d' : Deployment) : Prop where
  run : ∃ operations, d' = d.run operations
  expressions : d'.expressions = d.expressions
  resolver : ∀ place, (d'.engines.get place).resolver = (d.engines.get place).resolver
  snapshot : d'.contexts[seat]?.map Context.snapshot = d.contexts[seat]?.map Context.snapshot

namespace Follows

variable {seat : Nat} {d' d'' : Deployment}

theorem refl (seat : Nat) (d : Deployment) : Follows seat d d :=
  ⟨⟨[], rfl⟩, rfl, fun _ => rfl, rfl⟩

theorem trans (first : Follows seat d d') (second : Follows seat d' d'') :
    Follows seat d d'' := by
  obtain ⟨before, rfl⟩ := first.run
  obtain ⟨behind, rfl⟩ := second.run
  exact ⟨⟨before ++ behind, (d.run_append before behind).symm⟩,
    second.expressions.trans first.expressions,
    fun place => (second.resolver place).trans (first.resolver place),
    second.snapshot.trans first.snapshot⟩

theorem consistent (follows : Follows seat d d') (consistent : d.Consistent) : d'.Consistent := by
  obtain ⟨operations, rfl⟩ := follows.run
  exact consistent.run operations

end Follows

/-- The engine at a place is asked for the result of an expression in a context of its own. -/
def lookUp (d : Deployment) (place expression seat : Nat) (label : String) : Deployment :=
  d.step (.on place (.evaluateCached expression seat label))

theorem lookUp_eq {compiled : Compiled} {context : Context} (place : Nat) {expression seat : Nat}
    (known : d.expressions[expression]? = some compiled)
    (seated : d.contexts[seat]? = some context) (label : String) :
    (d.lookUp place expression seat label).engines = d.engines.set place
        ((d.engines.get place).evaluateCached compiled context label).2.1 ∧
      (d.lookUp place expression seat label).contexts = d.contexts.set seat
        ((d.engines.get place).evaluateCached compiled context label).2.2 := by
  simp only [lookUp, step, withSession, Session.step, Session.evaluateCached, session, known,
    seated]
  exact ⟨rfl, trivial⟩

theorem follows_lookUp (d : Deployment) (place expression seat : Nat) (label : String) :
    Follows seat d (d.lookUp place expression seat label) := by
  refine ⟨⟨[.on place (.evaluateCached expression seat label)], rfl⟩, ?expressions,
    fun other => ?resolver, ?snapshot⟩
  case expressions =>
    simp only [lookUp, step, withSession, Session.step, Session.evaluateCached]
    split <;> rfl
  case resolver =>
    have kept := (d.session place).resolver_step (.evaluateCached expression seat label)
    simp only [lookUp, step]
    rcases d.engine_withSession place other
        ((d.session place).step (.evaluateCached expression seat label)) with
      ⟨stepped, same⟩ | unchanged
    · rw [stepped, kept, same]
      rfl
    · rw [unchanged]
  case snapshot =>
    simp only [lookUp, step, withSession, Session.step, Session.evaluateCached]
    split
    next compiled context _ contextAt =>
      have seated : d.contexts[seat]? = some context := contextAt
      simp only [session, List.getElem?_set_self', seated, Option.map_eq_map, Option.map_some,
        Function.const_apply, Engine.snapshot_evaluateCached]
    next => rfl

end Deployment
end Tripwire
