import Tripwire.Proofs.Engine.Deployment

/-!
Identities of compiled expressions.

An identity is drawn once, from the counter that all engines share, and an engine
keeps to it until its compiled texts are cleared.  `Deployment.Told` is the
invariant: equal identities are equal expressions, and what an engine knows was
compiled from its text, by this engine alone.
-/

namespace Tripwire

namespace Session

/-- What an operation does to the expressions of a session. -/
inductive Names (s s' : Session) : Operation → Prop
  | known {source : String} {compiled : Compiled} :
      s.engine.compiled.get? source = some compiled →
      s'.expressions = s.expressions ++ [compiled] →
      s'.engine.compiled = s.engine.compiled →
      s'.freshExpression = s.freshExpression → Names s s' (.compile source)
  | new {source : String} :
      s.engine.compiled.get? source = none →
      s'.expressions = s.expressions ++ [.ofSource source s.freshExpression] →
      s'.engine.compiled =
        s.engine.compiled.insert source (.ofSource source s.freshExpression) →
      s'.freshExpression = s.freshExpression + 1 → Names s s' (.compile source)
  | brought {source : String} {root : Expr} :
      s'.expressions = s.expressions ++ [⟨s.freshExpression, source, root⟩] →
      s'.engine.compiled = s.engine.compiled →
      s'.freshExpression = s.freshExpression + 1 → Names s s' (.bring source root)
  | cleared :
      s'.expressions = s.expressions →
      s'.engine.compiled = .empty →
      s'.freshExpression = s.freshExpression → Names s s' .clearCompiled
  | other {operation : Operation} :
      operation ≠ .clearCompiled → (∀ source, operation ≠ .compile source) →
      s'.expressions = s.expressions →
      s'.engine.compiled = s.engine.compiled →
      s'.freshExpression = s.freshExpression → Names s s' operation

theorem names_step (s : Session) (operation : Operation) :
    Names s (s.step operation) operation := by
  cases operation with
  | compile source =>
    cases found : s.engine.compiled.get? source with
    | some compiled =>
      have step : s.step (.compile source) =
          { s with expressions := s.expressions ++ [compiled] } := by
        simp only [step, Engine.compile, found]
      rw [step]
      exact .known found rfl rfl rfl
    | none =>
      let compiled := Compiled.ofSource source s.freshExpression
      have step : s.step (.compile source) =
          { s with
            engine.compiled := s.engine.compiled.insert source compiled
            expressions := s.expressions ++ [compiled]
            freshExpression := s.freshExpression + 1 } := by
        simp only [step, Engine.compile, found, compiled]
      rw [step]
      exact .new found rfl rfl rfl
  | bring source root => exact .brought rfl rfl rfl
  | clearCompiled => exact .cleared rfl rfl rfl
  | evaluateCached expression place label =>
    have frame : (s.evaluateCached expression place label).expressions = s.expressions ∧
        (s.evaluateCached expression place label).engine.compiled = s.engine.compiled := by
      simp only [Session.evaluateCached]
      split
      next compiled context _ _ =>
        exact ⟨rfl, (s.engine.frame_evaluateCached compiled context label).2.2⟩
      next => exact ⟨rfl, rfl⟩
    exact .other (by simp) (by simp) frame.1 frame.2 (s.fresh_evaluateCached expression place label).1
  | _ => exact .other (by simp) (by simp) rfl rfl rfl

end Session

namespace Deployment

/-- The engine at a place knows the compiled form of a text. -/
def Knows (d : Deployment) (place : Nat) (source : String) (compiled : Compiled) : Prop :=
  (d.engines.get place).compiled.get? source = some compiled

variable {d d' : Deployment} {place : Nat} {source : String} {compiled : Compiled}

theorem Knows.ne_none (knows : d.Knows place source compiled) :
    (d.engines.get place).compiled.get? source ≠ none := by
  rw [Knows] at knows
  rw [knows]
  exact Option.some_ne_none compiled

/-- There is an engine at a place where something is known. -/
theorem Knows.inside (knows : d.Knows place source compiled) : place < d.engines.all.length := by
  by_contra outside
  have none : d.engines.get place = default := by
    rw [Engines.get, List.getD_eq_getElem?_getD, List.getElem?_eq_none (Nat.not_lt.mp outside)]
    rfl
  rw [Knows, none] at knows
  cases knows

/-- What a step does to the expressions of a deployment: it repeats and forgets known ones, or it
draws the next identity for a new one. -/
inductive Names (d d' : Deployment) : Prop
  | none (repeated : List Compiled) :
      (∀ compiled ∈ repeated, ∃ place source, d.Knows place source compiled) →
      d'.expressions = d.expressions ++ repeated →
      d'.engines.fresh = d.engines.fresh →
      (∀ place source compiled, d'.Knows place source compiled → d.Knows place source compiled) →
      Names d d'
  | new (drawn : Compiled) (home : Nat) :
      drawn.id = d.engines.fresh →
      d'.expressions = d.expressions ++ [drawn] →
      d'.engines.fresh = d.engines.fresh + 1 →
      (∀ place source compiled, d'.Knows place source compiled → d.Knows place source compiled ∨
        place = home ∧ compiled = drawn ∧ drawn = .ofSource source drawn.id) →
      Names d d'

theorem names_found (d : Deployment) (mode : Mode) (capacity : Nat) (resolver : Resolver) :
    Names d (d.step (.found mode capacity resolver)) := by
  refine .none [] (List.forall_mem_nil _) (List.append_nil _).symm rfl ?_
  intro place source compiled knows
  rw [Knows, step] at knows
  rcases d.engines.get_add (.ofParts mode capacity resolver) place with added | kept
  · rw [added] at knows
    cases knows
  · rw [kept] at knows
    exact knows

theorem names_step (d : Deployment) (operation : Operation) : Names d (d.step operation) := by
  cases operation with
  | found mode capacity resolver => exact d.names_found mode capacity resolver
  | on home operation =>
    have knows : ∀ place source compiled,
        (d.step (.on home operation)).Knows place source compiled →
        d.Knows place source compiled ∨ place = home ∧
          ((d.session home).step operation).engine.compiled.get? source = some compiled := by
      intro place source compiled known
      rw [Knows, step] at known
      rcases d.engine_withSession home place ((d.session home).step operation) with
        ⟨engine, here⟩ | unchanged
      · rw [engine] at known
        exact .inr ⟨here, known⟩
      · rw [unchanged] at known
        exact .inl known
    have keeps (same : ((d.session home).step operation).engine.compiled =
        (d.session home).engine.compiled) : ∀ place source compiled,
        (d.step (.on home operation)).Knows place source compiled →
        d.Knows place source compiled := by
      intro place source compiled known
      rcases knows place source compiled known with old | ⟨rfl, stepped⟩
      · exact old
      · rw [same] at stepped
        exact stepped
    cases (d.session home).names_step operation with
    | @known source compiled found expressions same fresh =>
      refine .none [compiled] (fun other member => ?_) expressions fresh (keeps same)
      rw [List.mem_singleton.mp member]
      exact ⟨home, source, found⟩
    | @new source found expressions inserted fresh =>
      refine .new _ home rfl expressions fresh fun place text compiled known => ?_
      rcases knows place text compiled known with old | ⟨rfl, stepped⟩
      · exact .inl old
      · rw [inserted, NameMap.get?_insert] at stepped
        split at stepped
        next same =>
          cases stepped
          exact .inr ⟨rfl, rfl, by rw [same]; rfl⟩
        next => exact .inl stepped
    | brought expressions same fresh =>
      exact .new _ home rfl expressions fresh fun place source compiled known =>
        .inl (keeps same place source compiled known)
    | cleared expressions emptied fresh =>
      refine .none [] (List.forall_mem_nil _) (expressions.trans (List.append_nil _).symm) fresh ?_
      intro place source compiled known
      rcases knows place source compiled known with old | ⟨_, stepped⟩
      · exact old
      · rw [emptied] at stepped
        cases stepped
    | other _ _ expressions same fresh =>
      exact .none [] (List.forall_mem_nil _) (expressions.trans (List.append_nil _).symm) fresh
        (keeps same)

/-- What holds of the expressions of a deployment, whatever was done with it. -/
structure Told (d : Deployment) : Prop where
  drawn : ∀ compiled ∈ d.expressions, compiled.id < d.engines.fresh
  /-- Equal identities are equal expressions. -/
  same : ∀ compiled ∈ d.expressions, ∀ other ∈ d.expressions, compiled.id = other.id →
    compiled = other
  /-- What an engine knows was handed out, and was compiled from its text. -/
  known : ∀ place source compiled, d.Knows place source compiled →
    compiled ∈ d.expressions ∧ compiled = .ofSource source compiled.id
  /-- No two engines know one expression. -/
  apart : ∀ place source other text compiled, d.Knows place source compiled →
    d.Knows other text compiled → place = other

theorem told_start : start.Told where
  drawn := nofun
  same := nofun
  known _ _ _ known := nomatch Knows.inside known
  apart _ _ _ _ _ known := nomatch Knows.inside known

theorem Told.none {repeated : List Compiled} (told : d.Told)
    (repeats : ∀ compiled ∈ repeated, ∃ place source, d.Knows place source compiled)
    (expressions : d'.expressions = d.expressions ++ repeated)
    (fresh : d'.engines.fresh = d.engines.fresh)
    (knows : ∀ place source compiled, d'.Knows place source compiled →
      d.Knows place source compiled) : d'.Told := by
  have members : ∀ compiled ∈ d'.expressions, compiled ∈ d.expressions := by
    intro compiled member
    rw [expressions] at member
    rcases List.mem_append.mp member with old | again
    · exact old
    · obtain ⟨place, source, known⟩ := repeats compiled again
      exact (told.known place source compiled known).1
  refine ⟨?drawn, ?same, ?known, ?apart⟩
  case drawn =>
    intro compiled member
    rw [fresh]
    exact told.drawn compiled (members compiled member)
  case same =>
    intro compiled member other memberOther
    exact told.same compiled (members compiled member) other (members other memberOther)
  case known =>
    intro place source compiled known
    obtain ⟨member, ofSource⟩ := told.known place source compiled (knows _ _ _ known)
    rw [expressions]
    exact ⟨List.mem_append_left _ member, ofSource⟩
  case apart =>
    intro place source other text compiled one two
    exact told.apart place source other text compiled (knows _ _ _ one) (knows _ _ _ two)

theorem Told.new {drawn : Compiled} {home : Nat} (told : d.Told)
    (identity : drawn.id = d.engines.fresh)
    (expressions : d'.expressions = d.expressions ++ [drawn])
    (fresh : d'.engines.fresh = d.engines.fresh + 1)
    (knows : ∀ place source compiled, d'.Knows place source compiled →
      d.Knows place source compiled ∨
        place = home ∧ compiled = drawn ∧ drawn = .ofSource source drawn.id) : d'.Told := by
  have older : ∀ compiled ∈ d.expressions, compiled.id < drawn.id := by
    intro compiled member
    rw [identity]
    exact told.drawn compiled member
  have unknown : ∀ place source, ¬d.Knows place source drawn := fun place source known =>
    Nat.lt_irrefl _ (older drawn (told.known place source drawn known).1)
  have members : ∀ compiled ∈ d'.expressions, compiled ∈ d.expressions ∨ compiled = drawn := by
    intro compiled member
    rw [expressions] at member
    exact (List.mem_append.mp member).imp_right List.mem_singleton.mp
  refine ⟨?drawn, ?same, ?known, ?apart⟩
  case drawn =>
    intro compiled member
    rw [fresh, ← identity]
    rcases members compiled member with old | rfl
    · exact Nat.lt_succ_of_lt (older compiled old)
    · exact Nat.lt_succ_self _
  case same =>
    intro compiled member other memberOther equal
    rcases members compiled member with old | rfl
    · rcases members other memberOther with oldOther | rfl
      · exact told.same compiled old other oldOther equal
      · exact absurd equal (Nat.ne_of_lt (older compiled old))
    · rcases members other memberOther with oldOther | rfl
      · exact absurd equal.symm (Nat.ne_of_lt (older other oldOther))
      · rfl
  case known =>
    intro place source compiled known
    rw [expressions]
    rcases knows place source compiled known with old | ⟨_, rfl, ofSource⟩
    · obtain ⟨member, ofSource⟩ := told.known place source compiled old
      exact ⟨List.mem_append_left _ member, ofSource⟩
    · exact ⟨List.mem_append_right _ (List.mem_singleton_self _), ofSource⟩
  case apart =>
    intro place source other text compiled one two
    rcases knows place source compiled one with oldOne | ⟨rfl, rfl, _⟩
    · rcases knows other text compiled two with oldTwo | ⟨_, rfl, _⟩
      · exact told.apart place source other text compiled oldOne oldTwo
      · exact absurd oldOne (unknown place source)
    · rcases knows other text compiled two with oldTwo | ⟨rfl, _, _⟩
      · exact absurd oldTwo (unknown other text)
      · rfl

theorem Told.step (told : d.Told) (operation : Operation) : (d.step operation).Told := by
  cases d.names_step operation with
  | none repeated repeats expressions fresh knows => exact told.none repeats expressions fresh knows
  | new drawn home identity expressions fresh knows =>
    exact told.new identity expressions fresh knows

theorem Told.run (told : d.Told) (operations : List Operation) : (d.run operations).Told := by
  induction operations generalizing d with
  | nil => exact told
  | cons operation rest ih => exact ih (told.step operation)

end Deployment
end Tripwire
