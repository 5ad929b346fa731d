import Mathlib.Logic.Function.Basic
import Tripwire.Proofs.Cache.Frozen
import Tripwire.Proofs.Cache.Lru
import Tripwire.Proofs.Engine.Lookup
import Tripwire.Proofs.Engine.Session

/-!
The cache of an engine is transparent.

Identities have a meaning: one tree for each expression, one rule set for each
context.  A session is sound under a meaning if everything in it keeps to the
meaning and every cached result holds for the tree and the rules of its key.
Each operation leads from a sound session to a sound one, under a meaning that
has grown by the identities it drew.
-/

namespace Tripwire

/-- The tree of every expression and the rules of every context, by identity. -/
structure Meaning where
  root : Nat → Expr
  rules : Nat → Rules

namespace Meaning

def withRoot (meaning : Meaning) (id : Nat) (root : Expr) : Meaning :=
  { meaning with root := Function.update meaning.root id root }

def withRules (meaning : Meaning) (id : Nat) (rules : Rules) : Meaning :=
  { meaning with rules := Function.update meaning.rules id rules }

@[simp] theorem root_withRoot_self (meaning : Meaning) (id : Nat) (root : Expr) :
    (meaning.withRoot id root).root id = root := Function.update_self ..

theorem root_withRoot_of_lt (meaning : Meaning) {id fresh : Nat} (old : id < fresh) (root : Expr) :
    (meaning.withRoot fresh root).root id = meaning.root id :=
  Function.update_of_ne (Nat.ne_of_lt old) ..

@[simp] theorem rules_withRules_self (meaning : Meaning) (id : Nat) (rules : Rules) :
    (meaning.withRules id rules).rules id = rules := Function.update_self ..

theorem rules_withRules_of_lt (meaning : Meaning) {id fresh : Nat} (old : id < fresh)
    (rules : Rules) : (meaning.withRules fresh rules).rules id = meaning.rules id :=
  Function.update_of_ne (Nat.ne_of_lt old) ..

end Meaning

namespace Session

/-- The rules and their identity belong together, and the identity was drawn before. -/
def Keeps (meaning : Meaning) (fresh : Nat) (id : Nat) (rules : Rules) : Prop :=
  id < fresh ∧ meaning.rules id = rules

/-- What a cached result asserts of its key. -/
def Cached (meaning : Meaning) (resolver : Resolver) (freshExpression freshRules : Nat)
    (key : Key) (frozen : Frozen) : Prop :=
  key.expression < freshExpression ∧ key.rules < freshRules ∧
    frozen.Holds resolver (meaning.rules key.rules) key.mode (meaning.root key.expression)

structure Sound (meaning : Meaning) (s : Session) : Prop where
  standard : Keeps meaning s.freshRules 0 .standard
  expressions : ∀ compiled ∈ s.expressions,
    compiled.id < s.freshExpression ∧ meaning.root compiled.id = compiled.root
  compiled : ∀ source compiled, s.engine.compiled.get? source = some compiled →
    compiled.id < s.freshExpression ∧ meaning.root compiled.id = compiled.root
  contexts : ∀ context ∈ s.contexts,
    Keeps meaning s.freshRules context.rulesId context.rules
  snapshots : ∀ snapshot ∈ s.snapshots,
    Keeps meaning s.freshRules snapshot.rulesId snapshot.rules
  cache : s.engine.cache.All
    (Cached meaning s.engine.resolver s.freshExpression s.freshRules)

variable {meaning : Meaning} {s : Session}

theorem sound_start (mode : Mode) (capacity : Nat) (resolver : Resolver) :
    (start (.ofParts mode capacity resolver)).Sound ⟨fun _ => .constantFalse, fun _ => .standard⟩
    where
  standard := ⟨Nat.zero_lt_one, rfl⟩
  expressions := nofun
  compiled source compiled found := by
    simp [start, Engine.ofParts] at found
  contexts := nofun
  snapshots := nofun
  cache := Lru.all_new capacity

/-- A later session is sound under a meaning that says the same of all identities drawn before. -/
structure Grows (meaning : Meaning) (s : Session) (later : Meaning) (s' : Session) : Prop where
  root : ∀ id < s.freshExpression, later.root id = meaning.root id
  rules : ∀ id < s.freshRules, later.rules id = meaning.rules id
  drawnExpressions : s.freshExpression ≤ s'.freshExpression
  drawnRules : s.freshRules ≤ s'.freshRules
  sound : s'.Sound later

/-- Where no identity is drawn the meaning stays. -/
theorem Grows.same {s' : Session} (expressions : s'.freshExpression = s.freshExpression)
    (rules : s'.freshRules = s.freshRules) (sound : s'.Sound meaning) :
    Grows meaning s meaning s' :=
  ⟨fun _ _ => rfl, fun _ _ => rfl, Nat.le_of_eq expressions.symm, Nat.le_of_eq rules.symm, sound⟩

theorem Grows.withRoot {s' : Session} {root : Expr}
    (expressions : s'.freshExpression = s.freshExpression + 1)
    (rules : s'.freshRules = s.freshRules)
    (sound : s'.Sound (meaning.withRoot s.freshExpression root)) :
    Grows meaning s (meaning.withRoot s.freshExpression root) s' :=
  ⟨fun _ old => meaning.root_withRoot_of_lt old root, fun _ _ => rfl,
    expressions ▸ Nat.le_succ _, Nat.le_of_eq rules.symm, sound⟩

/-! ### Fresh identities -/

/-- A new expression leaves what is said of older ones. -/
theorem Sound.withRoot (sound : s.Sound meaning) (root : Expr) :
    { s with freshExpression := s.freshExpression + 1 }.Sound
      (meaning.withRoot s.freshExpression root) := by
  have older : ∀ id root', id < s.freshExpression ∧ meaning.root id = root' →
      id < s.freshExpression + 1 ∧
        (meaning.withRoot s.freshExpression root).root id = root' := by
    intro id root' old
    rw [Meaning.root_withRoot_of_lt _ old.1]
    exact ⟨Nat.lt_succ_of_lt old.1, old.2⟩
  refine ⟨sound.standard, fun compiled member => older _ _ (sound.expressions compiled member),
    fun source compiled found => older _ _ (sound.compiled source compiled found),
    sound.contexts, sound.snapshots, sound.cache.imp fun key frozen cached => ?_⟩
  obtain ⟨expressionOld, rulesOld, holds⟩ := cached
  obtain ⟨expressionNew, sameRoot⟩ := older key.expression _ ⟨expressionOld, rfl⟩
  exact ⟨expressionNew, rulesOld, by rw [sameRoot]; exact holds⟩

/-- A new rule set leaves what is said of older ones. -/
theorem Sound.withRules (sound : s.Sound meaning) (rules : Rules) :
    { s with freshRules := s.freshRules + 1 }.Sound (meaning.withRules s.freshRules rules) := by
  have older : ∀ id rules', Keeps meaning s.freshRules id rules' →
      Keeps (meaning.withRules s.freshRules rules) (s.freshRules + 1) id rules' := by
    intro id rules' old
    rw [Keeps, Meaning.rules_withRules_of_lt _ old.1]
    exact ⟨Nat.lt_succ_of_lt old.1, old.2⟩
  refine ⟨older _ _ sound.standard, sound.expressions, sound.compiled,
    fun context member => older _ _ (sound.contexts context member),
    fun snapshot member => older _ _ (sound.snapshots snapshot member),
    sound.cache.imp fun key frozen cached => ?_⟩
  obtain ⟨expressionOld, rulesOld, holds⟩ := cached
  obtain ⟨rulesNew, sameRules⟩ := older key.rules _ ⟨rulesOld, rfl⟩
  exact ⟨expressionOld, rulesNew, by rw [sameRules]; exact holds⟩

theorem Sound.push_expression (sound : s.Sound meaning) {compiled : Compiled}
    (known : compiled.id < s.freshExpression ∧ meaning.root compiled.id = compiled.root) :
    { s with expressions := s.expressions ++ [compiled] }.Sound meaning := by
  refine ⟨sound.standard, fun other member => ?_, sound.compiled, sound.contexts,
    sound.snapshots, sound.cache⟩
  rcases List.mem_append.mp member with old | new
  · exact sound.expressions other old
  · rw [List.mem_singleton.mp new]
    exact known

theorem Sound.bring (sound : s.Sound meaning) (source : String) (root : Expr) :
    (s.step (.bring source root)).Sound (meaning.withRoot s.freshExpression root) :=
  (sound.withRoot root).push_expression
    ⟨Nat.lt_succ_self _, Meaning.root_withRoot_self ..⟩

theorem Sound.compile (sound : s.Sound meaning) (source : String) :
    ∃ later, Grows meaning s later (s.step (.compile source)) := by
  simp only [step, Engine.compile]
  cases found : s.engine.compiled.get? source with
  | some compiled =>
    exact ⟨meaning, .same rfl rfl (sound.push_expression (sound.compiled source compiled found))⟩
  | none =>
    let compiled := Compiled.ofSource source s.freshExpression
    have grown := sound.withRoot compiled.root
    have known : compiled.id < s.freshExpression + 1 ∧
        (meaning.withRoot s.freshExpression compiled.root).root compiled.id = compiled.root :=
      ⟨Nat.lt_succ_self _, Meaning.root_withRoot_self ..⟩
    have pushed := grown.push_expression known
    refine ⟨_, .withRoot rfl rfl ⟨pushed.standard, pushed.expressions,
      fun other compiled' looked => ?_, pushed.contexts, pushed.snapshots, pushed.cache⟩⟩
    simp only [NameMap.get?_insert] at looked
    split at looked
    · cases looked
      exact known
    · exact grown.compiled other compiled' looked

/-! ### Contexts and snapshots -/

theorem Sound.push_contexts (sound : s.Sound meaning) {added : List Context}
    (known : ∀ context ∈ added, Keeps meaning s.freshRules context.rulesId context.rules) :
    { s with contexts := s.contexts ++ added }.Sound meaning := by
  refine ⟨sound.standard, sound.expressions, sound.compiled, fun context member => ?_,
    sound.snapshots, sound.cache⟩
  rcases List.mem_append.mp member with old | new
  · exact sound.contexts context old
  · exact known context new

theorem mem_modify {α : Type} {items : List α} {place : Nat} {change : α → α} {item : α}
    (member : item ∈ items.modify place change) :
    item ∈ items ∨ ∃ old ∈ items, item = change old := by
  obtain ⟨index, found⟩ := List.mem_iff_getElem?.mp member
  rw [List.getElem?_modify] at found
  obtain ⟨old, stood, equal⟩ := Option.map_eq_some_iff.mp found
  have oldMember : old ∈ items := List.mem_iff_getElem?.mpr ⟨index, stood⟩
  split at equal
  · exact .inr ⟨old, oldMember, equal.symm⟩
  · exact .inl (equal ▸ oldMember)

theorem Sound.onContext (sound : s.Sound meaning) {place : Nat} {change : Context → Context}
    (kept : ∀ context ∈ s.contexts,
      Keeps meaning s.freshRules (change context).rulesId (change context).rules) :
    (s.onContext place change).Sound meaning := by
  refine ⟨sound.standard, sound.expressions, sound.compiled, fun context member => ?_,
    sound.snapshots, sound.cache⟩
  rcases mem_modify member with old | ⟨before, old, rfl⟩
  · exact sound.contexts context old
  · exact kept before old

/-- A change of a context that leaves its rules alone. -/
theorem Sound.update (sound : s.Sound meaning) {place : Nat} {change : Context → Context}
    (same : ∀ context, (change context).rulesId = context.rulesId ∧
      (change context).rules = context.rules) :
    (s.onContext place change).Sound meaning :=
  sound.onContext fun context member => by
    rw [(same context).1, (same context).2]
    exact sound.contexts context member

theorem Sound.adopt (sound : s.Sound meaning) (place : Nat) (rules : Rules) :
    (s.step (.adopt place rules)).Sound (meaning.withRules s.freshRules rules) :=
  (sound.withRules rules).onContext fun _ _ =>
    ⟨Nat.lt_succ_self _, Meaning.rules_withRules_self ..⟩

/-! ### The cache -/

/-- Only the compiled texts, the resolver and the cache of an engine matter. -/
theorem Sound.withEngine (sound : s.Sound meaning) {engine : Engine}
    (compiled : engine.compiled = s.engine.compiled)
    (resolver : engine.resolver = s.engine.resolver)
    (cached : engine.cache.All
      (Cached meaning s.engine.resolver s.freshExpression s.freshRules)) :
    { s with engine := engine }.Sound meaning :=
  ⟨sound.standard, sound.expressions, compiled ▸ sound.compiled, sound.contexts,
    sound.snapshots, resolver ▸ cached⟩

/-- The session after an engine has answered for the context at a place. -/
theorem Sound.answered (sound : s.Sound meaning) {engine : Engine} {place : Nat} {context : Context}
    (compiled : engine.compiled = s.engine.compiled)
    (resolver : engine.resolver = s.engine.resolver)
    (cached : engine.cache.All
      (Cached meaning s.engine.resolver s.freshExpression s.freshRules))
    (known : Keeps meaning s.freshRules context.rulesId context.rules) :
    { s with engine := engine, contexts := s.contexts.set place context }.Sound meaning := by
  have withEngine := sound.withEngine compiled resolver cached
  refine ⟨sound.standard, sound.expressions, withEngine.compiled, fun other member => ?_,
    sound.snapshots, withEngine.cache⟩
  rcases List.mem_or_eq_of_mem_set member with old | new
  · exact sound.contexts other old
  · rw [new]
    exact known

/-- A result that was just captured holds for the key under which it is stored. -/
theorem Sound.cached_capture (sound : s.Sound meaning) {compiled : Compiled} {context after : Context}
    {value : Value} (expression : compiled ∈ s.expressions) (member : context ∈ s.contexts)
    (evaluated :
      context.clearReads.evaluate s.engine.resolver compiled.root = (.ok value, after)) :
    Cached meaning s.engine.resolver s.freshExpression s.freshRules (.ofContext compiled context)
      (.capture value after) := by
  obtain ⟨expressionOld, root⟩ := sound.expressions compiled expression
  obtain ⟨rulesOld, rules⟩ := sound.contexts context member
  refine ⟨expressionOld, rulesOld, ?_⟩
  have holds := Frozen.holds_capture evaluated
  rw [Key.ofContext, root, rules]
  exact holds

theorem Sound.evaluateCached (sound : s.Sound meaning) (expression place : Nat) (label : String) :
    (s.evaluateCached expression place label).Sound meaning := by
  simp only [Session.evaluateCached]
  split
  next compiled context compiledAt contextAt =>
    have expression := List.mem_of_getElem? compiledAt
    have member := List.mem_of_getElem? contextAt
    have known := sound.contexts context member
    have asked := sound.cache.get (.ofContext compiled context)
    rcases s.engine.evaluateCached_cases compiled context label with
      ⟨frozen, _, _, hit⟩ | ⟨_, missed⟩
    · rw [hit]
      exact sound.answered rfl rfl asked known
    · rcases (s.engine.asked compiled context).refresh_cases compiled context label with
        ⟨value, after, evaluated, refreshed⟩ | ⟨crash, after, evaluated, refreshed⟩
      · have stored := asked.put (sound.cached_capture expression member evaluated)
        cases (congrArg Prod.snd evaluated : _ = after)
        rw [missed, refreshed]
        exact sound.answered rfl rfl stored known
      · cases (congrArg Prod.snd evaluated : _ = after)
        rw [missed, refreshed]
        exact sound.answered rfl rfl asked known
  next => exact sound

/-! ### Runs -/

theorem fresh_evaluateCached (s : Session) (expression place : Nat) (label : String) :
    (s.evaluateCached expression place label).freshExpression = s.freshExpression ∧
      (s.evaluateCached expression place label).freshRules = s.freshRules := by
  simp only [Session.evaluateCached]
  split <;> exact ⟨rfl, rfl⟩

theorem Sound.step (sound : s.Sound meaning) (operation : Operation) :
    ∃ later, Grows meaning s later (s.step operation) := by
  cases operation with
  | compile source => exact sound.compile source
  | bring source root => exact ⟨_, .withRoot rfl rfl (sound.bring source root)⟩
  | clearCompiled =>
    refine ⟨meaning, .same rfl rfl ⟨sound.standard, sound.expressions,
      fun source compiled found => ?_, sound.contexts, sound.snapshots, sound.cache⟩⟩
    simp [Session.step, Engine.clearCompiled] at found
  | clearCache => exact ⟨meaning, .same rfl rfl (sound.withEngine rfl rfl (Lru.all_clear _))⟩
  | resetStats => exact ⟨meaning, .same rfl rfl (sound.withEngine rfl rfl sound.cache)⟩
  | lookUp key => exact ⟨meaning, .same rfl rfl (sound.withEngine rfl rfl (sound.cache.get key))⟩
  | evict key => exact ⟨meaning, .same rfl rfl (sound.withEngine rfl rfl (sound.cache.remove key))⟩
  | enter mode =>
    refine ⟨meaning, .same rfl rfl (sound.push_contexts fun context member => ?_)⟩
    rw [List.mem_singleton.mp member]
    exact sound.standard
  | adopt place rules =>
    exact ⟨meaning.withRules s.freshRules rules, fun _ _ => rfl,
      fun _ old => meaning.rules_withRules_of_lt old rules, Nat.le_refl _, Nat.le_succ _,
      sound.adopt place rules⟩
  | clone place =>
    refine ⟨meaning, .same rfl rfl (sound.push_contexts fun context member => ?_)⟩
    exact sound.contexts context (List.mem_of_getElem? (Option.mem_toList.mp member))
  | freeze place =>
    refine ⟨meaning, .same rfl rfl ⟨sound.standard, sound.expressions, sound.compiled,
      sound.contexts, fun snapshot member => ?_, sound.cache⟩⟩
    rcases List.mem_append.mp member with old | new
    · exact sound.snapshots snapshot old
    · obtain ⟨context, found, rfl⟩ := Option.map_eq_some_iff.mp (Option.mem_toList.mp new)
      exact sound.contexts context (List.mem_of_getElem? found)
  | thaw place =>
    refine ⟨meaning, .same rfl rfl (sound.push_contexts fun context member => ?_)⟩
    obtain ⟨snapshot, found, rfl⟩ := Option.map_eq_some_iff.mp (Option.mem_toList.mp member)
    exact sound.snapshots snapshot (List.mem_of_getElem? found)
  | set place name value => exact ⟨meaning, .same rfl rfl (sound.update fun _ => ⟨rfl, rfl⟩)⟩
  | remove place name => exact ⟨meaning, .same rfl rfl (sound.update fun _ => ⟨rfl, rfl⟩)⟩
  | get place name => exact ⟨meaning, .same rfl rfl (sound.update fun _ => ⟨rfl, rfl⟩)⟩
  | clearReads place => exact ⟨meaning, .same rfl rfl (sound.update fun _ => ⟨rfl, rfl⟩)⟩
  | evaluate place e => exact ⟨meaning, .same rfl rfl (sound.update fun _ => ⟨rfl, rfl⟩)⟩
  | tryEvaluate place e => exact ⟨meaning, .same rfl rfl (sound.update fun _ => ⟨rfl, rfl⟩)⟩
  | evaluateCached expression place label =>
    obtain ⟨expressions, rules⟩ := s.fresh_evaluateCached expression place label
    exact ⟨meaning, .same expressions rules (sound.evaluateCached expression place label)⟩

theorem Sound.run (sound : s.Sound meaning) (operations : List Operation) :
    ∃ later, (s.run operations).Sound later := by
  induction operations generalizing s meaning with
  | nil => exact ⟨meaning, sound⟩
  | cons operation rest ih =>
    obtain ⟨next, grown⟩ := sound.step operation
    exact ih grown.sound

theorem resolver_step (s : Session) (operation : Operation) :
    (s.step operation).engine.resolver = s.engine.resolver := by
  cases operation with
  | compile source =>
    simp only [Session.step, Engine.compile]
    split <;> rfl
  | evaluateCached expression place label =>
    simp only [Session.step, Session.evaluateCached]
    split
    next compiled context _ _ => exact s.engine.resolver_evaluateCached compiled context label
    next => rfl
  | _ => rfl

theorem resolver_run (s : Session) (operations : List Operation) :
    (s.run operations).engine.resolver = s.engine.resolver := by
  induction operations generalizing s with
  | nil => rfl
  | cons operation rest ih => exact (ih _).trans (s.resolver_step operation)

/-- In a sound session the cache answers with what an evaluation would come to. -/
theorem Sound.value_evaluateCached (sound : s.Sound meaning) {compiled : Compiled}
    {context : Context} (expression : compiled ∈ s.expressions) (member : context ∈ s.contexts)
    (label : String) :
    (s.engine.evaluateCached compiled context label).1.map (·.frozen.value) =
      (context.evaluate s.engine.resolver compiled.root).1 := by
  rcases s.engine.evaluateCached_outcomes compiled context label with
    ⟨frozen, stored, fresh, hit⟩ |
      ⟨_, ⟨value, after, evaluated, _, new⟩ | ⟨crash, after, evaluated, _, crashed⟩⟩
  · obtain ⟨_, _, holds⟩ := sound.cache.of_get stored
    rw [Key.ofContext, (sound.expressions compiled expression).2,
      (sound.contexts context member).2] at holds
    rw [hit, holds context rfl rfl fresh]
    rfl
  · rw [new, evaluated]
    rfl
  · rw [crashed, evaluated]
    rfl

/-- Whatever was done before, an evaluation through the cache gives the value, or ends in
the crash, of an evaluation without it. -/
theorem evaluateCached_eq_evaluate (mode : Mode) (capacity : Nat) (resolver : Resolver)
    (operations : List Operation) {compiled : Compiled} {context : Context}
    (expression :
      compiled ∈ ((start (.ofParts mode capacity resolver)).run operations).expressions)
    (member : context ∈ ((start (.ofParts mode capacity resolver)).run operations).contexts)
    (label : String) :
    (((start (.ofParts mode capacity resolver)).run operations).engine.evaluateCached
        compiled context label).1.map (·.frozen.value) =
      (context.evaluate resolver compiled.root).1 := by
  obtain ⟨meaning, sound⟩ := (sound_start mode capacity resolver).run operations
  have kept := resolver_run (start (.ofParts mode capacity resolver)) operations
  rw [sound.value_evaluateCached expression member label, kept]
  rfl

/-- A result that was cached while a variable was absent is not used once it is there. -/
theorem evaluateCached_eq_evaluate_after_set :
    let s := (start (.ofParts .strict 1 .standard)).run
      [.bring "a" (.named "a"), .enter .loose, .evaluateCached 0 0 "t", .clone 0,
        .set 1 "a" (.integer 2)]
    ∃ compiled ∈ s.expressions, ∃ context ∈ s.contexts,
      (s.engine.evaluateCached compiled context "t").1.map (·.frozen.value) =
        (context.evaluate .standard compiled.root).1 ∧
      (context.evaluate .standard compiled.root).1 = .ok (.integer 2) := by
  intro s
  have expression : s.expressions[0]? = some ⟨1, "a", .named "a"⟩ := rfl
  obtain ⟨context, found⟩ : ∃ context, s.contexts[1]? = some context := ⟨_, rfl⟩
  refine ⟨_, List.mem_of_getElem? expression, context, List.mem_of_getElem? found, ?_, ?_⟩
  · exact evaluateCached_eq_evaluate .strict 1 .standard _ (List.mem_of_getElem? expression)
      (List.mem_of_getElem? found) "t"
  · cases found
    rfl

end Session
end Tripwire
