import Tripwire.Proofs.Cache.Frozen
import Tripwire.Proofs.Cache.Lru
import Tripwire.Proofs.Cache.Retention
import Tripwire.Proofs.Engine.Contexts
import Tripwire.Proofs.Engine.Requests

/-!
An unchanged environment hits.

A result that an engine has just given stays in its cache as long as fewer
other keys are touched than there is room for and nobody clears the cache or
removes the result.  Evaluations under its key find it and leave it there,
provided that what it depends on is the same.
-/

namespace Tripwire

/-- What a result depends on is the same as in a context: in strict mode every variable, in loose
mode those that were read, of which an absent one counts as null. -/
def Frozen.Unchanged (frozen : Frozen) (context : Context) (live : NameMap Value) : Prop :=
  match context.mode with
  | .strict => live = context.bindings
  | .loose => ∀ name, frozen.dependencies.contains name = true →
      (live.get? name).getD .null = context.value name

namespace Frozen

/-- A result is up to date where it was captured. -/
theorem isOutdated_capture (value : Value) (context : Context) :
    (capture value context).isOutdated context.bindings = false := by
  cases mode : context.mode with
  | strict =>
    simp only [capture, mode]
    exact (isOutdated_strict_iff ..).mpr rfl
  | loose =>
    simp only [capture, mode]
    apply (isOutdated_loose_iff ..).mpr
    intro name frozen found
    simp only [Context.dependencies, NameMap.get?_mapValues, Option.map_eq_some_iff] at found
    obtain ⟨_, _, same⟩ := found
    exact same

/-- A result that is up to date stays so while what it depends on does not change. -/
theorem Unchanged.isOutdated {frozen : Frozen} {context : Context} {live : NameMap Value}
    (unchanged : frozen.Unchanged context live) (mode : frozen.mode = context.mode)
    (fresh : frozen.isOutdated context.bindings = false) : frozen.isOutdated live = false := by
  obtain ⟨value, dependencies, frozenMode⟩ := frozen
  simp only at mode
  subst mode
  cases strictness : context.mode with
  | strict =>
    simp only [Unchanged, strictness] at unchanged
    rw [unchanged, ← strictness]
    exact fresh
  | loose =>
    simp only [Unchanged, strictness] at unchanged
    rw [strictness, isOutdated_loose_iff] at fresh
    rw [isOutdated_loose_iff]
    intro name frozen found
    have known : dependencies.contains name = true := Option.isSome_iff_exists.mpr ⟨frozen, found⟩
    exact (unchanged name known).trans (fresh name frozen found)

end Frozen

namespace Engine

variable {engine : Engine} {compiled : Compiled} {context : Context} {label : String}

/-- A new result has the mode in which it was captured. -/
theorem mode_of_new {frozen : Frozen}
    (answered : (engine.evaluateCached compiled context label).1 = .ok ⟨frozen, false⟩) :
    frozen.mode = context.mode := by
  rcases engine.evaluateCached_outcomes compiled context label with
    ⟨found, _, _, hit⟩ | ⟨_, ⟨value, after, _, same, new⟩ | ⟨crash, after, _, _, crashed⟩⟩
  · rw [hit] at answered
    cases answered
  · rw [new] at answered
    cases answered
    exact (congrArg Context.mode same :)
  · rw [crashed] at answered
    cases answered

variable {recency : Recency Key Frozen}

theorem stored?_eq (reflects : engine.cache.Reflects recency) :
    engine.stored? compiled context = (recency.get (.ofContext compiled context)).1 :=
  (reflects.get _).1

theorem asked_reflects (reflects : engine.cache.Reflects recency) :
    (engine.asked compiled context).cache.Reflects
      (recency.get (.ofContext compiled context)).2 := (reflects.get _).2

/-- The result that an engine gives is up to date, and no other key was touched after its own. -/
theorem holds_of_answered {lookup : Lookup} (reflects : engine.cache.Reflects recency)
    (room : 0 < engine.cache.capacity)
    (modes : engine.cache.All fun key frozen => frozen.mode = key.mode)
    (answered : (engine.evaluateCached compiled context label).1 = .ok lookup) :
    lookup.frozen.mode = context.mode ∧ lookup.frozen.isOutdated context.bindings = false ∧
      ∃ recency', (engine.evaluateCached compiled context label).2.1.cache.Reflects recency' ∧
        recency'.Holds (.ofContext compiled context) lookup.frozen ∅ := by
  have asked : (engine.asked compiled context).cache.Reflects
      (recency.get (.ofContext compiled context)).2 := engine.asked_reflects reflects
  rcases engine.evaluateCached_outcomes compiled context label with
    ⟨found, stored, fresh, hit⟩ | ⟨_, ⟨value, after, _, same, new⟩ | ⟨crash, after, _, _, crashed⟩⟩
  · rw [hit] at answered ⊢
    cases answered
    refine ⟨modes.of_get stored, fresh, _, asked, ?_⟩
    rw [engine.stored?_eq reflects, Recency.get] at stored
    rw [Recency.get]
    split at stored
    next value present =>
      cases stored
      exact recency.holds_promote _ found
    next => cases stored
  · rw [new] at answered ⊢
    cases answered
    have bindings : after.bindings = context.bindings := (congrArg Context.bindings same :)
    refine ⟨(congrArg Context.mode same :), ?_, _, asked.put _ _, ?_⟩
    · rw [← bindings]
      exact Frozen.isOutdated_capture value after
    · apply (Recency.holds_promote _ _ _).newest
      rw [Finset.card_empty]
      exact Nat.lt_of_lt_of_eq room (engine.cache.capacity_serve (.get _)).symm
  · rw [crashed] at answered
    cases answered

/-- While a result is there and up to date it is the answer, and the context stays as it is. -/
theorem evaluateCached_of_holds {frozen : Frozen} {touched : Finset Key}
    (reflects : engine.cache.Reflects recency)
    (holds : recency.Holds (.ofContext compiled context) frozen touched)
    (fresh : frozen.isOutdated context.bindings = false) (label : String) :
    engine.evaluateCached compiled context label =
      (.ok ⟨frozen, true⟩,
        { engine.asked compiled context with stats := engine.stats.recordHit label }, context) := by
  have stored : engine.stored? compiled context = some frozen := by
    rw [engine.stored?_eq reflects, Recency.get, holds.get?]
  rcases engine.evaluateCached_outcomes compiled context label with
    ⟨found, again, _, hit⟩ | ⟨outdated, _⟩
  · rw [stored] at again
    cases again
    exact hit
  · rw [outdated frozen stored] at fresh
    cases fresh

end Engine

namespace Session

/-- A session that began with a new engine of any mode, capacity and resolver. -/
def Reachable (s : Session) : Prop :=
  ∃ mode capacity resolver operations,
    s = (start (.ofParts mode capacity resolver)).run operations

/-- Operations that leave the result of a key in place: they touch fewer other keys than there is
room for, neither clear the cache nor remove the key, and evaluate under the key only where the
variables are as they should be. -/
structure Spares (s : Session) (key : Key) (suits : NameMap Value → Prop)
    (traffic : List Operation) : Prop where
  few : (Request.otherKeys key (s.allRequests traffic)).card < s.engine.cache.capacity
  uncleared : .clearCache ∉ traffic
  unremoved : .evict key ∉ traffic
  evaluated : ∀ before expression place label after,
    traffic = before ++ .evaluateCached expression place label :: after →
    ∀ compiled context, (s.run before).expressions[expression]? = some compiled →
      (s.run before).contexts[place]? = some context →
      Key.ofContext compiled context = key → suits context.bindings

variable {s : Session} {key : Key} {frozen : Frozen} {recency : Recency Key Frozen}
  {touched : Finset Key}

theorem spares_of_requests {suits : NameMap Value → Prop} {operation : Operation}
    (reflects : s.engine.cache.Reflects recency) (holds : recency.Holds key frozen touched)
    (suiting : ∀ live, suits live → frozen.isOutdated live = false)
    (spares : s.Spares key suits [operation]) :
    ∀ request ∈ s.requests operation, request.Spares key := by
  intro request member
  cases operation with
  | clearCache => exact absurd List.mem_cons_self spares.uncleared
  | lookUp other =>
    cases List.mem_singleton.mp member
    trivial
  | evict other =>
    cases List.mem_singleton.mp member
    intro same
    exact spares.unremoved (same ▸ List.mem_cons_self)
  | evaluateCached expression place label =>
    simp only [requests] at member
    split at member
    next compiled context compiledAt contextAt =>
      rw [Engine.requests, List.mem_cons] at member
      rcases member with rfl | member
      · trivial
      split at member
      next stored answered =>
        cases List.mem_singleton.mp member
        -- Under the key itself the result would have been found.
        intro same
        have suited := spares.evaluated [] expression place label [] rfl compiled context
          compiledAt contextAt same
        subst same
        rw [Engine.evaluateCached_of_holds reflects holds (suiting _ suited)] at answered
        cases answered
      next => cases member
      next => cases member
    next => cases member
  | _ => cases member

theorem Spares.head {suits : NameMap Value → Prop} {operation : Operation}
    {rest : List Operation} (spares : s.Spares key suits (operation :: rest)) :
    s.Spares key suits [operation] where
  few := by
    apply Nat.lt_of_le_of_lt (Finset.card_le_card _) spares.few
    rw [allRequests, allRequests, allRequests, List.append_nil, Request.otherKeys_append]
    exact Finset.subset_union_left
  uncleared member := spares.uncleared (List.mem_cons.mpr (.inl (List.mem_singleton.mp member)))
  unremoved member := spares.unremoved (List.mem_cons.mpr (.inl (List.mem_singleton.mp member)))
  evaluated before expression place label after same := by
    apply spares.evaluated before expression place label (after ++ rest)
    rw [← List.singleton_append, same, List.append_assoc, List.cons_append]

theorem Spares.tail {suits : NameMap Value → Prop} {operation : Operation}
    {rest : List Operation} (spares : s.Spares key suits (operation :: rest)) :
    (s.step operation).Spares key suits rest where
  few := by
    rw [s.capacity_step operation]
    apply Nat.lt_of_le_of_lt (Finset.card_le_card _) spares.few
    rw [allRequests, Request.otherKeys_append]
    exact Finset.subset_union_right
  uncleared member := spares.uncleared (List.mem_cons_of_mem _ member)
  unremoved member := spares.unremoved (List.mem_cons_of_mem _ member)
  evaluated before expression place label after same := by
    apply spares.evaluated (operation :: before) expression place label after
    rw [same, List.cons_append]

/-- A result outlasts all operations that leave it in place. -/
theorem holds_run {suits : NameMap Value → Prop} {traffic : List Operation}
    (suiting : ∀ live, suits live → frozen.isOutdated live = false)
    (spares : s.Spares key suits traffic) (reflects : s.engine.cache.Reflects recency)
    (holds : recency.Holds key frozen touched)
    (room : (touched ∪ Request.otherKeys key (s.allRequests traffic)).card <
      s.engine.cache.capacity) :
    ∃ recency' touched', (s.run traffic).engine.cache.Reflects recency' ∧
      recency'.Holds key frozen touched' := by
  induction traffic generalizing s recency touched with
  | nil => exact ⟨recency, touched, reflects, holds⟩
  | cons operation rest ih =>
    have spared := spares_of_requests reflects holds suiting spares.head
    rw [allRequests, Request.otherKeys_append, ← Finset.union_assoc] at room
    have now := holds.serveAll (s.requests operation) spared
      (Nat.lt_of_le_of_lt (Finset.card_le_card Finset.subset_union_left) room)
    have same := (reflects.serveAll (s.requests operation)).2
    rw [← s.cache_step operation] at same
    apply ih spares.tail same now
    rwa [s.capacity_step operation]

theorem mode_of_put {operations : List Operation} {frozen : Frozen}
    (stored : .put key frozen ∈ s.allRequests operations) : frozen.mode = key.mode := by
  induction operations generalizing s with
  | nil => cases stored
  | cons operation rest ih =>
    rcases List.mem_append.mp stored with now | later
    · obtain ⟨expression, place, label, compiled, context, _, _, _, rfl, answered⟩ :=
        put_mem_requests now
      exact Engine.mode_of_new answered
    · exact ih later

theorem modes_run (mode : Mode) (capacity : Nat) (resolver : Resolver)
    (operations : List Operation) :
    ((start (.ofParts mode capacity resolver)).run operations).engine.cache.All
      fun key frozen => frozen.mode = key.mode := by
  rw [cache_run]
  apply Lru.All.serveAll
  · exact Lru.all_new capacity
  · intro key frozen stored
    exact mode_of_put stored

theorem engine_evaluateCached {expression place : Nat} {compiled : Compiled} {context : Context}
    (compiledAt : s.expressions[expression]? = some compiled)
    (contextAt : s.contexts[place]? = some context) (label : String) :
    (s.evaluateCached expression place label).engine =
      (s.engine.evaluateCached compiled context label).2.1 := by
  simp only [evaluateCached, compiledAt, contextAt]

/-- A result that was given is given again, and leaves the context as it is, as long as what it
depends on is unchanged and what was done in between has left it in place. -/
theorem evaluateCached_of_unchanged (reachable : s.Reachable) {expression place : Nat}
    {compiled : Compiled} {context : Context} {label : String} {lookup : Lookup}
    (compiledAt : s.expressions[expression]? = some compiled)
    (contextAt : s.contexts[place]? = some context)
    (answered : (s.engine.evaluateCached compiled context label).1 = .ok lookup)
    {traffic : List Operation}
    (spares : (s.evaluateCached expression place label).Spares (.ofContext compiled context)
      (lookup.frozen.Unchanged context) traffic)
    (kept : ∀ rules, .adopt place rules ∉ traffic) {later : Context}
    (laterAt : ((s.evaluateCached expression place label).run traffic).contexts[place]? = some later)
    (unchanged : lookup.frozen.Unchanged context later.bindings) (label' : String) :
    ∃ engine, ((s.evaluateCached expression place label).run traffic).engine.evaluateCached
      compiled later label' = (.ok ⟨lookup.frozen, true⟩, engine, later) := by
  obtain ⟨mode, capacity, resolver, operations, rfl⟩ := reachable
  obtain ⟨recency, reflects⟩ := reflects_run mode capacity resolver operations
  have room : 0 < ((start (.ofParts mode capacity resolver)).run operations).engine.cache.capacity := by
    rw [capacity_run]
    exact Nat.lt_of_lt_of_le Nat.zero_lt_one (Nat.le_max_right capacity 1)
  obtain ⟨modeSame, fresh, recency', reflects', holds⟩ := Engine.holds_of_answered reflects room
    (modes_run mode capacity resolver operations) answered
  rw [← engine_evaluateCached compiledAt contextAt] at reflects'
  have suiting : ∀ live, lookup.frozen.Unchanged context live →
      lookup.frozen.isOutdated live = false := fun live same => same.isOutdated modeSame fresh
  obtain ⟨last, touched, reflectsLast, holdsLast⟩ := holds_run suiting spares reflects' holds
    (by rw [Finset.empty_union]; exact spares.few)
  have sameKey : Key.ofContext compiled later = Key.ofContext compiled context := by
    have keptAll : ∀ rules, .adopt place rules ∉ .evaluateCached expression place label :: traffic := by
      intro rules member
      rcases List.mem_cons.mp member with same | member
      · cases same
      · exact kept rules member
    obtain ⟨found, foundAt, sameMode, sameRules⟩ := stays_run contextAt keptAll
    cases laterAt.symm.trans foundAt
    rw [Key.ofContext, Key.ofContext, sameMode, sameRules]
  rw [← sameKey] at holdsLast
  exact ⟨_, Engine.evaluateCached_of_holds reflectsLast holdsLast (suiting _ unchanged) label'⟩

/-- A result that hangs on a NaN is found again after an unrelated variable was set and another
expression was evaluated. -/
theorem evaluateCached_of_unchanged_nan :
    let s := (start (.ofParts .loose 2 .standard)).run
      [.bring "a" (.named "a"), .bring "b" (.named "b"), .enter .loose,
        .set 0 "a" (.float (.ofFloat (0 / 0)))]
    let later := (s.evaluateCached 0 0 "t").run
      [.set 0 "b" (.integer 1), .evaluateCached 1 0 "u"]
    ∃ compiled context frozen context' engine,
      s.expressions[0]? = some compiled ∧ s.contexts[0]? = some context ∧
      (s.engine.evaluateCached compiled context "t").1 = .ok ⟨frozen, false⟩ ∧
      frozen.dependencies.get? "a" = some (.float (.ofFloat (0 / 0))) ∧
      later.contexts[0]? = some context' ∧
      later.engine.evaluateCached compiled context' "v" =
        (.ok ⟨frozen, true⟩, engine, context') := by
  intro s later
  have reachable : s.Reachable := ⟨.loose, 2, .standard, _, rfl⟩
  have compiledAt : s.expressions[0]? = some ⟨1, "a", .named "a"⟩ := rfl
  obtain ⟨context, contextAt⟩ : ∃ context, s.contexts[0]? = some context := ⟨_, rfl⟩
  obtain ⟨context', laterAt⟩ : ∃ context', later.contexts[0]? = some context' := ⟨_, rfl⟩
  obtain ⟨frozen, answered, nan⟩ : ∃ frozen,
      (s.engine.evaluateCached ⟨1, "a", .named "a"⟩ context "t").1 = .ok ⟨frozen, false⟩ ∧
        frozen.dependencies.get? "a" = some (.float (.ofFloat (0 / 0))) := by
    cases contextAt
    exact ⟨_, rfl, rfl⟩
  have spares : (s.evaluateCached 0 0 "t").Spares (.ofContext ⟨1, "a", .named "a"⟩ context)
      (frozen.Unchanged context) [.set 0 "b" (.integer 1), .evaluateCached 1 0 "u"] := by
    constructor
    case few =>
      cases contextAt
      decide +kernel
    case uncleared => simp
    case unremoved => simp
    case evaluated =>
      intro before expression place label after same compiled other otherAt _ sameKey
      match before, same with
      | [_], same =>
        cases same
        cases otherAt
        cases congrArg Key.expression sameKey
      | _ :: _ :: _, same => simp at same
  have kept : ∀ rules, Operation.adopt 0 rules ∉
      [.set 0 "b" (.integer 1), .evaluateCached 1 0 "u"] := by
    intro rules
    simp
  have unchanged : frozen.Unchanged context context'.bindings := by
    cases contextAt
    cases answered
    cases laterAt
    intro name known
    by_cases same : name = "a"
    · subst same
      rfl
    · have absent :
          (if name = "a" then some (Value.float (.ofFloat (0 / 0))) else none).isSome = true := known
      simp [same] at absent
  obtain ⟨engine, hit⟩ := evaluateCached_of_unchanged reachable compiledAt contextAt answered
    spares kept laterAt unchanged "v"
  exact ⟨_, context, frozen, context', engine, compiledAt, contextAt, answered, nan, laterAt, hit⟩

end Session
end Tripwire
