import Tripwire.Proofs.Engine.Counters
import Tripwire.Proofs.Engine.Requests
import Tripwire.Proofs.Expr.Containment
import Tripwire.Proofs.Trigger.Escape

/-!
How far a composite looks.

Where the rules do not crash, every condition has a truth of its own, whatever is
cached, and the search ends at the first condition whose truth settles the whole
(`search_looked`).  What it leaves is what looking up the conditions until then
leaves.  `Engine.Served` and `Condition.LookedUp` tell what that is: each of them
composes, so that a single look-up is all there is to look at.
-/

namespace Tripwire

universe u v

/-- A store was asked for keys in order, and a key that had been asked for may have been given a
value before the next one. -/
inductive Asks {κ : Type u} {α : Type v} : List κ → List (Request κ α) → Prop
  | nothing : Asks [] []
  | found {key : κ} {keys : List κ} {requests : List (Request κ α)} :
      Asks keys requests → Asks (key :: keys) (.get key :: requests)
  | stored {key : κ} {value : α} {keys : List κ} {requests : List (Request κ α)} :
      Asks keys requests → Asks (key :: keys) (.get key :: .put key value :: requests)

theorem Asks.append {κ : Type u} {α : Type v} {keys more : List κ}
    {requests further : List (Request κ α)} (first : Asks keys requests)
    (second : Asks more further) : Asks (keys ++ more) (requests ++ further) := by
  induction first with
  | nothing => exact second
  | found _ ih => exact ih.found
  | stored _ ih => exact ih.stored

theorem Key.ofContext_of_snapshot {context after : Context}
    (same : after.snapshot = context.snapshot) (compiled : Compiled) :
    ofContext compiled after = ofContext compiled context := by
  have mode : after.mode = context.mode := congrArg Snapshot.mode same
  have rules : after.rulesId = context.rulesId := congrArg Snapshot.rulesId same
  rw [ofContext, ofContext, mode, rules]

/-- Under rules that do not crash every evaluation has a value. -/
theorem Context.exists_value_of_calm {context : Context} (calm : context.rules.Calm)
    (resolver : Resolver) (e : Expr) : ∃ value, (context.evaluate resolver e).1 = .ok value := by
  have rules : context.scope.rules.Calm := calm
  obtain ⟨value, outcome⟩ := e.exists_value_of_contained rules
  exact ⟨value, by rw [evaluate_of_value outcome]⟩

/-! ### Engines -/

namespace Stats

/-- How many look-ups returned under a label. -/
def lookUpsFor (stats : Stats) (label : String) : Nat :=
  stats.hitsFor label + stats.missesFor label

end Stats

namespace Engine

/-- An engine has answered look-ups of keys in order under a label. -/
structure Served (label : String) (keys : List Key) (engine later : Engine) : Prop where
  /-- Its cache was asked for these keys and for no others. -/
  asked : ∃ requests, Asks keys requests ∧ later.cache = (engine.cache.serveAll requests).2
  counted : later.stats.hits + later.stats.misses =
    engine.stats.hits + engine.stats.misses + keys.length
  labelled : later.stats.lookUpsFor label = engine.stats.lookUpsFor label + keys.length
  others : ∀ other, other ≠ label → later.stats.hitsFor other = engine.stats.hitsFor other ∧
    later.stats.missesFor other = engine.stats.missesFor other
  mode : later.mode = engine.mode
  resolver : later.resolver = engine.resolver
  compiled : later.compiled = engine.compiled

variable {label : String} {keys more : List Key} {engine middle later : Engine}

theorem Served.refl (label : String) (engine : Engine) : Served label [] engine engine where
  asked := ⟨[], .nothing, rfl⟩
  counted := rfl
  labelled := rfl
  others _ _ := ⟨rfl, rfl⟩
  mode := rfl
  resolver := rfl
  compiled := rfl

theorem Served.append (first : Served label keys engine middle)
    (second : Served label more middle later) : Served label (keys ++ more) engine later where
  asked := by
    obtain ⟨requests, asks, cache⟩ := first.asked
    obtain ⟨further, asksMore, cacheMore⟩ := second.asked
    refine ⟨requests ++ further, asks.append asksMore, ?_⟩
    rw [Lru.serveAll_append, ← cache, cacheMore]
  counted := by
    rw [second.counted, first.counted, List.length_append, Nat.add_assoc]
  labelled := by
    rw [second.labelled, first.labelled, List.length_append, Nat.add_assoc]
  others other apart :=
    ⟨(second.others other apart).1.trans (first.others other apart).1,
      (second.others other apart).2.trans (first.others other apart).2⟩
  mode := second.mode.trans first.mode
  resolver := second.resolver.trans first.resolver
  compiled := second.compiled.trans first.compiled

variable {context : Context}

theorem evaluateCached_of_calm (calm : context.rules.Calm) (engine : Engine)
    (compiled : Compiled) (label : String) :
    ∃ lookup, (engine.evaluateCached compiled context label).1 = .ok lookup := by
  rcases engine.evaluateCached_outcomes compiled context label with
    ⟨frozen, _, _, hit⟩ | ⟨_, ⟨value, after, _, _, new⟩ | ⟨crash, after, crashed, _, _⟩⟩
  · exact ⟨_, congrArg Prod.fst hit⟩
  · exact ⟨_, congrArg Prod.fst new⟩
  · obtain ⟨value, found⟩ := Context.exists_value_of_calm calm engine.resolver compiled.root
    rw [found] at crashed
    cases crashed

theorem asks_requests {compiled : Compiled} {lookup : Lookup}
    (returned : (engine.evaluateCached compiled context label).1 = .ok lookup) :
    Asks [.ofContext compiled context] (engine.requests compiled context label) := by
  obtain ⟨frozen, hit⟩ := lookup
  rw [requests, returned]
  cases hit with
  | true => exact .found .nothing
  | false => exact .stored .nothing

theorem context_refresh (engine : Engine) (compiled : Compiled) (context : Context)
    (label : String) :
    (engine.refresh compiled context label).2.2 =
      (context.clearReads.evaluate engine.resolver compiled.root).2 := by
  rcases engine.refresh_cases compiled context label with
    ⟨value, after, evaluated, refreshed⟩ | ⟨crash, after, evaluated, refreshed⟩
  · rw [refreshed, evaluated]
  · rw [refreshed, evaluated]

/-- What stands in the log after a look-up was there before or is a name of the expression. -/
theorem reads_evaluateCached {compiled : Compiled} {name : String}
    (logged : (engine.evaluateCached compiled context label).2.2.reads.contains name = true) :
    context.reads.contains name = true ∨ name ∈ compiled.root.names := by
  rcases engine.evaluateCached_cases compiled context label with ⟨frozen, _, _, hit⟩ | ⟨_, missed⟩
  · rw [hit] at logged
    exact .inl logged
  · rw [missed, context_refresh] at logged
    have bounded := (Context.local_evaluations engine.resolver compiled.root).1.bounded
    exact .inr ((compiled.root.mem_distinctNames name).mp (bounded context name logged))

theorem served_evaluateCached (calm : context.rules.Calm) (engine : Engine)
    (compiled : Compiled) (label : String) :
    Served label [.ofContext compiled context] engine
      (engine.evaluateCached compiled context label).2.1 := by
  have counted := engine.counted_evaluateCached compiled context label
  obtain ⟨mode, resolver, compiledSame⟩ := engine.frame_evaluateCached compiled context label
  obtain ⟨lookup, returned⟩ := engine.evaluateCached_of_calm calm compiled label
  have asks := asks_requests returned
  have once := counted.once
  rw [returned, Lookup.returned, if_pos rfl] at once
  refine ⟨⟨_, asks, engine.cache_evaluateCached compiled context label⟩, ?counted, ?labelled,
    ?others, mode, resolver, compiledSame⟩
  case counted =>
    rw [counted.hits, counted.misses, returned, List.length_singleton]
    omega
  case labelled =>
    rw [Stats.lookUpsFor, Stats.lookUpsFor, counted.hitsFor, counted.missesFor, returned,
      if_pos rfl, if_pos rfl, List.length_singleton]
    omega
  case others =>
    intro other apart
    rw [counted.hitsFor, counted.missesFor, if_neg apart, if_neg apart]
    exact ⟨rfl, rfl⟩

end Engine

namespace Engines

/-- How many look-ups returned under a label, on all engines together. -/
def lookUpsFor (engines : Engines) (label : String) : Nat :=
  (engines.all.map (·.stats.lookUpsFor label)).sum

theorem sum_map_set {α : Type u} (count : α → Nat) {all : List α} {place : Nat} {new old : α}
    (here : all[place]? = some old) :
    ((all.set place new).map count).sum + count old = (all.map count).sum + count new := by
  induction all generalizing place with
  | nil => simp at here
  | cons first rest ih =>
    cases place with
    | zero =>
      cases here
      simp only [List.set_cons_zero, List.map_cons, List.sum_cons]
      omega
    | succ place =>
      have later := ih (List.getElem?_cons_succ ▸ here)
      simp only [List.set_cons_succ, List.map_cons, List.sum_cons]
      omega

theorem lookUpsFor_set {engines : Engines} {place : Nat} (inside : place < engines.all.length)
    (engine : Engine) (label : String) :
    (engines.set place engine).lookUpsFor label + (engines.get place).stats.lookUpsFor label =
      engines.lookUpsFor label + engine.stats.lookUpsFor label := by
  have here : engines.all[place]? = some (engines.get place) := by
    rw [get, List.getD_eq_getElem?_getD, List.getElem?_eq_getElem inside, Option.getD_some]
  exact sum_map_set (·.stats.lookUpsFor label) here

end Engines

/-! ### Conditions -/

namespace Condition

variable {engines middle later : Engines} {context between after : Context} {label : String}
  {conditions more : List Condition}

/-- The truth of a condition by an evaluation without the cache, false where that crashes. -/
def truth (engines : Engines) (context : Context) (condition : Condition) : Bool :=
  match condition.verdict engines context with
  | .ok truth => truth
  | .error _ => false

theorem verdict_of_calm (calm : context.rules.Calm) (condition : Condition) (engines : Engines) :
    condition.verdict engines context = .ok (condition.truth engines context) := by
  suffices told : ∃ truth, condition.verdict engines context = .ok truth by
    obtain ⟨truth, verdict⟩ := told
    rw [Condition.truth, verdict]
  obtain ⟨value, found⟩ := Context.exists_value_of_calm calm
    (engines.get condition.engine).resolver condition.compiled.root
  simp only [verdict, found, truthOf]
  cases context.mode with
  | strict => exact ⟨_, rfl⟩
  | loose =>
    cases told : context.rules.toBoolean value with
    | ok truth => exact ⟨truth, rfl⟩
    | error crash => exact absurd told (calm.toBoolean value crash)

/-- What engines and a context become when the result of a condition is looked up. -/
def lookUp (label : String) (state : Engines × Context) (condition : Condition) :
    Engines × Context :=
  let answer := (state.1.get condition.engine).evaluateCached condition.compiled state.2 label
  (state.1.set condition.engine answer.2.1, answer.2.2)

/-- Whatever it comes to, a condition is one look-up. -/
theorem state_holds (condition : Condition) (engines : Engines) (context : Context)
    (label : String) :
    (condition.holds engines context label).2 = condition.lookUp label (engines, context) := by
  simp only [holds, tryEvaluate, lookUp]
  rcases answered : (engines.get condition.engine).evaluateCached condition.compiled context label
    with ⟨crash | lookup, engine, after⟩
  · rfl
  · cases told : truthOf engine after lookup.frozen.value <;> simp only [told, Attempt.guarded]

/-- The keys that conditions ask the engine at a place for, in order. -/
def keysAt (place : Nat) (context : Context) (conditions : List Condition) : List Key :=
  (conditions.filter (·.engine = place)).map (.ofContext ·.compiled context)

/-- What is left when conditions were looked up in order, and nothing else was done. -/
structure LookedUp (label : String) (conditions : List Condition) (engines : Engines)
    (context : Context) (later : Engines) (after : Context) : Prop where
  /-- Every engine was asked for the results of its own conditions. -/
  served : ∀ place, Engine.Served label (keysAt place context conditions) (engines.get place)
    (later.get place)
  counted : later.lookUpsFor label = engines.lookUpsFor label + conditions.length
  places : later.all.length = engines.all.length
  fresh : later.fresh = engines.fresh
  snapshot : after.snapshot = context.snapshot
  /-- A name in the log was there before or stands in one of the conditions. -/
  reads : ∀ name, after.reads.contains name = true →
    context.reads.contains name = true ∨
      ∃ condition ∈ conditions, name ∈ condition.compiled.root.names

namespace LookedUp

theorem refl (label : String) (engines : Engines) (context : Context) :
    LookedUp label [] engines context engines context where
  served _ := .refl label _
  counted := rfl
  places := rfl
  fresh := rfl
  snapshot := rfl
  reads _ := .inl

theorem append (first : LookedUp label conditions engines context middle between)
    (second : LookedUp label more middle between later after) :
    LookedUp label (conditions ++ more) engines context later after where
  served place := by
    have keys : keysAt place context (conditions ++ more) =
        keysAt place context conditions ++ keysAt place between more := by
      simp only [keysAt, List.filter_append, List.map_append,
        Key.ofContext_of_snapshot first.snapshot]
    rw [keys]
    exact (first.served place).append (second.served place)
  counted := by
    rw [second.counted, first.counted, List.length_append, Nat.add_assoc]
  places := second.places.trans first.places
  fresh := second.fresh.trans first.fresh
  snapshot := second.snapshot.trans first.snapshot
  reads := by
    intro name logged
    rcases second.reads name logged with earlier | ⟨condition, member, named⟩
    · rcases first.reads name earlier with before | ⟨condition, member, named⟩
      · exact .inl before
      · exact .inr ⟨condition, List.mem_append_left _ member, named⟩
    · exact .inr ⟨condition, List.mem_append_right _ member, named⟩

theorem single (calm : context.rules.Calm) {condition : Condition}
    (inside : condition.engine < engines.all.length) (label : String) :
    LookedUp label [condition] engines context (condition.lookUp label (engines, context)).1
      (condition.lookUp label (engines, context)).2 := by
  have served :=
    (engines.get condition.engine).served_evaluateCached calm condition.compiled label
  refine ⟨fun place => ?served, ?counted, List.length_set, rfl, ?snapshot, ?reads⟩
  case served =>
    by_cases here : condition.engine = place
    · subst here
      have keys : keysAt condition.engine context [condition] =
          [.ofContext condition.compiled context] := by
        simp only [keysAt, decide_true, List.filter_cons_of_pos, List.filter_nil, List.map_cons,
          List.map_nil]
      rw [keys, lookUp, engines.get_set_self inside]
      exact served
    · have keys : keysAt place context [condition] = [] := by
        simp only [keysAt, here, decide_false, Bool.false_eq_true, not_false_eq_true,
          List.filter_cons_of_neg, List.filter_nil, List.map_nil]
      rw [keys, lookUp, engines.get_set_of_ne (Ne.symm here)]
      exact .refl label _
  case counted =>
    have sum := Engines.lookUpsFor_set inside
      ((engines.get condition.engine).evaluateCached condition.compiled context label).2.1 label
    rw [served.labelled] at sum
    simp only [lookUp, List.length_singleton] at sum ⊢
    omega
  case snapshot =>
    exact (engines.get condition.engine).snapshot_evaluateCached condition.compiled context label
  case reads =>
    intro name logged
    exact (Engine.reads_evaluateCached logged).imp_right fun named =>
      ⟨condition, List.mem_singleton_self condition, named⟩

end LookedUp

theorem lookedUp_foldl (calm : context.rules.Calm)
    (inside : ∀ condition ∈ conditions, condition.engine < engines.all.length) (label : String) :
    let state := conditions.foldl (lookUp label) (engines, context)
    LookedUp label conditions engines context state.1 state.2 := by
  induction conditions generalizing engines context with
  | nil => exact .refl label engines context
  | cons first rest ih =>
    have one := LookedUp.single calm (inside first List.mem_cons_self) label
    have rules : (first.lookUp label (engines, context)).2.rules = context.rules :=
      congrArg Snapshot.rules one.snapshot
    refine one.append (ih (rules ▸ calm) fun condition member => ?_)
    rw [one.places]
    exact inside condition (List.mem_cons_of_mem _ member)

theorem truth_congr (resolver : ∀ place, (later.get place).resolver = (engines.get place).resolver)
    (scope : after.scope = context.scope) (condition : Condition) :
    condition.truth later after = condition.truth engines context := by
  have agrees : Agrees engines later condition condition :=
    ⟨rfl, (resolver condition.engine).symm⟩
  rw [Condition.truth, verdict_congr agrees scope, Condition.truth]

end Condition

/-! ### Composites -/

namespace Composite

/-- The conditions up to the first one that settles the whole, all of them if none does. -/
def upTo (settles : Condition → Bool) (conditions : List Condition) : List Condition :=
  conditions.take (conditions.findIdx settles + 1)

theorem upTo_cons (settles : Condition → Bool) (first : Condition) (rest : List Condition) :
    upTo settles (first :: rest) = first :: if settles first then [] else upTo settles rest := by
  cases settled : settles first with
  | true => simp [upTo, List.findIdx_cons, settled]
  | false => simp [upTo, List.findIdx_cons, settled]

/-- The conditions that have to be looked at. -/
def looked (composite : Composite) (engines : Engines) (context : Context) : List Condition :=
  upTo (fun condition => condition.truth engines context = composite.combinator.decisive)
    composite.conditions

variable {d : Deployment} {seat : Nat} {context : Context}

/-- A search settles by the truths of the conditions, and it looks up the conditions until one
of them is decisive. -/
theorem search_looked (calm : context.rules.Calm) (seats : d.Seats seat context)
    (decisive : Bool) (label : String) {conditions : List Condition}
    (known : ∀ condition ∈ conditions, condition.compiled ∈ d.expressions) :
    let truth := Condition.truth d.engines context
    search decisive label conditions d.engines context =
      (.ok (if decisive ∈ conditions.map truth then decisive else !decisive),
        (upTo (fun condition => truth condition = decisive) conditions).foldl
          (Condition.lookUp label) (d.engines, context)) := by
  induction conditions generalizing d context with
  | nil => rfl
  | cons first rest ih =>
    obtain ⟨d', after, follows, seated, held⟩ :=
      first.holds_deployed seats (known first List.mem_cons_self) label
    have state := first.state_holds d.engines context label
    rw [held] at state
    have scope := follows.scope seats.seated seated.seated
    have truth : Condition.truth d'.engines after = Condition.truth d.engines context :=
      funext (Condition.truth_congr follows.resolver scope)
    have rules : after.rules = context.rules := congrArg Scope.rules scope
    have further := ih (rules ▸ calm) seated fun condition member => by
      rw [follows.expressions]
      exact known condition (List.mem_cons_of_mem _ member)
    rw [truth] at further
    simp only [search, held, first.verdict_of_calm calm, upTo_cons, List.foldl_cons, ← state,
      List.map_cons, List.mem_cons]
    by_cases decided : first.truth d.engines context = decisive
    · simp only [decided, decide_true, if_true, true_or, List.foldl_nil]
    · simp only [decided, decide_false, Bool.false_eq_true, if_false, Ne.symm decided, false_or,
        further]

/-- A composite holds by the truths of its conditions, and looks up those that it needs. -/
theorem holds_looked (calm : context.rules.Calm) (seats : d.Seats seat context)
    (label : String) {composite : Composite}
    (known : ∀ condition ∈ composite.conditions, condition.compiled ∈ d.expressions) :
    composite.holds d.engines context label =
      (.ok (composite.combinator.join (composite.conditions.map (·.truth d.engines context))),
        (composite.looked d.engines context).foldl (Condition.lookUp label)
          (d.engines, context)) := by
  obtain ⟨combinator, conditions⟩ := composite
  rw [holds]
  cases conditions with
  | nil => cases combinator <;> rfl
  | cons first rest =>
    have filled : (first :: rest).map (·.truth d.engines context) ≠ [] := List.cons_ne_nil _ _
    rw [List.isEmpty_cons, if_neg Bool.false_ne_true, search_looked calm seats _ label known,
      combinator.join_eq filled]
    rfl

/-- Under rules that do not crash, and whatever was done on the engines before, a composite is
the conjunction or disjunction of the truths that its conditions have alone, and false without
conditions.  It looks up its conditions in order up to the first decisive one, and nothing else:
engines and context become what these look-ups make of them, each of which is counted once. -/
theorem looks_no_further (operations : List Deployment.Operation) (seat : Nat) (context : Context)
    (composite : Composite) (label : String) :
    let d := Deployment.start.run operations
    let truth := Condition.truth d.engines context
    let looked := composite.looked d.engines context
    d.contexts[seat]? = some context →
    context.rules.Calm →
    (∀ condition ∈ composite.conditions,
      condition.compiled ∈ d.expressions ∧ condition.engine < d.engines.all.length) →
    (∀ condition ∈ composite.conditions, ∀ other,
      (condition.holds d.engines context other).1 = .ok (truth condition)) ∧
    ∃ later after,
      composite.holds d.engines context label =
        (.ok (composite.combinator.join (composite.conditions.map truth)), later, after) ∧
      (later, after) = looked.foldl (Condition.lookUp label) (d.engines, context) ∧
      Condition.LookedUp label looked d.engines context later after := by
  intro d truth looked seated calm made
  have seats : d.Seats seat context := ⟨Deployment.consistent_start.run operations, seated⟩
  constructor
  · intro condition member other
    obtain ⟨d', after, _, _, held⟩ := condition.holds_deployed seats (made condition member).1 other
    rw [held]
    exact condition.verdict_of_calm calm d.engines
  · have inside : ∀ condition ∈ looked, condition.engine < d.engines.all.length :=
      fun condition member => (made condition (List.mem_of_mem_take member)).2
    have left := Condition.lookedUp_foldl calm inside label
    exact ⟨_, _, holds_looked calm seats label fun condition member => (made condition member).1,
      rfl, left⟩

/-- The second of three conditions on two engines decides, and the third one is passed over. -/
theorem looks_no_further_than_second :
    let d := Deployment.start.run
      [.found .strict 2 .standard, .found .strict 2 .standard, .on 0 (.bring "a" (.named "a")),
        .on 1 (.bring "b" (.named "b")), .on 0 (.bring "c" (.named "c")), .on 0 (.enter .strict),
        .on 0 (.set 0 "a" (.integer 0)), .on 0 (.set 0 "b" (.integer 2))]
    let first : Condition := ⟨0, 1, "a", .named "a"⟩
    let second : Condition := ⟨1, 2, "b", .named "b"⟩
    let third : Condition := ⟨0, 3, "c", .named "c"⟩
    ∃ context later after, d.contexts[0]? = some context ∧
      Composite.holds ⟨.any, [first, second, third]⟩ d.engines context "t" =
        (.ok true, later, after) ∧
      Condition.LookedUp "t" [first, second] d.engines context later after := by
  intro d first second third
  obtain ⟨context, seated⟩ : ∃ context, d.contexts[0]? = some context := ⟨_, rfl⟩
  have made : ∀ condition ∈ [first, second, third],
      condition.compiled ∈ d.expressions ∧ condition.engine < d.engines.all.length := by
    have expressions : d.expressions = [first, second, third].map (·.compiled) := rfl
    have places : d.engines.all.length = 2 := rfl
    intro condition member
    rw [expressions, places]
    refine ⟨List.mem_map_of_mem member, ?_⟩
    simp only [List.mem_cons, List.not_mem_nil, or_false] at member
    rcases member with rfl | rfl | rfl <;> decide
  have calm : context.rules.Calm := by
    cases seated
    exact Rules.calm_standard
  obtain ⟨_, later, after, held, _, left⟩ :=
    looks_no_further _ 0 context ⟨.any, [first, second, third]⟩ "t" seated calm made
  refine ⟨context, later, after, seated, ?_, ?_⟩
  · rw [held]
    cases seated
    rfl
  · cases seated
    exact left

end Composite
end Tripwire
