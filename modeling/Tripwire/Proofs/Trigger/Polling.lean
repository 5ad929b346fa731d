import Tripwire.Proofs.Trigger.Cycle
import Tripwire.Proofs.Trigger.Verdict

/-!
Polling is isolated.

Each trigger of a cycle is judged as if it were the only one and nothing had
been cached, since what a check leaves behind is look-ups (`Follows`), and these
change no verdict.  So what a dispatcher reports of a trigger depends neither on
the other triggers nor on the caches.
-/

namespace Tripwire

universe u

variable {ν : Type u} {d : Deployment} {seat : Nat} {context : Context}

namespace Engines

/-- The same engines with nothing cached. -/
def emptied (engines : Engines) : Engines :=
  { engines with all := engines.all.map fun engine => engine.clearCompiled.clearCache }

theorem get_emptied (engines : Engines) (place : Nat) :
    engines.emptied.get place = (engines.get place).clearCompiled.clearCache := by
  simp only [get, emptied, List.getD_eq_getElem?_getD, List.getElem?_map]
  cases engines.all[place]? with
  | none => rfl
  | some engine => rfl

end Engines

/-- The deployment with nothing cached and with one context in the place of all others. -/
def Deployment.emptied (d : Deployment) (context : Context) : Deployment :=
  ⟨d.engines.emptied, d.expressions, [context], [], d.freshRules⟩

theorem Deployment.Seats.emptied (seats : d.Seats seat context) :
    (d.emptied context.snapshot.toContext).Seats 0 context.snapshot.toContext := by
  obtain ⟨meaning, sound⟩ := seats.consistent
  refine ⟨⟨meaning, fun place => ?_⟩, rfl⟩
  have known := (sound place).contexts context (List.mem_of_getElem? seats.seated)
  have old := sound place
  simp only [session, Deployment.emptied, Engines.get_emptied]
  refine ⟨old.standard, old.expressions, fun source compiled found => ?_, fun other member => ?_,
    fun _ member => absurd member List.not_mem_nil, Lru.all_clear _⟩
  · simp [Engine.clearCompiled, Engine.clearCache] at found
  · rw [List.mem_singleton.mp member]
    exact known

namespace Dispatcher

/-- Whether a check succeeds when nothing is cached, in a new context that has the variables,
mode and rules of the dispatcher. -/
def alone (dispatcher : Dispatcher ν) (trigger : Trigger ν) : Bool :=
  fires (trigger.check dispatcher.engines.emptied dispatcher.context.snapshot.toContext).1

/-- A dispatcher polls the context at a seat of a deployment, for conditions over its
expressions. -/
structure Seated (dispatcher : Dispatcher ν) (d : Deployment) (seat : Nat) : Prop where
  engines : dispatcher.engines = d.engines
  context : d.contexts[seat]? = some dispatcher.context
  triggers : ∀ trigger ∈ dispatcher.triggers, trigger.source.Watches d.expressions

/-- What a cycle leaves of a dispatcher whose triggers succeed as said. -/
structure Polled (judge : Trigger ν → Bool) (triggers : List (Trigger ν))
    (dispatcher after : Dispatcher ν) : Prop where
  /-- Variables, mode and rules are as before. -/
  snapshot : after.context.snapshot = dispatcher.context.snapshot
  /-- Every check is reported, with the variables as they are. -/
  journal : after.journal = dispatcher.journal.writeAll
    (triggers.map fun trigger => checkEntry trigger (judge trigger) dispatcher.context.bindings)
  /-- A bus that is heard sends these reports, one for each trigger under a number of its own. -/
  sent : ∀ bus, dispatcher.journal.bus = some bus → bus.Heard →
    after.journal.bus = some (bus.sentAll (Journal.numbered dispatcher.journal.next
      (triggers.map fun trigger => checkEntry trigger (judge trigger) dispatcher.context.bindings)))
  /-- Those that succeed are queued, each with the same snapshot. -/
  pool : after.pool = (triggers.filter judge).foldl (fun pool trigger =>
    (pool.submit .medium (.execution trigger dispatcher.context.snapshot)).2) dispatcher.pool
  triggers : after.triggers = dispatcher.triggers

variable {dispatcher after middle : Dispatcher ν} {judge : Trigger ν → Bool}
  {triggers : List (Trigger ν)} {trigger : Trigger ν}

/-- What a heard bus sends is what was written. -/
theorem Polled.of_written (snapshot : after.context.snapshot = dispatcher.context.snapshot)
    (written : after.journal = dispatcher.journal.writeAll
      (triggers.map fun trigger => checkEntry trigger (judge trigger) dispatcher.context.bindings))
    (queued : after.pool = (triggers.filter judge).foldl (fun pool trigger =>
      (pool.submit .medium (.execution trigger dispatcher.context.snapshot)).2) dispatcher.pool)
    (registered : after.triggers = dispatcher.triggers) :
    Polled judge triggers dispatcher after where
  snapshot := snapshot
  journal := written
  sent bus on heard := by
    rw [written]
    exact Journal.bus_writeAll on heard _
  pool := queued
  triggers := registered

theorem Polled.refl (judge : Trigger ν → Bool) (dispatcher : Dispatcher ν) :
    Polled judge [] dispatcher dispatcher := .of_written rfl rfl rfl rfl

theorem Polled.cons (first : Polled judge [trigger] dispatcher middle)
    (rest : Polled judge triggers middle after) :
    Polled judge (trigger :: triggers) dispatcher after := by
  have bindings : middle.context.bindings = dispatcher.context.bindings :=
    congrArg Snapshot.bindings first.snapshot
  refine .of_written (rest.snapshot.trans first.snapshot) ?_ ?_
    (rest.triggers.trans first.triggers)
  · rw [rest.journal, first.journal, bindings]
    rfl
  · rw [rest.pool, first.pool, first.snapshot, ← List.foldl_append, ← List.filter_append]
    rfl

theorem Polled.congr {other : Trigger ν → Bool} (polled : Polled judge triggers dispatcher after)
    (same : ∀ trigger ∈ triggers, judge trigger = other trigger) :
    Polled other triggers dispatcher after := by
  refine .of_written polled.snapshot ?_ ?_ polled.triggers
  · rw [polled.journal]
    congr 1
    exact List.map_congr_left fun trigger member => by rw [same trigger member]
  · rw [polled.pool, List.filter_congr same]

/-- The verdict of a trigger as a dispatcher takes it. -/
def succeeds (engines : Engines) (context : Context) (trigger : Trigger ν) : Bool :=
  fires (.guarded (trigger.source.verdict engines context))

/-- Alone and without caches a trigger comes to its verdict. -/
theorem alone_eq (engines : dispatcher.engines = d.engines)
    (seats : d.Seats seat dispatcher.context)
    (watches : trigger.source.Watches d.expressions) :
    dispatcher.alone trigger = succeeds d.engines dispatcher.context trigger := by
  obtain ⟨d', after, _, _, checked⟩ := trigger.check_deployed seats.emptied watches
  have resolver : ∀ place, (d.engines.emptied.get place).resolver =
      (d.engines.get place).resolver := by
    intro place
    rw [Engines.get_emptied]
    rfl
  have verdict : trigger.source.verdict d.engines.emptied dispatcher.context.snapshot.toContext =
      trigger.source.verdict d.engines dispatcher.context :=
    Check.verdict_of_resolvers resolver rfl trigger.source
  simp only [Deployment.emptied, verdict] at checked
  rw [alone, engines, checked, succeeds]

/-- The check of one trigger. -/
theorem pollOne_deployed (engines : dispatcher.engines = d.engines)
    (seats : d.Seats seat dispatcher.context)
    (watches : trigger.source.Watches d.expressions) :
    ∃ d', d.Follows seat d' ∧ (dispatcher.pollOne trigger).2.engines = d'.engines ∧
      d'.Seats seat (dispatcher.pollOne trigger).2.context ∧
      Polled (succeeds d.engines dispatcher.context) [trigger] dispatcher
        (dispatcher.pollOne trigger).2 := by
  obtain ⟨d', after, follows, seated, checked⟩ := trigger.check_deployed seats watches
  rw [← engines] at checked
  have snapshot : after.snapshot = dispatcher.context.snapshot := by
    have same := follows.snapshot
    rw [seats.seated, seated.seated] at same
    exact Option.some.inj same
  have bindings : after.bindings = dispatcher.context.bindings :=
    congrArg Snapshot.bindings snapshot
  rw [pollOne_eq checked]
  refine ⟨d', follows, rfl, seated, .of_written snapshot ?_ ?_ rfl⟩
  · simp only [bindings, engines]
    rfl
  · simp only [snapshot, engines, List.filter_cons, List.filter_nil, succeeds]
    by_cases fired : fires (.guarded (trigger.source.verdict d.engines dispatcher.context)) = true
    · simp only [fired, if_true, List.foldl_cons, List.foldl_nil]
    · simp only [fired, Bool.false_eq_true, if_false, List.foldl_nil]

/-- A cycle judges every trigger as it stands at the beginning. -/
theorem pollAll_deployed (triggers : List (Trigger ν)) (engines : dispatcher.engines = d.engines)
    (seats : d.Seats seat dispatcher.context)
    (watches : ∀ trigger ∈ triggers, trigger.source.Watches d.expressions) :
    ∃ d', d.Follows seat d' ∧ (dispatcher.pollAll triggers).2.engines = d'.engines ∧
      d'.Seats seat (dispatcher.pollAll triggers).2.context ∧
      Polled (succeeds d.engines dispatcher.context) triggers dispatcher
        (dispatcher.pollAll triggers).2 := by
  induction triggers generalizing dispatcher d with
  | nil => exact ⟨d, .refl seat d, engines, seats, .refl _ dispatcher⟩
  | cons trigger rest ih =>
    obtain ⟨d', follows, stepped, seated, first⟩ :=
      pollOne_deployed engines seats (watches trigger List.mem_cons_self)
    have later : ∀ trigger ∈ rest, trigger.source.Watches d'.expressions := by
      intro other member
      rw [follows.expressions]
      exact watches other (List.mem_cons_of_mem _ member)
    obtain ⟨d'', further, reached, held, others⟩ := ih stepped seated later
    have judges : ∀ other ∈ rest,
        succeeds d'.engines (dispatcher.pollOne trigger).2.context other =
          succeeds d.engines dispatcher.context other := by
      intro other _
      have scope := follows.scope seats.seated seated.seated
      rw [succeeds, Check.verdict_of_resolvers follows.resolver scope other.source, succeeds]
    exact ⟨d'', follows.trans further, reached, held, first.cons (others.congr judges)⟩

/-- Polling conditions is isolated.  Whatever was done before on any engine, a cycle leaves the
variables, mode and rules of the context, records every trigger with the success that it has
alone and without caches, and can be followed by another such cycle.  Triggers that ask the same
of engines that decide alike have the same success in any two dispatchers whose variables, mode
and rules are the same, whatever the other triggers and the caches. -/
theorem poll_isolated (operations : List Deployment.Operation) (seat : Nat)
    (dispatcher : Dispatcher ν) (seated : dispatcher.Seated (Deployment.start.run operations) seat) :
    Polled dispatcher.alone dispatcher.triggers dispatcher dispatcher.poll.2 ∧
    (∃ more, dispatcher.poll.2.Seated (Deployment.start.run (operations ++ more)) seat) ∧
    ∀ (others : List Deployment.Operation) (place : Nat) (other : Dispatcher ν),
      other.Seated (Deployment.start.run others) place →
      other.context.scope = dispatcher.context.scope →
      ∀ trigger ∈ dispatcher.triggers, ∀ asked ∈ other.triggers,
        trigger.source.Agrees dispatcher.engines other.engines asked.source →
        other.alone asked = dispatcher.alone trigger := by
  have consistent := Deployment.consistent_start.run operations
  have seats : (Deployment.start.run operations).Seats seat dispatcher.context :=
    ⟨consistent, seated.context⟩
  obtain ⟨d', follows, reached, held, polled⟩ :=
    pollAll_deployed dispatcher.triggers seated.engines seats seated.triggers
  have alone : ∀ trigger ∈ dispatcher.triggers,
      succeeds (Deployment.start.run operations).engines dispatcher.context trigger =
        dispatcher.alone trigger :=
    fun trigger member => (alone_eq seated.engines seats (seated.triggers trigger member)).symm
  refine ⟨polled.congr alone, ?again, ?others⟩
  case again =>
    obtain ⟨more, rfl⟩ := follows.run
    refine ⟨more, ?_⟩
    rw [Deployment.run_append]
    refine ⟨reached, held.seated, fun trigger member => ?_⟩
    rw [follows.expressions]
    exact seated.triggers trigger (polled.triggers ▸ member)
  case others =>
    intro others place other seatedOther scope trigger member asked memberOther agrees
    have seatsOther : (Deployment.start.run others).Seats place other.context :=
      ⟨Deployment.consistent_start.run others, seatedOther.context⟩
    rw [alone_eq seatedOther.engines seatsOther (seatedOther.triggers asked memberOther),
      ← alone trigger member, succeeds, succeeds, ← seatedOther.engines, ← seated.engines,
      Check.verdict_congr agrees scope]

/-- Two conditions on one engine, one of a text that is no expression, and a receiver that hears
of both. -/
theorem poll_isolated_of_malformed :
    let d := Deployment.start.run
      [.found .loose 1 .standard, .on 0 (.bring "a" (.named "a")),
        .on 0 (.bring "(" .constantFalse), .on 0 (.enter .loose), .on 0 (.set 0 "a" (.integer 2))]
    let triggers : List (Trigger Unit) :=
      [⟨"s", .condition ⟨0, ⟨1, "a", .named "a"⟩⟩, none⟩,
        ⟨"t", .condition ⟨0, ⟨2, "(", .constantFalse⟩⟩, none⟩]
    let bus := (Bus.new 4).subscribe.2
    bus.Heard ∧ ∃ context, d.contexts = [context] ∧
      let dispatcher : Dispatcher Unit := ⟨context, d.engines, triggers, .new 1, ⟨1, some bus⟩⟩
      Polled dispatcher.alone triggers dispatcher dispatcher.poll.2 ∧
        triggers.map dispatcher.alone = [true, false] ∧
        dispatcher.poll.2.journal.bus = some (bus.sentAll
          [⟨1, ⟨"EventDispatcher", "s", true, 0, .info, context.bindings⟩⟩,
            ⟨2, ⟨"EventDispatcher", "t", false, 0, .debug, context.bindings⟩⟩]) := by
  intro d triggers bus
  have heard : bus.Heard := ⟨nofun, nofun, Nat.zero_le _⟩
  refine ⟨heard, _, rfl, ?_⟩
  intro dispatcher
  have seated : dispatcher.Seated d 0 := by
    refine ⟨rfl, rfl, fun trigger member => ?_⟩
    rcases List.mem_pair.mp member with rfl | rfl
    · exact List.mem_cons_self
    · exact List.mem_cons_of_mem _ List.mem_cons_self
  have polled := (poll_isolated _ 0 dispatcher seated).1
  exact ⟨polled, rfl, polled.sent bus rfl heard⟩

end Dispatcher
end Tripwire
