import Tripwire.Proofs.Engine.Naming
import Tripwire.Proofs.NameMap

/-!
When two handles of compiled texts are one.

A handle stays known to its engine until the compiled texts of that engine are
cleared, and then its identity is never known again (`known_or_lost`).  So equal
identities tell that engine and text are the same and that nothing was cleared in
between, and the texts that an engine knows are those compiled since.
-/

namespace Tripwire.Deployment

variable {d : Deployment} {place : Nat} {source : String} {compiled : Compiled}

/-! ### Engines at their places -/

theorem engine_found (mode : Mode) (capacity : Nat) (resolver : Resolver)
    (inside : place < d.engines.all.length) :
    (d.step (.found mode capacity resolver)).engines.get place = d.engines.get place :=
  d.engines.get_add_of_lt _ inside

theorem engine_on_self (operation : Session.Operation) (inside : place < d.engines.all.length) :
    (d.step (.on place operation)).engines.get place =
      ((d.session place).step operation).engine :=
  d.engines.get_set_self inside _

theorem engine_on_of_ne {home : Nat} (apart : place ≠ home) (operation : Session.Operation) :
    (d.step (.on home operation)).engines.get place = d.engines.get place :=
  d.engines.get_set_of_ne apart _

theorem places_step (d : Deployment) (operation : Operation) :
    d.engines.all.length ≤ (d.step operation).engines.all.length := by
  cases operation with
  | found mode capacity resolver =>
    exact Nat.le_of_lt (by simp [step, Engines.add])
  | on home operation =>
    exact Nat.le_of_eq (by simp [step, withSession, Engines.set])

/-! ### What an engine knows -/

/-- What an operation does to the compiled texts of the engine at a place. -/
inductive Learns (d d' : Deployment) (place : Nat) (operation : Operation) : Prop
  | none :
      (∀ source, operation = .on place (.compile source) →
        ∃ compiled, d.Knows place source compiled) →
      (d'.engines.get place).compiled = (d.engines.get place).compiled → Learns d d' place operation
  | new {source : String} :
      operation = .on place (.compile source) →
      (∀ compiled, ¬d.Knows place source compiled) →
      (d'.engines.get place).compiled =
        (d.engines.get place).compiled.insert source (.ofSource source d.engines.fresh) →
      Learns d d' place operation
  | cleared :
      operation = .on place .clearCompiled →
      (d'.engines.get place).compiled = .empty → Learns d d' place operation

theorem learns_step (inside : place < d.engines.all.length) (operation : Operation) :
    Learns d (d.step operation) place operation := by
  cases operation with
  | found mode capacity resolver =>
    refine .none (fun source compiles => ?_)
      (congrArg Engine.compiled (engine_found mode capacity resolver inside))
    cases compiles
  | on home operation =>
    by_cases here : home = place
    · subst here
      have stepped := congrArg Engine.compiled (engine_on_self operation inside)
      cases (d.session home).names_step operation with
      | known found _ same _ =>
        refine .none (fun source compiles => ?_) (stepped.trans same)
        cases compiles
        exact ⟨_, found⟩
      | new found _ inserted _ =>
        exact .new rfl (fun _ knows => knows.ne_none found) (stepped.trans inserted)
      | brought _ same _ =>
        refine .none (fun source compiles => ?_) (stepped.trans same)
        cases compiles
      | cleared _ emptied _ => exact .cleared rfl (stepped.trans emptied)
      | other _ never _ same _ =>
        refine .none (fun source compiles => ?_) (stepped.trans same)
        cases compiles
        exact absurd rfl (never source)
    · refine .none (fun source compiles => ?_)
        (congrArg Engine.compiled (engine_on_of_ne (Ne.symm here) operation))
      cases compiles
      exact absurd rfl here

theorem Knows.step (knows : d.Knows place source compiled) {operation : Operation}
    (kept : operation ≠ .on place .clearCompiled) :
    (d.step operation).Knows place source compiled := by
  cases learns_step knows.inside operation with
  | none _ same =>
    rw [Knows, same]
    exact knows
  | @new text _ unknown inserted =>
    have apart : source ≠ text := by
      rintro rfl
      exact unknown compiled knows
    rw [Knows, inserted, NameMap.get?_insert, if_neg apart]
    exact knows
  | cleared clears => exact absurd clears kept

/-- An identity was drawn and is known to no engine. -/
def Lost (d : Deployment) (id : Nat) : Prop :=
  id < d.engines.fresh ∧ ∀ place source compiled, d.Knows place source compiled → compiled.id ≠ id

theorem Lost.step {id : Nat} (lost : d.Lost id) (operation : Operation) :
    (d.step operation).Lost id := by
  obtain ⟨old, unknown⟩ := lost
  cases d.names_step operation with
  | none repeated repeats expressions fresh knows =>
    exact ⟨fresh ▸ old, fun place source compiled known => unknown _ _ _ (knows _ _ _ known)⟩
  | new drawn home identity expressions fresh knows =>
    refine ⟨fresh ▸ Nat.lt_succ_of_lt old, fun place source compiled known => ?_⟩
    rcases knows place source compiled known with before | ⟨_, rfl, _⟩
    · exact unknown _ _ _ before
    · exact identity ▸ Nat.ne_of_gt old

theorem Lost.run {id : Nat} (lost : d.Lost id) (operations : List Operation) :
    (d.run operations).Lost id := by
  induction operations generalizing d with
  | nil => exact lost
  | cons operation rest ih => exact ih (lost.step operation)

/-- Clearing the compiled texts of an engine forgets what it knows for good. -/
theorem Knows.lost (knows : d.Knows place source compiled) (told : d.Told) :
    (d.step (.on place .clearCompiled)).Lost compiled.id := by
  have inside := knows.inside
  have member := (told.known place source compiled knows).1
  refine ⟨told.drawn compiled member, fun other text later known same => ?_⟩
  by_cases here : other = place
  · subst here
    rw [Knows, engine_on_self .clearCompiled inside] at known
    cases known
  · rw [Knows, engine_on_of_ne here] at known
    have equal := told.same later (told.known other text later known).1 compiled member same
    exact here (told.apart other text place source compiled (equal ▸ known) knows)

/-- A handle is known until the compiled texts of its engine are cleared, and lost from then on. -/
theorem known_or_lost (knows : d.Knows place source compiled) (told : d.Told)
    (operations : List Operation) :
    (d.run operations).Knows place source compiled ∧ .on place .clearCompiled ∉ operations ∨
      (d.run operations).Lost compiled.id ∧ .on place .clearCompiled ∈ operations := by
  induction operations generalizing d with
  | nil => exact .inl ⟨knows, List.not_mem_nil⟩
  | cons operation rest ih =>
    by_cases clears : operation = .on place .clearCompiled
    · subst clears
      exact .inr ⟨(knows.lost told).run rest, List.mem_cons_self⟩
    · simp only [List.mem_cons, not_or]
      rcases ih (knows.step clears) (told.step operation) with ⟨known, never⟩ | ⟨lost, cleared⟩
      · exact .inl ⟨known, Ne.symm clears, never⟩
      · exact .inr ⟨lost, .inr cleared⟩

/-! ### Compiling -/

theorem compile_of_knows (knows : d.Knows place source compiled) :
    (d.engines.compile place source).1 = compiled := by
  simp only [Engines.compile, Engine.compile]
  rw [show (d.engines.get place).compiled.get? source = some compiled from knows]

theorem compile_of_unknown (unknown : ∀ compiled, ¬d.Knows place source compiled) :
    (d.engines.compile place source).1 = .ofSource source d.engines.fresh := by
  have none : (d.engines.get place).compiled.get? source = none :=
    Option.eq_none_iff_forall_ne_some.mpr unknown
  simp only [Engines.compile, Engine.compile, none]

/-- The compiled form of a text is known, or it is new. -/
theorem compile_cases (d : Deployment) (place : Nat) (source : String) :
    d.Knows place source (d.engines.compile place source).1 ∨
      (d.engines.compile place source).1 = .ofSource source d.engines.fresh := by
  by_cases known : ∃ compiled, d.Knows place source compiled
  · obtain ⟨compiled, knows⟩ := known
    exact .inl ((compile_of_knows knows).symm ▸ knows)
  · exact .inr (compile_of_unknown (not_exists.mp known))

/-- An engine knows what it has compiled. -/
theorem knows_compile (source : String) (inside : place < d.engines.all.length) :
    (d.step (.on place (.compile source))).Knows place source
      (d.engines.compile place source).1 := by
  cases learns_step inside (.on place (.compile source)) with
  | none known same =>
    obtain ⟨compiled, knows⟩ := known source rfl
    rw [compile_of_knows knows, Knows, same]
    exact knows
  | new compiles unknown inserted =>
    cases compiles
    rw [Knows, inserted, NameMap.get?_insert, if_pos rfl, compile_of_unknown unknown]
  | cleared clears => cases clears

/-- What a text is compiled to is its tree, or constantly false. -/
theorem root_compile (told : d.Told) (place : Nat) (source : String) :
    (d.engines.compile place source).1.root = Compiled.rootOf source := by
  rcases d.compile_cases place source with knows | new
  · rw [(told.known place source _ knows).2]
    rfl
  · rw [new]
    rfl

/-- A lost identity is not given again. -/
theorem Lost.id_compile_ne {id : Nat} (lost : d.Lost id) (place : Nat) (source : String) :
    id ≠ (d.engines.compile place source).1.id := by
  rcases d.compile_cases place source with knows | new
  · exact (lost.2 place source _ knows).symm
  · rw [new]
    exact Nat.ne_of_lt lost.1

/-- The identity of a known expression is given for its text by its engine only. -/
theorem Knows.id_compile_iff (knows : d.Knows place source compiled) (told : d.Told) (other : Nat)
    (text : String) :
    compiled.id = (d.engines.compile other text).1.id ↔ place = other ∧ source = text := by
  obtain ⟨member, ofSource⟩ := told.known place source compiled knows
  constructor
  · intro same
    rcases d.compile_cases other text with knowsOther | new
    · obtain ⟨memberOther, ofText⟩ := told.known other text _ knowsOther
      have equal := told.same compiled member _ memberOther same
      rw [← equal] at knowsOther ofText
      exact ⟨told.apart place source other text compiled knows knowsOther,
        congrArg Compiled.source (ofSource.symm.trans ofText)⟩
    · rw [new] at same
      exact absurd same (Nat.ne_of_lt (told.drawn compiled member))
  · rintro ⟨rfl, rfl⟩
    rw [compile_of_knows knows]

/-- Two handles have one identity exactly if engine and text are the same and nothing was cleared
in between. -/
theorem id_compile_iff (told : d.Told) (inside : place < d.engines.all.length) (source : String)
    (middle : List Operation) (other : Nat) (text : String) :
    let later := (d.step (.on place (.compile source))).run middle
    (d.engines.compile place source).1.id = (later.engines.compile other text).1.id ↔
      place = other ∧ source = text ∧ .on place .clearCompiled ∉ middle := by
  intro later
  have toldLater : later.Told := (told.step _).run middle
  rcases known_or_lost (knows_compile source inside) (told.step _) middle with
    ⟨knows, never⟩ | ⟨lost, cleared⟩
  · rw [knows.id_compile_iff toldLater, and_iff_left never]
  · exact iff_of_false (lost.id_compile_ne other text) fun same => same.2.2 cleared

/-! ### Counting -/

/-- The text that an operation compiles on the engine at a place. -/
def compiledText? (place : Nat) : Operation → Option String
  | .on home (.compile source) => if home = place then some source else none
  | _ => none

theorem compiledText?_eq_some {operation : Operation} :
    compiledText? place operation = some source ↔ operation = .on place (.compile source) := by
  constructor
  · intro text
    unfold compiledText? at text
    split at text
    next home other =>
      obtain ⟨here, same⟩ := Option.ite_none_right_eq_some.mp text
      rw [here, Option.some.inj same]
    next => cases text
  · rintro rfl
    exact if_pos rfl

/-- The texts that operations compile on the engine at a place. -/
def compiledTexts (place : Nat) (operations : List Operation) : List String :=
  operations.filterMap (compiledText? place)

/-- Unless it is cleared, an engine gets to know what it compiles and nothing else. -/
theorem knows_step_iff (inside : place < d.engines.all.length) {operation : Operation}
    (kept : operation ≠ .on place .clearCompiled) (source : String) :
    (∃ compiled, (d.step operation).Knows place source compiled) ↔
      (∃ compiled, d.Knows place source compiled) ∨
        compiledText? place operation = some source := by
  rw [compiledText?_eq_some]
  simp only [Knows]
  cases learns_step inside operation with
  | none known same =>
    rw [same]
    exact (or_iff_left_of_imp (known source)).symm
  | @new text compiles _ inserted =>
    rw [inserted, NameMap.get?_insert]
    split
    next same => exact iff_of_true ⟨_, rfl⟩ (.inr (same ▸ compiles))
    next apart =>
      refine (or_iff_left fun other => apart ?_).symm
      cases compiles.symm.trans other
      rfl
  | cleared clears => exact absurd clears kept

theorem knows_run_iff (inside : place < d.engines.all.length) {operations : List Operation}
    (kept : .on place .clearCompiled ∉ operations) (source : String) :
    (∃ compiled, (d.run operations).Knows place source compiled) ↔
      (∃ compiled, d.Knows place source compiled) ∨ source ∈ compiledTexts place operations := by
  induction operations generalizing d with
  | nil => exact (or_iff_left List.not_mem_nil).symm
  | cons operation rest ih =>
    rw [List.mem_cons, not_or] at kept
    have later := ih (Nat.lt_of_lt_of_le inside (d.places_step operation)) kept.2
    have first := knows_step_iff inside (Ne.symm kept.1) source
    have texts : source ∈ compiledTexts place (operation :: rest) ↔
        compiledText? place operation = some source ∨ source ∈ compiledTexts place rest := by
      simp only [compiledTexts, List.mem_filterMap, List.mem_cons, exists_eq_or_imp]
    rw [texts, ← or_assoc, ← first]
    exact later

/-- After an operation the engine at a place knows nothing: it was just made, or cleared. -/
def Renews (d : Deployment) (place : Nat) : Operation → Prop
  | .found _ _ _ => place = d.engines.all.length
  | .on home .clearCompiled => home = place ∧ place < d.engines.all.length
  | _ => False

theorem Renews.step {renewal : Operation} (renews : d.Renews place renewal) :
    place < (d.step renewal).engines.all.length ∧
      ∀ source compiled, ¬(d.step renewal).Knows place source compiled := by
  unfold Renews at renews
  split at renews
  next mode capacity resolver =>
    subst renews
    refine ⟨by simp [step, Engines.add], fun source compiled knows => ?_⟩
    simp [Knows, step, Engines.get, Engines.add, Engine.ofParts] at knows
  next home =>
    obtain ⟨rfl, inside⟩ := renews
    refine ⟨Nat.lt_of_lt_of_le inside (d.places_step _), fun source compiled knows => ?_⟩
    rw [Knows, engine_on_self .clearCompiled inside] at knows
    cases knows
  next => exact renews.elim

/-- An engine counts the different texts that it compiled since it was made or cleared. -/
theorem compiledCount_run {renewal : Operation} (renews : d.Renews place renewal)
    {operations : List Operation} (kept : .on place .clearCompiled ∉ operations) :
    (((d.step renewal).run operations).engines.get place).compiledCount =
      (compiledTexts place operations).dedup.length := by
  obtain ⟨inside, unknown⟩ := renews.step
  refine NameMap.size_eq_of_names fun source => ?_
  have none : ¬∃ compiled, (d.step renewal).Knows place source compiled :=
    not_exists.mpr (unknown source)
  exact (knows_run_iff inside kept source).trans (or_iff_right none)

end Tripwire.Deployment
