import Tripwire.Proofs.Engine.Identity
import Tripwire.Proofs.Engine.Requests

/-!
Where cached results come from.

Every result in the cache of an engine was stored by an earlier look-up on this
engine (`storedBy_run`).  It is found under the identity of the handle that it was
stored for, and this is the only handle with the identity, so a cache that knows
neither texts nor trees mistakes none for another.
-/

namespace Tripwire

namespace Deployment

/-- What is asserted of all results in a cache still holds after a step, if it holds of what the
step stores. -/
theorem cache_step {P : Key → Frozen → Prop} {d : Deployment} {place : Nat}
    (holds : (d.engines.get place).cache.All P) {operation : Operation}
    (added : ∀ asked, operation = .on place asked → ∀ key frozen,
      .put key frozen ∈ (d.session place).requests asked → P key frozen) :
    ((d.step operation).engines.get place).cache.All P := by
  cases operation with
  | found mode capacity resolver =>
    rw [step]
    rcases d.engines.get_add (.ofParts mode capacity resolver) place with new | kept
    · rw [new]
      exact Lru.all_new capacity
    · rw [kept]
      exact holds
  | on home asked =>
    rw [step]
    rcases d.engine_withSession home place ((d.session home).step asked) with
      ⟨stepped, rfl⟩ | kept
    · rw [stepped, Session.cache_step]
      exact holds.serveAll _ (added asked rfl)
    · rw [kept]
      exact holds

/-- In a run a look-up through a handle stored a result on the engine at a place. -/
def StoredBy (operations : List Operation) (place : Nat) (compiled : Compiled) (key : Key)
    (frozen : Frozen) : Prop :=
  ∃ before expression seat label after context,
    operations = before ++ .on place (.evaluateCached expression seat label) :: after ∧
    (start.run before).expressions[expression]? = some compiled ∧
    (start.run before).contexts[seat]? = some context ∧
    key = .ofContext compiled context ∧
    (((start.run before).engines.get place).evaluateCached compiled context label).1 =
      .ok ⟨frozen, false⟩

/-- Every cached result was stored through some handle. -/
theorem storedBy_run (operations : List Operation) (place : Nat) :
    ((start.run operations).engines.get place).cache.All fun key frozen =>
      ∃ compiled, StoredBy operations place compiled key frozen := by
  induction operations using List.reverseRecOn with
  | nil => exact Lru.all_new _
  | append_singleton before operation ih =>
    have older : ((start.run before).engines.get place).cache.All fun key frozen =>
        ∃ compiled, StoredBy (before ++ [operation]) place compiled key frozen := by
      refine ih.imp fun key frozen stored => ?_
      obtain ⟨compiled, earlier, expression, seat, label, after, context, rfl, rest⟩ := stored
      exact ⟨compiled, earlier, expression, seat, label, after ++ [operation], context,
        List.append_assoc _ _ _, rest⟩
    rw [run_append]
    refine cache_step older fun asked same key frozen put => ?_
    obtain ⟨expression, seat, label, compiled, context, rfl, stored⟩ :=
      Session.put_mem_requests put
    exact ⟨compiled, before, expression, seat, label, [], context, by rw [same], stored⟩

theorem expressions_step (d : Deployment) (operation : Operation) :
    d.expressions <+: (d.step operation).expressions := by
  cases d.names_step operation with
  | none _ _ expressions | new _ _ _ expressions =>
    rw [expressions]
    exact List.prefix_append _ _

theorem expressions_run (d : Deployment) (operations : List Operation) :
    d.expressions <+: (d.run operations).expressions := by
  induction operations generalizing d with
  | nil => exact List.prefix_refl _
  | cons operation rest ih => exact (d.expressions_step operation).trans (ih (d.step operation))

/-- What is found through a handle was stored through the same handle. -/
theorem storedBy_of_stored? {operations : List Operation} {place : Nat} {compiled : Compiled}
    {context : Context} {frozen : Frozen} (handed : compiled ∈ (start.run operations).expressions)
    (found : ((start.run operations).engines.get place).stored? compiled context = some frozen) :
    StoredBy operations place compiled (.ofContext compiled context) frozen := by
  have told := told_start.run operations
  obtain ⟨other, stored⟩ := (storedBy_run operations place).of_get found
  have same : other = compiled := by
    obtain ⟨before, expression, seat, label, after, asking, split, compiledAt, _, key, _⟩ := stored
    have earlier : other ∈ (start.run operations).expressions := by
      rw [split, run_append]
      exact ((start.run before).expressions_run _).subset (List.mem_of_getElem? compiledAt)
    exact told.same other earlier compiled handed (congrArg Key.expression key).symm
  exact same ▸ stored

/-- Handles of compiled texts, over whatever was done with any number of engines.  The tree of a
handle is that of its text, or constantly false if the text is none.  Two handles have one identity
exactly if they are of one engine and one text, and the compiled texts of the engine were not
cleared in between.  An engine counts the different texts compiled since it was made or cleared.
What its cache finds through a handle was stored by an evaluation through the same handle, and
handles under one key have one tree. -/
theorem handles_are_faithful (operations : List Operation) :
    let d := start.run operations
    (∀ place source,
      let next := d.step (.on place (.compile source))
      next.expressions = d.expressions ++ [(d.engines.compile place source).1] ∧
      next.engines = (d.engines.compile place source).2 ∧
      (∀ e, Expr.parse source = .ok e → (d.engines.compile place source).1.root = e) ∧
      ∀ error, Expr.parse source = .error error →
        (d.engines.compile place source).1.root = .constantFalse) ∧
    (∀ place source middle other text, place < d.engines.all.length →
      let later := (d.step (.on place (.compile source))).run middle
      (d.engines.compile place source).1.id = (later.engines.compile other text).1.id ↔
        place = other ∧ source = text ∧ .on place .clearCompiled ∉ middle) ∧
    (∀ place renewal after, d.Renews place renewal → .on place .clearCompiled ∉ after →
      (((d.step renewal).run after).engines.get place).compiledCount =
        (compiledTexts place after).dedup.length) ∧
    (∀ place, ∀ compiled ∈ d.expressions, ∀ context frozen,
      (d.engines.get place).stored? compiled context = some frozen →
      StoredBy operations place compiled (.ofContext compiled context) frozen) ∧
    ∀ compiled ∈ d.expressions, ∀ other ∈ d.expressions, ∀ context asking,
      Key.ofContext compiled context = .ofContext other asking → compiled.root = other.root := by
  intro d
  have told : d.Told := told_start.run operations
  refine ⟨fun place source => ⟨rfl, rfl, ?root⟩,
    fun _ source middle other text inside => id_compile_iff told inside source middle other text,
    fun place renewal after renews kept => compiledCount_run renews kept,
    fun place compiled handed context frozen found => storedBy_of_stored? handed found,
    fun compiled handed other handedOther context asking key => ?key⟩
  case root =>
    rw [root_compile told, Compiled.rootOf]
    constructor
    · intro e parsed
      rw [parsed]
    · intro error failed
      rw [failed]
  case key =>
    rw [told.same compiled handed other handedOther (congrArg Key.expression key)]

/-- One text on two engines, compiled again before and after the texts of the first are cleared, and
a cached result that is found again. -/
theorem handles_are_faithful_after_clear :
    let operations : List Operation :=
      [.found .strict 2 .standard, .found .strict 2 .standard, .on 0 (.bring "a" (.named "a")),
        .on 0 (.enter .strict), .on 0 (.evaluateCached 0 0 "t")]
    let d := start.run operations
    let next := d.step (.on 0 (.compile ""))
    let compiled : Compiled := ⟨1, "a", .named "a"⟩
    (d.engines.compile 1 "1").1.root = .constant (.integer 1) ∧
    (d.engines.compile 0 "").1.root = .constantFalse ∧
    (d.engines.compile 0 "").1.id = (next.engines.compile 0 "").1.id ∧
    (d.engines.compile 0 "").1.id ≠ (next.engines.compile 1 "").1.id ∧
    (d.engines.compile 0 "").1.id ≠
      ((next.step (.on 0 .clearCompiled)).engines.compile 0 "").1.id ∧
    (((d.step (.on 0 .clearCompiled)).run
      [.on 0 (.compile "x"), .on 0 (.compile "y"), .on 0 (.compile "x")]).engines.get
        0).compiledCount = 2 ∧
    ∃ context frozen, d.contexts = [context] ∧
      StoredBy operations 0 compiled (.ofContext compiled context) frozen ∧
      ∃ other ∈ d.expressions, Key.ofContext compiled context = .ofContext other context ∧
        compiled.root = other.root := by
  intro operations d next compiled
  obtain ⟨roots, ids, counts, stored, keys⟩ := handles_are_faithful operations
  have parsed : Expr.parse "1" = .ok (.constant (.integer 1)) := by decide +kernel
  have failed : Expr.parse "" = .error .empty := by decide +kernel
  refine ⟨(roots 1 "1").2.2.1 _ parsed, (roots 0 "").2.2.2 _ failed, ?again, ?other, ?cleared,
    ?count, ?found⟩
  case again => exact (ids 0 "" [] 0 "" (by decide)).mpr ⟨rfl, rfl, List.not_mem_nil⟩
  case other =>
    intro same
    exact absurd ((ids 0 "" [] 1 "" (by decide)).mp same).1 (by decide)
  case cleared =>
    intro same
    exact ((ids 0 "" [.on 0 .clearCompiled] 0 "" (by decide)).mp same).2.2 List.mem_cons_self
  case count =>
    refine (counts 0 (.on 0 .clearCompiled) _ ⟨rfl, by decide⟩ ?_).trans (by decide)
    simp
  case found =>
    have handed : compiled ∈ d.expressions := List.mem_cons_self
    obtain ⟨context, contexts⟩ : ∃ context, d.contexts = [context] := ⟨_, rfl⟩
    obtain ⟨frozen, found⟩ : ∃ frozen,
        (d.engines.get 0).stored? compiled context = some frozen := by
      cases contexts
      exact ⟨_, rfl⟩
    exact ⟨context, frozen, contexts, stored 0 compiled handed context frozen found, compiled,
      handed, rfl, keys compiled handed compiled handed context context rfl⟩

end Deployment
end Tripwire
