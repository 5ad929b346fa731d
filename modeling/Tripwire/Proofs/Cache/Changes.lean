import Tripwire.Proofs.Cache.Frozen
import Tripwire.Proofs.Value.Same

/-!
When a captured result is outdated.

The check fails to see no change and reports no change that is none: what it
compares is structural identity, of the whole environment in strict mode and of
the names that were read in loose mode.
-/

namespace Tripwire.Frozen

theorem isOutdated_capture_strict_iff {context : Context} (strict : context.mode = .strict)
    (value : Value) (live : NameMap Value) :
    (capture value context).isOutdated live = false ↔
      ∀ name, Option.Rel Value.Same (live.get? name) (context.bindings.get? name) := by
  simp only [capture, strict, isOutdated_strict_iff, Value.rel_same_iff]
  constructor
  · rintro rfl name
    rfl
  · exact NameMap.ext

theorem isOutdated_capture_loose_iff {context : Context} (loose : context.mode = .loose)
    (value : Value) (live : NameMap Value) :
    (capture value context).isOutdated live = false ↔
      ∀ name, context.reads.contains name = true →
        Value.Same ((live.get? name).getD .null) (context.value name) := by
  simp only [capture, loose, isOutdated_loose_iff, get?_dependencies_eq, NameMap.contains,
    Value.same_iff]
  constructor
  · intro same name recorded
    obtain ⟨mark, found⟩ := Option.isSome_iff_exists.mp recorded
    exact same name (context.value name) (by rw [found]; rfl)
  · intro same name frozen found
    obtain ⟨mark, recorded, rfl⟩ := Option.map_eq_some_iff.mp found
    exact same name (by rw [recorded]; rfl)

/-- A captured result is up to date exactly where nothing that it hangs on has changed: in strict
mode no variable has come, gone or become another value, in loose mode no name that was read has,
an absent one counting as null.  To have changed is to differ somewhere, at any depth. -/
theorem isOutdated_capture_iff (value : Value) (context : Context) (live : NameMap Value) :
    ((capture value context).isOutdated live = false ↔
      match context.mode with
      | .strict => ∀ name, Option.Rel Value.Same (live.get? name) (context.bindings.get? name)
      | .loose => ∀ name, context.reads.contains name = true →
          Value.Same ((live.get? name).getD .null) (context.value name)) ∧
    ∀ current frozen : Value, current.unchanged frozen = true ↔ Value.Same current frozen := by
  refine ⟨?_, fun _ _ => Value.unchanged_iff_same⟩
  cases mode : context.mode with
  | strict => exact isOutdated_capture_strict_iff mode value live
  | loose => exact isOutdated_capture_loose_iff mode value live

end Tripwire.Frozen
