import Tripwire.Proofs.Expr.Crash
import Tripwire.Proofs.Expr.Reads

/-!
Evaluation that contains failures against evaluation that ends at the first one.

As long as nothing fails the two take the same course.  A failure ends the one;
the other has read the same names until then and goes on (`Continues`).  What it
goes on to is a value, because every operator passes its failure through
`contain`.
-/

namespace Tripwire

namespace Evaluation

theorem contain_ne_error (evaluation : Evaluation) (error : CoercionError) :
    evaluation.contain.outcome ≠ .error (.error error) := by
  obtain ⟨outcome, reads⟩ := evaluation
  match outcome with
  | .ok value => nofun
  | .error (.error failure) => nofun
  | .error (.crash crash) => nofun

theorem crash_of_contain {evaluation : Evaluation} {crash : Crash}
    (crashed : evaluation.contain.outcome = .error (.crash crash)) :
    evaluation.outcome = .error (.crash crash) := by
  obtain ⟨outcome, reads⟩ := evaluation
  match outcome with
  | .ok value => cases crashed
  | .error (.error failure) => cases crashed
  | .error (.crash cause) => exact crashed

theorem reads_prefix_andThen (evaluation : Evaluation) (next : Value → Evaluation) :
    evaluation.reads <+: (evaluation.andThen next).reads := by
  obtain ⟨outcome, reads⟩ := evaluation
  cases outcome with
  | ok value => exact List.prefix_append _ _
  | error fault => exact List.prefix_refl _

/-- An evaluation is the same as one that may have ended early, or goes on after the error that
ended that one. -/
inductive Continues (first whole : Evaluation) : Prop
  | same (equal : whole = first)
  | further (error : CoercionError) (failed : first.outcome = .error (.error error))
      (reads : first.reads <+: whole.reads)

namespace Continues

variable {first whole : Evaluation} {next later : Value → Evaluation}

theorem andThen (continues : Continues first whole)
    (nexts : ∀ value, Continues (next value) (later value)) :
    Continues (first.andThen next) (whole.andThen later) := by
  obtain ⟨outcome, reads⟩ := first
  cases continues with
  | same equal =>
    subst equal
    cases outcome with
    | error fault => exact .same rfl
    | ok value =>
      cases nexts value with
      | same equal => exact .same (by simp only [andThen_ok, equal])
      | further error failed reads =>
        exact .further error failed ((List.prefix_append_right_inj _).mpr reads)
  | further error failed prefixed =>
    cases failed
    exact .further error rfl (prefixed.trans (reads_prefix_andThen whole later))

theorem contain (continues : Continues first whole) : Continues first whole.contain := by
  obtain ⟨outcome, reads⟩ := first
  cases continues with
  | same equal =>
    subst equal
    match outcome with
    | .ok value => exact .same rfl
    | .error (.error error) => exact .further error rfl (List.prefix_refl _)
    | .error (.crash crash) => exact .same rfl
  | further error failed prefixed =>
    exact .further error failed (whole.reads_contain.symm ▸ prefixed)

theorem combine (continues : Continues first whole) (resolver : Resolver) (scope : Scope)
    (op : BinaryOperator) (left : Value) :
    Continues (Expr.combine resolver scope op left first)
      (Expr.combine resolver scope op left whole) := by
  rw [Expr.combine_eq, Expr.combine_eq]
  split
  · exact .same rfl
  · exact continues.andThen fun _ => .same rfl

end Continues
end Evaluation

namespace Expr

variable {resolver : Resolver} {scope : Scope}

/-- A tree and all trees inside it. -/
def parts : Expr → List Expr
  | literal value kind => [literal value kind]
  | var name expected => [var name expected]
  | unary op operand => unary op operand :: operand.parts
  | binary op left right => binary op left right :: (left.parts ++ right.parts)

/-- Containment goes on where the other evaluation ends. -/
theorem contained_continues (e : Expr) :
    Evaluation.Continues (e.strictly resolver scope) (e.contained resolver scope) := by
  induction e with
  | literal value kind => exact .same rfl
  | var name expected => exact .same rfl
  | unary op operand ih =>
    apply Evaluation.Continues.contain
    exact ih.andThen fun value => .same rfl
  | binary op left right ihLeft ihRight =>
    apply Evaluation.Continues.contain
    exact ihLeft.andThen fun value => ihRight.combine resolver scope op value

/-- No operator hands on a failure, and nothing else fails. -/
theorem contained_ne_error (e : Expr) (error : CoercionError) :
    (e.contained resolver scope).outcome ≠ .error (.error error) := by
  cases e with
  | literal value kind => nofun
  | var name expected => nofun
  | unary op operand => exact Evaluation.contain_ne_error _ error
  | binary op left right => exact Evaluation.contain_ne_error _ error

theorem exists_value_of_contained (calm : scope.rules.Calm) (e : Expr) :
    ∃ value, (e.contained resolver scope).outcome = .ok value := by
  match outcome : (e.contained resolver scope).outcome with
  | .ok value => exact ⟨value, rfl⟩
  | .error (.error error) => exact absurd outcome (e.contained_ne_error error)
  | .error (.crash crash) =>
    obtain ⟨application, _, crashed⟩ :=
      exists_application_of_crash (fun _ => Evaluation.crash_of_contain) outcome
    exact absurd crashed (calm.result application crash)

end Expr

namespace Context

variable {resolver : Resolver} {context : Context} {e : Expr}

theorem evaluate_of_value {value : Value}
    (outcome : (e.contained resolver context.scope).outcome = .ok value) :
    context.evaluate resolver e =
      (.ok value, context.recordAll (e.contained resolver context.scope).reads) := by
  simp only [evaluate, outcome]

theorem contains_recordAll_of_prefix {first whole : List String} (prefixed : first <+: whole)
    (name : String) (recorded : (context.recordAll first).reads.contains name = true) :
    (context.recordAll whole).reads.contains name = true := by
  rw [contains_recordAll, Bool.or_eq_true, decide_eq_true_eq] at recorded ⊢
  exact recorded.imp_right fun member => prefixed.subset member

/-- Under rules that do not crash, an evaluation up to the first error either finds a value, and
the containing one finds the same with the same reads, or it finds an error, and the containing
one goes on to some value and has read the same names and perhaps more.  No part of a containing
evaluation ends in an error. -/
theorem evaluate_continues (resolver : Resolver) (context : Context) (calm : context.rules.Calm)
    (e : Expr) :
    ((∃ value, (context.tryEvaluate resolver e).1 = .ok value ∧
        context.evaluate resolver e = (.ok value, (context.tryEvaluate resolver e).2)) ∨
      ∃ error, (context.tryEvaluate resolver e).1 = .error (.error error) ∧
        (∃ value, (context.evaluate resolver e).1 = .ok value) ∧
        ∀ name, (context.tryEvaluate resolver e).2.reads.contains name = true →
          (context.evaluate resolver e).2.reads.contains name = true) ∧
    ∀ part ∈ e.parts, ∃ value, (part.contained resolver context.scope).outcome = .ok value := by
  have values (part : Expr) : ∃ value, (part.contained resolver context.scope).outcome = .ok value :=
    part.exists_value_of_contained calm
  refine ⟨?_, fun part _ => values part⟩
  obtain ⟨value, outcome⟩ := values e
  rw [evaluate_of_value outcome]
  have continues : Evaluation.Continues (e.strictly resolver context.scope)
      (e.contained resolver context.scope) := e.contained_continues
  cases continues with
  | same equal =>
    rw [equal] at outcome ⊢
    exact .inl ⟨value, by simp only [tryEvaluate, outcome, Attempt.mapError], rfl⟩
  | further error failed prefixed =>
    refine .inr ⟨.coercion error, by simp only [tryEvaluate, failed, Attempt.mapError],
      ⟨value, rfl⟩, ?_⟩
    exact contains_recordAll_of_prefix prefixed

/-- The first operand of a disjunction fails, and the second one is read all the same. -/
theorem evaluate_continues_after_mismatch :
    let e := Expr.binary .or (.binary .subtract (.named "a") (.named "b")) (.named "c")
    let context := (((Context.new .strict).set "a" (.list [])).set "b" (.integer 1)).set "c"
      (.boolean true)
    context.rules.Calm ∧
      (context.tryEvaluate .standard e).1 =
        .error (.error (.coercion (.mismatch "-" .other .number))) ∧
      (context.tryEvaluate .standard e).2.reads.names = ["a", "b"] ∧
      (context.evaluate .standard e).1 = .ok (.boolean true) ∧
      (∀ name, (context.tryEvaluate .standard e).2.reads.contains name = true →
        (context.evaluate .standard e).2.reads.contains name = true) ∧
      ∀ part ∈ e.parts, ∃ value, (part.contained .standard context.scope).outcome = .ok value := by
  intro e context
  obtain ⟨whole, parts⟩ := evaluate_continues .standard context Rules.calm_standard e
  refine ⟨Rules.calm_standard, rfl, rfl, rfl, ?_, parts⟩
  rcases whole with ⟨value, found, _⟩ | ⟨error, _, _, reads⟩
  · cases found
  · exact reads

end Context
end Tripwire
