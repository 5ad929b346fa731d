import Tripwire.Proofs.Grammar.Completeness
import Tripwire.Proofs.Grammar.Soundness

/-!
Running the rule for expressions finds the longest row that derives and its only
tree.  A failure points at where it started, and a row that is not complete at
the first token that does not belong to it.
-/

namespace Tripwire.Grammar

variable {tokens : Array Token} {start stop : Nat} {e : Expr}

/-- The tokens from one index up to another are an expression. -/
def Spans (tokens : Array Token) (start stop : Nat) (e : Expr) : Prop :=
  start ≤ stop ∧ stop ≤ tokens.size ∧ Derives (.chain .or) (slice tokens start stop) e

/-- No expression from the same index goes further. -/
def Longest (tokens : Array Token) (start stop : Nat) (e : Expr) : Prop :=
  Spans tokens start stop e ∧ ∀ further tree, Spans tokens start further tree → further ≤ stop

/-- An outcome is a failure with a given root. -/
def FailsWith {α : Type} (outcome : Rule.Outcome α) (root : Mismatch) : Prop :=
  ∃ mismatch, outcome = .error mismatch ∧ mismatch.root = root

theorem Category.extends_nil (category : Category) : ¬category.Extends [] := by
  cases category <;> exact id

/-- A row has at most one tree. -/
theorem Derives.unique {category : Category} {word : List Token} {first second : Expr}
    (one : Derives category word first) (other : Derives category word second) :
    first = second := by
  have reads : ∀ {tree}, Derives category word tree → ∃ stop,
      (ruleAt word.length category).run word.toArray 0 = .ok (stop, tree) := by
    intro tree derived
    obtain ⟨stop, found, succeeded, ended⟩ :=
      derived.runs word.length word.toArray 0 [] (Nat.le_refl _) (by simp)
    rcases ended with ⟨_, rfl⟩ | ⟨_, more⟩
    · exact ⟨stop, succeeded⟩
    · exact absurd more category.extends_nil
  obtain ⟨_, firstRead⟩ := reads one
  obtain ⟨_, secondRead⟩ := reads other
  rw [firstRead, Except.ok.injEq, Prod.mk.injEq] at secondRead
  exact secondRead.2

theorem slice_size : slice tokens start tokens.size = tokens.toList.drop start := by
  rw [slice, Array.toList_extract, List.extract_eq_take_drop]
  apply List.take_of_length_le
  exact Nat.le_of_eq (by rw [List.length_drop, Array.length_toList])

theorem drop_eq_slice (ordered : start ≤ stop) (within : stop ≤ tokens.size) :
    tokens.toList.drop start = slice tokens start stop ++ tokens.toList.drop stop := by
  rw [← slice_size, ← slice_size, slice_append ordered within]

theorem length_slice (within : stop ≤ tokens.size) :
    (slice tokens start stop).length = stop - start := by
  rw [slice, Array.length_toList, Array.size_extract, Nat.min_eq_left within]

theorem spans_of_run (succeeded : runDeep expression tokens start = .ok (stop, e)) :
    Spans tokens start stop e := by
  obtain ⟨moved, within, derived⟩ := reads_expression tokens _ _ _ _ succeeded
  exact ⟨Nat.le_of_lt moved, within, derived⟩

/-- Where a row is an expression, one at least as long is read, and this one if not longer. -/
theorem run_of_spans (spans : Spans tokens start stop e) :
    ∃ reached tree, runDeep expression tokens start = .ok (reached, tree) ∧
      (reached = stop ∧ tree = e ∨ stop < reached) := by
  obtain ⟨ordered, within, derived⟩ := spans
  have length : (slice tokens start stop).length = stop - start := length_slice within
  obtain ⟨reached, tree, succeeded, ended⟩ :=
    derived.runs (tokens.size + 1) tokens start _ (by omega) (drop_eq_slice ordered within)
  refine ⟨reached, tree, ?_, ?_⟩
  · rw [runDeep, expression_eq, Rule.run_within_eq_ok]
    exact succeeded
  · rcases ended with ⟨rfl, rfl⟩ | ⟨beyond, _⟩
    · exact .inl ⟨by omega, rfl⟩
    · exact .inr (by omega)

theorem run_eq_ok_iff :
    runDeep expression tokens start = .ok (stop, e) ↔ Longest tokens start stop e := by
  constructor
  · intro succeeded
    refine ⟨spans_of_run succeeded, ?_⟩
    intro further tree spans
    obtain ⟨reached, found, again, ended⟩ := run_of_spans spans
    rw [succeeded, Except.ok.injEq, Prod.mk.injEq] at again
    omega
  · rintro ⟨spans, longest⟩
    obtain ⟨reached, found, succeeded, ended⟩ := run_of_spans spans
    rcases ended with ⟨rfl, rfl⟩ | beyond
    · exact succeeded
    · exact absurd (longest _ _ (spans_of_run succeeded)) (Nat.not_le.mpr beyond)

/-- A rule that fails does so because no alternative matched where it started. -/
def FailsAtStart {α : Type} (tokens : Array Token) (rule : Rule Token α) : Prop :=
  ∀ start mismatch, rule.run tokens start = .error mismatch →
    mismatch.root = .noAlternative start

theorem failsAtStart_within {α : Type} {context : String} {rule : Rule Token α}
    (fails : FailsAtStart tokens rule) : FailsAtStart tokens (.within context rule) := by
  intro start mismatch failed
  obtain ⟨cause, causeFailed, rfl⟩ := Rule.run_within_eq_error.mp failed
  rw [Mismatch.root_within]
  exact fails start cause causeFailed

theorem failsAtStart_choice {α : Type} (rules : List (Rule Token α)) :
    FailsAtStart tokens (.choice rules) := by
  intro start mismatch failed
  rw [Rule.run_choice_eq_error failed]
  rfl

theorem failsAtStart_tier {level : Level} {operand : Rule Token Expr}
    (fails : FailsAtStart tokens operand) : FailsAtStart tokens (tier level operand) := by
  apply failsAtStart_within
  intro start mismatch failed
  apply fails
  simp only [Rule.run] at failed
  cases first : operand.run tokens start with
  | error cause => simpa [first] using failed
  | ok result => simp [first] at failed

theorem failsAtStart_unary (depth : Nat) : FailsAtStart tokens (unary depth) := by
  cases depth with
  | zero =>
    rw [unary]
    exact failsAtStart_within (failsAtStart_choice [])
  | succ depth =>
    rw [unary]
    exact failsAtStart_within (failsAtStart_choice _)

theorem failsAtStart_expression (depth : Nat) : FailsAtStart tokens (expression depth) := by
  apply failsAtStart_within
  iterate 6 apply failsAtStart_tier
  exact failsAtStart_unary depth

theorem exists_longest (spans : Spans tokens start stop e) :
    ∃ last tree, Longest tokens start last tree := by
  obtain ⟨last, tree, succeeded, _⟩ := run_of_spans spans
  exact ⟨last, tree, run_eq_ok_iff.mp succeeded⟩

theorem run_of_no_spans (none : ¬∃ stop e, Spans tokens start stop e) :
    FailsWith (runDeep expression tokens start) (.noAlternative start) := by
  cases ran : runDeep expression tokens start with
  | error mismatch =>
    exact ⟨mismatch, rfl, failsAtStart_expression _ start mismatch ran⟩
  | ok result =>
    obtain ⟨stop, e⟩ := result
    exact absurd ⟨stop, e, spans_of_run ran⟩ none

/-- What is expected of a whole input after the expression that ends at an index. -/
def CompletesFrom (tokens : Array Token) (stop : Nat) (e : Expr) (outcome : Rule.Outcome Expr) :
    Prop :=
  match tokens[stop]? with
  | some .finish => outcome = .ok (stop + 1, e)
  | some token =>
    FailsWith outcome (.unexpected (toString Token.finish) (toString token) stop)
  | none => stop = tokens.size ∧ FailsWith outcome (.endOfInput stop)

theorem complete_of_fails
    (fails : FailsWith (runDeep expression tokens start) (.noAlternative start)) :
    FailsWith (runDeep complete tokens start) (.noAlternative start) := by
  obtain ⟨mismatch, failed, root⟩ := fails
  refine ⟨.within "complete expression" mismatch, ?_, root⟩
  rw [runDeep, complete, Rule.run_within_eq_error]
  exact ⟨mismatch, Rule.run_map_of_error (Rule.run_pair_of_error failed), rfl⟩

theorem complete_of_ok (succeeded : runDeep expression tokens start = .ok (stop, e)) :
    CompletesFrom tokens stop e (runDeep complete tokens start) := by
  have within := (spans_of_run succeeded).2.1
  rw [runDeep] at succeeded
  unfold CompletesFrom
  split
  next ended =>
    rw [runDeep, complete, Rule.run_within_eq_ok, Rule.run_map_eq_ok]
    refine ⟨(e, ()), ?_, rfl⟩
    rw [Rule.run_pair_eq_ok]
    exact ⟨stop, succeeded, Rule.run_unit_eq_ok.mpr
      ⟨.finish, Rule.run_equal_eq_ok.mpr ⟨ended, rfl, rfl⟩⟩⟩
  next token unfinished found =>
    have different : token ≠ .finish := unfinished
    refine ⟨.within "complete expression"
      (.unexpected (toString Token.finish) (toString token) stop), ?_, rfl⟩
    simp only [runDeep, complete, Rule.run, succeeded, found, different, if_false]
  next missing =>
    refine ⟨?_, .within "complete expression" (.endOfInput stop), ?_, rfl⟩
    · have outside := Array.getElem?_eq_none_iff.mp missing
      exact Nat.le_antisymm within outside
    · simp only [runDeep, complete, Rule.run, succeeded, missing]

/-- The rule for expressions reads exactly the longest row that derives, whose tree is the only
one, and fails where it started when no row does.  A whole input is read when its end follows. -/
theorem parses_longest (tokens : Array Token) (start : Nat) :
    (∀ stop e, runDeep expression tokens start = .ok (stop, e) ↔ Longest tokens start stop e) ∧
    (∀ stop first second, Spans tokens start stop first → Spans tokens start stop second →
      first = second) ∧
    ((∃ stop e, Spans tokens start stop e) → ∃ stop e, Longest tokens start stop e) ∧
    (∀ stop e, Longest tokens start stop e →
      CompletesFrom tokens stop e (runDeep complete tokens start)) ∧
    ((¬∃ stop e, Spans tokens start stop e) →
      FailsWith (runDeep expression tokens start) (.noAlternative start) ∧
        FailsWith (runDeep complete tokens start) (.noAlternative start)) := by
  refine ⟨fun _ _ => run_eq_ok_iff, ?unique, ?greatest, ?complete, ?none⟩
  case unique =>
    intro stop first second one other
    exact one.2.2.unique other.2.2
  case greatest =>
    rintro ⟨stop, e, spans⟩
    exact exists_longest spans
  case complete =>
    intro stop e longest
    exact complete_of_ok (run_eq_ok_iff.mpr longest)
  case none =>
    intro none
    have fails := run_of_no_spans none
    exact ⟨fails, complete_of_fails fails⟩

end Tripwire.Grammar
