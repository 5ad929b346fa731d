import Tripwire.Proofs.Grammar.Derivation

/-!
What the grammar rules read is derived, whatever the bound on their depth.
-/

namespace Tripwire.Grammar

/-- The tokens from one index up to another. -/
def slice (tokens : Array Token) (start stop : Nat) : List Token :=
  (tokens.extract start stop).toList

variable {tokens : Array Token} {start middle stop : Nat}

theorem slice_append (first : start ≤ middle) (second : middle ≤ stop) :
    slice tokens start middle ++ slice tokens middle stop = slice tokens start stop := by
  rw [slice, slice, slice, ← Array.toList_append, Array.extract_append_extract,
    Nat.min_eq_left first, Nat.max_eq_right second]

theorem slice_self (index : Nat) : slice tokens index index = [] := by
  simp [slice]

theorem slice_succ {token : Token} (found : tokens[start]? = some token) :
    slice tokens start (start + 1) = [token] := by
  obtain ⟨within, equal⟩ := Array.getElem?_eq_some_iff.mp found
  rw [slice, Array.toList_extract, List.extract_eq_take_drop, Nat.add_sub_cancel_left,
    List.drop_eq_getElem_cons within, List.take_succ_cons, List.take_zero, Array.getElem_toList,
    equal]

theorem lt_size {token : Token} (found : tokens[start]? = some token) : start < tokens.size :=
  (Array.getElem?_eq_some_iff.mp found).1

/-- A rule reads only what derives from a category, and at least one token. -/
def Reads (tokens : Array Token) (category : Category) (rule : Rule Token Expr) : Prop :=
  ∀ start stop e, rule.run tokens start = .ok (stop, e) →
    start < stop ∧ stop ≤ tokens.size ∧ Derives category (slice tokens start stop) e

variable {rule : Rule Token Expr} {level : Level}

/-- Repeated steps of a tier read a continuation of it. -/
theorem continues_of_collect (reads : Reads tokens (operandOf level) rule) (fuel : Nat) :
    ∀ start stop steps, start ≤ tokens.size →
      Rule.collect (fun position => (Rule.pair (operator level) rule).run tokens position)
        fuel start = (stop, steps) →
      start ≤ stop ∧ stop ≤ tokens.size ∧ Continues level (slice tokens start stop) steps := by
  induction fuel with
  | zero =>
    intro start stop steps within collected
    cases collected
    exact ⟨Nat.le_refl _, within, slice_self start ▸ .done⟩
  | succ fuel ih =>
    intro start stop steps within collected
    have stay : (start, []) = (stop, steps) → start ≤ stop ∧ stop ≤ tokens.size ∧
        Continues level (slice tokens start stop) steps := by
      intro same
      cases same
      exact ⟨Nat.le_refl _, within, slice_self start ▸ .done⟩
    simp only [Rule.collect] at collected
    split at collected
    · exact stay collected
    next next value stepped =>
      obtain ⟨op, e⟩ := value
      split at collected
      next advanced =>
        obtain ⟨after, operatorRead, operandRead⟩ := Rule.run_pair_eq_ok.mp stepped
        obtain ⟨found, rfl, rfl⟩ := run_operator.mp operatorRead
        obtain ⟨_, withinNext, derived⟩ := reads _ _ _ operandRead
        generalize rest : Rule.collect _ fuel next = final at collected
        obtain ⟨final, later⟩ := final
        cases collected
        obtain ⟨further, withinFinal, continued⟩ := ih next _ later withinNext rest
        refine ⟨by omega, withinFinal, ?_⟩
        rw [← slice_append (by omega : start ≤ start + 1) (by omega : start + 1 ≤ final),
          slice_succ found, ← slice_append (by omega : start + 1 ≤ next) further,
          ← List.append_assoc]
        exact .step derived continued
      next => exact stay collected

theorem reads_tier (reads : Reads tokens (operandOf level) rule) :
    Reads tokens (.chain level) (tier level rule) := by
  intro start stop e succeeded
  simp only [tier, Rule.run_within_eq_ok, Rule.run_map_eq_ok] at succeeded
  obtain ⟨⟨first, steps⟩, paired, rfl⟩ := succeeded
  obtain ⟨middle, operandRead, repeated⟩ := Rule.run_pair_eq_ok.mp paired
  obtain ⟨moved, within, derived⟩ := reads _ _ _ operandRead
  rw [Rule.run_many, Except.ok.injEq] at repeated
  obtain ⟨further, withinFinal, continued⟩ :=
    continues_of_collect reads _ middle stop steps within repeated
  refine ⟨by omega, withinFinal, ?_⟩
  rw [← slice_append (Nat.le_of_lt moved) further]
  exact .chain derived continued

theorem reads_chain {depth : Nat} (reads : Reads tokens .unary (unary depth)) (level : Level) :
    Reads tokens (.chain level) (ruleAt depth (.chain level)) := by
  apply chain_of_operands (motive := fun category => Reads tokens category (ruleAt depth category))
    reads
  intro level operand
  rw [ruleAt_chain]
  exact reads_tier operand

theorem reads_primary {inner : Rule Token Expr} (reads : Reads tokens (.chain .or) inner) :
    Reads tokens .primary (primary inner) := by
  intro start stop e succeeded
  rw [primary, Rule.run_within_eq_ok, Rule.run_choice_cons_eq_ok] at succeeded
  rcases succeeded with constant | ⟨_, succeeded⟩
  · simp only [literal, Rule.run_satisfy_eq_ok] at constant
    obtain ⟨item, found, image, rfl⟩ := constant
    split at image
    next value =>
      cases image
      exact ⟨Nat.lt_succ_self _, lt_size found, slice_succ found ▸ .literal value⟩
    next => cases image
  rw [Rule.run_choice_cons_eq_ok] at succeeded
  rcases succeeded with named | ⟨_, succeeded⟩
  · simp only [identifier, Rule.run_satisfy_eq_ok] at named
    obtain ⟨item, found, image, rfl⟩ := named
    split at image
    next name =>
      cases image
      exact ⟨Nat.lt_succ_self _, lt_size found, slice_succ found ▸ .name name⟩
    next => cases image
  rw [Rule.run_choice_cons_eq_ok] at succeeded
  rcases succeeded with group | ⟨_, succeeded⟩
  · simp only [parenthesized, Rule.run_within_eq_ok, Rule.run_delimited_eq_ok, run_paren] at group
    obtain ⟨_, outer, ⟨opened, rfl⟩, innerRead, closed, rfl⟩ := group
    obtain ⟨moved, within, derived⟩ := reads _ _ _ innerRead
    refine ⟨by omega, lt_size closed, ?_⟩
    rw [← slice_append (by omega : start ≤ outer) (Nat.le_succ outer),
      ← slice_append (Nat.le_succ start) (Nat.le_of_lt moved), slice_succ opened,
      slice_succ closed]
    exact .group derived
  · exact absurd succeeded (by simp [Rule.choice])

theorem reads_unary (tokens : Array Token) (depth : Nat) :
    Reads tokens .unary (unary depth) := by
  induction depth with
  | zero =>
    intro start stop e succeeded
    simp [unary] at succeeded
  | succ depth ih =>
    intro start stop e succeeded
    rw [show unary (depth + 1) = ruleAt (depth + 1) .unary from rfl, ruleAt_unary,
      Rule.run_within_eq_ok, Rule.run_choice_cons_eq_ok] at succeeded
    rcases succeeded with operated | ⟨_, succeeded⟩
    · obtain ⟨⟨op, operand⟩, paired, rfl⟩ := Rule.run_map_eq_ok.mp operated
      obtain ⟨middle, operatorRead, operandRead⟩ := Rule.run_pair_eq_ok.mp paired
      obtain ⟨found, rfl⟩ := run_unaryOperator.mp operatorRead
      rw [Rule.run_deferred] at operandRead
      obtain ⟨moved, within, derived⟩ := ih _ _ _ operandRead
      refine ⟨by omega, within, ?_⟩
      rw [← slice_append (Nat.le_succ start) (Nat.le_of_lt moved), slice_succ found]
      exact .operator derived
    · rw [Rule.run_choice_cons_eq_ok] at succeeded
      rcases succeeded with primaryRead | ⟨_, succeeded⟩
      · have inner : Reads tokens (.chain .or) (.deferred fun _ => expression depth) := by
          intro start stop e innerRead
          rw [Rule.run_deferred, expression_eq, Rule.run_within_eq_ok] at innerRead
          exact reads_chain ih .or _ _ _ innerRead
        obtain ⟨moved, within, derived⟩ := reads_primary inner _ _ _ primaryRead
        exact ⟨moved, within, .primary derived⟩
      · exact absurd succeeded (by simp [Rule.choice])

theorem reads_operandOf (tokens : Array Token) (depth : Nat) (level : Level) :
    Reads tokens (operandOf level) (ruleAt depth (operandOf level)) := by
  cases level with
  | product => exact reads_unary tokens depth
  | or | and | equality | relation | sum => exact reads_chain (reads_unary tokens depth) _

/-- An expression that is read derives from the loosest tier. -/
theorem reads_expression (tokens : Array Token) (depth : Nat) :
    Reads tokens (.chain .or) (expression depth) := by
  intro start stop e succeeded
  rw [expression_eq, Rule.run_within_eq_ok] at succeeded
  exact reads_chain (reads_unary tokens depth) .or _ _ _ succeeded

end Tripwire.Grammar
