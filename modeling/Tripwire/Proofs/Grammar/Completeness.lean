import Tripwire.Proofs.Grammar.Derivation

/-!
What derives is read, given enough depth.  A chain reads on as long as operators
of its own tier or of a tighter one follow, so its rule may go past a row that
derives; `Extends` says when.
-/

namespace Tripwire.Grammar

/-- The tokens that follow may continue what has been read of a category. -/
def Category.Extends : Category → List Token → Prop
  | .chain level, .symbol symbol :: _ =>
    ∃ op : BinaryOperator, op.symbol = symbol ∧ level.rank ≤ op.level.rank
  | _, _ => False

/-- The rule of a category reads a row, or reads on where the row may be continued. -/
def Runs (category : Category) (word : List Token) (e : Expr) : Prop :=
  ∀ depth (tokens : Array Token) start rest, word.length ≤ depth →
    tokens.toList.drop start = word ++ rest →
    ∃ stop tree, (ruleAt depth category).run tokens start = .ok (stop, tree) ∧
      (stop = start + word.length ∧ tree = e ∨
        start + word.length < stop ∧ category.Extends rest)

/-- One more operator of a tier and its operand. -/
def stepOf (level : Level) (depth : Nat) : Rule Token (BinaryOperator × Expr) :=
  .pair (operator level) (ruleAt depth (operandOf level))

/-- The steps of a tier are read one after another, or beyond where more may follow. -/
def Collects (level : Level) (word : List Token) (steps : List (BinaryOperator × Expr)) : Prop :=
  ∀ depth (tokens : Array Token) start rest fuel, word.length ≤ depth → word.length ≤ fuel →
    tokens.toList.drop start = word ++ rest →
    ∃ stop values,
      Rule.collect (fun position => (stepOf level depth).run tokens position) fuel start =
        (stop, values) ∧
      (stop = start + word.length ∧ values = steps ∨
        start + word.length < stop ∧ (Category.chain level).Extends rest)

variable {tokens : Array Token} {start : Nat} {level : Level}

theorem getElem?_of_drop {token : Token} {rest : List Token}
    (ahead : tokens.toList.drop start = token :: rest) : tokens[start]? = some token := by
  rw [← Array.getElem?_toList, ← Nat.add_zero start, ← List.getElem?_drop, ahead]
  rfl

theorem drop_append {first rest : List Token} (ahead : tokens.toList.drop start = first ++ rest) :
    tokens.toList.drop (start + first.length) = rest := by
  rw [← List.drop_drop, ahead, List.drop_left]

theorem drop_cons {token : Token} {rest : List Token}
    (ahead : tokens.toList.drop start = token :: rest) :
    tokens.toList.drop (start + 1) = rest := by
  have split : tokens.toList.drop start = [token] ++ rest := ahead
  exact drop_append split

theorem drop_of_getElem? {token : Token} (found : tokens[start]? = some token) :
    ∃ rest, tokens.toList.drop start = token :: rest := by
  obtain ⟨within, equal⟩ := Array.getElem?_eq_some_iff.mp found
  refine ⟨tokens.toList.drop (start + 1), ?_⟩
  rw [List.drop_eq_getElem_cons within, Array.getElem_toList, equal]

theorem le_of_collect {α : Type} {step : Nat → Rule.Outcome α} (fuel : Nat) :
    ∀ start stop values, Rule.collect step fuel start = (stop, values) → start ≤ stop := by
  induction fuel with
  | zero =>
    intro start stop values collected
    cases collected
    exact Nat.le_refl _
  | succ fuel ih =>
    intro start stop values collected
    simp only [Rule.collect] at collected
    split at collected
    · cases collected
      exact Nat.le_refl _
    next next _ _ =>
      split at collected
      next advanced =>
        cases collected
        exact Nat.le_of_lt (Nat.lt_of_lt_of_le advanced (ih next _ _ rfl))
      next =>
        cases collected
        exact Nat.le_refl _

theorem extends_operandOf {rest : List Token} (more : (operandOf level).Extends rest) :
    ∃ (op : BinaryOperator) (others : List Token),
      rest = .symbol op.symbol :: others ∧ level.rank < op.level.rank := by
  match rest, more with
  | .symbol symbol :: others, more =>
    cases level with
    | product => exact more.elim
    | or | and | equality | relation | sum =>
      obtain ⟨op, rfl, tighter⟩ := more
      exact ⟨op, others, rfl, tighter⟩
  | [], more => cases level <;> exact more.elim
  | .literal _ :: _, more | .name _ :: _, more | .paren _ :: _, more | .blank _ :: _, more
  | .finish :: _, more =>
    cases level <;> exact more.elim

/-- Steps of a tier do not begin with an operator of a tighter one. -/
theorem nil_of_extends {word rest : List Token} {steps : List (BinaryOperator × Expr)}
    (continued : Continues level word steps) (more : (operandOf level).Extends (word ++ rest)) :
    word = [] ∧ (Category.chain level).Extends rest := by
  obtain ⟨op, others, same, tighter⟩ := extends_operandOf more
  cases continued with
  | done =>
    rw [List.nil_append] at same
    subst same
    exact ⟨rfl, op, rfl, Nat.le_of_lt tighter⟩
  | @step first _ _ _ _ _ _ =>
    simp only [List.cons_append, List.cons.injEq, Token.symbol.injEq] at same
    have equal := BinaryOperator.symbol_injective same.1
    subst equal
    exact absurd tighter (Nat.lt_irrefl _)

theorem collects_done (level : Level) : Collects level [] [] := by
  intro depth tokens start rest fuel _ _ ahead
  cases fuel with
  | zero => exact ⟨start, [], rfl, .inl ⟨rfl, rfl⟩⟩
  | succ fuel =>
    simp only [Rule.collect]
    split
    · exact ⟨start, [], rfl, .inl ⟨rfl, rfl⟩⟩
    next next value stepped =>
      split
      next advanced =>
        obtain ⟨op, e⟩ := value
        obtain ⟨_, operatorRead, _⟩ := Rule.run_pair_eq_ok.mp stepped
        obtain ⟨found, rfl, _⟩ := run_operator.mp operatorRead
        obtain ⟨others, split⟩ := drop_of_getElem? found
        rw [ahead, List.nil_append] at split
        refine ⟨_, _, rfl, .inr ⟨Nat.lt_of_lt_of_le advanced ?_,
          split ▸ ⟨op, rfl, Nat.le_refl _⟩⟩⟩
        exact le_of_collect fuel next _ _ rfl
      next => exact ⟨start, [], rfl, .inl ⟨rfl, rfl⟩⟩

theorem collects_step {op : BinaryOperator} {first rest : List Token} {e : Expr}
    {steps : List (BinaryOperator × Expr)} (continued : Continues op.level rest steps)
    (operand : Runs (operandOf op.level) first e) (later : Collects op.level rest steps) :
    Collects op.level (.symbol op.symbol :: first ++ rest) ((op, e) :: steps) := by
  intro depth tokens start after fuel deep enough ahead
  simp only [List.length_cons, List.length_append, List.cons_append] at deep enough
  rw [List.cons_append, List.cons_append, List.append_assoc] at ahead
  obtain ⟨fuel, rfl⟩ : ∃ less, fuel = less + 1 := ⟨fuel - 1, by omega⟩
  have operatorRead : (operator op.level).run tokens start = .ok (start + 1, op) :=
    run_operator.mpr ⟨getElem?_of_drop ahead, rfl, rfl⟩
  have behind := drop_cons ahead
  obtain ⟨next, tree, operandRead, reached⟩ :=
    operand depth tokens (start + 1) (rest ++ after) (by omega) behind
  have stepped : (stepOf op.level depth).run tokens start = .ok (next, (op, tree)) :=
    Rule.run_pair_eq_ok.mpr ⟨start + 1, operatorRead, operandRead⟩
  have advanced : start < next := by omega
  simp only [Rule.collect, stepped, advanced, if_true]
  rcases reached with ⟨rfl, rfl⟩ | ⟨beyond, more⟩
  · obtain ⟨stop, values, collected, ended⟩ :=
      later depth tokens _ after fuel (by omega) (by omega) (drop_append behind)
    rw [collected]
    refine ⟨stop, _, rfl, ?_⟩
    simp only [List.length_cons, List.length_append, List.cons_append]
    rcases ended with ⟨rfl, rfl⟩ | ⟨beyond, more⟩
    · exact .inl ⟨by omega, rfl⟩
    · exact .inr ⟨by omega, more⟩
  · -- The operand took more than its own row, which leaves no row for further steps.
    obtain ⟨rfl, followed⟩ := nil_of_extends continued more
    obtain ⟨stop, values, collected⟩ : ∃ stop values, Rule.collect (fun position =>
        (stepOf op.level depth).run tokens position) fuel next = (stop, values) := ⟨_, _, rfl⟩
    have further := le_of_collect fuel next stop values collected
    rw [collected]
    refine ⟨stop, _, rfl, .inr ⟨?_, followed⟩⟩
    simp only [List.length_cons, List.length_append, List.length_nil, List.cons_append]
    omega

theorem runs_chain {first rest : List Token} {e : Expr} {steps : List (BinaryOperator × Expr)}
    (continued : Continues level rest steps) (operand : Runs (operandOf level) first e)
    (later : Collects level rest steps) :
    Runs (.chain level) (first ++ rest) (joinLeft e steps) := by
  intro depth tokens start after deep ahead
  rw [List.length_append] at deep
  rw [List.append_assoc] at ahead
  have runs : ∀ {middle tree stop values},
      (ruleAt depth (operandOf level)).run tokens start = .ok (middle, tree) →
      Rule.collect (fun position => (stepOf level depth).run tokens position)
        (tokens.size + 1) middle = (stop, values) →
      (ruleAt depth (.chain level)).run tokens start = .ok (stop, joinLeft tree values) := by
    intro middle tree stop values operandRead collected
    rw [ruleAt_chain, tier, Rule.run_within_eq_ok, Rule.run_map_eq_ok]
    refine ⟨(tree, values), ?_, rfl⟩
    rw [Rule.run_pair_eq_ok]
    exact ⟨middle, operandRead, by rw [Rule.run_many]; exact congrArg _ collected⟩
  have size : rest.length ≤ tokens.size := by
    have lengths := congrArg List.length ahead
    simp only [List.length_drop, List.length_append, Array.length_toList] at lengths
    omega
  obtain ⟨middle, tree, operandRead, reached⟩ :=
    operand depth tokens start (rest ++ after) (by omega) ahead
  rcases reached with ⟨rfl, rfl⟩ | ⟨beyond, more⟩
  · obtain ⟨stop, values, collected, ended⟩ :=
      later depth tokens _ after (tokens.size + 1) (by omega) (by omega) (drop_append ahead)
    refine ⟨stop, _, runs operandRead collected, ?_⟩
    rw [List.length_append]
    rcases ended with ⟨rfl, rfl⟩ | ⟨beyond, more⟩
    · exact .inl ⟨by omega, rfl⟩
    · exact .inr ⟨by omega, more⟩
  · obtain ⟨rfl, followed⟩ := nil_of_extends continued more
    obtain ⟨stop, values, collected⟩ : ∃ stop values, Rule.collect (fun position =>
        (stepOf level depth).run tokens position) (tokens.size + 1) middle = (stop, values) :=
      ⟨_, _, rfl⟩
    have further := le_of_collect _ middle stop values collected
    refine ⟨stop, _, runs operandRead collected, .inr ⟨?_, followed⟩⟩
    rw [List.length_append, List.length_nil]
    omega

theorem runs_operator {op : UnaryOperator} {word : List Token} {e : Expr}
    (operand : Runs .unary word e) : Runs .unary (.symbol op.symbol :: word) (.unary op e) := by
  intro depth tokens start rest deep ahead
  rw [List.length_cons] at deep
  obtain ⟨depth, rfl⟩ : ∃ less, depth = less + 1 := ⟨depth - 1, by omega⟩
  have operatorRead : unaryOperator.run tokens start = .ok (start + 1, op) :=
    run_unaryOperator.mpr ⟨getElem?_of_drop ahead, rfl⟩
  obtain ⟨stop, tree, operandRead, reached⟩ :=
    operand depth tokens (start + 1) rest (by omega) (drop_cons ahead)
  rcases reached with ⟨rfl, rfl⟩ | ⟨_, more⟩
  · refine ⟨start + 1 + word.length, .unary op tree, ?_, .inl ⟨?_, rfl⟩⟩
    · rw [ruleAt_unary, Rule.run_within_eq_ok, Rule.run_choice_cons_eq_ok]
      refine .inl (Rule.run_map_eq_ok.mpr ⟨(op, tree), ?_, rfl⟩)
      rw [Rule.run_pair_eq_ok]
      exact ⟨start + 1, operatorRead, by rw [Rule.run_deferred]; exact operandRead⟩
    · rw [List.length_cons]
      omega
  · exact more.elim

theorem runs_primary {word : List Token} {e : Expr} (derived : Derives .primary word e)
    (operand : Runs .primary word e) : Runs .unary word e := by
  intro depth tokens start rest deep ahead
  obtain ⟨token, others, rfl, noSymbol⟩ := derived.primary_head
  obtain ⟨depth, rfl⟩ : ∃ less, depth = less + 1 := by
    rw [List.length_cons] at deep
    exact ⟨depth - 1, by omega⟩
  obtain ⟨stop, tree, primaryRead, reached⟩ := operand (depth + 1) tokens start rest deep ahead
  refine ⟨stop, tree, ?_, reached⟩
  rw [ruleAt_unary, Rule.run_within_eq_ok, Rule.run_choice_cons_eq_ok]
  refine .inr ⟨?_, Rule.run_choice_cons_eq_ok.mpr (.inl primaryRead)⟩
  have found : tokens[start]? = some token := getElem?_of_drop ahead
  have refused : unaryOperator.run tokens start =
      .error (.unexpected "unary operator" (toString token) start) := by
    cases token with
    | symbol symbol => exact absurd rfl (noSymbol symbol)
    | _ => exact Rule.run_satisfy_of_none found rfl
  exact ⟨_, Rule.run_map_of_error (Rule.run_pair_of_error refused)⟩

theorem runs_literal (value : Literal) :
    Runs .primary [.literal value] (.constant value.value) := by
  intro depth tokens start rest _ ahead
  refine ⟨start + 1, _, ?_, .inl ⟨rfl, rfl⟩⟩
  have found : tokens[start]? = some (.literal value) := getElem?_of_drop ahead
  rw [ruleAt, primary, Rule.run_within_eq_ok, Rule.run_choice_cons_eq_ok]
  exact .inl (Rule.run_satisfy_eq_ok.mpr ⟨_, found, rfl, rfl⟩)

theorem runs_name (name : String) : Runs .primary [.name name] (.named name) := by
  intro depth tokens start rest _ ahead
  refine ⟨start + 1, _, ?_, .inl ⟨rfl, rfl⟩⟩
  have found : tokens[start]? = some (.name name) := getElem?_of_drop ahead
  rw [ruleAt, primary, Rule.run_within_eq_ok, Rule.run_choice_cons_eq_ok]
  refine .inr ⟨⟨_, Rule.run_satisfy_of_none found rfl⟩, ?_⟩
  rw [Rule.run_choice_cons_eq_ok]
  exact .inl (Rule.run_satisfy_eq_ok.mpr ⟨_, found, rfl, rfl⟩)

theorem runs_group {word : List Token} {e : Expr} (inner : Runs (.chain .or) word e) :
    Runs .primary (.paren .opening :: word ++ [.paren .closing]) e := by
  intro depth tokens start rest deep ahead
  simp only [List.length_cons, List.length_append, List.length_nil, List.cons_append] at deep
  rw [List.cons_append, List.cons_append, List.append_assoc] at ahead
  have opened : tokens[start]? = some (.paren .opening) := getElem?_of_drop ahead
  have behind := drop_cons ahead
  obtain ⟨stop, tree, innerRead, reached⟩ :=
    inner (depth - 1) tokens (start + 1) (.paren .closing :: rest) (by omega) behind
  rcases reached with ⟨rfl, rfl⟩ | ⟨_, more⟩
  · have closed := getElem?_of_drop (drop_append behind)
    refine ⟨start + 1 + word.length + 1, tree, ?_, .inl ⟨?_, rfl⟩⟩
    · rw [ruleAt, primary, Rule.run_within_eq_ok, Rule.run_choice_cons_eq_ok]
      refine .inr ⟨⟨_, Rule.run_satisfy_of_none opened rfl⟩, ?_⟩
      rw [Rule.run_choice_cons_eq_ok]
      refine .inr ⟨⟨_, Rule.run_satisfy_of_none opened rfl⟩, ?_⟩
      rw [Rule.run_choice_cons_eq_ok, parenthesized, Rule.run_within_eq_ok,
        Rule.run_delimited_eq_ok]
      refine .inl ⟨_, _, run_paren.mpr ⟨opened, rfl⟩, ?_, run_paren.mpr ⟨closed, rfl⟩⟩
      rw [Rule.run_deferred, expression_eq, Rule.run_within_eq_ok]
      exact innerRead
    · simp only [List.length_cons, List.length_append, List.length_nil, List.cons_append]
      omega
  · exact more.elim

/-- Every row that derives is read, or read beyond where it may be continued. -/
theorem Derives.runs {category : Category} {word : List Token} {e : Expr}
    (derived : Derives category word e) : Runs category word e := by
  induction derived using Derives.rec
      (motive_2 := fun level word steps _ => Collects level word steps) with
  | chain _ continued operand later => exact runs_chain continued operand later
  | operator _ operand => exact runs_operator operand
  | primary derived operand => exact runs_primary derived operand
  | literal value => exact runs_literal value
  | name name => exact runs_name name
  | group _ inner => exact runs_group inner
  | done => exact collects_done _
  | step _ continued operand later => exact collects_step continued operand later

end Tripwire.Grammar
