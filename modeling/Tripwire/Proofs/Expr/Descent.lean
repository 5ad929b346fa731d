import Tripwire.Proofs.Expr.Nesting
import Tripwire.Proofs.Grammar.Levels
import Tripwire.Proofs.Grammar.Longest

/-!
The check of the nesting follows the grammar.  Wherever the grammar looks for an
operand, `Nesting.depth` counts the levels that the recursion has open there,
whether the row is well formed or not.  So a row that passes the check keeps the
recursion shallow and its tree small.
-/

namespace Tripwire

namespace Expr

/-- The most unary operators on a way from the top of a tree to a leaf. -/
def unaryDepth : Expr → Nat
  | literal _ _ | var _ _ => 0
  | unary _ operand => operand.unaryDepth + 1
  | binary _ left right => max left.unaryDepth right.unaryDepth

end Expr

namespace Nesting

variable {n : Nesting} {token : Token} {rest : List Token}

/-- Neither what has been read nor what follows exceeds a bound. -/
structure Admits (n : Nesting) (tokens : List Token) : Prop where
  within : n.Within
  passes : checkFrom n tokens = .ok ()

theorem Admits.step (admits : n.Admits (token :: rest)) (more : token ≠ .finish) :
    (n.step token).Admits rest := by
  have passes := admits.passes
  simp only [checkFrom, more, if_false] at passes
  split at passes
  · cases passes
  next shallow =>
    split at passes
    · cases passes
    next few => exact ⟨⟨Nat.not_lt.mp shallow, Nat.not_lt.mp few⟩, passes⟩

theorem admits_start {tokens : List Token} (accepted : check tokens = .ok ()) :
    start.Admits tokens := by
  have within : start.Within := by constructor <;> decide
  exact ⟨within, accepted⟩

/-- One more unary operator waits for the operand that is looked for. -/
def waitingMore (n : Nesting) : Nesting :=
  { n with waiting := n.waiting + 1, depth := n.depth + 1 }

theorem step_waitingMore (next : n.operandNext = true) (symbol : Symbol) :
    n.step (.symbol symbol) = n.waitingMore := by
  simp only [step, next, if_true, waitingMore]

theorem after_waitingMore (op : UnaryOperator) (e : Expr) :
    n.waitingMore.after e = n.after (.unary op e) := by
  simp only [waitingMore, after, closeOperand, Expr.operators, Nat.add_sub_add_right]

theorem after_group (e : Expr) : (n.opened.after e).step (.paren .closing) = n.after e := rfl

/-- The place behind an operator that follows an operand. -/
def joined (n : Nesting) (left : Expr) : Nesting :=
  { n.after left with operators := n.operators + left.operators + 1, operandNext := true }

theorem step_joined (left : Expr) (symbol : Symbol) :
    (n.after left).step (.symbol symbol) = n.joined left := rfl

theorem after_joined (op : BinaryOperator) (left right : Expr) :
    (n.joined left).after right = n.after (.binary op left right) := by
  simp only [joined, after, closeOperand, Expr.operators, Nat.sub_zero, Nat.add_assoc,
    Nat.add_comm 1]

end Nesting

namespace Grammar

open Nesting (maxDepth maxOperators)

/-- A chain is looked for only where no unary operator waits. -/
def Category.Enters : Category → Nesting → Prop
  | .chain _, n => n.waiting = 0
  | .unary, _ | .primary, _ => True

theorem enters_operandOf {level : Level} {n : Nesting} (free : n.waiting = 0) :
    (operandOf level).Enters n := by
  cases level with
  | product => trivial
  | or | and | equality | relation | sum => exact free

/-- A row that derives is passed, and its operators are counted on the way. -/
theorem Derives.admits {category : Category} {word : List Token} {e : Expr}
    (derived : Derives category word e) :
    ∀ (n : Nesting) rest, n.operandNext = true → n.Admits (word ++ rest) →
      (n.after e).Admits rest := by
  induction derived using Derives.rec
    (motive_2 := fun _ word steps _ => ∀ (n : Nesting) first rest,
      (n.after first).Admits (word ++ rest) → (n.after (joinLeft first steps)).Admits rest) with
  | chain _ _ ihFirst ihRest =>
    intro n rest next admits
    rw [List.append_assoc] at admits
    exact ihRest n _ rest (ihFirst n _ next admits)
  | @operator op word e _ ih =>
    intro n rest next admits
    have further := admits.step nofun
    rw [Nesting.step_waitingMore next] at further
    rw [← Nesting.after_waitingMore]
    exact ih n.waitingMore rest next further
  | primary _ ih => exact ih
  | literal value => exact fun n rest _ admits => admits.step nofun
  | name name => exact fun n rest _ admits => admits.step nofun
  | @group word e _ ih =>
    intro n rest _ admits
    rw [List.cons_append, List.cons_append, List.append_assoc] at admits
    have inner := ih n.opened _ rfl (admits.step nofun)
    rw [← Nesting.after_group]
    exact inner.step nofun
  | @done _ n first rest admits => exact admits
  | @step op _ _ e _ _ _ ihOperand ihRest n first rest admits =>
    rw [List.cons_append, List.cons_append, List.append_assoc] at admits
    have ahead := admits.step nofun
    rw [Nesting.step_joined] at ahead
    have passed := ihOperand (n.joined first) _ rfl ahead
    rw [Nesting.after_joined op] at passed
    exact ihRest n _ rest passed

/-- The unary operators of a tree are levels that the check counts. -/
theorem Derives.unaryDepth_le {category : Category} {word : List Token} {e : Expr}
    (derived : Derives category word e) :
    ∀ (n : Nesting) rest, n.operandNext = true → category.Enters n → n.Admits (word ++ rest) →
      n.depth + e.unaryDepth ≤ maxDepth := by
  induction derived using Derives.rec
    (motive_2 := fun _ word steps _ => ∀ (n : Nesting) first rest, n.waiting = 0 →
      n.depth + first.unaryDepth ≤ maxDepth → (n.after first).Admits (word ++ rest) →
      n.depth + (joinLeft first steps).unaryDepth ≤ maxDepth) with
  | chain first _ ihFirst ihRest =>
    intro n rest next free admits
    rw [List.append_assoc] at admits
    have bounded := ihFirst n _ next (enters_operandOf free) admits
    exact ihRest n _ rest free bounded (first.admits n _ next admits)
  | operator _ ih =>
    intro n rest next _ admits
    have further := admits.step nofun
    rw [Nesting.step_waitingMore next] at further
    have bounded := ih n.waitingMore rest next trivial further
    simp only [Nesting.waitingMore] at bounded
    simp only [Expr.unaryDepth]
    omega
  | primary _ ih => exact ih
  | literal value => exact fun n rest _ _ admits => admits.within.1
  | name name => exact fun n rest _ _ admits => admits.within.1
  | group _ ih =>
    intro n rest _ _ admits
    rw [List.cons_append, List.cons_append, List.append_assoc] at admits
    have bounded := ih n.opened _ rfl rfl (admits.step nofun)
    exact Nat.le_trans (Nat.add_le_add_right (Nat.le_succ _) _) bounded
  | @done _ n first rest _ bounded _ => exact bounded
  | @step op _ _ e _ operand _ ihOperand ihRest n first rest free bounded admits =>
    rw [List.cons_append, List.cons_append, List.append_assoc] at admits
    have ahead := admits.step nofun
    rw [Nesting.step_joined] at ahead
    have right : n.depth + e.unaryDepth ≤ maxDepth := by
      have counted := ihOperand (n.joined first) _ rfl (enters_operandOf rfl) ahead
      simpa only [Nesting.joined, Nesting.after, Nesting.closeOperand, free, Nat.sub_zero]
        using counted
    have passed := operand.admits (n.joined first) _ rfl ahead
    rw [Nesting.after_joined op] at passed
    refine ihRest n _ rest free ?_ passed
    simp only [Expr.unaryDepth]
    omega

/-- Where a rule looks for an operand, it opens no more levels than the check has left. -/
def Shallow (tokens : Array Token) (category : Category) (rule : Rule Token Expr) : Prop :=
  ∀ (n : Nesting) start, n.operandNext = true → category.Enters n →
    n.Admits (tokens.toList.drop start) → rule.levels tokens start ≤ maxDepth - n.depth

variable {tokens : Array Token} {rule : Rule Token Expr} {level : Level} {n : Nesting}
  {start stop : Nat} {e : Expr}

theorem admits_succ {token : Token} (found : tokens[start]? = some token) (more : token ≠ .finish)
    (admits : n.Admits (tokens.toList.drop start)) :
    (n.step token).Admits (tokens.toList.drop (start + 1)) := by
  obtain ⟨rest, ahead⟩ := drop_of_getElem? found
  rw [ahead] at admits
  rw [drop_cons ahead]
  exact admits.step more

theorem admits_read {category : Category} (reads : Reads tokens category rule)
    (succeeded : rule.run tokens start = .ok (stop, e)) (next : n.operandNext = true)
    (admits : n.Admits (tokens.toList.drop start)) :
    (n.after e).Admits (tokens.toList.drop stop) := by
  obtain ⟨moved, within, derived⟩ := reads _ _ _ succeeded
  rw [drop_eq_slice (Nat.le_of_lt moved) within] at admits
  exact derived.admits n _ next admits

/-- The operators of a tier ask for operands at the level where the tier stands. -/
theorem collectLevels_le (reads : Reads tokens (operandOf level) rule)
    (shallow : Shallow tokens (operandOf level) rule) (fuel : Nat) :
    ∀ (n : Nesting) left start, n.waiting = 0 → (n.after left).Admits (tokens.toList.drop start) →
      Rule.collectLevels (fun place => (Rule.pair (operator level) rule).run tokens place)
        (fun place => (Rule.pair (operator level) rule).levels tokens place) fuel start ≤
          maxDepth - n.depth := by
  induction fuel with
  | zero => exact fun _ _ _ _ _ => Nat.zero_le _
  | succ fuel ih =>
    intro n left start free admits
    have depth : (n.joined left).depth = n.depth := by
      simp only [Nesting.joined, Nesting.after, Nesting.closeOperand, free, Nat.sub_zero]
    have turned : ∀ op : BinaryOperator, tokens[start]? = some (.symbol op.symbol) →
        (n.joined left).Admits (tokens.toList.drop (start + 1)) := by
      intro op found
      rw [← Nesting.step_joined left op.symbol]
      exact admits_succ found Token.noConfusion admits
    have step : (Rule.pair (operator level) rule).levels tokens start ≤ maxDepth - n.depth := by
      apply Rule.levels_pair_le (Nat.zero_le _)
      intro middle op operatorRead
      obtain ⟨found, _, rfl⟩ := run_operator.mp operatorRead
      rw [← depth]
      exact shallow _ _ rfl (enters_operandOf rfl) (turned op found)
    simp only [Rule.collectLevels]
    split
    · exact step
    next next value stepped =>
      split
      next =>
        obtain ⟨op, right⟩ := value
        obtain ⟨middle, operatorRead, operandRead⟩ := Rule.run_pair_eq_ok.mp stepped
        obtain ⟨found, _, rfl⟩ := run_operator.mp operatorRead
        have passed := admits_read reads operandRead rfl (turned op found)
        rw [Nesting.after_joined op] at passed
        exact Nat.max_le.mpr ⟨step, ih n _ next free passed⟩
      next => exact step

theorem shallow_tier (reads : Reads tokens (operandOf level) rule)
    (shallow : Shallow tokens (operandOf level) rule) :
    Shallow tokens (.chain level) (tier level rule) := by
  intro n start next free admits
  apply Rule.levels_pair_le
  · exact shallow n start next (enters_operandOf free) admits
  · intro middle left operandRead
    exact collectLevels_le reads shallow _ n left middle free
      (admits_read reads operandRead next admits)

/-- One more open level leaves one less. -/
theorem levels_deferred_le {position opened : Nat} {inner : Rule Token Expr}
    (bounded : inner.levels tokens position ≤ maxDepth - (opened + 1))
    (within : opened + 1 ≤ maxDepth) :
    (Rule.deferred fun _ => inner).levels tokens position ≤ maxDepth - opened := by
  simp only [Rule.levels]
  omega

theorem shallow_primary {inner : Rule Token Expr} (shallow : Shallow tokens (.chain .or) inner) :
    Shallow tokens .primary (primary (.deferred fun _ => inner)) := by
  intro n start _ _ admits
  apply Rule.levels_choice_le
  simp only [List.forall_mem_cons, List.not_mem_nil, false_imp_iff, implies_true, and_true]
  refine ⟨Nat.zero_le _, Nat.zero_le _, ?_⟩
  apply Rule.levels_delimited_le (Nat.zero_le _)
  · intro middle opening
    obtain ⟨found, rfl⟩ := run_paren.mp opening
    have ahead : n.opened.Admits (tokens.toList.drop (start + 1)) := admits_succ found Token.noConfusion admits
    exact levels_deferred_le (shallow n.opened _ rfl rfl ahead) ahead.within.1
  · exact fun _ => Nat.zero_le _

theorem shallow_operator {depth : Nat} (shallow : Shallow tokens .unary (unary depth)) :
    Shallow tokens .unary (.map (fun (op, operand) => .unary op operand)
      (.pair unaryOperator (.deferred fun _ => unary depth))) := by
  intro n start next _ admits
  apply Rule.levels_pair_le (Nat.zero_le _)
  intro middle op operatorRead
  obtain ⟨found, rfl⟩ := run_unaryOperator.mp operatorRead
  have ahead := admits_succ found nofun admits
  rw [Nesting.step_waitingMore next] at ahead
  exact levels_deferred_le (shallow n.waitingMore _ next trivial ahead) ahead.within.1

theorem shallow_expression {depth : Nat} (shallow : Shallow tokens .unary (unary depth)) :
    Shallow tokens (.chain .or) (expression depth) := by
  apply chain_of_operands
    (motive := fun category => Shallow tokens category (ruleAt depth category)) shallow
  intro level operand
  rw [ruleAt_chain]
  exact shallow_tier (reads_operandOf tokens depth level) operand

theorem shallow_unary (tokens : Array Token) (depth : Nat) :
    Shallow tokens .unary (unary depth) := by
  induction depth with
  | zero => exact fun _ _ _ _ _ => Nat.zero_le _
  | succ depth ih =>
    intro n start next _ admits
    apply Rule.levels_choice_le
    simp only [List.forall_mem_cons, List.not_mem_nil, false_imp_iff, implies_true, and_true]
    constructor
    · exact shallow_operator ih n start next trivial admits
    · exact shallow_primary (shallow_expression ih) n start next trivial admits

theorem cut_expressionOver (operand : Rule Token Expr) (limit : Nat) :
    (expressionOver operand).cut limit = expressionOver (operand.cut limit) := rfl

/-- Below a cut the bound on the depth makes no difference. -/
theorem cut_unary (limit : Nat) :
    ∀ depth other, limit < depth → limit < other →
      (unary depth).cut limit = (unary other).cut limit := by
  induction limit with
  | zero =>
    intro depth other deep otherDeep
    obtain ⟨depth, rfl⟩ : ∃ less, depth = less + 1 := ⟨depth - 1, by omega⟩
    obtain ⟨other, rfl⟩ : ∃ less, other = less + 1 := ⟨other - 1, by omega⟩
    rfl
  | succ limit ih =>
    intro depth other deep otherDeep
    obtain ⟨depth, rfl⟩ : ∃ less, depth = less + 1 := ⟨depth - 1, by omega⟩
    obtain ⟨other, rfl⟩ : ∃ less, other = less + 1 := ⟨other - 1, by omega⟩
    have inner := ih depth other (by omega) (by omega)
    simp only [unary, primary, parenthesized, Rule.choice, List.foldr_cons, List.foldr_nil,
      Rule.cut, cut_expressionOver, inner]

theorem cut_complete {limit depth other : Nat} (deep : limit < depth) (otherDeep : limit < other) :
    (complete depth).cut limit = (complete other).cut limit := by
  simp only [complete, expression, Rule.cut, cut_expressionOver,
    cut_unary limit depth other deep otherDeep]

/-- What the rule for whole inputs does with a row of tokens when it stays within the bounds. -/
structure Contained (tokens : Array Token) : Prop where
  /-- The open parentheses and unary operators are never more than the bound. -/
  levels : ∀ depth, (complete depth).levels tokens 0 ≤ maxDepth
  /-- To refuse any deeper level changes neither the tree nor the error. -/
  cut : ∀ depth, ((complete depth).cut maxDepth).run tokens 0 = (complete depth).run tokens 0
  /-- Nor does it matter how much more depth the rule has. -/
  deeper : ∀ depth, maxDepth < depth →
    (complete depth).run tokens 0 = (complete (maxDepth + 1)).run tokens 0
  /-- A tree that is read is small. -/
  trees : ∀ depth stop e, (complete depth).run tokens 0 = .ok (stop, e) →
    e.operators ≤ maxOperators ∧ e.unaryDepth ≤ maxDepth

theorem levels_complete (accepted : Nesting.check tokens.toList = .ok ()) (depth : Nat) :
    (complete depth).levels tokens 0 ≤ maxDepth := by
  apply Rule.levels_pair_le
  · have admits := Nesting.admits_start accepted
    exact shallow_expression (shallow_unary tokens depth) .start 0 rfl rfl admits
  · exact fun _ _ _ => Nat.zero_le _

theorem trees_complete (accepted : Nesting.check tokens.toList = .ok ()) {depth : Nat}
    (succeeded : (complete depth).run tokens 0 = .ok (stop, e)) :
    e.operators ≤ maxOperators ∧ e.unaryDepth ≤ maxDepth := by
  rw [complete, Rule.run_within_eq_ok, Rule.run_map_eq_ok] at succeeded
  obtain ⟨⟨tree, _⟩, paired, rfl⟩ := succeeded
  obtain ⟨middle, read, _⟩ := Rule.run_pair_eq_ok.mp paired
  obtain ⟨moved, within, derived⟩ := reads_expression tokens depth _ _ _ read
  have admits := Nesting.admits_start accepted
  rw [show tokens.toList = tokens.toList.drop 0 from rfl,
    drop_eq_slice (Nat.le_of_lt moved) within] at admits
  have behind := derived.admits .start _ rfl admits
  have shallow := derived.unaryDepth_le .start _ rfl rfl admits
  simp only [Nesting.start, Nat.zero_add] at shallow
  have few := behind.within.2
  simp only [Nesting.after, Nesting.start, Nat.zero_add] at few
  exact ⟨few, shallow⟩

/-- A row that passes the check, well formed or not, is read without deep recursion. -/
theorem contained_of_check {tokens : List Token} (accepted : Nesting.check tokens = .ok ()) :
    Contained tokens.toArray := by
  have levels : ∀ depth, (complete depth).levels tokens.toArray 0 ≤ maxDepth :=
    levels_complete accepted
  have cut : ∀ depth, ((complete depth).cut maxDepth).run tokens.toArray 0 =
      (complete depth).run tokens.toArray 0 :=
    fun depth => Rule.run_cut (complete depth) maxDepth 0 (levels depth)
  refine ⟨levels, cut, ?deeper, fun _ _ _ => trees_complete accepted⟩
  intro depth deep
  rw [← cut depth, ← cut (maxDepth + 1), cut_complete deep (Nat.lt_succ_self _)]

/-- A group that is never closed passes the check, and two levels are open in it. -/
theorem contained_of_unclosed :
    Nesting.check [.symbol .bang, .paren .opening, .name "x", .finish] = .ok () ∧
      Contained #[.symbol .bang, .paren .opening, .name "x", .finish] :=
  ⟨by decide, contained_of_check (by decide)⟩

example : (complete 65).levels #[.symbol .bang, .paren .opening, .name "x", .finish] 0 = 2 := by
  decide

end Grammar
end Tripwire
