import Tripwire.Grammar.Expression
import Tripwire.Proofs.Grammar.Rule

/-!
The grammar of expressions as a relation between rows of tokens and trees.

Every tier is a chain of operands of the next tier, joined from the left by the
operators of the tier.  Below the last tier stand unary operators, constants,
names and expressions in parentheses.
-/

namespace Tripwire

namespace Level

/-- The place of a tier, the loosest first. -/
def rank : Level → Nat
  | or => 0
  | and => 1
  | equality => 2
  | relation => 3
  | sum => 4
  | product => 5

end Level

namespace UnaryOperator

theorem ofSymbol?_symbol (op : UnaryOperator) : ofSymbol? op.symbol = some op := by
  cases op <;> rfl

theorem symbol_of_ofSymbol? {symbol : Symbol} {op : UnaryOperator}
    (found : ofSymbol? symbol = some op) : op.symbol = symbol := by
  have checked := List.find?_some found
  exact of_decide_eq_true checked

end UnaryOperator

namespace BinaryOperator

theorem ofSymbol?_symbol (op : BinaryOperator) : ofSymbol? op.symbol = some op := by
  cases op <;> rfl

theorem symbol_of_ofSymbol? {symbol : Symbol} {op : BinaryOperator}
    (found : ofSymbol? symbol = some op) : op.symbol = symbol := by
  have checked := List.find?_some found
  exact of_decide_eq_true checked

theorem symbol_injective {first second : BinaryOperator} (same : first.symbol = second.symbol) :
    first = second := by
  rw [← Option.some.injEq, ← ofSymbol?_symbol, ← ofSymbol?_symbol, same]

end BinaryOperator

namespace Grammar

/-- What a row of tokens may be read as. -/
inductive Category
  | chain (level : Level)
  | unary
  | primary

/-- What stands between the operators of a tier. -/
def operandOf : Level → Category
  | .or => .chain .and
  | .and => .chain .equality
  | .equality => .chain .relation
  | .relation => .chain .sum
  | .sum => .chain .product
  | .product => .unary

/-- What passes from the operands of each tier to the tier holds of every tier. -/
theorem chain_of_operands {motive : Category → Prop} (innermost : motive .unary)
    (tier : ∀ level, motive (operandOf level) → motive (.chain level)) (level : Level) :
    motive (.chain level) := by
  have product : motive (.chain .product) := tier .product innermost
  have sum : motive (.chain .sum) := tier .sum product
  have relation : motive (.chain .relation) := tier .relation sum
  have equality : motive (.chain .equality) := tier .equality relation
  have and : motive (.chain .and) := tier .and equality
  cases level with
  | or => exact tier .or and
  | and => exact and
  | equality => exact equality
  | relation => exact relation
  | sum => exact sum
  | product => exact product

mutual

/-- A row of tokens has a tree in a category. -/
inductive Derives : Category → List Token → Expr → Prop
  | chain {level : Level} {first rest : List Token} {e : Expr}
      {steps : List (BinaryOperator × Expr)} :
      Derives (operandOf level) first e → Continues level rest steps →
      Derives (.chain level) (first ++ rest) (joinLeft e steps)
  | operator {op : UnaryOperator} {word : List Token} {e : Expr} :
      Derives .unary word e → Derives .unary (.symbol op.symbol :: word) (.unary op e)
  | primary {word : List Token} {e : Expr} : Derives .primary word e → Derives .unary word e
  | literal (value : Literal) : Derives .primary [.literal value] (.constant value.value)
  | name (name : String) : Derives .primary [.name name] (.named name)
  | group {word : List Token} {e : Expr} :
      Derives (.chain .or) word e →
      Derives .primary (.paren .opening :: word ++ [.paren .closing]) e

/-- A row of tokens goes on with operators of a tier, each before an operand. -/
inductive Continues : Level → List Token → List (BinaryOperator × Expr) → Prop
  | done {level : Level} : Continues level [] []
  | step {op : BinaryOperator} {first rest : List Token} {e : Expr}
      {steps : List (BinaryOperator × Expr)} :
      Derives (operandOf op.level) first e → Continues op.level rest steps →
      Continues op.level (.symbol op.symbol :: first ++ rest) ((op, e) :: steps)

end

/-- Nothing derives from no tokens. -/
theorem Derives.ne_nil {category : Category} {word : List Token} {e : Expr}
    (derived : Derives category word e) : word ≠ [] := by
  induction derived using Derives.rec (motive_2 := fun _ _ _ _ => True) with
  | chain _ _ ih => simp [ih]
  | operator => simp
  | primary _ ih => exact ih
  | literal | name | group => simp
  | done => trivial
  | step => trivial

/-- A primary does not begin with an operator. -/
theorem Derives.primary_head {word : List Token} {e : Expr} (derived : Derives .primary word e) :
    ∃ token rest, word = token :: rest ∧ ∀ symbol, token ≠ .symbol symbol := by
  cases derived with
  | literal value => exact ⟨_, [], rfl, nofun⟩
  | name name => exact ⟨_, [], rfl, nofun⟩
  | @group inner _ _ => exact ⟨_, inner ++ [.paren .closing], rfl, nofun⟩

/-- The rule that reads a category, its innermost operands having a bound on the depth. -/
def ruleAt (depth : Nat) : Category → Rule Token Expr
  | .chain .or => tiers (Grammar.unary depth)
  | .chain .and =>
    tier .and <| tier .equality <| tier .relation <| tier .sum <| tier .product <|
      Grammar.unary depth
  | .chain .equality =>
    tier .equality <| tier .relation <| tier .sum <| tier .product <| Grammar.unary depth
  | .chain .relation => tier .relation <| tier .sum <| tier .product <| Grammar.unary depth
  | .chain .sum => tier .sum <| tier .product <| Grammar.unary depth
  | .chain .product => tier .product <| Grammar.unary depth
  | .unary => Grammar.unary depth
  | .primary => Grammar.primary (.deferred fun _ => expression (depth - 1))

theorem ruleAt_chain (depth : Nat) (level : Level) :
    ruleAt depth (.chain level) = tier level (ruleAt depth (operandOf level)) := by
  cases level <;> rfl

theorem expression_eq (depth : Nat) :
    expression depth = .within "expression" (ruleAt depth (.chain .or)) := rfl

theorem ruleAt_unary (depth : Nat) :
    ruleAt (depth + 1) .unary = .within "unary" (.choice
      [.map (fun (op, operand) => .unary op operand)
          (.pair unaryOperator (.deferred fun _ => ruleAt depth .unary)),
        ruleAt (depth + 1) .primary]) := rfl

variable {tokens : Array Token} {start stop : Nat}

theorem run_operator {level : Level} {op : BinaryOperator} :
    (operator level).run tokens start = .ok (stop, op) ↔
      tokens[start]? = some (.symbol op.symbol) ∧ op.level = level ∧ stop = start + 1 := by
  simp only [operator, Rule.run_satisfy_eq_ok]
  constructor
  · rintro ⟨item, found, image, rfl⟩
    split at image
    next symbol =>
      obtain ⟨known, sameLevel⟩ := Option.filter_eq_some_iff.mp image
      rw [BinaryOperator.symbol_of_ofSymbol? known]
      exact ⟨found, of_decide_eq_true sameLevel, rfl⟩
    next => cases image
  · rintro ⟨found, sameLevel, rfl⟩
    exact ⟨_, found, by simp [BinaryOperator.ofSymbol?_symbol, sameLevel], rfl⟩

theorem run_unaryOperator {op : UnaryOperator} :
    unaryOperator.run tokens start = .ok (stop, op) ↔
      tokens[start]? = some (.symbol op.symbol) ∧ stop = start + 1 := by
  simp only [unaryOperator, Rule.run_satisfy_eq_ok]
  constructor
  · rintro ⟨item, found, image, rfl⟩
    split at image
    next symbol =>
      rw [UnaryOperator.symbol_of_ofSymbol? image]
      exact ⟨found, rfl⟩
    next => cases image
  · rintro ⟨found, rfl⟩
    exact ⟨_, found, UnaryOperator.ofSymbol?_symbol op, rfl⟩

theorem run_paren {p : Paren} :
    (paren p).run tokens start = .ok (stop, ()) ↔
      tokens[start]? = some (.paren p) ∧ stop = start + 1 := by
  simp [paren]

end Grammar
end Tripwire
