import Tripwire.Expr.Nesting
import Tripwire.Proofs.Expr.Spelling

/-!
The bounds on tokens, as bounds on the tree whose text they are.
-/

namespace Tripwire

namespace Expr

/-- How many parentheses and signs are open at the innermost place of the text of a tree. -/
def nesting : Expr → Nat
  | literal _ _ | var _ _ => 0
  | unary _ operand => 2 + operand.nesting
  | binary _ left right => 1 + max left.nesting right.nesting

def operators : Expr → Nat
  | literal _ _ | var _ _ => 0
  | unary _ operand => operand.operators
  | binary _ left right => left.operators + right.operators + 1

/-- The tree keeps within the bounds of the language. -/
def Fits (e : Expr) : Prop :=
  e.nesting ≤ Nesting.maxDepth ∧ e.operators ≤ Nesting.maxOperators

theorem tokens_of_spelled (value : Value) (kind : Kind) (spelled : value.Spelled) :
    ∃ l, (literal value kind).tokens = [.literal l] ∧ l.value = value := by
  cases value with
  | null => exact ⟨.null, rfl, rfl⟩
  | boolean b => exact ⟨.boolean b, rfl, rfl⟩
  | integer n => exact ⟨.integer n, rfl, rfl⟩
  | float x => exact ⟨.float x, rfl, rfl⟩
  | string s => exact ⟨.string s, rfl, rfl⟩
  | list _ => exact spelled.elim
  | map _ => exact spelled.elim

end Expr

namespace Nesting

variable {n next : Nesting} {token : Token} {rest : List Token}

def Within (n : Nesting) : Prop := n.depth ≤ maxDepth ∧ n.operators ≤ maxOperators

theorem checkFrom_step (stepped : n.step token = next) (within : next.Within)
    (more : decide (token = .finish) = false) :
    checkFrom n (token :: rest) = checkFrom next rest := by
  subst stepped
  simp only [checkFrom, of_decide_eq_false more, if_false, Nat.not_lt.mpr within.1,
    Nat.not_lt.mpr within.2]

theorem checkFrom_of_excess (stepped : n.step token = next) (excess : ¬next.Within)
    (more : decide (token = .finish) = false) :
    ∃ kind, checkFrom n (token :: rest) = .error kind := by
  subst stepped
  simp only [checkFrom, of_decide_eq_false more, if_false]
  split
  · exact ⟨.tooDeep, rfl⟩
  next deep =>
    split
    · exact ⟨.tooManyOperators, rfl⟩
    next many => exact absurd ⟨Nat.not_lt.mp deep, Nat.not_lt.mp many⟩ excess

/-- What is open after the text of a tree. -/
def after (n : Nesting) (e : Expr) : Nesting :=
  { n.closeOperand with operators := n.operators + e.operators }

/-- Where an operand of the tree's size still has room. -/
def Room (n : Nesting) (e : Expr) : Prop :=
  n.depth + e.nesting ≤ maxDepth ∧ n.operators + e.operators ≤ maxOperators

def opened (n : Nesting) : Nesting := n.step (.paren .opening)

/-- The place of the right operand, after a left one. -/
def turned (n : Nesting) (left : Expr) : Nesting :=
  { n.opened with operators := n.operators + left.operators + 1 }

def signed (n : Nesting) : Nesting :=
  { n.opened with waiting := 1, depth := n.depth + 2 }

theorem step_opening (n : Nesting) : n.step (.paren .opening) = n.opened := rfl

theorem step_opened (op : UnaryOperator) : n.opened.step (.symbol op.symbol) = n.signed := rfl

theorem step_turned (op : BinaryOperator) (left : Expr) :
    (n.opened.after left).step (.symbol op.symbol) = n.turned left := rfl

theorem step_signed (op : UnaryOperator) (operand : Expr) :
    (n.signed.after operand).step (.paren .closing) = n.after (.unary op operand) := rfl

theorem step_binary (op : BinaryOperator) (left right : Expr) :
    ((n.turned left).after right).step (.paren .closing) = n.after (.binary op left right) := by
  have order : n.operators + left.operators + 1 + right.operators =
      n.operators + (left.operators + right.operators + 1) := by omega
  simp only [after, Expr.operators, ← order]
  rfl

/-- A tree keeps within the bounds exactly where each place on its way does. -/
theorem room_unary (op : UnaryOperator) (operand : Expr) :
    n.Room (.unary op operand) ↔ n.signed.Room operand := by
  simp only [Room, Expr.nesting, Expr.operators, signed, opened, step, Nat.add_assoc]

theorem room_binary (op : BinaryOperator) (left right : Expr) :
    n.Room (.binary op left right) ↔ n.opened.Room left ∧ (n.turned left).Room right := by
  simp only [Room, Expr.nesting, Expr.operators, turned, opened, step]
  omega

theorem Room.within {e : Expr} (room : n.Room e) : n.Within := by
  unfold Room at room
  unfold Within
  omega

theorem Room.within_after {e : Expr} (room : n.Room e) : (n.after e).Within := by
  constructor
  · exact Nat.le_trans (Nat.sub_le _ _) room.within.1
  · exact room.2

theorem within_opened (within : n.signed.Within) : n.opened.Within := by
  constructor
  · exact Nat.le_of_succ_le within.1
  · exact within.2

/-- Where a tree has room its tokens are passed. -/
theorem checkFrom_tokens (e : Expr) (printable : e.Printable) :
    ∀ n rest, n.Room e → checkFrom n (e.tokens ++ rest) = checkFrom (n.after e) rest := by
  induction e with
  | literal value kind =>
    intro n rest room
    obtain ⟨l, tokens, _⟩ := Expr.tokens_of_spelled value kind printable.2
    rw [tokens]
    exact checkFrom_step rfl room.within_after rfl
  | var name expected =>
    intro n rest room
    exact checkFrom_step rfl room.within_after rfl
  | unary op operand ih =>
    intro n rest room
    have inner := (room_unary op operand).mp room
    simp only [Expr.tokens, List.cons_append, List.append_assoc, List.nil_append]
    rw [checkFrom_step n.step_opening (within_opened inner.within) rfl]
    rw [checkFrom_step (step_opened op) inner.within rfl]
    rw [ih printable _ _ inner]
    exact checkFrom_step (step_signed op operand) room.within_after rfl
  | binary op left right ihLeft ihRight =>
    intro n rest room
    obtain ⟨before, behind⟩ := (room_binary op left right).mp room
    simp only [Expr.tokens, List.cons_append, List.append_assoc, List.nil_append]
    rw [checkFrom_step n.step_opening before.within rfl]
    rw [ihLeft printable.1 _ _ before]
    rw [checkFrom_step (step_turned op left) behind.within rfl]
    rw [ihRight printable.2 _ _ behind]
    exact checkFrom_step (step_binary op left right) room.within_after rfl

/-- Where a tree has no room its tokens exceed a bound. -/
theorem checkFrom_tokens_of_excess (e : Expr) (printable : e.Printable) :
    ∀ n rest, n.Within → ¬n.Room e → ∃ kind, checkFrom n (e.tokens ++ rest) = .error kind := by
  induction e with
  | literal value kind => exact fun n _ bounds full => absurd bounds full
  | var name expected => exact fun n _ bounds full => absurd bounds full
  | unary op operand ih =>
    intro n rest bounds full
    rw [room_unary] at full
    simp only [Expr.tokens, List.cons_append, List.append_assoc, List.nil_append]
    by_cases opened : n.opened.Within
    · rw [checkFrom_step n.step_opening opened rfl]
      by_cases signed : n.signed.Within
      · rw [checkFrom_step (step_opened op) signed rfl]
        exact ih printable _ _ signed full
      · exact checkFrom_of_excess (step_opened op) signed rfl
    · exact checkFrom_of_excess n.step_opening opened rfl
  | binary op left right ihLeft ihRight =>
    intro n rest bounds full
    rw [room_binary] at full
    simp only [Expr.tokens, List.cons_append, List.append_assoc, List.nil_append]
    by_cases opened : n.opened.Within
    · rw [checkFrom_step n.step_opening opened rfl]
      by_cases before : n.opened.Room left
      · rw [checkFrom_tokens left printable.1 _ _ before]
        by_cases turned : (n.turned left).Within
        · rw [checkFrom_step (step_turned op left) turned rfl]
          exact ihRight printable.2 _ _ turned fun behind => full ⟨before, behind⟩
        · exact checkFrom_of_excess (step_turned op left) turned rfl
      · exact ihLeft printable.1 _ _ opened before
    · exact checkFrom_of_excess n.step_opening opened rfl

end Nesting

namespace Expr

variable {e : Expr}

/-- The tokens of a tree pass the check exactly when the tree keeps within the bounds. -/
theorem check_tokens (printable : e.Printable) (fits : e.Fits) :
    Nesting.check (e.tokens ++ [.finish]) = .ok () := by
  have room : Nesting.start.Room e := by
    simpa only [Fits, Nesting.Room, Nesting.start, Nat.zero_add] using fits
  rw [Nesting.check, Nesting.checkFrom_tokens e printable _ _ room]
  rfl

theorem check_tokens_of_excess (printable : e.Printable) (excess : ¬e.Fits) :
    ∃ kind, Nesting.check (e.tokens ++ [.finish]) = .error kind := by
  have full : ¬Nesting.start.Room e := by
    simpa only [Fits, Nesting.Room, Nesting.start, Nat.zero_add] using excess
  have within : Nesting.start.Within := by constructor <;> decide
  exact Nesting.checkFrom_tokens_of_excess e printable _ _ within full

end Expr
end Tripwire
