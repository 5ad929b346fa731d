import Tripwire.Proofs.Expr.Descent
import Tripwire.Proofs.Expr.RoundTrip

/-!
The check of the nesting, told by the grammar alone.

The grammar fixes for every token of a row how many parentheses and unary operators
enclose it (`Marked`).  The check follows these marks: it reports the bound that is
exceeded first and passes a row that exceeds none.  What a row has closed to the left
of an operand does not enclose that operand.
-/

namespace Tripwire

namespace Grammar

open Nesting (Excess maxDepth maxOperators checkFrom check)

/-- What a token does in a row. -/
inductive Mark
  /-- A parenthesis or unary operator is opened and now so many levels enclose what follows. -/
  | opens (levels : Nat)
  /-- A constant or name stands inside so many parentheses and unary operators. -/
  | operand (levels : Nat)
  /-- A binary operator. -/
  | joins
  | closes
  deriving DecidableEq

abbrev Row := List (Token × Mark)

mutual

/-- A row of a category with its marks, where so many levels are open around it. -/
inductive Marked : Category → Nat → Row → Prop
  | chain {level : Level} {levels : Nat} {first rest : Row} :
      Marked (operandOf level) levels first → MarkedRest level levels rest →
      Marked (.chain level) levels (first ++ rest)
  | operator {levels : Nat} {row : Row} (op : UnaryOperator) : Marked .unary (levels + 1) row →
      Marked .unary levels ((.symbol op.symbol, .opens (levels + 1)) :: row)
  | primary {levels : Nat} {row : Row} : Marked .primary levels row → Marked .unary levels row
  | literal {levels : Nat} (value : Literal) :
      Marked .primary levels [(.literal value, .operand levels)]
  | name {levels : Nat} (name : String) : Marked .primary levels [(.name name, .operand levels)]
  | group {levels : Nat} {row : Row} : Marked (.chain .or) (levels + 1) row →
      Marked .primary levels
        ((.paren .opening, .opens (levels + 1)) :: row ++ [(.paren .closing, .closes)])

/-- The operators of a tier with their operands, where so many levels are open. -/
inductive MarkedRest : Level → Nat → Row → Prop
  | done {level : Level} {levels : Nat} : MarkedRest level levels []
  | step {op : BinaryOperator} {levels : Nat} {first rest : Row} :
      Marked (operandOf op.level) levels first → MarkedRest op.level levels rest →
      MarkedRest op.level levels ((.symbol op.symbol, .joins) :: first ++ rest)

end

/-- The tokens of a row. -/
def Row.word (row : Row) : List Token := row.map Prod.fst

theorem Row.word_append (first rest : Row) : Row.word (first ++ rest) = first.word ++ rest.word :=
  List.map_append

/-- The binary operators of a row. -/
def Row.joins (row : Row) : Nat := row.countP fun entry => entry.2 = .joins

/-- A row exceeds a bound. -/
def Row.Exceeds (row : Row) : Excess → Prop
  | .tooDeep => ∃ token levels, (token, .opens levels) ∈ row ∧ maxDepth < levels
  | .tooManyOperators => maxOperators < row.joins

/-- The shortest front of a row that exceeds any bound exceeds this one. -/
def Row.ExceedsFirst (row : Row) (kind : Excess) : Prop :=
  ∃ front entry back, row = front ++ entry :: back ∧ (∀ other, ¬Row.Exceeds front other) ∧
    Row.Exceeds (front ++ [entry]) kind

/-- Every mark of a kind counts at most so many levels. -/
def Row.AtMost (row : Row) (mark : Nat → Mark) (limit : Nat) : Prop :=
  ∀ token levels, (token, mark levels) ∈ row → levels ≤ limit

/-- The operands of a row stand within the bound on the depth, and the row has few operators. -/
structure Row.Bounded (row : Row) : Prop where
  depth : row.AtMost .operand maxDepth
  operators : row.joins ≤ maxOperators

variable {category : Category} {level : Level} {levels : Nat} {row : Row} {word : List Token}
  {e : Expr} {kind : Excess}

/-- Every row that derives is marked. -/
theorem Derives.marked (derived : Derives category word e) :
    ∀ levels, ∃ row, Marked category levels row ∧ row.word = word := by
  induction derived using Derives.rec
    (motive_2 := fun level word _ _ => ∀ levels, ∃ row : Row, MarkedRest level levels row ∧
      row.word = word) with
  | chain _ _ ihFirst ihRest =>
    intro levels
    obtain ⟨first, firstMarked, rfl⟩ := ihFirst levels
    obtain ⟨rest, restMarked, rfl⟩ := ihRest levels
    exact ⟨_, .chain firstMarked restMarked, Row.word_append _ _⟩
  | @operator op _ _ _ ih =>
    intro levels
    obtain ⟨row, marked, rfl⟩ := ih (levels + 1)
    exact ⟨_, .operator op marked, rfl⟩
  | primary _ ih =>
    intro levels
    obtain ⟨row, marked, same⟩ := ih levels
    exact ⟨row, .primary marked, same⟩
  | literal value => exact fun levels => ⟨_, .literal value, rfl⟩
  | name name => exact fun levels => ⟨_, .name name, rfl⟩
  | group _ ih =>
    intro levels
    obtain ⟨row, marked, rfl⟩ := ih (levels + 1)
    exact ⟨_, .group marked, Row.word_append _ _⟩
  | done => exact ⟨[], .done, rfl⟩
  | @step _ _ _ _ _ _ _ ihOperand ihRest levels =>
    obtain ⟨first, firstMarked, rfl⟩ := ihOperand levels
    obtain ⟨rest, restMarked, rfl⟩ := ihRest levels
    exact ⟨_, .step firstMarked restMarked, Row.word_append _ _⟩

/-- Only rows that derive are marked. -/
theorem Marked.derives (marked : Marked category levels row) : ∃ e, Derives category row.word e := by
  induction marked using Marked.rec
    (motive_2 := fun level _ row _ => ∃ steps, Continues level row.word steps) with
  | chain _ _ ihFirst ihRest =>
    obtain ⟨e, first⟩ := ihFirst
    obtain ⟨steps, rest⟩ := ihRest
    rw [Row.word_append]
    exact ⟨_, .chain first rest⟩
  | operator op _ ih =>
    obtain ⟨e, inner⟩ := ih
    exact ⟨_, .operator inner⟩
  | primary _ ih =>
    obtain ⟨e, inner⟩ := ih
    exact ⟨e, .primary inner⟩
  | literal value => exact ⟨_, .literal value⟩
  | name name => exact ⟨_, .name name⟩
  | group _ ih =>
    obtain ⟨e, inner⟩ := ih
    rw [Row.word_append]
    exact ⟨e, .group inner⟩
  | done => exact ⟨[], .done⟩
  | step _ _ ihOperand ihRest =>
    obtain ⟨e, operand⟩ := ihOperand
    obtain ⟨steps, rest⟩ := ihRest
    rw [Row.word_append]
    exact ⟨_, .step operand rest⟩

/-- The rows of the grammar are the rows that can be marked. -/
theorem derives_iff_marked (levels : Nat) :
    (∃ e, Derives category word e) ↔ ∃ row, Marked category levels row ∧ row.word = word := by
  constructor
  · exact fun ⟨_, derived⟩ => derived.marked levels
  · rintro ⟨row, marked, rfl⟩
    exact marked.derives

/-! ### The deepest operand -/

/-- Inside every level that is open there stands an operand. -/
theorem Marked.operand_within (marked : Marked category levels row) :
    ∃ token inner, (token, .operand inner) ∈ row ∧ levels ≤ inner := by
  induction marked using Marked.rec (motive_2 := fun _ _ _ _ => True) with
  | chain _ _ ih =>
    obtain ⟨token, inner, member, bound⟩ := ih
    exact ⟨token, inner, List.mem_append_left _ member, bound⟩
  | operator _ _ ih =>
    obtain ⟨token, inner, member, bound⟩ := ih
    exact ⟨token, inner, List.mem_cons_of_mem _ member, Nat.le_of_succ_le bound⟩
  | primary _ ih => exact ih
  | literal value => exact ⟨_, _, List.mem_cons_self, Nat.le_refl _⟩
  | name name => exact ⟨_, _, List.mem_cons_self, Nat.le_refl _⟩
  | group _ ih =>
    obtain ⟨token, inner, member, bound⟩ := ih
    exact ⟨token, inner, List.mem_append_left _ (List.mem_cons_of_mem _ member),
      Nat.le_of_succ_le bound⟩
  | done => trivial
  | step => trivial

section AtMost

variable {first rest : Row} {mark : Mark} {kinds : Nat → Mark} {token : Token} {limit : Nat}

theorem Row.atMost_append :
    Row.AtMost (first ++ rest) kinds limit ↔ first.AtMost kinds limit ∧ rest.AtMost kinds limit := by
  simp only [Row.AtMost, List.mem_append, or_imp, forall_and]

theorem Row.atMost_cons (other : ∀ inner, mark ≠ kinds inner) :
    Row.AtMost ((token, mark) :: row) kinds limit ↔ row.AtMost kinds limit := by
  have none {t : Token} {inner : Nat} : (t, kinds inner) ≠ (token, mark) :=
    fun same => other inner (Prod.mk.inj same).2.symm
  simp only [Row.AtMost, List.mem_cons, none, false_or]

theorem Row.atMost_cons_opens :
    Row.AtMost ((token, .opens levels) :: row) .opens limit ↔
      levels ≤ limit ∧ row.AtMost .opens limit := by
  constructor
  · intro bound
    exact ⟨bound token levels List.mem_cons_self,
      fun t inner member => bound t inner (List.mem_cons_of_mem _ member)⟩
  · rintro ⟨head, others⟩ t inner member
    rcases List.mem_cons.mp member with same | later
    · cases same
      exact head
    · exact others t inner later

/-- The levels in a row are told by its operands. -/
def Row.Told (row : Row) (limit : Nat) : Prop :=
  row.AtMost .operand limit ↔ row.AtMost .opens limit

theorem Row.told_append (front : first.Told limit) (back : rest.Told limit) :
    Row.Told (first ++ rest) limit := by
  unfold Row.Told at front back ⊢
  rw [Row.atMost_append, Row.atMost_append, front, back]

theorem Row.told_leaf (within : levels ≤ limit) : Row.Told [(token, .operand levels)] limit := by
  simp [Row.Told, Row.AtMost, within]

/-- A level that is opened is told by an operand inside. -/
theorem Row.told_opening (deepest : ∃ t inner, (t, .operand inner) ∈ row ∧ levels ≤ inner)
    (told : levels ≤ limit → row.Told limit) : Row.Told ((token, .opens levels) :: row) limit := by
  rw [Row.Told, Row.atMost_cons (by nofun), Row.atMost_cons_opens]
  by_cases within : levels ≤ limit
  · have inside : row.AtMost .operand limit ↔ row.AtMost .opens limit := told within
    rw [inside]
    simp only [within, true_and]
  · obtain ⟨t, inner, member, bound⟩ := deepest
    simp only [within, false_and, iff_false]
    exact fun shallow => within (Nat.le_trans bound (shallow t inner member))

/-- Levels are opened for operands only, so the deepest operand tells the deepest level. -/
theorem Marked.told (marked : Marked category levels row) : levels ≤ limit → row.Told limit := by
  have empty : Row.Told [] limit := by simp [Row.Told, Row.AtMost]
  have plain {row : Row} {token : Token} {mark : Mark} (operand : ∀ inner, mark ≠ .operand inner)
      (opens : ∀ inner, mark ≠ .opens inner) (told : row.Told limit) :
      Row.Told ((token, mark) :: row) limit := by
    unfold Row.Told at told ⊢
    rw [Row.atMost_cons operand, Row.atMost_cons opens, told]
  induction marked using Marked.rec
    (motive_2 := fun _ levels row _ => levels ≤ limit → row.Told limit) with
  | chain _ _ ihFirst ihRest =>
    exact fun within => Row.told_append (ihFirst within) (ihRest within)
  | operator op marked ih => exact fun _ => Row.told_opening marked.operand_within ih
  | primary _ ih => exact ih
  | literal | name => exact Row.told_leaf
  | group marked ih =>
    exact fun _ => Row.told_append (Row.told_opening marked.operand_within ih)
      (plain (by nofun) (by nofun) empty)
  | done => exact empty
  | step _ _ ihOperand ihRest within =>
    exact Row.told_append (plain (by nofun) (by nofun) (ihOperand within)) (ihRest within)

end AtMost

/-! ### Following the marks -/

/-- Counts the operators up to a mark and reports the bound that is exceeded there. -/
def Mark.follow (operators : Nat) : Mark → Except Excess Nat
  | .opens levels => if maxDepth < levels then .error .tooDeep else .ok operators
  | .joins =>
    if maxOperators < operators + 1 then .error .tooManyOperators else .ok (operators + 1)
  | .operand _ | .closes => .ok operators

def Row.follow (row : Row) (operators : Nat) : Except Excess Nat :=
  row.foldlM (fun operators entry => entry.2.follow operators) operators

theorem Row.follow_cons (entry : Token × Mark) (row : Row) (operators : Nat) :
    Row.follow (entry :: row) operators = entry.2.follow operators >>= row.follow :=
  List.foldlM_cons

theorem Row.follow_append (first rest : Row) (operators : Nat) :
    Row.follow (first ++ rest) operators = first.follow operators >>= rest.follow :=
  List.foldlM_append

theorem Mark.follow_le {mark : Mark} {operators after : Nat} (few : operators ≤ maxOperators)
    (followed : mark.follow operators = .ok after) : after ≤ maxOperators := by
  cases mark with
  | opens levels =>
    simp only [Mark.follow] at followed
    split at followed
    · cases followed
    · cases followed
      exact few
  | joins =>
    simp only [Mark.follow] at followed
    split at followed
    · cases followed
    next room =>
      cases followed
      exact Nat.not_lt.mp room
  | operand | closes =>
    cases followed
    exact few

theorem Row.follow_le {operators after : Nat} (few : operators ≤ maxOperators)
    (followed : row.follow operators = .ok after) : after ≤ maxOperators := by
  induction row generalizing operators with
  | nil =>
    cases followed
    exact few
  | cons entry row ih =>
    rw [Row.follow_cons] at followed
    cases stepped : entry.2.follow operators with
    | error kind => rw [stepped] at followed; cases followed
    | ok next =>
      rw [stepped] at followed
      exact ih (Mark.follow_le few stepped) followed

end Grammar

namespace Nesting

open Grammar (Mark)

variable {n : Nesting} {token : Token} {rest : List Token} {operators : Nat}

/-- What the check reports at a place. -/
def limits (n : Nesting) : Except Excess Nat :=
  if maxDepth < n.depth then .error .tooDeep
  else if maxOperators < n.operators then .error .tooManyOperators
  else .ok n.operators

theorem limits_eq_ok : n.limits = .ok operators ↔ n.Within ∧ operators = n.operators := by
  unfold limits Within
  split
  next deep => simp [Nat.not_le.mpr deep]
  next shallow =>
    split
    next many => simp [Nat.not_le.mpr many]
    next few => simp [Nat.not_lt.mp shallow, Nat.not_lt.mp few, eq_comm]

theorem checkFrom_cons (n : Nesting) (more : token ≠ .finish) (rest : List Token) :
    checkFrom n (token :: rest) =
      (n.step token).limits >>= fun _ => checkFrom (n.step token) rest := by
  simp only [checkFrom, more, if_false, limits]
  split
  · rfl
  · split <;> rfl

theorem follow_opens (few : n.operators ≤ maxOperators) :
    (Mark.opens n.depth).follow n.operators = n.limits := by
  simp only [Mark.follow, limits, Nat.not_lt.mpr few, if_false]

/-- What is open after an operand when so many operators have been read. -/
def behind (n : Nesting) (operators : Nat) : Nesting := { n.closeOperand with operators }

theorem behind_waitingMore (n : Nesting) (operators : Nat) :
    n.waitingMore.behind operators = n.behind operators := by
  simp only [behind, waitingMore, closeOperand, Nat.add_sub_add_right]

theorem step_behind_opened (n : Nesting) (operators : Nat) :
    (n.opened.behind operators).step (.paren .closing) = n.behind operators := rfl

theorem within_behind (within : n.Within) (few : operators ≤ maxOperators) :
    (n.behind operators).Within :=
  ⟨Nat.le_trans (Nat.sub_le _ _) within.1, few⟩

theorem behind_self (next : n.operandNext = false) (free : n.waiting = 0) :
    n.behind n.operators = n := by
  cases n
  simp_all [behind, closeOperand]

theorem depth_behind (free : n.waiting = 0) (operators : Nat) :
    (n.behind operators).depth = n.depth := by
  show n.depth - n.waiting = n.depth
  rw [free, Nat.sub_zero]

/-- The place behind a binary operator. -/
def asking (n : Nesting) : Nesting := { n with operators := n.operators + 1, operandNext := true }

theorem follow_joins (within : n.Within) : Mark.joins.follow n.operators = n.asking.limits := by
  have shallow : ¬maxDepth < n.asking.depth := Nat.not_lt.mpr within.1
  rw [limits, if_neg shallow]
  rfl

theorem step_asking (next : n.operandNext = false) (symbol : Symbol) :
    n.step (.symbol symbol) = n.asking := by
  simp only [step, next, Bool.false_eq_true, if_false, asking]

end Nesting

namespace Grammar

open Nesting (Excess maxDepth maxOperators checkFrom check)

theorem bind_congr_ok {first : Except Excess Nat} {f g : Nat → Except Excess Unit}
    (same : ∀ operators, first = .ok operators → f operators = g operators) :
    (first >>= f) = (first >>= g) := by
  cases first with
  | error kind => rfl
  | ok operators => exact same operators rfl

/-- From a place the check of a row follows its marks. -/
def Row.Follows (row : Row) (n : Nesting) : Prop :=
  ∀ rest, checkFrom n (row.word ++ rest) =
    row.follow n.operators >>= fun operators => checkFrom (n.behind operators) rest

variable {category : Category} {levels : Nat} {row : Row} {n inner : Nesting} {token : Token}
  {kind : Excess} {word : List Token} {e : Expr}

theorem Row.follows_append {first rest : Row} (before : first.Follows n)
    (after : ∀ operators, first.follow n.operators = .ok operators →
      rest.Follows (n.behind operators)) : Row.Follows (first ++ rest) n := by
  intro tokens
  rw [Row.word_append, List.append_assoc, before, Row.follow_append, bind_assoc]
  apply bind_congr_ok
  intro operators followed
  exact after operators followed tokens

/-- Behind a token a row is followed from the next place. -/
theorem checkFrom_entry {mark : Mark} (more : token ≠ .finish) (stepped : n.step token = inner)
    (limited : mark.follow n.operators = inner.limits)
    (follows : inner.Within → row.Follows inner) (rest : List Token) :
    checkFrom n (token :: (row.word ++ rest)) =
      Row.follow ((token, mark) :: row) n.operators >>= fun operators =>
        checkFrom (inner.behind operators) rest := by
  rw [Nesting.checkFrom_cons n more, stepped, Row.follow_cons, bind_assoc, limited]
  apply bind_congr_ok
  intro operators reached
  obtain ⟨inside, rfl⟩ := Nesting.limits_eq_ok.mp reached
  exact follows inside rest

theorem Row.follows_leaf (within : n.Within) (more : token ≠ .finish)
    (stepped : n.step token = n.closeOperand) : Row.Follows [(token, .operand levels)] n := by
  intro rest
  have inside : n.closeOperand.Within := Nesting.within_behind within within.2
  exact Nesting.checkFrom_step stepped inside (decide_eq_false more)

/-- The check of a row follows its marks. -/
theorem Marked.follows (marked : Marked category levels row) :
    ∀ n : Nesting, n.operandNext = true → category.Enters n → n.depth = levels → n.Within →
      row.Follows n := by
  -- Behind the first operand of a chain no unary operator waits any more, so the rest is
  -- followed from the level where the chain stands.
  induction marked using Marked.rec
    (motive_2 := fun _ levels row _ => ∀ n : Nesting, n.operandNext = false → n.waiting = 0 →
      n.depth = levels → n.Within → row.Follows n) with
  | chain _ _ ihFirst ihRest =>
    rintro n next free rfl within
    refine Row.follows_append (ihFirst n next (enters_operandOf free) rfl within) ?_
    intro operators followed
    have inside := Nesting.within_behind within (Row.follow_le within.2 followed)
    exact ihRest _ rfl rfl (Nesting.depth_behind free operators) inside
  | operator op marked ih =>
    rintro n next _ rfl within rest
    have limited := Nesting.follow_opens (n := n.waitingMore) within.2
    have passed := checkFrom_entry (by nofun) (Nesting.step_waitingMore next op.symbol) limited
      (ih n.waitingMore next trivial rfl) rest
    simp only [Nesting.behind_waitingMore] at passed
    exact passed
  | primary _ ih => exact fun n next _ => ih n next trivial
  | literal | name => exact fun n _ _ _ within => Row.follows_leaf within (by nofun) rfl
  | group marked ih =>
    rintro n next _ rfl within rest
    have limited := Nesting.follow_opens (n := n.opened) within.2
    have passed := checkFrom_entry (by nofun) n.step_opening limited (ih n.opened rfl rfl rfl)
      (.paren .closing :: rest)
    rw [Row.word_append, List.append_assoc, Row.follow_append, bind_assoc]
    refine Eq.trans passed (bind_congr_ok fun operators followed => ?_)
    have inside := Nesting.within_behind within (Row.follow_le within.2 followed)
    exact Nesting.checkFrom_step (n.step_behind_opened operators) inside rfl
  | done _ next free =>
    exact fun rest => congrArg (checkFrom · rest) (Nesting.behind_self next free).symm
  | @step op _ _ _ _ _ ihOperand ihRest n next free depth within =>
    subst depth
    refine Row.follows_append (fun tokens => ?_) ?_
    · exact checkFrom_entry (by nofun) (Nesting.step_asking next op.symbol)
        (Nesting.follow_joins within) (ihOperand n.asking rfl (enters_operandOf free) rfl) tokens
    · intro operators followed
      have inside := Nesting.within_behind within (Row.follow_le within.2 followed)
      exact ihRest _ rfl rfl (Nesting.depth_behind free operators) inside

/-! ### The first excess -/

theorem Row.joins_append (first rest : Row) :
    Row.joins (first ++ rest) = first.joins + rest.joins := List.countP_append

theorem Row.exceeds_append {first : Row} (exceeds : first.Exceeds kind) (rest : Row) :
    Row.Exceeds (first ++ rest) kind := by
  cases kind with
  | tooDeep =>
    obtain ⟨token, levels, member, deep⟩ := exceeds
    exact ⟨token, levels, List.mem_append_left _ member, deep⟩
  | tooManyOperators =>
    unfold Row.Exceeds at exceeds ⊢
    rw [Row.joins_append]
    exact Nat.lt_of_lt_of_le exceeds (Nat.le_add_right _ _)

theorem Row.ExceedsFirst.exceeds (first : row.ExceedsFirst kind) : row.Exceeds kind := by
  obtain ⟨front, entry, back, rfl, _, exceeds⟩ := first
  have longer := Row.exceeds_append exceeds back
  rwa [List.append_assoc] at longer

theorem Row.deep_concat {mark : Mark} (clear : ¬row.Exceeds .tooDeep) :
    Row.Exceeds (row ++ [(token, mark)]) .tooDeep ↔
      ∃ levels, mark = .opens levels ∧ maxDepth < levels := by
  constructor
  · rintro ⟨t, levels, member, deep⟩
    rcases List.mem_append.mp member with inside | last
    · exact absurd ⟨t, levels, inside, deep⟩ clear
    · obtain ⟨rfl, rfl⟩ := Prod.mk.inj (List.mem_singleton.mp last)
      exact ⟨levels, rfl, deep⟩
  · rintro ⟨levels, rfl, deep⟩
    exact ⟨token, levels, List.mem_append_right _ List.mem_cons_self, deep⟩

theorem Row.joins_concat {mark : Mark} :
    Row.joins (row ++ [(token, mark)]) = row.joins + if mark = .joins then 1 else 0 := by
  rw [Row.joins_append, Row.joins, Row.joins, List.countP_singleton]
  simp only [decide_eq_true_eq]

theorem Mark.follow_tooDeep {mark : Mark} {operators : Nat} :
    mark.follow operators = .error .tooDeep ↔
      ∃ levels, mark = .opens levels ∧ maxDepth < levels := by
  cases mark with
  | opens levels =>
    simp only [Mark.follow, Mark.opens.injEq, exists_eq_left']
    split <;> simp [*]
  | joins =>
    simp only [Mark.follow]
    split <;> simp
  | operand | closes => simp [Mark.follow]

theorem Mark.follow_tooManyOperators {mark : Mark} {operators : Nat} :
    mark.follow operators = .error .tooManyOperators ↔
      mark = .joins ∧ maxOperators < operators + 1 := by
  cases mark with
  | opens levels =>
    simp only [Mark.follow]
    split <;> simp
  | joins =>
    simp only [Mark.follow, true_and]
    split <;> simp [*]
  | operand | closes => simp [Mark.follow]

theorem Mark.follow_ok {mark : Mark} {operators after : Nat}
    (followed : mark.follow operators = .ok after) :
    after = operators + if mark = .joins then 1 else 0 := by
  cases mark with
  | opens levels =>
    simp only [Mark.follow] at followed
    split at followed <;> cases followed
    rfl
  | joins =>
    simp only [Mark.follow] at followed
    split at followed <;> cases followed
    rfl
  | operand | closes =>
    cases followed
    rfl

/-- Behind a row that exceeds no bound a mark is followed to what the longer row exceeds. -/
theorem Row.follow_entry (clear : ∀ kind, ¬row.Exceeds kind) (entry : Token × Mark) :
    entry.2.follow row.joins = .error kind ↔ Row.Exceeds (row ++ [entry]) kind := by
  obtain ⟨token, mark⟩ := entry
  cases kind with
  | tooDeep => rw [Mark.follow_tooDeep, Row.deep_concat (clear .tooDeep)]
  | tooManyOperators =>
    have few : ¬maxOperators < row.joins := clear .tooManyOperators
    rw [Mark.follow_tooManyOperators]
    show _ ↔ maxOperators < Row.joins (row ++ [(token, mark)])
    rw [Row.joins_concat]
    by_cases joins : mark = .joins
    · simp only [joins, true_and, if_true]
    · simp only [joins, false_and, if_false, Nat.add_zero, few]

theorem Row.follow_concat (row : Row) (entry : Token × Mark) (operators : Nat) :
    Row.follow (row ++ [entry]) operators = row.follow operators >>= entry.2.follow := by
  rw [Row.follow_append]
  cases row.follow operators with
  | error kind => rfl
  | ok next =>
    show Row.follow [entry] next = entry.2.follow next
    rw [Row.follow_cons]
    exact bind_pure _

/-- Following a row from its beginning counts its operators or reports the first excess. -/
theorem Row.follow_reports (row : Row) :
    (row.follow 0 = .ok row.joins ∧ ∀ kind, ¬row.Exceeds kind) ∨
      ∃ kind, row.follow 0 = .error kind ∧ row.ExceedsFirst kind := by
  induction row using List.reverseRecOn with
  | nil => exact .inl ⟨rfl, fun kind => by cases kind <;> simp [Row.Exceeds, Row.joins]⟩
  | append_singleton row entry ih =>
    rw [Row.follow_concat]
    rcases ih with ⟨followed, clear⟩ | ⟨kind, failed, front, first, back, rfl, short, exceeds⟩
    · rw [followed]
      cases stepped : entry.2.follow (Row.joins row) with
      | error kind =>
        refine .inr ⟨kind, stepped, row, entry, [], rfl, clear, ?_⟩
        exact (Row.follow_entry clear entry).mp stepped
      | ok after =>
        refine .inl ⟨?_, fun kind exceeds => ?_⟩
        · rw [Row.joins_concat, ← Mark.follow_ok stepped]
          exact stepped
        · rw [← Row.follow_entry clear, stepped] at exceeds
          cases exceeds
    · refine .inr ⟨kind, by rw [failed]; rfl, front, first, back ++ [entry], ?_, short, exceeds⟩
      rw [List.append_assoc, List.cons_append]

theorem Row.follow_eq_error : row.follow 0 = .error kind ↔ row.ExceedsFirst kind := by
  constructor
  · intro failed
    rcases Row.follow_reports row with ⟨followed, _⟩ | ⟨other, reported, first⟩
    · rw [followed] at failed
      cases failed
    · rw [reported] at failed
      cases failed
      exact first
  · rintro ⟨front, entry, back, rfl, short, exceeds⟩
    rw [Row.follow_append]
    rcases Row.follow_reports front with ⟨followed, _⟩ | ⟨other, _, first⟩
    · rw [followed]
      show Row.follow (entry :: back) front.joins = _
      rw [Row.follow_cons, (Row.follow_entry short entry).mpr exceeds]
      rfl
    · exact absurd first.exceeds (short other)

theorem Row.follow_eq_ok : row.follow 0 = .ok row.joins ↔ ∀ kind, ¬row.Exceeds kind := by
  rcases Row.follow_reports row with ⟨followed, clear⟩ | ⟨kind, reported, first⟩
  · simp [followed, clear]
  · rw [reported]
    exact ⟨nofun, fun clear => absurd first.exceeds (clear kind)⟩

/-! ### The check of a whole row -/

theorem Marked.check_eq (marked : Marked (.chain .or) 0 row) (rest : List Token) :
    check (row.word ++ .finish :: rest) = row.follow 0 >>= fun _ => .ok () := by
  have within : Nesting.start.Within := by constructor <;> decide
  exact marked.follows .start rfl rfl rfl within (.finish :: rest)

theorem Marked.bounded_iff (marked : Marked (.chain .or) 0 row) :
    row.Bounded ↔ ∀ kind, ¬row.Exceeds kind := by
  have deepest : row.Told maxDepth := marked.told (Nat.zero_le _)
  constructor
  · rintro ⟨depth, few⟩ kind exceeds
    cases kind with
    | tooDeep =>
      obtain ⟨token, levels, member, deep⟩ := exceeds
      exact absurd (deepest.mp depth token levels member) (Nat.not_le.mpr deep)
    | tooManyOperators => exact absurd few (Nat.not_le.mpr exceeds)
  · intro clear
    refine ⟨deepest.mpr fun token levels member => ?_, Nat.not_lt.mp (clear .tooManyOperators)⟩
    exact Nat.not_lt.mp fun deep => clear .tooDeep ⟨token, levels, member, deep⟩

/-- A row that derives passes the check exactly if it keeps the bounds, and else the check
reports the bound that is exceeded first. -/
theorem check_of_derives (derived : Derives (.chain .or) word e) (rest : List Token) :
    (∃ row, Marked (.chain .or) 0 row ∧ row.word = word) ∧
    ∀ row, Marked (.chain .or) 0 row → row.word = word →
      (check (word ++ .finish :: rest) = .ok () ↔ row.Bounded) ∧
      ∀ kind, check (word ++ .finish :: rest) = .error kind ↔ row.ExceedsFirst kind := by
  refine ⟨derived.marked 0, ?_⟩
  rintro row marked rfl
  rw [marked.check_eq, marked.bounded_iff, ← Row.follow_eq_ok]
  simp only [← Row.follow_eq_error]
  rcases Row.follow_reports row with ⟨followed, _⟩ | ⟨kind, reported, _⟩
  · rw [followed]
    exact ⟨⟨fun _ => rfl, fun _ => rfl⟩, fun kind => ⟨nofun, nofun⟩⟩
  · rw [reported]
    refine ⟨⟨nofun, nofun⟩, fun other => ⟨?_, ?_⟩⟩
    · exact fun same => congrArg Except.error (Except.error.inj same)
    · exact fun same => congrArg Except.error (Except.error.inj same)

/-- A negated group derives, so its check is told by its marks. -/
theorem check_of_negated_group :
    check [.symbol .bang, .paren .opening, .name "a", .paren .closing, .finish] = .ok () ∧
      ∃ row, Marked (.chain .or) 0 row ∧ row.Bounded := by
  have group : Derives .primary [.paren .opening, .name "a", .paren .closing] (.named "a") :=
    .group (derives_of_unary .or (.primary (.name "a")))
  have negated : Derives .unary (.symbol UnaryOperator.not.symbol :: _) _ :=
    .operator (.primary group)
  have passes : check [.symbol .bang, .paren .opening, .name "a", .paren .closing, .finish] =
    .ok () := by decide
  obtain ⟨⟨row, marked, same⟩, told⟩ := check_of_derives (derives_of_unary .or negated) []
  exact ⟨passes, row, marked, (told row marked same).1.mp passes⟩

/-- Groups side by side do not add up. -/
example : let group := List.replicate 40 (.paren .opening) ++ .name "a" ::
      List.replicate 40 (.paren .closing)
    check (group ++ .symbol .and :: group ++ [.finish]) = .ok () := by
  decide +kernel

end Grammar
end Tripwire
