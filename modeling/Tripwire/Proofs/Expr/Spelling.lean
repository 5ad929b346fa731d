import Tripwire.Proofs.Number.Double
import Tripwire.Proofs.Number.ReadBack
import Tripwire.Proofs.Token.Lexeme
import Tripwire.Proofs.Token.Scan

/-!
The tokens of the text of a tree.
-/

namespace Tripwire

/-- A value that a constant of the language denotes. -/
def Value.Spelled : Value → Prop
  | .null | .boolean _ | .string _ => True
  | .integer n => 0 ≤ n.toInt
  | .float x => ∃ d, Binary64.dyadic? x.toFloat = some d ∧ d.negative = false
  | .list _ | .map _ => False

namespace Expr

/-- A tree that can be written down: its names are names, and its constants can be spelled and
carry their own kinds. -/
def Printable : Expr → Prop
  | literal value kind => kind = value.kind ∧ value.Spelled
  | var name expected => expected = none ∧ Lexeme.IsName name
  | unary _ operand => operand.Printable
  | binary _ left right => left.Printable ∧ right.Printable

/-- The tokens of the text of a tree, without blanks. -/
def tokens : Expr → List Token
  | literal value _ => (Literal.ofValue? value).toList.map .literal
  | var name _ => [.name name]
  | unary op operand =>
    .paren .opening :: .symbol op.symbol :: (operand.tokens ++ [.paren .closing])
  | binary op left right =>
    .paren .opening ::
      (left.tokens ++ .symbol op.symbol :: (right.tokens ++ [.paren .closing]))

/-- The text begins with a character that ends a blank or a sign before it. -/
def Begins (cs : List Char) : Prop :=
  ∃ c others, cs = c :: others ∧ Text.isBlank c = false ∧ c ≠ '='

theorem Begins.ne_nil {cs : List Char} (begins : Begins cs) : cs ≠ [] := by
  obtain ⟨c, others, rfl, _⟩ := begins
  exact List.cons_ne_nil c others

theorem Begins.append {cs : List Char} (begins : Begins cs) (rest : List Char) :
    Begins (cs ++ rest) := by
  obtain ⟨c, others, rfl, facts⟩ := begins
  exact ⟨c, others ++ rest, rfl, facts⟩

theorem begins_of_digits {cs : List Char} (rest : List Char) (filled : cs ≠ [])
    (digits : ∀ c ∈ cs, c.isDigit = true) : Begins (cs ++ rest) := by
  obtain ⟨first, others, rfl⟩ := List.exists_cons_of_ne_nil filled
  have digit := digits first List.mem_cons_self
  refine ⟨first, others ++ rest, rfl, Lexeme.isBlank_of_isDigit digit, ?_⟩
  rintro rfl
  exact absurd digit (by decide)

theorem begins_of_wordLike {first : Char} {others : List Char}
    (like : Lexeme.WordLike first others) : Begins (first :: others) := by
  refine ⟨first, others, rfl, like.visible, ?_⟩
  rintro rfl
  exact absurd like.starts (by decide)

/-- The characters of a value are one constant, which denotes the value. -/
structure Spells (cs : List Char) (value : Value) : Prop where
  begins : Begins cs
  lexed : ∃ l, Literal.ofValue? value = some l ∧
    ∀ rest, Lexeme.Ends rest → Lexeme.lex? (cs ++ rest) = some (.literal l, cs.length)

theorem spells_word (word : String) (l : Literal) {first : Char} {others : List Char}
    (characters : word.toList = first :: others) (like : Lexeme.WordLike first others)
    (denotes : Lexeme.wordToken word = .literal l) : Spells word.toList l.value where
  begins := characters ▸ begins_of_wordLike like
  lexed := ⟨l, l.ofValue?_value, fun rest ends => by
    rw [Lexeme.lex?_word characters like ends, denotes]⟩

theorem spells_integer {n : Int64} (natural : 0 ≤ n.toInt) :
    Spells (toString n.toInt).toList (.integer n) := by
  obtain ⟨k, same⟩ := Int.eq_ofNat_of_zero_le natural
  have characters : (toString n.toInt).toList = Nat.toDigits 10 k := by
    rw [same]
    exact Nat.toList_repr
  have digits : ∀ c ∈ Nat.toDigits 10 k, c.isDigit = true :=
    fun c => Decimal.isDigit_of_mem_toDigits
  have narrowed : Integer.narrow? (k : Int) = some n := same ▸ Integer.narrow?_toInt n
  rw [characters]
  constructor
  · have begins := begins_of_digits [] Nat.toDigits_ne_nil digits
    rwa [List.append_nil] at begins
  · refine ⟨.integer n, rfl, ?_⟩
    intro rest ends
    rw [Lexeme.lex?_whole Nat.toDigits_ne_nil digits ends, Lexeme.wholeLiteral,
      Decimal.value_toDigits, narrowed]

theorem spells_float {x : Double} {d : Binary64.Dyadic}
    (finite : Binary64.dyadic? x.toFloat = some d) (positive : d.negative = false) :
    Spells (Float.valueText x.toFloat).toList (.float x) := by
  obtain ⟨decimal, whole, fraction, characters, points, read⟩ :=
    Float.valueText_reads finite positive
  have number : x.toFloat.toModel.unpack ≠ .notANumber := fun nan => by
    simp [Binary64.dyadic?, nan] at finite
  have literal : Lexeme.pointLiteral whole fraction = .float x := by
    rw [Lexeme.pointLiteral, points.value, points.places, read, Double.ofFloat_toFloat number]
  rw [characters]
  constructor
  · exact begins_of_digits _ points.filled points.digits
  · refine ⟨.float x, rfl, ?_⟩
    intro rest ends
    rw [Lexeme.lex?_point points.filled points.digits points.filledFraction points.fractionDigits
      ends, literal]

theorem spells_literal (value : Value) (kind : Kind) (spelled : value.Spelled) :
    Spells (literal value kind).render value := by
  cases value with
  | null => exact spells_word "null" .null rfl (Lexeme.wordLike_of_all rfl rfl) (by decide)
  | boolean b =>
    have falsehood := spells_word "false" (.boolean false) rfl
      (Lexeme.wordLike_of_all rfl rfl) (by decide)
    have truth := spells_word "true" (.boolean true) rfl
      (Lexeme.wordLike_of_all rfl rfl) (by decide)
    cases b with
    | false => exact falsehood
    | true => exact truth
  | integer n => exact spells_integer spelled
  | float x =>
    obtain ⟨d, finite, positive⟩ := spelled
    exact spells_float finite positive
  | string s =>
    constructor
    · exact ⟨'"', _, rfl, by decide, by decide⟩
    · exact ⟨.string s, rfl, fun rest _ => Lexeme.lex?_quote s⟩
  | list _ => exact spelled.elim
  | map _ => exact spelled.elim

theorem begins_render (e : Expr) (printable : e.Printable) : Begins e.render := by
  cases e with
  | literal value kind => exact (spells_literal value kind printable.2).begins
  | var name expected =>
    obtain ⟨first, others, characters, like, _⟩ := printable.2.wordLike
    rw [render, characters]
    exact begins_of_wordLike like
  | unary op operand => exact ⟨'(', _, rfl, by decide, by decide⟩
  | binary op left right => exact ⟨'(', _, rfl, by decide, by decide⟩

theorem scans_opening (rest : List Char) : Scans ['('] [.paren .opening] rest :=
  scans_token (List.cons_ne_nil _ _) Lexeme.lex?_opening rfl

theorem scans_closing (rest : List Char) : Scans [')'] [.paren .closing] rest :=
  scans_token (List.cons_ne_nil _ _) Lexeme.lex?_closing rfl

theorem scans_space {cs : List Char} (begins : Begins cs) : Scans [' '] [] cs := by
  obtain ⟨c, others, rfl, shown, _⟩ := begins
  exact scans_blank (List.cons_ne_nil _ _) (Lexeme.lex?_space shown)

theorem scans_space_binary (op : BinaryOperator) (rest : List Char) :
    Scans [' '] [] (op.text.toList ++ rest) := by
  cases op <;> exact scans_blank (List.cons_ne_nil _ _) (Lexeme.lex?_space (by decide))

theorem scans_unary (op : UnaryOperator) {rest : List Char} (begins : Begins rest) :
    Scans op.text.toList [.symbol op.symbol] rest := by
  obtain ⟨c, others, rfl, _, different⟩ := begins
  exact scans_token (by cases op <;> decide) (Lexeme.lex?_unary op different) rfl

theorem scans_binary (op : BinaryOperator) (rest : List Char) :
    Scans op.text.toList [.symbol op.symbol] (' ' :: rest) :=
  scans_token (by cases op <;> decide) (Lexeme.lex?_binary op) rfl

/-- Before the end of an operand, the text of a tree is scanned to its tokens. -/
theorem scans_render (e : Expr) (printable : e.Printable) :
    ∀ rest, Lexeme.Ends rest → Scans e.render e.tokens rest := by
  induction e with
  | literal value kind =>
    intro rest ends
    obtain ⟨begins, l, found, lexed⟩ := spells_literal value kind printable.2
    rw [tokens, found]
    exact scans_token begins.ne_nil (lexed rest ends) rfl
  | var name expected =>
    intro rest ends
    exact scans_token (begins_render _ printable).ne_nil (Lexeme.lex?_name printable.2 ends) rfl
  | unary op operand ih =>
    intro rest _
    have begins := (begins_render operand printable).append (')' :: rest)
    have shape : (unary op operand).render =
        ['('] ++ (op.text.toList ++ (operand.render ++ [')'])) := by
      simp [render]
    rw [shape, tokens]
    apply (scans_opening _).cons
    apply Scans.cons
    · rw [List.append_assoc]
      exact scans_unary op begins
    · exact (ih printable (')' :: rest) (.inr rfl)).append (scans_closing rest)
  | binary op left right ihLeft ihRight =>
    intro rest _
    have begins := (begins_render right printable.2).append (')' :: rest)
    have shape : (binary op left right).render =
        ['('] ++ (left.render ++ ([' '] ++ (op.text.toList ++
          ([' '] ++ (right.render ++ [')']))))) := by
      simp [render]
    rw [shape, tokens]
    apply (scans_opening _).cons
    apply Scans.append
    · exact ihLeft printable.1 _ (.inl rfl)
    apply Scans.skip
    · rw [List.append_assoc]
      exact scans_space_binary op _
    apply Scans.cons
    · exact scans_binary op _
    apply Scans.skip
    · rw [List.append_assoc]
      exact scans_space begins
    exact (ihRight printable.2 (')' :: rest) (.inr rfl)).append (scans_closing rest)

end Expr
end Tripwire
