import Tripwire.Expr.Parse
import Tripwire.Proofs.Expr.Nesting
import Tripwire.Proofs.Grammar.Longest

/-!
A tree is read back from its text, exactly when it keeps within the bounds.
-/

namespace Tripwire

namespace Grammar

variable {word : List Token} {e : Expr}

/-- One operand is a chain. -/
theorem derives_single (level : Level) (derived : Derives (operandOf level) word e) :
    Derives (.chain level) word e := by
  have chained := Derives.chain derived .done
  rwa [List.append_nil] at chained

theorem derives_or_of_chain {level : Level} (derived : Derives (.chain level) word e) :
    Derives (.chain .or) word e := by
  have and (derived : Derives (.chain .and) word e) := derives_single .or derived
  have equality (derived : Derives (.chain .equality) word e) := and (derives_single _ derived)
  have relation (derived : Derives (.chain .relation) word e) := equality (derives_single _ derived)
  have sum (derived : Derives (.chain .sum) word e) := relation (derives_single _ derived)
  cases level with
  | or => exact derived
  | and => exact and derived
  | equality => exact equality derived
  | relation => exact relation derived
  | sum => exact sum derived
  | product => exact sum (derives_single _ derived)

theorem derives_of_unary (level : Level) (derived : Derives .unary word e) :
    Derives (.chain level) word e := by
  have product := derives_single .product derived
  have sum := derives_single .sum product
  have relation := derives_single .relation sum
  have equality := derives_single .equality relation
  have and := derives_single .and equality
  cases level with
  | or => exact derives_single .or and
  | and => exact and
  | equality => exact equality
  | relation => exact relation
  | sum => exact sum
  | product => exact product

theorem derives_operandOf (level : Level) (derived : Derives .unary word e) :
    Derives (operandOf level) word e := by
  cases level with
  | product => exact derived
  | or | and | equality | relation | sum => exact derives_of_unary _ derived

/-- Two primaries around an operator are a chain of its tier. -/
theorem derives_binary (op : BinaryOperator) {first second : List Token} {left right : Expr}
    (one : Derives .primary first left) (other : Derives .primary second right) :
    Derives (.chain op.level) (first ++ .symbol op.symbol :: second) (.binary op left right) := by
  have later := Continues.step (derives_operandOf op.level (.primary other)) .done
  rw [List.append_nil] at later
  exact .chain (derives_operandOf op.level (.primary one)) later

/-- An expression before the end of the input is read whole. -/
theorem runDeep_complete (derived : Derives (.chain .or) word e) :
    ∃ stop, runDeep complete (word ++ [Token.finish]).toArray 0 = .ok (stop, e) := by
  have enough : word.length ≤ (word ++ [Token.finish]).toArray.size + 1 := by
    simp only [List.size_toArray, List.length_append]
    omega
  obtain ⟨stop, tree, read, reached⟩ :=
    derived.runs _ (word ++ [Token.finish]).toArray 0 [.finish] enough rfl
  rcases reached with ⟨rfl, rfl⟩ | ⟨_, more⟩
  · have succeeded : runDeep expression (word ++ [Token.finish]).toArray 0 =
        .ok (0 + word.length, tree) := by
      rw [runDeep, expression_eq, Rule.run_within_eq_ok]
      exact read
    have completes := complete_of_ok succeeded
    have ended : (word ++ [Token.finish]).toArray[0 + word.length]? = some Token.finish := by simp
    rw [CompletesFrom, ended] at completes
    exact ⟨_, completes⟩
  · exact more.elim

end Grammar

namespace Expr

open Grammar

theorem derives_tokens (e : Expr) (printable : e.Printable) : Derives .primary e.tokens e := by
  induction e with
  | literal value kind =>
    obtain ⟨rfl, spelled⟩ := printable
    obtain ⟨l, tokens, rfl⟩ := tokens_of_spelled value value.kind spelled
    rw [tokens]
    exact .literal l
  | var name expected =>
    obtain ⟨rfl, _⟩ := printable
    exact .name name
  | unary op operand ih =>
    have inner : Derives .unary (.symbol op.symbol :: operand.tokens) (.unary op operand) :=
      .operator (.primary (ih printable))
    exact .group (derives_of_unary .or inner)
  | binary op left right ihLeft ihRight =>
    have inner := derives_binary op (ihLeft printable.1) (ihRight printable.2)
    have grouped := Derives.group (derives_or_of_chain inner)
    rw [List.cons_append, List.append_assoc] at grouped
    exact grouped

theorem parse_eq_ofTokens {e : Expr} (printable : e.Printable) :
    ∃ located, located.map (·.token) = e.tokens ++ [.finish] ∧
      parse e.text = ofTokens e.text located := by
  obtain ⟨located, scanned, shown⟩ := (scans_render e printable [] trivial).whole
  refine ⟨located.filter fun l => !l.token.isBlank, shown, ?_⟩
  rw [parse, text, String.toList_ofList, scanned]

theorem tokens_ne_finish {e : Expr} (printable : e.Printable) :
    e.tokens ++ [.finish] ≠ [.finish] := by
  intro empty
  exact (derives_tokens e printable).ne_nil (List.append_left_eq_self.mp empty)

theorem parse_text_of_fits {e : Expr} (printable : e.Printable) (fits : e.Fits) :
    parse e.text = .ok e := by
  obtain ⟨located, tokens, parsed⟩ := parse_eq_ofTokens printable
  obtain ⟨stop, read⟩ := runDeep_complete
    (derives_of_unary .or (.primary (derives_tokens e printable)))
  rw [parsed, ofTokens]
  simp only [tokens, tokens_ne_finish printable, if_false, check_tokens printable fits, read]

theorem parse_text_of_excess {e : Expr} (printable : e.Printable) (excess : ¬e.Fits) :
    ∃ kind, parse e.text = .error (.excess kind) := by
  obtain ⟨located, tokens, parsed⟩ := parse_eq_ofTokens printable
  obtain ⟨kind, refused⟩ := check_tokens_of_excess printable excess
  refine ⟨kind, ?_⟩
  rw [parsed, ofTokens]
  simp only [tokens, tokens_ne_finish printable, if_false, refused]

/-- The text of a tree is read back as that tree exactly when the tree keeps within the bounds;
otherwise one of the bounds is reported. -/
theorem parse_text (e : Expr) (printable : e.Printable) :
    (parse e.text = .ok e ↔ e.nesting ≤ 64 ∧ e.operators ≤ 512) ∧
    (¬(e.nesting ≤ 64 ∧ e.operators ≤ 512) →
      parse e.text = .error (.excess .tooDeep) ∨
        parse e.text = .error (.excess .tooManyOperators)) := by
  have excess (full : ¬e.Fits) : parse e.text = .error (.excess .tooDeep) ∨
      parse e.text = .error (.excess .tooManyOperators) := by
    obtain ⟨kind, refused⟩ := parse_text_of_excess printable full
    cases kind with
    | tooDeep => exact .inl refused
    | tooManyOperators => exact .inr refused
  refine ⟨⟨?_, parse_text_of_fits printable⟩, excess⟩
  intro parsed
  apply Classical.byContradiction
  intro full
  rcases excess full with refused | refused <;> rw [refused] at parsed <;> cases parsed

/-- A quotation mark in a string constant is escaped and read back. -/
theorem parse_text_of_quotation :
    (binary .or (named "x") (unary .not (constant (.string "a\"b")))).Printable ∧
      parse "(x || (!\"a\\\"b\"))" =
        .ok (binary .or (named "x") (unary .not (constant (.string "a\"b")))) := by
  have name : Lexeme.IsName "x" := by decide
  have printable : (binary .or (named "x") (unary .not (constant (.string "a\"b")))).Printable :=
    ⟨⟨rfl, name⟩, rfl, trivial⟩
  exact ⟨printable, (parse_text _ printable).1.mpr (by decide)⟩

end Expr
end Tripwire
