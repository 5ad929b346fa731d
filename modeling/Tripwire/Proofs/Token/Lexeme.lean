import Tripwire.Expr.Basic
import Tripwire.Proofs.Number.Digits
import Tripwire.Token.Lexeme

/-!
Which token stands at the front of a text, for the pieces of which the text of a
tree is made.
-/

namespace Tripwire.Lexeme

variable {cs rest : List Char} {c : Char} {token : Token} {width : Nat}

theorem lex?_of_blank (found : blank? cs = some (token, width)) :
    lex? cs = some (token, width) := by
  simp only [lex?, readers, List.findSome?_cons, found]

theorem lex?_of_literal (noBlank : blank? cs = none) (found : literal? cs = some (token, width)) :
    lex? cs = some (token, width) := by
  simp only [lex?, readers, List.findSome?_cons, noBlank, found]

theorem lex?_of_symbol (noBlank : blank? cs = none) (noLiteral : literal? cs = none)
    (found : symbol? cs = some (token, width)) : lex? cs = some (token, width) := by
  simp only [lex?, readers, List.findSome?_cons, noBlank, noLiteral, found]

theorem lex?_of_paren (noBlank : blank? cs = none) (noLiteral : literal? cs = none)
    (noSymbol : symbol? cs = none) (found : paren? cs = some (token, width)) :
    lex? cs = some (token, width) := by
  simp only [lex?, readers, List.findSome?_cons, noBlank, noLiteral, noSymbol, found]

theorem lex?_of_word (noBlank : blank? cs = none) (noLiteral : literal? cs = none)
    (noSymbol : symbol? cs = none) (noParen : paren? cs = none)
    (found : word? cs = some (token, width)) : lex? cs = some (token, width) := by
  simp only [lex?, readers, List.findSome?_cons, noBlank, noLiteral, noSymbol, noParen, found]

theorem blank?_eq_none (visible : Text.isBlank c = false) : blank? (c :: rest) = none := by
  simp only [blank?, List.takeWhile_cons, visible, Bool.false_eq_true, if_false, if_true]

theorem isBlank_of_isDigit (digit : c.isDigit = true) : Text.isBlank c = false := by
  simp only [Char.isDigit, Bool.and_eq_true, decide_eq_true_eq, ge_iff_le,
    UInt32.le_iff_toNat_le] at digit
  have between : 48 ≤ c.toNat ∧ c.toNat ≤ 57 := digit
  simp only [Text.isBlank, Text.blank, Text.Ranges.has]
  grind

/-- A reader of numbers and strings does not take a text that begins otherwise. -/
theorem literal?_eq_none (digit : c.isDigit = false) (double : c ≠ '"') (single : c ≠ '\'') :
    literal? (c :: rest) = none := by
  simp [literal?, quoted?, number?, Decimal.digitRun, digit, double, single]

/-- What may follow an operand: nothing, a blank or a closing parenthesis. -/
def Ends : List Char → Prop
  | [] => True
  | c :: _ => c = ' ' ∨ c = ')'

/-- A run of characters ends where the operand ends. -/
theorem takeWhile_append (p : Char → Bool) (space : p ' ' = false) (closing : p ')' = false)
    (all : ∀ c ∈ cs, p c = true) (ends : Ends rest) :
    (cs ++ rest).takeWhile p = cs ∧ (cs ++ rest).dropWhile p = rest := by
  rw [List.takeWhile_append_of_pos all, List.dropWhile_append_of_pos all]
  match rest, ends with
  | [], _ => simp
  | _ :: _, .inl rfl => simp [space]
  | _ :: _, .inr rfl => simp [closing]

theorem lex?_space (visible : Text.isBlank c = false) :
    lex? (' ' :: c :: rest) = some (.blank " ", 1) := by
  apply lex?_of_blank
  have space : Text.isBlank ' ' = true := by decide
  simp [blank?, space, visible]

theorem lex?_opening : lex? ('(' :: rest) = some (.paren .opening, 1) := by
  apply lex?_of_paren
  · exact blank?_eq_none (by decide)
  · exact literal?_eq_none (by decide) (by decide) (by decide)
  · rfl
  · rfl

theorem lex?_closing : lex? (')' :: rest) = some (.paren .closing, 1) := by
  apply lex?_of_paren
  · exact blank?_eq_none (by decide)
  · exact literal?_eq_none (by decide) (by decide) (by decide)
  · rfl
  · rfl

theorem lex?_binary (op : BinaryOperator) :
    lex? (op.text.toList ++ ' ' :: rest) = some (.symbol op.symbol, op.text.toList.length) := by
  apply lex?_of_symbol
  · cases op <;> exact blank?_eq_none (by decide)
  · cases op <;> exact literal?_eq_none (by decide) (by decide) (by decide)
  · cases op <;> rfl

theorem lex?_unary (op : UnaryOperator) (different : c ≠ '=') :
    lex? (op.text.toList ++ c :: rest) = some (.symbol op.symbol, op.text.toList.length) := by
  apply lex?_of_symbol
  · cases op <;> exact blank?_eq_none (by decide)
  · cases op <;> exact literal?_eq_none (by decide) (by decide) (by decide)
  · cases op with
    | not =>
      -- The only sign that goes on to a longer symbol, with an equality sign.
      show symbol? ('!' :: c :: rest) = _
      simp [symbol?, Symbol.all, Symbol.text, List.isPrefixOf, different.symm,
        UnaryOperator.text, UnaryOperator.symbol]
    | plus | minus | complement => rfl

theorem digitRun_append (digits : ∀ c ∈ cs, c.isDigit = true) (ends : Ends rest) :
    Decimal.digitRun (cs ++ rest) = (cs, rest) := by
  apply Decimal.digitRun_append digits
  match rest, ends with
  | [], _ => nofun
  | _ :: _, .inl rfl => rintro _ ⟨⟩; rfl
  | _ :: _, .inr rfl => rintro _ ⟨⟩; rfl

theorem digitRun_append_point (digits : ∀ c ∈ cs, c.isDigit = true) :
    Decimal.digitRun (cs ++ '.' :: rest) = (cs, '.' :: rest) := by
  apply Decimal.digitRun_append digits
  rintro _ ⟨⟩
  rfl

theorem quoted?_eq_none (digit : c.isDigit = true) : quoted? (c :: rest) = none := by
  rw [quoted?, if_neg]
  rintro (rfl | rfl) <;> exact absurd digit (by decide)

theorem lex?_of_number (filled : cs ≠ []) (digits : ∀ c ∈ cs, c.isDigit = true)
    (found : number? (cs ++ rest) = some (token, width)) :
    lex? (cs ++ rest) = some (token, width) := by
  obtain ⟨first, others, rfl⟩ := List.exists_cons_of_ne_nil filled
  have digit := digits first List.mem_cons_self
  apply lex?_of_literal (blank?_eq_none (isBlank_of_isDigit digit))
  show (quoted? (first :: (others ++ rest))).or (number? (first :: others ++ rest)) = _
  rw [quoted?_eq_none digit, found]
  rfl

theorem number?_whole (filled : cs ≠ []) (digits : ∀ c ∈ cs, c.isDigit = true)
    (ends : Ends rest) :
    number? (cs ++ rest) = some (.literal (wholeLiteral cs), cs.length) := by
  rw [number?, digitRun_append digits ends]
  match cs, filled, rest, ends with
  | _ :: _, _, [], _ => rfl
  | _ :: _, _, _ :: _, .inl rfl => rfl
  | _ :: _, _, _ :: _, .inr rfl => rfl

theorem number?_point {fraction : List Char} (filled : cs ≠ [])
    (digits : ∀ c ∈ cs, c.isDigit = true) (filledFraction : fraction ≠ [])
    (fractionDigits : ∀ c ∈ fraction, c.isDigit = true) (ends : Ends rest) :
    number? (cs ++ '.' :: (fraction ++ rest)) =
      some (.literal (pointLiteral cs fraction), cs.length + 1 + fraction.length) := by
  rw [number?, digitRun_append_point digits]
  match cs, filled, fraction, filledFraction with
  | _ :: _, _, _ :: _, _ =>
    simp only [digitRun_append fractionDigits ends]

/-- A row of digits is a whole number. -/
theorem lex?_whole (filled : cs ≠ []) (digits : ∀ c ∈ cs, c.isDigit = true) (ends : Ends rest) :
    lex? (cs ++ rest) = some (.literal (wholeLiteral cs), cs.length) :=
  lex?_of_number filled digits (number?_whole filled digits ends)

/-- Two rows of digits around a point are a number with a fraction. -/
theorem lex?_point {fraction : List Char} (filled : cs ≠ [])
    (digits : ∀ c ∈ cs, c.isDigit = true) (filledFraction : fraction ≠ [])
    (fractionDigits : ∀ c ∈ fraction, c.isDigit = true) (ends : Ends rest) :
    lex? ((cs ++ '.' :: fraction) ++ rest) =
      some (.literal (pointLiteral cs fraction), (cs ++ '.' :: fraction).length) := by
  have length : (cs ++ '.' :: fraction).length = cs.length + 1 + fraction.length := by
    simp only [List.length_append, List.length_cons]
    omega
  rw [List.append_assoc, List.cons_append, length]
  exact lex?_of_number filled digits
    (number?_point filled digits filledFraction fractionDigits ends)

/-- A character is written by an escape that reads back, or as itself. -/
theorem escape_cases (c : Char) :
    (∃ code, Expr.escape c = ['\\', code] ∧ escape? code = some c) ∨
      Expr.escape c = [c] ∧ c ≠ '"' ∧ c ≠ '\\' := by
  unfold Expr.escape
  split
  · exact .inl ⟨'n', rfl, rfl⟩
  · exact .inl ⟨'t', rfl, rfl⟩
  · exact .inl ⟨'"', rfl, rfl⟩
  · exact .inl ⟨'\\', rfl, rfl⟩
  next _ _ noQuote noSlash => exact .inr ⟨rfl, noQuote, noSlash⟩

theorem quotedBody?_escaped {quote code : Char} (read : escape? code = some c) :
    quotedBody? quote ('\\' :: code :: rest) =
      (quotedBody? quote rest).map fun (contents, width) => (c :: contents, width + 2) := by
  simp only [quotedBody?, read]
  cases quotedBody? quote rest <;> rfl

theorem quotedBody?_plain {quote : Char} (noQuote : c ≠ quote) (noSlash : c ≠ '\\') :
    quotedBody? quote (c :: rest) =
      (quotedBody? quote rest).map fun (contents, width) => (c :: contents, width + 1) := by
  rw [quotedBody?, if_neg noQuote, if_neg noSlash]
  intro other others same
  exact absurd same noSlash

/-- A quoted text is read back, escapes and all. -/
theorem quotedBody?_escape (contents : List Char) :
    quotedBody? '"' (contents.flatMap Expr.escape ++ '"' :: rest) =
      some (contents, (contents.flatMap Expr.escape).length + 1) := by
  induction contents with
  | nil => rfl
  | cons c contents ih =>
    rw [List.flatMap_cons, List.append_assoc]
    rcases escape_cases c with ⟨code, escaped, read⟩ | ⟨plain, noQuote, noSlash⟩
    · rw [escaped]
      show quotedBody? '"' ('\\' :: code :: (contents.flatMap Expr.escape ++ '"' :: rest)) = _
      rw [quotedBody?_escaped read, ih, Option.map_some, List.length_append]
      simp only [List.length_cons, List.length_nil]
      congr 2
      omega
    · rw [plain]
      show quotedBody? '"' (c :: (contents.flatMap Expr.escape ++ '"' :: rest)) = _
      rw [quotedBody?_plain noQuote noSlash, ih, Option.map_some, List.length_append]
      simp only [List.length_cons, List.length_nil]
      congr 2
      omega

theorem lex?_quote (text : String) :
    lex? (Expr.quote text ++ rest) =
      some (.literal (.string text), (Expr.quote text).length) := by
  have front : Expr.quote text ++ rest =
      '"' :: (text.toList.flatMap Expr.escape ++ '"' :: rest) := by
    simp [Expr.quote]
  have length : (Expr.quote text).length = (text.toList.flatMap Expr.escape).length + 1 + 1 := by
    simp [Expr.quote]
  rw [front, length]
  apply lex?_of_literal (blank?_eq_none (by decide))
  rw [literal?, quoted?, if_pos (.inl rfl), quotedBody?_escape, Option.map_some, Option.some_or]
  simp only [String.ofList_toList]

section Names

variable {name : String}

theorem blank?_ne_name : blank? cs ≠ some (.name name, width) := by
  simp only [blank?]
  split <;> simp

theorem literal?_ne_name : literal? cs ≠ some (.name name, width) := by
  intro found
  rcases Option.or_eq_some_iff.mp found with found | ⟨_, found⟩
  · unfold quoted? at found
    split at found
    · split at found
      · obtain ⟨_, _, equal⟩ := Option.map_eq_some_iff.mp found
        cases equal
      · cases found
    · cases found
  · unfold number? at found
    split at found
    · cases found
    · split at found <;> cases found
    · cases found

theorem symbol?_ne_name : symbol? cs ≠ some (.name name, width) := by
  intro found
  obtain ⟨_, _, equal⟩ := Option.map_eq_some_iff.mp found
  cases equal

theorem paren?_ne_name : paren? cs ≠ some (.name name, width) := by
  unfold paren?
  split <;> simp

/-- Only the last reader yields names, after the others have refused. -/
theorem readers_of_name (found : lex? cs = some (.name name, width)) :
    blank? cs = none ∧ literal? cs = none ∧ word? cs = some (.name name, width) := by
  simp only [lex?, readers, List.findSome?_cons, List.findSome?_nil] at found
  split at found
  next refused => exact absurd (refused.trans found) blank?_ne_name
  next noBlank =>
    split at found
    next refused => exact absurd (refused.trans found) literal?_ne_name
    next noLiteral =>
      split at found
      next refused => exact absurd (refused.trans found) symbol?_ne_name
      next =>
        split at found
        next refused => exact absurd (refused.trans found) paren?_ne_name
        next =>
          split at found
          next taken => exact ⟨noBlank, noLiteral, taken.trans found⟩
          next => cases found

theorem number?_ne_none (digit : c.isDigit = true) : number? (c :: rest) ≠ none := by
  intro refused
  simp only [number?, Decimal.digitRun, List.takeWhile_cons, digit, if_true] at refused
  split at refused
  next empty => cases empty
  next => split at refused <;> cases refused
  next => cases refused

theorem symbol_head (symbol : Symbol) :
    ∃ first others, symbol.text.toList = first :: others ∧ startsName first = false := by
  cases symbol <;> exact ⟨_, _, rfl, by decide⟩

theorem symbol?_eq_none (starts : startsName c = true) : symbol? (c :: rest) = none := by
  rw [symbol?, Option.map_eq_none_iff, List.find?_eq_none]
  intro symbol _
  obtain ⟨first, others, text, other⟩ := symbol_head symbol
  have different : first ≠ c := by
    rintro rfl
    rw [starts] at other
    cases other
  simp [text, List.isPrefixOf, different]

theorem lex?_of_startsName (visible : Text.isBlank c = false) (digit : c.isDigit = false)
    (starts : startsName c = true) (found : word? (c :: rest) = some (token, width)) :
    lex? (c :: rest) = some (token, width) := by
  apply lex?_of_word (blank?_eq_none visible) _ (symbol?_eq_none starts) _ found
  · apply literal?_eq_none digit
    · rintro rfl; exact absurd starts (by decide)
    · rintro rfl; exact absurd starts (by decide)
  · rw [paren?]
    · rintro others ⟨⟩; exact absurd starts (by decide)
    · rintro others ⟨⟩; exact absurd starts (by decide)

/-- Characters that the last reader takes as one word. -/
structure WordLike (first : Char) (others : List Char) : Prop where
  visible : Text.isBlank first = false
  digit : first.isDigit = false
  starts : startsName first = true
  continues : ∀ c ∈ others, continuesName c = true

theorem wordLike_of_all {first : Char} {others : List Char}
    (starts : (!Text.isBlank first && !first.isDigit && startsName first) = true)
    (continues : others.all continuesName = true) : WordLike first others := by
  simp only [Bool.and_eq_true, Bool.not_eq_true'] at starts
  exact ⟨starts.1.1, starts.1.2, starts.2, List.all_eq_true.mp continues⟩

theorem lex?_word {word : String} {first : Char} {others : List Char}
    (characters : word.toList = first :: others) (like : WordLike first others)
    (ends : Ends rest) :
    lex? (word.toList ++ rest) = some (wordToken word, word.toList.length) := by
  obtain ⟨taken, _⟩ :=
    takeWhile_append continuesName (by decide) (by decide) like.continues ends
  rw [characters, List.cons_append]
  apply lex?_of_startsName like.visible like.digit like.starts
  simp only [word?, like.starts, if_true, taken]
  rw [← characters, String.ofList_toList]

def IsName (name : String) : Prop := lex? name.toList = some (.name name, name.toList.length)

instance (name : String) : Decidable (IsName name) := inferInstanceAs (Decidable (_ = _))

theorem IsName.wordLike (named : IsName name) :
    ∃ first others, name.toList = first :: others ∧ WordLike first others ∧
      wordToken name = .name name := by
  obtain ⟨noBlank, noLiteral, taken⟩ := readers_of_name named
  unfold word? at taken
  split at taken
  next first others characters =>
    split at taken
    next starts =>
      rw [Option.some.injEq, Prod.mk.injEq, characters, List.length_cons, List.length_cons,
        Nat.add_right_cancel_iff] at taken
      obtain ⟨token, length⟩ := taken
      have whole : others.takeWhile continuesName = others :=
        (List.takeWhile_prefix continuesName).eq_of_length length
      have all := List.all_takeWhile (p := continuesName) (l := others)
      rw [whole] at all token
      rw [← characters, String.ofList_toList] at token
      rw [characters] at noBlank noLiteral
      refine ⟨first, others, characters, ⟨?_, ?_, starts, List.all_eq_true.mp all⟩, token⟩
      · cases visible : Text.isBlank first with
        | false => rfl
        | true => simp [blank?, visible] at noBlank
      · cases digit : first.isDigit with
        | false => rfl
        | true => exact absurd (Option.or_eq_none_iff.mp noLiteral).2 (number?_ne_none digit)
    next => cases taken
  next => cases taken

theorem lex?_name (named : IsName name) (ends : Ends rest) :
    lex? (name.toList ++ rest) = some (.name name, name.toList.length) := by
  obtain ⟨first, others, characters, like, token⟩ := named.wordLike
  rw [lex?_word characters like ends, token]

end Names

end Tripwire.Lexeme
