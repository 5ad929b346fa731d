import Tripwire.Proofs.Token.Lexeme

/-!
The lexemes of the language, family by family.

Of the reader of each family three things are shown (`Masters`): what it takes is a
lexeme, it takes no less than any lexeme of the family that stands at the front of
the text, and it reads a lexeme that stands alone as that lexeme.
-/

namespace Tripwire

namespace Lexeme

inductive Family
  | blank | quoted | number | symbol | paren | word
  deriving DecidableEq

/-- An escape in a string, and the character that it stands for. -/
inductive Escape : Char → Char → Prop
  | newline : Escape 'n' '\n'
  | tab : Escape 't' '\t'
  | double : Escape '"' '"'
  | single : Escape '\'' '\''
  | slash : Escape '\\' '\\'

/-- Characters between two quotes, and the contents that they stand for. -/
inductive Writes (quote : Char) : List Char → List Char → Prop
  | done : Writes quote [] []
  | plain {c : Char} {written contents : List Char} : c ≠ quote → c ≠ '\\' →
      Writes quote written contents → Writes quote (c :: written) (c :: contents)
  | escaped {code c : Char} {written contents : List Char} : Escape code c →
      Writes quote written contents → Writes quote ('\\' :: code :: written) (c :: contents)

/-- What a word stands for. -/
inductive Means : String → Token → Prop
  | truth {word : String} : Text.sameLetters word "true" = true →
      Means word (.literal (.boolean true))
  | falsehood {word : String} : Text.sameLetters word "false" = true →
      Means word (.literal (.boolean false))
  | null : Means "null" (.literal .null)
  | name {word : String} : Text.sameLetters word "true" = false →
      Text.sameLetters word "false" = false → word ≠ "null" → Means word (.name word)

/-- Characters that form a lexeme of a family, and its token. -/
inductive Forms : Family → List Char → Token → Prop
  | blank {run : List Char} : run ≠ [] → (∀ c ∈ run, Text.isBlank c = true) →
      Forms .blank run (.blank (String.ofList run))
  | quoted {quote : Char} {written contents : List Char} : quote = '"' ∨ quote = '\'' →
      Writes quote written contents →
      Forms .quoted (quote :: written ++ [quote]) (.literal (.string (String.ofList contents)))
  | integer {digits : List Char} {n : Int64} : digits ≠ [] → (∀ c ∈ digits, c.isDigit = true) →
      n.toInt = Decimal.value digits → Forms .number digits (.literal (.integer n))
  /-- Digits that are too large for an integer are a float. -/
  | large {digits : List Char} : digits ≠ [] → (∀ c ∈ digits, c.isDigit = true) →
      (∀ n : Int64, n.toInt ≠ Decimal.value digits) →
      Forms .number digits (.literal (.float (Decimal.toFloat ⟨Decimal.value digits, 0⟩)))
  | point {whole fraction : List Char} : whole ≠ [] → (∀ c ∈ whole, c.isDigit = true) →
      fraction ≠ [] → (∀ c ∈ fraction, c.isDigit = true) →
      Forms .number (whole ++ '.' :: fraction) (.literal (.float
        (Decimal.toFloat ⟨Decimal.value (whole ++ fraction), -fraction.length⟩)))
  | symbol (symbol : Symbol) : Forms .symbol symbol.text.toList (.symbol symbol)
  | paren (paren : Paren) : Forms .paren paren.text.toList (.paren paren)
  | word {first : Char} {others : List Char} {token : Token} : startsName first = true →
      (∀ c ∈ others, continuesName c = true) → Means (String.ofList (first :: others)) token →
      Forms .word (first :: others) token

def IsLexeme (piece : List Char) (token : Token) : Prop := ∃ family, Forms family piece token

def readerOf : Family → Reader
  | .blank => blank?
  | .quoted => quoted?
  | .number => number?
  | .symbol => symbol?
  | .paren => paren?
  | .word => word?

/-- A reader takes what a family of lexemes offers. -/
structure Masters (reader : Reader) (family : Family) : Prop where
  sound : ∀ {cs token width}, reader cs = some (token, width) →
    width ≤ cs.length ∧ Forms family (cs.take width) token
  /-- Where a lexeme stands the reader takes no less. -/
  longest : ∀ {piece token} rest, Forms family piece token →
    ∃ taken width, reader (piece ++ rest) = some (taken, width) ∧ piece.length ≤ width
  alone : ∀ {piece token}, Forms family piece token → reader piece = some (token, piece.length)

variable {cs piece rest whole fraction written contents : List Char} {c code quote : Char}
  {token : Token} {width : Nat} {family : Family} {p : Char → Bool}

/-! ### Runs of characters -/

theorem take_takeWhile : cs.take (cs.takeWhile p).length = cs.takeWhile p :=
  (List.prefix_iff_eq_take.mp (List.takeWhile_prefix p)).symm

theorem all_takeWhile : ∀ c ∈ cs.takeWhile p, p c = true :=
  List.all_eq_true.mp List.all_takeWhile

theorem length_takeWhile_le : (cs.takeWhile p).length ≤ cs.length :=
  (List.takeWhile_prefix p).length_le

theorem takeWhile_of_all (all : ∀ c ∈ cs, p c = true) : cs.takeWhile p = cs := by
  rw [← List.append_nil cs, List.takeWhile_append_of_pos all, List.takeWhile_nil]

theorem masters_blank : Masters blank? .blank where
  sound {cs token width} found := by
    simp only [blank?] at found
    split at found
    next => cases found
    next filled =>
      cases found
      rw [take_takeWhile]
      exact ⟨length_takeWhile_le, .blank filled all_takeWhile⟩
  longest {piece token} rest forms := by
    cases forms with
    | blank filled all =>
      have run : (piece ++ rest).takeWhile Text.isBlank = piece ++ rest.takeWhile Text.isBlank :=
        List.takeWhile_append_of_pos all
      simp only [blank?, run, List.append_eq_nil_iff, filled, false_and, if_false]
      exact ⟨_, _, rfl, by simp⟩
  alone {piece token} forms := by
    cases forms with
    | blank filled all => simp only [blank?, takeWhile_of_all all, filled, if_false]

theorem means_wordToken (word : String) : Means word (wordToken word) := by
  unfold wordToken
  split
  next truth => exact .truth truth
  next noTruth =>
    split
    next falsehood => exact .falsehood falsehood
    next noFalsehood =>
      split
      next null => exact null ▸ .null
      next noNull =>
        exact .name (Bool.eq_false_iff.mpr noTruth) (Bool.eq_false_iff.mpr noFalsehood) noNull

theorem Means.wordToken_eq {word : String} (means : Means word token) : wordToken word = token := by
  cases means with
  | truth same => rw [wordToken, if_pos same]
  | falsehood same =>
    have other : ¬Text.sameLetters word "true" = true := by
      intro truth
      simp only [Text.sameLetters, decide_eq_true_eq] at same truth
      exact absurd (truth.symm.trans same) (by decide)
    rw [wordToken, if_neg other, if_pos same]
  | null => decide
  | name noTruth noFalsehood noNull =>
    rw [wordToken, noTruth, noFalsehood, if_neg nofun, if_neg nofun, if_neg noNull]

theorem masters_word : Masters word? .word where
  sound {cs token width} found := by
    unfold word? at found
    split at found
    next first others =>
      split at found
      next starts =>
        cases found
        rw [List.length_cons, List.take_succ_cons, take_takeWhile]
        exact ⟨Nat.succ_le_succ length_takeWhile_le,
          .word starts (all_takeWhile) (means_wordToken _)⟩
      next => cases found
    next => cases found
  longest {piece token} rest forms := by
    cases forms with
    | @word first others _ starts continues _ =>
      have run : (others ++ rest).takeWhile continuesName =
          others ++ rest.takeWhile continuesName :=
        List.takeWhile_append_of_pos continues
      simp only [List.cons_append, word?, starts, if_true, run]
      exact ⟨_, _, rfl, by simp⟩
  alone {piece token} forms := by
    cases forms with
    | word starts continues means =>
      simp only [word?, starts, if_true, takeWhile_of_all continues, means.wordToken_eq]

/-! ### Numbers -/

theorem forms_whole (filled : whole ≠ []) (digits : ∀ c ∈ whole, c.isDigit = true) :
    Forms .number whole (.literal (wholeLiteral whole)) := by
  unfold wholeLiteral
  split
  next n fits => exact .integer filled digits (Integer.toInt_of_narrow? fits)
  next large =>
    refine .large filled digits fun n same => ?_
    rw [← same, Integer.narrow?_toInt] at large
    cases large

/-- The digits at the front, and with a point between them the digits behind. -/
theorem number?_cases (cs : List Char) :
    (cs.takeWhile Char.isDigit = [] ∧ number? cs = none) ∨
      (cs.takeWhile Char.isDigit ≠ [] ∧ number? cs =
        some (.literal (wholeLiteral (cs.takeWhile Char.isDigit)),
          (cs.takeWhile Char.isDigit).length)) ∨
      ∃ rest, cs = cs.takeWhile Char.isDigit ++ '.' :: rest ∧
        cs.takeWhile Char.isDigit ≠ [] ∧ rest.takeWhile Char.isDigit ≠ [] ∧
        number? cs =
          some (.literal (pointLiteral (cs.takeWhile Char.isDigit) (rest.takeWhile Char.isDigit)),
            (cs.takeWhile Char.isDigit).length + 1 + (rest.takeWhile Char.isDigit).length) := by
  have glued := List.takeWhile_append_dropWhile (p := Char.isDigit) (l := cs)
  unfold number? Decimal.digitRun
  split
  next empty => exact .inl ⟨congrArg Prod.fst empty, rfl⟩
  next whole rest filled run =>
    obtain ⟨front, behind⟩ := Prod.mk.inj run
    have some : cs.takeWhile Char.isDigit ≠ [] := fun empty => filled (front.symm.trans empty)
    rw [← front] at filled ⊢
    split
    next => exact .inr (.inl ⟨some, rfl⟩)
    next fraction _ filledFraction other =>
      obtain ⟨digits, _⟩ := Prod.mk.inj other
      refine .inr (.inr ⟨rest, ?_, some, ?_, ?_⟩)
      · rw [← behind, glued]
      · exact fun empty => filledFraction (digits.symm.trans empty)
      · rw [digits]
  next whole rest filled noPoint run =>
    obtain ⟨front, behind⟩ := Prod.mk.inj run
    have some : cs.takeWhile Char.isDigit ≠ [] := fun empty => filled (front.symm.trans empty)
    rw [← front]
    exact .inr (.inl ⟨some, rfl⟩)

theorem wholeLiteral_of_fits {n : Int64} (fits : n.toInt = Decimal.value whole) :
    wholeLiteral whole = .integer n := by
  rw [wholeLiteral, Integer.narrow?_eq_some_iff.mpr fits]

theorem wholeLiteral_of_large (large : ∀ n : Int64, n.toInt ≠ Decimal.value whole) :
    wholeLiteral whole = .float (Decimal.toFloat ⟨Decimal.value whole, 0⟩) := by
  unfold wholeLiteral
  split
  next n fits => exact absurd (Integer.toInt_of_narrow? fits) (large n)
  next => rfl

/-- A reader of numbers takes the digits at the front, whatever follows. -/
theorem number?_of_digits (filled : whole ≠ []) (digits : ∀ c ∈ whole, c.isDigit = true)
    (rest : List Char) :
    ∃ token width, number? (whole ++ rest) = some (token, width) ∧ whole.length ≤ width := by
  have run : (whole ++ rest).takeWhile Char.isDigit = whole ++ rest.takeWhile Char.isDigit :=
    List.takeWhile_append_of_pos digits
  have front : whole.length ≤ ((whole ++ rest).takeWhile Char.isDigit).length := by
    rw [run, List.length_append]
    exact Nat.le_add_right _ _
  rcases number?_cases (whole ++ rest) with ⟨empty, _⟩ | ⟨_, some⟩ | ⟨behind, _, _, _, some⟩
  · rw [run, List.append_eq_nil_iff] at empty
    exact absurd empty.1 filled
  · exact ⟨_, _, some, front⟩
  · refine ⟨_, _, some, ?_⟩
    omega

theorem masters_number : Masters number? .number where
  sound {cs token width} found := by
    rcases number?_cases cs with ⟨_, none⟩ | ⟨filled, some⟩ | ⟨rest, glued, filled, more, some⟩
    · rw [none] at found
      cases found
    · rw [some] at found
      cases found
      rw [take_takeWhile]
      exact ⟨length_takeWhile_le, forms_whole filled all_takeWhile⟩
    · rw [some] at found
      cases found
      have digits : ∀ c ∈ cs.takeWhile Char.isDigit, c.isDigit = true := all_takeWhile
      generalize cs.takeWhile Char.isDigit = whole at glued filled digits
      have cut : cs = (whole ++ '.' :: rest.takeWhile Char.isDigit) ++
          rest.dropWhile Char.isDigit := by
        rw [List.append_assoc, List.cons_append, List.takeWhile_append_dropWhile, ← glued]
      have length : (whole ++ '.' :: rest.takeWhile Char.isDigit).length =
          whole.length + 1 + (rest.takeWhile Char.isDigit).length := by
        rw [List.length_append, List.length_cons, Nat.add_right_comm, Nat.add_assoc]
      rw [← length, cut, List.take_left]
      exact ⟨(List.prefix_append _ _).length_le, .point filled digits more all_takeWhile⟩
  longest {piece token} rest forms := by
    cases forms with
    | integer filled digits _ => exact number?_of_digits filled digits rest
    | large filled digits _ => exact number?_of_digits filled digits rest
    | @point whole fraction filled digits more others =>
      have run : Decimal.digitRun (fraction ++ rest) =
          (fraction ++ rest.takeWhile Char.isDigit, rest.dropWhile Char.isDigit) := by
        rw [Decimal.digitRun, List.takeWhile_append_of_pos others,
          List.dropWhile_append_of_pos others]
      rw [List.append_assoc, List.cons_append, number?, digitRun_append_point digits]
      obtain ⟨_, _, rfl⟩ := List.exists_cons_of_ne_nil filled
      obtain ⟨_, _, rfl⟩ := List.exists_cons_of_ne_nil more
      simp only [run]
      refine ⟨_, _, rfl, ?_⟩
      simp only [List.length_append, List.length_cons]
      omega
  alone {piece token} forms := by
    have ends : Ends [] := trivial
    cases forms with
    | integer filled digits fits =>
      have read := number?_whole filled digits ends
      rwa [List.append_nil, wholeLiteral_of_fits fits] at read
    | large filled digits large =>
      have read := number?_whole filled digits ends
      rwa [List.append_nil, wholeLiteral_of_large large] at read
    | @point whole fraction filled digits more others =>
      have read := number?_point filled digits more others ends
      rw [List.append_nil] at read
      rw [read, List.length_append, List.length_cons, Nat.add_right_comm, Nat.add_assoc]
      rfl

/-! ### Strings -/

theorem escape?_eq_some_iff : escape? code = some c ↔ Escape code c := by
  constructor
  · intro found
    unfold escape? at found
    split at found <;> cases found <;> constructor
  · rintro (_ | _ | _ | _ | _) <;> rfl

theorem quotedBody?_of_writes (noSlash : quote ≠ '\\') (writes : Writes quote written contents)
    (rest : List Char) :
    quotedBody? quote (written ++ quote :: rest) = some (contents, written.length + 1) := by
  induction writes with
  | done =>
    rw [List.nil_append, quotedBody?, if_pos rfl]
    · rfl
    · intro other others same
      exact absurd same noSlash
  | plain noQuote plain _ ih =>
    rw [List.cons_append, quotedBody?_plain noQuote plain, ih]
    rfl
  | escaped escape _ ih =>
    rw [List.cons_append, List.cons_append, quotedBody?_escaped (escape?_eq_some_iff.mpr escape), ih]
    rfl

theorem writes_of_quotedBody? (found : quotedBody? quote cs = some (contents, width)) :
    ∃ written rest, cs = written ++ quote :: rest ∧ Writes quote written contents ∧
      width = written.length + 1 := by
  fun_induction quotedBody? quote cs generalizing contents width with
  | case1 | case3 | case5 => cases found
  | case2 code rest c contents width body escape ih =>
    cases found
    obtain ⟨written, behind, rfl, writes, rfl⟩ := ih body
    exact ⟨_, behind, rfl, .escaped (escape?_eq_some_iff.mp escape) writes, rfl⟩
  | case4 rest =>
    cases found
    exact ⟨[], rest, rfl, .done, rfl⟩
  | case6 c rest _ noQuote noSlash ih =>
    obtain ⟨⟨contents, width⟩, body, equal⟩ := Option.map_eq_some_iff.mp found
    cases equal
    obtain ⟨written, behind, rfl, writes, rfl⟩ := ih body
    exact ⟨_, behind, rfl, .plain noQuote noSlash writes, rfl⟩

theorem quoted?_of_writes (isQuote : quote = '"' ∨ quote = '\'')
    (writes : Writes quote written contents) (rest : List Char) :
    quoted? ((quote :: written ++ [quote]) ++ rest) =
      some (.literal (.string (String.ofList contents)), (quote :: written ++ [quote]).length) := by
  have noSlash : quote ≠ '\\' := by rcases isQuote with rfl | rfl <;> decide
  rw [List.append_assoc, List.cons_append, List.singleton_append, quoted?, if_pos isQuote,
    quotedBody?_of_writes noSlash writes rest]
  simp

theorem masters_quoted : Masters quoted? .quoted where
  sound {cs token width} found := by
    unfold quoted? at found
    split at found
    next quote rest =>
      split at found
      next isQuote =>
        obtain ⟨⟨contents, width⟩, body, equal⟩ := Option.map_eq_some_iff.mp found
        obtain ⟨written, behind, rfl, writes, rfl⟩ := writes_of_quotedBody? body
        cases equal
        have cut : quote :: (written ++ quote :: behind) =
            (quote :: written ++ [quote]) ++ behind := by simp
        have length : written.length + 1 + 1 = (quote :: written ++ [quote]).length := by simp
        rw [length, cut, List.take_left]
        exact ⟨by simp, .quoted isQuote writes⟩
      next => cases found
    next => cases found
  longest {piece token} rest forms := by
    cases forms with
    | quoted isQuote writes => exact ⟨_, _, quoted?_of_writes isQuote writes rest, Nat.le_refl _⟩
  alone {piece token} forms := by
    cases forms with
    | quoted isQuote writes =>
      have read := quoted?_of_writes isQuote writes []
      rwa [List.append_nil] at read

/-! ### Symbols and parentheses -/

/-- In the order in which symbols are tried no longer one comes after a shorter one. -/
theorem pairwise_all :
    Symbol.all.Pairwise fun first later => later.text.toList.length ≤ first.text.toList.length := by
  decide

theorem masters_symbol : Masters symbol? .symbol where
  sound {cs token width} found := by
    obtain ⟨symbol, first, equal⟩ := Option.map_eq_some_iff.mp found
    have front : symbol.text.toList <+: cs :=
      List.isPrefixOf_iff_prefix.mp
        (List.find?_some (p := fun symbol : Symbol => symbol.text.toList.isPrefixOf cs) first)
    cases equal
    rw [← List.prefix_iff_eq_take.mp front]
    exact ⟨front.length_le, .symbol symbol⟩
  longest {piece token} rest forms := by
    cases forms with
    | symbol symbol =>
      let matching := fun other : Symbol =>
        other.text.toList.isPrefixOf (symbol.text.toList ++ rest)
      have front : matching symbol = true :=
        List.isPrefixOf_iff_prefix.mpr (List.prefix_append _ _)
      obtain ⟨first, found⟩ : ∃ first, Symbol.all.find? matching = some first :=
        Option.isSome_iff_exists.mp (List.find?_isSome.mpr ⟨symbol, symbol.mem_all, front⟩)
      refine ⟨.symbol first, first.text.toList.length, congrArg _ found, ?_⟩
      obtain ⟨_, before, behind, all, refused⟩ := List.find?_eq_some_iff_append.mp found
      have ordered := pairwise_all
      have member := symbol.mem_all
      rw [all, List.pairwise_append] at ordered
      rw [all, List.mem_append] at member
      rcases member with early | late
      · have refusal := refused symbol early
        rw [front] at refusal
        cases refusal
      · rcases List.mem_cons.mp late with rfl | later
        · exact Nat.le_refl _
        · exact (List.pairwise_cons.mp ordered.2.1).1 symbol later
  alone {piece token} forms := by
    cases forms with
    | symbol symbol => cases symbol <;> rfl

theorem masters_paren : Masters paren? .paren where
  sound {cs token width} found := by
    unfold paren? at found
    split at found
    next rest => cases found; exact ⟨by simp, .paren .opening⟩
    next rest => cases found; exact ⟨by simp, .paren .closing⟩
    next => cases found
  longest {piece token} rest forms := by
    cases forms with
    | paren paren => cases paren <;> exact ⟨_, _, rfl, Nat.le_refl _⟩
  alone {piece token} forms := by
    cases forms with
    | paren paren => cases paren <;> rfl

theorem masters (family : Family) : Masters (readerOf family) family := by
  cases family with
  | blank => exact masters_blank
  | quoted => exact masters_quoted
  | number => exact masters_number
  | symbol => exact masters_symbol
  | paren => exact masters_paren
  | word => exact masters_word

end Lexeme
end Tripwire
