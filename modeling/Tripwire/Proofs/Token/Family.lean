import Mathlib.Tactic.IntervalCases
import Tripwire.Proofs.Token.Lexicon

/-!
The families of lexemes together.

A family is known by the first character of its lexemes (`eq_of_opens`), so at the
front of a text at most one reader finds something (`lex?_of_opens`), and what holds
of the reader of each family holds of the choice among them.
-/

namespace Tripwire

namespace Text.Ranges

theorem exists_range_of_has {ranges : Ranges} {code : Nat} (found : ranges.has code = true) :
    ∃ range ∈ ranges, range.1 ≤ code ∧ code ≤ range.2 := by
  induction ranges with
  | nil => cases found
  | cons range rest ih =>
    simp only [has] at found
    split at found
    next => cases found
    next above =>
      rcases Bool.or_eq_true_iff.mp found with below | later
      · exact ⟨range, List.mem_cons_self, Nat.not_lt.mp above, of_decide_eq_true below⟩
      · obtain ⟨other, member, within⟩ := ih later
        exact ⟨other, List.mem_cons_of_mem _ member, within⟩

end Text.Ranges

namespace Lexeme

variable {cs piece rest : List Char} {c : Char} {token : Token} {width : Nat} {family : Family}

namespace Family

def all : List Family := [blank, quoted, number, symbol, paren, word]

/-- The first characters of a family that has finitely many. -/
def marks : Family → List Char
  | quoted => ['"', '\'']
  | number => ['0', '1', '2', '3', '4', '5', '6', '7', '8', '9']
  | symbol => ['=', '!', '>', '<', '&', '|', '+', '-', '*', '/', '%', '~']
  | paren => ['(', ')']
  | blank | word => []

/-- Whether a lexeme of the family can begin with a character. -/
def opens : Family → Char → Bool
  | blank, c => Text.isBlank c
  | word, c => startsName c
  | family, c => family.marks.contains c

theorem mem_all (family : Family) : family ∈ all := by
  cases family <;> decide

theorem eq_of_marks {family other : Family} (mark : c ∈ family.marks)
    (opens : other.opens c = true) : other = family := by
  have table : (all.all fun family => family.marks.all fun c => all.all fun other =>
      !other.opens c || other = family) = true := by decide
  simp only [List.all_eq_true, Bool.or_eq_true, Bool.not_eq_true', decide_eq_true_eq] at table
  rcases table family (mem_all family) c mark other (mem_all other) with closed | same
  · rw [closed] at opens
    cases opens
  · exact same

end Family

theorem mem_marks_of_isDigit (digit : c.isDigit = true) : c ∈ Family.marks .number := by
  simp only [Char.isDigit, Bool.and_eq_true, decide_eq_true_eq, ge_iff_le,
    UInt32.le_iff_toNat_le] at digit
  have between : 48 ≤ c.toNat ∧ c.toNat ≤ 57 := digit
  have back := Char.ofNat_toNat c
  obtain ⟨lower, upper⟩ := between
  interval_cases c.toNat <;> subst back <;> decide

theorem startsName_eq_false_of_isBlank (blank : Text.isBlank c = true) :
    startsName c = false := by
  obtain ⟨range, member, lower, upper⟩ := Text.Ranges.exists_range_of_has blank
  have table : ∀ range ∈ Text.blank, ∀ step < range.2 - range.1 + 1,
      Text.alphabetic.has (range.1 + step) = false ∧ range.1 + step ≠ '_'.toNat := by
    decide +kernel
  obtain ⟨other, noMark⟩ := table range member (c.toNat - range.1) (by omega)
  rw [Nat.add_sub_cancel' lower] at other noMark
  have mark : c ≠ '_' := fun same => noMark (congrArg Char.toNat same)
  simp only [startsName, Text.isAlphabetic, other, mark, decide_false, Bool.or_self]

/-- The first character tells the family. -/
theorem eq_of_opens {other : Family} (opens : family.opens c = true)
    (otherOpens : other.opens c = true) : other = family := by
  cases family with
  | quoted | number | symbol | paren =>
    exact Family.eq_of_marks (List.contains_iff_mem.mp opens) otherOpens
  | blank =>
    cases other with
    | quoted | number | symbol | paren =>
      exact (Family.eq_of_marks (List.contains_iff_mem.mp otherOpens) opens).symm
    | blank => rfl
    | word => exact absurd ((startsName_eq_false_of_isBlank opens).symm.trans otherOpens) nofun
  | word =>
    cases other with
    | quoted | number | symbol | paren =>
      exact (Family.eq_of_marks (List.contains_iff_mem.mp otherOpens) opens).symm
    | blank => exact absurd ((startsName_eq_false_of_isBlank otherOpens).symm.trans opens) nofun
    | word => rfl

theorem Forms.opens (forms : Forms family piece token) :
    ∃ first others, piece = first :: others ∧ family.opens first = true := by
  cases forms with
  | blank filled all =>
    obtain ⟨first, others, rfl⟩ := List.exists_cons_of_ne_nil filled
    exact ⟨first, others, rfl, all first List.mem_cons_self⟩
  | quoted isQuote _ =>
    refine ⟨_, _, rfl, ?_⟩
    rcases isQuote with rfl | rfl <;> decide
  | integer filled digits _ =>
    obtain ⟨first, others, rfl⟩ := List.exists_cons_of_ne_nil filled
    exact ⟨first, others, rfl,
      List.contains_iff_mem.mpr (mem_marks_of_isDigit (digits first List.mem_cons_self))⟩
  | large filled digits _ =>
    obtain ⟨first, others, rfl⟩ := List.exists_cons_of_ne_nil filled
    exact ⟨first, others, rfl,
      List.contains_iff_mem.mpr (mem_marks_of_isDigit (digits first List.mem_cons_self))⟩
  | point filled digits _ _ =>
    obtain ⟨first, others, rfl⟩ := List.exists_cons_of_ne_nil filled
    exact ⟨first, _, rfl,
      List.contains_iff_mem.mpr (mem_marks_of_isDigit (digits first List.mem_cons_self))⟩
  | symbol symbol => cases symbol <;> exact ⟨_, _, rfl, by decide⟩
  | paren paren => cases paren <;> exact ⟨_, _, rfl, by decide⟩
  | word starts _ _ => exact ⟨_, _, rfl, starts⟩

theorem Forms.ne_nil (forms : Forms family piece token) : piece ≠ [] := by
  obtain ⟨first, others, rfl, _⟩ := forms.opens
  exact List.cons_ne_nil _ _

theorem readerOf_eq_none (closed : family.opens c = false) : readerOf family (c :: rest) = none := by
  cases found : readerOf family (c :: rest) with
  | none => rfl
  | some result =>
    obtain ⟨token, width⟩ := result
    obtain ⟨_, forms⟩ := (masters family).sound found
    obtain ⟨first, others, front, opens⟩ := forms.opens
    cases width with
    | zero => cases front
    | succ width =>
      cases front
      exact absurd (closed.symm.trans opens) nofun

/-! ### All families together -/

/-- The readers in their order, the two for constants one after the other. -/
theorem lex?_eq (cs : List Char) :
    lex? cs = Family.all.findSome? fun family => readerOf family cs := by
  simp only [lex?, readers, literal?, Family.all, readerOf, List.findSome?_cons,
    List.findSome?_nil]
  cases blank? cs with
  | some result => rfl
  | none =>
    cases quoted? cs with
    | some result => rfl
    | none => rfl

theorem lex?_of_opens (opens : family.opens c = true) :
    lex? (c :: rest) = readerOf family (c :: rest) := by
  have silent : ∀ other, other ≠ family → readerOf other (c :: rest) = none := by
    intro other different
    apply readerOf_eq_none
    rw [← Bool.not_eq_true]
    exact fun otherOpens => different (eq_of_opens opens otherOpens)
  rw [lex?_eq]
  cases found : readerOf family (c :: rest) <;> cases family <;>
    simp [Family.all, silent, found]

theorem lex?_sound (found : lex? cs = some (token, width)) :
    width ≤ cs.length ∧ IsLexeme (cs.take width) token := by
  rw [lex?_eq] at found
  obtain ⟨family, _, taken⟩ := List.exists_of_findSome?_eq_some found
  obtain ⟨within, forms⟩ := (masters family).sound taken
  exact ⟨within, family, forms⟩

theorem lex?_longest (lexeme : IsLexeme piece token) (rest : List Char) :
    ∃ taken width, lex? (piece ++ rest) = some (taken, width) ∧ piece.length ≤ width := by
  obtain ⟨family, forms⟩ := lexeme
  obtain ⟨first, others, rfl, opens⟩ := forms.opens
  rw [List.cons_append, lex?_of_opens opens]
  exact (masters family).longest rest forms

theorem lex?_alone (lexeme : IsLexeme piece token) : lex? piece = some (token, piece.length) := by
  obtain ⟨family, forms⟩ := lexeme
  obtain ⟨first, others, rfl, opens⟩ := forms.opens
  rw [lex?_of_opens opens]
  exact (masters family).alone forms

theorem IsLexeme.ne_nil (lexeme : IsLexeme piece token) : piece ≠ [] := by
  obtain ⟨family, forms⟩ := lexeme
  exact forms.ne_nil

end Lexeme
end Tripwire
