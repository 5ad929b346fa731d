import Tripwire.Proofs.Token.Family
import Tripwire.Proofs.Token.Position
import Tripwire.Proofs.Token.Scan

/-!
Scanning takes the longest lexeme, again and again.

Cutting a text into the longest lexemes at its front is deterministic
(`Munches.unique`) and goes on until nothing more can be cut (`exists_munches`).
Scanning reports exactly the pieces of that cutting (`scan_of_munches`).
-/

namespace Tripwire

namespace Lexeme

/-- The longest lexeme at the front of a text. -/
structure Longest (cs piece : List Char) (token : Token) : Prop where
  lexeme : IsLexeme piece token
  front : piece <+: cs
  longest : ∀ {other : List Char} {t : Token}, IsLexeme other t → other <+: cs →
    other.length ≤ piece.length

/-- No lexeme stands at the front of a text. -/
def Stuck (cs : List Char) : Prop := ∀ piece token, IsLexeme piece token → ¬piece <+: cs

/-- A text cut into pieces, each the longest lexeme at the front of what is left, up to some
rest. -/
inductive Munches : List Char → List (List Char × Token) → List Char → Prop
  | stop {rest : List Char} : Munches rest [] rest
  | bite {piece cs rest : List Char} {token : Token} {pieces : List (List Char × Token)} :
      Longest (piece ++ cs) piece token → Munches cs pieces rest →
      Munches (piece ++ cs) ((piece, token) :: pieces) rest

def consumed (pieces : List (List Char × Token)) : List Char := pieces.flatMap Prod.fst

theorem consumed_cons (piece : List Char) (token : Token) (pieces : List (List Char × Token)) :
    consumed ((piece, token) :: pieces) = piece ++ consumed pieces := rfl

theorem consumed_append (first second : List (List Char × Token)) :
    consumed (first ++ second) = consumed first ++ consumed second := List.flatMap_append

variable {cs piece rest other : List Char} {token : Token}
  {pieces others : List (List Char × Token)} {cursor : Cursor}

theorem longest_iff :
    Longest (piece ++ cs) piece token ↔ lex? (piece ++ cs) = some (token, piece.length) := by
  constructor
  · intro longest
    obtain ⟨taken, width, found, wide⟩ := lex?_longest longest.lexeme cs
    obtain ⟨within, lexeme⟩ := lex?_sound found
    have narrow := longest.longest lexeme (List.take_prefix _ _)
    rw [List.length_take_of_le within] at narrow
    obtain rfl := Nat.le_antisymm narrow wide
    rw [List.take_left] at lexeme
    have same := (lex?_alone lexeme).symm.trans (lex?_alone longest.lexeme)
    cases same
    exact found
  · intro found
    obtain ⟨_, lexeme⟩ := lex?_sound found
    rw [List.take_left] at lexeme
    refine ⟨lexeme, List.prefix_append _ _, ?_⟩
    rintro other t otherLexeme ⟨rest, glued⟩
    obtain ⟨taken, width, otherFound, wide⟩ := lex?_longest otherLexeme rest
    rw [glued, found] at otherFound
    cases otherFound
    exact wide

theorem stuck_iff : Stuck cs ↔ lex? cs = none := by
  constructor
  · intro stuck
    cases found : lex? cs with
    | none => rfl
    | some result => exact absurd (List.take_prefix _ _) (stuck _ _ (lex?_sound found).2)
  · rintro refused piece token lexeme ⟨rest, rfl⟩
    obtain ⟨taken, width, found, _⟩ := lex?_longest lexeme rest
    rw [refused] at found
    cases found

theorem stuck_nil : Stuck [] := stuck_iff.mpr rfl

theorem Munches.eq_append (munches : Munches cs pieces rest) : cs = consumed pieces ++ rest := by
  induction munches with
  | stop => rfl
  | bite _ _ ih => rw [consumed_cons, List.append_assoc, ← ih]

theorem Munches.whole (munches : Munches cs pieces []) : cs = consumed pieces := by
  rw [munches.eq_append, List.append_nil]

theorem Munches.isLexeme (munches : Munches cs pieces rest) (member : (piece, token) ∈ pieces) :
    IsLexeme piece token := by
  induction munches with
  | stop => cases member
  | bite longest _ ih =>
    rcases List.mem_cons.mp member with same | later
    · cases same
      exact longest.lexeme
    · exact ih later

/-- Every text is cut up to a rest that begins with no lexeme. -/
theorem exists_munches (cs : List Char) : ∃ pieces rest, Munches cs pieces rest ∧ Stuck rest := by
  -- Lexemes are not empty, so what is left gets shorter.
  induction length : cs.length using Nat.strong_induction_on generalizing cs with
  | h size ih =>
    cases found : lex? cs with
    | none => exact ⟨[], cs, .stop, stuck_iff.mpr found⟩
    | some result =>
      obtain ⟨token, width⟩ := result
      obtain ⟨within, lexeme⟩ := lex?_sound found
      have filled := List.length_pos_iff.mpr lexeme.ne_nil
      rw [List.length_take_of_le within] at filled
      obtain ⟨pieces, rest, munches, stuck⟩ :=
        ih (cs.drop width).length (by rw [List.length_drop]; omega) (cs.drop width) rfl
      refine ⟨(cs.take width, token) :: pieces, rest, ?_, stuck⟩
      have glued := List.take_append_drop width cs
      have longest : Longest (cs.take width ++ cs.drop width) (cs.take width) token := by
        rw [longest_iff, glued, List.length_take_of_le within]
        exact found
      have bite := Munches.bite longest munches
      rwa [glued] at bite

theorem Munches.unique {otherRest : List Char} (munches : Munches cs pieces rest)
    (stuck : Stuck rest) (otherMunches : Munches cs others otherRest)
    (otherStuck : Stuck otherRest) : pieces = others ∧ rest = otherRest := by
  induction munches generalizing others with
  | stop =>
    cases otherMunches with
    | stop => exact ⟨rfl, rfl⟩
    | bite longest _ => exact absurd longest.front (stuck _ _ longest.lexeme)
  | @bite piece cs rest token pieces longest _ ih =>
    generalize whole : piece ++ cs = text at otherMunches
    cases otherMunches with
    | stop =>
      subst whole
      exact absurd longest.front (otherStuck _ _ longest.lexeme)
    | bite otherLongest later =>
      have found := longest_iff.mp longest
      rw [whole, longest_iff.mp otherLongest] at found
      obtain ⟨sameToken, sameLength⟩ := Prod.mk.inj (Option.some.inj found)
      obtain ⟨rfl, rfl⟩ := List.append_inj whole sameLength.symm
      obtain ⟨rfl, rfl⟩ := ih stuck later
      rw [sameToken]
      exact ⟨rfl, rfl⟩

theorem munches_alone (lexeme : IsLexeme piece token) : Munches piece [(piece, token)] [] := by
  have longest : Longest (piece ++ []) piece token := by
    rw [longest_iff, List.append_nil]
    exact lex?_alone lexeme
  have bite := Munches.bite longest .stop
  rwa [List.append_nil] at bite

theorem Means.ne_finish {word : String} (means : Means word token) : token ≠ .finish := by
  cases means <;> nofun

theorem IsLexeme.ne_finish (lexeme : IsLexeme piece token) : token ≠ .finish := by
  obtain ⟨family, forms⟩ := lexeme
  cases forms with
  | word _ _ means => exact means.ne_finish
  | _ => nofun

end Lexeme

/-! ### Scanning -/

open Lexeme

variable {cs piece rest : List Char} {token : Token} {pieces : List (List Char × Token)}
  {cursor : Cursor} {l : Located}

/-- Pieces of a text with their places, one behind the other. -/
def locate (cursor : Cursor) : List (List Char × Token) → List Located
  | [] => []
  | (piece, token) :: pieces =>
    ⟨token, cursor, (cursor.advance piece).offset⟩ :: locate (cursor.advance piece) pieces

/-- The end of the input at a place. -/
def finishAt (final : Cursor) : Located := ⟨.finish, final, final.offset⟩

/-- What scanning comes to when a text is cut into pieces up to some rest. -/
def report (cursor : Cursor) (pieces : List (List Char × Token)) (rest : List Char) :
    Except ScanError (List Located) × Cursor :=
  let final := cursor.advance (consumed pieces)
  (if rest = [] then .ok (locate cursor pieces ++ [finishAt final])
    else .error (.unread final rest), final)

theorem report_cons (cursor : Cursor) (piece : List Char) (token : Token)
    (pieces : List (List Char × Token)) (rest : List Char) :
    report cursor ((piece, token) :: pieces) rest =
      ((report (cursor.advance piece) pieces rest).1.map
          (⟨token, cursor, (cursor.advance piece).offset⟩ :: ·),
        (report (cursor.advance piece) pieces rest).2) := by
  have final : cursor.advance (consumed ((piece, token) :: pieces)) =
      (cursor.advance piece).advance (consumed pieces) := by
    rw [consumed_cons, Cursor.advance_append]
  simp only [report, final]
  by_cases ended : rest = []
  · simp only [ended, if_true, locate, List.cons_append, Except.map]
  · simp only [ended, if_false, Except.map]

theorem scan_of_stuck (stuck : Stuck rest) (cursor : Cursor) :
    scan cursor rest = report cursor [] rest := by
  rw [scan]
  by_cases ended : rest = []
  · simp only [report, ended, if_true]
    rfl
  · simp only [report, ended, if_false]
    split
    next => rfl
    next token width found => rw [stuck_iff.mp stuck] at found; cases found

/-- Scanning reports the cutting of a text into longest lexemes. -/
theorem scan_of_munches (munches : Munches cs pieces rest) (stuck : Stuck rest) (cursor : Cursor) :
    scan cursor cs = report cursor pieces rest := by
  induction munches generalizing cursor with
  | stop => exact scan_of_stuck stuck cursor
  | bite longest _ ih =>
    rw [scan_append cursor longest.lexeme.ne_nil (longest_iff.mp longest), ih stuck, report_cons]

theorem report_eq_ok_iff {located : List Located} :
    (report cursor pieces rest).1 = .ok located ↔
      rest = [] ∧ located = locate cursor pieces ++ [finishAt (cursor.advance (consumed pieces))] := by
  by_cases ended : rest = []
  · simp only [report, ended, if_true, Except.ok.injEq, true_and, eq_comm]
  · simp only [report, ended, if_false, reduceCtorEq, false_and]

theorem report_eq_error_iff {error : ScanError} :
    (report cursor pieces rest).1 = .error error ↔
      rest ≠ [] ∧ error = .unread (cursor.advance (consumed pieces)) rest := by
  by_cases ended : rest = []
  · simp only [report, ended, if_true, reduceCtorEq, ne_eq, not_true, false_and]
  · simp only [report, ended, if_false, Except.error.injEq, ne_eq, not_false_iff, true_and,
      eq_comm]

/-- Scanning succeeds exactly if a text is cut into longest lexemes without a rest. -/
theorem scan_eq_ok_iff {located : List Located} :
    (scan cursor cs).1 = .ok located ↔ ∃ pieces, Munches cs pieces [] ∧
      located = locate cursor pieces ++ [finishAt (cursor.advance cs)] := by
  constructor
  · intro scanned
    obtain ⟨pieces, rest, munches, stuck⟩ := exists_munches cs
    rw [scan_of_munches munches stuck, report_eq_ok_iff] at scanned
    obtain ⟨rfl, located⟩ := scanned
    rw [← munches.whole] at located
    exact ⟨pieces, munches, located⟩
  · rintro ⟨pieces, munches, rfl⟩
    rw [scan_of_munches munches stuck_nil, report_eq_ok_iff, ← munches.whole]
    exact ⟨rfl, rfl⟩

/-- Scanning fails exactly where no lexeme stands. -/
theorem scan_eq_error_iff {error : ScanError} :
    (scan cursor cs).1 = .error error ↔ ∃ pieces rest, Munches cs pieces rest ∧ rest ≠ [] ∧
      Stuck rest ∧ error = .unread (cursor.advance (consumed pieces)) rest := by
  constructor
  · intro scanned
    obtain ⟨pieces, rest, munches, stuck⟩ := exists_munches cs
    rw [scan_of_munches munches stuck, report_eq_error_iff] at scanned
    exact ⟨pieces, rest, munches, scanned.1, stuck, scanned.2⟩
  · rintro ⟨pieces, rest, munches, more, stuck, rfl⟩
    rw [scan_of_munches munches stuck, report_eq_error_iff]
    exact ⟨more, rfl⟩

/-! ### Slices -/

/-- The characters of a text that a token is read from. -/
def Located.Slice (l : Located) (cursor : Cursor) (cs piece : List Char) : Prop :=
  ∃ before after, cs = before ++ piece ++ after ∧
    l.start.offset = cursor.offset + bytes before ∧ l.stop = l.start.offset + bytes piece

theorem Located.Slice.unique {other : List Char} (slice : l.Slice cursor cs piece)
    (otherSlice : l.Slice cursor cs other) : piece = other := by
  obtain ⟨before, after, glued, start, stop⟩ := slice
  obtain ⟨otherBefore, otherAfter, otherGlued, otherStart, otherStop⟩ := otherSlice
  rw [glued, List.append_assoc, List.append_assoc] at otherGlued
  obtain ⟨_, tail⟩ := eq_of_bytes otherGlued (by omega)
  exact (eq_of_bytes tail (by omega)).1

theorem mem_locate (member : l ∈ locate cursor pieces) :
    ∃ front piece token back, pieces = front ++ (piece, token) :: back ∧
      l = ⟨token, cursor.advance (consumed front),
        ((cursor.advance (consumed front)).advance piece).offset⟩ := by
  induction pieces generalizing cursor with
  | nil => cases member
  | cons head pieces ih =>
    obtain ⟨piece, token⟩ := head
    rcases List.mem_cons.mp member with rfl | later
    · exact ⟨[], piece, token, pieces, rfl, rfl⟩
    · obtain ⟨front, other, otherToken, back, rfl, rfl⟩ := ih later
      refine ⟨(piece, token) :: front, other, otherToken, back, rfl, ?_⟩
      rw [consumed_cons, Cursor.advance_append]

/-- The tokens of the slice of a token. -/
def Token.alone (token : Token) : List Token :=
  if token = .finish then [.finish] else [token, .finish]

/-- A lexeme by itself is scanned to its token. -/
theorem scan_lexeme (lexeme : IsLexeme piece token) (place : Cursor) :
    ∃ own, (scan place piece).1 = .ok own ∧ own.map (·.token) = token.alone := by
  have scanned := scan_of_munches (munches_alone lexeme) stuck_nil place
  refine ⟨_, congrArg Prod.fst scanned, ?_⟩
  rw [Token.alone, if_neg lexeme.ne_finish]
  rfl

/-- Every token of a text that is cut into lexemes has its slice there. -/
theorem slice_of_munches (munches : Munches cs pieces [])
    (member : l ∈ locate cursor pieces ++ [finishAt (cursor.advance cs)]) :
    ∃ piece, l.Slice cursor cs piece ∧
      ∀ place, ∃ own, (scan place piece).1 = .ok own ∧ own.map (·.token) = l.token.alone := by
  rcases List.mem_append.mp member with inside | last
  · obtain ⟨front, piece, token, back, rfl, rfl⟩ := mem_locate inside
    refine ⟨piece, ⟨consumed front, consumed back, ?_, ?_, ?_⟩, ?_⟩
    · rw [munches.whole, consumed_append, consumed_cons, List.append_assoc]
    · rw [Cursor.offset_advance]
    · rw [Cursor.offset_advance]
    · exact scan_lexeme (munches.isLexeme (List.mem_append_right _ List.mem_cons_self))
  · obtain rfl := List.mem_singleton.mp last
    refine ⟨[], ⟨cs, [], by simp, Cursor.offset_advance cursor cs, rfl⟩, fun place => ?_⟩
    exact ⟨_, scan_nil place, rfl⟩

/-- Scanning succeeds exactly if the text can be cut into longest lexemes, and gives their
tokens; else it fails where no lexeme stands.  The slice of every token is scanned to that
token. -/
theorem scan_longest_lexemes (cursor : Cursor) (cs : List Char) :
    (∀ located, (scan cursor cs).1 = .ok located ↔ ∃ pieces, Munches cs pieces [] ∧
      located = locate cursor pieces ++ [finishAt (cursor.advance cs)]) ∧
    (∀ error, (scan cursor cs).1 = .error error ↔ ∃ pieces rest, Munches cs pieces rest ∧
      rest ≠ [] ∧ Stuck rest ∧ error = .unread (cursor.advance (consumed pieces)) rest) ∧
    ∀ located, (scan cursor cs).1 = .ok located → ∀ l ∈ located,
      (∃ piece, l.Slice cursor cs piece) ∧ ∀ piece, l.Slice cursor cs piece → ∀ place,
        ∃ own, (scan place piece).1 = .ok own ∧ own.map (·.token) = l.token.alone := by
  refine ⟨fun _ => scan_eq_ok_iff, fun _ => scan_eq_error_iff, ?_⟩
  intro located scanned l member
  obtain ⟨pieces, munches, rfl⟩ := scan_eq_ok_iff.mp scanned
  obtain ⟨piece, slice, own⟩ := slice_of_munches munches member
  refine ⟨⟨piece, slice⟩, fun other otherSlice => ?_⟩
  rw [← slice.unique otherSlice]
  exact own

end Tripwire
